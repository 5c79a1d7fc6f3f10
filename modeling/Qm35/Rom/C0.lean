import Qm35.Rom.Unstitch

/- Flashing the C0 (`qmrom_c0.c`). The load command is answered with a request for the
   first key certificate; each chunk is answered with the response for what comes next,
   and after the last chunk of the image nothing is read any more.

   The path for another answer to the load command goes to `end:` with `rc` still 0,
   unlike the same path in `qmrom_c0_flash_data`. -/
namespace Qm35.Qmrom

open ByteMem Trace

/-! `enum C0_CMD` -/

def romCmdC0SecLoadIcvImgToRram : Nat := 0x0
def romCmdC0SecLoadOemImgToRram : Nat := 0x1
def romCmdC0UseIndirectRramWr : Nat := 0x6
def romCmdC0SecImageData : UInt8 := 0x12
def romCmdC0CertData : UInt8 := 0x13

def chunkSizeC0 : Nat := 2040

/-- `SPI_SH_READY_CMD_BIT_MASK_C0` -/
def spiShReadyCmdBitMaskC0 : UInt8 := spiShReadyCmdBitMask >>> 4 ||| spiShReadyCmdBitMask

/-- The macros that wait for the ready line before a frame, whatever comes of it. -/
def afterReadyLine (x : Rom Int) : Rom Int := do
  let _ ← qmromSpiWaitForReadyLine
  x

def qmromPreReadC0 : Rom Int := afterReadyLine qmromPreRead

def qmromReadC0 : Rom Int := afterReadyLine qmromRead

def qmromWriteCmd32C0 (cmd : Nat) : Rom Int := afterReadyLine (qmromWriteCmd32 cmd)

def qmromWriteSizeCmd32C0 (cmd : Nat) (data : List UInt8) : Rom Int := afterReadyLine (qmromWriteSizeCmd32 cmd data)

def qmromC0PollSoc (h : Handle) : Rom Unit := do
  hstcClear
  setRawFlags 0
  let xfer : Rom Unit := do
    let rc ← qmromSpiWaitForReadyLine
    if rc ≠ 0 then pure ()
    else do
      let len ← hstcLen
      let _ ← qmromSpiTransfer (sizeofStc + len)
  pollLoop xfer h.retries

/-- The loop of `qmrom_c0_wait_ready`, with the result of the read it returns. -/
def c0WaitLoop (h : Handle) : Nat → Rom (Option Int)
  | 0 => pure none
  | retries + 1 => do
    let flags ← rawFlags
    if flags = spiShReadyCmdBitMaskC0 then pure none
    else if flags &&& socOutWaiting ≠ 0 then do
      let _ ← qmromPreReadC0
      let _ ← qmromReadC0
      c0WaitLoop h retries
    else if flags &&& socOutActive ≠ 0 then do
      let rc ← qmromReadC0
      pure (some rc)
    else do
      qmromC0PollSoc h
      c0WaitLoop h retries

def qmromC0WaitReady (h : Handle) : Rom Int := do
  qmromC0PollSoc h
  match ← c0WaitLoop h h.retries with
  | some rc => pure rc
  | none =>
    let flags ← rawFlags
    pure (if flags = spiShReadyCmdBitMaskC0 then 0 else spiErrWaitReadyTimeout)

/-- One pass of the loop of `qmrom_c0_poll_cmd_resp`, and what follows it. -/
def c0RespPass (h : Handle) (next : Rom Int) : Rom Int := do
  let flags ← rawFlags
  if flags &&& socOutWaiting ≠ 0 then do
    let _ ← qmromPreReadC0
    qmromReadC0
  else do
    qmromC0PollSoc h
    next

/-- The loop leaves `retries` at -1, for which the function returns -1. -/
def c0RespLoop (h : Handle) : Nat → Rom Int
  | 0 => c0RespPass h (pure (-1))
  | retries + 1 => c0RespPass h (c0RespLoop h retries)

def qmromC0PollCmdResp (h : Handle) : Rom Int := do
  qmromC0PollSoc h
  c0RespLoop h h.retries

/-- A pass of the loop of `qmrom_c0_flash_data`, which may end the loop with a `break`. -/
def c0DataPass (h : Handle) (data : List UInt8) (cmd resp : UInt8) (skipLastCheck : Bool) (sent : Nat)
    (next : Rom Int) : Rom Int :=
  okThen (qmromWriteSizeCmd32C0 cmd.toNat (chunkAt data sent chunkSizeC0)) <|
  let sent := sent + txBytes data.length sent chunkSizeC0
  if skipLastCheck ∧ sent = data.length ∧ sent < 2147483648 then pure 0
  else do
    qmromC0PollSoc h
    let _ ← qmromPreReadC0
    let _ ← qmromReadC0
    let got ← payload0
    if got ≠ resp then wrongData got resp else next

def qmromC0FlashData (h : Handle) (fw : Section) (cmd resp : UInt8) (skipLastCheck : Bool) : Rom Int :=
  chunkLoop fw.data.length chunkSizeC0 (c0DataPass h fw.data cmd resp skipLastCheck) (fw.data.length + 1) 0

def c0FlashCmd (h : Handle) : Nat :=
  if h.lcsState = ccBsvSecureLcs then romCmdC0SecLoadOemImgToRram else romCmdC0SecLoadIcvImgToRram

/-- `qmrom_c0_flash_fw` from the unstitched sections to the answer to the load command. -/
def c0LoadResponse (h : Handle) (fws : UnstitchedFirmware) : Rom (Except Int UInt8) :=
  okElse (keyTypeCheck h fws.key1Crt) <|
  okElse (qmromC0WaitReady h) <|
  okElse (qmromWriteCmd32C0 romCmdC0UseIndirectRramWr) do
    qmromC0PollSoc h
    let _ ← qmromPreReadC0
    let _ ← qmromReadC0
    qmromC0PollSoc h
    okElse (qmromWriteCmd32C0 (c0FlashCmd h)) do
      let _ ← qmromC0PollCmdResp h
      let resp ← payload0
      pure (.ok resp)

/-- From there to `end:`. -/
def c0FlashSections (h : Handle) (fws : UnstitchedFirmware) (resp : UInt8) : Rom Int :=
  -- `rc` is the result of the load command here, which is 0
  if resp ≠ waitingForFirstKeyCert then wrongResp resp waitingForFirstKeyCert 0
  else do
    qmromC0PollSoc h
    okThen (qmromC0FlashData h fws.key1Crt romCmdC0CertData waitingForSecondKeyCert false) <|
      okThen (qmromC0FlashData h fws.key2Crt romCmdC0CertData waitingForContentCert false) <|
      okThen (qmromC0FlashData h fws.fwCrt romCmdC0CertData waitingForSecFileData false) <|
      qmromC0FlashData h fws.fwImg romCmdC0SecImageData waitingForSecFileData true

def qmromC0FlashFw (h : Handle) (fw : Firmware) : Rom Int := do
  match ← qmromUnstitchFw fw.data h.chipRev with
  | .error rc => pure rc
  | .ok fws => do
    let rc ← match ← c0LoadResponse h fws with
      | .error rc => pure rc
      | .ok resp => c0FlashSections h fws resp
    freeSections fws
    pure rc

/-! What it says. -/

/-- The RRAM mode and the load command, and the sections in order. -/
def c0Load (h : Handle) (fws : UnstitchedFirmware) : Language Said :=
  ({[.write (bytes32 romCmdC0UseIndirectRramWr)]} * {[.write (bytes32 (c0FlashCmd h))]}) *
    (chunked (bytes32 romCmdC0CertData.toNat) fws.key1Crt.data *
      (chunked (bytes32 romCmdC0CertData.toNat) fws.key2Crt.data *
        (chunked (bytes32 romCmdC0CertData.toNat) fws.fwCrt.data *
          chunked (bytes32 romCmdC0SecImageData.toNat) fws.fwImg.data)))

theorem plain_afterReadyLine {x : Rom Int} (hx : Plain x) : Plain (afterReadyLine x) :=
  apart_readyLine.plain.bind fun _ => hx

theorem afterReadyLine_adds {x : Rom Int} {post : Int → Machine → List Said → Prop}
    (hx : Says Machine.said (fun _ => True) x post) : Says Machine.said (fun _ => True) (afterReadyLine x) post :=
  apart_readyLine.listens.silent.followed fun _ => hx

theorem afterReadyLine_emits {x : Rom Int} {L : Language Said} (hx : Emits Machine.said x L) :
    Emits Machine.said (afterReadyLine x) L :=
  afterReadyLine_adds hx

theorem plain_preReadC0 : Plain qmromPreReadC0 := plain_afterReadyLine plain_preRead

theorem plain_readC0 : Plain qmromReadC0 := plain_afterReadyLine plain_read

theorem plain_c0PollSoc (h : Handle) : Plain (qmromC0PollSoc h) := by
  refine Performs.forget (J := HstcIs Bare) (performs_hstcClear.bind fun _ => (apart_setRawFlags 0 _).bind fun _ => ?_)
  refine polls_pollLoop ((apart_readyLine _).bind fun rc => Performs.ite' (fun _ => Performs.pure' _) fun _ => ?_) _
  exact polls_hstcLen (polls_header.bind fun _ => Performs.pure' _)

theorem plain_c0WaitLoop (h : Handle) (retries : Nat) : Plain (c0WaitLoop h retries) := by
  induction retries with
  | zero => exact Performs.pure' _
  | succ retries ih =>
    refine apart_rawFlags.plain.bind fun flags => Performs.ite' (fun _ => Performs.pure' _) fun _ => ?_
    refine Performs.ite' (fun _ => ?_) fun _ => Performs.ite' (fun _ => ?_) fun _ => ?_
    · exact plain_preReadC0.bind fun _ => plain_readC0.bind fun _ => ih
    · exact plain_readC0.bind fun rc => Performs.pure' _
    · exact (plain_c0PollSoc h).bind fun _ => ih

theorem plain_c0WaitReady (h : Handle) : Plain (qmromC0WaitReady h) := by
  refine (plain_c0PollSoc h).bind fun _ => (plain_c0WaitLoop h _).bind fun r => ?_
  cases r with
  | some rc => exact Performs.pure' _
  | none => exact apart_rawFlags.plain.bind fun _ => Performs.pure' _

theorem plain_c0RespPass (h : Handle) {next : Rom Int} (hnext : Plain next) : Plain (c0RespPass h next) := by
  refine apart_rawFlags.plain.bind fun flags => Performs.ite' (fun _ => ?_) fun _ => ?_
  · exact plain_preReadC0.bind fun _ => plain_readC0
  · exact (plain_c0PollSoc h).bind fun _ => hnext

theorem plain_c0PollCmdResp (h : Handle) : Plain (qmromC0PollCmdResp h) := by
  have hloop : ∀ retries, Plain (c0RespLoop h retries) := by
    intro retries
    induction retries with
    | zero => exact plain_c0RespPass h (Performs.pure' _)
    | succ retries ih => exact plain_c0RespPass h ih
  exact (plain_c0PollSoc h).bind fun _ => hloop _

theorem c0FlashData_sends (h : Handle) {fw : Section} (hdata : fw.data.length ≤ 2147483647) (cmd resp : UInt8)
    (skipLastCheck : Bool) :
    SendsData (bytes32 cmd.toNat) fw.data (qmromC0FlashData h fw cmd resp skipLastCheck) := by
  refine chunkLoop_sends hdata (by decide) (fun sent next hne hnext => ?_) _ 0
  rw [← chunkAt_append fw.data sent chunkSizeC0]
  apply SendsData.chunk hne ?_ (afterReadyLine_adds (writeFrame_adds _))
  apply SendsData.ite'
  · -- the last chunk of the image: the rest is empty
    intro hlast
    rw [List.drop_eq_nil_of_le (Nat.le_of_eq hlast.2.1.symm)]
    exact SendsData.done
  · intro _
    apply SendsData.listen (plain_c0PollSoc h).listens
    intro _
    apply SendsData.listen plain_preReadC0.listens
    intro _
    apply SendsData.listen plain_readC0.listens
    intro _
    apply SendsData.listen apart_payload0.listens
    intro got
    exact SendsData.ite' (fun _ => wrongData_sends) fun _ => hnext

theorem c0LoadResponse_yields (h : Handle) (fws : UnstitchedFirmware) :
    Yields Machine.said (c0LoadResponse h fws)
      ({[.write (bytes32 romCmdC0UseIndirectRramWr)]} * {[.write (bytes32 (c0FlashCmd h))]}) := by
  refine Yields.silent_okElse (silent_keyTypeCheck h _) (Yields.silent_okElse (plain_c0WaitReady h).silent ?_)
  refine Yields.okElse (afterReadyLine_emits (writeFrame_emits _)) ?_
  refine (plain_c0PollSoc h).silent.followed fun _ => plain_preReadC0.silent.followed fun _ => ?_
  refine plain_readC0.silent.followed fun _ => (plain_c0PollSoc h).silent.followed fun _ => ?_
  rw [← mul_one ({[.write (bytes32 (c0FlashCmd h))]} : Language Said)]
  refine Yields.okElse (afterReadyLine_emits (writeFrame_emits _)) ?_
  exact (plain_c0PollCmdResp h).silent.followed fun _ => apart_payload0.listens.silent.followed fun resp => Yields.ok resp

/-- After the expected answer the sections are sent. -/
theorem c0FlashSections_emits (h : Handle) {fws : UnstitchedFirmware} (hfit : SectionsFit fws) :
    Emits Machine.said (c0FlashSections h fws waitingForFirstKeyCert)
      (chunked (bytes32 romCmdC0CertData.toNat) fws.key1Crt.data *
        (chunked (bytes32 romCmdC0CertData.toNat) fws.key2Crt.data *
          (chunked (bytes32 romCmdC0CertData.toNat) fws.fwCrt.data *
            chunked (bytes32 romCmdC0SecImageData.toNat) fws.fwImg.data))) := by
  have hk1 := hfit fws.key1Crt (by simp)
  have hk2 := hfit fws.key2Crt (by simp)
  have hcrt := hfit fws.fwCrt (by simp)
  have himg := hfit fws.fwImg (by simp)
  unfold c0FlashSections
  rw [if_neg (not_not.mpr rfl)]
  refine (plain_c0PollSoc h).silent.followed fun _ => ?_
  refine (c0FlashData_sends h hk1 _ _ _).emits.okThen ((c0FlashData_sends h hk2 _ _ _).emits.okThen ?_)
  exact (c0FlashData_sends h hcrt _ _ _).emits.okThen (c0FlashData_sends h himg _ _ _).emits

end Qm35.Qmrom
