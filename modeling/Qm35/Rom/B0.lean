import Qm35.Rom.Unstitch

/- Flashing the B0 (`qmrom_b0.c`). Before each chunk the device is polled, and its
   response must be the one for the section being sent. -/
namespace Qm35.Qmrom

open ByteMem Trace

/-! `enum B0_CMD` -/

def romCmdB0SecLoadIcvImgToRram : UInt8 := 0x0
def romCmdB0SecLoadOemImgToRram : UInt8 := 0x1
def romCmdB0SecImageData : UInt8 := 0xf
def romCmdB0CertData : UInt8 := 0x10

def chunkSizeB0 : Nat := 1008

def qmromB0PollSoc (h : Handle) : Rom Unit := do
  hstcClear
  pollLoop (do let len ← hstcLen; let _ ← qmromSpiTransfer (sizeofStc + len)) h.retries

/-- The loop of `qmrom_b0_wait_ready`, with the result of a read that fails. -/
def b0WaitLoop (h : Handle) : Nat → Rom (Option Int)
  | 0 => pure none
  | retries + 1 => do
    let flags ← rawFlags
    if flags = spiShReadyCmdBitMask then pure none
    else if flags &&& socOutWaiting ≠ 0 then do
      let _ ← qmromPreRead
      b0WaitLoop h retries
    else if flags &&& socOutActive ≠ 0 then do
      let rc ← qmromRead
      if rc ≠ 0 then pure (some rc) else b0WaitLoop h retries
    else do
      qmromB0PollSoc h
      b0WaitLoop h retries

def qmromB0WaitReady (h : Handle) : Rom Int := do
  qmromB0PollSoc h
  match ← b0WaitLoop h h.retries with
  | some rc => pure rc
  | none =>
    let flags ← rawFlags
    pure (if flags = spiShReadyCmdBitMask then 0 else spiErrWaitReadyTimeout)

/-- A pass of the loop of `qmrom_b0_flash_data`. -/
def b0DataPass (h : Handle) (data : List UInt8) (cmd exp : UInt8) (sent : Nat) (next : Rom Int) : Rom Int := do
  qmromB0PollSoc h
  let _ ← qmromPreRead
  let _ ← qmromRead
  let resp ← payload0
  if resp ≠ exp then wrongData resp exp
  else okThen (qmromWriteSizeCmd cmd (chunkAt data sent chunkSizeB0)) next

def qmromB0FlashData (h : Handle) (fw : Section) (cmd exp : UInt8) : Rom Int :=
  chunkLoop fw.data.length chunkSizeB0 (b0DataPass h fw.data cmd exp) (fw.data.length + 1) 0

def b0FlashCmd (h : Handle) : UInt8 :=
  if h.lcsState = ccBsvSecureLcs then romCmdB0SecLoadOemImgToRram else romCmdB0SecLoadIcvImgToRram

/-- `qmrom_b0_flash_unstitched_fw` up to its `end:`. -/
def b0FlashSections (h : Handle) (fws : UnstitchedFirmware) : Rom Int :=
  okThen (keyTypeCheck h fws.key1Crt) <|
  okThen (qmromB0WaitReady h) <|
  okThen (qmromWriteCmd (b0FlashCmd h)) <|
  okThen (qmromB0FlashData h fws.key1Crt romCmdB0CertData waitingForFirstKeyCert) <|
  okThen (qmromB0FlashData h fws.key2Crt romCmdB0CertData waitingForSecondKeyCert) <|
  okThen (qmromB0FlashData h fws.fwCrt romCmdB0CertData waitingForContentCert) <|
  qmromB0FlashData h fws.fwImg romCmdB0SecImageData waitingForSecFileData

def qmromB0FlashUnstitchedFw (h : Handle) (fws : UnstitchedFirmware) : Rom Int := do
  let rc ← b0FlashSections h fws
  freeSections fws
  pure rc

def qmromB0FlashFw (h : Handle) (fw : Firmware) : Rom Int := do
  match ← qmromUnstitchFw fw.data h.chipRev with
  | .error rc => pure rc
  | .ok fws => qmromB0FlashUnstitchedFw h fws

/-! What it says. -/

/-- The load command, and the sections in order. -/
def b0Load (h : Handle) (fws : UnstitchedFirmware) : Language Said :=
  {[.write [b0FlashCmd h]]} *
    (chunked [romCmdB0CertData] fws.key1Crt.data * (chunked [romCmdB0CertData] fws.key2Crt.data *
      (chunked [romCmdB0CertData] fws.fwCrt.data * chunked [romCmdB0SecImageData] fws.fwImg.data)))

theorem plain_b0PollSoc (h : Handle) : Plain (qmromB0PollSoc h) :=
  plain_poll (polls_hstcLen (polls_header.bind fun _ => Performs.pure' _)) _

theorem plain_b0WaitLoop (h : Handle) (retries : Nat) : Plain (b0WaitLoop h retries) := by
  induction retries with
  | zero => exact Performs.pure' _
  | succ retries ih =>
    refine apart_rawFlags.plain.bind fun flags => Performs.ite' (fun _ => Performs.pure' _) fun _ => ?_
    refine Performs.ite' (fun _ => ?_) fun _ => Performs.ite' (fun _ => ?_) fun _ => ?_
    · exact plain_preRead.bind fun _ => ih
    · exact plain_read.bind fun rc => Performs.ite' (fun _ => Performs.pure' _) fun _ => ih
    · exact (plain_b0PollSoc h).bind fun _ => ih

theorem plain_b0WaitReady (h : Handle) : Plain (qmromB0WaitReady h) := by
  refine (plain_b0PollSoc h).bind fun _ => (plain_b0WaitLoop h _).bind fun r => ?_
  cases r with
  | some rc => exact Performs.pure' _
  | none => exact apart_rawFlags.plain.bind fun _ => Performs.pure' _

theorem b0FlashData_sends (h : Handle) {fw : Section} (hdata : fw.data.length ≤ 2147483647) (cmd exp : UInt8) :
    SendsData [cmd] fw.data (qmromB0FlashData h fw cmd exp) := by
  refine chunkLoop_sends hdata (by decide) (fun sent next hne hnext => ?_) _ 0
  apply SendsData.listen (plain_b0PollSoc h).listens
  intro _
  apply SendsData.listen plain_preRead.listens
  intro _
  apply SendsData.listen plain_read.listens
  intro _
  apply SendsData.listen apart_payload0.listens
  intro resp
  exact SendsData.ite' (fun _ => wrongData_sends) fun _ => sends_chunk hne hnext

theorem b0FlashUnstitchedFw_emits (h : Handle) {fws : UnstitchedFirmware} (hfit : SectionsFit fws) :
    Emits Machine.said (qmromB0FlashUnstitchedFw h fws) (b0Load h fws) := by
  have hk1 := hfit fws.key1Crt (by simp)
  have hk2 := hfit fws.key2Crt (by simp)
  have hcrt := hfit fws.fwCrt (by simp)
  have himg := hfit fws.fwImg (by simp)
  apply emits_freeSections
  refine Emits.silent_okThen (silent_keyTypeCheck h _) (Emits.silent_okThen (plain_b0WaitReady h).silent ?_)
  refine (writeFrame_emits _).okThen ((b0FlashData_sends h hk1 _ _).emits.okThen ?_)
  refine (b0FlashData_sends h hk2 _ _).emits.okThen ?_
  exact (b0FlashData_sends h hcrt _ _).emits.okThen (b0FlashData_sends h himg _ _).emits

end Qm35.Qmrom
