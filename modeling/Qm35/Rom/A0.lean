import Qm35.Rom.Said

/- Flashing the A0 (`qmrom_a0.c`). The device announces each step it is waiting for; the
   certificates are skipped with empty commands, and the image follows its size. -/
namespace Qm35.Qmrom

open ByteMem Trace

def romCmdA0DownloadRramCmd : UInt8 := 0x40
def chunkSizeA0 : Nat := 1016

/-! `enum A0_RESP` -/

def spiRspWaitDownloadMode : UInt8 := 1
def spiRspWaitForKey1Cert : UInt8 := 2
def spiRspWaitForKey2Cert : UInt8 := 3
def spiRspWaitForImageCert : UInt8 := 4
def spiRspWaitImageSize : UInt8 := 5
def spiRspWaitForImage : UInt8 := 6

def qmromA0PollSoc (h : Handle) : Rom Unit := do
  hstcClear
  pollLoop (do let _ ← qmromSpiTransfer 1) h.retries

/-- `while (retries-- && !out_waiting)` of `qmrom_a0_wait_ready` -/
def a0WaitLoop (h : Handle) : Nat → Rom Unit
  | 0 => pure ()
  | retries + 1 => do
    let flags ← rawFlags
    if flags &&& socOutWaiting = 0 then do
      qmromA0PollSoc h
      a0WaitLoop h retries
    else pure ()

def qmromA0WaitReady (h : Handle) : Rom Int := do
  qmromA0PollSoc h
  a0WaitLoop h h.retries
  let flags ← rawFlags
  pure (if flags &&& socOutWaiting ≠ 0 then 0 else spiErrWaitReadyTimeout)

def qmromA0WriteData (data : List UInt8) : Rom Int := writeFrame data

/-- Poll, pre-read and read: the response is in `sstc` then. -/
def a0Response (h : Handle) : Rom UInt8 := do
  qmromA0PollSoc h
  let _ ← qmromPreRead
  bswapLen
  let _ ← qmromRead
  payload0

/-- A pass of the loop of `qmrom_a0_write_chunks`. -/
def a0ChunkPass (h : Handle) (data : List UInt8) (sent : Nat) (next : Rom Int) : Rom Int := do
  let resp ← a0Response h
  if resp ≠ spiRspWaitForImage then wrongResp resp spiRspWaitForImage spiProtoWrongResp
  else okThen (qmromA0WriteData (chunkAt data sent chunkSizeA0)) next

def qmromA0WriteChunks (h : Handle) (data : List UInt8) : Rom Int :=
  chunkLoop data.length chunkSizeA0 (a0ChunkPass h data) (data.length + 1) 0

/-- The loop of `qmrom_a0_flash_fw` over the responses before the image. -/
def a0RespLoop (h : Handle) : List UInt8 → Rom Int
  | [] => pure 0
  | resp :: rest => do
    let got ← a0Response h
    if got ≠ resp then wrongResp got resp spiProtoWrongResp
    else if resp < spiRspWaitImageSize then okThen (qmromWriteCmd 0) (a0RespLoop h rest)
    else a0RespLoop h rest

def qmromA0FlashFw (h : Handle) (fw : Firmware) : Rom Int :=
  okThen qmromRebootBootloader <|
  okThen (qmromA0WaitReady h) do
    let _ ← qmromPreRead
    bswapLen
    let _ ← qmromRead
    let resp ← payload0
    if resp ≠ spiRspWaitDownloadMode then wrongResp resp spiRspWaitDownloadMode spiProtoWrongResp
    else
      okThen (qmromWriteCmd romCmdA0DownloadRramCmd) <|
      okThen (a0RespLoop h [spiRspWaitForKey1Cert, spiRspWaitForKey2Cert, spiRspWaitForImageCert,
        spiRspWaitImageSize]) <|
      okThen (qmromA0WriteData (bytes32 fw.data.length)) <|
      qmromA0WriteChunks h fw.data

/-! What it says. -/

/-- The load command, the three empty certificates, the size and the image. -/
def a0Load (fw : Firmware) : Language Said :=
  {[.write [romCmdA0DownloadRramCmd]]} *
    ({[.write [0], .write [0], .write [0]]} * ({[.write (bytes32 fw.data.length)]} * chunked [] fw.data))

theorem plain_a0PollSoc (h : Handle) : Plain (qmromA0PollSoc h) := by
  have hxfer : Polls (qmromSpiTransfer 1) := performs_transfer (fun _ hbare => hbare.noWrite) (by decide) (by decide)
  exact plain_poll (hxfer.bind fun _ => Performs.pure' _) _

theorem plain_a0WaitLoop (h : Handle) (retries : Nat) : Plain (a0WaitLoop h retries) := by
  induction retries with
  | zero => exact Performs.pure' _
  | succ retries ih =>
    refine apart_rawFlags.plain.bind fun flags => Performs.ite' (fun _ => ?_) fun _ => Performs.pure' _
    exact (plain_a0PollSoc h).bind fun _ => ih

theorem plain_a0WaitReady (h : Handle) : Plain (qmromA0WaitReady h) := by
  refine (plain_a0PollSoc h).bind fun _ => (plain_a0WaitLoop h _).bind fun _ => ?_
  exact apart_rawFlags.plain.bind fun _ => Performs.pure' _

theorem plain_a0Response (h : Handle) : Plain (a0Response h) := by
  refine (plain_a0PollSoc h).bind fun _ => plain_preRead.bind fun _ => ?_
  exact apart_bswapLen.plain.bind fun _ => plain_read.bind fun _ => apart_payload0.plain

theorem a0WriteChunks_sends (h : Handle) {data : List UInt8} (hdata : data.length ≤ 2147483647) :
    SendsData [] data (qmromA0WriteChunks h data) := by
  refine chunkLoop_sends hdata (by decide) (fun sent next hne hnext => ?_) _ 0
  apply SendsData.listen (plain_a0Response h).listens
  intro resp
  apply SendsData.ite' (fun _ => SendsData.complaint (by decide))
  exact fun _ => sends_chunk hne hnext

theorem a0RespLoop_emits (h : Handle) (resps : List UInt8) : Emits Machine.said (a0RespLoop h resps)
    {(resps.filter (· < spiRspWaitImageSize)).map fun _ => .write [0]} := by
  induction resps with
  | nil => exact Emits.ok
  | cons resp rest ih =>
    refine (plain_a0Response h).silent.followed fun got => Says.ite' (fun _ => wrongResp_emits (by decide)) fun _ => ?_
    refine Says.ite' (fun hlt => ?_) fun hge => ?_
    · rw [List.filter_cons_of_pos (by simpa using hlt), List.map_cons]
      refine Emits.mono ((writeFrame_emits _).okThen ih) ?_
      intro os hos
      obtain ⟨a, ha, b, hb, rfl⟩ := Language.mem_mul.mp hos
      cases ha
      cases hb
      rfl
    · rw [List.filter_cons_of_neg (by simpa using hge)]
      exact ih

theorem a0FlashFw_emits (h : Handle) (fw : Firmware) :
    Emits Machine.said (qmromA0FlashFw h fw) (a0Load fw) := by
  refine Emits.silent_okThen listens_reboot.silent (Emits.silent_okThen (plain_a0WaitReady h).silent ?_)
  refine plain_preRead.silent.followed fun _ => apart_bswapLen.listens.silent.followed fun _ => ?_
  refine plain_read.silent.followed fun _ => apart_payload0.listens.silent.followed fun resp => ?_
  refine Says.ite' (fun _ => wrongResp_emits (by decide)) fun _ => ?_
  refine (writeFrame_emits _).okThen ((a0RespLoop_emits h _).okThen ((writeFrame_emits _).okThen ?_))
  exact (a0WriteChunks_sends h fw.fits).emits

end Qm35.Qmrom
