import Qm35.Rom.Ready

/- Debug certificates: written to the device by `qmrom_flash_dbg_cert`, and erased by
   `qmrom_erase_dbg_cert`. Both wait for the device first, and report an error where it
   does not become ready; the certificate follows its size, and is sent like a section
   of the firmware.

   Not all of what can go wrong is reported. Both flash functions drop the result of
   `qmrom_b0_flash_data` and of `qmrom_c0_flash_data`; on the C0 a wrong response to a
   command that was written is reported as 0, and the result of writing the size is
   dropped where the response to it is right. Both waits may return 0 though no header
   with the ready mask was received. And `qmrom_b0_erase_debug_cert` tests the wait the
   wrong way round: it goes on where the device did not become ready, and returns 0
   where it did. -/
namespace Qm35.Qmrom

open ByteMem Trace

def romCmdB0EraseDbgCert : UInt8 := 0x4
def romCmdB0WriteDbgCert : UInt8 := 0x5
def romCmdB0DebugCertSize : UInt8 := 0x11

def romCmdC0EraseDbgCert : Nat := 0x4
def romCmdC0WriteDbgCert : Nat := 0x7
def romCmdC0DebugCertSize : Nat := 0x14

def waitingForDebugCertData : UInt8 := 0x14
def waitingToDebugCertificateSize : UInt8 := 0x1E

/-- What the flash functions send in chunks. -/
def certSection (cert : Firmware) : Section := ⟨0, cert.data⟩

theorem certSection_fits (cert : Firmware) : (certSection cert).data.length ≤ 2147483647 := cert.fits

/-! The B0. -/

/-- `qmrom_b0_flash_debug_cert` up to the data. -/
def b0CertStart (h : Handle) (cert : Firmware) : Rom Int :=
  okThen (qmromB0WaitReady h) <|
  okThen (qmromWriteCmd romCmdB0WriteDbgCert) do
    qmromB0PollSoc h
    let _ ← qmromPreRead
    let _ ← qmromRead
    let rc ← qmromWriteSizeCmd romCmdB0DebugCertSize (bytes32 cert.data.length)
    let resp ← payload0
    if resp ≠ waitingToDebugCertificateSize then
      wrongResp resp waitingToDebugCertificateSize spiProtoWrongResp
    else pure rc

def b0CertData (h : Handle) (cert : Firmware) : Rom Int :=
  qmromB0FlashData h (certSection cert) romCmdB0CertData waitingForDebugCertData

def qmromB0FlashDebugCert (h : Handle) (cert : Firmware) : Rom Int :=
  okThen (b0CertStart h cert) do
    let _ ← b0CertData h cert
    pure 0

def qmromB0EraseDebugCert (h : Handle) : Rom Int := do
  let rc ← qmromB0WaitReady h
  if rc = 0 then pure rc
  else okThen (qmromWriteCmd romCmdB0EraseDbgCert) (pure 0)

/-! The C0. -/

/-- `qmrom_c0_flash_debug_cert` up to the answer to `ROM_CMD_C0_WRITE_DBG_CERT`. -/
def c0CertCommand (h : Handle) : Rom Int :=
  okThen (qmromC0WaitReady h) <|
  okThen (qmromWriteCmd32C0 romCmdC0UseIndirectRramWr) do
    qmromC0PollSoc h
    let _ ← qmromPreReadC0
    let _ ← qmromReadC0
    qmromC0PollSoc h
    okThen (qmromWriteCmd32C0 romCmdC0WriteDbgCert) do
      let _ ← qmromC0PollCmdResp h
      pure 0

/-- The size, and the answer to it. -/
def c0CertSize (h : Handle) (cert : Firmware) : Rom Int := do
  let rc ← qmromWriteSizeCmd32C0 romCmdC0DebugCertSize (bytes32 cert.data.length)
  let _ ← qmromC0PollCmdResp h
  pure rc

def c0CertData (h : Handle) (cert : Firmware) : Rom Int :=
  qmromC0FlashData h (certSection cert) romCmdC0CertData waitingForDebugCertData true

def qmromC0FlashDebugCert (h : Handle) (cert : Firmware) : Rom Int :=
  okThen (c0CertCommand h) do
    let resp ← payload0
    -- `rc` is the result of the command here, which is 0
    if resp ≠ waitingToDebugCertificateSize then wrongResp resp waitingToDebugCertificateSize 0
    else do
      let rc ← c0CertSize h cert
      let resp ← payload0
      if resp ≠ waitingForDebugCertData then wrongResp resp waitingForDebugCertData rc
      else do
        let _ ← c0CertData h cert
        pure 0

def qmromC0EraseDebugCert (h : Handle) : Rom Int :=
  okThen (qmromC0WaitReady h) <|
  okThen (qmromWriteCmd32C0 romCmdC0EraseDbgCert) (pure 0)

/-! Both, through `rom_ops`: `flash_debug_cert` and `erase_debug_cert` are set together with
`flash_fw`, on the A0 to `NULL`. -/

def qmromFlashDbgCert (h : Handle) (cert : Firmware) : Rom Int :=
  match h.flashFw with
  | some .b0 => qmromB0FlashDebugCert h cert
  | some .c0 => qmromC0FlashDebugCert h cert
  | some .a0 | none => pure eInval

def qmromEraseDbgCert (h : Handle) : Rom Int :=
  match h.flashFw with
  | some .b0 => qmromB0EraseDebugCert h
  | some .c0 => qmromC0EraseDebugCert h
  | some .a0 | none => pure eInval

/-! What success should mean. -/

/-- The device becomes ready: in the wait of both operations the last header received has the ready mask. -/
def BecomesReady (p : SocProbe) (h : Handle) (m : Machine) : Prop :=
  ∃ rc m' os, p.waitReady h m = some (rc, m') ∧ m'.heard = m.heard ++ os ∧ lastHeader (xfers os) = some p.readyMask

/-- Both operations wait, on the B0 and on the C0. -/
def DeviceReady (h : Handle) (m : Machine) : Prop :=
  match h.flashFw with
  | some .b0 => BecomesReady .b0 h m
  | some .c0 => BecomesReady .c0 h m
  | some .a0 | none => False

/-- The command, the size and every byte of the certificate; on the C0 the RRAM mode comes first. -/
def certLoad (h : Handle) (cert : Firmware) : Language Said :=
  match h.flashFw with
  | some .b0 =>
    {[.write [romCmdB0WriteDbgCert]]} *
      ({[.write ([romCmdB0DebugCertSize] ++ bytes32 cert.data.length)]} * chunked [romCmdB0CertData] cert.data)
  | some .c0 =>
    {[.write (bytes32 romCmdC0UseIndirectRramWr)]} * ({[.write (bytes32 romCmdC0WriteDbgCert)]} *
      ({[.write (bytes32 romCmdC0DebugCertSize ++ bytes32 cert.data.length)]} *
        chunked (bytes32 romCmdC0CertData.toNat) cert.data))
  | some .a0 | none => 0

/-- The erase command on the bus. -/
def eraseCmd (h : Handle) : List Said :=
  match h.flashFw with
  | some .b0 => [.write [romCmdB0EraseDbgCert]]
  | some .c0 => [.write (bytes32 romCmdC0EraseDbgCert)]
  | some .a0 | none => []

/-- A run of `qmrom_flash_dbg_cert` that returns 0 has found the device ready, has written all of
the certificate, and has complained about no response. -/
def FlashCertSound (h : Handle) (cert : Firmware) (m : Machine) : Prop :=
  ∀ m', qmromFlashDbgCert h cert m = some (0, m') →
    DeviceReady h m ∧ ∃ os, m'.said = m.said ++ os ∧ os ∈ certLoad h cert ∧
      ∀ got expected, .wrongResp got expected ∉ os

/-- A run of `qmrom_erase_dbg_cert` that returns 0 has found the device ready and has written the
command; where the device does not become ready it returns an error and writes nothing. -/
def EraseCertSound (h : Handle) (m : Machine) : Prop :=
  ∀ rc m', qmromEraseDbgCert h m = some (rc, m') →
    (rc = 0 → DeviceReady h m ∧ m'.said = m.said ++ eraseCmd h) ∧
    (¬DeviceReady h m → rc ≠ 0 ∧ ∀ os, m'.heard = m.heard ++ os → ∀ x ∈ os, x.event.isWrite = false)

/-! Where it does not. -/

/-- The part of `qmrom_c0_flash_debug_cert` after the first answer: the answer to the size is wrong
and its transfer was successful, or the answer is right and something went wrong before, the wait
included, or goes wrong after it. -/
def C0SizeSlip (h : Handle) (cert : Firmware) (m m1 : Machine) : Prop :=
  ∃ rc m2, c0CertSize h cert m1 = some (rc, m2) ∧
    ((m2.sstc sizeofStc ≠ waitingForDebugCertData ∧ rc = 0) ∨
      (m2.sstc sizeofStc = waitingForDebugCertData ∧
        (¬ReadyTruthful .c0 h m ∨ rc ≠ 0 ∨ ∃ rc' m3, c0CertData h cert m2 = some (rc', m3) ∧ rc' ≠ 0)))

/-- An error that `qmrom_flash_dbg_cert` reports as 0. -/
def FlashCertSlip (h : Handle) (cert : Firmware) (m : Machine) : Prop :=
  match h.flashFw with
  | some .b0 => ∃ m1, b0CertStart h cert m = some (0, m1) ∧
      (¬ReadyTruthful .b0 h m ∨ ∃ rc m2, b0CertData h cert m1 = some (rc, m2) ∧ rc ≠ 0)
  | some .c0 => ∃ m1, c0CertCommand h m = some (0, m1) ∧
      (m1.sstc sizeofStc ≠ waitingToDebugCertificateSize ∨ C0SizeSlip h cert m m1)
  | some .a0 | none => False

/-- Every erase on the B0, and on the C0 one whose wait cannot be believed. -/
def EraseCertSlip (h : Handle) (m : Machine) : Prop :=
  match h.flashFw with
  | some .b0 => True
  | some .c0 => ¬ReadyTruthful .c0 h m
  | some .a0 | none => False

/-! The waits. -/

section Waits
variable {p : SocProbe} {h : Handle} {m m' : Machine} {rc : Int} {os : List Heard}

theorem becomesReady_iff (hrun : p.waitReady h m = some (rc, m')) (hheard : m'.heard = m.heard ++ os) :
    BecomesReady p h m ↔ lastHeader (xfers os) = some p.readyMask := by
  constructor
  · intro ⟨rc', m1, os', hrun', hheard', hlast⟩
    rw [hrun] at hrun'
    cases hrun'
    rw [List.append_cancel_left (hheard.symm.trans hheard')]
    exact hlast
  · intro hlast
    exact ⟨rc, m', os, hrun, hheard, hlast⟩

/-- A call is truthful as its only run is. -/
theorem readyTruthful_iff (hrun : p.waitReady h m = some (rc, m')) (hheard : m'.heard = m.heard ++ os) :
    ReadyTruthful p h m ↔ ∀ x xs, xfers os = x :: xs → p.Truthful x xs := by
  constructor
  · intro htruthful x xs hxs
    exact htruthful rc m' os x xs hrun hheard hxs
  · intro hlast rc' m1 os' x xs hrun' hheard' hxs
    rw [hrun] at hrun'
    cases hrun'
    rw [← List.append_cancel_left (hheard.symm.trans hheard')] at hxs
    exact hlast x xs hxs

/-- After a wait that has returned 0 the device is ready exactly where the call is truthful. -/
theorem becomesReady_truthful (hrun : p.waitReady h m = some (0, m')) : BecomesReady p h m ↔ ReadyTruthful p h m := by
  have hheard : ∃ os, m'.heard = m.heard ++ os := by
    cases p with
    | b0 =>
      obtain ⟨os, hos, -⟩ := b0WaitReady_ends h m 0 m' trivial hrun
      exact ⟨os, hos⟩
    | c0 =>
      obtain ⟨os, hos, -⟩ := c0WaitReady_ends h m 0 m' trivial hrun
      exact ⟨os, hos⟩
  obtain ⟨os, hheard⟩ := hheard
  calc BecomesReady p h m
      ↔ lastHeader (xfers os) = some p.readyMask := becomesReady_iff hrun hheard
    _ ↔ (0 : Int) = 0 → lastHeader (xfers os) = some p.readyMask := by simp
    _ ↔ ∀ x xs, xfers os = x :: xs → p.Truthful x xs := waitReady_truthful_iff p hrun hheard
    _ ↔ ReadyTruthful p h m := (readyTruthful_iff hrun hheard).symm

/-- A B0 whose wait returns an error has not become ready. -/
theorem b0_notReady (hrun : qmromB0WaitReady h m = some (rc, m')) (hrc : rc ≠ 0) : ¬BecomesReady .b0 h m := by
  obtain ⟨os, hheard, x, xs, hxs, hend⟩ := b0WaitReady_ends h m rc m' trivial hrun
  rw [becomesReady_iff (p := .b0) hrun hheard, hxs]
  rcases hend with ⟨h0, -⟩ | ⟨-, -, hlast⟩
  · exact absurd h0 hrc
  · exact hlast

end Waits

/-! The parts. -/

theorem b0CertStart_emits (h : Handle) (cert : Firmware) : Emits Machine.said (b0CertStart h cert)
    {[.write [romCmdB0WriteDbgCert], .write ([romCmdB0DebugCertSize] ++ bytes32 cert.data.length)]} := by
  apply Emits.silent_okThen (plain_b0WaitReady h).silent
  rw [← List.singleton_append, ← singleton_mul]
  apply (writeFrame_emits _).okThen
  refine (plain_b0PollSoc h).silent.followed fun _ => plain_preRead.silent.followed fun _ => ?_
  refine plain_read.silent.followed fun _ => Says.bind (writeFrame_adds _) fun rc os => ?_
  intro m rc' m' hos hrun
  obtain ⟨resp, m1, h1, hrun⟩ := bind_some.mp hrun
  cases h1
  split at hrun
  · obtain ⟨os', hos', hwrong⟩ := wrongResp_emits (L := 0) (by decide) m rc' m' trivial hrun
    exact ⟨os', hos', fun h0 => absurd (hwrong h0) (Language.notMem_zero _)⟩
  · obtain ⟨rfl, rfl⟩ := pure_some.mp hrun
    refine ⟨[], (List.append_nil _).symm, fun h0 => ?_⟩
    rw [List.append_nil, hos, if_pos h0]
    rfl

/-- The start on the B0 returns 0 only after a wait that does. -/
theorem b0Cert_ready {h : Handle} {cert : Firmware} {m m1 : Machine} (hstart : b0CertStart h cert m = some (0, m1)) :
    BecomesReady .b0 h m ↔ ReadyTruthful .b0 h m := by
  obtain ⟨m', hwait, -⟩ := okThen_zero.mp hstart
  exact becomesReady_truthful (p := .b0) hwait

theorem c0CertCommand_emits (h : Handle) : Emits Machine.said (c0CertCommand h)
    {[.write (bytes32 romCmdC0UseIndirectRramWr), .write (bytes32 romCmdC0WriteDbgCert)]} := by
  apply Emits.silent_okThen (plain_c0WaitReady h).silent
  rw [← List.singleton_append, ← singleton_mul]
  apply (afterReadyLine_emits (writeFrame_emits _)).okThen
  refine (plain_c0PollSoc h).silent.followed fun _ => plain_preReadC0.silent.followed fun _ => ?_
  refine plain_readC0.silent.followed fun _ => (plain_c0PollSoc h).silent.followed fun _ => ?_
  rw [← mul_one ({[.write (bytes32 romCmdC0WriteDbgCert)]} : Language Said)]
  apply (afterReadyLine_emits (writeFrame_emits _)).okThen
  exact (plain_c0PollCmdResp h).silent.followed fun _ => Emits.ok

theorem c0CertSize_said {h : Handle} {cert : Firmware} {m m' : Machine} {rc : Int}
    (hrun : c0CertSize h cert m = some (rc, m')) :
    m'.said = m.said ++
      if rc = 0 then [.write (bytes32 romCmdC0DebugCertSize ++ bytes32 cert.data.length)] else [] := by
  obtain ⟨rc1, m1, hwrite, hrun⟩ := bind_some.mp hrun
  obtain ⟨rc2, m2, hpoll, hrun⟩ := bind_some.mp hrun
  obtain ⟨rfl, rfl⟩ := pure_some.mp hrun
  obtain ⟨os, hos, hwritten⟩ := afterReadyLine_adds (writeFrame_adds _) m rc1 m1 trivial hwrite
  obtain ⟨_, hos', rfl⟩ := (plain_c0PollCmdResp h).silent m1 rc2 m2 trivial hpoll
  rw [hos', hos, hwritten, List.append_nil]

theorem b0CertData_sends (h : Handle) (cert : Firmware) :
    SendsData [romCmdB0CertData] cert.data (b0CertData h cert) :=
  b0FlashData_sends h (certSection_fits cert) _ _

theorem c0CertData_sends (h : Handle) (cert : Firmware) :
    SendsData (bytes32 romCmdC0CertData.toNat) cert.data (c0CertData h cert) :=
  c0FlashData_sends h (certSection_fits cert) _ _ _

/-! What they ask for: frames only, all of them inside the buffers. -/

section Acts
variable (h : Handle)

theorem acts_b0CertStart (cert : Firmware) : Acts Event.Protocol False (b0CertStart h cert) := by
  refine (plain_b0WaitReady h).acts.okThen ((acts_writeCmd _).okThen ?_)
  refine (plain_b0PollSoc h).acts.bind fun _ => plain_preRead.acts.bind fun _ => plain_read.acts.bind fun _ => ?_
  have hsize : Acts Event.Protocol False (qmromWriteSizeCmd romCmdB0DebugCertSize (bytes32 cert.data.length)) :=
    acts_writeFrame (show sizeofStc + 5 ≤ stcBufSize by decide)
  refine hsize.bind fun rc => ?_
  exact apart_payload0.plain.acts.bind fun resp => Performs.ite' (fun _ => acts_wrongResp _ _ _) fun _ => Performs.pure' _

theorem acts_b0CertData (cert : Firmware) : Acts Event.Protocol False (b0CertData h cert) :=
  acts_b0FlashData h (Nat.not_lt.mpr (certSection_fits cert)) _ _

theorem acts_c0CertCommand : Acts Event.Protocol False (c0CertCommand h) := by
  refine (plain_c0WaitReady h).acts.okThen ((acts_writeCmd32C0 _).okThen ?_)
  refine (plain_c0PollSoc h).acts.bind fun _ => plain_preReadC0.acts.bind fun _ => plain_readC0.acts.bind fun _ => ?_
  refine (plain_c0PollSoc h).acts.bind fun _ => (acts_writeCmd32C0 _).okThen ?_
  exact (plain_c0PollCmdResp h).acts.bind fun _ => Performs.pure' _

theorem acts_c0CertSize (cert : Firmware) : Acts Event.Protocol False (c0CertSize h cert) := by
  have hsize : Acts Event.Protocol False (qmromWriteSizeCmd32 romCmdC0DebugCertSize (bytes32 cert.data.length)) :=
    acts_writeFrame (show sizeofStc + 8 ≤ stcBufSize by decide)
  refine (acts_afterReadyLine hsize).bind fun rc => ?_
  exact (plain_c0PollCmdResp h).acts.bind fun _ => Performs.pure' _

theorem acts_c0CertData (cert : Firmware) : Acts Event.Protocol False (c0CertData h cert) :=
  acts_c0FlashData h (Nat.not_lt.mpr (certSection_fits cert)) _ _ _

theorem acts_flashDbgCert (cert : Firmware) : Acts Event.Protocol False (qmromFlashDbgCert h cert) := by
  unfold qmromFlashDbgCert
  split
  · exact (acts_b0CertStart h cert).okThen ((acts_b0CertData h cert).bind fun _ => Performs.pure' _)
  · refine (acts_c0CertCommand h).okThen (apart_payload0.plain.acts.bind fun resp => ?_)
    refine Performs.ite' (fun _ => acts_wrongResp _ _ _) fun _ => (acts_c0CertSize h cert).bind fun rc => ?_
    refine apart_payload0.plain.acts.bind fun resp => Performs.ite' (fun _ => acts_wrongResp _ _ _) fun _ => ?_
    exact (acts_c0CertData h cert).bind fun _ => Performs.pure' _
  all_goals exact Performs.pure' _

theorem acts_eraseDbgCert : Acts Event.Protocol False (qmromEraseDbgCert h) := by
  unfold qmromEraseDbgCert
  split
  · refine (plain_b0WaitReady h).acts.bind fun rc => Performs.ite' (fun _ => Performs.pure' _) fun _ => ?_
    exact (acts_writeCmd _).okThen (Performs.pure' _)
  · exact (plain_c0WaitReady h).acts.okThen ((acts_writeCmd32C0 _).okThen (Performs.pure' _))
  all_goals exact Performs.pure' _

end Acts

/-! Runs of the flash functions. -/

theorem b0FlashDebugCert_zero {h : Handle} {cert : Firmware} {m m' : Machine} :
    qmromB0FlashDebugCert h cert m = some (0, m') ↔
      ∃ m1 rc, b0CertStart h cert m = some (0, m1) ∧ b0CertData h cert m1 = some (rc, m') := by
  unfold qmromB0FlashDebugCert
  rw [okThen_zero]
  constructor
  · intro ⟨m1, hstart, hrun⟩
    obtain ⟨rc, m2, hdata, hrun⟩ := bind_some.mp hrun
    obtain ⟨-, rfl⟩ := pure_some.mp hrun
    exact ⟨m1, rc, hstart, hdata⟩
  · intro ⟨m1, rc, hstart, hdata⟩
    exact ⟨m1, hstart, bind_some.mpr ⟨rc, m', hdata, rfl⟩⟩

/-- How `qmrom_c0_flash_debug_cert` comes to return 0: it has complained about the answer to the
command, or about the answer to the size, or it has sent the data, whatever came of that. -/
inductive C0CertZero (h : Handle) (cert : Firmware) (m : Machine) : Machine → Prop
  | refused {m1 : Machine} (hcommand : c0CertCommand h m = some (0, m1))
      (hfirst : m1.sstc sizeofStc ≠ waitingToDebugCertificateSize) :
      C0CertZero h cert m (m1.complain (m1.sstc sizeofStc) waitingToDebugCertificateSize)
  | noData {m1 m2 : Machine} (hcommand : c0CertCommand h m = some (0, m1))
      (hfirst : m1.sstc sizeofStc = waitingToDebugCertificateSize) (hsize : c0CertSize h cert m1 = some (0, m2))
      (hsecond : m2.sstc sizeofStc ≠ waitingForDebugCertData) :
      C0CertZero h cert m (m2.complain (m2.sstc sizeofStc) waitingForDebugCertData)
  | sent {m1 m2 m3 : Machine} {rc rc' : Int} (hcommand : c0CertCommand h m = some (0, m1))
      (hfirst : m1.sstc sizeofStc = waitingToDebugCertificateSize) (hsize : c0CertSize h cert m1 = some (rc, m2))
      (hsecond : m2.sstc sizeofStc = waitingForDebugCertData) (hdata : c0CertData h cert m2 = some (rc', m3)) :
      C0CertZero h cert m m3

/-- The part after the answer to the command, where that is the right one. -/
theorem c0FlashDebugCert_after {h : Handle} {cert : Firmware} {m m1 : Machine} (hcommand : c0CertCommand h m = some (0, m1))
    (hfirst : m1.sstc sizeofStc = waitingToDebugCertificateSize) :
    qmromC0FlashDebugCert h cert m = (do
      let rc ← c0CertSize h cert
      let resp ← payload0
      if resp ≠ waitingForDebugCertData then wrongResp resp waitingForDebugCertData rc
      else do
        let _ ← c0CertData h cert
        pure 0 : Rom Int) m1 := by
  show (c0CertCommand h m).bind _ = _
  rw [hcommand]
  show (if m1.sstc sizeofStc ≠ waitingToDebugCertificateSize then _ else _ : Rom Int) m1 = _
  rw [if_neg (not_not.mpr hfirst)]

theorem c0FlashDebugCert_zero {h : Handle} {cert : Firmware} {m m' : Machine} :
    qmromC0FlashDebugCert h cert m = some (0, m') ↔ C0CertZero h cert m m' := by
  constructor
  · intro hrun
    obtain ⟨m1, hcommand, hafter⟩ := okThen_zero.mp hrun
    by_cases hfirst : m1.sstc sizeofStc = waitingToDebugCertificateSize
    · rw [c0FlashDebugCert_after hcommand hfirst] at hrun
      obtain ⟨rc, m2, hsize, hrun⟩ := bind_some.mp hrun
      obtain ⟨resp, m2', hresp, hrun⟩ := bind_some.mp hrun
      cases hresp
      by_cases hsecond : m2.sstc sizeofStc = waitingForDebugCertData
      · rw [if_neg (not_not.mpr hsecond)] at hrun
        obtain ⟨rc', m3, hdata, hrun⟩ := bind_some.mp hrun
        cases hrun
        exact .sent hcommand hfirst hsize hsecond hdata
      · rw [if_pos hsecond] at hrun
        cases hrun
        exact .noData hcommand hfirst hsize hsecond
    · obtain ⟨resp, m1', hresp, hafter⟩ := bind_some.mp hafter
      cases hresp
      rw [if_pos hfirst] at hafter
      cases hafter
      exact .refused hcommand hfirst
  · intro hzero
    cases hzero with
    | @refused m1 hcommand hfirst =>
      refine okThen_zero.mpr ⟨m1, hcommand, bind_some.mpr ⟨_, m1, rfl, ?_⟩⟩
      rw [if_pos hfirst]
      rfl
    | @noData m1 m2 hcommand hfirst hsize hsecond =>
      rw [c0FlashDebugCert_after hcommand hfirst]
      refine bind_some.mpr ⟨0, m2, hsize, bind_some.mpr ⟨_, m2, rfl, ?_⟩⟩
      rw [if_pos hsecond]
      rfl
    | @sent m1 m2 _ rc rc' hcommand hfirst hsize hsecond hdata =>
      rw [c0FlashDebugCert_after hcommand hfirst]
      refine bind_some.mpr ⟨rc, m2, hsize, bind_some.mpr ⟨_, m2, rfl, ?_⟩⟩
      rw [if_neg (not_not.mpr hsecond)]
      exact bind_some.mpr ⟨rc', m', hdata, rfl⟩

theorem certLoad_writesOnly (h : Handle) (cert : Firmware) : certLoad h cert ≤ writesOnly := by
  unfold certLoad
  split
  · exact mul_writesOnly (write_writesOnly _) (mul_writesOnly (write_writesOnly _) (chunked_writesOnly _ _))
  · exact mul_writesOnly (write_writesOnly _) (mul_writesOnly (write_writesOnly _)
      (mul_writesOnly (write_writesOnly _) (chunked_writesOnly _ _)))
  all_goals exact fun os hos => absurd hos (Language.notMem_zero os)

/-- What a sound run has said, from the machine it has come to. -/
theorem FlashCertSound.said {h : Handle} {cert : Firmware} {m m' : Machine} {os : List Said}
    (hsound : FlashCertSound h cert m) (hrun : qmromFlashDbgCert h cert m = some (0, m'))
    (hos : m'.said = m.said ++ os) : DeviceReady h m ∧ os ∈ certLoad h cert := by
  obtain ⟨hready, os', hos', hload, -⟩ := hsound m' hrun
  rw [hos] at hos'
  rw [List.append_cancel_left hos']
  exact ⟨hready, hload⟩

/-- Writes are no complaints. -/
theorem flashCertSound_of_load {h : Handle} {cert : Firmware} {m : Machine}
    (hload : ∀ m', qmromFlashDbgCert h cert m = some (0, m') →
      DeviceReady h m ∧ ∃ os, m'.said = m.said ++ os ∧ os ∈ certLoad h cert) : FlashCertSound h cert m := by
  intro m' hrun
  obtain ⟨hready, os, hos, hmem⟩ := hload m' hrun
  refine ⟨hready, os, hos, hmem, fun got expected hcomplaint => ?_⟩
  obtain ⟨payload, hw⟩ := certLoad_writesOnly h cert hmem _ hcomplaint
  cases hw

/-! On the B0. -/

theorem deviceReady_b0 {h : Handle} (hrev : h.flashFw = some .b0) (m : Machine) :
    DeviceReady h m ↔ BecomesReady .b0 h m := by
  unfold DeviceReady
  rw [hrev]

theorem flashDbgCert_b0 {h : Handle} (hrev : h.flashFw = some .b0) (cert : Firmware) :
    qmromFlashDbgCert h cert = qmromB0FlashDebugCert h cert := by
  unfold qmromFlashDbgCert
  rw [hrev]

theorem eraseDbgCert_b0 {h : Handle} (hrev : h.flashFw = some .b0) :
    qmromEraseDbgCert h = qmromB0EraseDebugCert h := by
  unfold qmromEraseDbgCert
  rw [hrev]

/-- What has been said in all, once the data has been sent. -/
theorem b0Cert_said {h : Handle} {cert : Firmware} {m m1 m2 : Machine} {rc : Int}
    (hstart : b0CertStart h cert m = some (0, m1)) (hdata : b0CertData h cert m1 = some (rc, m2)) :
    ∃ os, m2.said = m.said ++ (.write [romCmdB0WriteDbgCert] ::
      .write ([romCmdB0DebugCertSize] ++ bytes32 cert.data.length) :: os) ∧
      (rc = 0 ↔ os ∈ chunked [romCmdB0CertData] cert.data) := by
  obtain ⟨os1, hos1, hwritten⟩ := b0CertStart_emits h cert m 0 m1 trivial hstart
  obtain ⟨os2, hos2, hiff, -⟩ := b0CertData_sends h cert m1 rc m2 trivial hdata
  cases hwritten rfl
  refine ⟨os2, ?_, hiff⟩
  rw [hos2, hos1, List.append_assoc]
  rfl

theorem b0FlashCert_sound_iff {h : Handle} (hrev : h.flashFw = some .b0) (cert : Firmware) (m : Machine) :
    FlashCertSound h cert m ↔ ¬FlashCertSlip h cert m := by
  have hload : ∀ os, .write [romCmdB0WriteDbgCert] ::
      .write ([romCmdB0DebugCertSize] ++ bytes32 cert.data.length) :: os ∈ certLoad h cert ↔
        os ∈ chunked [romCmdB0CertData] cert.data := by
    intro os
    unfold certLoad
    rw [hrev]
    exact cons_mem_mul.trans cons_mem_mul
  have hslip : FlashCertSlip h cert m ↔ ∃ m1, b0CertStart h cert m = some (0, m1) ∧
      (¬ReadyTruthful .b0 h m ∨ ∃ rc m2, b0CertData h cert m1 = some (rc, m2) ∧ rc ≠ 0) := by
    unfold FlashCertSlip
    rw [hrev]
  rw [hslip]
  constructor
  · intro hsound ⟨m1, hstart, hwrong⟩
    obtain ⟨rc, m2, hdata⟩ := ((acts_b0CertData h cert).safe not_false).some m1
    have hrun : qmromFlashDbgCert h cert m = some (0, m2) := by
      rw [flashDbgCert_b0 hrev]
      exact b0FlashDebugCert_zero.mpr ⟨m1, rc, hstart, hdata⟩
    obtain ⟨os, hos, hiff⟩ := b0Cert_said hstart hdata
    obtain ⟨hdev, hmem⟩ := hsound.said hrun hos
    rcases hwrong with hfalse | ⟨rc', m2', hdata', hrc⟩
    · exact hfalse ((b0Cert_ready hstart).mp ((deviceReady_b0 hrev m).mp hdev))
    · rw [hdata] at hdata'
      cases hdata'
      exact hrc (hiff.mpr ((hload os).mp hmem))
  · intro hok
    apply flashCertSound_of_load
    intro m' hrun
    rw [flashDbgCert_b0 hrev] at hrun
    obtain ⟨m1, rc, hstart, hdata⟩ := b0FlashDebugCert_zero.mp hrun
    have htruthful : ReadyTruthful .b0 h m := by
      by_contra hfalse
      exact hok ⟨m1, hstart, .inl hfalse⟩
    have hrc : rc = 0 := by
      by_contra hne
      exact hok ⟨m1, hstart, .inr ⟨rc, m', hdata, hne⟩⟩
    obtain ⟨os, hos, hiff⟩ := b0Cert_said hstart hdata
    exact ⟨(deviceReady_b0 hrev m).mpr ((b0Cert_ready hstart).mpr htruthful), _, hos, (hload os).mpr (hiff.mp hrc)⟩

/-! On the C0. -/

theorem deviceReady_c0 {h : Handle} (hrev : h.flashFw = some .c0) (m : Machine) :
    DeviceReady h m ↔ BecomesReady .c0 h m := by
  unfold DeviceReady
  rw [hrev]

theorem flashDbgCert_c0 {h : Handle} (hrev : h.flashFw = some .c0) (cert : Firmware) :
    qmromFlashDbgCert h cert = qmromC0FlashDebugCert h cert := by
  unfold qmromFlashDbgCert
  rw [hrev]

theorem eraseDbgCert_c0 {h : Handle} (hrev : h.flashFw = some .c0) :
    qmromEraseDbgCert h = qmromC0EraseDebugCert h := by
  unfold qmromEraseDbgCert
  rw [hrev]

theorem certLoad_c0 {h : Handle} (hrev : h.flashFw = some .c0) (cert : Firmware) (os : List Said) :
    .write (bytes32 romCmdC0UseIndirectRramWr) :: .write (bytes32 romCmdC0WriteDbgCert) :: os ∈ certLoad h cert ↔
      os ∈ ({[.write (bytes32 romCmdC0DebugCertSize ++ bytes32 cert.data.length)]} *
        chunked (bytes32 romCmdC0CertData.toNat) cert.data : Language Said) := by
  unfold certLoad
  rw [hrev]
  exact cons_mem_mul.trans cons_mem_mul

theorem c0Cert_said {h : Handle} {m m1 : Machine} (hcommand : c0CertCommand h m = some (0, m1)) :
    m1.said = m.said ++ [.write (bytes32 romCmdC0UseIndirectRramWr), .write (bytes32 romCmdC0WriteDbgCert)] := by
  obtain ⟨os, hos, hwritten⟩ := c0CertCommand_emits h m 0 m1 trivial hcommand
  cases hwritten rfl
  exact hos

/-- The commands are written only after a wait that has returned 0. -/
theorem c0Cert_ready {h : Handle} {m m1 : Machine} (hcommand : c0CertCommand h m = some (0, m1)) :
    BecomesReady .c0 h m ↔ ReadyTruthful .c0 h m := by
  obtain ⟨m', hwait, -⟩ := okThen_zero.mp hcommand
  exact becomesReady_truthful (p := .c0) hwait

/-- What has been said in all, once the data has been sent. -/
theorem c0CertData_said {h : Handle} {cert : Firmware} {m m1 m2 m3 : Machine} {rc rc' : Int}
    (hcommand : c0CertCommand h m = some (0, m1)) (hsize : c0CertSize h cert m1 = some (rc, m2))
    (hdata : c0CertData h cert m2 = some (rc', m3)) :
    ∃ os, m3.said = m.said ++ (.write (bytes32 romCmdC0UseIndirectRramWr) :: .write (bytes32 romCmdC0WriteDbgCert) :: os) ∧
      (os ∈ ({[.write (bytes32 romCmdC0DebugCertSize ++ bytes32 cert.data.length)]} *
        chunked (bytes32 romCmdC0CertData.toNat) cert.data : Language Said) ↔ rc = 0 ∧ rc' = 0) := by
  obtain ⟨os, hos, hiff, hcmd⟩ := c0CertData_sends h cert m2 rc' m3 trivial hdata
  rw [c0CertSize_said hsize, c0Cert_said hcommand] at hos
  by_cases hrc : rc = 0
  · rw [if_pos hrc, List.append_assoc, List.append_assoc] at hos
    exact ⟨_, hos, cons_mem_mul.trans (hiff.symm.trans (and_iff_right hrc).symm)⟩
  · rw [if_neg hrc, List.append_nil, List.append_assoc] at hos
    refine ⟨_, hos, iff_of_false (fun hmem => ?_) fun h0 => hrc h0.1⟩
    -- the data is no size command
    obtain ⟨a, ha, b, hb, rfl⟩ := Language.mem_mul.mp hmem
    cases ha
    obtain ⟨rest, heq⟩ := hcmd _ List.mem_cons_self
    exact absurd (List.append_inj_left heq rfl) (by decide)

/-- A sound run ends with no complaint. -/
theorem FlashCertSound.no_complaint {h : Handle} {cert : Firmware} {m m' : Machine} {os : List Said}
    {got expected : UInt8} (hsound : FlashCertSound h cert m) (hos : m'.said = m.said ++ os)
    (hrun : qmromFlashDbgCert h cert m = some (0, m'.complain got expected)) : False := by
  obtain ⟨-, os', hos', -, hno⟩ := hsound _ hrun
  rw [complain_said, hos, List.append_assoc] at hos'
  apply hno got expected
  rw [← List.append_cancel_left hos']
  simp

/-- A wrong answer to the command leaves a complaint in a run that returns 0; so does one to the size,
and where that answer is right the data is sent, whatever has gone wrong. -/
theorem c0FlashCert_unsound {h : Handle} (hrev : h.flashFw = some .c0) {cert : Firmware} {m m1 : Machine}
    (hcommand : c0CertCommand h m = some (0, m1))
    (hwrong : m1.sstc sizeofStc ≠ waitingToDebugCertificateSize ∨ C0SizeSlip h cert m m1) :
    ¬FlashCertSound h cert m := by
  intro hsound
  have hreturns : ∀ {m' : Machine}, C0CertZero h cert m m' → qmromFlashDbgCert h cert m = some (0, m') := by
    intro m' hzero
    rw [flashDbgCert_c0 hrev]
    exact c0FlashDebugCert_zero.mpr hzero
  by_cases hfirst : m1.sstc sizeofStc = waitingToDebugCertificateSize
  · obtain ⟨rc, m2, hsize, hwrong⟩ := hwrong.resolve_left (not_not.mpr hfirst)
    rcases hwrong with ⟨hsecond, hrc⟩ | ⟨hsecond, hwrong⟩
    · subst hrc
      have hsaid := c0CertSize_said hsize
      rw [c0Cert_said hcommand, List.append_assoc] at hsaid
      exact hsound.no_complaint hsaid (hreturns (.noData hcommand hfirst hsize hsecond))
    · obtain ⟨rc', m3, hdata⟩ := ((acts_c0CertData h cert).safe not_false).some m2
      obtain ⟨os, hos, hiff⟩ := c0CertData_said hcommand hsize hdata
      obtain ⟨hdev, hmem⟩ := hsound.said (hreturns (.sent hcommand hfirst hsize hsecond hdata)) hos
      obtain ⟨hrc, hrc'⟩ := hiff.mp ((certLoad_c0 hrev cert os).mp hmem)
      rcases hwrong with hfalse | hne | ⟨rc2, m4, hdata', hne⟩
      · exact hfalse ((c0Cert_ready hcommand).mp ((deviceReady_c0 hrev m).mp hdev))
      · exact hne hrc
      · rw [hdata] at hdata'
        cases hdata'
        exact hne hrc'
  · exact hsound.no_complaint (c0Cert_said hcommand) (hreturns (.refused hcommand hfirst))

/-- Where nothing slips, a run that returns 0 is one that has sent the data, and nothing went wrong in it. -/
theorem c0FlashCert_sound {h : Handle} (hrev : h.flashFw = some .c0) {cert : Firmware} {m : Machine}
    (hok : ∀ m1, c0CertCommand h m = some (0, m1) →
      m1.sstc sizeofStc = waitingToDebugCertificateSize ∧ ¬C0SizeSlip h cert m m1) : FlashCertSound h cert m := by
  apply flashCertSound_of_load
  intro m' hrun
  rw [flashDbgCert_c0 hrev] at hrun
  cases c0FlashDebugCert_zero.mp hrun with
  | refused hcommand hfirst => exact absurd (hok _ hcommand).1 hfirst
  | noData hcommand hfirst hsize hsecond =>
    exact absurd ⟨0, _, hsize, .inl ⟨hsecond, rfl⟩⟩ (hok _ hcommand).2
  | @sent m1 m2 _ rc rc' hcommand hfirst hsize hsecond hdata =>
    have hall : ¬(¬ReadyTruthful .c0 h m ∨ rc ≠ 0 ∨ ∃ rc' m3, c0CertData h cert m2 = some (rc', m3) ∧ rc' ≠ 0) :=
      fun hwrong => (hok m1 hcommand).2 ⟨rc, m2, hsize, .inr ⟨hsecond, hwrong⟩⟩
    have htruthful : ReadyTruthful .c0 h m := by
      by_contra hfalse
      exact hall (.inl hfalse)
    have hrc : rc = 0 := by
      by_contra hne
      exact hall (.inr (.inl hne))
    have hrc' : rc' = 0 := by
      by_contra hne
      exact hall (.inr (.inr ⟨rc', m', hdata, hne⟩))
    obtain ⟨os, hos, hiff⟩ := c0CertData_said hcommand hsize hdata
    exact ⟨(deviceReady_c0 hrev m).mpr ((c0Cert_ready hcommand).mpr htruthful), _, hos,
      (certLoad_c0 hrev cert os).mpr (hiff.mpr ⟨hrc, hrc'⟩)⟩

theorem c0FlashCert_sound_iff {h : Handle} (hrev : h.flashFw = some .c0) (cert : Firmware) (m : Machine) :
    FlashCertSound h cert m ↔ ¬FlashCertSlip h cert m := by
  have hslip : FlashCertSlip h cert m ↔ ∃ m1, c0CertCommand h m = some (0, m1) ∧
      (m1.sstc sizeofStc ≠ waitingToDebugCertificateSize ∨ C0SizeSlip h cert m m1) := by
    unfold FlashCertSlip
    rw [hrev]
  rw [hslip]
  constructor
  · intro hsound ⟨m1, hcommand, hwrong⟩
    exact c0FlashCert_unsound hrev hcommand hwrong hsound
  · intro hno
    apply c0FlashCert_sound hrev
    intro m1 hcommand
    constructor
    · by_contra hfirst
      exact hno ⟨m1, hcommand, .inl hfirst⟩
    · exact fun hsize => hno ⟨m1, hcommand, .inr hsize⟩

/-! Erasing. -/

/-- A write frame is heard, whatever comes of it. -/
theorem heard_write {payload : List UInt8} {m m1 m2 : Machine} {rc : Int} {before : List Heard}
    (hbefore : m1.heard = m.heard ++ before) (hwrite : writeFrame payload m1 = some (rc, m2)) :
    ¬∀ os, m2.heard = m.heard ++ os → ∀ x ∈ os, x.event.isWrite = false := by
  intro hquiet
  obtain ⟨hlog, hdev, -⟩ := writeFrame_some hwrite
  have hheard := heard_log hlog hdev
  rw [hbefore, List.append_assoc] at hheard
  have hno := hquiet _ hheard _ (List.mem_append_right _ List.mem_cons_self)
  exact absurd (hno.symm.trans (show Event.isWrite _ = true from rfl)) Bool.false_ne_true

theorem okThen_pure_zero {x : Rom Int} {m m' : Machine} {rc : Int} (hx : x m = some (rc, m')) :
    okThen x (pure 0) m = some (rc, m') := by
  by_cases hrc : rc = 0
  · subst hrc
    exact okThen_zero.mpr ⟨m', hx, rfl⟩
  · exact okThen_some.mpr (.inl ⟨hrc, hx⟩)

theorem b0EraseCert_unsound {h : Handle} (hrev : h.flashFw = some .b0) (m : Machine) : ¬EraseCertSound h m := by
  have hcmd : eraseCmd h ≠ [] := by
    unfold eraseCmd
    rw [hrev]
    exact List.cons_ne_nil _ _
  intro hsound
  obtain ⟨rc, m1, hwait⟩ := (plain_b0WaitReady h).safe.some m
  by_cases hrc : rc = 0
  · -- ready: nothing is written, and 0 returned
    subst hrc
    have hrun : qmromEraseDbgCert h m = some (0, m1) := by
      rw [eraseDbgCert_b0 hrev]
      exact bind_some.mpr ⟨0, m1, hwait, rfl⟩
    obtain ⟨-, hsaid⟩ := (hsound 0 m1 hrun).1 rfl
    obtain ⟨_, hos, rfl⟩ := (plain_b0WaitReady h).silent m 0 m1 trivial hwait
    exact hcmd (List.append_cancel_left (hsaid.symm.trans hos))
  · -- not ready: the command is written
    obtain ⟨rc2, m2, hwrite⟩ := ((acts_writeCmd romCmdB0EraseDbgCert).safe not_false).some m1
    have hrun : qmromEraseDbgCert h m = some (rc2, m2) := by
      rw [eraseDbgCert_b0 hrev]
      refine bind_some.mpr ⟨rc, m1, hwait, ?_⟩
      rw [if_neg hrc]
      exact okThen_pure_zero hwrite
    have hnot : ¬DeviceReady h m := fun hdev => b0_notReady hwait hrc ((deviceReady_b0 hrev m).mp hdev)
    obtain ⟨os, hos, -⟩ := (plain_b0WaitReady h).listens m rc m1 trivial hwait
    exact heard_write hos hwrite ((hsound rc2 m2 hrun).2 hnot).2

theorem c0EraseCert_sound_iff {h : Handle} (hrev : h.flashFw = some .c0) (m : Machine) :
    EraseCertSound h m ↔ ReadyTruthful .c0 h m := by
  have hcmd : eraseCmd h = [.write (bytes32 romCmdC0EraseDbgCert)] := by
    unfold eraseCmd
    rw [hrev]
  constructor
  · intro hsound
    by_contra hfalse
    -- only a wait that has returned 0 can be false
    obtain ⟨rc1, m1, hwait⟩ := (plain_c0WaitReady h).safe.some m
    have hrc1 : rc1 = 0 := by
      by_contra hne
      obtain ⟨os, hos, -⟩ := c0WaitReady_ends h m rc1 m1 trivial hwait
      refine hfalse ((readyTruthful_iff (p := .c0) hwait hos).mpr ?_)
      exact (waitReady_truthful_iff .c0 hwait hos).mp fun h0 => absurd h0 hne
    subst hrc1
    obtain ⟨rc0, m2, hline⟩ := apart_readyLine.plain.safe.some m1
    obtain ⟨rc, m3, hwrite⟩ := ((acts_writeCmd32 romCmdC0EraseDbgCert).safe not_false).some m2
    have hrun : qmromEraseDbgCert h m = some (rc, m3) := by
      rw [eraseDbgCert_c0 hrev]
      refine okThen_some.mpr (.inr ⟨m1, hwait, okThen_pure_zero ?_⟩)
      exact bind_some.mpr ⟨rc0, m2, hline, hwrite⟩
    have hnot : ¬DeviceReady h m := fun hdev =>
      hfalse ((becomesReady_truthful (p := .c0) hwait).mp ((deviceReady_c0 hrev m).mp hdev))
    obtain ⟨os, hos, -⟩ := (plain_c0WaitReady h).listens.bind (fun _ => apart_readyLine.listens) m rc0 m2 trivial
      (bind_some.mpr ⟨0, m1, hwait, hline⟩)
    exact heard_write hos hwrite ((hsound rc m3 hrun).2 hnot).2
  · intro htruthful rc m' hrun
    rw [eraseDbgCert_c0 hrev] at hrun
    rcases okThen_some.mp hrun with ⟨hrc, hwait⟩ | ⟨m1, hwait, hrun⟩
    · refine ⟨fun h0 => absurd h0 hrc, fun _ => ⟨hrc, fun os hos x hx => ?_⟩⟩
      obtain ⟨os', hos', hq, -⟩ := (plain_c0WaitReady h).listens m rc m' trivial hwait
      have heq : os = os' := List.append_cancel_left (hos.symm.trans hos')
      subst heq
      exact Event.Quiet.isWrite (hq x hx)
    · have hdev : DeviceReady h m :=
        (deviceReady_c0 hrev m).mpr ((becomesReady_truthful (p := .c0) hwait).mpr htruthful)
      refine ⟨fun h0 => ⟨hdev, ?_⟩, fun hnot => absurd hdev hnot⟩
      subst h0
      obtain ⟨m2, hwrite, hrun⟩ := okThen_zero.mp hrun
      cases hrun
      obtain ⟨_, hos1, rfl⟩ := (plain_c0WaitReady h).silent m 0 m1 trivial hwait
      obtain ⟨os, hos2, hwritten⟩ := afterReadyLine_adds (writeFrame_adds _) m1 0 m' trivial hwrite
      rw [hos2, hos1, List.append_nil, hcmd, hwritten]
      rfl

/-! Both operations. -/

/-- Without the functions in `rom_ops` both return an error. -/
theorem dbgCert_unsupported {h : Handle} (hrev : h.flashFw = some .a0 ∨ h.flashFw = none) (cert : Firmware)
    (m : Machine) : FlashCertSound h cert m ∧ EraseCertSound h m := by
  have hflash : qmromFlashDbgCert h cert = pure eInval := by
    unfold qmromFlashDbgCert
    rcases hrev with hrev | hrev <;> rw [hrev]
  have herase : qmromEraseDbgCert h = pure eInval := by
    unfold qmromEraseDbgCert
    rcases hrev with hrev | hrev <;> rw [hrev]
  constructor
  · intro m' hrun
    rw [hflash] at hrun
    cases (pure_some.mp hrun).1
  · intro rc m' hrun
    rw [herase] at hrun
    obtain ⟨rfl, rfl⟩ := pure_some.mp hrun
    refine ⟨(fun h0 => nomatch h0), fun _ => ⟨by decide, fun os hos => ?_⟩⟩
    rw [List.self_eq_append_right.mp hos]
    simp

/-- Success means that the certificate has been written exactly where no error is reported as 0, and
that it has been erased exactly on a C0 whose wait can be believed. -/
theorem dbgCert_sound_iff (h : Handle) (cert : Firmware) (m : Machine) :
    (FlashCertSound h cert m ↔ ¬FlashCertSlip h cert m) ∧ (EraseCertSound h m ↔ ¬EraseCertSlip h m) := by
  have hnone : h.flashFw = some .a0 ∨ h.flashFw = none →
      (FlashCertSound h cert m ↔ ¬FlashCertSlip h cert m) ∧ (EraseCertSound h m ↔ ¬EraseCertSlip h m) := by
    intro hrev
    obtain ⟨hflash, herase⟩ := dbgCert_unsupported hrev cert m
    unfold FlashCertSlip EraseCertSlip
    rcases hrev with hrev | hrev <;> rw [hrev] <;> exact ⟨iff_of_true hflash id, iff_of_true herase id⟩
  cases hrev : h.flashFw with
  | none => exact hnone (.inr hrev)
  | some rev =>
    cases rev with
    | a0 => exact hnone (.inl hrev)
    | b0 =>
      refine ⟨b0FlashCert_sound_iff hrev cert m, iff_of_false (b0EraseCert_unsound hrev m) ?_⟩
      unfold EraseCertSlip
      rw [hrev]
      exact not_not.mpr trivial
    | c0 =>
      refine ⟨c0FlashCert_sound_iff hrev cert m, (c0EraseCert_sound_iff hrev m).trans ?_⟩
      unfold EraseCertSlip
      rw [hrev]
      exact not_not.symm

/-- A B0 that is ready at once. -/
def readyDevice (_ : Nat) : Answer where
  rc := 0
  bytes i := if i = 0 then spiShReadyCmdBitMask else 0
  alloc := true

/-- It is not told to erase anything, and the function returns 0. -/
theorem not_dbgCert_sound : ¬∀ h cert m, FlashCertSound h cert m ∧ EraseCertSound h m := by
  intro hall
  have heval : (qmromEraseDbgCert ⟨10, 0xB0, 5, some .b0⟩ (machineInit (fun _ => 0) (fun _ => 0) readyDevice)).map
      (fun r => (r.1, r.2.said)) = some (0, []) := by
    decide +kernel
  obtain ⟨⟨rc, m'⟩, hrun, heq⟩ := Option.map_eq_some_iff.mp heval
  obtain ⟨hrc, hsaid⟩ := Prod.mk.inj heq
  obtain ⟨-, hwritten⟩ := ((hall _ ⟨[], by decide⟩ _).2 rc m' hrun).1 hrc
  rw [show m'.said = [] from hsaid] at hwritten
  exact absurd hwritten (by decide)

end Qm35.Qmrom
