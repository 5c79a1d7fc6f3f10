import Qm35.Lib.Meter
import Qm35.Rom.Response

/- The budget of the polling loops, `comms_retries`, which is the module parameter
   `qmrom_retries` and can be any `int`. The loops count it down past 0 and stop where
   they find it 0, so a budget that is not negative bounds them: the transfers of a
   `poll_soc`, the polls of a wait and of a wait for a response. A negative one is
   counted down too, to the smallest `int` and past it, and bounds nothing.

   What a run of the model does not show is metered: the calls of `poll_soc`, and the
   decrements of a counter that holds the smallest `int`. The metered loops are those of
   the model with the charges written in, and do the same without them
   (`Waiting.measures`). -/
namespace Qm35.Qmrom

open Trace Meter

abbrev MeteredRom (α : Type) : Type := Metered (Nat × Nat) Machine α

/-- A call of `poll_soc`. -/
def onePoll : Nat × Nat := (1, 0)

/-- A decrement past the smallest `int`. -/
def oneOverflow : Nat × Nat := (0, 1)

/-- `retries--` of the counter with this 32-bit number; the smallest `int` has that of 2^31. -/
def countDown (retries : Nat) : MeteredRom Unit := charge (if retries = 2147483648 then oneOverflow else 0)

/-! The loops, metered. -/

def meteredPollLoop (xfer : Rom Unit) : Nat → MeteredRom Unit
  | 0 => do
    unmetered xfer
    countDown 0
  | retries + 1 => do
    unmetered xfer
    countDown (retries + 1)
    let flags ← unmetered rawFlags
    if flags = 0 then meteredPollLoop xfer retries else pure ()

/-- A transfer of each `poll_soc`, with the wait before it. -/
def pollXfer : RomCode → Rom Unit
  | .a0 => do
    let _ ← qmromSpiTransfer 1
  | .b0 => do
    let len ← hstcLen
    let _ ← qmromSpiTransfer (sizeofStc + len)
  | .c0 => do
    let rc ← qmromSpiWaitForReadyLine
    if rc ≠ 0 then pure ()
    else do
      let len ← hstcLen
      let _ ← qmromSpiTransfer (sizeofStc + len)

/-- What each `poll_soc` clears first. -/
def pollClear : RomCode → Rom Unit
  | .a0 => hstcClear
  | .b0 => hstcClear
  | .c0 => do
    hstcClear
    setRawFlags 0

def pollSocOf : RomCode → Handle → Rom Unit
  | .a0 => qmromA0PollSoc
  | .b0 => qmromB0PollSoc
  | .c0 => qmromC0PollSoc

def meteredPollSoc (rev : RomCode) (h : Handle) : MeteredRom Unit := do
  charge onePoll
  unmetered (pollClear rev)
  meteredPollLoop (pollXfer rev) h.retries

def meteredA0WaitLoop (h : Handle) : Nat → MeteredRom Unit
  | 0 => countDown 0
  | retries + 1 => do
    countDown (retries + 1)
    let flags ← unmetered rawFlags
    if flags &&& socOutWaiting = 0 then do
      meteredPollSoc .a0 h
      meteredA0WaitLoop h retries
    else pure ()

def meteredB0WaitLoop (h : Handle) : Nat → MeteredRom (Option Int)
  | 0 => do
    countDown 0
    pure none
  | retries + 1 => do
    countDown (retries + 1)
    let flags ← unmetered rawFlags
    if flags = spiShReadyCmdBitMask then pure none
    else if flags &&& socOutWaiting ≠ 0 then do
      let _ ← unmetered qmromPreRead
      meteredB0WaitLoop h retries
    else if flags &&& socOutActive ≠ 0 then do
      let rc ← unmetered qmromRead
      if rc ≠ 0 then pure (some rc) else meteredB0WaitLoop h retries
    else do
      meteredPollSoc .b0 h
      meteredB0WaitLoop h retries

def meteredC0WaitLoop (h : Handle) : Nat → MeteredRom (Option Int)
  | 0 => do
    countDown 0
    pure none
  | retries + 1 => do
    countDown (retries + 1)
    let flags ← unmetered rawFlags
    if flags = spiShReadyCmdBitMaskC0 then pure none
    else if flags &&& socOutWaiting ≠ 0 then do
      let _ ← unmetered qmromPreReadC0
      let _ ← unmetered qmromReadC0
      meteredC0WaitLoop h retries
    else if flags &&& socOutActive ≠ 0 then do
      let rc ← unmetered qmromReadC0
      pure (some rc)
    else do
      meteredPollSoc .c0 h
      meteredC0WaitLoop h retries

/-- The end of a wait of the B0 and the C0. -/
def waitEnd (mask : UInt8) : Option Int → Rom Int
  | some rc => pure rc
  | none => do
    let flags ← rawFlags
    pure (if flags = mask then 0 else spiErrWaitReadyTimeout)

def meteredWaitReady : RomCode → Handle → MeteredRom Int
  | .a0, h => do
    meteredPollSoc .a0 h
    meteredA0WaitLoop h h.retries
    let flags ← unmetered rawFlags
    pure (if flags &&& socOutWaiting ≠ 0 then 0 else spiErrWaitReadyTimeout)
  | .b0, h => do
    meteredPollSoc .b0 h
    let r ← meteredB0WaitLoop h h.retries
    unmetered (waitEnd spiShReadyCmdBitMask r)
  | .c0, h => do
    meteredPollSoc .c0 h
    let r ← meteredC0WaitLoop h h.retries
    unmetered (waitEnd spiShReadyCmdBitMaskC0 r)

def SocProbe.rev : SocProbe → RomCode
  | .b0 => .b0
  | .c0 => .c0

def meteredRespPass (p : SocProbe) (h : Handle) (retries : Nat) (next : MeteredRom Int) : MeteredRom Int := do
  let flags ← unmetered rawFlags
  if flags &&& socOutWaiting ≠ 0 then unmetered (p.exchange retries)
  else do
    meteredPollSoc p.rev h
    countDown retries
    next

def meteredRespLoop (p : SocProbe) (h : Handle) : Nat → MeteredRom Int
  | 0 => meteredRespPass p h 0 (pure (-1))
  | retries + 1 => meteredRespPass p h (retries + 1) (meteredRespLoop p h retries)

/-- The functions that call `poll_soc` in a loop. -/
inductive Waiting where
  | waitReady (rev : RomCode)
  | pollCmdResp (p : SocProbe)

def Waiting.run : Waiting → Handle → Rom Int
  | .waitReady .a0 => qmromA0WaitReady
  | .waitReady .b0 => qmromB0WaitReady
  | .waitReady .c0 => qmromC0WaitReady
  | .pollCmdResp p => p.pollCmdResp

def Waiting.metered : Waiting → Handle → MeteredRom Int
  | .waitReady rev, h => meteredWaitReady rev h
  | .pollCmdResp p, h => do
    meteredPollSoc p.rev h
    meteredRespLoop p h h.retries

/-! The bounds. -/

/-- The transfers so far. -/
def Machine.transfers (m : Machine) : Nat := m.log.countP Event.isXfer

/-- The program `y`, which `x` meters, calls `poll_soc` no more than `polls` times and does not count down
past the smallest `int`. -/
def Within {α : Type} (x : MeteredRom α) (y : Rom α) (polls : Nat) : Prop :=
  ∀ m a m', y m = some (a, m') → ∃ k, x 0 m = some ((a, k), m') ∧ k.1 ≤ polls ∧ k.2 = 0

/-- With this value of `qmrom_retries` the loops are bounded, whatever the handle and the device, and a
probe ends. -/
structure Bounded (n : Int32) : Prop where
  transfers : ∀ rev h m m', pollSocOf rev (Handle.withRetries h n) m = some ((), m') →
    m'.transfers ≤ m.transfers + ((max n.toInt 0).toNat + 1)
  pollSoc : ∀ rev h, Within (meteredPollSoc rev (Handle.withRetries h n)) (pollSocOf rev (h.withRetries n)) 1
  waiting : ∀ (w : Waiting) h, Within (w.metered (Handle.withRetries h n)) (w.run (h.withRetries n))
    ((max n.toInt 0).toNat + 2)
  probe : ∀ (h : ProbeHandle) m, h.commsRetries = n.toInt → ∃ r m', qmromProbeDevice h m = some (r, m')

/-! The meter left out. -/

section Measures
variable (h : Handle)

theorem measures_countDown {α : Type} {retries : Nat} {f : Unit → MeteredRom α} {y : Rom α} (hf : Measures (f ()) y) :
    Measures (countDown retries >>= f) y :=
  hf.charged

theorem measures_pollLoop (xfer : Rom Unit) (retries : Nat) :
    Measures (meteredPollLoop xfer retries) (pollLoop xfer retries) := by
  induction retries with
  | zero =>
    have hlast : Measures (unmetered (κ := Nat × Nat) xfer >>= fun _ => countDown 0 >>= fun _ => pure ())
        (xfer >>= fun _ => pure ()) :=
      (Measures.unmetered xfer).bind fun _ => measures_countDown (.pure' ())
    simpa [meteredPollLoop, pollLoop] using hlast
  | succ retries ih =>
    refine (Measures.unmetered xfer).bind fun _ => measures_countDown ?_
    exact (Measures.unmetered rawFlags).bind fun flags => .ite' ih (.pure' ())

theorem pollSocOf_eq (rev : RomCode) :
    pollSocOf rev h = (do pollClear rev; pollLoop (pollXfer rev) h.retries) := by
  cases rev <;> rfl

theorem measures_pollSoc (rev : RomCode) : Measures (meteredPollSoc rev h) (pollSocOf rev h) := by
  rw [pollSocOf_eq]
  apply Measures.charged
  exact (Measures.unmetered _).bind fun _ => measures_pollLoop _ _

theorem measures_a0WaitLoop (retries : Nat) : Measures (meteredA0WaitLoop h retries) (a0WaitLoop h retries) := by
  induction retries with
  | zero => exact measures_countDown (f := fun _ => pure ()) (.pure' ())
  | succ retries ih =>
    apply measures_countDown
    refine (Measures.unmetered rawFlags).bind fun flags => .ite' ?_ (.pure' ())
    exact (measures_pollSoc h .a0).bind fun _ => ih

theorem measures_b0WaitLoop (retries : Nat) : Measures (meteredB0WaitLoop h retries) (b0WaitLoop h retries) := by
  induction retries with
  | zero => exact measures_countDown (.pure' none)
  | succ retries ih =>
    apply measures_countDown
    -- ready, output waiting, output active, or none of these: only the last polls again
    refine (Measures.unmetered rawFlags).bind fun flags => .ite' (.pure' none) (.ite' ?_ (.ite' ?_ ?_))
    · exact (Measures.unmetered qmromPreRead).bind fun _ => ih
    · exact (Measures.unmetered qmromRead).bind fun rc => .ite' (.pure' _) ih
    · exact (measures_pollSoc h .b0).bind fun _ => ih

theorem measures_c0WaitLoop (retries : Nat) : Measures (meteredC0WaitLoop h retries) (c0WaitLoop h retries) := by
  induction retries with
  | zero => exact measures_countDown (.pure' none)
  | succ retries ih =>
    apply measures_countDown
    -- ready, output waiting, output active, or none of these: only the last polls again
    refine (Measures.unmetered rawFlags).bind fun flags => .ite' (.pure' none) (.ite' ?_ (.ite' ?_ ?_))
    · exact (Measures.unmetered qmromPreReadC0).bind fun _ => (Measures.unmetered qmromReadC0).bind fun _ => ih
    · exact (Measures.unmetered qmromReadC0).bind fun rc => .pure' _
    · exact (measures_pollSoc h .c0).bind fun _ => ih

theorem measures_respPass (p : SocProbe) (retries : Nat) {next : MeteredRom Int} {next' : Rom Int}
    (hnext : Measures next next') : Measures (meteredRespPass p h retries next) (p.respPass h retries next') := by
  have hpass : p.respPass h retries next' = (do
      let flags ← rawFlags
      if flags &&& socOutWaiting ≠ 0 then p.exchange retries
      else do
        pollSocOf p.rev h
        next') := by
    cases p <;> rfl
  rw [hpass]
  refine (Measures.unmetered rawFlags).bind fun flags => .ite' (.unmetered _) ?_
  exact (measures_pollSoc h p.rev).bind fun _ => measures_countDown hnext

theorem measures_respLoop (p : SocProbe) (retries : Nat) :
    Measures (meteredRespLoop p h retries) (p.respLoop h retries) := by
  induction retries with
  | zero =>
    rw [respLoop_zero]
    exact measures_respPass h p 0 (.pure' (-1))
  | succ retries ih =>
    rw [respLoop_succ]
    exact measures_respPass h p (retries + 1) ih

theorem Waiting.measures (w : Waiting) : Measures (w.metered h) (w.run h) := by
  cases w with
  | waitReady rev =>
    cases rev with
    | a0 =>
      refine (measures_pollSoc h .a0).bind fun _ => (measures_a0WaitLoop h _).bind fun _ => ?_
      exact (Measures.unmetered rawFlags).bind fun flags => .pure' _
    | b0 =>
      have hend : qmromB0WaitReady h = (do
          pollSocOf .b0 h
          let r ← b0WaitLoop h h.retries
          waitEnd spiShReadyCmdBitMask r) := rfl
      show Measures _ (qmromB0WaitReady h)
      rw [hend]
      exact (measures_pollSoc h .b0).bind fun _ => (measures_b0WaitLoop h _).bind fun r => .unmetered _
    | c0 =>
      have hend : qmromC0WaitReady h = (do
          pollSocOf .c0 h
          let r ← c0WaitLoop h h.retries
          waitEnd spiShReadyCmdBitMaskC0 r) := rfl
      show Measures _ (qmromC0WaitReady h)
      rw [hend]
      exact (measures_pollSoc h .c0).bind fun _ => (measures_c0WaitLoop h _).bind fun r => .unmetered _
  | pollCmdResp p =>
    have hcall : p.pollCmdResp h = (do pollSocOf p.rev h; p.respLoop h h.retries) := by
      cases p <;> rfl
    show Measures _ (p.pollCmdResp h)
    rw [hcall]
    exact (measures_pollSoc h p.rev).bind fun _ => measures_respLoop h p _

end Measures

/-! What the meter reads, where the counters start below 2^31. -/

section Costs
variable {h : Handle} {retries polls : Nat}

theorem cost_countDown (hlt : retries < 2147483648) : Cost (countDown retries) 0 := by
  unfold countDown
  rw [if_neg (Nat.ne_of_lt hlt)]
  exact .charge 0

/-- A poll, and then `polls` more. -/
theorem cost_poll {α : Type} {rev : RomCode} {f : Unit → MeteredRom α} (hpoll : Cost (meteredPollSoc rev h) onePoll)
    (hf : Cost (f ()) (polls, 0)) : Cost (meteredPollSoc rev h >>= f) (polls + 1, 0) := by
  refine (hpoll.bind fun _ => hf).mono ?_
  simp [onePoll, Nat.add_comm]

theorem cost_le {α : Type} {x : MeteredRom α} {more : Nat} (hx : Cost x (polls, 0)) (h : polls ≤ more) :
    Cost x (more, 0) :=
  hx.mono ⟨h, le_refl 0⟩

theorem cost_pure {α : Type} (a : α) : Cost (pure a : MeteredRom α) (polls, 0) :=
  cost_le (.pure' a) (Nat.zero_le _)

theorem cost_pollLoop (xfer : Rom Unit) (hlt : retries < 2147483648) : Cost (meteredPollLoop xfer retries) 0 := by
  induction retries with
  | zero => exact (Cost.unmetered xfer).free fun _ => cost_countDown hlt
  | succ retries ih =>
    refine (Cost.unmetered xfer).free fun _ => (cost_countDown hlt).free fun _ => ?_
    exact (Cost.unmetered rawFlags).free fun flags => .ite' (ih (by omega)) (.pure' ())

variable (hlt : h.retries < 2147483648)
include hlt

theorem cost_pollSoc (rev : RomCode) : Cost (meteredPollSoc rev h) onePoll := by
  refine ((Cost.charge onePoll).bind (c := 0) fun _ => ?_).mono (by simp)
  exact (Cost.unmetered _).free fun _ => cost_pollLoop _ hlt

theorem cost_a0WaitLoop (hr : retries < 2147483648) : Cost (meteredA0WaitLoop h retries) (retries, 0) := by
  induction retries with
  | zero => exact cost_countDown hr
  | succ retries ih =>
    refine (cost_countDown hr).free fun _ => (Cost.unmetered rawFlags).free fun flags => .ite' ?_ (cost_pure ())
    exact cost_poll (cost_pollSoc hlt .a0) (ih (by omega))

theorem cost_b0WaitLoop (hr : retries < 2147483648) : Cost (meteredB0WaitLoop h retries) (retries, 0) := by
  induction retries with
  | zero => exact (cost_countDown hr).free fun _ => cost_pure none
  | succ retries ih =>
    have hrest : Cost (meteredB0WaitLoop h retries) (retries + 1, 0) := cost_le (ih (by omega)) (by omega)
    refine (cost_countDown hr).free fun _ => (Cost.unmetered rawFlags).free fun flags => ?_
    refine .ite' (cost_pure none) (.ite' ?_ (.ite' ?_ ?_))
    · exact (Cost.unmetered qmromPreRead).free fun _ => hrest
    · exact (Cost.unmetered qmromRead).free fun rc => .ite' (cost_pure _) hrest
    · exact cost_poll (cost_pollSoc hlt .b0) (ih (by omega))

theorem cost_c0WaitLoop (hr : retries < 2147483648) : Cost (meteredC0WaitLoop h retries) (retries, 0) := by
  induction retries with
  | zero => exact (cost_countDown hr).free fun _ => cost_pure none
  | succ retries ih =>
    have hrest : Cost (meteredC0WaitLoop h retries) (retries + 1, 0) := cost_le (ih (by omega)) (by omega)
    refine (cost_countDown hr).free fun _ => (Cost.unmetered rawFlags).free fun flags => ?_
    refine .ite' (cost_pure none) (.ite' ?_ (.ite' ?_ ?_))
    · exact (Cost.unmetered qmromPreReadC0).free fun _ => (Cost.unmetered qmromReadC0).free fun _ => hrest
    · exact (Cost.unmetered qmromReadC0).free fun rc => cost_pure _
    · exact cost_poll (cost_pollSoc hlt .c0) (ih (by omega))

theorem cost_respPass {p : SocProbe} {next : MeteredRom Int} (hr : retries < 2147483648) (hnext : Cost next (polls, 0)) :
    Cost (meteredRespPass p h retries next) (polls + 1, 0) := by
  refine (Cost.unmetered rawFlags).free fun flags => .ite' ?_ ?_
  · exact cost_le (.unmetered _) (Nat.zero_le _)
  · exact cost_poll (cost_pollSoc hlt p.rev) ((cost_countDown hr).free fun _ => hnext)

theorem cost_respLoop (p : SocProbe) (hr : retries < 2147483648) :
    Cost (meteredRespLoop p h retries) (retries + 1, 0) := by
  induction retries with
  | zero => exact cost_respPass hlt hr (cost_pure (-1))
  | succ retries ih => exact cost_respPass hlt hr (ih (by omega))

theorem cost_waitReady (rev : RomCode) : Cost (meteredWaitReady rev h) (h.retries + 1, 0) := by
  cases rev with
  | a0 =>
    apply cost_poll (cost_pollSoc hlt .a0)
    refine (cost_a0WaitLoop hlt hlt).endFree fun _ => ?_
    exact (Cost.unmetered rawFlags).free fun flags => .pure' _
  | b0 => exact cost_poll (cost_pollSoc hlt .b0) ((cost_b0WaitLoop hlt hlt).endFree fun r => .unmetered _)
  | c0 => exact cost_poll (cost_pollSoc hlt .c0) ((cost_c0WaitLoop hlt hlt).endFree fun r => .unmetered _)

theorem Waiting.cost (w : Waiting) : Cost (w.metered h) (h.retries + 2, 0) := by
  cases w with
  | waitReady rev => exact cost_le (cost_waitReady hlt rev) (by omega)
  | pollCmdResp p => exact cost_poll (cost_pollSoc hlt p.rev) (cost_respLoop hlt p hlt)

end Costs

/-! The transfers of a `poll_soc`. -/

/-- The program transfers no more than `n` times. -/
def Transfers {α : Type} (n : Nat) (x : Rom α) : Prop :=
  Says Machine.log (fun _ => True) x fun _ _ os => os.countP Event.isXfer ≤ n

namespace Transfers

variable {α β : Type} {x y : Rom α} {n k : Nat}

theorem pure' (a : α) : Transfers n (pure a : Rom α) := Says.pure' fun _ _ => Nat.zero_le n

theorem mute (h : Mute x) : Transfers n x :=
  fun m a m' _ hx => ⟨[], by rw [h m a m' hx, List.append_nil], Nat.zero_le n⟩

theorem bind {f : α → Rom β} (hx : Transfers n x) (hf : ∀ a, Transfers k (f a)) : Transfers (n + k) (x >>= f) := by
  apply Says.bind hx
  intro a os m b m' hos hrun
  obtain ⟨os', hlog, hos'⟩ := hf a m b m' trivial hrun
  refine ⟨os', hlog, ?_⟩
  calc (os ++ os').countP Event.isXfer = os.countP Event.isXfer + os'.countP Event.isXfer := List.countP_append
    _ ≤ n + k := Nat.add_le_add hos hos'

theorem mono (h : Transfers n x) (hnk : n ≤ k) : Transfers k x :=
  Says.mono h (fun _ => id) fun _ _ _ hos => hos.trans hnk

theorem first {f : α → Rom β} (hx : Transfers 0 x) (hf : ∀ a, Transfers n (f a)) : Transfers n (x >>= f) :=
  (bind hx hf).mono (Nat.le_of_eq (Nat.zero_add n))

theorem ite' {p : Prop} [Decidable p] (hx : Transfers n x) (hy : Transfers n y) : Transfers n (if p then x else y) :=
  Says.ite' (fun _ => hx) fun _ => hy

end Transfers

theorem transfers_readyLine : Transfers 0 qmromSpiWaitForReadyLine := by
  intro m a m' _ hx
  cases hx
  exact ⟨_, rfl, Nat.le_refl 0⟩

theorem transfers_transfer (size : Nat) : Transfers 1 (qmromSpiTransfer size) := by
  intro m rc m' _ hx
  obtain ⟨hlog, -⟩ := qmromSpiTransfer_some hx
  exact ⟨_, hlog, Nat.le_refl 1⟩

theorem transfers_pollXfer (rev : RomCode) : Transfers 1 (pollXfer rev) := by
  have hframe : ∀ size, Transfers 1 (do let _ ← qmromSpiTransfer size) :=
    fun size => (transfers_transfer size).bind (k := 0) fun _ => .pure' ()
  cases rev with
  | a0 => exact hframe 1
  | b0 => exact (Transfers.mute mute_hstcLen).first fun len => hframe _
  | c0 =>
    refine transfers_readyLine.first fun rc => .ite' (.pure' ()) ?_
    exact (Transfers.mute mute_hstcLen).first fun len => hframe _

theorem transfers_pollLoop {xfer : Rom Unit} (hxfer : Transfers 1 xfer) (retries : Nat) :
    Transfers (retries + 1) (pollLoop xfer retries) := by
  induction retries with
  | zero => exact hxfer
  | succ retries ih =>
    rw [Nat.add_comm]
    exact hxfer.bind fun _ => (Transfers.mute mute_rawFlags).first fun flags => .ite' ih (.pure' ())

theorem transfers_pollSoc (rev : RomCode) (h : Handle) : Transfers (h.retries + 1) (pollSocOf rev h) := by
  have hheader : Transfers 0 hstcClear := .mute (mute_hstcStore _ _)
  have hclear : Transfers 0 (pollClear rev) := by
    cases rev with
    | a0 => exact hheader
    | b0 => exact hheader
    | c0 => exact hheader.first fun _ => .mute (mute_setRawFlags 0)
  rw [pollSocOf_eq]
  exact hclear.first fun _ => transfers_pollLoop (transfers_pollXfer rev) _

/-! A device that never says anything. -/

def silentDevice : Nat → Answer := fun _ => ⟨0, fun _ => 0, true⟩

/-- The machine with a silent device, after `k` transfers. -/
structure Unanswered (k : Nat) (m : Machine) : Prop where
  dev : m.dev = silentDevice
  flags : m.sstc 0 = 0
  len : m.hstc.le16 2 = 0
  count : m.transfers = k

theorem unanswered_transfer (k : Nat) {size : Nat} (hfit : size ≤ stcBufSize) :
    Returns (Unanswered k) (qmromSpiTransfer size) fun _ => Unanswered (k + 1) := by
  intro m hm
  refine ⟨_, _, if_neg (Nat.not_lt.mpr hfit), ⟨hm.dev, ?_, hm.len, ?_⟩⟩
  · simp [hm.dev, hm.flags, silentDevice]
  · simp [Machine.transfers, Event.isXfer, ← hm.count]

theorem unanswered_len (k : Nat) : Returns (Unanswered k) hstcLen fun len m => len = 0 ∧ Unanswered k m :=
  fun m hm => ⟨_, m, rfl, hm.len, hm⟩

theorem unanswered_pollXfer (k : Nat) (rev : RomCode) :
    Returns (Unanswered k) (pollXfer rev) fun _ => Unanswered (k + 1) := by
  have hframe : ∀ size, size ≤ stcBufSize →
      Returns (Unanswered k) (do let _ ← qmromSpiTransfer size) fun _ => Unanswered (k + 1) :=
    fun size hfit => (unanswered_transfer k hfit).bind fun _ => Returns.pure' fun _ hm => hm
  have hheader : Returns (Unanswered k) (do let len ← hstcLen; let _ ← qmromSpiTransfer (sizeofStc + len))
      fun _ => Unanswered (k + 1) := by
    apply (unanswered_len k).bind
    intro len m hm
    exact hframe (sizeofStc + len) (by rw [hm.1]; decide) m hm.2
  cases rev with
  | a0 => exact hframe 1 (by decide)
  | b0 => exact hheader
  | c0 =>
    have hready : Returns (Unanswered k) qmromSpiWaitForReadyLine fun rc m => rc = 0 ∧ Unanswered k m := by
      intro m hm
      refine ⟨_, _, rfl, ?_, hm.dev, hm.flags, hm.len, ?_⟩
      · simp [hm.dev, silentDevice]
      · simp [Machine.transfers, Event.isXfer, ← hm.count]
    apply hready.bind
    intro rc m hm
    simp only [hm.1]
    exact hheader m hm.2

/-- A silent device is polled until the counter is 0. -/
theorem unanswered_pollLoop (rev : RomCode) (retries k : Nat) :
    Returns (Unanswered k) (pollLoop (pollXfer rev) retries) fun _ => Unanswered (k + (retries + 1)) := by
  induction retries generalizing k with
  | zero => exact unanswered_pollXfer k rev
  | succ retries ih =>
    apply (unanswered_pollXfer k rev).bind
    intro _ m hm
    obtain ⟨a, m', hrun, hm'⟩ := ih (k + 1) m hm
    refine ⟨a, m', bind_some.mpr ⟨0, m, ?_, hrun⟩, ?_⟩
    · simp [rawFlags, hm.flags]
    · rwa [Nat.add_right_comm, Nat.add_assoc] at hm'

theorem unanswered_pollSoc (rev : RomCode) (h : Handle) (k : Nat) :
    Returns (Unanswered k) (pollSocOf rev h) fun _ => Unanswered (k + (h.retries + 1)) := by
  have hclear : Returns (Unanswered k) hstcClear fun _ => Unanswered k :=
    fun m hm => ⟨(), _, hstcStore_fits (by decide) m, hm.dev, hm.flags, rfl, hm.count⟩
  rw [pollSocOf_eq]
  refine Returns.bind (J := fun _ => Unanswered k) ?_ fun _ => unanswered_pollLoop rev _ k
  cases rev with
  | a0 => exact hclear
  | b0 => exact hclear
  | c0 => exact hclear.bind fun _ m hm => ⟨(), _, rfl, hm.dev, rfl, hm.len, hm.count⟩

/-! Which budgets bound the loops. -/

theorem within_of_cost {α : Type} {x : MeteredRom α} {y : Rom α} {polls : Nat} (hm : Measures x y)
    (hc : Cost x (polls, 0)) : Within x y polls := by
  intro m a m' hrun
  obtain ⟨k, hx⟩ := hm.reading hrun 0
  have hle : k ≤ 0 + (polls, 0) := hc 0 m a k m' hx
  rw [zero_add] at hle
  exact ⟨k, hx, hle.1, Nat.le_zero.mp hle.2⟩

theorem toInt_nonneg {n : Int32} : 0 ≤ n ↔ 0 ≤ n.toInt := Int32.le_iff_toInt_le

theorem bounded_of_nonneg {n : Int32} (hn : 0 ≤ n) : Bounded n := by
  have hretries : ∀ h, (Handle.withRetries h n).retries = (max n.toInt 0).toNat := by
    intro h
    rw [(retries_withRetries h hn).1, max_eq_left (toInt_nonneg.mp hn)]
  have hlt : ∀ h, (Handle.withRetries h n).retries < 2147483648 := by
    intro h
    rw [(retries_withRetries h hn).1]
    exact (retries_withRetries h hn).2
  constructor
  · intro rev h m m' hrun
    obtain ⟨os, hlog, hos⟩ := transfers_pollSoc rev (h.withRetries n) m () m' trivial hrun
    rw [hretries] at hos
    unfold Machine.transfers
    rw [hlog, List.countP_append]
    exact Nat.add_le_add_left hos _
  · exact fun rev h => within_of_cost (measures_pollSoc _ rev) (cost_pollSoc (hlt h) rev)
  · intro w h
    rw [← hretries h]
    exact within_of_cost (w.measures _) (w.cost (hlt h))
  · exact fun h m _ => ((probes_probeDevice h).safe not_false).some m

/-- A negative budget is counted down from 2^31 or more. -/
theorem retries_neg (h : Handle) {n : Int32} (hn : ¬0 ≤ n) : 2147483648 ≤ (h.withRetries n).retries := by
  have hneg : n.toInt < 0 := by
    rw [← Int.not_le]
    exact fun hle => hn (toInt_nonneg.mpr hle)
  have hge : -2147483648 ≤ n.toInt := Int32.le_toInt n
  unfold Handle.retries Handle.withRetries
  dsimp only
  omega

/-- A silent device is polled on and on. -/
theorem not_bounded_of_neg {n : Int32} (hn : ¬0 ≤ n) : ¬Bounded n := by
  intro hb
  have hinit : Unanswered 0 (machineInit (fun _ => 0) (fun _ => 0) silentDevice) := ⟨rfl, rfl, rfl, rfl⟩
  obtain ⟨_, m', hrun, hm'⟩ := unanswered_pollSoc .b0 (plainHandle.withRetries n) 0 _ hinit
  have hle := hb.transfers .b0 plainHandle _ m' hrun
  have hneg : max n.toInt 0 = 0 := by
    apply max_eq_right
    exact Int.le_of_lt (Int.not_le.mp fun hle => hn (toInt_nonneg.mpr hle))
  have hmany := retries_neg plainHandle hn
  rw [hm'.count, hinit.count, hneg] at hle
  simp only [Int.toNat_zero] at hle
  omega

theorem bounded_iff (n : Int32) : Bounded n ↔ 0 ≤ n := by
  constructor
  · intro hb
    by_contra hn
    exact not_bounded_of_neg hn hb
  · exact bounded_of_nonneg

/-- With -1 the counter of a single `poll_soc` goes through all negative values. -/
theorem not_bounded : ¬∀ n : Int32, Bounded n := by
  intro hall
  exact not_bounded_of_neg (by decide) (hall (-1))

end Qm35.Qmrom
