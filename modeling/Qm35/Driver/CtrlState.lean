import Qm35.Lib.Lts

/- The state that `QM35_CTRL_GET_STATE` tells, and the reset line. Both are changed by
   `qm35_reset`, which any number of callers may be in, and the state also by `qm_firmware_load`
   and by the handler of the SS_IRQ; `qm35->lock` makes each change of the state a step
   of its own, and everything between two changes may be interrupted.

   `qm_firmware_load` reads the state, shows `FW_DOWNLOADING` and puts back what it had read,
   whatever has become of the chip in between. So where loads overlap the second may put
   back `FW_DOWNLOADING`, and it stays (`downloading_stays`). Where a load finds something
   else, and resets do not overlap, what is shown is true: `FW_DOWNLOADING` only while
   there is a load, and the line is asserted for as long as a reset needs it, or
   after a reset that was not to let the chip run. -/
namespace Qm35.Ctrl

/-- `QM35_CTRL_STATE_UNKNOWN` and so on. -/
inductive CtrlState where
  | unknown
  | off
  | reset
  | coredump
  | ready
  | fwDownloading
  | uciApp
deriving DecidableEq

/-- Where a call of `qm35_reset` is, after it has set the state: before it asserts the line, before it releases
it, before it sets the state again. -/
inductive ResetPc where
  | assert
  | release
  | settle
deriving DecidableEq

/-- Where a caller is. `load` is in `qm_firmware_load` with the state to put back, `save` has only read it; the
`saved` of a reset is that of the load it is part of. -/
inductive CallPc where
  | idle
  | save (saved : CtrlState)
  | load (saved : CtrlState)
  | reset (pc : ResetPc) (run : Bool) (saved : Option CtrlState)
deriving DecidableEq

/-- `gpioReset` is the level of the line, if there is one; `stopped` records whether the last reset that came
to its end was not to let the chip run. -/
structure State where
  state : CtrlState
  gpioReset : Option Bool
  calls : Nat → CallPc
  stopped : Bool

/-- After `qm35_regulators_setup`; the line is requested as `GPIOD_OUT_LOW`. -/
def ctrlInit (hasReset : Bool) : State := ⟨.reset, if hasReset then some false else none, fun _ => .idle, false⟩

inductive CtrlAct where
  /-- `qm35_reset` -/
  | reset (i : Nat) (run : Bool)
  /-- `qm_firmware_load` -/
  | load (i : Nat)
  /-- `qmrom_spi_reset_device` -/
  | romReset (i : Nat)
  /-- the end of `qm_firmware_load` -/
  | loaded (i : Nat)
  | step (i : Nat)
  /-- `qm35_irq_handler` -/
  | irq

def State.goto (s : State) (i : Nat) (pc : CallPc) : State := { s with calls := Function.update s.calls i pc }

section Goto
variable (s : State) (i : Nat) (pc : CallPc)

@[simp] theorem State.goto_state : (s.goto i pc).state = s.state := rfl

@[simp] theorem State.goto_gpioReset : (s.goto i pc).gpioReset = s.gpioReset := rfl

@[simp] theorem State.goto_stopped : (s.goto i pc).stopped = s.stopped := rfl

@[simp] theorem State.goto_calls : (s.goto i pc).calls = Function.update s.calls i pc := rfl

end Goto

/-- `qm35_reset` up to the first statement after it has set the state. Without a line it does nothing. -/
def qm35Reset (s : State) (i : Nat) (run : Bool) (saved : Option CtrlState) : State :=
  if s.gpioReset.isSome then { s with state := .reset }.goto i (.reset .assert run saved) else s

/-- Where a reset returns to. -/
def afterReset : Option CtrlState → CallPc
  | none => .idle
  | some saved => .load saved

/-- The next statement of a reset, or of a load that has just read the state. -/
def callStep (s : State) (i : Nat) : Option State :=
  match s.calls i with
  | .save saved => some ({ s with state := .fwDownloading }.goto i (.load saved))
  | .reset .assert run saved =>
    let s := { s with gpioReset := s.gpioReset.map fun _ => true }
    some (if run then s.goto i (.reset .release run saved) else { s with stopped := true }.goto i (afterReset saved))
  | .reset .release run saved =>
    some ({ s with gpioReset := s.gpioReset.map fun _ => false }.goto i (.reset .settle run saved))
  | .reset .settle _ saved => some ({ s with state := .unknown, stopped := false }.goto i (afterReset saved))
  | _ => none

def ctrlStep (s : State) : CtrlAct → Option State
  | .reset i run => if s.calls i = .idle then some (qm35Reset s i run none) else none
  | .load i => if s.calls i = .idle then some (s.goto i (.save s.state)) else none
  | .romReset i =>
    match s.calls i with
    | .load saved => some (qm35Reset s i true (some saved))
    | _ => none
  | .loaded i =>
    match s.calls i with
    | .load saved => some ({ s with state := saved }.goto i .idle)
    | _ => none
  | .step i => callStep s i
  | .irq => some { s with state := .ready }

/-! What is asked of the calls, and what holds. -/

/-- The caller is in `qm_firmware_load`, with the state it will put back. -/
def CallPc.Loading (saved : CtrlState) : CallPc → Prop
  | .save saved' => saved' = saved
  | .load saved' => saved' = saved
  | .reset _ _ saved' => saved' = some saved
  | .idle => False

/-- The caller is in `qm35_reset`. -/
def CallPc.Resetting : CallPc → Prop
  | .reset _ _ _ => True
  | _ => False

/-- A load does not find `FW_DOWNLOADING`, and no reset starts in another. -/
def Apart (s : State) : CtrlAct → Prop
  | .load _ => s.state ≠ .fwDownloading
  | .reset _ _ => ∀ j, ¬(s.calls j).Resetting
  | .romReset _ => ∀ j, ¬(s.calls j).Resetting
  | _ => True

/-- The states that are ever shown. -/
def Shown (c : CtrlState) : Prop := c = .unknown ∨ c = .reset ∨ c = .ready ∨ c = .fwDownloading

/-- The level of the line at a point of a reset; `before` is the level it had before. -/
def ResetPc.level (before : Bool) : ResetPc → Bool
  | .assert => before
  | .release => true
  | .settle => false

structure Truthful (s : State) : Prop where
  shown : Shown s.state
  saved : ∀ i saved, (s.calls i).Loading saved → Shown saved ∧ saved ≠ .fwDownloading
  downloading : s.state = .fwDownloading → ∃ i saved, (s.calls i).Loading saved
  single : ∀ i j, (s.calls i).Resetting → (s.calls j).Resetting → i = j
  idleLine : (∀ i, ¬(s.calls i).Resetting) → ∀ level, s.gpioReset = some level → level = s.stopped
  line : ∀ i pc run saved, s.calls i = .reset pc run saved → s.gpioReset = some (pc.level s.stopped)

namespace Truthful

variable {s t : State} {i : Nat} {pc : CallPc}

theorem init (hasReset : Bool) : Truthful (ctrlInit hasReset) := by
  refine ⟨by simp [Shown, ctrlInit], ?_, ?_, ?_, ?_, ?_⟩ <;> simp [ctrlInit, CallPc.Loading, CallPc.Resetting]

/-- What holds of the callers, after one of them has gone on. -/
theorem forall_update {P : Nat → CallPc → Prop} (hcalls : t.calls = Function.update s.calls i pc) (hi : P i pc)
    (hothers : ∀ j, j ≠ i → P j (s.calls j)) : ∀ j, P j (t.calls j) := by
  intro j
  rw [hcalls]
  by_cases hj : j = i
  · subst hj
    simpa using hi
  · simpa [hj] using hothers j hj

theorem saved_update (T : Truthful s) (hcalls : t.calls = Function.update s.calls i pc)
    (hsaved : ∀ saved, pc.Loading saved → Shown saved ∧ saved ≠ .fwDownloading) :
    ∀ j saved, (t.calls j).Loading saved → Shown saved ∧ saved ≠ .fwDownloading :=
  forall_update (P := fun _ pc => ∀ saved, pc.Loading saved → Shown saved ∧ saved ≠ .fwDownloading) hcalls hsaved
    fun j _ => T.saved j

/-- A load that has set the state is still there if its caller does not leave it. -/
theorem downloading_update (T : Truthful s) (hcalls : t.calls = Function.update s.calls i pc) (hstate : t.state = s.state)
    (hkeep : ∀ saved, (s.calls i).Loading saved → pc.Loading saved) :
    t.state = .fwDownloading → ∃ j saved, (t.calls j).Loading saved := by
  rw [hstate]
  intro hdown
  obtain ⟨j, saved, hload⟩ := T.downloading hdown
  refine ⟨j, saved, ?_⟩
  rw [hcalls]
  by_cases hj : j = i
  · subst hj
    simpa using hkeep saved hload
  · simpa [hj] using hload

/-- A caller that is in no reset goes on outside of one. -/
theorem aside (T : Truthful s) (hcalls : t.calls = Function.update s.calls i pc) (hgpio : t.gpioReset = s.gpioReset)
    (hstopped : t.stopped = s.stopped) (hbefore : ¬(s.calls i).Resetting) (hafter : ¬pc.Resetting)
    (hshown : Shown t.state) (hsaved : ∀ saved, pc.Loading saved → Shown saved ∧ saved ≠ .fwDownloading)
    (hdown : t.state = .fwDownloading → ∃ j saved, (t.calls j).Loading saved) : Truthful t := by
  have hsame : ∀ j, (t.calls j).Resetting ↔ (s.calls j).Resetting :=
    forall_update (P := fun j pc => pc.Resetting ↔ (s.calls j).Resetting) hcalls (iff_of_false hafter hbefore)
      fun _ _ => Iff.rfl
  refine ⟨hshown, T.saved_update hcalls hsaved, hdown, ?_, ?_, ?_⟩
  · simpa only [hsame] using T.single
  · simpa only [hsame, hgpio, hstopped] using T.idleLine
  · rw [hgpio, hstopped]
    refine forall_update (P := fun _ pc => ∀ pc' run saved, pc = .reset pc' run saved →
      s.gpioReset = some (pc'.level s.stopped)) hcalls ?_ fun j _ => T.line j
    rintro pc' run saved rfl
    exact absurd trivial hafter

/-- A caller goes on while no other is in a reset. -/
theorem alone (T : Truthful s) (hcalls : t.calls = Function.update s.calls i pc)
    (hothers : ∀ j, j ≠ i → ¬(s.calls j).Resetting) (hshown : Shown t.state)
    (hsaved : ∀ saved, pc.Loading saved → Shown saved ∧ saved ≠ .fwDownloading)
    (hdown : t.state = .fwDownloading → ∃ j saved, (t.calls j).Loading saved)
    (hidle : ¬pc.Resetting → ∀ level, t.gpioReset = some level → level = t.stopped)
    (hline : ∀ pc' run saved, pc = .reset pc' run saved → t.gpioReset = some (pc'.level t.stopped)) : Truthful t := by
  have honly : ∀ j, (t.calls j).Resetting → j = i :=
    forall_update (P := fun j pc => pc.Resetting → j = i) hcalls (fun _ => rfl) fun j hj h => absurd h (hothers j hj)
  refine ⟨hshown, T.saved_update hcalls hsaved, hdown, ?_, ?_, ?_⟩
  · intro j k hj hk
    rw [honly j hj, honly k hk]
  · intro hnone
    apply hidle
    have hi := hnone i
    simpa [hcalls] using hi
  · refine forall_update (P := fun _ pc => ∀ pc' run saved, pc = .reset pc' run saved →
      t.gpioReset = some (pc'.level t.stopped)) hcalls hline ?_
    intro j hj pc' run saved hpc
    exact absurd (show (s.calls j).Resetting by simp [hpc, CallPc.Resetting]) (hothers j hj)

theorem qm35Reset (T : Truthful s) {run : Bool} {saved : Option CtrlState} (hnone : ∀ j, ¬(s.calls j).Resetting)
    (hsaved : ∀ c, saved = some c → (s.calls i).Loading c) : Truthful (qm35Reset s i run saved) := by
  unfold Ctrl.qm35Reset
  split
  · next hline =>
    obtain ⟨level, hlevel⟩ := Option.isSome_iff_exists.mp hline
    refine T.alone (i := i) rfl (fun j _ => hnone j) (by simp [Shown]) ?_ (by simp) ?_ ?_
    · intro c hc
      exact T.saved i c (hsaved c hc)
    · intro hnot
      exact absurd trivial hnot
    · intro pc' run' saved' hpc
      obtain ⟨rfl, -, -⟩ := CallPc.reset.inj hpc
      simp [hlevel, ResetPc.level, T.idleLine hnone level hlevel]
  · exact T

theorem afterReset_loading {saved : Option CtrlState} {c : CtrlState} :
    (afterReset saved).Loading c ↔ saved = some c := by
  cases saved <;> simp [afterReset, CallPc.Loading]

theorem afterReset_resetting (saved : Option CtrlState) : ¬(afterReset saved).Resetting := by
  cases saved <;> simp [afterReset, CallPc.Resetting]

theorem callStep (T : Truthful s) (h : callStep s i = some t) : Truthful t := by
  have hothers : ∀ {pc run saved}, s.calls i = .reset pc run saved → ∀ j, j ≠ i → ¬(s.calls j).Resetting := by
    intro pc run saved hpc j hj hr
    exact hj (T.single j i hr (by simp [hpc, CallPc.Resetting]))
  have hkept : ∀ {pc run saved}, s.calls i = .reset pc run saved → ∀ c, saved = some c → Shown c ∧ c ≠ .fwDownloading := by
    rintro pc run saved hpc c rfl
    exact T.saved i c (by simp [hpc, CallPc.Loading])
  unfold Ctrl.callStep at h
  split at h
  · next saved hpc =>
    obtain rfl := Option.some.inj h
    refine T.aside (i := i) rfl rfl rfl (by simp [hpc, CallPc.Resetting]) (by simp [CallPc.Resetting])
      (by simp [Shown, State.goto]) ?_ fun _ => ⟨i, saved, by simp [State.goto, CallPc.Loading]⟩
    rintro c rfl
    exact T.saved i _ (by simp [hpc, CallPc.Loading])
  · next run saved hpc =>
    -- the line is there, and becomes asserted
    have hline : s.gpioReset.map (fun _ => true) = some true := by simp [T.line i _ _ _ hpc]
    obtain rfl := Option.some.inj h
    split
    · refine T.alone (i := i) rfl (hothers hpc) T.shown ?_ (T.downloading_update (i := i) rfl rfl ?_) ?_ ?_
      · exact hkept hpc
      · simp [hpc, CallPc.Loading]
      · simp [CallPc.Resetting]
      · intro pc' run' saved' heq
        obtain ⟨rfl, -, -⟩ := CallPc.reset.inj heq
        simpa [ResetPc.level] using hline
    · refine T.alone (i := i) rfl (hothers hpc) T.shown ?_ (T.downloading_update (i := i) rfl rfl ?_) ?_ ?_
      · exact fun c hc => hkept hpc c (afterReset_loading.mp hc)
      · exact fun c hc => afterReset_loading.mpr (by simpa [hpc, CallPc.Loading] using hc)
      · simp [hline]
      · rintro pc' run' saved' heq
        exact absurd (by simp [heq, CallPc.Resetting]) (afterReset_resetting saved)
  · next run saved hpc =>
    have hline : s.gpioReset.map (fun _ => false) = some false := by simp [T.line i _ _ _ hpc]
    obtain rfl := Option.some.inj h
    refine T.alone (i := i) rfl (hothers hpc) T.shown ?_ (T.downloading_update (i := i) rfl rfl ?_) ?_ ?_
    · exact hkept hpc
    · simp [hpc, CallPc.Loading]
    · simp [CallPc.Resetting]
    · intro pc' run' saved' heq
      obtain ⟨rfl, -, -⟩ := CallPc.reset.inj heq
      simpa [ResetPc.level] using hline
  · next run saved hpc =>
    -- the line has been released
    have hline := T.line i _ _ _ hpc
    obtain rfl := Option.some.inj h
    refine T.alone (i := i) rfl (hothers hpc) (by simp [Shown]) ?_ (by simp) ?_ ?_
    · exact fun c hc => hkept hpc c (afterReset_loading.mp hc)
    · simp [hline, ResetPc.level]
    · rintro pc' run' saved' heq
      exact absurd (by simp [heq, CallPc.Resetting]) (afterReset_resetting saved)
  · simp at h

theorem step {a : CtrlAct} (T : Truthful s) (ha : Apart s a) (h : ctrlStep s a = some t) : Truthful t := by
  cases a with
  | reset i run =>
    obtain ⟨-, h⟩ := Option.ite_none_right_eq_some.mp h
    obtain rfl := Option.some.inj h
    exact T.qm35Reset ha (by simp)
  | load i =>
    obtain ⟨hidle, h⟩ := Option.ite_none_right_eq_some.mp h
    obtain rfl := Option.some.inj h
    refine T.aside (i := i) rfl rfl rfl (by simp [hidle, CallPc.Resetting]) (by simp [CallPc.Resetting]) T.shown ?_
      (T.downloading_update (i := i) rfl rfl ?_)
    · rintro c rfl
      exact ⟨T.shown, ha⟩
    · simp [hidle, CallPc.Loading]
  | romReset i =>
    simp only [ctrlStep] at h
    split at h
    · next saved hpc =>
      obtain rfl := Option.some.inj h
      exact T.qm35Reset ha fun c hc => by simp_all [CallPc.Loading]
    · simp at h
  | loaded i =>
    simp only [ctrlStep] at h
    split at h
    · next saved hpc =>
      obtain rfl := Option.some.inj h
      obtain ⟨hshown, hne⟩ := T.saved i saved (by simp [hpc, CallPc.Loading])
      exact T.aside (i := i) rfl rfl rfl (by simp [hpc, CallPc.Resetting]) (by simp [CallPc.Resetting]) hshown
        (by simp [CallPc.Loading]) fun hdown => absurd hdown hne
    · simp at h
  | step i => exact T.callStep h
  | irq =>
    obtain rfl := Option.some.inj h
    exact ⟨by simp [Shown], T.saved, by simp, T.single, T.idleLine, T.line⟩

end Truthful

/-- In every run of resets, loads and interrupts, in any order, in which no load finds `FW_DOWNLOADING` and no reset
starts in another: no other than four of the states is shown, and `FW_DOWNLOADING` only while there is a load; with no
reset under way the line is asserted just where the last one that came to its end was not to let the chip run, and
within a reset it is asserted before it is released. -/
theorem ctrl_state_truthful {hasReset : Bool} {acts : List CtrlAct} {s : State}
    (hm : Lts.Meets ctrlStep Apart (ctrlInit hasReset) acts) (hr : Lts.run ctrlStep (ctrlInit hasReset) acts = some s) :
    Shown s.state ∧ (s.state = .fwDownloading → ∃ i saved, (s.calls i).Loading saved) ∧
      ((∀ i, ¬(s.calls i).Resetting) → ∀ level, s.gpioReset = some level → level = s.stopped) ∧
      ∀ i pc run saved, s.calls i = .reset pc run saved → s.gpioReset = some (pc.level s.stopped) := by
  have T := Lts.run_invariant (fun _ _ _ T ha h => T.step ha h) (Truthful.init hasReset) hm hr
  exact ⟨T.shown, T.downloading, T.idleLine, T.line⟩

/-- The chip is stopped, and then loaded. -/
def stoppedAndLoaded : List CtrlAct := [.reset 0 false, .step 0, .load 1, .step 1]

theorem ctrl_state_truthful_stopped : ∃ s, Lts.run ctrlStep (ctrlInit true) stoppedAndLoaded = some s ∧
    s.state = .fwDownloading ∧ (∃ i saved, (s.calls i).Loading saved) ∧
    ((∀ i, ¬(s.calls i).Resetting) → s.gpioReset = some true → true = s.stopped) := by
  obtain ⟨s, hr, hstate⟩ : ∃ s, Lts.run ctrlStep (ctrlInit true) stoppedAndLoaded = some s ∧ s.state = .fwDownloading :=
    ⟨_, rfl, rfl⟩
  have hm : Lts.Meets ctrlStep Apart (ctrlInit true) stoppedAndLoaded := by
    refine ⟨fun _ h => h, fun s1 h1 => ⟨trivial, fun s2 h2 => ⟨?_, fun _ _ => ⟨trivial, fun _ _ => trivial⟩⟩⟩⟩
    cases h1
    cases h2
    simp [Apart, qm35Reset, ctrlInit]
  obtain ⟨-, hdown, hidle, -⟩ := ctrl_state_truthful hm hr
  exact ⟨s, hr, hstate, hdown hstate, fun hnone => hidle hnone true⟩

/-- Of two loads that overlap the second puts back `FW_DOWNLOADING`, after both have ended. -/
theorem downloading_stays : ∃ s, Lts.run ctrlStep (ctrlInit true)
    [.load 0, .step 0, .load 1, .step 1, .loaded 0, .loaded 1] = some s ∧
    s.state = .fwDownloading ∧ ∀ i, s.calls i = .idle := by
  refine ⟨_, rfl, rfl, fun i => ?_⟩
  by_cases h1 : i = 1
  · simp [h1]
  · by_cases h0 : i = 0
    · simp [h0]
    · simp [h1, h0, ctrlInit]

end Qm35.Ctrl
