import Qm35.Driver.Model
import Qm35.Hsspi.Stopped

/- The bus belongs to one side at a time, in the runs that avoid the two races. Such a
   run keeps this invariant: while a caller is between its stop and its start, the
   core is still; and a caller that waits in `hsspi_stop` waits for a completion that
   no start has come after, so that the core is quiet when it is completed. -/
namespace Qm35.Driver

open Qm35.Hsspi

/-- While a caller has HSSPI stopped, the thread has no transfer in progress. -/
def BusFree (d : Qm35Ctx) : Prop := ∀ i, (d.pcs i).Holds → ¬d.core.pc.InFlight

/-- The steps that avoid the races: `qm35_hsspi_stop` does not take the state for that of a
finished stop while another stop is on its way and there is something left to transfer;
and HSSPI is not started while another caller has stopped it. -/
def Orderly (d : Qm35Ctx) : DriverAct → Prop
  | .step i =>
    match d.pcs i with
    | .stopRead _ => d.core.state = .stopped → StopPending d.core → NothingLeft d.core
    | .startCall _ => ∀ j, j ≠ i → ¬(d.pcs j).Holds ∧ ¬(d.pcs j).Waits
    | _ => True
  | _ => True

structure Exclusion (d : Qm35Ctx) : Prop where
  ownership : Ownership d.core
  quiescence : Quiescence d.core
  stopped : StillOrPending d.core
  holds : ∀ i, (d.pcs i).Holds → Still d.core
  waits : ∀ i, (d.pcs i).Waits → ∃ k, d.core.callers i = .stop k ∧ k.stop = true ∧ k.starts = d.core.starts

/-- What holds of the new program counter of a caller, and of those of all others. -/
theorem forall_goto {P : Nat → Pc → Prop} {d : Qm35Ctx} {i : Nat} {pc : Pc} (hself : P i pc)
    (hother : ∀ j, j ≠ i → P j (d.pcs j)) (j : Nat) : P j ((d.goto i pc).pcs j) := by
  by_cases hji : j = i
  · subst hji
    rw [goto_self]
    exact hself
  · rw [goto_other d pc hji]
    exact hother j hji

namespace Exclusion

variable {d d' : Qm35Ctx}

theorem init (regulatorsEnabled running : Bool) : Exclusion (ctxInit regulatorsEnabled running) := by
  have hstart : coreStep coreInit .start = some (hsspiStart coreInit) := rfl
  cases running with
  | false =>
    exact ⟨Ownership.init, Quiescence.init, StillOrPending.init, fun _ h => h.elim, fun _ h => h.elim⟩
  | true =>
    exact ⟨Ownership.init.step hstart, Quiescence.init.step Ownership.init hstart,
      StillOrPending.init.step Ownership.init Quiescence.init hstart, fun _ h => h.elim, fun _ h => h.elim⟩

/-- A step of the core that is not the call of a caller inside an operation. -/
theorem besides {a : CoreAct} {core : Core} (E : Exclusion d) (ha : d.besides a = true)
    (hs : coreStep d.core a = some core) : Exclusion { d with core := core } := by
  have hstart : a ≠ .start := by
    intro h
    rw [h] at ha
    cases ha
  have hcaller : ∀ i, (d.pcs i).Waits → a.caller ≠ some i := by
    intro i hi h
    have hidle : d.pcs i = .idle := by
      cases a <;> simp [CoreAct.caller, Qm35Ctx.besides] at h ha <;> exact h ▸ ha
    rw [hidle] at hi
    exact hi
  refine ⟨E.ownership.step hs, E.quiescence.step E.ownership hs, E.stopped.step E.ownership E.quiescence hs, ?_, ?_⟩
  · intro i hi
    exact (E.holds i hi).step E.quiescence hstart hs
  · intro i hi
    obtain ⟨k, hk, hstop, hstarts⟩ := E.waits i hi
    exact ⟨k, (coreStep_callers (hcaller i hi) hs).trans hk, hstop, hstarts.trans (coreStep_starts hstart hs).symm⟩

/-- A caller moves on without a step of the core. -/
theorem goto (E : Exclusion d) {i : Nat} {pc : Pc} (hholds : pc.Holds → Still d.core) (hwaits : ¬pc.Waits) :
    Exclusion (d.goto i pc) := by
  refine ⟨E.ownership, E.quiescence, E.stopped, ?_, ?_⟩
  · exact forall_goto (P := fun _ pc => pc.Holds → Still d.core) hholds fun j _ => E.holds j
  · exact forall_goto (P := fun j pc => pc.Waits → ∃ k, d.core.callers j = .stop k ∧ k.stop = true ∧
      k.starts = d.core.starts) (fun h => absurd h hwaits) fun j _ => E.waits j

/-- A caller moves on with a step of the core that is its own call. -/
theorem call {a : CoreAct} {core : Core} {i : Nat} {pc : Pc} (E : Exclusion d) (ha : a ≠ .start)
    (hcaller : a.caller = some i) (hs : coreStep d.core a = some core) (hholds : pc.Holds → Still core)
    (hwaits : pc.Waits → ∃ k, core.callers i = .stop k ∧ k.stop = true ∧ k.starts = core.starts) :
    Exclusion ({ d with core := core }.goto i pc) := by
  refine ⟨E.ownership.step hs, E.quiescence.step E.ownership hs, E.stopped.step E.ownership E.quiescence hs, ?_, ?_⟩
  · exact forall_goto (P := fun _ pc => pc.Holds → Still core) hholds fun j _ hj =>
      (E.holds j hj).step E.quiescence ha hs
  · refine forall_goto (P := fun j pc => pc.Waits → ∃ k, core.callers j = .stop k ∧ k.stop = true ∧
      k.starts = core.starts) hwaits fun j hji hj => ?_
    obtain ⟨k, hk, hstop, hstarts⟩ := E.waits j hj
    have hother : a.caller ≠ some j := by
      intro h
      exact hji (Option.some.inj (h.symm.trans hcaller))
    exact ⟨k, (coreStep_callers hother hs).trans hk, hstop, hstarts.trans (coreStep_starts ha hs).symm⟩

/-- The caller calls `hsspi_stop`, and waits from here on. -/
theorem stopCall {i : Nat} {op : Op} {core : Core} (E : Exclusion d) (hs : coreStep d.core (.stop i) = some core) :
    Exclusion ({ d with core := core }.goto i (.stopWait op)) := by
  have hne : CoreAct.stop i ≠ .start := fun h => nomatch h
  refine E.call hne rfl hs (fun h => h.elim) ?_
  intro _
  obtain ⟨_, rfl⟩ := ifIdle_some hs
  exact ⟨stopCompletion d.core, Function.update_self _ _ _, rfl, rfl⟩

/-- `hsspi_stop` returns: the completion is that of a stop no start has come after. -/
theorem stopWait {i : Nat} {op : Op} {core : Core} (E : Exclusion d) (hpc : d.pcs i = .stopWait op)
    (hs : coreStep d.core (.ret i) = some core) : Exclusion ({ d with core := core }.goto i (.body op)) := by
  obtain ⟨k, hk, hstop, hstarts⟩ := E.waits i (by rw [hpc]; trivial)
  obtain ⟨k', hk', hdone, _⟩ := retStep_some hs
  rw [hk] at hk'
  cases hk'
  have hquiet := E.quiescence.quiet E.ownership hdone hstop hstarts
  have hne : CoreAct.ret i ≠ .start := fun h => nomatch h
  exact E.call hne rfl hs (fun _ => hquiet.still.step E.quiescence hne hs) (fun h => h.elim)

/-- `hsspi_start` by the only caller that has HSSPI stopped. -/
theorem startCall {i : Nat} {core : Core} (E : Exclusion d)
    (halone : ∀ j, j ≠ i → ¬(d.pcs j).Holds ∧ ¬(d.pcs j).Waits) (hs : coreStep d.core .start = some core) :
    Exclusion ({ d with core := core }.goto i .idle) := by
  refine ⟨E.ownership.step hs, E.quiescence.step E.ownership hs, E.stopped.step E.ownership E.quiescence hs, ?_, ?_⟩
  · exact forall_goto (P := fun _ pc => pc.Holds → Still core) (fun h => h.elim) fun j hji hj =>
      absurd hj (halone j hji).1
  · exact forall_goto (P := fun j pc => pc.Waits → ∃ k, core.callers j = .stop k ∧ k.stop = true ∧
      k.starts = core.starts) (fun h => h.elim) fun j hji hj => absurd hj (halone j hji).2

/-- A step of a caller, from each of its program counters. -/
theorem callerStep {i : Nat} (E : Exclusion d) (ho : Orderly d (.step i)) (hs : Driver.callerStep d i = some d') :
    Exclusion d' := by
  unfold Driver.callerStep at hs
  simp only [Orderly] at ho
  cases hpc : d.pcs i with
  | idle =>
    rw [hpc] at hs
    cases hs
  | stopRead op =>
    rw [hpc] at hs ho
    cases hs
    by_cases hstopped : d.core.state = .stopped
    · rw [if_pos hstopped]
      refine E.goto (fun _ => ?_) (fun h => h)
      -- stopped already: that stop is completed, or nothing is left to transfer before it
      rcases E.stopped hstopped with hstill | ⟨j, k, hj, _, _, hq⟩
      · exact hstill
      · exact ⟨hstopped, ho hstopped ⟨j, k, hj, hq⟩⟩
    · rw [if_neg hstopped]
      exact E.goto (fun h => h.elim) (fun h => h)
  | stopCall op =>
    rw [hpc] at hs
    obtain ⟨core, hcore, rfl⟩ := Option.map_eq_some_iff.mp hs
    exact E.stopCall hcore
  | stopWait op =>
    rw [hpc] at hs
    obtain ⟨core, hcore, rfl⟩ := Option.map_eq_some_iff.mp hs
    exact E.stopWait hpc hcore
  | body op =>
    -- from the stop to the start HSSPI is still, and the caller's own steps leave it so
    have hstill := E.holds i (by rw [hpc]; trivial)
    rw [hpc] at hs
    cases hs
    refine E.goto (fun _ => hstill) ?_
    split <;> exact fun h => h
  | romXfer op =>
    have hstill := E.holds i (by rw [hpc]; trivial)
    rw [hpc] at hs
    cases hs
    exact E.goto (fun _ => hstill) (fun h => h)
  | startRead op =>
    have hstill := E.holds i (by rw [hpc]; trivial)
    rw [hpc] at hs
    cases hs
    refine E.goto (fun _ => hstill) ?_
    split <;> exact fun h => h
  | startCall op =>
    rw [hpc] at hs ho
    obtain ⟨core, hcore, rfl⟩ := Option.map_eq_some_iff.mp hs
    exact E.startCall ho hcore

theorem step {a : DriverAct} (E : Exclusion d) (ho : Orderly d a) (hs : driverStep d a = some d') :
    Exclusion d' := by
  cases a with
  | core a =>
    rw [driverStep] at hs
    split at hs
    · next hb =>
      obtain ⟨core, hcore, rfl⟩ := Option.map_eq_some_iff.mp hs
      exact E.besides hb hcore
    · cases hs
  | enter i op =>
    rw [driverStep] at hs
    split at hs
    · cases hs
      exact E.goto (fun h => h.elim) (fun h => h)
    · cases hs
  | step i => exact E.callerStep ho hs
  | romXfer i =>
    rw [driverStep] at hs
    split at hs
    · next op hpc =>
      split at hs
      · cases hs
        exact E.goto (fun _ => E.holds i (by rw [hpc]; trivial)) (fun h => h)
      · cases hs
    · cases hs

end Exclusion

/-- In every run that avoids the two races, no HSSPI transfer is in progress from the return of
a caller's `qm35_hsspi_stop` to its `qm35_hsspi_start`. -/
theorem bus_exclusion {regulatorsEnabled running : Bool} {acts : List DriverAct} {d : Qm35Ctx}
    (hm : Lts.Meets driverStep Orderly (ctxInit regulatorsEnabled running) acts)
    (hr : Lts.run driverStep (ctxInit regulatorsEnabled running) acts = some d) : BusFree d := by
  have E : Exclusion d := Lts.run_invariant (fun _ _ _ E ho hs => E.step ho hs) (Exclusion.init _ _) hm hr
  intro i hi
  exact (E.holds i hi).nothingLeft.spent.not_inFlight

/-- The thread steps `n` times, its transfers fail. -/
def threadSteps (n : Nat) : List DriverAct := List.replicate n (.core (.thread ⟨-1, ⟨0, 0, 0⟩, none⟩))

/-- A reset stops HSSPI and takes the bus, the thread going on meanwhile. -/
def resetAlone : List DriverAct :=
  .core .ssIrq :: threadSteps 4 ++ .enter 0 .reset :: .step 0 :: .step 0 :: threadSteps 5 ++ [.step 0]

theorem bus_exclusion_reset : ∃ d, Lts.run driverStep (ctxInit false true) resetAlone = some d ∧
    d.pcs 0 = .body .reset ∧ d.core.xfers = 1 ∧ BusFree d := by
  obtain ⟨d, hr, hpc, hx⟩ : ∃ d, Lts.run driverStep (ctxInit false true) resetAlone = some d ∧
      d.pcs 0 = .body .reset ∧ d.core.xfers = 1 := ⟨_, rfl, rfl, rfl⟩
  have hm : Lts.Meets driverStep Orderly (ctxInit false true) resetAlone := by
    refine .cons rfl trivial (.cons rfl trivial (.cons rfl trivial (.cons rfl trivial (.cons rfl trivial ?_))))
    -- the stop begins during the pre-read
    refine .cons rfl trivial (.cons rfl (fun h => nomatch h) (.cons rfl trivial ?_))
    refine .cons rfl trivial (.cons rfl trivial (.cons rfl trivial (.cons rfl trivial (.cons rfl trivial ?_))))
    exact .cons rfl trivial trivial
  exact ⟨d, hr, hpc, hx, bus_exclusion hm hr⟩

/-- While the thread is in a pre-read, one caller stops HSSPI and waits, and an upload takes the
state it has set for that of a finished stop. -/
def uploadDuringStop : List DriverAct :=
  .core .ssIrq :: threadSteps 4 ++
    [.enter 0 .reset, .step 0, .step 0, .enter 1 .fwUpload, .step 1, .romXfer 1]

theorem not_bus_exclusion : ¬∀ regulatorsEnabled running acts d,
    Lts.run driverStep (ctxInit regulatorsEnabled running) acts = some d → BusFree d := by
  intro h
  exact h false true uploadDuringStop _ rfl 1 trivial trivial

/-- Two callers have stopped HSSPI one after the other; the first starts it again, and the
thread begins a pre-read under the upload of the second. -/
def startDuringUpload : List DriverAct :=
  .core .ssIrq :: .enter 0 .reset :: .step 0 :: .step 0 :: threadSteps 4 ++
    [.step 0, .enter 1 .fwUpload, .step 1, .romXfer 1, .step 0, .step 0, .step 0] ++ threadSteps 4

/-- The second race is enough by itself. -/
theorem start_not_bus_exclusion : ∃ d, Lts.run driverStep (ctxInit false true) startDuringUpload = some d ∧
    d.pcs 1 = .romXfer .fwUpload ∧ d.core.pc = .preXfer :=
  ⟨_, rfl, rfl, rfl⟩

end Qm35.Driver
