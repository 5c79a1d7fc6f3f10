import Qm35.Hsspi.Core

/- Power and the ready interrupt over whole sequences of operations (`qm35-spi.c`,
   `debug_qmrom.c`). `qm35_hsspi_start` and `qm35_hsspi_stop` start and stop HSSPI and
   enable and disable the interrupt of `ss_ready` with it; each skips its work where
   the state is already the one it is after. Every operation after probe calls them, one
   after the other, and the state looked at is that between two operations.

   Two things go wrong. Only `QM35_CTRL_POWER` looks at the power before it starts HSSPI:
   a reset, a firmware upload, a test of the ROM code and a resume start it on a chip
   that is off (`powered_iff`). And probe does not go through the pair: with regulators
   it leaves HSSPI stopped and the interrupt enabled, so the first operation that starts
   HSSPI enables the interrupt once too often (`balanced_iff`). -/
namespace Qm35.Driver

open Qm35.Hsspi

/-- What the board and the module parameters say. `irq` is the interrupt of `ss_ready`. -/
structure Board where
  vdd1 : Bool
  vdd2 : Bool
  vdd3 : Bool
  vdd4 : Bool
  irq : Int
  noUwbHal : Bool
  flashOnProbe : Bool

/-- `REGULATORS_ENABLED` -/
def Board.hasRegulators (b : Board) : Bool := b.vdd1 || b.vdd2 || b.vdd3 || b.vdd4

/-- The part of `struct qm35_ctx` that the operations use, and the depth of the `disable_irq`s of
`ss_ready`. `switched` records what the regulators were switched to, the last one first, `unbalanced`
the calls of `enable_irq` at depth 0, and `stoppedByStop` whether `qm35_hsspi_stop` was the last to
change the state; no decision is taken on them. -/
structure PowerCtx where
  state : HsspiState
  regulatorsEnabled : Bool
  depth : Nat
  switched : List Bool
  unbalanced : Nat
  stoppedByStop : Bool

/-- `enable_irq`: at depth 0 the kernel warns, and leaves it there. -/
def enableIrq (s : PowerCtx) : PowerCtx :=
  if s.depth = 0 then { s with unbalanced := s.unbalanced + 1 } else { s with depth := s.depth - 1 }

def disableIrqNosync (s : PowerCtx) : PowerCtx := { s with depth := s.depth + 1 }

/-- `qm35_hsspi_start` -/
def qm35HsspiStart (b : Board) (s : PowerCtx) : PowerCtx :=
  if s.state = .running then s
  else
    let s := if 0 ≤ b.irq then enableIrq s else s
    { s with state := .running, stoppedByStop := false }

/-- `qm35_hsspi_stop` -/
def qm35HsspiStop (b : Board) (s : PowerCtx) : PowerCtx :=
  if s.state = .stopped then s
  else
    let s := { s with state := .stopped, stoppedByStop := true }
    if 0 ≤ b.irq then disableIrqNosync s else s

/-- `qm35_regulators_set`; the results of the regulators are only logged. -/
def qm35RegulatorsSet (b : Board) (on : Bool) (s : PowerCtx) : PowerCtx :=
  let on := b.noUwbHal || on
  let isEnabled := s.regulatorsEnabled
  let s := { s with regulatorsEnabled := on }
  if isEnabled = on then s else { s with switched := on :: s.switched }

/-- After `hsspi_init` and `hsspi_irqs_setup`. -/
def irqsSetup : PowerCtx := ⟨.stopped, false, 0, [], 0, false⟩

/-- The flashing in `qm35_probe` -/
def flashInProbe (b : Board) (s : PowerCtx) : PowerCtx :=
  if b.flashOnProbe then qm35RegulatorsSet b false (qm35RegulatorsSet b true s) else s

/-- The start in `qm35_probe` -/
def startInProbe (b : Board) (s : PowerCtx) : PowerCtx :=
  if !b.noUwbHal then
    -- if regulators not available, QM is powered on
    if !b.hasRegulators then { s with state := .running } else s
  else { qm35RegulatorsSet b true s with state := .running }

/-- What a successful `qm35_probe` leaves; it fails where the interrupt cannot be requested. -/
def qm35Probe (b : Board) : Option PowerCtx :=
  if b.irq < 0 then none else some (startInProbe b (flashInProbe b irqsSetup))

/-- What can be asked of the driver after probe. -/
inductive Request where
  /-- `QM35_CTRL_RESET` -/
  | reset
  /-- `QM35_CTRL_FW_UPLOAD` -/
  | fwUpload
  /-- `QM35_CTRL_POWER`; `none` where the argument cannot be read -/
  | power (on : Option UInt32)
  /-- `qm35_reset_sync`, from debugfs -/
  | hwReset
  /-- the tests of the ROM code, from debugfs -/
  | romTest
  /-- `qm35_pm_suspend` -/
  | suspend
  /-- `qm35_pm_resume` -/
  | resume
deriving DecidableEq

/-- `uci_ioctl` of `QM35_CTRL_POWER` -/
def ctrlPower (b : Board) (on : Bool) (s : PowerCtx) : PowerCtx :=
  let s := qm35HsspiStop b s
  let s := if b.hasRegulators then qm35RegulatorsSet b on s else s
  if !b.hasRegulators || (b.hasRegulators && on) then qm35HsspiStart b s else s

/-- What the request does; the chip is reset, loaded or tested between the stop and the start. -/
def serve (b : Board) (s : PowerCtx) : Request → PowerCtx
  | .reset => qm35HsspiStart b (qm35HsspiStop b s)
  | .fwUpload => qm35HsspiStart b (qm35HsspiStop b s)
  | .power none => s
  | .power (some on) => ctrlPower b (on != 0) s
  | .hwReset => qm35HsspiStart b (qm35HsspiStop b s)
  | .romTest => qm35HsspiStart b (qm35HsspiStop b s)
  | .suspend => qm35HsspiStop b s
  | .resume => qm35HsspiStart b s

def serveStep (b : Board) (s : PowerCtx) (r : Request) : Option PowerCtx := some (serve b s r)

/-! Powered. -/

/-- HSSPI runs only where the regulators were last switched on. -/
def Powered (s : PowerCtx) : Prop := s.state = .running → s.switched.head? = some true

/-- The request starts HSSPI without switching the power on. -/
def Request.startsOnly : Request → Bool
  | .power _ => false
  | .suspend => false
  | _ => true

/-- Only `QM35_CTRL_POWER` is asked of a chip whose regulators are off. -/
def OnPower (s : PowerCtx) (r : Request) : Prop := r.startsOnly = true → s.regulatorsEnabled = true

instance (s : PowerCtx) (r : Request) : Decidable (OnPower s r) := inferInstanceAs (Decidable (_ → _))

/-- The flag is what the regulators were last switched to. -/
def Coherent (s : PowerCtx) : Prop := s.regulatorsEnabled = true ↔ s.switched.head? = some true

/-! What the parts change. -/

@[simp] theorem enableIrq_regulatorsEnabled (s : PowerCtx) : (enableIrq s).regulatorsEnabled = s.regulatorsEnabled := by
  unfold enableIrq
  split <;> rfl

@[simp] theorem enableIrq_switched (s : PowerCtx) : (enableIrq s).switched = s.switched := by
  unfold enableIrq
  split <;> rfl

@[simp] theorem start_regulatorsEnabled (b : Board) (s : PowerCtx) :
    (qm35HsspiStart b s).regulatorsEnabled = s.regulatorsEnabled := by
  unfold qm35HsspiStart
  split
  · rfl
  · split <;> simp

@[simp] theorem start_switched (b : Board) (s : PowerCtx) : (qm35HsspiStart b s).switched = s.switched := by
  unfold qm35HsspiStart
  split
  · rfl
  · split <;> simp

@[simp] theorem start_state (b : Board) (s : PowerCtx) : (qm35HsspiStart b s).state = .running := by
  unfold qm35HsspiStart
  split
  · next h => exact h
  · rfl

@[simp] theorem stop_regulatorsEnabled (b : Board) (s : PowerCtx) :
    (qm35HsspiStop b s).regulatorsEnabled = s.regulatorsEnabled := by
  unfold qm35HsspiStop
  split
  · rfl
  · split <;> rfl

@[simp] theorem stop_switched (b : Board) (s : PowerCtx) : (qm35HsspiStop b s).switched = s.switched := by
  unfold qm35HsspiStop
  split
  · rfl
  · split <;> rfl

@[simp] theorem stop_state (b : Board) (s : PowerCtx) : (qm35HsspiStop b s).state = .stopped := by
  unfold qm35HsspiStop
  split
  · next h => exact h
  · split <;> rfl

section Regulators
variable {b : Board} {on : Bool} {s : PowerCtx}

/-- Only the flag and the record of the switching change. -/
theorem regulatorsSet_frame (b : Board) (on : Bool) (s : PowerCtx) : ∃ switched, qm35RegulatorsSet b on s =
    { s with regulatorsEnabled := b.noUwbHal || on, switched := switched } := by
  unfold qm35RegulatorsSet
  dsimp only
  split
  · exact ⟨s.switched, rfl⟩
  · exact ⟨_, rfl⟩

@[simp] theorem regulatorsSet_state : (qm35RegulatorsSet b on s).state = s.state := by
  obtain ⟨_, h⟩ := regulatorsSet_frame b on s
  rw [h]

@[simp] theorem regulatorsSet_depth : (qm35RegulatorsSet b on s).depth = s.depth := by
  obtain ⟨_, h⟩ := regulatorsSet_frame b on s
  rw [h]

@[simp] theorem regulatorsSet_unbalanced : (qm35RegulatorsSet b on s).unbalanced = s.unbalanced := by
  obtain ⟨_, h⟩ := regulatorsSet_frame b on s
  rw [h]

@[simp] theorem regulatorsSet_stoppedByStop : (qm35RegulatorsSet b on s).stoppedByStop = s.stoppedByStop := by
  obtain ⟨_, h⟩ := regulatorsSet_frame b on s
  rw [h]

theorem regulatorsSet_regulatorsEnabled (hhal : b.noUwbHal = false) :
    (qm35RegulatorsSet b on s).regulatorsEnabled = on := by
  obtain ⟨_, h⟩ := regulatorsSet_frame b on s
  rw [h, hhal]
  rfl

theorem Coherent.regulatorsSet (h : Coherent s) : Coherent (qm35RegulatorsSet b on s) := by
  unfold qm35RegulatorsSet
  dsimp only
  split
  · next heq =>
    unfold Coherent
    rw [← heq]
    exact h
  · simp [Coherent]

end Regulators

/-- What probe leaves, and that the interrupt can be used. -/
structure Probed (b : Board) (s : PowerCtx) : Prop where
  irq : 0 ≤ b.irq
  coherent : Coherent s
  state : s.state = if b.noUwbHal || !b.hasRegulators then .running else .stopped
  depth : s.depth = 0
  unbalanced : s.unbalanced = 0
  stoppedByStop : s.stoppedByStop = false

theorem probe_some {b : Board} {s : PowerCtx} (hp : qm35Probe b = some s) : Probed b s := by
  unfold qm35Probe at hp
  by_cases hirq : b.irq < 0
  · rw [if_pos hirq] at hp
    cases hp
  · rw [if_neg hirq] at hp
    cases hp
    have hflash : Coherent (flashInProbe b irqsSetup) := by
      unfold flashInProbe
      have hinit : Coherent irqsSetup := by simp [Coherent, irqsSetup]
      split
      · exact hinit.regulatorsSet.regulatorsSet
      · exact hinit
    refine ⟨Int.not_lt.mp hirq, ?_, ?_, ?_, ?_, ?_⟩
    · unfold startInProbe
      split
      · split
        · exact hflash
        · exact hflash
      · exact hflash.regulatorsSet
    all_goals
      unfold startInProbe flashInProbe irqsSetup
      cases b.noUwbHal <;> cases b.hasRegulators <;> cases b.flashOnProbe <;> simp

theorem Coherent.serve {b : Board} {s : PowerCtx} (h : Coherent s) (r : Request) : Coherent (Driver.serve b s r) := by
  have hstop : Coherent (qm35HsspiStop b s) := by simpa [Coherent] using h
  have hstart : ∀ {t : PowerCtx}, Coherent t → Coherent (qm35HsspiStart b t) := by
    intro t ht
    simpa [Coherent] using ht
  have hset : ∀ on, Coherent (if b.hasRegulators then qm35RegulatorsSet b on (qm35HsspiStop b s) else qm35HsspiStop b s) := by
    intro on
    split
    · exact hstop.regulatorsSet
    · exact hstop
  unfold Driver.serve ctrlPower
  cases r with
  | power on =>
    cases on with
    | none => exact h
    | some on =>
      dsimp only
      split
      · exact hstart (hset _)
      · exact hset _
  | suspend => exact hstop
  | resume => exact hstart h
  | _ => exact hstart hstop

/-- A request that only starts HSSPI leaves it running, and the power alone. -/
theorem serve_startsOnly {b : Board} {s : PowerCtx} {r : Request} (hr : r.startsOnly = true) :
    (serve b s r).state = .running ∧ (serve b s r).regulatorsEnabled = s.regulatorsEnabled := by
  cases r with
  | power on => cases hr
  | suspend => cases hr
  | _ => simp [serve]

/-- Any other request leaves HSSPI running only where it was, or where it has switched the power on. -/
theorem serve_powered {b : Board} {s : PowerCtx} {r : Request} (hreg : b.hasRegulators = true) (hhal : b.noUwbHal = false)
    (hr : r.startsOnly = false) (h : s.state = .running → s.regulatorsEnabled = true)
    (hrun : (serve b s r).state = .running) : (serve b s r).regulatorsEnabled = true := by
  cases r with
  | power on =>
    cases on with
    | none => exact h hrun
    | some on =>
      have hset : (qm35RegulatorsSet b (on != 0) (qm35HsspiStop b s)).regulatorsEnabled = (on != 0) :=
        regulatorsSet_regulatorsEnabled hhal
      unfold serve ctrlPower at hrun ⊢
      simp only [hreg, if_true, Bool.not_true, Bool.false_or, Bool.true_and] at hrun ⊢
      cases hon : on != 0 with
      | true =>
        rw [hon] at hset
        simpa using hset
      | false =>
        rw [hon] at hrun
        simp at hrun
  | suspend => simp [serve] at hrun
  | _ => cases hr

/-- HSSPI runs only on a powered chip, over any sequence of requests, exactly where those that only start
it find the regulators on. -/
theorem powered_iff {b : Board} {s0 : PowerCtx} {rs : List Request} (hreg : b.hasRegulators = true)
    (hhal : b.noUwbHal = false) (hp : qm35Probe b = some s0) :
    (∀ done s, done <+: rs → Lts.run (serveStep b) s0 done = some s → Powered s) ↔
      Lts.Meets (serveStep b) OnPower s0 rs := by
  have hprobe := probe_some hp
  have hstopped : s0.state = .stopped := by
    rw [hprobe.state, hreg, hhal]
    rfl
  have hpres : ∀ s r s', Coherent s → serveStep b s r = some s' → Coherent s' := by
    intro s r s' hco hs
    cases hs
    exact hco.serve r
  have hstep : ∀ s r, Coherent s → Powered s →
      (OnPower s r ↔ ∀ s', serveStep b s r = some s' → Powered s') := by
    intro s r hco hpow
    have hco' := hco.serve (b := b) r
    constructor
    · rintro hon s' hs
      cases hs
      refine fun hrun => hco'.mp ?_
      cases hr : r.startsOnly with
      | true =>
        rw [(serve_startsOnly hr).2]
        exact hon hr
      | false => exact serve_powered hreg hhal hr (fun h => hco.mpr (hpow h)) hrun
    · intro h hr
      obtain ⟨hrun, heq⟩ := serve_startsOnly (b := b) (s := s) hr
      rw [← heq]
      exact hco'.mpr (h _ rfl hrun)
  have hinit : Powered s0 := fun h => nomatch hstopped.symm.trans h
  exact (Lts.meets_iff_of_preserves hpres hstep hprobe.coherent hinit _).symm

/-- A board with a regulator. -/
def board : Board := ⟨true, false, false, false, 0, false, false⟩

/-- A chip that is switched on may be suspended and resumed. -/
def resumedOn : List Request := [.power (some 1), .suspend, .resume, .reset, .power (some 0)]

theorem powered_resumedOn : qm35Probe board = some irqsSetup ∧
    ∀ done s, done <+: resumedOn → Lts.run (serveStep board) irqsSetup done = some s → Powered s := by
  have hm : Lts.Meets (serveStep board) OnPower irqsSetup resumedOn := by decide
  exact ⟨rfl, (powered_iff rfl rfl rfl).mpr hm⟩

/-- A chip that is switched off is resumed. -/
def resumedOff : List Request := [.power (some 1), .power (some 0), .suspend, .resume]

theorem not_powered : ¬∀ b s0 rs s, b.hasRegulators = true → b.noUwbHal = false → qm35Probe b = some s0 →
    Lts.run (serveStep b) s0 rs = some s → Powered s := by
  intro h
  have hoff := h board irqsSetup resumedOff _ rfl rfl rfl rfl rfl
  exact absurd hoff (by decide)

/-! Balanced. -/

/-- `enable_irq` has not been called at depth 0, and the depth goes with the state. -/
def Balanced (s : PowerCtx) : Prop :=
  s.unbalanced = 0 ∧ (s.state = .running → s.depth = 0) ∧ (s.state = .stopped → s.stoppedByStop = true → s.depth = 1)

/-- The request calls `qm35_hsspi_start`. -/
def Request.starts (b : Board) : Request → Bool
  | .power none => false
  | .power (some on) => !b.hasRegulators || (b.hasRegulators && on != 0)
  | .suspend => false
  | _ => true

/-- The interrupt is enabled exactly while HSSPI runs. -/
structure Matched (s : PowerCtx) : Prop where
  unbalanced : s.unbalanced = 0
  depth : s.state = .running ∧ s.depth = 0 ∨ s.state = .stopped ∧ s.depth = 1

/-- HSSPI has not run yet, and the interrupt is enabled. -/
structure Untouched (s : PowerCtx) : Prop where
  state : s.state = .stopped
  depth : s.depth = 0
  unbalanced : s.unbalanced = 0
  stoppedByStop : s.stoppedByStop = false

section Balance
variable {b : Board} {s s0 : PowerCtx}

theorem Matched.balanced (h : Matched s) : Balanced s := by
  rcases h.depth with ⟨hs, hd⟩ | ⟨hs, hd⟩
  · exact ⟨h.unbalanced, fun _ => hd, fun hstop => nomatch hs.symm.trans hstop⟩
  · exact ⟨h.unbalanced, fun hrun => (nomatch hs.symm.trans hrun), fun _ _ => hd⟩

theorem Untouched.balanced (h : Untouched s) : Balanced s :=
  ⟨h.unbalanced, fun hrun => (nomatch h.state.symm.trans hrun), fun _ hstop => nomatch h.stoppedByStop.symm.trans hstop⟩

theorem Matched.regulatorsSet (h : Matched s) (on : Bool) : Matched (qm35RegulatorsSet b on s) :=
  ⟨by simpa using h.unbalanced, by simpa using h.depth⟩

theorem Untouched.regulatorsSet (h : Untouched s) (on : Bool) : Untouched (qm35RegulatorsSet b on s) :=
  ⟨by simpa using h.state, by simpa using h.depth, by simpa using h.unbalanced, by simpa using h.stoppedByStop⟩

theorem Matched.stop (hirq : 0 ≤ b.irq) (h : Matched s) : Matched (qm35HsspiStop b s) := by
  unfold qm35HsspiStop
  rcases h.depth with ⟨hs, hd⟩ | ⟨hs, hd⟩
  · rw [if_neg (by rw [hs]; decide), if_pos hirq]
    exact ⟨h.unbalanced, .inr ⟨rfl, congrArg (· + 1) hd⟩⟩
  · rw [if_pos hs]
    exact h

theorem Matched.start (hirq : 0 ≤ b.irq) (h : Matched s) : Matched (qm35HsspiStart b s) := by
  unfold qm35HsspiStart enableIrq
  rcases h.depth with ⟨hs, hd⟩ | ⟨hs, hd⟩
  · rw [if_pos hs]
    exact h
  · rw [if_neg (by rw [hs]; decide), if_pos hirq, if_neg (by rw [hd]; decide)]
    exact ⟨h.unbalanced, .inl ⟨rfl, by rw [hd]⟩⟩

/-- There is nothing to stop. -/
theorem Untouched.stop (h : Untouched s) : qm35HsspiStop b s = s := if_pos h.state

/-- The first start enables an interrupt that is enabled. -/
theorem Untouched.start (hirq : 0 ≤ b.irq) (h : Untouched s) : (qm35HsspiStart b s).unbalanced = 1 := by
  unfold qm35HsspiStart enableIrq
  rw [if_neg (by rw [h.state]; decide), if_pos hirq, if_pos h.depth]
  exact congrArg (· + 1) h.unbalanced

theorem Matched.serve (hirq : 0 ≤ b.irq) (h : Matched s) (r : Request) : Matched (Driver.serve b s r) := by
  have hstop := h.stop hirq
  cases r with
  | power on =>
    cases on with
    | none => exact h
    | some on =>
      have hset : Matched (if b.hasRegulators then qm35RegulatorsSet b (on != 0) (qm35HsspiStop b s)
          else qm35HsspiStop b s) := by
        split
        · exact hstop.regulatorsSet _
        · exact hstop
      unfold Driver.serve ctrlPower
      dsimp only
      split
      · exact hset.start hirq
      · exact hset
  | suspend => exact hstop
  | resume => exact h.start hirq
  | _ => exact hstop.start hirq

/-- A request that does not start HSSPI leaves everything untouched; one that does is the first. -/
theorem Untouched.serve (hirq : 0 ≤ b.irq) (h : Untouched s) (r : Request) :
    (r.starts b = false → Untouched (Driver.serve b s r)) ∧
      (r.starts b = true → (Driver.serve b s r).unbalanced = 1) := by
  cases r with
  | power on =>
    cases on with
    | none => exact ⟨fun _ => h, fun hr => nomatch hr⟩
    | some on =>
      have hset : Untouched (if b.hasRegulators then qm35RegulatorsSet b (on != 0) s else s) := by
        split
        · exact h.regulatorsSet _
        · exact h
      unfold Driver.serve ctrlPower Request.starts
      dsimp only
      rw [h.stop]
      constructor
      · intro hr
        rw [hr]
        exact hset
      · intro hr
        rw [if_pos hr]
        exact hset.start hirq
  | suspend =>
    refine ⟨fun _ => ?_, fun hr => nomatch hr⟩
    show Untouched (qm35HsspiStop b s)
    rw [h.stop]
    exact h
  | resume => exact ⟨fun hr => (nomatch hr), fun _ => h.start hirq⟩
  | _ =>
    refine ⟨fun hr => (nomatch hr), fun _ => ?_⟩
    show (qm35HsspiStart b (qm35HsspiStop b s)).unbalanced = 1
    rw [h.stop]
    exact h.start hirq

/-- While nothing has been touched, balance means that no request starts HSSPI. -/
theorem Untouched.never_starts (hirq : 0 ≤ b.irq) {rs : List Request} (h : Untouched s)
    (hbal : ∀ done t, done <+: rs → Lts.run (serveStep b) s done = some t → Balanced t) :
    ∀ r ∈ rs, r.starts b = false := by
  induction rs generalizing s with
  | nil => exact fun r hr => absurd hr List.not_mem_nil
  | cons r rs ih =>
    obtain ⟨hkeep, hfirst⟩ := h.serve hirq r
    have hr : r.starts b = false := by
      by_contra hstarts
      have hbad := (hbal [r] _ (List.cons_prefix_cons.mpr ⟨rfl, List.nil_prefix⟩) rfl).1
      rw [hfirst (Bool.eq_true_of_not_eq_false hstarts)] at hbad
      cases hbad
    intro r' hr'
    rcases List.mem_cons.mp hr' with rfl | hr'
    · exact hr
    · refine ih (hkeep hr) (fun done t hdone hrun => ?_) r' hr'
      exact hbal (r :: done) t (List.cons_prefix_cons.mpr ⟨rfl, hdone⟩) (Lts.run_cons_some.mpr ⟨_, rfl, hrun⟩)

/-- The interrupt of `ss_ready` is enabled and disabled in balance, over any sequence of requests, exactly
where probe has started HSSPI or no request does. -/
theorem balanced_iff {rs : List Request} (hp : qm35Probe b = some s0) :
    (∀ done s, done <+: rs → Lts.run (serveStep b) s0 done = some s → Balanced s) ↔
      (b.noUwbHal = true ∨ b.hasRegulators = false) ∨ ∀ r ∈ rs, r.starts b = false := by
  have hprobe := probe_some hp
  by_cases hstarted : b.noUwbHal = true ∨ b.hasRegulators = false
  · have hmatched : Matched s0 := by
      refine ⟨hprobe.unbalanced, .inl ⟨?_, hprobe.depth⟩⟩
      rw [hprobe.state, if_pos]
      simpa using hstarted
    refine iff_of_true (fun done s hdone hrun => ?_) (.inl hstarted)
    have hs : Matched s := Lts.run_preserves
      (fun s r s' hs h1 => by cases h1; exact hs.serve hprobe.irq r) hmatched hrun
    exact hs.balanced
  · have huntouched : Untouched s0 := by
      refine ⟨?_, hprobe.depth, hprobe.unbalanced, hprobe.stoppedByStop⟩
      rw [hprobe.state, if_neg]
      simpa using hstarted
    rw [or_iff_right hstarted]
    constructor
    · exact huntouched.never_starts hprobe.irq
    · intro hno done s hdone hrun
      have hm : Lts.Meets (serveStep b) (fun _ r => r.starts b = false) s0 done :=
        .of_mem fun r hr _ => hno r (hdone.subset hr)
      have hs : Untouched s := Lts.run_invariant
        (fun s r s' hs hr h1 => by cases h1; exact (hs.serve hprobe.irq r).1 hr) huntouched hm hrun
      exact hs.balanced

end Balance

/-- A board without regulators, and one with a regulator that is never switched on. -/
theorem balanced_boards :
    (∀ done s, done <+: [Request.suspend, .resume, .reset] →
      Lts.run (serveStep ⟨false, false, false, false, 0, false, false⟩) { irqsSetup with state := .running } done = some s →
        Balanced s) ∧
    ∀ done s, done <+: [Request.power (some 0), .suspend] → Lts.run (serveStep board) irqsSetup done = some s →
      Balanced s :=
  ⟨(balanced_iff rfl).mpr (.inl (.inr rfl)), (balanced_iff rfl).mpr (.inr (by decide))⟩

theorem not_balanced : ¬∀ b s0 rs s, qm35Probe b = some s0 → Lts.run (serveStep b) s0 rs = some s → Balanced s := by
  intro h
  have hon := h board irqsSetup [.power (some 1)] _ rfl rfl
  exact absurd hon.1 (by decide)

end Qm35.Driver
