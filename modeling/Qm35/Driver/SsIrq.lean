import Qm35.Hsspi.Core

/- The SS_IRQ line (`qm35-spi.c`). Its interrupt is level-triggered, so the handler masks
   the line before it leaves, and sets `HSSPI_FLAGS_SS_IRQ` for the thread. The thread
   clears the flag again when a read has been the last one, and unmasks the line after
   that. Each does its two steps in the order it must, and in between the line is
   masked without the flag.

   A notification goes round five phases: the line is open; the handler is running; it
   has masked the line; the flag is set; the thread has cleared the flag. Every step of
   the system stays in the phase or takes it to the next one, whatever the core does at
   the same time and whatever the device answers. So the line is masked once at most,
   it is unmasked only where it is masked, and while it is masked the flag is set
   outside of the two gaps. -/
namespace Qm35.Driver

open Qm35.Hsspi

/-- Where `qm35_irq_handler` is: outside, before `disable_irq_nosync`, or between that and
`hsspi_set_output_data_waiting`. -/
inductive HandlerPc where
  | idle
  | entered
  | masked
deriving DecidableEq

/-- The core with the SS_IRQ line: the depth of its `disable_irq_nosync`s, the handler, and
whether `hsspi_rx` has cleared the flag and is about to call `odw_cleared`. -/
structure IrqCore where
  core : Core
  depth : Nat
  handler : HandlerPc
  reenabling : Bool

/-- After `hsspi_init` and `hsspi_irqs_setup`. -/
def irqInit : IrqCore where
  core := coreInit
  depth := 0
  handler := .idle
  reenabling := false

/-- `is_txrx_waiting` -/
def isTxrxWaiting (s : Core) : Bool := !s.workList.isEmpty || (s.state == .running && s.ssIrq)

/-- The next step of the thread is the `test_and_clear_bit` of `hsspi_rx`, and finds the flag set. -/
def rxClears (s : Core) : Bool :=
  match s.pc with
  | .rxCheck _ _ ret soc => ret == 0 && soc.flags &&& stcSocOdw == 0 && s.ssIrq
  | _ => false

inductive IrqAct where
  /-- What goes on in the core beside the thread and the handler. -/
  | core (a : CoreAct)
  | handler
  | thread (a : Answer)

/-- The actions of the core that are neither the thread's nor the handler's. -/
def besideIrq : CoreAct → Bool
  | .ssIrq => false
  | .thread _ => false
  | _ => true

/-- The next step of the handler. It is entered only while the line is not masked. -/
def handlerStep (s : IrqCore) : Option IrqCore :=
  match s.handler with
  | .idle => if s.depth = 0 then some { s with handler := .entered } else none
  -- `disable_irq_nosync`
  | .entered => some { s with handler := .masked, depth := s.depth + 1 }
  -- `hsspi_set_output_data_waiting`
  | .masked => (coreStep s.core .ssIrq).map fun core => { s with core := core, handler := .idle }

/-- The next step of the thread. The step of the core that clears the flag also ends the round, which
concerns neither the flag nor the line; `reenable_ss_irq` is a step of its own here. -/
def threadIrqStep (s : IrqCore) (a : Answer) : Option IrqCore :=
  if s.reenabling then some { s with reenabling := false, depth := s.depth - 1 }
  else (coreStep s.core (.thread a)).map fun core => { s with core := core, reenabling := rxClears s.core }

def irqStep (s : IrqCore) : IrqAct → Option IrqCore
  | .core a => if besideIrq a then (coreStep s.core a).map fun core => { s with core := core } else none
  | .handler => handlerStep s
  | .thread a => threadIrqStep s a

/-- The step calls `enable_irq` on the SS_IRQ line. -/
def enablesIrq (s : IrqCore) : IrqAct → Bool
  | .thread _ => s.reenabling
  | _ => false

/-- The handler or `hsspi_rx` is between its two steps. -/
def Between (s : IrqCore) : Prop := s.handler = .masked ∨ s.reenabling = true

/-! The flag. -/

/-- Only the thread and the handler change the flag. -/
theorem coreStep_ssIrq {s s' : Core} {a : CoreAct} (ha : besideIrq a = true) (h : coreStep s a = some s') :
    s'.ssIrq = s.ssIrq := by
  cases coreStep_effect h with
  | ssIrq => cases ha
  | thread => cases ha
  | _ => rfl

theorem threadRound_ssIrq (s : Core) (ret : Int) : (threadRound s ret).ssIrq = s.ssIrq := by
  obtain ⟨_, _, h⟩ := threadRound_moves s ret
  rw [h]

/-- The thread clears the flag in `hsspi_rx`, and leaves it alone elsewhere. -/
theorem threadStep_ssIrq (s : Core) (a : Answer) : (threadStep s a).ssIrq = (s.ssIrq && !rxClears s) := by
  unfold threadStep rxClears
  cases s.pc with
  | woken =>
    unfold getWork
    dsimp only
    split <;> simp
  | txDone w prd ret soc =>
    dsimp only
    split <;> simp [threadRound_ssIrq]
  | preXfer =>
    dsimp only
    split <;> simp [threadRound_ssIrq]
  | rxFound ul length layer =>
    dsimp only
    split <;> simp
  | rxDone ul length got ret soc =>
    dsimp only
    split <;> simp
  | rxCheck ul length ret soc =>
    dsimp only
    by_cases hret : ret = 0
    · rw [if_neg (not_not.mpr hret), threadRound_ssIrq]
      by_cases hodw : (soc.flags &&& stcSocOdw == 0) = true
      · rw [if_pos hodw]
        simp [hret, hodw]
      · rw [if_neg hodw]
        simp [hodw]
    · rw [if_pos hret, threadRound_ssIrq]
      simp [hret]
  | _ => simp

/-! The phases of a notification. -/

inductive Phase where
  | unmasked
  | entered
  | masked
  | flagged
  | reenabling
deriving DecidableEq

/-- The phase that comes next. -/
def Phase.next : Phase → Phase
  | .unmasked => .entered
  | .entered => .masked
  | .masked => .flagged
  | .flagged => .reenabling
  | .reenabling => .unmasked

/-- Where the handler is in the phase. -/
def Phase.handler : Phase → HandlerPc
  | .entered => .entered
  | .masked => .masked
  | _ => .idle

def Phase.depth : Phase → Nat
  | .unmasked => 0
  | .entered => 0
  | _ => 1

/-- What the system looks like in the phase. -/
structure InPhase (p : Phase) (s : IrqCore) : Prop where
  flag : s.core.ssIrq = (p == .flagged)
  handler : s.handler = p.handler
  reenabling : s.reenabling = (p == .reenabling)
  depth : s.depth = p.depth

theorem inPhase_init : InPhase .unmasked irqInit := ⟨rfl, rfl, rfl, rfl⟩

section Step
variable {s s' : IrqCore} {p : Phase}

theorem handlerStep_phase (h : InPhase p s) (hs : handlerStep s = some s') : InPhase p.next s' := by
  have hhandler := h.handler
  have hdepth := h.depth
  unfold handlerStep at hs
  rw [hhandler] at hs
  cases p with
  | unmasked =>
    cases (if_pos hdepth).symm.trans hs
    exact ⟨h.flag, rfl, h.reenabling, hdepth⟩
  | entered =>
    cases hs
    exact ⟨h.flag, rfl, h.reenabling, congrArg (· + 1) hdepth⟩
  | masked =>
    cases hs
    exact ⟨rfl, rfl, h.reenabling, hdepth⟩
  -- the line is masked, so the handler is not entered
  | flagged => cases (if_neg (by rw [hdepth]; decide)).symm.trans hs
  | reenabling => cases (if_neg (by rw [hdepth]; decide)).symm.trans hs

theorem threadIrqStep_phase {a : Answer} (h : InPhase p s) (hs : threadIrqStep s a = some s') :
    InPhase p s' ∨ InPhase p.next s' := by
  unfold threadIrqStep at hs
  by_cases hre : s.reenabling = true
  · rw [if_pos hre] at hs
    cases hs
    rw [h.reenabling, beq_iff_eq] at hre
    subst hre
    exact .inr ⟨h.flag, h.handler, rfl, by rw [h.depth]; rfl⟩
  · rw [if_neg hre] at hs
    cases hs
    have hflag := threadStep_ssIrq s.core a
    by_cases hclears : rxClears s.core = true
    · -- the flag was set, and is cleared
      have hset : s.core.ssIrq = true := by
        unfold rxClears at hclears
        split at hclears
        · simp only [Bool.and_eq_true] at hclears
          exact hclears.2
        · cases hclears
      rw [h.flag, beq_iff_eq] at hset
      subst hset
      rw [hclears, Bool.not_true, Bool.and_false] at hflag
      exact .inr ⟨hflag, h.handler, hclears, h.depth⟩
    · rw [Bool.not_eq_true] at hclears
      rw [hclears, Bool.not_false, Bool.and_true] at hflag
      rw [Bool.not_eq_true] at hre
      exact .inl ⟨hflag.trans h.flag, h.handler, hclears.trans (hre.symm.trans h.reenabling), h.depth⟩

/-- A step stays in the phase, or takes the notification to the next one. -/
theorem irqStep_phase {a : IrqAct} (h : InPhase p s) (hs : irqStep s a = some s') :
    InPhase p s' ∨ InPhase p.next s' := by
  cases a with
  | core a =>
    change (if besideIrq a then _ else none) = some s' at hs
    split at hs
    · next ha =>
      obtain ⟨core, hcore, rfl⟩ := Option.map_eq_some_iff.mp hs
      exact .inl ⟨(coreStep_ssIrq ha hcore).trans h.flag, h.handler, h.reenabling, h.depth⟩
    · cases hs
  | handler => exact .inr (handlerStep_phase h hs)
  | thread a => exact threadIrqStep_phase h hs

/-- A step of the system is one of the core, or the core does nothing. -/
theorem irqStep_core {a : IrqAct} (hs : irqStep s a = some s') :
    s'.core = s.core ∨ ∃ b, coreStep s.core b = some s'.core := by
  cases a with
  | core a =>
    change (if besideIrq a then _ else none) = some s' at hs
    split at hs
    · obtain ⟨core, hcore, rfl⟩ := Option.map_eq_some_iff.mp hs
      exact .inr ⟨a, hcore⟩
    · cases hs
  | handler =>
    change handlerStep s = some s' at hs
    unfold handlerStep at hs
    split at hs
    · split at hs
      · cases hs
        exact .inl rfl
      · cases hs
    · cases hs
      exact .inl rfl
    · obtain ⟨core, hcore, rfl⟩ := Option.map_eq_some_iff.mp hs
      exact .inr ⟨.ssIrq, hcore⟩
  | thread a =>
    change threadIrqStep s a = some s' at hs
    unfold threadIrqStep at hs
    split at hs
    · cases hs
      exact .inl rfl
    · obtain ⟨core, hcore, rfl⟩ := Option.map_eq_some_iff.mp hs
      exact .inr ⟨.thread a, hcore⟩

end Step

section Runs
variable {s : IrqCore} {as : List IrqAct}

/-- Every state that is reached is in one of the phases. -/
theorem irqRun_phase (hrun : Lts.run irqStep irqInit as = some s) : ∃ p, InPhase p s := by
  refine Lts.run_preserves (I := fun s => ∃ p, InPhase p s) ?_ ⟨.unmasked, inPhase_init⟩ hrun
  intro s a s' ⟨p, hp⟩ hs
  rcases irqStep_phase hp hs with h | h
  · exact ⟨p, h⟩
  · exact ⟨p.next, h⟩

/-- What the core goes through is a run of the core. -/
theorem irqRun_core (hrun : Lts.run irqStep irqInit as = some s) : ∃ bs, Lts.run coreStep coreInit bs = some s.core :=
  Lts.run_projects (f := IrqCore.core) (fun _ _ _ h => irqStep_core h) hrun

/-- While the line is masked outside of the two gaps, the flag is set. -/
theorem masked_flagged {p : Phase} (h : InPhase p s) (hmasked : s.depth ≠ 0) (hnot : ¬Between s) :
    s.core.ssIrq = true := by
  have hp : p = .flagged := by
    cases p with
    | flagged => rfl
    | unmasked => exact absurd h.depth hmasked
    | entered => exact absurd h.depth hmasked
    | masked => exact absurd (.inl h.handler) hnot
    | reenabling => exact absurd (.inr h.reenabling) hnot
  rw [h.flag, hp]
  rfl

/-- A running thread that looks does not go to sleep then. -/
theorem masked_wakes (hrun : Lts.run irqStep irqInit as = some s) (hmasked : s.depth ≠ 0) (hnot : ¬Between s)
    (hstate : s.core.state = .running) (hpc : s.core.pc = .idle) (a b : Answer) :
    ∃ s', Lts.run irqStep s [.thread a, .thread b] = some s' ∧ s'.core.pc = .woken := by
  obtain ⟨p, h⟩ := irqRun_phase hrun
  have hflag := masked_flagged h hmasked hnot
  have hre : s.reenabling = false := Bool.eq_false_iff.mpr fun hre => hnot (.inr hre)
  have hclears : ∀ t : Core, (∀ ul length ret soc, t.pc ≠ .rxCheck ul length ret soc) → rxClears t = false := by
    intro t ht
    unfold rxClears
    split
    · next hrx => exact absurd hrx (ht _ _ _ _)
    · rfl
  have hidle := hclears s.core (by simp [hpc])
  -- the look at the list and the state, and then at the flag
  have hlook : irqStep s (.thread a) =
      some { s with core := { s.core with pc := .sampled s.core.workList.isEmpty s.core.state } } := by
    show threadIrqStep s a = _
    unfold threadIrqStep coreStep threadStep
    simp [hre, hidle, hpc]
  refine ⟨_, Lts.run_cons_some.mpr ⟨_, hlook, Lts.run_cons_some.mpr ⟨_, if_neg (by simp [hre]), rfl⟩⟩, ?_⟩
  show (threadStep { s.core with pc := .sampled s.core.workList.isEmpty s.core.state } b).pc = .woken
  unfold threadStep
  simp [hstate, hflag]

/-- The depth is 0 or 1, the line is unmasked only at 1, and while it is masked outside of the two gaps
the flag is set, for which a running thread does not wait. -/
theorem ssIrq_masking (hrun : Lts.run irqStep irqInit as = some s) :
    s.depth ≤ 1 ∧ (∀ a, enablesIrq s a = true → s.depth = 1) ∧
      (s.depth ≠ 0 → ¬Between s → s.core.ssIrq = true ∧ (s.core.state = .running → isTxrxWaiting s.core = true)) := by
  obtain ⟨p, h⟩ := irqRun_phase hrun
  refine ⟨?_, fun a ha => ?_, fun hmasked hnot => ?_⟩
  · rw [h.depth]
    cases p <;> decide
  · have hre : s.reenabling = true := by
      cases a with
      | thread b => exact ha
      | _ => cases ha
    rw [h.reenabling, beq_iff_eq] at hre
    subst hre
    exact h.depth
  · have hflag := masked_flagged h hmasked hnot
    refine ⟨hflag, fun hstate => ?_⟩
    unfold isTxrxWaiting
    rw [hstate, hflag]
    simp

/-- A device that is ready, and has a read of four bytes from the layer 1 for the host. -/
def readOfFour : Answer := ⟨0, ⟨stcSocRdy ||| stcSocOa, 1, 4⟩, none⟩

/-- A notification comes in while the core is started. The thread wakes up, asks what there is and reads it; nothing more is
announced. -/
def notified : List IrqAct := [.handler, .core .start, .handler, .handler] ++ List.replicate 11 (.thread readOfFour)

/-- Then the thread enables the line, and there is a second notification. -/
def notifiedAgain : List IrqAct := [.thread readOfFour, .handler, .handler, .handler]

theorem ssIrq_masking_again : ∃ s t, Lts.run irqStep irqInit notified = some s ∧ s.core.ssIrq = false ∧
    enablesIrq s (.thread readOfFour) = true ∧ s.depth = 1 ∧ Lts.run irqStep s notifiedAgain = some t ∧
    t.depth ≠ 0 ∧ isTxrxWaiting t.core = true := by
  have hread : (Lts.run irqStep irqInit notified).map (fun s => (s.reenabling, s.core.ssIrq)) = some (true, false) := by
    decide
  obtain ⟨s, hs, hseen⟩ := Option.map_eq_some_iff.mp hread
  obtain ⟨hre, hcleared⟩ := Prod.mk.inj hseen
  have hagain : (Lts.run irqStep irqInit (notified ++ notifiedAgain)).map
      (fun t => (t.depth, t.handler, t.reenabling, t.core.state)) = some (1, .idle, false, .running) := by decide
  obtain ⟨t, ht, hseen⟩ := Option.map_eq_some_iff.mp hagain
  simp only [Prod.mk.injEq] at hseen
  obtain ⟨hdepth, hhandler, hidle, hstate⟩ := hseen
  obtain ⟨-, henable, -⟩ := ssIrq_masking hs
  obtain ⟨-, -, hflag⟩ := ssIrq_masking ht
  have hmasked : t.depth ≠ 0 := by omega
  have hbetween : ¬Between t := by simp [Between, hhandler, hidle]
  rw [Lts.run_append, hs] at ht
  exact ⟨s, t, hs, hcleared, hre, henable (.thread readOfFour) hre, ht, hmasked, (hflag hmasked hbetween).2 hstate⟩

end Runs

end Qm35.Driver
