import Qm35.Hsspi.Waiting

/- What is left when the driver goes (`qm35_probe`, `qm35_remove`, `hsspi_deinit`). Probe is
   a list of steps, each with the label that its failure goes to; the labels fall through,
   so each stands for the steps from there to the end. Remove is such a list too. The
   core, the coredump timer and the users of the driver go on beside both.

   `hsspi_deinit` refuses to stop the thread while HSSPI is running or a layer is
   registered, and nobody looks at what it returns. Remove stops HSSPI before, but
   leaves the layer of an open `/dev/uci` in its slot; the error path of probe does not
   stop it, and the last step of probe comes after the start. Nor does anything keep a user
   from starting HSSPI while remove runs, and nobody deletes the timer. Where none of this
   happens nothing is left (`torn_down`). -/
namespace Qm35.Driver

open Lts Qm35.Hsspi

def uciLayer : LayerRef := ⟨0, 2⟩
def coredumpLayer : LayerRef := ⟨1, 3⟩
def logLayer : LayerRef := ⟨2, 4⟩
def testLayer : LayerRef := ⟨3, 5⟩

/-- The labels of `qm35_probe`; `ret` is a plain return. -/
inductive Label where
  | ret
  | poweroff
  | hsspiDeinit
  | uciLayerDeinit
  | debugDeinit
  | hsspiTestDeinit
  | coredumpLayerDeinit
  | logLayerDeinit
  | coredumpLayerUnregister
  | logLayerUnregister
deriving DecidableEq

/-- A step of probe or remove. -/
inductive Instr where
  /-- of probe, that does nothing to HSSPI -/
  | step (label : Label)
  | hsspiInit (label : Label)
  | hsspiRegister (layer : LayerRef) (label : Label)
  | hsspiStart
  | hsspiUnregister (layer : LayerRef)
  | hsspiStop
  /-- the wait in the last two -/
  | wait
  | hsspiDeinit
deriving DecidableEq

/-- What is done from a label on; the deinits of the layers and of debugfs do nothing to HSSPI. -/
def Label.unwind : Label → List Instr
  | .ret => []
  | .poweroff => []
  | .hsspiDeinit => [.hsspiDeinit]
  | .uciLayerDeinit => [.hsspiDeinit]
  | .debugDeinit => [.hsspiDeinit]
  | .hsspiTestDeinit => [.hsspiUnregister testLayer, .hsspiDeinit]
  | .coredumpLayerDeinit => [.hsspiUnregister testLayer, .hsspiDeinit]
  | .logLayerDeinit => [.hsspiUnregister testLayer, .hsspiDeinit]
  | .coredumpLayerUnregister => [.hsspiUnregister coredumpLayer, .hsspiUnregister testLayer, .hsspiDeinit]
  | .logLayerUnregister =>
    [.hsspiUnregister logLayer, .hsspiUnregister coredumpLayer, .hsspiUnregister testLayer, .hsspiDeinit]

/-- `qm35_probe` up to `hsspi_irqs_setup` -/
def qm35ProbeSetup : List Instr :=
  [ -- `spi_setup`, `devm_kzalloc` and the reset gpio
    .step .ret,
    -- `debug_init_root`
    .step .poweroff,
    .hsspiInit .poweroff,
    -- `uci_layer_init`
    .step .hsspiDeinit,
    -- `debug_init`
    .step .uciLayerDeinit,
    -- `hsspi_test_init`
    .hsspiRegister testLayer .debugDeinit,
    -- `coredump_layer_init`
    .step .hsspiTestDeinit,
    -- `log_layer_init`
    .step .coredumpLayerDeinit,
    .hsspiRegister coredumpLayer .logLayerDeinit,
    .hsspiRegister logLayer .coredumpLayerUnregister,
    .step .logLayerUnregister ]

/-- A step that is done only sometimes. -/
def stepIf (b : Bool) (i : Instr) : List Instr := if b then [i] else []

/-- `qm35_probe`; `starts` where there are no regulators, or with `NO_UWB_HAL`. The last step is
`misc_register`. -/
def qm35ProbeSteps (flashOnProbe starts : Bool) : List Instr :=
  qm35ProbeSetup ++ stepIf flashOnProbe (.step .logLayerUnregister) ++ stepIf starts .hsspiStart ++
    [Instr.step .logLayerUnregister]

/-- `qm35_remove`, after `misc_deregister` -/
def qm35RemoveSteps : List Instr :=
  [.hsspiStop, .hsspiUnregister logLayer, .hsspiUnregister coredumpLayer, .hsspiUnregister testLayer, .hsspiDeinit]

/-- `unwinding` after a step of probe has failed; `gone` when probe has returned an error, or remove has
returned. -/
inductive LifePhase where
  | probing
  | unwinding
  | operating
  | removing
  | gone
deriving DecidableEq

/-- The core; whether its thread exists and whether the coredump timer is pending; and what is still to be
done of probe or remove. -/
structure Life where
  core : Core
  thread : Bool
  timer : Bool
  phase : LifePhase
  todo : List Instr

def lifeInit (flashOnProbe starts : Bool) : Life :=
  ⟨coreInit, false, false, .probing, qm35ProbeSteps flashOnProbe starts⟩

/-- Some layer is registered. -/
def registered (s : Core) : Bool := (List.range ulMaxIdx).any fun ul => (s.layers ul).isSome

def Life.fail (s : Life) (label : Label) : Life := { s with phase := .unwinding, todo := label.unwind }

/-- The next step of probe or remove, which is caller 0 of the core; `ok` is its outcome where that is not
for the core to say. -/
def execInstr (s : Life) (ok : Bool) (rest : List Instr) : Instr → Option Life
  | .step label => some (if ok then { s with todo := rest } else s.fail label)
  | .hsspiInit label => some (if ok then { s with thread := true, todo := rest } else s.fail label)
  | .hsspiRegister layer label =>
    let (rc, core) := Hsspi.hsspiRegister s.core layer
    some (if rc = 0 then { s with core := core, todo := rest } else s.fail label)
  | .hsspiStart => some { s with core := Hsspi.hsspiStart s.core, todo := rest }
  | .hsspiUnregister layer =>
    (coreStep s.core (.unregister 0 layer)).map fun core => { s with core := core, todo := .wait :: rest }
  | .hsspiStop => (coreStep s.core (.stop 0)).map fun core => { s with core := core, todo := .wait :: rest }
  | .wait =>
    match s.core.callers 0 with
    | .idle => some { s with todo := rest }
    | _ => (coreStep s.core (.ret 0)).map fun core => { s with core := core, todo := rest }
  | .hsspiDeinit =>
    if s.core.state = .running ∨ registered s.core = true then some { s with todo := rest }
    else some { s with thread := false, todo := rest }

inductive LifeAct where
  /-- probe or remove goes on -/
  | next (ok : Bool)
  | remove
  /-- a call of the core by a user -/
  | user (a : CoreAct)
  /-- the thread goes on; `timer` is what `coredump_received` makes of the timer, if anything -/
  | thread (a : Answer) (timer : Option Bool)
  | ssIrq
  /-- `corredump_on_expired_timer` -/
  | expire (blk : Nat) (alloc : Bool)

/-- The calls that users make: those for an open `/dev/uci`, of other callers than probe and remove. -/
def userCall : CoreAct → Bool
  | .send _ _ _ => true
  | .register layer => layer == uciLayer
  | .unregister i layer => i != 0 && layer == uciLayer
  | .start => true
  | .stop i => i != 0
  | .ret i => i != 0
  | .ssIrq => false
  | .thread _ => false

/-- The thread is about to call `coredump_received` with a message. -/
def coredumpReceives (s : Core) : Bool :=
  match s.pc with
  | .rxDone _ _ (some got) ret _ => got.use.layer == coredumpLayer && ret == 0
  | _ => false

def lifeStep (s : Life) (a : LifeAct) : Option Life :=
  if s.phase = .gone then none
  else
    match a with
    | .next ok =>
      match s.phase, s.todo with
      | .operating, _ => none
      | .probing, [] => some { s with phase := .operating }
      | _, [] => some { s with phase := .gone }
      | _, i :: rest => execInstr s ok rest i
    | .remove => if s.phase = .operating then some { s with phase := .removing, todo := qm35RemoveSteps } else none
    | .user a => if userCall a then (coreStep s.core a).map fun core => { s with core := core } else none
    | .thread a timer =>
      if s.thread then
        some { s with core := threadStep s.core a, timer := if coredumpReceives s.core then timer.getD s.timer else s.timer }
      else none
    | .ssIrq => some { s with core := { s.core with ssIrq := true } }
    | .expire blk alloc =>
      if s.timer then some { s with core := sendStep s.core (some coredumpLayer) (some blk) alloc, timer := false }
      else none

/-- The thread has been stopped, no layer is registered, no work queued, and the timer not pending. -/
structure Torn (s : Life) : Prop where
  thread : s.thread = false
  layers : ∀ ul, s.core.layers ul = none
  workList : s.core.workList = []
  timer : s.timer = false

/-- Probe fails only while HSSPI is not started, and the timer is not pending when remove goes on after
`hsspi_stop`. Remove is called with `/dev/uci` closed and nobody in a call of the core; and while it runs, or
probe, users only send. -/
def Guarded (s : Life) : LifeAct → Prop
  | .next ok => (s.phase = .probing → ok = false → s.core.state = .stopped) ∧
    (s.phase = .removing → s.todo = qm35RemoveSteps.tail → s.timer = false)
  | .remove => s.core.layers uciLayer.id.toNat ≠ some uciLayer ∧ ∀ i, s.core.callers i = .idle
  | .user a => s.phase = .operating ∨ ∃ layer blk alloc, a = .send layer blk alloc
  | _ => True

/-! The core of a driver is one that its calls lead to. -/

def Reached (s : Core) : Prop := ∃ acts, run coreStep coreInit acts = some s

theorem Reached.step {s s' : Core} {a : CoreAct} (h : Reached s) (hs : coreStep s a = some s') : Reached s' := by
  obtain ⟨acts, hr⟩ := h
  exact ⟨acts ++ [a], run_snoc hr hs⟩

theorem Reached.quiescence {s : Core} (h : Reached s) : Quiescence s := by
  obtain ⟨acts, hr⟩ := h
  exact (core_invariant hr).2

theorem Reached.awaited {s : Core} (h : Reached s) : Awaited s := by
  obtain ⟨acts, hr⟩ := h
  exact awaited_of_run hr

/-- The core is quiet once its stop is completed, and until it is started. -/
theorem Reached.quiet {s : Core} (h : Reached s) {i : Nat} {k : Completion} (hi : s.callers i = .stop k)
    (hk : k ∈ s.completed) (hstarts : k.starts = s.starts) : Quiet s := by
  obtain ⟨acts, hr⟩ := h
  obtain ⟨O, Q⟩ := core_invariant hr
  exact Q.quiet O hk (callers_stop hr i k hi) hstarts

/-- What is in the table after a step was there before, or has been registered. -/
theorem coreStep_layers {s s' : Core} {a : CoreAct} (hs : coreStep s a = some s') {ul : Nat} {l : LayerRef}
    (hl : s'.layers ul = some l) :
    s.layers ul = some l ∨ a = .register l ∧ ul = l.id.toNat ∧ layerIdIsValid l.id = true := by
  cases a with
  | register layer =>
    cases hs
    rcases hsspiRegister_cases s layer with heq | heq | ⟨heq, hid, -⟩
    · rw [heq] at hl
      exact .inl hl
    · rw [heq] at hl
      exact .inl hl
    · rw [heq] at hl
      by_cases hul : ul = layer.id.toNat
      · rw [hul] at hl
        have hlayer : layer = l := by simpa using hl
        exact .inr ⟨hlayer ▸ rfl, hlayer ▸ hul, hlayer ▸ hid⟩
      · exact .inl ((Function.update_of_ne hul _ _).symm.trans hl)
  | unregister i layer =>
    left
    cases coreStep_effect hs with
    | notRegistered _ => exact hl
    | unregister _ _ =>
      by_cases hul : ul = layer.id.toNat
      · rw [hul] at hl
        simp at hl
      · exact (Function.update_of_ne hul _ _).symm.trans hl
  | thread b =>
    cases hs
    exact .inl ((congrFun (threadStep_frame s b).layers ul).symm.trans hl)
  | _ => cases coreStep_effect hs <;> exact .inl hl

/-- Every layer is in its own slot. -/
theorem Reached.placed {s : Core} (h : Reached s) {ul : Nat} {l : LayerRef} (hl : s.layers ul = some l) :
    ul = l.id.toNat ∧ layerIdIsValid l.id = true := by
  obtain ⟨acts, hr⟩ := h
  refine run_preserves (I := fun s => ∀ ul l, s.layers ul = some l → ul = l.id.toNat ∧ layerIdIsValid l.id = true)
    ?_ ?_ hr ul l hl
  · intro s a s' h hs ul l hl
    rcases coreStep_layers hs hl with hl | ⟨-, hl⟩
    · exact h ul l hl
    · exact hl
  · intro ul l h
    cases h

/-- A layer is not in the table after it has been unregistered. -/
theorem Reached.unregistered {s s' : Core} (h : Reached s) {i : Nat} {layer : LayerRef}
    (hs : coreStep s (.unregister i layer) = some s') {ul : Nat} : s'.layers ul ≠ some layer := by
  intro hl
  obtain ⟨rfl, hid⟩ := (h.step hs).placed hl
  obtain ⟨-, rfl⟩ := ifIdle_some hs
  rcases hsspiUnregister_cases s i layer with heq | ⟨heq, -⟩
  · rw [heq] at hl
    have hslot : s.layers layer.id.toNat = some layer := hl
    simp [hsspiUnregister, hid, hslot, eInval] at heq
  · rw [heq] at hl
    simp at hl

/-- A send, the interrupt, or a step of the thread. -/
def passive : CoreAct → Bool
  | .send _ _ _ => true
  | .ssIrq => true
  | .thread _ => true
  | _ => false

/-- What these leave alone. -/
structure PassiveFrame (s s' : Core) : Prop where
  callers : s'.callers = s.callers
  layers : s'.layers = s.layers
  state : s'.state = s.state
  starts : s'.starts = s.starts

theorem coreStep_passive {s s' : Core} {a : CoreAct} (ha : passive a = true) (hs : coreStep s a = some s') :
    PassiveFrame s s' := by
  cases coreStep_effect hs with
  | reject => exact ⟨rfl, rfl, rfl, rfl⟩
  | accept _ _ _ _ => exact ⟨rfl, rfl, rfl, rfl⟩
  | ssIrq => exact ⟨rfl, rfl, rfl, rfl⟩
  | thread =>
    have F := threadStep_frame s ‹Answer›
    exact ⟨F.callers, F.layers, F.state, F.starts⟩
  | _ => cases ha

theorem passive_ne_start {a : CoreAct} (ha : passive a = true) : a ≠ .start := by
  rintro rfl
  cases ha

/-- What goes on beside probe and remove: one of these steps of the core, the thread's only while it exists. -/
structure Beside (s s' : Life) : Prop where
  step : ∃ a, passive a = true ∧ coreStep s.core a = some s'.core ∧ ((∃ b, a = .thread b) → s.thread = true)
  thread : s'.thread = s.thread
  phase : s'.phase = s.phase
  todo : s'.todo = s.todo
  timer : s.core.pc.Calm → s.timer = false → s'.timer = false

namespace Beside

variable {s s' : Life}

theorem frame (B : Beside s s') : PassiveFrame s.core s'.core := by
  obtain ⟨a, ha, hs, -⟩ := B.step
  exact coreStep_passive ha hs

theorem quiet (B : Beside s s') (hr : Reached s.core) (h : Quiet s.core) : Quiet s'.core := by
  obtain ⟨a, ha, hs, -⟩ := B.step
  exact h.step hr.quiescence (passive_ne_start ha) hs

/-- Without the thread nothing comes into the work list of a core that is stopped, or leaves it. -/
theorem workList (B : Beside s s') (hthread : s.thread = false) (hstopped : s.core.state = .stopped) :
    s'.core.workList = s.core.workList := by
  obtain ⟨a, ha, hs, hexists⟩ := B.step
  generalize s'.core = t at hs
  cases coreStep_effect hs with
  | accept _ _ hrun _ =>
    rw [hstopped] at hrun
    cases hrun
  | thread =>
    rw [hexists ⟨_, rfl⟩] at hthread
    cases hthread
  | reject => rfl
  | ssIrq => rfl
  | _ => cases ha

end Beside

theorem send_not_thread {layer : Option LayerRef} {blk : Option Nat} {alloc : Bool} :
    ¬∃ b, CoreAct.send layer blk alloc = .thread b := by simp

theorem ssIrq_not_thread : ¬∃ b, CoreAct.ssIrq = .thread b := by simp

/-- A step is of probe or remove, or a call while the driver operates, or something beside. -/
theorem lifeStep_beside {s s' : Life} {a : LifeAct} (h : lifeStep s a = some s') (hg : Guarded s a) :
    (∃ ok, a = .next ok) ∨ a = .remove ∨ (∃ b, a = .user b ∧ s.phase = .operating) ∨ Beside s s' := by
  have hgone : ¬s.phase = .gone := fun hgone => by simp [lifeStep, hgone] at h
  simp only [lifeStep, if_neg hgone] at h
  cases a with
  | next ok => exact .inl ⟨ok, rfl⟩
  | remove => exact .inr (.inl rfl)
  | user b =>
    rcases hg with hphase | ⟨layer, blk, alloc, rfl⟩
    · exact .inr (.inr (.inl ⟨b, rfl, hphase⟩))
    · cases h
      exact .inr (.inr (.inr ⟨⟨.send layer blk alloc, rfl, rfl, (absurd · send_not_thread)⟩, rfl, rfl, rfl, fun _ h => h⟩))
  | thread b timer =>
    cases hthread : s.thread with
    | false =>
      rw [hthread] at h
      cases h
    | true =>
      simp only [hthread, if_true, Option.some.injEq] at h
      subst h
      refine .inr (.inr (.inr ⟨⟨.thread b, rfl, rfl, fun _ => hthread⟩, hthread.symm, rfl, rfl, fun hcalm htimer => ?_⟩))
      have hreceives : coredumpReceives s.core = false := by
        cases hpc : s.core.pc with
        | rxDone ul length got ret soc => simp [hpc, ThreadPc.Calm] at hcalm
        | _ => simp only [coredumpReceives, hpc]
      simp only [hreceives, htimer, Bool.false_eq_true, if_false]
  | ssIrq =>
    cases h
    exact .inr (.inr (.inr ⟨⟨.ssIrq, rfl, rfl, (absurd · ssIrq_not_thread)⟩, rfl, rfl, rfl, fun _ h => h⟩))
  | expire blk alloc =>
    dsimp only at h
    split at h
    · cases h
      exact .inr (.inr (.inr ⟨⟨.send (some coredumpLayer) (some blk) alloc, rfl, rfl, (absurd · send_not_thread)⟩,
        rfl, rfl, rfl, fun _ _ => rfl⟩))
    · cases h

/-! What is left of probe once it has failed, or of remove, undoes what there is. -/

/-- Only steps that undo, and `hsspi_deinit` as the last. -/
def Undo : List Instr → Prop
  | [] => True
  | .hsspiDeinit :: rest => rest = []
  | .hsspiUnregister _ :: rest => Undo rest
  | .hsspiStop :: rest => Undo rest
  | .wait :: rest => Undo rest
  | _ => False

/-- Probe or remove, at a wait, is the only caller, what there is will be undone, and there is nothing
when the thread has been stopped. HSSPI will be stopped, or that is waited for, or it has been. -/
structure Undoing (s : Life) : Prop where
  shape : Undo s.todo
  own : s.core.callers 0 = .idle ∨ ∃ rest, s.todo = .wait :: rest
  others : ∀ i, i ≠ 0 → s.core.callers i = .idle
  layers : ∀ ul l, s.core.layers ul = some l → .hsspiUnregister l ∈ s.todo
  alive : s.thread = true → .hsspiDeinit ∈ s.todo
  dead : s.thread = false → s.todo = [] ∧ s.core.workList = [] ∧ Quiet s.core
  quiet : .hsspiStop ∈ s.todo ∨ (∃ k, s.core.callers 0 = .stop k ∧ k.starts = s.core.starts) ∨ Quiet s.core

namespace Undoing

variable {s s' : Life}

theorem beside (U : Undoing s) (hr : Reached s.core) (B : Beside s s') : Undoing s' := by
  have F := B.frame
  refine ⟨B.todo ▸ U.shape, ?_, ?_, ?_, ?_, ?_, ?_⟩
  · rw [F.callers, B.todo]
    exact U.own
  · rw [F.callers]
    exact U.others
  · rw [F.layers, B.todo]
    exact U.layers
  · rw [B.thread, B.todo]
    exact U.alive
  · intro hthread
    rw [B.thread] at hthread
    obtain ⟨htodo, hwork, hquiet⟩ := U.dead hthread
    exact ⟨B.todo.trans htodo, (B.workList hthread hquiet.stopped).trans hwork, B.quiet hr hquiet⟩
  · rw [B.todo, F.callers, F.starts]
    exact U.quiet.imp_right (Or.imp_right (B.quiet hr))

/-- The thread is there while something is left to do. -/
theorem thread (U : Undoing s) {i : Instr} {rest : List Instr} (htodo : s.todo = i :: rest) : s.thread = true := by
  by_contra hthread
  have hnil := (U.dead (eq_false_of_ne_true hthread)).1
  rw [htodo] at hnil
  cases hnil

/-- A call of the core by probe or remove, which it then waits for. -/
theorem call (U : Undoing s) {i : Instr} {rest : List Instr} {core : Core} (htodo : s.todo = i :: rest)
    (hshape : Undo rest) (hdeinit : i ≠ .hsspiDeinit) (hothers : ∀ j, j ≠ 0 → core.callers j = s.core.callers j)
    (hlayers : ∀ ul l, core.layers ul = some l → s.core.layers ul = some l ∧ i ≠ .hsspiUnregister l)
    (hquiet : .hsspiStop ∈ rest ∨ (∃ k, core.callers 0 = .stop k ∧ k.starts = core.starts) ∨ Quiet core) :
    Undoing { s with core := core, todo := .wait :: rest } := by
  have hthread := U.thread htodo
  refine ⟨hshape, .inr ⟨rest, rfl⟩, ?_, ?_, ?_, ?_, ?_⟩
  · intro j hj
    exact (hothers j hj).trans (U.others j hj)
  · intro ul l hl
    obtain ⟨hl, hi⟩ := hlayers ul l hl
    have hmem := U.layers ul l hl
    rw [htodo] at hmem
    exact List.mem_cons_of_mem _ ((List.mem_cons.mp hmem).resolve_left fun h => hi h.symm)
  · intro _
    have hmem := U.alive hthread
    rw [htodo] at hmem
    exact List.mem_cons_of_mem _ ((List.mem_cons.mp hmem).resolve_left fun h => hdeinit h.symm)
  · intro hdead
    rw [hthread] at hdead
    cases hdead
  · exact hquiet.imp_left (List.mem_cons_of_mem _)

/-- Outside its wait, probe or remove is in no call of the core. -/
theorem idle (U : Undoing s) {i : Instr} {rest : List Instr} (htodo : s.todo = i :: rest) (hwait : i ≠ .wait) :
    s.core.callers 0 = .idle := by
  refine U.own.resolve_right fun ⟨rest', h⟩ => hwait ?_
  rw [htodo] at h
  exact (List.cons.inj h).1

/-- And HSSPI will be stopped, or has been. -/
theorem quiet_of_idle (U : Undoing s) (hidle : s.core.callers 0 = .idle) : .hsspiStop ∈ s.todo ∨ Quiet s.core := by
  refine U.quiet.imp_right fun h => h.resolve_left fun ⟨k, hk, _⟩ => ?_
  rw [hidle] at hk
  cases hk

theorem unregister (U : Undoing s) (hr : Reached s.core) {layer : LayerRef} {rest : List Instr} {core : Core}
    (htodo : s.todo = .hsspiUnregister layer :: rest) (hs : coreStep s.core (.unregister 0 layer) = some core) :
    Undoing { s with core := core, todo := .wait :: rest } := by
  have hshape := U.shape
  rw [htodo] at hshape
  refine U.call htodo hshape (fun h => nomatch h) ?_ ?_ ?_
  · intro j hj
    cases coreStep_effect hs with
    | notRegistered _ => rfl
    | unregister _ _ => exact Function.update_of_ne hj _ _
  · intro ul l hl
    refine ⟨(coreStep_layers hs hl).resolve_right fun h => CoreAct.noConfusion h.1, fun h => ?_⟩
    cases h
    exact hr.unregistered hs hl
  · have hquiet := U.quiet_of_idle (U.idle htodo fun h => nomatch h)
    rw [htodo] at hquiet
    have hne : CoreAct.unregister 0 layer ≠ .start := fun h => nomatch h
    rcases hquiet with h | h
    · exact .inl ((List.mem_cons.mp h).resolve_left fun h => nomatch h)
    · exact .inr (.inr (h.step hr.quiescence hne hs))

theorem stop (U : Undoing s) {rest : List Instr} (htodo : s.todo = .hsspiStop :: rest) :
    Undoing { s with core := Hsspi.hsspiStop s.core 0, todo := .wait :: rest } := by
  have hshape := U.shape
  rw [htodo] at hshape
  refine U.call htodo hshape (fun h => nomatch h) ?_ ?_ ?_
  · intro j hj
    exact Function.update_of_ne hj _ _
  · intro ul l hl
    exact ⟨hl, fun h => nomatch h⟩
  · refine .inr (.inl ⟨stopCompletion s.core, ?_, rfl⟩)
    exact Function.update_self 0 (CallerPc.stop (stopCompletion s.core)) s.core.callers

/-- The wait is over. -/
theorem waited (U : Undoing s) {rest : List Instr} {core : Core} (htodo : s.todo = .wait :: rest)
    (hidle : core.callers 0 = .idle) (hothers : ∀ j, j ≠ 0 → core.callers j = s.core.callers j)
    (hlayers : core.layers = s.core.layers)
    (hquiet : (∃ k, s.core.callers 0 = .stop k ∧ k.starts = s.core.starts) ∨ Quiet s.core → Quiet core) :
    Undoing { s with core := core, todo := rest } := by
  have hshape := U.shape
  have hU := U.quiet
  have hthread := U.thread htodo
  have hmem : ∀ i, i ∈ s.todo → i ≠ .wait → i ∈ rest := by
    intro i hi hne
    rw [htodo] at hi
    exact (List.mem_cons.mp hi).resolve_left hne
  rw [htodo] at hshape
  refine ⟨hshape, .inl hidle, ?_, ?_, ?_, ?_, ?_⟩
  · intro j hj
    exact (hothers j hj).trans (U.others j hj)
  · intro ul l hl
    rw [hlayers] at hl
    exact hmem _ (U.layers ul l hl) fun h => nomatch h
  · intro _
    exact hmem _ (U.alive hthread) fun h => nomatch h
  · intro hdead
    rw [hthread] at hdead
    cases hdead
  · exact U.quiet.imp (fun h => hmem _ h fun h => nomatch h) fun h => .inr (hquiet h)

theorem wait (U : Undoing s) (hr : Reached s.core) {rest : List Instr} {ok : Bool} (htodo : s.todo = .wait :: rest)
    (hs : execInstr s ok rest .wait = some s') : Undoing s' := by
  simp only [execInstr] at hs
  split at hs
  · next hidle =>
    cases hs
    refine U.waited htodo hidle (fun _ _ => rfl) rfl fun h => h.resolve_left fun ⟨k, hk, _⟩ => ?_
    rw [hidle] at hk
    cases hk
  · obtain ⟨core, hret, rfl⟩ := Option.map_eq_some_iff.mp hs
    obtain ⟨k, hk, hdone, heq⟩ := retStep_some hret
    have hne : CoreAct.ret 0 ≠ .start := fun h => nomatch h
    have hquiet : Quiet s.core → Quiet core := fun h => h.step hr.quiescence hne hret
    subst heq
    refine U.waited htodo ?_ (fun j hj => Function.update_of_ne hj _ _) rfl ?_
    · exact Function.update_self 0 CallerPc.idle s.core.callers
    rintro (⟨k', hk', hstarts⟩ | h)
    · -- the completion is the one of the stop
      rw [hk'] at hk
      cases hk
      exact hquiet (hr.quiet hk' hdone hstarts)
    · exact hquiet h

theorem deinit (U : Undoing s) (hr : Reached s.core) {rest : List Instr} {ok : Bool}
    (htodo : s.todo = .hsspiDeinit :: rest) (hs : execInstr s ok rest .hsspiDeinit = some s') : Undoing s' := by
  have hrest : rest = [] := by
    have hshape := U.shape
    rw [htodo] at hshape
    exact hshape
  subst hrest
  have hidle := U.idle htodo fun h => nomatch h
  have hquiet : Quiet s.core := by
    refine (U.quiet_of_idle hidle).resolve_left fun h => ?_
    rw [htodo] at h
    simp at h
  have hlayers : ∀ ul, s.core.layers ul = none := by
    intro ul
    refine Option.eq_none_iff_forall_ne_some.mpr fun l hl => ?_
    have hmem := U.layers ul l hl
    rw [htodo] at hmem
    simp at hmem
  have hcallers : ∀ i, s.core.callers i = .idle := by
    intro i
    by_cases hi : i = 0
    · exact hi ▸ hidle
    · exact U.others i hi
  have hnot : ¬(s.core.state = .running ∨ registered s.core = true) := by
    simp [hquiet.stopped, registered, hlayers]
  simp only [execInstr, if_neg hnot, Option.some.injEq] at hs
  subst hs
  have hwork : s.core.workList = [] := hr.awaited.workList_nil hcallers hquiet.drained
  refine ⟨trivial, .inl hidle, U.others, ?_, (fun h => nomatch h), fun _ => ⟨rfl, hwork, hquiet⟩, .inr (.inr hquiet)⟩
  intro ul l hl
  rw [hlayers ul] at hl
  cases hl

/-- A step of the undoing. -/
theorem exec (U : Undoing s) (hr : Reached s.core) {i : Instr} {rest : List Instr} {ok : Bool}
    (htodo : s.todo = i :: rest) (hs : execInstr s ok rest i = some s') : Undoing s' := by
  have hshape := U.shape
  rw [htodo] at hshape
  cases i with
  | hsspiUnregister layer =>
    obtain ⟨core, hcore, rfl⟩ := Option.map_eq_some_iff.mp hs
    exact U.unregister hr htodo hcore
  | hsspiStop =>
    obtain ⟨core, hcore, rfl⟩ := Option.map_eq_some_iff.mp hs
    obtain ⟨-, rfl⟩ := ifIdle_some hcore
    exact U.stop htodo
  | wait => exact U.wait hr htodo hs
  | hsspiDeinit => exact U.deinit hr htodo hs
  | _ => exact hshape.elim

end Undoing

/-! The labels of probe. -/

/-- The steps undo a driver whose thread exists or not, and with the layers of `ls` at most. -/
structure Undoes (thread : Bool) (ls : List LayerRef) (todo : List Instr) : Prop where
  shape : Undo todo
  alive : thread = true → .hsspiDeinit ∈ todo
  dead : thread = false → todo = []
  layers : ∀ l ∈ ls, .hsspiUnregister l ∈ todo

/-- Wherever a step fails, its label undoes what has been done until then, and remove undoes what has been done
in the end. -/
def Undoable : Bool → List LayerRef → List Instr → Prop
  | thread, ls, [] => thread = true ∧ ∀ l ∈ ls, .hsspiUnregister l ∈ qm35RemoveSteps
  | thread, ls, .step label :: rest => Undoes thread ls label.unwind ∧ Undoable thread ls rest
  | thread, ls, .hsspiInit label :: rest =>
    thread = false ∧ Undoes thread ls label.unwind ∧ Undoable true ls rest
  | thread, ls, .hsspiRegister layer _ :: rest =>
    thread = true ∧ layerIdIsValid layer.id = true ∧ (∀ l ∈ ls, l.id ≠ layer.id) ∧ Undoable thread (layer :: ls) rest
  | thread, ls, .hsspiStart :: rest => thread = true ∧ Undoable thread ls rest
  | _, _, _ => False

theorem probe_undoable (flashOnProbe starts : Bool) : Undoable false [] (qm35ProbeSteps flashOnProbe starts) := by
  have valid : layerIdIsValid testLayer.id = true ∧ layerIdIsValid coredumpLayer.id = true ∧
      layerIdIsValid logLayer.id = true := by decide
  have distinct : testLayer.id ≠ coredumpLayer.id ∧ testLayer.id ≠ logLayer.id ∧ coredumpLayer.id ≠ logLayer.id := by
    decide
  have undoes : Undoes false [] Label.ret.unwind ∧ Undoes false [] Label.poweroff.unwind ∧
      Undoes true [] Label.hsspiDeinit.unwind ∧ Undoes true [] Label.uciLayerDeinit.unwind ∧
      Undoes true [testLayer] Label.hsspiTestDeinit.unwind ∧ Undoes true [testLayer] Label.coredumpLayerDeinit.unwind ∧
      Undoes true [logLayer, coredumpLayer, testLayer] Label.logLayerUnregister.unwind := by
    refine ⟨?_, ?_, ?_, ?_, ?_, ?_, ?_⟩ <;> constructor <;> simp [Undo, Label.unwind]
  cases flashOnProbe <;> cases starts <;>
    simp [qm35ProbeSteps, qm35ProbeSetup, stepIf, Undoable, undoes, valid, distinct, qm35RemoveSteps]

/-- What a step of probe or remove makes of the core and of the timer. -/
theorem execInstr_core {s s' : Life} {ok : Bool} {rest : List Instr} {i : Instr} (hs : execInstr s ok rest i = some s') :
    s'.timer = s.timer ∧ (s'.core = s.core ∨ ∃ a, coreStep s.core a = some s'.core ∧ (a = .start → i = .hsspiStart)) := by
  cases i with
  | step label => cases ok <;> cases hs <;> exact ⟨rfl, .inl rfl⟩
  | hsspiInit label => cases ok <;> cases hs <;> exact ⟨rfl, .inl rfl⟩
  | hsspiRegister layer label =>
    simp only [execInstr, Option.some.injEq] at hs
    split at hs
    · subst hs
      exact ⟨rfl, .inr ⟨.register layer, rfl, fun h => nomatch h⟩⟩
    · subst hs
      exact ⟨rfl, .inl rfl⟩
  | hsspiStart =>
    cases hs
    exact ⟨rfl, .inr ⟨.start, rfl, fun _ => rfl⟩⟩
  | hsspiUnregister layer =>
    obtain ⟨core, hcore, rfl⟩ := Option.map_eq_some_iff.mp hs
    exact ⟨rfl, .inr ⟨_, hcore, fun h => nomatch h⟩⟩
  | hsspiStop =>
    obtain ⟨core, hcore, rfl⟩ := Option.map_eq_some_iff.mp hs
    exact ⟨rfl, .inr ⟨_, hcore, fun h => nomatch h⟩⟩
  | wait =>
    simp only [execInstr] at hs
    split at hs
    · cases hs
      exact ⟨rfl, .inl rfl⟩
    · obtain ⟨core, hcore, rfl⟩ := Option.map_eq_some_iff.mp hs
      exact ⟨rfl, .inr ⟨_, hcore, fun h => nomatch h⟩⟩
  | hsspiDeinit =>
    simp only [execInstr] at hs
    split at hs <;> cases hs <;> exact ⟨rfl, .inl rfl⟩

/-- After its wait probe or remove goes on with what is left. -/
theorem execInstr_wait {s s' : Life} {ok : Bool} {rest : List Instr} (hs : execInstr s ok rest .wait = some s') :
    s'.todo = rest := by
  simp only [execInstr] at hs
  split at hs
  · cases hs
    rfl
  · obtain ⟨core, -, rfl⟩ := Option.map_eq_some_iff.mp hs
    rfl

/-- A step that undoes cannot fail. -/
theorem execInstr_phase {s s' : Life} {ok : Bool} {rest : List Instr} {i : Instr} (hshape : Undo (i :: rest))
    (hs : execInstr s ok rest i = some s') : s'.phase = s.phase := by
  cases i with
  | hsspiUnregister layer =>
    obtain ⟨core, -, rfl⟩ := Option.map_eq_some_iff.mp hs
    rfl
  | hsspiStop =>
    obtain ⟨core, -, rfl⟩ := Option.map_eq_some_iff.mp hs
    rfl
  | wait =>
    simp only [execInstr] at hs
    split at hs
    · cases hs
      rfl
    · obtain ⟨core, -, rfl⟩ := Option.map_eq_some_iff.mp hs
      rfl
  | hsspiDeinit =>
    simp only [execInstr] at hs
    split at hs <;> cases hs <;> rfl
  | _ => exact hshape.elim

/-- While probe runs nobody is in a call of the core, and what is left of it is undoable. HSSPI is quiet unless it
has been started, and the timer is not pending. -/
structure Probing (s : Life) : Prop where
  callers : ∀ i, s.core.callers i = .idle
  undoable : ∃ ls, (∀ ul l, s.core.layers ul = some l → l ∈ ls) ∧ Undoable s.thread ls s.todo
  stopped : s.core.state = .stopped → Quiet s.core ∧ s.timer = false
  fresh : s.thread = false → s.core.state = .stopped ∧ s.core.workList = []

/-- The driver is being undone, and HSSPI is quiet already. -/
structure Unwinding (s : Life) : Prop where
  undoing : Undoing s
  quiet : Quiet s.core
  timer : s.timer = false

namespace Probing

variable {s s' : Life}

theorem init (flashOnProbe starts : Bool) : Probing (lifeInit flashOnProbe starts) :=
  ⟨fun _ => rfl, ⟨[], (fun _ _ h => nomatch h), probe_undoable flashOnProbe starts⟩,
    fun _ => ⟨⟨rfl, rfl, trivial⟩, rfl⟩, fun _ => ⟨rfl, rfl⟩⟩

theorem beside (P : Probing s) (hr : Reached s.core) (B : Beside s s') : Probing s' := by
  have F := B.frame
  refine ⟨?_, ?_, ?_, ?_⟩
  · rw [F.callers]
    exact P.callers
  · rw [F.layers, B.thread, B.todo]
    exact P.undoable
  · intro hstate
    obtain ⟨hquiet, htimer⟩ := P.stopped (F.state ▸ hstate)
    exact ⟨B.quiet hr hquiet, B.timer hquiet.calm htimer⟩
  · intro hthread
    rw [B.thread] at hthread
    obtain ⟨hstate, hwork⟩ := P.fresh hthread
    exact ⟨F.state.trans hstate, (B.workList hthread hstate).trans hwork⟩

/-- Where a step fails its label does. -/
theorem fail (P : Probing s) (hstopped : s.core.state = .stopped) {ls : List LayerRef} {label : Label}
    (hls : ∀ ul l, s.core.layers ul = some l → l ∈ ls) (hundoes : Undoes s.thread ls label.unwind) :
    Unwinding (s.fail label) := by
  obtain ⟨hquiet, htimer⟩ := P.stopped hstopped
  refine ⟨⟨hundoes.shape, .inl (P.callers 0), fun i _ => P.callers i, ?_, hundoes.alive, ?_, .inr (.inr hquiet)⟩, hquiet,
    htimer⟩
  · intro ul l hl
    exact hundoes.layers l (hls ul l hl)
  · intro hthread
    exact ⟨hundoes.dead hthread, (P.fresh hthread).2, hquiet⟩

/-- A step of probe that is done. -/
theorem done (P : Probing s) {core : Core} {thread : Bool} {rest : List Instr} {ls : List LayerRef}
    (hcallers : core.callers = s.core.callers) (hls : ∀ ul l, core.layers ul = some l → l ∈ ls)
    (hundoable : Undoable thread ls rest) (hquiet : core.state = .stopped → s.core.state = .stopped ∧ Quiet core)
    (hthread : thread = false → s.thread = false ∧ core.workList = s.core.workList ∧ core.state = s.core.state) :
    Probing { s with core := core, thread := thread, todo := rest } := by
  refine ⟨?_, ⟨ls, hls, hundoable⟩, ?_, ?_⟩
  · rw [hcallers]
    exact P.callers
  · intro hstate
    obtain ⟨hstopped, hquiet⟩ := hquiet hstate
    exact ⟨hquiet, (P.stopped hstopped).2⟩
  · intro hfalse
    obtain ⟨hold, hwork, hstate⟩ := hthread hfalse
    obtain ⟨h1, h2⟩ := P.fresh hold
    exact ⟨hstate.trans h1, hwork.trans h2⟩

/-- `hsspi_register` does not fail in probe: the layers have different slots. -/
theorem register (hr : Reached s.core) {ls : List LayerRef} {layer : LayerRef}
    (hls : ∀ ul l, s.core.layers ul = some l → l ∈ ls) (hvalid : layerIdIsValid layer.id = true)
    (hne : ∀ l ∈ ls, l.id ≠ layer.id) : hsspiRegister s.core layer =
      (0, { s.core with layers := Function.update s.core.layers layer.id.toNat (some layer) }) := by
  have hfree : s.core.layers layer.id.toNat = none := by
    refine Option.eq_none_iff_forall_ne_some.mpr fun l hl => ?_
    exact hne l (hls _ l hl) (UInt8.toNat_inj.mp (hr.placed hl).1.symm)
  simp [hsspiRegister, hvalid, hfree]

/-- A step of probe. -/
theorem exec (P : Probing s) (hr : Reached s.core) {i : Instr} {rest : List Instr} {ok : Bool}
    (htodo : s.todo = i :: rest) (hok : ok = false → s.core.state = .stopped)
    (hs : execInstr s ok rest i = some s') : s'.phase = s.phase ∧ Probing s' ∨ s'.phase = .unwinding ∧ Unwinding s' := by
  obtain ⟨ls, hls, hundoable⟩ := P.undoable
  rw [htodo] at hundoable
  have hquiet : s.core.state = .stopped → s.core.state = .stopped ∧ Quiet s.core := fun h => ⟨h, (P.stopped h).1⟩
  cases i with
  | step label =>
    obtain ⟨hundoes, hrest⟩ := hundoable
    cases ok with
    | true =>
      cases hs
      exact .inl ⟨rfl, P.done rfl hls hrest hquiet fun h => ⟨h, rfl, rfl⟩⟩
    | false =>
      cases hs
      exact .inr ⟨rfl, P.fail (hok rfl) hls hundoes⟩
  | hsspiInit label =>
    obtain ⟨hthread, hundoes, hrest⟩ := hundoable
    cases ok with
    | true =>
      cases hs
      exact .inl ⟨rfl, P.done rfl hls hrest hquiet fun h => nomatch h⟩
    | false =>
      cases hs
      exact .inr ⟨rfl, P.fail (hok rfl) hls (hthread ▸ hundoes)⟩
  | hsspiRegister layer label =>
    obtain ⟨hthread, hvalid, hne, hrest⟩ := hundoable
    have heq := register hr hls hvalid hne
    simp only [execInstr, heq, if_true, Option.some.injEq] at hs
    subst hs
    have hcore : coreStep s.core (.register layer) =
        some { s.core with layers := Function.update s.core.layers layer.id.toNat (some layer) } := by
      simp only [coreStep, heq]
    refine .inl ⟨rfl, P.done rfl ?_ hrest ?_ fun h => ⟨h, rfl, rfl⟩⟩
    · intro ul l hl
      rcases coreStep_layers hcore hl with hl | ⟨heq, -⟩
      · exact List.mem_cons_of_mem _ (hls ul l hl)
      · cases heq
        exact List.mem_cons_self
    · intro hstate
      have hregister : CoreAct.register layer ≠ .start := fun h => nomatch h
      exact ⟨hstate, (hquiet hstate).2.step hr.quiescence hregister hcore⟩
  | hsspiStart =>
    obtain ⟨hthread, hrest⟩ := hundoable
    cases hs
    refine .inl ⟨rfl, P.done rfl hls hrest (fun h => nomatch h) fun h => ?_⟩
    rw [hthread] at h
    cases h
  | _ => exact hundoable.elim

end Probing

/-! Over a run. -/

/-- Remove undoes what is there while the driver operates, but for the layer of an open `/dev/uci`. -/
structure Operating (s : Life) : Prop where
  thread : s.thread = true
  layers : ∀ ul l, s.core.layers ul = some l → l = uciLayer ∨ .hsspiUnregister l ∈ qm35RemoveSteps

/-- HSSPI is still to be stopped, or has been: from then on the timer is not pending. -/
structure Removing (s : Life) : Prop where
  undoing : Undoing s
  stopping : s.todo = qm35RemoveSteps ∨ s.todo = .wait :: qm35RemoveSteps.tail ∨ s.todo = qm35RemoveSteps.tail ∨
    Unwinding s

/-- What holds in each phase. -/
def LifeInv (s : Life) : Prop :=
  match s.phase with
  | .probing => Probing s
  | .unwinding => Unwinding s
  | .operating => Operating s
  | .removing => Removing s
  | .gone => Torn s

theorem Undoing.torn {s : Life} (U : Undoing s) (htodo : s.todo = []) (htimer : s.timer = false) : Torn s := by
  have hthread : s.thread = false := by
    by_contra hthread
    have hmem := U.alive (eq_true_of_ne_false hthread)
    rw [htodo] at hmem
    cases hmem
  refine ⟨hthread, fun ul => ?_, (U.dead hthread).2.1, htimer⟩
  refine Option.eq_none_iff_forall_ne_some.mpr fun l hl => ?_
  have hmem := U.layers ul l hl
  rw [htodo] at hmem
  cases hmem

/-- Remove is called with `/dev/uci` closed. -/
theorem Operating.remove {s : Life} (O : Operating s) (hr : Reached s.core)
    (hclosed : s.core.layers uciLayer.id.toNat ≠ some uciLayer) (hcallers : ∀ i, s.core.callers i = .idle) :
    Removing { s with phase := .removing, todo := qm35RemoveSteps } := by
  refine ⟨⟨by simp [qm35RemoveSteps, Undo], .inl (hcallers 0), fun i _ => hcallers i, ?_, fun _ => ?_, ?_, .inl ?_⟩,
    .inl rfl⟩
  · intro ul l hl
    rcases O.layers ul l hl with rfl | hmem
    · obtain ⟨rfl, -⟩ := hr.placed hl
      exact absurd hl hclosed
    · exact hmem
  · simp [qm35RemoveSteps]
  · intro hthread
    rw [O.thread] at hthread
    cases hthread
  · simp [qm35RemoveSteps]

/-- A call of a user while the driver operates registers no layer but that of `/dev/uci`. -/
theorem Operating.user {s : Life} {a : CoreAct} {core : Core} (O : Operating s) (ha : userCall a = true)
    (hs : coreStep s.core a = some core) : Operating { s with core := core } := by
  refine ⟨O.thread, fun ul l hl => ?_⟩
  rcases coreStep_layers hs hl with hl | ⟨rfl, -⟩
  · exact O.layers ul l hl
  · exact .inl (by simpa [userCall] using ha)

theorem Unwinding.exec {s s' : Life} (U : Unwinding s) (hr : Reached s.core) {i : Instr} {rest : List Instr} {ok : Bool}
    (htodo : s.todo = i :: rest) (hs : execInstr s ok rest i = some s') : Unwinding s' := by
  obtain ⟨htimer, hcore⟩ := execInstr_core hs
  refine ⟨U.undoing.exec hr htodo hs, ?_, htimer.trans U.timer⟩
  rcases hcore with hcore | ⟨a, ha, hstart⟩
  · rw [hcore]
    exact U.quiet
  · refine U.quiet.step hr.quiescence (fun h => ?_) ha
    have hshape := U.undoing.shape
    rw [htodo, hstart h] at hshape
    exact hshape

/-- A step of the driver beside what is undone. -/
theorem Unwinding.beside {s s' : Life} (U : Unwinding s) (hr : Reached s.core) (B : Beside s s') : Unwinding s' :=
  ⟨U.undoing.beside hr B, B.quiet hr U.quiet, B.timer U.quiet.calm U.timer⟩

theorem Removing.beside {s s' : Life} (R : Removing s) (hr : Reached s.core) (B : Beside s s') : Removing s' := by
  refine ⟨R.undoing.beside hr B, ?_⟩
  rw [B.todo]
  exact R.stopping.imp_right (Or.imp_right (Or.imp_right fun U => U.beside hr B))

/-- A step of remove: once HSSPI is stopped no message comes that could set the timer again. -/
theorem Removing.exec {s s' : Life} (R : Removing s) (hr : Reached s.core) {i : Instr} {rest : List Instr} {ok : Bool}
    (htodo : s.todo = i :: rest) (htimer : s.todo = qm35RemoveSteps.tail → s.timer = false)
    (hs : execInstr s ok rest i = some s') : Removing s' := by
  have U' := R.undoing.exec hr htodo hs
  refine ⟨U', ?_⟩
  rcases R.stopping with h | h | h | U
  · cases htodo.symm.trans h
    obtain ⟨core, -, rfl⟩ := Option.map_eq_some_iff.mp hs
    exact .inr (.inl rfl)
  · cases htodo.symm.trans h
    exact .inr (.inr (.inl (execInstr_wait hs)))
  · -- `hsspi_stop` has returned
    have hidle := R.undoing.idle htodo fun hwait => by
      rw [htodo, hwait] at h
      cases h
    have hquiet : Quiet s.core := by
      refine (R.undoing.quiet_of_idle hidle).resolve_left fun hmem => ?_
      rw [h] at hmem
      simp [qm35RemoveSteps] at hmem
    have U : Unwinding s := ⟨R.undoing, hquiet, htimer h⟩
    exact .inr (.inr (.inr (U.exec hr htodo hs)))
  · exact .inr (.inr (.inr (U.exec hr htodo hs)))

theorem Removing.timer {s : Life} (R : Removing s) (htodo : s.todo = []) : s.timer = false := by
  rcases R.stopping with h | h | h | U
  · cases htodo.symm.trans h
  · cases htodo.symm.trans h
  · cases htodo.symm.trans h
  · exact U.timer

/-- The core makes at most one step, in any step of the driver. -/
theorem lifeStep_core {s s' : Life} {a : LifeAct} (h : lifeStep s a = some s') :
    s'.core = s.core ∨ ∃ b, coreStep s.core b = some s'.core := by
  simp only [lifeStep] at h
  split at h
  · cases h
  · cases a with
    | next ok =>
      dsimp only at h
      split at h
      · cases h
      · cases h
        exact .inl rfl
      · cases h
        exact .inl rfl
      · exact (execInstr_core h).2.imp_right fun ⟨a, ha, _⟩ => ⟨a, ha⟩
    | remove =>
      dsimp only at h
      split at h
      · cases h
        exact .inl rfl
      · cases h
    | user b =>
      dsimp only at h
      split at h
      · obtain ⟨core, hcore, rfl⟩ := Option.map_eq_some_iff.mp h
        exact .inr ⟨b, hcore⟩
      · cases h
    | thread b timer =>
      dsimp only at h
      split at h
      · cases h
        exact .inr ⟨.thread b, rfl⟩
      · cases h
    | ssIrq =>
      cases h
      exact .inr ⟨.ssIrq, rfl⟩
    | expire blk alloc =>
      dsimp only at h
      split at h
      · cases h
        exact .inr ⟨.send (some coredumpLayer) (some blk) alloc, rfl⟩
      · cases h

theorem Reached.lifeStep {s s' : Life} {a : LifeAct} (hr : Reached s.core) (h : lifeStep s a = some s') :
    Reached s'.core := by
  rcases lifeStep_core h with heq | ⟨b, hb⟩
  · rw [heq]
    exact hr
  · exact hr.step hb

/-- The next step of probe or remove, or its end. -/
theorem lifeStep_next {s s' : Life} {ok : Bool} (h : lifeStep s (.next ok) = some s') :
    s.phase ≠ .operating ∧ s.phase ≠ .gone ∧
    (s.todo = [] ∧ s' = { s with phase := if s.phase = .probing then .operating else .gone } ∨
      ∃ i rest, s.todo = i :: rest ∧ execInstr s ok rest i = some s') := by
  simp only [lifeStep] at h
  split at h
  · cases h
  · next hgone =>
    split at h
    · cases h
    · next hphase htodo =>
      cases h
      exact ⟨by simp [hphase], hgone, .inl ⟨htodo, by simp [hphase]⟩⟩
    · next htodo hoperating hprobing =>
      cases h
      exact ⟨hoperating, hgone, .inl ⟨htodo, by rw [if_neg hprobing]⟩⟩
    · next i rest htodo hoperating =>
      exact ⟨hoperating, hgone, .inr ⟨i, rest, htodo, h⟩⟩

theorem LifeInv.next {s s' : Life} {ok : Bool} (hi : LifeInv s) (hr : Reached s.core) (hg : Guarded s (.next ok))
    (h : lifeStep s (.next ok) = some s') : LifeInv s' := by
  obtain ⟨hoperating, hgone, hend⟩ := lifeStep_next h
  unfold LifeInv at hi
  cases hphase : s.phase with
  | operating => exact absurd hphase hoperating
  | gone => exact absurd hphase hgone
  | probing =>
    have P : Probing s := by simpa only [hphase] using hi
    rcases hend with ⟨htodo, rfl⟩ | ⟨i, rest, htodo, hexec⟩
    · obtain ⟨ls, hls, hundoable⟩ := P.undoable
      rw [htodo] at hundoable
      simp only [LifeInv, hphase, if_true]
      exact ⟨hundoable.1, fun ul l hl => .inr (hundoable.2 l (hls ul l hl))⟩
    · rcases P.exec hr htodo (hg.1 hphase) hexec with ⟨hp, P'⟩ | ⟨hp, U⟩
      · simpa only [LifeInv, hp, hphase] using P'
      · simpa only [LifeInv, hp] using U
  | unwinding =>
    have U : Unwinding s := by simpa only [hphase] using hi
    rcases hend with ⟨htodo, rfl⟩ | ⟨i, rest, htodo, hexec⟩
    · have T := U.undoing.torn htodo U.timer
      simp only [LifeInv, hphase]
      exact ⟨T.thread, T.layers, T.workList, T.timer⟩
    · have hp := execInstr_phase (htodo ▸ U.undoing.shape) hexec
      simpa only [LifeInv, hp, hphase] using U.exec hr htodo hexec
  | removing =>
    have R : Removing s := by simpa only [hphase] using hi
    rcases hend with ⟨htodo, rfl⟩ | ⟨i, rest, htodo, hexec⟩
    · have T := R.undoing.torn htodo (R.timer htodo)
      simp only [LifeInv, hphase]
      exact ⟨T.thread, T.layers, T.workList, T.timer⟩
    · have hp := execInstr_phase (htodo ▸ R.undoing.shape) hexec
      simpa only [LifeInv, hp, hphase] using R.exec hr htodo (hg.2 hphase) hexec

theorem LifeInv.beside {s s' : Life} (hi : LifeInv s) (hr : Reached s.core) (hgone : s.phase ≠ .gone) (B : Beside s s') :
    LifeInv s' := by
  unfold LifeInv at hi
  simp only [LifeInv, B.phase]
  cases hphase : s.phase with
  | gone => exact absurd hphase hgone
  | probing =>
    have P : Probing s := by simpa only [hphase] using hi
    exact P.beside hr B
  | unwinding =>
    have U : Unwinding s := by simpa only [hphase] using hi
    exact U.beside hr B
  | operating =>
    have O : Operating s := by simpa only [hphase] using hi
    exact ⟨B.thread.trans O.thread, B.frame.layers ▸ O.layers⟩
  | removing =>
    have R : Removing s := by simpa only [hphase] using hi
    exact R.beside hr B

theorem LifeInv.step {s s' : Life} {a : LifeAct} (hi : LifeInv s) (hr : Reached s.core) (hg : Guarded s a)
    (h : lifeStep s a = some s') : LifeInv s' := by
  have hgone : s.phase ≠ .gone := fun hgone => by simp [lifeStep, hgone] at h
  rcases lifeStep_beside h hg with ⟨ok, rfl⟩ | rfl | ⟨b, rfl, hphase⟩ | B
  · exact hi.next hr hg h
  · simp only [lifeStep, if_neg hgone] at h
    split at h
    · next hphase =>
      cases h
      have O : Operating s := by simpa only [LifeInv, hphase] using hi
      exact O.remove hr hg.1 hg.2
    · cases h
  · have O : Operating s := by simpa only [LifeInv, hphase] using hi
    simp only [lifeStep, if_neg hgone] at h
    split at h
    · next hcall =>
      obtain ⟨core, hcore, rfl⟩ := Option.map_eq_some_iff.mp h
      have O' := O.user hcall hcore
      simp only [LifeInv, hphase]
      exact ⟨O'.thread, O'.layers⟩
    · cases h
  · exact hi.beside hr hgone B

/-- When the driver is gone nothing is left, after any run in which what goes wrong in the code does not happen. -/
theorem torn_down {flashOnProbe starts : Bool} {acts : List LifeAct} {s : Life}
    (hm : Meets lifeStep Guarded (lifeInit flashOnProbe starts) acts)
    (hr : run lifeStep (lifeInit flashOnProbe starts) acts = some s) (hgone : s.phase = .gone) : Torn s := by
  have hinv : Reached s.core ∧ LifeInv s := by
    refine run_invariant (I := fun s => Reached s.core ∧ LifeInv s) ?_ ?_ hm hr
    · rintro s a s' ⟨hreached, hi⟩ hg h
      exact ⟨hreached.lifeStep h, hi.step hreached hg h⟩
    · exact ⟨⟨[], rfl⟩, Probing.init flashOnProbe starts⟩
  simpa only [LifeInv, hgone] using hinv.2

/-- The steps of probe and remove, and of the thread. -/
def Alone (s : Life) : LifeAct → Prop
  | .next ok => Guarded s (.next ok)
  | .thread _ _ => True
  | _ => False

instance Alone.decidable (s : Life) : (a : LifeAct) → Decidable (Alone s a)
  | .next ok => inferInstanceAs (Decidable ((s.phase = .probing → ok = false → s.core.state = .stopped) ∧
      (s.phase = .removing → s.todo = qm35RemoveSteps.tail → s.timer = false)))
  | .thread _ _ => .isTrue trivial
  | .remove => .isFalse id
  | .user _ => .isFalse id
  | .ssIrq => .isFalse id
  | .expire _ _ => .isFalse id

theorem Alone.guarded {s : Life} {a : LifeAct} (h : Alone s a) : Guarded s a := by
  cases a with
  | next ok => exact h
  | thread b timer => trivial
  | _ => exact h.elim

/-- A call that waits, the thread completing it. -/
def awaitedCall : List LifeAct :=
  [.next true] ++ List.replicate 4 (.thread ⟨0, ⟨0, 0, 0⟩, none⟩ none) ++ [.next true]

/-- The end of the error path, from `log_layer_unregister` on. -/
def unwound : List LifeAct := awaitedCall ++ awaitedCall ++ awaitedCall ++ [.next true, .next true]

/-- `hsspi_irqs_setup` fails. -/
def irqsFail : List LifeAct := List.replicate 10 (.next true) ++ [.next false] ++ unwound

/-- The driver is probed. -/
def probed : List LifeAct := List.replicate 14 (.next true)

/-- Remove, the thread completing its calls. -/
def removed : List LifeAct := .remove :: (awaitedCall ++ unwound)

theorem torn_down_irqs_remove :
    (∃ s, run lifeStep (lifeInit false true) irqsFail = some s ∧ s.phase = .gone ∧ Torn s) ∧
    ∃ s, run lifeStep (lifeInit false true) (probed ++ removed) = some s ∧ s.phase = .gone ∧ Torn s := by
  constructor
  · have hm : Meets lifeStep Guarded (lifeInit false true) irqsFail := by
      have halone : Meets lifeStep Alone (lifeInit false true) irqsFail := by decide
      exact halone.mono fun _ _ => Alone.guarded
    obtain ⟨s, hr, hgone⟩ : ∃ s, run lifeStep (lifeInit false true) irqsFail = some s ∧ s.phase = .gone :=
      ⟨_, rfl, rfl⟩
    exact ⟨s, hr, hgone, torn_down hm hr hgone⟩
  · have hprobed : Meets lifeStep Alone (lifeInit false true) probed := by decide
    have hm : Meets lifeStep Guarded (lifeInit false true) (probed ++ removed) := by
      refine .append rfl (hprobed.mono fun _ _ => Alone.guarded) (.cons rfl ⟨by decide, fun _ => rfl⟩ ?_)
      refine Meets.mono (C := Alone) (fun _ _ => Alone.guarded) ?_
      decide
    obtain ⟨s, hr, hgone⟩ : ∃ s, run lifeStep (lifeInit false true) (probed ++ removed) = some s ∧ s.phase = .gone :=
      ⟨_, rfl, rfl⟩
    exact ⟨s, hr, hgone, torn_down hm hr hgone⟩

/-- `misc_register` fails after HSSPI has been started. -/
def miscFail : List LifeAct := List.replicate 12 (.next true) ++ [.next false] ++ unwound

/-- `hsspi_deinit` refuses then, and the thread goes on. -/
theorem not_torn_down : ¬∀ flashOnProbe starts acts s, run lifeStep (lifeInit flashOnProbe starts) acts = some s →
    s.phase = .gone → Torn s := by
  intro h
  obtain ⟨s, hr, hgone, hthread⟩ : ∃ s, run lifeStep (lifeInit false true) miscFail = some s ∧ s.phase = .gone ∧
      s.thread = true := ⟨_, rfl, rfl, rfl⟩
  rw [(h false true miscFail s hr hgone).thread] at hthread
  cases hthread

/-- So it does where `/dev/uci` is open when the driver is removed. -/
theorem open_at_remove : ∃ s, run lifeStep (lifeInit false true)
    (probed ++ [.user (.register uciLayer)] ++ removed) = some s ∧
      s.phase = .gone ∧ s.thread = true := ⟨_, rfl, rfl, rfl⟩

/-- So it does where a user starts HSSPI, by a file of debugfs, after remove has stopped it. -/
theorem start_in_remove : ∃ s, run lifeStep (lifeInit false true)
    (probed ++ [.remove] ++ awaitedCall ++ [.user .start] ++ unwound) = some s ∧
      s.phase = .gone ∧ s.thread = true ∧ s.core.state = .running := ⟨_, rfl, rfl, rfl, rfl⟩

/-- The thread reads a message of the layer of coredumps, which sets its timer. -/
def coredumpRead : List LifeAct :=
  .ssIrq :: List.replicate 11 (.thread ⟨0, ⟨0, coredumpLayer.id, 4⟩, some 0⟩ (some true))

/-- And the timer is still pending after the driver is removed. -/
theorem timer_at_remove : ∃ s, run lifeStep (lifeInit false true)
    (probed ++ coredumpRead ++ removed) = some s ∧ s.phase = .gone ∧ s.timer = true :=
  ⟨_, rfl, rfl, rfl⟩

end Qm35.Driver
