import Qm35.Driver.Power

/- The regulators one by one (`qm35_regulator_set_one`, `qm35_regulators_set`). One flag
   stands for up to four regulators that are counted by the kernel each on its own, and
   it is changed before they are switched; what switching them returns is only logged.

   So the flag may say that a regulator is on which could not be enabled, and switching
   off then disables it although nothing has enabled it. A regulator that could not be
   disabled does no harm: it stays on, and is enabled once more the next time. What keeps
   the account is that every regulator that is not still on is enabled when the flag is
   set (`accounted_iff`). -/
namespace Qm35.Regulators

open Qm35.Driver (Board PowerCtx)

/-- The regulators of `struct qm35_ctx`. -/
inductive Vdd where
  | vdd1
  | vdd2
  | vdd3
  | vdd4
deriving DecidableEq

/-- The pointer is not `NULL`. -/
def present (b : Board) : Vdd → Bool
  | .vdd1 => b.vdd1
  | .vdd2 => b.vdd2
  | .vdd3 => b.vdd3
  | .vdd4 => b.vdd4

/-- A call of `regulator_enable`, or of `regulator_disable`, and what it has returned. -/
structure Call where
  reg : Vdd
  on : Bool
  ret : Int
deriving DecidableEq

/-- The flag, and the calls so far. -/
structure State where
  regulatorsEnabled : Bool
  calls : List Call

/-- A call of `qm35_regulators_set`, with what each regulator will return to it. -/
structure Setting where
  on : Bool
  ret : Vdd → Int

/-- `qm35_regulator_set_one` -/
def qm35RegulatorSetOne (b : Board) (reg : Vdd) (on : Bool) (ret : Int) (s : State) : State :=
  if present b reg then { s with calls := s.calls ++ [⟨reg, on, ret⟩] } else s

/-- `qm35_regulators_set` -/
def qm35RegulatorsSet (b : Board) (c : Setting) (s : State) : State :=
  let on := b.noUwbHal || c.on
  let isEnabled := s.regulatorsEnabled
  let s := { s with regulatorsEnabled := on }
  if isEnabled = on then s
  else
    let s := qm35RegulatorSetOne b .vdd1 on (c.ret .vdd1) s
    let s := qm35RegulatorSetOne b .vdd2 on (c.ret .vdd2) s
    let s := qm35RegulatorSetOne b .vdd3 on (c.ret .vdd3) s
    qm35RegulatorSetOne b .vdd4 on (c.ret .vdd4) s

/-- After `qm35_regulators_setup`. -/
def regulatorsSetup : State := ⟨false, []⟩

def setStep (b : Board) (s : State) (c : Setting) : Option State := some (qm35RegulatorsSet b c s)

/-! The account. -/

/-- The successful enables of the regulator that are not yet undone, after one more call. -/
def Call.holds (v : Vdd) (n : Nat) (c : Call) : Nat :=
  if c.reg = v ∧ c.ret = 0 then if c.on then n + 1 else n - 1 else n

def held (v : Vdd) (calls : List Call) : Nat := calls.foldl (Call.holds v) 0

/-- The call disables the regulator. -/
def Call.disables (v : Vdd) (c : Call) : Prop := c.reg = v ∧ c.on = false ∧ c.ret = 0

/-- The regulator has been enabled successfully and not disabled since. -/
def Enabled (v : Vdd) (calls : List Call) : Prop :=
  ∃ before after, calls = before ++ ⟨v, true, 0⟩ :: after ∧ ∀ c ∈ after, ¬c.disables v

/-- No regulator is disabled that is not held. -/
def Balanced (calls : List Call) : Prop :=
  ∀ before v ret after, calls = before ++ ⟨v, false, ret⟩ :: after → 0 < held v before

/-- The calls are balanced, and where the flag is set all regulators are enabled. -/
structure Accounted (b : Board) (s : State) : Prop where
  balanced : Balanced s.calls
  enabled : s.regulatorsEnabled = true → ∀ v, present b v = true → Enabled v s.calls

/-- Where the flag becomes set, every regulator that is not still enabled is enabled. -/
def EnablesAll (b : Board) (s : State) (c : Setting) : Prop :=
  s.regulatorsEnabled = false → (b.noUwbHal || c.on) = true →
    ∀ v, present b v = true → c.ret v = 0 ∨ Enabled v s.calls

/-! What one call more does. -/

section Calls
variable {v : Vdd} {calls new : List Call} {c : Call}

theorem held_append : held v (calls ++ new) = new.foldl (Call.holds v) (held v calls) := List.foldl_append

/-- Calls for other regulators do not count. -/
theorem held_others (h : ∀ c ∈ new, c.reg ≠ v) : held v (calls ++ new) = held v calls := by
  rw [held_append]
  induction new with
  | nil => rfl
  | cons c new ih =>
    have hc : Call.holds v (held v calls) c = held v calls := by
      unfold Call.holds
      rw [if_neg fun hv => h c List.mem_cons_self hv.1]
    rw [List.foldl_cons, hc]
    exact ih fun d hd => h d (List.mem_cons_of_mem _ hd)

theorem enabled_snoc : Enabled v (calls ++ [c]) ↔ c = ⟨v, true, 0⟩ ∨ (Enabled v calls ∧ ¬c.disables v) := by
  constructor
  · intro ⟨before, after, heq, hafter⟩
    rcases List.eq_nil_or_concat after with rfl | ⟨after, d, rfl⟩
    · exact .inl (List.append_inj_right' heq rfl |> List.singleton_inj.mp)
    · rw [List.concat_eq_append] at heq hafter
      have hsplit : calls ++ [c] = (before ++ ⟨v, true, 0⟩ :: after) ++ [d] := by simpa using heq
      obtain ⟨hcalls, hlast⟩ := List.append_inj' hsplit rfl
      obtain rfl := List.singleton_inj.mp hlast
      refine .inr ⟨⟨before, after, hcalls, fun e he => hafter e ?_⟩, hafter c ?_⟩
      · exact List.mem_append_left _ he
      · exact List.mem_append_right _ List.mem_cons_self
  · intro h
    rcases h with rfl | ⟨⟨before, after, rfl, hafter⟩, hc⟩
    · exact ⟨calls, [], rfl, by simp⟩
    · refine ⟨before, after ++ [c], by simp, fun e he => ?_⟩
      rcases List.mem_append.mp he with he | he
      · exact hafter e he
      · rw [List.mem_singleton.mp he]
        exact hc

/-- An enabled regulator is held. -/
theorem Enabled.held (h : Enabled v calls) : 0 < held v calls := by
  induction calls using List.reverseRecOn with
  | nil =>
    obtain ⟨before, after, heq, -⟩ := h
    simp at heq
  | append_singleton calls c ih =>
    rw [held_append, List.foldl_cons, List.foldl_nil, Call.holds]
    rcases enabled_snoc.mp h with rfl | ⟨hcalls, hc⟩
    · simp
    · have hpos := ih hcalls
      by_cases hv : c.reg = v ∧ c.ret = 0
      · rw [if_pos hv]
        cases hon : c.on with
        | true => simp
        | false => exact absurd ⟨hv.1, hon, hv.2⟩ hc
      · rwa [if_neg hv]

/-- Enabling regulators. -/
theorem enabled_enables {vs : List Vdd} {ret : Vdd → Int} :
    Enabled v (calls ++ vs.map fun w => ⟨w, true, ret w⟩) ↔ Enabled v calls ∨ (v ∈ vs ∧ ret v = 0) := by
  induction vs using List.reverseRecOn with
  | nil => simp
  | append_singleton vs w ih =>
    have hon : ¬Call.disables v ⟨w, true, ret w⟩ := by simp [Call.disables]
    have heq : (⟨w, true, ret w⟩ : Call) = ⟨v, true, 0⟩ ↔ w = v ∧ ret w = 0 := by simp
    rw [List.map_append, ← List.append_assoc, List.map_cons, List.map_nil, enabled_snoc, ih, heq]
    constructor
    · intro h
      rcases h with ⟨rfl, hret⟩ | ⟨h | h, -⟩
      · exact .inr ⟨by simp, hret⟩
      · exact .inl h
      · exact .inr ⟨List.mem_append_left _ h.1, h.2⟩
    · intro h
      rcases h with h | ⟨hmem, hret⟩
      · exact .inr ⟨.inl h, hon⟩
      · rcases List.mem_append.mp hmem with hmem | hmem
        · exact .inr ⟨.inr ⟨hmem, hret⟩, hon⟩
        · obtain rfl := List.mem_singleton.mp hmem
          exact .inl ⟨rfl, hret⟩

theorem balanced_snoc : Balanced (calls ++ [c]) ↔ Balanced calls ∧ (c.on = false → 0 < held c.reg calls) := by
  constructor
  · intro h
    constructor
    · intro before v ret after heq
      exact h before v ret (after ++ [c]) (by simp [heq])
    · intro hon
      exact h calls c.reg c.ret [] (by rw [← hon])
  · rintro ⟨hcalls, hc⟩ before v ret after heq
    rcases List.eq_nil_or_concat after with rfl | ⟨after, d, rfl⟩
    · obtain ⟨rfl, hlast⟩ := List.append_inj' heq rfl
      obtain rfl := List.singleton_inj.mp hlast
      exact hc rfl
    · rw [List.concat_eq_append] at heq
      have hsplit : calls ++ [c] = (before ++ ⟨v, false, ret⟩ :: after) ++ [d] := by simpa using heq
      exact hcalls before v ret after (List.append_inj' hsplit rfl).1

/-- Regulators are switched off in balance where each of them is held. -/
theorem Balanced.switch (h : Balanced calls) {vs : List Vdd} (hnodup : vs.Nodup) {on : Bool} {ret : Vdd → Int}
    (hheld : on = false → ∀ v ∈ vs, 0 < held v calls) :
    Balanced (calls ++ vs.map fun w => ⟨w, on, ret w⟩) := by
  induction vs using List.reverseRecOn with
  | nil => simpa using h
  | append_singleton vs w ih =>
    obtain ⟨hvs, -, hdisj⟩ := List.nodup_append.mp hnodup
    rw [List.map_append, ← List.append_assoc, List.map_cons, List.map_nil]
    refine balanced_snoc.mpr ⟨ih hvs fun hon v hv => hheld hon v (List.mem_append_left _ hv), fun hon => ?_⟩
    have hother : ∀ c ∈ vs.map (fun w => (⟨w, on, ret w⟩ : Call)), c.reg ≠ w := by
      intro c hc
      obtain ⟨u, hu, rfl⟩ := List.mem_map.mp hc
      exact hdisj u hu w List.mem_cons_self
    rw [held_others hother]
    exact hheld hon w (List.mem_append_right _ List.mem_cons_self)

end Calls

/-! What a call of `qm35_regulators_set` does. -/

/-- The regulators there are, in the order they are switched in. -/
def regulators (b : Board) : List Vdd := [Vdd.vdd1, .vdd2, .vdd3, .vdd4].filter (present b)

theorem mem_regulators {b : Board} {v : Vdd} : v ∈ regulators b ↔ present b v = true := by
  unfold regulators
  rw [List.mem_filter]
  cases v <;> simp

theorem regulators_nodup (b : Board) : (regulators b).Nodup := List.Nodup.filter _ (by decide)

section Set
variable {b : Board} {c : Setting} {s : State}

/-- The regulator is called if there is one. -/
theorem setOne_eq (reg : Vdd) (on : Bool) (ret : Vdd → Int) : qm35RegulatorSetOne b reg on (ret reg) s =
    { s with calls := s.calls ++ ([reg].filter (present b)).map fun v => ⟨v, on, ret v⟩ } := by
  unfold qm35RegulatorSetOne
  rw [List.filter_cons]
  split <;> simp

/-- The flag is as asked. Where it was not, every regulator there is has been called once. -/
theorem regulatorsSet_eq : qm35RegulatorsSet b c s =
    { regulatorsEnabled := b.noUwbHal || c.on
      calls := if s.regulatorsEnabled = (b.noUwbHal || c.on) then s.calls
        else s.calls ++ (regulators b).map fun v => ⟨v, b.noUwbHal || c.on, c.ret v⟩ } := by
  have hsplit : [Vdd.vdd1, .vdd2, .vdd3, .vdd4] = [Vdd.vdd1] ++ [Vdd.vdd2] ++ [Vdd.vdd3] ++ [Vdd.vdd4] := rfl
  unfold qm35RegulatorsSet
  dsimp only
  split
  · rfl
  · simp only [setOne_eq, regulators, hsplit, List.filter_append, List.map_append, List.append_assoc]

/-- One call keeps the account exactly where it enables every regulator that has to be. -/
theorem accounted_step (h : Accounted b s) : EnablesAll b s c ↔ Accounted b (qm35RegulatorsSet b c s) := by
  rw [regulatorsSet_eq]
  by_cases hsame : s.regulatorsEnabled = (b.noUwbHal || c.on)
  · rw [if_pos hsame]
    refine iff_of_true (fun hoff hon => ?_) ⟨h.balanced, fun hon => h.enabled (hsame.trans hon)⟩
    rw [hoff, hon] at hsame
    cases hsame
  rw [if_neg hsame]
  cases hon : b.noUwbHal || c.on with
  | false =>
    -- switched off: the flag was set, so what there is was enabled
    rw [hon] at hsame
    have hset : s.regulatorsEnabled = true := by simpa using hsame
    refine iff_of_true (fun hoff _ => ?_) ⟨?_, fun hoff => nomatch hoff⟩
    · rw [hset] at hoff
      cases hoff
    · apply h.balanced.switch (regulators_nodup b)
      intro _ v hv
      exact (h.enabled hset v (mem_regulators.mp hv)).held
  | true =>
    rw [hon] at hsame
    have hoff : s.regulatorsEnabled = false := by simpa using hsame
    have hbalanced : Balanced (s.calls ++ (regulators b).map fun w => ⟨w, true, c.ret w⟩) :=
      h.balanced.switch (regulators_nodup b) fun hon => nomatch hon
    constructor
    · intro hall
      refine ⟨hbalanced, fun _ v hv => enabled_enables.mpr ?_⟩
      rcases hall hoff hon v hv with hret | hstill
      · exact .inr ⟨mem_regulators.mpr hv, hret⟩
      · exact .inl hstill
    · intro hacc _ _ v hv
      rcases enabled_enables.mp (hacc.enabled rfl v hv) with hstill | ⟨-, hret⟩
      · exact .inr hstill
      · exact .inl hret

end Set

theorem accounted_setup (b : Board) : Accounted b regulatorsSetup :=
  ⟨fun before v ret after h => by simp [regulatorsSetup] at h, fun h => nomatch h⟩

/-- The account is kept over any sequence of calls exactly where each call that sets the flag enables
every regulator that is not still enabled. -/
theorem accounted_iff (b : Board) (cs : List Setting) :
    (∀ done s, done <+: cs → Lts.run (setStep b) regulatorsSetup done = some s → Accounted b s) ↔
      Lts.Meets (setStep b) (EnablesAll b) regulatorsSetup cs := by
  have hstep : ∀ s c, Accounted b s → (EnablesAll b s c ↔ ∀ s', setStep b s c = some s' → Accounted b s') := by
    intro s c h
    rw [accounted_step h]
    unfold setStep
    simp
  exact (Lts.meets_iff hstep (accounted_setup b)).symm

/-- `regulator_enable` fails. -/
def enableFails : Setting := ⟨true, fun _ => -5⟩

def switchOff : Setting := ⟨false, fun _ => 0⟩

/-- A regulator that could not be enabled is disabled. -/
theorem not_accounted : ¬∀ b cs s, Lts.run (setStep b) regulatorsSetup cs = some s → Accounted b s := by
  intro h
  have hoff := (h ⟨true, false, false, false, 0, false, false⟩ [enableFails, switchOff] _ rfl).balanced
  exact absurd (hoff [⟨.vdd1, true, -5⟩] .vdd1 0 [] rfl) (by decide)

/-! All four at once, as in `Driver.qm35RegulatorsSet`. -/

/-- The flag, and the calls for each time the regulators were switched. -/
structure Switched (b : Board) (s : State) (p : PowerCtx) : Prop where
  flag : s.regulatorsEnabled = p.regulatorsEnabled
  calls : s.calls.map (fun c => (c.reg, c.on)) = p.switched.reverse.flatMap fun on => (regulators b).map fun v => (v, on)

theorem Switched.set {b : Board} {s : State} {p : PowerCtx} (h : Switched b s p) (c : Setting) :
    Switched b (qm35RegulatorsSet b c s) (Driver.qm35RegulatorsSet b c.on p) := by
  rw [regulatorsSet_eq]
  unfold Driver.qm35RegulatorsSet
  rw [h.flag]
  dsimp only
  split
  · exact ⟨rfl, h.calls⟩
  · refine ⟨rfl, ?_⟩
    simp [h.calls]

theorem switched_run (b : Board) (cs : List Setting) : ∃ s p, Lts.run (setStep b) regulatorsSetup cs = some s ∧
    Lts.run (fun p c => some (Driver.qm35RegulatorsSet b c.on p)) Driver.irqsSetup cs = some p ∧ Switched b s p :=
  Lts.run_beside (C := fun _ => True) (fun _ _ c h _ => ⟨_, _, rfl, rfl, h.set c⟩) ⟨rfl, rfl⟩ fun _ _ => trivial

end Qm35.Regulators
