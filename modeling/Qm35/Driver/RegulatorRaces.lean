import Qm35.Driver.Regulators

/- The regulators between several callers (`qm35_regulators_set`). The flag is exchanged
   under the lock of the context, and the regulators are called after it, one by one and
   without it. `QM35_CTRL_POWER` takes no other lock: any number of callers may be
   switching the regulators at a time, some on and some off, each at its own place.

   The lock makes the exchanges alternate, so each caller that switches on is followed by
   one that switches off. What they still have to call makes up for the difference in what
   they have called (`Even`), whatever the order. When all have returned, a regulator was
   enabled once more than it was disabled if the flag is set, and as often if not. But in
   between a disable may overtake the enable it undoes. The kernel refuses it, and the
   regulator stays on: `regulators_settle` counts what was refused. Callers that do not
   overlap leave what they leave one after the other. -/
namespace Qm35.Regulators

open Qm35.Driver (Board)

/-- A call of `qm35_regulators_set` that has exchanged the flag: what it makes of the regulators, and those it
has still to come to. -/
structure Under where
  c : Setting
  on : Bool
  rest : List Vdd

structure Races where
  s : State
  under : List Under

inductive RaceAct where
  /-- A call exchanges the flag. -/
  | set (c : Setting)
  /-- A call comes to its next regulator, or returns. -/
  | next (k : Nat)

/-- The section of `qm35_regulators_set`. The caller returns where the flag is as it should be. -/
def exchange (b : Board) (c : Setting) (r : Races) : Races :=
  let on := b.noUwbHal || c.on
  let isEnabled := r.s.regulatorsEnabled
  let s := { r.s with regulatorsEnabled := on }
  if isEnabled = on then { r with s := s }
  else { s := s, under := r.under ++ [⟨c, on, [.vdd1, .vdd2, .vdd3, .vdd4]⟩] }

/-- What `qm35_regulators_set` does after its section, up to one `qm35_regulator_set_one`. -/
def raceStep (b : Board) (r : Races) : RaceAct → Option Races
  | .set c => some (exchange b c r)
  | .next k =>
    match r.under[k]? with
    | none => none
    | some ⟨_, _, []⟩ => some { r with under := r.under.eraseIdx k }
    | some ⟨c, on, v :: rest⟩ =>
      some { s := qm35RegulatorSetOne b v on (c.ret v) r.s, under := r.under.set k ⟨c, on, rest⟩ }

def racesSetup : Races := ⟨regulatorsSetup, []⟩

/-- The calls among the actions, in the order of their exchanges. -/
def settings : List RaceAct → List Setting
  | [] => []
  | .set c :: as => c :: settings as
  | .next _ :: as => settings as

/-- A call exchanges the flag only where no other is under way. -/
def Alone (r : Races) : RaceAct → Prop
  | .set _ => r.under = []
  | .next _ => True

/-! What has been called, and what is still to come. -/

section Counts
variable (v : Vdd) (on : Bool)

/-- The calls that enable the regulator, or those that disable it. -/
def made (calls : List Call) : Nat := calls.countP fun c => c.reg = v ∧ c.on = on

/-- Those that have returned an error. -/
def failed (calls : List Call) : Nat := calls.countP fun c => (c.reg = v ∧ c.on = on) ∧ c.ret ≠ 0

/-- The callers that have still to come to the regulator. -/
def due (under : List Under) : Nat := under.countP fun u => v ∈ u.rest ∧ u.on = on

variable {v on}

@[simp] theorem made_snoc {calls : List Call} {c : Call} :
    made v on (calls ++ [c]) = made v on calls + if c.reg = v ∧ c.on = on then 1 else 0 := by
  simp [made, List.countP_append, List.countP_cons]

@[simp] theorem failed_snoc {calls : List Call} {c : Call} :
    failed v on (calls ++ [c]) = failed v on calls + if (c.reg = v ∧ c.on = on) ∧ c.ret ≠ 0 then 1 else 0 := by
  simp [failed, List.countP_append, List.countP_cons]

@[simp] theorem due_append {under under' : List Under} :
    due v on (under ++ under') = due v on under + due v on under' := List.countP_append

@[simp] theorem due_cons {u : Under} {under : List Under} :
    due v on (u :: under) = due v on under + if v ∈ u.rest ∧ u.on = on then 1 else 0 := by
  simp [due, List.countP_cons]

@[simp] theorem due_nil : due v on [] = 0 := rfl

end Counts

/-- A disable of the regulator has succeeded only where it was held (`regulator_disable`). -/
def Counted (v : Vdd) (calls : List Call) : Prop :=
  ∀ before after, calls = before ++ ⟨v, false, 0⟩ :: after → 0 < held v before

/-- The enables and the disables of each regulator, with those still to come, and the flag. -/
structure Even (b : Board) (r : Races) : Prop where
  nodup : ∀ u ∈ r.under, u.rest.Nodup
  even : ∀ v, present b v = true → made v true r.s.calls + due v true r.under =
    made v false r.s.calls + due v false r.under + r.s.regulatorsEnabled.toNat

/-- Only what there is is called, and where `NO_UWB_HAL` is set only to enable it. -/
structure Proper (b : Board) (r : Races) : Prop where
  calls : ∀ c ∈ r.s.calls, present b c.reg = true ∧ (b.noUwbHal = true → c.on = true)
  under : ∀ u ∈ r.under, b.noUwbHal = true → u.on = true

section Steps
variable {b : Board} {c : Setting} {r r' : Races} {a : RaceAct} {v : Vdd}

/-- The list around an index in it. -/
theorem around {α : Type} {l : List α} {k : Nat} {x : α} (h : l[k]? = some x) :
    ∃ before after, l = before ++ x :: after ∧ l.eraseIdx k = before ++ after ∧
      ∀ y, l.set k y = before ++ y :: after := by
  obtain ⟨hk, rfl⟩ := List.getElem?_eq_some_iff.mp h
  refine ⟨l.take k, l.drop (k + 1), ?_, List.eraseIdx_eq_take_drop_succ _ _, fun y => ?_⟩
  · rw [List.getElem_cons_drop, List.take_append_drop]
  · rw [List.set_eq_take_append_cons_drop, if_pos hk]

/-- What a step can be: an exchange that changes nothing, one that begins to switch, the return of a caller, and
its coming to a regulator. -/
inductive Raced (b : Board) (r : Races) : RaceAct → Races → Prop
  | same (c : Setting) : r.s.regulatorsEnabled = (b.noUwbHal || c.on) → Raced b r (.set c) r
  | switch (c : Setting) : r.s.regulatorsEnabled ≠ (b.noUwbHal || c.on) →
      Raced b r (.set c) ⟨{ r.s with regulatorsEnabled := b.noUwbHal || c.on },
        r.under ++ [⟨c, b.noUwbHal || c.on, [.vdd1, .vdd2, .vdd3, .vdd4]⟩]⟩
  | back {k : Nat} (before after : List Under) (c : Setting) (on : Bool) : r.under = before ++ ⟨c, on, []⟩ :: after →
      Raced b r (.next k) ⟨r.s, before ++ after⟩
  | one {k : Nat} (before after : List Under) (c : Setting) (on : Bool) (v : Vdd) (rest : List Vdd) :
      r.under = before ++ ⟨c, on, v :: rest⟩ :: after →
      Raced b r (.next k) ⟨qm35RegulatorSetOne b v on (c.ret v) r.s, before ++ ⟨c, on, rest⟩ :: after⟩

theorem exchange_raced : Raced b r (.set c) (exchange b c r) := by
  unfold exchange
  dsimp only
  split
  · next hsame =>
    have hback : ({ r with s := { r.s with regulatorsEnabled := b.noUwbHal || c.on } } : Races) = r := by simp [← hsame]
    rw [hback]
    exact .same c hsame
  · next hdiff => exact .switch c hdiff

theorem raceStep_raced (hs : raceStep b r a = some r') : Raced b r a r' := by
  cases a with
  | set c =>
    cases hs
    exact exchange_raced
  | next k =>
    simp only [raceStep] at hs
    split at hs
    · cases hs
    · next c on hk =>
      obtain ⟨before, after, heq, herase, -⟩ := around hk
      cases hs
      rw [herase]
      exact .back before after c on heq
    · next c on v rest hk =>
      obtain ⟨before, after, heq, -, hset⟩ := around hk
      cases hs
      rw [hset]
      exact .one before after c on v rest heq

@[simp] theorem setOne_flag {on : Bool} {ret : Int} {s : State} :
    (qm35RegulatorSetOne b v on ret s).regulatorsEnabled = s.regulatorsEnabled := by
  unfold qm35RegulatorSetOne
  split <;> rfl

/-- A regulator that there is is called once more. -/
theorem made_setOne {w : Vdd} (hv : present b v = true) {on on' : Bool} {ret : Int} {s : State} :
    made v on' (qm35RegulatorSetOne b w on ret s).calls =
      made v on' s.calls + if w = v ∧ on = on' then 1 else 0 := by
  unfold qm35RegulatorSetOne
  split
  · simp
  · next hw =>
    have hne : w ≠ v := fun heq => hw (heq ▸ hv)
    simp [hne]

theorem Even.step (h : Even b r) (hs : raceStep b r a = some r') : Even b r' := by
  cases raceStep_raced hs with
  | same => exact h
  | switch c hflag =>
    refine ⟨fun u hu => ?_, fun v hv => ?_⟩
    · rcases List.mem_append.mp hu with hu | hu
      · exact h.nodup u hu
      · rw [List.mem_singleton.mp hu]
        show [Vdd.vdd1, .vdd2, .vdd3, .vdd4].Nodup
        decide
    · -- the caller to come is on the side that the flag leaves
      have heven := h.even v hv
      have hall : v ∈ [Vdd.vdd1, .vdd2, .vdd3, .vdd4] := by cases v <;> simp
      cases hon : b.noUwbHal || c.on <;> cases hset : r.s.regulatorsEnabled <;>
        simp [hon, hset, hall] at hflag heven ⊢ <;> omega
  | back before after c on heq =>
    refine ⟨fun u hu => h.nodup u ?_, fun v hv => ?_⟩
    · rw [heq]
      simp at hu ⊢
      tauto
    · simpa [heq] using h.even v hv
  | one before after c on w rest heq =>
    have hnodup : (w :: rest).Nodup := h.nodup ⟨c, on, w :: rest⟩ (by simp [heq])
    refine ⟨fun u hu => ?_, fun v hv => ?_⟩
    · rcases List.mem_append.mp hu with hu | hu
      · exact h.nodup u (by simp [heq, hu])
      · rcases List.mem_cons.mp hu with rfl | hu
        · exact (List.nodup_cons.mp hnodup).2
        · exact h.nodup u (by simp [heq, hu])
    · -- what was due at the caller has been made
      have heven := h.even v hv
      rw [made_setOne hv, made_setOne hv, setOne_flag]
      by_cases hw : w = v
      · have hgone : v ∉ rest := hw ▸ (List.nodup_cons.mp hnodup).1
        cases on <;> simp [heq, hw, hgone] at heven ⊢ <;> omega
      · have hw' : ¬v = w := fun heq => hw heq.symm
        simp [heq, hw, hw'] at heven ⊢
        omega

theorem Proper.step (h : Proper b r) (hs : raceStep b r a = some r') : Proper b r' := by
  cases raceStep_raced hs with
  | same => exact h
  | switch c _ =>
    refine ⟨h.calls, fun u hu huwb => ?_⟩
    rcases List.mem_append.mp hu with hu | hu
    · exact h.under u hu huwb
    · rw [List.mem_singleton.mp hu]
      simp [huwb]
  | back before after c on heq =>
    refine ⟨h.calls, fun u hu => h.under u ?_⟩
    rw [heq]
    simp at hu ⊢
    tauto
  | one before after c on w rest heq =>
    have hon := h.under ⟨c, on, w :: rest⟩ (by simp [heq])
    refine ⟨fun d hd => ?_, fun u hu => ?_⟩
    · unfold qm35RegulatorSetOne at hd
      split at hd
      · next hpresent =>
        rcases List.mem_append.mp hd with hd | hd
        · exact h.calls d hd
        · rw [List.mem_singleton.mp hd]
          exact ⟨hpresent, hon⟩
      · exact h.calls d hd
    · rcases List.mem_append.mp hu with hu | hu
      · exact h.under u (by simp [heq, hu])
      · rcases List.mem_cons.mp hu with rfl | hu
        · exact hon
        · exact h.under u (by simp [heq, hu])

end Steps

/-! What the kernel counts. -/

theorem Counted.snoc {v : Vdd} {calls : List Call} {c : Call} (h : Counted v (calls ++ [c])) : Counted v calls :=
  fun before after heq => h before (after ++ [c]) (by simp [heq])

/-- Where the disables that succeed find the regulator held, it is held once for each enable that has succeeded
and no disable has undone. -/
theorem Counted.held {v : Vdd} {calls : List Call} (h : Counted v calls) :
    held v calls + made v false calls + failed v true calls = made v true calls + failed v false calls := by
  induction calls using List.reverseRecOn with
  | nil => rfl
  | append_singleton calls c ih =>
    have hcalls := ih h.snoc
    obtain ⟨reg, on, ret⟩ := c
    rw [held_append, List.foldl_cons, List.foldl_nil, Call.holds]
    by_cases hv : reg = v ∧ ret = 0
    · obtain ⟨rfl, rfl⟩ := hv
      cases on with
      | true =>
        simp
        omega
      | false =>
        -- the one place where the count goes down
        have hpos := h calls [] rfl
        simp
        omega
    · rw [if_neg hv]
      by_cases hreg : reg = v
      · have hret : ret ≠ 0 := fun h => hv ⟨hreg, h⟩
        cases on <;> simp [hreg, hret] <;> omega
      · simp [hreg]
        omega

/-! Callers one after the other. -/

/-- What is left of a call is done at once. -/
def finish (b : Board) (u : Under) (s : State) : State :=
  u.rest.foldl (fun s v => qm35RegulatorSetOne b v u.on (u.c.ret v) s) s

/-- At most one call is under way, and with what is left of it the calls have done what they do one after the
other. -/
structure Serial (b : Board) (r : Races) (cs : List Setting) : Prop where
  short : r.under.length ≤ 1
  run : Lts.run (setStep b) regulatorsSetup cs = some (r.under.foldl (fun s u => finish b u s) r.s)

section Serial
variable {b : Board} {r r' : Races} {a : RaceAct} {cs : List Setting}

/-- A call that exchanges the flag and then goes on to its end is `qm35_regulators_set`. -/
theorem exchange_finish (c : Setting) (s : State) :
    (exchange b c ⟨s, []⟩).under.foldl (fun s u => finish b u s) (exchange b c ⟨s, []⟩).s =
      qm35RegulatorsSet b c s := by
  unfold exchange qm35RegulatorsSet
  dsimp only
  split <;> rfl

/-- A single call under way. -/
theorem only {α : Type} {x : α} {l before after : List α} (hl : l.length ≤ 1) (h : l = before ++ x :: after) :
    before = [] ∧ after = [] := by
  subst h
  simp at hl
  constructor <;> apply List.eq_nil_of_length_eq_zero <;> omega

theorem Serial.set (h : Serial b r cs) (hnone : r.under = []) (c : Setting) :
    Serial b (exchange b c r) (cs ++ [c]) := by
  obtain ⟨s, under⟩ := r
  obtain rfl : under = [] := hnone
  refine ⟨?_, ?_⟩
  · unfold exchange
    dsimp only
    split <;> simp
  · rw [exchange_finish]
    exact Lts.run_snoc h.run rfl

theorem Serial.next (h : Serial b r cs) {k : Nat} (hs : raceStep b r (.next k) = some r') : Serial b r' cs := by
  have hrun := h.run
  cases raceStep_raced hs with
  | back before after c on heq =>
    obtain ⟨rfl, rfl⟩ := only h.short heq
    rw [heq] at hrun
    exact ⟨by simp, hrun⟩
  | one before after c on v rest heq =>
    obtain ⟨rfl, rfl⟩ := only h.short heq
    rw [heq] at hrun
    exact ⟨by simp, hrun⟩

theorem Serial.steps {as : List RaceAct} (h : Serial b r cs) (hm : Lts.Meets (raceStep b) Alone r as)
    (hr : Lts.run (raceStep b) r as = some r') : Serial b r' (cs ++ settings as) := by
  induction as generalizing r cs with
  | nil =>
    cases hr
    simpa [settings] using h
  | cons a as ih =>
    obtain ⟨r1, h1, h2⟩ := Lts.run_cons_some.mp hr
    cases a with
    | set c =>
      cases h1
      simpa [settings] using ih (h.set hm.1 c) (hm.2 _ rfl) h2
    | next k => exact ih (h.next h1) (hm.2 r1 h1) h2

end Serial

/-- Whatever the order in which callers exchange the flag and come to the regulators, only the regulators there
are have been called, and under `NO_UWB_HAL` only to enable them. When all callers have returned, each regulator
has been enabled as often as disabled, and once more if the flag is set. So where the kernel counts, it is held
once if the flag is set, once more for each disable that has failed and once less for each enable that has. If no
two calls overlap, the calls have done what they do one after the other. -/
theorem regulators_settle {b : Board} {as : List RaceAct} {r : Races}
    (hr : Lts.run (raceStep b) racesSetup as = some r) :
    (∀ c ∈ r.s.calls, present b c.reg = true ∧ (b.noUwbHal = true → c.on = true)) ∧
      (∀ v, present b v = true → r.under = [] →
        made v true r.s.calls = made v false r.s.calls + r.s.regulatorsEnabled.toNat ∧
          (Counted v r.s.calls → held v r.s.calls + failed v true r.s.calls =
            failed v false r.s.calls + r.s.regulatorsEnabled.toNat)) ∧
      (Lts.Meets (raceStep b) Alone racesSetup as → r.under = [] →
        Lts.run (setStep b) regulatorsSetup (settings as) = some r.s) := by
  have heven : Even b r := Lts.run_preserves (fun _ _ _ h hs => h.step hs) ⟨by simp [racesSetup], fun v _ => by rfl⟩ hr
  have hproper : Proper b r :=
    Lts.run_preserves (fun _ _ _ h hs => h.step hs) ⟨by simp [racesSetup, regulatorsSetup], by simp [racesSetup]⟩ hr
  refine ⟨hproper.calls, fun v hv hnone => ?_, fun hm hnone => ?_⟩
  · have hmade := heven.even v hv
    rw [hnone, due_nil, due_nil, Nat.add_zero, Nat.add_zero] at hmade
    refine ⟨hmade, fun hcounted => ?_⟩
    have hheld := hcounted.held
    omega
  · have hserial : Serial b r ([] ++ settings as) := Serial.steps ⟨by simp [racesSetup], rfl⟩ hm hr
    have hrun := hserial.run
    rwa [hnone] at hrun

/-- One regulator. Switching off overtakes switching on: the kernel refuses the disable, and the regulator stays on
while the flag is clear. -/
def overtaken : List RaceAct :=
  [.set ⟨true, fun _ => 0⟩, .set ⟨false, fun _ => -5⟩] ++ List.replicate 5 (.next 1) ++ List.replicate 5 (.next 0)

theorem regulators_settle_overtaken : ∃ r, Lts.run (raceStep ⟨true, false, false, false, 0, false, false⟩) racesSetup
    overtaken = some r ∧ r.under = [] ∧ r.s.regulatorsEnabled = false ∧ held .vdd1 r.s.calls = 1 ∧
      made .vdd1 true r.s.calls = made .vdd1 false r.s.calls := by
  refine ⟨⟨⟨false, [⟨.vdd1, false, -5⟩, ⟨.vdd1, true, 0⟩]⟩, []⟩, rfl, rfl, rfl, by decide, ?_⟩
  have hr : Lts.run (raceStep ⟨true, false, false, false, 0, false, false⟩) racesSetup overtaken =
      some ⟨⟨false, [⟨.vdd1, false, -5⟩, ⟨.vdd1, true, 0⟩]⟩, []⟩ := rfl
  exact ((regulators_settle hr).2.1 .vdd1 rfl rfl).1

end Qm35.Regulators
