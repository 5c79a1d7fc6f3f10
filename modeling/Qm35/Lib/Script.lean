import Qm35.Lib.Trace

/- Programs that keep to a script, a list of observations fixed beforehand. `Keeps obs s x`
   says that `x` adds a beginning of the script `s` wherever it returns, with whatever
   result; `Follows obs s x` that it has also come to the end of it where it returns 0,
   and `Delivers` is the same for a result of another type. Along `okThen` the scripts
   are appended, since after an error nothing more is added. `cut n data` is the data in
   pieces of `n`, the last one shorter. -/
namespace Trace

variable {σ ο α β : Type} {obs : σ → List ο} {s t : List ο}

/-- Where `x` returns, it has added a beginning of `s`. -/
def Keeps (obs : σ → List ο) (s : List ο) (x : StateT σ Option α) : Prop :=
  Says obs (fun _ => True) x fun _ _ os => os <+: s

/-- Where `x` returns, it has added `s`. -/
def Adds (obs : σ → List ο) (s : List ο) (x : StateT σ Option α) : Prop :=
  Says obs (fun _ => True) x fun _ _ os => os = s

/-- A beginning of `s`, and all of it where the result is 0. -/
def Follows (obs : σ → List ο) (s : List ο) (x : StateT σ Option Int) : Prop :=
  Says obs (fun _ => True) x fun rc _ os => os <+: s ∧ (rc = 0 → os = s)

/-- A beginning of `s`, and all of it where there is a value. -/
def Delivers (obs : σ → List ο) (s : List ο) (x : StateT σ Option (Except Int α)) : Prop :=
  Says obs (fun _ => True) x fun r _ os => os <+: s ∧ ∀ a, r = .ok a → os = s

namespace Keeps

variable {x : StateT σ Option α}

theorem mono (h : Keeps obs s x) (hst : s <+: t) : Keeps obs t x :=
  Says.mono h (fun _ => id) fun _ _ _ hos => hos.trans hst

theorem pure' (a : α) : Keeps obs s (pure a : StateT σ Option α) := Says.pure' fun _ _ => List.nil_prefix

theorem silent {f : α → StateT σ Option β} (hx : Silent obs x) (hf : ∀ a, Keeps obs s (f a)) :
    Keeps obs s (x >>= f) :=
  hx.followed hf

theorem ite' {c : Prop} [Decidable c] {y : StateT σ Option α} (hx : c → Keeps obs s x) (hy : ¬c → Keeps obs s y) :
    Keeps obs s (if c then x else y) :=
  Says.ite' hx hy

/-- What is done in silence after it does not matter. -/
theorem andThen {f : α → StateT σ Option β} (hx : Keeps obs s x) (hf : ∀ a, Silent obs (f a)) :
    Keeps obs s (x >>= f) := by
  refine Says.bind hx fun a os => ?_
  intro u b u' hos hrun
  obtain ⟨os', hos', rfl⟩ := hf a u b u' trivial hrun
  exact ⟨[], hos', by simpa using hos⟩

end Keeps

/-- After what is added in any case the script goes on. -/
theorem Adds.keeps {x : StateT σ Option α} {f : α → StateT σ Option β} (hx : Adds obs s x)
    (hf : ∀ a, Keeps obs t (f a)) : Keeps obs (s ++ t) (x >>= f) := by
  refine Says.bind hx fun a os => ?_
  intro u b u' hos hrun
  obtain ⟨os', hos', hkeep⟩ := hf a u b u' trivial hrun
  refine ⟨os', hos', ?_⟩
  rw [hos]
  exact (List.prefix_append_right_inj s).mpr hkeep

theorem Adds.andThen {x : StateT σ Option α} {f : α → StateT σ Option β} (hx : Adds obs s x)
    (hf : ∀ a, Silent obs (f a)) : Adds obs s (x >>= f) := by
  refine Says.bind hx fun a os => ?_
  intro u b u' hos hrun
  obtain ⟨os', hos', rfl⟩ := hf a u b u' trivial hrun
  exact ⟨[], hos', by simpa using hos⟩

namespace Follows

variable {x y : StateT σ Option Int}

theorem keeps (h : Follows obs s x) : Keeps obs s x := Says.mono h (fun _ => id) fun _ _ _ hos => hos.1

theorem ok : Follows obs [] (pure 0 : StateT σ Option Int) :=
  Says.pure' fun _ _ => ⟨List.nil_prefix, fun _ => rfl⟩

theorem error {rc : Int} (h : rc ≠ 0) : Follows obs s (pure rc : StateT σ Option Int) :=
  Says.pure' fun _ _ => ⟨List.nil_prefix, fun h0 => absurd h0 h⟩

theorem silent {z : StateT σ Option α} {f : α → StateT σ Option Int} (hz : Silent obs z)
    (hf : ∀ a, Follows obs s (f a)) : Follows obs s (z >>= f) :=
  hz.followed hf

theorem ite' {c : Prop} [Decidable c] (hx : c → Follows obs s x) (hy : ¬c → Follows obs s y) :
    Follows obs s (if c then x else y) :=
  Says.ite' hx hy

/-- After an error nothing more is added; after 0 the script goes on. -/
theorem okThen (hx : Follows obs s x) (hy : Follows obs t y) : Follows obs (s ++ t) (okThen x y) := by
  intro u rc u' _ hrun
  rcases okThen_some.mp hrun with ⟨hrc, h1⟩ | ⟨u1, h1, h2⟩
  · obtain ⟨os, hos, hkeep, _⟩ := hx u rc u' trivial h1
    exact ⟨os, hos, hkeep.trans (List.prefix_append s t), fun h0 => absurd h0 hrc⟩
  · obtain ⟨os, hos, _, hall⟩ := hx u 0 u1 trivial h1
    obtain ⟨os', hos', hkeep, hall'⟩ := hy u1 rc u' trivial h2
    refine ⟨s ++ os', ?_, (List.prefix_append_right_inj s).mpr hkeep, fun h0 => congrArg (s ++ ·) (hall' h0)⟩
    rw [hos', hos, hall rfl, List.append_assoc]

/-- After a silent test nothing has been added. -/
theorem silent_okThen (hx : Silent obs x) (hy : Follows obs t y) : Follows obs t (Trace.okThen x y) := by
  have hnil : Follows obs [] x := Says.mono hx (fun _ => id) fun _ _ os hos =>
    ⟨hos ▸ List.nil_prefix, fun _ => hos⟩
  exact hnil.okThen hy

/-- The script goes on after 0, where nothing more is added after an error. -/
theorem goesOn {f : Int → StateT σ Option β} (hx : Follows obs s x) (herror : ∀ rc, rc ≠ 0 → Silent obs (f rc))
    (hok : Keeps obs t (f 0)) : Keeps obs (s ++ t) (x >>= f) := by
  refine Says.bind hx fun rc os => ?_
  intro u b u' hos hrun
  by_cases hrc : rc = 0
  · subst hrc
    obtain ⟨os', hos', hkeep⟩ := hok u b u' trivial hrun
    rw [hos.2 rfl]
    exact ⟨os', hos', (List.prefix_append_right_inj s).mpr hkeep⟩
  · obtain ⟨os', hos', rfl⟩ := herror rc hrc u b u' trivial hrun
    exact ⟨[], hos', by simpa using hos.1.trans (List.prefix_append s t)⟩

theorem thenKeeps (hx : Follows obs s x) (hy : Keeps obs t y) : Keeps obs (s ++ t) (Trace.okThen x y) :=
  hx.goesOn (fun rc hrc => by rw [if_pos hrc]; exact Silent.pure' rc) hy

/-- A silent test that fails is followed by nothing. -/
theorem never (hx : Says obs (fun _ => True) x fun rc _ os => os = [] ∧ rc ≠ 0) : Follows obs s (Trace.okThen x y) := by
  intro u rc u' _ hrun
  rcases okThen_some.mp hrun with ⟨hrc, h1⟩ | ⟨u1, h1, _⟩
  · obtain ⟨os, hos, rfl, _⟩ := hx u rc u' trivial h1
    exact ⟨[], hos, List.nil_prefix, fun h0 => absurd h0 hrc⟩
  · obtain ⟨_, _, _, hne⟩ := hx u 0 u1 trivial h1
    exact absurd rfl hne

/-- What is done in silence before the result is returned does not matter. -/
theorem andThen {z : StateT σ Option β} (hx : Follows obs s x) (hz : Silent obs z) :
    Follows obs s (do let rc ← x; let _ ← z; pure rc) := by
  refine Says.bind hx fun rc os => ?_
  intro u rc' u' hos hrun
  obtain ⟨_, u1, h1, h2⟩ := bind_some.mp hrun
  obtain ⟨rfl, rfl⟩ := pure_some.mp h2
  obtain ⟨os', hos', rfl⟩ := hz u _ u1 trivial h1
  exact ⟨[], hos', by simpa using hos⟩

end Follows

namespace Delivers

variable {x : StateT σ Option Int} {k : StateT σ Option (Except Int α)}

theorem ok (a : α) : Delivers obs [] (pure (.ok a) : StateT σ Option (Except Int α)) :=
  Says.pure' fun _ _ => ⟨List.nil_prefix, fun _ _ => rfl⟩

theorem silent {z : StateT σ Option β} {f : β → StateT σ Option (Except Int α)} (hz : Silent obs z)
    (hf : ∀ b, Delivers obs s (f b)) : Delivers obs s (z >>= f) :=
  hz.followed hf

theorem okElse (hx : Follows obs s x) (hk : Delivers obs t k) : Delivers obs (s ++ t) (okElse x k) := by
  refine Says.bind hx fun rc os => ?_
  intro u r u' hos hrun
  by_cases hrc : rc = 0
  · rw [if_neg (not_not.mpr hrc)] at hrun
    obtain ⟨os', hos', hkeep, hall⟩ := hk u r u' trivial hrun
    rw [hos.2 hrc]
    exact ⟨os', hos', (List.prefix_append_right_inj s).mpr hkeep, fun a ha => congrArg (s ++ ·) (hall a ha)⟩
  · rw [if_pos hrc] at hrun
    obtain ⟨rfl, rfl⟩ := pure_some.mp hrun
    refine ⟨[], (List.append_nil _).symm, ?_, fun a h => nomatch h⟩
    rw [List.append_nil]
    exact hos.1.trans (List.prefix_append s t)

theorem silent_okElse (hx : Silent obs x) (hk : Delivers obs t k) : Delivers obs t (Trace.okElse x k) := by
  have hnil : Follows obs [] x := Says.mono hx (fun _ => id) fun _ _ os hos =>
    ⟨hos ▸ List.nil_prefix, fun _ => hos⟩
  exact okElse hnil hk

/-- The script goes on with a value, where nothing more is added after an error. -/
theorem goesOn {x : StateT σ Option (Except Int α)} {f : Except Int α → StateT σ Option β} (hx : Delivers obs s x)
    (herror : ∀ rc, Silent obs (f (.error rc))) (hok : ∀ a, Keeps obs t (f (.ok a))) : Keeps obs (s ++ t) (x >>= f) := by
  refine Says.bind hx fun r os => ?_
  intro u b u' hos hrun
  cases r with
  | ok a =>
    obtain ⟨os', hos', hkeep⟩ := hok a u b u' trivial hrun
    rw [hos.2 a rfl]
    exact ⟨os', hos', (List.prefix_append_right_inj s).mpr hkeep⟩
  | error rc =>
    obtain ⟨os', hos', rfl⟩ := herror rc u b u' trivial hrun
    exact ⟨[], hos', by simpa using hos.1.trans (List.prefix_append s t)⟩

end Delivers

/-! Data in pieces. -/

/-- The data in pieces of `n`. -/
def cut (n : Nat) (data : List α) : List (List α) :=
  (List.range ((data.length + n - 1) / n)).map fun i => (data.drop (i * n)).take n

theorem cut_nil {n : Nat} (hn : 0 < n) : cut n ([] : List α) = [] := by
  have hzero : (([] : List α).length + n - 1) / n = 0 := by
    rw [List.length_nil, Nat.zero_add]
    exact Nat.div_eq_of_lt (by omega)
  rw [cut, hzero, List.range_zero, List.map_nil]

/-- The first piece, and the rest in pieces. -/
theorem cut_cons {n : Nat} (hn : 0 < n) {data : List α} (hdata : data ≠ []) :
    cut n data = data.take n :: cut n (data.drop n) := by
  have hlen : 0 < data.length := List.length_pos_of_ne_nil hdata
  have hcount : (data.length + n - 1) / n = ((data.drop n).length + n - 1) / n + 1 := by
    rw [List.length_drop, ← Nat.add_div_right _ hn]
    by_cases hle : n ≤ data.length
    · congr 1
      omega
    · rw [show data.length - n = 0 by omega, Nat.zero_add, Nat.div_eq_of_lt_le (k := 1) (by omega) (by omega),
        Nat.div_eq_of_lt_le (k := 1) (by omega) (by omega)]
  rw [cut, cut, hcount, List.range_succ_eq_map, List.map_cons, List.map_map]
  congr 1
  · rw [Nat.zero_mul, List.drop_zero]
  · refine List.map_congr_left fun i _ => ?_
    rw [Function.comp_apply, List.drop_drop, Nat.succ_mul, Nat.add_comm]

end Trace
