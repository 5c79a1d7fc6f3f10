import Mathlib.Tactic

/- Labelled transition systems given by a partial step function. `step s a` is the
   state after action `a`, or `none` where `a` cannot be taken in `s`. `run` takes
   a list of actions in order; `Meets C s as` says that every step of that run is
   taken in a state where the condition `C` allows it. The two rules carry an
   invariant along a run: `run_invariant` for runs that succeed, `run_total` where
   every allowed step succeeds as well. `run_projects` reads a run of a larger system as
   one of a part of it, and `run_beside` takes two systems along the same actions.
   `meets_iff` is the rule for a condition that a step meets exactly if it keeps the
   invariant, `meets_iff_of_preserves` that rule under an invariant that every step
   keeps, and `meets_iff_of_run` the one for runs that succeed. -/
namespace Lts

variable {σ α : Type} (step : σ → α → Option σ)

/-- The state after the actions, taken in order. -/
def run : σ → List α → Option σ
  | s, [] => some s
  | s, a :: as => (step s a).bind fun s' => run s' as

/-- Every step of the run from `s` is allowed by `C` in the state it is taken in. -/
def Meets (C : σ → α → Prop) : σ → List α → Prop
  | _, [] => True
  | s, a :: as => C s a ∧ ∀ s', step s a = some s' → Meets C s' as

variable {step}

@[simp] theorem run_nil (s : σ) : run step s [] = some s := rfl

theorem run_cons {s : σ} {a : α} {as : List α} :
    run step s (a :: as) = (step s a).bind fun s' => run step s' as := rfl

theorem run_cons_some {s t : σ} {a : α} {as : List α} :
    run step s (a :: as) = some t ↔ ∃ s', step s a = some s' ∧ run step s' as = some t := by
  simp [run_cons, Option.bind_eq_some_iff]

theorem run_append {s : σ} {as bs : List α} :
    run step s (as ++ bs) = (run step s as).bind fun s' => run step s' bs := by
  induction as generalizing s with
  | nil => rfl
  | cons a as ih =>
    rw [List.cons_append, run_cons, run_cons, Option.bind_assoc]
    congr 1
    funext s'
    exact ih

/-- One more step at the end of a run. -/
theorem run_snoc {s t t' : σ} {as : List α} {a : α} (hr : run step s as = some t) (hs : step t a = some t') :
    run step s (as ++ [a]) = some t' := by
  rw [run_append, hr]
  exact run_cons_some.mpr ⟨t', hs, rfl⟩

theorem Meets.mono {C D : σ → α → Prop} (h : ∀ s a, C s a → D s a) {s : σ} {as : List α}
    (hm : Meets step C s as) : Meets step D s as := by
  induction as generalizing s with
  | nil => trivial
  | cons a as ih => exact ⟨h s a hm.1, fun s' hs => ih (hm.2 s' hs)⟩

/-- An allowed step, and an allowed run from the state it leads to. -/
theorem Meets.cons {C : σ → α → Prop} {s s' : σ} {a : α} {as : List α} (hs : step s a = some s') (hc : C s a)
    (hm : Meets step C s' as) : Meets step C s (a :: as) := by
  refine ⟨hc, fun t ht => ?_⟩
  rw [hs] at ht
  cases ht
  exact hm

/-- An allowed run, and one from where it ends. -/
theorem Meets.append {C : σ → α → Prop} {s t : σ} {as bs : List α} (hr : run step s as = some t)
    (has : Meets step C s as) (hbs : Meets step C t bs) : Meets step C s (as ++ bs) := by
  induction as generalizing s with
  | nil =>
    cases hr
    exact hbs
  | cons a as ih =>
    obtain ⟨s', h1, h2⟩ := run_cons_some.mp hr
    exact .cons h1 has.1 (ih h2 (has.2 s' h1))

/-- Whether a given run is allowed can be computed. -/
instance Meets.decidable {C : σ → α → Prop} [∀ s a, Decidable (C s a)] :
    (s : σ) → (as : List α) → Decidable (Meets step C s as)
  | _, [] => .isTrue trivial
  | s, a :: as =>
    match h : step s a with
    | none => decidable_of_iff (C s a) ⟨fun hc => ⟨hc, fun s' hs => by rw [h] at hs; cases hs⟩, And.left⟩
    | some s' =>
      have : Decidable (Meets step C s' as) := Meets.decidable s' as
      decidable_of_iff (C s a ∧ Meets step C s' as)
        ⟨fun hm => Meets.cons h hm.1 hm.2, fun hm => ⟨hm.1, hm.2 s' h⟩⟩

/-- A condition on the actions alone. -/
theorem Meets.of_mem {C : σ → α → Prop} {s : σ} {as : List α} (h : ∀ a ∈ as, ∀ s, C s a) : Meets step C s as := by
  induction as generalizing s with
  | nil => trivial
  | cons a as ih =>
    exact ⟨h a List.mem_cons_self s, fun _ _ => ih fun b hb => h b (List.mem_cons_of_mem _ hb)⟩

/-- A condition that always holds allows every run. -/
theorem Meets.of_forall {C : σ → α → Prop} (h : ∀ s a, C s a) {s : σ} {as : List α} : Meets step C s as :=
  .of_mem fun a _ s => h s a

/-- What every allowed step preserves, every allowed run preserves. -/
theorem run_invariant {C : σ → α → Prop} {I : σ → Prop}
    (hstep : ∀ s a s', I s → C s a → step s a = some s' → I s')
    {s t : σ} {as : List α} (hs : I s) (hm : Meets step C s as) (hr : run step s as = some t) :
    I t := by
  induction as generalizing s with
  | nil =>
    cases hr
    exact hs
  | cons a as ih =>
    obtain ⟨s', h1, h2⟩ := run_cons_some.mp hr
    exact ih (hstep s a s' hs hm.1 h1) (hm.2 s' h1) h2

/-- What every step preserves holds after every run. -/
theorem run_preserves {I : σ → Prop} (hstep : ∀ s a s', I s → step s a = some s' → I s')
    {s t : σ} {as : List α} (hs : I s) (hr : run step s as = some t) : I t :=
  run_invariant (fun s a s' h (_ : True) => hstep s a s' h) hs (Meets.of_forall fun _ _ => trivial) hr

/-- A system whose steps, seen through `f`, are steps of another one or do nothing there: so are its runs. -/
theorem run_projects {τ β : Type} {step' : τ → β → Option τ} {f : σ → τ}
    (hstep : ∀ s a s', step s a = some s' → f s' = f s ∨ ∃ b, step' (f s) b = some (f s')) {s t : σ} {as : List α}
    (hr : run step s as = some t) : ∃ bs, run step' (f s) bs = some (f t) := by
  refine run_preserves (I := fun u => ∃ bs, run step' (f s) bs = some (f u)) ?_ ⟨[], rfl⟩ hr
  rintro u a u' ⟨bs, hbs⟩ hs
  rcases hstep u a u' hs with heq | ⟨b, hb⟩
  · exact ⟨bs, hbs.trans (congrArg some heq.symm)⟩
  · exact ⟨bs ++ [b], run_snoc hbs hb⟩

/-- Where a step is allowed exactly if it keeps `I`, a run is allowed exactly if every state it goes
through has `I`. -/
theorem meets_iff {C : σ → α → Prop} {I : σ → Prop}
    (hstep : ∀ s a, I s → (C s a ↔ ∀ s', step s a = some s' → I s')) {s : σ} {as : List α} (hs : I s) :
    Meets step C s as ↔ ∀ bs t, bs <+: as → run step s bs = some t → I t := by
  induction as generalizing s with
  | nil =>
    refine ⟨fun _ bs t hbs hr => ?_, fun _ => trivial⟩
    cases List.prefix_nil.mp hbs
    cases hr
    exact hs
  | cons a as ih =>
    constructor
    · intro hm bs t hbs hr
      cases bs with
      | nil =>
        cases hr
        exact hs
      | cons b bs =>
        obtain ⟨heq, htail⟩ := List.cons_prefix_cons.mp hbs
        subst heq
        obtain ⟨s', h1, h2⟩ := run_cons_some.mp hr
        exact (ih ((hstep s b hs).mp hm.1 s' h1)).mp (hm.2 s' h1) bs t htail h2
    · intro h
      have hone : ∀ s', step s a = some s' → I s' := fun s' h1 =>
        h [a] s' (List.cons_prefix_cons.mpr ⟨rfl, List.nil_prefix⟩) (run_cons_some.mpr ⟨s', h1, rfl⟩)
      refine ⟨(hstep s a hs).mpr hone, fun s' h1 => (ih (hone s' h1)).mpr fun bs t hbs hr => ?_⟩
      exact h (a :: bs) t (List.cons_prefix_cons.mpr ⟨rfl, hbs⟩) (run_cons_some.mpr ⟨s', h1, hr⟩)

/-- The same, where `J` holds of every state anyway. -/
theorem meets_iff_of_preserves {C : σ → α → Prop} {I J : σ → Prop}
    (hpres : ∀ s a s', J s → step s a = some s' → J s')
    (hstep : ∀ s a, J s → I s → (C s a ↔ ∀ s', step s a = some s' → I s')) {s : σ} (hj : J s) (hs : I s)
    (as : List α) : Meets step C s as ↔ ∀ bs t, bs <+: as → run step s bs = some t → I t := by
  have hboth : ∀ s a, J s ∧ I s → (C s a ↔ ∀ s', step s a = some s' → J s' ∧ I s') := by
    rintro s a ⟨hj, hi⟩
    rw [hstep s a hj hi]
    exact ⟨fun h s' h1 => ⟨hpres s a s' hj h1, h s' h1⟩, fun h s' h1 => (h s' h1).2⟩
  rw [meets_iff hboth ⟨hj, hs⟩]
  exact ⟨fun h bs t hbs hr => (h bs t hbs hr).2,
    fun h bs t hbs hr => ⟨run_preserves hpres hj hr, h bs t hbs hr⟩⟩

/-- The rule for runs that succeed, where only the steps that succeed need to be looked at. -/
theorem meets_iff_of_run {C : σ → α → Prop} {I : σ → Prop}
    (hstep : ∀ s a s', I s → step s a = some s' → (C s a ↔ I s')) {s t : σ} {as : List α} (hs : I s)
    (hr : run step s as = some t) : Meets step C s as ↔ ∀ bs u, bs <+: as → run step s bs = some u → I u := by
  induction as generalizing s with
  | nil =>
    refine ⟨fun _ bs u hbs hu => ?_, fun _ => trivial⟩
    cases List.prefix_nil.mp hbs
    cases hu
    exact hs
  | cons a as ih =>
    obtain ⟨s', h1, h2⟩ := run_cons_some.mp hr
    constructor
    · intro hm bs u hbs hu
      cases bs with
      | nil =>
        cases hu
        exact hs
      | cons b bs =>
        obtain ⟨heq, htail⟩ := List.cons_prefix_cons.mp hbs
        subst heq
        rw [run_cons, h1] at hu
        exact (ih ((hstep s b s' hs h1).mp hm.1) h2).mp (hm.2 s' h1) bs u htail hu
    · intro h
      have hone : I s' := h [a] s' (List.cons_prefix_cons.mpr ⟨rfl, List.nil_prefix⟩) (run_cons_some.mpr ⟨s', h1, rfl⟩)
      refine .cons h1 ((hstep s a s' hs h1).mpr hone) ((ih hone h2).mpr fun bs u hbs hu => ?_)
      exact h (a :: bs) u (List.cons_prefix_cons.mpr ⟨rfl, hbs⟩) (run_cons_some.mpr ⟨s', h1, hu⟩)

/-- Where every allowed step succeeds and preserves `I`, every allowed run does. -/
theorem run_total {C : σ → α → Prop} {I : σ → Prop}
    (hstep : ∀ s a, I s → C s a → ∃ s', step s a = some s' ∧ I s')
    {s : σ} {as : List α} (hs : I s) (hm : Meets step C s as) :
    ∃ t, run step s as = some t ∧ I t := by
  induction as generalizing s with
  | nil => exact ⟨s, rfl, hs⟩
  | cons a as ih =>
    obtain ⟨s', h1, hs'⟩ := hstep s a hs hm.1
    obtain ⟨t, ht, hI⟩ := ih hs' (hm.2 s' h1)
    exact ⟨t, run_cons_some.mpr ⟨s', h1, ht⟩, hI⟩

/-- Two systems that take the same actions: where every action that `C` admits succeeds in both and
preserves `R`, every run of such actions does. -/
theorem run_beside {τ : Type} {step' : τ → α → Option τ} {R : σ → τ → Prop} {C : α → Prop}
    (hstep : ∀ s t a, R s t → C a → ∃ s' t', step s a = some s' ∧ step' t a = some t' ∧ R s' t')
    {s : σ} {t : τ} {as : List α} (hr : R s t) (has : ∀ a ∈ as, C a) :
    ∃ s' t', run step s as = some s' ∧ run step' t as = some t' ∧ R s' t' := by
  induction as generalizing s t with
  | nil => exact ⟨s, t, rfl, rfl, hr⟩
  | cons a as ih =>
    obtain ⟨s1, t1, hs1, ht1, hr1⟩ := hstep s t a hr (has a List.mem_cons_self)
    obtain ⟨s', t', hs', ht', hr'⟩ := ih hr1 fun b hb => has b (List.mem_cons_of_mem _ hb)
    exact ⟨s', t', run_cons_some.mpr ⟨s1, hs1, hs'⟩, run_cons_some.mpr ⟨t1, ht1, ht'⟩, hr'⟩

end Lts
