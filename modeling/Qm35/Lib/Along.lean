import Qm35.Lib.Lts

/- What can be said along a run. `observed` lists what is seen of the steps, in order;
   `run_recorded` and `run_observed` carry a relation between the state and what has been
   done or seen so far along a run, and `observed_drives` is the simulation rule: what is
   seen of a run is a run of a second system, if that holds of each step; `observed_refines`
   is the same rule where the second system is a relation, and shows that the run goes
   through. `Nears` is the rule for bounded progress: some of the actions are ticks,
   `W n s` says that the goal is at most `n` ticks away, and no other action takes it
   further away. Whatever the order of the actions, `n` ticks then reach the goal
   (`Nears.reaches`). -/
namespace Lts

variable {σ α ο τ : Type} {step : σ → α → Option σ}

/-- What is seen of a run, where `obs s a` is seen of the action `a` taken in `s`. -/
def observed (step : σ → α → Option σ) (obs : σ → α → List ο) : σ → List α → List ο
  | _, [] => []
  | s, a :: as =>
    match step s a with
    | none => []
    | some s' => obs s a ++ observed step obs s' as

section Observed
variable {obs : σ → α → List ο} {s s' t : σ} {a : α} {as : List α}

@[simp] theorem observed_nil : observed step obs s [] = [] := rfl

theorem observed_cons (h : step s a = some s') :
    observed step obs s (a :: as) = obs s a ++ observed step obs s' as := by
  simp [observed, h]

/-- What every step preserves of the state, of the actions and of what has been seen of them, every run does. -/
theorem run_recorded {I : σ → List α → List ο → Prop}
    (hstep : ∀ s a s' done os, I s done os → step s a = some s' → I s' (done ++ [a]) (os ++ obs s a))
    (hs : I s [] []) (hr : run step s as = some t) : I t as (observed step obs s as) := by
  have hgen : ∀ as done os u, I u done os → run step u as = some t →
      I t (done ++ as) (os ++ observed step obs u as) := by
    intro as
    induction as with
    | nil =>
      intro done os u hu hr
      cases hr
      simpa using hu
    | cons a as ih =>
      intro done os u hu hr
      obtain ⟨u', h1, h2⟩ := run_cons_some.mp hr
      have hall := ih _ _ u' (hstep u a u' done os hu h1) h2
      rwa [List.append_assoc, List.append_assoc, ← observed_cons h1] at hall
  exact hgen as [] [] s hs hr

/-- What every step preserves of the state and of what has been seen, every run does. -/
theorem run_observed {I : σ → List ο → Prop} (hstep : ∀ s a s' os, I s os → step s a = some s' → I s' (os ++ obs s a))
    (hs : I s []) (hr : run step s as = some t) : I t (observed step obs s as) :=
  run_recorded (I := fun u _ os => I u os) (fun s a s' _ os => hstep s a s' os) hs hr

/-- Where what is seen of each step takes a second system from `f s` to `f s'`, what is seen of a run takes it
along. -/
theorem observed_drives {step' : τ → ο → Option τ} {f : σ → τ}
    (hstep : ∀ s a s', step s a = some s' → run step' (f s) (obs s a) = some (f s')) (hr : run step s as = some t) :
    run step' (f s) (observed step obs s as) = some (f t) := by
  refine run_observed (I := fun u os => run step' (f s) os = some (f u)) ?_ rfl hr
  intro u a u' os hos h
  rw [run_append, hos, Option.bind_some, hstep u a u' h]

end Observed

/-- The labels `os` take a specification, a relation between states with a label, from `u` to `v`. -/
inductive Path (spec : τ → ο → τ → Prop) : τ → List ο → τ → Prop
  | nil (u : τ) : Path spec u [] u
  | cons {u v w : τ} {o : ο} {os : List ο} : spec u o v → Path spec v os w → Path spec u (o :: os) w

/-- Where each step the condition admits is possible and is, as seen, a step of the specification, a run of them is
possible and is a path of it. -/
theorem observed_refines {C : σ → α → Prop} {R : σ → τ → Prop} {spec : τ → ο → τ → Prop} {obs : σ → α → ο}
    (hstep : ∀ s u a, R s u → C s a → ∃ s' u', step s a = some s' ∧ spec u (obs s a) u' ∧ R s' u')
    {s : σ} {u : τ} {as : List α} (hR : R s u) (hm : Meets step C s as) :
    ∃ t v, run step s as = some t ∧ Path spec u (observed step (fun s a => [obs s a]) s as) v ∧ R t v := by
  induction as generalizing s u with
  | nil => exact ⟨s, u, rfl, .nil u, hR⟩
  | cons a as ih =>
    obtain ⟨s', u', h1, hspec, hR'⟩ := hstep s u a hR hm.1
    obtain ⟨t, v, h2, hpath, ht⟩ := ih hR' (hm.2 s' h1)
    refine ⟨t, v, run_cons_some.mpr ⟨s', h1, h2⟩, ?_, ht⟩
    rw [observed_cons h1]
    exact .cons hspec hpath

/-- What a step of the specification does to a measure of its states, a path does. -/
theorem Path.preserves {spec : τ → ο → τ → Prop} {I : τ → List ο → Prop}
    (hstep : ∀ u os o v, I u os → spec u o v → I v (os ++ [o])) {u v : τ} {os os' : List ο} (hu : I u os)
    (hp : Path spec u os' v) : I v (os ++ os') := by
  induction hp generalizing os with
  | nil u => simpa using hu
  | @cons u w v o os' hspec _ ih =>
    have hnext := ih (hstep u os o w hu hspec)
    rwa [List.append_assoc] at hnext

/-- No action takes the goal further away, and each tick brings it nearer. -/
structure Nears (step : σ → α → Option σ) (tick : α → Bool) (W : Nat → σ → Prop) (goal : σ → Prop) : Prop where
  stays : ∀ s a s', goal s → step s a = some s' → goal s'
  zero : ∀ s, W 0 s → goal s
  other : ∀ n s a s', W n s → tick a = false → step s a = some s' → goal s' ∨ W n s'
  tick : ∀ n s a s', W (n + 1) s → tick a = true → step s a = some s' → goal s' ∨ W n s'

/-- Whatever else happens, as many ticks as the goal is away reach it. -/
theorem Nears.reaches {tick : α → Bool} {W : Nat → σ → Prop} {goal : σ → Prop} (N : Nears step tick W goal) {n : Nat}
    {s t : σ} {as : List α} (hw : goal s ∨ W n s) (hr : run step s as = some t) (hn : n ≤ as.countP tick) : goal t := by
  induction as generalizing n s with
  | nil =>
    cases hr
    have hzero : n = 0 := by simpa using hn
    subst hzero
    exact hw.elim id (N.zero t)
  | cons a as ih =>
    obtain ⟨s', h1, h2⟩ := run_cons_some.mp hr
    rcases hw with hgoal | hw
    · exact run_preserves N.stays (N.stays s a s' hgoal h1) h2
    · cases ht : tick a with
      | false =>
        refine ih (N.other n s a s' hw ht h1) h2 ?_
        simpa [List.countP_cons, ht] using hn
      | true =>
        cases n with
        | zero => exact run_preserves N.stays (N.stays s a s' (N.zero s hw) h1) h2
        | succ n =>
          refine ih (N.tick n s a s' hw ht h1) h2 ?_
          simpa [List.countP_cons, ht] using hn

end Lts
