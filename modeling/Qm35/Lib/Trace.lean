import Mathlib

/- Programs that leave a trace. A program over a state `σ` may fail (`none`), and what
   it does shows in an observation of the state, a list that only grows. `Says pre x
   post` is partial correctness with respect to the trace: where `x` returns, it has
   added some observations, and `post` holds of its result, of the state after it and
   of what it has added. Programs that return an error code compose by `okThen`, which
   goes on only after 0; `Emits x L` says that what a successful run has added is in
   the language `L`, and along `okThen` the languages are multiplied. `Tracks V I J x`
   is for the parts of a program that add nothing remarkable: it leads from `I` to `J`,
   and changes what `V` views only as the observations tell. `Returns I x J` is total
   correctness: from `I` the program does not fail, and `J` holds after it. The last two
   have the same rules, and `Performs V I J fault x` is both of them at once, for a
   program that fails only where there is a `fault`. -/
namespace Trace

variable {σ ο α β : Type}

/-- A program that fails where there is no value. -/
def ofOption (a : Option α) : StateT σ Option α := fun s => a.map fun a => (a, s)

/-- Goes on with `k` where the result of `x` is 0. -/
def okThen (x k : StateT σ Option Int) : StateT σ Option Int := do
  let rc ← x
  if rc ≠ 0 then pure rc else k

/-- The same where `k` has a result of its own. -/
def okElse (x : StateT σ Option Int) (k : StateT σ Option (Except Int α)) : StateT σ Option (Except Int α) := do
  let rc ← x
  if rc ≠ 0 then pure (.error rc) else k

/-- A program has one result. -/
theorem run_unique {x : StateT σ Option α} {s t u : σ} {a b : α} (h : x s = some (a, t)) (h' : x s = some (b, u)) :
    a = b ∧ t = u :=
  Prod.mk.inj (Option.some.inj (h.symm.trans h'))

theorem bind_some {x : StateT σ Option α} {f : α → StateT σ Option β} {s t : σ} {b : β} :
    (x >>= f) s = some (b, t) ↔ ∃ a s', x s = some (a, s') ∧ f a s' = some (b, t) := by
  show (x s).bind (fun p => f p.1 p.2) = some (b, t) ↔ _
  rw [Option.bind_eq_some_iff]
  constructor
  · intro ⟨p, hp, hf⟩
    exact ⟨p.1, p.2, hp, hf⟩
  · intro ⟨a, s', hx, hf⟩
    exact ⟨(a, s'), hx, hf⟩

theorem pure_some {s t : σ} {a b : α} : (pure a : StateT σ Option α) s = some (b, t) ↔ a = b ∧ s = t := by
  show some (a, s) = some (b, t) ↔ _
  simp

/-- After an error nothing more is done. -/
theorem okThen_some {x k : StateT σ Option Int} {s t : σ} {rc : Int} :
    okThen x k s = some (rc, t) ↔
      (rc ≠ 0 ∧ x s = some (rc, t)) ∨ ∃ s', x s = some (0, s') ∧ k s' = some (rc, t) := by
  unfold okThen
  rw [bind_some]
  constructor
  · intro ⟨rc', s', hx, hk⟩
    by_cases hrc : rc' = 0
    · rw [if_neg (not_not.mpr hrc)] at hk
      exact .inr ⟨s', hrc ▸ hx, hk⟩
    · rw [if_pos hrc] at hk
      obtain ⟨rfl, rfl⟩ := pure_some.mp hk
      exact .inl ⟨hrc, hx⟩
  · intro h
    rcases h with ⟨hrc, hx⟩ | ⟨s', hx, hk⟩
    · refine ⟨rc, t, hx, ?_⟩
      rw [if_pos hrc]
      rfl
    · exact ⟨0, s', hx, hk⟩

/-- A success has gone through both. -/
theorem okThen_zero {x k : StateT σ Option Int} {s t : σ} :
    okThen x k s = some (0, t) ↔ ∃ s', x s = some (0, s') ∧ k s' = some (0, t) := by
  rw [okThen_some]
  simp

theorem ofOption_some {s t : σ} {x : Option α} {a : α} :
    (ofOption x : StateT σ Option α) s = some (a, t) ↔ x = some a ∧ s = t := by
  cases x <;> simp [ofOption]

/-- The words behind a first letter. -/
theorem cons_mem_mul {o : ο} {os : List ο} {L : Language ο} : o :: os ∈ ({[o]} : Language ο) * L ↔ os ∈ L := by
  constructor
  · intro h
    obtain ⟨a, ha, b, hb, hab⟩ := Language.mem_mul.mp h
    cases ha
    cases hab
    exact hb
  · intro h
    exact Language.append_mem_mul (show [o] ∈ ({[o]} : Language ο) from rfl) h

theorem singleton_mul (u v : List ο) : ({u} : Language ο) * {v} = {u ++ v} := Set.image2_singleton

@[simp] theorem ofOption_some_bind (a : α) (f : α → StateT σ Option β) : ofOption (some a) >>= f = f a := rfl

/-- Where `x` returns from a state in `pre`, it has added observations, and `post` holds. -/
def Says (obs : σ → List ο) (pre : σ → Prop) (x : StateT σ Option α) (post : α → σ → List ο → Prop) : Prop :=
  ∀ s a s', pre s → x s = some (a, s') → ∃ os, obs s' = obs s ++ os ∧ post a s' os

/-- `x` adds nothing. -/
def Silent (obs : σ → List ο) (x : StateT σ Option α) : Prop :=
  Says obs (fun _ => True) x fun _ _ os => os = []

/-- Where `x` returns 0, what it has added is in `L`. -/
def Emits (obs : σ → List ο) (x : StateT σ Option Int) (L : Language ο) : Prop :=
  Says obs (fun _ => True) x fun rc _ os => rc = 0 → os ∈ L

/-- Where `x` returns a value, what it has added is in `L`; its errors are not 0. -/
def Yields (obs : σ → List ο) (x : StateT σ Option (Except Int α)) (L : Language ο) : Prop :=
  Says obs (fun _ => True) x fun r _ os => (∀ rc, r = .error rc → rc ≠ 0) ∧ ∀ a, r = .ok a → os ∈ L

variable {obs : σ → List ο} {pre pre' : σ → Prop} {x : StateT σ Option α}

namespace Says

theorem mono {post post' : α → σ → List ο → Prop} (h : Says obs pre x post) (hpre : ∀ s, pre' s → pre s)
    (hpost : ∀ a s os, post a s os → post' a s os) : Says obs pre' x post' := by
  intro s a s' hs hx
  obtain ⟨os, hos, hp⟩ := h s a s' (hpre s hs) hx
  exact ⟨os, hos, hpost a s' os hp⟩

theorem pure' {post : α → σ → List ο → Prop} {a : α} (h : ∀ s, pre s → post a s []) :
    Says obs pre (pure a) post := by
  intro s b s' hs hx
  obtain ⟨rfl, rfl⟩ := pure_some.mp hx
  exact ⟨[], (List.append_nil _).symm, h s hs⟩

theorem bind {f : α → StateT σ Option β} {mid : α → σ → List ο → Prop} {post : β → σ → List ο → Prop}
    (hx : Says obs pre x mid)
    (hf : ∀ a os, Says obs (fun s => mid a s os) (f a) fun b s os' => post b s (os ++ os')) :
    Says obs pre (x >>= f) post := by
  intro s b t hs hrun
  obtain ⟨a, s', h1, h2⟩ := bind_some.mp hrun
  obtain ⟨os, hos, hmid⟩ := hx s a s' hs h1
  obtain ⟨os', hos', hpost⟩ := hf a os s' b t hmid h2
  refine ⟨os ++ os', ?_, hpost⟩
  rw [hos', hos, List.append_assoc]

theorem ite' {c : Prop} [Decidable c] {y : StateT σ Option α} {post : α → σ → List ο → Prop}
    (hx : c → Says obs pre x post) (hy : ¬c → Says obs pre y post) :
    Says obs pre (if c then x else y) post := by
  by_cases h : c
  · rw [if_pos h]
    exact hx h
  · rw [if_neg h]
    exact hy h

/-- What comes after a program that adds nothing and whose result is known to be in `P`. -/
theorem known {f : α → StateT σ Option β} {P : α → Prop} {post : β → σ → List ο → Prop}
    (hx : Says obs pre x fun a _ os => os = [] ∧ P a)
    (hf : ∀ a, P a → Says obs (fun _ => True) (f a) post) : Says obs pre (x >>= f) post := by
  refine bind hx ?_
  intro a os s b s' hP hrun
  obtain ⟨rfl, hP⟩ := hP
  exact hf a hP s b s' trivial hrun

theorem ofOption (a : Option α) :
    Says obs pre (ofOption a : StateT σ Option α) fun b _ os => os = [] ∧ a = some b := by
  intro s b s' _ hx
  obtain ⟨ha, rfl⟩ := ofOption_some.mp hx
  exact ⟨[], (List.append_nil _).symm, rfl, ha⟩

end Says

namespace Silent

theorem pure' (a : α) : Silent obs (pure a : StateT σ Option α) := Says.pure' fun _ _ => rfl

theorem ofOption (a : Option α) : Silent obs (ofOption a : StateT σ Option α) :=
  (Says.ofOption a).mono (fun _ => id) fun _ _ _ h => h.1

/-- What comes after a silent program is all that is said. -/
theorem followed {f : α → StateT σ Option β} {post : β → σ → List ο → Prop} (hx : Silent obs x)
    (hf : ∀ a, Says obs (fun _ => True) (f a) post) : Says obs (fun _ => True) (x >>= f) post := by
  have h : Says obs (fun _ => True) x fun _ _ os => os = [] ∧ True := hx.mono (fun _ => id) fun _ _ _ h => ⟨h, trivial⟩
  exact h.known fun a _ => hf a

theorem bind {f : α → StateT σ Option β} (hx : Silent obs x) (hf : ∀ a, Silent obs (f a)) :
    Silent obs (x >>= f) :=
  hx.followed hf

theorem ite' {c : Prop} [Decidable c] {y : StateT σ Option α} (hx : Silent obs x) (hy : Silent obs y) :
    Silent obs (if c then x else y) :=
  Says.ite' (fun _ => hx) (fun _ => hy)

theorem emits {y : StateT σ Option Int} (hy : Silent obs y) : Emits obs y (1 : Language ο) :=
  hy.mono (fun _ => id) fun _ _ os hos _ => by
    subst hos
    exact Language.nil_mem_one

end Silent

/-- A part of the state, as the observations tell it, and which of them are unremarkable. -/
structure View (σ ο β : Type) where
  obs : σ → List ο
  view : σ → β
  after : β → ο → β
  quiet : ο → Prop

/-- From a state in `I`, `x` adds unremarkable observations that account for what has become of
the view, and leads to a state in `J`. -/
def Tracks {β : Type} (V : View σ ο β) (I J : σ → Prop) (x : StateT σ Option α) : Prop :=
  ∀ s a s', I s → x s = some (a, s') →
    ∃ os, V.obs s' = V.obs s ++ os ∧ (∀ o ∈ os, V.quiet o) ∧ V.view s' = os.foldl V.after (V.view s) ∧ J s'

namespace Tracks

variable {γ : Type} {V : View σ ο γ} {I I' J J' K : σ → Prop}

theorem mono (h : Tracks V I J x) (hI : ∀ s, I' s → I s) (hJ : ∀ s, J s → J' s) : Tracks V I' J' x := by
  intro s a s' hs hx
  obtain ⟨os, hos, hq, hv, hJ'⟩ := h s a s' (hI s hs) hx
  exact ⟨os, hos, hq, hv, hJ s' hJ'⟩

/-- Where nothing is asked of the state after it. -/
theorem forget (h : Tracks V I J x) : Tracks V I (fun _ => True) x := h.mono (fun _ => id) fun _ _ => trivial

theorem pure' (a : α) : Tracks V I I (pure a : StateT σ Option α) := by
  intro s b s' hs hx
  obtain ⟨rfl, rfl⟩ := pure_some.mp hx
  exact ⟨[], (List.append_nil _).symm, by simp, rfl, hs⟩

theorem bind {f : α → StateT σ Option β} (hx : Tracks V I J x) (hf : ∀ a, Tracks V J K (f a)) :
    Tracks V I K (x >>= f) := by
  intro s b t hs hrun
  obtain ⟨a, s', h1, h2⟩ := bind_some.mp hrun
  obtain ⟨os, hos, hq, hv, hJ⟩ := hx s a s' hs h1
  obtain ⟨os', hos', hq', hv', hK⟩ := hf a s' b t hJ h2
  refine ⟨os ++ os', ?_, ?_, ?_, hK⟩
  · rw [hos', hos, List.append_assoc]
  · intro o ho
    rcases List.mem_append.mp ho with ho | ho
    · exact hq o ho
    · exact hq' o ho
  · rw [hv', hv, List.foldl_append]

theorem ite' {c : Prop} [Decidable c] {y : StateT σ Option α} (hx : Tracks V I J x) (hy : Tracks V I J y) :
    Tracks V I J (if c then x else y) := by
  by_cases h : c
  · rw [if_pos h]
    exact hx
  · rw [if_neg h]
    exact hy

/-- Where more is unremarkable. -/
theorem quieter {quiet : ο → Prop} (h : Tracks V I J x) (hquiet : ∀ o, V.quiet o → quiet o) :
    Tracks { V with quiet := quiet } I J x := by
  intro s a s' hs hx
  obtain ⟨os, hos, hq, hv, hJ⟩ := h s a s' hs hx
  exact ⟨os, hos, fun o ho => hquiet o (hq o ho), hv, hJ⟩

end Tracks

/-- From a state in `I`, `x` does not fail, and `J` holds of its result and the state after it. -/
def Returns (I : σ → Prop) (x : StateT σ Option α) (J : α → σ → Prop) : Prop :=
  ∀ s, I s → ∃ a s', x s = some (a, s') ∧ J a s'

namespace Returns

variable {I I' : σ → Prop} {J J' : α → σ → Prop}

theorem mono (h : Returns I x J) (hI : ∀ s, I' s → I s) (hJ : ∀ a s, J a s → J' a s) : Returns I' x J' := by
  intro s hs
  obtain ⟨a, s', hx, hj⟩ := h s (hI s hs)
  exact ⟨a, s', hx, hJ a s' hj⟩

theorem pure' {a : α} (h : ∀ s, I s → J a s) : Returns I (pure a) J :=
  fun s hs => ⟨a, s, rfl, h s hs⟩

theorem bind {f : α → StateT σ Option β} {K : β → σ → Prop} (hx : Returns I x J)
    (hf : ∀ a, Returns (J a) (f a) K) : Returns I (x >>= f) K := by
  intro s hs
  obtain ⟨a, s', h1, hj⟩ := hx s hs
  obtain ⟨b, t, h2, hk⟩ := hf a s' hj
  exact ⟨b, t, bind_some.mpr ⟨a, s', h1, h2⟩, hk⟩

theorem ite' {c : Prop} [Decidable c] {y : StateT σ Option α} (hx : c → Returns I x J) (hy : ¬c → Returns I y J) :
    Returns I (if c then x else y) J := by
  by_cases h : c
  · rw [if_pos h]
    exact hx h
  · rw [if_neg h]
    exact hy h

end Returns

/-- What `x` does is as `Tracks` says, and it does not fail unless there is a `fault`. -/
structure Performs {γ : Type} (V : View σ ο γ) (I J : σ → Prop) (fault : Prop) (x : StateT σ Option α) : Prop where
  tracks : Tracks V I J x
  returns : ¬fault → Returns I x fun _ _ => True

namespace Performs

variable {γ : Type} {V : View σ ο γ} {I I' J J' K : σ → Prop} {fault fault' : Prop}

theorem mono (h : Performs V I J fault x) (hI : ∀ s, I' s → I s) (hJ : ∀ s, J s → J' s) : Performs V I' J' fault x :=
  ⟨h.tracks.mono hI hJ, fun hok => (h.returns hok).mono hI fun _ _ => id⟩

theorem quieter {quiet : ο → Prop} (h : Performs V I J fault x) (hquiet : ∀ o, V.quiet o → quiet o) :
    Performs { V with quiet := quiet } I J fault x :=
  ⟨h.tracks.quieter hquiet, h.returns⟩

/-- Where nothing is asked of the state after it. -/
theorem forget (h : Performs V I J fault x) : Performs V I (fun _ => True) fault x := h.mono (fun _ => id) fun _ _ => trivial

/-- It is enough to know what the program does from the states in `I`. -/
theorem congr {y : StateT σ Option α} (hy : Performs V I J fault y) (h : ∀ s, I s → x s = y s) :
    Performs V I J fault x := by
  constructor
  · intro s a s' hs hx
    exact hy.tracks s a s' hs ((h s hs).symm.trans hx)
  · intro hok s hs
    rw [h s hs]
    exact hy.returns hok s hs

theorem pure' (a : α) : Performs V I I fault (pure a : StateT σ Option α) :=
  ⟨Tracks.pure' a, fun _ => Returns.pure' fun _ _ => trivial⟩

theorem ofOption {a : Option α} (h : a = none → fault) : Performs V I I fault (ofOption a : StateT σ Option α) := by
  cases a with
  | none => exact ⟨fun _ _ _ _ hx => (Option.some_ne_none _ hx.symm).elim, fun hok => absurd (h rfl) hok⟩
  | some a => exact pure' a

theorem bind {f : α → StateT σ Option β} (hx : Performs V I J fault x) (hf : ∀ a, Performs V J K fault (f a)) :
    Performs V I K fault (x >>= f) := by
  refine ⟨hx.tracks.bind fun a => (hf a).tracks, fun hok s hs => ?_⟩
  obtain ⟨a, s', h1, -⟩ := hx.returns hok s hs
  obtain ⟨-, -, -, -, hJ⟩ := hx.tracks s a s' hs h1
  obtain ⟨b, t, h2, -⟩ := (hf a).returns hok s' hJ
  exact ⟨b, t, bind_some.mpr ⟨a, s', h1, h2⟩, trivial⟩

theorem ite' {c : Prop} [Decidable c] {y : StateT σ Option α} (hx : c → Performs V I J fault x)
    (hy : ¬c → Performs V I J fault y) : Performs V I J fault (if c then x else y) := by
  by_cases h : c
  · rw [if_pos h]
    exact hx h
  · rw [if_neg h]
    exact hy h

theorem okThen {y z : StateT σ Option Int} (hy : Performs V I I fault y) (hz : Performs V I I fault z) :
    Performs V I I fault (okThen y z) :=
  hy.bind fun rc => ite' (fun _ => pure' rc) fun _ => hz

theorem okElse {y : StateT σ Option Int} {k : StateT σ Option (Except Int α)} (hy : Performs V I I fault y)
    (hk : Performs V I I fault k) : Performs V I I fault (okElse y k) :=
  hy.bind fun _ => ite' (fun _ => pure' _) fun _ => hk

end Performs

namespace Emits

variable {y z : StateT σ Option Int} {L M : Language ο}

theorem mono (h : Emits obs y L) (hL : L ≤ M) : Emits obs y M :=
  Says.mono h (fun _ => id) fun _ _ _ hos h0 => hL (hos h0)

/-- An error says nothing about what was added. -/
theorem error {rc : Int} (h : rc ≠ 0) : Emits obs (pure rc) L :=
  Says.pure' fun _ _ h0 => absurd h0 h

theorem ok : Emits obs (pure 0) (1 : Language ο) :=
  Says.pure' fun _ _ _ => Language.nil_mem_one

theorem okThen (hy : Emits obs y L) (hz : Emits obs z M) : Emits obs (okThen y z) (L * M) := by
  refine Says.bind hy ?_
  intro rc os s rc' s' hL hrun
  by_cases hrc : rc = 0
  · rw [if_neg (not_not.mpr hrc)] at hrun
    obtain ⟨os', hos', hM⟩ := hz s rc' s' trivial hrun
    exact ⟨os', hos', fun h0 => Language.append_mem_mul (hL hrc) (hM h0)⟩
  · rw [if_pos hrc] at hrun
    obtain ⟨rfl, rfl⟩ := pure_some.mp hrun
    exact ⟨[], (List.append_nil _).symm, fun h0 => absurd h0 hrc⟩

/-- What is done in silence before the result is returned does not matter. -/
theorem andThen {z : StateT σ Option β} (hy : Emits obs y L) (hz : Silent obs z) :
    Emits obs (do let rc ← y; let _ ← z; pure rc) L := by
  refine Says.bind hy fun rc os => ?_
  intro s rc' s' hL hrun
  obtain ⟨_, s1, h1, h2⟩ := bind_some.mp hrun
  obtain ⟨rfl, rfl⟩ := pure_some.mp h2
  obtain ⟨os', hos', rfl⟩ := hz s _ s1 trivial h1
  exact ⟨[], hos', fun h0 => by rw [List.append_nil]; exact hL h0⟩

/-- After a silent test nothing has been added. -/
theorem silent_okThen (hy : Silent obs y) (hz : Emits obs z M) : Emits obs (Trace.okThen y z) M := by
  have := hy.emits.okThen hz
  rwa [one_mul] at this

end Emits

namespace Yields

variable {y : StateT σ Option Int} {k : StateT σ Option (Except Int α)} {L M : Language ο}

theorem ok (a : α) : Yields obs (pure (.ok a)) (1 : Language ο) :=
  Says.pure' fun _ _ => ⟨(fun _ h => nomatch h), fun _ _ => Language.nil_mem_one⟩

theorem okElse (hy : Emits obs y L) (hk : Yields obs k M) : Yields obs (okElse y k) (L * M) := by
  refine Says.bind hy ?_
  intro rc os s r s' hL hrun
  by_cases hrc : rc = 0
  · rw [if_neg (not_not.mpr hrc)] at hrun
    obtain ⟨os', hos', herr, hM⟩ := hk s r s' trivial hrun
    exact ⟨os', hos', herr, fun a ha => Language.append_mem_mul (hL hrc) (hM a ha)⟩
  · rw [if_pos hrc] at hrun
    obtain ⟨rfl, rfl⟩ := pure_some.mp hrun
    refine ⟨[], (List.append_nil _).symm, fun rc' h => ?_, fun a h => nomatch h⟩
    cases h
    exact hrc

theorem silent_okElse (hy : Silent obs y) (hk : Yields obs k M) : Yields obs (Trace.okElse y k) M := by
  have := okElse hy.emits hk
  rwa [one_mul] at this

end Yields

end Trace
