import Qm35.Lib.Lts

/- Sleeping until a condition holds, as `wait_event_interruptible` and `poll` do. A waiter
   puts itself on the queue, tests the condition, and sleeps if it is false; a `wake_up`
   that comes after it is on the queue keeps it from sleeping, so a change between the
   test and the sleep is not missed. A waiter returns when a test finds the condition
   true, or, after a test that does not, because of a signal.

   Whoever makes the condition true has to call `wake_up` afterwards. `Attended` says
   where that leaves the sleepers: either a call is due or the condition is false. The
   steps of the waiters keep it (`Attended.go`), as does putting one on the queue
   (`Attended.put`) and a change that makes the condition true only where a `wake_up` is
   due (`Attended.change`); the `wake_up` establishes it (`attended_wakeUp`). A waiter that
   is awake while the condition is true goes within three of its own steps (`leaves`). -/
namespace WaitQueue

/-- Where a waiter is: before a first test without being queued, before it is queued, before the test, after a
test that has failed, and asleep. -/
inductive Place where
  | first
  | enqueue
  | queued (woken : Bool)
  | tested (woken : Bool)
  | asleep
deriving DecidableEq

inductive After where
  | stays (p : Place)
  /-- The condition has been found true. -/
  | holds
  | interrupted
deriving DecidableEq

/-- The place of a waiter that has not gone. -/
def After.place : After → Option Place
  | .stays p => some p
  | _ => none

namespace Place

/-- The next step is a test of the condition. -/
def tests : Place → Bool
  | .first => true
  | .queued _ => true
  | _ => false

/-- The next step of a waiter. A sleeper has none. -/
def go (cond signal : Bool) : Place → Option After
  | .first => some (if cond then .holds else .stays .enqueue)
  | .enqueue => some (.stays (.queued false))
  | .queued woken => some (if cond then .holds else .stays (.tested woken))
  | .tested woken => some (if signal then .interrupted else if woken then .stays .enqueue else .stays .asleep)
  | .asleep => none

/-- `wake_up` -/
def wake : Place → Place
  | .queued _ => .queued true
  | .tested _ => .tested true
  | .asleep => .enqueue
  | p => p

/-- The waiter sleeps, or is about to. -/
def sleepy : Place → Bool
  | .tested woken => !woken
  | .asleep => true
  | _ => false

@[simp] theorem sleepy_wake (p : Place) : p.wake.sleepy = false := by
  cases p <;> simp [wake, sleepy]

/-- A waiter gets sleepy only by a test that finds the condition false. -/
theorem go_sleepy {cond signal : Bool} {p q : Place} (h : p.go cond signal = some (.stays q))
    (hq : q.sleepy = true) : p.sleepy = true ∨ p.tests = true ∧ cond = false := by
  cases p with
  | first => cases cond <;> simp_all [go, tests]
  | enqueue =>
    simp only [go, Option.some.injEq, After.stays.injEq] at h
    simp [← h, sleepy] at hq
  | queued woken => cases cond <;> simp_all [go, tests]
  | tested woken =>
    cases signal <;> cases woken <;> simp [go, sleepy] at h ⊢
    simp [← h, sleepy] at hq
  | asleep => simp [go] at h

/-- A test ends the wait or not, by what it finds. -/
theorem go_tests {p : Place} (h : p.tests = true) (signal : Bool) :
    p.go true signal = some .holds ∧ ∃ q, p.go false signal = some (.stays q) := by
  cases p <;> simp [go, tests] at h ⊢

theorem go_untested {cond signal : Bool} {p : Place} (h : p.tests = false) : p.go cond signal ≠ some .holds := by
  cases p with
  | tested woken => cases signal <;> cases woken <;> simp [go]
  | _ => simp [go, tests] at h ⊢

theorem go_some {cond signal : Bool} {p : Place} (h : p ≠ .asleep) : ∃ a, p.go cond signal = some a := by
  cases p <;> simp [go] at h ⊢

theorem awake {p : Place} (h : p.sleepy = false) : p ≠ .asleep := by
  rintro rfl
  simp [sleepy] at h

/-- Without a test the condition does not matter. -/
theorem go_congr {cond cond' signal : Bool} {p : Place} (h : p.tests = false) :
    p.go cond signal = p.go cond' signal := by
  cases p <;> simp [go, tests] at h ⊢

/-- The steps to the end of the next test, for a waiter that does not sleep before. -/
def left : Place → Nat
  | .first => 1
  | .enqueue => 2
  | .queued _ => 1
  | .tested _ => 3
  | .asleep => 0

theorem left_le (p : Place) : p.left ≤ 3 := by
  cases p <;> simp [left]

/-- A waiter that is awake comes nearer to a test, and past it if the condition is true. -/
theorem go_awake {p : Place} (h : p.sleepy = false) : p.go true false = some .holds ∧ p.left = 1 ∨
    ∃ q, p.go true false = some (.stays q) ∧ q.sleepy = false ∧ q.left + 1 = p.left := by
  cases p with
  | first => simp [go, left]
  | enqueue => simp [go, left, sleepy]
  | queued woken => simp [go, left]
  | tested woken =>
    have hwoken : woken = true := by simpa [sleepy] using h
    simp [go, left, sleepy, hwoken]
  | asleep => simp [sleepy] at h

end Place

variable {ι : Type} [DecidableEq ι]

/-- The waiter is where its step has taken it, or gone. -/
def move (q : ι → Option Place) (i : ι) (a : After) : ι → Option Place := Function.update q i a.place

@[simp] theorem move_self {q : ι → Option Place} {i : ι} {a : After} : move q i a i = a.place := by
  simp [move]

theorem move_other {q : ι → Option Place} {i j : ι} {a : After} (h : j ≠ i) : move q i a j = q j := by
  simp [move, h]

/-- `wake_up` of all. -/
def wakeUp (q : ι → Option Place) : ι → Option Place := fun i => (q i).map Place.wake

/-- Where a waiter sleeps or is about to, a `wake_up` is due or the condition is false. -/
def Attended (q : ι → Option Place) (due : Prop) (cond : Bool) : Prop :=
  ∀ i p, q i = some p → p.sleepy = true → due ∨ cond = false

section Rules
variable {q : ι → Option Place} {due due' : Prop} {cond cond' : Bool} {i : ι} {p : Place}

omit [DecidableEq ι] in
theorem attended_nobody (h : ∀ i, q i = none) : Attended q due cond :=
  fun i p hp => absurd (hp.symm.trans (h i)) (by simp)

omit [DecidableEq ι] in
/-- After a `wake_up` nobody sleeps. -/
theorem attended_wakeUp (q : ι → Option Place) : Attended (wakeUp q) due cond := by
  intro i p hp hs
  obtain ⟨p', -, rfl⟩ := Option.map_eq_some_iff.mp hp
  simp at hs

omit [DecidableEq ι] in
/-- The condition changes. Where that could make it true, a `wake_up` is due. -/
theorem Attended.change (h : Attended q due cond) (hdue : due → due') (hcond : cond = false → due' ∨ cond' = false) :
    Attended q due' cond' :=
  fun i p hp hs => (h i p hp hs).elim (fun hd => .inl (hdue hd)) hcond

/-- A waiter that is put somewhere it does not sleep. -/
theorem Attended.put (h : Attended q due cond) (hp : p.sleepy = false) :
    Attended (Function.update q i (some p)) due cond := by
  intro j p' hj hs
  by_cases hji : j = i
  · subst hji
    simp at hj
    simp [← hj, hp] at hs
  · rw [Function.update_of_ne hji] at hj
    exact h j p' hj hs

/-- The step of a waiter that tests the condition as it is, or does not test it. -/
theorem Attended.go {found signal : Bool} {a : After} (h : Attended q due cond) (hi : q i = some p)
    (hgo : p.go found signal = some a) (hfound : p.tests = true → found = cond) : Attended (move q i a) due cond := by
  intro j r hj hs
  by_cases hji : j = i
  · subst hji
    rw [move_self] at hj
    cases a with
    | stays p' =>
      obtain rfl := Option.some.inj hj
      rcases Place.go_sleepy hgo hs with hp | ⟨ht, hf⟩
      · exact h j p hi hp
      · exact .inr ((hfound ht).symm.trans hf)
    | _ => simp [After.place] at hj
  · rw [move_other hji] at hj
    exact h j r hj hs

end Rules

/-! A system with a waiter in it. -/

/-- Where the condition stays true until the waiter has gone, and it is awake, it goes with the steps it is from the
end of its next test. -/
theorem leaves {σ α : Type} {step : σ → α → Option σ} {act : α} {f : σ → Option Place} {I : σ → Prop}
    (hstep : ∀ s p, I s → f s = some p → p.sleepy = false → ∃ s' a, step s act = some s' ∧
      p.go true false = some a ∧ f s' = a.place ∧ (a ≠ .holds → I s'))
    {s : σ} {p : Place} (hI : I s) (hp : f s = some p) (hawake : p.sleepy = false) :
    ∃ t, Lts.run step s (List.replicate p.left act) = some t ∧ f t = none := by
  obtain ⟨n, hn⟩ : ∃ n, p.left = n := ⟨_, rfl⟩
  rw [hn]
  induction n generalizing s p with
  | zero => cases p <;> simp [Place.left, Place.sleepy] at hn hawake
  | succ n ih =>
    obtain ⟨s', a, h1, hgo, hplace, hI'⟩ := hstep s p hI hp hawake
    rcases Place.go_awake hawake with ⟨hgo', hlast⟩ | ⟨q, hgo', hq, hleft⟩
    · -- the test
      obtain rfl : n = 0 := by omega
      obtain rfl := Option.some.inj (hgo.symm.trans hgo')
      exact ⟨s', Lts.run_cons_some.mpr ⟨s', h1, rfl⟩, hplace⟩
    · -- a step to it
      obtain rfl := Option.some.inj (hgo.symm.trans hgo')
      obtain ⟨t, hrun, ht⟩ := ih (hI' (by simp)) hplace hq (by omega)
      exact ⟨t, Lts.run_cons_some.mpr ⟨s', h1, hrun⟩, ht⟩

end WaitQueue
