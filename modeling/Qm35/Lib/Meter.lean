import Qm35.Lib.Trace

/- Programs with a meter. A metered program runs beside a reading to which it adds what it
   is charged; the readings are an ordered monoid, so that several things can be counted
   at once. `Measures x y` says that `x` with the meter left out is `y`: then every run of
   `y` has a reading. `Cost x c` says that no run of `x` is charged more than `c`. -/
namespace Meter

open Trace

variable {κ σ α β : Type}

abbrev Metered (κ σ α : Type) : Type := StateT κ (StateT σ Option) α

/-- A program that is charged nothing. -/
def unmetered (y : StateT σ Option α) : Metered κ σ α := fun k => do
  let a ← y
  pure (a, k)

def charge [Add κ] (c : κ) : Metered κ σ Unit := fun k => pure ((), k + c)

/-- With the meter left out, `x` is `y`. -/
def Measures (x : Metered κ σ α) (y : StateT σ Option α) : Prop :=
  ∀ k, (x k >>= fun r => pure r.1) = y

namespace Measures

variable {x : Metered κ σ α} {y : StateT σ Option α}

theorem unmetered (y : StateT σ Option α) : Measures (unmetered (κ := κ) y) y := by
  intro k
  simp [Meter.unmetered]

theorem pure' (a : α) : Measures (pure a : Metered κ σ α) (pure a) :=
  fun k => pure_bind (a, k) fun r => pure r.1

theorem bind {f : α → Metered κ σ β} {g : α → StateT σ Option β} (hx : Measures x y) (hf : ∀ a, Measures (f a) (g a)) :
    Measures (x >>= f) (y >>= g) := by
  intro k
  show ((x k >>= fun r => f r.1 r.2) >>= fun r => pure r.1) = y >>= g
  calc ((x k >>= fun r => f r.1 r.2) >>= fun r => pure r.1)
      = x k >>= fun r => f r.1 r.2 >>= fun r => pure r.1 := by rw [bind_assoc]
    _ = x k >>= fun r => g r.1 := by simp only [fun r : α × κ => hf r.1 r.2]
    _ = (x k >>= fun r => pure r.1) >>= g := by simp only [bind_assoc, pure_bind]
    _ = y >>= g := by rw [hx k]

/-- A charge first. -/
theorem charged [Add κ] {f : Unit → Metered κ σ α} {c : κ} (h : Measures (f ()) y) : Measures (charge c >>= f) y :=
  fun k => h (k + c)

theorem ite' {p : Prop} [Decidable p] {x' : Metered κ σ α} {y' : StateT σ Option α} (h : Measures x y)
    (h' : Measures x' y') : Measures (if p then x else x') (if p then y else y') := by
  split
  · exact h
  · exact h'

/-- Every run has a reading. -/
theorem reading (h : Measures x y) {s s' : σ} {a : α} (hrun : y s = some (a, s')) (k : κ) :
    ∃ k', x k s = some ((a, k'), s') := by
  rw [← h k] at hrun
  obtain ⟨⟨b, k'⟩, s1, hx, hpure⟩ := bind_some.mp hrun
  obtain ⟨rfl, rfl⟩ := pure_some.mp hpure
  exact ⟨k', hx⟩

end Measures

/-- No run is charged more than `c`. -/
def Cost [Add κ] [LE κ] (x : Metered κ σ α) (c : κ) : Prop :=
  ∀ k s a k' s', x k s = some ((a, k'), s') → k' ≤ k + c

namespace Cost

variable [AddCommMonoid κ] [PartialOrder κ] {x y : Metered κ σ α} {b c : κ}

theorem pure' (a : α) : Cost (pure a : Metered κ σ α) 0 := by
  intro k s b k' s' hx
  obtain ⟨heq, -⟩ := pure_some.mp hx
  cases heq
  rw [add_zero]

theorem unmetered (y : StateT σ Option α) : Cost (unmetered y : Metered κ σ α) 0 := by
  intro k s b k' s' hx
  obtain ⟨a, s1, -, hpure⟩ := bind_some.mp hx
  obtain ⟨heq, -⟩ := pure_some.mp hpure
  cases heq
  rw [add_zero]

theorem charge (c : κ) : Cost (charge c : Metered κ σ Unit) c := by
  intro k s b k' s' hx
  obtain ⟨heq, -⟩ := pure_some.mp hx
  cases heq
  exact le_refl _

theorem ite' {p : Prop} [Decidable p] (hx : Cost x c) (hy : Cost y c) : Cost (if p then x else y) c := by
  split
  · exact hx
  · exact hy

variable [IsOrderedAddMonoid κ]

theorem mono (h : Cost x b) (hbc : b ≤ c) : Cost x c :=
  fun k s a k' s' hx => (h k s a k' s' hx).trans (add_le_add_right hbc k)

theorem bind {f : α → Metered κ σ β} (hx : Cost x b) (hf : ∀ a, Cost (f a) c) : Cost (x >>= f) (b + c) := by
  intro k s d k' s' hrun
  have hrun : (x k >>= fun r => f r.1 r.2) s = some ((d, k'), s') := hrun
  obtain ⟨⟨a, k1⟩, s1, h1, h2⟩ := bind_some.mp hrun
  calc k' ≤ k1 + c := hf a k1 s1 d k' s' h2
    _ ≤ k + b + c := add_le_add_left (hx k s a k1 s1 h1) c
    _ = k + (b + c) := add_assoc k b c

/-- What is charged nothing may come first. -/
theorem free {f : α → Metered κ σ β} (hx : Cost x 0) (hf : ∀ a, Cost (f a) c) : Cost (x >>= f) c := by
  have h := bind hx hf
  rwa [zero_add] at h

/-- It may come last. -/
theorem endFree {f : α → Metered κ σ β} (hx : Cost x c) (hf : ∀ a, Cost (f a) 0) : Cost (x >>= f) c := by
  have h := bind hx hf
  rwa [add_zero] at h

end Cost

end Meter
