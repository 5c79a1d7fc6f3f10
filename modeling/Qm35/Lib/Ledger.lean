import Qm35.Lib.Trace

/- What a program holds. A ledger is a list of acquires and releases that only grows;
   `settle` goes along it with what is held, and has no value once something is released
   that is not held. `Turns acct x A B` is the triple for programs that acquire and
   release: where the account is `A` and `x` returns, the account is then `B` of its
   result. `acct` reads the account off the state, and may put several ledgers together. -/
namespace Ledger

open Trace

variable {ι κ σ α β : Type}

inductive Op (ι : Type) where
  | acquire (i : ι)
  | release (i : ι)
deriving DecidableEq

section Settle
variable [DecidableEq ι]

/-- What is held after one operation more. -/
def Op.settle (held : Multiset ι) : Op ι → Option (Multiset ι)
  | .acquire i => some (i ::ₘ held)
  | .release i => if i ∈ held then some (held.erase i) else none

/-- What is held after the operations. -/
def settle (held : Multiset ι) (ops : List (Op ι)) : Option (Multiset ι) := ops.foldlM Op.settle held

@[simp] theorem settle_nil (held : Multiset ι) : settle held [] = some held := rfl

@[simp] theorem settle_acquire (held : Multiset ι) (i : ι) : settle held [.acquire i] = some (i ::ₘ held) := rfl

@[simp] theorem settle_release (held : Multiset ι) (i : ι) : settle (i ::ₘ held) [.release i] = some held := by
  simp [settle, Op.settle]

theorem settle_append (held : Multiset ι) (ops new : List (Op ι)) :
    settle held (ops ++ new) = (settle held ops).bind fun held => settle held new :=
  List.foldlM_append

/-- Operations after which the ledger settles. -/
theorem settle_after {held mid rest : Multiset ι} {ops new : List (Op ι)} (h : settle held ops = some mid)
    (hnew : settle mid new = some rest) : settle held (ops ++ new) = some rest := by
  rw [settle_append, h]
  exact hnew

end Settle

/-- The operations in a log, some of whose entries are one; what an entry acquires may be known by its
place in the log. -/
def ofLog {ε : Type} (op : Nat → ε → Option (Op ι)) (log : List ε) : List (Op ι) := (log.mapIdx op).filterMap id

theorem ofLog_snoc {ε : Type} (op : Nat → ε → Option (Op ι)) (log : List ε) (e : ε) :
    ofLog op (log ++ [e]) = ofLog op log ++ (op log.length e).toList := by
  unfold ofLog
  rw [List.mapIdx_append, List.filterMap_append]
  congr 1
  cases h : op log.length e <;> simp [h]

/-- Where the account is `A` and `x` returns, it is then `B` of the result. -/
def Turns (acct : σ → Option κ) (x : StateT σ Option α) (A : κ) (B : α → κ) : Prop :=
  ∀ s a s', acct s = some A → x s = some (a, s') → acct s' = some (B a)

namespace Turns

variable {acct : σ → Option κ} {x : StateT σ Option α} {A : κ} {B : α → κ}

theorem pure' {a : α} (h : A = B a) : Turns acct (pure a) A B := by
  intro s b s' hs hx
  obtain ⟨rfl, rfl⟩ := pure_some.mp hx
  rw [hs, h]

theorem bind {f : α → StateT σ Option β} {C : β → κ} (hx : Turns acct x A B) (hf : ∀ a, Turns acct (f a) (B a) C) :
    Turns acct (x >>= f) A C := by
  intro s b s' hs hrun
  obtain ⟨a, s1, h1, h2⟩ := bind_some.mp hrun
  exact hf a s1 b s' (hx s a s1 hs h1) h2

theorem ite' {p : Prop} [Decidable p] {y : StateT σ Option α} (hx : p → Turns acct x A B) (hy : ¬p → Turns acct y A B) :
    Turns acct (if p then x else y) A B := by
  by_cases h : p
  · rw [if_pos h]
    exact hx h
  · rw [if_neg h]
    exact hy h

/-- What comes after a failure is not reached. -/
theorem ofOption {a : Option α} (h : ∀ b, a = some b → A = B b) : Turns acct (ofOption a) A B := by
  intro s b s' hs hx
  obtain ⟨ha, rfl⟩ := ofOption_some.mp hx
  rw [hs, h b ha]

/-- A program that leaves the account alone. -/
theorem unchanged (h : ∀ s a s', x s = some (a, s') → acct s' = acct s) (hA : ∀ a, A = B a) : Turns acct x A B := by
  intro s a s' hs hx
  rw [h s a s' hx, hs, hA a]

end Turns

end Ledger
