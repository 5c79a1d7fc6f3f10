import Mathlib.Tactic

/- Records laid end to end. A `Format` gives the size of the record at the front of
   some elements from a header of fixed length, or nothing where the header is cut
   off. `Splits bs ps` says that `ps` are the records of `bs` in order, the last one
   being whatever is left over; with `whole` it stops only where no further record
   follows. Splitting loses nothing (`flatten_eq`), every record but the last has the
   size its own header gives (`size_of_mem`), and a list of complete records is the
   only splitting of its concatenation (`eq_of_complete`). -/
namespace Framing

structure Format (α : Type) where
  size : List α → Option Nat
  header : Nat
  header_pos : 0 < header
  size_short : ∀ bs, bs.length < header → size bs = none
  size_take : ∀ bs, size (bs.take header) = size bs
  header_le : ∀ bs n, size bs = some n → header ≤ n

variable {α : Type} (F : Format α)

/-- `p` is a record: it has the size its header gives. -/
def Format.Complete (p : List α) : Prop := F.size p = some p.length

inductive Splits (whole : Prop) : List α → List (List α) → Prop
  | last (bs : List α) : (whole → ∀ n, F.size bs = some n → bs.length ≤ n) → Splits whole bs [bs]
  | cons {bs : List α} {n : Nat} {ps : List (List α)} :
      F.size bs = some n → n < bs.length → Splits whole (bs.drop n) ps →
      Splits whole bs (bs.take n :: ps)

variable {F} {whole : Prop} {bs p q : List α} {ps qs : List (List α)} {n : Nat}

namespace Format

theorem header_le_length (h : F.size p = some n) : F.header ≤ p.length := by
  by_contra hlt
  rw [F.size_short p (by omega)] at h
  cases h

/-- What follows a complete header does not matter for the size. -/
theorem size_append (h : F.header ≤ p.length) : F.size (p ++ q) = F.size p := by
  rw [← F.size_take (p ++ q), List.take_append_of_le_length h, F.size_take]

/-- Neither does what is cut off after it. -/
theorem size_take_of_le (h : F.header ≤ n) : F.size (bs.take n) = F.size bs := by
  rw [← F.size_take (bs.take n), List.take_take, Nat.min_eq_left h, F.size_take]

theorem complete_take (h : F.size bs = some n) (hn : n ≤ bs.length) : F.Complete (bs.take n) := by
  unfold Complete
  rw [size_take_of_le (F.header_le bs n h), h, List.length_take_of_le hn]

end Format

namespace Splits

theorem ne_nil (h : Splits F whole bs ps) : ps ≠ [] := by
  cases h <;> simp

theorem flatten_eq (h : Splits F whole bs ps) : ps.flatten = bs := by
  induction h with
  | last bs _ => simp
  | @cons bs n ps _ _ _ ih => rw [List.flatten_cons, ih, List.take_append_drop]

theorem size_of_mem (h : Splits F whole bs ps) : ∀ p ∈ ps.dropLast, F.Complete p := by
  induction h with
  | last bs _ =>
    intro p hp
    cases hp
  | @cons bs n ps hs hn hsplit ih =>
    intro p hp
    rw [List.dropLast_cons_of_ne_nil hsplit.ne_nil] at hp
    rcases List.mem_cons.mp hp with rfl | hp
    · exact Format.complete_take hs (Nat.le_of_lt hn)
    · exact ih p hp

theorem last_le (h : Splits F whole bs ps) (hw : whole) (hp : ps.getLast? = some p)
    (hn : F.size p = some n) : p.length ≤ n := by
  induction h with
  | last bs hlast =>
    cases hp
    exact hlast hw n hn
  | @cons bs m ps _ _ hsplit ih =>
    rw [List.getLast?_cons_of_ne_nil hsplit.ne_nil] at hp
    exact ih hp

/-- Complete records are split as they are. -/
theorem eq_of_complete (hw : whole) (hne : qs ≠ []) (hq : ∀ q ∈ qs, F.Complete q)
    (h : Splits F whole qs.flatten ps) : ps = qs := by
  induction qs generalizing ps with
  | nil => exact absurd rfl hne
  | cons q qs ih =>
    have hsize : F.size q = some q.length := hq q List.mem_cons_self
    have hfront : F.size (q :: qs).flatten = some q.length := by
      rw [List.flatten_cons, Format.size_append (Format.header_le_length hsize), hsize]
    cases h with
    | last _ hlast =>
      -- nothing follows `q`, since every record has a header
      have hle := hlast hw _ hfront
      rw [List.flatten_cons, List.length_append] at hle
      cases qs with
      | nil => simp
      | cons r rs =>
        have hr := Format.header_le_length (hq r (by simp))
        have hpos := F.header_pos
        rw [List.flatten_cons, List.length_append] at hle
        omega
    | cons hs hn hsplit =>
      rw [hfront, Option.some.injEq] at hs
      subst hs
      have hqs : qs ≠ [] := by
        rintro rfl
        simp at hn
      rw [List.flatten_cons, List.drop_left] at hsplit
      rw [List.flatten_cons, List.take_left, ih hqs (fun r hr => hq r (List.mem_cons_of_mem _ hr)) hsplit]

end Splits

end Framing
