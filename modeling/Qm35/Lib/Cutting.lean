import Qm35.Lib.Framing

/- A stream that comes in blocks, each of which is cut into records from the front. While a
   block is cut, the records taken from it so far and the bytes left make it up (`Begins`).
   `Cutting blocks left ps` says that `ps` is what has been cut from the blocks, in order,
   where `left` is the rest of the last one if it is not finished.

   Nothing of the stream is lost (`Cutting.flatten_eq`), and where the sender laid whole
   records end to end, in blocks of one record or more, they come out as they went in
   (`Cutting.eq_of_complete`). -/
namespace Framing

variable {α : Type} (F : Format α)

/-- The records `cur` were cut from the front of `data`, and `rest` follows them. -/
inductive Begins (data : List α) : List (List α) → List α → Prop
  | nil : Begins data [] data
  | snoc {cur : List (List α)} {rest : List α} {n : Nat} : Begins data cur rest → F.size rest = some n →
      n < rest.length → Begins data (cur ++ [rest.take n]) (rest.drop n)

inductive Cutting (whole : Prop) : List (List α) → Option (List α) → List (List α) → Prop
  | between {blocks : List (List α)} {pss : List (List (List α))} :
      List.Forall₂ (Splits F whole) blocks pss → Cutting whole blocks none pss.flatten
  | inside {blocks : List (List α)} {pss : List (List (List α))} {data rest : List α} {cur : List (List α)} :
      List.Forall₂ (Splits F whole) blocks pss → Begins F data cur rest →
      Cutting whole (blocks ++ [data]) (some rest) (pss.flatten ++ cur)

variable {F} {whole : Prop} {data rest : List α} {cur ps : List (List α)} {n : Nat}

theorem Splits.mono {whole' : Prop} (hw : whole' → whole) (h : Splits F whole data ps) : Splits F whole' data ps := by
  induction h with
  | last bs hlast => exact .last bs fun h => hlast (hw h)
  | cons hs hn _ ih => exact .cons hs hn ih

namespace Begins

theorem splits (h : Begins F data cur rest) (hrest : Splits F whole rest ps) : Splits F whole data (cur ++ ps) := by
  induction h generalizing ps with
  | nil => exact hrest
  | snoc _ hs hn ih =>
    rw [List.append_assoc]
    exact ih (.cons hs hn hrest)

theorem flatten_eq (h : Begins F data cur rest) : cur.flatten ++ rest = data := by
  induction h with
  | nil => rfl
  | snoc _ _ _ ih => simpa using ih

/-- What is cut from complete records is the first of them, and the others are left. -/
theorem of_complete {qs : List (List α)} (hq : ∀ q ∈ qs, F.Complete q) (h : Begins F qs.flatten cur rest) :
    ∃ qs', qs = cur ++ qs' ∧ rest = qs'.flatten := by
  induction h with
  | nil => exact ⟨qs, rfl, rfl⟩
  | @snoc cur rest n _ hs hn ih =>
    obtain ⟨qs', hqs, rfl⟩ := ih
    cases qs' with
    | nil => simp at hn
    | cons q qs' =>
      have hsize : F.size q = some q.length := hq q (by simp [hqs])
      rw [List.flatten_cons, Format.size_append (Format.header_le_length hsize), hsize, Option.some.injEq] at hs
      subst hs
      exact ⟨qs', by simp [hqs], by simp⟩

end Begins

namespace Cutting

variable {blocks : List (List α)} {left : Option (List α)}

theorem mono {w : Prop} (hw : w → whole) (h : Cutting F whole blocks left ps) : Cutting F w blocks left ps := by
  cases h with
  | between hall => exact .between (hall.imp fun _ _ h => h.mono hw)
  | inside hall hcur => exact .inside (hall.imp fun _ _ h => h.mono hw) hcur

theorem start (h : Cutting F whole blocks none ps) (data : List α) :
    Cutting F whole (blocks ++ [data]) (some data) ps := by
  cases h with
  | @between _ pss hall =>
    have hnone : Begins F data [] data := .nil
    have hin := Cutting.inside hall hnone
    rwa [List.append_nil] at hin

theorem next (h : Cutting F whole blocks (some rest) ps) (hs : F.size rest = some n) (hn : n < rest.length) :
    Cutting F whole blocks (some (rest.drop n)) (ps ++ [rest.take n]) := by
  cases h with
  | inside hall hcur =>
    rw [List.append_assoc]
    exact .inside hall (hcur.snoc hs hn)

theorem last (h : Cutting F whole blocks (some rest) ps) (hlast : whole → ∀ n, F.size rest = some n → rest.length ≤ n) :
    Cutting F whole blocks none (ps ++ [rest]) := by
  cases h with
  | @inside blocks pss data _ cur hall hcur =>
    have hblock := hcur.splits (Splits.last rest hlast)
    have hboth := Cutting.between (List.rel_append hall (List.Forall₂.cons hblock .nil))
    simpa using hboth

theorem flatten_eq (h : Cutting F whole blocks left ps) : ps.flatten ++ left.getD [] = blocks.flatten := by
  have hblocks : ∀ {blocks : List (List α)} {pss : List (List (List α))}, List.Forall₂ (Splits F whole) blocks pss →
      pss.flatten.flatten = blocks.flatten := by
    intro blocks pss hall
    induction hall with
    | nil => rfl
    | cons hsplit _ ih => simp only [List.flatten_cons, List.flatten_append, hsplit.flatten_eq, ih]
  cases h with
  | between hall => simpa using hblocks hall
  | inside hall hcur =>
    rw [List.flatten_append, List.append_assoc, Option.getD_some, hcur.flatten_eq, hblocks hall]
    simp

/-- Blocks of whole records are cut into these records. -/
theorem eq_of_complete {sent : List (List (List α))} (hw : whole) (hne : ∀ qs ∈ sent, qs ≠ [])
    (hq : ∀ qs ∈ sent, ∀ q ∈ qs, F.Complete q) (hsent : blocks = sent.map List.flatten)
    (h : Cutting F whole blocks left ps) : ps <+: sent.flatten ∧ (left = none → ps = sent.flatten) := by
  have hblocks : ∀ {sent pss : List (List (List α))}, (∀ qs ∈ sent, qs ≠ []) → (∀ qs ∈ sent, ∀ q ∈ qs, F.Complete q) →
      List.Forall₂ (Splits F whole) (sent.map List.flatten) pss → pss = sent := by
    intro sent pss hne hq hall
    rw [List.forall₂_map_left_iff] at hall
    induction hall with
    | nil => rfl
    | cons hsplit _ ih =>
      rw [List.forall_mem_cons] at hne hq
      rw [hsplit.eq_of_complete hw hne.1 hq.1, ih hne.2 hq.2]
  cases h with
  | between hall =>
    subst hsent
    rw [hblocks hne hq hall]
    exact ⟨List.prefix_rfl, fun _ => rfl⟩
  | @inside blocks pss data _ cur hall hcur =>
    obtain ⟨earlier, lastSent, rfl, rfl, hdata⟩ := List.append_eq_map_iff.mp hsent
    obtain ⟨qs, rfl, rfl⟩ : ∃ qs, lastSent = [qs] ∧ qs.flatten = data := by
      simpa [List.map_eq_singleton_iff, eq_comm] using hdata
    have hin : ∀ qs' ∈ earlier, qs' ∈ earlier ++ [qs] := fun _ h => List.mem_append_left _ h
    obtain ⟨qs', rfl, -⟩ := hcur.of_complete (hq qs (by simp))
    rw [hblocks (fun qs' h => hne qs' (hin qs' h)) (fun qs' h => hq qs' (hin qs' h)) hall]
    refine ⟨⟨qs', by simp⟩, fun hleft => absurd hleft (by simp)⟩

end Cutting

end Framing
