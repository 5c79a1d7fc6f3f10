import Qm35.Lib.Along

/- A bounded journal with one reader, as its users see it: the entries the reader has
   been given that are kept still, and those it has not. Appending may drop entries
   to make room, always the oldest ones, and only if what is kept afterwards is
   `enough`; nothing else loses an entry. The reader is given the oldest entry not given
   yet, and may start again at the oldest one kept.

   What follows for every run, whatever is dropped: the entries kept are the last ones
   appended (`Path.kept`), and those given since the reader last started again,
   followed by those to come, are among the appended ones, in order and none twice
   (`Path.given`). -/

structure Journal (α : Type) where
  seen : List α
  rest : List α

namespace Journal

variable {α : Type}

inductive Call (α : Type) where
  | append (x : α)
  | take
  | peek
  | rewind

def empty : Journal α := ⟨[], []⟩

def kept (J : Journal α) : List α := J.seen ++ J.rest

/-- Without the `k` oldest entries. -/
def drop (J : Journal α) (k : Nat) : Journal α := ⟨J.seen.drop k, J.rest.drop (k - J.seen.length)⟩

/-- What the reader is told: the oldest entry it has not been given, if there is one. -/
def answer (J : Journal α) : Call α → Option α
  | .append _ => none
  | .take => J.rest.head?
  | .peek => J.rest.head?
  | .rewind => none

/-- After a call that drops the `k` oldest entries. -/
def next (J : Journal α) (k : Nat) : Call α → Journal α
  | .append x => ⟨(J.drop k).seen, (J.drop k).rest ++ [x]⟩
  | .take => ⟨J.seen ++ J.rest.take 1, J.rest.tail⟩
  | .peek => J
  | .rewind => ⟨[], J.kept⟩

/-- A call and what it answers; if it drops anything, enough is kept. -/
def Step (enough : List α → Prop) (J : Journal α) (c : Call α × Option α) (J' : Journal α) : Prop :=
  c.2 = J.answer c.1 ∧ ∃ k, J' = J.next k c.1 ∧ (k = 0 ∨ enough J'.kept)

/-! What the calls of a run appended, and what was given. -/

def appended : List (Call α × Option α) → List α
  | [] => []
  | (.append x, _) :: cs => x :: appended cs
  | _ :: cs => appended cs

/-- The entries given since the reader last started again, after the entries `got`. -/
def given (got : List α) : List (Call α × Option α) → List α
  | [] => got
  | (.take, x) :: cs => given (got ++ x.toList) cs
  | (.rewind, _) :: cs => given [] cs
  | _ :: cs => given got cs

theorem appended_append (cs cs' : List (Call α × Option α)) : appended (cs ++ cs') = appended cs ++ appended cs' := by
  induction cs with
  | nil => rfl
  | cons c cs ih =>
    obtain ⟨c, x⟩ := c
    cases c <;> simp [appended, ih]

theorem given_append (got : List α) (cs cs' : List (Call α × Option α)) :
    given got (cs ++ cs') = given (given got cs) cs' := by
  induction cs generalizing got with
  | nil => rfl
  | cons c cs ih =>
    obtain ⟨c, x⟩ := c
    cases c <;> simp [given, ih]

/-! What is dropped. -/

theorem kept_drop (J : Journal α) (k : Nat) : (J.drop k).kept = J.kept.drop k := by
  simp [kept, drop, List.drop_append]

@[simp] theorem drop_zero (J : Journal α) : J.drop 0 = J := by
  simp [drop]

/-- Entries are dropped from the oldest on, if what is left is the end of what there was and the reader either has
lost nothing it had still to be given or has nothing before it. -/
theorem drop_eq {J K : Journal α} (hkept : K.kept <:+ J.kept)
    (hrest : K.rest = J.rest ∨ K.seen = [] ∧ K.rest <:+ J.rest) :
    K = J.drop (J.kept.length - K.kept.length) := by
  obtain ⟨seen, rest⟩ := J
  obtain ⟨seen', rest'⟩ := K
  rcases hrest with hr | ⟨hs, hr⟩
  · obtain rfl : rest' = rest := hr
    have hseen : seen' <:+ seen := List.suffix_append_self_iff.mp hkept
    have hle := hseen.length_le
    have hk : (kept ⟨seen, rest'⟩).length - (kept ⟨seen', rest'⟩).length = seen.length - seen'.length := by
      simp only [kept, List.length_append]
      omega
    have hzero : seen.length - seen'.length - seen.length = 0 := by omega
    rw [hk, drop, hzero, ← List.suffix_iff_eq_drop.mp hseen]
    rfl
  · obtain rfl : seen' = [] := hs
    have hle := hr.length_le
    dsimp only at hle
    have hk : (kept ⟨seen, rest⟩).length - (kept ⟨[], rest'⟩).length = seen.length + (rest.length - rest'.length) := by
      simp only [kept, List.length_append, List.length_nil]
      omega
    have hover : seen.drop (seen.length + (rest.length - rest'.length)) = [] :=
      List.drop_eq_nil_of_le (Nat.le_add_right _ _)
    rw [hk, drop, hover, Nat.add_sub_cancel_left, ← List.suffix_iff_eq_drop.mp hr]

/-! One step, and runs. -/

section Runs
variable {enough : List α → Prop} {J J' : Journal α} {cs : List (Call α × Option α)}

theorem kept_append (J : Journal α) (k : Nat) (x : α) : (J.next k (.append x)).kept = (J.drop k).kept ++ [x] := by
  simp [next, kept]

theorem kept_take (J : Journal α) (k : Nat) : (J.next k .take).kept = J.kept := by
  cases hrest : J.rest <;> simp [next, kept, hrest]

/-- The entry taken is the first of those to be given. -/
theorem taken_rest (J : Journal α) : J.rest.head?.toList ++ J.rest.tail = J.rest := by
  cases J.rest <;> simp

/-- What is kept after a step is the end of what was kept and of what the step appended. -/
theorem Step.kept {c : Call α × Option α} (h : Step enough J c J') : J'.kept <:+ J.kept ++ appended [c] := by
  obtain ⟨-, k, rfl, -⟩ := h
  obtain ⟨c, x⟩ := c
  cases c with
  | append y =>
    rw [kept_append, kept_drop]
    exact List.suffix_append_self_iff.mpr (List.drop_suffix k _)
  | take => simp [kept_take, appended]
  | peek => simp [next, appended]
  | rewind => simp [next, Journal.kept, appended]

/-- What is given from a journal in which `got` were given comes in the order of the journal. -/
theorem Step.given {c : Call α × Option α} (h : Step enough J c J') {got all : List α}
    (hall : (got ++ J.rest).Sublist all) (hkept : J.kept <:+ all) :
    (given got [c] ++ J'.rest).Sublist (all ++ appended [c]) := by
  obtain ⟨hx, k, rfl, -⟩ := h
  obtain ⟨c, x⟩ := c
  cases c with
  | append y =>
    have hdrop : (got ++ J.rest.drop (k - J.seen.length)).Sublist (got ++ J.rest) :=
      (List.drop_sublist _ _).append_left got
    simpa [Journal.given, next, drop, appended, ← List.append_assoc] using (hdrop.trans hall).append_right [y]
  | take =>
    obtain rfl : x = J.rest.head? := hx
    simpa [Journal.given, next, appended, taken_rest] using hall
  | peek => simpa [Journal.given, next, appended] using hall
  | rewind => simpa [Journal.given, next, appended] using hkept.sublist

/-- Where all that is kept has been given or is to be, it is so after a step: only what is dropped as well is not
given. -/
theorem Step.covers {c : Call α × Option α} (h : Step enough J c J') {got : List α} (hcovers : J.kept <:+ got ++ J.rest) :
    J'.kept <:+ Journal.given got [c] ++ J'.rest := by
  obtain ⟨hx, k, rfl, -⟩ := h
  obtain ⟨c, x⟩ := c
  cases c with
  | append y =>
    have hkept : (J.drop k).kept <:+ got ++ (J.drop k).rest := by
      by_cases hk : k ≤ J.seen.length
      · have hrest : (J.drop k).rest = J.rest := by simp [drop, Nat.sub_eq_zero_of_le hk]
        rw [kept_drop, hrest]
        exact (List.drop_suffix k _).trans hcovers
      · have hseen : (J.drop k).seen = [] := List.drop_eq_nil_of_le (by omega)
        rw [Journal.kept, hseen, List.nil_append]
        exact List.suffix_append _ _
    rw [kept_append]
    simpa [Journal.given, next, ← List.append_assoc] using List.suffix_append_self_iff.mpr hkept
  | take =>
    obtain rfl : x = J.rest.head? := hx
    rw [kept_take]
    simpa [Journal.given, next, taken_rest] using hcovers
  | peek => simpa [Journal.given, next] using hcovers
  | rewind => simp [Journal.given, next, Journal.kept]

/-- Everything is kept, or enough. -/
theorem Step.all_or_enough {c : Call α × Option α} (h : Step enough J c J') {all : List α}
    (hmono : ∀ xs x, enough xs → enough (xs ++ [x])) (hall : J.kept = all ∨ enough J.kept) :
    J'.kept = all ++ appended [c] ∨ enough J'.kept := by
  obtain ⟨-, k, rfl, henough⟩ := h
  obtain ⟨c, x⟩ := c
  cases c with
  | append y =>
    refine henough.elim (fun hk => ?_) .inr
    rw [kept_append, hk, drop_zero]
    exact hall.imp (fun h => by rw [h]; rfl) (hmono _ y)
  | take => simpa [kept_take, appended] using hall
  | peek => simpa [next, appended] using hall
  | rewind => simpa [next, Journal.kept, appended] using hall

/-- The entries kept are the last ones appended. -/
theorem Path.kept (hp : Lts.Path (Step enough) empty cs J) : J.kept <:+ appended cs := by
  refine Lts.Path.preserves (I := fun J cs => J.kept <:+ appended cs) ?_ (List.nil_suffix (l := appended [])) hp
  intro u cs c v hu hstep
  rw [appended_append]
  exact hstep.kept.trans (List.suffix_append_self_iff.mpr hu)

/-- What the reader was given since it last started again, and what it is to be given, are appended entries, in
order and none of them twice. -/
theorem Path.given (hp : Lts.Path (Step enough) empty cs J) : (given [] cs ++ J.rest).Sublist (appended cs) := by
  have hstart : (Journal.given [] [] ++ (empty (α := α)).rest).Sublist (appended []) ∧
      (empty (α := α)).kept <:+ appended [] := ⟨List.Sublist.refl _, List.nil_suffix⟩
  refine (Lts.Path.preserves (I := fun J cs => (Journal.given [] cs ++ J.rest).Sublist (appended cs) ∧
    J.kept <:+ appended cs) ?_ hstart hp).1
  intro u cs c v hu hstep
  rw [appended_append, given_append]
  exact ⟨hstep.given hu.1 hu.2, hstep.kept.trans (List.suffix_append_self_iff.mpr hu.2)⟩

end Runs

end Journal
