import Qm35.Ring.History

/- How entries lie in the trace buffer. `Chain buf owner a es b` says that the
   entries `es`, tagged with the numbers of the pushes that wrote them, are stored
   one after the other from offset `a` up to offset `b`. A chain depends on the
   bytes between its ends only (`Chain.congr`), and its ends and the buffer
   determine it (`Chain.unique`, `Chain.start_unique`).

   The buffer is in one of two layouts. `Flat`: the retained entries are one chain
   from `tail` to `head`. `Wrapped`: they are a chain from `tail` to an end marker
   near the end of the buffer and a second one from 0 to `head`, which is below
   `tail`. In both the entries the reader has still to see are a chain from
   `rdtail`; the reader is on the retained chain except for one case of `Flat`,
   where it was left at offset 0, one entry below `tail`. -/
namespace Qm35.Ring

open ByteMem

abbrev Tagged := Nat × List UInt8

/-- Bytes a list of entries takes in the buffer. -/
def storedSize (es : List Tagged) : Nat := (es.map fun e => 2 + e.2.length).sum

@[simp] theorem storedSize_nil : storedSize [] = 0 := rfl

@[simp] theorem storedSize_cons (i : Nat) (data : List UInt8) (es : List Tagged) :
    storedSize ((i, data) :: es) = 2 + data.length + storedSize es := rfl

theorem storedSize_append (xs ys : List Tagged) : storedSize (xs ++ ys) = storedSize xs + storedSize ys := by
  simp [storedSize]

theorem storedSize_payloads (xs : List Tagged) :
    storedSize xs = ((xs.map Prod.snd).map fun data => 2 + data.length).sum := by
  rw [List.map_map]
  rfl

inductive Chain (buf : Mem) (owner : Nat → Nat) : Nat → List Tagged → Nat → Prop
  | nil (a : Nat) : Chain buf owner a [] a
  | cons {a b : Nat} {data : List UInt8} {es : List Tagged} :
      1 ≤ data.length → data.length ≤ 65531 → buf.le16 a = data.length →
      buf.read (a + 2) data.length = data →
      Chain buf owner (a + (2 + data.length)) es b →
      Chain buf owner a ((owner a, data) :: es) b

namespace Chain

variable {buf buf' : Mem} {owner owner' : Nat → Nat} {a b c : Nat} {es es' xs ys : List Tagged}

theorem span (h : Chain buf owner a es b) : b = a + storedSize es := by
  induction h with
  | nil a => rfl
  | cons _ _ _ _ _ ih =>
    rw [ih, storedSize_cons]
    omega

theorem le (h : Chain buf owner a es b) : a ≤ b := by
  have := h.span
  omega

theorem self (h : Chain buf owner a es a) : es = [] := by
  cases h with
  | nil => rfl
  | cons _ _ _ _ h =>
    have := h.le
    omega

theorem ne_nil (h : Chain buf owner a es b) (hab : a ≠ b) : es ≠ [] := by
  rintro rfl
  cases h
  exact hab rfl

theorem append (h : Chain buf owner a xs b) (h' : Chain buf owner b ys c) :
    Chain buf owner a (xs ++ ys) c := by
  induction h with
  | nil a => exact h'
  | cons h1 h2 h3 h4 _ ih => exact .cons h1 h2 h3 h4 (ih h')

theorem congr (hb : Mem.Agree buf buf' a b) (ho : ∀ x, a ≤ x → x < b → owner x = owner' x)
    (h : Chain buf owner a es b) : Chain buf' owner' a es b := by
  induction h with
  | nil a => exact .nil a
  | @cons a b data es h1 h2 h3 h4 h5 ih =>
    have hle := h5.le
    rw [ho a (by omega) (by omega)]
    refine .cons h1 h2 ?_ ?_ (ih (hb.mono (by omega) (by omega)) ?_)
    · rw [← h3]
      exact (Mem.le16_congr (hb.mono (by omega) (by omega))).symm
    · rw [← Mem.read_congr (hb.mono (by omega) (by omega))]
      exact h4
    · intro x hx
      exact ho x (by omega)

theorem unique (h : Chain buf owner a es b) (h' : Chain buf owner a es' b) : es = es' := by
  induction h generalizing es' with
  | nil a => exact h'.self.symm
  | @cons a b data es _ _ h3 h4 h5 ih =>
    cases h' with
    | nil =>
      have := h5.le
      omega
    | @cons _ _ data' es' _ _ h3' h4' h5' =>
      have hlen : data.length = data'.length := h3.symm.trans h3'
      have hd : data = data' := by rw [← h4, ← h4', hlen]
      subst hd
      rw [ih h5']

theorem start_unique (h : Chain buf owner a es c) (h' : Chain buf owner b es c) : a = b := by
  have h1 := h.span
  have h2 := h'.span
  omega

/-- The first entry of a chain that is not empty. -/
theorem head_entry (h : Chain buf owner a es b) (hab : a ≠ b) :
    ∃ data es', es = (owner a, data) :: es' ∧ 1 ≤ data.length ∧ data.length ≤ 65531 ∧
      buf.le16 a = data.length ∧ buf.read (a + 2) data.length = data ∧
      Chain buf owner (a + (2 + data.length)) es' b := by
  cases h with
  | nil => exact absurd rfl hab
  | cons h1 h2 h3 h4 h5 => exact ⟨_, _, rfl, h1, h2, h3, h4, h5⟩

end Chain

/-! The two layouts. -/

/-- The reader is on the chain from `tail`: it has passed `con` and still has `pend`. -/
def OnFlat (rb : Rb) (owner : Nat → Nat) (ret pend : List Tagged) : Prop :=
  ∃ con, ret = con ++ pend ∧ Chain rb.buf owner rb.tail con rb.rdtail

/-- One chain from `tail` to `head`. -/
structure Flat (rb : Rb) (owner : Nat → Nat) (ret pend : List Tagged) : Prop where
  size : rb.size = traceRbSize
  room : rb.head + 3 ≤ rb.size
  retChain : Chain rb.buf owner rb.tail ret rb.head
  pendChain : Chain rb.buf owner rb.rdtail pend rb.head
  reader : OnFlat rb owner ret pend ∨ rb.rdtail = 0 ∧ 0 < rb.tail ∧ ∃ x, pend = x :: ret
  used : rb.tail < rb.head ∨ rb.head = 0 ∧ rb.buf.le16 0 = 0

/-- A chain from `tail` to the end marker at `e`, and one from 0 to `head`. The reader
is on one of the two. -/
structure Wrapped (rb : Rb) (owner : Nat → Nat) (e : Nat) (old cur pend : List Tagged) : Prop where
  size : rb.size = traceRbSize
  room : rb.head + 3 ≤ rb.size
  markHi : e + 2 ≤ rb.size
  markLo : rb.size ≤ e + 65535
  mark : rb.buf.le16 e = 0
  headLe : rb.head ≤ rb.tail
  oldChain : Chain rb.buf owner rb.tail old e
  curChain : Chain rb.buf owner 0 cur rb.head
  reader :
    (∃ con pold, old = con ++ pold ∧ pend = pold ++ cur ∧
      Chain rb.buf owner rb.tail con rb.rdtail ∧ Chain rb.buf owner rb.rdtail pold e) ∨
    (∃ con, cur = con ++ pend ∧ rb.rdtail < rb.tail ∧
      Chain rb.buf owner 0 con rb.rdtail ∧ Chain rb.buf owner rb.rdtail pend rb.head)

/-- The layout between two calls: `ret` are the entries retained, oldest first, and
`pend` those the reader has still to see. -/
def Lay (rb : Rb) (owner : Nat → Nat) (ret pend : List Tagged) : Prop :=
  Flat rb owner ret pend ∨
  ∃ e old cur, Wrapped rb owner e old cur pend ∧ ret = old ++ cur ∧ 0 < rb.head ∧ rb.head < rb.tail

/-- A reader left below `tail` has an entry to see that is no longer retained. -/
theorem Flat.onFlat {rb : Rb} {owner : Nat → Nat} {ret pend con : List Tagged}
    (F : Flat rb owner ret pend) (h : ret = con ++ pend) : OnFlat rb owner ret pend := by
  rcases F.reader with hr | ⟨_, _, x, hx⟩
  · exact hr
  · have hlen := congrArg List.length h
    rw [hx] at hlen
    simp at hlen
    omega

end Qm35.Ring
