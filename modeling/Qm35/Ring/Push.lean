import Qm35.Ring.Evict

/- `rb_push` on the two layouts: the branch that writes the end marker, the eviction
   loop, and the write itself. `rbPush_spec` says what a push of an admitted payload
   does to the entries retained and to those pending: it drops some of the oldest
   and appends the new one, with two exceptions that are named here. It also says how
   much a push that drops any leaves in use (`PushRetains`): the loop stops at the first
   entry past the new one, and the end marker is less than an entry before the end.

   `Redelivers`: the reader is caught up, the push wraps, and `tail` becomes or is 0.
   The reader is then set to 0 as well, which the eviction loop takes for a reader
   on the oldest entry. `LeavesBehind`: the eviction loop moves `tail` from the end
   marker past the entry at 0 while the reader waits at 0. -/
namespace Qm35.Ring

open ByteMem

variable {rb : Rb} {owner : Nat → Nat} {ret pend old cur : List Tagged} {e : Nat}

/-- The push of `len` bytes wraps under a caught-up reader that it mistakes for one
on the oldest entry. -/
def Redelivers (rb : Rb) (len : Nat) : Prop :=
  rbWraps rb (rbEntrySize len) = true ∧ rb.rdtail = rb.head ∧ (rb.tail = 0 ∨ rb.head ≤ rb.tail)

/-- The push of `len` bytes evicts up to the end marker on the chain from `tail`
while the reader is at offset 0. -/
def LeavesBehind (rb : Rb) (len : Nat) : Prop :=
  rbWraps rb (rbEntrySize len) = false ∧ rb.rdtail = 0 ∧ rb.head ≤ rb.tail ∧
    ∃ e, Reaches rb rb.tail e ∧ e ≠ rb.head ∧ rb.buf.le16 e = 0 ∧ e ≤ rb.head + rbEntrySize len

theorem reaches_head {x : Nat} (h : Reaches rb rb.head x) : x = rb.head := by
  rcases Relation.ReflTransGen.cases_head h with h | ⟨y, hy, _⟩
  · exact h.symm
  · simp [nextPos] at hy

/-- The cursors show that a push, which writes the end marker or not, does neither. -/
def passesBy (wraps : Bool) (head tail rdtail : Nat) : Bool :=
  if wraps then rdtail != head || (tail != 0 && decide (tail < head)) else rdtail != 0 || decide (tail ≤ head)

theorem passesBy_neither {len : Nat} (h : passesBy (rbWraps rb (rbEntrySize len)) rb.head rb.tail rb.rdtail = true) :
    ¬Redelivers rb len ∧ ¬LeavesBehind rb len := by
  constructor
  · rintro ⟨hwraps, hreader, htail⟩
    simp [passesBy, hwraps, hreader] at h
    omega
  · rintro ⟨hwraps, hreader, hle, e, he, hne, -⟩
    have htail : rb.tail ≤ rb.head := by simpa [passesBy, hwraps, hreader] using h
    have heq : rb.tail = rb.head := by omega
    rw [heq] at he
    exact hne (reaches_head he)

theorem rbEntrySize_eq {len : Nat} (h : len ≤ 65531) : rbEntrySize len = 2 + len :=
  u16_of_lt (by omega)

theorem rbWraps_iff (es : Nat) (hs : rb.size = traceRbSize) (hh : rb.head ≤ rb.size) :
    rbWraps rb es = true ↔ rb.size ≤ rb.head + es + 2 := by
  rw [traceRbSize] at hs
  unfold rbWraps u32
  rw [decide_eq_true_iff]
  omega

/-- Without the end marker there is room for the entry, and for the next marker. -/
theorem room_of_not_wraps {es : Nat} (hs : rb.size = traceRbSize) (hh : rb.head ≤ rb.size)
    (hw : rbWraps rb es = false) : rb.head + es + 3 ≤ rb.size := by
  have h := mt (rbWraps_iff es hs hh).mpr (by simp [hw])
  omega

/-! The end marker. -/

/-- `rb` after `rbWrap`. -/
def wrapped (rb : Rb) : Rb :=
  { buf := rb.buf.write rb.head (bytes16 0)
    size := rb.size
    head := 0
    tail := if rb.head ≤ rb.tail then 0 else rb.tail
    rdtail := if rb.head ≤ rb.rdtail then 0 else rb.rdtail }

theorem rbWrap_eq (h : rb.head + 2 ≤ rb.size) : rbWrap rb = some (wrapped rb) := by
  have hb : bytes16 0 = [0, 0] := rfl
  simp only [rbWrap, Rb.store, List.length_cons, List.length_nil, Nat.reduceAdd, h, if_true,
    Option.bind_eq_bind, Option.bind_some, wrapped, hb]
  by_cases ht : rb.head ≤ rb.tail <;> by_cases hr : rb.head ≤ rb.rdtail <;> simp [ht, hr]

theorem Chain.wrapped {a b : Nat} {es : List Tagged} (h : Chain rb.buf owner a es b)
    (hb : b ≤ rb.head) : Chain (wrapped rb).buf owner a es b :=
  h.congr (Mem.Agree.write (.inl hb)) fun _ _ _ => rfl

theorem Flat.wrap (F : Flat rb owner ret pend) (ht : rb.tail < rb.head)
    (hlo : rb.size ≤ rb.head + 65535) :
    ∃ pend', Wrapped (wrapped rb) owner rb.head ret [] pend' ∧
      (pend' = pend ∨ pend' = ret ∧ rb.rdtail = rb.head ∧ rb.tail = 0 ∨
        pend' = [] ∧ ¬OnFlat rb owner ret pend) := by
  have hroom := F.room
  have hrd := F.pendChain.le
  have htail : (wrapped rb).tail = rb.tail := if_neg (by omega)
  have hmark : (wrapped rb).buf.le16 rb.head = 0 := Mem.le16_write (by omega)
  have hold : Chain (wrapped rb).buf owner (wrapped rb).tail ret rb.head := by
    rw [htail]
    exact F.retChain.wrapped (Nat.le_refl _)
  have mk : ∀ {p}, _ → Wrapped (wrapped rb) owner rb.head ret [] p := fun {p} hr =>
    ⟨F.size, (by show 0 + 3 ≤ rb.size; omega), (by show rb.head + 2 ≤ rb.size; omega), hlo, hmark,
      Nat.zero_le _, hold, .nil _, hr⟩
  by_cases hc : rb.rdtail = rb.head
  · -- the reader is caught up, and goes on at 0
    have hr0 : (wrapped rb).rdtail = 0 := if_pos (by omega)
    have hp : pend = [] := by
      have h := F.pendChain
      rw [hc] at h
      exact h.self
    by_cases ht0 : rb.tail = 0
    · refine ⟨ret, mk (.inl ⟨[], ret, rfl, (List.append_nil _).symm, ?_, ?_⟩), .inr (.inl ⟨rfl, hc, ht0⟩)⟩
      · rw [htail, hr0, ht0]
        exact .nil _
      · rw [hr0, ← ht0, ← htail]
        exact hold
    · refine ⟨[], mk (.inr ⟨[], rfl, ?_, ?_, ?_⟩), .inl hp.symm⟩
      · rw [hr0, htail]
        omega
      · rw [hr0]
        exact .nil _
      · rw [hr0]
        exact .nil _
  · have hr : (wrapped rb).rdtail = rb.rdtail := if_neg (by omega)
    by_cases hon : OnFlat rb owner ret pend
    · obtain ⟨con, hret, hcon⟩ := hon
      refine ⟨pend, mk (.inl ⟨con, pend, hret, (List.append_nil _).symm, ?_, ?_⟩), .inl rfl⟩
      · rw [htail, hr]
        exact hcon.wrapped hrd
      · rw [hr]
        exact F.pendChain.wrapped (Nat.le_refl _)
    · rcases F.reader with h | ⟨h0, htp, _⟩
      · exact absurd h hon
      · refine ⟨[], mk (.inr ⟨[], rfl, ?_, ?_, ?_⟩), .inr (.inr ⟨rfl, hon⟩)⟩
        · rw [hr, htail, h0]
          exact htp
        · rw [hr, h0]
          exact .nil _
        · rw [hr, h0]
          exact .nil _

theorem Wrapped.wrap (W : Wrapped rb owner e old cur pend) (ht : rb.head < rb.tail)
    (hlo : rb.size ≤ rb.head + 65535) :
    ∃ pend', Wrapped (wrapped rb) owner rb.head cur [] pend' ∧
      (pend' = pend ∨ pend' = cur ∧ (cur <:+ pend ∨ rb.rdtail = rb.head)) := by
  have hroom := W.room
  have htail : (wrapped rb).tail = 0 := if_pos (by omega)
  have hmark : (wrapped rb).buf.le16 rb.head = 0 := Mem.le16_write (by omega)
  have hold : Chain (wrapped rb).buf owner (wrapped rb).tail cur rb.head := by
    rw [htail]
    exact W.curChain.wrapped (Nat.le_refl _)
  have mk : ∀ {p}, _ → Wrapped (wrapped rb) owner rb.head cur [] p := fun {p} hr =>
    ⟨W.size, (by show 0 + 3 ≤ rb.size; omega), (by show rb.head + 2 ≤ rb.size; omega), hlo, hmark,
      Nat.zero_le _, hold, .nil _, hr⟩
  -- a reader at or above `head` is set to 0, and is on the oldest entry now
  have start : rb.head ≤ rb.rdtail → Wrapped (wrapped rb) owner rb.head cur [] cur := by
    intro h
    have hr0 : (wrapped rb).rdtail = 0 := if_pos h
    refine mk (.inl ⟨[], cur, rfl, (List.append_nil _).symm, ?_, ?_⟩)
    · rw [htail, hr0]
      exact .nil _
    · rw [hr0, ← htail]
      exact hold
  rcases W.reader with ⟨con, pold, _, hpe, hc, _⟩ | ⟨con, hcu, _, hc, hpe⟩
  · have := hc.le
    refine ⟨cur, start (by omega), .inr ⟨rfl, .inl ?_⟩⟩
    rw [hpe]
    exact List.suffix_append _ _
  · have hle := hpe.le
    by_cases hcu' : rb.rdtail = rb.head
    · exact ⟨cur, start (by omega), .inr ⟨rfl, .inr hcu'⟩⟩
    · have hr : (wrapped rb).rdtail = rb.rdtail := if_neg (by omega)
      refine ⟨pend, mk (.inl ⟨con, pend, hcu, (List.append_nil _).symm, ?_, ?_⟩), .inl rfl⟩
      · rw [htail, hr]
        exact hc.wrapped hle
      · rw [hr]
        exact hpe.wrapped (Nat.le_refl _)

/-! The write. -/

/-- `rb` after the size and the payload are stored at `head`. -/
def written (rb : Rb) (data : List UInt8) : Rb :=
  { rb with
    buf := (rb.buf.write rb.head (bytes16 data.length)).write (rb.head + 2) data
    head := rb.head + (2 + data.length) }

section Write
variable {data : List UInt8} {n : Nat}

/-- Where the new entry is. -/
@[simp] theorem written_header (rb : Rb) (data : List UInt8) :
    (written rb data).head - (2 + data.length) = rb.head := Nat.add_sub_cancel _ _

/-- Stored bytes outside the new entry stay. -/
theorem written_agree {a b : Nat} (h : b ≤ rb.head ∨ rb.head + (2 + data.length) ≤ a) :
    Mem.Agree rb.buf (written rb data).buf a b := by
  have h1 : Mem.Agree rb.buf (rb.buf.write rb.head (bytes16 data.length)) a b :=
    Mem.Agree.write (by rw [bytes16_length]; omega)
  exact h1.trans (Mem.Agree.write (by omega))

theorem Chain.written {a b : Nat} {es : List Tagged} (h : Chain rb.buf owner a es b)
    (hb : b ≤ rb.head ∨ rb.head + (2 + data.length) ≤ a) :
    Chain (written rb data).buf (Function.update owner rb.head n) a es b := by
  refine h.congr (written_agree hb) fun x hx hx' => ?_
  rw [Function.update_of_ne (by omega)]

/-- The payload does not run into the size. -/
theorem written_size (h : data.length < 65536) : (written rb data).buf.le16 rb.head = data.length := by
  have hagree : Mem.Agree (rb.buf.write rb.head (bytes16 data.length)) (written rb data).buf
      rb.head (rb.head + 2) := Mem.Agree.write (.inl (Nat.le_refl _))
  rw [← Mem.le16_congr hagree]
  exact Mem.le16_write h

theorem written_entry (h1 : 1 ≤ data.length) (h2 : data.length ≤ 65531) :
    Chain (written rb data).buf (Function.update owner rb.head n) rb.head [(n, data)]
      (written rb data).head := by
  have hlen : (written rb data).buf.le16 rb.head = data.length := written_size (by omega)
  have hread : (written rb data).buf.read (rb.head + 2) data.length = data := Mem.read_write _ _ _
  have ho : (n, data) = (Function.update owner rb.head n rb.head, data) := by
    rw [Function.update_self]
  rw [ho]
  exact .cons h1 h2 hlen hread (.nil _)

theorem Wrapped.write (W : Wrapped rb owner e old cur pend) (h1 : 1 ≤ data.length)
    (h2 : data.length ≤ 65531) (hroom : rb.head + (2 + data.length) < rb.tail) :
    Wrapped (written rb data) (Function.update owner rb.head n) e old (cur ++ [(n, data)])
      (pend ++ [(n, data)]) := by
  have hle := W.oldChain.le
  have hhi := W.markHi
  refine ⟨W.size, ?_, hhi, W.markLo, ?_, ?_, W.oldChain.written (by omega),
    (W.curChain.written (by omega)).append (written_entry h1 h2), ?_⟩
  · show rb.head + (2 + data.length) + 3 ≤ rb.size
    omega
  · rw [← Mem.le16_congr (written_agree (by omega))]
    exact W.mark
  · show rb.head + (2 + data.length) ≤ rb.tail
    omega
  · rcases W.reader with ⟨con, pold, ho, hpe, hc, hpo⟩ | ⟨con, hcu, hlt, hc, hpe⟩
    · have h3 := hc.le
      exact .inl ⟨con, pold, ho, by rw [hpe, List.append_assoc], hc.written (by omega),
        hpo.written (.inr (by show _ ≤ rb.rdtail; omega))⟩
    · have h3 := hpe.le
      exact .inr ⟨con, by rw [hcu, List.append_assoc], hlt, hc.written (.inl h3),
        (hpe.written (by omega)).append (written_entry h1 h2)⟩

theorem Flat.write (F : Flat rb owner ret pend) (h1 : 1 ≤ data.length) (h2 : data.length ≤ 65531)
    (hroom : rb.head + (2 + data.length) + 3 ≤ rb.size) :
    Flat (written rb data) (Function.update owner rb.head n) (ret ++ [(n, data)])
      (pend ++ [(n, data)]) := by
  have hle := F.retChain.le
  refine ⟨F.size, hroom, (F.retChain.written (by omega)).append (written_entry h1 h2),
    (F.pendChain.written (by omega)).append (written_entry h1 h2), ?_, ?_⟩
  · rcases F.reader with ⟨con, hret, hc⟩ | h
    · have h3 := F.pendChain.le
      exact .inl ⟨con, by rw [hret, List.append_assoc], hc.written (.inl h3)⟩
    · obtain ⟨h0, ht, x, hx⟩ := h
      exact .inr ⟨h0, ht, x, by rw [hx, List.cons_append]⟩
  · left
    show rb.tail < rb.head + (2 + data.length)
    omega

end Write

/-! The chain, as a reader follows it. -/

theorem nextPos_entry {x n : Nat} (hx : x ≠ rb.head) (hn : rb.buf.le16 x = n) (h1 : 1 ≤ n) :
    nextPos rb x = some (x + (2 + n)) := by
  simp [nextPos, hx, hn, show n ≠ 0 by omega]

theorem nextPos_marker {x : Nat} (hx : x ≠ rb.head) (hm : rb.buf.le16 x = 0) (h0 : x ≠ 0) :
    nextPos rb x = some 0 := by
  simp [nextPos, hx, hm, h0]

/-- A chain that does not run over `head` leads from its start to its end. -/
theorem Chain.reaches {a b : Nat} {es : List Tagged} (h : Chain rb.buf owner a es b)
    (hh : rb.head < a ∨ b ≤ rb.head) : Reaches rb a b := by
  induction h with
  | nil a => exact .refl
  | @cons a b data es h1 _ h3 _ h5 ih =>
    have hle := h5.le
    exact .head (nextPos_entry (by omega) h3 h1) (ih (by omega))

/-! What a push that evicts leaves in use. -/

/-- It is at least this, with the new entry. -/
def leastRetained : Nat := traceRbSize - 131072

/-- A push that moves `tail` leaves so much, and one that does not keeps everything. -/
structure PushRetains (rb rb' : Rb) (ret ret' : List Tagged) (x : Tagged) : Prop where
  kept : rb'.tail = rb.tail → ret' = ret
  evicted : rb'.tail ≠ rb.tail → leastRetained ≤ storedSize (ret' ++ [x])

section Retains
variable {rb' : Rb} {es : Nat} {ret' pend' : List Tagged} {x : Tagged}

/-- After the loop, with the new entry. -/
theorem Evicted.stored (W : Wrapped rb owner e old cur pend)
    (E : Evicted es rb rb' owner e (old ++ cur) pend ret' pend') (hends : Ends rb rb' e es)
    (hmoved : rb'.tail ≠ rb.tail) (hx : 2 + x.2.length = es) : leastRetained ≤ storedSize (ret' ++ [x]) := by
  have hsize : storedSize (ret' ++ [x]) = storedSize ret' + es := by
    rw [storedSize_append, ← hx]
    rfl
  have hfar : rb.tail < rb'.tail ∧ rb'.tail ≤ rb.head + es + 65537 ∨
      rb'.tail < rb.head ∧ rb'.tail ≤ 65537 ∧ e ≤ rb.head + es :=
    hends.resolve_left fun h => hmoved (congrArg Rb.tail h.1)
  have hleast : leastRetained = 917503 := rfl
  have hhead := E.head
  have hhd := W.headLe
  have hsz := W.size
  have hlo := W.markLo
  rw [traceRbSize] at hsz
  rw [hsize, hleast]
  rcases E.layout with ⟨old', cur', W', rfl, hlt⟩ | ⟨F, hlt, _⟩
  · have hold := W'.oldChain.span
    have hcur := W'.curChain.span
    rw [storedSize_append]
    omega
  · have hret := F.retChain.span
    omega

theorem Evicted.retains (W : Wrapped rb owner e old cur pend)
    (E : Evicted es rb rb' owner e (old ++ cur) pend ret' pend') (hends : Ends rb rb' e es)
    (hx : 2 + x.2.length = es) : PushRetains rb rb' (old ++ cur) ret' x := by
  refine ⟨fun h => ?_, fun h => E.stored W hends h hx⟩
  have hhd := W.headLe
  have hsame : rb' = rb := by
    rcases hends with ⟨heq, -⟩ | ⟨hlt, _⟩ | ⟨hlt, _⟩
    · exact heq
    · omega
    · omega
  subst hsame
  -- the loop has not gone on, so the chains are the same ones
  rcases E.layout with ⟨old', cur', W', rfl, _⟩ | ⟨_, hlt, _⟩
  · rw [W'.oldChain.unique W.oldChain, W'.curChain.unique W.curChain]
  · omega

end Retains

/-! The push as a whole. -/

/-- What a push does to the entries retained and pending before the new one is added. -/
structure PushKeeps (rb : Rb) (len : Nat) (ret pend ret' pend' : List Tagged) : Prop where
  suffix : ret' <:+ ret
  reader : pend' = pend ∨ pend' = ret' ∧ (ret' <:+ pend ∨ Redelivers rb len) ∨
    pend' = [] ∧ ∀ con, ret ≠ con ++ pend
  onChain : ¬LeavesBehind rb len → (∃ con, ret = con ++ pend) → ∃ con, ret' = con ++ pend'

section Spec
variable {data : List UInt8}

theorem Wrapped.onChain (W : Wrapped rb owner e old cur pend) : ∃ con, old ++ cur = con ++ pend := by
  rcases W.reader with ⟨con, pold, ho, hpe, _, _⟩ | ⟨con, hcu, _, _, _⟩
  · exact ⟨con, by rw [ho, hpe, List.append_assoc]⟩
  · exact ⟨old ++ con, by rw [hcu, List.append_assoc]⟩

/-- The evicted layout, with the new entry written. -/
theorem Evicted.write (n : Nat) {rb' : Rb} {ret' pend' : List Tagged} (h1 : 1 ≤ data.length)
    (h2 : data.length ≤ 65531) (E : Evicted (2 + data.length) rb rb' owner e ret pend ret' pend')
    (hroom : 0 < rb.head → rb.head + (2 + data.length) + 3 ≤ rb.size) :
    rb'.head + (2 + data.length) ≤ rb'.size ∧
    Lay (written rb' data) (Function.update owner rb'.head n) (ret' ++ [(n, data)])
      (pend' ++ [(n, data)]) := by
  rcases E.layout with ⟨old, cur, W, hret, hlt⟩ | ⟨F, hlt, _⟩
  · have hle := W.oldChain.le
    have hhi := W.markHi
    refine ⟨by omega, .inr ⟨e, old, cur ++ [(n, data)], W.write h1 h2 hlt, ?_, ?_, hlt⟩⟩
    · rw [hret, List.append_assoc]
    · show 0 < rb'.head + (2 + data.length)
      omega
  · have hr : rb'.head + (2 + data.length) + 3 ≤ rb'.size := by
      rw [E.head, E.size]
      rw [E.head] at hlt
      exact hroom (by omega)
    exact ⟨by omega, .inl (F.write h1 h2 hr)⟩

/-- `rb_push` once the branches before the write are evaluated. -/
theorem rbPush_stages {rb1 rb2 : Rb} (h1 : 1 ≤ data.length)
    (hw : (if rbWraps rb (rbEntrySize data.length) then rbWrap rb else some rb) = some rb1)
    (he : rbEvict (rbEntrySize data.length) rbEvictRounds rb1 = some rb2)
    (hs : rb2.size = traceRbSize) (hb : rb2.head + (2 + data.length) ≤ rb2.size) :
    rbPush rb data = some (0, written rb2 data) := by
  rw [traceRbSize] at hs
  have hu1 : u32 (rb2.head + 2) = rb2.head + 2 := u32_of_lt (by omega)
  have hu2 : u32 (rb2.head + 2 + data.length) = rb2.head + (2 + data.length) := by
    rw [u32_of_lt (by omega)]
    omega
  have hs1 : rb2.head + 2 ≤ rb2.size := by omega
  have hs2 : rb2.head + 2 + data.length ≤ rb2.size := by omega
  simp only [rbPush, show data.length ≠ 0 by omega, if_false, hw, he, Rb.store,
    bytes16_length, hs1, hs2, if_true, hu1, hu2, Option.bind_eq_bind, Option.bind_some, written]

/-- The same for an admitted payload. -/
theorem rbPush_eq {rb1 rb2 : Rb} (h1 : 1 ≤ data.length) (h2 : data.length ≤ 65531)
    (hw : (if rbWraps rb (2 + data.length) then rbWrap rb else some rb) = some rb1)
    (he : rbEvict (2 + data.length) rbEvictRounds rb1 = some rb2)
    (hs : rb2.size = traceRbSize) (hb : rb2.head + (2 + data.length) ≤ rb2.size) :
    rbPush rb data = some (0, written rb2 data) := by
  rw [← rbEntrySize_eq h2] at hw he
  exact rbPush_stages h1 hw he hs hb

/-- The loop evicts nothing in the flat layout. -/
theorem Flat.rbEvict_eq (F : Flat rb owner ret pend) (es : Nat) : rbEvict es rbEvictRounds rb = some rb := by
  rcases F.used with hlt | ⟨hh, hz⟩
  · exact rbEvict_stop (by simp [rbOverruns, Nat.not_le.mpr hlt])
  · -- nothing was ever written: the loop finds no entry to skip
    have hroom := F.room
    have ht : rb.tail = 0 := by
      have := F.retChain.le
      omega
    have hr : rb.rdtail = 0 := by
      have := F.pendChain.le
      omega
    have hov : rbOverruns rb es = true := by simp [rbOverruns, hh, ht]
    have hskip : rbSkip rb = some (rb, false) := rbSkip_unwritten (by omega) ht hz
    exact rbEvict_unwritten hov hskip (ht.trans hr.symm)

/-- A push over a buffer in which the new entry needs no end marker. -/
theorem rbPush_straight (n : Nat) (L : Lay rb owner ret pend) (h1 : 1 ≤ data.length)
    (h2 : data.length ≤ 65531) (hw : rbWraps rb (2 + data.length) = false) :
    ∃ rb2 ret' pend', rbPush rb data = some (0, written rb2 data) ∧
      Lay (written rb2 data) (Function.update owner rb2.head n) (ret' ++ [(n, data)])
        (pend' ++ [(n, data)]) ∧ PushKeeps rb data.length ret pend ret' pend' ∧
        PushRetains rb rb2 ret ret' (n, data) := by
  have hw' : (if rbWraps rb (2 + data.length) then rbWrap rb else some rb) = some rb := by
    simp [hw]
  rcases L with F | ⟨e, old, cur, W, rfl, h0, hlt⟩
  · have hsz := F.size
    have hh := F.room
    have hroom := room_of_not_wraps hsz (by omega) hw
    exact ⟨rb, ret, pend, rbPush_eq h1 h2 hw' (F.rbEvict_eq _) hsz (by omega), .inl (F.write h1 h2 hroom),
      ⟨List.suffix_refl _, .inl rfl, fun _ h => h⟩, fun _ => rfl, fun h => absurd rfl h⟩
  · have hroom := W.room
    have hsz := W.size
    obtain ⟨rb2, ret', pend', hev, E, hends⟩ := rbEvict_wrapped
      (show 2 + data.length ≤ 65533 by omega)
      rbEvictRounds rb old pend W (by rw [rbEvictRounds]; omega)
    have hspace := room_of_not_wraps hsz (by omega) hw
    obtain ⟨hb, hL⟩ := E.write n h1 h2 (fun _ => hspace)
    refine ⟨rb2, ret', pend', rbPush_eq h1 h2 hw' hev (E.size.trans hsz) hb, hL, ⟨E.suffix, ?_, ?_⟩,
      E.retains W hends rfl⟩
    · exact E.reader.imp_right fun h => .inl ⟨h.1, .inl h.2⟩
    · intro hlb _
      rcases E.layout with ⟨old', cur', W', hret', _⟩ | ⟨_, _, ⟨con, hc, _⟩ | ⟨hr0, hov⟩⟩
      · rw [hret']
        exact W'.onChain
      · exact ⟨con, hc⟩
      · refine absurd ⟨by rw [rbEntrySize_eq h2]; exact hw, hr0, by omega, e, ?_, ?_, W.mark, ?_⟩ hlb
        · exact W.oldChain.reaches (.inl hlt)
        · have := W.oldChain.le
          omega
        · rw [rbEntrySize_eq h2]
          exact hov

/-- The wrap, whatever the layout: it leaves a chain from `tail` to the marker and an
empty one at 0. -/
theorem Lay.wrap (L : Lay rb owner ret pend) (h2 : data.length ≤ 65531)
    (hw : rbWraps rb (2 + data.length) = true) :
    rbWrap rb = some (wrapped rb) ∧
    ∃ ret1 pend1, Wrapped (wrapped rb) owner rb.head ret1 [] pend1 ∧ ret1 <:+ ret ∧
      (pend1 = pend ∨ pend1 = ret1 ∧ (ret1 <:+ pend ∨ Redelivers rb data.length) ∨
        pend1 = [] ∧ ∀ con, ret ≠ con ++ pend) ∧
      (ret1 = ret ∧ (wrapped rb).tail = rb.tail ∨ (wrapped rb).tail = 0 ∧ 131072 < rb.tail) := by
  have hw' : rbWraps rb (rbEntrySize data.length) = true := by rwa [rbEntrySize_eq h2]
  rcases L with F | ⟨e, old, cur, W, hret, h0, hlt⟩
  · have hsz := F.size
    have hroom := F.room
    have hlo := (rbWraps_iff (2 + data.length) hsz (by omega)).mp hw
    have ht : rb.tail < rb.head := by
      rw [traceRbSize] at hsz
      rcases F.used with h | ⟨h, _⟩ <;> omega
    obtain ⟨pend1, W1, hp⟩ := F.wrap ht (by omega)
    -- flat: all entries stay, with the end marker behind them
    have htail : (wrapped rb).tail = rb.tail := if_neg (by omega)
    refine ⟨rbWrap_eq (by omega), ret, pend1, W1, List.suffix_refl _, ?_, .inl ⟨rfl, htail⟩⟩
    rcases hp with hp | ⟨hp, hr, ht0⟩ | ⟨hp, hoff⟩
    · exact .inl hp
    · exact .inr (.inl ⟨hp, .inr ⟨hw', hr, .inl ht0⟩⟩)
    · exact .inr (.inr ⟨hp, fun con h => hoff (F.onFlat h)⟩)
  · have hroom := W.room
    have hsz := W.size
    have hlo := (rbWraps_iff (2 + data.length) hsz (by omega)).mp hw
    obtain ⟨pend1, W1, hp⟩ := W.wrap hlt (by omega)
    -- wrapped: those before the end marker are dropped, and `tail` is at the start
    have htail : (wrapped rb).tail = 0 := if_pos (by omega)
    have hfar : 131072 < rb.tail := by
      rw [traceRbSize] at hsz
      omega
    refine ⟨rbWrap_eq (by omega), cur, pend1, W1, ?_, ?_, .inr ⟨htail, hfar⟩⟩
    · rw [hret]
      exact List.suffix_append _ _
    · rcases hp with hp | ⟨hp, hs⟩
      · exact .inl hp
      · exact .inr (.inl ⟨hp, hs.imp_right fun hr => ⟨hw', hr, .inr (by omega)⟩⟩)

/-- What the loop retains of a wrapped buffer. Where the wrap has dropped what was before the old end marker, the loop
goes on from 0. -/
theorem PushRetains.of_wrapped {rb2 : Rb} {ret1 ret' : List Tagged} {x : Tagged} {es : Nat} (hes : es ≤ 65533)
    (R : PushRetains (wrapped rb) rb2 ret1 ret' x) (hends : Ends (wrapped rb) rb2 e es)
    (hret : ret1 = ret ∧ (wrapped rb).tail = rb.tail ∨ (wrapped rb).tail = 0 ∧ 131072 < rb.tail) :
    PushRetains rb rb2 ret ret' x := by
  rcases hret with ⟨rfl, htail⟩ | ⟨htail, hfar⟩
  · exact ⟨fun h => R.kept (h.trans htail.symm), fun h => R.evicted fun h' => h (h'.trans htail)⟩
  · have hhead : (wrapped rb).head = 0 := rfl
    have hmoved : 0 < rb2.tail ∧ rb2.tail ≤ es + 65537 := by
      rcases hends with ⟨-, hstop⟩ | ⟨h, h'⟩ | ⟨h, -⟩
      · simp [rbOverruns, htail, hhead] at hstop
      · omega
      · omega
    refine ⟨fun h => ?_, fun _ => R.evicted ?_⟩
    · omega
    · omega

/-- A push that writes the end marker and starts again at offset 0. -/
theorem rbPush_wrapping (n : Nat) (L : Lay rb owner ret pend) (h1 : 1 ≤ data.length)
    (h2 : data.length ≤ 65531) (hw : rbWraps rb (2 + data.length) = true) :
    ∃ rb2 ret' pend', rbPush rb data = some (0, written rb2 data) ∧
      Lay (written rb2 data) (Function.update owner rb2.head n) (ret' ++ [(n, data)])
        (pend' ++ [(n, data)]) ∧ PushKeeps rb data.length ret pend ret' pend' ∧
        PushRetains rb rb2 ret ret' (n, data) := by
  obtain ⟨hwrap, ret1, pend1, W1, hs1, hp1, hret⟩ := L.wrap h2 hw
  have hw' : (if rbWraps rb (2 + data.length) then rbWrap rb else some rb) = some (wrapped rb) := by
    rw [if_pos hw, hwrap]
  have hh : (wrapped rb).head = 0 := rfl
  obtain ⟨rb2, ret', pend', hev, E, hends⟩ := rbEvict_wrapped
      (show 2 + data.length ≤ 65533 by omega)
    rbEvictRounds (wrapped rb) ret1 pend1 W1 (by rw [rbEvictRounds, hh]; omega)
  have hloop : PushRetains (wrapped rb) rb2 (ret1 ++ []) ret' (n, data) := E.retains W1 hends rfl
  rw [List.append_nil] at E hloop
  have hretains := hloop.of_wrapped (by omega) hends hret
  obtain ⟨hb, hL⟩ := E.write n h1 h2 (fun h => absurd h (by omega))
  -- with `head` at 0 the layout is still the wrapped one, where the reader is on the chain
  have hcon : ∃ con, ret' = con ++ pend' := by
    rcases E.layout with ⟨old', cur', W', hret', _⟩ | ⟨_, hlt, _⟩
    · rw [hret']
      exact W'.onChain
    · rw [E.head, hh] at hlt
      omega
  refine ⟨rb2, ret', pend', rbPush_eq h1 h2 hw' hev (E.size.trans W1.size) hb, hL,
    ⟨E.suffix.trans hs1, ?_, fun _ _ => hcon⟩, hretains⟩
  -- the reader: where the wrap has put it, or where the eviction has
  rcases E.reader with hk | ⟨hd, hds⟩
  · rcases hp1 with hp | ⟨hp, h⟩ | ⟨hp, h⟩
    · exact .inl (hk.trans hp)
    · have hall : pend' = ret' :=
        eq_of_suffix_of_append (by rw [hk, hp]; exact E.suffix) hcon
      refine .inr (.inl ⟨hall, h.imp_left fun h => ?_⟩)
      exact E.suffix.trans h
    · exact .inr (.inr ⟨hk.trans hp, h⟩)
  · rcases hp1 with hp | ⟨hp, h⟩ | ⟨hp, _⟩
    · exact .inr (.inl ⟨hd, .inl (by rw [← hp]; exact hds)⟩)
    · exact .inr (.inl ⟨hd, h.imp_left fun h => E.suffix.trans h⟩)
    · rw [hp] at hds
      rw [List.suffix_nil] at hds
      exact .inr (.inl ⟨hd, .inl (by rw [hds]; exact List.nil_suffix)⟩)

/-- `rb_push` of an admitted payload, in any state between two calls. -/
theorem rbPush_spec (n : Nat) (L : Lay rb owner ret pend) (h1 : 1 ≤ data.length) (h2 : data.length ≤ 65531) :
    ∃ rb' ret' pend', rbPush rb data = some (0, rb') ∧
      Lay rb' (Function.update owner (rb'.head - (2 + data.length)) n) (ret' ++ [(n, data)])
        (pend' ++ [(n, data)]) ∧ PushKeeps rb data.length ret pend ret' pend' ∧
        PushRetains rb rb' ret ret' (n, data) := by
  cases hw : rbWraps rb (2 + data.length) with
  | false =>
    obtain ⟨rb2, ret', pend', hrun, hL, hk, hr⟩ := rbPush_straight n L h1 h2 hw
    exact ⟨written rb2 data, ret', pend', hrun, by rw [written_header]; exact hL, hk, hr.kept, hr.evicted⟩
  | true =>
    obtain ⟨rb2, ret', pend', hrun, hL, hk, hr⟩ := rbPush_wrapping n L h1 h2 hw
    exact ⟨written rb2 data, ret', pend', hrun, by rw [written_header]; exact hL, hk, hr.kept, hr.evicted⟩

end Spec

end Qm35.Ring
