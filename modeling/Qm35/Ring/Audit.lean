import Qm35.Ring.Reset

/- The calls of the trace buffer, audited. An audited call does what the call does, and
   keeps a record of every store into the buffer; it is `none` not only where a copy
   would leave the buffer or the eviction loop would not end, but also where a sum
   or a difference of sizes and offsets would wrap around.

   In a buffer of the trace size that last case adds nothing: a size field that has been
   copied was inside the buffer, so the offset after its entry is far below 2^32. The
   audited calls are therefore the calls themselves, with the stores beside. -/
namespace Qm35.Ring

open ByteMem

/-! The audited calls. -/

/-- A sum of 32 bits that does not wrap around. -/
def add32 (a b : Nat) : Option Nat := if a + b < 4294967296 then some (a + b) else none

/-- One of 16 bits. -/
def add16 (a b : Nat) : Option Nat := if a + b < 65536 then some (a + b) else none

/-- A difference that is not negative. -/
def sub32 (a b : Nat) : Option Nat := if b ≤ a then some (a - b) else none

/-- What a store into the buffer puts there. -/
inductive Kind where
  | header
  | payload
  | marker
deriving DecidableEq

structure Store where
  kind : Kind
  off : Nat
  len : Nat

/-- The buffer, and the stores into it, the last one first. -/
structure Audit where
  rb : Rb
  stores : List Store

def Audit.store (a : Audit) (kind : Kind) (off : Nat) (bs : List UInt8) : Option Audit := do
  let rb ← a.rb.store off bs
  some ⟨rb, ⟨kind, off, bs.length⟩ :: a.stores⟩

/-- `rb_pop` -/
def auditPop (rb : Rb) : Option (Option (List UInt8) × Rb) := do
  let (len, tail) ← rbNextSizeAt rb rb.rdtail
  if len = 0 then some (none, { rb with rdtail := tail })
  else
    let tail ← add32 tail 2
    let trace ← rb.load tail len
    let tail ← add32 tail len
    some (some trace, { rb with rdtail := tail })

/-- `__rb_skip` -/
def auditSkip (rb : Rb) : Option (Rb × Bool) := do
  let nextEntrySize ← rb.load16 rb.tail
  if nextEntrySize = 0 then
    if rb.tail = 0 then some (rb, false)
    else
      let nextEntrySize ← rb.load16 0
      let tail ← add32 0 (2 + nextEntrySize)
      some ({ rb with tail := tail }, true)
  else
    let tail ← add32 rb.tail (2 + nextEntrySize)
    some ({ rb with tail := tail }, true)

/-- The test of the eviction loop; the sum is evaluated only if `head` is not past `tail`. -/
def auditOverruns (rb : Rb) (entrySize : Nat) : Option Bool :=
  if rb.head ≤ rb.tail then do
    let limit ← add32 rb.head entrySize
    some (decide (rb.tail ≤ limit))
  else some false

/-- The eviction loop of `rb_push`. -/
def auditEvict (entrySize : Nat) : Nat → Rb → Option Rb
  | 0, _ => none
  | fuel + 1, rb => do
    let overruns ← auditOverruns rb entrySize
    if overruns then do
      let (rb', skipped) ← auditSkip rb
      let rb' := if rb.tail = rb.rdtail then { rb' with rdtail := rb'.tail } else rb'
      if skipped then auditEvict entrySize fuel rb' else some rb'
    else some rb

/-- The branch that writes the end marker. -/
def auditWrap (a : Audit) : Option Audit := do
  let a ← a.store .marker a.rb.head [0, 0]
  let rb := if a.rb.head ≤ a.rb.tail then { a.rb with tail := 0 } else a.rb
  let rb := if a.rb.head ≤ rb.rdtail then { rb with rdtail := 0 } else rb
  some { a with rb := { rb with head := 0 } }

/-- `rb_push` -/
def auditPush (a : Audit) (data : List UInt8) : Option (Nat × Audit) :=
  let len := data.length
  if len = 0 then some (1, a)
  else do
    let entrySize ← add16 2 len
    let availableToEnd ← sub32 a.rb.size a.rb.head
    let a ← (if availableToEnd ≤ entrySize + 2 then auditWrap a else some a)
    let rb ← auditEvict entrySize rbEvictRounds a.rb
    let a ← Audit.store ⟨rb, a.stores⟩ .header rb.head (bytes16 len)
    let head ← add32 a.rb.head 2
    let a ← Audit.store ⟨{ a.rb with head := head }, a.stores⟩ .payload head data
    let head ← add32 head len
    some (0, ⟨{ a.rb with head := head }, a.stores⟩)

def auditStep (a : Audit) : RbOp → Option Audit
  | .push data => do
    let (_, a) ← auditPush a data
    some a
  | .pop => do
    let (_, rb) ← auditPop a.rb
    some { a with rb := rb }
  | .nextSize => do
    let (_, rb) ← rbNextSize a.rb
    some { a with rb := rb }
  | .canPop => some a
  | .reset => some { a with rb := rbReset a.rb }

/-- `rb_init` of a zero-filled buffer of the trace size. -/
def auditInit : Audit := ⟨rbInit (fun _ => 0) traceRbSize, []⟩

/-! The sums of the calls do not wrap around: the buffer is small, and a copy inside it comes before. -/

section Sums
variable {rb rb' : Rb}

theorem add32_eq {a b : Nat} (h : a + b < 4294967296) : add32 a b = some (u32 (a + b)) := by
  rw [add32, if_pos h, u32_of_lt h]

theorem load16_some {off n : Nat} (h : rb.load16 off = some n) : off + 2 ≤ rb.size ∧ n < 65536 := by
  unfold Rb.load16 at h
  split at h
  · cases h
    exact ⟨by assumption, Mem.le16_lt _ _⟩
  · cases h

theorem auditSkip_eq (hs : rb.size = traceRbSize) : auditSkip rb = rbSkip rb := by
  have hsize : rb.size = 1048575 := hs
  unfold auditSkip rbSkip
  cases hl : rb.load16 rb.tail with
  | none => rfl
  | some n =>
    obtain ⟨hb, hn⟩ := load16_some hl
    simp only [Option.bind_eq_bind, Option.bind_some]
    rw [add32_eq (show rb.tail + (2 + n) < 4294967296 by omega)]
    cases hl0 : rb.load16 0 with
    | none => rfl
    | some k =>
      obtain ⟨-, hk⟩ := load16_some hl0
      simp only [Option.bind_some]
      rw [add32_eq (show 0 + (2 + k) < 4294967296 by omega)]
      rfl

theorem rbSkip_keeps {skipped : Bool} (h : rbSkip rb = some (rb', skipped)) :
    rb'.size = rb.size ∧ rb'.head = rb.head := by
  unfold rbSkip at h
  simp only [Option.bind_eq_bind, Option.bind_eq_some_iff] at h
  obtain ⟨n, -, h⟩ := h
  split at h
  · split at h
    · cases h
      exact ⟨rfl, rfl⟩
    · obtain ⟨k, -, h⟩ := Option.bind_eq_some_iff.mp h
      cases h
      exact ⟨rfl, rfl⟩
  · cases h
    exact ⟨rfl, rfl⟩

theorem auditOverruns_eq {entrySize : Nat} (h : rb.head + entrySize < 4294967296) :
    auditOverruns rb entrySize = some (rbOverruns rb entrySize) := by
  unfold auditOverruns rbOverruns
  rw [add32_eq h]
  split <;> simp [*]

theorem auditEvict_eq {entrySize fuel : Nat} (hs : rb.size = traceRbSize)
    (hh : rb.head + entrySize < 4294967296) : auditEvict entrySize fuel rb = rbEvict entrySize fuel rb := by
  induction fuel generalizing rb with
  | zero => rfl
  | succ fuel ih =>
    unfold auditEvict rbEvict
    rw [auditOverruns_eq hh, auditSkip_eq hs]
    simp only [Option.bind_eq_bind, Option.bind_some]
    split
    · cases hskip : rbSkip rb with
      | none => rfl
      | some r =>
        obtain ⟨rb', skipped⟩ := r
        obtain ⟨hsize, hhead⟩ := rbSkip_keeps hskip
        have hkeep : (if rb.tail = rb.rdtail then { rb' with rdtail := rb'.tail } else rb').size = traceRbSize ∧
            (if rb.tail = rb.rdtail then { rb' with rdtail := rb'.tail } else rb').head + entrySize < 4294967296 := by
          split <;> exact ⟨hsize.trans hs, by rw [hhead]; exact hh⟩
        simp only [Option.bind_some]
        rw [ih hkeep.1 hkeep.2]
    · rfl

theorem rbNextSizeAt_bound {t n t' : Nat} (h : rbNextSizeAt rb t = some (n, t')) (hn : n ≠ 0) :
    t' + 2 ≤ rb.size ∧ n < 65536 := by
  unfold rbNextSizeAt at h
  split at h
  · simp only [Option.bind_eq_bind, Option.bind_eq_some_iff] at h
    obtain ⟨k, hk, h⟩ := h
    split at h
    · split at h
      · cases h
        exact absurd rfl hn
      · obtain ⟨k', hk', h⟩ := Option.bind_eq_some_iff.mp h
        cases h
        exact load16_some hk'
    · cases h
      exact load16_some hk
  · cases h
    exact absurd rfl hn

theorem auditPop_eq (hs : rb.size = traceRbSize) : auditPop rb = rbPop rb := by
  have hsize : rb.size = 1048575 := hs
  unfold auditPop rbPop rbPopAt
  cases hnext : rbNextSizeAt rb rb.rdtail with
  | none => rfl
  | some r =>
    obtain ⟨n, t⟩ := r
    simp only [Option.bind_eq_bind, Option.bind_some]
    by_cases hn : n = 0
    · simp only [hn, if_true, Option.bind_some]
    · obtain ⟨ht, hlt⟩ := rbNextSizeAt_bound hnext hn
      have hu : u32 (t + 2) = t + 2 := u32_of_lt (by omega)
      rw [if_neg hn, if_neg hn, add32_eq (show t + 2 < 4294967296 by omega), Option.bind_some, hu,
        add32_eq (show t + 2 + n < 4294967296 by omega), Option.bind_assoc]
      rfl

theorem auditWrap_eq {a : Audit} (h : a.rb.head + 2 ≤ a.rb.size) :
    auditWrap a = some ⟨wrapped a.rb, ⟨.marker, a.rb.head, 2⟩ :: a.stores⟩ := by
  have hb : bytes16 0 = [0, 0] := rfl
  simp only [auditWrap, Audit.store, Rb.store, List.length_cons, List.length_nil, Nat.reduceAdd, h, if_true,
    Option.bind_eq_bind, Option.bind_some, wrapped, hb]
  by_cases ht : a.rb.head ≤ a.rb.tail <;> by_cases hr : a.rb.head ≤ a.rb.rdtail <;> simp [ht, hr]

/-- The stores of a push into the buffer as it is when the loop has ended. -/
def pushStores (rb : Rb) (len : Nat) : List Store := [⟨.payload, rb.head + 2, len⟩, ⟨.header, rb.head, 2⟩]

/-- `auditPush` once the branches before the write are evaluated. -/
theorem auditPush_eq (a b : Audit) {data : List UInt8} (h1 : 1 ≤ data.length) (h2 : data.length ≤ 65531)
    (hsize : a.rb.size = traceRbSize) (hhead : a.rb.head ≤ a.rb.size)
    (hw : (if rbWraps a.rb (2 + data.length) then auditWrap a else some a) = some b)
    (he : rbEvict (2 + data.length) rbEvictRounds b.rb = some rb')
    (hs : b.rb.size = traceRbSize) (hh : b.rb.head ≤ b.rb.size)
    (hs' : rb'.size = traceRbSize) (hroom : rb'.head + (2 + data.length) ≤ rb'.size) :
    auditPush a data = some (0, ⟨written rb' data, pushStores rb' data.length ++ b.stores⟩) := by
  rw [traceRbSize] at hsize hs hs'
  have hentry : add16 2 data.length = some (2 + data.length) := if_pos (by omega)
  have havail : sub32 a.rb.size a.rb.head = some (a.rb.size - a.rb.head) := if_pos hhead
  have htest : a.rb.size - a.rb.head ≤ 2 + data.length + 2 ↔ rbWraps a.rb (2 + data.length) = true := by
    rw [rbWraps_iff _ hsize hhead]
    omega
  have hu1 : add32 rb'.head 2 = some (rb'.head + 2) := if_pos (by omega)
  have hu2 : add32 (rb'.head + 2) data.length = some (rb'.head + (2 + data.length)) := by
    rw [← Nat.add_assoc]
    exact if_pos (by omega)
  have hs1 : rb'.head + 2 ≤ rb'.size := by omega
  have hs2 : rb'.head + 2 + data.length ≤ rb'.size := by omega
  have hloop : auditEvict (2 + data.length) rbEvictRounds b.rb = rbEvict (2 + data.length) rbEvictRounds b.rb :=
    auditEvict_eq hs (by omega)
  simp only [auditPush, show data.length ≠ 0 by omega, if_false, hentry, havail, Option.bind_eq_bind,
    Option.bind_some, htest, hw, hloop, he, Audit.store, Rb.store, bytes16_length, hs1, hs2, if_true, hu1, hu2,
    written, pushStores, List.cons_append, List.nil_append]

end Sums

end Qm35.Ring
