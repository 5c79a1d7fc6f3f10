import Mathlib.Tactic

/- Byte-addressed memory. A memory is a total function from offsets to bytes, so
   that a reader past the end of an object still reads something: which offsets
   an access may touch is a question for its user, not for the memory. Blocks are
   lists of bytes; integers are stored little-endian. The lemmas say how a write
   shows through a later read: exactly at the bytes it covers (`write_in`),
   nowhere else (`write_out`), and hence that two memories that agree on a range
   give the same blocks and the same integers there (`read_congr`, `le16_congr`).
   The unsigned integers of the machine are natural numbers, and their arithmetic is cut
   off to 16 or 32 bits where it is done. -/
namespace ByteMem

/-- `uint32_t` arithmetic. -/
def u32 (n : Nat) : Nat := n % 4294967296

/-- `uint16_t` arithmetic. -/
def u16 (n : Nat) : Nat := n % 65536

theorem u32_of_lt {n : Nat} (h : n < 4294967296) : u32 n = n := Nat.mod_eq_of_lt h

theorem u32_le (n : Nat) : u32 n ≤ n := Nat.mod_le _ _

theorem u16_of_lt {n : Nat} (h : n < 65536) : u16 n = n := Nat.mod_eq_of_lt h

abbrev Mem := Nat → UInt8

namespace Mem

/-- The block of `n` bytes at `a`. -/
def read (m : Mem) (a n : Nat) : List UInt8 := (List.range n).map fun i => m (a + i)

/-- `m` with the block `bs` stored at `a`. -/
def write (m : Mem) (a : Nat) (bs : List UInt8) : Mem :=
  fun i => if a ≤ i then (bs[i - a]?).getD (m i) else m i

/-- The little-endian 16-bit integer at `a`. -/
def le16 (m : Mem) (a : Nat) : Nat := (m a).toNat + 256 * (m (a + 1)).toNat

/-- Two memories hold the same bytes from `a` up to `b`. -/
def Agree (m m' : Mem) (a b : Nat) : Prop := ∀ i, a ≤ i → i < b → m i = m' i

end Mem

/-- The two bytes of a 16-bit integer, low byte first. -/
def bytes16 (n : Nat) : List UInt8 := [UInt8.ofNat n, UInt8.ofNat (n / 256)]

/-- The four bytes of a 32-bit integer, low byte first. -/
def bytes32 (n : Nat) : List UInt8 := bytes16 n ++ bytes16 (n / 65536)

@[simp] theorem bytes16_length (n : Nat) : (bytes16 n).length = 2 := rfl

@[simp] theorem bytes32_length (n : Nat) : (bytes32 n).length = 4 := rfl

namespace Mem

@[simp] theorem read_length (m : Mem) (a n : Nat) : (m.read a n).length = n := by
  simp [read]

theorem write_out {m : Mem} {a i : Nat} {bs : List UInt8} (h : i < a ∨ a + bs.length ≤ i) :
    m.write a bs i = m i := by
  unfold write
  rcases h with h | h
  · rw [if_neg (by omega)]
  · rw [if_pos (by omega), List.getElem?_eq_none (by omega)]
    rfl

theorem write_in {m : Mem} {a i : Nat} {bs : List UInt8} (h : i < bs.length) :
    m.write a bs (a + i) = bs[i] := by
  unfold write
  rw [if_pos (by omega), Nat.add_sub_cancel_left, List.getElem?_eq_getElem h]
  rfl

/-- A write reads back as written. -/
theorem read_write (m : Mem) (a : Nat) (bs : List UInt8) :
    (m.write a bs).read a bs.length = bs := by
  apply List.ext_getElem
  · simp
  · intro i _ hi
    simp only [read, List.getElem_map, List.getElem_range]
    exact write_in hi

theorem read_append (m : Mem) (a n k : Nat) : m.read a (n + k) = m.read a n ++ m.read (a + n) k := by
  unfold read
  rw [List.range_add, List.map_append, List.map_map]
  congr 1
  apply List.map_congr_left
  intro i _
  rw [Function.comp_apply, Nat.add_assoc]

/-- A range inside the first `n` bytes is a slice of them. -/
theorem read_prefix_drop {m : Mem} {off k n : Nat} (h : off + k ≤ n) : m.read off k <+: (m.read 0 n).drop off := by
  obtain ⟨rest, rfl⟩ := Nat.exists_eq_add_of_le h
  rw [Nat.add_assoc, read_append, List.drop_left' (read_length _ _ _), Nat.zero_add, read_append]
  exact List.prefix_append _ _

theorem head_read (m : Mem) (a : Nat) {n : Nat} (h : 0 < n) : (m.read a n).head? = some (m a) := by
  obtain ⟨k, rfl⟩ := Nat.exists_eq_succ_of_ne_zero (Nat.ne_of_gt h)
  rw [read, List.range_succ_eq_map]
  rfl

/-- Two blocks stored one after the other. -/
theorem write_append (m : Mem) (a : Nat) (xs ys : List UInt8) :
    m.write a (xs ++ ys) = (m.write a xs).write (a + xs.length) ys := by
  funext i
  unfold write
  by_cases h1 : a + xs.length ≤ i
  · rw [if_pos (by omega), if_pos h1, List.getElem?_append_right (by omega), if_pos (by omega),
      List.getElem?_eq_none (l := xs) (by omega), Nat.sub_sub]
    rfl
  · rw [if_neg h1]
    by_cases h2 : a ≤ i
    · rw [if_pos h2, if_pos h2, List.getElem?_append_left (by omega)]
    · rw [if_neg h2, if_neg h2]

namespace Agree

theorem symm {m m' : Mem} {a b : Nat} (h : Agree m m' a b) : Agree m' m a b :=
  fun i ha hb => (h i ha hb).symm

theorem trans {m m' m'' : Mem} {a b : Nat} (h : Agree m m' a b) (h' : Agree m' m'' a b) :
    Agree m m'' a b :=
  fun i ha hb => (h i ha hb).trans (h' i ha hb)

theorem mono {m m' : Mem} {a b a' b' : Nat} (h : Agree m m' a b) (ha : a ≤ a') (hb : b' ≤ b) :
    Agree m m' a' b' :=
  fun i hi hi' => h i (by omega) (by omega)

/-- A write outside a range leaves the range alone. -/
theorem write {m : Mem} {a b c : Nat} {bs : List UInt8} (h : b ≤ c ∨ c + bs.length ≤ a) :
    Agree m (m.write c bs) a b :=
  fun _ ha hb => (write_out (by omega)).symm

end Agree

theorem read_congr {m m' : Mem} {a n : Nat} (h : Agree m m' a (a + n)) :
    m.read a n = m'.read a n := by
  unfold read
  apply List.map_congr_left
  intro i hi
  exact h _ (by omega) (by have := List.mem_range.mp hi; omega)

theorem le16_congr {m m' : Mem} {a : Nat} (h : Agree m m' a (a + 2)) : m.le16 a = m'.le16 a := by
  unfold le16
  rw [h a (by omega) (by omega), h (a + 1) (by omega) (by omega)]

theorem le16_write {m : Mem} {a n : Nat} (hn : n < 65536) :
    (m.write a (bytes16 n)).le16 a = n := by
  have h0 : m.write a (bytes16 n) (a + 0) = (bytes16 n)[0] := write_in (by simp)
  have h1 : m.write a (bytes16 n) (a + 1) = (bytes16 n)[1] := write_in (by simp)
  simp only [bytes16, List.getElem_cons_zero, List.getElem_cons_succ] at h0 h1
  rw [Nat.add_zero] at h0
  simp only [le16, bytes16, h0, h1, UInt8.toNat_ofNat']
  omega

theorem le16_lt (m : Mem) (a : Nat) : m.le16 a < 65536 := by
  have h0 := UInt8.toNat_lt (m a)
  have h1 := UInt8.toNat_lt (m (a + 1))
  unfold le16
  omega

end Mem

end ByteMem
