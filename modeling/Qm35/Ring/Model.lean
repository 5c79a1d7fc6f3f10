import Qm35.Lib.Bytes

/- The trace ring buffer (`qm35_rb.c`). An entry is a 16-bit size followed by that
   many payload bytes; a size of zero at an offset other than 0 is the end marker,
   from which a reader goes on at offset 0. `head` is the next write, `tail` the
   oldest entry kept, `rdtail` the reader's cursor.

   Every operation runs under `rb->lock`, so each is one step here. A result is
   `none` where the C code has no defined result: an access outside the `size`
   bytes of `buf`, or an eviction loop that never ends. The allocation of the
   popped copy is taken to succeed: `__rb_pop` does not check it, so a call whose
   `kmalloc` fails does not return. Sizes and offsets are `uint16_t` and
   `uint32_t`; the wrap-around of their arithmetic is written out. -/
namespace Qm35

open ByteMem

namespace Ring

/-- `TRACE_RB_SIZE` of `hsspi_log.c`. -/
def traceRbSize : Nat := 0xFFFFF

/-- `struct rb`, without its mutex. -/
structure Rb where
  buf : Mem
  size : Nat
  head : Nat
  tail : Nat
  rdtail : Nat

/-- `rb_init` over a buffer with the given contents. -/
def rbInit (buf : Mem) (size : Nat) : Rb := ⟨buf, size, 0, 0, 0⟩

/-! Checked accesses to `rb->buf`. -/

/-- `memcpy` of one size field out of the buffer. -/
def Rb.load16 (rb : Rb) (off : Nat) : Option Nat :=
  if off + 2 ≤ rb.size then some (rb.buf.le16 off) else none

/-- `memcpy` of `n` bytes out of the buffer. -/
def Rb.load (rb : Rb) (off n : Nat) : Option (List UInt8) :=
  if off + n ≤ rb.size then some (rb.buf.read off n) else none

/-- `memcpy` of a block into the buffer. -/
def Rb.store (rb : Rb) (off : Nat) (bs : List UInt8) : Option Rb :=
  if off + bs.length ≤ rb.size then some { rb with buf := rb.buf.write off bs } else none

/-! Reading. -/

/-- `__rb_can_pop` at the cursor `tail`. -/
def rbCanPopAt (rb : Rb) (tail : Nat) : Bool := tail != rb.head

/-- `rb_can_pop` -/
def rbCanPop (rb : Rb) : Bool := rbCanPopAt rb rb.rdtail

/-- `__rb_next_size` at the cursor `tail`: the size, and the cursor as it leaves it. -/
def rbNextSizeAt (rb : Rb) (tail : Nat) : Option (Nat × Nat) :=
  if rbCanPopAt rb tail then do
    let nextPacketSize ← rb.load16 tail
    if nextPacketSize = 0 then
      if tail = 0 then some (0, tail)
      else
        -- the end marker: go on from the beginning
        let nextPacketSize ← rb.load16 0
        some (nextPacketSize, 0)
    else some (nextPacketSize, tail)
  else some (0, tail)

/-- `rb_next_size` -/
def rbNextSize (rb : Rb) : Option (Nat × Rb) := do
  let (len, tail) ← rbNextSizeAt rb rb.rdtail
  some (len, { rb with rdtail := tail })

/-- `__rb_pop` at the cursor `tail`: the entry, if any, and the cursor after it. -/
def rbPopAt (rb : Rb) (tail : Nat) : Option (Option (List UInt8) × Nat) := do
  let (len, tail) ← rbNextSizeAt rb tail
  if len = 0 then some (none, tail)
  else
    let tail := u32 (tail + 2)
    let trace ← rb.load tail len
    some (some trace, u32 (tail + len))

/-- `rb_pop` -/
def rbPop (rb : Rb) : Option (Option (List UInt8) × Rb) := do
  let (entry, tail) ← rbPopAt rb rb.rdtail
  some (entry, { rb with rdtail := tail })

/-! Writing. -/

/-- `__rb_skip`: move `tail` to the next entry; false if there is none. -/
def rbSkip (rb : Rb) : Option (Rb × Bool) := do
  let nextEntrySize ← rb.load16 rb.tail
  if nextEntrySize = 0 then
    if rb.tail = 0 then some (rb, false)
    else
      -- the end marker: skip the first entry of the buffer as well
      let nextEntrySize ← rb.load16 0
      some ({ rb with tail := u32 (0 + (2 + nextEntrySize)) }, true)
  else some ({ rb with tail := u32 (rb.tail + (2 + nextEntrySize)) }, true)

/-- The test of the eviction loop: the new entry would run into `tail`. -/
def rbOverruns (rb : Rb) (entrySize : Nat) : Bool :=
  decide (rb.head ≤ rb.tail) && decide (rb.tail ≤ u32 (rb.head + entrySize))

/-- The eviction loop of `rb_push`. -/
def rbEvict (entrySize : Nat) : Nat → Rb → Option Rb
  | 0, _ => none
  | fuel + 1, rb =>
    if rbOverruns rb entrySize then do
      let (rb', skipped) ← rbSkip rb
      let rb' := if rb.tail = rb.rdtail then { rb' with rdtail := rb'.tail } else rb'
      if skipped then rbEvict entrySize fuel rb' else some rb'
    else some rb

/-- Rounds after which the eviction loop is in a state it was in before, and so
never ends: it runs only while `head ≤ tail ≤ head + entry_size`. -/
def rbEvictRounds : Nat := 65536 + 2

/-- The test for writing the end marker and starting again at offset 0. -/
def rbWraps (rb : Rb) (entrySize : Nat) : Bool :=
  decide (u32 (rb.size + 4294967296 - rb.head) ≤ entrySize + 2)

/-- The branch that writes the end marker. -/
def rbWrap (rb : Rb) : Option Rb := do
  let rb ← rb.store rb.head [0, 0]
  let rb := if rb.head ≤ rb.tail then { rb with tail := 0 } else rb
  let rb := if rb.head ≤ rb.rdtail then { rb with rdtail := 0 } else rb
  some { rb with head := 0 }

/-- `entry_size`: what a payload of `len` bytes takes in the buffer. -/
def rbEntrySize (len : Nat) : Nat := u16 (2 + len)

/-- `rb_push` of the `len` bytes at `data`; the payload is the list of them. -/
def rbPush (rb : Rb) (data : List UInt8) : Option (Nat × Rb) :=
  let len := data.length
  if len = 0 then some (1, rb)
  else do
    let entrySize := rbEntrySize len
    let rb ← (if rbWraps rb entrySize then rbWrap rb else some rb)
    let rb ← rbEvict entrySize rbEvictRounds rb
    let rb ← rb.store rb.head (bytes16 len)
    let rb := { rb with head := u32 (rb.head + 2) }
    let rb ← rb.store rb.head data
    some (0, { rb with head := u32 (rb.head + len) })

/-- `rb_reset` -/
def rbReset (rb : Rb) : Rb := { rb with rdtail := rb.tail }

end Ring

end Qm35
