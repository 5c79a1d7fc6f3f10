import Qm35.Lib.Framing

/- Received UCI blocks (`hsspi_uci.c`). A block from the SPI thread may hold several
   UCI packets. `uci_received` walks over it and queues one `struct uci_packet` for
   each; all but the last only point into the block's buffer, and the last, which is
   the packet the block is part of, owns it.

   A result is `none` where the C code would read a header byte outside the block.
   The loop runs on fuel, one unit a pass; running out is `none` as well. -/
namespace Qm35.Uci

/-- `size_t` arithmetic. -/
def sizeT (n : Nat) : Nat := n % 18446744073709551616

/-- `a - b` as `size_t`. -/
def sizeSub (a b : Nat) : Nat := sizeT (a + (18446744073709551616 - sizeT b))

/-- `struct hsspi_block` as `hsspi_init_block` leaves it: `data` is the allocation `buf`. -/
structure Block where
  buf : Nat
  data : List UInt8
  length : Nat
  held : data.length = length
  fits : length < 65536

/-- `struct uci_packet` as the receive side uses it. `blk` is the buffer the packet owns
and frees; `data` points `off` bytes into the buffer `buf`. -/
structure UciPacket where
  blk : Option Nat
  buf : Nat
  off : Nat
  length : Nat
deriving DecidableEq

/-- The bytes of a packet that points into a buffer with the given contents. -/
def UciPacket.bytes (p : UciPacket) (contents : List UInt8) : List UInt8 :=
  (contents.drop p.off).take p.length

/-- `uci_packet_alloc`, once its two allocations have succeeded. -/
def uciPacketAlloc (blk : Block) : UciPacket := ⟨some blk.buf, blk.buf, 0, blk.length⟩

/-- `get_payload_size_from_header` of the header at `off`. -/
def getPayloadSizeFromHeader (data : List UInt8) (off : Nat) : Option Nat := do
  let h0 ← data[off]?
  let isDataPacket := (h0 >>> 5) &&& 0x07 == 0
  let isControlPacket := !isDataPacket && h0 >>> 7 == 0
  if isControlPacket then do
    let h3 ← data[off + 3]?
    some h3.toNat
  else do
    let h3 ← data[off + 3]?
    let h2 ← data[off + 2]?
    some (h3.toNat <<< 8 ||| h2.toNat)

def uciPacketHeaderSize : Nat := 4

/-- The two tests of the loop of `uci_received`: the payload size of the packet at
`readn`, if more of the block follows it. -/
def uciNextPayload (blk : Block) (readn : Nat) : Option (Option Nat) :=
  if sizeSub blk.length readn < uciPacketHeaderSize then some none
  else do
    let payloadSize ← getPayloadSizeFromHeader blk.data readn
    if sizeSub blk.length readn ≤ uciPacketHeaderSize + payloadSize then some none
    else some (some payloadSize)

/-- The packet queued in a pass of the loop. -/
def uciSplitPacket (blk : Block) (readn payloadSize : Nat) : UciPacket :=
  ⟨none, blk.buf, readn, uciPacketHeaderSize + payloadSize⟩

/-- The packet of the block itself, which is given what the loop leaves. -/
def uciLastPacket (p : UciPacket) (blk : Block) (readn : Nat) : UciPacket :=
  { p with buf := blk.buf, off := readn, length := sizeSub blk.length readn }

/-- The loop of `uci_received`. `alloc k` is the outcome of its `k`-th `kzalloc`; the
result is `readn` and `rx_list` after it. -/
def uciSplit (alloc : Nat → Bool) (blk : Block) :
    Nat → Nat → Nat → List UciPacket → Option (Nat × List UciPacket)
  | 0, _, _, _ => none
  | fuel + 1, k, readn, rxList => do
    match ← uciNextPayload blk readn with
    | none => some (readn, rxList)
    | some payloadSize =>
      if alloc k then
        let next := uciSplitPacket blk readn payloadSize
        uciSplit alloc blk fuel (k + 1) (sizeT (readn + next.length)) (rxList ++ [next])
      else some (readn, rxList)

/-- `rx_list` after a call, and the packet the call freed. -/
structure Received where
  rxList : List UciPacket
  freed : Option UciPacket

/-- `uci_received` of the block that is part of the packet `p`. -/
def uciReceived (alloc : Nat → Bool) (rxList : List UciPacket) (p : UciPacket) (blk : Block)
    (status : Int) : Option Received :=
  if status ≠ 0 then some ⟨rxList, some p⟩
  else do
    let (readn, rxList) ← uciSplit alloc blk (blk.length + 1) 0 0 rxList
    some ⟨rxList ++ [uciLastPacket p blk readn], none⟩

end Qm35.Uci
