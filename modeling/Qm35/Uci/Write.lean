import Qm35.Lib.Bytes
import Qm35.Hsspi.Core

/- `write` on `/dev/uci` (`uci_write` in `qm35-spi.c`). The length passes through several
   types: `size_t` from the caller, `u16` for the packet and its block, `int` for the
   result. `copy_from_user` gets the `size_t`, so from 64 KiB on it fills more than the
   packet has, and a block of the remainder is sent and reported as the whole.

   The packet's block is a memory of which `size` bytes are allocated; what is written is
   counted apart, so that a write past them shows. `hsspi_send` and `spi_xfer` are those
   of the HSSPI model. -/
namespace Qm35.Uci.Write

open ByteMem Hsspi

def eFault : Int := -14

/-- `struct uci_packet` as a writer uses it: the memory of its block, and the block's length
and size. -/
structure TxPacket where
  data : Mem
  length : UInt16
  size : UInt16

/-- What `copy_from_user` does: it refuses the length before touching anything, or copies until
it faults after `n` bytes, and then fills the rest with zeros. -/
inductive UserCopy where
  | refused
  | copied (n : Nat)
deriving DecidableEq

/-- What a call finds: the two allocations of `uci_packet_alloc` and the memory they hand out,
the copy, the HSSPI core with the layer, the block and the allocation of `hsspi_send`, and
the attempts of the transfer. -/
structure WriteEnv where
  packetAlloc : Bool
  blockAlloc : Bool
  mem : Mem
  copy : UserCopy
  core : Core
  layer : LayerRef
  blk : Nat
  workAlloc : Bool
  attempts : Nat → Attempt

/-- How a packet's memory is used: the bytes allocated, and the bytes written from its start. -/
structure PacketUse where
  allocated : Nat
  written : Nat
deriving DecidableEq

/-- A block on the bus: the length in the host header, the payload, and the status `sent` got. -/
structure SentBlock where
  length : UInt16
  bytes : List UInt8
  status : Int
deriving DecidableEq

/-- A call of `uci_write`: its result, the packet it allocated and the blocks sent for it. -/
structure UciWrite where
  ret : Int
  packet : Option PacketUse
  sent : List SentBlock
deriving DecidableEq

/-- `hsspi_init_block` of a new block -/
def hsspiInitBlock (env : WriteEnv) (length : UInt16) : Option TxPacket :=
  if env.blockAlloc then some ⟨env.mem, length, length⟩ else none

/-- `uci_packet_alloc` -/
def uciPacketAlloc (env : WriteEnv) (length : UInt16) : Option TxPacket :=
  if env.packetAlloc then hsspiInitBlock env length else none

/-- `copy_from_user` of the whole user buffer: the bytes not copied, the bytes written, and the
memory after it. -/
def copyFromUser (data : Mem) (user : List UInt8) : UserCopy → Nat × Nat × Mem
  | .refused => (user.length, 0, data)
  | .copied n =>
    (user.length - n, user.length, data.write 0 (user.take n ++ List.replicate (user.length - n) 0))

/-- A `size_t` assigned to an `int`. -/
def intOfSize (n : Nat) : Int := Int.bmod n 4294967296

/-- `uci_write`; `p->status` is negative or 0, so it keeps its value as an `int`. -/
def uciWrite (env : WriteEnv) (user : List UInt8) : UciWrite :=
  match uciPacketAlloc env (UInt16.ofNat user.length) with
  | none => ⟨eNoMem, none, []⟩
  | some p =>
    let (uncopied, written, data) := copyFromUser p.data user env.copy
    let use : PacketUse := ⟨p.size.toNat, written⟩
    if uncopied ≠ 0 then ⟨eFault, some use, []⟩
    else
      let ret := (hsspiSend env.core (some env.layer) (some env.blk) env.workAlloc).1
      if ret ≠ 0 then ⟨ret, some use, []⟩
      else
        let status := (spiXfer env.attempts).ret
        let ret := if status ≠ 0 then status else intOfSize user.length
        ⟨ret, some use, [⟨p.length, data.read 0 p.size.toNat, status⟩]⟩

/-- The write is exact: it stays inside the packet, it returns the length only for one block of
exactly the user's bytes sent with status 0, and it refuses what no block can hold. -/
structure ExactWrite (user : List UInt8) (w : UciWrite) : Prop where
  inside : ∀ p ∈ w.packet, p.written ≤ p.allocated
  reported : w.ret = user.length →
    ∃ blk, w.sent = [blk] ∧ blk.length.toNat = user.length ∧ blk.bytes = user ∧ blk.status = 0
  refused : 65536 ≤ user.length → w.ret < 0 ∧ w.sent = []

/-! What the callees return. -/

section Callees
variable {attempts : Nat → Attempt} {user : List UInt8} {n : Nat}

/-- `hsspi_send` returns 0 or an error. -/
theorem hsspiSend_le (core : Core) (layer : Option LayerRef) (blk : Option Nat) (alloc : Bool) :
    (hsspiSend core layer blk alloc).1 ≤ 0 := by
  unfold hsspiSend
  split
  · split_ifs <;> simp [eInval, eNoMem, eAgain]
  · simp [eInval]

theorem attemptRet_le {a : Attempt} (h : a.xfer ≤ 0) : attemptRet a ≤ 0 := by
  unfold attemptRet eAgain
  split_ifs <;> omega

theorem spiXferLoop_le (h : ∀ k, (attempts k).xfer ≤ 0) {retry k : Nat} {s : SpiXfer} (hs : s.ret ≤ 0) :
    (spiXferLoop attempts retry k s).ret ≤ 0 := by
  induction retry generalizing k s with
  | zero => exact hs
  | succ retry ih =>
    have hpass : (afterPass (attempts k) s).ret ≤ 0 := by
      rw [afterPass_ret]
      exact attemptRet_le (h k)
    rw [spiXferLoop_succ]
    split
    · exact ih hpass
    · exact hpass

/-- Where the SPI controller returns 0 or errors, so does `spi_xfer`. -/
theorem spiXfer_le (h : ∀ k, (attempts k).xfer ≤ 0) : (spiXfer attempts).ret ≤ 0 :=
  spiXferLoop_le h (Int.le_refl 0)

/-- The packet allocated for a length has the length modulo 64 KiB. -/
theorem uciPacketAlloc_some {env : WriteEnv} {length : UInt16} {p : TxPacket}
    (h : uciPacketAlloc env length = some p) : p = ⟨env.mem, length, length⟩ := by
  unfold uciPacketAlloc hsspiInitBlock at h
  split_ifs at h
  cases h
  rfl

/-- A copy that reports nothing uncopied leaves the user's bytes in the memory. -/
theorem copyFromUser_done {data : Mem} {copy : UserCopy} (h : (copyFromUser data user copy).1 = 0) :
    (copyFromUser data user copy).2.2.read 0 user.length = user := by
  cases copy with
  | refused =>
    have hnil : user = [] := List.eq_nil_of_length_eq_zero h
    rw [hnil]
    rfl
  | copied n =>
    have hn : user.length - n = 0 := h
    have hdata : (copyFromUser data user (.copied n)).2.2 = data.write 0 user := by
      simp [copyFromUser, hn, List.take_of_length_le (by omega : user.length ≤ n)]
    rw [hdata]
    exact Mem.read_write data 0 user

end Callees

/-! The write. -/

section Write
variable {env : WriteEnv} {user : List UInt8} {p : TxPacket}

/-- A write that fails inside its packet is exact where nothing was sent, or a block could hold it. -/
theorem ExactWrite.failed {w : UciWrite} (hinside : ∀ p ∈ w.packet, p.written ≤ p.allocated)
    (hret : w.ret < 0) (hsent : w.sent = [] ∨ user.length < 65536) : ExactWrite user w := by
  refine ⟨hinside, fun h => ?_, fun hlen => ⟨hret, ?_⟩⟩
  · omega
  · rcases hsent with hsent | hsent
    · exact hsent
    · omega

/-- A write too long for a block overruns its packet once the copy begins. -/
theorem overruns (hlen : 65536 ≤ user.length) (hp : uciPacketAlloc env (UInt16.ofNat user.length) = some p)
    (hcopy : env.copy ≠ .refused) : ¬ExactWrite user (uciWrite env user) := by
  intro h
  have hsize : p.size.toNat = user.length % 65536 := by
    rw [uciPacketAlloc_some hp]
    exact UInt16.toNat_ofNat'
  have hwritten : (copyFromUser p.data user env.copy).2.1 = user.length := by
    cases hc : env.copy with
    | refused => exact absurd hc hcopy
    | copied n => rfl
  have hpacket : (uciWrite env user).packet =
      some ⟨p.size.toNat, (copyFromUser p.data user env.copy).2.1⟩ := by
    simp only [uciWrite, hp]
    split_ifs <;> rfl
  have hinside := h.inside _ hpacket
  rw [hsize, hwritten] at hinside
  have hmod : user.length % 65536 < 65536 := Nat.mod_lt _ (by decide)
  simp only at hinside
  omega

/-- Without a packet nothing is written or sent. -/
theorem exact_unallocated (hp : uciPacketAlloc env (UInt16.ofNat user.length) = none) :
    ExactWrite user (uciWrite env user) := by
  have hw : uciWrite env user = ⟨eNoMem, none, []⟩ := by simp only [uciWrite, hp]
  rw [hw]
  apply ExactWrite.failed
  · exact fun p h => nomatch h
  · exact (by decide : eNoMem < 0)
  · exact .inl rfl

/-- A refused copy of a length that is not 0 sends nothing. -/
theorem exact_refused (hlen : 65536 ≤ user.length) (hcopy : env.copy = .refused) :
    ExactWrite user (uciWrite env user) := by
  cases hp : uciPacketAlloc env (UInt16.ofNat user.length) with
  | none => exact exact_unallocated hp
  | some p =>
    have hne : user.length ≠ 0 := by omega
    have hw : uciWrite env user = ⟨eFault, some ⟨p.size.toNat, 0⟩, []⟩ := by
      simp only [uciWrite, hp, hcopy, copyFromUser]
      rw [if_pos hne]
    rw [hw]
    apply ExactWrite.failed
    · intro use h
      cases h
      exact Nat.zero_le _
    · exact (by decide : eFault < 0)
    · exact .inl rfl

/-- A write of a length that a block can hold. -/
theorem exact_small (hxfer : ∀ k, (env.attempts k).xfer ≤ 0) (hlen : user.length < 65536) :
    ExactWrite user (uciWrite env user) := by
  cases hp : uciPacketAlloc env (UInt16.ofNat user.length) with
  | none => exact exact_unallocated hp
  | some p =>
    have hfits : (UInt16.ofNat user.length).toNat = user.length := by
      rw [UInt16.toNat_ofNat']
      exact Nat.mod_eq_of_lt hlen
    have hsize : p.size.toNat = user.length := by rw [uciPacketAlloc_some hp, hfits]
    have hlength : p.length.toNat = user.length := by rw [uciPacketAlloc_some hp, hfits]
    have hwritten : (copyFromUser p.data user env.copy).2.1 ≤ p.size.toNat := by
      rw [hsize]
      cases env.copy with
      | refused => exact Nat.zero_le _
      | copied n => exact Nat.le_refl _
    have hinside : ∀ use ∈ (some ⟨p.size.toNat, (copyFromUser p.data user env.copy).2.1⟩ : Option PacketUse),
        use.written ≤ use.allocated := by
      intro use h
      cases h
      exact hwritten
    have hsend : (hsspiSend env.core (some env.layer) (some env.blk) env.workAlloc).1 ≤ 0 :=
      hsspiSend_le _ _ _ _
    have hstatus : (spiXfer env.attempts).ret ≤ 0 := spiXfer_le hxfer
    simp only [uciWrite, hp]
    split_ifs with hcopy hret hst
    · exact .failed hinside (by decide : eFault < 0) (.inl rfl)
    · exact .failed hinside (by simp only; omega) (.inl rfl)
    · exact .failed hinside (by simp only; omega) (.inr hlen)
    · refine ⟨hinside, fun _ => ⟨_, rfl, hlength, ?_, not_not.mp hst⟩, fun h => by omega⟩
      have hdone := copyFromUser_done (not_not.mp hcopy)
      rw [← hsize] at hdone
      exact hdone

end Write

/-- Writing to `/dev/uci` is exact exactly for the lengths below 64 KiB, and where nothing is
copied at all: no packet could be allocated, or `copy_from_user` refused the length. The
SPI controller returns 0 or a negative error. -/
theorem uciWrite_exact_iff (env : WriteEnv) (user : List UInt8) (hxfer : ∀ k, (env.attempts k).xfer ≤ 0) :
    ExactWrite user (uciWrite env user) ↔
      user.length < 65536 ∨ uciPacketAlloc env (UInt16.ofNat user.length) = none ∨ env.copy = .refused := by
  constructor
  · intro h
    by_cases hlen : user.length < 65536
    · exact .inl hlen
    · cases hp : uciPacketAlloc env (UInt16.ofNat user.length) with
      | none => exact .inr (.inl rfl)
      | some p =>
        refine .inr (.inr ?_)
        by_contra hcopy
        exact overruns (by omega) hp hcopy h
  · rintro (hlen | hp | hcopy)
    · exact exact_small hxfer hlen
    · exact exact_unallocated hp
    · by_cases hlen : user.length < 65536
      · exact exact_small hxfer hlen
      · exact exact_refused (by omega) hcopy

/-- Everything a write needs succeeds. -/
def envOk (copy : UserCopy) : WriteEnv where
  packetAlloc := true
  blockAlloc := true
  mem := fun _ => 0
  copy := copy
  core := { coreInit with state := .running, layers := fun _ => some ⟨0, 1⟩ }
  layer := ⟨0, 1⟩
  blk := 0
  workAlloc := true
  attempts := fun _ => ⟨⟨false, true, 0, true⟩, 0, ⟨stcSocRdy, 0, 0⟩⟩

/-- Three bytes are sent as one block. -/
theorem uciWrite_exact_three : uciWrite (envOk (.copied 3)) [1, 2, 3] =
      ⟨3, some ⟨3, 3⟩, [⟨3, [1, 2, 3], 0⟩]⟩ ∧
    ExactWrite [1, 2, 3] (uciWrite (envOk (.copied 3)) [1, 2, 3]) :=
  ⟨by decide, (uciWrite_exact_iff (envOk (.copied 3)) [1, 2, 3] (fun _ => Int.le_refl 0)).mpr
    (.inl (by decide))⟩

/-- A write of 64 KiB gets a packet of no bytes, and all of it is copied there. -/
theorem not_uciWrite_exact : ¬∀ (env : WriteEnv) (user : List UInt8), (∀ k, (env.attempts k).xfer ≤ 0) →
    ExactWrite user (uciWrite env user) := by
  intro h
  have hlen : 65536 ≤ (List.replicate 65536 (0 : UInt8)).length := by rw [List.length_replicate]
  have hcopy : (envOk (.copied 65536)).copy ≠ .refused := by decide
  exact overruns hlen rfl hcopy (h (envOk (.copied 65536)) (List.replicate 65536 0) fun _ => Int.le_refl 0)

end Qm35.Uci.Write
