import Qm35.Uci.Model

/- Segmentation of received blocks. UCI packets are records in the sense of
   `Framing`, with a header of four bytes, and what `uci_received` appends to
   `rx_list` is a splitting of the block's bytes into such records: a whole one where
   no allocation fails. -/
namespace Qm35.Uci

open Framing

/-- The size of the UCI packet at the front of some bytes. -/
def packetSize (bs : List UInt8) : Option Nat :=
  if bs.length < uciPacketHeaderSize then none
  else (getPayloadSizeFromHeader bs 0).map (uciPacketHeaderSize + ·)

/-- A header inside the bytes is read without leaving them. -/
theorem getPayloadSizeFromHeader_isSome {data : List UInt8} {off : Nat} (h : off + 4 ≤ data.length) :
    ∃ n, getPayloadSizeFromHeader data off = some n := by
  have h0 : data[off]? = some data[off] := List.getElem?_eq_getElem (by omega)
  have h2 : data[off + 2]? = some data[off + 2] := List.getElem?_eq_getElem (by omega)
  have h3 : data[off + 3]? = some data[off + 3] := List.getElem?_eq_getElem (by omega)
  simp only [getPayloadSizeFromHeader, h0, h2, h3, Option.bind_eq_bind, Option.bind_some]
  split
  · exact ⟨_, rfl⟩
  · exact ⟨_, rfl⟩

theorem getPayloadSizeFromHeader_drop (data : List UInt8) (off : Nat) :
    getPayloadSizeFromHeader (data.drop off) 0 = getPayloadSizeFromHeader data off := by
  simp only [getPayloadSizeFromHeader, List.getElem?_drop, Nat.zero_add, Nat.add_zero]

theorem getPayloadSizeFromHeader_take (data : List UInt8) :
    getPayloadSizeFromHeader (data.take 4) 0 = getPayloadSizeFromHeader data 0 := by
  simp [getPayloadSizeFromHeader]

/-- UCI packets as records. -/
def uciFormat : Format UInt8 where
  size := packetSize
  header := uciPacketHeaderSize
  header_pos := by decide
  size_short bs h := by rw [packetSize, if_pos h]
  size_take bs := by
    unfold packetSize
    rw [show uciPacketHeaderSize = 4 from rfl, getPayloadSizeFromHeader_take, List.length_take]
    by_cases h : bs.length < 4
    · rw [if_pos h, if_pos (by omega)]
    · rw [if_neg h, if_neg (by omega)]
  header_le bs n h := by
    unfold packetSize at h
    split at h
    · cases h
    · obtain ⟨m, _, rfl⟩ := Option.map_eq_some_iff.mp h
      omega

/-- The bytes are one UCI packet: a header and the payload it announces. -/
def IsPacket (bs : List UInt8) : Prop :=
  ∃ n, getPayloadSizeFromHeader bs 0 = some n ∧ bs.length = uciPacketHeaderSize + n

theorem packetSize_eq {bs : List UInt8} {n : Nat} (h : uciPacketHeaderSize ≤ bs.length)
    (hn : getPayloadSizeFromHeader bs 0 = some n) : packetSize bs = some (uciPacketHeaderSize + n) := by
  unfold packetSize
  rw [if_neg (Nat.not_lt.mpr h), hn, Option.map_some]

theorem complete_iff {bs : List UInt8} : uciFormat.Complete bs ↔ IsPacket bs := by
  constructor
  · intro h
    have hlen := Format.header_le_length h
    obtain ⟨n, hn⟩ := getPayloadSizeFromHeader_isSome (show 0 + 4 ≤ bs.length by rw [Nat.zero_add]; exact hlen)
    have hsize : packetSize bs = some bs.length := h
    rw [packetSize_eq hlen hn, Option.some.injEq] at hsize
    exact ⟨n, hn, hsize.symm⟩
  · rintro ⟨n, hn, hlen⟩
    show packetSize bs = some bs.length
    rw [packetSize_eq (by rw [hlen]; exact Nat.le_add_right _ _) hn, hlen]

section Loop
variable {blk : Block} {readn : Nat}

theorem sizeSub_eq (h : readn ≤ blk.length) : sizeSub blk.length readn = blk.length - readn := by
  have := blk.fits
  unfold sizeSub sizeT
  omega

/-- The two tests, in terms of the packet at the front of the unread bytes. -/
theorem uciNextPayload_spec (h : readn ≤ blk.length) :
    (uciNextPayload blk readn = some none ∧
      ∀ n, packetSize (blk.data.drop readn) = some n → (blk.data.drop readn).length ≤ n) ∨
    ∃ n, uciNextPayload blk readn = some (some n) ∧ readn + (4 + n) < blk.length ∧
      packetSize (blk.data.drop readn) = some (4 + n) := by
  have hlen : (blk.data.drop readn).length = blk.length - readn := by
    rw [List.length_drop, blk.held]
  unfold uciNextPayload packetSize
  rw [sizeSub_eq h, hlen, getPayloadSizeFromHeader_drop, show uciPacketHeaderSize = 4 from rfl]
  by_cases hshort : blk.length - readn < 4
  · left
    rw [if_pos hshort, if_pos hshort]
    exact ⟨rfl, fun n hn => by cases hn⟩
  · obtain ⟨n, hn⟩ : ∃ n, getPayloadSizeFromHeader blk.data readn = some n :=
      getPayloadSizeFromHeader_isSome (by rw [blk.held]; omega)
    rw [if_neg hshort, if_neg hshort, hn, Option.bind_eq_bind, Option.bind_some, Option.map_some]
    by_cases hlast : blk.length - readn ≤ 4 + n
    · left
      rw [if_pos hlast]
      refine ⟨rfl, ?_⟩
      intro m hm
      cases hm
      exact hlast
    · right
      rw [if_neg hlast]
      exact ⟨n, rfl, by omega, rfl⟩

theorem bytes_uciLastPacket (p : UciPacket) (h : readn ≤ blk.length) :
    (uciLastPacket p blk readn).bytes blk.data = blk.data.drop readn := by
  unfold UciPacket.bytes uciLastPacket
  rw [sizeSub_eq h]
  apply List.take_of_length_le
  rw [List.length_drop, blk.held]

/-- The packets `qs` are the unread bytes of the block, split in order; with `whole` no
packet is left unsplit. -/
structure Segmented (whole : Prop) (blk : Block) (readn : Nat) (qs : List UciPacket) : Prop where
  splits : Splits uciFormat whole (blk.data.drop readn) (qs.map fun q => q.bytes blk.data)
  within : ∀ q ∈ qs, q.buf = blk.buf ∧ q.off + q.length ≤ blk.length

theorem Segmented.last {whole : Prop} (p : UciPacket) (h : readn ≤ blk.length)
    (hlast : whole → ∀ n, packetSize (blk.data.drop readn) = some n → (blk.data.drop readn).length ≤ n) :
    Segmented whole blk readn [uciLastPacket p blk readn] := by
  refine ⟨?_, ?_⟩
  · rw [List.map_singleton, bytes_uciLastPacket p h]
    exact .last _ hlast
  · intro q hq
    rw [List.mem_singleton.mp hq]
    refine ⟨rfl, ?_⟩
    show readn + sizeSub blk.length readn ≤ blk.length
    rw [sizeSub_eq h]
    omega

theorem Segmented.next {whole : Prop} {n : Nat} {qs : List UciPacket}
    (hsize : packetSize (blk.data.drop readn) = some (4 + n)) (hlt : readn + (4 + n) < blk.length)
    (S : Segmented whole blk (readn + (4 + n)) qs) :
    Segmented whole blk readn (uciSplitPacket blk readn n :: qs) := by
  have hlen : (blk.data.drop readn).length = blk.length - readn := by
    rw [List.length_drop, blk.held]
  have hrest := S.splits
  rw [← List.drop_drop] at hrest
  have hcut : 4 + n < (blk.data.drop readn).length := by omega
  refine ⟨.cons hsize hcut hrest, ?_⟩
  intro q hq
  rcases List.mem_cons.mp hq with rfl | hq
  · exact ⟨rfl, Nat.le_of_lt hlt⟩
  · exact S.within q hq

/-- The loop from `readn` on: it ends, and the packets it queues with the last one are a
splitting of the unread bytes. The induction is on the fuel: a pass that queues a packet
uses one unit and at least four bytes of the block. -/
theorem uciSplit_spec (alloc : Nat → Bool) (p : UciPacket) {fuel k : Nat} (rxList : List UciPacket)
    (h : readn ≤ blk.length) (hf : blk.length - readn < fuel) :
    ∃ readn' ps, uciSplit alloc blk fuel k readn rxList = some (readn', rxList ++ ps) ∧
      Segmented (∀ k, alloc k = true) blk readn (ps ++ [uciLastPacket p blk readn']) := by
  induction fuel generalizing k readn rxList with
  | zero => omega
  | succ fuel ih =>
    have stop : ∀ hlast, ∃ readn' ps, some (readn, rxList) = some (readn', rxList ++ ps) ∧
        Segmented (∀ k, alloc k = true) blk readn (ps ++ [uciLastPacket p blk readn']) :=
      fun hlast => ⟨readn, [], by rw [List.append_nil], .last p h hlast⟩
    rw [uciSplit]
    rcases uciNextPayload_spec h with ⟨he, hlast⟩ | ⟨n, he, hlt, hsize⟩
    · rw [he]
      exact stop fun _ => hlast
    · rw [he, Option.bind_eq_bind, Option.bind_some]
      cases ha : alloc k with
      | false =>
        refine stop fun hall => ?_
        rw [hall k] at ha
        cases ha
      | true =>
        have hfits := blk.fits
        have hnext : sizeT (readn + (uciSplitPacket blk readn n).length) = readn + (4 + n) :=
          Nat.mod_eq_of_lt (show readn + (4 + n) < _ by omega)
        obtain ⟨readn', ps, hrun, S⟩ := ih (k := k + 1)
          (rxList ++ [uciSplitPacket blk readn n]) (Nat.le_of_lt hlt) (by omega)
        refine ⟨readn', uciSplitPacket blk readn n :: ps, ?_, S.next hsize hlt⟩
        dsimp only
        rw [if_pos rfl, hnext, hrun, List.append_assoc]
        rfl

end Loop

/-- `uci_received` of a block that was read without error queues a splitting of it. -/
theorem uciReceived_spec (alloc : Nat → Bool) (rxList : List UciPacket) (p : UciPacket) (blk : Block) :
    ∃ qs, uciReceived alloc rxList p blk 0 = some ⟨rxList ++ qs, none⟩ ∧
      Segmented (∀ k, alloc k = true) blk 0 qs := by
  obtain ⟨readn, ps, hrun, S⟩ := uciSplit_spec alloc p (k := 0) rxList
    (Nat.zero_le blk.length) (show blk.length - 0 < blk.length + 1 by omega)
  refine ⟨ps ++ [uciLastPacket p blk readn], ?_, S⟩
  simp only [uciReceived, ne_eq, not_true, if_false, hrun, Option.bind_eq_bind, Option.bind_some,
    List.append_assoc]

/-- Segmentation is exact: the packets queued are the bytes of the block in order, and each
but the last is one UCI packet. Where no allocation fails the last one holds no more than
one packet either, and UCI packets laid end to end come out as they went in. -/
theorem uci_received_exact (alloc : Nat → Bool) (rxList : List UciPacket) (p : UciPacket) (blk : Block) :
    ∃ qs, uciReceived alloc rxList p blk 0 = some ⟨rxList ++ qs, none⟩ ∧ qs ≠ [] ∧
      (qs.map fun q => q.bytes blk.data).flatten = blk.data ∧
      (∀ q ∈ qs, q.length = (q.bytes blk.data).length) ∧
      (∀ q ∈ qs.dropLast, IsPacket (q.bytes blk.data)) ∧
      ((∀ k, alloc k = true) → ∀ q, qs.getLast? = some q → q.length < uciPacketHeaderSize ∨
        ∃ n, getPayloadSizeFromHeader (q.bytes blk.data) 0 = some n ∧ q.length ≤ uciPacketHeaderSize + n) ∧
      ((∀ k, alloc k = true) → ∀ packets : List (List UInt8), packets ≠ [] →
        (∀ bs ∈ packets, IsPacket bs) → blk.data = packets.flatten →
        (qs.map fun q => q.bytes blk.data) = packets) := by
  obtain ⟨qs, hrun, S⟩ := uciReceived_spec alloc rxList p blk
  have hsplit := S.splits
  rw [List.drop_zero] at hsplit
  have hlen : ∀ q ∈ qs, q.length = (q.bytes blk.data).length := by
    intro q hq
    have := (S.within q hq).2
    rw [UciPacket.bytes, List.length_take, List.length_drop, blk.held]
    omega
  refine ⟨qs, hrun, ?_, hsplit.flatten_eq, hlen, ?_, ?_, ?_⟩
  · rintro rfl
    exact hsplit.ne_nil rfl
  · intro q hq
    have hmem : q.bytes blk.data ∈ (qs.map fun q => q.bytes blk.data).dropLast := by
      rw [← List.map_dropLast]
      exact List.mem_map_of_mem hq
    exact complete_iff.mp (hsplit.size_of_mem _ hmem)
  · intro hall q hq
    have hlast : (qs.map fun q => q.bytes blk.data).getLast? = some (q.bytes blk.data) := by
      rw [List.getLast?_map, hq]
      rfl
    rw [hlen q (List.mem_of_getLast? hq)]
    by_cases hshort : (q.bytes blk.data).length < uciPacketHeaderSize
    · exact .inl hshort
    · right
      obtain ⟨n, hn⟩ := getPayloadSizeFromHeader_isSome
        (show 0 + 4 ≤ (q.bytes blk.data).length by rw [Nat.zero_add]; exact Nat.not_lt.mp hshort)
      exact ⟨n, hn, hsplit.last_le hall hlast (packetSize_eq (Nat.not_lt.mp hshort) hn)⟩
  -- a block of whole packets has one splitting into whole packets
  · intro hall packets hne hpk hdata
    have hp := hsplit
    rw [hdata] at hp
    have heq := hp.eq_of_complete hall hne fun bs hbs => complete_iff.mpr (hpk bs hbs)
    rw [← hdata] at heq
    exact heq

end Qm35.Uci
