import Qm35.Lib.Along
import Qm35.Lib.Cutting
import Qm35.Uci.Buffers

/- What `/dev/uci` makes of the blocks the device sends. Whatever the readers and
   `clear_rx_list` do and however the allocations turn out, the packets taken off the
   list so far, those still in it and the part of the last block not yet split are the
   blocks received without error, byte for byte and in order: nothing is lost, doubled or
   put elsewhere, and `-EMSGSIZE` leaves the packet where it is. Where no allocation fails and the
   device sends whole packets they are its packets.

   A copy to user space either finds the bytes its packet was queued with or finds the
   buffer freed. With one reader at a time and no `clear_rx_list` it is never freed, and
   the packets are copied in the order they were taken. -/
namespace Qm35.Uci

open Framing

/-! What is seen of a run. -/

/-- The data of the block a buffer is allocated for. -/
def Act.block : Act → Option (List UInt8)
  | .receive data _ => some data
  | _ => none

/-- The data of the block, if it was read without error. -/
def Act.arrival : Act → Option (List UInt8)
  | .receive data status => if status = 0 then some data else none
  | _ => none

def blocks (acts : List Act) : List (List UInt8) := acts.filterMap Act.block

def arrivals (acts : List Act) : List (List UInt8) := acts.filterMap Act.arrival

/-- The packets an action takes off `rx_list`. -/
def departs (s : State) : Act → List UciPacket
  | .dequeue r maxSize =>
    match s.readers r, s.rxList with
    | .idle, p :: _ => if maxSize < p.length then [] else [p]
    | _, _ => []
  | .clear => s.rxList
  | _ => []

/-- The packets a run takes off `rx_list`, in order. -/
def departed (acts : List Act) : List UciPacket := Lts.observed bufStep departs init acts

/-- The bytes a packet was queued with: the `n`-th block received is in the `n`-th buffer. -/
def bytesIn (acts : List Act) (p : UciPacket) : List UInt8 := p.bytes ((blocks acts).getD p.buf [])

/-- The rest of the block that is being split. -/
def unsplit (s : State) : Option (List UInt8) := s.rx.map fun (_, blk, readn) => blk.data.drop readn

/-- Nobody but `r` reads, and the list is not cleared. -/
def Solo (r : Nat) : Act → Prop
  | .dequeue r' _ => r' = r
  | .copy r' => r' = r
  | .free r' => r' = r
  | .clear => False
  | _ => True

/-! The stream. -/

structure Streamed (s : State) (acts : List Act) (gone : List UciPacket) : Prop where
  next : s.next = (blocks acts).length
  heap : ∀ b data, s.heap b = some data → (blocks acts)[b]? = some data
  within : ∀ p ∈ gone ++ s.rxList, p.buf < s.next
  splitting : ∀ p blk readn, s.rx = some (p, blk, readn) →
    (blocks acts)[blk.buf]? = some blk.data ∧ readn ≤ blk.length
  cutting : Cutting uciFormat (.split false ∉ acts) (arrivals acts) (unsplit s) ((gone ++ s.rxList).map (bytesIn acts))
  dequeued : ∀ r p, s.readers r = .dequeued p → p ∈ gone
  copies : ∀ c ∈ s.copies, c.1 ∈ gone ∧ ∀ bs, c.2 = some bs → bs = bytesIn acts c.1

section Seen
variable {acts : List Act} {a : Act} {p : UciPacket} {data : List UInt8}

theorem blocks_snoc (acts : List Act) (a : Act) : blocks (acts ++ [a]) = blocks acts ++ a.block.toList := by
  cases h : a.block <;> simp [blocks, h]

theorem arrivals_snoc (acts : List Act) (a : Act) : arrivals (acts ++ [a]) = arrivals acts ++ a.arrival.toList := by
  cases h : a.arrival <;> simp [arrivals, h]

/-- Later blocks are in other buffers. -/
theorem bytesIn_snoc (hp : p.buf < (blocks acts).length) : bytesIn (acts ++ [a]) p = bytesIn acts p := by
  simp [bytesIn, blocks_snoc, List.getElem?_append_left hp]

theorem bytesIn_block (h : (blocks acts)[p.buf]? = some data) : bytesIn acts p = p.bytes data := by
  simp [bytesIn, h]

theorem granted_snoc : (.split false ∉ acts ++ [a]) → .split false ∉ acts :=
  fun h hin => h (List.mem_append_left _ hin)

end Seen

namespace Streamed

variable {s s' : State} {acts : List Act} {gone : List UciPacket} {a : Act}

theorem init : Streamed init [] [] := by
  refine ⟨rfl, ?_, ?_, ?_, .between .nil, ?_, ?_⟩ <;> simp [Uci.init]

theorem map_bytesIn_snoc (S : Streamed s acts gone) :
    (gone ++ s.rxList).map (bytesIn (acts ++ [a])) = (gone ++ s.rxList).map (bytesIn acts) :=
  List.map_congr_left fun p hp => bytesIn_snoc (S.next ▸ S.within p hp)

/-- An action that receives nothing, and leaves the block being split. -/
theorem quiet (S : Streamed s acts gone) (hblock : a.block = none) (harr : a.arrival = none)
    {gone' : List UciPacket} (hnext : s'.next = s.next) (hrx : s'.rx = s.rx)
    (hheap : ∀ b data, s'.heap b = some data → s.heap b = some data)
    (hlist : gone' ++ s'.rxList = gone ++ s.rxList)
    (hdeq : ∀ r p, s'.readers r = .dequeued p → p ∈ gone')
    (hcopies : ∀ c ∈ s'.copies, c.1 ∈ gone' ∧ ∀ bs, c.2 = some bs → bs = bytesIn acts c.1) :
    Streamed s' (acts ++ [a]) gone' := by
  have hblocks : blocks (acts ++ [a]) = blocks acts := by simp [blocks_snoc, hblock]
  have hbytes : bytesIn (acts ++ [a]) = bytesIn acts := by
    funext p
    rw [bytesIn, bytesIn, hblocks]
  refine ⟨by rw [hnext, S.next, hblocks], fun b data hb => ?_, ?_, ?_, ?_, hdeq, by rwa [hbytes]⟩
  · rw [hblocks]
    exact S.heap b data (hheap b data hb)
  · rw [hlist, hnext]
    exact S.within
  · rw [hrx, hblocks]
    exact S.splitting
  · have hcut := S.cutting.mono granted_snoc (w := .split false ∉ acts ++ [a])
    rwa [hlist, unsplit, hrx, hbytes, arrivals_snoc, harr, Option.toList_none, List.append_nil]

theorem receive {data : List UInt8} {status : Int} (S : Streamed s acts gone)
    (h : receiveStep s data status = some s') : Streamed s' (acts ++ [.receive data status]) gone := by
  have hblocks : blocks (acts ++ [.receive data status]) = blocks acts ++ [data] := by simp [blocks_snoc, Act.block]
  have hearlier : ∀ {b : Nat} {bs : List UInt8}, (blocks acts)[b]? = some bs →
      (blocks (acts ++ [.receive data status]))[b]? = some bs := by
    intro b bs hb
    rw [hblocks, List.getElem?_append_left (List.getElem?_eq_some_iff.mp hb).1, hb]
  have hcopied : ∀ c ∈ s.copies, c.1 ∈ gone ∧ ∀ bs, c.2 = some bs → bs = bytesIn (acts ++ [.receive data status]) c.1 := by
    intro c hc
    obtain ⟨hin, hbs⟩ := S.copies c hc
    rw [bytesIn_snoc (S.next ▸ S.within _ (List.mem_append_left _ hin))]
    exact ⟨hin, hbs⟩
  have hwithin : ∀ p ∈ gone ++ s.rxList, p.buf < s.next + 1 := fun p hp => Nat.lt_succ_of_lt (S.within p hp)
  have hcut := S.cutting.mono granted_snoc (w := .split false ∉ acts ++ [.receive data status])
  unfold receiveStep at h
  split at h
  · next hg =>
    have hidle : s.rx = none := Option.isNone_iff_eq_none.mp hg.1
    rw [unsplit, hidle, Option.map_none] at hcut
    split at h
    · next hstatus =>
      obtain rfl := Option.some.inj h
      refine ⟨by simp [hblocks, S.next], fun b bs hb => hearlier (S.heap b bs hb), hwithin, ?_, ?_, S.dequeued, hcopied⟩
      · intro p blk readn hrx
        simp [hidle] at hrx
      · rw [S.map_bytesIn_snoc, arrivals_snoc]
        simpa [unsplit, hidle, Act.arrival, hstatus] using hcut
    · next hstatus =>
      obtain rfl := Option.some.inj h
      have hnew : (blocks (acts ++ [.receive data status]))[s.next]? = some data := by
        simp [hblocks, S.next]
      refine ⟨by simp [hblocks, S.next], ?_, hwithin, ?_, ?_, S.dequeued, hcopied⟩
      · intro b bs hb
        dsimp only at hb
        by_cases hb' : b = s.next
        · subst hb'
          rw [Function.update_self] at hb
          rw [hnew, hb]
        · rw [Function.update_of_ne hb'] at hb
          exact hearlier (S.heap b bs hb)
      · intro p blk readn hrx
        cases hrx
        exact ⟨hnew, Nat.zero_le _⟩
      · -- the block is split from its first byte on
        rw [S.map_bytesIn_snoc, arrivals_snoc]
        have hzero : status = 0 := by simpa using hstatus
        simpa [unsplit, Act.arrival, hzero] using hcut.start data
  · simp at h

/-- Queuing the next packet of the block. -/
theorem queue (S : Streamed s acts gone) {q : UciPacket} {rx : Option (UciPacket × Block × Nat)} {alloc : Bool}
    (hbuf : q.buf < s.next)
    (hrx : ∀ p blk readn, rx = some (p, blk, readn) → (blocks acts)[blk.buf]? = some blk.data ∧ readn ≤ blk.length)
    (hcut : Cutting uciFormat (.split false ∉ acts ++ [.split alloc]) (arrivals acts)
      (rx.map fun (_, blk, readn) => blk.data.drop readn) ((gone ++ s.rxList).map (bytesIn acts) ++ [bytesIn acts q])) :
    Streamed { s with rx := rx, rxList := s.rxList ++ [q] } (acts ++ [.split alloc]) gone := by
  have hblocks : blocks (acts ++ [.split alloc]) = blocks acts := by simp [blocks_snoc, Act.block]
  have hbytes : bytesIn (acts ++ [.split alloc]) = bytesIn acts := by
    funext p
    rw [bytesIn, bytesIn, hblocks]
  refine ⟨by rw [hblocks, ← S.next], by rw [hblocks]; exact S.heap, ?_, by rw [hblocks]; exact hrx, ?_, S.dequeued,
    by rw [hbytes]; exact S.copies⟩
  · intro p hp
    rw [← List.append_assoc, List.mem_append, List.mem_singleton] at hp
    obtain hp | rfl := hp
    · exact S.within p hp
    · exact hbuf
  · rw [hbytes, arrivals_snoc]
    simpa [unsplit, Act.arrival] using hcut

theorem split {alloc : Bool} (S : Streamed s acts gone) (h : splitStep s alloc = some s') :
    Streamed s' (acts ++ [.split alloc]) gone := by
  unfold splitStep at h
  split at h
  · simp at h
  · next p blk readn hrx =>
    obtain ⟨hblock, hle⟩ := S.splitting p blk readn hrx
    have hbuf : blk.buf < s.next := by
      rw [S.next]
      exact (List.getElem?_eq_some_iff.mp hblock).1
    have hcut := S.cutting.mono granted_snoc (w := .split false ∉ acts ++ [.split alloc])
    rw [unsplit, hrx, Option.map_some] at hcut
    have hstop : ((.split false ∉ acts ++ [.split alloc]) → ∀ n, packetSize (blk.data.drop readn) = some n →
        (blk.data.drop readn).length ≤ n) → Streamed { s with
          rx := none, rxList := s.rxList ++ [uciLastPacket p blk readn] } (acts ++ [.split alloc]) gone := by
      intro hlast
      refine S.queue hbuf (by simp) ?_
      rw [bytesIn_block (show (blocks acts)[(uciLastPacket p blk readn).buf]? = some blk.data from hblock),
        bytes_uciLastPacket p hle]
      exact hcut.last hlast
    obtain ⟨hnext, hlast⟩ | ⟨n, hnext, hlt, hsize⟩ := uciNextPayload_spec hle
    · simp only [hnext, Option.some.injEq] at h
      subst h
      exact hstop fun _ => hlast
    · cases alloc with
      | false =>
        -- a failed allocation leaves the packets that follow in the last one
        simp only [hnext, Bool.false_eq_true, if_false, Option.some.injEq] at h
        subst h
        exact hstop fun hgranted => absurd (by simp) hgranted
      | true =>
        simp only [hnext, if_true, Option.some.injEq] at h
        subst h
        have hfits := blk.fits
        have hreadn : sizeT (readn + (uciSplitPacket blk readn n).length) = readn + (4 + n) :=
          Nat.mod_eq_of_lt (show readn + (4 + n) < _ by omega)
        have hmore := hcut.next hsize (by rw [List.length_drop, blk.held]; omega)
        refine S.queue hbuf ?_ ?_
        · intro p' blk' readn' hrx'
          cases hrx'
          exact ⟨hblock, by rw [hreadn]; omega⟩
        · have hpacket : (uciSplitPacket blk readn n).bytes blk.data = (blk.data.drop readn).take (4 + n) := rfl
          rw [bytesIn_block (show (blocks acts)[(uciSplitPacket blk readn n).buf]? = some blk.data from hblock), hpacket]
          rw [List.drop_drop] at hmore
          simpa only [Option.map_some, hreadn] using hmore

theorem dequeue {r maxSize : Nat} (S : Streamed s acts gone) (h : dequeueStep s r maxSize = some s') :
    Streamed s' (acts ++ [.dequeue r maxSize]) (gone ++ departs s (.dequeue r maxSize)) := by
  unfold dequeueStep at h
  split at h
  · next hidle =>
    split at h
    · next hlist =>
      obtain rfl := Option.some.inj h
      have hnone : departs s (.dequeue r maxSize) = [] := by simp [departs, hidle, hlist]
      rw [hnone, List.append_nil]
      exact S.quiet rfl rfl rfl rfl (fun _ _ h => h) rfl S.dequeued S.copies
    · next p rest hlist =>
      split at h
      · next hlong =>
        obtain rfl := Option.some.inj h
        have hnone : departs s (.dequeue r maxSize) = [] := by simp [departs, hidle, hlist, hlong]
        rw [hnone, List.append_nil]
        exact S.quiet rfl rfl rfl rfl (fun _ _ h => h) rfl S.dequeued S.copies
      · next hshort =>
        obtain rfl := Option.some.inj h
        have hone : departs s (.dequeue r maxSize) = [p] := by simp [departs, hidle, hlist, hshort]
        rw [hone]
        refine S.quiet rfl rfl rfl rfl (fun _ _ h => h) (by simp [hlist]) ?_ ?_
        · intro r' q hq
          obtain hq | hq := dequeued_update hq
          · simp [ReaderPc.dequeued.inj hq]
          · exact List.mem_append_left _ (S.dequeued r' q hq)
        · intro c hc
          obtain ⟨hin, hbs⟩ := S.copies c hc
          exact ⟨List.mem_append_left _ hin, hbs⟩
  · simp at h

theorem copy {r : Nat} (S : Streamed s acts gone) (h : copyStep s r = some s') :
    Streamed s' (acts ++ [.copy r]) gone := by
  unfold copyStep at h
  split at h
  · next p hr =>
    obtain rfl := Option.some.inj h
    refine S.quiet rfl rfl rfl rfl (fun _ _ h => h) rfl ?_ ?_
    · intro r' q hq
      obtain hq | hq := dequeued_update hq
      · simp at hq
      · exact S.dequeued r' q hq
    · intro c hc
      obtain hc | hc := List.mem_append.mp hc
      · exact S.copies c hc
      · obtain rfl := List.mem_singleton.mp hc
        refine ⟨S.dequeued r p hr, fun bs hbs => ?_⟩
        obtain ⟨data, hdata, rfl⟩ := Option.map_eq_some_iff.mp hbs
        rw [bytesIn_block (S.heap p.buf data hdata)]
  · simp at h

theorem uciPacketFree_some {heap : Nat → Option (List UInt8)} {p : UciPacket} {b : Nat} {data : List UInt8}
    (h : uciPacketFree heap p b = some data) : heap b = some data := by
  by_cases hb : p.blk = some b
  · simp [uciPacketFree_self hb] at h
  · rwa [uciPacketFree_of_ne hb] at h

theorem free {r : Nat} (S : Streamed s acts gone) (h : freeStep s r = some s') :
    Streamed s' (acts ++ [.free r]) gone := by
  unfold freeStep at h
  split at h
  · next p hr =>
    obtain rfl := Option.some.inj h
    refine S.quiet rfl rfl rfl rfl (fun _ _ h => uciPacketFree_some h) rfl ?_ S.copies
    intro r' q hq
    obtain hq | hq := dequeued_update hq
    · simp at hq
    · exact S.dequeued r' q hq
  · simp at h

theorem clear (S : Streamed s acts gone) : Streamed (clearRxList s) (acts ++ [.clear]) (gone ++ s.rxList) := by
  have hheap : ∀ (ps : List UciPacket) (heap : Nat → Option (List UInt8)) b data,
      ps.foldl uciPacketFree heap b = some data → heap b = some data := by
    intro ps
    induction ps with
    | nil => exact fun _ _ _ h => h
    | cons p ps ih => exact fun heap b data h => uciPacketFree_some (ih _ b data h)
  refine S.quiet rfl rfl rfl rfl (hheap s.rxList s.heap) (by simp [clearRxList]) ?_ ?_
  · exact fun r p hr => List.mem_append_left _ (S.dequeued r p hr)
  · intro c hc
    obtain ⟨hin, hbs⟩ := S.copies c hc
    exact ⟨List.mem_append_left _ hin, hbs⟩

theorem step (S : Streamed s acts gone) (h : bufStep s a = some s') :
    Streamed s' (acts ++ [a]) (gone ++ departs s a) := by
  cases a with
  | receive data status => simpa [departs] using S.receive h
  | split alloc => simpa [departs] using S.split h
  | dequeue r maxSize => exact S.dequeue h
  | copy r => simpa [departs] using S.copy h
  | free r => simpa [departs] using S.free h
  | clear =>
    obtain rfl := Option.some.inj h
    exact S.clear

end Streamed

/-! A single reader. -/

/-- The packet a reader has taken and not copied. -/
def inHand : ReaderPc → List UciPacket
  | .dequeued p => [p]
  | _ => []

/-- What `r` has taken it has copied, but for the packet in hand. -/
structure Alone (r : Nat) (s : State) (gone : List UciPacket) : Prop where
  sound : Sound s
  others : ∀ r', r' ≠ r → s.readers r' = .idle
  taken : gone = s.copies.map Prod.fst ++ inHand (s.readers r)

namespace Alone

variable {r : Nat} {s s' : State} {gone : List UciPacket} {a : Act}

theorem init (r : Nat) : Alone r init [] := ⟨.init, fun _ _ => rfl, rfl⟩

/-- The buffer freed is not one in which a packet is in hand. -/
theorem noneInUse (A : Alone r s gone) (hsolo : Solo r a) : NoneInUse s a := by
  rintro b hf ⟨r', q, hr', -⟩
  cases a with
  | free r0 =>
    obtain rfl : r0 = r := hsolo
    obtain ⟨p, hp, -⟩ := hf
    by_cases hrr : r' = r0
    · subst hrr
      simp [hp] at hr'
    · simp [A.others r' hrr] at hr'
  | clear => exact hsolo
  | receive | split | dequeue | copy => exact hf

theorem others_update {pc : ReaderPc} (A : Alone r s gone) (r' : Nat) (hr : r' ≠ r) :
    Function.update s.readers r pc r' = .idle := by
  rw [Function.update_of_ne hr]
  exact A.others r' hr

theorem step (A : Alone r s gone) (hsolo : Solo r a) (h : bufStep s a = some s') :
    Alone r s' (gone ++ departs s a) := by
  have hsound := A.sound.step (A.noneInUse hsolo) h
  -- nothing is taken or copied in the steps of the HSSPI thread
  have same : ∀ {t : State}, t.readers = s.readers → t.copies = s.copies → departs s a = [] → Sound t →
      Alone r t (gone ++ departs s a) := by
    intro t hreaders hcopies hnone hsound
    refine ⟨hsound, by simpa [hreaders] using A.others, ?_⟩
    rw [hnone, List.append_nil, hreaders, hcopies]
    exact A.taken
  cases a with
  | receive data status =>
    simp only [bufStep, receiveStep] at h
    split at h
    · split at h <;> obtain rfl := Option.some.inj h <;> exact same rfl rfl rfl hsound
    · simp at h
  | split alloc =>
    simp only [bufStep, splitStep] at h
    split at h
    · simp at h
    · split at h
      · simp at h
      · obtain rfl := Option.some.inj h
        exact same rfl rfl rfl hsound
      · split at h <;> obtain rfl := Option.some.inj h <;> exact same rfl rfl rfl hsound
  | dequeue r0 maxSize =>
    obtain rfl : r0 = r := hsolo
    simp only [bufStep, dequeueStep] at h
    split at h
    · next hidle =>
      split at h
      · next hlist =>
        obtain rfl := Option.some.inj h
        exact same rfl rfl (by simp [departs, hidle, hlist]) hsound
      · next p rest hlist =>
        split at h
        · next hlong =>
          obtain rfl := Option.some.inj h
          exact same rfl rfl (by simp [departs, hidle, hlist, hlong]) hsound
        · next hshort =>
          obtain rfl := Option.some.inj h
          refine ⟨hsound, A.others_update, ?_⟩
          have htaken := A.taken
          simp only [hidle, inHand, List.append_nil] at htaken
          simp [departs, hidle, hlist, hshort, htaken, inHand]
    · simp at h
  | copy r0 =>
    obtain rfl : r0 = r := hsolo
    simp only [bufStep, copyStep] at h
    split at h
    · next p hr =>
      obtain rfl := Option.some.inj h
      refine ⟨hsound, A.others_update, ?_⟩
      have htaken := A.taken
      simp only [hr, inHand] at htaken
      simp [departs, htaken, inHand]
    · simp at h
  | free r0 =>
    obtain rfl : r0 = r := hsolo
    simp only [bufStep, freeStep] at h
    split at h
    · next p hr =>
      obtain rfl := Option.some.inj h
      refine ⟨hsound, A.others_update, ?_⟩
      have htaken := A.taken
      simp only [hr, inHand] at htaken
      simp [departs, htaken, inHand]
    · simp at h
  | clear => exact hsolo.elim

end Alone

/-- What has been taken off the list, is in it, or is left of the block being split is what has been received without
error, in order and nothing more; it is cut into the packets the device sent, where these are whole and no allocation
fails. A copy finds the bytes the packet was queued with or a freed buffer, and never that where a single reader
reads and the list is not cleared: then the packets taken are the packets copied, and at most one in hand. -/
theorem uci_stream_exact {acts : List Act} {s : State} (h : Lts.run bufStep init acts = some s) :
    ((departed acts ++ s.rxList).map (bytesIn acts)).flatten ++ (unsplit s).getD [] = (arrivals acts).flatten ∧
    (.split false ∉ acts → ∀ sent : List (List (List UInt8)), (∀ packets ∈ sent, packets ≠ []) →
      (∀ packets ∈ sent, ∀ bs ∈ packets, IsPacket bs) → arrivals acts = sent.map List.flatten →
      (departed acts ++ s.rxList).map (bytesIn acts) <+: sent.flatten ∧
        (s.rx = none → (departed acts ++ s.rxList).map (bytesIn acts) = sent.flatten)) ∧
    (∀ c ∈ s.copies, c.1 ∈ departed acts ∧ ∀ bs, c.2 = some bs → bs = bytesIn acts c.1) ∧
    ∀ r, (∀ a ∈ acts, Solo r a) →
      (∀ c ∈ s.copies, c.2 = some (bytesIn acts c.1)) ∧
        ∃ hand, hand.length ≤ 1 ∧ departed acts = s.copies.map Prod.fst ++ hand := by
  obtain ⟨S, hall⟩ := Lts.run_recorded
    (I := fun s acts gone => Streamed s acts gone ∧ ∀ r, (∀ a ∈ acts, Solo r a) → Alone r s gone)
    (fun s a s' acts gone hI hstep => ⟨hI.1.step hstep, fun r hsolo =>
      (hI.2 r fun a ha => hsolo a (List.mem_append_left _ ha)).step (hsolo a (by simp)) hstep⟩)
    ⟨.init, fun r _ => .init r⟩ h
  refine ⟨S.cutting.flatten_eq, ?_, S.copies, ?_⟩
  · intro hgranted sent hne hpackets hsent
    have hexact := S.cutting.eq_of_complete hgranted hne
      (fun packets hp bs hbs => complete_iff.mpr (hpackets packets hp bs hbs)) hsent
    exact ⟨hexact.1, fun hrx => hexact.2 (by rw [unsplit, hrx, Option.map_none])⟩
  · intro r hsolo
    have A := hall r hsolo
    refine ⟨fun c hc => ?_, inHand (s.readers r), by cases s.readers r <;> simp [inHand], A.taken⟩
    obtain ⟨bs, hbs⟩ := Option.isSome_iff_exists.mp (A.sound.copiesLive c hc)
    rw [hbs, (S.copies c hc).2 bs hbs]

/-- A block with two packets, the first of which is read with a second try. -/
def twoPackets : List Act :=
  [.receive [0x20, 0, 0, 0, 0x40, 0, 0, 1, 9] 0, .split true, .dequeue 0 3, .split true, .dequeue 0 64, .copy 0, .free 0]

theorem uci_stream_exact_two : ∃ s, Lts.run bufStep init twoPackets = some s ∧
    (departed twoPackets ++ s.rxList).map (bytesIn twoPackets) = [[0x20, 0, 0, 0], [0x40, 0, 0, 1, 9]] ∧
    (∀ c ∈ s.copies, c.2 = some (bytesIn twoPackets c.1)) ∧
    ∃ hand, hand.length ≤ 1 ∧ departed twoPackets = s.copies.map Prod.fst ++ hand := by
  obtain ⟨s, hs, hrx⟩ : ∃ s, Lts.run bufStep init twoPackets = some s ∧ s.rx = none := ⟨_, rfl, rfl⟩
  obtain ⟨-, hcut, -, hread⟩ := uci_stream_exact hs
  have hpackets : ∀ packets ∈ [[[0x20, 0, 0, 0], [0x40, 0, 0, 1, 9]]], ∀ bs ∈ packets, IsPacket bs := by
    simp only [List.mem_singleton, forall_eq, List.forall_mem_cons]
    exact ⟨⟨0, by decide, by decide⟩, 1, by decide, by decide⟩
  obtain ⟨-, hall⟩ := hcut (by simp [twoPackets]) [[[0x20, 0, 0, 0], [0x40, 0, 0, 1, 9]]] (by simp) hpackets rfl
  exact ⟨s, hs, hall hrx, hread 0 (by simp [twoPackets, Solo])⟩

end Qm35.Uci
