import Qm35.Lib.Lts
import Qm35.Uci.Segment

/- Who may still use a block's buffer. `uci_received` runs in the HSSPI thread, one
   pass of its loop at a time; any number of `uci_read` calls dequeue, copy to user
   space and free; `clear_rx_list` empties the list under the lock. Every access to
   `rx_list` is one step, since all of them hold `uci->lock`.

   The packets cut from a block are queued in front of the packet that owns its
   buffer, so once a reader has the owner none of them is queued any more, and
   `clear_rx_list` frees a buffer together with the last queued use of it. What no
   code prevents is that another reader has dequeued a packet of the block and not
   yet copied it: then the copy reads a freed buffer. -/
namespace Qm35.Uci

/-- Where a `uci_read` call is. -/
inductive ReaderPc where
  | idle
  | dequeued (p : UciPacket)
  | copied (p : UciPacket)

/-- `heap` has the buffers allocated and not freed, `rx` the block `uci_received` is
splitting with its `readn`, and `copies` what each `copy_to_user` found in the buffer. -/
structure State where
  heap : Nat → Option (List UInt8)
  next : Nat
  rx : Option (UciPacket × Block × Nat)
  rxList : List UciPacket
  readers : Nat → ReaderPc
  copies : List (UciPacket × Option (List UInt8))

def init : State := ⟨fun _ => none, 0, none, [], fun _ => .idle, []⟩

inductive Act where
  | receive (data : List UInt8) (status : Int)
  | split (alloc : Bool)
  | dequeue (r maxSize : Nat)
  | copy (r : Nat)
  | free (r : Nat)
  | clear

/-- `uci_packet_free` -/
def uciPacketFree (heap : Nat → Option (List UInt8)) (p : UciPacket) : Nat → Option (List UInt8) :=
  match p.blk with
  | some b => Function.update heap b none
  | none => heap

/-- `uci_get`, the transfer, and the call of `uci_received`. -/
def receiveStep (s : State) (data : List UInt8) (status : Int) : Option State :=
  if h : s.rx.isNone = true ∧ data.length < 65536 then
    let blk : Block := ⟨s.next, data, data.length, rfl, h.2⟩
    if status ≠ 0 then some { s with next := s.next + 1 }
    else some { s with
      heap := Function.update s.heap s.next (some data)
      next := s.next + 1
      rx := some (uciPacketAlloc blk, blk, 0) }
  else none

/-- One pass of the loop of `uci_received`, or what follows it. -/
def splitStep (s : State) (alloc : Bool) : Option State :=
  match s.rx with
  | none => none
  | some (p, blk, readn) =>
    let stop := { s with rx := none, rxList := s.rxList ++ [uciLastPacket p blk readn] }
    match uciNextPayload blk readn with
    | none => none
    | some none => some stop
    | some (some payloadSize) =>
      if alloc then
        let next := uciSplitPacket blk readn payloadSize
        some { s with rx := some (p, blk, sizeT (readn + next.length)), rxList := s.rxList ++ [next] }
      else some stop

/-- The locked part of `uci_layer_read`. -/
def dequeueStep (s : State) (r maxSize : Nat) : Option State :=
  match s.readers r with
  | .idle =>
    match s.rxList with
    | [] => some s
    | p :: rest =>
      if maxSize < p.length then some s
      else some { s with rxList := rest, readers := Function.update s.readers r (.dequeued p) }
  | _ => none

/-- `copy_to_user` of `uci_read` -/
def copyStep (s : State) (r : Nat) : Option State :=
  match s.readers r with
  | .dequeued p => some { s with
      copies := s.copies ++ [(p, (s.heap p.buf).map p.bytes)]
      readers := Function.update s.readers r (.copied p) }
  | _ => none

/-- `uci_packet_free` at the end of `uci_read` -/
def freeStep (s : State) (r : Nat) : Option State :=
  match s.readers r with
  | .copied p => some { s with
      heap := uciPacketFree s.heap p
      readers := Function.update s.readers r .idle }
  | _ => none

/-- `clear_rx_list` -/
def clearRxList (s : State) : State :=
  { s with heap := s.rxList.foldl uciPacketFree s.heap, rxList := [] }

def bufStep (s : State) : Act → Option State
  | .receive data status => receiveStep s data status
  | .split alloc => splitStep s alloc
  | .dequeue r maxSize => dequeueStep s r maxSize
  | .copy r => copyStep s r
  | .free r => freeStep s r
  | .clear => some (clearRxList s)

/-! The condition. -/

/-- Some reader has dequeued a packet that points into the buffer `b`, and not copied it. -/
def InUse (s : State) (b : Nat) : Prop := ∃ r p, s.readers r = .dequeued p ∧ p.buf = b

/-- The action frees the buffer `b`. -/
def Frees (s : State) (b : Nat) : Act → Prop
  | .free r => ∃ p, s.readers r = .copied p ∧ p.blk = some b
  | .clear => ∃ p ∈ s.rxList, p.blk = some b
  | _ => False

/-- No buffer is freed while a reader is between dequeuing and copying a packet in it. -/
def NoneInUse (s : State) (a : Act) : Prop := ∀ b, Frees s b a → ¬InUse s b

/-! The invariant. -/

/-- A reader has the packet. -/
def Taken (s : State) (p : UciPacket) : Prop :=
  ∃ r, s.readers r = .dequeued p ∨ s.readers r = .copied p

/-- The block being split is live, and its owner is neither queued nor taken. -/
structure SplitOk (s : State) (p : UciPacket) (blk : Block) : Prop where
  live : (s.heap blk.buf).isSome
  lt : blk.buf < s.next
  owner : p.blk = some blk.buf
  queued : ∀ q ∈ s.rxList, q.blk ≠ some blk.buf
  taken : ∀ q, Taken s q → q.blk ≠ some blk.buf

structure Sound (s : State) : Prop where
  queuedLive : ∀ p ∈ s.rxList, (s.heap p.buf).isSome
  dequeuedLive : ∀ r p, s.readers r = .dequeued p → (s.heap p.buf).isSome
  owned : ∀ p, (p ∈ s.rxList ∨ Taken s p) → ∀ b, p.blk = some b → b < s.next
  ordered : s.rxList.Pairwise fun p q => p.blk ≠ some q.buf
  taken : ∀ p, Taken s p → ∀ q ∈ s.rxList, p.blk ≠ some q.buf
  splitting : ∀ p blk readn, s.rx = some (p, blk, readn) → SplitOk s p blk
  copiesLive : ∀ c ∈ s.copies, c.2.isSome

section Free
variable {heap : Nat → Option (List UInt8)} {p : UciPacket} {b : Nat}

theorem uciPacketFree_of_ne (h : p.blk ≠ some b) : uciPacketFree heap p b = heap b := by
  unfold uciPacketFree
  cases hp : p.blk with
  | none => rfl
  | some c =>
    have hbc : b ≠ c := by
      rintro rfl
      exact h hp
    exact Function.update_of_ne hbc _ _

theorem uciPacketFree_self (h : p.blk = some b) : uciPacketFree heap p b = none := by
  simp [uciPacketFree, h]

theorem foldl_uciPacketFree_of_ne {ps : List UciPacket} (h : ∀ p ∈ ps, p.blk ≠ some b) :
    ps.foldl uciPacketFree heap b = heap b := by
  induction ps generalizing heap with
  | nil => rfl
  | cons p ps ih =>
    rw [List.foldl_cons, ih fun q hq => h q (List.mem_cons_of_mem _ hq)]
    exact uciPacketFree_of_ne (h p List.mem_cons_self)

theorem foldl_uciPacketFree_of_none {ps : List UciPacket} (h : heap b = none) :
    ps.foldl uciPacketFree heap b = none := by
  induction ps generalizing heap with
  | nil => exact h
  | cons p ps ih =>
    rw [List.foldl_cons]
    apply ih
    by_cases hp : p.blk = some b
    · exact uciPacketFree_self hp
    · rw [uciPacketFree_of_ne hp]
      exact h

theorem foldl_uciPacketFree_of_mem {ps : List UciPacket} (hp : p ∈ ps) (h : p.blk = some b) :
    ps.foldl uciPacketFree heap b = none := by
  obtain ⟨l, l', rfl⟩ := List.append_of_mem hp
  rw [List.foldl_append, List.foldl_cons]
  exact foldl_uciPacketFree_of_none (uciPacketFree_self h)

end Free

/-- Who has a packet after the reader `r` moved on to `pc`. -/
theorem taken_update {s s' : State} {r : Nat} {pc : ReaderPc} {q : UciPacket}
    (hr : s'.readers = Function.update s.readers r pc) (h : Taken s' q) :
    Taken s q ∨ pc = .dequeued q ∨ pc = .copied q := by
  obtain ⟨r', h⟩ := h
  rw [hr] at h
  by_cases hrr : r' = r
  · subst hrr
    rw [Function.update_self] at h
    exact .inr h
  · rw [Function.update_of_ne hrr] at h
    exact .inl ⟨r', h⟩

/-- Who has taken a packet off the list after that. -/
theorem dequeued_update {readers : Nat → ReaderPc} {r r' : Nat} {pc : ReaderPc} {q : UciPacket}
    (h : Function.update readers r pc r' = .dequeued q) :
    pc = .dequeued q ∨ readers r' = .dequeued q := by
  by_cases hrr : r' = r
  · subst hrr
    rw [Function.update_self] at h
    exact .inl h
  · rw [Function.update_of_ne hrr] at h
    exact .inr h

namespace Sound

variable {s s' : State}

theorem init : Sound init := by
  refine ⟨?_, ?_, ?_, List.Pairwise.nil, ?_, ?_, ?_⟩
  · intro p hp
    cases hp
  · intro r p h
    cases h
  · rintro p (hp | ⟨r, h | h⟩)
    · cases hp
    · cases h
    · cases h
  · intro p _ q hq
    cases hq
  · intro p blk readn h
    cases h
  · intro c hc
    cases hc

theorem receive {data : List UInt8} {status : Int} (S : Sound s)
    (h : receiveStep s data status = some s') : Sound s' := by
  unfold receiveStep at h
  split at h
  · next hg =>
    have hup : ∀ {v : Option (List UInt8)}, v.isSome → ∀ b, (s.heap b).isSome →
        (Function.update s.heap s.next v b).isSome := by
      intro v hv b hb
      by_cases hbn : b = s.next
      · subst hbn
        rw [Function.update_self]
        exact hv
      · rw [Function.update_of_ne hbn]
        exact hb
    split at h
    · cases h
      refine ⟨S.queuedLive, S.dequeuedLive, ?_, S.ordered, S.taken, ?_, S.copiesLive⟩
      · intro p hp b hb
        exact Nat.lt_succ_of_lt (S.owned p hp b hb)
      · intro p blk readn hrx
        rw [hrx] at hg
        cases hg.1
    · cases h
      refine ⟨fun p hp => hup rfl _ (S.queuedLive p hp), fun r p hr => hup rfl _ (S.dequeuedLive r p hr),
        ?_, S.ordered, S.taken, ?_, S.copiesLive⟩
      · intro p hp b hb
        exact Nat.lt_succ_of_lt (S.owned p hp b hb)
      · -- the buffer is new: nobody owns it
        intro p blk readn hrx
        cases hrx
        refine ⟨?_, Nat.lt_succ_self _, rfl, ?_, ?_⟩
        · show (Function.update s.heap s.next (some data) s.next).isSome
          rw [Function.update_self]
          rfl
        · intro q hq hb
          exact Nat.lt_irrefl _ (S.owned q (.inl hq) _ hb)
        · intro q hq hb
          exact Nat.lt_irrefl _ (S.owned q (.inr hq) _ hb)
  · cases h

/-- Queuing a packet of the block being split. -/
theorem queue {p q : UciPacket} {blk : Block} {rx : Option (UciPacket × Block × Nat)} (S : Sound s)
    (P : SplitOk s p blk) (hbuf : q.buf = blk.buf) (hown : ∀ b, q.blk = some b → b = blk.buf)
    (hrx : rx = none ∨ q.blk = none ∧ ∃ readn, rx = some (p, blk, readn)) :
    Sound { s with rx := rx, rxList := s.rxList ++ [q] } := by
  refine ⟨?_, S.dequeuedLive, ?_, ?_, ?_, ?_, S.copiesLive⟩
  · intro x hx
    rcases List.mem_append.mp hx with hx | hx
    · exact S.queuedLive x hx
    · rw [List.mem_singleton.mp hx, hbuf]
      exact P.live
  · rintro x (hx | hx) b hb
    · rcases List.mem_append.mp hx with hx | hx
      · exact S.owned x (.inl hx) b hb
      · rw [List.mem_singleton.mp hx] at hb
        rw [hown b hb]
        exact P.lt
    · exact S.owned x (.inr hx) b hb
  · rw [List.pairwise_append]
    refine ⟨S.ordered, List.pairwise_singleton _ _, ?_⟩
    intro x hx y hy
    rw [List.mem_singleton.mp hy, hbuf]
    exact P.queued x hx
  · intro x hx y hy
    rcases List.mem_append.mp hy with hy | hy
    · exact S.taken x hx y hy
    · rw [List.mem_singleton.mp hy, hbuf]
      exact P.taken x hx
  · intro p' blk' readn' h
    rcases hrx with rfl | ⟨hnone, readn, rfl⟩
    · cases h
    · cases h
      -- still being split: the packet just queued does not own the block
      refine ⟨P.live, P.lt, P.owner, ?_, P.taken⟩
      intro x hx
      rcases List.mem_append.mp hx with hx | hx
      · exact P.queued x hx
      · rw [List.mem_singleton.mp hx, hnone]
        simp

theorem split {alloc : Bool} (S : Sound s) (h : splitStep s alloc = some s') : Sound s' := by
  unfold splitStep at h
  split at h
  · cases h
  · next p blk readn hrx =>
    have P := S.splitting p blk readn hrx
    have hlast : Sound { s with rx := none, rxList := s.rxList ++ [uciLastPacket p blk readn] } := by
      refine S.queue P rfl ?_ (.inl rfl)
      intro b hb
      have hb' : p.blk = some b := hb
      rw [P.owner] at hb'
      exact (Option.some.inj hb').symm
    split at h
    · cases h
    · cases h
      exact hlast
    · next n _ =>
      split at h
      · cases h
        exact S.queue P rfl (fun b hb => by cases hb) (.inr ⟨rfl, _, rfl⟩)
      · cases h
        exact hlast

theorem dequeue {r maxSize : Nat} (S : Sound s) (h : dequeueStep s r maxSize = some s') : Sound s' := by
  unfold dequeueStep at h
  split at h
  · split at h
    · cases h
      exact S
    · next p rest hlist =>
      split at h
      · cases h
        exact S
      · cases h
        have hp : p ∈ s.rxList := by
          rw [hlist]
          exact List.mem_cons_self
        have hrest : ∀ q ∈ rest, q ∈ s.rxList := by
          intro q hq
          rw [hlist]
          exact List.mem_cons_of_mem _ hq
        have hord := S.ordered
        rw [hlist, List.pairwise_cons] at hord
        -- the packet goes from the list to the reader, so taken are those before and this one
        have htk : ∀ q, Taken { s with rxList := rest, readers := Function.update s.readers r (.dequeued p) } q →
            Taken s q ∨ q = p := by
          intro q hq
          rcases taken_update rfl hq with hq | hq | hq
          · exact .inl hq
          · cases hq
            exact .inr rfl
          · cases hq
        refine ⟨fun q hq => S.queuedLive q (hrest q hq), ?_, ?_, hord.2, ?_, ?_, S.copiesLive⟩
        · intro r' q hq
          rcases dequeued_update hq with hq | hq
          · cases hq
            exact S.queuedLive p hp
          · exact S.dequeuedLive r' q hq
        · rintro q (hq | hq) b hb
          · exact S.owned q (.inl (hrest q hq)) b hb
          · rcases htk q hq with hq | rfl
            · exact S.owned q (.inr hq) b hb
            · exact S.owned q (.inl hp) b hb
        · intro q hq x hx
          rcases htk q hq with hq | rfl
          · exact S.taken q hq x (hrest x hx)
          · exact hord.1 x hx
        · intro p' blk readn hrx
          have P := S.splitting p' blk readn hrx
          refine ⟨P.live, P.lt, P.owner, fun q hq => P.queued q (hrest q hq), ?_⟩
          intro q hq
          rcases htk q hq with hq | rfl
          · exact P.taken q hq
          · exact P.queued q hp
  · cases h

theorem copy {r : Nat} (S : Sound s) (h : copyStep s r = some s') : Sound s' := by
  unfold copyStep at h
  split at h
  · next p hr =>
    cases h
    have htk : ∀ q, Taken { s with
        copies := s.copies ++ [(p, (s.heap p.buf).map p.bytes)]
        readers := Function.update s.readers r (.copied p) } q → Taken s q := by
      intro q hq
      rcases taken_update rfl hq with hq | hq | hq
      · exact hq
      · cases hq
      · cases hq
        exact ⟨r, .inl hr⟩
    refine ⟨S.queuedLive, ?_, fun q hq => S.owned q (hq.imp_right (htk q)), S.ordered,
      fun q hq => S.taken q (htk q hq), ?_, ?_⟩
    · intro r' q hq
      rcases dequeued_update hq with hq | hq
      · cases hq
      · exact S.dequeuedLive r' q hq
    · intro p' blk readn hrx
      have P := S.splitting p' blk readn hrx
      exact ⟨P.live, P.lt, P.owner, P.queued, fun q hq => P.taken q (htk q hq)⟩
    · intro c hc
      rcases List.mem_append.mp hc with hc | hc
      · exact S.copiesLive c hc
      · rw [List.mem_singleton.mp hc, Option.isSome_map]
        exact S.dequeuedLive r p hr
  · cases h

theorem free {r : Nat} (S : Sound s) (hn : NoneInUse s (.free r)) (h : freeStep s r = some s') :
    Sound s' := by
  unfold freeStep at h
  split at h
  · next p hr =>
    cases h
    have hp : Taken s p := ⟨r, .inr hr⟩
    have htk : ∀ q, Taken { s with
        heap := uciPacketFree s.heap p
        readers := Function.update s.readers r .idle } q → Taken s q := by
      intro q hq
      rcases taken_update rfl hq with hq | hq | hq
      · exact hq
      · cases hq
      · cases hq
    refine ⟨?_, ?_, fun q hq => S.owned q (hq.imp_right (htk q)), S.ordered,
      fun q hq => S.taken q (htk q hq), ?_, S.copiesLive⟩
    · -- no packet of the block is queued behind its owner
      intro q hq
      show (uciPacketFree s.heap p q.buf).isSome
      rw [uciPacketFree_of_ne (S.taken p hp q hq)]
      exact S.queuedLive q hq
    · intro r' q hq
      rcases dequeued_update hq with hq | hq
      · cases hq
      · have hne : p.blk ≠ some q.buf := fun hb => hn q.buf ⟨p, hr, hb⟩ ⟨r', q, hq, rfl⟩
        show (uciPacketFree s.heap p q.buf).isSome
        rw [uciPacketFree_of_ne hne]
        exact S.dequeuedLive r' q hq
    · intro p' blk readn hrx
      have P := S.splitting p' blk readn hrx
      refine ⟨?_, P.lt, P.owner, P.queued, fun q hq => P.taken q (htk q hq)⟩
      show (uciPacketFree s.heap p blk.buf).isSome
      rw [uciPacketFree_of_ne (P.taken p hp)]
      exact P.live
  · cases h

theorem clear (S : Sound s) (hn : NoneInUse s .clear) : Sound (clearRxList s) := by
  have htk : ∀ q, Taken (clearRxList s) q → Taken s q := fun q hq => hq
  refine ⟨?_, ?_, ?_, List.Pairwise.nil, ?_, ?_, S.copiesLive⟩
  · intro p hp
    cases hp
  · intro r q hq
    have hne : ∀ p ∈ s.rxList, p.blk ≠ some q.buf :=
      fun p hp hb => hn q.buf ⟨p, hp, hb⟩ ⟨r, q, hq, rfl⟩
    show (s.rxList.foldl uciPacketFree s.heap q.buf).isSome
    rw [foldl_uciPacketFree_of_ne hne]
    exact S.dequeuedLive r q hq
  · rintro q (hq | hq) b hb
    · cases hq
    · exact S.owned q (.inr (htk q hq)) b hb
  · intro p _ q hq
    cases hq
  · intro p blk readn hrx
    have P := S.splitting p blk readn hrx
    refine ⟨?_, P.lt, P.owner, ?_, fun q hq => P.taken q (htk q hq)⟩
    · show (s.rxList.foldl uciPacketFree s.heap blk.buf).isSome
      rw [foldl_uciPacketFree_of_ne P.queued]
      exact P.live
    · intro q hq
      cases hq

theorem step {a : Act} (S : Sound s) (hn : NoneInUse s a) (h : bufStep s a = some s') : Sound s' := by
  cases a with
  | receive data status => exact S.receive h
  | split alloc => exact S.split h
  | dequeue r maxSize => exact S.dequeue h
  | copy r => exact S.copy h
  | free r => exact S.free hn h
  | clear =>
    cases h
    exact S.clear hn

end Sound

/-- In every run in which no buffer is freed under a reader that is about to copy from it,
every copy reads a live buffer. -/
theorem copies_live {acts : List Act} {s : State} (hm : Lts.Meets bufStep NoneInUse init acts)
    (hr : Lts.run bufStep init acts = some s) : ∀ c ∈ s.copies, c.2.isSome :=
  (Lts.run_invariant (fun _ _ _ S hn h => S.step hn h) Sound.init hm hr).copiesLive

/-- A block of two packets: each reader takes one, and both have copied before the one with the owner frees the block. -/
def twoReaders : List Act :=
  [.receive [0x20, 0, 0, 1, 5, 0x21, 0, 0, 0] 0, .split true, .split true, .dequeue 0 64, .dequeue 1 64, .copy 1, .copy 0]

theorem copies_live_two_readers : ∃ s, Lts.run bufStep init (twoReaders ++ [.free 1, .free 0]) = some s ∧
    s.copies = [(⟨some 0, 0, 5, 4⟩, some [0x21, 0, 0, 0]), (⟨none, 0, 0, 5⟩, some [0x20, 0, 0, 1, 5])] ∧
    ∀ c ∈ s.copies, c.2.isSome := by
  -- nobody is about to copy once both have copied
  have hnone : ∀ (s : State) a, (∀ r p, s.readers r ≠ .dequeued p) → NoneInUse s a := by
    rintro s a hidle b - ⟨r, p, hr, -⟩
    exact hidle r p hr
  obtain ⟨t, ht⟩ : ∃ t, Lts.run bufStep init twoReaders = some t := ⟨_, rfl⟩
  have hcopied : ∀ r p, t.readers r ≠ .dequeued p := by
    cases ht
    intro r p
    by_cases h0 : r = 0 <;> by_cases h1 : r = 1 <;> simp [Function.update, h0, h1, init]
  have hfree : ∀ s' r0, freeStep t r0 = some s' → ∀ r p, s'.readers r ≠ .dequeued p := by
    intro s' r0 h r p
    unfold freeStep at h
    split at h
    · obtain rfl := Option.some.inj h
      by_cases hr : r = r0
      · simp [hr]
      · simpa [hr] using hcopied r p
    · cases h
  have hm : Lts.Meets bufStep NoneInUse init (twoReaders ++ [.free 1, .free 0]) := by
    refine .append ht (.of_mem ?_) ⟨hnone t _ hcopied, fun t1 h1 => ⟨hnone t1 _ (hfree t1 1 h1), fun _ _ => trivial⟩⟩
    intro a ha s b hf
    simp only [twoReaders, List.mem_cons, List.not_mem_nil, or_false] at ha
    rcases ha with rfl | rfl | rfl | rfl | rfl | rfl | rfl <;> exact hf.elim
  have heval : (Lts.run bufStep init (twoReaders ++ [.free 1, .free 0])).map State.copies =
      some [(⟨some 0, 0, 5, 4⟩, some [0x21, 0, 0, 0]), (⟨none, 0, 0, 5⟩, some [0x20, 0, 0, 1, 5])] := by decide
  obtain ⟨s, hs, hc⟩ := Option.map_eq_some_iff.mp heval
  exact ⟨s, hs, hc, copies_live hm hs⟩

/-- Outside the condition the copy that is due reads freed memory. -/
theorem copy_after_free {s s' : State} {a : Act} {b : Nat} (hf : Frees s b a) (hu : InUse s b)
    (h : bufStep s a = some s') :
    ∃ r s'', bufStep s' (.copy r) = some s'' ∧ ∃ c ∈ s''.copies, c.2 = none := by
  obtain ⟨r, q, hr, rfl⟩ := hu
  have hcopy : ∀ t : State, t.readers r = .dequeued q → t.heap q.buf = none →
      ∃ r s'', bufStep t (.copy r) = some s'' ∧ ∃ c ∈ s''.copies, c.2 = none := by
    intro t ht hnone
    refine ⟨r, { t with
      copies := t.copies ++ [(q, (t.heap q.buf).map q.bytes)]
      readers := Function.update t.readers r (.copied q) }, ?_, ?_⟩
    · simp only [bufStep, copyStep, ht]
    · exact ⟨(q, (t.heap q.buf).map q.bytes), by simp, by rw [hnone]; rfl⟩
  cases a with
  | free r0 =>
    obtain ⟨p, hp, hb⟩ := hf
    have hne : r ≠ r0 := by
      rintro rfl
      rw [hr] at hp
      cases hp
    simp only [bufStep, freeStep, hp, Option.some.injEq] at h
    subst h
    refine hcopy _ ?_ (uciPacketFree_self hb)
    show Function.update s.readers r0 .idle r = _
    rw [Function.update_of_ne hne, hr]
  | clear =>
    obtain ⟨p, hp, hb⟩ := hf
    cases h
    exact hcopy _ hr (foldl_uciPacketFree_of_mem hp hb)
  | receive | split | dequeue | copy => exact hf.elim

/-- Two readers each take one of the two packets of a block; the one with the owner
finishes first. -/
theorem not_copies_live : ¬∀ acts s, Lts.run bufStep init acts = some s → ∀ c ∈ s.copies, c.2.isSome := by
  intro hall
  have heval : (Lts.run bufStep init [.receive [0x20, 0, 0, 0, 0x20, 0, 0, 0] 0, .split true, .split true,
      .dequeue 0 64, .dequeue 1 64, .copy 1, .free 1, .copy 0]).map (fun s => s.copies) =
      some [(⟨some 0, 0, 4, 4⟩, some [0x20, 0, 0, 0]), (⟨none, 0, 0, 4⟩, none)] := by decide
  obtain ⟨s, hs, hc⟩ := Option.map_eq_some_iff.mp heval
  have hlive := hall _ s hs (⟨none, 0, 0, 4⟩, none) (by rw [hc]; simp)
  cases hlive

end Qm35.Uci
