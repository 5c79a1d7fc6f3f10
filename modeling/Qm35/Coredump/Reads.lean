import Qm35.Coredump.Reassembly

/- Reads of the coredump file (`debug.c`) while coredumps are being received.
   `debug_coredump_read` asks `debug_coredump_get` for the length and the pointer, which
   takes no lock, and then copies from the pointer. Between these steps messages may be
   received. A body only adds to the buffer, behind what the length covers. A header
   has the buffer reallocated and starts it again from the front, and the reader
   is left with the length of the old dump and a pointer that may have been freed.

   The buffer has an address here, which the allocator chooses at every header; a
   message is received in one step, and a read is made in three. The state keeps for
   each read the bytes that had been accepted at each instant since it began, and of
   each copy what it returned; no decision is taken on these. -/
namespace Qm35.Coredump

open ByteMem

/-- A call of `debug_coredump_read` that has not copied yet: the length, the pointer once it has
been fetched, and the bytes accepted for the dump at each instant so far. -/
structure Read where
  cdLen : Nat
  cd : Option (Option Nat)
  instants : List (List UInt8)

/-- A call that has copied: whether its length and pointer were still valid for the buffer, the
offset, the bytes returned to the user, and the instants. -/
structure Copied where
  valid : Bool
  off : Nat
  bytes : List UInt8
  instants : List (List UInt8)

/-- The reception and the address of the buffer; the reads under way, and those that have copied. -/
structure Reading where
  dump : Dump
  address : Nat
  reads : List Read
  copies : List Copied

def readingInit : Reading := ⟨dumpInit, 0, [], []⟩

/-- `coredump_data` as a pointer. -/
def Reading.coredumpData (s : Reading) : Option Nat := s.dump.layer.coredumpData.map fun _ => s.address

/-- The length and the pointer of a read are good for the buffer as it is: it is at that address, and
so many bytes have been received into it. -/
def StillValid (s : Reading) (r : Read) : Prop :=
  r.cdLen = 0 ∨
    (r.cdLen ≤ s.dump.layer.coredumpDataWrIdx ∧ ∀ cd ∈ r.cd, cd.isSome ∧ cd = s.coredumpData)

instance (s : Reading) (r : Read) : Decidable (StillValid s r) := inferInstanceAs (Decidable (_ ∨ _))

/-- What is at a pointer: the buffer, or whatever `stale` has there. -/
def Reading.memoryAt (s : Reading) (stale : Mem) (cd : Option Nat) : Mem :=
  match s.dump.layer.coredumpData with
  | some data => if cd = some s.address then data.bytes else stale
  | none => stale

/-- `simple_read_from_buffer`, where `copy_to_user` leaves `ret` bytes uncopied. -/
def simpleReadFromBuffer (count off : Nat) (source : Mem) (available ret : Nat) : List UInt8 :=
  if available ≤ off ∨ count = 0 then [] else source.read off (min count (available - off) - ret)

inductive ReadAct where
  /-- A message is received; a header finds the buffer at `address`. -/
  | message (msg : Message) (grant : Option Grant) (address : Nat)
  | timer
  /-- `debug_coredump_get` reads `coredump_data_wr_idx`. -/
  | getLen
  /-- `debug_coredump_get` reads `coredump_data`. -/
  | getData (i : Nat)
  /-- `simple_read_from_buffer` -/
  | copy (i count off ret : Nat) (stale : Mem)

/-- Where a header puts the buffer. -/
def addressAfter (address fresh : Nat) : Outcome → Nat
  | .header _ => fresh
  | _ => address

/-- What `coredump_received` has made of a message; the reads under way see another instant. -/
def Reading.receive (s : Reading) (layer : CoredumpLayer) (outcome : Outcome) (fresh : Nat) : Reading :=
  { s with
    dump := record s.dump layer outcome
    address := addressAfter s.address fresh outcome
    reads := s.reads.map fun r => { r with instants := r.instants ++ [(record s.dump layer outcome).body] } }

def readStep (kmallocMaxSize : Nat) (s : Reading) : ReadAct → Option Reading
  | .message msg grant address => do
    let (layer, outcome) ← coredumpReceived kmallocMaxSize s.dump.layer msg grant
    some (s.receive layer outcome address)
  | .timer => some { s with dump := timerStep s.dump }
  | .getLen => some { s with reads := s.reads ++ [⟨s.dump.layer.coredumpDataWrIdx, none, [s.dump.body]⟩] }
  | .getData i => do
    let r ← s.reads[i]?
    if r.cd = none then some { s with reads := s.reads.set i { r with cd := some s.coredumpData } } else none
  | .copy i count off ret stale => do
    let r ← s.reads[i]?
    let cd ← r.cd
    some { s with
      reads := s.reads.eraseIdx i
      copies := s.copies ++
        [⟨StillValid s r, off, simpleReadFromBuffer count off (s.memoryAt stale cd) r.cdLen ret, r.instants⟩] }

/-- A read has returned a slice, at its offset, of the bytes accepted for one dump as they were
at some instant of the read, and its length and pointer were still valid when it copied. -/
def Copied.Consistent (c : Copied) : Prop :=
  c.valid = true ∧ ∃ accepted ∈ c.instants, c.bytes <+: accepted.drop c.off

/-- All reads that have copied were consistent, and those under way can still copy. -/
structure Consistent (s : Reading) : Prop where
  copied : ∀ c ∈ s.copies, c.Consistent
  underWay : ∀ r ∈ s.reads, StillValid s r

/-- A message that is taken as a header. -/
def IsHeader (msg : Message) : Prop :=
  msg.status = 0 ∧ ∃ cmdId ∈ msg.data.head?, cmdId = coredumpHeaderNtf ∧ sizeofHdrNtf ≤ msg.data.tail.length

instance (msg : Message) : Decidable (IsHeader msg) := inferInstanceAs (Decidable (_ ∧ _))

/-- No header comes while a read that has found bytes is under way. -/
def Apart (s : Reading) : ReadAct → Prop
  | .message msg _ _ => IsHeader msg → ∀ r ∈ s.reads, r.cdLen = 0
  | _ => True

instance (s : Reading) : (act : ReadAct) → Decidable (Apart s act)
  | .message msg _ _ => inferInstanceAs (Decidable (IsHeader msg → ∀ r ∈ s.reads, r.cdLen = 0))
  | .timer | .getLen | .getData _ | .copy .. => inferInstanceAs (Decidable True)

section Step
variable {kmallocMaxSize : Nat} {s t : Reading} {layer : CoredumpLayer} {outcome : Outcome} {msg : Message}
  {grant : Option Grant}

/-- What holds in every run: the buffer is in order, and every read under way has seen the present instant. -/
structure Tracked (kmallocMaxSize : Nat) (s : Reading) : Prop where
  assembled : Assembled kmallocMaxSize s.dump
  now : ∀ r ∈ s.reads, s.dump.body ∈ r.instants

theorem readStep_message (hmax : kmallocMaxSize < 2147483648) (h : Tracked kmallocMaxSize s) (msg : Message)
    (grant : Option Grant) (address : Nat) :
    ∃ layer outcome, readStep kmallocMaxSize s (.message msg grant address) =
        some (s.receive layer outcome address) ∧
      Received kmallocMaxSize s.dump.layer msg grant layer outcome := by
  obtain ⟨layer, outcome, hrun, hr⟩ := coredumpReceived_spec hmax h.assembled.toBacked msg grant
  refine ⟨layer, outcome, ?_, hr⟩
  simp only [readStep, hrun, Option.bind_eq_bind, Option.bind_some]

theorem readStep_getData {i : Nat} (h : readStep kmallocMaxSize s (.getData i) = some t) :
    ∃ r ∈ s.reads, t = { s with reads := s.reads.set i { r with cd := some s.coredumpData } } := by
  simp only [readStep, Option.bind_eq_bind, Option.bind_eq_some_iff] at h
  obtain ⟨r, hi, hif⟩ := h
  split at hif
  · cases hif
    exact ⟨r, List.mem_of_getElem? hi, rfl⟩
  · cases hif

theorem readStep_copy {i count off ret : Nat} {stale : Mem}
    (h : readStep kmallocMaxSize s (.copy i count off ret stale) = some t) :
    ∃ r ∈ s.reads, ∃ cd, r.cd = some cd ∧ t = { s with
      reads := s.reads.eraseIdx i
      copies := s.copies ++
        [⟨StillValid s r, off, simpleReadFromBuffer count off (s.memoryAt stale cd) r.cdLen ret, r.instants⟩] } := by
  simp only [readStep, Option.bind_eq_bind, Option.bind_eq_some_iff, Option.some.injEq] at h
  obtain ⟨r, hi, cd, hcd, rfl⟩ := h
  exact ⟨r, List.mem_of_getElem? hi, cd, hcd, rfl⟩

/-! What is in order. -/

theorem tracked_init : Tracked kmallocMaxSize readingInit where
  assembled := assembled_init
  now _ h := nomatch h

theorem Tracked.receive (h : Tracked kmallocMaxSize s)
    (hr : Received kmallocMaxSize s.dump.layer msg grant layer outcome) (address : Nat) :
    Tracked kmallocMaxSize (s.receive layer outcome address) where
  assembled := h.assembled.record hr
  now r hmem := by
    obtain ⟨r', -, rfl⟩ := List.mem_map.mp hmem
    exact List.mem_append_right _ List.mem_cons_self

theorem tracked_step (hmax : kmallocMaxSize < 2147483648) {act : ReadAct} (h : Tracked kmallocMaxSize s)
    (hstep : readStep kmallocMaxSize s act = some t) : Tracked kmallocMaxSize t := by
  cases act with
  | message msg grant address =>
    obtain ⟨layer, outcome, hrun, hr⟩ := readStep_message hmax h msg grant address
    rw [hrun, Option.some.injEq] at hstep
    rw [← hstep]
    exact h.receive hr address
  | timer =>
    cases hstep
    refine ⟨h.assembled.timer, fun r hmem => ?_⟩
    have hbody : (timerStep s.dump).body = s.dump.body := by
      unfold timerStep
      split <;> rfl
    rw [hbody]
    exact h.now r hmem
  | getLen =>
    cases hstep
    refine ⟨h.assembled, fun r hmem => ?_⟩
    rcases List.mem_append.mp hmem with hold | hnew
    · exact h.now r hold
    · rw [List.mem_singleton.mp hnew]
      exact List.mem_cons_self
  | getData i =>
    obtain ⟨r, hr, rfl⟩ := readStep_getData hstep
    refine ⟨h.assembled, fun r' hmem => ?_⟩
    rcases List.mem_or_eq_of_mem_set hmem with hold | rfl
    · exact h.now r' hold
    · exact h.now r hr
  | copy i count off ret stale =>
    obtain ⟨r, -, cd, -, rfl⟩ := readStep_copy hstep
    exact ⟨h.assembled, fun r' hmem => h.now r' (List.mem_of_mem_eraseIdx hmem)⟩

/-! What keeps a read valid. -/

theorem isHeader_iff {cmdId : UInt8} {body : List UInt8} (hs : msg.status = 0) (hd : msg.data = cmdId :: body) :
    IsHeader msg ↔ cmdId = coredumpHeaderNtf ∧ sizeofHdrNtf ≤ body.length := by
  unfold IsHeader
  simp [hs, hd]

/-- The buffer stays where it is, and nothing is taken back. -/
theorem StillValid.mono {r r' : Read} (h : StillValid s r) (hptr : t.coredumpData = s.coredumpData)
    (hidx : s.dump.layer.coredumpDataWrIdx ≤ t.dump.layer.coredumpDataWrIdx) (hlen : r'.cdLen = r.cdLen)
    (hcd : r'.cd = r.cd) : StillValid t r' := by
  unfold StillValid
  rw [hlen, hcd, hptr]
  apply h.imp_right
  rintro ⟨hle, hsome⟩
  exact ⟨Nat.le_trans hle hidx, hsome⟩

/-- A message that is not a header: the buffer stays where it is, and only grows. -/
theorem receive_kept (hr : Received kmallocMaxSize s.dump.layer msg grant layer outcome) (hnot : ¬IsHeader msg)
    (address : Nat) :
    (s.receive layer outcome address).coredumpData = s.coredumpData ∧
      s.dump.layer.coredumpDataWrIdx ≤ (s.receive layer outcome address).dump.layer.coredumpDataWrIdx := by
  cases hr with
  | unread => exact ⟨rfl, Nat.le_refl _⟩
  | refused => exact ⟨rfl, Nat.le_refl _⟩
  | header hs hd hc => exact absurd ((isHeader_iff hs hd).mpr ⟨rfl, hdrNtfOf_some hc⟩) hnot
  | part _ _ hd =>
    refine ⟨?_, Nat.le_add_right _ _⟩
    simp [Reading.coredumpData, Reading.receive, record, extend, addressAfter, hd]
  | last _ _ hd =>
    refine ⟨?_, Nat.le_add_right _ _⟩
    simp [Reading.coredumpData, Reading.receive, record, extend, addressAfter, hd]

/-- A header: nothing has been received into the buffer. -/
theorem receive_header (hr : Received kmallocMaxSize s.dump.layer msg grant layer outcome) (hhead : IsHeader msg)
    (address : Nat) : (s.receive layer outcome address).dump.layer.coredumpDataWrIdx = 0 := by
  cases hr with
  | unread hun =>
    obtain ⟨hs, cmdId, hmem, -⟩ := hhead
    rcases hun with h | h
    · exact absurd hs h
    · simp [h] at hmem
  | refused hs hd hnot => exact absurd (.inl ((isHeader_iff hs hd).mp hhead)) hnot
  | header =>
    simp only [Reading.receive, record, coredumpHeaderNtfReceived]
    split <;> rfl
  | part hs hd => cases ((isHeader_iff hs hd).mp hhead).1
  | last hs hd => cases ((isHeader_iff hs hd).mp hhead).1

/-- After a message the reads are consistent exactly if it was no header, or found none under way that
had a length. -/
theorem consistent_receive (h : Consistent s)
    (hr : Received kmallocMaxSize s.dump.layer msg grant layer outcome) (address : Nat) :
    Consistent (s.receive layer outcome address) ↔ (IsHeader msg → ∀ r ∈ s.reads, r.cdLen = 0) := by
  constructor
  · intro hcons hhead r hmem
    have hvalid := hcons.underWay _ (List.mem_map_of_mem hmem)
    rcases hvalid with hzero | ⟨hle, -⟩
    · exact hzero
    · rw [receive_header hr hhead address] at hle
      exact Nat.le_zero.mp hle
  · intro hapart
    refine ⟨h.copied, fun r' hmem => ?_⟩
    obtain ⟨r, hr', rfl⟩ := List.mem_map.mp hmem
    by_cases hhead : IsHeader msg
    · exact .inl (hapart hhead r hr')
    · obtain ⟨hptr, hidx⟩ := receive_kept hr hhead address
      exact (h.underWay r hr').mono hptr hidx rfl rfl

/-! What a read does. -/

/-- A length that has just been read. -/
theorem stillValid_length : StillValid s ⟨s.dump.layer.coredumpDataWrIdx, none, [s.dump.body]⟩ :=
  .inr ⟨Nat.le_refl _, fun _ h => nomatch h⟩

/-- The pointer read after a length that is still good. -/
theorem Tracked.stillValid_pointer (h : Tracked kmallocMaxSize s) {r : Read} (hr : StillValid s r) :
    StillValid s { r with cd := some s.coredumpData } := by
  rcases hr with hzero | ⟨hle, -⟩
  · exact .inl hzero
  by_cases hzero : r.cdLen = 0
  · exact .inl hzero
  refine .inr ⟨hle, fun cd hcd => ?_⟩
  cases hcd
  have halloc : s.dump.layer.coredumpData ≠ none := by
    intro hnone
    have hsize := h.assembled.unallocated hnone
    have hidx := h.assembled.wrIdx_le
    change r.cdLen ≤ s.dump.layer.coredumpDataWrIdx at hle
    omega
  exact ⟨by simpa [Reading.coredumpData, Option.isSome_iff_ne_none] using halloc, rfl⟩

/-- A copy with a length and a pointer that are good returns a slice of what has been accepted. -/
theorem Tracked.slice (h : Tracked kmallocMaxSize s) {r : Read} {cd : Option Nat} (hcd : r.cd = some cd)
    (hr : StillValid s r) (count off ret : Nat) (stale : Mem) :
    simpleReadFromBuffer count off (s.memoryAt stale cd) r.cdLen ret <+: s.dump.body.drop off := by
  unfold simpleReadFromBuffer
  split
  · exact List.nil_prefix
  next hsome =>
  rw [not_or, Nat.not_le] at hsome
  rcases hr with hzero | ⟨hle, hptr⟩
  · omega
  obtain ⟨halloc, heq⟩ := hptr cd hcd
  rw [heq] at halloc
  simp only [Reading.coredumpData, Option.isSome_map] at halloc
  obtain ⟨data, hd⟩ := Option.isSome_iff_exists.mp halloc
  have hmem : s.memoryAt stale cd = data.bytes := by
    simp [Reading.memoryAt, hd, heq, Reading.coredumpData]
  have hidx := h.assembled.wrIdx_eq
  have hbytes := h.assembled.bytes_eq data hd
  rw [hmem, ← hbytes]
  exact Mem.read_prefix_drop (by omega)

theorem consistent_step (hmax : kmallocMaxSize < 2147483648) {act : ReadAct} (h : Tracked kmallocMaxSize s)
    (hcons : Consistent s) :
    Apart s act ↔ ∀ t, readStep kmallocMaxSize s act = some t → Consistent t := by
  cases act with
  | message msg grant address =>
    obtain ⟨layer, outcome, hrun, hr⟩ := readStep_message hmax h msg grant address
    have hiff := consistent_receive hcons hr address
    rw [hrun]
    constructor
    · intro hapart t ht
      cases ht
      exact hiff.mpr hapart
    · intro hall
      exact hiff.mp (hall _ rfl)
  -- only a message moves or frees the data under a read; the timer and other reads do not
  | timer =>
    refine ⟨fun _ t ht => ?_, fun _ => trivial⟩
    cases ht
    refine ⟨hcons.copied, fun r hmem => (hcons.underWay r hmem).mono ?_ ?_ rfl rfl⟩
    · simp only [Reading.coredumpData, timerStep]
      split <;> rfl
    · simp only [timerStep]
      split <;> exact Nat.le_refl _
  | getLen =>
    refine ⟨fun _ t ht => ?_, fun _ => trivial⟩
    cases ht
    refine ⟨hcons.copied, fun r hmem => ?_⟩
    rcases List.mem_append.mp hmem with hold | hnew
    · exact hcons.underWay r hold
    · rw [List.mem_singleton.mp hnew]
      exact stillValid_length
  | getData i =>
    refine ⟨fun _ t ht => ?_, fun _ => trivial⟩
    obtain ⟨r, hr, rfl⟩ := readStep_getData ht
    refine ⟨hcons.copied, fun r' hmem => ?_⟩
    rcases List.mem_or_eq_of_mem_set hmem with hold | rfl
    · exact hcons.underWay r' hold
    · exact h.stillValid_pointer (hcons.underWay r hr)
  | copy i count off ret stale =>
    refine ⟨fun _ t ht => ?_, fun _ => trivial⟩
    obtain ⟨r, hmem, cd, hcd, rfl⟩ := readStep_copy ht
    have hvalid := hcons.underWay r hmem
    refine ⟨fun c hc => ?_, fun r' hmem' => hcons.underWay r' (List.mem_of_mem_eraseIdx hmem')⟩
    rcases List.mem_append.mp hc with hold | hnew
    · exact hcons.copied c hold
    · rw [List.mem_singleton.mp hnew]
      exact ⟨decide_eq_true hvalid, s.dump.body, h.now r hmem, h.slice hcd hvalid count off ret stale⟩

end Step

/-- Reads do not touch the reception: behind every run there is one of messages and expiries alone. -/
theorem reading_dump {kmallocMaxSize : Nat} {acts : List ReadAct} {s : Reading}
    (hrun : Lts.run (readStep kmallocMaxSize) readingInit acts = some s) :
    ∃ dumpActs, Lts.run (dumpStep kmallocMaxSize) dumpInit dumpActs = some s.dump := by
  apply Lts.run_projects (f := Reading.dump) ?_ hrun
  intro s act t hstep
  cases act with
  | message msg grant address =>
    simp only [readStep, Option.bind_eq_bind, Option.bind_eq_some_iff, Option.some.injEq] at hstep
    obtain ⟨⟨layer, outcome⟩, hreceived, rfl⟩ := hstep
    refine .inr ⟨.message msg grant, ?_⟩
    simp only [dumpStep, hreceived, Option.bind_eq_bind, Option.bind_some, Reading.receive]
  | timer =>
    cases hstep
    exact .inr ⟨.timer, rfl⟩
  | getLen =>
    cases hstep
    exact .inl rfl
  | getData i =>
    obtain ⟨r, -, rfl⟩ := readStep_getData hstep
    exact .inl rfl
  | copy i count off ret stale =>
    obtain ⟨r, -, cd, -, rfl⟩ := readStep_copy hstep
    exact .inl rfl

/-- In a run, every read returns a slice of one dump as it was at some instant of the read, with a length and a
pointer that are good for the buffer when it copies, and every read under way could do so at once, exactly if
no header comes while a read that has found bytes is under way. -/
theorem coredumpRead_consistent_iff {kmallocMaxSize : Nat} (hmax : kmallocMaxSize < 2147483648)
    (acts : List ReadAct) :
    Lts.Meets (readStep kmallocMaxSize) Apart readingInit acts ↔
      ∀ bs s, bs <+: acts → Lts.run (readStep kmallocMaxSize) readingInit bs = some s → Consistent s :=
  Lts.meets_iff_of_preserves (fun _ _ _ h hstep => tracked_step hmax h hstep)
    (fun _ _ h hcons => consistent_step hmax h hcons) tracked_init
    ⟨(fun _ h => nomatch h), fun _ h => nomatch h⟩ acts

theorem header_fits : ([0, 4, 0, 0, 0, 10, 0] : List UInt8).length < 65536 := by decide

theorem body_fits : ([1, 1, 2, 3, 4] : List UInt8).length < 65536 := by decide

/-- A dump of four bytes with checksum 10, received whole. -/
def fourBytes : List ReadAct :=
  [.message ⟨[0, 4, 0, 0, 0, 10, 0], 0, header_fits⟩ (some ⟨4, fun _ => 0⟩) 1,
    .message ⟨[1, 1, 2, 3, 4], 0, body_fits⟩ none 0]

/-- It is read, and nothing comes between. -/
def quietRead : List ReadAct := fourBytes ++ [.getLen, .getData 0, .copy 0 2 1 0 fun _ => 0]

theorem coredumpRead_consistent_quiet :
    ∃ s, Lts.run (readStep 4194304) readingInit quietRead = some s ∧ Consistent s := by
  have hmax : 4194304 < 2147483648 := by decide
  have hmet : Lts.Meets (readStep 4194304) Apart readingInit quietRead := by decide
  exact ⟨_, rfl, (coredumpRead_consistent_iff hmax quietRead).mp hmet _ _ (List.prefix_refl _) rfl⟩

/-- The header of a second dump, for which the buffer stays where it is and keeps its contents, and the
first two of its bytes come between the two steps of a read. -/
def tornRead : List ReadAct :=
  fourBytes ++
    [.getLen, .getData 0,
      .message ⟨[0, 4, 0, 0, 0, 26, 0], 0, by decide⟩ (some ⟨4, Mem.write (fun _ => 0) 0 [1, 2, 3, 4]⟩) 1,
      .message ⟨[1, 5, 6], 0, by decide⟩ none 0, .copy 0 4 0 0 fun _ => 0]

/-- Half of either dump is returned, with a length that is no longer good. -/
theorem not_coredumpRead_consistent :
    ¬∀ acts s, Lts.run (readStep 4194304) readingInit acts = some s → ∀ c ∈ s.copies, c.Consistent := by
  intro hall
  have hview : (Lts.run (readStep 4194304) readingInit tornRead).map
      (fun s => s.copies.map fun c => (c.valid, c.off, c.bytes, c.instants)) =
      some [(false, 0, [5, 6, 3, 4], [[1, 2, 3, 4], [], [5, 6]])] := by rfl
  obtain ⟨s, hrun, hcopies⟩ := Option.map_eq_some_iff.mp hview
  obtain ⟨c, hmem, hc⟩ := List.mem_map.mp (hcopies ▸ List.mem_cons_self)
  obtain ⟨-, accepted, hin, hslice⟩ := hall tornRead s hrun c hmem
  simp only [Prod.mk.injEq] at hc
  obtain ⟨-, hoff, hbytes, hinstants⟩ := hc
  rw [hinstants] at hin
  rw [hoff, hbytes, List.drop_zero] at hslice
  have hno : ∀ accepted ∈ [[1, 2, 3, 4], [], [5, 6]], ¬([5, 6, 3, 4] : List UInt8) <+: accepted := by decide
  exact hno accepted hin hslice

end Qm35.Coredump
