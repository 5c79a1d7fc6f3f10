import Qm35.Coredump.Reads
import Qm35.Coredump.Status

/- A dump from the device to a user's file. The device announces it with its length and
   checksum, and sends it in bodies of any lengths but none empty; between them the driver may be
   handed messages it does not take, and the receive timer may expire. Whatever
   had been received before, the driver then exposes the dump, and has sent one verdict
   of its own, ACK if the checksum is right, after the last byte: before it only
   the timer may have sent statuses, and those say NACK. A user who then reads the file
   piece by piece, in pieces of any lengths, is given the dump.

   While the bodies arrive the layer is known but for the timer (`Receiving`): the bytes
   so far make a beginning of the dump, which the following bodies continue. -/
namespace Qm35.Coredump

open ByteMem

/-! What the device sends. -/

/-- The message that announces a dump. -/
def hdrNtfBytes (chn : CoredumpHdrNtf) : List UInt8 := bytes32 chn.size ++ bytes16 chn.crc

def headerNtf (chn : CoredumpHdrNtf) : Message :=
  ⟨coredumpHeaderNtf :: hdrNtfBytes chn, 0, by simp [hdrNtfBytes]⟩

/-- The body a message carries, if `coredump_received` comes to look at it. -/
def bodyOf (msg : Message) : Option (List UInt8) :=
  if msg.status ≠ 0 then none
  else
    match msg.data with
    | [] => none
    | cmdId :: body => if cmdId = coredumpBodyNtf then some body else none

/-- What may come after the header: bodies that are not empty, messages that are not taken, and the timer. -/
def Arrives : ReadAct → Prop
  | .message msg _ _ => ¬IsHeader msg ∧ bodyOf msg ≠ some []
  | .timer => True
  | _ => False

/-- The bodies that arrive, in order. -/
def bodiesOf : List ReadAct → List (List UInt8)
  | [] => []
  | .message msg _ _ :: acts => (bodyOf msg).toList ++ bodiesOf acts
  | _ :: acts => bodiesOf acts

/-- The verdict on a dump announced by `chn`. -/
def verdict (chn : CoredumpHdrNtf) (dump : List UInt8) : RcvStatus :=
  ⟨if byteSum dump % 65536 = chn.crc then coredumpRcvAck else coredumpRcvNack, false, some chn, dump⟩

/-- The header is read back as it was sent. -/
theorem hdrNtfOf_bytes {chn : CoredumpHdrNtf} (hsize : chn.size < 4294967296) (hcrc : chn.crc < 65536) :
    hdrNtfOf (hdrNtfBytes chn) = some chn := by
  obtain ⟨size, crc⟩ := chn
  dsimp only at hsize hcrc
  simp only [hdrNtfBytes, bytes32, bytes16, List.cons_append, List.nil_append, hdrNtfOf, UInt8.toNat_ofNat',
    Option.some.injEq, CoredumpHdrNtf.mk.injEq]
  omega

/-! While the bodies arrive. -/

/-- The bytes `got` of the dump have arrived; `before` had been sent before the header. -/
structure Receiving (chn : CoredumpHdrNtf) (before : List RcvStatus) (got : List UInt8) (s : Dump) : Prop where
  header : s.header = some chn
  data : s.layer.coredumpData.isSome
  size : s.layer.coredumpSize = chn.size
  crc : s.layer.coredumpCrc = chn.crc
  body : s.body = got
  status : got.length < chn.size → s.layer.coredumpStatus = coredumpRcvNack
  timer : s.layer.timer = true → got.length < chn.size
  sent : ∃ expired, (∀ r ∈ expired, r.expired = true ∧ r.ack = coredumpRcvNack) ∧
    s.statuses = before ++ expired ++ if got.length < chn.size then [] else [verdict chn got]

section Reception
variable {kmallocMaxSize : Nat} {chn : CoredumpHdrNtf} {before : List RcvStatus} {got body : List UInt8} {s : Dump}
  {layer : CoredumpLayer} {outcome : Outcome} {msg : Message} {grant : Option Grant}

/-- The header starts the dump, if its memory is granted. -/
theorem receiving_header (hsize : chn.size < 4294967296) (hcrc : chn.crc < 65536) (hpos : 0 < chn.size)
    (hle : chn.size ≤ kmallocMaxSize) {g : Grant}
    (hr : Received kmallocMaxSize s.layer (headerNtf chn) (some g) layer outcome) :
    Receiving chn s.statuses [] (record s layer outcome) := by
  have hbytes := hdrNtfOf_bytes hsize hcrc
  have hk : krealloc kmallocMaxSize chn.size (some g) = some ⟨chn.size + g.slack, g.contents⟩ := by
    rw [krealloc, if_neg (by omega), if_neg (by omega), Option.map_some]
  cases hr with
  | unread h => simp [headerNtf] at h
  | @refused cmdId body _ hdata hnot =>
    obtain ⟨rfl, rfl⟩ : coredumpHeaderNtf = cmdId ∧ hdrNtfBytes chn = body := by simpa [headerNtf] using hdata
    exact absurd (.inl ⟨rfl, hdrNtfOf_some hbytes⟩) hnot
  | @header body chn' _ hdata hchn =>
    obtain rfl : hdrNtfBytes chn = body := by simpa [headerNtf] using hdata
    rw [hbytes] at hchn
    cases hchn
    simp only [coredumpHeaderNtfReceived, hk, record]
    exact ⟨rfl, rfl, rfl, rfl, rfl, fun _ => rfl, fun h => absurd h Bool.false_ne_true, [], by simp, by simp [hpos]⟩
  | part _ hdata =>
    have hcmd : coredumpHeaderNtf = coredumpBodyNtf := (List.cons.inj hdata).1
    exact absurd hcmd (by decide)
  | last _ hdata =>
    have hcmd : coredumpHeaderNtf = coredumpBodyNtf := (List.cons.inj hdata).1
    exact absurd hcmd (by decide)

/-- A message that is neither a header nor a body leaves things as they are. -/
theorem Receiving.other (R : Receiving chn before got s) (hh : ¬IsHeader msg) (hb : bodyOf msg = none)
    (hr : Received kmallocMaxSize s.layer msg grant layer outcome) :
    Receiving chn before got (record s layer outcome) := by
  cases hr with
  | unread => exact R
  | refused => exact ⟨R.header, R.data, R.size, R.crc, R.body, R.status, fun h => absurd h Bool.false_ne_true, R.sent⟩
  | header hs hdata hchn => exact absurd ((isHeader_iff hs hdata).mpr ⟨rfl, hdrNtfOf_some hchn⟩) hh
  | part hs hdata => simp [bodyOf, hs, hdata] at hb
  | last hs hdata => simp [bodyOf, hs, hdata] at hb

/-- A body that is not too long is put behind what there is; after the last one the verdict is sent. -/
theorem Receiving.more (R : Receiving chn before got s) (ha : Assembled kmallocMaxSize s) (hbody : body ≠ [])
    (hb : bodyOf msg = some body) (hle : (got ++ body).length ≤ chn.size)
    (hr : Received kmallocMaxSize s.layer msg grant layer outcome) :
    Receiving chn before (got ++ body) (record s layer outcome) := by
  have hpos := List.length_pos_of_ne_nil hbody
  have hidx : s.layer.coredumpDataWrIdx = got.length := by rw [ha.wrIdx_eq, R.body]
  have hfit : got.length + body.length ≤ chn.size := by simpa using hle
  have hnack := R.status (by omega)
  obtain ⟨expired, hexp, hsent⟩ := R.sent
  rw [if_pos (show got.length < chn.size by omega), List.append_nil] at hsent
  cases hr with
  | unread h =>
    obtain hs | hd := h
    · simp [bodyOf, hs] at hb
    · simp [bodyOf, hd] at hb
  | @refused cmdId body' hs hdata hnot =>
    obtain ⟨rfl, rfl⟩ : cmdId = coredumpBodyNtf ∧ body' = body := by simpa [bodyOf, hs, hdata] using hb
    refine absurd (.inr ⟨rfl, R.data, ?_⟩) hnot
    rw [hidx, R.size]
    exact hfit
  | header hs hdata => simp [bodyOf, hs, hdata, coredumpHeaderNtf, coredumpBodyNtf] at hb
  | @part body' data hs hdata hd hlt =>
    obtain rfl : body' = body := by simpa [bodyOf, hs, hdata] using hb
    rw [hidx, R.size] at hlt
    have hshort : (got ++ body').length < chn.size := by simpa using hlt
    refine ⟨R.header, rfl, R.size, R.crc, by simp [record, R.body], fun _ => hnack, fun _ => hshort, expired, hexp, ?_⟩
    rw [if_pos hshort, List.append_nil]
    exact hsent
  | @last body' data ack hs hdata hd hfull hack =>
    obtain rfl : body' = body := by simpa [bodyOf, hs, hdata] using hb
    have hwhole : (got ++ body').length = chn.size := by rw [List.length_append, ← hidx, hfull, R.size]
    have hsum := checksum_filled ha hd hfull
    rw [hsum, R.crc, hnack, R.body] at hack
    refine ⟨R.header, rfl, R.size, R.crc, by simp [record, R.body], fun h => absurd h (by omega), fun h => absurd h Bool.false_ne_true,
      expired, hexp, ?_⟩
    rw [if_neg (by omega)]
    simp only [record, hsent, R.header, R.body, verdict, hack]

theorem Receiving.expires (R : Receiving chn before got s) : Receiving chn before got (timerStep s) := by
  unfold timerStep
  split
  · next ht =>
    have hshort := R.timer ht
    have hnack := R.status hshort
    obtain ⟨expired, hexp, hsent⟩ := R.sent
    rw [if_pos hshort, List.append_nil] at hsent
    refine ⟨R.header, R.data, R.size, R.crc, R.body, R.status, fun h => absurd h Bool.false_ne_true,
      expired ++ [⟨coredumpRcvNack, true, s.header, s.body⟩], ?_, ?_⟩
    · intro r hr
      obtain hr | hr := List.mem_append.mp hr
      · exact hexp r hr
      · rw [List.mem_singleton.mp hr]
        exact ⟨rfl, rfl⟩
    · simp only [if_pos hshort, hsent, hnack, List.append_nil, List.append_assoc]
  · exact R

end Reception

/-! The arrivals, one after the other. -/

section Arrivals
variable {kmallocMaxSize : Nat} {chn : CoredumpHdrNtf} {before : List RcvStatus} {got : List UInt8} {s : Reading}

/-- One arrival: its body, if it has one, is added to what there is. -/
theorem arrives_step (hmax : kmallocMaxSize < 2147483648) (T : Tracked kmallocMaxSize s)
    (R : Receiving chn before got s.dump) {act : ReadAct} (harr : Arrives act)
    (hle : (got ++ (bodiesOf [act]).flatten).length ≤ chn.size) :
    ∃ t, readStep kmallocMaxSize s act = some t ∧ Tracked kmallocMaxSize t ∧
      Receiving chn before (got ++ (bodiesOf [act]).flatten) t.dump := by
  cases act with
  | message msg grant address =>
    obtain ⟨layer, outcome, hrun, hr⟩ := readStep_message hmax T msg grant address
    refine ⟨_, hrun, T.receive hr address, ?_⟩
    show Receiving chn before _ (record s.dump layer outcome)
    cases hb : bodyOf msg with
    | none =>
      have hnone : got ++ (bodiesOf [.message msg grant address]).flatten = got := by simp [bodiesOf, hb]
      rw [hnone]
      exact R.other harr.1 hb hr
    | some body =>
      have hsome : got ++ (bodiesOf [.message msg grant address]).flatten = got ++ body := by simp [bodiesOf, hb]
      rw [hsome] at hle ⊢
      exact R.more T.assembled (fun h => harr.2 (by rw [hb, h])) hb hle hr
  | timer =>
    have hstep : readStep kmallocMaxSize s .timer = some { s with dump := timerStep s.dump } := rfl
    refine ⟨_, hstep, tracked_step hmax T hstep, ?_⟩
    simpa [bodiesOf] using R.expires
  | getLen => exact absurd harr id
  | getData => exact absurd harr id
  | copy => exact absurd harr id

theorem bodiesOf_cons (act : ReadAct) (acts : List ReadAct) :
    bodiesOf (act :: acts) = bodiesOf [act] ++ bodiesOf acts := by
  cases act <;> simp [bodiesOf]

/-- All arrivals: their bodies together continue what there is. -/
theorem arrives_run (hmax : kmallocMaxSize < 2147483648) (T : Tracked kmallocMaxSize s)
    (R : Receiving chn before got s.dump) {acts : List ReadAct} (harr : ∀ act ∈ acts, Arrives act)
    (hle : (got ++ (bodiesOf acts).flatten).length ≤ chn.size) :
    ∃ t, Lts.run (readStep kmallocMaxSize) s acts = some t ∧ Tracked kmallocMaxSize t ∧
      Receiving chn before (got ++ (bodiesOf acts).flatten) t.dump := by
  induction acts generalizing s got with
  | nil => exact ⟨s, rfl, T, by simpa [bodiesOf] using R⟩
  | cons act acts ih =>
    rw [bodiesOf_cons, List.flatten_append, ← List.append_assoc] at hle ⊢
    have hfirst : (got ++ (bodiesOf [act]).flatten).length ≤ chn.size := by
      rw [List.length_append] at hle
      omega
    obtain ⟨u, h1, TU, RU⟩ := arrives_step hmax T R (harr act List.mem_cons_self) hfirst
    obtain ⟨t, h2, TT, RT⟩ := ih TU RU (fun a ha => harr a (List.mem_cons_of_mem _ ha)) hle
    exact ⟨t, Lts.run_cons_some.mpr ⟨u, h1, h2⟩, TT, RT⟩

end Arrivals

/-! A user reads the file. -/

/-- The calls of `debug_coredump_read` of a user who reads pieces of the given lengths, from offset `off` of a file of
`cdLen` bytes on; `i` calls are under way already, and `stale` is what freed memory would hold. -/
def fileReads (i cdLen : Nat) : Nat → List (Nat × Mem) → List ReadAct
  | _, [] => []
  | off, (count, stale) :: pieces =>
    .getLen :: .getData i :: .copy i count off 0 stale :: fileReads i cdLen (off + min count (cdLen - off)) pieces

section File
variable (kmallocMaxSize : Nat) {s : Reading} {data : Buffer} {dump : List UInt8} {off : Nat}

theorem simpleReadFromBuffer_eq (count off : Nat) (source : Mem) (available : Nat) :
    simpleReadFromBuffer count off source available 0 = source.read off (min count (available - off)) := by
  unfold simpleReadFromBuffer
  split
  · next h =>
    have hzero : min count (available - off) = 0 := by omega
    rw [hzero]
    rfl
  · rfl

/-- A piece of the buffer is a piece of the dump in it. -/
theorem read_piece (hread : data.bytes.read 0 dump.length = dump) (hoff : off ≤ dump.length) (count : Nat) :
    data.bytes.read off (min count (dump.length - off)) = (dump.drop off).take count := by
  have hinside : off + min count (dump.length - off) ≤ dump.length := by omega
  have hpre := Mem.read_prefix_drop (m := data.bytes) hinside
  rw [hread, List.prefix_iff_eq_take, Mem.read_length] at hpre
  rw [hpre, List.take_eq_take_iff, List.length_drop]
  omega

/-- What is left after a piece. -/
theorem drop_piece (dump : List UInt8) (off count : Nat) :
    dump.drop (off + min count (dump.length - off)) = (dump.drop off).drop count := by
  rw [List.drop_drop]
  by_cases hle : count ≤ dump.length - off
  · rw [Nat.min_eq_left hle]
  · rw [List.drop_eq_nil_of_le (by omega), List.drop_eq_nil_of_le (by omega)]

/-- One call, with nothing received meanwhile. -/
theorem fileRead_one (hd : s.dump.layer.coredumpData = some data) (hlen : s.dump.layer.coredumpDataWrIdx = dump.length)
    (hread : data.bytes.read 0 dump.length = dump) (hoff : off ≤ dump.length) (count : Nat) (stale : Mem) :
    Lts.run (readStep kmallocMaxSize) s [.getLen, .getData s.reads.length, .copy s.reads.length count off 0 stale] =
      some { s with copies := s.copies ++ [⟨true, off, (dump.drop off).take count, [s.dump.body]⟩] } := by
  have hptr : s.coredumpData = some s.address := by simp [Reading.coredumpData, hd]
  have hmem : s.memoryAt stale (some s.address) = data.bytes := by simp [Reading.memoryAt, hd]
  have hvalid : StillValid { s with reads := s.reads ++ [⟨dump.length, some (some s.address), [s.dump.body]⟩] }
      ⟨dump.length, some (some s.address), [s.dump.body]⟩ := by
    refine .inr ⟨Nat.le_of_eq hlen.symm, fun cd hcd => ?_⟩
    obtain rfl := Option.mem_some.mp hcd
    exact ⟨rfl, hptr.symm⟩
  have hget : readStep kmallocMaxSize s .getLen =
      some { s with reads := s.reads ++ [⟨dump.length, none, [s.dump.body]⟩] } := by
    simp [readStep, hlen]
  have hdata : readStep kmallocMaxSize { s with reads := s.reads ++ [⟨dump.length, none, [s.dump.body]⟩] }
      (.getData s.reads.length) =
      some { s with reads := s.reads ++ [⟨dump.length, some (some s.address), [s.dump.body]⟩] } := by
    rw [← hptr]
    simp [readStep, List.set_append_right, Reading.coredumpData]
  have hcopy : readStep kmallocMaxSize
      { s with reads := s.reads ++ [⟨dump.length, some (some s.address), [s.dump.body]⟩] }
      (.copy s.reads.length count off 0 stale) =
      some { s with copies := s.copies ++ [⟨true, off, (dump.drop off).take count, [s.dump.body]⟩] } := by
    have hbytes := simpleReadFromBuffer_eq count off data.bytes dump.length
    rw [read_piece hread hoff] at hbytes
    simp only [readStep, List.getElem?_concat_length, Option.bind_eq_bind, Option.bind_some]
    rw [decide_eq_true hvalid, List.eraseIdx_append_of_length_le (Nat.le_refl _), Nat.sub_self]
    have hsame : ({ s with reads := s.reads ++ [⟨dump.length, some (some s.address), [s.dump.body]⟩] } : Reading).memoryAt
        stale (some s.address) = data.bytes := hmem
    rw [hsame, hbytes]
    simp
  rw [Lts.run_cons, hget, Option.bind_some, Lts.run_cons, hdata, Option.bind_some, Lts.run_cons, hcopy,
    Option.bind_some, Lts.run_nil]

/-- The pieces are what there is from the offset on. -/
theorem fileReads_run (hd : s.dump.layer.coredumpData = some data)
    (hlen : s.dump.layer.coredumpDataWrIdx = dump.length) (hread : data.bytes.read 0 dump.length = dump)
    (pieces : List (Nat × Mem)) (hoff : off ≤ dump.length) :
    ∃ copied, Lts.run (readStep kmallocMaxSize) s (fileReads s.reads.length dump.length off pieces) =
        some { s with copies := s.copies ++ copied } ∧
      (copied.map Copied.bytes).flatten = (dump.drop off).take (pieces.map Prod.fst).sum := by
  induction pieces generalizing s off with
  | nil => exact ⟨[], by simp [fileReads], by simp⟩
  | cons piece pieces ih =>
    obtain ⟨count, stale⟩ := piece
    have hone := fileRead_one kmallocMaxSize hd hlen hread hoff count stale
    obtain ⟨copied, hrun, hflat⟩ := ih
      (s := { s with copies := s.copies ++ [⟨true, off, (dump.drop off).take count, [s.dump.body]⟩] }) hd hlen
      (show off + min count (dump.length - off) ≤ dump.length by omega)
    refine ⟨⟨true, off, (dump.drop off).take count, [s.dump.body]⟩ :: copied, ?_, ?_⟩
    · have hsplit : fileReads s.reads.length dump.length off ((count, stale) :: pieces) =
          [ReadAct.getLen, .getData s.reads.length, .copy s.reads.length count off 0 stale] ++
            fileReads s.reads.length dump.length (off + min count (dump.length - off)) pieces := rfl
      rw [hsplit, Lts.run_append, hone, Option.bind_some, hrun, List.append_assoc]
      rfl
    · rw [List.map_cons, List.flatten_cons, hflat, drop_piece, List.map_cons, List.sum_cons, List.take_add]

end File

/-- From any state that can be reached: a dump that is announced, whose memory is granted, and whose bodies arrive, is
exposed, is answered with one verdict and with nothing but NACKs of the timer before it, and is read from the file. -/
theorem dump_transferred {kmallocMaxSize : Nat} (hmax : kmallocMaxSize < 2147483648) {earlier : List ReadAct} {s : Reading}
    (hs : Lts.run (readStep kmallocMaxSize) readingInit earlier = some s) {dump : List UInt8} {crc : Nat}
    (hcrc : crc < 65536) (hpos : dump ≠ []) (hle : dump.length ≤ kmallocMaxSize) (grant : Grant) (address : Nat)
    {arrivals : List ReadAct} (harr : ∀ act ∈ arrivals, Arrives act) (hcut : (bodiesOf arrivals).flatten = dump)
    {pieces : List (Nat × Mem)} (hpieces : dump.length ≤ (pieces.map Prod.fst).sum) :
    ∃ t expired u copied,
      Lts.run (readStep kmallocMaxSize) s
        (.message (headerNtf ⟨dump.length, crc⟩) (some grant) address :: arrivals) = some t ∧
      debugCoredumpGet t.dump.layer = some dump ∧
      t.dump.statuses = s.dump.statuses ++ expired ++ [verdict ⟨dump.length, crc⟩ dump] ∧
      (∀ r ∈ expired, r.expired = true ∧ r.ack = coredumpRcvNack) ∧
      Lts.run (readStep kmallocMaxSize) t (fileReads t.reads.length dump.length 0 pieces) = some u ∧
      u.copies = t.copies ++ copied ∧ (copied.map Copied.bytes).flatten = dump := by
  have hlen := List.length_pos_of_ne_nil hpos
  have T : Tracked kmallocMaxSize s :=
    Lts.run_preserves (fun _ _ _ T h => tracked_step hmax T h) tracked_init hs
  obtain ⟨layer, outcome, hheader, hr⟩ :=
    readStep_message hmax T (headerNtf ⟨dump.length, crc⟩) (some grant) address
  have R := receiving_header (s := s.dump) (show dump.length < 4294967296 by omega) hcrc hlen hle hr
  obtain ⟨t, hrun, TT, RT⟩ := arrives_run hmax (T.receive hr address) R harr (by rw [hcut]; exact Nat.le_refl _)
  rw [hcut, List.nil_append] at RT
  obtain ⟨expired, hexp, hsent⟩ := RT.sent
  obtain ⟨data, hd⟩ := Option.isSome_iff_exists.mp RT.data
  have hidx : t.dump.layer.coredumpDataWrIdx = dump.length := by rw [TT.assembled.wrIdx_eq, RT.body]
  have hread := TT.assembled.bytes_eq data hd
  rw [RT.body] at hread
  obtain ⟨copied, hfile, hflat⟩ := fileReads_run kmallocMaxSize hd hidx hread pieces (Nat.zero_le _)
  refine ⟨t, expired, _, copied, Lts.run_cons_some.mpr ⟨_, hheader, hrun⟩, ?_, ?_, hexp, hfile, rfl, ?_⟩
  · rw [TT.assembled.exposed, RT.body]
  · rw [if_neg (Nat.lt_irrefl _)] at hsent
    exact hsent
  · rw [hflat, List.drop_zero, List.take_of_length_le hpieces]

/-- Four bytes in two bodies, the timer expiring between them. -/
def smallDump : List UInt8 := [1, 2, 3, 4]

def twoBytes (a b : UInt8) : ReadAct := .message ⟨[coredumpBodyNtf, a, b], 0, by simp⟩ none 0

def smallArrivals : List ReadAct := [twoBytes 1 2, .timer, twoBytes 3 4]

theorem dump_transferred_small : ∃ t expired u copied,
    Lts.run (readStep 4194304) readingInit
      (.message (headerNtf ⟨smallDump.length, 10⟩) (some ⟨0, fun _ => 0⟩) 1 :: smallArrivals) = some t ∧
    debugCoredumpGet t.dump.layer = some smallDump ∧
    t.dump.statuses = readingInit.dump.statuses ++ expired ++ [verdict ⟨smallDump.length, 10⟩ smallDump] ∧
    (∀ r ∈ expired, r.expired = true ∧ r.ack = coredumpRcvNack) ∧
    Lts.run (readStep 4194304) t
      (fileReads t.reads.length smallDump.length 0 [(3, fun _ => 0), (3, fun _ => 0)]) = some u ∧
    u.copies = t.copies ++ copied ∧ (copied.map Copied.bytes).flatten = smallDump := by
  have hnone : Lts.run (readStep 4194304) readingInit [] = some readingInit := rfl
  have harr : ∀ act ∈ smallArrivals, Arrives act := by
    simp only [smallArrivals, List.forall_mem_cons, List.not_mem_nil, false_implies, implies_true, and_true]
    exact ⟨⟨by decide, by decide⟩, trivial, ⟨by decide, by decide⟩⟩
  exact dump_transferred (by decide) hnone (by decide) (by decide) (by decide) ⟨0, fun _ => 0⟩ 1 harr (by decide)
    (by decide)

end Qm35.Coredump
