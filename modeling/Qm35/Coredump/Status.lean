import Qm35.Coredump.Reassembly

/- Which status is sent. The status byte outlives the message that sets it, so what
   makes an ACK correct is an invariant (`Judged`): the byte is ACK only while the
   dump is complete with the right checksum, and the timer runs only while it is
   NACK. A body that completes the dump sends a status at once; only empty bodies
   can be accepted after that, and they send the same status again. -/
namespace Qm35.Coredump

open ByteMem

/-- The sum of the bytes. -/
def byteSum (bs : List UInt8) : Nat := (bs.map UInt8.toNat).sum

theorem checksumLoop_from (bs : List UInt8) (acc : Nat) :
    bs.foldl (fun crc val => u16 (crc + val.toNat)) (u16 acc) = u16 (acc + byteSum bs) := by
  induction bs generalizing acc with
  | nil => rfl
  | cons b bs ih =>
    calc (b :: bs).foldl (fun crc val => u16 (crc + val.toNat)) (u16 acc)
      _ = bs.foldl (fun crc val => u16 (crc + val.toNat)) (u16 (acc + b.toNat)) := by
        rw [List.foldl_cons]
        simp only [u16, Nat.mod_add_mod]
      _ = u16 (acc + b.toNat + byteSum bs) := ih _
      _ = u16 (acc + byteSum (b :: bs)) := by
        simp only [byteSum, List.map_cons, List.sum_cons, Nat.add_assoc]

/-- The loop computes the sum modulo 2^16. -/
theorem checksumLoop_eq (bs : List UInt8) : checksumLoop bs = byteSum bs % 65536 := by
  have := checksumLoop_from bs 0
  rwa [Nat.zero_add] at this

/-- The bytes are the dump that the header has announced. -/
def Whole (header : Option CoredumpHdrNtf) (body : List UInt8) : Prop :=
  ∃ chn, header = some chn ∧ chn.size ≠ 0 ∧ body.length = chn.size ∧ byteSum body % 65536 = chn.crc

/-- An ACK was for a whole dump, and the timer has sent no ACK. -/
def RcvStatus.Correct (r : RcvStatus) : Prop :=
  (r.ack = coredumpRcvAck → Whole r.header r.body) ∧ (r.expired = true → r.ack = coredumpRcvNack)

structure Judged (s : Dump) : Prop where
  announced : ∀ data, s.layer.coredumpData = some data →
    ∃ chn, s.header = some chn ∧ chn.size ≠ 0 ∧ s.layer.coredumpSize = chn.size ∧ s.layer.coredumpCrc = chn.crc
  ack : s.layer.coredumpStatus = coredumpRcvNack ∨
    s.layer.coredumpStatus = coredumpRcvAck ∧ s.layer.coredumpData.isSome ∧
      s.layer.coredumpDataWrIdx = s.layer.coredumpSize ∧ byteSum s.body % 65536 = s.layer.coredumpCrc
  pending : s.layer.timer = true → s.layer.coredumpStatus = coredumpRcvNack
  sent : ∀ r ∈ s.statuses, r.Correct

section Step
variable {kmallocMaxSize : Nat} {s : Dump} {layer : CoredumpLayer} {outcome : Outcome} {msg : Message}
  {grant : Option Grant} {data : Buffer} {body : List UInt8}

theorem judged_init : Judged dumpInit where
  announced _ h := nomatch h
  ack := .inl rfl
  pending _ := rfl
  sent _ h := nomatch h

theorem Judged.stopTimer (h : Judged s) : Judged { s with layer := { s.layer with timer := false } } :=
  ⟨h.announced, h.ack, (fun h => nomatch h), h.sent⟩

/-- The checksum of the filled buffer is the one of the bodies. -/
theorem checksum_filled (ha : Assembled kmallocMaxSize s) (hd : s.layer.coredumpData = some data)
    (hfull : s.layer.coredumpDataWrIdx + body.length = s.layer.coredumpSize) :
    checksumLoop ((data.bytes.write s.layer.coredumpDataWrIdx body).read 0 s.layer.coredumpSize) =
      byteSum (s.body ++ body) % 65536 := by
  have hext : Assembled kmallocMaxSize { s with layer := extend s.layer data body false, body := s.body ++ body } :=
    ha.extend hd (Nat.le_of_eq hfull) rfl rfl rfl rfl
  have hbytes := hext.bytes_eq _ rfl
  have hlen : (s.body ++ body).length = s.layer.coredumpSize := by
    rw [List.length_append, ← ha.wrIdx_eq, hfull]
  rw [← checksumLoop_eq]
  dsimp only at hbytes
  rw [hlen] at hbytes
  rw [hbytes]

/-- The status sent for a complete dump: the byte left over is ACK only if it has been computed
for the same bytes before. -/
theorem Judged.status_last (h : Judged s)
    (hfull : s.layer.coredumpDataWrIdx + body.length = s.layer.coredumpSize)
    (hne : byteSum (s.body ++ body) % 65536 ≠ s.layer.coredumpCrc) :
    s.layer.coredumpStatus = coredumpRcvNack := by
  rcases h.ack with hn | ⟨-, -, hidx, hcrc⟩
  · exact hn
  · have hempty : body = [] := List.length_eq_zero_iff.mp (by omega)
    rw [hempty, List.append_nil] at hne
    exact absurd hcrc hne

/-- Only an incomplete dump is extended by a body that does not complete it. -/
theorem Judged.status_part (h : Judged s)
    (hlt : s.layer.coredumpDataWrIdx + body.length < s.layer.coredumpSize) :
    s.layer.coredumpStatus = coredumpRcvNack := by
  rcases h.ack with hn | ⟨-, -, hidx, -⟩
  · exact hn
  · omega

theorem received_last (ha : Assembled kmallocMaxSize s) (h : Judged s) (hd : s.layer.coredumpData = some data)
    (hfull : s.layer.coredumpDataWrIdx + body.length = s.layer.coredumpSize) :
    (if checksumLoop ((data.bytes.write s.layer.coredumpDataWrIdx body).read 0 s.layer.coredumpSize) =
      s.layer.coredumpCrc then coredumpRcvAck else s.layer.coredumpStatus) =
    if byteSum (s.body ++ body) % 65536 = s.layer.coredumpCrc then coredumpRcvAck else coredumpRcvNack := by
  rw [checksum_filled ha hd hfull]
  by_cases hcrc : byteSum (s.body ++ body) % 65536 = s.layer.coredumpCrc
  · rw [if_pos hcrc, if_pos hcrc]
  · rw [if_neg hcrc, if_neg hcrc, h.status_last hfull hcrc]

theorem Judged.last (ha : Assembled kmallocMaxSize s) (h : Judged s) (hd : s.layer.coredumpData = some data)
    (hfull : s.layer.coredumpDataWrIdx + body.length = s.layer.coredumpSize) {ack : UInt8}
    (hack : ack = if byteSum (s.body ++ body) % 65536 = s.layer.coredumpCrc then coredumpRcvAck
      else coredumpRcvNack) :
    Judged (Coredump.record s { extend s.layer data body false with coredumpStatus := ack }
      (.body body (some ack))) := by
  obtain ⟨chn, hhdr, h0, hsize, hcrc⟩ := h.announced data hd
  have hlen : (s.body ++ body).length = chn.size := by
    rw [List.length_append, ← ha.wrIdx_eq, hfull, hsize]
  refine ⟨fun _ _ => ⟨chn, hhdr, h0, hsize, hcrc⟩, ?_, (fun h => nomatch h), ?_⟩
  · by_cases hsum : byteSum (s.body ++ body) % 65536 = s.layer.coredumpCrc
    · rw [if_pos hsum] at hack
      exact .inr ⟨hack, rfl, hfull, hsum⟩
    · rw [if_neg hsum] at hack
      exact .inl hack
  · intro r hr
    rcases List.mem_append.mp hr with hr | hr
    · exact h.sent r hr
    · rw [List.mem_singleton.mp hr]
      refine ⟨fun hok => ?_, fun h => nomatch h⟩
      refine ⟨chn, hhdr, h0, hlen, ?_⟩
      by_contra hsum
      rw [← hcrc] at hsum
      rw [if_neg hsum] at hack
      exact absurd (hack.symm.trans hok) (by decide)

theorem Judged.record (ha : Assembled kmallocMaxSize s) (h : Judged s)
    (hr : Received kmallocMaxSize s.layer msg grant layer outcome) : Judged (record s layer outcome) := by
  cases hr with
  | unread => exact h
  | refused => exact h.stopTimer
  | @header body chn =>
    refine ⟨?_, .inl ?_, fun _ => ?_, h.sent⟩
    · intro data hd
      simp only [Coredump.record, coredumpHeaderNtfReceived] at hd ⊢
      cases hk : krealloc kmallocMaxSize chn.size grant with
      | none =>
        rw [hk] at hd
        cases hd
      | some data => exact ⟨chn, rfl, (krealloc_some hk).1, rfl, rfl⟩
    · simp only [Coredump.record, coredumpHeaderNtfReceived]
      split <;> rfl
    · simp only [Coredump.record, coredumpHeaderNtfReceived]
      split <;> rfl
  | part _ _ hd hlt =>
    have hn := h.status_part hlt
    exact ⟨fun _ _ => h.announced _ hd, .inl hn, fun _ => hn, h.sent⟩
  | last _ _ hd hfull hack => exact h.last ha hd hfull (hack.trans (received_last ha h hd hfull))

theorem Judged.timer (h : Judged s) : Judged (timerStep s) := by
  unfold timerStep
  by_cases ht : s.layer.timer = true
  · rw [if_pos ht]
    refine ⟨h.announced, h.ack, (fun h => nomatch h), ?_⟩
    intro r hr
    rcases List.mem_append.mp hr with hr | hr
    · exact h.sent r hr
    · rw [List.mem_singleton.mp hr]
      have hn := h.pending ht
      exact ⟨fun hok => absurd (hn.symm.trans hok) (by decide), fun _ => hn⟩
  · rw [if_neg ht]
    exact h

end Step

/-- After any messages and expiries: ACK has been sent for whole dumps only, and never by the
timer; and an accepted body that brings the total to the announced size sends ACK if the sum
of the bytes is the announced one, else NACK. -/
theorem statuses_correct {kmallocMaxSize : Nat} (hmax : kmallocMaxSize < 2147483648) (acts : List DumpAct) :
    ∃ s, Lts.run (dumpStep kmallocMaxSize) dumpInit acts = some s ∧ (∀ r ∈ s.statuses, r.Correct) ∧
      ∀ msg grant layer bytes sent,
        coredumpReceived kmallocMaxSize s.layer msg grant = some (layer, .body bytes sent) →
        ∃ chn, s.header = some chn ∧ ((s.body ++ bytes).length = chn.size →
          sent = some (if byteSum (s.body ++ bytes) % 65536 = chn.crc then coredumpRcvAck
            else coredumpRcvNack)) := by
  have hm : Lts.Meets (dumpStep kmallocMaxSize) (fun _ _ => True) dumpInit acts :=
    Lts.Meets.of_forall fun _ _ => trivial
  obtain ⟨s, hrun, ha, h⟩ := run_assembled (I := Judged) hmax judged_init
    (fun _ _ _ _ _ ha h _ hr => h.record ha hr) (fun _ _ h => h.timer)
    hm
  refine ⟨s, hrun, h.sent, ?_⟩
  intro msg grant layer bytes sent hreceived
  obtain ⟨layer', outcome, heq, hr⟩ := coredumpReceived_spec hmax ha.toBacked msg grant
  rw [hreceived] at heq
  cases heq
  cases hr with
  | part _ _ hd hlt =>
    obtain ⟨chn, hhdr, -, hsize, -⟩ := h.announced _ hd
    refine ⟨chn, hhdr, fun hlen => ?_⟩
    rw [List.length_append, ← ha.wrIdx_eq] at hlen
    omega
  | last _ _ hd hfull hack =>
    obtain ⟨chn, hhdr, -, -, hcrc⟩ := h.announced _ hd
    refine ⟨chn, hhdr, fun _ => ?_⟩
    rw [hack, received_last ha h hd hfull, hcrc]

theorem statuses_correct_small :
    ∃ s, Lts.run (dumpStep 4194304) dumpInit (firstHalf ++ [secondHalf]) = some s ∧
      ∃ r ∈ s.statuses, r.ack = coredumpRcvAck ∧ Whole r.header r.body := by
  obtain ⟨s, hrun, hsent, -⟩ := statuses_correct (by decide : 4194304 < 2147483648) (firstHalf ++ [secondHalf])
  have hstatuses : (Lts.run (dumpStep 4194304) dumpInit (firstHalf ++ [secondHalf])).map Dump.statuses =
      some [⟨coredumpRcvAck, false, some ⟨4, 10⟩, [1, 2, 3, 4]⟩] := rfl
  rw [hrun, Option.map_some, Option.some.injEq] at hstatuses
  have hmem : ⟨coredumpRcvAck, false, some ⟨4, 10⟩, [1, 2, 3, 4]⟩ ∈ s.statuses := by simp [hstatuses]
  exact ⟨s, hrun, _, hmem, rfl, (hsent _ hmem).1 rfl⟩

end Qm35.Coredump
