import Qm35.Log.TraceFile
import Qm35.Ring.Refine

/- What the readers of the trace file are given. The buffer under it is a journal
   (`Ring.Refine`): a trace notification appends, opening the file rewinds, and a read
   takes. Since the file is open once, what is taken between two openings is taken by
   the reads of one file.

   So whatever the order of notifications, openings and reads, the traces taken since the
   file was opened, and those still pending, are traces received, in order and none twice;
   everything the buffer keeps is among them; and it keeps everything received or
   much (`trace_sessions`). The read that comes next is given the first one pending. -/
namespace Qm35.Log

open ByteMem Lts Qm35.Ring

/-- The traces that have been received. -/
def tracesOf : FileAct → List (List UInt8)
  | .received data status => (traceNtf data status).toList.filter (· ≠ [])
  | _ => []

/-- No push takes the reader somewhere it was not. -/
def InPlace (s : TraceFile) : FileAct → Prop
  | .received data status => ∀ body, traceNtf data status = some body → body ≠ [] →
      ¬Redelivers s.traces.ring.rb body.length ∧ ¬LeavesBehind s.traces.ring.rb body.length
  | _ => True

/-- The buffer is the journal `J`, from which `taken` have been taken since it was rewound, and to which `all` have
been appended. -/
structure Streams (rb : Rb) (J : Journal (List UInt8)) (taken all : List (List UInt8)) : Prop where
  rep : Represents rb J
  given : (taken ++ J.rest).Sublist all
  kept : J.kept <:+ all
  covers : J.kept <:+ taken ++ J.rest
  much : J.kept = all ∨ MuchStored J.kept

section Streams
variable {rb rb' : Rb} {J : Journal (List UInt8)} {taken all : List (List UInt8)} {op : RbOp}

theorem streams_init : Streams ringInit Journal.empty [] [] :=
  ⟨represents_init, by simp [Journal.empty], by simp [Journal.kept, Journal.empty], by simp [Journal.kept, Journal.empty],
    .inl rfl⟩

theorem muchStored_snoc (ds : List (List UInt8)) (d : List UInt8) (h : MuchStored ds) : MuchStored (ds ++ [d]) := by
  unfold MuchStored at h ⊢
  simp only [bytesStored, List.map_append, List.sum_append] at h ⊢
  omega

/-- A call of the buffer is one of the journal. -/
theorem Streams.call (S : Streams rb J taken all) (hrun : rbStep rb op = some rb') (hop : Regular rb op) :
    ∃ x J', (rbCall rb op).map Prod.fst = some (journalAnswer x op) ∧ x = J.answer (journalCall op) ∧
      Streams rb' J' (Journal.given taken [(journalCall op, x)]) (all ++ Journal.appended [(journalCall op, x)]) := by
  obtain ⟨rb1, J', hrun', ⟨x, hanswer, hstep⟩, hrep⟩ := rbStep_journal S.rep hop
  obtain rfl := Option.some.inj (hrun.symm.trans hrun')
  exact ⟨x, J', hanswer, hstep.1, hrep, hstep.given S.given S.kept,
    hstep.kept.trans (List.suffix_append_self_iff.mpr S.kept), hstep.covers S.covers,
    hstep.all_or_enough muchStored_snoc S.much⟩

theorem Streams.push {body : List UInt8} {rc : Nat} (S : Streams rb J taken all) (hlen : body.length ≤ 65531)
    (hplace : body ≠ [] → ¬Redelivers rb body.length ∧ ¬LeavesBehind rb body.length)
    (hrun : rbPush rb body = some (rc, rb')) : ∃ J', Streams rb' J' taken (all ++ [body].filter (· ≠ [])) := by
  have hcall : rbStep rb (.push body) = some rb' := by simp [rbStep, rbCall, hrun]
  obtain ⟨x, J', -, -, S'⟩ := S.call hcall ⟨hlen, hplace⟩
  refine ⟨J', ?_⟩
  by_cases hempty : body = [] <;> simpa [journalCall, hempty, Journal.given, Journal.appended] using S'

theorem Streams.reset (S : Streams rb J taken all) : ∃ J', Streams (rbReset rb) J' [] all := by
  have hcall : rbStep rb .reset = some (rbReset rb) := rfl
  obtain ⟨x, J', -, -, S'⟩ := S.call hcall trivial
  exact ⟨J', by simpa [journalCall, Journal.given, Journal.appended] using S'⟩

theorem Streams.nextSize {size : Nat} (S : Streams rb J taken all) (hrun : rbNextSize rb = some (size, rb')) :
    ∃ J', Streams rb' J' taken all := by
  have hcall : rbStep rb .nextSize = some rb' := by simp [rbStep, rbCall, hrun]
  obtain ⟨x, J', -, -, S'⟩ := S.call hcall trivial
  exact ⟨J', by simpa [journalCall, Journal.given, Journal.appended] using S'⟩

/-- A pop takes the first trace pending. -/
theorem Streams.pop {entry : Option (List UInt8)} (S : Streams rb J taken all) (hrun : rbPop rb = some (entry, rb')) :
    entry = J.rest.head? ∧ ∃ J', Streams rb' J' (taken ++ entry.toList) all := by
  have hcall : rbStep rb .pop = some rb' := by simp [rbStep, rbCall, hrun]
  obtain ⟨x, J', hanswer, hx, S'⟩ := S.call hcall trivial
  have hentry : entry = x := by simpa [rbCall, hrun, journalAnswer] using hanswer
  subst hentry
  exact ⟨hx, J', by simpa [journalCall, Journal.given, Journal.appended] using S'⟩

end Streams

/-! The reads. -/

section Reads
variable {s t : Traces} {i : Nat}

/-- A read that asks for the size of the next trace. -/
theorem ask_ring (h : readStep s (.query i) = some t ∨ readStep s (.wake i) = some t) :
    (∃ size, rbNextSize s.ring.rb = some (size, t.ring.rb)) ∧ t.traceOps = s.traceOps := by
  have hsized : ∀ (u : Traces) (count size : Nat), (u.sized i count size).traceOps = u.traceOps := by
    intro u count size
    unfold Traces.sized
    split <;> rfl
  rcases h with h | h
  · simp only [readStep] at h
    split at h
    · obtain ⟨⟨size, u⟩, hnext, h⟩ := Option.bind_eq_some_iff.mp h
      obtain ⟨⟨size', rb⟩, hrun, heq⟩ := Option.map_eq_some_iff.mp hnext
      cases heq
      dsimp only at h
      split at h
      · obtain rfl := Option.some.inj h
        split <;> exact ⟨⟨size, hrun⟩, rfl⟩
      · obtain rfl := Option.some.inj h
        exact ⟨⟨size, by simpa using hrun⟩, hsized _ _ _⟩
    · cases h
  · simp only [readStep] at h
    split at h
    · obtain ⟨⟨size, u⟩, hnext, h⟩ := Option.bind_eq_some_iff.mp h
      obtain ⟨⟨size', rb⟩, hrun, heq⟩ := Option.map_eq_some_iff.mp hnext
      cases heq
      dsimp only at h
      split at h
      · obtain rfl := Option.some.inj h
        exact ⟨⟨size, hrun⟩, rfl⟩
      · obtain rfl := Option.some.inj h
        exact ⟨⟨size, by simpa using hrun⟩, hsized _ _ _⟩
    · cases h

/-- What a read returns that pops `entry`. -/
def popped (count notCopied : Nat) : Option (List UInt8) → Returned
  | none => ⟨count, 0, []⟩
  | some entry => ⟨count, if u16 notCopied ≠ 0 then eFault else u16 entry.length, entry.take (entry.length - notCopied)⟩

theorem pop_ring {notCopied : Nat} (h : readStep s (.pop i notCopied) = some t) :
    ∃ entry count new, rbPop s.ring.rb = some (entry, t.ring.rb) ∧ t.traceOps = s.traceOps ∧
      t.ring.popped = s.ring.popped ++ new ∧ new.map Prod.snd = entry.toList ∧
      t.returned = s.returned ++ [popped count notCopied entry] := by
  simp only [readStep] at h
  split at h
  · next count hpc =>
    obtain ⟨⟨entry, rb⟩, hpop, h⟩ := Option.bind_eq_some_iff.mp h
    obtain ⟨ring, hhist, h⟩ := Option.bind_eq_some_iff.mp h
    cases entry with
    | none =>
      obtain rfl := Option.some.inj ((histStep_pop_none hpop).symm.trans hhist)
      obtain rfl := Option.some.inj h
      exact ⟨none, count, [], hpop, rfl, by simp, rfl, rfl⟩
    | some entry =>
      obtain rfl := Option.some.inj ((histStep_pop hpop).symm.trans hhist)
      simp only [Option.ite_none_right_eq_some, Option.some.injEq] at h
      obtain ⟨-, rfl⟩ := h
      exact ⟨some entry, count, _, hpop, rfl, rfl, rfl, rfl⟩
  · cases h

end Reads

/-! Sessions. -/

/-- The traces taken and pending, where `all` have been received. -/
structure InSession (s : TraceFile) (all : List (List UInt8)) : Prop where
  streams : ∃ J, Streams s.traces.ring.rb J s.taken all
  unset : s.traces.traceOps = false → all = []

section Session
variable {s s' : TraceFile} {all : List (List UInt8)} {a : FileAct}

theorem inSession_init : InSession traceFileInit [] := ⟨⟨_, streams_init⟩, fun _ => rfl⟩

theorem traceNtf_length {data body : List UInt8} {status : Int} (h : traceNtf data status = some body) :
    body.length + 4 ≤ data.length := by
  simp only [traceNtf, Option.ite_none_left_eq_some] at h
  obtain ⟨-, h⟩ := h
  split at h
  · cases h
  · next hdr body' hpkt =>
    simp only [Option.ite_none_right_eq_some, Option.some.injEq] at h
    obtain ⟨-, rfl⟩ := h
    unfold logPacketOf at hpkt
    split at hpkt
    · simp only [Option.ite_none_left_eq_some, Option.some.injEq, Prod.mk.injEq] at hpkt
      obtain ⟨-, -, rfl⟩ := hpkt
      simp
    · cases hpkt

/-- A step that leaves the buffer and what was taken alone. -/
theorem InSession.same (S : InSession s all) (hring : s'.traces.ring.rb = s.traces.ring.rb) (htaken : s'.taken = s.taken)
    (hops : s'.traces.traceOps = false → s.traces.traceOps = false) : InSession s' all := by
  obtain ⟨J, hJ⟩ := S.streams
  exact ⟨⟨J, by rw [hring, htaken]; exact hJ⟩, fun h => S.unset (hops h)⟩

/-- A step that asks for the size of the next trace. -/
theorem InSession.ask (S : InSession s all) {size : Nat} {t : Traces} {queue : Waiter → Option WaitQueue.Place}
    (hrun : rbNextSize s.traces.ring.rb = some (size, t.ring.rb)) (hops : t.traceOps = s.traces.traceOps) :
    InSession { s with traces := t, queue := queue } all := by
  obtain ⟨J, hJ⟩ := S.streams
  exact ⟨hJ.nextSize hrun, fun h => S.unset (hops ▸ h)⟩

theorem InSession.received {data : List UInt8} {status : Int} (S : InSession s all)
    (hplace : InPlace s (.received data status)) (h : fileStep s (.received data status) = some s') :
    InSession s' (all ++ tracesOf (.received data status)) := by
  simp only [fileStep, Option.ite_none_left_eq_some] at h
  obtain ⟨hguard, h⟩ := h
  have hdata : data.length < 65536 := by
    by_contra hlong
    exact hguard (.inr (by omega))
  cases hntf : traceNtf data status with
  | none =>
    rw [hntf] at h
    obtain rfl := Option.some.inj h
    simpa [tracesOf, hntf] using S
  -- a trace is pushed; an empty one is refused, and does not count
  | some body =>
    rw [hntf] at h
    obtain ⟨t, hpush, rfl⟩ := Option.map_eq_some_iff.mp h
    have hlen := traceNtf_length hntf
    simp only [readStep, Option.ite_none_right_eq_some] at hpush
    obtain ⟨⟨hops, -⟩, hpush⟩ := hpush
    obtain ⟨ring, hhist, rfl⟩ := Option.map_eq_some_iff.mp hpush
    obtain ⟨⟨rc, rb⟩, hrb, hhist⟩ := Option.bind_eq_some_iff.mp hhist
    have hring : ring.rb = rb := by
      dsimp only at hhist
      split at hhist <;> simp [← Option.some.inj hhist]
    obtain ⟨J, hJ⟩ := S.streams
    refine ⟨?_, fun hunset => absurd (hunset.symm.trans hops) (by simp)⟩
    have htraces : tracesOf (.received data status) = [body].filter (· ≠ []) := by simp [tracesOf, hntf]
    rw [htraces]
    exact hJ.push (by omega) (hplace body hntf) (hring ▸ hrb)

/-- Opening the file starts a session, unless it is open. -/
theorem InSession.opened {f : Nat} (S : InSession s all) (h : fileStep s (.tracesOpen f) = some s') :
    InSession s' all := by
  simp only [fileStep] at h
  split at h
  · obtain rfl := Option.some.inj h
    exact S
  · obtain ⟨t, hopen, rfl⟩ := Option.map_eq_some_iff.mp h
    obtain ⟨J, hJ⟩ := S.streams
    simp only [readStep] at hopen
    split at hopen
    · next hops =>
      obtain ⟨ring, hhist, rfl⟩ := Option.map_eq_some_iff.mp hopen
      obtain rfl := Option.some.inj hhist
      exact ⟨hJ.reset, fun hunset => absurd (hunset.symm.trans hops) (by simp)⟩
    · next hops =>
      obtain rfl := Option.some.inj hopen
      -- without the callbacks the buffer is not reset, but then nothing has been received yet
      have hnone := S.unset (by simpa using hops)
      subst hnone
      have htaken : s.taken = [] := by
        have hgiven := List.sublist_nil.mp hJ.given
        exact (List.append_eq_nil_iff.mp hgiven).1
      exact ⟨⟨J, htaken ▸ hJ⟩, fun _ => rfl⟩

theorem InSession.next {w : Waiter} {signal : Bool} (S : InSession s all) (h : fileStep s (.next w signal) = some s') :
    InSession s' all := by
  simp only [fileStep] at h
  split at h
  · cases h
  · next p hw =>
    unfold waitStep at h
    split at h
    -- the test of the wait peeks at the buffer; what a signal ends does not
    · obtain ⟨⟨found, t⟩, htest, h⟩ := Option.bind_eq_some_iff.mp h
      obtain ⟨a, -, h⟩ := Option.bind_eq_some_iff.mp h
      obtain rfl := Option.some.inj h
      cases w with
      | read i =>
        obtain ⟨u, hread, heq⟩ := Option.map_eq_some_iff.mp htest
        cases heq
        obtain ⟨⟨size, hrun⟩, hops⟩ := ask_ring (.inr hread)
        exact S.ask hrun hops
      | poll i =>
        cases htest
        exact S.same rfl rfl id
    · obtain ⟨a, -, h⟩ := Option.bind_eq_some_iff.mp h
      obtain ⟨t, hint, h⟩ := Option.bind_eq_some_iff.mp h
      obtain rfl := Option.some.inj h
      have hring : t.ring = s.traces.ring ∧ t.traceOps = s.traces.traceOps := by
        unfold interrupted at hint
        split at hint
        · simp only [readStep] at hint
          split at hint
          · obtain rfl := Option.some.inj hint
            exact ⟨rfl, rfl⟩
          · cases hint
        · obtain rfl := Option.some.inj hint
          exact ⟨rfl, rfl⟩
      exact S.same (by rw [hring.1]) rfl fun hunset => hring.2 ▸ hunset

/-- A read takes the first trace pending. -/
theorem InSession.pop {i notCopied : Nat} (S : InSession s all) (h : fileStep s (.pop i notCopied) = some s') :
    InSession s' all := by
  obtain ⟨t, hread, rfl⟩ := Option.map_eq_some_iff.mp h
  obtain ⟨entry, count, new, hrun, hops, hpopped, hnew, -⟩ := pop_ring hread
  obtain ⟨J, hJ⟩ := S.streams
  obtain ⟨-, hJ'⟩ := hJ.pop hrun
  refine ⟨?_, fun hunset => S.unset (hops ▸ hunset)⟩
  simpa [hpopped, hnew] using hJ'

/-- Any other step receives nothing. -/
theorem InSession.other (S : InSession s all) (ha : ∀ data status, a ≠ .received data status)
    (h : fileStep s a = some s') : InSession s' all := by
  cases a with
  | received data status => exact absurd rfl (ha data status)
  | logLayerInit =>
    obtain rfl := Option.some.inj h
    exact S.same rfl rfl fun hunset => absurd hunset.symm Bool.false_ne_true
  | newTraceAvailable =>
    simp only [fileStep, Option.ite_none_right_eq_some, Option.some.injEq] at h
    obtain ⟨-, rfl⟩ := h
    exact S.same rfl rfl id
  | tracesOpen f => exact S.opened h
  | tracesRelease f =>
    simp only [fileStep, Option.ite_none_right_eq_some, Option.some.injEq] at h
    obtain ⟨-, rfl⟩ := h
    exact S.same rfl rfl id
  | read i count nonblock =>
    simp only [fileStep, Option.ite_none_right_eq_some] at h
    obtain ⟨-, h⟩ := h
    obtain ⟨t, hread, rfl⟩ := Option.map_eq_some_iff.mp h
    simp only [readStep, Option.ite_none_right_eq_some, Option.some.injEq] at hread
    obtain ⟨-, rfl⟩ := hread
    split <;> exact S.same rfl rfl id
  | query i =>
    obtain ⟨t, hread, rfl⟩ := Option.map_eq_some_iff.mp h
    obtain ⟨⟨size, hrun⟩, hops⟩ := ask_ring (.inl hread)
    exact S.ask hrun hops
  | pop i notCopied => exact S.pop h
  | poll i =>
    simp only [fileStep, Option.ite_none_right_eq_some, Option.some.injEq] at h
    obtain ⟨-, rfl⟩ := h
    exact S.same rfl rfl id
  | next w signal => exact S.next h
  | rouse w =>
    simp only [fileStep] at h
    split at h
    · obtain rfl := Option.some.inj h
      exact S.same rfl rfl id
    · cases h

theorem InSession.step (S : InSession s all) (hplace : InPlace s a) (h : fileStep s a = some s') :
    InSession s' (all ++ tracesOf a) := by
  by_cases ha : ∃ data status, a = .received data status
  · obtain ⟨data, status, rfl⟩ := ha
    exact S.received hplace h
  · have hnot : ∀ data status, a ≠ .received data status := fun data status heq => ha ⟨data, status, heq⟩
    have hnone : tracesOf a = [] := by
      cases a with
      | received data status => exact absurd rfl (hnot data status)
      | _ => rfl
    rw [hnone, List.append_nil]
    exact S.other hnot h

theorem inSession_run {acts : List FileAct} (S : InSession s all) (hm : Meets fileStep InPlace s acts)
    (hr : run fileStep s acts = some s') : InSession s' (all ++ acts.flatMap tracesOf) := by
  induction acts generalizing s all with
  | nil =>
    cases hr
    simpa using S
  | cons a acts ih =>
    obtain ⟨s1, h1, h2⟩ := run_cons_some.mp hr
    simpa using ih (S.step hm.1 h1) (hm.2 s1 h1) h2

end Session

/-- Whatever is received, opened, polled and read, as long as no push takes the reader elsewhere: what the reads of
the file have taken since it was opened, and what is pending, are traces received, in order and none twice. What the
buffer keeps is the last part of them and of the traces received, all of these unless it keeps much. And the read
that pops next takes the first trace pending, and returns it. -/
theorem trace_sessions {acts : List FileAct} {s : TraceFile} (hm : Meets fileStep InPlace traceFileInit acts)
    (hr : run fileStep traceFileInit acts = some s) :
    ∃ J, Represents s.traces.ring.rb J ∧ (s.taken ++ J.rest).Sublist (acts.flatMap tracesOf) ∧
      J.kept <:+ s.taken ++ J.rest ∧ J.kept <:+ acts.flatMap tracesOf ∧
      (J.kept = acts.flatMap tracesOf ∨ MuchStored J.kept) ∧
      ∀ i notCopied s', fileStep s (.pop i notCopied) = some s' → s'.taken = s.taken ++ J.rest.head?.toList ∧
        ∃ count, s'.traces.returned = s.traces.returned ++ [popped count notCopied J.rest.head?] := by
  obtain ⟨⟨J, hJ⟩, -⟩ := inSession_run inSession_init hm hr
  rw [List.nil_append] at hJ
  refine ⟨J, hJ.rep, hJ.given, hJ.covers, hJ.kept, hJ.much, fun i notCopied s' h => ?_⟩
  obtain ⟨t, hread, rfl⟩ := Option.map_eq_some_iff.mp h
  obtain ⟨entry, count, new, hrun, -, hpopped, hnew, hret⟩ := pop_ring hread
  obtain ⟨rfl, -⟩ := hJ.pop hrun
  exact ⟨by simp [hpopped, hnew], count, hret⟩

/-- Two traces come in, and the first is read; a third comes in, the file is closed and opened again, and two are
read, the first once more. -/
def readTwice : List FileAct :=
  [.logLayerInit, .received [0, 0, 1, 0, 7] 0, .newTraceAvailable, .received [0, 0, 2, 0, 8, 9] 0, .newTraceAvailable,
    .tracesOpen 1, .read 0 64 false, .query 0, .pop 0 0, .received [0, 0, 1, 0, 3] 0, .newTraceAvailable,
    .tracesRelease 1, .tracesOpen 2, .read 1 64 false, .query 1, .pop 1 0, .read 1 64 true, .query 1, .pop 1 0]

theorem trace_sessions_again : ∃ s J, run fileStep traceFileInit readTwice = some s ∧
    Represents s.traces.ring.rb J ∧ (s.taken ++ J.rest).Sublist [[7], [8, 9], [3]] ∧
    J.kept <:+ s.taken ++ J.rest ∧ s.taken = [[7], [8, 9]] := by
  have heval : (run fileStep traceFileInit readTwice).map TraceFile.taken = some [[7], [8, 9]] := by decide +kernel
  obtain ⟨s, hs, htaken⟩ := Option.map_eq_some_iff.mp heval
  have hm : Meets fileStep (fun s a => ∀ body ∈ tracesOf a,
      passesBy (rbWraps s.traces.ring.rb (rbEntrySize body.length)) s.traces.ring.rb.head s.traces.ring.rb.tail
        s.traces.ring.rb.rdtail = true) traceFileInit readTwice := by decide +kernel
  have hplace : Meets fileStep InPlace traceFileInit readTwice := hm.mono fun s a ha => by
    cases a with
    | received data status =>
      intro body hbody hne
      exact passesBy_neither (ha body (by simp [tracesOf, hbody, hne]))
    | _ => trivial
  obtain ⟨J, hrep, hgiven, hcovers, -⟩ := trace_sessions hplace hs
  exact ⟨s, J, hs, hrep, hgiven, hcovers, htaken⟩

end Qm35.Log
