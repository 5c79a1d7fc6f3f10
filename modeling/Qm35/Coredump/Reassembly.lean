import Qm35.Lib.Lts
import Qm35.Coredump.Model

/- What is in the buffer. A message does one of five things (`Received`), provided that
   the write index is at most the size and the size at most what was allocated
   (`Backed`): then every copy and every read of the buffer is inside it. From that,
   over a run, the buffer holds the bodies accepted since the last header, one after
   the other, and `debug_coredump_get` exposes exactly them. -/
namespace Qm35.Coredump

open ByteMem

/-! The effect of one message. -/

/-- The bounds that keep the accesses inside the buffer. -/
structure Backed (kmallocMaxSize : Nat) (layer : CoredumpLayer) : Prop where
  wrIdx_le : layer.coredumpDataWrIdx ≤ layer.coredumpSize
  size_le : layer.coredumpSize ≤ kmallocMaxSize
  unallocated : layer.coredumpData = none → layer.coredumpSize = 0
  allocated : ∀ data, layer.coredumpData = some data → layer.coredumpSize ≤ data.granted

/-- A body that `coredump_body_ntf_received` accepts. -/
def BodyFits (layer : CoredumpLayer) (body : List UInt8) : Prop :=
  layer.coredumpData.isSome ∧ layer.coredumpDataWrIdx + body.length ≤ layer.coredumpSize

/-- A header of at least six bytes, or a body that is accepted. -/
def Taken (layer : CoredumpLayer) (cmdId : UInt8) (body : List UInt8) : Prop :=
  cmdId = coredumpHeaderNtf ∧ sizeofHdrNtf ≤ body.length ∨ cmdId = coredumpBodyNtf ∧ BodyFits layer body

instance (layer : CoredumpLayer) (body : List UInt8) : Decidable (BodyFits layer body) :=
  inferInstanceAs (Decidable (_ ∧ _))

instance (layer : CoredumpLayer) (cmdId : UInt8) (body : List UInt8) : Decidable (Taken layer cmdId body) :=
  inferInstanceAs (Decidable (_ ∨ _))

/-- The layer after an accepted body, before the status or the timer. -/
def extend (layer : CoredumpLayer) (data : Buffer) (body : List UInt8) (timer : Bool) : CoredumpLayer :=
  { layer with
    coredumpData := some { data with bytes := data.bytes.write layer.coredumpDataWrIdx body }
    coredumpDataWrIdx := layer.coredumpDataWrIdx + body.length
    timer := timer }

/-- What `coredump_received` can do. -/
inductive Received (kmallocMaxSize : Nat) (layer : CoredumpLayer) (msg : Message) (grant : Option Grant) :
    CoredumpLayer → Outcome → Prop
  | unread : msg.status ≠ 0 ∨ msg.data = [] → Received kmallocMaxSize layer msg grant layer .ignored
  | refused {cmdId : UInt8} {body : List UInt8} : msg.status = 0 → msg.data = cmdId :: body →
      ¬Taken layer cmdId body →
      Received kmallocMaxSize layer msg grant { layer with timer := false } .ignored
  | header {body : List UInt8} {chn : CoredumpHdrNtf} : msg.status = 0 →
      msg.data = coredumpHeaderNtf :: body → hdrNtfOf body = some chn →
      Received kmallocMaxSize layer msg grant
        (coredumpHeaderNtfReceived kmallocMaxSize { layer with timer := false } chn grant) (.header chn)
  | part {body : List UInt8} {data : Buffer} : msg.status = 0 → msg.data = coredumpBodyNtf :: body →
      layer.coredumpData = some data → layer.coredumpDataWrIdx + body.length < layer.coredumpSize →
      Received kmallocMaxSize layer msg grant (extend layer data body true) (.body body none)
  | last {body : List UInt8} {data : Buffer} {ack : UInt8} : msg.status = 0 →
      msg.data = coredumpBodyNtf :: body → layer.coredumpData = some data →
      layer.coredumpDataWrIdx + body.length = layer.coredumpSize →
      ack = (if checksumLoop ((data.bytes.write layer.coredumpDataWrIdx body).read 0 layer.coredumpSize) =
        layer.coredumpCrc then coredumpRcvAck else layer.coredumpStatus) →
      Received kmallocMaxSize layer msg grant { extend layer data body false with coredumpStatus := ack }
        (.body body (some ack))

theorem hdrNtfOf_none {body : List UInt8} : hdrNtfOf body = none ↔ body.length < sizeofHdrNtf := by
  match body with
  | [] | [_] | [_, _] | [_, _, _] | [_, _, _, _] | [_, _, _, _, _] => simp [hdrNtfOf, sizeofHdrNtf]
  | _ :: _ :: _ :: _ :: _ :: _ :: _ => simp [hdrNtfOf, sizeofHdrNtf]

theorem hdrNtfOf_some {body : List UInt8} {chn : CoredumpHdrNtf} (h : hdrNtfOf body = some chn) :
    sizeofHdrNtf ≤ body.length := by
  apply Nat.le_of_not_lt
  intro hshort
  rw [hdrNtfOf_none.mpr hshort] at h
  cases h

section Body
variable {layer : CoredumpLayer} {body : List UInt8} {data : Buffer}

/-- A body that does not fit is refused. -/
theorem bodyNtf_refused (hlt : layer.coredumpDataWrIdx + body.length < 4294967296) (h : ¬BodyFits layer body) :
    coredumpBodyNtfReceived layer body = some (layer, false) := by
  unfold coredumpBodyNtfReceived
  match hd : layer.coredumpData with
  | none => rfl
  | some data =>
    have hover : layer.coredumpSize < layer.coredumpDataWrIdx + body.length := by
      apply Nat.lt_of_not_le
      intro hle
      exact h ⟨by rw [hd]; rfl, hle⟩
    dsimp only
    rw [Nat.add_comm, u32_of_lt hlt, if_pos hover]

/-- One that fits is copied behind what is already there. -/
theorem bodyNtf_fits (hd : layer.coredumpData = some data)
    (hlt : layer.coredumpDataWrIdx + body.length < 4294967296)
    (hfit : layer.coredumpDataWrIdx + body.length ≤ layer.coredumpSize)
    (hgr : layer.coredumpSize ≤ data.granted) :
    coredumpBodyNtfReceived layer body = some (extend layer data body layer.timer, true) := by
  unfold coredumpBodyNtfReceived
  rw [hd]
  dsimp only
  rw [Nat.add_comm body.length, u32_of_lt hlt, if_neg (by omega), Buffer.store, if_pos (by omega)]
  rfl

/-- The checksum of a buffer that has been filled. -/
theorem checksum_extend {timer : Bool} (hfull : layer.coredumpDataWrIdx + body.length = layer.coredumpSize)
    (hgr : layer.coredumpSize ≤ data.granted) :
    coredumpGetChecksum (extend layer data body timer) =
      some (checksumLoop ((data.bytes.write layer.coredumpDataWrIdx body).read 0 layer.coredumpSize)) := by
  have hload : Buffer.load { data with bytes := data.bytes.write layer.coredumpDataWrIdx body }
      (layer.coredumpDataWrIdx + body.length) =
      some ((data.bytes.write layer.coredumpDataWrIdx body).read 0 layer.coredumpSize) := by
    rw [hfull]
    exact if_pos hgr
  unfold coredumpGetChecksum extend
  simp only [Option.bind_eq_bind, Option.bind_some, hload]

/-- What follows an accepted body: the timer, or the checksum and a status. -/
theorem bodyAccepted_part {timer : Bool}
    (hlt : layer.coredumpDataWrIdx + body.length < layer.coredumpSize) :
    coredumpBodyAccepted (extend layer data body timer) body =
      some (extend layer data body true, .body body none) :=
  if_neg (Nat.ne_of_lt hlt)

theorem bodyAccepted_last {timer : Bool} (hfull : layer.coredumpDataWrIdx + body.length = layer.coredumpSize)
    (hgr : layer.coredumpSize ≤ data.granted) {ack : UInt8}
    (hack : ack = if checksumLoop ((data.bytes.write layer.coredumpDataWrIdx body).read 0 layer.coredumpSize) =
      layer.coredumpCrc then coredumpRcvAck else layer.coredumpStatus) :
    coredumpBodyAccepted (extend layer data body timer) body =
      some ({ extend layer data body timer with coredumpStatus := ack }, .body body (some ack)) := by
  have hidx : (extend layer data body timer).coredumpDataWrIdx = (extend layer data body timer).coredumpSize :=
    hfull
  unfold coredumpBodyAccepted
  rw [if_pos hidx, checksum_extend hfull hgr]
  simp only [Option.bind_eq_bind, Option.bind_some]
  by_cases hcrc : checksumLoop ((data.bytes.write layer.coredumpDataWrIdx body).read 0 layer.coredumpSize) =
      layer.coredumpCrc
  · rw [if_pos hcrc] at hack
    subst hack
    rw [if_pos (show _ = (extend layer data body timer).coredumpCrc from hcrc)]
  · rw [if_neg hcrc] at hack
    subst hack
    rw [if_neg (show ¬_ = (extend layer data body timer).coredumpCrc from hcrc)]
    rfl

end Body

/-- `coredump_received` succeeds, and does one of the five things. -/
theorem coredumpReceived_spec {kmallocMaxSize : Nat} {layer : CoredumpLayer} (hmax : kmallocMaxSize < 2147483648)
    (h : Backed kmallocMaxSize layer) (msg : Message) (grant : Option Grant) :
    ∃ layer' outcome, coredumpReceived kmallocMaxSize layer msg grant = some (layer', outcome) ∧
      Received kmallocMaxSize layer msg grant layer' outcome := by
  have hsize := h.size_le
  have hidx := h.wrIdx_le
  unfold coredumpReceived
  by_cases hs : msg.status ≠ 0
  · exact ⟨_, _, if_pos hs, .unread (.inl hs)⟩
  rw [if_neg hs]
  rw [not_not] at hs
  match hdata : msg.data with
  | [] => exact ⟨_, _, rfl, .unread (.inr hdata)⟩
  | cmdId :: body =>
    have hlen : body.length + 1 < 65536 := by
      have := msg.fits
      rwa [hdata, List.length_cons] at this
    dsimp only
    by_cases hh : cmdId = coredumpHeaderNtf
    · rw [if_pos hh]
      subst hh
      cases hc : hdrNtfOf body with
      | none =>
        refine ⟨_, _, rfl, .refused hs hdata ?_⟩
        have hshort := hdrNtfOf_none.mp hc
        rintro (⟨-, hlong⟩ | ⟨hb, -⟩)
        · omega
        · cases hb
      | some chn => exact ⟨_, _, rfl, .header hs hdata hc⟩
    rw [if_neg hh]
    by_cases hb : cmdId = coredumpBodyNtf
    · rw [if_pos hb]
      subst hb
      by_cases hfits : BodyFits layer body
      -- the chunk fits the buffer: the last one if it fills it
      · obtain ⟨data, hd⟩ := Option.isSome_iff_exists.mp hfits.1
        have hgr := h.allocated data hd
        have hle := hfits.2
        have hstored : coredumpBodyNtfReceived { layer with timer := false } body =
            some (extend layer data body false, true) :=
          bodyNtf_fits hd (show layer.coredumpDataWrIdx + body.length < _ by omega) hle hgr
        rw [hstored]
        simp only [Option.bind_eq_bind, Option.bind_some, if_true]
        rcases Nat.lt_or_eq_of_le hle with hlt | hfull
        · exact ⟨_, _, bodyAccepted_part hlt, .part hs hdata hd hlt⟩
        · exact ⟨_, _, bodyAccepted_last hfull hgr rfl, .last hs hdata hd hfull rfl⟩
      · have hrefused : coredumpBodyNtfReceived { layer with timer := false } body =
            some ({ layer with timer := false }, false) :=
          bodyNtf_refused (show layer.coredumpDataWrIdx + body.length < _ by omega) hfits
        rw [hrefused]
        refine ⟨_, _, rfl, .refused hs hdata ?_⟩
        rintro (⟨hcmd, -⟩ | ⟨-, hf⟩)
        · cases hcmd
        · exact hfits hf
    · rw [if_neg hb]
      refine ⟨_, _, rfl, .refused hs hdata ?_⟩
      rintro (⟨hcmd, -⟩ | ⟨hcmd, -⟩)
      · exact hh hcmd
      · exact hb hcmd

theorem krealloc_some {kmallocMaxSize size : Nat} {grant : Option Grant} {data : Buffer}
    (h : krealloc kmallocMaxSize size grant = some data) :
    size ≠ 0 ∧ size ≤ kmallocMaxSize ∧ size ≤ data.granted := by
  unfold krealloc at h
  by_cases h0 : size = 0
  · rw [if_pos h0] at h
    cases h
  rw [if_neg h0] at h
  by_cases hmax : kmallocMaxSize < size
  · rw [if_pos hmax] at h
    cases h
  rw [if_neg hmax, Option.map_eq_some_iff] at h
  obtain ⟨g, -, rfl⟩ := h
  exact ⟨h0, Nat.le_of_not_lt hmax, Nat.le_add_right _ _⟩

/-! Runs. -/

/-- The bounds, and the accepted bodies at the front of the buffer. -/
structure Assembled (kmallocMaxSize : Nat) (s : Dump) : Prop extends Backed kmallocMaxSize s.layer where
  wrIdx_eq : s.layer.coredumpDataWrIdx = s.body.length
  bytes_eq : ∀ data, s.layer.coredumpData = some data → data.bytes.read 0 s.body.length = s.body

section Run
variable {kmallocMaxSize : Nat} {s : Dump} {layer : CoredumpLayer} {outcome : Outcome} {msg : Message}
  {grant : Option Grant}

theorem assembled_init : Assembled kmallocMaxSize dumpInit where
  wrIdx_le := Nat.le_refl 0
  size_le := Nat.zero_le _
  unallocated _ := rfl
  allocated _ h := nomatch h
  wrIdx_eq := rfl
  bytes_eq _ h := nomatch h

/-- Stopping or starting the timer, or another status, moves nothing in the buffer. -/
theorem Assembled.of_layer (h : Assembled kmallocMaxSize s) {t : Dump}
    (hdata : t.layer.coredumpData = s.layer.coredumpData)
    (hidx : t.layer.coredumpDataWrIdx = s.layer.coredumpDataWrIdx)
    (hsize : t.layer.coredumpSize = s.layer.coredumpSize) (hbody : t.body = s.body) :
    Assembled kmallocMaxSize t := by
  obtain ⟨⟨h1, h2, h3, h4⟩, h5, h6⟩ := h
  rw [← hdata, ← hsize] at h3
  refine ⟨⟨?_, ?_, h3, ?_⟩, ?_, ?_⟩
  · rw [hidx, hsize]
    exact h1
  · rw [hsize]
    exact h2
  · rw [hdata, hsize]
    exact h4
  · rw [hidx, hbody]
    exact h5
  · rw [hdata, hbody]
    exact h6

/-- A header empties the buffer, whether it can be allocated or not. -/
theorem assembled_header (layer : CoredumpLayer) (chn : CoredumpHdrNtf) (grant : Option Grant)
    (header : Option CoredumpHdrNtf) (replied : Bool) (statuses : List RcvStatus) :
    Assembled kmallocMaxSize
      ⟨coredumpHeaderNtfReceived kmallocMaxSize layer chn grant, header, [], replied, statuses⟩ := by
  unfold coredumpHeaderNtfReceived
  dsimp only
  cases hk : krealloc kmallocMaxSize chn.size grant with
  | none =>
    exact ⟨⟨Nat.le_refl 0, Nat.zero_le _, fun _ => rfl, (fun _ h => nomatch h)⟩, rfl, fun _ h => nomatch h⟩
  | some data =>
    obtain ⟨-, hmax, hgr⟩ := krealloc_some hk
    refine ⟨⟨Nat.zero_le _, hmax, (fun h => nomatch h), fun data' h => ?_⟩, rfl, fun _ _ => rfl⟩
    cases h
    exact hgr

/-- A body that fits goes behind the bytes already there. -/
theorem Assembled.extend (h : Assembled kmallocMaxSize s) {data : Buffer} {body : List UInt8}
    (hd : s.layer.coredumpData = some data)
    (hfit : s.layer.coredumpDataWrIdx + body.length ≤ s.layer.coredumpSize) {t : Dump}
    (hdata : t.layer.coredumpData =
      some { data with bytes := data.bytes.write s.layer.coredumpDataWrIdx body })
    (hidx : t.layer.coredumpDataWrIdx = s.layer.coredumpDataWrIdx + body.length)
    (hsize : t.layer.coredumpSize = s.layer.coredumpSize) (hbody : t.body = s.body ++ body) :
    Assembled kmallocMaxSize t where
  wrIdx_le := by rw [hidx, hsize]; exact hfit
  size_le := by rw [hsize]; exact h.size_le
  unallocated hnone := by rw [hdata] at hnone; cases hnone
  allocated data' hd' := by
    rw [hdata] at hd'
    cases hd'
    rw [hsize]
    exact h.allocated data hd
  wrIdx_eq := by rw [hidx, hbody, List.length_append, h.wrIdx_eq]
  bytes_eq data' hd' := by
    rw [hdata] at hd'
    cases hd'
    rw [hbody, List.length_append, Mem.read_append, Nat.zero_add, h.wrIdx_eq, Mem.read_write]
    congr 1
    calc (data.bytes.write s.body.length body).read 0 s.body.length
      _ = data.bytes.read 0 s.body.length :=
        (Mem.read_congr (Mem.Agree.write (.inl (by omega)))).symm
      _ = s.body := h.bytes_eq data hd

theorem Assembled.record (h : Assembled kmallocMaxSize s)
    (hr : Received kmallocMaxSize s.layer msg grant layer outcome) :
    Assembled kmallocMaxSize (record s layer outcome) := by
  cases hr with
  | unread => exact h.of_layer rfl rfl rfl rfl
  | refused => exact h.of_layer rfl rfl rfl rfl
  | header => exact assembled_header ..
  | part _ _ hd hlt => exact h.extend hd (Nat.le_of_lt hlt) rfl rfl rfl rfl
  | last _ _ hd hfull => exact h.extend hd (Nat.le_of_eq hfull) rfl rfl rfl rfl

theorem Assembled.timer (h : Assembled kmallocMaxSize s) : Assembled kmallocMaxSize (timerStep s) := by
  unfold timerStep
  split
  · exact h.of_layer rfl rfl rfl rfl
  · exact h

/-- What `debug_coredump_get` exposes. -/
theorem Assembled.exposed (h : Assembled kmallocMaxSize s) : debugCoredumpGet s.layer = some s.body := by
  have hidx := h.wrIdx_eq
  have hle := h.wrIdx_le
  unfold debugCoredumpGet
  cases hd : s.layer.coredumpData with
  | none =>
    have hsize := h.unallocated hd
    have hbody : s.body = [] := List.length_eq_zero_iff.mp (by omega)
    dsimp only
    rw [if_pos (by omega), hbody]
  | some data =>
    have hgr := h.allocated data hd
    dsimp only
    rw [Buffer.load, if_pos (by omega), hidx, h.bytes_eq data hd]

end Run

/-- A step from a state that is in order succeeds. -/
theorem dumpStep_message {kmallocMaxSize : Nat} {s : Dump} (hmax : kmallocMaxSize < 2147483648)
    (h : Assembled kmallocMaxSize s) (msg : Message) (grant : Option Grant) :
    ∃ layer outcome, dumpStep kmallocMaxSize s (.message msg grant) = some (record s layer outcome) ∧
      Received kmallocMaxSize s.layer msg grant layer outcome := by
  obtain ⟨layer, outcome, hrun, hr⟩ := coredumpReceived_spec hmax h.toBacked msg grant
  refine ⟨layer, outcome, ?_, hr⟩
  simp only [dumpStep, hrun, Option.bind_eq_bind, Option.bind_some]

/-- The rule for runs: what holds at first and is kept by every message and by the timer, as
long as the buffer is in order, holds after every run. -/
theorem run_assembled {kmallocMaxSize : Nat} (hmax : kmallocMaxSize < 2147483648) {C : Dump → DumpAct → Prop}
    {I : Dump → Prop} (hinit : I dumpInit)
    (hmessage : ∀ s msg grant layer outcome, Assembled kmallocMaxSize s → I s → C s (.message msg grant) →
      Received kmallocMaxSize s.layer msg grant layer outcome → I (record s layer outcome))
    (htimer : ∀ s, Assembled kmallocMaxSize s → I s → I (timerStep s)) {acts : List DumpAct}
    (hm : Lts.Meets (dumpStep kmallocMaxSize) C dumpInit acts) :
    ∃ s, Lts.run (dumpStep kmallocMaxSize) dumpInit acts = some s ∧ Assembled kmallocMaxSize s ∧ I s := by
  refine Lts.run_total (I := fun s => Assembled kmallocMaxSize s ∧ I s) ?_ ⟨assembled_init, hinit⟩ hm
  rintro s act ⟨ha, hi⟩ hc
  cases act with
  | message msg grant =>
    obtain ⟨layer, outcome, hstep, hr⟩ := dumpStep_message hmax ha msg grant
    exact ⟨_, hstep, ha.record hr, hmessage s msg grant layer outcome ha hi hc hr⟩
  | timer => exact ⟨_, rfl, ha.timer, htimer s ha hi⟩

/-- After any messages and expiries every access has been inside the buffer, and the buffer
exposes the bodies accepted since the last header. -/
theorem dump_assembled {kmallocMaxSize : Nat} (hmax : kmallocMaxSize < 2147483648) (acts : List DumpAct) :
    ∃ s, Lts.run (dumpStep kmallocMaxSize) dumpInit acts = some s ∧
      s.layer.coredumpDataWrIdx ≤ s.layer.coredumpSize ∧
      (∀ data, s.layer.coredumpData = some data → s.layer.coredumpSize ≤ data.granted) ∧
      (s.layer.coredumpData = none → s.layer.coredumpDataWrIdx = 0 ∧ s.layer.coredumpSize = 0 ∧ s.body = []) ∧
      debugCoredumpGet s.layer = some s.body := by
  have hm : Lts.Meets (dumpStep kmallocMaxSize) (fun _ _ => True) dumpInit acts :=
    Lts.Meets.of_forall fun _ _ => trivial
  obtain ⟨s, hrun, h, -⟩ := run_assembled (I := fun _ => True) hmax trivial
    (by intros; trivial) (by intros; trivial) hm
  refine ⟨s, hrun, h.wrIdx_le, h.allocated, fun hnone => ?_, h.exposed⟩
  have hsize := h.unallocated hnone
  have hle := h.wrIdx_le
  have hidx := h.wrIdx_eq
  exact ⟨by omega, hsize, List.length_eq_zero_iff.mp (by omega)⟩

/-- A header for four bytes with checksum 10, and the first body. -/
def firstHalf : List DumpAct :=
  [.message ⟨[0, 4, 0, 0, 0, 10, 0], 0, by decide⟩ (some ⟨0, fun _ => 0⟩),
    .message ⟨[1, 1, 2], 0, by decide⟩ none]

/-- The second body. -/
def secondHalf : DumpAct := .message ⟨[1, 3, 4], 0, by decide⟩ none

theorem dump_assembled_small :
    ∃ s, Lts.run (dumpStep 4194304) dumpInit (firstHalf ++ [secondHalf]) = some s ∧
      debugCoredumpGet s.layer = some [1, 2, 3, 4] := by
  obtain ⟨s, hrun, -, -, -, hget⟩ :=
    dump_assembled (by decide : 4194304 < 2147483648) (firstHalf ++ [secondHalf])
  have hbody : (Lts.run (dumpStep 4194304) dumpInit (firstHalf ++ [secondHalf])).map Dump.body =
      some [1, 2, 3, 4] := by decide
  rw [hrun, Option.map_some, Option.some.injEq] at hbody
  rw [← hbody]
  exact ⟨s, hrun, hget⟩

end Qm35.Coredump
