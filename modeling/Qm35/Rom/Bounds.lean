import Qm35.Rom.Flash

/- What the functions of the protocol ask of the outside, and whether they stay inside
   `hstc` and `sstc`. The size of a read comes from a header the device has written, and
   a frame with a payload of `MAX_STC_FRAME_LEN` bytes takes up all that is allocated for
   each buffer. The other frames have a size the host has put into `hstc` itself: none
   for a pre-read and while polling, and the length of the payload for a write.

   `Acts Q fault x` says both: the events that `x` adds to the log are in `Q`, and where
   there is no `fault` it is total, whatever is in the buffers and whatever the device
   answers. The faults are outside the buffers: there may be more data than an `int`
   counts, or no key type in the certificate, both of which come with the firmware file. -/
namespace Qm35.Qmrom

open ByteMem Trace

/-- What the protocol asks for: transfers, and waits for the ready line. It may also complain. -/
def Event.Protocol : Event → Prop
  | .xfer _ _ => True
  | .readyLine _ => True
  | .wrongResp _ _ => True
  | _ => False

/-- The lines of the device that a reboot drives. -/
def Event.Line : Event → Prop
  | .csLevel _ _ => True
  | .reset => True
  | _ => False

/-- Anything but memory. -/
def Event.Outside : Event → Prop
  | .alloc _ => False
  | .free _ => False
  | _ => True

theorem Event.Plain.protocol {e : Event} (h : e.Plain) : e.Protocol := by
  cases e with
  | xfer tx rc => exact trivial
  | readyLine rc => exact trivial
  | _ => exact h.elim

theorem Event.Protocol.outside {e : Event} (h : e.Protocol) : e.Outside := by
  cases e with
  | alloc ok => exact h
  | free ptr => exact h
  | _ => exact trivial

theorem Event.Protocol.notLine {e : Event} (h : e.Protocol) : ¬e.Line := by
  cases e with
  | csLevel level rc => exact h.elim
  | reset => exact h.elim
  | _ => exact id

theorem Event.Line.outside {e : Event} (h : e.Line) : e.Outside := by
  cases e with
  | alloc ok => exact h
  | free ptr => exact h
  | _ => exact trivial

def logView (Q : Event → Prop) : View Machine Event Unit := ⟨Machine.log, fun _ => (), fun _ _ => (), Q⟩

/-- The program adds only events in `Q`, and does not fail unless there is a `fault`. -/
abbrev Acts {α : Type} (Q : Event → Prop) (fault : Prop) (x : Rom α) : Prop :=
  Performs (logView Q) (fun _ => True) (fun _ => True) fault x

section Acts
variable {α : Type} {x : Rom α} {Q Q' : Event → Prop} {fault : Prop}

theorem Acts.safe (h : Acts Q fault x) (hok : ¬fault) : Safe x := h.returns hok

theorem Acts.more (h : Acts Q fault x) (hQ : ∀ e, Q e → Q' e) : Acts Q' fault x := h.quieter hQ

/-- Polling and reading is part of it. -/
theorem Plain.acts (h : Plain x) : Acts Event.Protocol fault x := by
  constructor
  · intro m a m' _ hx
    obtain ⟨os, hos, hq, -, -⟩ := h.tracks m a m' trivial hx
    refine ⟨os.map Heard.event, ?_, ?_, rfl, trivial⟩
    · show m'.log = m.log ++ os.map Heard.event
      rw [← heard_events m', ← heard_events m, show m'.heard = m.heard ++ os from hos, List.map_append]
    · intro e he
      obtain ⟨o, ho, rfl⟩ := List.mem_map.mp he
      exact (hq o ho).protocol
  · exact fun _ => h.safe

/-- A step that asks one thing. -/
theorem acts_event (h : ∀ m, ∃ a m' e, x m = some (a, m') ∧ m'.log = m.log ++ [e] ∧ Q e) : Acts Q fault x := by
  constructor
  · intro m a m' _ hx
    obtain ⟨b, m1, e, hb, hlog, he⟩ := h m
    obtain ⟨-, rfl⟩ := run_unique hx hb
    refine ⟨[e], hlog, fun o ho => ?_, rfl, trivial⟩
    rw [List.mem_singleton.mp ho]
    exact he
  · intro _ m _
    obtain ⟨a, m', _, hx, -⟩ := h m
    exact ⟨a, m', hx, trivial⟩

theorem acts_wrongResp (got expected : UInt8) (rc : Int) : Acts Event.Protocol fault (wrongResp got expected rc) :=
  acts_event fun m => ⟨_, _, _, wrongResp_some got expected rc m, rfl, trivial⟩

/-- The lines are driven, and nothing else is done. -/
theorem acts_reboot : Acts Event.Line fault qmromRebootBootloader := by
  have hlevel : ∀ level, Acts Event.Line fault (qmromSpiSetCsLevel level) := fun level =>
    acts_event fun _ => ⟨_, _, _, rfl, rfl, trivial⟩
  have hreset : Acts Event.Line fault (emit .reset) := acts_event fun _ => ⟨_, _, _, rfl, rfl, trivial⟩
  exact (hlevel 0).okThen (hreset.bind fun _ => (hlevel 1).okThen (Performs.pure' 0))

/-- A write frame that fits. -/
theorem acts_writeFrame {payload : List UInt8} (h : sizeofStc + payload.length ≤ stcBufSize) :
    Acts Event.Protocol fault (writeFrame payload) := by
  refine acts_event fun m => ?_
  have hheader := hstcStore_fits (show 0 + ([hostWrite, 1] ++ bytes16 payload.length).length ≤ stcBufSize by
    simp [stcBufSize]) m
  have hlen : payload.length < 65536 := by
    simp only [sizeofStc, stcBufSize, maxStcFrameLen] at h
    omega
  have hsize : sizeofStc + ((m.hstc.write 0 ([hostWrite, 1] ++ bytes16 payload.length)).write sizeofStc payload).le16 2 ≤
      stcBufSize := by rwa [(frame_bytes m.hstc hostWrite payload hlen).1]
  obtain ⟨rc, m', hxfer⟩ := qmromSpiTransfer_fits hsize
    { m with hstc := (m.hstc.write 0 ([hostWrite, 1] ++ bytes16 payload.length)).write sizeofStc payload }
  have hx : writeFrame payload m = some (rc, m') :=
    bind_some.mpr ⟨_, _, hheader, bind_some.mpr ⟨_, _, hstcStore_fits h _, bind_some.mpr ⟨_, _, rfl, hxfer⟩⟩⟩
  exact ⟨rc, m', _, hx, (writeFrame_some hx).1, trivial⟩

theorem acts_writeCmd (cmd : UInt8) : Acts Event.Protocol fault (qmromWriteCmd cmd) :=
  acts_writeFrame (show sizeofStc + 1 ≤ stcBufSize by decide)

theorem acts_writeCmd32 (cmd : Nat) : Acts Event.Protocol fault (qmromWriteCmd32 cmd) :=
  acts_writeFrame (show sizeofStc + 4 ≤ stcBufSize by decide)

theorem acts_afterReadyLine {x : Rom Int} (hx : Acts Event.Protocol fault x) : Acts Event.Protocol fault (afterReadyLine x) :=
  apart_readyLine.plain.acts.bind fun _ => hx

theorem acts_writeCmd32C0 (cmd : Nat) : Acts Event.Protocol fault (qmromWriteCmd32C0 cmd) :=
  acts_afterReadyLine (acts_writeCmd32 cmd)

/-! Data in chunks. -/

theorem chunkAt_length_le (data : List UInt8) (sent chunkSize : Nat) :
    (chunkAt data sent chunkSize).length ≤ chunkSize := by
  unfold chunkAt txBytes
  rw [List.length_take]
  omega

/-- A loop that makes progress ends, where each of its passes does. -/
theorem acts_chunkLoop {size chunkSize : Nat} {pass : Nat → Rom Int → Rom Int} (hsize : 2147483647 < size → fault)
    (hchunk : 0 < chunkSize) (hpass : ∀ sent next, Acts Q fault next → Acts Q fault (pass sent next)) {fuel sent : Nat}
    (hfuel : size - sent < fuel) : Acts Q fault (chunkLoop size chunkSize pass fuel sent) := by
  by_cases hle : size ≤ 2147483647
  · induction fuel generalizing sent with
    | zero => exact absurd hfuel (Nat.not_lt_zero _)
    | succ fuel ih =>
      refine Performs.ite' (fun hmore => hpass _ _ (ih ?_)) fun _ => Performs.pure' 0
      -- the pass has sent at least one byte
      simp only [moreToSend, Bool.and_eq_true, decide_eq_true_eq] at hmore
      unfold txBytes u32
      omega
  · have hfault : fault := hsize (Nat.lt_of_not_le hle)
    exact chunkLoop_induct (P := fun _ x => Acts Q fault x) (fun _ => Performs.ofOption fun _ => hfault)
      (fun _ _ => Performs.pure' 0) (fun sent next _ => hpass sent next) fuel sent

section Data
variable (h : Handle)

theorem acts_a0WriteChunks {data : List UInt8} (hdata : 2147483647 < data.length → fault) :
    Acts Event.Protocol fault (qmromA0WriteChunks h data) := by
  refine acts_chunkLoop hdata (by decide) (fun sent next hnext => ?_) (Nat.lt_succ_self _)
  have hlen := chunkAt_length_le data sent chunkSizeA0
  have hfit : sizeofStc + (chunkAt data sent chunkSizeA0).length ≤ stcBufSize := by
    simp only [chunkSizeA0, sizeofStc, stcBufSize, maxStcFrameLen] at hlen ⊢
    omega
  refine (plain_a0Response h).acts.bind fun resp => Performs.ite' (fun _ => acts_wrongResp _ _ _) fun _ => ?_
  exact (acts_writeFrame hfit).okThen hnext

theorem acts_b0FlashData {fw : Section} (hdata : 2147483647 < fw.data.length → fault) (cmd exp : UInt8) :
    Acts Event.Protocol fault (qmromB0FlashData h fw cmd exp) := by
  refine acts_chunkLoop hdata (by decide) (fun sent next hnext => ?_) (Nat.lt_succ_self _)
  have hlen := chunkAt_length_le fw.data sent chunkSizeB0
  have hfit : sizeofStc + ([cmd] ++ chunkAt fw.data sent chunkSizeB0).length ≤ stcBufSize := by
    simp only [chunkSizeB0, sizeofStc, stcBufSize, maxStcFrameLen, List.length_append, List.length_singleton] at hlen ⊢
    omega
  refine (plain_b0PollSoc h).acts.bind fun _ => plain_preRead.acts.bind fun _ => plain_read.acts.bind fun _ => ?_
  refine apart_payload0.plain.acts.bind fun resp => Performs.ite' (fun _ => acts_wrongResp _ _ _) fun _ => ?_
  exact (acts_writeFrame hfit).okThen hnext

theorem acts_c0FlashData {fw : Section} (hdata : 2147483647 < fw.data.length → fault) (cmd resp : UInt8)
    (skipLastCheck : Bool) : Acts Event.Protocol fault (qmromC0FlashData h fw cmd resp skipLastCheck) := by
  refine acts_chunkLoop hdata (by decide) (fun sent next hnext => ?_) (Nat.lt_succ_self _)
  have hlen := chunkAt_length_le fw.data sent chunkSizeC0
  have hfit : sizeofStc + (bytes32 cmd.toNat ++ chunkAt fw.data sent chunkSizeC0).length ≤ stcBufSize := by
    simp only [chunkSizeC0, sizeofStc, stcBufSize, maxStcFrameLen, List.length_append, bytes32_length] at hlen ⊢
    omega
  refine (acts_afterReadyLine (acts_writeFrame hfit)).okThen (Performs.ite' (fun _ => Performs.pure' 0) fun _ => ?_)
  refine (plain_c0PollSoc h).acts.bind fun _ => plain_preReadC0.acts.bind fun _ => plain_readC0.acts.bind fun _ => ?_
  exact apart_payload0.plain.acts.bind fun got => Performs.ite' (fun _ => acts_wrongResp _ _ _) fun _ => hnext

/-! Flashing. -/

/-- The A0 is rebooted first. -/
theorem acts_a0FlashFw (fw : Firmware) : ∃ y : Rom Int,
    qmromA0FlashFw h fw = okThen qmromRebootBootloader y ∧ Acts Event.Protocol False y := by
  have hloop : ∀ resps, Acts Event.Protocol False (a0RespLoop h resps) := by
    intro resps
    induction resps with
    | nil => exact Performs.pure' 0
    | cons resp rest ih =>
      refine (plain_a0Response h).acts.bind fun got => Performs.ite' (fun _ => acts_wrongResp _ _ _) fun _ => ?_
      exact Performs.ite' (fun _ => (acts_writeCmd 0).okThen ih) fun _ => ih
  refine ⟨_, rfl, (plain_a0WaitReady h).acts.okThen ?_⟩
  refine plain_preRead.acts.bind fun _ => apart_bswapLen.plain.acts.bind fun _ => plain_read.acts.bind fun _ => ?_
  refine apart_payload0.plain.acts.bind fun resp => Performs.ite' (fun _ => acts_wrongResp _ _ _) fun _ => ?_
  refine (acts_writeCmd _).okThen ((hloop _).okThen ((acts_writeCmd32 _).okThen ?_))
  exact acts_a0WriteChunks h fun hlt => Nat.lt_irrefl _ (Nat.lt_of_lt_of_le hlt fw.fits)

/-- The sections that are flashed: no larger than an `int`, and with a key type. -/
structure Flashable (fws : UnstitchedFirmware) : Prop where
  fit : SectionsFit fws
  keyType : hbkLoc < fws.key1Crt.data.length

variable {fws : UnstitchedFirmware}

theorem unfit_section {s : Section} (hs : s ∈ [fws.key1Crt, fws.key2Crt, fws.fwCrt, fws.fwImg])
    (hlt : 2147483647 < s.data.length) : ¬Flashable fws :=
  fun hok => Nat.lt_irrefl _ (Nat.lt_of_lt_of_le hlt (hok.fit s hs))

theorem acts_keyTypeCheck : Acts Event.Protocol (¬Flashable fws) (keyTypeCheck h fws.key1Crt) := by
  refine Performs.bind (Performs.ofOption fun hnone hok => ?_) fun hbk => ?_
  · exact absurd hok.keyType (Nat.not_lt.mpr (List.getElem?_eq_none_iff.mp hnone))
  · exact Performs.ite' (fun _ => Performs.pure' _) fun _ => Performs.ite' (fun _ => Performs.pure' _) fun _ =>
      Performs.pure' _

theorem acts_b0FlashSections : Acts Event.Protocol (¬Flashable fws) (b0FlashSections h fws) := by
  apply (acts_keyTypeCheck h).okThen
  apply (plain_b0WaitReady h).acts.okThen
  apply (acts_writeCmd _).okThen
  apply (acts_b0FlashData h (unfit_section (by simp)) _ _).okThen
  apply (acts_b0FlashData h (unfit_section (by simp)) _ _).okThen
  apply (acts_b0FlashData h (unfit_section (by simp)) _ _).okThen
  exact acts_b0FlashData h (unfit_section (by simp)) _ _

theorem acts_c0LoadResponse : Acts Event.Protocol (¬Flashable fws) (c0LoadResponse h fws) := by
  apply (acts_keyTypeCheck h).okElse
  apply (plain_c0WaitReady h).acts.okElse
  apply (acts_writeCmd32C0 _).okElse
  refine (plain_c0PollSoc h).acts.bind fun _ => plain_preReadC0.acts.bind fun _ => plain_readC0.acts.bind fun _ => ?_
  refine (plain_c0PollSoc h).acts.bind fun _ => (acts_writeCmd32C0 _).okElse ?_
  exact (plain_c0PollCmdResp h).acts.bind fun _ => apart_payload0.plain.acts.bind fun resp => Performs.pure' _

theorem acts_c0FlashSections (resp : UInt8) : Acts Event.Protocol (¬Flashable fws) (c0FlashSections h fws resp) := by
  refine Performs.ite' (fun _ => acts_wrongResp _ _ _) fun _ => (plain_c0PollSoc h).acts.bind fun _ => ?_
  apply (acts_c0FlashData h (unfit_section (by simp)) _ _ _).okThen
  apply (acts_c0FlashData h (unfit_section (by simp)) _ _ _).okThen
  apply (acts_c0FlashData h (unfit_section (by simp)) _ _ _).okThen
  exact acts_c0FlashData h (unfit_section (by simp)) _ _ _

end Data

end Acts

end Qm35.Qmrom
