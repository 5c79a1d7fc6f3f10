import Qm35.Rom.Common

/- What a run hears: everything that was asked of the outside, with the answer. Of the
   buffers, this accounts for the first payload byte of `sstc`, which the protocol reads
   its responses from: a transfer replaces it where it is long enough and nothing else
   changes it (`Heard.payload0`). The functions that poll and read do no more than that,
   send no write frame, and stay inside the buffers (`Plain`). Only the host's flags, the
   first byte of `hstc`, tell a write frame from the others, and the size of a polling
   transfer is the length in the header of `hstc`; so what is needed of these functions
   is that the flags are not those of a write and the length is 0 when they transfer. -/
namespace Qm35.Qmrom

open ByteMem Trace

structure Heard where
  event : Event
  answer : Answer

def Machine.heard (m : Machine) : List Heard := m.log.mapIdx fun i e => ⟨e, m.dev i⟩

/-- A write frame, whatever came of it. -/
def Event.isWrite : Event → Bool
  | .xfer tx _ => tx.head? == some hostWrite
  | _ => false

/-- Neither a write frame nor a complaint. -/
def Event.Quiet : Event → Prop
  | .xfer tx _ => tx.head? ≠ some hostWrite
  | .wrongResp _ _ => False
  | _ => True

/-- What is asked while polling and reading. -/
def Event.Plain : Event → Prop
  | .xfer tx _ => tx.head? ≠ some hostWrite
  | .readyLine _ => True
  | _ => False

theorem Event.Plain.quiet {e : Event} (h : e.Plain) : e.Quiet := by
  cases e with
  | xfer tx rc => exact h
  | readyLine rc => exact trivial
  | _ => exact h.elim

theorem Event.Quiet.isWrite {e : Event} (h : e.Quiet) : e.isWrite = false := by
  cases e with
  | xfer tx rc =>
    have hne : tx.head? ≠ some hostWrite := h
    simpa [Event.isWrite] using hne
  | _ => rfl

/-- `sstc->payload[0]` after the answer, where it was `b` before. -/
def Heard.payload0 (b : UInt8) (x : Heard) : UInt8 :=
  match x.event with
  | .xfer tx _ => if sizeofStc < tx.length then x.answer.bytes sizeofStc else b
  | _ => b

def romView : View Machine Heard UInt8 := ⟨Machine.heard, fun m => m.sstc sizeofStc, Heard.payload0, fun x => x.event.Quiet⟩

def plainView : View Machine Heard UInt8 := { romView with quiet := fun x => x.event.Plain }

/-! What is in `hstc`. -/

def HstcIs (I : Mem → Prop) (m : Machine) : Prop := I m.hstc

/-- The flags are not those of a write. -/
def NoWrite (hstc : Mem) : Prop := hstc 0 ≠ hostWrite

/-- The header of a transfer without a payload. -/
structure Bare (hstc : Mem) : Prop where
  noWrite : NoWrite hstc
  len : hstc.le16 2 = 0

/-- The program does not fail. -/
abbrev Safe {α : Type} (x : Rom α) : Prop := Returns (fun _ => True) x fun _ _ => True

theorem Safe.some {α : Type} {x : Rom α} (h : Safe x) (m : Machine) : ∃ a m', x m = some (a, m') := by
  obtain ⟨a, m', hx, -⟩ := h m trivial
  exact ⟨a, m', hx⟩

section Steps
variable {α : Type} {x : Rom α}

/-- A program that only listens. -/
abbrev Listens (x : Rom α) : Prop := Tracks romView (fun _ => True) (fun _ => True) x

/-- A program that only polls and reads, and does not fail. -/
abbrev Plain (x : Rom α) : Prop := Performs plainView (fun _ => True) (fun _ => True) False x

/-- The same with a header without a payload in `hstc` all the time. -/
abbrev Polls (x : Rom α) : Prop := Performs plainView (HstcIs Bare) (HstcIs Bare) False x

theorem Plain.listens (h : Plain x) : Listens x := h.tracks.quieter fun _ => Event.Plain.quiet

theorem Plain.safe (h : Plain x) : Safe x := h.returns not_false

theorem heard_log {m m' : Machine} {e : Event} (hlog : m'.log = m.log ++ [e]) (hdev : m'.dev = m.dev) :
    m'.heard = m.heard ++ [⟨e, m.dev m.log.length⟩] := by
  unfold Machine.heard
  rw [hlog, hdev, List.mapIdx_append]
  simp

theorem heard_events (m : Machine) : m.heard.map Heard.event = m.log := by
  apply List.ext_getElem?
  intro i
  rw [List.getElem?_map, Machine.heard, List.getElem?_mapIdx, Option.map_map]
  exact Option.map_id'

/-- A program that only listens adds nothing to a part of the log that has no quiet events. -/
theorem Listens.silent_part {ο : Type} {part : Event → Option ο} (hpart : ∀ e, e.Quiet → part e = none)
    (h : Listens x) : Silent (fun m => m.log.filterMap part) x := by
  intro m a m' _ hx
  obtain ⟨os, hos, hq, -, -⟩ := h m a m' trivial hx
  have hheard : m'.heard = m.heard ++ os := hos
  have hnone : (os.map Heard.event).filterMap part = [] := by
    apply List.filterMap_eq_nil_iff.mpr
    intro e he
    obtain ⟨o, ho, rfl⟩ := List.mem_map.mp he
    exact hpart _ (hq o ho)
  refine ⟨[], ?_, rfl⟩
  simp only
  rw [← heard_events m', ← heard_events m, hheard, List.map_append, List.filterMap_append, hnone]

/-- A step that asks nothing and leaves the response alone. -/
theorem performs_same {I J : Machine → Prop} {quiet : Heard → Prop} (h : ∀ m, I m → ∃ a m', x m = some (a, m') ∧
      m'.log = m.log ∧ m'.dev = m.dev ∧ m'.sstc sizeofStc = m.sstc sizeofStc ∧ J m') :
    Performs { romView with quiet := quiet } I J False x := by
  constructor
  · intro m a m' hm hx
    obtain ⟨b, m1, hb, hlog, hdev, hpay, hJ⟩ := h m hm
    obtain ⟨-, rfl⟩ := run_unique hx hb
    have hheard : m'.heard = m.heard := by rw [Machine.heard, Machine.heard, hlog, hdev]
    exact ⟨[], hheard.trans (List.append_nil _).symm, by simp, hpay, hJ⟩
  · intro _ m hm
    obtain ⟨a, m', hx, -⟩ := h m hm
    exact ⟨a, m', hx, trivial⟩

/-- A step that asks one thing. -/
theorem performs_event {I J : Machine → Prop} {Q : Event → Prop} (h : ∀ m, I m → ∃ a m' e, x m = some (a, m') ∧
      m'.log = m.log ++ [e] ∧ m'.dev = m.dev ∧ Q e ∧
      m'.sstc sizeofStc = Heard.payload0 (m.sstc sizeofStc) ⟨e, m.dev m.log.length⟩ ∧ J m') :
    Performs { romView with quiet := fun x => Q x.event } I J False x := by
  constructor
  · intro m a m' hm hx
    obtain ⟨b, m1, e, hb, hlog, hdev, hq, hpay, hJ⟩ := h m hm
    obtain ⟨-, rfl⟩ := run_unique hx hb
    refine ⟨_, heard_log hlog hdev, ?_, hpay, hJ⟩
    intro o ho
    rw [List.mem_singleton.mp ho]
    exact hq
  · intro _ m hm
    obtain ⟨a, m', _, hx, -⟩ := h m hm
    exact ⟨a, m', hx, trivial⟩

theorem listens_event (h : ∀ m, ∃ a m' e, x m = some (a, m') ∧ m'.log = m.log ++ [e] ∧ m'.dev = m.dev ∧ e.Quiet ∧
    m'.sstc sizeofStc = Heard.payload0 (m.sstc sizeofStc) ⟨e, m.dev m.log.length⟩) : Listens x := by
  refine Performs.tracks (performs_event (Q := Event.Quiet) fun m _ => ?_)
  obtain ⟨a, m', e, hx, hlog, hdev, hq, hpay⟩ := h m
  exact ⟨a, m', e, hx, hlog, hdev, hq, hpay, trivial⟩

theorem listens_ask {event : Answer → Event} (hq : ∀ a, (event a).Quiet)
    (hpay : ∀ a b, Heard.payload0 b ⟨event a, a⟩ = b) : Listens (ask event) :=
  listens_event fun _ => ⟨_, _, _, rfl, rfl, rfl, hq _, (hpay _ _).symm⟩

theorem listens_emit {event : Event} (hq : event.Quiet) (hpay : ∀ a b, Heard.payload0 b ⟨event, a⟩ = b) :
    Listens (emit event) :=
  listens_event fun _ => ⟨_, _, _, rfl, rfl, rfl, hq, (hpay _ _).symm⟩

theorem listens_alloc : Listens qmromAlloc := listens_event fun _ => ⟨_, _, _, rfl, rfl, rfl, trivial, rfl⟩

theorem listens_free (ptr : Nat) : Listens (qmromFree ptr) := listens_emit trivial fun _ _ => rfl

theorem listens_csLevel (level : Nat) : Listens (qmromSpiSetCsLevel level) :=
  Tracks.bind (listens_ask (fun _ => trivial) fun _ _ => rfl) fun _ => Tracks.pure' _

theorem listens_reboot : Listens qmromRebootBootloader := by
  unfold qmromRebootBootloader okThen
  refine (listens_csLevel 0).bind fun rc => Tracks.ite' (Tracks.pure' _) ?_
  have hreset : Listens (emit .reset) := listens_emit trivial fun _ _ => rfl
  refine hreset.bind fun _ => (listens_csLevel 1).bind fun rc => ?_
  exact Tracks.ite' (Tracks.pure' _) (Tracks.pure' _)

/-! Steps that do not touch `hstc`. -/

/-- Whatever is in `hstc` stays there. -/
def Apart (x : Rom α) : Prop := ∀ I, Performs plainView (HstcIs I) (HstcIs I) False x

theorem Apart.plain (h : Apart x) : Plain x := (h fun _ => True).mono (fun _ _ => trivial) fun _ _ => trivial

theorem Apart.listens (h : Apart x) : Listens x := h.plain.listens

/-- A step that looks at the machine and changes nothing in it. -/
theorem apart_look (f : Machine → α) (h : ∀ m, x m = some (f m, m)) : Apart x :=
  fun _ => performs_same fun m hm => ⟨f m, m, h m, rfl, rfl, rfl, hm⟩

theorem apart_rawFlags : Apart rawFlags := apart_look _ fun _ => rfl

theorem apart_sstcLen : Apart sstcLen := apart_look _ fun _ => rfl

theorem apart_payload0 : Apart payload0 := apart_look _ fun _ => rfl

/-- A step that stores into the header of `sstc`. -/
theorem apart_header {off : Nat} {bs : Machine → List UInt8} (hin : ∀ m, off + (bs m).length ≤ sizeofStc) :
    Apart (fun m => some ((), { m with sstc := m.sstc.write off (bs m) }) : Rom Unit) :=
  fun _ => performs_same fun m hm => ⟨_, _, rfl, rfl, rfl, Mem.write_out (.inr (hin m)), hm⟩

theorem apart_bswapLen : Apart bswapLen := apart_header fun _ => Nat.le_refl _

theorem apart_setRawFlags (flags : UInt8) : Apart (setRawFlags flags) := apart_header fun _ => by simp [sizeofStc]

theorem apart_readyLine : Apart qmromSpiWaitForReadyLine := by
  intro I
  have hask : Performs plainView (HstcIs I) (HstcIs I) False (ask fun a => .readyLine a.rc) :=
    performs_event (Q := Event.Plain) fun _ hm => ⟨_, _, _, rfl, rfl, rfl, trivial, rfl, hm⟩
  exact hask.bind fun _ => Performs.pure' _

end Steps

/-! Stores into `hstc`, and transfers. -/

section Frames
variable {α : Type} {I J : Mem → Prop}

theorem hstcStore_fits {off : Nat} {bs : List UInt8} (h : off + bs.length ≤ stcBufSize) (m : Machine) :
    hstcStore off bs m = some ((), { m with hstc := m.hstc.write off bs }) := if_neg (Nat.not_lt.mpr h)

theorem hstcStore_some {off : Nat} {bs : List UInt8} {m m' : Machine} {u : Unit}
    (h : hstcStore off bs m = some (u, m')) :
    off + bs.length ≤ stcBufSize ∧ m' = { m with hstc := m.hstc.write off bs } := by
  unfold hstcStore at h
  split at h
  · cases h
  · next hle =>
    cases h
    exact ⟨by omega, rfl⟩

/-- A store that fits, and what `hstc` is then. -/
theorem performs_hstcStore {off : Nat} {bs : List UInt8} (hfit : off + bs.length ≤ stcBufSize)
    (hJ : ∀ hstc, I hstc → J (hstc.write off bs)) :
    Performs plainView (HstcIs I) (HstcIs J) False (hstcStore off bs) :=
  performs_same fun m hm => ⟨_, _, hstcStore_fits hfit m, rfl, rfl, rfl, hJ _ hm⟩

/-- A store over the flags decides whether this is a write. -/
theorem performs_flags {flags : UInt8} {bs : List UInt8} (hfit : (flags :: bs).length ≤ stcBufSize)
    (h : flags ≠ hostWrite) : Performs plainView (HstcIs I) (HstcIs NoWrite) False (hstcStore 0 (flags :: bs)) :=
  performs_hstcStore (by rwa [Nat.zero_add]) fun _ _ => h

theorem performs_hstcClear : Performs plainView (fun _ => True) (HstcIs Bare) False hstcClear :=
  have hclear := performs_hstcStore (I := fun _ => True) (by decide) fun _ _ => ⟨show (0 : UInt8) ≠ hostWrite by decide, rfl⟩
  hclear.mono (fun _ _ => trivial) fun _ => id

theorem qmromSpiTransfer_some {size : Nat} {m m' : Machine} {rc : Int} (h : qmromSpiTransfer size m = some (rc, m')) :
    m'.log = m.log ++ [.xfer (m.hstc.read 0 size) rc] ∧ m'.hstc = m.hstc ∧ m'.dev = m.dev ∧
      m'.sstc sizeofStc =
        Heard.payload0 (m.sstc sizeofStc) ⟨.xfer (m.hstc.read 0 size) rc, m.dev m.log.length⟩ := by
  unfold qmromSpiTransfer at h
  split at h
  · cases h
  · cases h
    refine ⟨rfl, rfl, rfl, ?_⟩
    simp only [Heard.payload0, Mem.read_length]

theorem qmromSpiTransfer_fits {size : Nat} (h : size ≤ stcBufSize) (m : Machine) :
    ∃ rc m', qmromSpiTransfer size m = some (rc, m') := ⟨_, _, if_neg (Nat.not_lt.mpr h)⟩

/-- A transfer of another frame than a write. -/
theorem performs_transfer {size : Nat} (hI : ∀ hstc, I hstc → NoWrite hstc) (hpos : 0 < size) (hfit : size ≤ stcBufSize) :
    Performs plainView (HstcIs I) (HstcIs I) False (qmromSpiTransfer size) := by
  refine performs_event (Q := Event.Plain) fun m hm => ?_
  obtain ⟨rc, m', hx⟩ := qmromSpiTransfer_fits hfit m
  obtain ⟨hlog, hhstc, hdev, hpay⟩ := qmromSpiTransfer_some hx
  refine ⟨rc, m', _, hx, hlog, hdev, ?_, hpay, ?_⟩
  · intro hw
    rw [Mem.head_read _ _ hpos] at hw
    exact hI _ hm (Option.some.inj hw)
  · unfold HstcIs
    rw [hhstc]
    exact hm

/-- The length that is read from a header without a payload. -/
theorem polls_hstcLen {f : Nat → Rom α} (h : Polls (f 0)) : Polls (hstcLen >>= f) := by
  refine h.congr fun m hm => ?_
  show f (m.hstc.le16 2) m = f 0 m
  rw [hm.len]

theorem polls_header : Polls (qmromSpiTransfer (sizeofStc + 0)) :=
  performs_transfer (fun _ hbare => hbare.noWrite) (by decide) (by decide)

/-! The frames. -/

theorem plain_preRead : Plain qmromPreRead := by
  have hheader : Performs plainView (HstcIs fun _ => True) (HstcIs Bare) False (hstcHeader hostPreRead 0) :=
    performs_hstcStore (by decide) fun _ _ => ⟨show hostPreRead ≠ hostWrite by decide, rfl⟩
  have hpayload : Polls (hstcStore sizeofStc [0]) :=
    performs_hstcStore (by decide) fun _ hbare => ⟨hbare.noWrite, hbare.len⟩
  refine Performs.mono (hheader.bind fun _ => hpayload.bind fun _ => polls_hstcLen polls_header) ?_ fun _ _ => trivial
  exact fun _ _ => trivial

theorem plain_read : Plain qmromRead := by
  refine apart_sstcLen.plain.bind fun rdSize => Performs.ite' (fun _ => Performs.pure' _) fun hmax => ?_
  have hfit : sizeofStc + rdSize ≤ stcBufSize := by
    simp only [sizeofStc, stcBufSize]
    omega
  have hzero : Performs plainView (HstcIs fun _ => True) (HstcIs fun _ => True) False
      (hstcStore 0 (List.replicate (sizeofStc + rdSize) 0)) :=
    performs_hstcStore (by rwa [Nat.zero_add, List.length_replicate]) fun _ _ => trivial
  have hheader : Performs plainView (HstcIs fun _ => True) (HstcIs NoWrite) False (hstcHeader hostRead rdSize) :=
    performs_flags (by simp [stcBufSize]) (by decide)
  have hxfer : Performs plainView (HstcIs NoWrite) (HstcIs NoWrite) False (qmromSpiTransfer (sizeofStc + rdSize)) :=
    performs_transfer (fun _ => id) (Nat.add_pos_left (by decide) rdSize) hfit
  exact Performs.mono (hzero.bind fun _ => hheader.bind fun _ => hxfer) (fun _ _ => trivial) fun _ _ => trivial

/-- What `hstc` holds after the header and the payload are stored. -/
theorem frame_bytes (m : Mem) (flags : UInt8) (payload : List UInt8) {n : Nat} (h : n < 65536) :
    let m' := (m.write 0 ([flags, 1] ++ bytes16 n)).write sizeofStc payload
    m'.le16 2 = n ∧ m'.read 0 (sizeofStc + payload.length) = ([flags, 1] ++ bytes16 n) ++ payload := by
  intro m'
  have hhdr : ([flags, 1] ++ bytes16 n).length = sizeofStc := rfl
  have hlow : Mem.Agree (m.write 0 ([flags, 1] ++ bytes16 n)) m' 0 4 := Mem.Agree.write (.inl (le_refl _))
  constructor
  · rw [← Mem.le16_congr (hlow.mono (by omega) (by omega)), Mem.write_append]
    exact Mem.le16_write h
  · have hfront : m'.read 0 sizeofStc = [flags, 1] ++ bytes16 n := by
      rw [← Mem.read_congr hlow]
      exact Mem.read_write m 0 ([flags, 1] ++ bytes16 n)
    rw [Mem.read_append, Nat.zero_add, hfront, Mem.read_write]

/-- The bytes of a write frame. -/
def frameBytes (payload : List UInt8) : List UInt8 := ([hostWrite, 1] ++ bytes16 payload.length) ++ payload

/-- A write frame is one transfer, of the header and the payload. -/
theorem writeFrame_some {payload : List UInt8} {m m' : Machine} {rc : Int} (hx : writeFrame payload m = some (rc, m')) :
    m'.log = m.log ++ [.xfer (frameBytes payload) rc] ∧ m'.dev = m.dev ∧
      m'.sstc sizeofStc =
        Heard.payload0 (m.sstc sizeofStc) ⟨.xfer (frameBytes payload) rc, m.dev m.log.length⟩ := by
  obtain ⟨_, m1, h1, hx⟩ := bind_some.mp hx
  obtain ⟨_, m2, h2, hx⟩ := bind_some.mp hx
  obtain ⟨len, m3, h3, hx⟩ := bind_some.mp hx
  obtain ⟨-, rfl⟩ := hstcStore_some h1
  obtain ⟨hfit, rfl⟩ := hstcStore_some h2
  cases h3
  have hlen : payload.length < 65536 := by
    have : stcBufSize = 2052 := rfl
    omega
  obtain ⟨hle, hread⟩ := frame_bytes m.hstc hostWrite payload hlen
  obtain ⟨hlog, -, hdev, hpay⟩ := qmromSpiTransfer_some hx
  dsimp only at hlog hdev hpay hle hread
  rw [hle, hread] at hlog hpay
  exact ⟨hlog, hdev, hpay⟩

end Frames

/-! Polling. -/

/-- The rule for polling: what each transfer keeps, and reading the flags does. -/
theorem tracks_pollLoop {β : Type} {V : View Machine Heard β} {I : Machine → Prop} {xfer : Rom Unit}
    (hflags : Tracks V I I rawFlags) (h : Tracks V I I xfer) (retries : Nat) : Tracks V I I (pollLoop xfer retries) := by
  induction retries with
  | zero => exact h
  | succ retries ih => exact h.bind fun _ => hflags.bind fun _ => Tracks.ite' ih (Tracks.pure' _)

theorem polls_pollLoop {xfer : Rom Unit} (h : Polls xfer) (retries : Nat) : Polls (pollLoop xfer retries) := by
  induction retries with
  | zero => exact h
  | succ retries ih =>
    exact h.bind fun _ => (apart_rawFlags _).bind fun _ => Performs.ite' (fun _ => ih) fun _ => Performs.pure' _

/-- Polling, from the header that is cleared first. -/
theorem plain_poll {xfer : Rom Unit} (h : Polls xfer) (retries : Nat) :
    Plain (do hstcClear; pollLoop xfer retries) :=
  (performs_hstcClear.bind fun _ => polls_pollLoop h retries).forget

end Qm35.Qmrom
