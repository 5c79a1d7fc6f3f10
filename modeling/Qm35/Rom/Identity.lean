import Qm35.Rom.Probe

/- Where the identity of a chip comes from. At the end of a probe `soc_id`, `lcs_state` and
   `uuid` are read from fixed places of `sstc`, whatever is there. They come from the
   device's answer where the last read, the one after the request for the SOC
   information, has succeeded, and where it has been announced as long enough and is. The
   polling loop of the B0 drops the result of that read, and neither revision compares the
   length, announced or read, with what it takes from the payload, unlike `SSTC2UINT16` for
   the chip version.

   After the request a probe only polls, announces one read and performs it, so there is
   no other read the identity could have come from (`InfoRead`). -/
namespace Qm35.Qmrom

open ByteMem Trace

/-! The two probes. -/

inductive SocProbe where
  | b0
  | c0
deriving DecidableEq

def SocProbe.run : SocProbe → ProbeHandle → Rom (Int × ProbeHandle)
  | .b0 => qmromB0ProbeDevice
  | .c0 => qmromC0ProbeDevice

/-- The payload of the request for the SOC information. -/
def SocProbe.getSocInfo : SocProbe → List UInt8
  | .b0 => [romCmdB0GetSocInfo]
  | .c0 => bytes32 romCmdC0GetSocInfo

/-- Where the identity begins in the payload. -/
def SocProbe.offset : SocProbe → Nat
  | .b0 => 1
  | .c0 => 4

/-- The bytes of the life cycle state. -/
def SocProbe.lcsLen : SocProbe → Nat
  | .b0 => 1
  | .c0 => 4

/-- The bytes of a payload that holds the identity. -/
def SocProbe.infoLen (p : SocProbe) : Nat := p.offset + romSocIdLen + p.lcsLen + romUuidLen

/-- The handle has the identity the frame holds. -/
structure IdentityIn (p : SocProbe) (frame : Mem) (h : ProbeHandle) : Prop where
  socId : h.socId = (frame.read (sizeofStc + p.offset) romSocIdLen).reverse
  lcsState : h.lcsState = leBytes (frame.read (sizeofStc + (p.offset + romSocIdLen)) p.lcsLen)
  uuid : h.uuid = (frame.read (sizeofStc + (p.offset + romSocIdLen + p.lcsLen)) romUuidLen).reverse

/-- The flags of a frame, if the event is one. -/
def Event.flags : Event → Option UInt8
  | .xfer tx _ => tx.head?
  | _ => none

/-- A request for the SOC information. -/
def SocProbe.Requests (p : SocProbe) (x : Heard) : Prop := ∃ rc, x.event = .xfer (frameBytes p.getSocInfo) rc

/-- A read without an error of a response that covers the identity, by its length and by that of
the transfer. -/
def SocProbe.Covers (p : SocProbe) (x : Heard) : Prop :=
  ∃ tx, x.event = .xfer tx 0 ∧ tx.head? = some hostRead ∧ sizeofStc + p.infoLen ≤ tx.length ∧
    p.infoLen ≤ x.answer.bytes.le16 2

/-- Where the probe succeeds, the identity is that of an answer read, without an error and long
enough, after the request for it. -/
def FromAnswer (p : SocProbe) (m : Machine) (r : Int × ProbeHandle) (m' : Machine) : Prop :=
  r.1 = 0 → ∃ before w mid x after, m'.heard = m.heard ++ (before ++ w :: (mid ++ x :: after)) ∧
    p.Requests w ∧ p.Covers x ∧ IdentityIn p x.answer.bytes r.2

/-- The announcement of a read. -/
def Heard.isPreRead (x : Heard) : Bool := x.event.flags == some hostPreRead

/-- The device answers the last call without an error and with a payload that holds the identity, and
it has announced one in its answer to the last pre-read. -/
def InfoAnswered (p : SocProbe) (m' : Machine) : Prop :=
  (∃ x ∈ m'.heard.getLast?, x.answer.rc = 0 ∧ p.infoLen ≤ x.answer.bytes.le16 2) ∧
    ∃ x ∈ (m'.heard.filter Heard.isPreRead).getLast?, p.infoLen ≤ x.answer.bytes.le16 2

/-! Polling, which neither reads nor announces a read. -/

/-- Not a read nor the announcement of one. -/
def Heard.Idle (x : Heard) : Prop := x.event.flags ≠ some hostRead ∧ x.event.flags ≠ some hostPreRead

def idleView : View Machine Heard Unit := ⟨Machine.heard, fun _ => (), fun _ _ => (), Heard.Idle⟩

/-- The flags in `hstc` are cleared. -/
def Cleared (m : Machine) : Prop := m.hstc 0 = 0

abbrev Idles {α : Type} (x : Rom α) : Prop := Tracks idleView Cleared Cleared x

section Polling
variable {α : Type} {x : Rom α}

/-- A step that asks nothing and leaves `hstc` alone. -/
theorem idles_same (h : ∀ m a m', x m = some (a, m') → m'.heard = m.heard ∧ m'.hstc = m.hstc) : Idles x := by
  intro m a m' hm hx
  obtain ⟨hheard, hhstc⟩ := h m a m' hx
  refine ⟨[], hheard.trans (List.append_nil _).symm, by simp, rfl, ?_⟩
  unfold Cleared
  rw [hhstc]
  exact hm

theorem idles_rawFlags : Idles rawFlags :=
  idles_same fun _ _ _ h => by cases h; exact ⟨rfl, rfl⟩

theorem idles_hstcLen : Idles hstcLen :=
  idles_same fun _ _ _ h => by cases h; exact ⟨rfl, rfl⟩

theorem idles_setRawFlags (flags : UInt8) : Idles (setRawFlags flags) :=
  idles_same fun _ _ _ h => by cases h; exact ⟨rfl, rfl⟩

/-- One event more, after which `J` holds. -/
theorem idles_event {I J : Machine → Prop} (h : ∀ m a m', I m → x m = some (a, m') →
    ∃ e, m'.log = m.log ++ [e] ∧ m'.dev = m.dev ∧ e.flags ≠ some hostRead ∧ e.flags ≠ some hostPreRead ∧ J m') :
    Tracks idleView I J x := by
  intro m a m' hm hx
  obtain ⟨e, hlog, hdev, hread, hpre, hJ⟩ := h m a m' hm hx
  refine ⟨_, heard_log hlog hdev, ?_, rfl, hJ⟩
  intro o ho
  rw [List.mem_singleton.mp ho]
  exact ⟨hread, hpre⟩

/-- The wait for the ready line, from wherever. -/
theorem idles_readyLine {I : Machine → Prop} (hI : ∀ m m' : Machine, m'.hstc = m.hstc → I m → I m') :
    Tracks idleView I I qmromSpiWaitForReadyLine := by
  refine idles_event fun m a m' hm hx => ?_
  cases hx
  exact ⟨_, rfl, rfl, by simp [Event.flags], by simp [Event.flags], hI m _ rfl hm⟩

theorem idles_transfer {size : Nat} (h : 0 < size) : Idles (qmromSpiTransfer size) := by
  refine idles_event fun m rc m' hm hx => ?_
  obtain ⟨hlog, hhstc, hdev, -⟩ := qmromSpiTransfer_some hx
  have hflags : (Event.xfer (m.hstc.read 0 size) rc).flags = some 0 := by
    rw [Event.flags, Mem.head_read _ _ h, show m.hstc 0 = 0 from hm]
  refine ⟨_, hlog, hdev, ?_, ?_, ?_⟩
  · rw [hflags]
    decide
  · rw [hflags]
    decide
  · unfold Cleared
    rw [hhstc]
    exact hm

theorem hstcClear_idles : Tracks idleView (fun _ => True) Cleared hstcClear := by
  intro m u m' _ hx
  obtain ⟨-, rfl⟩ := hstcStore_some hx
  exact ⟨[], (List.append_nil _).symm, by simp, rfl, rfl⟩

theorem idles_b0PollSoc (h : Handle) : Tracks idleView (fun _ => True) Cleared (qmromB0PollSoc h) := by
  refine hstcClear_idles.bind fun _ => tracks_pollLoop idles_rawFlags ?_ _
  refine idles_hstcLen.bind fun len => ?_
  exact (idles_transfer (Nat.add_pos_left (by decide) len)).bind fun _ => Tracks.pure' _

theorem idles_c0PollSoc (h : Handle) : Tracks idleView (fun _ => True) Cleared (qmromC0PollSoc h) := by
  refine hstcClear_idles.bind fun _ => (idles_setRawFlags 0).bind fun _ => tracks_pollLoop idles_rawFlags ?_ _
  refine (idles_readyLine fun m m' heq hm => ?_).bind fun rc => Tracks.ite' (Tracks.pure' _) ?_
  · unfold Cleared
    rw [heq]
    exact hm
  refine idles_hstcLen.bind fun len => ?_
  exact (idles_transfer (Nat.add_pos_left (by decide) len)).bind fun _ => Tracks.pure' _

end Polling

/-! The read. -/

/-- What is heard up to the read of an answer: polls, the pre-read that announces it, waits for
the ready line, and the read, whose bytes `sstc` holds then. -/
structure Reading (os polls : List Heard) (pre : Heard) (waits : List Heard) (x : Heard) (tx : List UInt8)
    (sstc : Mem) : Prop where
  heard : os = polls ++ pre :: (waits ++ [x])
  polls_idle : ∀ o ∈ polls, o.Idle
  pre_flags : pre.event.flags = some hostPreRead
  waits_idle : ∀ o ∈ waits, o.Idle
  event : x.event = .xfer tx x.answer.rc
  flags : tx.head? = some hostRead
  size : tx.length = sizeofStc + pre.answer.bytes.le16 2
  bytes : Mem.Agree sstc x.answer.bytes 0 tx.length

/-- What is heard ends with the read of an answer. -/
def InfoRead (os : List Heard) (sstc : Mem) : Prop := ∃ polls pre waits x tx, Reading os polls pre waits x tx sstc

/-- Where the program returns 0, it has polled and then read. -/
def Reads (x : Rom Int) : Prop :=
  Says Machine.heard (fun _ => True) x fun rc m' os => rc = 0 → InfoRead os m'.sstc

/-- A read of no more than a frame holds. -/
theorem qmromRead_reads {m m' : Machine} {rc : Int} (hx : qmromRead m = some (rc, m'))
    (hle : m.sstc.le16 2 ≤ maxStcFrameLen) : ∃ x tx, m'.heard = m.heard ++ [x] ∧ x.event = .xfer tx x.answer.rc ∧
      x.answer.rc = rc ∧ tx.head? = some hostRead ∧ tx.length = sizeofStc + m.sstc.le16 2 ∧
      Mem.Agree m'.sstc x.answer.bytes 0 tx.length := by
  obtain ⟨rdSize, m1, h1, hx⟩ := bind_some.mp hx
  cases h1
  rw [if_neg (Nat.not_lt.mpr hle)] at hx
  obtain ⟨_, m2, h2, hx⟩ := bind_some.mp hx
  obtain ⟨_, m3, h3, hx⟩ := bind_some.mp hx
  obtain ⟨-, rfl⟩ := hstcStore_some h2
  obtain ⟨-, rfl⟩ := hstcStore_some h3
  -- the transfer is as long as announced, and `sstc` has what it brought
  unfold qmromSpiTransfer at hx
  split at hx
  · cases hx
  · cases hx
    refine ⟨_, _, heard_log rfl rfl, rfl, rfl, ?_, Mem.read_length _ _ _, ?_⟩
    · rw [Mem.head_read _ _ (Nat.add_pos_left (by decide) _)]
      rfl
    · rw [Mem.read_length]
      intro i _ hi
      exact if_pos hi

theorem qmromPreRead_announces {m m' : Machine} {rc : Int} (hx : qmromPreRead m = some (rc, m')) :
    ∃ pre, m'.heard = m.heard ++ [pre] ∧ pre.event.flags = some hostPreRead ∧
      m'.sstc.le16 2 = pre.answer.bytes.le16 2 := by
  obtain ⟨_, m1, h1, hx⟩ := bind_some.mp hx
  obtain ⟨_, m2, h2, hx⟩ := bind_some.mp hx
  obtain ⟨len, m3, h3, hx⟩ := bind_some.mp hx
  obtain ⟨-, rfl⟩ := hstcStore_some h1
  obtain ⟨-, rfl⟩ := hstcStore_some h2
  cases h3
  unfold qmromSpiTransfer at hx
  split at hx
  · cases hx
  · cases hx
    refine ⟨_, heard_log rfl rfl, ?_, ?_⟩
    · rw [Event.flags, Mem.head_read _ _ (Nat.add_pos_left (by decide) _)]
      rfl
    · apply Mem.le16_congr
      intro i _ hi
      refine if_pos (Nat.lt_of_lt_of_le hi ?_)
      exact Nat.le_add_right 4 _

namespace Reads

variable {α : Type} {I J : Machine → Prop}

/-- Polling first changes nothing of that. -/
theorem idle {y : Rom α} {f : α → Rom Int} (hy : Tracks idleView (fun _ => True) J y) (hf : ∀ a, Reads (f a)) :
    Reads (y >>= f) := by
  intro m rc m' _ hx
  obtain ⟨a, m1, h1, h2⟩ := bind_some.mp hx
  obtain ⟨os, hos, hidle, -, -⟩ := hy m a m1 trivial h1
  obtain ⟨os', hos', hread⟩ := hf a m1 rc m' trivial h2
  have hheard : m1.heard = m.heard ++ os := hos
  refine ⟨os ++ os', ?_, fun h0 => ?_⟩
  · rw [hos', hheard, List.append_assoc]
  · obtain ⟨polls, pre, waits, x, tx, hr⟩ := hread h0
    refine ⟨os ++ polls, pre, waits, x, tx, ?_, ?_, hr.pre_flags, hr.waits_idle, hr.event, hr.flags, hr.size,
      hr.bytes⟩
    · rw [hr.heard, List.append_assoc]
    · intro o ho
      rcases List.mem_append.mp ho with ho | ho
      · exact hidle o ho
      · exact hr.polls_idle o ho

/-- A look at the flags first. -/
theorem look {f : UInt8 → Rom Int} (hf : ∀ flags, Reads (f flags)) : Reads (rawFlags >>= f) := by
  intro m rc m' _ hx
  obtain ⟨flags, m1, h1, h2⟩ := bind_some.mp hx
  cases h1
  exact hf _ m rc m' trivial h2

theorem error {rc : Int} (h : rc ≠ 0) : Reads (pure rc) := by
  apply Says.pure'
  intro _ _ h0
  exact absurd h0 h

theorem ite' {c : Prop} [Decidable c] {x y : Rom Int} (hx : Reads x) (hy : Reads y) : Reads (if c then x else y) :=
  Says.ite' (fun _ => hx) fun _ => hy

end Reads

/-- The pre-read and the read of the B0, whose result is dropped. -/
theorem b0_reads (rc : Int) : Reads (do
    let _ ← qmromPreRead
    let len ← sstcLen
    if 0xff < len then pure (-1)
    else do
      let _ ← qmromRead
      pure rc) := by
  intro m rc' m' _ hx
  obtain ⟨_, m1, h1, hx⟩ := bind_some.mp hx
  obtain ⟨len, m2, h2, hx⟩ := bind_some.mp hx
  cases h2
  obtain ⟨pre, hpre, hflags, hlen⟩ := qmromPreRead_announces h1
  by_cases hbig : 0xff < m1.sstc.le16 2
  -- more than 255 bytes are announced: nothing is read, and that is an error
  · rw [if_pos hbig] at hx
    obtain ⟨rfl, rfl⟩ := pure_some.mp hx
    exact ⟨_, hpre, fun h0 => by cases h0⟩
  · rw [if_neg hbig] at hx
    obtain ⟨rrc, m3, h3, hx⟩ := bind_some.mp hx
    obtain ⟨rfl, rfl⟩ := pure_some.mp hx
    have hle : m1.sstc.le16 2 ≤ maxStcFrameLen := by
      unfold maxStcFrameLen
      omega
    obtain ⟨x, tx, hread, hevent, -, hhead, hsize, hbytes⟩ := qmromRead_reads h3 hle
    refine ⟨[pre, x], ?_, fun _ => ⟨[], pre, [], x, tx, rfl, by simp, hflags, by simp, hevent, hhead, ?_, hbytes⟩⟩
    · rw [hread, hpre, List.append_assoc]
      rfl
    · rw [hsize, hlen]

/-- A wait for the ready line leaves `sstc` alone. -/
theorem readyLine_waits {m m' : Machine} {rc : Int} (hx : qmromSpiWaitForReadyLine m = some (rc, m')) :
    ∃ w, m'.heard = m.heard ++ [w] ∧ w.Idle ∧ m'.sstc = m.sstc := by
  cases hx
  exact ⟨_, heard_log rfl rfl, ⟨by simp [Event.flags], by simp [Event.flags]⟩, rfl⟩

/-- The pre-read and the read of the C0, each after a wait for the ready line. -/
theorem c0_reads : Reads (do
    let _ ← qmromPreReadC0
    qmromReadC0) := by
  unfold qmromPreReadC0 qmromReadC0 afterReadyLine
  rw [bind_assoc]
  apply Reads.idle (idles_readyLine fun _ _ _ _ => trivial)
  intro _ m rc m' _ hx
  obtain ⟨_, m1, h1, hx⟩ := bind_some.mp hx
  obtain ⟨wrc, m2, h2, hx⟩ := bind_some.mp hx
  obtain ⟨pre, hpre, hflags, hlen⟩ := qmromPreRead_announces h1
  obtain ⟨w, hw, hidle, hsame⟩ := readyLine_waits h2
  by_cases hbig : maxStcFrameLen < m2.sstc.le16 2
  · -- more is announced than fits: nothing is read, and that is an error
    obtain ⟨rdSize, m3, h3, hx⟩ := bind_some.mp hx
    cases h3
    rw [if_pos hbig] at hx
    obtain ⟨rfl, rfl⟩ := pure_some.mp hx
    refine ⟨[pre, w], ?_, fun h0 => by cases h0⟩
    rw [hw, hpre, List.append_assoc]
    rfl
  · obtain ⟨x, tx, hread, hevent, -, hhead, hsize, hbytes⟩ := qmromRead_reads hx (Nat.le_of_not_lt hbig)
    refine ⟨[pre, w, x], ?_, fun _ => ⟨[], pre, [w], x, tx, rfl, by simp, hflags, by simpa using hidle, hevent, hhead,
      ?_, hbytes⟩⟩
    · rw [hread, hw, hpre, List.append_assoc, List.append_assoc]
      rfl
    · rw [hsize, hsame, hlen]

theorem b0PollCmdResp_reads (h : Handle) : Reads (qmromB0PollCmdResp h) := by
  have hpass : ∀ retries {next : Rom Int}, Reads next → Reads (b0RespPass h retries next) := by
    intro retries next hnext
    refine Reads.look fun flags => Reads.ite' (b0_reads _) ?_
    exact Reads.idle (idles_b0PollSoc h) fun _ => hnext
  have hloop : ∀ retries, Reads (b0RespLoop h retries) := by
    intro retries
    induction retries with
    | zero => exact hpass 0 (Reads.error (by decide))
    | succ retries ih => exact hpass _ ih
  exact Reads.idle (idles_b0PollSoc h) fun _ => hloop _

theorem c0PollCmdResp_reads (h : Handle) : Reads (qmromC0PollCmdResp h) := by
  have hpass : ∀ {next : Rom Int}, Reads next → Reads (c0RespPass h next) := by
    intro next hnext
    refine Reads.look fun flags => Reads.ite' c0_reads ?_
    exact Reads.idle (idles_c0PollSoc h) fun _ => hnext
  have hloop : ∀ retries, Reads (c0RespLoop h retries) := by
    intro retries
    induction retries with
    | zero => exact hpass (Reads.error (by decide))
    | succ retries ih => exact hpass ih
  exact Reads.idle (idles_c0PollSoc h) fun _ => hloop _

/-! What comes before the request. -/

/-- The program does not ask for the SOC information. -/
def Unasked (p : SocProbe) {α : Type} (x : Rom α) : Prop :=
  Says Machine.heard (fun _ => True) x fun _ _ os => ∀ o ∈ os, ¬p.Requests o

section Unasked
variable {p : SocProbe} {α β : Type} {x : Rom α}

theorem Unasked.of_listens (h : Listens x) : Unasked p x := by
  intro m a m' _ hx
  obtain ⟨os, hos, hq, -, -⟩ := h m a m' trivial hx
  refine ⟨os, hos, fun o ho => ?_⟩
  rintro ⟨rc, hreq⟩
  have hquiet := hq o ho
  unfold romView at hquiet
  simp only [hreq] at hquiet
  exact hquiet rfl

theorem Unasked.bind {f : α → Rom β} (hx : Unasked p x) (hf : ∀ a, Unasked p (f a)) : Unasked p (x >>= f) := by
  intro m b m' _ hrun
  obtain ⟨a, m1, h1, h2⟩ := bind_some.mp hrun
  obtain ⟨os, hos, hun⟩ := hx m a m1 trivial h1
  obtain ⟨os', hos', hun'⟩ := hf a m1 b m' trivial h2
  refine ⟨os ++ os', ?_, fun o ho => ?_⟩
  · rw [hos', hos, List.append_assoc]
  · rcases List.mem_append.mp ho with ho | ho
    · exact hun o ho
    · exact hun' o ho

/-- A write is one event. -/
theorem writeFrame_heard {payload : List UInt8} {m m' : Machine} {rc : Int}
    (hx : writeFrame payload m = some (rc, m')) :
    ∃ w, m'.heard = m.heard ++ [w] ∧ w.event = .xfer (frameBytes payload) rc := by
  obtain ⟨hlog, hdev, -⟩ := writeFrame_some hx
  exact ⟨_, heard_log hlog hdev, rfl⟩

/-- Another command is asked for. -/
theorem Unasked.write {payload : List UInt8} (h : frameBytes payload ≠ frameBytes p.getSocInfo) :
    Unasked p (writeFrame payload) := by
  intro m rc m' _ hx
  obtain ⟨w, hw, hevent⟩ := writeFrame_heard hx
  refine ⟨[w], hw, fun o ho => ?_⟩
  rw [List.mem_singleton.mp ho]
  rintro ⟨rc', hreq⟩
  exact h (Event.xfer.inj (hevent.symm.trans hreq)).1

end Unasked

/-! The probes. -/

/-- The request. -/
def SocProbe.request : SocProbe → Rom Int
  | .b0 => qmromWriteCmd romCmdB0GetSocInfo
  | .c0 => qmromWriteCmd32C0 romCmdC0GetSocInfo

def SocProbe.pollCmdResp : SocProbe → Handle → Rom Int
  | .b0 => qmromB0PollCmdResp
  | .c0 => qmromC0PollCmdResp

section Probe
variable {p : SocProbe} {x : Rom Int} {h : ProbeHandle} {k : Rom (Int × ProbeHandle)} {m m' : Machine}
  {r : Int × ProbeHandle}

/-- A probe that succeeds has gone through each of its steps. -/
theorem probeThen_zero (hx : probeThen x h k m = some (r, m')) (h0 : r.1 = 0) :
    ∃ m1, x m = some (0, m1) ∧ k m1 = some (r, m') := by
  obtain ⟨rc, m1, h1, h2⟩ := bind_some.mp hx
  by_cases hrc : rc = 0
  · rw [if_neg (not_not.mpr hrc)] at h2
    exact ⟨m1, hrc ▸ h1, h2⟩
  · rw [if_pos hrc] at h2
    obtain ⟨rfl, -⟩ := pure_some.mp h2
    exact absurd h0 hrc

/-- The run asks for the SOC information once, polls for the answer, and ends with its identity. -/
structure Asked (p : SocProbe) (m : Machine) (r : Int × ProbeHandle) (m' : Machine) : Prop where
  heard : ∃ before w os, m'.heard = m.heard ++ (before ++ w :: os) ∧ (∀ o ∈ before, ¬p.Requests o) ∧
    p.Requests w ∧ InfoRead os m'.sstc
  identity : IdentityIn p m'.sstc r.2

/-- Where the program succeeds, it has asked. -/
def Asks (p : SocProbe) (x : Rom (Int × ProbeHandle)) : Prop :=
  ∀ m r m', x m = some (r, m') → r.1 = 0 → Asked p m r m'

/-- What has been heard without asking may stand in front. -/
theorem Asked.after {m1 : Machine} {os : List Heard} (hos : m1.heard = m.heard ++ os)
    (hun : ∀ o ∈ os, ¬p.Requests o) (ha : Asked p m1 r m') : Asked p m r m' := by
  obtain ⟨⟨before, w, os', hheard, hbefore, hw, hread⟩, hid⟩ := ha
  refine ⟨⟨os ++ before, w, os', ?_, fun o ho => ?_, hw, hread⟩, hid⟩
  · rw [hheard, hos, List.append_assoc, List.append_assoc]
  · rcases List.mem_append.mp ho with ho | ho
    · exact hun o ho
    · exact hbefore o ho

theorem Asks.bind {α : Type} {y : Rom α} {f : α → Rom (Int × ProbeHandle)} (hy : Unasked p y)
    (hf : ∀ a, Asks p (f a)) : Asks p (y >>= f) := by
  intro m r m' hx h0
  obtain ⟨a, m1, h1, h2⟩ := bind_some.mp hx
  obtain ⟨os, hos, hun⟩ := hy m a m1 trivial h1
  exact (hf a m1 r m' h2 h0).after hos hun

theorem Asks.then (hx : Unasked p x) (hk : Asks p k) : Asks p (probeThen x h k) := by
  intro m r m' hrun h0
  obtain ⟨m1, h1, h2⟩ := probeThen_zero hrun h0
  obtain ⟨os, hos, hun⟩ := hx m 0 m1 trivial h1
  exact (hk m1 r m' h2 h0).after hos hun

theorem Asks.error {rc : Int} (hrc : rc ≠ 0) : Asks p (pure (rc, h)) := by
  intro m r m' hx h0
  obtain ⟨rfl, -⟩ := pure_some.mp hx
  exact absurd h0 hrc

theorem Asks.ite' {c : Prop} [Decidable c] {y z : Rom (Int × ProbeHandle)} (hy : Asks p y) (hz : Asks p z) :
    Asks p (if c then y else z) := by
  split
  · exact hy
  · exact hz

theorem sstcPayload_some {offset n : Nat} {bs : List UInt8} (hx : sstcPayload offset n m = some (bs, m')) :
    bs = m.sstc.read (sizeofStc + offset) n ∧ m' = m := by
  unfold sstcPayload at hx
  split at hx
  · cases hx
  · cases hx
    exact ⟨rfl, rfl⟩

/-- The end of a probe takes the identity from `sstc`. -/
theorem probeIdentity_some {rev : RomCode} (hx : probeIdentity h p.offset p.lcsLen rev m = some (r, m')) :
    m' = m ∧ IdentityIn p m.sstc r.2 := by
  obtain ⟨socId, m1, h1, hx⟩ := bind_some.mp hx
  obtain ⟨lcs, m2, h2, hx⟩ := bind_some.mp hx
  obtain ⟨uuid, m3, h3, hx⟩ := bind_some.mp hx
  obtain ⟨rfl, rfl⟩ := sstcPayload_some h1
  obtain ⟨rfl, rfl⟩ := sstcPayload_some h2
  obtain ⟨rfl, rfl⟩ := sstcPayload_some h3
  obtain ⟨rfl, rfl⟩ := pure_some.mp hx
  exact ⟨rfl, rfl, rfl, rfl⟩

/-- The request is a write, which a wait for the ready line may precede. -/
theorem request_heard (hx : p.request m = some (0, m')) : ∃ before w, m'.heard = m.heard ++ (before ++ [w]) ∧
    (∀ o ∈ before, ¬p.Requests o) ∧ p.Requests w := by
  cases p with
  | b0 =>
    obtain ⟨w, hw, hevent⟩ := writeFrame_heard hx
    exact ⟨[], w, hw, by simp, 0, hevent⟩
  | c0 =>
    obtain ⟨rc, m1, h1, hx⟩ := bind_some.mp hx
    obtain ⟨os, hos, hun⟩ := (Unasked.of_listens (p := .c0) apart_readyLine.listens) m rc m1 trivial h1
    obtain ⟨w, hw, hevent⟩ := writeFrame_heard hx
    refine ⟨os, w, ?_, hun, 0, hevent⟩
    rw [hw, hos, List.append_assoc]

theorem pollCmdResp_reads (h' : Handle) : Reads (p.pollCmdResp h') := by
  cases p with
  | b0 => exact b0PollCmdResp_reads h'
  | c0 => exact c0PollCmdResp_reads h'

/-- The request and what follows it. -/
theorem Asks.request {h1 h2 : ProbeHandle} {h' : Handle} {rev : RomCode} :
    Asks p (probeThen p.request h <| probeThen (p.pollCmdResp h') h1 <| probeIdentity h2 p.offset p.lcsLen rev) := by
  intro m r m' hx h0
  obtain ⟨m1, hreq, hx⟩ := probeThen_zero hx h0
  obtain ⟨m2, hpoll, hx⟩ := probeThen_zero hx h0
  obtain ⟨rfl, hid⟩ := probeIdentity_some hx
  obtain ⟨before, w, hw, hbefore, hrequests⟩ := request_heard hreq
  obtain ⟨os, hos, hread⟩ := pollCmdResp_reads h' m1 0 m' trivial hpoll
  refine ⟨⟨before, w, os, ?_, hbefore, hrequests, hread rfl⟩, hid⟩
  rw [hos, hw, List.append_assoc, List.append_assoc]
  rfl

theorem unasked_sstc2uint16 {offset : Nat} (h : sizeofStc + offset + 2 ≤ stcBufSize) : Unasked p (sstc2uint16 offset) :=
  .of_listens (plain_sstc2uint16 h).listens

theorem b0ProbeDevice_asks (h : ProbeHandle) : Asks .b0 (qmromB0ProbeDevice h) := by
  apply Asks.then (.of_listens listens_reboot)
  apply Asks.then (.of_listens (plain_b0WaitReady _).listens)
  apply Asks.then (.write (by decide))
  apply Asks.then (.of_listens (plain_b0PollCmdResp _).listens)
  refine Asks.bind (unasked_sstc2uint16 (by decide)) fun chipRev => ?_
  refine Asks.bind (unasked_sstc2uint16 (by decide)) fun devRev => ?_
  apply Asks.ite' (Asks.error (by decide))
  apply Asks.then (.of_listens (plain_b0WaitReady _).listens)
  exact Asks.request

theorem c0ProbeDevice_asks (h : ProbeHandle) : Asks .c0 (qmromC0ProbeDevice h) := by
  apply Asks.then (.of_listens listens_reboot)
  apply Asks.then (.of_listens (plain_c0WaitReady _).listens)
  apply Asks.then ((Unasked.of_listens apart_readyLine.listens).bind fun _ => .write (by decide))
  apply Asks.then (.of_listens (plain_c0PollCmdResp _).listens)
  refine Asks.bind (unasked_sstc2uint16 (by decide)) fun chipRev => ?_
  refine Asks.bind (unasked_sstc2uint16 (by decide)) fun devRev => ?_
  apply Asks.ite' (Asks.error (by decide))
  apply Asks.then (.of_listens (plain_c0WaitReady _).listens)
  exact Asks.request

theorem SocProbe.asks (p : SocProbe) (h : ProbeHandle) : Asks p (p.run h) := by
  cases p with
  | b0 => exact b0ProbeDevice_asks h
  | c0 => exact c0ProbeDevice_asks h

end Probe

/-! Whose bytes they are. -/

/-- What stands after the first of a kind stands after any of them. -/
theorem mem_of_after {α : Type} {P : α → Prop} {as bs cs ds : List α} {a b x : α} (has : ∀ a ∈ as, ¬P a) (hb : P b)
    (h : as ++ a :: cs = bs ++ b :: ds) (hx : x ∈ ds) : x ∈ cs := by
  induction as generalizing bs with
  | nil =>
    cases bs with
    | nil =>
      cases h
      exact hx
    | cons c bs =>
      cases h
      exact List.mem_append_right _ (List.mem_cons_of_mem _ hx)
  | cons c as ih =>
    cases bs with
    | nil =>
      obtain ⟨rfl, -⟩ := List.cons.inj h
      exact absurd hb (has _ List.mem_cons_self)
    | cons d bs =>
      obtain ⟨-, htail⟩ := List.cons.inj h
      exact ih (fun a ha => has a (List.mem_cons_of_mem _ ha)) htail

/-- The identity only depends on the bytes it takes up. -/
theorem IdentityIn.congr {p : SocProbe} {a b : Mem} {h : ProbeHandle} (hab : Mem.Agree a b 0 (sizeofStc + p.infoLen))
    (hid : IdentityIn p a h) : IdentityIn p b h := by
  have hlen : p.infoLen = p.offset + romSocIdLen + p.lcsLen + romUuidLen := rfl
  obtain ⟨hsoc, hlcs, huuid⟩ := hid
  refine ⟨?_, ?_, ?_⟩
  · rw [hsoc, Mem.read_congr (hab.mono (Nat.zero_le _) (by omega))]
  · rw [hlcs, Mem.read_congr (hab.mono (Nat.zero_le _) (by omega))]
  · rw [huuid, Mem.read_congr (hab.mono (Nat.zero_le _) (by omega))]

section Reading
variable {p : SocProbe} {m' : Machine} {os polls waits front : List Heard} {pre x : Heard} {tx : List UInt8}
  {sstc : Mem}

/-- The last answer and the last announcement are those of the reading. -/
theorem Reading.infoAnswered_iff (hr : Reading os polls pre waits x tx sstc) (hheard : m'.heard = front ++ os) :
    InfoAnswered p m' ↔ x.answer.rc = 0 ∧ p.infoLen ≤ x.answer.bytes.le16 2 ∧
      p.infoLen ≤ pre.answer.bytes.le16 2 := by
  have hlast : m'.heard.getLast? = some x := by
    have hsplit : m'.heard = (front ++ polls ++ pre :: waits) ++ [x] := by
      rw [hheard, hr.heard]
      simp
    rw [hsplit, List.getLast?_append]
    rfl
  have hnone : (waits ++ [x]).filter Heard.isPreRead = [] := by
    rw [List.filter_eq_nil_iff]
    intro o ho
    rcases List.mem_append.mp ho with ho | ho
    · simpa [Heard.isPreRead] using (hr.waits_idle o ho).2
    · rw [List.mem_singleton.mp ho, Heard.isPreRead, hr.event, Event.flags, hr.flags]
      decide
  have hpre : (m'.heard.filter Heard.isPreRead).getLast? = some pre := by
    have hflag : pre.isPreRead = true := by
      rw [Heard.isPreRead, hr.pre_flags]
      decide
    rw [hheard, hr.heard, ← List.append_assoc, List.filter_append, List.filter_cons_of_pos hflag, hnone,
      List.getLast?_append]
    rfl
  unfold InfoAnswered
  rw [hlast, hpre]
  simp [and_assoc]

/-- No other event of it is a read. -/
theorem Reading.read_unique (hr : Reading os polls pre waits x tx sstc) {y : Heard} (hy : y ∈ os)
    (hflags : y.event.flags = some hostRead) : y = x := by
  rw [hr.heard] at hy
  rcases List.mem_append.mp hy with hy | hy
  · exact absurd hflags (hr.polls_idle y hy).1
  · rcases List.mem_cons.mp hy with rfl | hy
    · rw [hr.pre_flags] at hflags
      exact absurd hflags (by decide)
    · rcases List.mem_append.mp hy with hy | hy
      · exact absurd hflags (hr.waits_idle y hy).1
      · exact List.mem_singleton.mp hy

end Reading

/-- Where a probe of the B0 or the C0 succeeds, the identity comes from the device's answer exactly
if the last read has succeeded, and its response is long enough for it and was announced so. -/
theorem probe_identity_iff (p : SocProbe) (h : ProbeHandle) (m : Machine) (r : Int × ProbeHandle) (m' : Machine)
    (hrun : p.run h m = some (r, m')) : FromAnswer p m r m' ↔ (r.1 = 0 → InfoAnswered p m') := by
  refine forall_congr' fun h0 => ?_
  obtain ⟨⟨before, w, os, hheard, hbefore, hw, polls, pre, waits, x, tx, hr⟩, hid⟩ := p.asks h m r m' hrun h0
  have hfront : m'.heard = (m.heard ++ (before ++ [w])) ++ os := by
    rw [hheard]
    simp
  rw [hr.infoAnswered_iff hfront]
  constructor
  · rintro ⟨before', w', mid, y, after, hheard', hw', ⟨ty, hevent, hflags, hlen, hcovers⟩, -⟩
    have hsame : before ++ w :: os = before' ++ w' :: (mid ++ y :: after) :=
      List.append_cancel_left (hheard.symm.trans hheard')
    have hy : y ∈ os := mem_of_after hbefore hw' hsame (List.mem_append_right _ List.mem_cons_self)
    have hyx : y = x := hr.read_unique hy (by rw [hevent]; exact hflags)
    rw [hyx] at hevent hcovers
    rw [hr.event] at hevent
    obtain ⟨htx, hrc⟩ := Event.xfer.inj hevent
    have hsize := hr.size
    rw [htx] at hsize
    exact ⟨hrc, hcovers, by omega⟩
  · rintro ⟨hrc, hcovers, hlen⟩
    have hsize := hr.size
    have hevent := hr.event
    rw [hrc] at hevent
    refine ⟨before, w, polls ++ pre :: waits, x, [], ?_, hw, ⟨tx, hevent, hr.flags, by omega, hcovers⟩, ?_⟩
    · rw [hheard, hr.heard]
      simp
    · exact hid.congr (hr.bytes.mono (Nat.le_refl 0) (by omega))

def b0ProbeHandle : ProbeHandle := ⟨⟨2, 0, 0, none⟩, 0, [], []⟩

/-- A B0 that is ready at once, and announces and has so many bytes of SOC information. -/
def infoDevice (announced : UInt8) (n : Nat) : Answer where
  rc := 0
  bytes i :=
    if i = 0 then (if n = 3 ∨ n = 8 then spiShReadyCmdBitMask else socOutWaiting)
    else if i = 2 then (if 11 ≤ n then announced else 5)
    else if i = 5 then 0xB0
    else 0
  alloc := true

/-- A read of a frame of at least `n` bytes. -/
def Event.readsLong (n : Nat) : Event → Bool
  | .xfer tx _ => tx.head? == some hostRead && decide (n ≤ tx.length)
  | _ => false

/-- What a probe of the device finds, in numbers: its result, that of the last call and the length in the
answer to it, the length announced last, and whether any read covers the identity. -/
def probeNumbers (r : Int × ProbeHandle) (m' : Machine) : Int × Option (Int × Nat) × Option Nat × Bool :=
  (r.1, m'.heard.getLast?.map fun x => (x.answer.rc, x.answer.bytes.le16 2),
    (m'.heard.filter Heard.isPreRead).getLast?.map fun x => x.answer.bytes.le16 2,
    m'.log.any (Event.readsLong (sizeofStc + SocProbe.b0.infoLen)))

def infoMachine (announced : UInt8) : Machine := machineInit (fun _ => 0) (fun _ => 0) (infoDevice announced)

theorem probe_numbers {announced : UInt8} {v : Int × Option (Int × Nat) × Option Nat × Bool}
    (h : (SocProbe.b0.run b0ProbeHandle (infoMachine announced)).map (fun r => probeNumbers r.1 r.2) = some v) :
    ∃ r m', SocProbe.b0.run b0ProbeHandle (infoMachine announced) = some (r, m') ∧ probeNumbers r m' = v := by
  obtain ⟨⟨r, m'⟩, hrun, heq⟩ := Option.map_eq_some_iff.mp h
  exact ⟨r, m', hrun, heq⟩

/-- A device that announces the 50 bytes it has to. -/
theorem probe_identity_covered : ∃ r m', SocProbe.b0.run b0ProbeHandle (infoMachine 50) = some (r, m') ∧ r.1 = 0 ∧
    FromAnswer .b0 (infoMachine 50) r m' := by
  have heval : (SocProbe.b0.run b0ProbeHandle (infoMachine 50)).map (fun r => probeNumbers r.1 r.2) =
      some (0, some (0, 50), some 50, true) := by decide +kernel
  obtain ⟨r, m', hrun, hv⟩ := probe_numbers heval
  simp only [probeNumbers, Prod.mk.injEq] at hv
  obtain ⟨h0, hlast, hpre, -⟩ := hv
  obtain ⟨x, hx, hanswer⟩ := Option.map_eq_some_iff.mp hlast
  obtain ⟨hrc, hread⟩ := Prod.mk.inj hanswer
  obtain ⟨pre, hpremem, hlen⟩ := Option.map_eq_some_iff.mp hpre
  have hiff := probe_identity_iff .b0 b0ProbeHandle _ r m' hrun
  refine ⟨r, m', hrun, h0, hiff.mpr fun _ => ⟨⟨x, hx, hrc, ?_⟩, pre, hpremem, ?_⟩⟩
  · rw [hread]
    decide
  · rw [hlen]
    decide

/-- A device that announces nothing: the probe succeeds, and no read has brought the identity. -/
theorem not_probe_identity : ¬∀ p h m r m', SocProbe.run p h m = some (r, m') → FromAnswer p m r m' := by
  intro hall
  have heval : (SocProbe.b0.run b0ProbeHandle (infoMachine 0)).map (fun r => probeNumbers r.1 r.2) =
      some (0, some (0, 0), some 0, false) := by decide +kernel
  obtain ⟨r, m', hrun, hv⟩ := probe_numbers heval
  simp only [probeNumbers, Prod.mk.injEq] at hv
  obtain ⟨h0, -, -, hnone⟩ := hv
  obtain ⟨before, w, mid, x, after, hheard, -, ⟨tx, hevent, hflags, hlen, -⟩, -⟩ :=
    hall .b0 b0ProbeHandle _ r m' hrun h0
  have hx : x.event ∈ m'.log := by
    rw [← heard_events m', hheard]
    exact List.mem_map_of_mem (by simp)
  have hlong := List.any_eq_false.mp hnone x.event hx
  rw [hevent] at hlong
  simp [Event.readsLong, hflags, hlen] at hlong

end Qm35.Qmrom
