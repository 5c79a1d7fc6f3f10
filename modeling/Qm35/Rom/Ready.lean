import Qm35.Rom.Fresh
import Qm35.Rom.Identity

/- Whether the wait for the device to be ready can be believed. `qmrom_b0_wait_ready` and
   `qmrom_c0_wait_ready` return 0 where the flags in `sstc` are the ready mask; what is
   asked is whether the device has sent this mask in the last header received, in this
   call.

   Each revision has what the other one misses. The C0 clears the flags before it polls,
   while the B0 leaves there what it finds; after a poll or a pre-read that has failed,
   with its result dropped, the mask may be an old one. The B0 goes on with the loop when
   it has read what an active device had to say, while the C0 returns the result of that
   read, ready or not (`readySound_iff`). -/
namespace Qm35.Qmrom

open ByteMem Trace

/-- The flags that end the wait. -/
def SocProbe.readyMask : SocProbe → UInt8
  | .b0 => spiShReadyCmdBitMask
  | .c0 => spiShReadyCmdBitMaskC0

def SocProbe.waitReady : SocProbe → Handle → Rom Int
  | .b0 => qmromB0WaitReady
  | .c0 => qmromC0WaitReady

/-! The transfers of a call, the last one first. -/

def xfers (os : List Heard) : List Heard := (os.filter fun x => x.event.isXfer).reverse

/-- The flags byte of `sstc` after the transfer. -/
def Heard.flags (x : Heard) : UInt8 := x.answer.bytes 0

def Heard.isRead (x : Heard) : Bool := x.event.flags == some hostRead

/-- The flags of the last header received; a transfer that fails receives none. -/
def lastHeader (xs : List Heard) : Option UInt8 := (xs.find? fun x => x.event.succeeds).map Heard.flags

/-- The last transfer is the read of an active output. On the C0 the read of a waiting output comes
right after its pre-read. -/
def SocProbe.readsActive : SocProbe → List Heard → Bool
  | _, [] => false
  | .b0, x :: _ => x.isRead
  | .c0, x :: xs => x.isRead && !xs.head?.any Heard.isPreRead

/-- A call that returns 0 has received a last header with the ready mask. -/
def ReadySound (p : SocProbe) (h : Handle) (m : Machine) : Prop :=
  ∀ m' os, p.waitReady h m = some (0, m') → m'.heard = m.heard ++ os → lastHeader (xfers os) = some p.readyMask

/-- The last transfer `x` of a call and those before it, `xs`, do not make the wait end in error. On the
B0 no poll and no pre-read fails and leaves the mask. On the C0 a read of an active output that
succeeds brings the mask, and any other transfer that fails leaves the mask only where it is that of the
last header received. -/
def SocProbe.Truthful : SocProbe → Heard → List Heard → Prop
  | .b0, x, _ => x.event.succeeds = false → x.flags = spiShReadyCmdBitMask → x.isRead = true
  | .c0, x, xs =>
    if SocProbe.c0.readsActive (x :: xs) = true then x.event.succeeds = true → x.flags = spiShReadyCmdBitMaskC0
    else x.event.succeeds = false → x.flags = spiShReadyCmdBitMaskC0 →
      lastHeader (x :: xs) = some spiShReadyCmdBitMaskC0

/-- What the device and the bus do in the call. -/
def ReadyTruthful (p : SocProbe) (h : Handle) (m : Machine) : Prop :=
  ∀ rc m' os x xs, p.waitReady h m = some (rc, m') → m'.heard = m.heard ++ os → xfers os = x :: xs → p.Truthful x xs

/-! The last header received. -/

theorem lastHeader_cons (x : Heard) (xs : List Heard) :
    lastHeader (x :: xs) = if x.event.succeeds = true then some x.flags else lastHeader xs := by
  unfold lastHeader
  rw [List.find?_cons]
  cases x.event.succeeds <;> rfl

theorem lastHeader_ne {xs : List Heard} {flags : UInt8} (h : ∀ x ∈ xs, x.flags ≠ flags) :
    lastHeader xs ≠ some flags := by
  intro hlast
  obtain ⟨x, hfind, hflags⟩ := Option.map_eq_some_iff.mp hlast
  exact h x (List.mem_of_find?_eq_some hfind) hflags

/-! Transfers. -/

section Transfers
variable {m m' : Machine} {rc : Int}

@[simp] theorem xfers_nil : xfers [] = [] := rfl

theorem xfers_append (os os' : List Heard) : xfers (os ++ os') = xfers os' ++ xfers os := by
  simp [xfers]

theorem xfers_xfer {x : Heard} (h : x.event.isXfer = true) : xfers [x] = [x] := by
  simp [xfers, h]

theorem xfers_wait {x : Heard} (h : x.event.isXfer = false) : xfers [x] = [] := by
  simp [xfers, h]

/-- What a transfer of at least a header leaves: one more transfer, with its flags and its length. -/
structure Transferred (m : Machine) (rc : Int) (m' : Machine) (x : Heard) : Prop where
  heard : m'.heard = m.heard ++ [x]
  isXfer : x.event.isXfer = true
  succeeds : x.event.succeeds = (rc == 0)
  flags : m'.sstc 0 = x.flags

theorem transfer_transferred {size : Nat} (hsize : 0 < size) (hx : qmromSpiTransfer size m = some (rc, m')) :
    ∃ x, Transferred m rc m' x ∧ x.event.flags = some (m.hstc 0) ∧ m'.hstc = m.hstc := by
  unfold qmromSpiTransfer at hx
  split at hx
  · cases hx
  · cases hx
    refine ⟨_, ⟨heard_log rfl rfl, rfl, rfl, if_pos hsize⟩, ?_, rfl⟩
    exact Mem.head_read _ _ hsize

theorem preRead_transferred (hx : qmromPreRead m = some (rc, m')) :
    ∃ x, Transferred m rc m' x ∧ x.event.flags = some hostPreRead := by
  obtain ⟨_, m1, h1, hx⟩ := bind_some.mp hx
  obtain ⟨_, m2, h2, hx⟩ := bind_some.mp hx
  obtain ⟨len, m3, h3, hx⟩ := bind_some.mp hx
  obtain ⟨-, rfl⟩ := hstcStore_some h1
  obtain ⟨-, rfl⟩ := hstcStore_some h2
  cases h3
  obtain ⟨x, htrans, hflags, -⟩ := transfer_transferred (Nat.add_pos_left (by decide) _) hx
  exact ⟨x, ⟨htrans.heard, htrans.isXfer, htrans.succeeds, htrans.flags⟩, hflags⟩

/-- A read of more than a frame holds is refused; any other is a transfer. -/
theorem read_transferred (hx : qmromRead m = some (rc, m')) :
    (maxStcFrameLen < m.sstc.le16 2 ∧ rc ≠ 0 ∧ m' = m) ∨
      (m.sstc.le16 2 ≤ maxStcFrameLen ∧ ∃ x, Transferred m rc m' x ∧ x.event.flags = some hostRead) := by
  obtain ⟨rdSize, m1, h1, hx⟩ := bind_some.mp hx
  cases h1
  by_cases hbig : maxStcFrameLen < m.sstc.le16 2
  · rw [if_pos hbig] at hx
    obtain ⟨rfl, rfl⟩ := pure_some.mp hx
    exact .inl ⟨hbig, by decide, rfl⟩
  · rw [if_neg hbig] at hx
    obtain ⟨_, m2, h2, hx⟩ := bind_some.mp hx
    obtain ⟨_, m3, h3, hx⟩ := bind_some.mp hx
    obtain ⟨-, rfl⟩ := hstcStore_some h2
    obtain ⟨-, rfl⟩ := hstcStore_some h3
    obtain ⟨x, htrans, hflags, -⟩ := transfer_transferred (Nat.add_pos_left (by decide) _) hx
    exact .inr ⟨Nat.le_of_not_lt hbig, x, ⟨htrans.heard, htrans.isXfer, htrans.succeeds, htrans.flags⟩, hflags⟩

theorem readyLine_some (hx : qmromSpiWaitForReadyLine m = some (rc, m')) :
    ∃ w, m'.heard = m.heard ++ [w] ∧ xfers [w] = [] ∧ m'.sstc = m.sstc ∧ m'.hstc = m.hstc := by
  cases hx
  exact ⟨_, heard_log rfl rfl, xfers_wait rfl, rfl, rfl⟩

/-- A wait for the ready line first. -/
theorem afterReadyLine_some {x : Rom Int} (hx : afterReadyLine x m = some (rc, m')) :
    ∃ m1 w, m1.heard = m.heard ++ [w] ∧ xfers [w] = [] ∧ m1.sstc = m.sstc ∧ x m1 = some (rc, m') := by
  obtain ⟨_, m1, h1, hx⟩ := bind_some.mp hx
  obtain ⟨w, hw, hnone, hsstc, -⟩ := readyLine_some h1
  exact ⟨m1, w, hw, hnone, hsstc, hx⟩

end Transfers

/-! Polling. -/

/-- What polling leaves, where `sstc` was `mem` before: nothing was transferred, which `skips` says may
happen, or the flags are those of the last transfer and no earlier one had any. -/
def PolledFrom (skips : Prop) (mem : Mem) (os : List Heard) (m' : Machine) : Prop :=
  (skips ∧ xfers os = [] ∧ m'.sstc = mem) ∨
    ∃ x xs, xfers os = x :: xs ∧ x.event.flags = some 0 ∧ m'.sstc 0 = x.flags ∧ ∀ y ∈ xs, y.flags = 0

/-- The header is cleared, and `sstc` is `mem`. -/
def PollReady (mem : Mem) (m : Machine) : Prop := Cleared m ∧ m.sstc = mem

abbrev PollsFrom (skips : Prop) (mem : Mem) (x : Rom Unit) : Prop :=
  Says Machine.heard (PollReady mem) x fun _ m' os => Cleared m' ∧ PolledFrom skips mem os m'

theorem pollsFrom_pollLoop {skips : Prop} {xfer : Rom Unit} (hx : ∀ mem, PollsFrom skips mem xfer) (retries : Nat)
    (mem : Mem) : PollsFrom skips mem (pollLoop xfer retries) := by
  induction retries generalizing mem with
  | zero => exact hx mem
  | succ retries ih =>
    intro m u m' hm hrun
    obtain ⟨_, m1, h1, hrun⟩ := bind_some.mp hrun
    obtain ⟨flags, m2, h2, hrun⟩ := bind_some.mp hrun
    cases h2
    obtain ⟨os, hos, hcleared, hpolled⟩ := hx mem m _ m1 hm h1
    by_cases hzero : m1.sstc 0 = 0
    · rw [if_pos hzero] at hrun
      obtain ⟨os', hos', hcleared', hpolled'⟩ := ih m1.sstc m1 u m' ⟨hcleared, rfl⟩ hrun
      refine ⟨os ++ os', by rw [hos', hos, List.append_assoc], hcleared', ?_⟩
      unfold PolledFrom
      rw [xfers_append]
      rcases hpolled' with ⟨hskips, hnone, hsame⟩ | ⟨x, xs, hxs, hflags, hlast, hzeros⟩
      · rw [hnone, hsame]
        exact hpolled
      · refine .inr ⟨x, xs ++ xfers os, by rw [hxs, List.cons_append], hflags, hlast, fun y hy => ?_⟩
        rcases List.mem_append.mp hy with hy | hy
        · exact hzeros y hy
        · rcases hpolled with ⟨-, hnone, -⟩ | ⟨z, zs, hzs, -, hz, hzs0⟩
          · rw [hnone] at hy
            cases hy
          · rw [hzs] at hy
            rcases List.mem_cons.mp hy with rfl | hy
            · exact hz.symm.trans hzero
            · exact hzs0 y hy
    · rw [if_neg hzero] at hrun
      obtain ⟨-, rfl⟩ := pure_some.mp hrun
      exact ⟨os, hos, hcleared, hpolled⟩

/-- A transfer of the cleared header. -/
theorem pollsFrom_xfer (skips : Prop) (mem : Mem) :
    PollsFrom skips mem (do let len ← hstcLen; let _ ← qmromSpiTransfer (sizeofStc + len)) := by
  intro m u m' hm hrun
  obtain ⟨len, m1, h1, hrun⟩ := bind_some.mp hrun
  cases h1
  obtain ⟨rc, m2, h2, hrun⟩ := bind_some.mp hrun
  obtain ⟨-, rfl⟩ := pure_some.mp hrun
  obtain ⟨x, htrans, hflags, hhstc⟩ := transfer_transferred (Nat.add_pos_left (by decide) _) h2
  rw [show m.hstc 0 = 0 from hm.1] at hflags
  refine ⟨[x], htrans.heard, ?_, .inr ⟨x, [], xfers_xfer htrans.isXfer, hflags, htrans.flags, by simp⟩⟩
  unfold Cleared
  rw [hhstc]
  exact hm.1

/-- The same after a wait for the ready line, which may fail. -/
theorem pollsFrom_readyXfer (mem : Mem) : PollsFrom True mem (do
    let rc ← qmromSpiWaitForReadyLine
    if rc ≠ 0 then pure ()
    else do
      let len ← hstcLen
      let _ ← qmromSpiTransfer (sizeofStc + len)) := by
  intro m u m' hm hrun
  obtain ⟨rc, m1, h1, hrun⟩ := bind_some.mp hrun
  obtain ⟨w, hw, hnone, hsstc, hhstc⟩ := readyLine_some h1
  have hm1 : PollReady mem m1 := by
    unfold PollReady Cleared
    rw [hhstc, hsstc]
    exact hm
  by_cases hrc : rc = 0
  · rw [if_neg (not_not.mpr hrc)] at hrun
    obtain ⟨os, hos, hcleared, hpolled⟩ := pollsFrom_xfer True mem m1 u m' hm1 hrun
    refine ⟨[w] ++ os, by rw [hos, hw, List.append_assoc], hcleared, ?_⟩
    unfold PolledFrom
    rw [xfers_append, hnone, List.append_nil]
    exact hpolled
  · rw [if_pos hrc] at hrun
    obtain ⟨-, rfl⟩ := pure_some.mp hrun
    exact ⟨[w], hw, hm1.1, .inl ⟨trivial, hnone, hm1.2⟩⟩

theorem hstcClear_some {m m' : Machine} {u : Unit} (hx : hstcClear m = some (u, m')) :
    m'.heard = m.heard ∧ Cleared m' ∧ m'.sstc = m.sstc := by
  obtain ⟨-, rfl⟩ := hstcStore_some hx
  exact ⟨rfl, rfl, rfl⟩

theorem b0PollSoc_polls (h : Handle) : Says Machine.heard (fun _ => True) (qmromB0PollSoc h) fun _ m' os =>
    ∃ x xs, xfers os = x :: xs ∧ x.event.flags = some 0 ∧ m'.sstc 0 = x.flags ∧ ∀ y ∈ xs, y.flags = 0 := by
  intro m u m' _ hrun
  obtain ⟨_, m1, h1, hrun⟩ := bind_some.mp hrun
  obtain ⟨hheard, hcleared, -⟩ := hstcClear_some h1
  obtain ⟨os, hos, -, hpolled⟩ := pollsFrom_pollLoop (pollsFrom_xfer False) h.retries m1.sstc m1 u m' ⟨hcleared, rfl⟩ hrun
  rw [hheard] at hos
  exact ⟨os, hos, hpolled.resolve_left fun hskips => hskips.1⟩

theorem setRawFlags_some {flags : UInt8} {m m' : Machine} {u : Unit} (hx : setRawFlags flags m = some (u, m')) :
    m'.heard = m.heard ∧ m'.hstc = m.hstc ∧ m'.sstc 0 = flags ∧ m'.sstc.le16 2 = m.sstc.le16 2 := by
  cases hx
  exact ⟨rfl, rfl, rfl, rfl⟩

/-- The C0 clears the flags first, and transfers nothing where the ready line does not come up. -/
theorem c0PollSoc_polls (h : Handle) (len : Nat) :
    Says Machine.heard (fun m => m.sstc.le16 2 = len) (qmromC0PollSoc h) fun _ m' os =>
      (xfers os = [] ∧ m'.sstc 0 = 0 ∧ m'.sstc.le16 2 = len) ∨
        ∃ x xs, xfers os = x :: xs ∧ x.event.flags = some 0 ∧ m'.sstc 0 = x.flags := by
  intro m u m' hlen hrun
  obtain ⟨_, m1, h1, hrun⟩ := bind_some.mp hrun
  obtain ⟨_, m2, h2, hrun⟩ := bind_some.mp hrun
  obtain ⟨hheard, hcleared, hsstc⟩ := hstcClear_some h1
  obtain ⟨hheard2, hhstc2, hflags2, hlen2⟩ := setRawFlags_some h2
  have hm2 : PollReady m2.sstc m2 := by
    unfold PollReady Cleared
    rw [hhstc2]
    exact ⟨hcleared, rfl⟩
  obtain ⟨os, hos, -, hpolled⟩ := pollsFrom_pollLoop pollsFrom_readyXfer h.retries _ m2 u m' hm2 hrun
  refine ⟨os, by rw [hos, hheard2, hheard], ?_⟩
  rcases hpolled with ⟨-, hnone, hsame⟩ | ⟨x, xs, hxs, hflags, hlast, -⟩
  · refine .inl ⟨hnone, ?_, ?_⟩
    · rw [hsame, hflags2]
    · rw [hsame, hlen2, hsstc]
      exact hlen
  · exact .inr ⟨x, xs, hxs, hflags, hlast⟩

/-! The wait of the B0. -/

/-- Where the loop of the B0 stands after the transfers `x` and, before it, `xs`: the flags are those
of the last one, no earlier one has left the mask, and no read has failed. -/
structure B0Waits (x : Heard) (xs : List Heard) (m : Machine) : Prop where
  flags : m.sstc 0 = x.flags
  earlier : ∀ y ∈ xs, y.flags ≠ spiShReadyCmdBitMask
  read : x.isRead = true → x.event.succeeds = true

/-- How the loop ends: as it stands, or with the error of a read, and no header with the mask. -/
def B0Ended (r : Option Int) (x : Heard) (xs : List Heard) (m : Machine) : Prop :=
  match r with
  | none => B0Waits x xs m
  | some rc => rc ≠ 0 ∧ (x.flags = spiShReadyCmdBitMask → x.isRead = true) ∧
      lastHeader (x :: xs) ≠ some spiShReadyCmdBitMask

/-- While the loop goes on, no transfer has left the mask. -/
theorem B0Waits.noHeader {x : Heard} {xs : List Heard} {m : Machine} (hw : B0Waits x xs m)
    (hwaits : m.sstc 0 ≠ spiShReadyCmdBitMask) : lastHeader (x :: xs) ≠ some spiShReadyCmdBitMask := by
  apply lastHeader_ne
  intro y hy
  rcases List.mem_cons.mp hy with rfl | hy
  · exact fun h => hwaits (hw.flags.trans h)
  · exact hw.earlier y hy

/-- More transfers, after which the loop may go on. -/
theorem B0Waits.more {x y : Heard} {xs ys : List Heard} {m m' : Machine} (hw : B0Waits x xs m)
    (hwaits : m.sstc 0 ≠ spiShReadyCmdBitMask) (hflags : m'.sstc 0 = y.flags)
    (hys : ∀ z ∈ ys, z.flags ≠ spiShReadyCmdBitMask) (hread : y.isRead = true → y.event.succeeds = true) :
    B0Waits y (ys ++ x :: xs) m' := by
  refine ⟨hflags, fun z hz => ?_, hread⟩
  rcases List.mem_append.mp hz with hz | hz
  · exact hys z hz
  · rcases List.mem_cons.mp hz with rfl | hz
    · exact fun h => hwaits (hw.flags.trans h)
    · exact hw.earlier z hz

/-- A transfer that is no read. -/
theorem isRead_of_flags {x : Heard} {flags : UInt8} (h : x.event.flags = some flags) (hne : flags ≠ hostRead) :
    x.isRead = false := by
  simp [Heard.isRead, h, hne]

theorem not_isRead {x : Heard} {flags : UInt8} (h : x.event.flags = some flags) (hne : flags ≠ hostRead) :
    ¬x.isRead = true := by
  rw [isRead_of_flags h hne]
  exact Bool.false_ne_true

theorem b0WaitLoop_ends (h : Handle) (retries : Nat) {prev : List Heard} {x : Heard} {xs : List Heard}
    (hprev : xfers prev = x :: xs) : Says Machine.heard (B0Waits x xs) (b0WaitLoop h retries) fun r m' os =>
      ∃ y ys, xfers (prev ++ os) = y :: ys ∧ B0Ended r y ys m' := by
  induction retries generalizing prev x xs with
  | zero =>
    apply Says.pure'
    intro m hm
    rw [List.append_nil]
    exact ⟨x, xs, hprev, hm⟩
  | succ retries ih =>
    intro m r m' hm hrun
    obtain ⟨flags, m1, h1, hrun⟩ := bind_some.mp hrun
    cases h1
    -- what the rest of the loop does after more transfers
    have hmore : ∀ {m1 : Machine} {os : List Heard} {y : Heard} {ys : List Heard}, m1.heard = m.heard ++ os →
        xfers os = y :: ys → B0Waits y (ys ++ x :: xs) m1 → b0WaitLoop h retries m1 = some (r, m') →
        ∃ os, m'.heard = m.heard ++ os ∧ ∃ y ys, xfers (prev ++ os) = y :: ys ∧ B0Ended r y ys m' := by
      intro m1 os y ys hos hys hw hrun
      have hprev1 : xfers (prev ++ os) = y :: (ys ++ x :: xs) := by
        rw [xfers_append, hys, hprev, List.cons_append]
      obtain ⟨os', hos', z, zs, hzs, hend⟩ := ih hprev1 m1 r m' hw hrun
      refine ⟨os ++ os', by rw [hos', hos, List.append_assoc], z, zs, ?_, hend⟩
      rw [← List.append_assoc]
      exact hzs
    by_cases hready : m.sstc 0 = spiShReadyCmdBitMask
    · rw [if_pos hready] at hrun
      obtain ⟨rfl, rfl⟩ := pure_some.mp hrun
      exact ⟨[], (List.append_nil _).symm, x, xs, by rw [List.append_nil, hprev], hm⟩
    rw [if_neg hready] at hrun
    by_cases hwaiting : m.sstc 0 &&& socOutWaiting ≠ 0
    · rw [if_pos hwaiting] at hrun
      obtain ⟨_, m1, h1, hrun⟩ := bind_some.mp hrun
      obtain ⟨y, htrans, hflags⟩ := preRead_transferred h1
      refine hmore htrans.heard (xfers_xfer htrans.isXfer) ?_ hrun
      exact hm.more hready htrans.flags (by simp) fun hread => absurd hread (not_isRead hflags (by decide))
    rw [if_neg hwaiting] at hrun
    by_cases hactive : m.sstc 0 &&& socOutActive ≠ 0
    · rw [if_pos hactive] at hrun
      obtain ⟨rc, m1, h1, hrest⟩ := bind_some.mp hrun
      rcases read_transferred h1 with ⟨-, hrc, rfl⟩ | ⟨-, y, htrans, hflags⟩
      · -- nothing is read: the last flags are not the mask
        rw [if_pos hrc] at hrest
        obtain ⟨rfl, rfl⟩ := pure_some.mp hrest
        refine ⟨[], (List.append_nil _).symm, x, xs, by rw [List.append_nil, hprev], hrc, fun hmask => ?_, ?_⟩
        · exact absurd (hm.flags.trans hmask) hready
        · exact hm.noHeader hready
      · have hread : y.isRead = true := by simp [Heard.isRead, hflags]
        by_cases hrc : rc = 0
        · rw [if_neg (not_not.mpr hrc)] at hrest
          refine hmore htrans.heard (xfers_xfer htrans.isXfer) ?_ hrest
          exact hm.more hready htrans.flags (by simp) fun _ => by rw [htrans.succeeds, hrc]; rfl
        · rw [if_pos hrc] at hrest
          obtain ⟨rfl, rfl⟩ := pure_some.mp hrest
          have hfailed : y.event.succeeds = false := by simp [htrans.succeeds, hrc]
          refine ⟨[y], htrans.heard, y, x :: xs, ?_, hrc, fun _ => hread, ?_⟩
          · rw [xfers_append, xfers_xfer htrans.isXfer, hprev]
            rfl
          · -- the failed read brings no header
            simpa [lastHeader_cons, hfailed] using hm.noHeader hready
    · rw [if_neg hactive] at hrun
      obtain ⟨_, m1, h1, hrun⟩ := bind_some.mp hrun
      obtain ⟨os, hos, y, ys, hys, hflags, hlast, hzeros⟩ := b0PollSoc_polls h m _ m1 trivial h1
      refine hmore hos hys (hm.more hready hlast (fun z hz => ?_) fun hread => ?_) hrun
      · rw [hzeros z hz]
        decide
      · exact absurd hread (not_isRead hflags (by decide))

/-- How `qmrom_b0_wait_ready` ends: with the mask left by the last transfer and by no other, unless that
was a read that failed, or with an error and no header with the mask. -/
theorem b0WaitReady_ends (h : Handle) : Says Machine.heard (fun _ => True) (qmromB0WaitReady h) fun rc _ os =>
    ∃ x xs, xfers os = x :: xs ∧
      ((rc = 0 ∧ x.flags = spiShReadyCmdBitMask ∧ (∀ y ∈ xs, y.flags ≠ spiShReadyCmdBitMask) ∧
          (x.isRead = true → x.event.succeeds = true)) ∨
        (rc ≠ 0 ∧ (x.flags = spiShReadyCmdBitMask → x.isRead = true) ∧
          lastHeader (x :: xs) ≠ some spiShReadyCmdBitMask)) := by
  intro m rc m' _ hrun
  obtain ⟨_, m1, h1, hrun⟩ := bind_some.mp hrun
  obtain ⟨r, m2, h2, hrun⟩ := bind_some.mp hrun
  obtain ⟨os, hos, x, xs, hxs, hflags, hlast, hzeros⟩ := b0PollSoc_polls h m _ m1 trivial h1
  have hwaits : B0Waits x xs m1 := by
    refine ⟨hlast, fun y hy => ?_, fun hread => ?_⟩
    · rw [hzeros y hy]
      decide
    · exact absurd hread (not_isRead hflags (by decide))
  obtain ⟨os', hos', y, ys, hys, hend⟩ := b0WaitLoop_ends h h.retries hxs m1 r m2 hwaits h2
  have hheard : m2.heard = m.heard ++ (os ++ os') := by rw [hos', hos, List.append_assoc]
  cases r with
  | some rc' =>
    obtain ⟨rfl, rfl⟩ := pure_some.mp hrun
    exact ⟨os ++ os', hheard, y, ys, hys, .inr hend⟩
  | none =>
    obtain ⟨flags, m3, h3, hrun⟩ := bind_some.mp hrun
    cases h3
    obtain ⟨hrc, rfl⟩ := pure_some.mp hrun
    refine ⟨os ++ os', hheard, y, ys, hys, ?_⟩
    have hwaits : B0Waits y ys m2 := hend
    by_cases hready : m2.sstc 0 = spiShReadyCmdBitMask
    · rw [if_pos hready] at hrc
      exact .inl ⟨hrc.symm, hwaits.flags.symm.trans hready, hwaits.earlier, hwaits.read⟩
    · rw [if_neg hready] at hrc
      refine .inr ⟨by rw [← hrc]; decide, fun hmask => ?_, hwaits.noHeader hready⟩
      exact absurd (hwaits.flags.trans hmask) hready

/-! The wait of the C0. -/

/-- Where the loop of the C0 stands after the transfers `xs`: the flags are the mask exactly where the last
transfer has left it, that was not the read of an active output, and after a pre-read alone more has been
announced than a frame holds. -/
structure C0Waits (xs : List Heard) (m : Machine) : Prop where
  flags : xs.head?.map Heard.flags = some spiShReadyCmdBitMaskC0 ↔ m.sstc 0 = spiShReadyCmdBitMaskC0
  active : SocProbe.c0.readsActive xs = false
  announced : xs.head?.any Heard.isPreRead = true → maxStcFrameLen < m.sstc.le16 2

/-- How the loop ends: as it stands, with the error of a read that is refused, or with the read of an
active output. -/
def C0Ended (r : Option Int) (xs : List Heard) (m : Machine) : Prop :=
  match r with
  | none => C0Waits xs m
  | some rc => (rc ≠ 0 ∧ xs.head?.map Heard.flags ≠ some spiShReadyCmdBitMaskC0 ∧ SocProbe.c0.readsActive xs = false) ∨
      ∃ x ys, xs = x :: ys ∧ SocProbe.c0.readsActive xs = true ∧ x.event.succeeds = (rc == 0)

/-- After a transfer that is no read of an active output. -/
theorem C0Waits.of_last {x : Heard} {xs : List Heard} {m : Machine} (hflags : m.sstc 0 = x.flags)
    (hactive : SocProbe.c0.readsActive (x :: xs) = false) (hpre : x.isPreRead = true → maxStcFrameLen < m.sstc.le16 2) :
    C0Waits (x :: xs) m := by
  refine ⟨?_, hactive, by simpa using hpre⟩
  rw [hflags]
  simp

theorem c0_noRead {x : Heard} {flags : UInt8} (xs : List Heard) (h : x.event.flags = some flags)
    (hne : flags ≠ hostRead) : SocProbe.c0.readsActive (x :: xs) = false := by
  simp [SocProbe.readsActive, isRead_of_flags h hne]

/-- The pre-read and the read of a waiting output. -/
theorem c0Waiting_more {m m1 m2 : Machine} {rc1 rc2 : Int} (xs : List Heard) (h1 : qmromPreReadC0 m = some (rc1, m1))
    (h2 : qmromReadC0 m1 = some (rc2, m2)) :
    ∃ os, m2.heard = m.heard ++ os ∧ C0Waits (xfers os ++ xs) m2 := by
  obtain ⟨m1', w, hw, hnone, -, h1⟩ := afterReadyLine_some h1
  obtain ⟨p, hpre, hpflags⟩ := preRead_transferred h1
  obtain ⟨m2', w', hw', hnone', hsstc, h2⟩ := afterReadyLine_some h2
  have hheard : m2'.heard = m.heard ++ ([w] ++ [p] ++ [w']) := by
    rw [hw', hpre.heard, hw]
    simp
  have hxfers : xfers ([w] ++ [p] ++ [w']) = [p] := by
    rw [xfers_append, xfers_append, hnone, hnone', xfers_xfer hpre.isXfer]
    rfl
  rcases read_transferred h2 with ⟨hbig, -, rfl⟩ | ⟨-, x, hread, hxflags⟩
  · refine ⟨_, hheard, ?_⟩
    rw [hxfers]
    refine C0Waits.of_last (by rw [hsstc, hpre.flags]) (c0_noRead _ hpflags (by decide)) fun _ => hbig
  · refine ⟨[w] ++ [p] ++ [w'] ++ [x], by rw [hread.heard, hheard, List.append_assoc], ?_⟩
    rw [xfers_append, hxfers, xfers_xfer hread.isXfer]
    refine C0Waits.of_last hread.flags ?_ fun h => ?_
    · simp [SocProbe.readsActive, Heard.isPreRead, hpflags]
    · rw [Heard.isPreRead, hxflags] at h
      cases h

/-- A poll, where the last transfer before it has not left the mask. -/
theorem c0Waits_poll {h : Handle} {xs : List Heard} {m m1 : Machine} {u : Unit}
    (hmask : xs.head?.map Heard.flags ≠ some spiShReadyCmdBitMaskC0) (hactive : SocProbe.c0.readsActive xs = false)
    (hannounced : xs.head?.any Heard.isPreRead = true → maxStcFrameLen < m.sstc.le16 2)
    (h1 : qmromC0PollSoc h m = some (u, m1)) : ∃ os, m1.heard = m.heard ++ os ∧ C0Waits (xfers os ++ xs) m1 := by
  obtain ⟨os, hos, hpolled⟩ := c0PollSoc_polls h (m.sstc.le16 2) m u m1 rfl h1
  refine ⟨os, hos, ?_⟩
  rcases hpolled with ⟨hnone, hzero, hlen⟩ | ⟨x, ys, hys, hflags, hlast⟩
  · rw [hnone, List.nil_append]
    refine ⟨iff_of_false hmask ?_, hactive, fun hpre => ?_⟩
    · rw [hzero]
      decide
    · rw [hlen]
      exact hannounced hpre
  · rw [hys, List.cons_append]
    refine C0Waits.of_last hlast (c0_noRead _ hflags (by decide)) fun hpre => ?_
    rw [Heard.isPreRead, hflags] at hpre
    cases hpre

theorem c0WaitLoop_ends (h : Handle) (retries : Nat) (prev : List Heard) :
    Says Machine.heard (C0Waits (xfers prev)) (c0WaitLoop h retries) fun r m' os => C0Ended r (xfers (prev ++ os)) m' := by
  induction retries generalizing prev with
  | zero =>
    apply Says.pure'
    intro m hm
    rw [List.append_nil]
    exact hm
  | succ retries ih =>
    intro m r m' hm hrun
    obtain ⟨flags, m1, h1, hrun⟩ := bind_some.mp hrun
    cases h1
    -- what the rest of the loop does after more transfers
    have hmore : ∀ {m1 : Machine}, (∃ os, m1.heard = m.heard ++ os ∧ C0Waits (xfers os ++ xfers prev) m1) →
        c0WaitLoop h retries m1 = some (r, m') →
        ∃ os, m'.heard = m.heard ++ os ∧ C0Ended r (xfers (prev ++ os)) m' := by
      intro m1 ⟨os, hos, hw⟩ hrun
      rw [← xfers_append] at hw
      obtain ⟨os', hos', hend⟩ := ih (prev ++ os) m1 r m' hw hrun
      rw [List.append_assoc] at hend
      exact ⟨os ++ os', by rw [hos', hos, List.append_assoc], hend⟩
    by_cases hready : m.sstc 0 = spiShReadyCmdBitMaskC0
    · rw [if_pos hready] at hrun
      obtain ⟨rfl, rfl⟩ := pure_some.mp hrun
      refine ⟨[], (List.append_nil _).symm, ?_⟩
      show C0Waits (xfers (prev ++ [])) m
      rw [List.append_nil]
      exact hm
    rw [if_neg hready] at hrun
    by_cases hwaiting : m.sstc 0 &&& socOutWaiting ≠ 0
    · rw [if_pos hwaiting] at hrun
      obtain ⟨_, m1, h1, hrun⟩ := bind_some.mp hrun
      obtain ⟨_, m2, h2, hrun⟩ := bind_some.mp hrun
      exact hmore (c0Waiting_more _ h1 h2) hrun
    rw [if_neg hwaiting] at hrun
    by_cases hactive : m.sstc 0 &&& socOutActive ≠ 0
    · rw [if_pos hactive] at hrun
      obtain ⟨rc, m1, h1, hrest⟩ := bind_some.mp hrun
      obtain ⟨rfl, rfl⟩ := pure_some.mp hrest
      obtain ⟨m2, w, hw, hnone, hsstc, h1⟩ := afterReadyLine_some h1
      rcases read_transferred h1 with ⟨-, hrc, rfl⟩ | ⟨hfits, x, htrans, hflags⟩
      · refine ⟨[w], hw, .inl ?_⟩
        rw [xfers_append, hnone, List.nil_append]
        exact ⟨hrc, fun hmask => hready (hm.flags.mp hmask), hm.active⟩
      · refine ⟨[w] ++ [x], by rw [htrans.heard, hw, List.append_assoc], .inr ⟨x, xfers prev, ?_, ?_, htrans.succeeds⟩⟩
        · rw [xfers_append, xfers_append, hnone, xfers_xfer htrans.isXfer]
          rfl
        · -- a pre-read before it would have announced too much for this read
          have hlone : (xfers prev).head?.any Heard.isPreRead = false := by
            by_contra hpre
            have hbig := hm.announced (Bool.eq_true_of_not_eq_false hpre)
            rw [hsstc] at hfits
            exact absurd hbig (Nat.not_lt.mpr hfits)
          rw [xfers_append, xfers_append, hnone, xfers_xfer htrans.isXfer]
          simp [SocProbe.readsActive, Heard.isRead, hflags, hlone]
    · rw [if_neg hactive] at hrun
      obtain ⟨_, m1, h1, hrun⟩ := bind_some.mp hrun
      exact hmore (c0Waits_poll (fun hmask => hready (hm.flags.mp hmask)) hm.active hm.announced h1) hrun

/-- How `qmrom_c0_wait_ready` ends: with the mask left by the last transfer, with another flags byte and an
error, or with the read of an active output, whose result it returns. -/
theorem c0WaitReady_ends (h : Handle) : Says Machine.heard (fun _ => True) (qmromC0WaitReady h) fun rc _ os =>
    (SocProbe.c0.readsActive (xfers os) = false ∧
        ((xfers os).head?.map Heard.flags = some spiShReadyCmdBitMaskC0 ↔ rc = 0)) ∨
      ∃ x xs, xfers os = x :: xs ∧ SocProbe.c0.readsActive (xfers os) = true ∧ x.event.succeeds = (rc == 0) := by
  intro m rc m' _ hrun
  obtain ⟨_, m1, h1, hrun⟩ := bind_some.mp hrun
  obtain ⟨r, m2, h2, hrun⟩ := bind_some.mp hrun
  have hpolled : ∃ os, m1.heard = m.heard ++ os ∧ C0Waits (xfers os ++ []) m1 := c0Waits_poll (by simp) rfl (by simp) h1
  obtain ⟨os, hos, hwaits⟩ := hpolled
  rw [List.append_nil] at hwaits
  obtain ⟨os', hos', hend⟩ := c0WaitLoop_ends h h.retries os m1 r m2 hwaits h2
  have hheard : m2.heard = m.heard ++ (os ++ os') := by rw [hos', hos, List.append_assoc]
  cases r with
  | some rc' =>
    obtain ⟨rfl, rfl⟩ := pure_some.mp hrun
    refine ⟨os ++ os', hheard, ?_⟩
    rcases hend with ⟨hrc, hmask, hactive⟩ | hread
    · exact .inl ⟨hactive, iff_of_false hmask hrc⟩
    · exact .inr hread
  | none =>
    obtain ⟨flags, m3, h3, hrun⟩ := bind_some.mp hrun
    cases h3
    obtain ⟨hrc, rfl⟩ := pure_some.mp hrun
    refine ⟨os ++ os', hheard, .inl ⟨hend.active, ?_⟩⟩
    rw [hend.flags, ← hrc]
    by_cases hready : m2.sstc 0 = spiShReadyCmdBitMaskC0
    · simp [hready]
    · rw [if_neg hready]
      exact iff_of_false hready (by decide)

/-! What a return of 0 means. -/

/-- What a call of the B0 says of itself: 0 means the mask exactly where its last transfer is no poll or
pre-read that has failed. -/
theorem b0_truthful_iff {rc : Int} {x : Heard} {xs : List Heard}
    (hend : (rc = 0 ∧ x.flags = spiShReadyCmdBitMask ∧ (∀ y ∈ xs, y.flags ≠ spiShReadyCmdBitMask) ∧
        (x.isRead = true → x.event.succeeds = true)) ∨
      (rc ≠ 0 ∧ (x.flags = spiShReadyCmdBitMask → x.isRead = true) ∧
        lastHeader (x :: xs) ≠ some spiShReadyCmdBitMask)) :
    (rc = 0 → lastHeader (x :: xs) = some spiShReadyCmdBitMask) ↔ SocProbe.b0.Truthful x xs := by
  rw [lastHeader_cons]
  unfold SocProbe.Truthful
  rcases hend with ⟨rfl, hmask, hearlier, hread⟩ | ⟨hrc, hread, -⟩
  · cases hsucceeds : x.event.succeeds with
    | true => simp [hmask, hsucceeds]
    | false =>
      have hnever : lastHeader xs ≠ some spiShReadyCmdBitMask := lastHeader_ne hearlier
      rw [hsucceeds] at hread
      simpa [hmask, hnever, hsucceeds] using hread
  · exact iff_of_true (fun h0 => absurd h0 hrc) fun _ => hread

/-- The same for the C0. -/
theorem c0_truthful_iff {rc : Int} {x : Heard} {xs : List Heard}
    (hend : (SocProbe.c0.readsActive (x :: xs) = false ∧ (x.flags = spiShReadyCmdBitMaskC0 ↔ rc = 0)) ∨
      (SocProbe.c0.readsActive (x :: xs) = true ∧ x.event.succeeds = (rc == 0))) :
    (rc = 0 → lastHeader (x :: xs) = some spiShReadyCmdBitMaskC0) ↔ SocProbe.c0.Truthful x xs := by
  rw [SocProbe.Truthful, lastHeader_cons]
  rcases hend with ⟨hactive, hrc⟩ | ⟨hactive, hsucceeds⟩
  · rw [hactive, if_neg Bool.false_ne_true, ← hrc]
    cases hs : x.event.succeeds <;> simp
  · rw [hactive, if_pos rfl, hsucceeds]
    by_cases hrc : rc = 0 <;> simp [hrc]

/-- One call: it means what it returns exactly where its last transfer is truthful. -/
theorem waitReady_truthful_iff (p : SocProbe) {h : Handle} {m m' : Machine} {rc : Int} {os : List Heard}
    (hrun : p.waitReady h m = some (rc, m')) (hheard : m'.heard = m.heard ++ os) :
    (rc = 0 → lastHeader (xfers os) = some p.readyMask) ↔ ∀ x xs, xfers os = x :: xs → p.Truthful x xs := by
  cases p with
  | b0 =>
    obtain ⟨os', hos', x, xs, hxs, hend⟩ := b0WaitReady_ends h m rc m' trivial hrun
    obtain rfl := List.append_cancel_left (hheard.symm.trans hos')
    rw [hxs]
    simp only [SocProbe.readyMask, List.cons.injEq, and_imp, forall_eq', forall_apply_eq_imp_iff]
    exact b0_truthful_iff hend
  | c0 =>
    obtain ⟨os', hos', hend⟩ := c0WaitReady_ends h m rc m' trivial hrun
    obtain rfl := List.append_cancel_left (hheard.symm.trans hos')
    cases hxs : xfers os with
    | nil =>
      -- nothing was transferred, and 0 is not returned
      rw [hxs] at hend
      have hrc : rc ≠ 0 := by
        rcases hend with ⟨-, hmask⟩ | ⟨x, xs, hnil, -⟩
        · intro h0
          cases hmask.mpr h0
        · cases hnil
      exact iff_of_true (fun h0 => absurd h0 hrc) fun x xs hnil => nomatch hnil
    | cons x xs =>
      rw [hxs] at hend
      simp only [SocProbe.readyMask, List.cons.injEq, and_imp, forall_eq', forall_apply_eq_imp_iff]
      apply c0_truthful_iff
      simpa using hend

/-- A return of 0 from the wait can be believed exactly where the device and the bus are truthful. -/
theorem readySound_iff (p : SocProbe) (h : Handle) (m : Machine) : ReadySound p h m ↔ ReadyTruthful p h m := by
  constructor
  · intro hsound rc m' os x xs hrun hheard hxs
    refine (waitReady_truthful_iff p hrun hheard).mp (fun h0 => ?_) x xs hxs
    subst h0
    exact hsound m' os hrun hheard
  · intro htruthful m' os hrun hheard
    refine (waitReady_truthful_iff p hrun hheard).mpr (fun x xs hxs => ?_) rfl
    exact htruthful 0 m' os x xs hrun hheard hxs

/-- All transfers fail and leave the mask the buffer has had before. -/
def staleBus (_ : Nat) : Answer := ⟨-5, fun i => if i = 0 then spiShReadyCmdBitMask else 0, true⟩

/-- A device with its output active, whose header is not the mask when it is read. -/
def activeDevice (n : Nat) : Answer := ⟨0, fun i => if i = 0 ∧ n = 1 then socOutActive else 0, true⟩

/-- The B0 is found ready by transfers that have all failed, the C0 by a read without the mask. -/
theorem not_readySound : (¬∀ h m, 0 ≤ h.commsRetries → ReadySound .b0 h m) ∧
    ¬∀ h m, 0 ≤ h.commsRetries → ReadySound .c0 h m := by
  constructor
  · intro hall
    have heval : (qmromB0WaitReady ⟨10, 0xB0, 5, none⟩ (machineInit (staleBus 0).bytes (staleBus 0).bytes staleBus)).map
        (fun r => (r.1, lastHeader (xfers r.2.heard))) = some (0, none) := by
      decide +kernel
    obtain ⟨⟨rc, m'⟩, hrun, heq⟩ := Option.map_eq_some_iff.mp heval
    obtain ⟨rfl, hlast⟩ := Prod.mk.inj heq
    have hmask := hall ⟨10, 0xB0, 5, none⟩ _ (by decide) m' _ hrun (List.nil_append _).symm
    cases hmask.symm.trans hlast
  · intro hall
    have heval : (qmromC0WaitReady ⟨10, 0xC0, 5, none⟩ (machineInit (fun _ => 0) (fun _ => 0) activeDevice)).map
        (fun r => (r.1, lastHeader (xfers r.2.heard))) = some (0, some 0) := by
      decide +kernel
    obtain ⟨⟨rc, m'⟩, hrun, heq⟩ := Option.map_eq_some_iff.mp heval
    obtain ⟨rfl, hlast⟩ := Prod.mk.inj heq
    have hmask := hall ⟨10, 0xC0, 5, none⟩ _ (by decide) m' _ hrun (List.nil_append _).symm
    cases hmask.symm.trans hlast

end Qm35.Qmrom
