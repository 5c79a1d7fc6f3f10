import Qm35.Rom.Ready

/- What the polling for a response returns (`qmrom_b0_poll_cmd_resp`,
   `qmrom_c0_poll_cmd_resp`). The first iteration that sees output-waiting pre-reads and
   reads, and ends the call; a response is there where the pre-read has succeeded, the
   length it announces can be accepted and the read has succeeded.

   Both drop the result of the pre-read, and take the length from `sstc` whatever that
   was. The C0 returns the result of the read. The B0 drops it, leaves the loop, and tells
   from its counter whether there was a response: that is 0 in the last iteration, with
   a response or without. So the C0 is right where the read does not succeed after a
   pre-read that has failed, and the B0 where one of them fails exactly in the last
   iteration (`response_exact_iff`). -/
namespace Qm35.Qmrom

open ByteMem Trace

def SocProbe.pollSoc : SocProbe → Handle → Rom Unit
  | .b0 => qmromB0PollSoc
  | .c0 => qmromC0PollSoc

def SocProbe.preRead : SocProbe → Rom Int
  | .b0 => qmromPreRead
  | .c0 => qmromPreReadC0

def SocProbe.read : SocProbe → Rom Int
  | .b0 => qmromRead
  | .c0 => qmromReadC0

/-- The length of the longest response that is read. -/
def SocProbe.maxResp : SocProbe → Nat
  | .b0 => 0xff
  | .c0 => maxStcFrameLen

/-- The handle with this value of `qmrom_retries`. -/
def Handle.withRetries (h : Handle) (n : Int32) : Handle := { h with commsRetries := n.toInt }

/-- `sstc->soc_flags.out_waiting` -/
def OutWaiting (m : Machine) : Prop := m.sstc 0 &&& socOutWaiting ≠ 0

instance (m : Machine) : Decidable (OutWaiting m) := inferInstanceAs (Decidable (_ ≠ _))

/-- The machine at the start of an iteration: after the first poll, and then after the poll of an
iteration that has not seen output-waiting. -/
inductive Iteration (p : SocProbe) (h : Handle) (m : Machine) : Nat → Machine → Prop where
  | first {m' : Machine} : p.pollSoc h m = some ((), m') → Iteration p h m 0 m'
  | next {i : Nat} {m1 m2 : Machine} : Iteration p h m i m1 → ¬OutWaiting m1 → p.pollSoc h m1 = some ((), m2) →
      Iteration p h m (i + 1) m2

/-- One of the `n + 1` iterations sees output-waiting, its pre-read announces a length that can be accepted and
its read succeeds. -/
def Responds (p : SocProbe) (h : Handle) (m : Machine) (n : Nat) : Prop :=
  ∃ i m1 m2 m3, i ≤ n ∧ Iteration p h m i m1 ∧ OutWaiting m1 ∧ p.preRead m1 = some (0, m2) ∧
    m2.sstc.le16 2 ≤ p.maxResp ∧ p.read m2 = some (0, m3)

/-- The call returns 0 exactly where there is a response. -/
def ResponseExact (p : SocProbe) (h : Handle) (m : Machine) : Prop :=
  ∀ rc m', p.pollCmdResp h m = some (rc, m') → (rc = 0 ↔ Responds p h m h.commsRetries.toNat)

/-- What the answers `rc` to the pre-read and `rc'` to the read of iteration `i` have to be. The B0 takes any
for a response, except in the last iteration, and the C0 looks at the second. -/
def SocProbe.Timely : SocProbe → (n i : Nat) → (rc rc' : Int) → Prop
  | .b0, n, i, rc, rc' => rc = 0 ∧ rc' = 0 ↔ i < n
  | .c0, _, _, rc, rc' => rc' = 0 → rc = 0

/-- The answers are such where an iteration sees output-waiting and the length can be accepted. -/
def Timely (p : SocProbe) (h : Handle) (m : Machine) : Prop :=
  ∀ i m1 rc m2 rc' m3, i ≤ h.commsRetries.toNat → Iteration p h m i m1 → OutWaiting m1 →
    p.preRead m1 = some (rc, m2) → m2.sstc.le16 2 ≤ p.maxResp → p.read m2 = some (rc', m3) →
    p.Timely h.commsRetries.toNat i rc rc'

/-- A budget that is not negative is counted down to 0. -/
theorem retries_withRetries (h : Handle) {n : Int32} (hn : 0 ≤ n) :
    (h.withRetries n).retries = n.toInt.toNat ∧ n.toInt.toNat < 2147483648 := by
  have hpos : 0 ≤ n.toInt := Int32.le_iff_toInt_le.mp hn
  have hlt : n.toInt < 2147483648 := Int32.toInt_lt n
  unfold Handle.retries Handle.withRetries
  constructor
  · rw [Int.emod_eq_of_lt hpos (by omega)]
  · omega

/-! The iterations. -/

section Iterations
variable {p : SocProbe} {h : Handle} {m m1 m2 : Machine} {i j : Nat}

theorem Iteration.unique (h1 : Iteration p h m i m1) (h2 : Iteration p h m i m2) : m1 = m2 := by
  induction h1 generalizing m2 with
  | first hpoll =>
    cases h2 with
    | first hpoll2 => exact (run_unique hpoll hpoll2).2
  | next _ _ hpoll ih =>
    cases h2 with
    | next hprev _ hpoll2 =>
      rw [← ih hprev] at hpoll2
      exact (run_unique hpoll hpoll2).2

/-- Where there is another iteration, none before it has seen output-waiting. -/
theorem Iteration.earlier (h1 : Iteration p h m i m1) (h2 : Iteration p h m j m2) (hj : j < i) : ¬OutWaiting m2 := by
  induction h1 with
  | first _ => exact absurd hj (Nat.not_lt_zero _)
  | next hprev hnone _ ih =>
    rcases Nat.lt_succ_iff_lt_or_eq.mp hj with hj | rfl
    · exact ih hj
    · rw [← hprev.unique h2]
      exact hnone

/-- Only one iteration sees output-waiting. -/
theorem Iteration.waiting_unique (h1 : Iteration p h m i m1) (hw1 : OutWaiting m1) (h2 : Iteration p h m j m2)
    (hw2 : OutWaiting m2) : i = j ∧ m1 = m2 := by
  rcases Nat.lt_trichotomy i j with hlt | rfl | hlt
  · exact absurd hw1 (h2.earlier h1 hlt)
  · exact ⟨rfl, h1.unique h2⟩
  · exact absurd hw2 (h1.earlier h2 hlt)

end Iterations

/-! The loops. -/

/-- One pass of the loop, with `retries` left, and what follows it. -/
def SocProbe.respPass : SocProbe → Handle → Nat → Rom Int → Rom Int
  | .b0, h, retries, next => b0RespPass h retries next
  | .c0, h, _, next => c0RespPass h next

def SocProbe.respLoop : SocProbe → Handle → Nat → Rom Int
  | .b0 => b0RespLoop
  | .c0 => c0RespLoop

/-- What a pass does that sees output-waiting. -/
def SocProbe.exchange : SocProbe → Nat → Rom Int
  | .b0, retries => do
    let _ ← qmromPreRead
    let len ← sstcLen
    if 0xff < len then pure (-1)
    else do
      let _ ← qmromRead
      pure (if 0 < retries ∧ retries < 2147483648 then 0 else -1)
  | .c0, _ => do
    let _ ← qmromPreReadC0
    qmromReadC0

section Loop
variable {p : SocProbe} {h : Handle} {retries : Nat} {next : Rom Int} {m m1 m' : Machine} {rc : Int}

theorem pollCmdResp_eq (p : SocProbe) (h : Handle) :
    p.pollCmdResp h = (do p.pollSoc h; p.respLoop h h.retries) := by
  cases p <;> rfl

theorem respLoop_zero : p.respLoop h 0 = p.respPass h 0 (pure (-1)) := by
  cases p <;> rfl

theorem respLoop_succ : p.respLoop h (retries + 1) = p.respPass h (retries + 1) (p.respLoop h retries) := by
  cases p <;> rfl

theorem respPass_waiting (hw : OutWaiting m) : p.respPass h retries next m = p.exchange retries m := by
  cases p with
  | b0 => exact congrFun (if_pos hw) m
  | c0 => exact congrFun (if_pos hw) m

theorem respPass_poll (hw : ¬OutWaiting m) :
    p.respPass h retries next m = (do p.pollSoc h; next : Rom Int) m := by
  cases p with
  | b0 => exact congrFun (if_neg hw) m
  | c0 => exact congrFun (if_neg hw) m

/-- From iteration `i` of `n + 1`, the loop ends with the exchange of the one that sees output-waiting, or
in error where none does. -/
theorem respLoop_ends {n i : Nat} (hleft : i + retries = n) (hi : Iteration p h m i m1)
    (hrun : p.respLoop h retries m1 = some (rc, m')) :
    (∃ j m2, j ≤ n ∧ Iteration p h m j m2 ∧ OutWaiting m2 ∧ p.exchange (n - j) m2 = some (rc, m')) ∨
      (rc = -1 ∧ ∀ j m2, j ≤ n → Iteration p h m j m2 → ¬OutWaiting m2) := by
  induction retries generalizing i m1 with
  | zero =>
    rw [Nat.add_zero] at hleft
    subst hleft
    rw [respLoop_zero] at hrun
    by_cases hw : OutWaiting m1
    · rw [respPass_waiting hw] at hrun
      exact .inl ⟨i, m1, le_refl _, hi, hw, by rwa [Nat.sub_self]⟩
    · rw [respPass_poll hw] at hrun
      obtain ⟨_, m2, h1, hrun⟩ := bind_some.mp hrun
      obtain ⟨rfl, -⟩ := pure_some.mp hrun
      refine .inr ⟨rfl, fun j m3 hj h3 => ?_⟩
      exact (hi.next hw h1).earlier h3 (Nat.lt_succ_of_le hj)
  | succ retries ih =>
    rw [respLoop_succ] at hrun
    by_cases hw : OutWaiting m1
    · rw [respPass_waiting hw] at hrun
      refine .inl ⟨i, m1, by omega, hi, hw, ?_⟩
      rwa [show n - i = retries + 1 by omega]
    · rw [respPass_poll hw] at hrun
      obtain ⟨_, m2, h1, hrun⟩ := bind_some.mp hrun
      exact ih (by omega) (hi.next hw h1) hrun

end Loop

/-! The exchange. -/

theorem sstcLen_some {m m' : Machine} {len : Nat} (hx : sstcLen m = some (len, m')) :
    len = m.sstc.le16 2 ∧ m' = m := by
  cases hx
  exact ⟨rfl, rfl⟩

/-- What is taken for a response: on the B0 that the counter has not come to 0, on the C0 the result of the
read. -/
def SocProbe.Reports : SocProbe → (left : Nat) → (rc' : Int) → Prop
  | .b0, left, _ => 0 < left
  | .c0, _, rc' => rc' = 0

/-- The exchange returns 0 where the length can be accepted and there seems to be a response. -/
theorem exchange_zero {p : SocProbe} {left : Nat} {m m' m1 m2 : Machine} {rc rc1 rc2 : Int} (hlt : left < 2147483648)
    (hx : p.exchange left m = some (rc, m')) (hpre : p.preRead m = some (rc1, m1)) (hread : p.read m1 = some (rc2, m2)) :
    rc = 0 ↔ m1.sstc.le16 2 ≤ p.maxResp ∧ p.Reports left rc2 := by
  cases p with
  | b0 =>
    obtain ⟨rc1', m1', h1, hx⟩ := bind_some.mp hx
    obtain ⟨-, rfl⟩ := run_unique h1 hpre
    obtain ⟨len, m2', h2, hx⟩ := bind_some.mp hx
    obtain ⟨rfl, rfl⟩ := sstcLen_some h2
    by_cases hbig : 0xff < m2'.sstc.le16 2
    · rw [if_pos hbig] at hx
      obtain ⟨rfl, -⟩ := pure_some.mp hx
      exact iff_of_false (by decide) fun h => absurd hbig (Nat.not_lt.mpr h.1)
    · rw [if_neg hbig] at hx
      obtain ⟨_, m3, _, hx⟩ := bind_some.mp hx
      obtain ⟨rfl, -⟩ := pure_some.mp hx
      have hle : m2'.sstc.le16 2 ≤ SocProbe.b0.maxResp := Nat.le_of_not_lt hbig
      by_cases hleft : 0 < left <;> simp [SocProbe.Reports, hleft, hlt, hle]
  | c0 =>
    obtain ⟨rc1', m1', h1, h2⟩ := bind_some.mp hx
    obtain ⟨-, rfl⟩ := run_unique h1 hpre
    obtain ⟨rfl, rfl⟩ := run_unique h2 hread
    refine ⟨fun h0 => ⟨?_, h0⟩, fun h => h.2⟩
    -- a read that succeeds has not been refused
    obtain ⟨m3, w, -, -, hsstc, hread⟩ := afterReadyLine_some h2
    rcases read_transferred hread with ⟨-, hrc, -⟩ | ⟨hfits, -⟩
    · exact absurd h0 hrc
    · rwa [hsstc] at hfits

/-- A response is reported exactly where there is one. -/
theorem timely_iff {p : SocProbe} {n i : Nat} {rc rc' : Int} :
    p.Timely n i rc rc' ↔ (p.Reports (n - i) rc' ↔ rc = 0 ∧ rc' = 0) := by
  cases p with
  | b0 => exact iff_comm.trans (iff_congr Nat.sub_pos_iff_lt.symm Iff.rfl)
  | c0 =>
    unfold SocProbe.Timely SocProbe.Reports
    tauto

theorem preRead_some (p : SocProbe) (m : Machine) : ∃ rc m', p.preRead m = some (rc, m') := by
  cases p with
  | b0 => exact plain_preRead.safe.some m
  | c0 => exact plain_preReadC0.safe.some m

theorem read_some (p : SocProbe) (m : Machine) : ∃ rc m', p.read m = some (rc, m') := by
  cases p with
  | b0 => exact plain_read.safe.some m
  | c0 => exact plain_readC0.safe.some m

theorem pollCmdResp_some (p : SocProbe) (h : Handle) (m : Machine) : ∃ rc m', p.pollCmdResp h m = some (rc, m') := by
  cases p with
  | b0 => exact (plain_b0PollCmdResp h).safe.some m
  | c0 => exact (plain_c0PollCmdResp h).safe.some m

/-! What the calls return. -/

section Calls
variable {p : SocProbe} {h : Handle} {n : Int32} {m m' m1 m2 m3 : Machine} {rc rc1 rc2 : Int} {i : Nat}

/-- A call ends with the exchange of the iteration that sees output-waiting, or in error where none does. -/
theorem pollCmdResp_ends (hn : 0 ≤ n) (hrun : p.pollCmdResp (h.withRetries n) m = some (rc, m')) :
    (∃ i m1, i ≤ n.toInt.toNat ∧ Iteration p (h.withRetries n) m i m1 ∧ OutWaiting m1 ∧
        p.exchange (n.toInt.toNat - i) m1 = some (rc, m')) ∨
      (rc = -1 ∧ ∀ i m1, i ≤ n.toInt.toNat → Iteration p (h.withRetries n) m i m1 → ¬OutWaiting m1) := by
  rw [pollCmdResp_eq, (retries_withRetries h hn).1] at hrun
  obtain ⟨_, m1, h1, hrun⟩ := bind_some.mp hrun
  exact respLoop_ends (Nat.zero_add _) (.first h1) hrun

/-- Where no iteration sees output-waiting there is no response, and the result is an error. -/
theorem silent_exact (hrc : rc = -1)
    (hnone : ∀ i m1, i ≤ n.toInt.toNat → Iteration p (h.withRetries n) m i m1 → ¬OutWaiting m1) :
    rc = 0 ↔ Responds p (h.withRetries n) m n.toInt.toNat := by
  refine iff_of_false (by rw [hrc]; decide) ?_
  rintro ⟨i, m1, -, -, hi, hiter, hw, -⟩
  exact hnone i m1 hi hiter hw

/-- The response is that of the iteration that sees output-waiting. -/
theorem responds_iff (hi : i ≤ n.toInt.toNat) (hiter : Iteration p (h.withRetries n) m i m1) (hw : OutWaiting m1)
    (hpre : p.preRead m1 = some (rc1, m2)) (hread : p.read m2 = some (rc2, m3)) :
    Responds p (h.withRetries n) m n.toInt.toNat ↔ m2.sstc.le16 2 ≤ p.maxResp ∧ rc1 = 0 ∧ rc2 = 0 := by
  constructor
  · rintro ⟨j, m1', m2', m3', -, hiter', hw', hpre', hlen, hread'⟩
    obtain ⟨-, rfl⟩ := hiter.waiting_unique hw hiter' hw'
    obtain ⟨hrc1, rfl⟩ := run_unique hpre hpre'
    exact ⟨hlen, hrc1, (run_unique hread hread').1⟩
  · rintro ⟨hlen, rfl, rfl⟩
    exact ⟨i, m1, m2, m3, hi, hiter, hw, hpre, hlen, hread⟩

end Calls

/-- A budget that is not negative: a call is right about a response exactly where the answers to its pre-read and
its read are timely. -/
theorem response_exact_iff (p : SocProbe) (h : Handle) {n : Int32} (hn : 0 ≤ n) (m : Machine) :
    ResponseExact p (h.withRetries n) m ↔ Timely p (h.withRetries n) m := by
  have hbound := (retries_withRetries h hn).2
  constructor
  · intro hexact i m1 rc1 m2 rc2 m3 hi hiter hw hpre hlen hread
    obtain ⟨rc, m', hrun⟩ := pollCmdResp_some p (h.withRetries n) m
    rcases pollCmdResp_ends hn hrun with ⟨j, m1', -, hiter', hw', hex⟩ | ⟨-, hnone⟩
    · obtain ⟨rfl, rfl⟩ := hiter.waiting_unique hw hiter' hw'
      apply timely_iff.mpr
      calc p.Reports (n.toInt.toNat - i) rc2
          ↔ rc = 0 := by rw [exchange_zero (by omega) hex hpre hread, and_iff_right hlen]
        _ ↔ Responds p (h.withRetries n) m n.toInt.toNat := hexact rc m' hrun
        _ ↔ rc1 = 0 ∧ rc2 = 0 := by rw [responds_iff hi hiter hw hpre hread, and_iff_right hlen]
    · exact absurd hw (hnone i m1 hi hiter)
  · intro htimely rc m' hrun
    rcases pollCmdResp_ends hn hrun with ⟨i, m1, hi, hiter, hw, hex⟩ | ⟨hrc, hnone⟩
    · obtain ⟨rc1, m2, hpre⟩ := preRead_some p m1
      obtain ⟨rc2, m3, hread⟩ := read_some p m2
      calc rc = 0
          ↔ m2.sstc.le16 2 ≤ p.maxResp ∧ p.Reports (n.toInt.toNat - i) rc2 := exchange_zero (by omega) hex hpre hread
        _ ↔ m2.sstc.le16 2 ≤ p.maxResp ∧ rc1 = 0 ∧ rc2 = 0 :=
          and_congr_right fun hlen => timely_iff.mp (htimely i m1 rc1 m2 rc2 m3 hi hiter hw hpre hlen hread)
        _ ↔ Responds p (h.withRetries n) m n.toInt.toNat := (responds_iff hi hiter hw hpre hread).symm
    · exact silent_exact hrc hnone

/-- A device whose output is waiting from call `first` on, with nothing in it, and that fails call `failing`. -/
def waitingDevice (first failing n : Nat) : Answer :=
  ⟨if n = failing then -5 else 0,
    fun i => if i = 0 then (if first ≤ n then socOutWaiting else spiShReadyCmdBitMask) else 0, true⟩

def waitingMachine (first failing : Nat) : Machine := machineInit (fun _ => 0) (fun _ => 0) (waitingDevice first failing)

def plainHandle : Handle := ⟨0, 0, 0, none⟩

/-- A B0 whose response comes in the second of eleven iterations. -/
theorem response_exact_ten : ResponseExact .b0 (plainHandle.withRetries 10) (waitingMachine 1 20) := by
  refine (response_exact_iff .b0 plainHandle (by decide) _).mpr ?_
  intro i m1 rc m2 rc' m3 _ hiter hw hpre _ hread
  have hfirst := Iteration.first (p := .b0) (h := plainHandle.withRetries 10) (m := waitingMachine 1 20) rfl
  have hsecond := hfirst.next (by decide +kernel) rfl
  obtain ⟨rfl, rfl⟩ := hiter.waiting_unique hw hsecond (by decide +kernel)
  obtain ⟨rfl, rfl⟩ := run_unique hpre (rfl : _ = some ((0 : Int), _))
  obtain ⟨rfl, -⟩ := run_unique hread (rfl : _ = some ((0 : Int), _))
  exact iff_of_true ⟨rfl, rfl⟩ (by decide)

/-- With a budget of 0 the B0 has a response in its only iteration, and returns an error; the C0 has a read after
a pre-read that has failed, and returns 0. -/
theorem not_response_exact : (¬∀ h (n : Int32) m, 0 ≤ n → ResponseExact .b0 (Handle.withRetries h n) m) ∧
    ¬∀ h (n : Int32) m, 0 ≤ n → ResponseExact .c0 (Handle.withRetries h n) m := by
  constructor
  · intro hall
    have heval : (qmromB0PollCmdResp (plainHandle.withRetries 0) (waitingMachine 0 20)).map (·.1) = some (-1) := by
      decide +kernel
    obtain ⟨⟨rc, m'⟩, hrun, hrc⟩ := Option.map_eq_some_iff.mp heval
    have hresponds : Responds .b0 (plainHandle.withRetries 0) (waitingMachine 0 20) 0 :=
      ⟨0, _, _, _, le_refl _, .first rfl, by decide +kernel, rfl, by decide +kernel, rfl⟩
    have hzero := (hall plainHandle 0 _ (by decide) rc m' hrun).mpr hresponds
    cases hzero.symm.trans hrc
  · intro hall
    have heval : (qmromC0PollCmdResp (plainHandle.withRetries 0) (waitingMachine 0 3)).map (·.1) = some 0 := by
      decide +kernel
    obtain ⟨⟨rc, m'⟩, hrun, hrc⟩ := Option.map_eq_some_iff.mp heval
    obtain ⟨i, m1, m2, m3, -, hiter, hw, hpre, -⟩ := (hall plainHandle 0 _ (by decide) rc m' hrun).mp hrc
    have hfirst := Iteration.first (p := .c0) (h := plainHandle.withRetries 0) (m := waitingMachine 0 3) rfl
    obtain ⟨-, rfl⟩ := hiter.waiting_unique hw hfirst (by decide +kernel)
    cases (run_unique hpre (rfl : _ = some ((-5 : Int), _))).1

end Qm35.Qmrom
