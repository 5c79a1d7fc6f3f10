import Qm35.Hsspi.Transfer

/- What `spi_xfer` does on the bus, in order. The same loop as in `spiXfer`, with a log of
   the waits for the ready line and of the transfers; dropping the log gives `spiXfer`
   back. A retry repeats the frame, so it is safe only after a transfer the device did
   not accept: every transfer but the last failed with `-EAGAIN` or came back with a
   header that is not ready, and 0 is returned exactly when the last one is accepted.
   The loop invariant is that nothing performed so far has been accepted. -/
namespace Qm35.Hsspi

/-- A step of `spi_xfer`: the result of `hsspi_wait_ss_ready`, or a transfer with its result
and the header after it. -/
inductive XferEvent where
  | wait (ret : Int)
  | transfer (ret : Int) (soc : StcHeader)
deriving DecidableEq

/-- A call of `spi_xfer` with the log of what it did. -/
structure XferLog where
  ret : Int
  soc : StcHeader
  events : List XferEvent
deriving DecidableEq

/-- One pass of the loop, logged: `ret`, and whether it broke out. -/
def spiXferPassLogged (a : Attempt) (s : XferLog) : XferLog × Bool :=
  let ret := hsspiWaitSsReady a.wait
  let events := s.events ++ [.wait ret]
  if ret < 0 then ({ s with ret := ret, events := events }, false)
  else
    let s : XferLog := { ret := a.xfer, soc := a.soc, events := events ++ [.transfer a.xfer a.soc] }
    if s.ret ≠ 0 then (s, false)
    else if !socReady s.soc then ({ s with ret := eAgain }, false)
    else (s, true)

/-- The loop of `spi_xfer`, logged. -/
def spiXferLoopLogged (env : Nat → Attempt) : Nat → Nat → XferLog → XferLog
  | 0, _, s => s
  | retry + 1, k, s =>
    let (s, broke) := spiXferPassLogged (env k) s
    if !broke && s.ret == eAgain then spiXferLoopLogged env retry (k + 1) s else s

/-- `spi_xfer`, logged -/
def spiXferLogged (env : Nat → Attempt) : XferLog :=
  spiXferLoopLogged env spiXferRetries 0 ⟨0, ⟨0, 0, 0⟩, []⟩

/-- The transfer of an event. -/
def XferEvent.transfer? : XferEvent → Option (Int × StcHeader)
  | .wait _ => none
  | .transfer ret soc => some (ret, soc)

/-- The transfers of a call, in order. -/
def XferLog.transfers (s : XferLog) : List (Int × StcHeader) := s.events.filterMap XferEvent.transfer?

/-- The call without its log. -/
def XferLog.call (s : XferLog) : SpiXfer := ⟨s.ret, s.soc, s.transfers⟩

/-! What is accepted and what is retried. -/

/-- The device took the frame: the transfer succeeded and its header is ready. -/
def Takes (x : Int × StcHeader) : Prop := x.1 = 0 ∧ socReady x.2 = true

/-- The frame may be sent again. -/
def Retriable (x : Int × StcHeader) : Prop := x.1 = eAgain ∨ x.1 = 0 ∧ ¬socReady x.2 = true

instance (x : Int × StcHeader) : Decidable (Takes x) := by unfold Takes; infer_instance

/-- Every transfer directly follows a wait that succeeded. -/
def Waited (events : List XferEvent) : Prop :=
  ∀ before ret soc after, events = before ++ .transfer ret soc :: after →
    ∃ earlier, before = earlier ++ [.wait 0]

/-- A call that duplicates no frame the device took. -/
structure TakesOnce (s : XferLog) : Prop where
  bounded : s.transfers.length ≤ 5
  waited : Waited s.events
  succeeds : s.ret = 0 ↔ ∃ x ∈ s.transfers.getLast?, Takes x
  earlier : ∀ x ∈ s.transfers.dropLast, Retriable x
  once : (s.transfers.filter fun x => decide (Takes x)).length ≤ 1
  header : s.ret = 0 → ∃ x ∈ s.transfers.getLast?, s.soc = x.2

/-! One pass. -/

section Pass
variable {a : Attempt} {s : XferLog} {x : Int × StcHeader} {events : List XferEvent}

theorem Retriable.not_takes (h : Retriable x) : ¬Takes x := by
  intro ht
  rcases h with hagain | ⟨-, hnot⟩
  · rw [ht.1] at hagain
    cases hagain
  · exact hnot ht.2

/-- `hsspi_wait_ss_ready` returns 0 or an error. -/
theorem hsspiWaitSsReady_le (w : ReadyWait) : hsspiWaitSsReady w ≤ 0 := by
  unfold hsspiWaitSsReady eAgain
  split_ifs <;> omega

/-- What a pass adds to the log. -/
def attemptEvents (a : Attempt) : List XferEvent :=
  if hsspiWaitSsReady a.wait < 0 then [.wait (hsspiWaitSsReady a.wait)]
  else [.wait 0, .transfer a.xfer a.soc]

/-- The header after a pass. -/
def attemptSoc (a : Attempt) (soc : StcHeader) : StcHeader :=
  if hsspiWaitSsReady a.wait < 0 then soc else a.soc

/-- A pass logs its events and returns what the attempt returns; it breaks out on 0 only. -/
theorem spiXferPassLogged_eq (a : Attempt) (s : XferLog) : spiXferPassLogged a s =
    (⟨attemptRet a, attemptSoc a s.soc, s.events ++ attemptEvents a⟩, attemptRet a == 0) := by
  have hle : hsspiWaitSsReady a.wait ≤ 0 := hsspiWaitSsReady_le a.wait
  by_cases hw : hsspiWaitSsReady a.wait < 0
  · have hne : hsspiWaitSsReady a.wait ≠ 0 := by omega
    simp [spiXferPassLogged, attemptRet, attemptSoc, attemptEvents, hw, hne]
  · have h0 : hsspiWaitSsReady a.wait = 0 := by omega
    by_cases hx : a.xfer = 0
    · by_cases hr : socReady a.soc = true
      · simp [spiXferPassLogged, attemptRet, attemptSoc, attemptEvents, h0, hx, hr]
      · simp [spiXferPassLogged, attemptRet, attemptSoc, attemptEvents, h0, hx, hr, eAgain]
    · simp [spiXferPassLogged, attemptRet, attemptSoc, attemptEvents, h0, hx]

/-- The call after a pass. -/
def afterPassLogged (a : Attempt) (s : XferLog) : XferLog :=
  ⟨attemptRet a, attemptSoc a s.soc, s.events ++ attemptEvents a⟩

theorem afterPassLogged_call : (afterPassLogged a s).call = afterPass a s.call := by
  by_cases hw : hsspiWaitSsReady a.wait < 0
  · simp [afterPassLogged, afterPass, attemptEvents, attemptSoc, XferLog.call, XferLog.transfers, hw,
      XferEvent.transfer?]
  · simp [afterPassLogged, afterPass, attemptEvents, attemptSoc, XferLog.call, XferLog.transfers, hw,
      List.filterMap_cons, XferEvent.transfer?]

/-- The transfers after a pass: one more where the wait succeeded. -/
theorem afterPassLogged_transfers : (afterPassLogged a s).transfers =
    if hsspiWaitSsReady a.wait < 0 then s.transfers else s.transfers ++ [(a.xfer, a.soc)] := by
  have h : (afterPassLogged a s).transfers = (afterPass a s.call).xfers :=
    congrArg SpiXfer.xfers afterPassLogged_call
  rw [h, afterPass]
  split
  · rfl
  · rfl

/-- An attempt whose wait succeeded returns 0 exactly when the device takes the frame. -/
theorem attemptRet_takes (hw : ¬hsspiWaitSsReady a.wait < 0) : attemptRet a = 0 ↔ Takes (a.xfer, a.soc) := by
  unfold attemptRet Takes
  rw [if_neg hw]
  by_cases hx : a.xfer = 0
  · by_cases hr : socReady a.soc = true
    · simp [hx, hr]
    · simp [hx, hr, eAgain]
  · simp [hx]

/-- A transfer that is retried may be. -/
theorem attemptRet_retriable (hw : ¬hsspiWaitSsReady a.wait < 0) (h : attemptRet a = eAgain) :
    Retriable (a.xfer, a.soc) := by
  rw [attemptRet, if_neg hw] at h
  by_cases hx : a.xfer = 0
  · rw [if_neg (not_not.mpr hx)] at h
    refine .inr ⟨hx, fun hr => ?_⟩
    rw [show socReady a.soc = true from hr] at h
    cases h
  · rw [if_pos hx] at h
    exact .inl h

theorem Waited.nil : Waited [] := by
  intro before ret soc after h
  simp at h

/-- A failed wait, or a wait that succeeds and then a transfer, keeps every transfer waited for. -/
theorem Waited.append_attempt (h : Waited events) : Waited (events ++ attemptEvents a) := by
  intro before ret soc after heq
  rw [List.append_eq_append_iff] at heq
  rcases heq with ⟨mid, rfl, hmid⟩ | ⟨mid, rfl, hmid⟩
  · -- the transfer is the one of this pass
    unfold attemptEvents at hmid
    split at hmid
    · cases mid with
      | nil => cases hmid
      | cons e mid => simp at hmid
    · cases mid with
      | nil => cases hmid
      | cons e mid =>
        cases mid with
        | nil =>
          cases hmid
          exact ⟨events, rfl⟩
        | cons e' mid => simp at hmid
  · cases mid with
    | nil =>
      -- a pass does not begin with a transfer
      unfold attemptEvents at hmid
      split at hmid <;> simp at hmid
    | cons e mid =>
      cases hmid
      exact h before ret soc mid rfl

end Pass

/-! The loop. -/

/-- Before a pass: nothing performed so far has been accepted. -/
structure Pending (s : XferLog) : Prop where
  waited : Waited s.events
  retriable : ∀ x ∈ s.transfers, Retriable x

/-- After the last pass: all transfers but the last may be repeated, and the result tells
whether the last was accepted. -/
structure Concluded (s : XferLog) : Prop where
  waited : Waited s.events
  earlier : ∀ x ∈ s.transfers.dropLast, Retriable x
  succeeds : s.ret = 0 ↔ ∃ x ∈ s.transfers.getLast?, Takes x
  header : s.ret = 0 → ∃ x ∈ s.transfers.getLast?, s.soc = x.2

section Loop
variable {env : Nat → Attempt} {a : Attempt} {s : XferLog} {retry k : Nat}

theorem spiXferLoopLogged_succ : spiXferLoopLogged env (retry + 1) k s =
    if attemptRet (env k) = eAgain then spiXferLoopLogged env retry (k + 1) (afterPassLogged (env k) s)
    else afterPassLogged (env k) s := by
  rw [spiXferLoopLogged, spiXferPassLogged_eq]
  by_cases he : attemptRet (env k) = eAgain
  · simp [he, eAgain, afterPassLogged]
  · simp [he, afterPassLogged]

/-- The log does not change what the loop does. -/
theorem spiXferLoopLogged_call : (spiXferLoopLogged env retry k s).call = spiXferLoop env retry k s.call := by
  induction retry generalizing k s with
  | zero => rfl
  | succ retry ih =>
    rw [spiXferLoopLogged_succ, spiXferLoop_succ, ← afterPassLogged_call]
    split
    · exact ih
    · rfl

theorem transfers_length : (afterPassLogged a s).transfers.length ≤ s.transfers.length + 1 := by
  rw [afterPassLogged_transfers]
  split
  · omega
  · simp

theorem spiXferLoopLogged_length :
    (spiXferLoopLogged env retry k s).transfers.length ≤ s.transfers.length + retry := by
  induction retry generalizing k s with
  | zero => exact Nat.le_refl _
  | succ retry ih =>
    have hone : (afterPassLogged (env k) s).transfers.length ≤ s.transfers.length + 1 := transfers_length
    rw [spiXferLoopLogged_succ]
    split
    · exact le_trans ih (by omega)
    · omega

/-- A pass that is repeated leaves nothing accepted. -/
theorem Pending.again (h : Pending s) (hret : attemptRet a = eAgain) : Pending (afterPassLogged a s) := by
  refine ⟨h.waited.append_attempt, ?_⟩
  intro x hx
  rw [afterPassLogged_transfers] at hx
  by_cases hw : hsspiWaitSsReady a.wait < 0
  · rw [if_pos hw] at hx
    exact h.retriable x hx
  · rw [if_neg hw] at hx
    rcases List.mem_append.mp hx with hx | hx
    · exact h.retriable x hx
    · cases List.mem_singleton.mp hx
      exact attemptRet_retriable hw hret

/-- Any pass may be the last. -/
theorem Pending.conclude (h : Pending s) : Concluded (afterPassLogged a s) := by
  by_cases hw : hsspiWaitSsReady a.wait < 0
  · -- no transfer: the result is the error of the wait
    have htransfers : (afterPassLogged a s).transfers = s.transfers := by
      rw [afterPassLogged_transfers, if_pos hw]
    have hret : (afterPassLogged a s).ret ≠ 0 := by
      have hval : (afterPassLogged a s).ret = hsspiWaitSsReady a.wait := if_pos hw
      omega
    refine ⟨h.waited.append_attempt, ?_, ⟨fun h0 => absurd h0 hret, ?_⟩, fun h0 => absurd h0 hret⟩
    · rw [htransfers]
      exact fun x hx => h.retriable x (List.dropLast_subset _ hx)
    · rw [htransfers]
      rintro ⟨x, hx, ht⟩
      exact absurd ht (h.retriable x (List.mem_of_getLast? hx)).not_takes
  · have htransfers : (afterPassLogged a s).transfers = s.transfers ++ [(a.xfer, a.soc)] := by
      rw [afterPassLogged_transfers, if_neg hw]
    have hsoc : (afterPassLogged a s).soc = a.soc := if_neg hw
    have hlast : (afterPassLogged a s).transfers.getLast? = some (a.xfer, a.soc) := by
      rw [htransfers, List.getLast?_append]
      rfl
    refine ⟨h.waited.append_attempt, ?_, ?_, fun _ => ⟨_, hlast, hsoc⟩⟩
    · rw [htransfers, List.dropLast_concat]
      exact h.retriable
    · have hret : (afterPassLogged a s).ret = 0 ↔ Takes (a.xfer, a.soc) := attemptRet_takes hw
      rw [hret, hlast]
      constructor
      · exact fun ht => ⟨_, rfl, ht⟩
      · rintro ⟨_, hx, ht⟩
        cases hx
        exact ht

/-- The loop, from its first pass on. -/
theorem Pending.loop (h : Pending s) : Concluded (spiXferLoopLogged env (retry + 1) k s) := by
  induction retry generalizing k s with
  | zero =>
    have hloop : spiXferLoopLogged env 1 k s = afterPassLogged (env k) s := by
      rw [spiXferLoopLogged_succ]
      split <;> rfl
    rw [hloop]
    exact h.conclude
  | succ retry ih =>
    rw [spiXferLoopLogged_succ]
    split
    · exact ih (h.again ‹_›)
    · exact h.conclude

/-- Where only the last transfer may be accepted, at most one is. -/
theorem Concluded.once (h : Concluded s) : (s.transfers.filter fun x => decide (Takes x)).length ≤ 1 := by
  have hnone : s.transfers.dropLast.filter (fun x => decide (Takes x)) = [] := by
    rw [List.filter_eq_nil_iff]
    intro x hx
    rw [decide_eq_true_eq]
    exact (h.earlier x hx).not_takes
  rcases List.eq_nil_or_concat s.transfers with hnil | ⟨init, last, hlast⟩
  · rw [hnil]
    exact Nat.zero_le 1
  · rw [hlast, List.concat_eq_append, List.dropLast_concat] at hnone
    rw [hlast, List.concat_eq_append, List.filter_append, hnone, List.nil_append]
    exact List.length_filter_le _ _

end Loop

/-- `spi_xfer` duplicates no frame the device took, whatever the environment answers: at most
five transfers, each directly after a successful wait, 0 exactly when the last is accepted,
and every earlier one rejected; without the log it is `spiXfer`. -/
theorem spiXfer_takesOnce (env : Nat → Attempt) :
    TakesOnce (spiXferLogged env) ∧ (spiXferLogged env).call = spiXfer env := by
  have hstart : Pending ⟨0, ⟨0, 0, 0⟩, []⟩ := ⟨Waited.nil, fun x hx => nomatch hx⟩
  have hdone : Concluded (spiXferLogged env) := hstart.loop
  have hlength : (spiXferLogged env).transfers.length ≤ 0 + spiXferRetries := spiXferLoopLogged_length
  rw [Nat.zero_add] at hlength
  exact ⟨⟨hlength, hdone.waited, hdone.succeeds, hdone.earlier, hdone.once, hdone.header⟩,
    spiXferLoopLogged_call⟩

end Qm35.Hsspi
