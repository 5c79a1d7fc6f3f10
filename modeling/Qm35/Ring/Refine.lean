import Qm35.Lib.Journal
import Qm35.Ring.Reset
import Qm35.Ring.Uninit

/- The trace ring buffer is a bounded journal: whatever calls are made on it, resets of the
   reader and empty payloads among them, each call answers what the call on the journal
   answers. What is pushed is appended; `rb_pop` takes, `rb_next_size` and
   `rb_can_pop` look at what is next, and `rb_reset` starts the reader again.
   A push drops only the oldest entries, and none unless more than `leastRetained`
   bytes are kept.

   The abstraction function is the layout: the journal's entries are the payloads of the
   entries retained, cut where the reader stands. The two pushes that break it are the
   ones that put a caught-up reader back on the oldest entry (`Redelivers`), and
   that leave a waiting reader behind `tail` (`LeavesBehind`). -/
namespace Qm35.Ring

open ByteMem

/-! The calls with what they return. -/

def rbStep (rb : Rb) (op : RbOp) : Option Rb := (rbCall rb op).map Prod.snd

/-- The call, and what it returns. -/
def rbSees (rb : Rb) (op : RbOp) : RbOp × Option Answer := (op, (rbCall rb op).map Prod.fst)

/-- What a run of calls is seen to return. -/
def rbSeen (rb : Rb) (ops : List RbOp) : List (RbOp × Option Answer) :=
  Lts.observed rbStep (fun rb op => [rbSees rb op]) rb ops

/-- `rb_init` of a zero-filled buffer of the trace size. -/
def ringInit : Rb := rbInit (fun _ => 0) traceRbSize

/-! The journal. -/

/-- The call on the journal: a payload of no bytes is not stored. -/
def journalCall : RbOp → Journal.Call (List UInt8)
  | .push data => if data = [] then .peek else .append data
  | .pop => .take
  | .nextSize => .peek
  | .canPop => .peek
  | .reset => .rewind

/-- What the buffer returns where the journal answers `x`. -/
def journalAnswer (x : Option (List UInt8)) : RbOp → Answer
  | .push data => .rc (if data = [] then 1 else 0)
  | .pop => .entry x
  | .nextSize => .size (x.elim 0 List.length)
  | .canPop => .ready x.isSome
  | .reset => .done

/-- Bytes payloads take in the buffer. -/
def bytesStored (ds : List (List UInt8)) : Nat := (ds.map fun data => 2 + data.length).sum

def MuchStored (ds : List (List UInt8)) : Prop := leastRetained ≤ bytesStored ds

/-- A call of the buffer as one of the journal. -/
def JournalStep (J : Journal (List UInt8)) (seen : RbOp × Option Answer) (J' : Journal (List UInt8)) : Prop :=
  ∃ x, seen.2 = some (journalAnswer x seen.1) ∧ Journal.Step MuchStored J (journalCall seen.1, x) J'

/-- The payloads fit into a size field, and no push takes the reader somewhere it was not. -/
def Regular (rb : Rb) : RbOp → Prop
  | .push data => data.length ≤ 65531 ∧ (data ≠ [] → ¬Redelivers rb data.length ∧ ¬LeavesBehind rb data.length)
  | _ => True

/-- The entries retained, cut where the reader stands, are the journal. -/
def Represents (rb : Rb) (J : Journal (List UInt8)) : Prop :=
  ∃ owner con pend, Lay rb owner (con ++ pend) pend ∧ J = ⟨con.map Prod.snd, pend.map Prod.snd⟩

section Refine
variable {rb : Rb} {J : Journal (List UInt8)} {owner : Nat → Nat} {con pend : List Tagged}

theorem represents_init : Represents ringInit Journal.empty := ⟨fun _ => 0, [], [], Ordered.init.lay, rfl⟩

theorem rbPop_journal (L : Lay rb owner (con ++ pend) pend) :
    ∃ rb', rbPop rb = some ((pend.map Prod.snd).head?, rb') ∧
      Represents rb' ⟨con.map Prod.snd ++ (pend.map Prod.snd).take 1, (pend.map Prod.snd).tail⟩ := by
  cases pend with
  | nil => exact ⟨rb, rbPop_empty L, owner, con, [], L, by simp⟩
  | cons x pend =>
    obtain ⟨rb', hrun, -, hL⟩ := rbPop_spec L
    have hcut : con ++ x :: pend = (con ++ [x]) ++ pend := by simp
    rw [hcut] at hL
    exact ⟨rb', hrun, owner, con ++ [x], pend, hL, by simp⟩

theorem rbNextSize_journal (L : Lay rb owner (con ++ pend) pend) :
    ∃ rb', rbNextSize rb = some ((pend.map Prod.snd).head?.elim 0 List.length, rb') ∧
      Lay rb' owner (con ++ pend) pend := by
  cases pend with
  | nil =>
    have hnext := rbNextSizeAt_empty (L.caught_up.mp rfl)
    exact ⟨rb, by simp [rbNextSize, hnext], L⟩
  | cons x pend =>
    obtain ⟨t, N⟩ := L.next
    exact ⟨{ rb with rdtail := t }, by simp [rbNextSize, N.next], N.before⟩

theorem rbCanPop_journal (L : Lay rb owner (con ++ pend) pend) :
    rbCanPop rb = (pend.map Prod.snd).head?.isSome := by
  have hend := L.caught_up
  cases pend with
  | nil => simp [rbCanPop, rbCanPopAt, hend.mp rfl]
  | cons x pend =>
    have hne : rb.rdtail ≠ rb.head := mt hend.mpr (List.cons_ne_nil x pend)
    simp [rbCanPop, rbCanPopAt, hne]

/-- A push drops some of the oldest entries of the journal, and appends its payload. -/
theorem rbPush_journal {data : List UInt8} (L : Lay rb owner (con ++ pend) pend) (h1 : 1 ≤ data.length)
    (h2 : data.length ≤ 65531) (hreg : ¬Redelivers rb data.length ∧ ¬LeavesBehind rb data.length) :
    ∃ rb' k, rbPush rb data = some (0, rb') ∧
      Represents rb' (Journal.next ⟨con.map Prod.snd, pend.map Prod.snd⟩ k (.append data)) ∧
      (k = 0 ∨ MuchStored (Journal.next ⟨con.map Prod.snd, pend.map Prod.snd⟩ k (.append data)).kept) := by
  obtain ⟨rb', ret', pend', hrun, hL, hkeep, hretain⟩ := rbPush_spec 0 L h1 h2
  obtain ⟨con', rfl⟩ := hkeep.onChain hreg.2 ⟨con, rfl⟩
  -- what the reader has still to be given is dropped only after all it has been given
  have hreader : pend' = pend ∨ con' = [] ∧ pend' <:+ pend := by
    rcases hkeep.reader with heq | ⟨heq, hs | hs⟩ | ⟨-, hoff⟩
    · exact .inl heq
    · rw [← heq] at hs
      exact .inr ⟨List.self_eq_append_left.mp heq, hs⟩
    · exact absurd hs hreg.1
    · exact absurd rfl (hoff con)
  have hkept : (con' ++ pend').map Prod.snd <:+ (con ++ pend).map Prod.snd := hkeep.suffix.map Prod.snd
  have hdrop := Journal.drop_eq (J := ⟨con.map Prod.snd, pend.map Prod.snd⟩)
    (K := ⟨con'.map Prod.snd, pend'.map Prod.snd⟩) (by simpa [Journal.kept] using hkept)
    (hreader.imp (fun h => by rw [h]) fun h => ⟨by rw [h.1]; rfl, h.2.map Prod.snd⟩)
  have hlen : (con ++ pend).length - (con' ++ pend').length =
      (Journal.kept ⟨con.map Prod.snd, pend.map Prod.snd⟩).length -
        (Journal.kept ⟨con'.map Prod.snd, pend'.map Prod.snd⟩).length := by
    simp [Journal.kept]
  rw [← hlen] at hdrop
  have hnext : Journal.next ⟨con.map Prod.snd, pend.map Prod.snd⟩ ((con ++ pend).length - (con' ++ pend').length)
      (.append data) = ⟨con'.map Prod.snd, (pend' ++ [(0, data)]).map Prod.snd⟩ := by
    rw [Journal.next, ← hdrop, List.map_append]
    rfl
  refine ⟨rb', (con ++ pend).length - (con' ++ pend').length, hrun, ?_, ?_⟩
  · rw [List.append_assoc] at hL
    exact ⟨_, con', pend' ++ [(0, data)], hL, hnext⟩
  · by_cases ht : rb'.tail = rb.tail
    · left
      rw [hretain.kept ht]
      exact Nat.sub_self _
    · right
      have hstored := hretain.evicted ht
      rw [storedSize_payloads, List.append_assoc, List.map_append] at hstored
      rw [hnext]
      exact hstored

/-- Each call is the call on the journal. -/
theorem rbStep_journal {op : RbOp} (R : Represents rb J) (hop : Regular rb op) :
    ∃ rb' J', rbStep rb op = some rb' ∧ JournalStep J (rbSees rb op) J' ∧ Represents rb' J' := by
  obtain ⟨owner, con, pend, L, rfl⟩ := R
  cases op with
  | push data =>
    by_cases hempty : data = []
    · subst hempty
      have hrun : rbPush rb [] = some (1, rb) := rfl
      exact ⟨rb, _, by simp [rbStep, rbCall, hrun],
        ⟨_, by simp [rbSees, rbCall, hrun, journalAnswer], rfl, 0, rfl, .inl rfl⟩, owner, con, pend, L, rfl⟩
    · have h1 : 1 ≤ data.length := List.length_pos_of_ne_nil hempty
      obtain ⟨rb', k, hrun, hrep, hmuch⟩ := rbPush_journal L h1 hop.1 (hop.2 hempty)
      have hcall : journalCall (.push data) = .append data := if_neg hempty
      refine ⟨rb', _, by simp [rbStep, rbCall, hrun], ⟨none, ?_, ?_, k, ?_, hmuch⟩, hrep⟩
      · simp [rbSees, rbCall, hrun, journalAnswer, hempty]
      · simp [rbSees, hcall, Journal.answer]
      · simp [rbSees, hcall]
  | pop =>
    obtain ⟨rb', hrun, hrep⟩ := rbPop_journal L
    exact ⟨rb', _, by simp [rbStep, rbCall, hrun],
      ⟨(pend.map Prod.snd).head?, by simp only [rbSees, rbCall, hrun, Option.map_some, journalAnswer],
        rfl, 0, rfl, .inl rfl⟩, hrep⟩
  | nextSize =>
    obtain ⟨rb', hrun, hL⟩ := rbNextSize_journal L
    exact ⟨rb', _, by simp [rbStep, rbCall, hrun],
      ⟨(pend.map Prod.snd).head?, by simp only [rbSees, rbCall, hrun, Option.map_some, journalAnswer],
        rfl, 0, rfl, .inl rfl⟩, owner, con, pend, hL, rfl⟩
  | canPop =>
    exact ⟨rb, _, rfl, ⟨(pend.map Prod.snd).head?,
      by simp only [rbSees, rbCall, Option.map_some, journalAnswer, rbCanPop_journal L], rfl, 0, rfl, .inl rfl⟩,
      owner, con, pend, L, rfl⟩
  | reset =>
    exact ⟨rbReset rb, _, rfl, ⟨none, rfl, rfl, 0, rfl, .inl rfl⟩, owner, [], con ++ pend, L.reset,
      by simp [rbSees, journalCall, Journal.next, Journal.kept]⟩

end Refine

/-! What a reader is given. -/

/-- The payloads popped since the last reset, after the payloads `got`. -/
def poppedSince (got : List (List UInt8)) : List (RbOp × Option Answer) → List (List UInt8)
  | [] => got
  | (.pop, some (.entry x)) :: seen => poppedSince (got ++ x.toList) seen
  | (.reset, _) :: seen => poppedSince [] seen
  | _ :: seen => poppedSince got seen

/-- A path of calls is a path of the journal on which the same is given. -/
theorem journal_path {J J' : Journal (List UInt8)} {seen : List (RbOp × Option Answer)}
    (hp : Lts.Path JournalStep J seen J') : ∃ cs, Lts.Path (Journal.Step MuchStored) J cs J' ∧
      Journal.appended cs = (payloads (seen.map Prod.fst)).filter (· ≠ []) ∧
      ∀ got, Journal.given got cs = poppedSince got seen := by
  induction hp with
  | nil J => exact ⟨[], .nil J, rfl, fun _ => rfl⟩
  | @cons J J1 J' call seen hstep _ ih =>
    obtain ⟨cs, hcs, happ, hgiven⟩ := ih
    obtain ⟨x, hans, hstep⟩ := hstep
    obtain ⟨op, ans⟩ := call
    obtain rfl : ans = some (journalAnswer x op) := hans
    refine ⟨(journalCall op, x) :: cs, .cons hstep hcs, ?_, fun got => ?_⟩
    · cases op with
      | push data =>
        by_cases hempty : data = [] <;> simp [journalCall, hempty, Journal.appended, payloads, happ]
      | pop => exact happ
      | nextSize => exact happ
      | canPop => exact happ
      | reset => exact happ
    · cases op with
      | push data =>
        have hsame : Journal.given got ((journalCall (.push data), x) :: cs) = Journal.given got cs := by
          rw [journalCall]
          split <;> rfl
        exact hsame.trans (hgiven got)
      | pop => exact hgiven _
      | nextSize => exact hgiven got
      | canPop => exact hgiven got
      | reset => exact hgiven []

theorem rbSeen_calls {rb rb' : Rb} {ops : List RbOp} (h : Lts.run rbStep rb ops = some rb') :
    (rbSeen rb ops).map Prod.fst = ops := by
  induction ops generalizing rb with
  | nil => rfl
  | cons op ops ih =>
    obtain ⟨rb1, h1, h2⟩ := Lts.run_cons_some.mp h
    have hseen : rbSeen rb (op :: ops) = rbSees rb op :: rbSeen rb1 ops := Lts.observed_cons h1
    rw [hseen, List.map_cons, ih h2]
    rfl

/-- Every run of calls in which no push takes the reader elsewhere goes through, and each call returns what the call
on the journal answers. So what is popped between two resets is pushed, comes in the order of the pushes and not
twice, and is followed by what is pending; and what is retained is the end of what was pushed. -/
theorem ring_refines_journal {ops : List RbOp} (hm : Lts.Meets rbStep Regular ringInit ops) :
    ∃ rb J, Lts.run rbStep ringInit ops = some rb ∧ Represents rb J ∧
      Lts.Path JournalStep Journal.empty (rbSeen ringInit ops) J ∧
      (poppedSince [] (rbSeen ringInit ops) ++ J.rest).Sublist (payloads ops) ∧
      J.kept <:+ (payloads ops).filter (· ≠ []) := by
  obtain ⟨rb, J, hrun, hpath, hrep⟩ :=
    Lts.observed_refines (fun _ _ _ R hop => rbStep_journal R hop) represents_init hm
  have hseen : Lts.Path JournalStep Journal.empty (rbSeen ringInit ops) J := hpath
  obtain ⟨cs, hcs, happ, hgiven⟩ := journal_path hseen
  rw [rbSeen_calls hrun] at happ
  have hgave := Journal.Path.given hcs
  have hkept := Journal.Path.kept hcs
  rw [happ] at hgave hkept
  rw [hgiven] at hgave
  exact ⟨rb, J, hrun, hrep, hseen, hgave.trans List.filter_sublist, hkept⟩

/-- Three traces are stored, an empty one is refused, and the reader starts again after the second. -/
def resetCalls : List RbOp :=
  [.push [7], .push [8, 9], .canPop, .pop, .nextSize, .pop, .push [], .reset, .pop, .push [3], .pop, .pop, .pop]

theorem ring_refines_journal_reset : ∃ rb J, Lts.run rbStep ringInit resetCalls = some rb ∧ Represents rb J ∧
    Lts.Path JournalStep Journal.empty (rbSeen ringInit resetCalls) J ∧
    (poppedSince [] (rbSeen ringInit resetCalls) ++ J.rest).Sublist [[7], [8, 9], [], [3]] ∧
    J.kept <:+ [[7], [8, 9], [3]] ∧ poppedSince [] (rbSeen ringInit resetCalls) = [[7], [8, 9], [3]] := by
  have hm : Lts.Meets rbStep (fun rb op => ∀ data ∈ payloads [op], data.length ≤ 65531 ∧
      passesBy (rbWraps rb (rbEntrySize data.length)) rb.head rb.tail rb.rdtail = true) ringInit resetCalls := by
    decide +kernel
  have hregular : Lts.Meets rbStep Regular ringInit resetCalls := hm.mono fun rb op hop => by
    cases op with
    | push data =>
      obtain ⟨hlen, hpass⟩ := hop data List.mem_cons_self
      exact ⟨hlen, fun _ => passesBy_neither hpass⟩
    | _ => trivial
  obtain ⟨rb, J, hrun, hrep, hpath, hgiven, hkept⟩ := ring_refines_journal hregular
  exact ⟨rb, J, hrun, hrep, hpath, hgiven, hkept, by decide +kernel⟩

end Qm35.Ring
