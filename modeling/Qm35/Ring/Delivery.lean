import Qm35.Ring.Pop
import Qm35.Ring.Shadow

/- At-most-once delivery in push order. Between two calls the entries popped and the
   entries pending, in this order, carry increasing push numbers, and every one of
   them is the payload of that push. A push drops some of the oldest pending entries
   and appends the new one; a pop moves the first pending entry to the popped ones.

   The one step that breaks this is a push that wraps under a caught-up reader which
   it sets to offset 0, the place of the oldest entry: entries that were already
   popped are pending again (`Redelivers`). -/
namespace Qm35.Ring

open ByteMem

/-- Every entry is the payload of the push it is tagged with. -/
def Recorded (pushed : List (List UInt8)) (es : List Tagged) : Prop :=
  ∀ x ∈ es, pushed[x.1]? = some x.2

/-- Every push number is above those before it. -/
def Increasing (es : List Tagged) : Prop := (es.map Prod.fst).Pairwise (· < ·)

/-- Every popped payload is a pushed one, and no push comes twice or out of order. -/
def DeliveredInOrder (h : History) : Prop :=
  Recorded h.pushed h.popped ∧ Increasing h.popped

/-- The call does not put popped entries back in front of the reader. -/
def NoRedelivery (h : History) : RbOp → Prop
  | .push data => ¬Redelivers h.rb data.length
  | _ => True

section Tags
variable {pushed : List (List UInt8)} {data : List UInt8} {xs ys : List Tagged}

theorem Recorded.sublist (h : Recorded pushed ys) (hs : xs.Sublist ys) : Recorded pushed xs :=
  fun x hx => h x (hs.subset hx)

theorem Recorded.lt {x : Tagged} (h : Recorded pushed xs) (hx : x ∈ xs) : x.1 < pushed.length := by
  have := h x hx
  exact (List.getElem?_eq_some_iff.mp this).1

/-- A further push leaves the numbers of the earlier ones. -/
theorem Recorded.snoc (h : Recorded pushed xs) :
    Recorded (pushed ++ [data]) (xs ++ [(pushed.length, data)]) := by
  intro x hx
  rcases List.mem_append.mp hx with hx | hx
  · rw [List.getElem?_append_left (h.lt hx)]
    exact h x hx
  · rw [List.mem_singleton.mp hx]
    simp

theorem Increasing.sublist (h : Increasing ys) (hs : xs.Sublist ys) : Increasing xs :=
  List.Pairwise.sublist (hs.map _) h

theorem Increasing.snoc (h : Increasing xs) (hr : Recorded pushed xs) :
    Increasing (xs ++ [(pushed.length, data)]) := by
  unfold Increasing
  rw [List.map_append, List.pairwise_append]
  refine ⟨h, List.pairwise_singleton _ _, ?_⟩
  intro i hi j hj
  obtain ⟨x, hx, rfl⟩ := List.mem_map.mp hi
  rw [List.mem_singleton.mp hj]
  exact hr.lt hx

end Tags

/-- The invariant: `ret` are the entries retained and `pend` those pending. -/
structure Ordered (h : History) (ret pend : List Tagged) : Prop where
  lay : Lay h.rb h.owner ret pend
  retRecorded : Recorded h.pushed ret
  seenRecorded : Recorded h.pushed (h.popped ++ pend)
  retIncreasing : Increasing ret
  seenIncreasing : Increasing (h.popped ++ pend)

namespace Ordered

variable {h : History} {ret pend : List Tagged}

theorem init : Ordered histInit [] [] := by
  refine ⟨.inl ⟨rfl, by decide, .nil _, .nil _, .inl ⟨[], rfl, .nil _⟩, .inr ⟨rfl, rfl⟩⟩, ?_, ?_, ?_, ?_⟩
  · intro x hx
    cases hx
  · intro x hx
    cases hx
  · exact List.Pairwise.nil
  · exact List.Pairwise.nil

/-- Without redelivery a push drops some pending entries and adds its own. -/
theorem push {data : List UInt8} (O : Ordered h ret pend) (h1 : 1 ≤ data.length)
    (h2 : data.length ≤ 65531) (hn : ¬Redelivers h.rb data.length) :
    ∃ h' ret' pend', histStep h (.push data) = some h' ∧ Ordered h' ret' pend' := by
  obtain ⟨rb', ret', pend', hrun, hL, hk, -⟩ := rbPush_spec h.pushed.length O.lay h1 h2
  have hpend : pend' <:+ pend := by
    rcases hk.reader with rfl | ⟨rfl, hs | hs⟩ | ⟨rfl, _⟩
    · exact List.suffix_refl _
    · exact hs
    · exact absurd hs hn
    · exact List.nil_suffix
  have hret : Recorded h.pushed ret' := O.retRecorded.sublist hk.suffix.sublist
  have hsub : (h.popped ++ pend').Sublist (h.popped ++ pend) := hpend.sublist.append_left _
  have hseen : Recorded h.pushed (h.popped ++ pend') := O.seenRecorded.sublist hsub
  refine ⟨_, ret' ++ [(h.pushed.length, data)], pend' ++ [(h.pushed.length, data)],
    histStep_push hrun, hL, hret.snoc, ?_, (O.retIncreasing.sublist hk.suffix.sublist).snoc hret, ?_⟩
  · rw [← List.append_assoc]
    exact hseen.snoc
  · rw [← List.append_assoc]
    exact (O.seenIncreasing.sublist hsub).snoc hseen

/-- A pop delivers the first pending entry. -/
theorem pop (O : Ordered h ret pend) :
    ∃ h' pend', histStep h .pop = some h' ∧ Ordered h' ret pend' := by
  cases pend with
  | nil => exact ⟨_, [], histStep_pop_none (rbPop_empty O.lay), O⟩
  | cons x pend =>
    obtain ⟨rb', hrun, hown, hL⟩ := rbPop_spec O.lay
    have hseen : h.popped ++ [x] ++ pend = h.popped ++ x :: pend := by simp
    refine ⟨_, pend, histStep_pop hrun, hL, O.retRecorded, ?_, O.retIncreasing, ?_⟩
    · show Recorded h.pushed (h.popped ++ [(_, x.2)] ++ pend)
      rw [hown, hseen]
      exact O.seenRecorded
    · show Increasing (h.popped ++ [(_, x.2)] ++ pend)
      rw [hown, hseen]
      exact O.seenIncreasing

theorem nextSize (O : Ordered h ret pend) :
    ∃ h', histStep h .nextSize = some h' ∧ Ordered h' ret pend := by
  obtain ⟨n, rb', hrun, hL⟩ := rbNextSize_spec O.lay
  exact ⟨_, histStep_nextSize hrun, hL, O.retRecorded, O.seenRecorded, O.retIncreasing, O.seenIncreasing⟩

theorem step (O : Ordered h ret pend) {op : RbOp} (ha : Admitted op) (hn : NoRedelivery h op) :
    ∃ h', histStep h op = some h' ∧ ∃ ret' pend', Ordered h' ret' pend' := by
  cases op with
  | push data =>
    obtain ⟨h', ret', pend', hrun, O'⟩ := O.push ha.1 ha.2 hn
    exact ⟨h', hrun, ret', pend', O'⟩
  | pop =>
    obtain ⟨h', pend', hrun, O'⟩ := O.pop
    exact ⟨h', hrun, ret, pend', O'⟩
  | nextSize =>
    obtain ⟨h', hrun, O'⟩ := O.nextSize
    exact ⟨h', hrun, ret, pend, O'⟩
  | canPop => exact ⟨h, rfl, ret, pend, O⟩
  | reset => exact absurd ha id

theorem delivered (O : Ordered h ret pend) : DeliveredInOrder h :=
  ⟨O.seenRecorded.sublist (List.sublist_append_left _ _),
    O.seenIncreasing.sublist (List.sublist_append_left _ _)⟩

end Ordered

/-- Every run of admitted calls in which no push mistakes a caught-up reader for one on
the oldest entry goes through, and delivers at most once and in push order. -/
theorem delivered_in_order {ops : List RbOp}
    (hm : Lts.Meets histStep (fun h op => Admitted op ∧ NoRedelivery h op) histInit ops) :
    ∃ h, Lts.run histStep histInit ops = some h ∧ DeliveredInOrder h := by
  have hstep : ∀ (h : History) op, (∃ ret pend, Ordered h ret pend) → Admitted op ∧ NoRedelivery h op →
      ∃ h', histStep h op = some h' ∧ ∃ ret pend, Ordered h' ret pend := by
    intro h op hO hop
    obtain ⟨ret, pend, O⟩ := hO
    exact O.step hop.1 hop.2
  obtain ⟨h, hrun, ret, pend, O⟩ := Lts.run_total hstep ⟨[], [], Ordered.init⟩ hm
  exact ⟨h, hrun, O.delivered⟩

/-- The wrap does not bring back what was popped. -/
theorem delivered_in_order_wrap : ∃ h, Lts.run histStep histInit (wrapCalls.map ShadowOp.call) = some h ∧
    DeliveredInOrder h ∧ h.popped.map Prod.fst = List.range 15 := by
  have heval : (Lts.run shadowStep shadowInit wrapCalls).map Shadow.popped = some (List.range 15) := by decide +kernel
  obtain ⟨s, hs, hpopped⟩ := Option.map_eq_some_iff.mp heval
  have hm := shadow_meets Sim.init hs (by decide +kernel)
  obtain ⟨h, hrun, horder⟩ := delivered_in_order (hm.mono fun h op hop => ⟨hop.1, by
    cases op with
    | push data => exact (hop.2 data rfl).1
    | _ => trivial⟩)
  obtain ⟨h', hrun', S⟩ := shadow_run Sim.init hs
  obtain rfl := Option.some.inj (hrun.symm.trans hrun')
  exact ⟨h, hrun, horder, S.popped.trans hpopped⟩

/-- Sixteen payloads of 65531 bytes, each popped before the next is pushed, and a
seventeenth, which wraps: the pop after it returns the third payload once more. -/
def redeliveryCalls : List ShadowOp :=
  (List.replicate 16 [ShadowOp.push 65531, .pop]).flatten ++ [.push 65531, .pop]

theorem not_delivered_in_order : ¬∀ ops : List RbOp, (∀ op ∈ ops, Admitted op) →
    ∀ h, Lts.run histStep histInit ops = some h → DeliveredInOrder h := by
  intro hall
  have heval : (Lts.run shadowStep shadowInit redeliveryCalls).map Shadow.popped =
      some [0, 1, 2, 3, 4, 5, 6, 7, 8, 9, 10, 11, 12, 13, 14, 15, 2] := by decide +kernel
  obtain ⟨s, hs, hpop⟩ := Option.map_eq_some_iff.mp heval
  obtain ⟨h, hrun, S⟩ := shadow_run Sim.init hs
  have hadm : ∀ op ∈ redeliveryCalls.map ShadowOp.call, Admitted op := admitted_calls (by decide +kernel)
  have hinc := (hall _ hadm h hrun).2
  unfold Increasing at hinc
  rw [S.popped, hpop] at hinc
  exact absurd hinc (by decide)

end Qm35.Ring
