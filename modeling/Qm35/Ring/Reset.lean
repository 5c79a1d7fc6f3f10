import Qm35.Ring.Retention

/- What is kept for a reader that starts again (`rb_reset`, as opening the traces does).
   After a reset the entries pending are those retained, so popping until nothing is
   left returns them all. They are the last ones pushed: a push drops some of the
   oldest and adds its own.

   A push evicts where it moves `tail`. As long as none does, everything pushed is
   retained. A push that does leaves less than two entries unused (`PushRetains`), and
   one that does not only adds to what is in use. -/
namespace Qm35.Ring

open ByteMem

/-- The calls with the payloads `log_received` admits. -/
def Fits : RbOp → Prop
  | .push data => 1 ≤ data.length ∧ data.length ≤ 65531
  | _ => True

/-- The push moves `tail`: it drops what was the oldest entry. -/
def Evicts (h : History) : RbOp → Prop
  | .push data => ∃ rc rb, rbPush h.rb data = some (rc, rb) ∧ rb.tail ≠ h.rb.tail
  | _ => False

/-- A reset makes pending what is retained. -/
theorem Lay.reset {rb : Rb} {owner : Nat → Nat} {ret pend : List Tagged} (L : Lay rb owner ret pend) :
    Lay (rbReset rb) owner ret ret := by
  rcases L with F | ⟨e, old, cur, W, rfl, h0, hlt⟩
  · exact .inl ⟨F.size, F.room, F.retChain, F.retChain, .inl ⟨[], rfl, .nil _⟩, F.used⟩
  · exact .inr ⟨e, old, cur, ⟨W.size, W.room, W.markHi, W.markLo, W.mark, W.headLe, W.oldChain, W.curChain,
      .inl ⟨[], old, rfl, rfl, .nil _, W.oldChain⟩⟩, rfl, h0, hlt⟩

/-! Over a run. -/

/-- The payloads pushed by the calls. -/
def payloads : List RbOp → List (List UInt8)
  | [] => []
  | .push data :: ops => data :: payloads ops
  | _ :: ops => payloads ops

/-- The entries retained are the last ones pushed. -/
structure Retains (h : History) (ret pend : List Tagged) : Prop where
  lay : Lay h.rb h.owner ret pend
  suffix : ret.map Prod.snd <:+ h.pushed
  last : h.pushed ≠ [] → ret ≠ []

/-- What the call `op` makes of the entries retained. -/
structure StepRetains (h h' : History) (op : RbOp) (ret ret' : List Tagged) : Prop where
  pushed : h'.pushed = h.pushed ++ payloads [op]
  kept : ¬Evicts h op → ret'.map Prod.snd = ret.map Prod.snd ++ payloads [op]
  evicted : Evicts h op → leastRetained ≤ storedSize ret'

namespace Retains

variable {h : History} {ret pend : List Tagged}

theorem init : Retains histInit [] [] := ⟨Ordered.init.lay, List.nil_suffix, fun h => absurd rfl h⟩

theorem push {data : List UInt8} (R : Retains h ret pend) (h1 : 1 ≤ data.length) (h2 : data.length ≤ 65531) :
    ∃ h' ret' pend', histStep h (.push data) = some h' ∧ Retains h' ret' pend' ∧
      StepRetains h h' (.push data) ret ret' := by
  obtain ⟨rb', ret', pend', hrun, hL, hk, hr⟩ := rbPush_spec h.pushed.length R.lay h1 h2
  have hevicts : Evicts h (.push data) ↔ rb'.tail ≠ h.rb.tail := by
    constructor
    · rintro ⟨rc, rb, hrb, hne⟩
      rw [hrun] at hrb
      cases hrb
      exact hne
    · exact fun hne => ⟨0, rb', hrun, hne⟩
  refine ⟨_, ret' ++ [(h.pushed.length, data)], pend' ++ [(h.pushed.length, data)], histStep_push hrun,
    ⟨hL, ?_, fun _ => by simp⟩, rfl, fun hn => ?_, fun he => hr.evicted (hevicts.mp he)⟩
  · obtain ⟨gone, hgone⟩ := (hk.suffix.map Prod.snd).trans R.suffix
    refine ⟨gone, ?_⟩
    show gone ++ (ret' ++ [(h.pushed.length, data)]).map Prod.snd = h.pushed ++ [data]
    rw [List.map_append, ← List.append_assoc, hgone]
    rfl
  · rw [hr.kept (not_not.mp fun hne => hn (hevicts.mpr hne)), List.map_append]
    rfl

/-- The other calls leave the entries alone. -/
theorem read {h' : History} {pend' : List Tagged} {op : RbOp} (R : Retains h ret pend)
    (hL : Lay h'.rb h'.owner ret pend') (hpushed : h'.pushed = h.pushed) (hop : payloads [op] = [])
    (hevicts : ¬Evicts h op) : Retains h' ret pend' ∧ StepRetains h h' op ret ret := by
  refine ⟨⟨hL, ?_, ?_⟩, ?_, fun _ => ?_, fun he => absurd he hevicts⟩
  · rw [hpushed]
    exact R.suffix
  · rw [hpushed]
    exact R.last
  · rw [hpushed, hop, List.append_nil]
  · rw [hop, List.append_nil]

theorem step {op : RbOp} (R : Retains h ret pend) (hfits : Fits op) :
    ∃ h' ret' pend', histStep h op = some h' ∧ Retains h' ret' pend' ∧ StepRetains h h' op ret ret' := by
  cases op with
  | push data => exact R.push hfits.1 hfits.2
  | pop =>
    cases pend with
    | nil => exact ⟨_, ret, [], histStep_pop_none (rbPop_empty R.lay), R.read R.lay rfl rfl id⟩
    | cons x pend =>
      obtain ⟨rb', hrun, -, hL⟩ := rbPop_spec R.lay
      exact ⟨_, ret, pend, histStep_pop hrun, R.read hL rfl rfl id⟩
  | nextSize =>
    obtain ⟨n, rb', hrun, hL⟩ := rbNextSize_spec R.lay
    exact ⟨_, ret, pend, histStep_nextSize hrun, R.read hL rfl rfl id⟩
  | canPop => exact ⟨h, ret, pend, rfl, R.read R.lay rfl rfl id⟩
  | reset => exact ⟨_, ret, ret, rfl, R.read R.lay.reset rfl rfl id⟩

end Retains

/-- No call evicts. -/
def NothingEvicted (h : History) (ops : List RbOp) : Prop := Lts.Meets histStep (fun h op => ¬Evicts h op) h ops

/-- What a run retains: everything pushed by it and before, or much of the buffer. -/
theorem retains_run {ops : List RbOp} (hfits : ∀ op ∈ ops, Fits op) {h : History} {ret pend : List Tagged}
    (R : Retains h ret pend) : ∃ h' ret' pend', Lts.run histStep h ops = some h' ∧ Retains h' ret' pend' ∧
      h'.pushed = h.pushed ++ payloads ops ∧
      (NothingEvicted h ops → ret'.map Prod.snd = ret.map Prod.snd ++ payloads ops) ∧
      (¬NothingEvicted h ops ∨ leastRetained ≤ storedSize ret → leastRetained ≤ storedSize ret') := by
  induction ops generalizing h ret pend with
  | nil =>
    refine ⟨h, ret, pend, rfl, R, (List.append_nil _).symm, fun _ => (List.append_nil _).symm, fun hl => ?_⟩
    exact hl.resolve_left fun hn => hn trivial
  | cons op ops ih =>
    obtain ⟨h1, ret1, pend1, hstep, R1, S⟩ := R.step (hfits op List.mem_cons_self)
    obtain ⟨h', ret', pend', hrun, R', hpushed, hkept, hevicted⟩ :=
      ih (fun op' hop' => hfits op' (List.mem_cons_of_mem _ hop')) R1
    have hpay : payloads (op :: ops) = payloads [op] ++ payloads ops := by cases op <;> rfl
    refine ⟨h', ret', pend', Lts.run_cons_some.mpr ⟨h1, hstep, hrun⟩, R', ?_, fun hm => ?_, fun hl => hevicted ?_⟩
    · rw [hpushed, S.pushed, hpay, List.append_assoc]
    · rw [hkept (hm.2 h1 hstep), S.kept hm.1, hpay, List.append_assoc]
    · by_cases hop : Evicts h op
      · exact .inr (S.evicted hop)
      · rcases hl with hl | hl
        · exact .inl fun hm => hl (Lts.Meets.cons hstep hop hm)
        · have hmore : storedSize ret ≤ storedSize ret1 := by
            rw [storedSize_payloads, storedSize_payloads, S.kept hop, List.map_append, List.sum_append]
            exact Nat.le_add_right _ _
          exact .inr (Nat.le_trans hl hmore)

/-- Whatever calls were made, a reader that resets and pops until nothing is left gets the last payloads pushed:
all of them if none was ever evicted, and otherwise most of a buffer full. -/
theorem reset_then_drain {ops : List RbOp} (hfits : ∀ op ∈ ops, Fits op) :
    ∃ h fuel s got, Lts.run histStep histInit ops = some h ∧ (histStep h .reset).bind (drain fuel) = some s ∧
      rbCanPop s.rb = false ∧ s.popped = h.popped ++ got ∧ got.map Prod.snd <:+ payloads ops ∧
      (payloads ops ≠ [] → got ≠ []) ∧
      (NothingEvicted histInit ops → got.map Prod.snd = payloads ops) ∧
      (¬NothingEvicted histInit ops → traceRbSize - 3 * 65535 ≤ storedSize got) := by
  obtain ⟨h, ret, pend, hrun, R, hpushed, hkept, hevicted⟩ := retains_run hfits Retains.init
  have hpay : h.pushed = payloads ops := hpushed
  obtain ⟨s, hs, hend, hpop⟩ := drain_pending (h := { h with rb := rbReset h.rb }) R.lay.reset
  refine ⟨h, ret.length, s, ret, hrun, hs, hend, hpop, ?_, ?_, hkept, fun hn => ?_⟩
  · rw [← hpay]
    exact R.suffix
  · rw [← hpay]
    exact R.last
  · exact Nat.le_trans (by decide) (hevicted (.inl hn))

theorem reset_then_drain_two : ∃ h fuel s got,
    Lts.run histStep histInit [.push [7], .pop, .push [8, 9], .reset, .nextSize] = some h ∧
      (histStep h .reset).bind (drain fuel) = some s ∧
      rbCanPop s.rb = false ∧ s.popped = h.popped ++ got ∧ got.map Prod.snd <:+ [[7], [8, 9]] ∧ got ≠ [] := by
  have hfits : ∀ op ∈ [RbOp.push [7], .pop, .push [8, 9], .reset, .nextSize], Fits op := by
    simp [Fits]
  obtain ⟨h, fuel, s, got, hrun, hs, hend, hpop, hsuffix, hlast, -⟩ := reset_then_drain hfits
  exact ⟨h, fuel, s, got, hrun, hs, hend, hpop, hsuffix, hlast (List.cons_ne_nil _ _)⟩

end Qm35.Ring
