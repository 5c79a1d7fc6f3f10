import Qm35.Ring.Delivery

/- No silent loss of retained entries. The reader's cursor is on the chain from `tail`
   to `head`, and the retained entries it has passed are those up to the last popped
   one; so popping until nothing is left returns all the others.

   The one step that breaks this is a push whose eviction moves `tail` from the end
   marker past the entry at offset 0 while the reader waits at 0, the same place
   under another number (`LeavesBehind`): the reader is then below `tail`. -/
namespace Qm35.Ring

open ByteMem

/-- The cursor is on the chain from `tail` to `head`, and popping until `rb_can_pop` is
false returns every retained entry pushed after the last popped one. -/
def NoneLost (h : History) : Prop :=
  Reaches h.rb h.rb.tail h.rb.rdtail ∧ Reaches h.rb h.rb.rdtail h.rb.head ∧
  ∃ fuel s, drain fuel h = some s ∧ rbCanPop s.rb = false ∧
    ∀ off, Retained h.rb off → (∀ x, h.popped.getLast? = some x → x.1 < h.owner off) →
      entryAt h off ∈ s.popped.drop h.popped.length

/-- The call does not leave the reader behind `tail`. -/
def NotLeftBehind (h : History) : RbOp → Prop
  | .push data => ¬LeavesBehind h.rb data.length
  | _ => True

/-! The chain between `tail` and `head`. -/

section Positions
variable {rb : Rb} {owner : Nat → Nat} {ret pend old cur es : List Tagged} {a b e x : Nat}

/-- A position reached from the start of a chain is the header of one of its entries, or
is reached from its end. -/
theorem Chain.reached (h : Chain rb.buf owner a es b) (hh : rb.head < a ∨ b ≤ rb.head)
    (hr : Reaches rb a x) :
    (owner x, rb.buf.read (x + 2) (rb.buf.le16 x)) ∈ es ∨ Reaches rb b x := by
  induction h with
  | nil a => exact .inr hr
  | @cons a b data es h1 _ h3 h4 h5 ih =>
    have hle := h5.le
    rcases Relation.ReflTransGen.cases_head hr with rfl | ⟨y, hy, hyx⟩
    · left
      rw [h3, h4]
      exact List.mem_cons_self
    · rw [nextPos_entry (by omega) h3 h1] at hy
      cases hy
      rcases ih (by omega) hyx with hm | hb
      · exact .inl (List.mem_cons_of_mem _ hm)
      · exact .inr hb

/-- What lies on the chain from `tail` to `head` is what the layout says is retained. -/
theorem Lay.retained (L : Lay rb owner ret pend) (h : Retained rb x) :
    (owner x, rb.buf.read (x + 2) (rb.buf.le16 x)) ∈ ret := by
  obtain ⟨hr, hx, hn⟩ := h
  rcases L with F | ⟨e, old, cur, W, rfl, h0, hlt⟩
  · rcases F.retChain.reached (.inr (Nat.le_refl _)) hr with hm | hb
    · exact hm
    · exact absurd (reaches_head hb) hx
  · have hle := W.oldChain.le
    rcases W.oldChain.reached (.inl hlt) hr with hm | hb
    · exact List.mem_append_left _ hm
    · rcases Relation.ReflTransGen.cases_head hb with rfl | ⟨y, hy, hyx⟩
      · exact absurd W.mark hn
      · rw [nextPos_marker (by omega) W.mark (by omega)] at hy
        cases hy
        rcases W.curChain.reached (.inr (Nat.le_refl _)) hyx with hm | hb
        · exact List.mem_append_right _ hm
        · exact absurd (reaches_head hb) hx

/-- A reader with the pending entries at the end of the retained ones is on the chain. -/
theorem Lay.reader_reaches {con : List Tagged} (L : Lay rb owner ret pend) (h : ret = con ++ pend) :
    Reaches rb rb.tail rb.rdtail ∧ Reaches rb rb.rdtail rb.head := by
  rcases L with F | ⟨e, old, cur, W, rfl, h0, hlt⟩
  · obtain ⟨con', _, hc⟩ := F.onFlat h
    exact ⟨hc.reaches (.inr F.pendChain.le), F.pendChain.reaches (.inr (Nat.le_refl _))⟩
  · have hle := W.oldChain.le
    have hmark : Reaches rb e 0 := .single (nextPos_marker (by omega) W.mark (by omega))
    rcases W.reader with ⟨con', pold, _, _, hc, hpo⟩ | ⟨con', _, _, hc, hpe⟩
    · have hcle := hc.le
      have hcur : Reaches rb 0 rb.head := W.curChain.reaches (.inr (Nat.le_refl _))
      exact ⟨hc.reaches (.inl hlt), (hpo.reaches (.inl (by omega))).trans (hmark.trans hcur)⟩
    · have hold : Reaches rb rb.tail e := W.oldChain.reaches (.inl hlt)
      exact ⟨hold.trans (hmark.trans (hc.reaches (.inr hpe.le))), hpe.reaches (.inr (Nat.le_refl _))⟩

end Positions

/-! The invariant. -/

/-- Popped entries that are retained still: the ones before the pending ones, none of
them pushed after the last popped entry. -/
structure Kept (h : History) (con pend : List Tagged) : Prop where
  lay : Lay h.rb h.owner (con ++ pend) pend
  recorded : Recorded h.pushed (con ++ pend)
  increasing : Increasing (con ++ pend)
  passed : ∀ c ∈ con, ∃ x, h.popped.getLast? = some x ∧ c.1 ≤ x.1

namespace Kept

variable {h : History} {con pend : List Tagged}

theorem init : Kept histInit [] [] :=
  ⟨Ordered.init.lay, Ordered.init.retRecorded, Ordered.init.retIncreasing,
    fun _ hc => absurd hc List.not_mem_nil⟩

theorem push {data : List UInt8} (K : Kept h con pend) (h1 : 1 ≤ data.length)
    (h2 : data.length ≤ 65531) (hn : ¬LeavesBehind h.rb data.length) :
    ∃ h' con' pend', histStep h (.push data) = some h' ∧ Kept h' con' pend' := by
  obtain ⟨rb', ret', pend', hrun, hL, hk, -⟩ := rbPush_spec h.pushed.length K.lay h1 h2
  obtain ⟨con', hret⟩ := hk.onChain hn ⟨con, rfl⟩
  -- what the reader has passed and is retained still, it had passed before
  have hcon : con' <:+ con := by
    rcases hk.reader with rfl | ⟨hp, _⟩ | ⟨_, hoff⟩
    · have hs := hk.suffix
      rw [hret] at hs
      exact List.suffix_append_self_iff.mp hs
    · rw [← hp] at hret
      rw [List.self_eq_append_left.mp hret]
      exact List.nil_suffix
    · exact absurd rfl (hoff con)
  have hrec : Recorded h.pushed ret' := K.recorded.sublist hk.suffix.sublist
  have hinc : Increasing ret' := K.increasing.sublist hk.suffix.sublist
  subst hret
  refine ⟨_, con', pend' ++ [(h.pushed.length, data)], histStep_push hrun, ?_, ?_, ?_, ?_⟩
  · rw [← List.append_assoc]
    exact hL
  · rw [← List.append_assoc]
    exact hrec.snoc
  · rw [← List.append_assoc]
    exact hinc.snoc hrec
  · intro c hc
    exact K.passed c (hcon.subset hc)

theorem pop (K : Kept h con pend) :
    ∃ h' con' pend', histStep h .pop = some h' ∧ Kept h' con' pend' := by
  cases pend with
  | nil => exact ⟨_, con, [], histStep_pop_none (rbPop_empty K.lay), K⟩
  | cons x pend =>
    obtain ⟨rb', hrun, hown, hL⟩ := rbPop_spec K.lay
    have hsnoc : con ++ [x] ++ pend = con ++ x :: pend := by simp
    refine ⟨_, con ++ [x], pend, histStep_pop hrun, ?_, ?_, ?_, ?_⟩
    · rw [hsnoc]
      exact hL
    · rw [hsnoc]
      exact K.recorded
    · rw [hsnoc]
      exact K.increasing
    · intro c hc
      refine ⟨x, ?_, ?_⟩
      · show (h.popped ++ [(_, x.2)]).getLast? = some x
        rw [hown, List.getLast?_concat]
      · rcases List.mem_append.mp hc with hc | hc
        · have hp := K.increasing
          unfold Increasing at hp
          rw [List.map_append, List.pairwise_append] at hp
          exact Nat.le_of_lt (hp.2.2 c.1 (List.mem_map_of_mem hc) x.1 (by simp))
        · rw [List.mem_singleton.mp hc]

theorem nextSize (K : Kept h con pend) : ∃ h', histStep h .nextSize = some h' ∧ Kept h' con pend := by
  obtain ⟨n, rb', hrun, hL⟩ := rbNextSize_spec K.lay
  exact ⟨_, histStep_nextSize hrun, hL, K.recorded, K.increasing, K.passed⟩

theorem step (K : Kept h con pend) {op : RbOp} (ha : Admitted op) (hn : NotLeftBehind h op) :
    ∃ h', histStep h op = some h' ∧ ∃ con' pend', Kept h' con' pend' := by
  cases op with
  | push data =>
    obtain ⟨h', con', pend', hrun, K'⟩ := K.push ha.1 ha.2 hn
    exact ⟨h', hrun, con', pend', K'⟩
  | pop =>
    obtain ⟨h', con', pend', hrun, K'⟩ := K.pop
    exact ⟨h', hrun, con', pend', K'⟩
  | nextSize =>
    obtain ⟨h', hrun, K'⟩ := K.nextSize
    exact ⟨h', hrun, con, pend, K'⟩
  | canPop => exact ⟨h, rfl, con, pend, K⟩
  | reset => exact absurd ha id

end Kept

/-- Popping until `rb_can_pop` is false returns the pending entries, in order. -/
theorem drain_pending {h : History} {ret pend : List Tagged} (L : Lay h.rb h.owner ret pend) :
    ∃ s, drain pend.length h = some s ∧ rbCanPop s.rb = false ∧ s.popped = h.popped ++ pend := by
  induction pend generalizing h with
  | nil =>
    refine ⟨h, rfl, ?_, (List.append_nil _).symm⟩
    simp [rbCanPop, rbCanPopAt, L.caught_up.mp rfl]
  | cons x pend ih =>
    obtain ⟨rb', hrun, hown, hL⟩ := rbPop_spec L
    have hcan : rbCanPop h.rb = true := by
      have hne := mt L.caught_up.mpr (List.cons_ne_nil _ _)
      simp [rbCanPop, rbCanPopAt, hne]
    have hstep := histStep_pop hrun
    rw [hown] at hstep
    obtain ⟨s, hs, hend, hpop⟩ := ih (h := { h with rb := rb', popped := h.popped ++ [x] }) hL
    refine ⟨s, ?_, hend, ?_⟩
    · rw [List.length_cons, drain, if_pos hcan, hstep]
      exact hs
    · rw [hpop, List.append_assoc]
      rfl

theorem Kept.noneLost {h : History} {con pend : List Tagged} (K : Kept h con pend) : NoneLost h := by
  obtain ⟨hr1, hr2⟩ := K.lay.reader_reaches rfl
  obtain ⟨s, hs, hend, hpop⟩ := drain_pending K.lay
  refine ⟨hr1, hr2, pend.length, s, hs, hend, ?_⟩
  intro off hoff hlast
  rw [hpop, List.drop_left]
  rcases List.mem_append.mp (K.lay.retained hoff) with hc | hp
  · obtain ⟨x, hx, hle⟩ := K.passed _ hc
    have := hlast x hx
    dsimp only at hle
    omega
  · exact hp

/-- Every run of admitted calls in which no push leaves the reader behind goes through,
and loses no retained entry. -/
theorem none_lost {ops : List RbOp}
    (hm : Lts.Meets histStep (fun h op => Admitted op ∧ NotLeftBehind h op) histInit ops) :
    ∃ h, Lts.run histStep histInit ops = some h ∧ NoneLost h := by
  have hstep : ∀ (h : History) op, (∃ con pend, Kept h con pend) → Admitted op ∧ NotLeftBehind h op →
      ∃ h', histStep h op = some h' ∧ ∃ con pend, Kept h' con pend := by
    intro h op hK hop
    obtain ⟨con, pend, K⟩ := hK
    exact K.step hop.1 hop.2
  obtain ⟨h, hrun, con, pend, K⟩ := Lts.run_total hstep ⟨[], [], Kept.init⟩ hm
  exact ⟨h, hrun, K.noneLost⟩

/-- Before the last two entries are popped, on both sides of the end marker. -/
theorem none_lost_wrap : ∃ h, Lts.run histStep histInit (wrapCalls.map ShadowOp.call) = some h ∧ NoneLost h ∧
    h.pushed.length = 17 ∧ h.popped.map Prod.fst = List.range 15 := by
  have heval : (Lts.run shadowStep shadowInit wrapCalls).map (fun s => (s.pushes, s.popped)) =
      some (17, List.range 15) := by decide +kernel
  obtain ⟨s, hs, heq⟩ := Option.map_eq_some_iff.mp heval
  obtain ⟨hpushes, hpopped⟩ := Prod.mk.inj heq
  have hm := shadow_meets Sim.init hs (by decide +kernel)
  obtain ⟨h, hrun, hnone⟩ := none_lost (hm.mono fun h op hop => ⟨hop.1, by
    cases op with
    | push data => exact (hop.2 data rfl).2
    | _ => trivial⟩)
  obtain ⟨h', hrun', S⟩ := shadow_run Sim.init hs
  obtain rfl := Option.some.inj (hrun.symm.trans hrun')
  exact ⟨h, hrun, hnone, S.pushes.trans hpushes, S.popped.trans hpopped⟩

/-! The reader left behind. -/

/-- Pushes of 65531 bytes go once round the buffer, the reader catches up to the end
marker and looks, and the pushes go round once more. -/
def leftBehindCalls : List ShadowOp :=
  List.replicate 17 (.push 65531) ++ List.replicate 14 .pop ++ [.nextSize] ++ List.replicate 15 (.push 65531)

/-- A chain of entries of 65533 bytes from 65533 on never leads to offset 0. -/
theorem not_reaches_zero {rb : Rb} (hh : rb.head = 65533 * 16)
    (hn : ∀ k, 1 ≤ k → k ≤ 15 → rb.buf.le16 (65533 * k) = 65531) : ¬Reaches rb 65533 0 := by
  have hinv : ∀ x, Reaches rb 65533 x → ∃ k, 1 ≤ k ∧ k ≤ 16 ∧ x = 65533 * k := by
    intro x hx
    induction hx with
    | refl => exact ⟨1, by omega, by omega, rfl⟩
    | @tail y z _ hstep ih =>
      obtain ⟨k, h1, h2, rfl⟩ := ih
      by_cases hk : k = 16
      · subst hk
        simp [nextPos, hh] at hstep
      · have hne : 65533 * k ≠ rb.head := by omega
        rw [nextPos_entry hne (hn k h1 (by omega)) (by omega)] at hstep
        cases hstep
        exact ⟨k + 1, by omega, by omega, by omega⟩
  intro h
  obtain ⟨k, h1, _, hk⟩ := hinv 0 h
  omega

theorem not_none_lost : ¬∀ ops : List RbOp, (∀ op ∈ ops, Admitted op) →
    ∀ h, Lts.run histStep histInit ops = some h → NoneLost h := by
  intro hall
  have heval : (Lts.run shadowStep shadowInit leftBehindCalls).map (fun s =>
      (s.head, s.tail, s.rdtail, (List.range 15).map fun k =>
        s.hdrs.any fun e => e.off == 65533 * (k + 1) && e.len == 65531)) =
      some (65533 * 16, 65533, 0, List.replicate 15 true) := by decide +kernel
  obtain ⟨s, hs, heq⟩ := Option.map_eq_some_iff.mp heval
  simp only [Prod.mk.injEq] at heq
  obtain ⟨hhead, htail, hrd, hhdrs⟩ := heq
  obtain ⟨h, hrun, S⟩ := shadow_run Sim.init hs
  have hadm : ∀ op ∈ leftBehindCalls.map ShadowOp.call, Admitted op := admitted_calls (by decide +kernel)
  have hreach := (hall _ hadm h hrun).1
  rw [S.follows.tail, S.follows.rdtail, htail, hrd] at hreach
  refine not_reaches_zero (S.follows.head.trans hhead) ?_ hreach
  intro k h1 h15
  have hk : (s.hdrs.any fun e => e.off == 65533 * k && e.len == 65531) = true := by
    have hg := congrArg (fun l => l[k - 1]?) hhdrs
    simp only [List.getElem?_map, List.getElem?_range (show k - 1 < 15 by omega),
      List.getElem?_replicate, show k - 1 < 15 by omega, if_true, Option.map_some,
      Option.some.injEq, Nat.sub_add_cancel h1] at hg
    exact hg
  obtain ⟨e, he, heq⟩ := List.any_eq_true.mp hk
  obtain ⟨ho, hl⟩ : e.off = 65533 * k ∧ e.len = 65531 := by simpa using heq
  obtain ⟨_, hlen, _⟩ := S.follows.hdrs e he
  rw [← ho, hlen, hl]

end Qm35.Ring
