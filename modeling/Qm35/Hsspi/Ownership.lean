import Qm35.Hsspi.Core

/- Who owns a block. Blocks are sent in the order in which they were accepted: at any
   time the accepted ones are those already sent, the one the thread is sending, and
   those in the work list. A completion stands in the work list behind everything
   accepted before it was queued, so once the thread has taken it out, all of that
   has been sent; and since the thread is not inside `hsspi_rx` then, a layer it uses
   later was read from the table later. This is what `hsspi_unregister` waits for. -/
namespace Qm35.Hsspi

/-- The TX works of a work list. -/
def txsOf : List Work → List TxWork
  | [] => []
  | .tx w :: ws => w :: txsOf ws
  | .completion _ :: ws => txsOf ws

/-- Every completion stands behind as many accepted blocks as it says, where `n` blocks
come before the list. -/
def MarksFrom : Nat → List Work → Prop
  | _, [] => True
  | n, .tx _ :: ws => MarksFrom (n + 1) ws
  | n, .completion k :: ws => k.accepted = n ∧ MarksFrom n ws

@[simp] theorem txsOf_append (xs ys : List Work) : txsOf (xs ++ ys) = txsOf xs ++ txsOf ys := by
  induction xs with
  | nil => rfl
  | cons x xs ih => cases x <;> simp [txsOf, ih]

theorem txsOf_tail {ws : List Work} (h : txsOf ws = []) : txsOf ws.tail = [] := by
  cases ws with
  | nil => rfl
  | cons x ws =>
    cases x with
    | tx w => cases h
    | completion k => exact h

theorem MarksFrom.snoc_tx {n : Nat} {ws : List Work} (w : TxWork) (h : MarksFrom n ws) :
    MarksFrom n (ws ++ [.tx w]) := by
  induction ws generalizing n with
  | nil => trivial
  | cons x ws ih =>
    cases x with
    | tx v => exact ih h
    | completion k => exact ⟨h.1, ih h.2⟩

theorem MarksFrom.snoc_completion {n : Nat} {ws : List Work} {k : Completion} (h : MarksFrom n ws)
    (hk : k.accepted = n + (txsOf ws).length) : MarksFrom n (ws ++ [.completion k]) := by
  induction ws generalizing n with
  | nil => exact ⟨hk, trivial⟩
  | cons x ws ih =>
    cases x with
    | tx v =>
      refine ih h ?_
      rw [hk, txsOf, List.length_cons]
      omega
    | completion j => exact ⟨h.1, ih h.2 hk⟩

/-! What the thread has in hand. -/

/-- The TX work whose `sent` is due. -/
def ThreadPc.current : ThreadPc → List TxWork
  | .tx w => [w]
  | .txXfer w _ => [w]
  | .txDone w _ _ _ => [w]
  | _ => []

/-- The block whose `received` is due. -/
def ThreadPc.outstanding : ThreadPc → List RxUse
  | .rxGot _ _ got => got.toList
  | .rxXfer _ _ got => got.toList
  | .rxDone _ _ got _ _ => got.toList
  | _ => []

/-- The layer read from the table that `hsspi_rx` is using. -/
def ThreadPc.uses : ThreadPc → Option LayerUse
  | .rxFound _ _ layer => layer
  | .rxGot _ _ got => got.map RxUse.use
  | .rxXfer _ _ got => got.map RxUse.use
  | .rxDone _ _ got _ _ => got.map RxUse.use
  | _ => none

/-- The completion the thread has taken out and not yet completed. -/
def ThreadPc.completion : ThreadPc → Option Completion
  | .completing k => some k
  | _ => none

/-- The completion was queued. -/
def Known (s : Core) (k : Completion) : Prop :=
  .completion k ∈ s.workList ∨ s.pc.completion = some k ∨ k ∈ s.completed

namespace Known

variable {s s' : Core} {j k : Completion}

/-- A completion known after a step that takes none out was known before. -/
theorem of_step (h : Known s' j) (hwork : ∀ w ∈ s'.workList, w ∈ s.workList) (hcomp : s'.pc.completion = none)
    (hdone : s'.completed = s.completed) : Known s j := by
  unfold Known at h
  rw [hcomp, hdone] at h
  rcases h with h | h | h
  · exact .inl (hwork _ h)
  · cases h
  · exact .inr (.inr h)

/-- So was one known after the thread has taken `k` out. -/
theorem of_take {rest : List Work} (h : Known { s with workList := rest, pc := .completing k } j)
    (hw : s.workList = .completion k :: rest) : Known s j := by
  unfold Known
  rw [hw]
  rcases h with h | h | h
  · exact .inl (List.mem_cons_of_mem _ h)
  · cases h
    exact .inl List.mem_cons_self
  · exact .inr (.inr h)

/-- And one known after the thread has completed `k`. -/
theorem of_complete (h : Known { s with completed := k :: s.completed, pc := .idle } j)
    (hpc : s.pc = .completing k) : Known s j := by
  unfold Known
  rw [hpc]
  rcases h with h | h | h
  · exact .inl h
  · cases h
  · rcases List.mem_cons.mp h with rfl | h
    · exact .inr (.inl rfl)
    · exact .inr (.inr h)

/-- A call adds at most the completion it queues. -/
theorem of_snoc {w : Work} (h : Known s' j) (hwork : s'.workList = s.workList ++ [w]) (hpc : s'.pc = s.pc)
    (hdone : s'.completed = s.completed) : Known s j ∨ .completion j = w := by
  unfold Known at h
  rw [hwork, hpc, hdone] at h
  rcases h with h | h
  · rcases List.mem_append.mp h with h | h
    · exact .inl (.inl h)
    · exact .inr (List.mem_singleton.mp h)
  · exact .inl (.inr h)

end Known

/-! The invariant. -/

structure Ownership (s : Core) : Prop where
  txs : s.accepted = s.sent.map Prod.fst ++ s.pc.current ++ txsOf s.workList
  tickets : (s.accepted.map TxWork.ticket).Pairwise (· < ·)
  ticketLt : ∀ w ∈ s.accepted, w.ticket < s.sends
  rejected : ∀ t ∈ s.rejected, t < s.sends ∧ ∀ w ∈ s.accepted, w.ticket ≠ t
  blocks : s.gets = s.received.map (fun r => (r.1, r.2.1)) ++
    s.pc.outstanding.map fun g => (g.use.layer, g.blk)
  queued : MarksFrom (s.sent.length + s.pc.current.length) s.workList
  finished : ∀ k, s.pc.completion = some k ∨ k ∈ s.completed → k.accepted ≤ s.sent.length
  clearsLe : ∀ k, Known s k → k.clears ≤ s.clears
  uses : ∀ k ∈ s.completed, ∀ u, s.pc.uses = some u → k.clears ≤ u.since

/-- `s'` has the records and the work list of `s`. -/
structure SameRecords (s s' : Core) : Prop where
  workList : s'.workList = s.workList
  completed : s'.completed = s.completed
  sends : s'.sends = s.sends
  accepted : s'.accepted = s.accepted
  rejected : s'.rejected = s.rejected
  sent : s'.sent = s.sent
  gets : s'.gets = s.gets
  received : s'.received = s.received
  clears : s'.clears = s.clears

namespace SameRecords

variable {s : Core}

theorem moved {ssIrq : Bool} {pc : ThreadPc} {successiveErrors xfers resets : Nat} : SameRecords s { s with
    ssIrq := ssIrq, pc := pc, successiveErrors := successiveErrors, xfers := xfers, resets := resets } :=
  ⟨rfl, rfl, rfl, rfl, rfl, rfl, rfl, rfl, rfl⟩

/-- The end of a round of the thread adds nothing to the records. -/
theorem round {ssIrq : Bool} (ret : Int) : SameRecords s (threadRound { s with ssIrq := ssIrq } ret) := by
  obtain ⟨_, _, h⟩ := threadRound_moves { s with ssIrq := ssIrq } ret
  rw [h]
  exact moved

end SameRecords

namespace Ownership

variable {s s' : Core}

theorem init : Ownership coreInit := by
  refine ⟨rfl, List.Pairwise.nil, ?_, ?_, rfl, trivial, ?_, ?_, ?_⟩
  · intro w hw
    cases hw
  · intro t ht
    cases ht
  · intro k hk
    rcases hk with hk | hk <;> cases hk
  · intro k hk
    rcases hk with hk | hk | hk <;> cases hk
  · intro k hk
    cases hk

/-- A step of the thread that takes no work out and completes nobody. The block in hand is
the same or has been sent, and what was got is accounted for. -/
theorem advance (O : Ownership s) (F : ThreadFrame s s') (hwork : s'.workList = s.workList)
    (hdone : s'.completed = s.completed) (hcomp : s'.pc.completion = none)
    (hcur : s'.sent.map Prod.fst ++ s'.pc.current = s.sent.map Prod.fst ++ s.pc.current)
    (hsent : s.sent.length ≤ s'.sent.length)
    (hblocks : s'.gets = s'.received.map (fun r => (r.1, r.2.1)) ++
      s'.pc.outstanding.map fun g => (g.use.layer, g.blk))
    (huse : ∀ u, s'.pc.uses = some u → s.pc.uses = some u ∨ u.since = s.clears) : Ownership s' := by
  refine ⟨?_, ?_, ?_, ?_, hblocks, ?_, ?_, ?_, ?_⟩
  · rw [F.accepted, hcur, hwork]
    exact O.txs
  · rw [F.accepted]
    exact O.tickets
  · rw [F.accepted, F.sends]
    exact O.ticketLt
  · rw [F.rejected, F.accepted, F.sends]
    exact O.rejected
  · have hlen := congrArg List.length hcur
    simp only [List.length_append, List.length_map] at hlen
    rw [hlen, hwork]
    exact O.queued
  · intro k hk
    rw [hcomp, hdone] at hk
    apply Nat.le_trans (O.finished k (.inr ?_)) hsent
    exact hk.resolve_left fun h => nomatch h
  · intro k hk
    rw [F.clears]
    apply O.clearsLe k
    exact hk.of_step (fun w hw => hwork ▸ hw) hcomp hdone
  · intro k hk u hu
    rw [hdone] at hk
    rcases huse u hu with hu | hu
    · exact O.uses k hk u hu
    · -- what is read now was read after every completion so far
      rw [hu]
      exact O.clearsLe k (.inr (.inr hk))

/-- The thread goes on with the same blocks in hand. -/
theorem move (O : Ownership s) (F : ThreadFrame s s') (R : SameRecords s s')
    (hcur : s'.pc.current = s.pc.current) (hout : s'.pc.outstanding = s.pc.outstanding)
    (hcomp : s'.pc.completion = none)
    (huse : ∀ u, s'.pc.uses = some u → s.pc.uses = some u ∨ u.since = s.clears) : Ownership s' := by
  apply O.advance F R.workList R.completed hcomp
  · rw [R.sent, hcur]
  · rw [R.sent]
  · rw [R.gets, R.received, hout]
    exact O.blocks
  · exact huse

/-- Records that only a call touches: the same blocks, one more ticket used up. -/
theorem reject (O : Ownership s) : Ownership (rejectTx s) := by
  refine ⟨O.txs, O.tickets, ?_, ?_, O.blocks, O.queued, O.finished, O.clearsLe, O.uses⟩
  · intro w hw
    exact Nat.lt_succ_of_lt (O.ticketLt w hw)
  · intro t ht
    rcases List.mem_append.mp ht with ht | ht
    · have h := O.rejected t ht
      exact ⟨Nat.lt_succ_of_lt h.1, h.2⟩
    · rw [List.mem_singleton.mp ht]
      refine ⟨Nat.lt_succ_self _, ?_⟩
      intro w hw heq
      have := O.ticketLt w hw
      omega

theorem accept (O : Ownership s) (l : LayerRef) (b : Nat) : Ownership (acceptTx s ⟨s.sends, l, b⟩) := by
  refine ⟨?_, ?_, ?_, ?_, O.blocks, O.queued.snoc_tx _, O.finished, ?_, O.uses⟩
  · show s.accepted ++ [_] = s.sent.map Prod.fst ++ s.pc.current ++ txsOf (s.workList ++ [.tx _])
    rw [txsOf_append, ← List.append_assoc, ← O.txs]
    rfl
  · show ((s.accepted ++ [_]).map TxWork.ticket).Pairwise (· < ·)
    rw [List.map_append, List.pairwise_append]
    refine ⟨O.tickets, List.pairwise_singleton _ _, ?_⟩
    intro t ht u hu
    obtain ⟨w, hw, rfl⟩ := List.mem_map.mp ht
    rw [List.mem_singleton.mp hu]
    exact O.ticketLt w hw
  · intro w hw
    rcases List.mem_append.mp hw with hw | hw
    · exact Nat.lt_succ_of_lt (O.ticketLt w hw)
    · rw [List.mem_singleton.mp hw]
      exact Nat.lt_succ_self _
  · intro t ht
    obtain ⟨hlt, hne⟩ := O.rejected t ht
    refine ⟨Nat.lt_succ_of_lt hlt, ?_⟩
    intro w hw
    rcases List.mem_append.mp hw with hw | hw
    · exact hne w hw
    · rw [List.mem_singleton.mp hw]
      exact Nat.ne_of_gt hlt
  · intro k hk
    apply O.clearsLe k
    exact (hk.of_snoc rfl rfl rfl).resolve_right fun h => nomatch h

/-- Queuing a completion behind what has been accepted. -/
theorem queue (O : Ownership s) {k : Completion} {clears : Nat} (hk : k.accepted = s.accepted.length)
    (hkc : k.clears ≤ clears) (hc : s.clears ≤ clears) :
    Ownership { s with workList := s.workList ++ [.completion k], clears := clears } := by
  have hlen : k.accepted = s.sent.length + s.pc.current.length + (txsOf s.workList).length := by
    rw [hk, O.txs]
    simp [Nat.add_assoc]
  refine ⟨?_, O.tickets, O.ticketLt, O.rejected, O.blocks, O.queued.snoc_completion hlen, O.finished, ?_,
    O.uses⟩
  · show s.accepted = s.sent.map Prod.fst ++ s.pc.current ++ txsOf (s.workList ++ [.completion k])
    rw [txsOf_append, O.txs]
    simp [txsOf]
  · intro j hj
    show j.clears ≤ clears
    rcases hj.of_snoc (s := s) rfl rfl rfl with hj | hj
    · exact Nat.le_trans (O.clearsLe j hj) hc
    · cases hj
      exact hkc

theorem getWork (O : Ownership s) (hpc : s.pc = .woken) : Ownership (getWork s) := by
  have htxs := O.txs
  have hq := O.queued
  have hblocks := O.blocks
  rw [hpc] at htxs hq hblocks
  unfold Hsspi.getWork
  split
  · next hw =>
    refine O.move .moved .moved ?_ ?_ rfl (fun u hu => nomatch hu)
    · rw [hpc]
      rfl
    · rw [hpc]
      rfl
  · next k rest hw =>
    -- nothing accepted before `k` is left: the thread has nothing in hand
    rw [hw] at htxs hq
    have hk : k.accepted = s.sent.length := hq.1
    refine ⟨htxs, O.tickets, O.ticketLt, O.rejected, hblocks, hq.2, ?_, ?_, fun _ _ u hu => nomatch hu⟩
    · intro j hj
      rcases hj with hj | hj
      · cases hj
        exact Nat.le_of_eq hk
      · exact O.finished j (.inr hj)
    · intro j hj
      exact O.clearsLe j (hj.of_take hw)
  · next w rest hw =>
    rw [hw] at htxs hq
    refine ⟨?_, O.tickets, O.ticketLt, O.rejected, hblocks, hq, ?_, ?_, fun _ _ u hu => nomatch hu⟩
    · show s.accepted = s.sent.map Prod.fst ++ [w] ++ txsOf rest
      rw [htxs]
      simp [txsOf, ThreadPc.current]
    · intro j hj
      exact O.finished j (hj.imp_left fun h => nomatch h)
    · intro j hj
      have hrest : ∀ v ∈ rest, v ∈ s.workList := fun v hv => hw ▸ List.mem_cons_of_mem _ hv
      exact O.clearsLe j (hj.of_step hrest rfl rfl)

theorem completing {k : Completion} (O : Ownership s) (hpc : s.pc = .completing k) :
    Ownership { s with completed := k :: s.completed, pc := .idle } := by
  have htxs := O.txs
  have hq := O.queued
  have hblocks := O.blocks
  have hfinished := O.finished
  rw [hpc] at htxs hq hblocks hfinished
  refine ⟨htxs, O.tickets, O.ticketLt, O.rejected, hblocks, hq, ?_, ?_, fun _ _ u hu => nomatch hu⟩
  · intro j hj
    rcases hj with hj | hj
    · cases hj
    · rcases List.mem_cons.mp hj with rfl | hj
      · exact hfinished j (.inl rfl)
      · exact hfinished j (.inr hj)
  · intro j hj
    exact O.clearsLe j (hj.of_complete hpc)

/-- The `sent` callback of the block in hand. -/
theorem sentCallback {w : TxWork} {prd : Bool} {ret : Int} {soc : StcHeader} {pc : ThreadPc}
    (O : Ownership s) (hpc : s.pc = .txDone w prd ret soc) (hcur : pc.current = [])
    (hout : pc.outstanding = []) (hcomp : pc.completion = none) (huse : pc.uses = none) :
    Ownership { s with sent := s.sent ++ [(w, ret)], pc := pc } := by
  refine O.advance .moved rfl rfl hcomp ?_ ?_ ?_ ?_
  · show (s.sent ++ [(w, ret)]).map Prod.fst ++ pc.current = _
    rw [hcur, hpc]
    simp [ThreadPc.current]
  · simp
  · show s.gets = _ ++ pc.outstanding.map _
    rw [hout, O.blocks, hpc]
    rfl
  · intro u hu
    rw [huse] at hu
    cases hu

/-- `get` hands out a block. -/
theorem getCallback {ul : UInt8} {length : UInt16} {use : LayerUse} (O : Ownership s) (blk : Nat)
    (hpc : s.pc = .rxFound ul length (some use)) :
    Ownership { s with gets := s.gets ++ [(use.layer, blk)], pc := .rxGot ul length (some ⟨use, blk⟩) } := by
  refine O.advance .moved rfl rfl rfl ?_ ?_ ?_ ?_
  · simp [hpc, ThreadPc.current]
  · exact Nat.le_refl _
  · simp [O.blocks, hpc, ThreadPc.outstanding]
  · intro u hu
    cases hu
    left
    rw [hpc]
    rfl

/-- `received` hands it back. -/
theorem receivedCallback {ul : UInt8} {length : UInt16} {g : RxUse} {ret : Int} {soc : StcHeader}
    (O : Ownership s) (hpc : s.pc = .rxDone ul length (some g) ret soc) :
    Ownership { s with
      received := s.received ++ [(g.use.layer, g.blk, ret)]
      pc := .rxCheck ul length ret soc } := by
  refine O.advance .moved rfl rfl rfl ?_ ?_ ?_ ?_
  · simp [hpc, ThreadPc.current]
  · exact Nat.le_refl _
  · simp [O.blocks, hpc, ThreadPc.outstanding]
  · intro u hu
    cases hu

/-- A step of the thread that keeps what it has in hand and reads no layer. -/
theorem keep {pc : ThreadPc} (O : Ownership s) (hpc : s.pc = pc) (F : ThreadFrame s s') (R : SameRecords s s')
    (hcur : s'.pc.current = pc.current) (hout : s'.pc.outstanding = pc.outstanding)
    (hcomp : s'.pc.completion = none) (huse : s'.pc.uses = pc.uses ∨ s'.pc.uses = none) : Ownership s' := by
  subst hpc
  apply O.move F R hcur hout hcomp
  intro u hu
  rcases huse with h | h
  · exact .inl (h ▸ hu)
  · rw [h] at hu
    cases hu

theorem keepRound {pc : ThreadPc} {ssIrq : Bool} (O : Ownership s) (hpc : s.pc = pc) (ret : Int)
    (hcur : pc.current = []) (hout : pc.outstanding = []) :
    Ownership (threadRound { s with ssIrq := ssIrq } ret) := by
  apply O.keep hpc (.round ret) (.round ret)
  · rw [threadRound_pc, hcur]
    rfl
  · rw [threadRound_pc, hout]
    rfl
  · rw [threadRound_pc]
    rfl
  · rw [threadRound_pc]
    exact .inr rfl

theorem thread (O : Ownership s) (a : Answer) : Ownership (threadStep s a) := by
  unfold threadStep
  cases hpc : s.pc with
  | idle => exact O.keep hpc .moved .moved rfl rfl rfl (.inr rfl)
  | sampled isEmpty state =>
    dsimp only
    split <;> exact O.keep hpc .moved .moved rfl rfl rfl (.inr rfl)
  | woken => exact O.getWork hpc
  | completing k => exact O.completing hpc
  | tx w => exact O.keep hpc .moved .moved rfl rfl rfl (.inr rfl)
  | txXfer w prd => exact O.keep hpc .moved .moved rfl rfl rfl (.inr rfl)
  | txDone w prd ret soc =>
    dsimp only
    split
    · exact O.sentCallback hpc rfl rfl rfl rfl
    · have O' : Ownership { s with sent := s.sent ++ [(w, ret)], pc := .idle } :=
        O.sentCallback hpc rfl rfl rfl rfl
      exact O'.keepRound rfl ret rfl rfl
  | preRead => exact O.keep hpc .moved .moved rfl rfl rfl (.inr rfl)
  | preXfer =>
    dsimp only
    split
    · exact O.keep hpc .moved .moved rfl rfl rfl (.inr rfl)
    · exact O.keepRound hpc a.ret rfl rfl
  | rx ul length =>
    -- the one step that reads the table: the layer found is stamped with the present
    refine O.move .moved .moved ?_ ?_ ?_ ?_
    · rw [hpc]
      rfl
    · rw [hpc]
      rfl
    · rfl
    · intro u hu
      obtain ⟨l, _, rfl⟩ := Option.map_eq_some_iff.mp hu
      exact .inr rfl
  | rxFound ul length layer =>
    cases layer with
    | none => exact O.keep hpc .moved .moved rfl rfl rfl (.inr rfl)
    | some use =>
      cases a.blk with
      | none => exact O.keep hpc .moved .moved rfl rfl rfl (.inr rfl)
      | some blk => exact O.getCallback blk hpc
  | rxGot ul length got => exact O.keep hpc .moved .moved rfl rfl rfl (.inl rfl)
  | rxXfer ul length got => exact O.keep hpc .moved .moved rfl rfl rfl (.inl rfl)
  | rxDone ul length got ret soc =>
    cases got with
    | none => exact O.keep hpc .moved .moved rfl rfl rfl (.inr rfl)
    | some g => exact O.receivedCallback hpc
  | rxCheck ul length ret soc =>
    dsimp only
    split
    · exact O.keepRound hpc ret rfl rfl
    · split <;> exact O.keepRound hpc _ rfl rfl

theorem step {a : CoreAct} (O : Ownership s) (h : coreStep s a = some s') : Ownership s' := by
  cases coreStep_effect h with
  | reject => exact O.reject
  | accept l b _ _ => exact O.accept l b
  | unregister _ _ =>
    have Q := O.queue (k := unregisterCompletion s) rfl (Nat.le_refl _) (Nat.le_succ _)
    exact ⟨Q.txs, Q.tickets, Q.ticketLt, Q.rejected, Q.blocks, Q.queued, Q.finished, Q.clearsLe, Q.uses⟩
  | stop _ =>
    have Q := O.queue (k := stopCompletion s) rfl (Nat.le_refl _) (Nat.le_refl _)
    exact ⟨Q.txs, Q.tickets, Q.ticketLt, Q.rejected, Q.blocks, Q.queued, Q.finished, Q.clearsLe, Q.uses⟩
  | thread => exact O.thread _
  -- the other calls touch none of the fields
  | _ => exact ⟨O.txs, O.tickets, O.ticketLt, O.rejected, O.blocks, O.queued, O.finished, O.clearsLe, O.uses⟩

/-- What a completed completion stands behind has been sent. -/
theorem sent_before {k : Completion} (O : Ownership s) (hk : k ∈ s.completed) :
    s.accepted.take k.accepted = (s.sent.map Prod.fst).take k.accepted := by
  have hle := O.finished k (.inr hk)
  rw [O.txs, List.append_assoc]
  exact List.take_append_of_le_length (by rw [List.length_map]; exact hle)

end Ownership

/-- The three steps from `get` to `received`, however the transfer ends. -/
theorem handed_back {s : Core} (h : s.pc.outstanding ≠ []) (a b c : Answer) :
    (threadStep (threadStep (threadStep s a) b) c).received.map (fun r => (r.1, r.2.1)) =
      s.received.map (fun r => (r.1, r.2.1)) ++ s.pc.outstanding.map fun g => (g.use.layer, g.blk) := by
  have check : ∀ (t : Core) ul length ret soc, t.pc = .rxCheck ul length ret soc → ∀ d,
      (threadStep t d).received = t.received ∧ (threadStep t d).pc = .idle := by
    intro t ul length ret soc ht d
    simp only [threadStep, ht]
    split
    · exact ⟨(SameRecords.round (s := t) ret).received, threadRound_pc _ _⟩
    · split <;> exact ⟨(SameRecords.round (s := t) _).received, threadRound_pc _ _⟩
  cases hpc : s.pc with
  | rxGot ul length got =>
    cases got with
    | none => simp [hpc, ThreadPc.outstanding] at h
    | some g => simp [threadStep, hpc, ThreadPc.outstanding]
  | rxXfer ul length got =>
    cases got with
    | none => simp [hpc, ThreadPc.outstanding] at h
    | some g =>
      have h2 : (threadStep (threadStep s a) b).pc = .rxCheck ul length a.ret a.soc := by
        simp [threadStep, hpc]
      rw [(check _ _ _ _ _ h2 c).1]
      simp [threadStep, hpc, ThreadPc.outstanding]
  | rxDone ul length got ret soc =>
    cases got with
    | none => simp [hpc, ThreadPc.outstanding] at h
    | some g =>
      have h1 : (threadStep s a).pc = .rxCheck ul length ret soc := by simp [threadStep, hpc]
      obtain ⟨h2, hidle⟩ := check _ _ _ _ _ h1 b
      have sample : ∀ (t : Core) d, t.pc = .idle → (threadStep t d).received = t.received := by
        intro t d ht
        simp [threadStep, ht]
      rw [sample _ c hidle, h2]
      simp [threadStep, hpc, ThreadPc.outstanding]
  | _ => simp [hpc, ThreadPc.outstanding] at h

/-- What the core owes the owners of blocks and layers. -/
structure BlocksOwned (s : Core) : Prop where
  sentOnce : (s.sent.map fun x => x.1.ticket).Nodup
  sentInOrder : s.sent.map Prod.fst <+: s.accepted
  rejectedNotSent : ∀ t ∈ s.rejected, ∀ x ∈ s.sent, x.1.ticket ≠ t
  handedBack : s.gets = s.received.map (fun r => (r.1, r.2.1)) ++
    s.pc.outstanding.map fun g => (g.use.layer, g.blk)
  handedBackSoon : s.pc.outstanding ≠ [] → ∀ a b c,
    (threadStep (threadStep (threadStep s a) b) c).received.map (fun r => (r.1, r.2.1)) = s.gets
  unregistered : ∀ i layer k s', s.callers i = .unregister layer k → coreStep s (.ret i) = some s' →
    (∀ w ∈ s.accepted.take k.accepted, ∃ ret, (w, ret) ∈ s.sent) ∧
    (∀ w ∈ s.pc.current ++ txsOf s.workList, w ∉ s.accepted.take k.accepted) ∧
    ∀ u, s.pc.uses = some u → k.clears ≤ u.since

theorem blocks_owned {acts : List CoreAct} {s : Core} (h : Lts.run coreStep coreInit acts = some s) :
    BlocksOwned s := by
  have O : Ownership s :=
    Lts.run_preserves (fun _ _ _ O h => O.step h) Ownership.init h
  have hprefix : s.sent.map Prod.fst <+: s.accepted := by
    refine ⟨s.pc.current ++ txsOf s.workList, ?_⟩
    rw [← List.append_assoc]
    exact O.txs.symm
  have hmem : ∀ x ∈ s.sent, x.1 ∈ s.accepted := fun x hx => hprefix.subset (List.mem_map_of_mem hx)
  have hnodup : s.accepted.Nodup := by
    apply List.Nodup.of_map TxWork.ticket
    exact O.tickets.imp Nat.ne_of_lt
  refine ⟨?_, hprefix, ?_, O.blocks, ?_, ?_⟩
  · have hsub : (s.sent.map fun x => x.1.ticket).Sublist (s.accepted.map TxWork.ticket) := by
      have h := hprefix.sublist.map TxWork.ticket
      rw [List.map_map] at h
      exact h
    exact hsub.nodup (O.tickets.imp Nat.ne_of_lt)
  · intro t ht x hx
    exact (O.rejected t ht).2 x.1 (hmem x hx)
  · intro hout a b c
    rw [handed_back hout, O.blocks]
  · intro i layer k s' hi hret
    obtain ⟨k', hk', hdone, _⟩ := retStep_some hret
    rw [hi] at hk'
    cases hk'
    have htake := O.sent_before hdone
    refine ⟨?_, ?_, O.uses k hdone⟩
    · intro w hw
      rw [htake] at hw
      obtain ⟨⟨w', ret⟩, hx, rfl⟩ := List.mem_map.mp (List.mem_of_mem_take hw)
      exact ⟨ret, hx⟩
    · -- what is not sent comes after what is
      intro w hw hsent
      rw [htake] at hsent
      rw [O.txs, List.append_assoc] at hnodup
      exact (List.nodup_append.mp hnodup).2.2 w (List.mem_of_mem_take hsent) w hw rfl

/-- A layer is registered, a block is sent on it, and it is unregistered. -/
def sendAndUnregister : List CoreAct :=
  [.register ⟨0, 2⟩, .start, .send (some ⟨0, 2⟩) (some 5) true] ++
  List.replicate 6 (.thread ⟨0, ⟨0x20, 0, 0⟩, none⟩) ++ [.unregister 0 ⟨0, 2⟩] ++
  List.replicate 4 (.thread ⟨0, ⟨0x20, 0, 0⟩, none⟩) ++ [.ret 0]

theorem blocks_owned_unregister : ∃ s, Lts.run coreStep coreInit sendAndUnregister = some s ∧
    s.sent = [(⟨0, ⟨0, 2⟩, 5⟩, 0)] ∧ s.clears = 1 ∧ BlocksOwned s := by
  obtain ⟨s, hs, hsent, hclears⟩ : ∃ s, Lts.run coreStep coreInit sendAndUnregister = some s ∧
      s.sent = [(⟨0, ⟨0, 2⟩, 5⟩, 0)] ∧ s.clears = 1 := ⟨_, rfl, rfl, rfl⟩
  exact ⟨s, hs, hsent, hclears, blocks_owned hs⟩

end Qm35.Hsspi
