import Qm35.Hsspi.Ownership

/- `hsspi_stop` as a barrier. While the core is stopped nothing is accepted, so what was
   accepted before the stop is all there is, and it has been sent when the thread
   reaches the completion of the stop. The thread may have seen the core running
   before: it then still goes on to `get_work`, but the completion is in the list by
   then and it takes that instead of starting a pre-read. After the completion it
   only waits, and takes out further completions, until the core is started again. -/
namespace Qm35.Hsspi

/-- The thread is between two rounds or completing a caller: no transfer is in progress
and no callback is due. -/
def ThreadPc.Calm : ThreadPc → Prop
  | .idle => True
  | .sampled _ _ => True
  | .woken => True
  | .completing _ => True
  | _ => False

/-- A transfer is in progress. -/
def ThreadPc.InFlight : ThreadPc → Prop
  | .txXfer _ _ => True
  | .preXfer => True
  | .rxXfer _ _ _ => True
  | _ => False

theorem ThreadPc.Calm.not_inFlight {pc : ThreadPc} (h : pc.Calm) : ¬pc.InFlight := by
  cases pc <;> simp [Calm, InFlight] at *

structure Quiescence (s : Core) : Prop where
  sampledWork : ∀ state, s.pc = .sampled false state → s.workList ≠ []
  sampledRunning : ∀ isEmpty, s.pc = .sampled isEmpty .running → s.state = .running ∨ s.workList ≠ []
  woken : s.pc = .woken → s.state = .running ∨ s.workList ≠ []
  startsLe : ∀ k, Known s k → k.starts ≤ s.starts
  stopped : ∀ k, Known s k → k.stop = true → k.starts = s.starts →
    s.state = .stopped ∧ s.accepted.length = k.accepted
  calm : ∀ k ∈ s.completed, k.stop = true → k.starts = s.starts → s.pc.Calm

namespace Quiescence

variable {s s' : Core}

theorem init : Quiescence coreInit := by
  have hknown : ∀ k, ¬Known coreInit k := by
    intro k hk
    rcases hk with hk | hk | hk <;> cases hk
  refine ⟨?_, ?_, ?_, fun k hk => absurd hk (hknown k), fun k hk => absurd hk (hknown k), ?_⟩
  · intro state h
    cases h
  · intro isEmpty h
    cases h
  · intro h
    cases h
  · intro k hk
    cases hk

/-- Once its stop is completed and while the core is not started again, nothing is left
to send. -/
theorem drained (Q : Quiescence s) (O : Ownership s) {k : Completion} (hk : k ∈ s.completed)
    (hstop : k.stop = true) (hstarts : k.starts = s.starts) : s.state = .stopped ∧ txsOf s.workList = [] := by
  obtain ⟨hstate, hacc⟩ := Q.stopped k (.inr (.inr hk)) hstop hstarts
  refine ⟨hstate, ?_⟩
  have hsent := O.finished k (.inr hk)
  have hlen := congrArg List.length O.txs
  simp only [List.length_append, List.length_map] at hlen
  exact List.eq_nil_of_length_eq_zero (by omega)

theorem accept (Q : Quiescence s) (w : TxWork) (hrun : s.state = .running) : Quiescence (acceptTx s w) := by
  have hne : s.workList ++ [.tx w] ≠ [] := by simp
  have hknown : ∀ k, Known (acceptTx s w) k → Known s k := by
    intro k hk
    exact (hk.of_snoc rfl rfl rfl).resolve_right fun h => nomatch h
  refine ⟨fun _ _ => hne, fun _ _ => .inl hrun, fun _ => .inl hrun, fun k hk => Q.startsLe k (hknown k hk), ?_,
    Q.calm⟩
  intro k hk hstop hstarts
  have := (Q.stopped k (hknown k hk) hstop hstarts).1
  rw [hrun] at this
  cases this

/-- Queuing a completion, of `hsspi_unregister` or of `hsspi_stop`. -/
theorem queue (Q : Quiescence s) {k : Completion} {state : HsspiState} (hk : k.starts = s.starts)
    (hstop : k.stop = true → k.accepted = s.accepted.length ∧ state = .stopped)
    (hstate : state = s.state ∨ state = .stopped) :
    Quiescence { s with state := state, workList := s.workList ++ [.completion k] } := by
  have hne : s.workList ++ [.completion k] ≠ [] := by simp
  have hknown : ∀ j, Known { s with state := state, workList := s.workList ++ [.completion k] } j →
      Known s j ∨ j = k := by
    intro j hj
    apply (hj.of_snoc rfl rfl rfl).imp_right
    exact Work.completion.inj
  refine ⟨fun _ _ => hne, fun _ _ => .inr hne, fun _ => .inr hne, ?_, ?_, Q.calm⟩
  · intro j hj
    rcases hknown j hj with hj | rfl
    · exact Q.startsLe j hj
    · exact Nat.le_of_eq hk
  · intro j hj hjs hst
    rcases hknown j hj with hj | rfl
    · obtain ⟨h1, h2⟩ := Q.stopped j hj hjs hst
      refine ⟨?_, h2⟩
      rcases hstate with h | h
      · exact h.trans h1
      · exact h
    · obtain ⟨h1, h2⟩ := hstop hjs
      exact ⟨h2, h1.symm⟩

theorem start (Q : Quiescence s) : Quiescence (hsspiStart s) := by
  have hlt : ∀ k, Known s k → k.starts ≠ s.starts + 1 := fun k hk => by
    have := Q.startsLe k hk
    omega
  refine ⟨Q.sampledWork, fun _ _ => .inl rfl, fun _ => .inl rfl, ?_, ?_, ?_⟩
  · intro k hk
    exact Nat.le_succ_of_le (Q.startsLe k hk)
  · intro k hk _ hst
    exact absurd hst (hlt k hk)
  · intro k hk _ hst
    exact absurd hst (hlt k (.inr (.inr hk)))

/-- `s'` has the state, the work list and the completions of `s`. -/
structure SameControl (s s' : Core) : Prop where
  workList : s'.workList = s.workList
  completed : s'.completed = s.completed
  accepted : s'.accepted = s.accepted
  state : s'.state = s.state
  starts : s'.starts = s.starts

namespace SameControl

theorem moved {layers : Nat → Option LayerRef} {ssIrq : Bool} {pc : ThreadPc} {callers : Nat → CallerPc}
    {rejected : List Nat} {sent : List (TxWork × Int)} {gets : List (LayerRef × Nat)}
    {received : List (LayerRef × Nat × Int)}
    {successiveErrors sends completions clears xfers resets : Nat} : SameControl s { s with
      layers := layers, ssIrq := ssIrq, pc := pc, successiveErrors := successiveErrors, callers := callers
      sends := sends, rejected := rejected, sent := sent, gets := gets, received := received
      completions := completions, clears := clears, xfers := xfers, resets := resets } :=
  ⟨rfl, rfl, rfl, rfl, rfl⟩

theorem round {ssIrq : Bool} {sent : List (TxWork × Int)} (ret : Int) :
    SameControl s (threadRound { s with ssIrq := ssIrq, sent := sent } ret) := by
  obtain ⟨_, _, h⟩ := threadRound_moves { s with ssIrq := ssIrq, sent := sent } ret
  rw [h]
  exact moved

end SameControl

/-- A step of the thread that completes nobody. -/
theorem advance (Q : Quiescence s) (R : SameControl s s') (hcomp : s'.pc.completion = none)
    (hsampledWork : ∀ state, s'.pc = .sampled false state → s.workList ≠ [])
    (hsampledRunning : ∀ isEmpty, s'.pc = .sampled isEmpty .running → s.state = .running ∨ s.workList ≠ [])
    (hwoken : s'.pc = .woken → s.state = .running ∨ s.workList ≠ [])
    (hcalm : s'.pc.Calm ∨ ∀ k ∈ s.completed, k.stop = true → k.starts ≠ s.starts) : Quiescence s' := by
  have hknown : ∀ k, Known s' k → Known s k := by
    intro k hk
    exact hk.of_step (fun w hw => R.workList ▸ hw) hcomp R.completed
  refine ⟨?_, ?_, ?_, ?_, ?_, ?_⟩
  · rw [R.workList]
    exact hsampledWork
  · rw [R.workList, R.state]
    exact hsampledRunning
  · rw [R.workList, R.state]
    exact hwoken
  · intro k hk
    rw [R.starts]
    exact Q.startsLe k (hknown k hk)
  · intro k hk
    rw [R.starts, R.state, R.accepted]
    exact Q.stopped k (hknown k hk)
  · intro k hk hstop hstarts
    rw [R.completed] at hk
    rw [R.starts] at hstarts
    rcases hcalm with hcalm | hcalm
    · exact hcalm
    · exact absurd hstarts (hcalm k hk hstop)

/-- A step inside an exchange: there is no completed stop then. -/
theorem busy {pc : ThreadPc} (Q : Quiescence s) (hpc : s.pc = pc) (hbusy : ¬pc.Calm) (R : SameControl s s')
    (hcomp : s'.pc.completion = none) (hsampled : ∀ isEmpty state, s'.pc ≠ .sampled isEmpty state)
    (hwoken : s'.pc ≠ .woken) : Quiescence s' := by
  subst hpc
  refine Q.advance R hcomp (fun _ h => absurd h (hsampled _ _)) (fun _ h => absurd h (hsampled _ _))
    (fun h => absurd h hwoken) (.inr ?_)
  intro k hk hstop hstarts
  exact hbusy (Q.calm k hk hstop hstarts)

theorem busyRound {pc : ThreadPc} {ssIrq : Bool} {sent : List (TxWork × Int)} (Q : Quiescence s)
    (hpc : s.pc = pc) (hbusy : ¬pc.Calm) (ret : Int) :
    Quiescence (threadRound { s with ssIrq := ssIrq, sent := sent } ret) := by
  apply Q.busy hpc hbusy (.round ret)
  · rw [threadRound_pc]
    rfl
  · intro isEmpty state
    rw [threadRound_pc]
    exact fun h => nomatch h
  · rw [threadRound_pc]
    exact fun h => nomatch h

/-- `get_work` after a wake-up: there is a work, or the core is running. -/
theorem getWork (Q : Quiescence s) (O : Ownership s) (hpc : s.pc = .woken) : Quiescence (getWork s) := by
  unfold Hsspi.getWork
  split
  · next hw =>
    have hrun : s.state = .running := (Q.woken hpc).resolve_right fun h => h hw
    refine Q.advance .moved rfl (fun _ h => nomatch h) (fun _ h => nomatch h) (fun h => nomatch h) (.inr ?_)
    intro k hk hstop hst
    have := (Q.drained O hk hstop hst).1
    rw [hrun] at this
    cases this
  · next k rest hw =>
    exact ⟨(fun _ h => nomatch h), (fun _ h => nomatch h), (fun h => nomatch h),
      fun j hj => Q.startsLe j (hj.of_take hw), fun j hj => Q.stopped j (hj.of_take hw), fun _ _ _ _ => trivial⟩
  · next w rest hw =>
    have hrest : ∀ v ∈ rest, v ∈ s.workList := fun v hv => hw ▸ List.mem_cons_of_mem _ hv
    refine ⟨(fun _ h => nomatch h), (fun _ h => nomatch h), (fun h => nomatch h),
      fun j hj => Q.startsLe j (hj.of_step hrest rfl rfl), fun j hj => Q.stopped j (hj.of_step hrest rfl rfl), ?_⟩
    intro j hj hstop hst
    have := (Q.drained O hj hstop hst).2
    rw [hw] at this
    cases this

theorem completing {k : Completion} (Q : Quiescence s) (hpc : s.pc = .completing k) :
    Quiescence { s with completed := k :: s.completed, pc := .idle } :=
  ⟨(fun _ h => nomatch h), (fun _ h => nomatch h), (fun h => nomatch h),
    fun j hj => Q.startsLe j (hj.of_complete hpc), fun j hj => Q.stopped j (hj.of_complete hpc),
    fun _ _ _ _ => trivial⟩

theorem thread (Q : Quiescence s) (O : Ownership s) (a : Answer) : Quiescence (threadStep s a) := by
  unfold threadStep
  cases hpc : s.pc with
  | idle =>
    refine Q.advance .moved rfl ?_ ?_ (fun h => nomatch h) (.inl trivial)
    · intro state h
      injection h with h _
      intro hnil
      simp [hnil] at h
    · intro isEmpty h
      injection h with _ h
      exact .inl h
  | sampled isEmpty state =>
    dsimp only
    split
    · next hgo =>
      refine Q.advance .moved rfl (fun _ h => nomatch h) (fun _ h => nomatch h) ?_ (.inl trivial)
      intro _
      cases isEmpty with
      | false => exact .inr (Q.sampledWork state hpc)
      | true =>
        -- woken by `SS_IRQ`: the core was running when the thread looked
        have hrun : state = .running := by
          have : state = .running ∧ s.ssIrq = true := by simpa using hgo
          exact this.1
        subst hrun
        exact Q.sampledRunning true hpc
    · exact Q.advance .moved rfl (fun _ h => nomatch h) (fun _ h => nomatch h) (fun h => nomatch h) (.inl trivial)
  | woken => exact Q.getWork O hpc
  | completing k => exact Q.completing hpc
  | txDone w prd ret soc =>
    dsimp only
    split
    · exact Q.busy hpc id .moved rfl (fun _ _ h => nomatch h) (fun h => nomatch h)
    · exact Q.busyRound hpc id ret
  | preXfer =>
    dsimp only
    split
    · exact Q.busy hpc id .moved rfl (fun _ _ h => nomatch h) (fun h => nomatch h)
    · exact Q.busyRound hpc id a.ret
  | rxFound ul length layer =>
    dsimp only
    split <;> exact Q.busy hpc id .moved rfl (fun _ _ h => nomatch h) (fun h => nomatch h)
  | rxDone ul length got ret soc =>
    dsimp only
    split <;> exact Q.busy hpc id .moved rfl (fun _ _ h => nomatch h) (fun h => nomatch h)
  | rxCheck ul length ret soc =>
    dsimp only
    split
    · exact Q.busyRound hpc id ret
    · split <;> exact Q.busyRound hpc id _
  -- the steps to and from a transfer, and the look at the table of layers
  | _ => exact Q.busy hpc id .moved rfl (fun _ _ h => nomatch h) (fun h => nomatch h)

theorem step {a : CoreAct} (Q : Quiescence s) (O : Ownership s) (h : coreStep s a = some s') :
    Quiescence s' := by
  cases coreStep_effect h with
  | accept l b hrun _ => exact Q.accept _ hrun
  | unregister _ _ =>
    have Q' := Q.queue (k := unregisterCompletion s) rfl (fun h => nomatch h) (.inl rfl)
    exact ⟨Q'.sampledWork, Q'.sampledRunning, Q'.woken, Q'.startsLe, Q'.stopped, Q'.calm⟩
  | start => exact Q.start
  | stop _ =>
    have Q' := Q.queue (k := stopCompletion s) rfl (fun _ => ⟨rfl, rfl⟩) (.inr rfl)
    exact ⟨Q'.sampledWork, Q'.sampledRunning, Q'.woken, Q'.startsLe, Q'.stopped, Q'.calm⟩
  | thread => exact Q.thread O _
  -- the other calls touch none of the fields
  | _ => exact ⟨Q.sampledWork, Q.sampledRunning, Q.woken, Q.startsLe, Q.stopped, Q.calm⟩

end Quiescence

/-- The records of what the thread has done on the bus and to the layers. -/
structure Silent (s s' : Core) : Prop where
  xfers : s'.xfers = s.xfers
  sent : s'.sent = s.sent
  gets : s'.gets = s.gets
  received : s'.received = s.received

theorem getWork_silent (s : Core) : Silent s (getWork s) := by
  unfold getWork
  split <;> exact ⟨rfl, rfl, rfl, rfl⟩

/-- A calm thread does nothing on the bus, and calls nobody. -/
theorem threadStep_silent {s : Core} (h : s.pc.Calm) (a : Answer) : Silent s (threadStep s a) := by
  unfold threadStep
  cases hpc : s.pc with
  | idle => exact ⟨rfl, rfl, rfl, rfl⟩
  | sampled isEmpty state => exact ⟨rfl, rfl, rfl, rfl⟩
  | woken => exact getWork_silent s
  | completing k => exact ⟨rfl, rfl, rfl, rfl⟩
  | _ => simp [hpc, ThreadPc.Calm] at h

/-- Neither does a call. -/
theorem coreStep_silent {s s' : Core} {a : CoreAct} (hcalm : s.pc.Calm) (h : coreStep s a = some s') :
    Silent s s' := by
  cases coreStep_effect h with
  | thread => exact threadStep_silent hcalm _
  | _ => exact ⟨rfl, rfl, rfl, rfl⟩

/-- The core is stopped, the thread is calm, and there is nothing to send. -/
structure Quiet (s : Core) : Prop where
  stopped : s.state = .stopped
  drained : txsOf s.workList = []
  calm : s.pc.Calm

/-- After a completed stop, while the core is not started again. -/
theorem Quiescence.quiet {s : Core} {k : Completion} (Q : Quiescence s) (O : Ownership s)
    (hk : k ∈ s.completed) (hstop : k.stop = true) (hstarts : k.starts = s.starts) : Quiet s :=
  ⟨(Q.drained O hk hstop hstarts).1, (Q.drained O hk hstop hstarts).2, Q.calm k hk hstop hstarts⟩

/-- A core that is stopped with nothing to send stays so until it is started. -/
theorem drained_step {s s' : Core} {a : CoreAct} (hstopped : s.state = .stopped)
    (hdrained : txsOf s.workList = []) (ha : a ≠ .start) (h : coreStep s a = some s') :
    s'.state = .stopped ∧ txsOf s'.workList = [] := by
  have hcomp : ∀ k, txsOf (s.workList ++ [.completion k]) = [] := by
    intro k
    rw [txsOf_append, hdrained]
    rfl
  cases coreStep_effect h with
  | accept l b hrun _ =>
    rw [hstopped] at hrun
    cases hrun
  | unregister _ _ => exact ⟨hstopped, hcomp _⟩
  | start => exact absurd rfl ha
  | stop _ => exact ⟨rfl, hcomp _⟩
  | @thread b =>
    refine ⟨(threadStep_frame s b).state.trans hstopped, ?_⟩
    by_cases hpc : s.pc = .woken
    · have htail : (threadStep s b).workList = s.workList.tail := by
        rw [← getWork_workList, threadStep, hpc]
      rw [htail]
      exact txsOf_tail hdrained
    · rw [threadStep_workList b hpc]
      exact hdrained
  | _ => exact ⟨hstopped, hdrained⟩

/-- What a thread that was woken finds then is a completion. -/
theorem Quiescence.finds_completion {s : Core} (Q : Quiescence s) (hpc : s.pc = .woken)
    (hstopped : s.state = .stopped) (hdrained : txsOf s.workList = []) :
    ∃ k, (Hsspi.getWork s).pc = .completing k := by
  unfold Hsspi.getWork
  split
  · next hw =>
    rcases Q.woken hpc with hrun | hne
    · rw [hstopped] at hrun
      cases hrun
    · exact absurd hw hne
  · next k rest hw => exact ⟨k, rfl⟩
  · next w rest hw =>
    rw [hw] at hdrained
    cases hdrained

theorem Quiet.thread {s : Core} (h : Quiet s) (Q : Quiescence s) (a : Answer) : (threadStep s a).pc.Calm := by
  have hcalm := h.calm
  unfold threadStep
  cases hpc : s.pc with
  | idle => trivial
  | sampled isEmpty state =>
    dsimp only
    split <;> trivial
  | woken =>
    obtain ⟨k, hk⟩ := Q.finds_completion hpc h.stopped h.drained
    dsimp only
    rw [hk]
    trivial
  | completing k => trivial
  | _ => simp [hpc, ThreadPc.Calm] at hcalm

theorem Quiet.step {s s' : Core} {a : CoreAct} (h : Quiet s) (Q : Quiescence s) (ha : a ≠ .start)
    (hs : coreStep s a = some s') : Quiet s' := by
  obtain ⟨hstopped, hdrained⟩ := drained_step h.stopped h.drained ha hs
  refine ⟨hstopped, hdrained, ?_⟩
  cases a with
  | thread b =>
    cases hs
    exact h.thread Q b
  | _ =>
    rw [coreStep_pc (by intro b hb; cases hb) hs]
    exact h.calm

/-- A quiet core stays quiet and silent until it is started. -/
theorem quiet_run {s t : Core} {acts : List CoreAct} (O : Ownership s) (Q : Quiescence s) (h : Quiet s)
    (hacts : ∀ a ∈ acts, a ≠ .start) (hr : Lts.run coreStep s acts = some t) : Silent s t ∧ Quiet t := by
  induction acts generalizing s with
  | nil =>
    cases hr
    exact ⟨⟨rfl, rfl, rfl, rfl⟩, h⟩
  | cons a acts ih =>
    obtain ⟨s', hstep, hr⟩ := Lts.run_cons_some.mp hr
    have hs := coreStep_silent h.calm hstep
    have h' := h.step Q (hacts a List.mem_cons_self) hstep
    obtain ⟨ht, hquiet⟩ := ih (O.step hstep) (Q.step O hstep) h'
      (fun b hb => hacts b (List.mem_cons_of_mem _ hb)) hr
    exact ⟨⟨ht.xfers.trans hs.xfers, ht.sent.trans hs.sent, ht.gets.trans hs.gets,
      ht.received.trans hs.received⟩, hquiet⟩

theorem core_invariant {s : Core} {acts : List CoreAct} (hr : Lts.run coreStep coreInit acts = some s) :
    Ownership s ∧ Quiescence s :=
  Lts.run_preserves (I := fun s => Ownership s ∧ Quiescence s)
    (fun _ _ _ h hs => ⟨h.1.step hs, h.2.step h.1 hs⟩) ⟨Ownership.init, Quiescence.init⟩ hr

/-- A caller in `hsspi_stop` waits for a completion of `hsspi_stop`. -/
theorem callers_stop {s : Core} {acts : List CoreAct} (hr : Lts.run coreStep coreInit acts = some s) :
    ∀ i k, s.callers i = .stop k → k.stop = true := by
  refine Lts.run_preserves (I := fun s => ∀ i k, s.callers i = .stop k → k.stop = true) ?_ ?_ hr
  · intro s a s' h hs
    have update : ∀ {i : Nat} {pc : CallerPc}, (∀ k, pc = .stop k → k.stop = true) →
        ∀ j k, Function.update s.callers i pc j = .stop k → k.stop = true := by
      intro i pc hpc j k hj
      by_cases hji : j = i
      · subst hji
        rw [Function.update_self] at hj
        exact hpc k hj
      · rw [Function.update_of_ne hji] at hj
        exact h j k hj
    cases coreStep_effect hs with
    | unregister _ _ => exact update fun k hk => nomatch hk
    | stop _ =>
      apply update
      intro k hk
      cases hk
      rfl
    | ret _ _ _ => exact update fun k hk => nomatch hk
    | thread =>
      rw [(threadStep_frame s _).callers]
      exact h
    | _ => exact h
  · intro i k h
    cases h

/-- When `hsspi_stop` returns, everything accepted before it set the state has been sent;
and if the core was not started since, then from its return until the next start no
transfer is in progress or begins, and no layer is called. -/
theorem stop_is_barrier {acts : List CoreAct} {s s' : Core} {i : Nat} {k : Completion}
    (hr : Lts.run coreStep coreInit acts = some s) (hi : s.callers i = .stop k)
    (hret : coreStep s (.ret i) = some s') :
    (∀ w ∈ s.accepted.take k.accepted, ∃ ret, (w, ret) ∈ s.sent) ∧
    (k.starts = s.starts → ∀ acts' t, (∀ a ∈ acts', a ≠ .start) → Lts.run coreStep s' acts' = some t →
      ¬t.pc.InFlight ∧ Silent s' t) := by
  obtain ⟨O, Q⟩ := core_invariant hr
  have hstop := callers_stop hr i k hi
  have hdone : k ∈ s.completed := by
    obtain ⟨k', hk', hdone, _⟩ := retStep_some hret
    rw [hi] at hk'
    cases hk'
    exact hdone
  refine ⟨?_, ?_⟩
  · intro w hw
    rw [O.sent_before hdone] at hw
    obtain ⟨⟨w', ret⟩, hx, rfl⟩ := List.mem_map.mp (List.mem_of_mem_take hw)
    exact ⟨ret, hx⟩
  · intro hstarts acts' t hacts hrun
    have hquiet := (Q.quiet O hdone hstop hstarts).step Q (fun h => by cases h) hret
    obtain ⟨hs, hq⟩ := quiet_run (O.step hret) (Q.step O hret) hquiet hacts hrun
    exact ⟨hq.calm.not_inFlight, hs⟩

/-- A block is sent, the core is stopped under a pending `SS_IRQ`, and the thread goes on. -/
def sendAndStop : List CoreAct :=
  [.register ⟨0, 2⟩, .start, .send (some ⟨0, 2⟩) (some 5) true, .ssIrq, .stop 0] ++
  List.replicate 11 (.thread ⟨-1, ⟨0, 0, 0⟩, none⟩)

theorem stop_is_barrier_pending : ∃ s s', Lts.run coreStep coreInit sendAndStop = some s ∧
    coreStep s (.ret 0) = some s' ∧ s.accepted.length = 1 ∧ (∀ w ∈ s.accepted.take 1, ∃ ret, (w, ret) ∈ s.sent) ∧
    ∀ acts' t, (∀ a ∈ acts', a ≠ .start) → Lts.run coreStep s' acts' = some t →
      ¬t.pc.InFlight ∧ Silent s' t := by
  obtain ⟨s, s', k, hs, hs', hk, hlen, hacc, hstarts⟩ : ∃ s s' k, Lts.run coreStep coreInit sendAndStop = some s ∧
      coreStep s (.ret 0) = some s' ∧ s.callers 0 = .stop k ∧ s.accepted.length = 1 ∧ k.accepted = 1 ∧
      k.starts = s.starts := ⟨_, _, _, rfl, rfl, rfl, rfl, rfl, rfl⟩
  have h := stop_is_barrier hs hk hs'
  rw [hacc] at h
  exact ⟨s, s', hs, hs', hlen, h.1, h.2 hstarts⟩

end Qm35.Hsspi
