import Qm35.Hsspi.Quiescence

/- What it means that the core is found stopped. `hsspi_stop` sets the state first and
   waits for the thread afterwards, so a reader of the state may be early: then there
   is still a completion of `hsspi_stop` on its way. Otherwise the core is still: it
   has nothing to send, and the round the thread is in has no transfer left. -/
namespace Qm35.Hsspi

/-- The round of the thread has no transfer in progress and none to come. -/
def ThreadPc.Spent : ThreadPc → Prop
  | .txDone _ prd ret _ => ¬(ret = 0 ∧ prd = true)
  | .rxDone _ _ _ _ _ => True
  | .rxCheck _ _ _ _ => True
  | .idle => True
  | .sampled _ _ => True
  | .woken => True
  | .completing _ => True
  | _ => False

theorem ThreadPc.Spent.not_inFlight {pc : ThreadPc} (h : pc.Spent) : ¬pc.InFlight := by
  cases pc <;> simp [Spent, InFlight] at *

theorem ThreadPc.Calm.spent {pc : ThreadPc} (h : pc.Calm) : pc.Spent := by
  cases pc <;> simp [Calm, Spent] at *

/-- There is nothing left to transfer. -/
structure NothingLeft (s : Core) : Prop where
  drained : txsOf s.workList = []
  spent : s.pc.Spent

/-- The core is stopped with nothing left to transfer. -/
structure Still (s : Core) : Prop where
  stopped : s.state = .stopped
  nothingLeft : NothingLeft s

theorem Quiet.still {s : Core} (h : Quiet s) : Still s := ⟨h.stopped, h.drained, h.calm.spent⟩

/-- The completion is in the work list, or the thread has taken it out and not completed it. -/
def Queued (s : Core) (k : Completion) : Prop :=
  .completion k ∈ s.workList ∨ s.pc.completion = some k

/-- Some caller of `hsspi_stop` is not completed yet. -/
def StopPending (s : Core) : Prop := ∃ i k, s.callers i = .stop k ∧ Queued s k

section Step
variable {s s' : Core}

/-- The thread finishes its round without another transfer, and starts none. -/
theorem Still.thread (h : Still s) (Q : Quiescence s) (a : Answer) : (threadStep s a).pc.Spent := by
  have hspent := h.nothingLeft.spent
  unfold threadStep
  cases hpc : s.pc with
  | idle => trivial
  | sampled isEmpty state =>
    dsimp only
    split <;> trivial
  | woken =>
    obtain ⟨k, hk⟩ := Q.finds_completion hpc h.stopped h.nothingLeft.drained
    dsimp only
    rw [hk]
    trivial
  | completing k => trivial
  | txDone w prd ret soc =>
    simp only [hpc, ThreadPc.Spent] at hspent
    dsimp only
    rw [if_neg hspent, threadRound_pc]
    trivial
  | rxDone ul length got ret soc =>
    dsimp only
    split <;> trivial
  | rxCheck ul length ret soc =>
    dsimp only
    split <;> rw [threadRound_pc] <;> trivial
  | _ => simp [hpc, ThreadPc.Spent] at hspent

/-- A still core stays so until it is started. -/
theorem Still.step {a : CoreAct} (h : Still s) (Q : Quiescence s) (ha : a ≠ .start)
    (hs : coreStep s a = some s') : Still s' := by
  obtain ⟨hstopped, hdrained⟩ := drained_step h.stopped h.nothingLeft.drained ha hs
  refine ⟨hstopped, hdrained, ?_⟩
  cases a with
  | thread b =>
    cases hs
    exact h.thread Q b
  | _ =>
    rw [coreStep_pc (by intro b hb; cases hb) hs]
    exact h.nothingLeft.spent

/-! The completion of a stop that is on its way. -/

/-- The thread takes a completion out, and completes it. -/
theorem Queued.thread {k : Completion} (h : Queued s k) (a : Answer) :
    Queued (threadStep s a) k ∨ k ∈ (threadStep s a).completed := by
  by_cases hw : s.pc = .woken
  · have hmem : .completion k ∈ s.workList := by
      rcases h with h | h
      · exact h
      · rw [hw] at h
        cases h
    have hstep : threadStep s a = getWork s := by simp only [threadStep, hw]
    rw [hstep]
    unfold getWork
    split
    · next hnil =>
      rw [hnil] at hmem
      cases hmem
    · next j rest hlist =>
      rw [hlist] at hmem
      rcases List.mem_cons.mp hmem with hk | hk
      · cases hk
        exact .inl (.inr rfl)
      · exact .inl (.inl hk)
    · next w rest hlist =>
      rw [hlist] at hmem
      rcases List.mem_cons.mp hmem with hk | hk
      · cases hk
      · exact .inl (.inl hk)
  -- the thread takes no work: what is queued stays, what is being completed is completed
  · rcases h with h | h
    · left
      left
      rw [threadStep_workList a hw]
      exact h
    · right
      cases hpc : s.pc with
      | completing j =>
        rw [hpc] at h
        cases h
        simp [threadStep, hpc]
      | _ =>
        rw [hpc] at h
        cases h

theorem Queued.step {a : CoreAct} {k : Completion} (h : Queued s k) (hs : coreStep s a = some s') :
    Queued s' k ∨ k ∈ s'.completed := by
  have queue : ∀ w, .completion k ∈ s.workList ++ [w] ∨ s.pc.completion = some k := by
    intro w
    exact h.imp_left (List.mem_append_left _)
  cases coreStep_effect hs with
  | accept _ _ _ _ => exact .inl (queue _)
  | unregister _ _ => exact .inl (queue _)
  | stop _ => exact .inl (queue _)
  | thread => exact h.thread _
  | _ => exact .inl h

/-! Whose calls are whose. -/

/-- The caller whose call or return the action is. -/
def CoreAct.caller : CoreAct → Option Nat
  | .unregister i _ => some i
  | .stop i => some i
  | .ret i => some i
  | _ => none

theorem coreStep_callers {a : CoreAct} {i : Nat} (ha : a.caller ≠ some i) (hs : coreStep s a = some s') :
    s'.callers i = s.callers i := by
  have other : ∀ {j pc}, some j ≠ some i → Function.update s.callers j pc i = s.callers i := by
    intro j pc hj
    exact Function.update_of_ne (fun h => hj (congrArg some h.symm)) _ _
  cases coreStep_effect hs with
  | unregister _ _ => exact other ha
  | stop _ => exact other ha
  | ret _ _ _ => exact other ha
  | thread => exact congrFun (threadStep_frame s _).callers i
  | _ => rfl

/-- A caller stays in `hsspi_stop` until it returns. -/
theorem coreStep_stop {a : CoreAct} {i : Nat} {k : Completion} (ha : a ≠ .ret i) (hi : s.callers i = .stop k)
    (hs : coreStep s a = some s') : s'.callers i = .stop k := by
  have hidle : s.callers i ≠ .idle := by
    rw [hi]
    exact fun h => nomatch h
  rw [coreStep_callers ?_ hs, hi]
  intro hcaller
  cases coreStep_effect hs with
  | notRegistered hj => exact hidle (Option.some.inj hcaller ▸ hj)
  | unregister hj _ => exact hidle (Option.some.inj hcaller ▸ hj)
  | stop hj => exact hidle (Option.some.inj hcaller ▸ hj)
  | ret _ _ _ => exact ha (Option.some.inj hcaller ▸ rfl)
  | _ => cases hcaller

/-- A core found stopped is still, or the `hsspi_stop` that stopped it is not completed. -/
def StillOrPending (s : Core) : Prop :=
  s.state = .stopped → Still s ∨
    ∃ i k, s.callers i = .stop k ∧ k.stop = true ∧ k.starts = s.starts ∧ Queued s k

theorem StillOrPending.init : StillOrPending coreInit := fun _ => .inl ⟨rfl, rfl, trivial⟩

theorem StillOrPending.step {a : CoreAct} (h : StillOrPending s) (O : Ownership s) (Q : Quiescence s)
    (hs : coreStep s a = some s') : StillOrPending s' := by
  intro hstopped
  have hstart : a ≠ .start := by
    rintro rfl
    cases hs
    cases hstopped
  by_cases hstop : ∃ j, a = .stop j
  · obtain ⟨j, rfl⟩ := hstop
    cases coreStep_effect hs with
    | stop _ =>
      exact .inr ⟨j, stopCompletion s, Function.update_self _ _ _, rfl, rfl,
        .inl (List.mem_append_right _ List.mem_cons_self)⟩
  · have hstate := coreStep_state hstart (fun j hj => hstop ⟨j, hj⟩) hs
    rcases h (hstate.symm.trans hstopped) with hstill | ⟨i, k, hi, hk, hks, hq⟩
    · exact .inl (hstill.step Q hstart hs)
    · have hks' : k.starts = s'.starts := hks.trans (coreStep_starts hstart hs).symm
      rcases hq.step hs with hq' | hdone
      · by_cases hret : a = .ret i
        · -- the caller returns: its completion is done, and the core quiet
          subst hret
          cases coreStep_effect hs with
          | ret k' hk' hdone =>
            rw [hi] at hk'
            cases hk'
            exact .inl ((Q.quiet O hdone hk hks).still.step Q hstart hs)
        · exact .inr ⟨i, k, coreStep_stop hret hi hs, hk, hks', hq'⟩
      · exact .inl ((Q.step O hs).quiet (O.step hs) hdone hk hks').still

end Step

end Qm35.Hsspi
