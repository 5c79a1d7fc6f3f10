import Qm35.Hsspi.Quiescence

/- Who waits for a completion. The completions that are queued are on the stacks of callers
   that are still in `hsspi_stop` or `hsspi_unregister`: a caller leaves only after its own
   has been completed, and no two have the same number. So a core that is quiet, with no
   caller in it, has nothing in its work list. -/
namespace Qm35.Hsspi

/-- The completions of a work list. -/
def completionsOf : List Work → List Completion
  | [] => []
  | .tx _ :: ws => completionsOf ws
  | .completion k :: ws => k :: completionsOf ws

@[simp] theorem completionsOf_append (xs ys : List Work) :
    completionsOf (xs ++ ys) = completionsOf xs ++ completionsOf ys := by
  induction xs with
  | nil => rfl
  | cons x xs ih => cases x <;> simp [completionsOf, ih]

/-- The completions queued, or in the hands of the thread. -/
def pending (s : Core) : List Completion := s.pc.completion.toList ++ completionsOf s.workList

/-- Every pending completion is one that a caller waits for, and no two completions have the same number. -/
structure Awaited (s : Core) : Prop where
  waiter : ∀ k ∈ pending s, ∃ i, (s.callers i).waits = some k
  distinct : ((s.completed ++ pending s).map Completion.id).Nodup
  idLt : ∀ k ∈ s.completed ++ pending s, k.id < s.completions

namespace Awaited

variable {s s' : Core}

theorem init : Awaited coreInit := by
  refine ⟨fun k hk => ?_, List.nodup_nil, fun k hk => ?_⟩
  · cases hk
  · cases hk

/-- A step that leaves the completions and the callers alone. -/
theorem same (A : Awaited s) (hpending : pending s' = pending s) (hcompleted : s'.completed = s.completed)
    (hcallers : s'.callers = s.callers) (hcompletions : s'.completions = s.completions) : Awaited s' := by
  refine ⟨?_, ?_, ?_⟩
  · rw [hpending, hcallers]
    exact A.waiter
  · rw [hpending, hcompleted]
    exact A.distinct
  · rw [hpending, hcompleted, hcompletions]
    exact A.idLt

/-- A caller queues its completion. -/
theorem queue (A : Awaited s) {i : Nat} {k : Completion} {pc : CallerPc} (hi : s.callers i = .idle)
    (hk : k.id = s.completions) (hpc : pc.waits = some k) (hpending : pending s' = pending s ++ [k])
    (hcompleted : s'.completed = s.completed) (hcallers : s'.callers = Function.update s.callers i pc)
    (hcompletions : s'.completions = s.completions + 1) : Awaited s' := by
  have happ : s'.completed ++ pending s' = (s.completed ++ pending s) ++ [k] := by
    rw [hcompleted, hpending, List.append_assoc]
  refine ⟨fun j hj => ?_, ?_, fun j hj => ?_⟩
  · rw [hpending] at hj
    rw [hcallers]
    rcases List.mem_append.mp hj with hj | hj
    · obtain ⟨i', hi'⟩ := A.waiter j hj
      have hne : i' ≠ i := fun heq => by
        rw [heq, hi] at hi'
        cases hi'
      exact ⟨i', by rw [Function.update_of_ne hne]; exact hi'⟩
    · cases List.mem_singleton.mp hj
      exact ⟨i, by rw [Function.update_self]; exact hpc⟩
  · rw [happ, List.map_append]
    refine A.distinct.append (List.nodup_singleton _) fun n hn hn' => ?_
    obtain ⟨j, hj, rfl⟩ := List.mem_map.mp hn
    have heq : j.id = k.id := List.mem_singleton.mp hn'
    have hlt := A.idLt j hj
    omega
  · rw [happ] at hj
    rw [hcompletions]
    rcases List.mem_append.mp hj with hj | hj
    · exact Nat.lt_succ_of_lt (A.idLt j hj)
    · cases List.mem_singleton.mp hj
      omega

/-- A caller returns, whose completion is not pending any more. -/
theorem ret (A : Awaited s) {i : Nat} {k : Completion} (hi : (s.callers i).waits = some k) (hk : k ∈ s.completed) :
    Awaited { s with callers := Function.update s.callers i .idle } := by
  refine ⟨fun j hj => ?_, A.distinct, A.idLt⟩
  have hpending : j ∈ pending s := hj
  obtain ⟨i', hi'⟩ := A.waiter j hpending
  have hne : i' ≠ i := by
    intro heq
    rw [heq, hi] at hi'
    cases hi'
    have hdisj := List.nodup_append.mp (List.map_append ▸ A.distinct)
    exact hdisj.2.2 k.id (List.mem_map_of_mem hk) k.id (List.mem_map_of_mem hpending) rfl
  exact ⟨i', (congrArg CallerPc.waits (Function.update_of_ne hne _ _)).trans hi'⟩

/-- The thread takes the work that is first. -/
theorem getWork (A : Awaited s) (hpc : s.pc = .woken) : Awaited (getWork s) := by
  have hpending : pending s = completionsOf s.workList := by rw [pending, hpc]; rfl
  unfold Hsspi.getWork
  split
  · next hw =>
    refine A.same ?_ rfl rfl rfl
    rw [hpending]
    rfl
  · next k rest hw =>
    refine A.same ?_ rfl rfl rfl
    rw [hpending, hw]
    rfl
  · next w rest hw =>
    refine A.same ?_ rfl rfl rfl
    rw [hpending, hw]
    rfl

/-- The thread completes the completion it has. -/
theorem completing (A : Awaited s) {k : Completion} (hpc : s.pc = .completing k) :
    Awaited { s with completed := k :: s.completed, pc := .idle } := by
  have hpending : pending s = k :: completionsOf s.workList := by rw [pending, hpc]; rfl
  have hperm : (k :: s.completed ++ completionsOf s.workList).Perm (s.completed ++ pending s) := by
    rw [hpending]
    exact List.perm_middle.symm
  refine ⟨fun j hj => A.waiter j ?_, ?_, fun j hj => A.idLt j (hperm.mem_iff.mp hj)⟩
  · rw [hpending]
    exact List.mem_cons_of_mem _ hj
  · exact (hperm.map Completion.id).nodup_iff.mpr A.distinct

/-- No other step of the thread makes a difference. -/
theorem pending_of_frame (F : QueueFrame s s') (hc : ∀ k, s.pc ≠ .completing k) : pending s' = pending s := by
  have hnone : ∀ {pc : ThreadPc}, (∀ k, pc ≠ .completing k) → pc.completion = none := by
    intro pc hpc
    cases pc with
    | completing k => exact absurd rfl (hpc k)
    | _ => rfl
  rw [pending, pending, hnone F.pc, hnone hc, F.workList]

theorem thread (A : Awaited s) (a : Answer) : Awaited (threadStep s a) := by
  by_cases hw : s.pc = .woken
  · have hstep : threadStep s a = Hsspi.getWork s := by simp only [threadStep, hw]
    rw [hstep]
    exact A.getWork hw
  by_cases hc : ∃ k, s.pc = .completing k
  · obtain ⟨k, hk⟩ := hc
    have hstep : threadStep s a = { s with completed := k :: s.completed, pc := .idle } := by
      simp only [threadStep, hk]
    rw [hstep]
    exact A.completing hk
  · have F := threadStep_frame s a
    have hnot : ∀ k, s.pc ≠ .completing k := fun k hk => hc ⟨k, hk⟩
    have Q := threadStep_queue a hw hnot
    exact A.same (pending_of_frame Q hnot) Q.completed F.callers F.completions

theorem step {a : CoreAct} (A : Awaited s) (h : coreStep s a = some s') : Awaited s' := by
  have hsnoc : ∀ w, pending { s with workList := s.workList ++ [w] } = pending s ++ completionsOf [w] := by
    intro w
    rw [pending, completionsOf_append, ← List.append_assoc]
    rfl
  cases coreStep_effect h with
  | accept l b _ _ =>
    refine A.same ?_ rfl rfl rfl
    exact (hsnoc (.tx ⟨s.sends, l, b⟩)).trans (List.append_nil _)
  | unregister hi _ => exact A.queue hi rfl rfl (hsnoc (.completion (unregisterCompletion s))) rfl rfl rfl
  | stop hi => exact A.queue hi rfl rfl (hsnoc (.completion (stopCompletion s))) rfl rfl rfl
  | ret k hi hk => exact A.ret hi hk
  | thread => exact A.thread _
  | _ => exact A.same rfl rfl rfl rfl

end Awaited

theorem awaited_of_run {s : Core} {acts : List CoreAct} (hr : Lts.run coreStep coreInit acts = some s) : Awaited s :=
  Lts.run_preserves (fun _ _ _ A h => A.step h) Awaited.init hr

/-- With no caller in it and nothing to send, the core has nothing in its work list. -/
theorem Awaited.workList_nil {s : Core} (A : Awaited s) (hcallers : ∀ i, s.callers i = .idle)
    (hdrained : txsOf s.workList = []) : s.workList = [] := by
  have hnone : ∀ k, k ∉ pending s := by
    intro k hk
    obtain ⟨i, hi⟩ := A.waiter k hk
    rw [hcallers i] at hi
    cases hi
  cases hw : s.workList with
  | nil => rfl
  | cons w ws =>
    cases w with
    | tx w =>
      rw [hw] at hdrained
      cases hdrained
    | completion k =>
      refine absurd (List.mem_append_right _ ?_) (hnone k)
      rw [hw]
      exact List.mem_cons_self

end Qm35.Hsspi
