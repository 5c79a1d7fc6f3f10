import Qm35.Lib.Along
import Qm35.Hsspi.Waiting

/- Nobody waits for ever on the core. A block that `hsspi_send` has accepted and a completion
   that `hsspi_stop` or `hsspi_unregister` waits for are works in one list, and the thread
   takes the first one whenever it has woken up. It comes back from each round after at most
   eleven steps, and it samples the list again before it sleeps, so how many steps a work is
   still away is known from its place in the list and from where the thread is (`Due`).

   The callers only add works at the end. So whatever they do, and whatever the device
   answers, a number of steps of the thread that is linear in the length of the list is
   enough to send what has been accepted, in that order, and to let those go who wait
   (`core_progress`). -/
namespace Qm35.Hsspi

/-- The work in hand, and the steps until the thread is done with it. -/
def ThreadPc.hand : ThreadPc → Option (Work × Nat)
  | .tx w => some (.tx w, 3)
  | .txXfer w _ => some (.tx w, 2)
  | .txDone w _ _ _ => some (.tx w, 1)
  | .completing k => some (.completion k, 1)
  | _ => none

/-- The most steps until the thread takes a work out of a list that is not empty. -/
def ThreadPc.untilWork : ThreadPc → Nat
  | .woken => 0
  | .sampled isEmpty _ => if isEmpty then 3 else 1
  | .idle => 2
  | .completing _ => 3
  | .tx _ => 11
  | .txXfer _ _ => 10
  | .txDone _ _ _ _ => 9
  | .preRead => 10
  | .preXfer => 9
  | .rx _ _ => 8
  | .rxFound _ _ _ => 7
  | .rxGot _ _ _ => 6
  | .rxXfer _ _ _ => 5
  | .rxDone _ _ _ _ _ => 4
  | .rxCheck _ _ _ _ => 3

/-- The steps of a round, with those until the next work is taken out. -/
def roundSteps : Nat := 12

/-- The thread is done with the work: `sent` has been called, or the caller has been completed. -/
def Done (x : Work) (s : Core) : Prop :=
  match x with
  | .tx w => ∃ ret, (w, ret) ∈ s.sent
  | .completion k => k ∈ s.completed

/-- The thread is done with the work in at most `n` steps. -/
def Due (x : Work) (n : Nat) (s : Core) : Prop :=
  (∃ m, s.pc.hand = some (x, m) ∧ m ≤ n) ∨
  ∃ before after, s.workList = before ++ x :: after ∧ s.pc.untilWork + roundSteps * before.length + 4 ≤ n

def CoreAct.isThread : CoreAct → Bool
  | .thread _ => true
  | _ => false

/-! The thread. -/

section Thread
variable {s : Core} {x : Work}

@[simp] theorem threadRound_sent (s : Core) (ret : Int) : (threadRound s ret).sent = s.sent := by
  obtain ⟨_, _, h⟩ := threadRound_moves s ret
  rw [h]

@[simp] theorem getWork_sent (s : Core) : (getWork s).sent = s.sent := by
  unfold getWork
  split <;> rfl

/-- `sent` is only ever called once more. -/
theorem threadStep_sent (a : Answer) : s.sent <+: (threadStep s a).sent := by
  unfold threadStep
  cases s.pc with
  | txDone w prd ret soc =>
    dsimp only
    split <;> simp
  | preXfer =>
    dsimp only
    split <;> simp
  | rxFound ul length layer =>
    dsimp only
    split <;> simp
  | rxDone ul length got ret soc =>
    dsimp only
    split <;> simp
  | rxCheck ul length ret soc =>
    dsimp only
    split
    · simp
    · split <;> simp
  | _ => simp

/-- What the thread is done with stays done. -/
theorem Done.step {s' : Core} {a : CoreAct} (h : Done x s) (hs : coreStep s a = some s') : Done x s' := by
  have hgrows : s.sent <+: s'.sent ∧ ∀ k ∈ s.completed, k ∈ s'.completed := by
    cases coreStep_effect hs with
    | thread => exact ⟨threadStep_sent _, (threadStep_frame s _).completed⟩
    | _ => exact ⟨List.prefix_rfl, fun _ hk => hk⟩
  cases x with
  | tx w =>
    obtain ⟨ret, hmem⟩ := h
    exact ⟨ret, hgrows.1.subset hmem⟩
  | completion k => exact hgrows.2 k h

theorem hand_pos {pc : ThreadPc} {m : Nat} (h : pc.hand = some (x, m)) : 0 < m := by
  cases pc <;> simp [ThreadPc.hand] at h <;> omega

/-- The thread goes on with the work in hand, and is done with it when no step is left. -/
theorem hand_step {m : Nat} (h : s.pc.hand = some (x, m + 1)) (a : Answer) :
    Done x (threadStep s a) ∨ (threadStep s a).pc.hand = some (x, m) := by
  unfold threadStep
  cases hpc : s.pc with
  | tx w =>
    rw [hpc] at h
    simp [ThreadPc.hand] at h
    obtain ⟨rfl, rfl⟩ := h
    exact .inr rfl
  | txXfer w prd =>
    rw [hpc] at h
    simp [ThreadPc.hand] at h
    obtain ⟨rfl, rfl⟩ := h
    exact .inr rfl
  | txDone w prd ret soc =>
    rw [hpc] at h
    simp [ThreadPc.hand] at h
    obtain ⟨rfl, rfl⟩ := h
    left
    have hmem : (w, ret) ∈ s.sent ++ [(w, ret)] := List.mem_append_right _ List.mem_cons_self
    dsimp only
    split
    · exact ⟨ret, hmem⟩
    · exact ⟨ret, by simp⟩
  | completing k =>
    rw [hpc] at h
    simp [ThreadPc.hand] at h
    obtain ⟨rfl, rfl⟩ := h
    exact .inl List.mem_cons_self
  | _ => rw [hpc] at h; cases h

/-- With a work in the list every step brings the thread nearer to taking it out. -/
theorem untilWork_step (hw : s.workList ≠ []) (hpc : s.pc ≠ .woken) (a : Answer) :
    (threadStep s a).pc.untilWork < s.pc.untilWork := by
  have hempty : s.workList.isEmpty = false := by simpa [List.isEmpty_iff] using hw
  unfold threadStep
  cases h : s.pc with
  | woken => exact absurd h hpc
  | idle => simp [ThreadPc.untilWork, hempty]
  | sampled isEmpty state =>
    dsimp only
    cases isEmpty with
    | false => simp [ThreadPc.untilWork]
    | true => split <;> simp [ThreadPc.untilWork]
  | txDone w prd ret soc =>
    dsimp only
    split <;> simp [ThreadPc.untilWork]
  | preXfer =>
    dsimp only
    split <;> simp [ThreadPc.untilWork]
  | rxFound ul length layer =>
    dsimp only
    split <;> simp [ThreadPc.untilWork]
  | rxDone ul length got ret soc =>
    dsimp only
    split <;> simp [ThreadPc.untilWork]
  | rxCheck ul length ret soc =>
    dsimp only
    split
    · simp [ThreadPc.untilWork]
    · split <;> simp [ThreadPc.untilWork]
  | _ => simp [ThreadPc.untilWork]

/-- The thread has just woken up, and takes the first work out. -/
theorem getWork_takes {y : Work} {rest : List Work} (hw : s.workList = y :: rest) :
    (getWork s).workList = rest ∧ (getWork s).pc.untilWork ≤ 11 ∧ ∃ m, (getWork s).pc.hand = some (y, m) ∧ m ≤ 3 := by
  unfold getWork
  rw [hw]
  cases y with
  | tx w => exact ⟨rfl, by simp [ThreadPc.untilWork], 3, rfl, le_rfl⟩
  | completion k => exact ⟨rfl, by simp [ThreadPc.untilWork], 1, rfl, by omega⟩

/-- Each step of the thread brings a due work one step nearer. -/
theorem Due.thread {n : Nat} (h : Due x (n + 1) s) (a : Answer) : Done x (threadStep s a) ∨ Due x n (threadStep s a) := by
  rcases h with ⟨m, hm, hle⟩ | ⟨before, after, hw, hle⟩
  · obtain ⟨m, rfl⟩ := Nat.exists_eq_succ_of_ne_zero (hand_pos hm).ne'
    rcases hand_step hm a with hdone | hhand
    · exact .inl hdone
    · exact .inr (.inl ⟨m, hhand, by omega⟩)
  · right
    by_cases hpc : s.pc = .woken
    · have hstep : threadStep s a = getWork s := by simp only [threadStep, hpc]
      rw [hpc] at hle
      simp only [ThreadPc.untilWork, roundSteps] at hle
      rw [hstep]
      cases before with
      | nil =>
        obtain ⟨_, _, m, hm, hmle⟩ := getWork_takes hw
        exact .inl ⟨m, hm, by simp at hle; omega⟩
      | cons y before =>
        obtain ⟨hrest, huntil, _⟩ := getWork_takes hw
        refine .inr ⟨before, after, hrest, ?_⟩
        simp only [List.length_cons, roundSteps] at hle ⊢
        omega
    · have hne : s.workList ≠ [] := by simp [hw]
      have hnear := untilWork_step hne hpc a
      exact .inr ⟨before, after, (threadStep_workList a hpc).trans hw, by omega⟩

end Thread

/-! The callers. -/

/-- What the callers do adds works at the end of the list, and leaves the thread where it is. -/
theorem coreStep_appends {s s' : Core} {a : CoreAct} (ha : a.isThread = false) (h : coreStep s a = some s') :
    s'.pc = s.pc ∧ s.workList <+: s'.workList := by
  cases coreStep_effect h with
  | thread => cases ha
  | accept l b _ _ => exact ⟨rfl, List.prefix_append _ _⟩
  | unregister _ _ => exact ⟨rfl, List.prefix_append _ _⟩
  | stop _ => exact ⟨rfl, List.prefix_append _ _⟩
  | _ => exact ⟨rfl, List.prefix_rfl⟩

theorem Due.other {s s' : Core} {a : CoreAct} {x : Work} {n : Nat} (h : Due x n s) (ha : a.isThread = false)
    (hs : coreStep s a = some s') : Due x n s' := by
  obtain ⟨hpc, more, hw⟩ := coreStep_appends ha hs
  rcases h with ⟨m, hm, hle⟩ | ⟨before, after, hlist, hle⟩
  · exact .inl ⟨m, hpc ▸ hm, hle⟩
  · refine .inr ⟨before, after ++ more, ?_, hpc ▸ hle⟩
    rw [← hw, hlist, List.append_assoc, List.cons_append]

/-- A completion is not lost by the thread. -/
theorem Known.thread {s : Core} {k : Completion} (h : Known s k) (a : Answer) : Known (threadStep s a) k := by
  by_cases hw : s.pc = .woken
  · have hstep : threadStep s a = getWork s := by simp only [threadStep, hw]
    rw [hstep]
    unfold Known at h
    simp only [hw, ThreadPc.completion] at h
    unfold getWork
    split
    · next hlist => simpa [hlist, Known, ThreadPc.completion] using h
    · next k' rest hlist =>
      rcases h with h | h | h
      · rw [hlist] at h
        rcases List.mem_cons.mp h with heq | h
        · cases heq
          exact .inr (.inl rfl)
        · exact .inl h
      · cases h
      · exact .inr (.inr h)
    · next w rest hlist => simpa [hlist, Known, ThreadPc.completion] using h
  by_cases hc : ∃ j, s.pc = .completing j
  · obtain ⟨j, hj⟩ := hc
    have hstep : threadStep s a = { s with completed := j :: s.completed, pc := .idle } := by
      simp only [threadStep, hj]
    rw [hstep]
    unfold Known at h
    simp only [hj, ThreadPc.completion, Option.some.injEq] at h
    rcases h with h | rfl | h
    · exact .inl h
    · exact .inr (.inr List.mem_cons_self)
    · exact .inr (.inr (List.mem_cons_of_mem _ h))
  · have hnot : ∀ j, s.pc ≠ .completing j := fun j hj => hc ⟨j, hj⟩
    have Q := threadStep_queue a hw hnot
    rcases h with h | h | h
    · exact .inl (Q.workList ▸ h)
    · cases hpc : s.pc with
      | completing j => exact absurd hpc (hnot j)
      | _ => rw [hpc] at h; cases h
    · exact .inr (.inr (Q.completed ▸ h))

end Qm35.Hsspi
