import Qm35.Lib.Lts

/- Critical sections on one CPU. Processes run in turn, a soft interrupt may preempt them
   and a hard one both; each then runs to its end. A context that has a spinlock keeps
   the CPU from the other processes, and keeps interrupts out as far as its section masks
   them. What a context does outside of its sections, and in them, does not matter here:
   it is before the acquisition of a lock, or has the lock.

   A handler that is about to acquire a lock of a context that it has preempted waits
   forever (`Deadlocked`). It gets there in the step in which it comes in, and in no
   other (`clear_iff`). -/
namespace OneCpu

open Lts

/-- What a section keeps out while it has the lock. -/
inductive Masking where
  | none
  /-- soft interrupts -/
  | soft
  /-- both -/
  | hard
deriving DecidableEq

structure Section (L : Type) where
  lock : L
  masks : Masking
deriving DecidableEq

/-- Where a context is. -/
inductive Pc (L : Type) where
  | idle
  | acquiring (sec : Section L)
  | holding (sec : Section L)
deriving DecidableEq

variable {L : Type}

/-- At the start of a section, or of none. -/
def Pc.start : Option (Section L) → Pc L
  | none => .idle
  | some sec => .acquiring sec

/-- The section it is at. -/
def Pc.sec : Pc L → Option (Section L)
  | .idle => none
  | .acquiring sec => some sec
  | .holding sec => some sec

/-- The section whose lock the context has. -/
def Pc.held : Pc L → Option (Section L)
  | .holding sec => some sec
  | _ => none

/-- The context has the lock. -/
def Pc.Holds (pc : Pc L) (l : L) : Prop := ∃ sec ∈ pc.held, sec.lock = l

def Pc.masking (pc : Pc L) : Masking := pc.held.elim .none Section.masks

/-- The processes, which of them runs, and the handlers that have come in. -/
structure Cpu (L : Type) where
  procs : Nat → Pc L
  current : Nat
  soft : Option (Pc L)
  hard : Option (Pc L)

def init (L : Type) : Cpu L := ⟨fun _ => .idle, 0, none, none⟩

/-- The process that runs. -/
def Cpu.process (s : Cpu L) : Pc L := s.procs s.current

/-- The handler of the soft interrupt has the lock. -/
def Cpu.SoftHolds (s : Cpu L) (l : L) : Prop := ∃ pc ∈ s.soft, pc.Holds l

inductive Act (L : Type) where
  /-- The process begins a section. -/
  | call (sec : Section L)
  /-- Another process runs. -/
  | switch (i : Nat)
  /-- A soft interrupt, whose handler has a section or not. -/
  | soft (sec : Option (Section L))
  /-- A hard one. -/
  | hard (sec : Option (Section L))
  /-- The innermost context acquires its lock, or releases it, or is left. -/
  | step

/-- No handler is running. -/
def Cpu.Undisturbed (s : Cpu L) : Prop := s.soft = none ∧ s.hard = none

/-- A soft interrupt can come in. -/
def Cpu.SoftEnabled (s : Cpu L) : Prop := s.Undisturbed ∧ s.process.masking = .none

/-- A hard one can. -/
def Cpu.HardEnabled (s : Cpu L) : Prop :=
  s.hard = none ∧ s.process.masking ≠ .hard ∧ s.soft.elim .none Pc.masking ≠ .hard

instance (s : Cpu L) : Decidable s.Undisturbed :=
  decidable_of_iff (s.soft.isNone = true ∧ s.hard.isNone = true) (by simp [Cpu.Undisturbed])

instance (s : Cpu L) : Decidable s.SoftEnabled := inferInstanceAs (Decidable (_ ∧ _))

instance (s : Cpu L) : Decidable s.HardEnabled :=
  decidable_of_iff (s.hard.isNone = true ∧ s.process.masking ≠ .hard ∧ s.soft.elim .none Pc.masking ≠ .hard)
    (by simp [Cpu.HardEnabled])

/-- A handler takes its next step; it does not get past a lock that is taken. -/
def handlerStep (taken : L → Bool) : Pc L → Option (Option (Pc L))
  | .acquiring sec => if taken sec.lock then none else some (some (.holding sec))
  | .holding _ => some (some .idle)
  | .idle => some none

/-- A process takes its next step. No other process has a lock while it runs. -/
def processStep : Pc L → Option (Pc L)
  | .acquiring sec => some (.holding sec)
  | .holding _ => some .idle
  | .idle => none

theorem handlerStep_sec {taken : L → Bool} {pc : Pc L} {next : Option (Pc L)} (h : handlerStep taken pc = some next) :
    (∀ sec, next ≠ some (.acquiring sec)) ∧ ∀ pc' sec, next = some pc' → pc'.sec = some sec → pc.sec = some sec := by
  cases pc with
  | idle =>
    cases h
    exact ⟨fun _ => (nofun), fun _ _ h => nomatch h⟩
  | acquiring sec =>
    simp only [handlerStep] at h
    split at h
    · cases h
    · cases h
      refine ⟨fun _ => (nofun), fun pc' sec' h h' => ?_⟩
      cases h
      exact h'
  | holding sec =>
    cases h
    refine ⟨fun _ => (nofun), fun pc' sec' h h' => ?_⟩
    cases h
    cases h'

theorem processStep_sec {pc pc' : Pc L} {sec : Section L} (h : processStep pc = some pc') (hsec : pc'.sec = some sec) :
    pc.sec = some sec := by
  cases pc with
  | idle => cases h
  | acquiring sec' =>
    cases h
    exact hsec
  | holding sec' =>
    cases h
    cases hsec

variable [DecidableEq L]

instance (pc : Pc L) (l : L) : Decidable (pc.Holds l) := inferInstanceAs (Decidable (∃ sec ∈ pc.held, sec.lock = l))

instance (s : Cpu L) (l : L) : Decidable (s.SoftHolds l) := inferInstanceAs (Decidable (∃ pc ∈ s.soft, pc.Holds l))

/-- The innermost context takes its next step. -/
def advance (s : Cpu L) : Option (Cpu L) :=
  match s.hard, s.soft with
  | some pc, _ =>
    (handlerStep (fun l => s.process.Holds l || s.SoftHolds l) pc).map fun hard => { s with hard := hard }
  | none, some pc => (handlerStep (fun l => s.process.Holds l) pc).map fun soft => { s with soft := soft }
  | none, none => (processStep s.process).map fun pc => { s with procs := Function.update s.procs s.current pc }

def step (s : Cpu L) : Act L → Option (Cpu L)
  | .call sec =>
    if s.Undisturbed ∧ s.process = .idle then
      some { s with procs := Function.update s.procs s.current (.acquiring sec) }
    else none
  -- there is no preemption while a spinlock is held
  | .switch i => if s.Undisturbed ∧ s.process.held = none then some { s with current := i } else none
  | .soft sec => if s.SoftEnabled then some { s with soft := some (.start sec) } else none
  | .hard sec => if s.HardEnabled then some { s with hard := some (.start sec) } else none
  | .step => advance s

/-- A handler waits for a lock of a context that it has preempted. -/
def Deadlocked (s : Cpu L) : Prop :=
  (∃ sec, s.soft = some (.acquiring sec) ∧ s.process.Holds sec.lock) ∨
    ∃ sec, s.hard = some (.acquiring sec) ∧ (s.process.Holds sec.lock ∨ s.SoftHolds sec.lock)

/-- An interrupt whose handler has a section comes in only where none of those it preempts has its lock. -/
def Clear (s : Cpu L) : Act L → Prop
  | .soft (some sec) => s.SoftEnabled → ¬s.process.Holds sec.lock
  | .hard (some sec) => s.HardEnabled → ¬(s.process.Holds sec.lock ∨ s.SoftHolds sec.lock)
  | _ => True

section Steps
variable {s s' : Cpu L} {sec : Section L} {i : Nat} {a : Act L}

theorem call_some : step s (.call sec) = some s' ↔
    (s.Undisturbed ∧ s.process = .idle) ∧ s' = { s with procs := Function.update s.procs s.current (.acquiring sec) } := by
  simp [step, eq_comm (a := s')]

theorem switch_some : step s (.switch i) = some s' ↔
    (s.Undisturbed ∧ s.process.held = none) ∧ s' = { s with current := i } := by
  simp [step, eq_comm (a := s')]

theorem soft_some {sec : Option (Section L)} : step s (.soft sec) = some s' ↔
    s.SoftEnabled ∧ s' = { s with soft := some (.start sec) } := by
  simp [step, eq_comm (a := s')]

theorem hard_some {sec : Option (Section L)} : step s (.hard sec) = some s' ↔
    s.HardEnabled ∧ s' = { s with hard := some (.start sec) } := by
  simp [step, eq_comm (a := s')]

/-- What happens to the innermost context: it is not before a lock afterwards, unless it is the process,
and stays at its section or leaves it. -/
inductive Advance (s : Cpu L) : Cpu L → Prop
  | hard (hard : Option (Pc L)) : (∀ sec, hard ≠ some (.acquiring sec)) → Advance s { s with hard := hard }
  | soft (pc : Pc L) (soft : Option (Pc L)) : s.hard = none → s.soft = some pc →
      (∀ sec, soft ≠ some (.acquiring sec)) →
      (∀ pc' sec, soft = some pc' → pc'.sec = some sec → pc.sec = some sec) → Advance s { s with soft := soft }
  | process (pc : Pc L) : s.Undisturbed → (∀ sec, pc.sec = some sec → s.process.sec = some sec) →
      Advance s { s with procs := Function.update s.procs s.current pc }

theorem advance_some (h : advance s = some s') : Advance s s' := by
  unfold advance at h
  split at h
  · obtain ⟨hard, hnext, rfl⟩ := Option.map_eq_some_iff.mp h
    exact .hard hard (handlerStep_sec hnext).1
  · next pc hhard hsoft =>
    obtain ⟨soft, hnext, rfl⟩ := Option.map_eq_some_iff.mp h
    obtain ⟨hnot, hsec⟩ := handlerStep_sec hnext
    exact .soft pc soft hhard hsoft hnot hsec
  · next hhard hsoft =>
    obtain ⟨pc, hnext, rfl⟩ := Option.map_eq_some_iff.mp h
    exact .process pc ⟨hsoft, hhard⟩ fun sec hsec => processStep_sec hnext hsec

omit [DecidableEq L] in
theorem not_deadlocked (h : s.Undisturbed) : ¬Deadlocked s := by
  rintro (⟨sec, hsec, -⟩ | ⟨sec, hsec, -⟩)
  · exact nomatch h.1.symm.trans hsec
  · exact nomatch h.2.symm.trans hsec

/-- What keeps a CPU out of deadlock in one step. -/
theorem clear_iff (h : ¬Deadlocked s) : Clear s a ↔ ∀ s', step s a = some s' → ¬Deadlocked s' := by
  cases a with
  -- only the arrival of an interrupt can deadlock: it spins on a lock of what it interrupted
  | call sec =>
    refine iff_of_true trivial fun s' hs => ?_
    obtain ⟨⟨hun, -⟩, rfl⟩ := call_some.mp hs
    exact not_deadlocked hun
  | switch i =>
    refine iff_of_true trivial fun s' hs => ?_
    obtain ⟨⟨hun, -⟩, rfl⟩ := switch_some.mp hs
    exact not_deadlocked hun
  | soft sec =>
    cases sec with
    | none =>
      refine iff_of_true trivial fun s' hs => ?_
      obtain ⟨⟨⟨-, hhard⟩, -⟩, rfl⟩ := soft_some.mp hs
      rintro (⟨sec, hsec, -⟩ | ⟨sec, hsec, -⟩)
      · cases hsec
      · exact nomatch hhard.symm.trans hsec
    | some sec =>
      have hdead : s.SoftEnabled →
          (Deadlocked { s with soft := some (.start (some sec)) } ↔ s.process.Holds sec.lock) := by
        rintro ⟨⟨-, hhard⟩, -⟩
        constructor
        · rintro (⟨sec', hsec, hholds⟩ | ⟨sec', hsec, -⟩)
          · cases hsec
            exact hholds
          · exact nomatch hhard.symm.trans hsec
        · exact fun hholds => .inl ⟨sec, rfl, hholds⟩
      constructor
      · intro hclear s' hs
        obtain ⟨hen, rfl⟩ := soft_some.mp hs
        exact fun hd => hclear hen ((hdead hen).mp hd)
      · exact fun hall hen hholds => hall _ (soft_some.mpr ⟨hen, rfl⟩) ((hdead hen).mpr hholds)
  | hard sec =>
    cases sec with
    | none =>
      refine iff_of_true trivial fun s' hs => ?_
      obtain ⟨-, rfl⟩ := hard_some.mp hs
      rintro (hsoft | ⟨sec, hsec, -⟩)
      · exact h (.inl hsoft)
      · cases hsec
    | some sec =>
      have hdead : Deadlocked { s with hard := some (.start (some sec)) } ↔
          s.process.Holds sec.lock ∨ s.SoftHolds sec.lock := by
        constructor
        · rintro (hsoft | ⟨sec', hsec, hholds⟩)
          · exact absurd (.inl hsoft) h
          · cases hsec
            exact hholds
        · exact fun hholds => .inr ⟨sec, rfl, hholds⟩
      constructor
      · intro hclear s' hs
        obtain ⟨hen, rfl⟩ := hard_some.mp hs
        exact fun hd => hclear hen (hdead.mp hd)
      · exact fun hall hen hholds => hall _ (hard_some.mpr ⟨hen, rfl⟩) (hdead.mpr hholds)
  -- a step that acquires a lock is one that did not spin
  | step =>
    refine iff_of_true trivial fun s' hs => ?_
    cases advance_some hs with
    | hard hard hnot =>
      rintro (hsoft | ⟨sec, hsec, -⟩)
      · exact h (.inl hsoft)
      · exact hnot sec hsec
    | soft pc soft hhard _ hnot =>
      rintro (⟨sec, hsec, -⟩ | ⟨sec, hsec, -⟩)
      · exact hnot sec hsec
      · exact nomatch hhard.symm.trans hsec
    | process pc hun => exact not_deadlocked hun

end Steps

/-! Which sections there are. -/

/-- The processes are at sections of `P`, and the soft interrupt at one of `Q`. -/
structure Uses (P Q : Section L → Prop) (s : Cpu L) : Prop where
  proc : ∀ i sec, (s.procs i).sec = some sec → P sec
  soft : ∀ pc sec, s.soft = some pc → pc.sec = some sec → Q sec

/-- The action begins no other. -/
def Act.Within (P Q : Section L → Prop) : Act L → Prop
  | .call sec => P sec
  | .soft (some sec) => Q sec
  | _ => True

theorem Uses.step {P Q : Section L → Prop} {s s' : Cpu L} {a : Act L} (h : Uses P Q s) (ha : a.Within P Q)
    (hs : OneCpu.step s a = some s') : Uses P Q s' := by
  have hproc : ∀ pc : Pc L, (∀ sec, pc.sec = some sec → P sec) →
      Uses P Q { s with procs := Function.update s.procs s.current pc } := by
    refine fun pc hpc => ⟨fun i sec hi => ?_, h.soft⟩
    by_cases heq : i = s.current
    · rw [heq] at hi
      exact hpc sec (by simpa using hi)
    · exact h.proc i sec (by simpa [heq] using hi)
  cases a with
  | call sec =>
    obtain ⟨-, rfl⟩ := call_some.mp hs
    refine hproc _ fun sec' hsec => ?_
    cases hsec
    exact ha
  | switch i =>
    obtain ⟨-, rfl⟩ := switch_some.mp hs
    exact ⟨h.proc, h.soft⟩
  | soft sec =>
    obtain ⟨-, rfl⟩ := soft_some.mp hs
    refine ⟨h.proc, fun pc sec' hpc hsec => ?_⟩
    cases hpc
    cases sec with
    | none => cases hsec
    | some sec =>
      cases hsec
      exact ha
  | hard sec =>
    obtain ⟨-, rfl⟩ := hard_some.mp hs
    exact ⟨h.proc, h.soft⟩
  | step =>
    cases advance_some hs with
    | hard hard _ => exact ⟨h.proc, h.soft⟩
    | soft pc soft _ hsoft _ hsec =>
      exact ⟨h.proc, fun pc' sec hpc hs => h.soft pc sec hsoft (hsec pc' sec hpc hs)⟩
    | process pc _ hsec => exact hproc pc fun sec hs => h.proc s.current sec (hsec sec hs)

end OneCpu
