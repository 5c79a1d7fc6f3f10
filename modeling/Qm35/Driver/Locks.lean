import Qm35.Lib.OneCpu

/- The spinlocks of the driver on one CPU (`qm35-spi.c`, `qm35.h`, `hsspi.c`,
   `hsspi_coredump.c`). There are two: that of `struct qm35_ctx`, for its state and the
   flag of the regulators, and that of `struct hsspi`, for its state, the layers and the
   list of works. No section is inside another.

   Handlers take both. `qm35_irq_handler` takes that of the context, and `qm35_set_state`
   masks it; `qm35_regulators_set` does not. The timer of the coredump layer sends a
   status, and `hsspi_send` takes that of HSSPI, which no section masks. So a CPU gets
   into deadlock exactly where SS_IRQ arrives in `qm35_regulators_set`, or the timer
   expires in a section of HSSPI (`deadlock_iff`). -/
namespace Qm35.Driver

open Lts OneCpu

inductive Lock where
  /-- `qm35_ctx.lock` -/
  | ctx
  /-- `hsspi.lock` -/
  | hsspi
deriving DecidableEq

/-- `spin_lock` -/
def spinLock (lock : Lock) : Section Lock := ⟨lock, .none⟩

/-- `spin_lock_irqsave` -/
def spinLockIrqsave (lock : Lock) : Section Lock := ⟨lock, .hard⟩

/-- The functions that have a section. What a system call or the thread does is a sequence of them. -/
inductive LockFn where
  | qm35SetState
  | qm35RegulatorsSet
  | getWork
  | isTxrxWaiting
  | hsspiRx
  | hsspiDeinit
  | hsspiRegister
  | hsspiUnregister
  | hsspiSend
  | hsspiStart
  | hsspiStop
deriving DecidableEq

/-- The section of each. -/
def LockFn.section : LockFn → Section Lock
  | .qm35SetState => spinLockIrqsave .ctx
  | .qm35RegulatorsSet => spinLock .ctx
  | .getWork => spinLock .hsspi
  | .isTxrxWaiting => spinLock .hsspi
  | .hsspiRx => spinLock .hsspi
  | .hsspiDeinit => spinLock .hsspi
  | .hsspiRegister => spinLock .hsspi
  | .hsspiUnregister => spinLock .hsspi
  | .hsspiSend => spinLock .hsspi
  | .hsspiStart => spinLock .hsspi
  | .hsspiStop => spinLock .hsspi

/-- `corredump_on_expired_timer`; no packet, no `hsspi_send` -/
def corredumpOnExpiredTimer (alloc : Bool) : Option (Section Lock) := if alloc then some LockFn.hsspiSend.section else none

/-- `qm35_irq_handler` -/
def qm35IrqHandler : Option (Section Lock) := some (spinLock .ctx)

/-- `qm35_ss_rdy_handler` -/
def qm35SsRdyHandler : Option (Section Lock) := none

/-- `qm35_exton_handler` -/
def qm35ExtonHandler : Option (Section Lock) := none

inductive LockAct where
  | call (f : LockFn)
  | switch (i : Nat)
  | timer (alloc : Bool)
  | ssIrq
  | ssReady
  | exton
  | step

def LockAct.act : LockAct → Act Lock
  | .call f => .call f.section
  | .switch i => .switch i
  | .timer alloc => .soft (corredumpOnExpiredTimer alloc)
  | .ssIrq => .hard qm35IrqHandler
  | .ssReady => .hard qm35SsRdyHandler
  | .exton => .hard qm35ExtonHandler
  | .step => .step

def lockStep (s : Cpu Lock) (a : LockAct) : Option (Cpu Lock) := OneCpu.step s a.act

/-- SS_IRQ does not arrive in `qm35_regulators_set`, and the timer does not expire in a section of HSSPI. -/
def Apart (s : Cpu Lock) : LockAct → Prop
  | .ssIrq => s.hard = none → s.process ≠ .holding LockFn.qm35RegulatorsSet.section
  | .timer alloc => alloc = true → s.Undisturbed → ¬s.process.Holds .hsspi
  | _ => True

/-- The sections are those of the functions, and the soft interrupt is the timer. -/
def OfDriver (s : Cpu Lock) : Prop := Uses (∃ f : LockFn, · = f.section) (· = LockFn.hsspiSend.section) s

section Driver
variable {s s' : Cpu Lock} {a : LockAct} {l : Lock}

theorem holds_iff {pc : OneCpu.Pc Lock} : pc.Holds l ↔ ∃ sec, pc = .holding sec ∧ sec.lock = l := by
  cases pc <;> simp [OneCpu.Pc.Holds, OneCpu.Pc.held]

theorem OfDriver.processHolds (h : OfDriver s) (hl : s.process.Holds l) :
    ∃ f : LockFn, s.process = .holding f.section ∧ f.section.lock = l := by
  obtain ⟨sec, hsec, hlock⟩ := holds_iff.mp hl
  obtain ⟨f, rfl⟩ := h.proc s.current sec (by rw [← Cpu.process, hsec]; rfl)
  exact ⟨f, hsec, hlock⟩

theorem OfDriver.softHolds (h : OfDriver s) (hl : s.SoftHolds l) : l = .hsspi := by
  obtain ⟨pc, hpc, hl⟩ := hl
  obtain ⟨sec, rfl, rfl⟩ := holds_iff.mp hl
  rw [h.soft _ sec hpc rfl]
  rfl

theorem OfDriver.softMasking (h : OfDriver s) : s.soft.elim .none OneCpu.Pc.masking ≠ .hard := by
  cases hsoft : s.soft with
  | none => simp
  | some pc =>
    cases pc with
    | holding sec =>
      rw [h.soft _ sec hsoft rfl]
      decide
    | _ => simp [OneCpu.Pc.masking, OneCpu.Pc.held]

/-- The only section on the context that does not mask SS_IRQ. -/
theorem unmasked_ctx {f : LockFn} (hlock : f.section.lock = .ctx) (hmasks : f.section.masks ≠ .hard) :
    f = .qm35RegulatorsSet := by
  cases f with
  | qm35RegulatorsSet => rfl
  | qm35SetState => exact absurd rfl hmasks
  | _ => cases hlock

theorem hsspi_unmasked {f : LockFn} (hlock : f.section.lock = .hsspi) : f.section.masks = .none := by
  cases f with
  | qm35RegulatorsSet => rfl
  | qm35SetState => cases hlock
  | _ => rfl

/-- The condition is that of the sections. -/
theorem OfDriver.apart_iff (h : OfDriver s) : Apart s a ↔ Clear s a.act := by
  cases a with
  | ssIrq =>
    constructor
    · rintro hapart ⟨hhard, hmasks, -⟩ (hproc | hsoft)
      · obtain ⟨f, hf, hlock⟩ := h.processHolds hproc
        rw [hf] at hmasks
        rw [unmasked_ctx hlock hmasks] at hf
        exact hapart hhard hf
      · exact nomatch h.softHolds hsoft
    · intro hclear hhard hproc
      refine hclear ⟨hhard, ?_, h.softMasking⟩ (.inl ?_)
      · rw [hproc]
        decide
      · rw [hproc]
        exact ⟨_, rfl, rfl⟩
  | timer alloc =>
    cases alloc with
    | false => exact iff_of_true (fun h => nomatch h) trivial
    | true =>
      constructor
      · exact fun hapart hen => hapart rfl hen.1
      · intro hclear _ hun hholds
        obtain ⟨f, hf, hlock⟩ := h.processHolds hholds
        refine hclear ⟨hun, ?_⟩ hholds
        rw [hf]
        exact hsspi_unmasked hlock
  | _ => exact iff_of_true trivial trivial

theorem OfDriver.step (h : OfDriver s) (hs : lockStep s a = some s') : OfDriver s' := by
  refine Uses.step h ?_ hs
  cases a with
  | call f => exact ⟨f, rfl⟩
  | timer alloc =>
    cases alloc with
    | false => trivial
    | true => rfl
  | _ => trivial

end Driver

/-- Over any interleaving no handler waits for a lock of what it has preempted exactly where SS_IRQ and the
timer keep out of those sections. -/
theorem deadlock_iff (acts : List LockAct) :
    (∀ done s, done <+: acts → run lockStep (init Lock) done = some s → ¬Deadlocked s) ↔
      Meets lockStep Apart (init Lock) acts := by
  have hinit : OfDriver (init Lock) := ⟨fun i sec h => (nomatch h), fun pc sec h => nomatch h⟩
  have hfree : ¬Deadlocked (init Lock) := not_deadlocked ⟨rfl, rfl⟩
  have hiff := meets_iff_of_preserves (C := Apart) (I := fun s => ¬Deadlocked s) (J := OfDriver)
    (fun _ _ _ h hs => h.step hs) (fun _ _ h hd => h.apart_iff.trans (clear_iff hd)) hinit hfree acts
  exact hiff.symm

/-- SS_IRQ arrives while the regulators are switched. -/
theorem not_deadlock_free : ¬∀ (acts : List LockAct) (s : Cpu Lock),
    run lockStep (init Lock) acts = some s → ¬Deadlocked s := by
  intro h
  exact h [.call .qm35RegulatorsSet, .step, .ssIrq] _ rfl (.inr ⟨_, rfl, .inl ⟨_, rfl, rfl⟩⟩)

/-- The timer expires while the thread looks for work. -/
theorem timer_deadlock : ∃ s, run lockStep (init Lock) [.call .isTxrxWaiting, .step, .timer true] = some s ∧ Deadlocked s :=
  ⟨_, rfl, .inl ⟨_, rfl, _, rfl, rfl⟩⟩

end Qm35.Driver
