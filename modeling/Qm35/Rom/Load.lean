import Qm35.Lib.Lts
import Qm35.Rom.Heap

/- Loading firmware (`qm_firmware_load`), any number of times. A load gets a handle from
   `qmrom_init`, and tries the production image and, if that fails, the other one; each
   attempt requests a firmware object and releases it. The control state, which is put
   back at the end, and what is copied out of the handle for others are left out.

   The objects and the sections are released on every path, and so is the handle where
   it is not probed. What `qm_firmware_load` never calls is `qmrom_deinit`, as every other
   caller of `qmrom_init` does: a handle that it has got is held for ever, with its two
   buffers. So everything is released exactly where no device is probed
   (`released_iff`). Nothing is released twice (`load_held`). -/
namespace Qm35.Qmrom

open ByteMem Trace Ledger

/-- A call of `request_firmware`, and whether it has found the file, or of `release_firmware`, which
does nothing with `NULL`. -/
inductive FwEvent where
  | request (name : String) (found : Bool)
  | release (fw : Option Nat)

/-- The driver while it loads: the machine of libqmrom, and the firmware objects. The files may change
from one request to the next. -/
structure Loader where
  machine : Machine
  files : Nat → String → Option Firmware
  objects : List FwEvent

abbrev Load := StateT Loader Option

/-- The module parameters. -/
structure LoadParams where
  fwname : Option String
  qmromRetries : Int32

/-- A function of libqmrom. -/
def onRom {α : Type} (x : Rom α) : Load α := fun s => (x s.machine).map fun r => (r.1, { s with machine := r.2 })

/-- `request_firmware`: a fresh object and the file, or `NULL`. -/
def requestFirmware (name : String) : Load (Option (Nat × Firmware)) := fun s =>
  let fw := s.files s.objects.length name
  some (fw.map fun fw => (s.objects.length, fw), { s with objects := s.objects ++ [.request name fw.isSome] })

def releaseFirmware (fw : Option Nat) : Load Unit := fun s =>
  some ((), { s with objects := s.objects ++ [.release fw] })

/-- The name of the firmware file. -/
def fwFileName (fwname : Option String) (h : Handle) (useProdFw : Bool) : String :=
  match fwname with
  | some name => name
  | none =>
    if h.chipRev = chipRevisionA0 then "qm35_a0.bin"
    else if h.lcsState = ccBsvSecureLcs then
      if useProdFw then "qm35_b0_oem_prod.bin" else "qm35_b0_oem.bin"
    else "qm35_b0_icv.bin"

def qmromSpiGetFirmware (fwname : Option String) (h : Handle) (useProdFw : Bool) : Load (Option (Nat × Firmware)) := do
  match ← requestFirmware (fwFileName fwname h useProdFw) with
  | none => do
    releaseFirmware none
    pure none
  | some fw => pure (some fw)

def qmromSpiReleaseFirmware (fw : Nat) : Load Unit := releaseFirmware (some fw)

def qmFirmwareFlashing (fwname : Option String) (h : QmromHandle) (useProdFw : Bool) : Load Int := do
  match ← qmromSpiGetFirmware fwname h.toHandle useProdFw with
  | none => pure (-1)
  | some (obj, fw) => do
    let ret ← onRom (qmromFlashFw h.toHandle fw)
    qmromSpiReleaseFirmware obj
    pure ret

def qmFirmwareLoad (p : LoadParams) : Load Int := do
  match ← onRom (qmromInit p.qmromRetries.toInt) with
  | none => pure (-1)
  | some h => do
    let ret ← qmFirmwareFlashing p.fwname h true
    if ret ≠ 0 then do
      let _ ← onRom qmromRebootBootloader
      qmFirmwareFlashing p.fwname h false
    else pure ret

/-- A load, as of an ioctl. -/
def loadStep (p : LoadParams) (s : Loader) (_ : Unit) : Option Loader := (qmFirmwareLoad p s).map (·.2)

def loaderInit (hstc sstc : Mem) (dev : Nat → Answer) (files : Nat → String → Option Firmware) : Loader :=
  ⟨machineInit hstc sstc dev, files, []⟩

/-! What is released. -/

def FwEvent.op (i : Nat) : FwEvent → Option (Op Nat)
  | .request _ true => some (.acquire i)
  | .release (some fw) => some (.release fw)
  | _ => none

/-- The firmware objects requested and not yet released; no value once one is released that is not held. -/
def Loader.firmware (s : Loader) : Option (Multiset Nat) := settle 0 (ofLog FwEvent.op s.objects)

/-- The memory and the firmware objects held. -/
def Loader.held (s : Loader) : Option (Multiset Nat × Multiset Nat) := do
  let memory ← s.machine.held
  let firmware ← s.firmware
  pure (memory, firmware)

/-- All that was acquired has been released, each once. -/
def Released (s : Loader) : Prop := s.held = some (0, 0)

/-- The memory of libqmrom after the allocations of `qmrom_init`. -/
def afterInitAllocs (m : Machine) : Machine := { afterAllocs m 3 with hstc := fun _ => 0, sstc := fun _ => 0 }

/-- The allocations of `qmrom_init` succeed, and a device is probed. -/
def Probed (p : LoadParams) (m : Machine) : Prop :=
  (∀ i < 3, (m.dev (m.log.length + i)).alloc = true) ∧
    ∃ h m', qmromProbeDevice (initHandle p.qmromRetries.toInt) (afterInitAllocs m) = some ((0, h), m')

/-! What a load does to the account. -/

section Accounts
variable {s s' : Loader} {A F : Multiset Nat}

theorem held_iff : s.held = some (A, F) ↔ s.machine.held = some A ∧ s.firmware = some F := by
  simp [Loader.held, Option.bind_eq_some_iff]

theorem onRom_some {α : Type} {x : Rom α} {a : α} :
    onRom x s = some (a, s') ↔ ∃ m', x s.machine = some (a, m') ∧ { s with machine := m' } = s' := by
  unfold onRom
  rw [Option.map_eq_some_iff]
  constructor
  · intro ⟨⟨b, m'⟩, hx, heq⟩
    obtain ⟨rfl, rfl⟩ := Prod.mk.inj heq
    exact ⟨m', hx, rfl⟩
  · intro ⟨m', hx, heq⟩
    exact ⟨(a, m'), hx, by rw [heq]⟩

theorem turns_onRom {α : Type} {x : Rom α} {B : α → Multiset Nat} (h : Turns Machine.held x A B) :
    Turns Loader.held (onRom x) (A, F) fun a => (B a, F) := by
  intro s a s' hs hx
  obtain ⟨hmem, hfw⟩ := held_iff.mp hs
  obtain ⟨m', hrun, rfl⟩ := onRom_some.mp hx
  exact held_iff.mpr ⟨h s.machine a m' hmem hrun, hfw⟩

/-- One more entry about the firmware objects. -/
theorem held_objects {e : FwEvent} {F' : Multiset Nat} (h : s.held = some (A, F))
    (he : settle F (e.op s.objects.length).toList = some F') :
    Loader.held { s with objects := s.objects ++ [e] } = some (A, F') := by
  obtain ⟨hmem, hfw⟩ := held_iff.mp h
  refine held_iff.mpr ⟨hmem, ?_⟩
  show settle 0 (ofLog FwEvent.op (s.objects ++ [e])) = some F'
  rw [ofLog_snoc]
  exact settle_after hfw he

/-- An object that is requested is held where the file is found. -/
def withObject (F : Multiset Nat) (fw : Option (Nat × Firmware)) : Multiset Nat := fw.elim F fun fw => fw.1 ::ₘ F

theorem turns_requestFirmware (name : String) :
    Turns Loader.held (requestFirmware name) (A, F) fun fw => (A, withObject F fw) := by
  intro s fw s' hs hx
  cases hx
  apply held_objects hs
  cases s.files s.objects.length name <;> rfl

theorem turns_getFirmware (fwname : Option String) (h : Handle) (useProdFw : Bool) :
    Turns Loader.held (qmromSpiGetFirmware fwname h useProdFw) (A, F) fun fw => (A, withObject F fw) := by
  refine (turns_requestFirmware _).bind fun fw => ?_
  cases fw with
  | none =>
    have hnull : Turns Loader.held (releaseFirmware none) (A, F) fun _ => (A, F) := by
      intro s u s' hs hx
      cases hx
      exact held_objects hs rfl
    exact hnull.bind fun _ => Turns.pure' rfl
  | some fw => exact Turns.pure' rfl

theorem turns_spiReleaseFirmware (fw : Nat) :
    Turns Loader.held (qmromSpiReleaseFirmware fw) (A, fw ::ₘ F) fun _ => (A, F) := by
  intro s u s' hs hx
  cases hx
  exact held_objects hs (settle_release F fw)

/-- An attempt releases its firmware object and the sections, whatever comes of it. -/
theorem turns_flashing (fwname : Option String) (h : QmromHandle) (useProdFw : Bool) :
    Turns Loader.held (qmFirmwareFlashing fwname h useProdFw) (A, F) fun _ => (A, F) := by
  refine (turns_getFirmware fwname h.toHandle useProdFw).bind fun fw => ?_
  cases fw with
  | none => exact Turns.pure' rfl
  | some fw =>
    refine (turns_onRom (turns_flashFw h.toHandle fw.2)).bind fun ret => ?_
    exact (turns_spiReleaseFirmware fw.1).bind fun _ => Turns.pure' rfl

/-- The two attempts. -/
theorem turns_attempts (p : LoadParams) (h : QmromHandle) : Turns Loader.held (do
      let ret ← qmFirmwareFlashing p.fwname h true
      if ret ≠ 0 then do
        let _ ← onRom qmromRebootBootloader
        qmFirmwareFlashing p.fwname h false
      else pure ret) (A, F) fun _ => (A, F) := by
  refine (turns_flashing p.fwname h true).bind fun ret => Turns.ite' (fun _ => ?_) fun _ => Turns.pure' rfl
  exact (turns_onRom (turns_heapless heapless_reboot)).bind fun _ => turns_flashing p.fwname h false

/-- After a load the memory of the handle is held as well, if `qmrom_init` has returned one. -/
theorem load_held {p : LoadParams} {rc : Int} (hs : s.held = some (A, F)) (hrun : qmFirmwareLoad p s = some (rc, s')) :
    ∃ h m', qmromInit p.qmromRetries.toInt s.machine = some (h, m') ∧ s'.held = some (leftBy h + A, F) := by
  obtain ⟨h, s1, hinit, hrest⟩ := bind_some.mp hrun
  have h1 : s1.held = some (leftBy h + A, F) := turns_onRom (turns_init _) s h s1 hs hinit
  obtain ⟨m', hrom, -⟩ := onRom_some.mp hinit
  refine ⟨h, m', hrom, ?_⟩
  cases h with
  | none =>
    obtain ⟨-, rfl⟩ := pure_some.mp hrest
    exact h1
  | some h => exact turns_attempts p h s1 rc s' h1 hrest

/-- `qmrom_deinit` at the end would have released it. -/
theorem load_deinit {p : LoadParams} {rc : Int} {h : QmromHandle} {m' : Machine} {s'' : Loader} {u : Unit}
    (hs : s.held = some (A, F)) (hrun : qmFirmwareLoad p s = some (rc, s'))
    (hinit : qmromInit p.qmromRetries.toInt s.machine = some (some h, m'))
    (hdeinit : onRom (qmromDeinit h) s' = some (u, s'')) : s''.held = some (A, F) := by
  obtain ⟨h', m1, hinit', hheld⟩ := load_held hs hrun
  obtain ⟨rfl, rfl⟩ := run_unique hinit hinit'
  exact turns_onRom (turns_deinit h) s' u s'' hheld hdeinit

end Accounts

/-! When a handle is got. -/

section Init
variable {p : LoadParams} {m m' : Machine} {h : Option QmromHandle}

/-- The end of `qmrom_init`, from the probe on. -/
def initProbe (commsRetries : Int) (ptr : Nat) (stcs : Stcs) : Rom (Option QmromHandle) := do
  let (rc, h) ← qmromProbeDevice (initHandle commsRetries)
  if rc ≠ 0 then do
    qmromFreeStcs stcs
    qmromFree ptr
    pure none
  else pure (some ⟨h, ptr, stcs⟩)

theorem alloc_ptr (h0 : (m.dev (m.log.length + 0)).alloc = true) :
    qmromAlloc m = some (some (m.log.length + 0), afterAllocs m 1) := by
  have hgrant := alloc_granted 0 h0
  rwa [afterAllocs_zero] at hgrant

theorem init_granted (commsRetries : Int) (ha : ∀ i < 3, (m.dev (m.log.length + i)).alloc = true) :
    qmromInit commsRetries m = initProbe commsRetries (m.log.length + 0)
      ⟨some (m.log.length + 1), some (m.log.length + 2)⟩ (afterInitAllocs m) := by
  have hstcs : qmromAllocateStcs ⟨none, none⟩ (afterAllocs m 1) =
      some ((0, ⟨some (m.log.length + 1), some (m.log.length + 2)⟩), afterInitAllocs m) := by
    refine (bind_run (alloc_granted 1 (ha 1 (by decide)))).trans ?_
    exact (bind_run (alloc_granted 2 (ha 2 (by decide)))).trans rfl
  exact (bind_run (alloc_ptr (ha 0 (by decide)))).trans (bind_run hstcs)

/-- A handle whose buffers are refused is freed. -/
theorem init_noStcs {commsRetries : Int} {m1 : Machine} (h0 : (m.dev (m.log.length + 0)).alloc = true)
    (hstcs : qmromAllocateStcs ⟨none, none⟩ (afterAllocs m 1) = some ((eNoMem, ⟨none, none⟩), m1)) :
    ∃ m', qmromInit commsRetries m = some (none, m') :=
  ⟨_, (bind_run (alloc_ptr h0)).trans ((bind_run hstcs).trans rfl)⟩

theorem init_refused (commsRetries : Int) (ha : ¬∀ i < 3, (m.dev (m.log.length + i)).alloc = true) :
    ∃ m', qmromInit commsRetries m = some (none, m') := by
  have grant : ∀ n, ¬(m.dev (m.log.length + n)).alloc = false → (m.dev (m.log.length + n)).alloc = true :=
    fun n => Bool.eq_true_of_not_eq_false
  by_cases h0 : (m.dev (m.log.length + 0)).alloc = false
  · obtain ⟨m', hm'⟩ := alloc_refused 0 h0
    rw [afterAllocs_zero] at hm'
    exact ⟨m', (bind_run hm').trans rfl⟩
  by_cases h1 : (m.dev (m.log.length + 1)).alloc = false
  · obtain ⟨m1, hm1⟩ := alloc_refused 1 h1
    exact init_noStcs (grant 0 h0) ((bind_run hm1).trans rfl)
  by_cases h2 : (m.dev (m.log.length + 2)).alloc = false
  · obtain ⟨m1, hm1⟩ := alloc_refused 2 h2
    exact init_noStcs (grant 0 h0) ((bind_run (alloc_granted 1 (grant 1 h1))).trans ((bind_run hm1).trans rfl))
  · refine absurd (fun i hi => ?_) ha
    match i, hi with
    | 0, _ => exact grant 0 h0
    | 1, _ => exact grant 1 h1
    | 2, _ => exact grant 2 h2

/-- A handle is got where a device is probed. -/
theorem init_none_iff (hrun : qmromInit p.qmromRetries.toInt m = some (h, m')) : h = none ↔ ¬Probed p m := by
  by_cases ha : ∀ i < 3, (m.dev (m.log.length + i)).alloc = true
  · rw [init_granted _ ha] at hrun
    obtain ⟨⟨rc, ph⟩, m1, hprobe, hrest⟩ := bind_some.mp hrun
    by_cases hrc : rc = 0
    · subst hrc
      obtain ⟨rfl, rfl⟩ := pure_some.mp hrest
      simp only [reduceCtorEq, false_iff, not_not]
      exact ⟨ha, ph, m1, hprobe⟩
    · have hrest := (show ((if rc ≠ 0 then _ else _ : Rom (Option QmromHandle)) m1 = _) from hrest)
      rw [if_pos hrc] at hrest
      obtain ⟨_, m2, -, hrest⟩ := bind_some.mp hrest
      obtain ⟨_, m3, -, hrest⟩ := bind_some.mp hrest
      obtain ⟨rfl, rfl⟩ := pure_some.mp hrest
      refine iff_of_true rfl ?_
      intro ⟨_, h', m4, hprobe'⟩
      exact hrc (congrArg Prod.fst (run_unique hprobe hprobe').1)
  · obtain ⟨m1, hm1⟩ := init_refused p.qmromRetries.toInt ha
    rw [hm1] at hrun
    cases hrun
    exact iff_of_true rfl fun hp => ha hp.1

end Init

/-! Any number of loads. -/

section Loads
variable {p : LoadParams} {dev : Nat → Answer} {files : Nat → String → Option Firmware} {hstc sstc : Mem}

theorem loadStep_some {s s' : Loader} {u : Unit} : loadStep p s u = some s' ↔ ∃ rc, qmFirmwareLoad p s = some (rc, s') := by
  simp [loadStep]

theorem released_init : Released (loaderInit hstc sstc dev files) := rfl

/-- A load that starts with nothing held ends so exactly if no device is probed. -/
theorem released_step {s s' : Loader} {u : Unit} (hs : Released s) (hstep : loadStep p s u = some s') :
    ¬Probed p s.machine ↔ Released s' := by
  obtain ⟨rc, hrun⟩ := loadStep_some.mp hstep
  obtain ⟨h, m', hinit, hheld⟩ := load_held hs hrun
  rw [← init_none_iff hinit]
  unfold Released
  rw [hheld]
  cases h with
  | none => simp [leftBy]
  | some h => simp [leftBy, QmromHandle.memory]

/-- However the loads end, nothing is released twice, and all that stays is the memory of handles. -/
theorem run_held {loads : List Unit} {s : Loader}
    (hrun : Lts.run (loadStep p) (loaderInit hstc sstc dev files) loads = some s) :
    ∃ handles : List QmromHandle, s.held = some (↑(handles.flatMap QmromHandle.memory), 0) := by
  refine Lts.run_preserves (I := fun s => ∃ handles : List QmromHandle,
    s.held = some (↑(handles.flatMap QmromHandle.memory), 0)) ?_ ⟨[], rfl⟩ hrun
  intro s _ s' ⟨handles, hs⟩ hstep
  obtain ⟨rc, hload⟩ := loadStep_some.mp hstep
  obtain ⟨h, m', -, hheld⟩ := load_held hs hload
  cases h with
  | none => exact ⟨handles, by simpa [leftBy] using hheld⟩
  | some h => exact ⟨h :: handles, by simpa [leftBy] using hheld⟩

theorem released_iff {loads : List Unit} {s : Loader}
    (hrun : Lts.run (loadStep p) (loaderInit hstc sstc dev files) loads = some s) :
    (∀ done t, done <+: loads → Lts.run (loadStep p) (loaderInit hstc sstc dev files) done = some t → Released t) ↔
      Lts.Meets (loadStep p) (fun s _ => ¬Probed p s.machine) (loaderInit hstc sstc dev files) loads :=
  (Lts.meets_iff_of_run (fun _ _ _ => released_step) released_init hrun).symm

end Loads

/-- The allocations succeed, and the device is of no known kind. -/
def unknownChip : Loader := loaderInit (fun _ => 0) (fun _ => 0) (fun _ => ⟨0, fun _ => 0x80, true⟩) fun _ _ => none

/-- An allocation that succeeded. -/
def Event.allocated : Event → Bool
  | .alloc ok => ok
  | _ => false

theorem released_unknownChip : ∃ s, Lts.run (loadStep ⟨none, 10⟩) unknownChip [(), ()] = some s ∧ Released s ∧
    s.machine.log.countP Event.allocated = 6 := by
  have heval : (Lts.run (loadStep ⟨none, 10⟩) unknownChip [(), ()]).map
      (fun s => s.machine.log.countP Event.allocated) = some 6 := by decide +kernel
  obtain ⟨s, hs, hallocs⟩ := Option.map_eq_some_iff.mp heval
  -- each load gets its three buffers and finds no device
  have hprobe : Lts.Meets (loadStep ⟨none, 10⟩) (fun s _ =>
      (qmromProbeDevice (initHandle (Int32.toInt 10)) (afterInitAllocs s.machine)).map (·.1.1) ≠ some 0) unknownChip
      [(), ()] := by decide +kernel
  have hmeets := hprobe.mono fun s _ hfails => show ¬Probed ⟨none, 10⟩ s.machine by
    rintro ⟨-, h, m', hrun⟩
    apply hfails
    rw [hrun]
    rfl
  exact ⟨s, hs, (released_iff hs).mpr hmeets [(), ()] s (List.prefix_refl _) hs, hallocs⟩

/-- A B0, which is probed; there is no firmware file for it. -/
def b0Loader : Loader := loaderInit (fun _ => 0) (fun _ => 0) (fun n => {
  rc := 0
  bytes := fun i => if i = 0 then (if n = 6 ∨ n = 11 then 0x20 else 0x80) else if i = 2 then 8 else if i = 5 then 0xB0 else 0
  alloc := true }) fun _ _ => none

theorem b0Loader_probed : Probed ⟨none, 10⟩ b0Loader.machine := by
  refine ⟨fun _ _ => rfl, ?_⟩
  have heval : (qmromProbeDevice (initHandle (Int32.toInt 10)) (afterInitAllocs b0Loader.machine)).map (·.1.1) = some 0 := by
    decide +kernel
  obtain ⟨⟨⟨rc, h⟩, m'⟩, hrun, hrc⟩ := Option.map_eq_some_iff.mp heval
  cases hrc
  exact ⟨h, m', hrun⟩

/-- One load of it holds the handle for ever. -/
theorem not_released : ¬∀ p hstc sstc dev files loads s,
    Lts.run (loadStep p) (loaderInit hstc sstc dev files) loads = some s → Released s := by
  intro hall
  have heval : (loadStep ⟨none, 10⟩ b0Loader ()).isSome = true := by decide +kernel
  obtain ⟨s', hstep⟩ := Option.isSome_iff_exists.mp heval
  have hrun : Lts.run (loadStep ⟨none, 10⟩) b0Loader [()] = some s' := Lts.run_cons_some.mpr ⟨s', hstep, rfl⟩
  exact (released_step released_init hstep).mpr (hall _ _ _ _ _ _ s' hrun) b0Loader_probed

end Qm35.Qmrom
