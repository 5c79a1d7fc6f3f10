import Qm35.Lib.Lts
import Qm35.Rom.Heap
import Qm35.Rom.DbgCert

/- The debugfs files for the ROM (`debug_qmrom.c`): a write to one of them probes the
   device, flashes firmware or a certificate from a file that the user names, or erases
   the certificate. Each write stops HSSPI first and starts it again at the end, whatever
   path it takes between; all that it asks of the ROM comes in between. A write of nothing
   to a file that takes a name may fault, as the name is ended before its first byte.

   Of what a write allocates or is given, the handle and its buffers, the sections of the
   firmware, the `struct firmware` and the contents of the file are released on every path,
   each by the function that it came from, and only once. The copy of the file name
   never is: every write to the two files that take a name leaves it behind, from
   which nothing else is left (`rom_files_accounted`). -/
namespace Qm35.Qmrom

open ByteMem Trace Ledger

/-- `QMROM_RETRIES` of `debug_qmrom.c` -/
def debugQmromRetries : Int := 10

/-- What `kernel_read_file_from_path` comes to: an error, with no memory given, or the bytes read
and the size of the file. -/
inductive FileRead where
  | error
  | read (bytes : Firmware) (fileSize : Nat)

/-- What the kernel answers to a call. -/
structure FileAnswer where
  grant : Bool
  notCopied : Nat
  read : FileRead

/-- A call, with the memory it is about; memory is known by the place of the call in the log. -/
inductive FileEvent where
  /-- `qm35_hsspi_stop` -/
  | hsspiStop
  /-- `qm35_hsspi_start` -/
  | hsspiStart
  /-- a function of libqmrom -/
  | rom
  | kmallocFilename (mem : Option Nat)
  | kmallocFirmware (mem : Option Nat)
  | copyFromUser (notCopied : Nat)
  | readFile (name : List UInt8) (mem : Option Nat)
  | kfree (mem : Nat)
  | vfree (mem : Nat)

/-- The machine of libqmrom, and the calls of the files. -/
structure RomFiles where
  machine : Machine
  answers : Nat → FileAnswer
  calls : List FileEvent

abbrev Files := StateT RomFiles Option

namespace RomFiles

def answer (s : RomFiles) : FileAnswer := s.answers s.calls.length

def call (s : RomFiles) (e : FileEvent) : RomFiles := { s with calls := s.calls ++ [e] }

end RomFiles

/-! The calls. -/

/-- A function of libqmrom. -/
def inRom {α : Type} (x : Rom α) : Files α := fun s =>
  (x s.machine).map fun r => (r.1, { machine := r.2, answers := s.answers, calls := s.calls ++ [.rom] })

def note (e : FileEvent) : Files Unit := fun s => some ((), s.call e)

/-- Memory of a size the user chooses; of no size it is always granted. -/
def kmallocFilename (size : Nat) : Files (Option Nat) := fun s =>
  let mem := if size = 0 ∨ s.answer.grant = true then some s.calls.length else none
  some (mem, s.call (.kmallocFilename mem))

def kmallocFirmware : Files (Option Nat) := fun s =>
  let mem := if s.answer.grant then some s.calls.length else none
  some (mem, s.call (.kmallocFirmware mem))

def copyFromUser : Files Nat := fun s => some (s.answer.notCopied, s.call (.copyFromUser s.answer.notCopied))

/-- `kernel_read_file_from_path`: the memory, the bytes read into it, and the size of the file. -/
def readFile (name : List UInt8) : Files (Option (Nat × Firmware × Nat)) := fun s =>
  match s.answer.read with
  | .error => some (none, s.call (.readFile name none))
  | .read bytes fileSize => some (some (s.calls.length, bytes, fileSize), s.call (.readFile name (some s.calls.length)))

/-- The name in a buffer of which `filename[count - 1] = '\0'` has been stored; there is no such byte where
`count` is 0. -/
def filenameOf (buff : List UInt8) : Option (List UInt8) :=
  if buff = [] then none else some (buff.dropLast.takeWhile (· ≠ 0))

/-! The files. -/

def romTestPrepare : Files Unit := note .hsspiStop

def romTestUnprepare : Files Unit := note .hsspiStart

/-- What a write does between the two; every path of it leads to the second. -/
def romTest (write : Files Int) : Files Int := do
  romTestPrepare
  let count ← write
  romTestUnprepare
  pure count

/-- A `struct firmware` in its memory, with the memory of its contents. -/
structure FileFirmware where
  mem : Nat
  dataMem : Nat
  firmware : Firmware

def file2firmware (filename : List UInt8) : Files (Option FileFirmware) := do
  match ← kmallocFirmware with
  | none => pure none
  | some mem =>
    match ← readFile filename with
    | none => do
      note (.kfree mem)
      pure none
    | some (dataMem, bytes, size) =>
      if bytes.data.length ≠ size then do
        note (.vfree dataMem)
        note (.kfree mem)
        pure none
      else pure (some ⟨mem, dataMem, bytes⟩)

/-- `rom_probe` and `rom_erase_dbg_cert` between `rom_test_prepare` and `rom_test_unprepare`: what is done with a
handle, if there is one. -/
def withHandle (use : Handle → Rom Unit) : Files Unit := do
  match ← inRom (qmromInit debugQmromRetries) with
  | none => pure ()
  | some h => do
    inRom (use h.toHandle)
    inRom (qmromDeinit h)

/-- `rom_flash_dbg_cert` and `rom_flash_fw` once there is memory for the name. They differ in the function that
flashes, and in what they return where the name cannot be copied or the file not be read. -/
def flashNamedFile (flash : Handle → Firmware → Rom Int) (onFault : Nat → Int) (onNoFile : Int) (buff : List UInt8) :
    Files Int := do
  let err ← copyFromUser
  if err ≠ 0 then pure (onFault err)
  else do
    let filename ← ofOption (filenameOf buff)
    match ← file2firmware filename with
    | none => pure onNoFile
    | some f => do
      withHandle fun h => do
        let _ ← flash h f.firmware
        pure ()
      note (.vfree f.dataMem)
      note (.kfree f.mem)
      pure buff.length

def flashFile (flash : Handle → Firmware → Rom Int) (onFault : Nat → Int) (onNoFile : Int) (buff : List UInt8) :
    Files Int := romTest do
  match ← kmallocFilename buff.length with
  | none => pure eNoMem
  | some _ => flashNamedFile flash onFault onNoFile buff

def romProbe (buff : List UInt8) : Files Int := romTest do
  withHandle fun _ => pure ()
  pure buff.length

def romFlashDbgCert (buff : List UInt8) : Files Int := flashFile qmromFlashDbgCert (fun err => err) (-1) buff

def romEraseDbgCert (buff : List UInt8) : Files Int := romTest do
  withHandle fun h => do
    let _ ← qmromEraseDbgCert h
    pure ()
  pure buff.length

def romFlashFw (buff : List UInt8) : Files Int := flashFile qmromFlashFw (fun _ => buff.length) buff.length buff

inductive RomFile where
  | probe
  | flashDbgCert
  | eraseDbgCert
  | flashFw

/-- A write of `buff` to a file. -/
def RomFile.write (buff : List UInt8) : RomFile → Files Int
  | .probe => romProbe buff
  | .flashDbgCert => romFlashDbgCert buff
  | .eraseDbgCert => romEraseDbgCert buff
  | .flashFw => romFlashFw buff

/-- The user writes the name of a file to it. -/
def RomFile.Named : RomFile → Prop
  | .probe => False
  | .flashDbgCert => True
  | .eraseDbgCert => False
  | .flashFw => True

def fileStep (s : RomFiles) (w : RomFile × List UInt8) : Option RomFiles := (w.1.write w.2 s).map Prod.snd

def romFilesInit (hstc sstc : Mem) (dev : Nat → Answer) (answers : Nat → FileAnswer) : RomFiles :=
  ⟨machineInit hstc sstc dev, answers, []⟩

/-! What is held, and what stands between the stop and the start. -/

/-- Memory to be released by `kfree`, or by `vfree`. -/
inductive KernelMem where
  | kmem (i : Nat)
  | vmem (i : Nat)
deriving DecidableEq

def FileEvent.op : FileEvent → Option (Op KernelMem)
  | .kmallocFilename mem => mem.map fun i => .acquire (.kmem i)
  | .kmallocFirmware mem => mem.map fun i => .acquire (.kmem i)
  | .readFile _ mem => mem.map fun i => .acquire (.vmem i)
  | .kfree i => some (.release (.kmem i))
  | .vfree i => some (.release (.vmem i))
  | _ => none

/-- The memory granted for a name. -/
def FileEvent.name : FileEvent → Option KernelMem
  | .kmallocFilename mem => mem.map KernelMem.kmem
  | _ => none

/-- Neither the stop nor the start. -/
def FileEvent.Stopped : FileEvent → Prop
  | .hsspiStop => False
  | .hsspiStart => False
  | _ => True

/-- What stands between the stop and the start of a write: calls with HSSPI stopped, and memory for at most
one name, where the file takes one. -/
structure Between (named : Prop) (mid : List FileEvent) : Prop where
  stopped : ∀ e ∈ mid, e.Stopped
  names : (mid.filterMap FileEvent.name).length ≤ 1
  named : mid.filterMap FileEvent.name ≠ [] → named

/-- The calls of a write. -/
def writeCalls (mid : List FileEvent) : List FileEvent := .hsspiStop :: mid ++ [.hsspiStart]

namespace RomFiles

/-- The memory of the kernel that is held; no value once something is released that is not. -/
def kernelHeld (s : RomFiles) : Option (Multiset KernelMem) := settle 0 (s.calls.filterMap FileEvent.op)

/-- All of it. -/
def acct (s : RomFiles) : Option (Multiset Nat × Multiset KernelMem) := do
  let memory ← s.machine.held
  let kernel ← s.kernelHeld
  pure (memory, kernel)

end RomFiles

/-! What each part does to the account. -/

section Accounts
variable {s s' : RomFiles} {M : Multiset Nat} {K K' : Multiset KernelMem} {mem : Nat}

theorem acct_iff : s.acct = some (M, K) ↔ s.machine.held = some M ∧ s.kernelHeld = some K := by
  simp [RomFiles.acct, Option.bind_eq_some_iff]

theorem kernelHeld_call {calls : List FileEvent} {e : FileEvent} (h : settle 0 (calls.filterMap FileEvent.op) = some K)
    (he : settle K e.op.toList = some K') : settle 0 ((calls ++ [e]).filterMap FileEvent.op) = some K' := by
  have hops : (calls ++ [e]).filterMap FileEvent.op = calls.filterMap FileEvent.op ++ e.op.toList := by
    rw [List.filterMap_append]
    cases ho : e.op <;> simp [ho]
  rw [hops]
  exact settle_after h he

/-- One more call. -/
theorem acct_call {e : FileEvent} (h : s.acct = some (M, K)) (he : settle K e.op.toList = some K') :
    (s.call e).acct = some (M, K') := by
  obtain ⟨hmem, hkernel⟩ := acct_iff.mp h
  exact acct_iff.mpr ⟨hmem, kernelHeld_call hkernel he⟩

theorem inRom_some {α : Type} {x : Rom α} {a : α} (h : inRom x s = some (a, s')) :
    ∃ m', x s.machine = some (a, m') ∧ s' = { machine := m', answers := s.answers, calls := s.calls ++ [.rom] } := by
  obtain ⟨⟨b, m'⟩, hx, heq⟩ := Option.map_eq_some_iff.mp h
  obtain ⟨rfl, rfl⟩ := Prod.mk.inj heq
  exact ⟨m', hx, rfl⟩

theorem turns_inRom {α : Type} {x : Rom α} {B : α → Multiset Nat} (h : Turns Machine.held x M B) :
    Turns RomFiles.acct (inRom x) (M, K) fun a => (B a, K) := by
  intro s a s' hs hx
  obtain ⟨hmem, hkernel⟩ := acct_iff.mp hs
  obtain ⟨m', hrun, rfl⟩ := inRom_some hx
  exact acct_iff.mpr ⟨h s.machine a m' hmem hrun, kernelHeld_call (e := .rom) hkernel rfl⟩

theorem turns_note {e : FileEvent} (he : settle K e.op.toList = some K') :
    Turns RomFiles.acct (note e) (M, K) fun _ => (M, K') := by
  intro s u s' hs hx
  cases hx
  exact acct_call hs he

theorem turns_kfree : Turns RomFiles.acct (note (.kfree mem)) (M, .kmem mem ::ₘ K) fun _ => (M, K) :=
  turns_note (settle_release K (.kmem mem))

theorem turns_vfree : Turns RomFiles.acct (note (.vfree mem)) (M, .vmem mem ::ₘ K) fun _ => (M, K) :=
  turns_note (settle_release K (.vmem mem))

theorem turns_copyFromUser : Turns RomFiles.acct copyFromUser (M, K) fun _ => (M, K) := by
  intro s n s' hs hx
  cases hx
  exact acct_call hs rfl

theorem turns_kmallocFirmware : Turns RomFiles.acct kmallocFirmware (M, K)
    fun p => (M, p.elim K fun i => .kmem i ::ₘ K) := by
  intro s p s' hs hx
  cases hx
  cases hgrant : s.answer.grant
  · simpa [hgrant] using acct_call (e := .kmallocFirmware none) hs rfl
  · simpa [hgrant] using
      acct_call (e := .kmallocFirmware (some s.calls.length)) hs (settle_acquire K (.kmem s.calls.length))

theorem turns_readFile (name : List UInt8) : Turns RomFiles.acct (readFile name) (M, K)
    fun r => (M, r.elim K fun r => .vmem r.1 ::ₘ K) := by
  intro s r s' hs hx
  unfold readFile at hx
  cases hread : s.answer.read with
  | error =>
    rw [hread] at hx
    cases hx
    exact acct_call (e := .readFile name none) hs rfl
  | read bytes fileSize =>
    rw [hread] at hx
    cases hx
    exact acct_call (e := .readFile name (some s.calls.length)) hs (settle_acquire K (.vmem s.calls.length))

/-- `file2firmware` keeps what it returns, and nothing on an error. -/
theorem turns_file2firmware (name : List UInt8) : Turns RomFiles.acct (file2firmware name) (M, K)
    fun f => (M, f.elim K fun f => .vmem f.dataMem ::ₘ .kmem f.mem ::ₘ K) := by
  refine turns_kmallocFirmware.bind fun p => ?_
  cases p with
  | none => exact Turns.pure' rfl
  | some mem =>
    refine (turns_readFile name).bind fun r => ?_
    cases r with
    | none => exact turns_kfree.bind fun _ => Turns.pure' rfl
    -- what is kept is released by the caller; a file that does not fit is released here
    | some r =>
      obtain ⟨dataMem, bytes, size⟩ := r
      exact Turns.ite' (fun _ => turns_vfree.bind fun _ => turns_kfree.bind fun _ => Turns.pure' rfl) fun _ => Turns.pure' rfl

/-- A handle is got and given back. -/
theorem turns_withHandle {use : Handle → Rom Unit} (h : ∀ h A, Turns Machine.held (use h) A fun _ => A) :
    Turns RomFiles.acct (withHandle use) (M, K) fun _ => (M, K) := by
  refine (turns_inRom (turns_init debugQmromRetries)).bind fun handle => ?_
  cases handle with
  | none => exact Turns.pure' (by simp [leftBy])
  | some handle =>
    refine (turns_inRom (h handle.toHandle _)).bind fun _ => ?_
    exact turns_inRom (turns_deinit handle)

theorem turns_flashNamedFile {flash : Handle → Firmware → Rom Int}
    (h : ∀ h fw A, Turns Machine.held (flash h fw) A fun _ => A) (onFault : Nat → Int) (onNoFile : Int)
    (buff : List UInt8) : Turns RomFiles.acct (flashNamedFile flash onFault onNoFile buff) (M, K) fun _ => (M, K) := by
  refine turns_copyFromUser.bind fun err => Turns.ite' (fun _ => Turns.pure' rfl) fun _ => ?_
  refine Turns.bind (Turns.ofOption fun _ _ => rfl) fun filename => ?_
  -- the memory of the name is not in this account: it is held before, and never given back
  refine (turns_file2firmware filename).bind fun f => ?_
  cases f with
  | none => exact Turns.pure' rfl
  | some f =>
    refine (turns_withHandle fun h' A => (h h' f.firmware A).bind fun _ => Turns.pure' rfl).bind fun _ => ?_
    exact turns_vfree.bind fun _ => turns_kfree.bind fun _ => Turns.pure' rfl

end Accounts

/-! What each part does while HSSPI is stopped. -/

/-- A call that may stand between the stop and the start, other than the one for the name. -/
def FileEvent.Inner (e : FileEvent) : Prop := e.Stopped ∧ e.name = none

/-- The program makes only such calls. -/
abbrev Inside {α : Type} (x : Files α) : Prop :=
  Tracks (⟨RomFiles.calls, fun _ => (), fun _ _ => (), FileEvent.Inner⟩ : View RomFiles FileEvent Unit)
    (fun _ => True) (fun _ => True) x

section Inside
variable {α : Type} {x : Files α}

theorem inside_call (h : ∀ s a s', x s = some (a, s') → ∃ e, s'.calls = s.calls ++ [e] ∧ e.Inner) : Inside x := by
  intro s a s' _ hx
  obtain ⟨e, hcalls, he⟩ := h s a s' hx
  exact ⟨[e], hcalls, by simpa using he, rfl, trivial⟩

theorem inside_inRom (x : Rom α) : Inside (inRom x) := by
  apply inside_call
  intro s a s' hx
  obtain ⟨m', -, rfl⟩ := inRom_some hx
  exact ⟨.rom, rfl, trivial, rfl⟩

theorem inside_note {e : FileEvent} (he : e.Inner) : Inside (note e) := by
  apply inside_call
  intro s u s' hx
  cases hx
  exact ⟨e, rfl, he⟩

theorem inside_ofOption (a : Option α) : Inside (ofOption a) := by
  intro s b s' _ hx
  obtain ⟨-, rfl⟩ := ofOption_some.mp hx
  exact ⟨[], (List.append_nil _).symm, by simp, rfl, trivial⟩

theorem inside_copyFromUser : Inside copyFromUser := by
  apply inside_call
  intro s n s' hx
  cases hx
  exact ⟨_, rfl, trivial, rfl⟩

theorem inside_kmallocFirmware : Inside kmallocFirmware := by
  apply inside_call
  intro s p s' hx
  cases hx
  exact ⟨_, rfl, trivial, rfl⟩

theorem inside_readFile (name : List UInt8) : Inside (readFile name) := by
  apply inside_call
  intro s r s' hx
  unfold readFile at hx
  split at hx <;> cases hx <;> exact ⟨_, rfl, trivial, rfl⟩

theorem inside_file2firmware (name : List UInt8) : Inside (file2firmware name) := by
  refine inside_kmallocFirmware.bind fun p => ?_
  cases p with
  | none => exact Tracks.pure' _
  | some mem =>
    have hkfree : Inside (note (.kfree mem)) := inside_note ⟨trivial, rfl⟩
    refine (inside_readFile name).bind fun r => ?_
    cases r with
    | none => exact hkfree.bind fun _ => Tracks.pure' _
    | some r =>
      refine Tracks.ite' ?_ (Tracks.pure' _)
      exact (inside_note (e := .vfree r.1) ⟨trivial, rfl⟩).bind fun _ => hkfree.bind fun _ => Tracks.pure' _

theorem inside_withHandle (use : Handle → Rom Unit) : Inside (withHandle use) := by
  refine (inside_inRom _).bind fun handle => ?_
  cases handle with
  | none => exact Tracks.pure' _
  | some handle => exact (inside_inRom _).bind fun _ => inside_inRom _

theorem inside_flashNamedFile (flash : Handle → Firmware → Rom Int) (onFault : Nat → Int) (onNoFile : Int)
    (buff : List UInt8) : Inside (flashNamedFile flash onFault onNoFile buff) := by
  refine inside_copyFromUser.bind fun err => Tracks.ite' (Tracks.pure' _) ?_
  refine (inside_ofOption _).bind fun filename => (inside_file2firmware filename).bind fun f => ?_
  cases f with
  | none => exact Tracks.pure' _
  | some f =>
    refine (inside_withHandle _).bind fun _ => ?_
    have hvfree : Inside (note (.vfree f.dataMem)) := inside_note ⟨trivial, rfl⟩
    exact hvfree.bind fun _ => (inside_note (e := .kfree f.mem) ⟨trivial, rfl⟩).bind fun _ => Tracks.pure' _

end Inside

/-- Such calls get no memory for a name. -/
theorem inner_names {mid : List FileEvent} (h : ∀ e ∈ mid, e.Inner) : mid.filterMap FileEvent.name = [] :=
  List.filterMap_eq_nil_iff.mpr fun e he => (h e he).2

theorem between_inner {mid : List FileEvent} (h : ∀ e ∈ mid, e.Inner) : Between False mid := by
  refine ⟨fun e he => (h e he).1, ?_, fun hne => absurd (inner_names h) hne⟩
  rw [inner_names h]
  exact Nat.zero_le 1

/-- Where the call for the name comes first. -/
theorem between_named {mem : Option Nat} {mid : List FileEvent} (h : ∀ e ∈ mid, e.Inner) :
    Between True (.kmallocFilename mem :: mid) := by
  refine ⟨List.forall_mem_cons.mpr ⟨trivial, fun e he => (h e he).1⟩, ?_, fun _ => trivial⟩
  rw [List.filterMap_cons, inner_names h]
  cases mem with
  | none => exact Nat.zero_le 1
  | some mem => exact Nat.le_refl 1

/-! A write. -/

/-- What stands between leaves nothing but the memory of a name. -/
def Leaves (named : Prop) (x : Files Int) : Prop := ∀ s rc s' M K, s.acct = some (M, K) → x s = some (rc, s') →
  ∃ mid, s'.calls = s.calls ++ mid ∧ Between named mid ∧
    s'.acct = some (M, (↑(mid.filterMap FileEvent.name) : Multiset KernelMem) + K)

/-- A write that needs no name. -/
theorem leaves_unnamed {use : Handle → Rom Unit} (h : ∀ h A, Turns Machine.held (use h) A fun _ => A) (rc : Int) :
    Leaves False (do withHandle use; pure rc) := by
  intro s rc' s' M K hs hx
  obtain ⟨_, t, hwith, hx⟩ := bind_some.mp hx
  obtain ⟨-, rfl⟩ := pure_some.mp hx
  obtain ⟨mid, hcalls, hinner, -, -⟩ := inside_withHandle use s _ t trivial hwith
  refine ⟨mid, hcalls, between_inner hinner, ?_⟩
  simpa [inner_names hinner] using turns_withHandle h s _ t hs hwith

/-- A write of a name. -/
theorem leaves_named {flash : Handle → Firmware → Rom Int} (h : ∀ h fw A, Turns Machine.held (flash h fw) A fun _ => A)
    (onFault : Nat → Int) (onNoFile : Int) (buff : List UInt8) : Leaves True (do
      match ← kmallocFilename buff.length with
      | none => pure eNoMem
      | some _ => flashNamedFile flash onFault onNoFile buff) := by
  intro s rc s' M K hs hx
  obtain ⟨mem, s1, hname, hx⟩ := bind_some.mp hx
  have hcall : s1 = s.call (.kmallocFilename mem) := by
    cases hname
    rfl
  subst hcall
  cases mem with
  | none =>
    obtain ⟨rfl, rfl⟩ := pure_some.mp hx
    have hnames : [FileEvent.kmallocFilename none].filterMap FileEvent.name = [] := rfl
    refine ⟨[.kmallocFilename none], rfl, between_named fun _ he => absurd he List.not_mem_nil, ?_⟩
    rw [hnames, Multiset.coe_nil, zero_add]
    exact acct_call hs rfl
  | some mem =>
    have h1 := acct_call (e := .kmallocFilename (some mem)) hs (settle_acquire K (.kmem mem))
    obtain ⟨mid, hcalls, hinner, -, -⟩ := inside_flashNamedFile flash onFault onNoFile buff _ rc s' trivial hx
    refine ⟨.kmallocFilename (some mem) :: mid, ?_, between_named hinner, ?_⟩
    · rw [show s'.calls = (s.calls ++ [.kmallocFilename (some mem)]) ++ mid from hcalls, List.append_assoc]
      rfl
    · have hacct := turns_flashNamedFile h onFault onNoFile buff _ rc s' h1 hx
      simpa [FileEvent.name, inner_names hinner] using hacct

/-- A write stops HSSPI first and starts it last. -/
theorem romTest_calls {named : Prop} {x : Files Int} (h : Leaves named x) {s s' : RomFiles} {rc : Int} {M : Multiset Nat}
    {K : Multiset KernelMem} (hs : s.acct = some (M, K)) (hx : romTest x s = some (rc, s')) :
    ∃ mid, s'.calls = s.calls ++ writeCalls mid ∧ Between named mid ∧
      s'.acct = some (M, (↑(mid.filterMap FileEvent.name) : Multiset KernelMem) + K) := by
  obtain ⟨_, s1, hstop, hx⟩ := bind_some.mp hx
  obtain ⟨rc', t, hmid, hx⟩ := bind_some.mp hx
  obtain ⟨_, u, hstart, hx⟩ := bind_some.mp hx
  obtain ⟨rfl, rfl⟩ := pure_some.mp hx
  have h1 : s1.acct = some (M, K) := turns_note (e := .hsspiStop) rfl s _ s1 hs hstop
  obtain ⟨mid, hcalls, hbetween, hacct⟩ := h s1 rc' t M K h1 hmid
  refine ⟨mid, ?_, hbetween, turns_note (e := .hsspiStart) rfl t _ u hacct hstart⟩
  cases hstop
  cases hstart
  show t.calls ++ [.hsspiStart] = s.calls ++ writeCalls mid
  rw [hcalls]
  simp [writeCalls, RomFiles.call]

theorem write_calls (f : RomFile) (buff : List UInt8) {s s' : RomFiles} {rc : Int} {M : Multiset Nat}
    {K : Multiset KernelMem} (hs : s.acct = some (M, K)) (hx : f.write buff s = some (rc, s')) :
    ∃ mid, s'.calls = s.calls ++ writeCalls mid ∧ Between f.Named mid ∧
      s'.acct = some (M, (↑(mid.filterMap FileEvent.name) : Multiset KernelMem) + K) := by
  have hflash : ∀ h fw A, Turns Machine.held (qmromFlashFw h fw) A fun _ => A := fun h fw A => turns_flashFw h fw
  have hcert : ∀ h cert A, Turns Machine.held (qmromFlashDbgCert h cert) A fun _ => A :=
    fun h cert A => turns_heapless (heapless_protocol (acts_flashDbgCert h cert))
  have herase : ∀ h A, Turns Machine.held (do let _ ← qmromEraseDbgCert h; pure ()) A fun _ => A :=
    fun h _ => (turns_heapless (heapless_protocol (acts_eraseDbgCert h))).bind fun _ => Turns.pure' rfl
  cases f with
  | probe => exact romTest_calls (leaves_unnamed (fun _ _ => Turns.pure' rfl) _) hs hx
  | flashDbgCert => exact romTest_calls (leaves_named hcert _ _ _) hs hx
  | eraseDbgCert => exact romTest_calls (leaves_unnamed herase _) hs hx
  | flashFw => exact romTest_calls (leaves_named hflash _ _ _) hs hx

/-! Any number of writes. -/

theorem files_run {writes : List (RomFile × List UInt8)} {s t : RomFiles} {M : Multiset Nat} {K : Multiset KernelMem}
    (hs : s.acct = some (M, K)) (hrun : Lts.run fileStep s writes = some t) :
    ∃ mids : List (List FileEvent), List.Forall₂ (fun w mid => Between w.1.Named mid) writes mids ∧
      t.calls = s.calls ++ mids.flatMap writeCalls ∧
      t.acct = some (M, ↑(mids.flatMap (List.filterMap FileEvent.name)) + K) := by
  induction writes generalizing s K with
  | nil =>
    cases hrun
    exact ⟨[], .nil, (List.append_nil _).symm, by simpa using hs⟩
  | cons w writes ih =>
    obtain ⟨s', hstep, hrest⟩ := Lts.run_cons_some.mp hrun
    obtain ⟨⟨rc, u⟩, hwrite, rfl⟩ := Option.map_eq_some_iff.mp hstep
    obtain ⟨mid, hcalls, hbetween, hacct⟩ := write_calls w.1 w.2 hs hwrite
    obtain ⟨mids, hmids, hend, hheld⟩ := ih hacct hrest
    refine ⟨mid :: mids, .cons hbetween hmids, ?_, ?_⟩
    · rw [hend, hcalls, List.flatMap_cons, List.append_assoc]
    · have hnames : (↑(mids.flatMap (List.filterMap FileEvent.name)) : Multiset KernelMem) +
          (↑(mid.filterMap FileEvent.name) + K) = ↑((mid :: mids).flatMap (List.filterMap FileEvent.name)) + K := by
        rw [List.flatMap_cons, ← Multiset.coe_add, add_left_comm, add_assoc]
      rw [hheld, hnames]

/-- Any writes that return, and whatever the device and the kernel answer: each stops HSSPI first and starts it last,
and calls libqmrom only in between; libqmrom holds nothing in the end, and of the kernel's memory what is held are the
names that were granted memory, one at most for each write of a name. -/
theorem rom_files_accounted {hstc sstc : Mem} {dev : Nat → Answer} {answers : Nat → FileAnswer}
    {writes : List (RomFile × List UInt8)} {s : RomFiles}
    (hrun : Lts.run fileStep (romFilesInit hstc sstc dev answers) writes = some s) :
    ∃ mids : List (List FileEvent), List.Forall₂ (fun w mid => Between w.1.Named mid) writes mids ∧
      s.calls = mids.flatMap writeCalls ∧ s.machine.held = some 0 ∧
      s.kernelHeld = some ↑(mids.flatMap (List.filterMap FileEvent.name)) := by
  obtain ⟨mids, hmids, hcalls, hacct⟩ := files_run (s := romFilesInit hstc sstc dev answers) (M := 0) (K := 0) rfl hrun
  obtain ⟨hmem, hkernel⟩ := acct_iff.mp hacct
  exact ⟨mids, hmids, hcalls, hmem, by simpa using hkernel⟩

/-- Firmware is flashed from a file, and no device is found: the name is left. -/
def oneFile : RomFiles := romFilesInit (fun _ => 0) (fun _ => 0) (fun _ => ⟨0, fun _ => 0, false⟩)
  fun _ => ⟨true, 0, .read ⟨[1, 2], by decide⟩ 2⟩

theorem rom_files_accounted_one : ∃ s, Lts.run fileStep oneFile [(.flashFw, [102, 10]), (.probe, [49])] = some s ∧
    s.kernelHeld = some {.kmem 1} ∧
    ∃ mids : List (List FileEvent),
      List.Forall₂ (fun w mid => Between (RomFile.Named w.1) mid) [(RomFile.flashFw, [102, (10 : UInt8)]), (.probe, [49])]
        mids ∧
      s.calls = mids.flatMap writeCalls ∧ s.machine.held = some 0 ∧
      s.kernelHeld = some ↑(mids.flatMap (List.filterMap FileEvent.name)) := by
  have hsome : (Lts.run fileStep oneFile [(.flashFw, [102, 10]), (.probe, [49])]).isSome = true := by decide +kernel
  obtain ⟨s, hrun⟩ := Option.isSome_iff_exists.mp hsome
  have hheld : (Lts.run fileStep oneFile [(.flashFw, [102, 10]), (.probe, [49])]).map RomFiles.kernelHeld =
      some (some {.kmem 1}) := by decide +kernel
  rw [hrun, Option.map_some, Option.some.injEq] at hheld
  exact ⟨s, hrun, hheld, rom_files_accounted hrun⟩

end Qm35.Qmrom
