import Qm35.Lib.Ledger
import Qm35.Rom.Probe
import Qm35.Rom.Stitch

/- The memory of libqmrom: the handle, its two buffers and the sections of a firmware.
   Memory is known by the place of its allocation in the log, so that no two allocations
   are mistaken for one another. All of the protocol neither allocates nor frees
   (`Heapless`). What `qmrom_unstitch_fw` allocates it frees itself on an error, and the
   flash functions free it on every path; `qmrom_init` frees what it has where it
   returns no handle, and a handle owns three pieces of memory, which `qmrom_deinit`
   frees. -/
namespace Qm35.Qmrom

open ByteMem Trace Ledger

/-- What the `i`-th entry of the log does to the heap. -/
def Event.heapOp (i : Nat) : Event → Option (Op Nat)
  | .alloc true => some (.acquire i)
  | .free ptr => some (.release ptr)
  | _ => none

def Machine.heap (m : Machine) : List (Op Nat) := ofLog Event.heapOp m.log

/-- The memory allocated and not yet freed; no value once something is freed that is not allocated. -/
def Machine.held (m : Machine) : Option (Multiset Nat) := settle 0 m.heap

/-! The handle and its buffers. -/

/-- `CHIP_REVISION_UNKNOWN` -/
def chipRevisionUnknown : Nat := 0xff

/-- The two buffers, each allocated or `NULL`. -/
structure Stcs where
  hstc : Option Nat
  sstc : Option Nat

def Stcs.memory (s : Stcs) : List Nat := s.hstc.toList ++ s.sstc.toList

/-- `struct qmrom_handle` in its memory. -/
structure QmromHandle extends ProbeHandle where
  ptr : Nat
  stcs : Stcs

def qmromFreeStcs (s : Stcs) : Rom Unit := s.memory.forM qmromFree

/-- The memory for the buffers comes zeroed. -/
def zeroStcs : Rom Unit := fun m => some ((), { m with hstc := fun _ => 0, sstc := fun _ => 0 })

/-- `qmrom_allocate_stcs` on a handle with these buffers: its result, and the buffers then. -/
def qmromAllocateStcs (s : Stcs) : Rom (Int × Stcs) := do
  match ← qmromAlloc with
  | none => do
    qmromFreeStcs s
    pure (eNoMem, s)
  | some txBuf =>
    match ← qmromAlloc with
    | none => do
      qmromFree txBuf
      qmromFreeStcs s
      pure (eNoMem, s)
    | some rxBuf => do
      zeroStcs
      pure (0, ⟨some txBuf, some rxBuf⟩)

/-- What `qmrom_init` puts into a handle. -/
def initHandle (commsRetries : Int) : ProbeHandle where
  commsRetries := commsRetries
  chipRev := chipRevisionUnknown
  deviceVersion := 0xffff
  lcsState := 0xffffffff
  flashFw := none
  socId := List.replicate romSocIdLen 0
  uuid := List.replicate romUuidLen 0

/-- `qmrom_init`: the handle, or `NULL`. -/
def qmromInit (commsRetries : Int) : Rom (Option QmromHandle) := do
  match ← qmromAlloc with
  | none => pure none
  | some ptr => do
    let (rc, stcs) ← qmromAllocateStcs ⟨none, none⟩
    if rc ≠ 0 then do
      qmromFree ptr
      pure none
    else do
      let (rc, h) ← qmromProbeDevice (initHandle commsRetries)
      if rc ≠ 0 then do
        qmromFreeStcs stcs
        qmromFree ptr
        pure none
      else pure (some ⟨h, ptr, stcs⟩)

def qmromDeinit (h : QmromHandle) : Rom Unit := do
  qmromFreeStcs h.stcs
  qmromFree h.ptr

/-- The memory of a handle. -/
def QmromHandle.memory (h : QmromHandle) : List Nat := h.ptr :: h.stcs.memory

/-- The memory of the sections. -/
def UnstitchedFirmware.memory (fws : UnstitchedFirmware) : List Nat :=
  [fws.fwImg.ptr, fws.fwCrt.ptr, fws.key1Crt.ptr, fws.key2Crt.ptr]

/-! What neither allocates nor frees. -/

/-- The program does nothing to the heap. -/
abbrev Heapless {α : Type} (x : Rom α) : Prop := Silent Machine.heap x

theorem Event.Outside.heapOp {e : Event} (h : e.Outside) (i : Nat) : e.heapOp i = none := by
  cases e with
  | alloc ok => exact h.elim
  | free ptr => exact h.elim
  | _ => rfl

theorem ofLog_outside {log es : List Event} (h : ∀ e ∈ es, e.Outside) :
    ofLog Event.heapOp (log ++ es) = ofLog Event.heapOp log := by
  induction es using List.reverseRecOn with
  | nil => rw [List.append_nil]
  | append_singleton es e ih =>
    have he : e.heapOp (log ++ es).length = none := (h e (by simp)).heapOp _
    rw [← List.append_assoc, ofLog_snoc, he, Option.toList_none, List.append_nil]
    exact ih fun e he => h e (List.mem_append_left _ he)

/-- Programs that ask for anything but memory. -/
theorem heapless_acts {α : Type} {x : Rom α} {Q : Event → Prop} {fault : Prop} (h : Acts Q fault x)
    (hQ : ∀ e, Q e → e.Outside) : Heapless x := by
  intro m a m' _ hx
  obtain ⟨es, hlog, hes, -, -⟩ := h.tracks m a m' trivial hx
  refine ⟨[], ?_, rfl⟩
  rw [Machine.heap, show m'.log = m.log ++ es from hlog, ofLog_outside fun e he => hQ e (hes e he), List.append_nil]
  rfl

/-- The protocol is in this. -/
theorem heapless_protocol {α : Type} {x : Rom α} {fault : Prop} (h : Acts Event.Protocol fault x) : Heapless x :=
  heapless_acts h fun _ => Event.Protocol.outside

theorem heapless_reboot : Heapless qmromRebootBootloader := heapless_acts probes_reboot fun _ => id

theorem heapless_a0FlashFw (h : Handle) (fw : Firmware) : Heapless (qmromA0FlashFw h fw) := by
  obtain ⟨y, heq, hy⟩ := acts_a0FlashFw h fw
  rw [heq]
  exact heapless_reboot.bind fun _ => .ite' (.pure' _) (heapless_protocol hy)

/-- The memory for the buffers is cleared, and no one is asked. -/
theorem heapless_zeroStcs : Heapless zeroStcs := by
  intro m a m' _ hx
  cases hx
  exact ⟨[], (List.append_nil _).symm, rfl⟩

/-! What is held. -/

section Accounts
variable {α : Type} {x : Rom α} {m m' : Machine} {ptr : Nat} {ptrs : List Nat} {A : Multiset Nat}

theorem held_log {e : Event} (h : m'.log = m.log ++ [e]) (hm : m.held = some A) :
    m'.held = settle A (e.heapOp m.log.length).toList := by
  rw [Machine.held, Machine.heap] at hm ⊢
  rw [h, ofLog_snoc, settle_append, hm]
  rfl

theorem turns_heapless (h : Heapless x) : Turns Machine.held x A fun _ => A := by
  apply Turns.unchanged
  · intro m a m' hx
    obtain ⟨os, hos, rfl⟩ := h m a m' trivial hx
    rw [Machine.held, hos, List.append_nil]
    rfl
  · exact fun _ => rfl

/-- One more pointer behind those. -/
theorem snoc_add : (↑(ptrs ++ [ptr]) : Multiset Nat) + A = ptr ::ₘ (↑ptrs + A) := by
  rw [← Multiset.cons_add, Multiset.cons_coe, Multiset.coe_eq_coe.mpr (List.perm_append_singleton ptr ptrs)]

/-- What is allocated is held too. -/
theorem turns_alloc : Turns Machine.held qmromAlloc (↑ptrs + A) fun p => ↑(ptrs ++ p.toList) + A := by
  intro m p m' hm hx
  cases hx
  rw [held_log rfl hm]
  cases (m.dev m.log.length).alloc with
  | false => simp [Event.heapOp]
  | true => simp only [Event.heapOp, if_true, Option.toList_some, settle_acquire, snoc_add]

theorem turns_alloc_first : Turns Machine.held qmromAlloc A fun p => ↑p.toList + A := by
  have h : Turns Machine.held qmromAlloc (↑([] : List Nat) + A) fun p => ↑([] ++ p.toList : List Nat) + A := turns_alloc
  simpa using h

theorem turns_free : Turns Machine.held (qmromFree ptr) (ptr ::ₘ A) fun _ => A := by
  intro m a m' hm hx
  cases hx
  rw [held_log rfl hm]
  exact settle_release A ptr

theorem turns_frees : Turns Machine.held (ptrs.forM qmromFree) (↑ptrs + A) fun _ => A := by
  induction ptrs with
  | nil => exact Turns.pure' (by simp)
  | cons ptr ptrs ih =>
    rw [← Multiset.cons_coe, Multiset.cons_add]
    exact turns_free.bind fun _ => ih

theorem unstitchCopy_memory {data : List UInt8} {l : Layout} {fwImg fwCrt key1Crt key2Crt : Nat}
    {fws : UnstitchedFirmware} (h : unstitchCopy data l fwImg fwCrt key1Crt key2Crt = some fws) :
    fws.memory = [fwImg, fwCrt, key1Crt, key2Crt] := by
  obtain ⟨key1, -, h⟩ := Option.bind_eq_some_iff.mp h
  obtain ⟨key2, -, h⟩ := Option.bind_eq_some_iff.mp h
  obtain ⟨crt, -, h⟩ := Option.bind_eq_some_iff.mp h
  obtain ⟨img, -, h⟩ := Option.bind_eq_some_iff.mp h
  cases h
  rfl

/-- `qmrom_unstitch_fw` keeps the sections it returns, and nothing on an error. -/
theorem turns_unstitchFw (data : List UInt8) (revision : Nat) :
    Turns Machine.held (qmromUnstitchFw data revision) A
      fun | .error _ => A
          | .ok fws => ↑fws.memory + A := by
  have herr : ∀ ptrs : List Nat, Turns Machine.held (unstitchErr ptrs) (↑ptrs + A)
      fun | .error _ => A
          | .ok fws => ↑fws.memory + A :=
    fun ptrs => turns_frees.bind fun _ => Turns.pure' rfl
  refine Turns.bind (B := fun _ => A) (Turns.ofOption fun _ _ => rfl) fun layout => ?_
  cases layout with
  | error rc => exact Turns.pure' rfl
  | ok l =>
    refine turns_alloc_first.bind fun fwImg => ?_
    cases fwImg with
    | none => exact Turns.pure' (by simp)
    | some fwImg =>
      refine turns_alloc.bind fun fwCrt => ?_
      cases fwCrt with
      | none => exact herr [fwImg]
      | some fwCrt =>
        refine turns_alloc.bind fun key1Crt => ?_
        cases key1Crt with
        | none => exact herr [fwImg, fwCrt]
        | some key1Crt =>
          refine turns_alloc.bind fun key2Crt => ?_
          cases key2Crt with
          | none => exact herr [fwImg, fwCrt, key1Crt]
          | some key2Crt =>
            refine Turns.bind (B := fun fws => ↑fws.memory + A) (Turns.ofOption fun fws hfws => ?_) fun fws => Turns.pure' rfl
            rw [unstitchCopy_memory hfws]
            rfl

theorem turns_flashFw (h : Handle) (fw : Firmware) : Turns Machine.held (qmromFlashFw h fw) A fun _ => A := by
  unfold qmromFlashFw
  split
  · exact turns_heapless (heapless_a0FlashFw h fw)
  · refine (turns_unstitchFw fw.data h.chipRev).bind fun r => ?_
    cases r with
    | error rc => exact Turns.pure' rfl
    | ok fws =>
      refine (turns_heapless (heapless_protocol (acts_b0FlashSections h))).bind fun rc => ?_
      exact turns_frees.bind fun _ => Turns.pure' rfl
  · refine (turns_unstitchFw fw.data h.chipRev).bind fun r => ?_
    cases r with
    | error rc => exact Turns.pure' rfl
    | ok fws =>
      refine (turns_heapless (heapless_protocol (acts_c0LoadResponse h))).bind fun r => ?_
      have hend : ∀ rc : Int, Turns Machine.held (do freeSections fws; pure rc) (↑fws.memory + A) fun _ => A :=
        fun rc => turns_frees.bind fun _ => Turns.pure' rfl
      cases r with
      | error rc => exact hend rc
      | ok resp => exact (turns_heapless (heapless_protocol (acts_c0FlashSections h resp))).bind hend
  · exact Turns.ofOption fun _ h => nomatch h

/-- The memory of the handle that `qmrom_init` returns, if any. -/
def leftBy (h : Option QmromHandle) : Multiset Nat := h.elim 0 fun h => ↑h.memory

theorem turns_freeStcs (s : Stcs) : Turns Machine.held (qmromFreeStcs s) (↑(ptr :: s.memory) + A) fun _ => ptr ::ₘ A := by
  have hptr : (↑(ptr :: s.memory) : Multiset Nat) + A = ↑s.memory + ptr ::ₘ A := by
    rw [← Multiset.cons_coe, Multiset.cons_add, Multiset.add_cons]
  rw [hptr]
  exact turns_frees

/-- `qmrom_allocate_stcs` on a fresh handle keeps both buffers or none. -/
theorem turns_allocateStcs : Turns Machine.held (qmromAllocateStcs ⟨none, none⟩) (↑[ptr] + A)
    fun r => if r.1 = 0 then ↑(ptr :: r.2.memory) + A else ptr ::ₘ A := by
  have hnone : ∀ B, Turns Machine.held (qmromFreeStcs ⟨none, none⟩) B fun _ => B := fun B => Turns.pure' rfl
  refine turns_alloc.bind fun txBuf => ?_
  cases txBuf with
  | none => exact (hnone _).bind fun _ => Turns.pure' rfl
  | some txBuf =>
    refine turns_alloc.bind fun rxBuf => ?_
    cases rxBuf with
    | none =>
      have htx : (↑([ptr] ++ [txBuf]) : Multiset Nat) + A = txBuf ::ₘ ptr ::ₘ A := snoc_add
      show Turns Machine.held _ (↑([ptr] ++ [txBuf]) + A) _
      rw [htx]
      exact turns_free.bind fun _ => (hnone _).bind fun _ => Turns.pure' rfl
    | some rxBuf =>
      exact Turns.bind (turns_heapless heapless_zeroStcs) fun _ => Turns.pure' rfl

/-- `qmrom_init` keeps the memory of the handle it returns, and nothing on an error. -/
theorem turns_init (commsRetries : Int) : Turns Machine.held (qmromInit commsRetries) A fun r => leftBy r + A := by
  refine turns_alloc_first.bind fun ptr => ?_
  cases ptr with
  | none => exact Turns.pure' (by simp [leftBy])
  | some ptr =>
    refine turns_allocateStcs.bind fun ⟨rc, stcs⟩ => Turns.ite' (fun hrc => ?_) fun hrc => ?_
    · rw [if_neg hrc]
      exact turns_free.bind fun _ => Turns.pure' (by simp [leftBy])
    · rw [if_pos (not_not.mp hrc)]
      refine (turns_heapless (heapless_acts (probes_probeDevice _) fun _ => id)).bind fun ⟨rc, h⟩ => ?_
      refine Turns.ite' (fun _ => ?_) fun _ => Turns.pure' rfl
      exact (turns_freeStcs stcs).bind fun _ => turns_free.bind fun _ => Turns.pure' (by simp [leftBy])

/-- `qmrom_deinit` frees all of it. -/
theorem turns_deinit (h : QmromHandle) : Turns Machine.held (qmromDeinit h) (↑h.memory + A) fun _ => A :=
  (turns_freeStcs h.stcs).bind fun _ => turns_free

end Accounts

end Qm35.Qmrom
