import Qm35.Uci.Buffers

/- `read` on `/dev/uci` (`uci_read` in `qm35-spi.c`) over `uci_layer_read`. The layer
   waits for a packet in blocking mode, then takes the lock and removes the oldest one if
   the caller has room for it. Two things can go wrong. What `copy_to_user` leaves uncopied
   is returned as it is, so a partial fault looks like a short read of a packet that is
   gone. And the wait and the removal are two sections under the lock: in between another
   reader or `clear_rx_list` may empty the list, and the blocking call then fails as only a
   non-blocking one should.

   `takeFirst` is the locked section; the dequeuing step of the buffers' model is the same
   section (`dequeueStep_takeFirst`). -/
namespace Qm35.Uci.Read

open Lts

def eAgain : Int := -11
def eMsgSize : Int := -90
def eRestartSys : Int := -512

/-- A packet of `rx_list` with its bytes. It is a part of a block, so it is shorter than 64 KiB. -/
structure RxPacket where
  data : List UInt8
  fits : data.length < 65536

/-- The locked part of `uci_layer_read`: what it returns and the list after it. -/
def takeFirst {α : Type} (length : α → Nat) (maxSize : Nat) : List α → Except Int α × List α
  | [] => (.error eAgain, [])
  | p :: rest => if maxSize < length p then (.error eMsgSize, p :: rest) else (.ok p, rest)

/-- The length of a packet. -/
def RxPacket.length (p : RxPacket) : Nat := p.data.length

/-- `uci_layer_read`, its wait ended by a signal or not, with the list as the lock finds it. -/
def uciLayerRead (rxList : List RxPacket) (maxSize : Nat) (nonBlocking interrupted : Bool) :
    Except Int RxPacket × List RxPacket :=
  if !nonBlocking && interrupted then (.error eRestartSys, rxList)
  else takeFirst RxPacket.length maxSize rxList

/-- A call of `uci_read`: its result, the bytes that reached the user, and the list after it. -/
structure UciRead where
  ret : Int
  copied : List UInt8
  rxList : List RxPacket

/-- `uci_read`; `copy_to_user` faults after `n` bytes. Both counts of bytes keep their value as
an `int`. -/
def uciRead (rxList : List RxPacket) (len : Nat) (nonBlocking interrupted : Bool) (n : Nat) : UciRead :=
  match uciLayerRead rxList len nonBlocking interrupted with
  | (.error e, rxList) => ⟨e, [], rxList⟩
  | (.ok p, rxList) =>
    let uncopied := p.length - n
    let ret : Int := if uncopied = 0 then p.length else uncopied
    ⟨ret, p.data.take n, rxList⟩

/-- A result that is not an error reports the oldest packet, copied whole and removed; on
`-EMSGSIZE` and `-EAGAIN` nothing is removed. -/
structure WholeRead (rxList : List RxPacket) (r : UciRead) : Prop where
  whole : 0 ≤ r.ret → ∃ p, rxList = p :: r.rxList ∧ r.copied = p.data ∧ r.ret = p.length
  kept : r.ret = eMsgSize ∨ r.ret = eAgain → r.rxList = rxList

/-! One read. -/

section Once
variable {α : Type} {length : α → Nat} {maxSize : Nat} {rxList rxList' : List α} {p : α} {e : Int}

/-- What the locked section can do: nothing there, no room, or the oldest is removed. -/
theorem takeFirst_cases : rxList = [] ∧ takeFirst length maxSize rxList = (.error eAgain, rxList) ∨
    (∃ p rest, rxList = p :: rest ∧ maxSize < length p ∧
      takeFirst length maxSize rxList = (.error eMsgSize, rxList)) ∨
    ∃ p rest, rxList = p :: rest ∧ length p ≤ maxSize ∧ takeFirst length maxSize rxList = (.ok p, rest) := by
  cases rxList with
  | nil => exact .inl ⟨rfl, rfl⟩
  | cons p rest =>
    by_cases hroom : maxSize < length p
    · exact .inr (.inl ⟨p, rest, rfl, hroom, if_pos hroom⟩)
    · exact .inr (.inr ⟨p, rest, rfl, by omega, if_neg hroom⟩)

/-- The buffers' model dequeues with the same section. -/
theorem dequeueStep_takeFirst {s : State} {r : Nat} (h : s.readers r = .idle) :
    dequeueStep s r maxSize = some (match takeFirst UciPacket.length maxSize s.rxList with
      | (.ok p, rest) => { s with rxList := rest, readers := Function.update s.readers r (.dequeued p) }
      | (.error _, _) => s) := by
  simp only [dequeueStep, h]
  rcases @takeFirst_cases UciPacket UciPacket.length maxSize s.rxList with
    ⟨hnil, heq⟩ | ⟨p, rest, hcons, hroom, heq⟩ | ⟨p, rest, hcons, hroom, heq⟩
  · rw [heq, hnil]
  · rw [heq, hcons]
    exact if_pos hroom
  · rw [heq, hcons]
    exact if_neg (by omega)

end Once

section Whole
variable {rxList : List RxPacket} {len n : Nat} {nonBlocking interrupted : Bool} {r : UciRead}

/-- An error that leaves the list alone. -/
theorem WholeRead.error {e : Int} (he : e < 0) : WholeRead rxList ⟨e, [], rxList⟩ :=
  ⟨fun h => absurd h (by simp only; omega), fun _ => rfl⟩

/-- A packet removed: the read reports it whole exactly if all of it was copied. -/
theorem WholeRead.removed_iff (p : RxPacket) (rest : List RxPacket) :
    WholeRead (p :: rest) ⟨if p.length - n = 0 then (p.length : Int) else ((p.length - n : Nat) : Int),
      p.data.take n, rest⟩ ↔ p.length ≤ n := by
  constructor
  · intro h
    have hret : 0 ≤ (if p.length - n = 0 then (p.length : Int) else ((p.length - n : Nat) : Int)) := by
      split <;> omega
    obtain ⟨q, heq, hcopied, -⟩ := h.whole hret
    cases heq
    have hlen : (p.data.take n).length = p.data.length := congrArg List.length hcopied
    rw [List.length_take] at hlen
    unfold RxPacket.length
    omega
  · intro h
    have hzero : p.length - n = 0 := by omega
    rw [if_pos hzero]
    refine ⟨fun _ => ⟨p, rfl, List.take_of_length_le h, rfl⟩, fun herr => ?_⟩
    simp only [eMsgSize, eAgain] at herr
    omega

end Whole

/-- A read from `/dev/uci` reports what was copied exactly if, where the oldest packet fits and
is not left by an interrupted wait, `copy_to_user` copies all of it. -/
theorem uciRead_whole_iff (rxList : List RxPacket) (len : Nat) (nonBlocking interrupted : Bool) (n : Nat) :
    WholeRead rxList (uciRead rxList len nonBlocking interrupted n) ↔
      ∀ p ∈ rxList.head?, p.length ≤ len → (nonBlocking || !interrupted) = true → p.length ≤ n := by
  unfold uciRead uciLayerRead
  by_cases hint : (!nonBlocking && interrupted) = true
  · rw [if_pos hint]
    refine iff_of_true (.error (by decide)) fun p _ _ h => ?_
    cases nonBlocking <;> cases interrupted <;> simp at hint h
  · rw [if_neg hint]
    have hgoes : (nonBlocking || !interrupted) = true := by
      cases nonBlocking <;> cases interrupted <;> simp at hint ⊢
    rcases @takeFirst_cases RxPacket RxPacket.length len rxList with
      ⟨rfl, heq⟩ | ⟨p, rest, rfl, hroom, heq⟩ | ⟨p, rest, rfl, hroom, heq⟩
    · rw [heq]
      exact iff_of_true (.error (by decide)) fun _ h => nomatch h
    · rw [heq]
      refine iff_of_true (.error (by decide)) fun q hq hfits => ?_
      cases hq
      omega
    · rw [heq]
      refine Iff.trans (WholeRead.removed_iff p rest) ?_
      constructor
      · intro h q hq _ _
        cases hq
        exact h
      · exact fun h => h p rfl hroom hgoes

/-- A packet of three bytes of which the user gets one: two is returned, and the packet is gone. -/
theorem not_uciRead_whole : ¬∀ (rxList : List RxPacket) (len : Nat) (nonBlocking interrupted : Bool) (n : Nat),
    WholeRead rxList (uciRead rxList len nonBlocking interrupted n) := by
  intro h
  have hread := h [⟨[1, 2, 3], by decide⟩] 3 true false 1
  obtain ⟨p, heq, hcopied, -⟩ := hread.whole (by decide)
  cases heq
  exact absurd hcopied (by decide)

/-! Any number of reads. -/

/-- Where a call of `uci_layer_read` is: outside, in its wait, or before the lock. -/
inductive CallPc where
  | idle
  | waiting (maxSize : Nat)
  | locking (maxSize : Nat) (nonBlocking : Bool)
deriving DecidableEq

/-- What a call returned. -/
structure Returned where
  nonBlocking : Bool
  result : Except Int RxPacket

/-- `struct uci_layer`, its calls and what they returned. -/
structure Layer where
  rxList : List RxPacket
  calls : Nat → CallPc
  returned : List Returned

/-- `uci_layer_init` -/
def layerInit : Layer := ⟨[], fun _ => .idle, []⟩

inductive LayerAct where
  /-- `uci_layer_read` is called -/
  | call (i maxSize : Nat) (nonBlocking : Bool)
  /-- `uci_layer_has_data_available` is true -/
  | wake (i : Nat)
  /-- the wait ends by a signal -/
  | interrupt (i : Nat)
  /-- the locked part of `uci_layer_read` -/
  | lock (i : Nat)
  /-- one `list_add_tail` of `uci_received` -/
  | received (p : RxPacket)
  /-- `clear_rx_list` -/
  | clear

namespace Layer

def goto (s : Layer) (i : Nat) (pc : CallPc) : Layer := { s with calls := Function.update s.calls i pc }

/-- The call `i` returns. -/
def ret (s : Layer) (i : Nat) (nonBlocking : Bool) (result : Except Int RxPacket) : Layer :=
  { s with calls := Function.update s.calls i .idle, returned := s.returned ++ [⟨nonBlocking, result⟩] }

theorem goto_calls (s : Layer) (i : Nat) (pc : CallPc) : (s.goto i pc).calls = Function.update s.calls i pc := rfl

theorem ret_calls (s : Layer) (i : Nat) (nonBlocking : Bool) (result : Except Int RxPacket) :
    (s.ret i nonBlocking result).calls = Function.update s.calls i .idle := rfl

end Layer

def layerStep (s : Layer) : LayerAct → Option Layer
  | .call i maxSize nonBlocking =>
    if s.calls i = .idle then
      some (s.goto i (if nonBlocking then .locking maxSize true else .waiting maxSize))
    else none
  | .wake i =>
    match s.calls i with
    | .waiting maxSize => if s.rxList.isEmpty then none else some (s.goto i (.locking maxSize false))
    | _ => none
  | .interrupt i =>
    match s.calls i with
    | .waiting _ => some (s.ret i false (.error eRestartSys))
    | _ => none
  | .lock i =>
    match s.calls i with
    | .locking maxSize nonBlocking =>
      let (result, rxList) := takeFirst RxPacket.length maxSize s.rxList
      some ({ s with rxList := rxList }.ret i nonBlocking result)
    | _ => none
  | .received p => some { s with rxList := s.rxList ++ [p] }
  | .clear => some { s with rxList := [] }

/-- What the documentation of `uci_layer_read` allows: `-EAGAIN` in non-blocking mode only. -/
def Expected (r : Returned) : Prop :=
  r.nonBlocking = false →
    (∃ p, r.result = .ok p) ∨ r.result = .error eMsgSize ∨ r.result = .error eRestartSys

def AllExpected (s : Layer) : Prop := ∀ r ∈ s.returned, Expected r

/-- A blocking call that takes the lock finds a packet there. -/
def Stocked (s : Layer) : LayerAct → Prop
  | .lock i => ∀ maxSize, s.calls i = .locking maxSize false → s.rxList ≠ []
  | _ => True

section Steps
variable {s s' : Layer} {a : LayerAct} {i maxSize : Nat} {nonBlocking : Bool} {result : Except Int RxPacket}

theorem AllExpected.ret_iff (h : AllExpected s) :
    AllExpected (s.ret i nonBlocking result) ↔ Expected ⟨nonBlocking, result⟩ := by
  constructor
  · exact fun hall => hall _ (List.mem_append_right _ List.mem_cons_self)
  · intro hnew r hr
    rcases List.mem_append.mp hr with hr | hr
    · exact h r hr
    · rw [List.mem_singleton.mp hr]
      exact hnew

theorem layerStep_lock (h : s.calls i = .locking maxSize nonBlocking) :
    layerStep s (.lock i) =
      some ({ s with rxList := (takeFirst RxPacket.length maxSize s.rxList).2 }.ret i nonBlocking
        (takeFirst RxPacket.length maxSize s.rxList).1) := by
  simp only [layerStep, h]

/-- The locked section of a blocking call returns `-EAGAIN` exactly on an empty list. -/
theorem expected_takeFirst : Expected ⟨false, (takeFirst RxPacket.length maxSize s.rxList).1⟩ ↔
    s.rxList ≠ [] := by
  rcases @takeFirst_cases RxPacket RxPacket.length maxSize s.rxList with
    ⟨hnil, heq⟩ | ⟨p, rest, hcons, -, heq⟩ | ⟨p, rest, hcons, -, heq⟩
  · rw [heq]
    refine iff_of_false (fun h => ?_) (not_not.mpr hnil)
    rcases h rfl with ⟨p, hp⟩ | hp | hp
    · cases hp
    · cases hp
    · cases hp
  · rw [heq, hcons]
    exact iff_of_true (fun _ => .inr (.inl rfl)) (List.cons_ne_nil p rest)
  · rw [heq, hcons]
    exact iff_of_true (fun _ => .inl ⟨p, rfl⟩) (List.cons_ne_nil p rest)

/-- A step keeps the results as documented exactly if it finds the list stocked. -/
theorem stocked_iff (h : AllExpected s) :
    Stocked s a ↔ ∀ s', layerStep s a = some s' → AllExpected s' := by
  cases a with
  | lock i =>
    cases hpc : s.calls i with
    | locking maxSize nonBlocking =>
      -- the list is not part of what is asked of the results
      have hall : (∀ s', layerStep s (.lock i) = some s' → AllExpected s') ↔
          Expected ⟨nonBlocking, (takeFirst RxPacket.length maxSize s.rxList).1⟩ := by
        rw [layerStep_lock hpc]
        simp only [Option.some.injEq, forall_eq']
        exact AllExpected.ret_iff (s := { s with rxList := _ }) h
      rw [hall]
      cases nonBlocking with
      | true => exact iff_of_true (fun m hm => by rw [hpc] at hm; cases hm) (fun hb => nomatch hb)
      | false =>
        rw [expected_takeFirst]
        exact ⟨fun hst => hst maxSize hpc, fun hne _ _ => hne⟩
    | _ =>
      refine iff_of_true (fun m hm => by rw [hpc] at hm; cases hm) fun s' hs' => ?_
      simp only [layerStep, hpc] at hs'
      cases hs'
  | call i maxSize nonBlocking =>
    refine iff_of_true trivial fun s' hs' => ?_
    simp only [layerStep, Option.ite_none_right_eq_some, Option.some.injEq] at hs'
    rw [← hs'.2]
    exact h
  | wake i =>
    refine iff_of_true trivial fun s' hs' => ?_
    simp only [layerStep] at hs'
    split at hs'
    · simp only [Option.ite_none_left_eq_some, Option.some.injEq] at hs'
      rw [← hs'.2]
      exact h
    · cases hs'
  | interrupt i =>
    refine iff_of_true trivial fun s' hs' => ?_
    simp only [layerStep] at hs'
    split at hs'
    · cases hs'
      exact (AllExpected.ret_iff h).mpr fun _ => .inr (.inr rfl)
    · cases hs'
  | received p =>
    refine iff_of_true trivial fun s' hs' => ?_
    cases hs'
    exact h
  | clear =>
    refine iff_of_true trivial fun s' hs' => ?_
    cases hs'
    exact h

end Steps

/-- Over any run of reads, receptions and flushes, every blocking call returns a packet,
`-EMSGSIZE` or the interruption, exactly if each one that takes the lock finds a packet. -/
theorem layerRead_expected_iff (as : List LayerAct) : Meets layerStep Stocked layerInit as ↔
    ∀ bs s, bs <+: as → run layerStep layerInit bs = some s → AllExpected s :=
  meets_iff (fun _ _ h => stocked_iff h) fun _ hr => nomatch hr

/-- Two blocking calls see the one packet; the second to take the lock gets `-EAGAIN`. -/
theorem not_layerRead_expected :
    ¬∀ (as : List LayerAct) (s : Layer), run layerStep layerInit as = some s → AllExpected s := by
  intro h
  let p : RxPacket := ⟨[1, 2, 3], by decide⟩
  let as : List LayerAct := [.received p, .call 0 10 false, .call 1 10 false, .wake 0, .wake 1, .lock 0, .lock 1]
  have hrun : (run layerStep layerInit as).map Layer.returned =
      some [⟨false, .ok p⟩, ⟨false, .error eAgain⟩] := by rfl
  obtain ⟨s, hs, hret⟩ := Option.map_eq_some_iff.mp hrun
  have hlast : (⟨false, .error eAgain⟩ : Returned) ∈ s.returned := by
    rw [hret]
    exact List.mem_cons_of_mem _ List.mem_cons_self
  rcases h as s hs _ hlast rfl with ⟨q, hq⟩ | hq | hq
  · cases hq
  · cases hq
  · cases hq

/-! Readers one at a time. -/

/-- Nobody takes from the list while a blocking call is between its wait and the lock. -/
def Serial (s : Layer) : LayerAct → Prop
  | .lock j => ∀ i maxSize, i ≠ j → s.calls i ≠ .locking maxSize false
  | .clear => ∀ i maxSize, s.calls i ≠ .locking maxSize false
  | _ => True

/-- The list still has what a blocking call waited for. -/
def Held (s : Layer) : Prop := ∀ i maxSize, s.calls i = .locking maxSize false → s.rxList ≠ []

section Serial
variable {s s' : Layer} {a : LayerAct} {i : Nat}

/-- A call that does not come to the lock of a blocking call keeps the list held. -/
theorem Held.update (h : Held s) {pc : CallPc} (hpc : ∀ maxSize, pc = .locking maxSize false → s.rxList ≠ []) :
    Held (s.goto i pc) := by
  intro j maxSize hj
  by_cases hij : j = i
  · rw [hij, Layer.goto_calls, Function.update_self] at hj
    exact hpc maxSize hj
  · rw [Layer.goto_calls, Function.update_of_ne hij] at hj
    exact h j maxSize hj

theorem Held.step (h : Held s) (hser : Serial s a) (hs : layerStep s a = some s') : Held s' := by
  cases a with
  | call i maxSize nonBlocking =>
    simp only [layerStep, Option.ite_none_right_eq_some, Option.some.injEq] at hs
    rw [← hs.2]
    refine h.update fun m hm => ?_
    cases nonBlocking <;> cases hm
  | wake i =>
    simp only [layerStep] at hs
    split at hs
    · simp only [Option.ite_none_left_eq_some, Option.some.injEq] at hs
      rw [← hs.2]
      exact h.update fun _ _ hnil => hs.1 (by rw [hnil]; rfl)
    · cases hs
  | interrupt i =>
    simp only [layerStep] at hs
    split at hs
    · cases hs
      exact h.update fun _ hm => nomatch hm
    · cases hs
  | lock i =>
    simp only [layerStep] at hs
    split at hs
    · cases hs
      -- no other call waits for the lock in blocking mode, and this one has returned
      intro j maxSize hj
      by_cases hij : j = i
      · rw [hij, Layer.ret_calls, Function.update_self] at hj
        cases hj
      · rw [Layer.ret_calls, Function.update_of_ne hij] at hj
        exact absurd hj (hser j maxSize hij)
    · cases hs
  | received p =>
    cases hs
    exact fun _ _ _ => by simp
  | clear =>
    cases hs
    exact fun j maxSize hj => absurd hj (hser j maxSize)

theorem Held.stocked (h : Held s) : Stocked s a := by
  cases a with
  | lock i => exact h i
  | _ => trivial

end Serial

/-- Where readers and flushes do not get between a blocking call's wait and its lock, no blocking
call fails. -/
theorem serial_expected (as : List LayerAct) (s : Layer) (hser : Meets layerStep Serial layerInit as)
    (hrun : run layerStep layerInit as = some s) : AllExpected s := by
  have hboth : Held s ∧ AllExpected s := by
    refine run_invariant (C := Serial) (I := fun s => Held s ∧ AllExpected s) ?_ ?_ hser hrun
    · rintro s a s' ⟨hheld, hall⟩ hc hs
      exact ⟨hheld.step hc hs, (stocked_iff hall).mp hheld.stocked s' hs⟩
    · exact ⟨(fun _ _ h => nomatch h), fun _ hr => nomatch hr⟩
  exact hboth.2

end Qm35.Uci.Read
