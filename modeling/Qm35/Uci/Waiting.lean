import Qm35.Lib.WaitQueue
import Qm35.Uci.Buffers

/- Waiting for packets on `/dev/uci` (`uci_layer_read` in `hsspi_uci.c`, `uci_poll` in
   `qm35-spi.c`). Any number of reads and polls wait on `uci->wq` for `rx_list` not to be
   empty. `uci_received` queues the packets of a block one by one and calls
   `wake_up_interruptible` once, after the last, so a waiter that goes to sleep meanwhile
   is woken although the list was not empty. The packets are those of `Uci.Buffers`.

   Nobody sleeps while there is something to read and no `uci_received` is under way
   (`uci_awaited`). Packets may be gone when the reader comes to take one: that is for
   `uci_layer_read` to find out, which does not wait again. -/
namespace Qm35.Uci

open Lts WaitQueue

/-- Who waits on `uci->wq`. -/
inductive Waiter where
  | read (r : Nat)
  | poll (i : Nat)
deriving DecidableEq

/-- `reading`: the `max_size` of a reader in `uci_layer_read`. `waking`: `uci_received` has queued the last packet
and not called `wake_up_interruptible` yet. -/
structure Device where
  buf : State
  reading : Nat → Option Nat
  queue : Waiter → Option Place
  waking : Bool

def deviceInit : Device := ⟨init, fun _ => none, fun _ => none, false⟩

inductive DeviceAct where
  | receive (data : List UInt8) (status : Int)
  | split (alloc : Bool)
  /-- the `wake_up_interruptible` of `uci_received` -/
  | wakeUp
  | read (r maxSize : Nat) (nonBlocking : Bool)
  /-- the locked part of `uci_layer_read` -/
  | dequeue (r : Nat)
  | copy (r : Nat)
  | free (r : Nat)
  | clear
  | poll (i : Nat)
  /-- the next step of a waiter; `signal`: one is pending -/
  | next (w : Waiter) (signal : Bool)
  /-- a sleeper wakes up without a `wake_up` -/
  | rouse (w : Waiter)

/-- `uci_layer_has_data_available` -/
def uciLayerHasDataAvailable (s : State) : Bool := !s.rxList.isEmpty

/-- A step of the buffers. -/
def bufferStep (s : Device) (a : Act) : Option Device := (bufStep s.buf a).map fun buf => { s with buf := buf }

/-- A read that is interrupted returns. -/
def interrupt (s : Device) : Waiter → After → Nat → Option Nat
  | .read r, .interrupted => Function.update s.reading r none
  | _, _ => s.reading

def deviceStep (s : Device) : DeviceAct → Option Device
  | .receive data status => if s.waking then none else bufferStep s (.receive data status)
  | .split alloc => (bufStep s.buf (.split alloc)).map fun buf =>
      { s with buf := buf, waking := s.waking || buf.rx.isNone }
  | .wakeUp => if s.waking then some { s with queue := WaitQueue.wakeUp s.queue, waking := false } else none
  | .read r maxSize nonBlocking =>
    match s.buf.readers r, s.reading r with
    | .idle, none => some { s with
        reading := Function.update s.reading r (some maxSize)
        queue := if nonBlocking then s.queue else Function.update s.queue (.read r) (some .first) }
    | _, _ => none
  | .dequeue r =>
    match s.reading r, s.queue (.read r) with
    | some maxSize, none => (bufStep s.buf (.dequeue r maxSize)).map fun buf =>
        { s with buf := buf, reading := Function.update s.reading r none }
    | _, _ => none
  | .copy r => bufferStep s (.copy r)
  | .free r => bufferStep s (.free r)
  | .clear => bufferStep s .clear
  | .poll i =>
    match s.queue (.poll i) with
    | none => some { s with queue := Function.update s.queue (.poll i) (some .enqueue) }
    | some _ => none
  | .next w signal =>
    match s.queue w with
    | none => none
    | some p => (p.go (uciLayerHasDataAvailable s.buf) signal).map fun a =>
        { s with reading := interrupt s w a, queue := move s.queue w a }
  | .rouse w =>
    match s.queue w with
    | some .asleep => some { s with queue := Function.update s.queue w (some .enqueue) }
    | _ => none

/-! What the buffers do to the list. -/

section Buffers
variable {s s' : State} {a : Act}

/-- Only splitting a block adds to the list, and only splitting ends it. -/
theorem quiet_step (ha : ∀ alloc, a ≠ .split alloc) (h : bufStep s a = some s') :
    (s.rxList = [] → s'.rxList = []) ∧ (s.rx.isSome = true → s'.rx.isSome = true) := by
  have hsame : ∀ t : State, t.rxList = s.rxList → t.rx = s.rx →
      (s.rxList = [] → t.rxList = []) ∧ (s.rx.isSome = true → t.rx.isSome = true) := by
    intro t hlist hrx
    rw [hlist, hrx]
    exact ⟨id, id⟩
  cases a with
  | split alloc => exact absurd rfl (ha alloc)
  | receive data status =>
    simp only [bufStep, receiveStep] at h
    split at h
    · next hidle =>
      have hnone : s.rx = none := by simpa using hidle.1
      split at h
      · exact hsame _ (by simp [← Option.some.inj h]) (by simp [← Option.some.inj h])
      · simp [← Option.some.inj h, hnone]
    · cases h
  | dequeue r maxSize =>
    simp only [bufStep, dequeueStep] at h
    split at h
    · split at h
      · exact hsame _ (by simp [← Option.some.inj h]) (by simp [← Option.some.inj h])
      · next p rest hlist =>
        split at h
        · exact hsame _ (by simp [← Option.some.inj h]) (by simp [← Option.some.inj h])
        · simp [← Option.some.inj h, hlist]
    · cases h
  | copy r =>
    simp only [bufStep, copyStep] at h
    split at h
    · exact hsame _ (by simp [← Option.some.inj h]) (by simp [← Option.some.inj h])
    · cases h
  | free r =>
    simp only [bufStep, freeStep] at h
    split at h
    · exact hsame _ (by simp [← Option.some.inj h]) (by simp [← Option.some.inj h])
    · cases h
  | clear =>
    obtain rfl := Option.some.inj h
    exact ⟨fun _ => rfl, id⟩

end Buffers

/-! Sleepers. -/

/-- `uci_received` is under way. -/
def UnderWay (s : Device) : Prop := s.buf.rx.isSome = true ∨ s.waking = true

/-- A reader on the queue is in `uci_layer_read`, and nobody sleeps through a packet. -/
structure Watched (s : Device) : Prop where
  reading : ∀ r p, s.queue (.read r) = some p → (s.reading r).isSome = true
  attended : Attended s.queue (UnderWay s) (uciLayerHasDataAvailable s.buf)

section Watch
variable {s s' : Device} {a : DeviceAct} {w : Waiter} {p : Place}

theorem watched_init : Watched deviceInit := ⟨fun _ _ h => by simp [deviceInit] at h, attended_nobody fun _ => rfl⟩

/-- A step of the buffers, other than the splitting of a block. -/
theorem Watched.quiet {b : Act} {buf : State} (W : Watched s) (hb : ∀ alloc, b ≠ .split alloc)
    (h : bufStep s.buf b = some buf) :
    Attended s.queue (UnderWay { s with buf := buf }) (uciLayerHasDataAvailable buf) := by
  obtain ⟨hlist, hrx⟩ := quiet_step hb h
  refine W.attended.change (Or.imp_left hrx) fun hempty => .inr ?_
  simp only [uciLayerHasDataAvailable, Bool.not_eq_false', List.isEmpty_iff] at hempty ⊢
  exact hlist hempty

/-- The step of a waiter. It leaves the other readers alone. -/
theorem Watched.move {signal : Bool} {b : After} (W : Watched s) (hw : s.queue w = some p)
    (hgo : p.go (uciLayerHasDataAvailable s.buf) signal = some b) :
    Watched { s with reading := interrupt s w b, queue := WaitQueue.move s.queue w b } := by
  refine ⟨fun r p' hr => ?_, W.attended.go hw hgo fun _ => rfl⟩
  by_cases hrw : Waiter.read r = w
  · subst hrw
    simp only [move_self] at hr
    cases b with
    | stays q => exact W.reading r p hw
    | _ => simp [After.place] at hr
  · have hsame : interrupt s w b r = s.reading r := by
      unfold interrupt
      split
      · next r' =>
        have hne : r ≠ r' := fun heq => hrw (heq ▸ rfl)
        simp [hne]
      · rfl
    simp only [move_other hrw] at hr
    simp only [hsame]
    exact W.reading r p' hr

theorem Watched.buffer {b : Act} (W : Watched s) (hb : ∀ alloc, b ≠ .split alloc) (h : bufferStep s b = some s') :
    Watched s' := by
  obtain ⟨buf, hbuf, rfl⟩ := Option.map_eq_some_iff.mp h
  exact ⟨W.reading, W.quiet hb hbuf⟩

/-- While a block is split, a `wake_up` is to come. -/
theorem Watched.split {alloc : Bool} (W : Watched s) (h : deviceStep s (.split alloc) = some s') : Watched s' := by
  obtain ⟨buf, -, rfl⟩ := Option.map_eq_some_iff.mp h
  have hdue : UnderWay { s with buf := buf, waking := s.waking || buf.rx.isNone } := by
    cases hrx : buf.rx <;> simp [UnderWay, hrx]
  exact ⟨W.reading, fun _ _ _ _ => .inl hdue⟩

theorem Watched.step (W : Watched s) (h : deviceStep s a = some s') : Watched s' := by
  cases a with
  | receive data status =>
    simp only [deviceStep, Option.ite_none_left_eq_some] at h
    exact W.buffer (by simp) h.2
  | split alloc => exact W.split h
  | wakeUp =>
    simp only [deviceStep, Option.ite_none_right_eq_some, Option.some.injEq] at h
    obtain ⟨-, rfl⟩ := h
    refine ⟨fun r p hr => ?_, attended_wakeUp _⟩
    obtain ⟨p', hp', -⟩ := Option.map_eq_some_iff.mp hr
    exact W.reading r p' hp'
  | read r maxSize nonBlocking =>
    simp only [deviceStep] at h
    split at h
    · obtain rfl := Option.some.inj h
      refine ⟨fun r' p hr => ?_, ?_⟩
      · by_cases heq : r' = r
        · simp [heq]
        · have hold : s.queue (.read r') = some p := by
            cases nonBlocking <;> simpa [heq] using hr
          simpa [heq] using W.reading r' p hold
      · cases nonBlocking with
        | true => exact W.attended
        | false => exact W.attended.put rfl
    · cases h
  | dequeue r =>
    simp only [deviceStep] at h
    split at h
    · next maxSize _ hqueue =>
      obtain ⟨buf, hbuf, rfl⟩ := Option.map_eq_some_iff.mp h
      refine ⟨fun r' p hr => ?_, W.quiet (by simp) hbuf⟩
      -- the reader itself is not on the queue
      have hne : r' ≠ r := by
        rintro rfl
        simp [hqueue] at hr
      simpa [hne] using W.reading r' p hr
    · cases h
  | copy r => exact W.buffer (by simp) h
  | free r => exact W.buffer (by simp) h
  | clear => exact W.buffer (by simp) h
  | poll i =>
    simp only [deviceStep] at h
    split at h
    · obtain rfl := Option.some.inj h
      exact ⟨fun r p hr => W.reading r p (by simpa using hr), W.attended.put rfl⟩
    · cases h
  | next w signal =>
    simp only [deviceStep] at h
    split at h
    · cases h
    · next p hw =>
      obtain ⟨b, hgo, rfl⟩ := Option.map_eq_some_iff.mp h
      exact W.move hw hgo
  | rouse w =>
    simp only [deviceStep] at h
    split at h
    · next hw =>
      obtain rfl := Option.some.inj h
      refine ⟨fun r p hr => ?_, W.attended.put rfl⟩
      by_cases hrw : Waiter.read r = w
      · exact W.reading r .asleep (hrw ▸ hw)
      · exact W.reading r p (by simpa [hrw] using hr)
    · cases h

/-- A waiter that is awake leaves the queue while there is something to read. -/
theorem Watched.leaves (hdata : uciLayerHasDataAvailable s.buf = true) (hw : s.queue w = some p)
    (hawake : p.sleepy = false) :
    ∃ t, run deviceStep s (List.replicate p.left (.next w false)) = some t ∧ t.queue w = none := by
  refine WaitQueue.leaves (f := fun s : Device => s.queue w)
    (I := fun s => uciLayerHasDataAvailable s.buf = true) ?_ hdata hw hawake
  intro s p hdata hw hawake
  obtain ⟨b, hgo⟩ : ∃ b, p.go true false = some b := Place.go_some (Place.awake hawake)
  refine ⟨{ s with reading := interrupt s w b, queue := WaitQueue.move s.queue w b }, b, ?_, hgo, by simp, fun _ => hdata⟩
  simp [deviceStep, hw, hdata, hgo]

end Watch

/-! The buffers under the device. -/

/-- The steps of the device are steps of the buffers, or leave them alone. -/
theorem device_projects {s s' : Device} {a : DeviceAct} (h : deviceStep s a = some s') :
    s'.buf = s.buf ∨ ∃ b, bufStep s.buf b = some s'.buf := by
  have hstep : ∀ {b : Act} {t : Device}, bufferStep s b = some t → t.buf = s.buf ∨ ∃ b, bufStep s.buf b = some t.buf := by
    intro b t ht
    obtain ⟨buf, hbuf, rfl⟩ := Option.map_eq_some_iff.mp ht
    exact .inr ⟨b, hbuf⟩
  cases a with
  | receive data status =>
    simp only [deviceStep, Option.ite_none_left_eq_some] at h
    exact hstep h.2
  | split alloc =>
    obtain ⟨buf, hbuf, rfl⟩ := Option.map_eq_some_iff.mp h
    exact .inr ⟨_, hbuf⟩
  | dequeue r =>
    simp only [deviceStep] at h
    split at h
    · obtain ⟨buf, hbuf, rfl⟩ := Option.map_eq_some_iff.mp h
      exact .inr ⟨_, hbuf⟩
    · cases h
  | copy r => exact hstep h
  | free r => exact hstep h
  | clear => exact hstep h
  -- the waiting itself does not touch the buffers
  | wakeUp =>
    simp only [deviceStep, Option.ite_none_right_eq_some, Option.some.injEq] at h
    exact .inl (by rw [← h.2])
  | read r maxSize nonBlocking =>
    simp only [deviceStep] at h
    split at h
    · exact .inl (by rw [← Option.some.inj h])
    · cases h
  | poll i =>
    simp only [deviceStep] at h
    split at h
    · exact .inl (by rw [← Option.some.inj h])
    · cases h
  | next w signal =>
    simp only [deviceStep] at h
    split at h
    · cases h
    · obtain ⟨b, -, rfl⟩ := Option.map_eq_some_iff.mp h
      exact .inl rfl
  | rouse w =>
    simp only [deviceStep] at h
    split at h
    · exact .inl (by rw [← Option.some.inj h])
    · cases h

/-- However packets come, readers read and polls poll, the buffers are those of a run of `Uci.Buffers`; and while
there is something to read and no `uci_received` is under way, nobody on the queue sleeps or is about to, and a
waiter leaves it with at most three steps of its own. -/
theorem uci_awaited {acts : List DeviceAct} {s : Device} (hr : run deviceStep deviceInit acts = some s) :
    (∃ bs, run bufStep init bs = some s.buf) ∧
      ∀ w p, s.queue w = some p → uciLayerHasDataAvailable s.buf = true → ¬UnderWay s → p.sleepy = false ∧
        ∃ n t, n ≤ 3 ∧ run deviceStep s (List.replicate n (.next w false)) = some t ∧ t.queue w = none := by
  have W : Watched s := run_preserves (fun _ _ _ W h => W.step h) watched_init hr
  refine ⟨run_projects (f := Device.buf) (fun _ _ _ h => device_projects h) hr, fun w p hw hdata hidle => ?_⟩
  have hawake : p.sleepy = false := by
    by_contra hsleepy
    rcases W.attended w p hw (by simpa using hsleepy) with hdue | hempty
    · exact hidle hdue
    · simp [hdata] at hempty
  obtain ⟨t, hrun, ht⟩ := Watched.leaves hdata hw hawake
  exact ⟨hawake, p.left, t, p.left_le, hrun, ht⟩

/-- A read goes to sleep between the two packets of a block. -/
def asleepInBlock : List DeviceAct :=
  [.read 0 64 false, .next (.read 0) false, .receive [0x20, 0, 0, 0, 0x40, 0, 0, 1, 9] 0, .next (.read 0) false,
    .next (.read 0) false, .next (.read 0) false, .split true, .split true, .wakeUp]

theorem uci_awaited_block : ∃ s, run deviceStep deviceInit asleepInBlock = some s ∧ s.queue (.read 0) = some .enqueue ∧
    ∃ n t, n ≤ 3 ∧ run deviceStep s (List.replicate n (.next (.read 0) false)) = some t ∧
      t.queue (.read 0) = none := by
  obtain ⟨s, hs, hw, hdata, hidle⟩ : ∃ s, run deviceStep deviceInit asleepInBlock = some s ∧
      s.queue (.read 0) = some .enqueue ∧ uciLayerHasDataAvailable s.buf = true ∧
      (s.buf.rx.isSome || s.waking) = false := ⟨_, rfl, rfl, rfl, rfl⟩
  obtain ⟨-, hall⟩ := uci_awaited hs
  exact ⟨s, hs, hw, (hall _ _ hw hdata (by simpa [UnderWay] using hidle)).2⟩

end Qm35.Uci
