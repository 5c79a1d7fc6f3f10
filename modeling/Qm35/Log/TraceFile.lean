import Qm35.Lib.WaitQueue
import Qm35.Log.Parse
import Qm35.Ring.Read

/- The trace file (`debug.c`) over reception of log packets (`hsspi_log.c`). One file is open
   at a time: `debug_traces_open` refuses a second one, and starts the reader again at the
   oldest trace kept. `log_received` pushes the body of a trace notification and then calls
   `debug_new_trace_available`; a read that finds nothing waits, and so does a poll. The
   reads are those of `Ring.Read`, with the wait taken apart into the steps of the queue.

   A reset makes traces pending without a `wake_up`, and whoever slept through it would
   sleep on. That nobody does rests on the file being open once: nobody can be waiting
   when it is opened (`trace_awaited`). A file is released when no call on it is in
   progress, which the kernel sees to (`Vfs`). -/
namespace Qm35.Log

open Lts WaitQueue Qm35.Ring

/-- What `log_received` pushes: the body of a trace notification. -/
def traceNtf (data : List UInt8) (status : Int) : Option (List UInt8) :=
  if status ≠ 0 then none
  else
    match logPacketOf data with
    | none => none
    | some (hdr, body) => if hdr.cmdId = logCidTraceNtf then some body else none

theorem logSourcesLoop_ring {todo idx : Nat} {layer layer' : LogLayer} {data : List UInt8}
    (h : logSourcesLoop todo idx layer data = .ok layer') : layer'.rb = layer.rb := by
  induction todo generalizing idx layer data with
  | zero =>
    cases h
    rfl
  | succ todo ih =>
    obtain ⟨s, rest, -, -, h⟩ := logSourcesLoop_succ.mp h
    have hpass : (s.enter idx layer).rb = layer.rb := by
      rw [Source.enter_eq]
      rfl
    exact (ih h).trans hpass

theorem logLvlLoop_ring {srcId srcLvl : UInt8} {todo idx : Nat} {layer layer' : LogLayer}
    (h : logLvlLoop srcId srcLvl todo idx layer = .ok layer') : layer'.rb = layer.rb := by
  induction todo generalizing idx layer with
  | zero =>
    cases h
    rfl
  | succ todo ih =>
    unfold logLvlLoop at h
    split at h
    · cases h
    · dsimp only at h
      split at h
      · have hrb := ih h
        exact hrb
      · exact ih h

/-- The parsers of the responses leave the buffer alone. -/
theorem logSwitch_ring {layer layer' : LogLayer} {cmdId : Nat} {body : List UInt8} {grant : Bool} {r : Int}
    (hcmd : cmdId ≠ logCidTraceNtf) (h : logSwitch layer cmdId body grant = .ok (r, layer')) :
    layer'.rb = layer.rb := by
  unfold logSwitch at h
  rw [if_neg hcmd] at h
  split at h
  · cases h
    rfl
  · split at h
    · simp only [parseGetLogLvlResponse, bind_eq_ok] at h
      obtain ⟨⟨srcId, _⟩, -, ⟨srcLvl, _⟩, -, layer1, hloop, h⟩ := h
      cases h
      exact logLvlLoop_ring hloop
    · split at h
      · simp only [parseLogSourcesResponse, logSourcesTable, bind_eq_ok] at h
        obtain ⟨⟨layer1, records⟩, ⟨⟨count, _⟩, -, htable⟩, h⟩ := h
        cases htable
        dsimp only at h
        split at h
        · cases h
          rfl
        · obtain ⟨layer2, hloop, h⟩ := bind_eq_ok.mp h
          cases h
          have hrb := logSourcesLoop_ring hloop
          exact hrb
      · cases h
        rfl

/-- That is all `log_received` does to the buffer. -/
theorem logReceived_ring {layer layer' : LogLayer} {data : List UInt8} {status : Int} {grant : Bool}
    (h : logReceived layer data status grant = .ok layer') :
    match traceNtf data status with
    | none => layer'.rb = layer.rb
    | some body => ∃ rc, rbPush layer.rb body = some (rc, layer'.rb) := by
  unfold traceNtf
  unfold logReceived at h
  by_cases hstatus : status = 0
  · simp only [hstatus, ne_eq, not_true_eq_false, if_false] at h ⊢
    cases hpkt : logPacketOf data with
    | none =>
      simp only [hpkt] at h ⊢
      cases h
      rfl
    | some pkt =>
      obtain ⟨hdr, body⟩ := pkt
      simp only [hpkt, bind_eq_ok] at h ⊢
      obtain ⟨⟨r, layer1⟩, hswitch, h⟩ := h
      cases h
      by_cases hcmd : hdr.cmdId = logCidTraceNtf
      · simp only [if_pos hcmd]
        simp only [logSwitch, if_pos hcmd] at hswitch
        split at hswitch
        · cases hswitch
        · next rc rb hpush =>
          cases hswitch
          exact ⟨rc, hpush⟩
      · simp only [if_neg hcmd]
        exact logSwitch_ring hcmd hswitch
  · simp only [if_pos hstatus] at h ⊢
    cases h
    rfl

/-- Who waits on `debug->wq`: a blocking read, or a poll. -/
inductive Waiter where
  | read (i : Nat)
  | poll (i : Nat)
deriving DecidableEq

/-- `waking`: a trace has been pushed and `debug_new_trace_available` not been called yet. `taken` is a record, of
the traces popped since the file was opened. -/
structure TraceFile where
  traces : Traces
  pvFilp : Option Nat
  queue : Waiter → Option Place
  waking : Bool
  taken : List (List UInt8)

def traceFileInit : TraceFile := ⟨tracesInit, none, fun _ => none, false, []⟩

/-- The read `i` waits. -/
def Waits (t : Traces) (i : Nat) : Bool :=
  match t.reads i with
  | .waiting _ => true
  | _ => false

inductive FileAct where
  | logLayerInit
  /-- `log_received`, up to `debug_new_trace_available` -/
  | received (data : List UInt8) (status : Int)
  /-- the `wake_up_interruptible` in it -/
  | newTraceAvailable
  | tracesOpen (f : Nat)
  | tracesRelease (f : Nat)
  | read (i count : Nat) (nonblock : Bool)
  | query (i : Nat)
  | pop (i notCopied : Nat)
  | poll (i : Nat)
  /-- the next step of a waiter; `signal`: one is pending -/
  | next (w : Waiter) (signal : Bool)
  /-- a sleeper wakes up without a `wake_up` -/
  | rouse (w : Waiter)

/-- The condition of the wait, and the traces as its evaluation leaves them. `debug_traces_poll` evaluates
`trace_next_avail`, `debug_traces_read` goes by `trace_get_next_size`. -/
def test (t : Traces) : Waiter → Option (Bool × Traces)
  | .read i => (readStep t (.wake i)).map fun t => (!Waits t i, t)
  | .poll _ => some (t.traceOps && rbCanPop t.ring.rb, t)

/-- A wait that ends by a signal is the end of a read. -/
def interrupted (t : Traces) : Waiter → After → Option Traces
  | .read i, .interrupted => readStep t (.interrupt i)
  | _, _ => some t

/-- The next step of a waiter that is at `p`. -/
def waitStep (s : TraceFile) (w : Waiter) (p : Place) (signal : Bool) : Option TraceFile :=
  if p.tests then do
    let (found, t) ← test s.traces w
    let a ← p.go found signal
    some { s with traces := t, queue := move s.queue w a }
  else do
    let a ← p.go false signal
    let t ← interrupted s.traces w a
    some { s with traces := t, queue := move s.queue w a }

def fileStep (s : TraceFile) : FileAct → Option TraceFile
  | .logLayerInit => (readStep s.traces .logLayerInit).map fun t => { s with traces := t }
  | .received data status =>
    if s.waking ∨ 65536 ≤ data.length then none
    else
      match traceNtf data status with
      | none => some s
      | some body => (readStep s.traces (.push body)).map fun t => { s with traces := t, waking := true }
  | .newTraceAvailable => if s.waking then some { s with queue := wakeUp s.queue, waking := false } else none
  | .tracesOpen f =>
    match s.pvFilp with
    -- -EBUSY
    | some _ => some s
    | none => (readStep s.traces .tracesOpen).map fun t => { s with traces := t, pvFilp := some f, taken := [] }
  | .tracesRelease f => if s.pvFilp = some f then some { s with pvFilp := none } else none
  | .read i count nonblock =>
    if s.pvFilp.isSome then (readStep s.traces (.read i count nonblock)).map fun t => { s with traces := t } else none
  | .query i => (readStep s.traces (.query i)).map fun t =>
      { s with traces := t, queue := if Waits t i then Function.update s.queue (.read i) (some .first) else s.queue }
  | .pop i notCopied => (readStep s.traces (.pop i notCopied)).map fun t =>
      { s with traces := t, taken := s.taken ++ (t.ring.popped.drop s.traces.ring.popped.length).map Prod.snd }
  | .poll i =>
    if s.pvFilp.isSome ∧ s.queue (.poll i) = none then
      some { s with queue := Function.update s.queue (.poll i) (some .enqueue) }
    else none
  | .next w signal =>
    match s.queue w with
    | none => none
    | some p => waitStep s w p signal
  | .rouse w =>
    match s.queue w with
    | some .asleep => some { s with queue := Function.update s.queue w (some .enqueue) }
    | _ => none

/-- A file is released when no call on it is in progress. -/
def Vfs (s : TraceFile) : FileAct → Prop
  | .tracesRelease _ => (∀ i, s.traces.reads i = .idle) ∧ ∀ i, s.queue (.poll i) = none
  | _ => True

/-! What is pending. -/

section Pending
variable {h : History}

theorem canPop_iff {rb : Rb} {owner : Nat → Nat} {ret pend : List Tagged} (L : Lay rb owner ret pend) :
    rbCanPop rb = false ↔ pend = [] := by
  rw [L.caught_up]
  simp [rbCanPop, rbCanPopAt]

/-- The size of the next trace is 0 exactly if none is pending, and asking for it changes nothing in that. -/
theorem nextSize_found (H : Logged h) : ∃ size rb, rbNextSize h.rb = some (size, rb) ∧ Logged { h with rb := rb } ∧
    (size = 0 ↔ rbCanPop h.rb = false) ∧ rbCanPop rb = rbCanPop h.rb := by
  obtain ⟨ret, pend, L, hret, hpend⟩ := H
  have hcan := canPop_iff L
  cases pend with
  | nil =>
    have hend := rbNextSizeAt_empty (L.caught_up.mp rfl)
    exact ⟨0, h.rb, by simp [rbNextSize, hend], ⟨ret, [], L, hret, hpend⟩, by simp [hcan], rfl⟩
  | cons x pend =>
    obtain ⟨t, N⟩ := L.next
    have hcan' := canPop_iff N.before
    have hpos := N.pos
    refine ⟨x.2.length, { h.rb with rdtail := t }, by simp [rbNextSize, N.next], ⟨ret, x :: pend, N.before, hret, hpend⟩,
      ?_, ?_⟩
    · have hne : x.2.length ≠ 0 := by omega
      simpa [hcan] using hne
    · simp only [List.cons_ne_nil, iff_false, Bool.not_eq_false] at hcan hcan'
      rw [hcan, hcan']

/-- Popping where nothing is pending. -/
theorem pop_empty (H : Logged h) (hempty : rbCanPop h.rb = false) :
    rbPop h.rb = some (none, h.rb) ∧ histStep h .pop = some h := by
  obtain ⟨ret, pend, L, -, -⟩ := H
  obtain rfl := (canPop_iff L).mp hempty
  exact ⟨rbPop_empty L, histStep_pop_none (rbPop_empty L)⟩

end Pending

/-! What a call of a read does. -/

section Reads
variable {s t : Traces} {i j : Nat}

@[simp] theorem waits_goto {pc : ReadPc} : Waits (s.goto i pc) j =
    if j = i then (match pc with | .waiting _ => true | _ => false) else Waits s j := by
  by_cases h : j = i
  · simp [Waits, Traces.goto, h]
  · simp [Waits, Traces.goto, h]

@[simp] theorem waits_ret {count : Nat} {ret : Int} {copied : List UInt8} :
    Waits (s.ret i count ret copied) j = if j = i then false else Waits s j := by
  by_cases h : j = i
  · simp [Waits, Traces.ret, h]
  · simp [Waits, Traces.ret, h]

@[simp] theorem ring_goto {pc : ReadPc} : (s.goto i pc).ring = s.ring := rfl

@[simp] theorem ring_ret {count : Nat} {ret : Int} {copied : List UInt8} : (s.ret i count ret copied).ring = s.ring := rfl

@[simp] theorem waits_sized {count size : Nat} :
    Waits (s.sized i count size) j = if j = i then false else Waits s j := by
  unfold Traces.sized
  split <;> simp

@[simp] theorem ring_sized {count size : Nat} : (s.sized i count size).ring = s.ring := by
  unfold Traces.sized
  split <;> rfl

/-- What a step of the read `i` does: other reads wait as before, and a trace becomes pending by none. -/
structure ReadBy (s t : Traces) (i : Nat) : Prop where
  logged : Logged t.ring
  ops : t.traceOps = s.traceOps
  others : ∀ j, j ≠ i → Waits t j = Waits s j
  empty : rbCanPop s.ring.rb = false → rbCanPop t.ring.rb = false

/-- A call begins, and does not wait before or after. -/
theorem read_by {count : Nat} {nonblock : Bool} (H : Logged s.ring) (h : readStep s (.read i count nonblock) = some t) :
    ReadBy s t i ∧ Waits s i = false ∧ Waits t i = false := by
  simp only [readStep, Option.ite_none_right_eq_some, Option.some.injEq] at h
  obtain ⟨hidle, rfl⟩ := h
  have hwaits : Waits s i = false := by simp [Waits, hidle]
  split
  · exact ⟨⟨H, rfl, fun j hj => by simp [hj], id⟩, hwaits, by simp⟩
  · exact ⟨⟨H, rfl, fun j hj => by simp [hj], id⟩, hwaits, by simp⟩

/-- A read asks for the size of the next trace. -/
theorem query_by (H : Logged s.ring) (h : readStep s (.query i) = some t) : ReadBy s t i ∧ Waits s i = false := by
  obtain ⟨size, rb, hrun, H', -, hcan⟩ := nextSize_found H
  simp only [readStep] at h
  split at h
  · next count nonblock hpc =>
    have hwaits : Waits s i = false := by simp [Waits, hpc]
    simp only [Traces.nextSize, hrun, Option.map_some, Option.bind_eq_bind, Option.bind_some] at h
    refine ⟨?_, hwaits⟩
    split at h
    · obtain rfl := Option.some.inj h
      split
      · exact ⟨H', rfl, fun j hj => by simp [hj]; rfl, fun he => hcan.trans he⟩
      · exact ⟨H', rfl, fun j hj => by simp [hj]; rfl, fun he => hcan.trans he⟩
    · obtain rfl := Option.some.inj h
      refine ⟨by simpa using H', ?_, fun j hj => by simp [hj]; rfl, fun he => by simpa using hcan.trans he⟩
      unfold Traces.sized
      split <;> rfl
  · cases h

/-- A wait tests its condition: the read goes on exactly if a trace is pending. -/
theorem wake_by (H : Logged s.ring) (hwaits : Waits s i = true) : ∃ t, readStep s (.wake i) = some t ∧ ReadBy s t i ∧
    Waits t i = !rbCanPop s.ring.rb ∧ rbCanPop t.ring.rb = rbCanPop s.ring.rb := by
  obtain ⟨size, rb, hrun, H', hsize, hcan⟩ := nextSize_found H
  obtain ⟨count, hpc⟩ : ∃ count, s.reads i = .waiting count := by
    unfold Waits at hwaits
    split at hwaits
    · next count hpc => exact ⟨count, hpc⟩
    · cases hwaits
  simp only [readStep, hpc, Traces.nextSize, hrun, Option.map_some, Option.bind_eq_bind, Option.bind_some]
  by_cases hzero : size = 0
  · rw [if_pos hzero]
    refine ⟨_, rfl, ⟨H', rfl, fun _ _ => rfl, fun he => hcan.trans he⟩, ?_, hcan⟩
    rw [hsize.mp hzero]
    exact hwaits
  · rw [if_neg hzero]
    have htrue : rbCanPop s.ring.rb = true := by simpa using mt hsize.mpr hzero
    refine ⟨_, rfl, ⟨by simpa using H', ?_, fun j hj => by simp [hj]; rfl, fun he => by simpa using hcan.trans he⟩, ?_, ?_⟩
    · unfold Traces.sized
      split <;> rfl
    · simp [htrue]
    · simpa using hcan

theorem interrupt_by (H : Logged s.ring) (hwaits : Waits s i = true) :
    ∃ t, readStep s (.interrupt i) = some t ∧ ReadBy s t i ∧ Waits t i = false ∧ t.ring = s.ring := by
  unfold Waits at hwaits
  split at hwaits
  · next count hpc =>
    simp only [readStep, hpc]
    exact ⟨_, rfl, ⟨H, rfl, fun j hj => by simp [hj], id⟩, by simp, rfl⟩
  · cases hwaits

theorem pop_by {notCopied : Nat} (H : Logged s.ring) (h : readStep s (.pop i notCopied) = some t) :
    ReadBy s t i ∧ Waits s i = false ∧ Waits t i = false := by
  have H' := H.step h
  simp only [readStep] at h
  split at h
  · next count hpc =>
    have hwaits : Waits s i = false := by simp [Waits, hpc]
    rcases H.pop with ⟨-, hpop, hstep⟩ | ⟨data, rb, h', -, hpop, hstep, -⟩
    · simp only [hpop, hstep, Option.bind_eq_bind, Option.bind_some, Option.some.injEq] at h
      subst h
      exact ⟨⟨H', rfl, fun j hj => by simp [hj], id⟩, hwaits, by simp⟩
    · simp only [hpop, hstep, Option.bind_eq_bind, Option.bind_some, Option.ite_none_right_eq_some,
        Option.some.injEq] at h
      obtain ⟨-, rfl⟩ := h
      refine ⟨⟨H', rfl, fun j hj => by simp [Traces.copy, hj]; rfl, fun hempty => ?_⟩, hwaits, by simp [Traces.copy]⟩
      -- there was a trace
      rw [(pop_empty H hempty).1] at hpop
      cases hpop
  · cases h

end Reads

/-! Sleepers. -/

/-- A waiting read is on the queue, no call is in progress while the file is closed, no trace is there before the log
layer is, and nobody sleeps through one. -/
structure Watched (s : TraceFile) : Prop where
  logged : Logged s.traces.ring
  waits : ∀ i, (s.queue (.read i)).isSome = Waits s.traces i
  closed : s.pvFilp = none → (∀ i, s.traces.reads i = .idle) ∧ ∀ w, s.queue w = none
  unset : s.traces.traceOps = false → rbCanPop s.traces.ring.rb = false
  attended : Attended s.queue (s.waking = true) (rbCanPop s.traces.ring.rb)

section Watch
variable {s s' : TraceFile} {t : Traces} {i : Nat} {w : Waiter} {p : Place} {signal : Bool} {a : FileAct}

theorem watched_init : Watched traceFileInit :=
  ⟨Logged.init, fun _ => rfl, fun _ => ⟨fun _ => rfl, fun _ => rfl⟩, fun _ => rfl, attended_nobody fun _ => rfl⟩

/-- A step of a read that does not wait before or after it. -/
theorem Watched.readBy (W : Watched s) (hopen : s.pvFilp ≠ none) (R : ReadBy s.traces t i)
    (hs : Waits s.traces i = false) (ht : Waits t i = false) (taken : List (List UInt8)) :
    Watched { s with traces := t, taken := taken } := by
  refine ⟨R.logged, fun j => ?_, fun hclosed => absurd hclosed hopen, fun hops => R.empty (W.unset (R.ops ▸ hops)), ?_⟩
  · by_cases hj : j = i
    · rw [hj, ht, W.waits i, hs]
    · rw [R.others j hj, W.waits j]
  · exact W.attended.change id fun he => .inr (R.empty he)

/-- A read that has asked for the size. If it waits now, it has the first test before it. -/
theorem Watched.query (W : Watched s) (h : fileStep s (.query i) = some s') : Watched s' := by
  obtain ⟨t, hread, rfl⟩ := Option.map_eq_some_iff.mp h
  obtain ⟨R, hnot⟩ := query_by W.logged hread
  have hopen : s.pvFilp ≠ none := by
    intro hclosed
    simp [readStep, (W.closed hclosed).1 i] at hread
  cases ht : Waits t i with
  | false => simpa [ht] using W.readBy hopen R hnot ht s.taken
  | true =>
    simp only [if_true]
    have hchange : Attended s.queue (s.waking = true) (rbCanPop t.ring.rb) :=
      W.attended.change id fun he => .inr (R.empty he)
    refine ⟨R.logged, fun j => ?_, fun hclosed => absurd hclosed hopen, fun hops => R.empty (W.unset (R.ops ▸ hops)),
      hchange.put rfl⟩
    by_cases hj : j = i
    · simp [hj, ht]
    · simp [hj, R.others j hj, W.waits j]

theorem Watched.pop {notCopied : Nat} (W : Watched s) (h : fileStep s (.pop i notCopied) = some s') : Watched s' := by
  obtain ⟨t, hread, rfl⟩ := Option.map_eq_some_iff.mp h
  obtain ⟨R, hs, ht⟩ := pop_by W.logged hread
  have hopen : s.pvFilp ≠ none := by
    intro hclosed
    simp [readStep, (W.closed hclosed).1 i] at hread
  exact W.readBy hopen R hs ht _

theorem Watched.open (W : Watched s) (hw : s.queue w = some p) : s.pvFilp ≠ none :=
  fun hclosed => absurd (hw.symm.trans ((W.closed hclosed).2 w)) (by simp)

/-- A waiter that tests the condition finds a trace exactly if one is pending, and leaves if it does. -/
theorem Watched.tested (W : Watched s) (hw : s.queue w = some p) (hp : p.tests = true) (signal : Bool) :
    ∃ t a, fileStep s (.next w signal) = some { s with traces := t, queue := move s.queue w a } ∧
      p.go (rbCanPop s.traces.ring.rb) signal = some a ∧ rbCanPop t.ring.rb = rbCanPop s.traces.ring.rb ∧
      Watched { s with traces := t, queue := move s.queue w a } := by
  have hopen := W.open hw
  obtain ⟨htrue, q, hfalse⟩ := Place.go_tests hp signal
  obtain ⟨a, hgo⟩ : ∃ a, p.go (rbCanPop s.traces.ring.rb) signal = some a := by
    cases rbCanPop s.traces.ring.rb with
    | true => exact ⟨_, htrue⟩
    | false => exact ⟨_, hfalse⟩
  have hstays : (move s.queue w a w).isSome = !rbCanPop s.traces.ring.rb := by
    cases hcan : rbCanPop s.traces.ring.rb with
    | true =>
      rw [hcan, htrue] at hgo
      simp [← Option.some.inj hgo, After.place]
    | false =>
      rw [hcan, hfalse] at hgo
      simp [← Option.some.inj hgo, After.place]
  have hatt := W.attended.go hw hgo fun _ => rfl
  cases w with
  | read i =>
    have hwaits : Waits s.traces i = true := by rw [← W.waits i, hw]; rfl
    obtain ⟨t, hread, R, ht, hcan⟩ := wake_by W.logged hwaits
    refine ⟨t, a, ?_, hgo, hcan, R.logged, fun j => ?_, fun hclosed => absurd hclosed hopen,
      fun hops => R.empty (W.unset (R.ops ▸ hops)), hcan ▸ hatt⟩
    · simp [fileStep, hw, waitStep, hp, test, hread, ht, hgo]
    · by_cases hj : j = i
      · rw [hj, ht, hstays]
      · simp [move_other (show Waiter.read j ≠ .read i by simpa using hj), R.others j hj, W.waits j]
  | poll i =>
    have hfound : (s.traces.traceOps && rbCanPop s.traces.ring.rb) = rbCanPop s.traces.ring.rb := by
      cases hops : s.traces.traceOps with
      | true => rfl
      | false => simp [W.unset hops]
    refine ⟨s.traces, a, ?_, hgo, rfl, W.logged, fun j => ?_, fun hclosed => absurd hclosed hopen, W.unset, hatt⟩
    · simp [fileStep, hw, waitStep, hp, test, hfound, hgo]
    · simp [move_other (show Waiter.read j ≠ .poll i by simp), W.waits j]

/-- A waiter that does not test the condition. -/
theorem Watched.untested (W : Watched s) (hw : s.queue w = some p) (hp : p.tests = false) {a : After}
    (hgo : p.go false signal = some a) :
    ∃ t, fileStep s (.next w signal) = some { s with traces := t, queue := move s.queue w a } ∧
      t.ring = s.traces.ring ∧ Watched { s with traces := t, queue := move s.queue w a } := by
  have hopen := W.open hw
  have hatt := W.attended.go hw hgo fun ht => absurd ht (by simp [hp])
  have hstep : ∀ t, interrupted s.traces w a = some t →
      fileStep s (.next w signal) = some { s with traces := t, queue := move s.queue w a } := by
    intro t ht
    simp [fileStep, hw, waitStep, hp, hgo, ht]
  cases a with
  | holds => exact absurd hgo (Place.go_untested hp)
  | stays q =>
    refine ⟨s.traces, hstep _ (by cases w <;> rfl), rfl, W.logged, fun j => ?_, fun hclosed => absurd hclosed hopen,
      W.unset, hatt⟩
    by_cases hj : Waiter.read j = w
    · subst hj
      simp [← W.waits j, hw, After.place]
    · simp [move_other hj, W.waits j]
  | interrupted =>
    cases w with
    | read i =>
      have hwaits : Waits s.traces i = true := by rw [← W.waits i, hw]; rfl
      obtain ⟨t, hread, R, ht, hring⟩ := interrupt_by W.logged hwaits
      refine ⟨t, hstep t hread, hring, R.logged, fun j => ?_, fun hclosed => absurd hclosed hopen,
        fun hops => R.empty (W.unset (R.ops ▸ hops)), ?_⟩
      · by_cases hj : j = i
        · simp [hj, ht, After.place]
        · simp [move_other (show Waiter.read j ≠ .read i by simpa using hj), R.others j hj, W.waits j]
      · rw [hring]
        exact hatt
    | poll i =>
      refine ⟨s.traces, hstep _ rfl, rfl, W.logged, fun j => ?_, fun hclosed => absurd hclosed hopen, W.unset, hatt⟩
      simp [move_other (show Waiter.read j ≠ .poll i by simp), W.waits j]

theorem Watched.next (W : Watched s) (h : fileStep s (.next w signal) = some s') : Watched s' := by
  cases hw : s.queue w with
  | none => simp [fileStep, hw] at h
  | some p =>
    cases hp : p.tests with
    | true =>
      obtain ⟨t, a, hstep, -, -, W'⟩ := W.tested hw hp signal
      obtain rfl := Option.some.inj (h.symm.trans hstep)
      exact W'
    | false =>
      cases hgo : p.go false signal with
      | none => simp [fileStep, hw, waitStep, hp, hgo] at h
      | some a =>
        obtain ⟨t, hstep, -, W'⟩ := W.untested hw hp hgo
        obtain rfl := Option.some.inj (h.symm.trans hstep)
        exact W'

/-- A trace is pushed, and a `wake_up` is due. -/
theorem Watched.received {data : List UInt8} {status : Int} (W : Watched s)
    (h : fileStep s (.received data status) = some s') : Watched s' := by
  simp only [fileStep, Option.ite_none_left_eq_some] at h
  obtain ⟨-, h⟩ := h
  split at h
  · obtain rfl := Option.some.inj h
    exact W
  · obtain ⟨t, hpush, rfl⟩ := Option.map_eq_some_iff.mp h
    have H := W.logged.step hpush
    simp only [readStep, Option.ite_none_right_eq_some] at hpush
    obtain ⟨⟨hops, -⟩, hpush⟩ := hpush
    obtain ⟨ring, -, rfl⟩ := Option.map_eq_some_iff.mp hpush
    exact ⟨H, W.waits, W.closed, fun hunset => absurd (hunset.symm.trans hops) (by simp),
      W.attended.change (fun _ => rfl) fun _ => .inl rfl⟩

/-- Opening the file makes traces pending. Nobody is there to wait for them. -/
theorem Watched.opened {f : Nat} (W : Watched s) (h : fileStep s (.tracesOpen f) = some s') : Watched s' := by
  simp only [fileStep] at h
  split at h
  · obtain rfl := Option.some.inj h
    exact W
  · next hclosed =>
    obtain ⟨t, hopen, rfl⟩ := Option.map_eq_some_iff.mp h
    have H := W.logged.step hopen
    have hnobody := (W.closed hclosed).2
    simp only [readStep] at hopen
    split at hopen
    · next hops =>
      obtain ⟨ring, -, rfl⟩ := Option.map_eq_some_iff.mp hopen
      exact ⟨H, W.waits, fun hnone => absurd hnone (Option.some_ne_none f), fun hunset => absurd (hunset.symm.trans hops) (by simp),
        attended_nobody hnobody⟩
    · obtain rfl := Option.some.inj hopen
      exact ⟨H, W.waits, fun hnone => absurd hnone (Option.some_ne_none f), W.unset, W.attended⟩

theorem Watched.step (W : Watched s) (hvfs : Vfs s a) (h : fileStep s a = some s') : Watched s' := by
  cases a with
  | logLayerInit =>
    obtain rfl := Option.some.inj h
    exact ⟨W.logged, W.waits, W.closed, fun hunset => absurd hunset.symm Bool.false_ne_true, W.attended⟩
  | received data status => exact W.received h
  -- `wake_up` makes every sleeper test again, so nobody is left asleep
  | newTraceAvailable =>
    simp only [fileStep, Option.ite_none_right_eq_some, Option.some.injEq] at h
    obtain ⟨-, rfl⟩ := h
    refine ⟨W.logged, fun i => ?_, fun hclosed => ⟨(W.closed hclosed).1, fun w => ?_⟩, W.unset, attended_wakeUp _⟩
    · simp [wakeUp, W.waits i]
    · simp [wakeUp, (W.closed hclosed).2 w]
  | tracesOpen f => exact W.opened h
  -- the file is released only when no read or poll is in it
  | tracesRelease f =>
    simp only [fileStep, Option.ite_none_right_eq_some, Option.some.injEq] at h
    obtain ⟨-, rfl⟩ := h
    refine ⟨W.logged, W.waits, fun _ => ⟨hvfs.1, fun w => ?_⟩, W.unset, W.attended⟩
    cases w with
    | read i =>
      have hwaits := W.waits i
      simpa [Waits, hvfs.1 i] using hwaits
    | poll i => exact hvfs.2 i
  | read i count nonblock =>
    simp only [fileStep, Option.ite_none_right_eq_some] at h
    obtain ⟨hopen, h⟩ := h
    obtain ⟨t, hread, rfl⟩ := Option.map_eq_some_iff.mp h
    obtain ⟨R, hs, ht⟩ := read_by W.logged hread
    exact W.readBy (Option.isSome_iff_ne_none.mp hopen) R hs ht s.taken
  | query i => exact W.query h
  | pop i notCopied => exact W.pop h
  | poll i =>
    simp only [fileStep, Option.ite_none_right_eq_some, Option.some.injEq] at h
    obtain ⟨⟨hopen, -⟩, rfl⟩ := h
    refine ⟨W.logged, fun j => ?_, fun hclosed => absurd hclosed (Option.isSome_iff_ne_none.mp hopen), W.unset,
      W.attended.put rfl⟩
    simp [W.waits j]
  | next w signal => exact W.next h
  | rouse w =>
    simp only [fileStep] at h
    split at h
    · next hw =>
      obtain rfl := Option.some.inj h
      refine ⟨W.logged, fun j => ?_, fun hclosed => absurd hclosed (W.open hw), W.unset, W.attended.put rfl⟩
      by_cases hj : Waiter.read j = w
      · subst hj
        simp [← W.waits j, hw]
      · simp [hj, W.waits j]
    · cases h

/-- While a trace is pending, a waiter that is awake leaves the queue with at most three steps. -/
theorem Watched.leaves (W : Watched s) (hpending : rbCanPop s.traces.ring.rb = true) (hw : s.queue w = some p)
    (hawake : p.sleepy = false) :
    ∃ u, run fileStep s (List.replicate p.left (.next w false)) = some u ∧ u.queue w = none := by
  refine WaitQueue.leaves (f := fun s => s.queue w)
    (I := fun s => Watched s ∧ rbCanPop s.traces.ring.rb = true) ?_ ⟨W, hpending⟩ hw hawake
  rintro s p ⟨W, hpending⟩ hw hawake
  cases hp : p.tests with
  | true =>
    obtain ⟨t, a, hstep, hgo, hcan, W'⟩ := W.tested hw hp false
    exact ⟨_, a, hstep, hpending ▸ hgo, by simp, fun _ => ⟨W', hcan.trans hpending⟩⟩
  | false =>
    obtain ⟨a, hgo⟩ : ∃ a, p.go false false = some a := Place.go_some (Place.awake hawake)
    obtain ⟨t, hstep, hring, W'⟩ := W.untested hw hp hgo
    exact ⟨_, a, hstep, (Place.go_congr hp).trans hgo, by simp, fun _ => ⟨W', by rw [hring, hpending]⟩⟩

end Watch

/-- Whatever is received, opened, read, polled and signalled: a waiting read is on the queue, and while a trace is
pending nobody on the queue sleeps or is about to, unless `debug_new_trace_available` is still to be called; a waiter
then leaves the queue with at most three steps of its own. -/
theorem trace_awaited {acts : List FileAct} {s : TraceFile} (hm : Meets fileStep Vfs traceFileInit acts)
    (hr : run fileStep traceFileInit acts = some s) :
    (∀ i count, s.traces.reads i = .waiting count → (s.queue (.read i)).isSome = true) ∧
      (∀ w p, s.queue w = some p → rbCanPop s.traces.ring.rb = true → s.waking = false → p.sleepy = false ∧
        ∃ n u, n ≤ 3 ∧ run fileStep s (List.replicate n (.next w false)) = some u ∧ u.queue w = none) := by
  have W : Watched s := run_invariant (fun _ _ _ W hvfs h => W.step hvfs h) watched_init hm hr
  refine ⟨fun i count hpc => ?_, fun w p hw hpending hwaking => ?_⟩
  · rw [W.waits i]
    simp [Waits, hpc]
  · have hawake : p.sleepy = false := by
      by_contra hsleepy
      rcases W.attended w p hw (by simpa using hsleepy) with hdue | hempty
      · simp [hwaking] at hdue
      · simp [hpending] at hempty
    obtain ⟨u, hrun, hu⟩ := W.leaves hpending hw hawake
    exact ⟨hawake, p.left, u, p.left_le, hrun, hu⟩

/-- A read goes to sleep, a trace is pushed, and the read is woken. -/
def asleepThenTrace : List FileAct :=
  [.logLayerInit, .tracesOpen 1, .read 0 64 false, .query 0, .next (.read 0) false, .next (.read 0) false,
    .next (.read 0) false, .next (.read 0) false, .received [0, 0, 1, 0, 7] 0, .newTraceAvailable]

theorem trace_awaited_read : ∃ s, run fileStep traceFileInit asleepThenTrace = some s ∧
    s.queue (.read 0) = some .enqueue ∧
    ∃ n u, n ≤ 3 ∧ run fileStep s (List.replicate n (.next (.read 0) false)) = some u ∧ u.queue (.read 0) = none := by
  obtain ⟨s, hs, hw, hpending, hwaking⟩ : ∃ s, run fileStep traceFileInit asleepThenTrace = some s ∧
      s.queue (.read 0) = some .enqueue ∧ rbCanPop s.traces.ring.rb = true ∧ s.waking = false := by
    refine ⟨_, rfl, rfl, ?_, rfl⟩
    decide
  have hm : Meets fileStep Vfs traceFileInit asleepThenTrace :=
    Meets.of_mem (by simp [asleepThenTrace, Vfs])
  obtain ⟨-, hall⟩ := trace_awaited hm hs
  exact ⟨s, hs, hw, (hall _ _ hw hpending hwaking).2⟩

end Qm35.Log
