import Qm35.Lib.Lts
import Qm35.Hsspi.Transfer

/- The HSSPI core as a transition system (`hsspi.c`, before `hsspi_deinit`). One step
   is one section under `hsspi->lock`, one callback, the start or the end of a
   transfer, or one access to an atomic flag. Any number of callers use the core;
   `hsspi_unregister` and `hsspi_stop` are two steps each, since they wait for their
   completion. `hsspi_thread_fn` is one thread with a program counter, which goes
   through `hsspi_tx`, `hsspi_pre_read` and `hsspi_rx`; the answers of the device and
   of the layers' `get` are in the step.

   A completion carries what was the case when it was queued: how many blocks had
   been accepted, how many slots had been cleared and how often the core had been
   started. These counts, the tickets that number the calls of `hsspi_send`, and the
   lists of blocks accepted, sent, got and received are records of the run; no
   decision is taken on them. -/
namespace Qm35.Hsspi

def eInval : Int := -22
def eNoMem : Int := -12
def eBusy : Int := -16

/-- A pointer to a `struct hsspi_layer`, with the layer's `id`. -/
structure LayerRef where
  ptr : Nat
  id : UInt8
deriving DecidableEq

/-- A TX work: the block and the layer given to the `ticket`-th call of `hsspi_send`. -/
structure TxWork where
  ticket : Nat
  layer : LayerRef
  blk : Nat
deriving DecidableEq

/-- A completion on the stack of `hsspi_stop` (`stop`) or `hsspi_unregister`. -/
structure Completion where
  id : Nat
  stop : Bool
  accepted : Nat
  clears : Nat
  starts : Nat
deriving DecidableEq

/-- `struct hsspi_work` -/
inductive Work where
  | tx (w : TxWork)
  | completion (k : Completion)

/-- `enum hsspi_state` -/
inductive HsspiState where
  | running
  | error
  | stopped
deriving DecidableEq

/-- A layer read from the table of layers, and how many slots had been cleared then. -/
structure LayerUse where
  layer : LayerRef
  since : Nat

/-- The layer `hsspi_rx` uses and the block it got from it. -/
structure RxUse where
  use : LayerUse
  blk : Nat

/-- Where `hsspi_thread_fn` is. -/
inductive ThreadPc where
  | idle
  | sampled (isEmpty : Bool) (state : HsspiState)
  | woken
  | completing (k : Completion)
  | tx (w : TxWork)
  | txXfer (w : TxWork) (prd : Bool)
  | txDone (w : TxWork) (prd : Bool) (ret : Int) (soc : StcHeader)
  | preRead
  | preXfer
  | rx (ul : UInt8) (length : UInt16)
  | rxFound (ul : UInt8) (length : UInt16) (layer : Option LayerUse)
  | rxGot (ul : UInt8) (length : UInt16) (got : Option RxUse)
  | rxXfer (ul : UInt8) (length : UInt16) (got : Option RxUse)
  | rxDone (ul : UInt8) (length : UInt16) (got : Option RxUse) (ret : Int) (soc : StcHeader)
  | rxCheck (ul : UInt8) (length : UInt16) (ret : Int) (soc : StcHeader)

/-- Where a caller is: outside, or waiting for its completion. -/
inductive CallerPc where
  | idle
  | unregister (layer : LayerRef) (k : Completion)
  | stop (k : Completion)

structure Core where
  workList : List Work
  layers : Nat → Option LayerRef
  state : HsspiState
  ssIrq : Bool
  pc : ThreadPc
  successiveErrors : Nat
  callers : Nat → CallerPc
  completed : List Completion
  sends : Nat
  accepted : List TxWork
  rejected : List Nat
  sent : List (TxWork × Int)
  gets : List (LayerRef × Nat)
  received : List (LayerRef × Nat × Int)
  completions : Nat
  clears : Nat
  starts : Nat
  xfers : Nat
  resets : Nat

/-- `hsspi_init` -/
def coreInit : Core where
  workList := []
  layers := fun _ => none
  state := .stopped
  ssIrq := false
  pc := .idle
  successiveErrors := 0
  callers := fun _ => .idle
  completed := []
  sends := 0
  accepted := []
  rejected := []
  sent := []
  gets := []
  received := []
  completions := 0
  clears := 0
  starts := 0
  xfers := 0
  resets := 0

/-! The calls. -/

/-- `hsspi_send`, its `kzalloc` succeeding or not. -/
def hsspiSend (s : Core) (layer : Option LayerRef) (blk : Option Nat) (alloc : Bool) : Int × Core :=
  match layer, blk with
  | some layer, some blk =>
    if !layerIdIsValid layer.id then (eInval, s)
    else if !alloc then (eNoMem, s)
    else if s.state = .running then
      if s.layers layer.id.toNat = some layer then
        let w : TxWork := ⟨s.sends, layer, blk⟩
        (0, { s with workList := s.workList ++ [.tx w], accepted := s.accepted ++ [w] })
      else (eInval, s)
    else (eAgain, s)
  | _, _ => (eInval, s)

/-- `hsspi_register` -/
def hsspiRegister (s : Core) (layer : LayerRef) : Int × Core :=
  if !layerIdIsValid layer.id then (eInval, s)
  else if (s.layers layer.id.toNat).isSome then (eBusy, s)
  else (0, { s with layers := Function.update s.layers layer.id.toNat (some layer) })

/-- The completion `hsspi_unregister` queues. -/
def unregisterCompletion (s : Core) : Completion :=
  ⟨s.completions, false, s.accepted.length, s.clears + 1, s.starts⟩

/-- The completion `hsspi_stop` queues. -/
def stopCompletion (s : Core) : Completion :=
  ⟨s.completions, true, s.accepted.length, s.clears, s.starts⟩

/-- `hsspi_unregister` up to its wait. -/
def hsspiUnregister (s : Core) (i : Nat) (layer : LayerRef) : Int × Core :=
  if !layerIdIsValid layer.id then (eInval, s)
  else if s.layers layer.id.toNat = some layer then
    let k := unregisterCompletion s
    (0, { s with
      layers := Function.update s.layers layer.id.toNat none
      workList := s.workList ++ [.completion k]
      callers := Function.update s.callers i (.unregister layer k)
      completions := s.completions + 1
      clears := s.clears + 1 })
  else (eInval, s)

/-- `hsspi_start` -/
def hsspiStart (s : Core) : Core := { s with state := .running, starts := s.starts + 1 }

/-- `hsspi_stop` up to its wait. -/
def hsspiStop (s : Core) (i : Nat) : Core :=
  let k := stopCompletion s
  { s with
    state := .stopped
    workList := s.workList ++ [.completion k]
    callers := Function.update s.callers i (.stop k)
    completions := s.completions + 1 }

/-- The completion a caller waits for. -/
def CallerPc.waits : CallerPc → Option Completion
  | .idle => none
  | .unregister _ k => some k
  | .stop k => some k

/-! The thread. -/

/-- What the outside answers to a step of the thread: the result of a transfer and its SoC
header, or the block `get` returns. -/
structure Answer where
  ret : Int
  soc : StcHeader
  blk : Option Nat

def maxSuccessiveErrors : Nat := 5

/-- The end of a round of `hsspi_thread_fn`: counting errors, and resetting the device. -/
def threadRound (s : Core) (ret : Int) : Core :=
  if ret ≠ 0 then
    if maxSuccessiveErrors < s.successiveErrors + 1 then
      { s with pc := .idle, successiveErrors := 0, resets := s.resets + 1 }
    else { s with pc := .idle, successiveErrors := s.successiveErrors + 1 }
  else { s with pc := .idle, successiveErrors := 0 }

/-- `get_work`, and what the thread makes of the work. -/
def getWork (s : Core) : Core :=
  match s.workList with
  | [] => { s with pc := .preRead }
  | .completion k :: rest => { s with workList := rest, pc := .completing k }
  | .tx w :: rest => { s with workList := rest, pc := .tx w }

/-- One step of `hsspi_thread_fn`. -/
def threadStep (s : Core) (a : Answer) : Core :=
  match s.pc with
  -- `is_txrx_waiting`: the locked part, then the test of `SS_IRQ`
  | .idle => { s with pc := .sampled s.workList.isEmpty s.state }
  | .sampled isEmpty state =>
    { s with pc := if !isEmpty || (state == .running && s.ssIrq) then .woken else .idle }
  | .woken => getWork s
  | .completing k => { s with completed := k :: s.completed, pc := .idle }
  -- `hsspi_tx`
  | .tx w => { s with pc := .txXfer w s.ssIrq, xfers := s.xfers + 1 }
  | .txXfer w prd => { s with pc := .txDone w prd a.ret a.soc }
  | .txDone w prd ret soc =>
    let s := { s with sent := s.sent ++ [(w, ret)] }
    if ret = 0 ∧ prd = true then { s with pc := .rx soc.ul soc.length } else threadRound s ret
  -- `hsspi_pre_read`
  | .preRead => { s with pc := .preXfer, xfers := s.xfers + 1 }
  | .preXfer => if a.ret = 0 then { s with pc := .rx a.soc.ul a.soc.length } else threadRound s a.ret
  -- `hsspi_rx`
  | .rx ul length =>
    let layer := if layerIdIsValid ul then s.layers ul.toNat else none
    { s with pc := .rxFound ul length (layer.map fun layer => ⟨layer, s.clears⟩) }
  | .rxFound ul length layer =>
    match layer, a.blk with
    | some use, some blk =>
      { s with gets := s.gets ++ [(use.layer, blk)], pc := .rxGot ul length (some ⟨use, blk⟩) }
    | _, _ => { s with pc := .rxGot ul length none }
  | .rxGot ul length got => { s with pc := .rxXfer ul length got, xfers := s.xfers + 1 }
  | .rxXfer ul length got => { s with pc := .rxDone ul length got a.ret a.soc }
  | .rxDone ul length got ret soc =>
    match got with
    | some g => { s with received := s.received ++ [(g.use.layer, g.blk, ret)], pc := .rxCheck ul length ret soc }
    | none => { s with pc := .rxCheck ul length ret soc }
  | .rxCheck ul length ret soc =>
    if ret ≠ 0 then threadRound s ret
    else
      let ok := checkSocFlag soc.flags false && soc.ul == ul && soc.length == length
      let s := if soc.flags &&& stcSocOdw == 0 then { s with ssIrq := false } else s
      threadRound s (if ok then 0 else -1)

/-! The system. -/

inductive CoreAct where
  | send (layer : Option LayerRef) (blk : Option Nat) (alloc : Bool)
  | register (layer : LayerRef)
  | unregister (i : Nat) (layer : LayerRef)
  | start
  | stop (i : Nat)
  | ret (i : Nat)
  | ssIrq
  | thread (a : Answer)

/-- The call of `hsspi_send`, with its outcome recorded under its ticket. -/
def sendStep (s : Core) (layer : Option LayerRef) (blk : Option Nat) (alloc : Bool) : Core :=
  let (rc, s') := hsspiSend s layer blk alloc
  { s' with
    sends := s.sends + 1
    rejected := if rc = 0 then s.rejected else s.rejected ++ [s.sends] }

/-- `wait_for_completion` returns to the caller `i`. -/
def retStep (s : Core) (i : Nat) : Option Core :=
  match (s.callers i).waits with
  | some k => if k ∈ s.completed then some { s with callers := Function.update s.callers i .idle } else none
  | none => none

/-- A call by `i`, which must not be inside another one. -/
def ifIdle (s : Core) (i : Nat) (s' : Core) : Option Core :=
  match s.callers i with
  | .idle => some s'
  | _ => none

def coreStep (s : Core) : CoreAct → Option Core
  | .send layer blk alloc => some (sendStep s layer blk alloc)
  | .register layer => some (hsspiRegister s layer).2
  | .unregister i layer => ifIdle s i (hsspiUnregister s i layer).2
  | .start => some (hsspiStart s)
  | .stop i => ifIdle s i (hsspiStop s i)
  | .ret i => retStep s i
  | .ssIrq => some { s with ssIrq := true }
  | .thread a => some (threadStep s a)

/-! What a call can do. -/

/-- The `n`-th call of `hsspi_send` is accepted. -/
def acceptTx (s : Core) (w : TxWork) : Core :=
  { s with workList := s.workList ++ [.tx w], accepted := s.accepted ++ [w], sends := s.sends + 1 }

/-- The call of `hsspi_send` returns an error. -/
def rejectTx (s : Core) : Core :=
  { s with sends := s.sends + 1, rejected := s.rejected ++ [s.sends] }

theorem sendStep_cases (s : Core) (layer : Option LayerRef) (blk : Option Nat) (alloc : Bool) :
    sendStep s layer blk alloc = rejectTx s ∨
    ∃ l b, sendStep s layer blk alloc = acceptTx s ⟨s.sends, l, b⟩ ∧ layerIdIsValid l.id = true ∧
      s.state = .running ∧ s.layers l.id.toNat = some l := by
  have reject : ∀ rc : Int, rc ≠ 0 → hsspiSend s layer blk alloc = (rc, s) →
      sendStep s layer blk alloc = rejectTx s := by
    intro rc hrc h
    simp [sendStep, h, hrc, rejectTx]
  cases layer with
  | none => exact .inl (reject eInval (by decide) rfl)
  | some l =>
    cases blk with
    | none => exact .inl (reject eInval (by decide) rfl)
    | some b =>
      by_cases hid : layerIdIsValid l.id = true
      · by_cases ha : alloc = true
        · by_cases hs : s.state = .running
          · by_cases hl : s.layers l.id.toNat = some l
            · right
              refine ⟨l, b, ?_, hid, hs, hl⟩
              simp [sendStep, hsspiSend, hid, ha, hs, hl, acceptTx]
            · exact .inl (reject eInval (by decide) (by simp [hsspiSend, hid, ha, hs, hl]))
          · exact .inl (reject eAgain (by decide) (by simp [hsspiSend, hid, ha, hs]))
        · exact .inl (reject eNoMem (by decide) (by simp [hsspiSend, hid, ha]))
      · exact .inl (reject eInval (by decide) (by simp [hsspiSend, hid]))

theorem hsspiRegister_cases (s : Core) (layer : LayerRef) :
    hsspiRegister s layer = (eInval, s) ∨ hsspiRegister s layer = (eBusy, s) ∨
    hsspiRegister s layer = (0, { s with layers := Function.update s.layers layer.id.toNat (some layer) }) ∧
      layerIdIsValid layer.id = true ∧ s.layers layer.id.toNat = none := by
  unfold hsspiRegister
  by_cases hid : layerIdIsValid layer.id = true
  · cases hl : s.layers layer.id.toNat with
    | none => simp [hid]
    | some l => simp [hid]
  · simp [hid]

theorem hsspiUnregister_cases (s : Core) (i : Nat) (layer : LayerRef) :
    hsspiUnregister s i layer = (eInval, s) ∨
    hsspiUnregister s i layer = (0, { s with
      layers := Function.update s.layers layer.id.toNat none
      workList := s.workList ++ [.completion (unregisterCompletion s)]
      callers := Function.update s.callers i (.unregister layer (unregisterCompletion s))
      completions := s.completions + 1
      clears := s.clears + 1 }) ∧ s.layers layer.id.toNat = some layer := by
  unfold hsspiUnregister
  by_cases hid : layerIdIsValid layer.id = true
  · by_cases hl : s.layers layer.id.toNat = some layer
    · exact .inr ⟨by simp [hid, hl], hl⟩
    · simp [hid, hl]
  · simp [hid]

theorem ifIdle_some {s s' t : Core} {i : Nat} (h : ifIdle s i s' = some t) :
    s.callers i = .idle ∧ t = s' := by
  unfold ifIdle at h
  split at h
  · next hc =>
    cases h
    exact ⟨hc, rfl⟩
  · cases h

theorem retStep_some {s t : Core} {i : Nat} (h : retStep s i = some t) :
    ∃ k, (s.callers i).waits = some k ∧ k ∈ s.completed ∧
      t = { s with callers := Function.update s.callers i .idle } := by
  unfold retStep at h
  split at h
  · next k hk =>
    split at h
    · next hc =>
      cases h
      exact ⟨k, hk, hc, rfl⟩
    · cases h
  · cases h

/-- What each action does to the core. -/
inductive CoreEffect (s : Core) : CoreAct → Core → Prop
  | reject {layer : Option LayerRef} {blk : Option Nat} {alloc : Bool} :
      CoreEffect s (.send layer blk alloc) (rejectTx s)
  | accept {layer : Option LayerRef} {blk : Option Nat} {alloc : Bool} (l : LayerRef) (b : Nat) :
      s.state = .running → s.layers l.id.toNat = some l →
      CoreEffect s (.send layer blk alloc) (acceptTx s ⟨s.sends, l, b⟩)
  | register {layer : LayerRef} (layers : Nat → Option LayerRef) :
      (∀ n, n ≠ layer.id.toNat → layers n = s.layers n) →
      CoreEffect s (.register layer) { s with layers := layers }
  | notRegistered {i : Nat} {layer : LayerRef} : s.callers i = .idle → CoreEffect s (.unregister i layer) s
  | unregister {i : Nat} {layer : LayerRef} : s.callers i = .idle → s.layers layer.id.toNat = some layer →
      CoreEffect s (.unregister i layer) { s with
        layers := Function.update s.layers layer.id.toNat none
        workList := s.workList ++ [.completion (unregisterCompletion s)]
        callers := Function.update s.callers i (.unregister layer (unregisterCompletion s))
        completions := s.completions + 1
        clears := s.clears + 1 }
  | start : CoreEffect s .start (hsspiStart s)
  | stop {i : Nat} : s.callers i = .idle → CoreEffect s (.stop i) (hsspiStop s i)
  | ret {i : Nat} (k : Completion) : (s.callers i).waits = some k → k ∈ s.completed →
      CoreEffect s (.ret i) { s with callers := Function.update s.callers i .idle }
  | ssIrq : CoreEffect s .ssIrq { s with ssIrq := true }
  | thread {a : Answer} : CoreEffect s (.thread a) (threadStep s a)

/-- Every step of the core is one of these. -/
theorem coreStep_effect {s s' : Core} {a : CoreAct} (h : coreStep s a = some s') : CoreEffect s a s' := by
  cases a with
  | send layer blk alloc =>
    cases h
    rcases sendStep_cases s layer blk alloc with heq | ⟨l, b, heq, _, hrun, hl⟩ <;> rw [heq]
    · exact .reject
    · exact .accept l b hrun hl
  | register layer =>
    cases h
    rcases hsspiRegister_cases s layer with heq | heq | ⟨heq, _⟩ <;> rw [heq]
    · exact .register s.layers fun _ _ => rfl
    · exact .register s.layers fun _ _ => rfl
    · exact .register _ fun _ hn => Function.update_of_ne hn _ _
  | unregister i layer =>
    obtain ⟨hi, rfl⟩ := ifIdle_some h
    rcases hsspiUnregister_cases s i layer with heq | ⟨heq, hl⟩ <;> rw [heq]
    · exact .notRegistered hi
    · exact .unregister hi hl
  | start =>
    cases h
    exact .start
  | stop i =>
    obtain ⟨hi, rfl⟩ := ifIdle_some h
    exact .stop hi
  | ret i =>
    obtain ⟨k, hk, hdone, rfl⟩ := retStep_some h
    exact .ret k hk hdone
  | ssIrq =>
    cases h
    exact .ssIrq
  | thread a =>
    cases h
    exact .thread

/-! What a step of the thread leaves alone. -/

/-- The end of a round moves the thread, and counts. -/
theorem threadRound_moves (s : Core) (ret : Int) : ∃ successiveErrors resets, threadRound s ret =
    { s with pc := .idle, successiveErrors := successiveErrors, resets := resets } := by
  unfold threadRound
  split
  · split
    · exact ⟨_, _, rfl⟩
    · exact ⟨_, s.resets, rfl⟩
  · exact ⟨_, s.resets, rfl⟩

@[simp] theorem threadRound_pc (s : Core) (ret : Int) : (threadRound s ret).pc = .idle := by
  obtain ⟨_, _, h⟩ := threadRound_moves s ret
  rw [h]

/-- What any step of the thread leaves alone. -/
structure ThreadFrame (s s' : Core) : Prop where
  layers : s'.layers = s.layers
  state : s'.state = s.state
  callers : s'.callers = s.callers
  sends : s'.sends = s.sends
  accepted : s'.accepted = s.accepted
  rejected : s'.rejected = s.rejected
  completions : s'.completions = s.completions
  clears : s'.clears = s.clears
  starts : s'.starts = s.starts
  completed : ∀ k ∈ s.completed, k ∈ s'.completed

namespace ThreadFrame

variable {s : Core}

theorem moved {workList : List Work} {ssIrq : Bool} {pc : ThreadPc} {successiveErrors xfers resets : Nat}
    {sent : List (TxWork × Int)} {gets : List (LayerRef × Nat)} {received : List (LayerRef × Nat × Int)} :
    ThreadFrame s { s with
      workList := workList, ssIrq := ssIrq, pc := pc, successiveErrors := successiveErrors, xfers := xfers
      resets := resets, sent := sent, gets := gets, received := received } :=
  ⟨rfl, rfl, rfl, rfl, rfl, rfl, rfl, rfl, rfl, fun _ h => h⟩

theorem round {sent : List (TxWork × Int)} {ssIrq : Bool} (ret : Int) :
    ThreadFrame s (threadRound { s with sent := sent, ssIrq := ssIrq } ret) := by
  obtain ⟨_, _, h⟩ := threadRound_moves { s with sent := sent, ssIrq := ssIrq } ret
  rw [h]
  exact moved

end ThreadFrame

theorem threadStep_frame (s : Core) (a : Answer) : ThreadFrame s (threadStep s a) := by
  unfold threadStep
  cases s.pc with
  | woken =>
    show ThreadFrame s (getWork s)
    unfold getWork
    split <;> exact .moved
  | completing k =>
    exact ⟨rfl, rfl, rfl, rfl, rfl, rfl, rfl, rfl, rfl, fun _ h => List.mem_cons_of_mem _ h⟩
  | txDone w prd ret soc =>
    dsimp only
    split
    · exact .moved
    · exact .round ret
  | preXfer =>
    dsimp only
    split
    · exact .moved
    · exact .round a.ret
  | rxFound ul length layer =>
    dsimp only
    split <;> exact .moved
  | rxDone ul length got ret soc =>
    dsimp only
    split <;> exact .moved
  | rxCheck ul length ret soc =>
    dsimp only
    split
    · exact .round ret
    · split
      · exact .round _
      · exact .round _
  | _ => exact .moved

/-- The thread neither takes work out of the list nor completes anybody. -/
structure QueueFrame (s s' : Core) : Prop where
  workList : s'.workList = s.workList
  completed : s'.completed = s.completed
  pc : ∀ k, s'.pc ≠ .completing k

namespace QueueFrame

variable {s : Core}

theorem moved {ssIrq : Bool} {pc : ThreadPc} {xfers : Nat} {sent : List (TxWork × Int)} {gets : List (LayerRef × Nat)}
    {received : List (LayerRef × Nat × Int)} (hpc : ∀ k, pc ≠ .completing k) : QueueFrame s { s with
      ssIrq := ssIrq, pc := pc, xfers := xfers, sent := sent, gets := gets, received := received } :=
  ⟨rfl, rfl, hpc⟩

theorem round {sent : List (TxWork × Int)} {ssIrq : Bool} (ret : Int) :
    QueueFrame s (threadRound { s with sent := sent, ssIrq := ssIrq } ret) := by
  obtain ⟨_, _, h⟩ := threadRound_moves { s with sent := sent, ssIrq := ssIrq } ret
  rw [h]
  exact ⟨rfl, rfl, fun _ h => nomatch h⟩

end QueueFrame

/-- Only after it has woken up it takes work out, and it completes only what it has taken out. -/
theorem threadStep_queue {s : Core} (a : Answer) (hw : s.pc ≠ .woken) (hc : ∀ k, s.pc ≠ .completing k) :
    QueueFrame s (threadStep s a) := by
  unfold threadStep
  cases hpc : s.pc with
  | woken => exact absurd hpc hw
  | completing k => exact absurd hpc (hc k)
  | sampled isEmpty state =>
    refine .moved fun k => ?_
    split <;> exact fun h => nomatch h
  | txDone w prd ret soc =>
    dsimp only
    split
    · exact .moved fun _ h => nomatch h
    · exact .round ret
  | preXfer =>
    dsimp only
    split
    · exact .moved fun _ h => nomatch h
    · exact .round a.ret
  | rxFound ul length layer =>
    dsimp only
    split <;> exact .moved fun _ h => nomatch h
  | rxDone ul length got ret soc =>
    dsimp only
    split <;> exact .moved fun _ h => nomatch h
  | rxCheck ul length ret soc =>
    dsimp only
    split
    · exact .round ret
    · split
      · exact .round _
      · exact .round _
  | _ => exact .moved fun _ h => nomatch h

/-- Only `get_work` takes something out of the work list. -/
theorem threadStep_workList {s : Core} (a : Answer) (h : s.pc ≠ .woken) :
    (threadStep s a).workList = s.workList := by
  by_cases hc : ∃ k, s.pc = .completing k
  · obtain ⟨k, hk⟩ := hc
    simp only [threadStep, hk]
  · exact (threadStep_queue a h fun k hk => hc ⟨k, hk⟩).workList

theorem getWork_workList (s : Core) : (getWork s).workList = s.workList.tail := by
  unfold getWork
  split
  · next hw => rw [hw, List.tail_nil]
  · next hw => rw [hw, List.tail_cons]
  · next hw => rw [hw, List.tail_cons]

/-! What a step of the system leaves alone. -/

section Step
variable {s s' : Core} {a : CoreAct}

theorem coreStep_pc (ha : ∀ b, a ≠ .thread b) (h : coreStep s a = some s') : s'.pc = s.pc := by
  cases coreStep_effect h with
  | thread => exact absurd rfl (ha _)
  | _ => rfl

theorem coreStep_starts (ha : a ≠ .start) (h : coreStep s a = some s') : s'.starts = s.starts := by
  cases coreStep_effect h with
  | start => exact absurd rfl ha
  | thread => exact (threadStep_frame s _).starts
  | _ => rfl

theorem coreStep_state (ha : a ≠ .start) (hstop : ∀ i, a ≠ .stop i) (h : coreStep s a = some s') :
    s'.state = s.state := by
  cases coreStep_effect h with
  | start => exact absurd rfl ha
  | stop _ => exact absurd rfl (hstop _)
  | thread => exact (threadStep_frame s _).state
  | _ => rfl

end Step

/-! A round that nobody interrupts: the steps of the thread one after the other, the answers
of the device being those of `spi_xfer` to its attempts, do what the functions of the
exchange compute in one piece. -/

section Rounds

/-- The table with what the `get` of each layer answers. -/
def layersOf (get : LayerRef → UInt16 → Option Block) (layers : Nat → Option LayerRef) (i : Nat) : Option Layer :=
  (layers i).map fun layer => ⟨layer.id, get layer⟩

variable (get : LayerRef → UInt16 → Option Block) (env env' : Nat → Attempt)

/-- The layer that `hsspi_rx` uses, and the block it gets. -/
def rxUsed (s : Core) (ul : UInt8) (length : UInt16) : Option (LayerRef × Block) :=
  (if layerIdIsValid ul then s.layers ul.toNat else none).bind fun layer => (get layer length).map fun blk => (layer, blk)

/-- The answer to a step that looks at none. -/
def noAnswer : Answer := ⟨0, ⟨0, 0, 0⟩, none⟩

/-- The answer to the end of a transfer. -/
def xferAnswer (x : SpiXfer) : Answer := ⟨x.ret, x.soc, none⟩

/-- The answers to the steps of `hsspi_rx`. -/
def rxAnswers (s : Core) (ul : UInt8) (length : UInt16) : List Answer :=
  [noAnswer, ⟨0, ⟨0, 0, 0⟩, (rxUsed get s ul length).map fun use => use.2.data⟩, noAnswer, xferAnswer (spiXfer env),
    noAnswer, noAnswer]

/-- What a call of `hsspi_rx` leaves behind. -/
def afterRx (s : Core) (used : Option (LayerRef × Block)) (ret : Int) (r : HsspiRx) : Core :=
  threadRound { s with
    xfers := s.xfers + 1
    gets := s.gets ++ used.toList.map fun use => (use.1, use.2.data)
    received := s.received ++ used.toList.map fun use => (use.1, use.2.data, ret)
    ssIrq := r.ssIrq } r.ret

variable {s : Core} {ul : UInt8} {length : UInt16} {w : TxWork}

/-- What the steps record of the layer is what `hsspi_rx` does to it. -/
theorem hsspiRx_used : (hsspiRx (layersOf get s.layers) env s.ssIrq ul length).blk = (rxUsed get s ul length).map Prod.snd ∧
    (hsspiRx (layersOf get s.layers) env s.ssIrq ul length).received =
      (rxUsed get s ul length).map fun _ => (spiXfer env).ret := by
  have hblk : ((if layerIdIsValid ul then layersOf get s.layers ul.toNat else none).bind fun layer => layer.get length) =
      (rxUsed get s ul length).map Prod.snd := by
    unfold rxUsed layersOf
    split
    · cases s.layers ul.toNat <;> simp
    · rfl
  have hreceived : ((rxUsed get s ul length).map Prod.snd).map (fun _ => (spiXfer env).ret) =
      (rxUsed get s ul length).map fun _ => (spiXfer env).ret := by
    rw [Option.map_map]
    rfl
  unfold hsspiRx
  dsimp only
  rw [hblk, hreceived]
  split <;> exact ⟨rfl, rfl⟩

/-- `hsspi_rx` up to its checks. -/
def beforeCheck (s : Core) (ul : UInt8) (length : UInt16) (used : Option (LayerRef × Block)) (x : SpiXfer) : Core :=
  { s with
    pc := .rxCheck ul length x.ret x.soc
    xfers := s.xfers + 1
    gets := s.gets ++ used.toList.map fun use => (use.1, use.2.data)
    received := s.received ++ used.toList.map fun use => (use.1, use.2.data, x.ret) }

theorem rx_reaches_check (hpc : s.pc = .rx ul length) : ((rxAnswers get env s ul length).take 5).foldl threadStep s =
    beforeCheck s ul length (rxUsed get s ul length) (spiXfer env) := by
  unfold rxAnswers rxUsed beforeCheck
  cases hfound : (if layerIdIsValid ul then s.layers ul.toNat else none) with
  | none => simp [threadStep, hpc, hfound, xferAnswer]
  | some layer =>
    cases hblk : get layer length with
    | none => simp [threadStep, hpc, hfound, hblk, xferAnswer]
    | some blk => simp [threadStep, hpc, hfound, hblk, xferAnswer]

/-- The checks, which are made on `hsspi->soc`. -/
theorem rxCheck_round (used : Option (LayerRef × Block)) (a : Answer) :
    threadStep (beforeCheck s ul length used (spiXfer env)) a =
      afterRx s used (spiXfer env).ret (hsspiRx (layersOf get s.layers) env s.ssIrq ul length) := by
  by_cases hret : (spiXfer env).ret = 0
  · have hok : (if (spiXfer env).soc.ul ≠ ul ∨ (spiXfer env).soc.length ≠ length then (-1 : Int)
          else if !checkSocFlag (spiXfer env).soc.flags false then -1 else (spiXfer env).ret) =
        if checkSocFlag (spiXfer env).soc.flags false && (spiXfer env).soc.ul == ul && (spiXfer env).soc.length == length
          then 0 else -1 := by
      cases checkSocFlag (spiXfer env).soc.flags false <;> by_cases hul : (spiXfer env).soc.ul = ul <;>
        by_cases hlen : (spiXfer env).soc.length = length <;> simp [hul, hlen, hret]
    have hirq : (if (spiXfer env).soc.flags &&& stcSocOdw == 0 then false else s.ssIrq) =
        (s.ssIrq && !((spiXfer env).soc.flags &&& stcSocOdw == 0 && s.ssIrq)) := by
      cases (spiXfer env).soc.flags &&& stcSocOdw == 0 <;> cases s.ssIrq <;> rfl
    unfold hsspiRx afterRx
    simp only [hret, ne_eq, not_true_eq_false, if_false]
    simp only [hret] at hok
    rw [hok, ← hirq]
    simp only [threadStep, beforeCheck, hret]
    cases (spiXfer env).soc.flags &&& stcSocOdw == 0 <;> simp [threadRound]
  · simp [threadStep, beforeCheck, afterRx, hsspiRx, threadRound, hret]

theorem rx_round (hpc : s.pc = .rx ul length) : (rxAnswers get env s ul length).foldl threadStep s =
    afterRx s (rxUsed get s ul length) (spiXfer env).ret (hsspiRx (layersOf get s.layers) env s.ssIrq ul length) := by
  have hsplit : rxAnswers get env s ul length = (rxAnswers get env s ul length).take 5 ++ [noAnswer] := rfl
  rw [hsplit, List.foldl_append, rx_reaches_check get env hpc]
  exact rxCheck_round get env _ noAnswer

/-- Where the thread has been does not matter at the end of its round. -/
theorem afterRx_pc (pc : ThreadPc) (used : Option (LayerRef × Block)) (ret : Int) (r : HsspiRx) :
    afterRx { s with pc := pc } used ret r = afterRx s used ret r := by
  unfold afterRx threadRound
  split
  · split <;> rfl
  · rfl

/-- What a call of `hsspi_tx` or `hsspi_pre_read` leaves behind, with the read that may follow. -/
def afterTx (s : Core) (used : Option (LayerRef × Block)) (ret : Int) (r : HsspiTx) : Core :=
  match r.rx with
  | none => threadRound s r.ret
  | some rx => afterRx s used ret rx

/-- The answers to the steps of that read. -/
def readAnswers (s : Core) (r : HsspiTx) : List Answer :=
  if r.rx.isSome then rxAnswers get env' s (spiXfer env).soc.ul (spiXfer env).soc.length else []

/-- The read that follows such a call. -/
theorem read_round (s1 : Core) {r : HsspiTx} (hlayers : s1.layers = s.layers) (hirq : s1.ssIrq = s.ssIrq)
    (hrx : r.rx = some (hsspiRx (layersOf get s.layers) env' s.ssIrq (spiXfer env).soc.ul (spiXfer env).soc.length)) :
    (readAnswers get env env' s r).foldl threadStep { s1 with pc := .rx (spiXfer env).soc.ul (spiXfer env).soc.length } =
      afterTx s1 (rxUsed get s (spiXfer env).soc.ul (spiXfer env).soc.length) (spiXfer env').ret r := by
  have hused : ∀ ul length, rxUsed get { s1 with pc := .rx ul length } ul length = rxUsed get s ul length := by
    intro ul length
    rw [rxUsed, rxUsed, hlayers]
  have hanswers : ∀ ul length,
      rxAnswers get env' { s1 with pc := .rx ul length } ul length = rxAnswers get env' s ul length := by
    intro ul length
    rw [rxAnswers, rxAnswers, hused]
  simp only [readAnswers, afterTx, hrx, Option.isSome_some, if_true]
  rw [← hanswers, rx_round get env' rfl, afterRx_pc, hused, ← hlayers, ← hirq]

/-- Uninterrupted, the thread does with a TX work what `hsspi_tx` does. -/
theorem tx_round {blk : Block} (hpc : s.pc = .tx w) :
    let r := hsspiTx (layersOf get s.layers) env env' s.ssIrq ⟨w.layer.id, get w.layer⟩ blk
    ([noAnswer, xferAnswer (spiXfer env), noAnswer] ++ readAnswers get env env' s r).foldl threadStep s =
      afterTx { s with xfers := s.xfers + 1, sent := s.sent ++ [(w, (spiXfer env).ret)] }
        (rxUsed get s (spiXfer env).soc.ul (spiXfer env).soc.length) (spiXfer env').ret r := by
  intro r
  have hwrite : stcHostWr &&& stcHostPrd = 0 := by decide
  have hboth : (stcHostWr ||| stcHostPrd) &&& stcHostPrd ≠ 0 := by decide
  rw [List.foldl_append]
  by_cases hgo : (spiXfer env).ret = 0 ∧ s.ssIrq = true
  · have hrx : r.rx = some (hsspiRx (layersOf get s.layers) env' s.ssIrq (spiXfer env).soc.ul (spiXfer env).soc.length) := by
      simp [r, hsspiTx, hboth, hgo.1, hgo.2]
    have hxfer : [noAnswer, xferAnswer (spiXfer env), noAnswer].foldl threadStep s =
        { s with
          pc := .rx (spiXfer env).soc.ul (spiXfer env).soc.length
          xfers := s.xfers + 1
          sent := s.sent ++ [(w, (spiXfer env).ret)] } := by
      simp [threadStep, hpc, xferAnswer, hgo.1, hgo.2]
    rw [hxfer]
    exact read_round get env env'
      { s with xfers := s.xfers + 1, sent := s.sent ++ [(w, (spiXfer env).ret)] } rfl rfl hrx
  · have hrx : r.rx = none ∧ r.ret = (spiXfer env).ret := by
      by_cases hret : (spiXfer env).ret = 0
      · have hirq : s.ssIrq = false := by simpa [hret] using hgo
        simp [r, hsspiTx, hwrite, hret, hirq]
      · simp [r, hsspiTx, hret]
    rw [readAnswers, hrx.1, afterTx, hrx.1, hrx.2]
    simp [threadStep, hpc, xferAnswer, hgo, threadRound]

/-- The same of a round without a work, and `hsspi_pre_read`. -/
theorem preRead_round (hpc : s.pc = .preRead) :
    let r := hsspiPreRead (layersOf get s.layers) env env' s.ssIrq
    ([noAnswer, xferAnswer (spiXfer env)] ++ readAnswers get env env' s r).foldl threadStep s =
      afterTx { s with xfers := s.xfers + 1 } (rxUsed get s (spiXfer env).soc.ul (spiXfer env).soc.length)
        (spiXfer env').ret r := by
  intro r
  rw [List.foldl_append]
  by_cases hret : (spiXfer env).ret = 0
  · have hrx : r.rx = some (hsspiRx (layersOf get s.layers) env' s.ssIrq (spiXfer env).soc.ul (spiXfer env).soc.length) := by
      simp [r, hsspiPreRead, hret]
    have hxfer : [noAnswer, xferAnswer (spiXfer env)].foldl threadStep s =
        { s with pc := .rx (spiXfer env).soc.ul (spiXfer env).soc.length, xfers := s.xfers + 1 } := by
      simp [threadStep, hpc, xferAnswer, hret]
    rw [hxfer]
    exact read_round get env env' { s with xfers := s.xfers + 1 } rfl rfl hrx
  · have hrx : r.rx = none ∧ r.ret = (spiXfer env).ret := by simp [r, hsspiPreRead, hret]
    rw [readAnswers, hrx.1, afterTx, hrx.1, hrx.2]
    simp [threadStep, hpc, xferAnswer, hret, threadRound]

end Rounds

end Qm35.Hsspi
