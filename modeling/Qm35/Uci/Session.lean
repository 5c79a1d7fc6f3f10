import Qm35.Hsspi.Core
import Qm35.Uci.Model

/- Sessions of `/dev/uci`. `uci_open` registers the UCI layer and `uci_release`
   unregisters it; in between the thread of the core hands received blocks to
   `uci_received`, which queues their packets, and `uci_read` takes them from the
   queue. The core runs as in `Hsspi.Core`, with other layers and callers beside.

   `uci_unregistered` is there to discard what is left in the queue, but neither
   `hsspi_unregister` nor anything else calls `ops->unregistered`, and
   `hsspi_unregister` does not wait before it clears the slot for a reception that
   is under way. A packet carries the number of the session in which its block was
   received, which is a record of the run. -/
namespace Qm35.Uci

open Qm35.Hsspi

/-- `UL_UCI_APP` -/
def ulUciApp : UInt8 := 2

/-- `uci_layer.hlayer` -/
def uciLayer : LayerRef := ⟨0, ulUciApp⟩

/-- A packet in `rx_list`. -/
structure Queued where
  packet : UciPacket
  session : Nat
deriving DecidableEq

/-- A packet `uci_read` returned, and the session of the reader. -/
structure Returned where
  queued : Queued
  session : Nat
deriving DecidableEq

/-- `uci_received` under way: its packet and block, `readn`, and the session it was called in. -/
structure Receiving where
  packet : UciPacket
  blk : Block
  readn : Nat
  session : Nat

/-- `opened`: a file is open and not being released. `sessions` counts the files opened. -/
structure Session where
  core : Core
  opened : Bool
  sessions : Nat
  rx : Option Receiving
  rxList : List Queued
  returned : List Returned

def sessionInit : Session := ⟨coreInit, false, 0, none, [], []⟩

inductive SessionAct where
  | uciOpen
  | uciRelease (i : Nat)
  | uciRead (maxSize : Nat)
  /-- The thread, with the data of a block it has received for UCI. -/
  | thread (a : Answer) (data : List UInt8)
  | split (alloc : Bool)
  /-- Anything else that calls the core. -/
  | core (a : CoreAct)

/-- `uci_open` -/
def openStep (s : Session) : Session :=
  let (rc, core) := hsspiRegister s.core uciLayer
  if rc = 0 then { s with core := core, opened := true, sessions := s.sessions + 1 } else s

/-- `uci_release` by `i`, up to the wait of `hsspi_unregister`. -/
def releaseStep (s : Session) (i : Nat) : Option Session :=
  if s.opened then
    (coreStep s.core (.unregister i uciLayer)).map fun core => { s with core := core, opened := false }
  else none

/-- `uci_read` on the open file. -/
def readStep (s : Session) (maxSize : Nat) : Option Session :=
  if s.opened then
    match s.rxList with
    | [] => some s
    | q :: rest =>
      if maxSize < q.packet.length then some s
      else some { s with rxList := rest, returned := s.returned ++ [⟨q, s.sessions⟩] }
  else none

/-- The length of the block that `received` of the UCI layer is about to be called with, with
status 0. -/
def deliveryTo (s : Session) : Option (UInt16 × Nat) :=
  match s.core.pc with
  | .rxDone _ length (some g) ret _ => if g.use.layer = uciLayer ∧ ret = 0 then some (length, g.blk) else none
  | _ => none

/-- A step of the thread outside `uci_received`, or its call of it. With another status than 0
`uci_received` only frees the packet. -/
def sessionThread (s : Session) (a : Answer) (data : List UInt8) : Option Session :=
  match s.rx with
  | some _ => none
  | none =>
    match deliveryTo s with
    | none => some { s with core := threadStep s.core a }
    | some (length, buf) =>
      if h : data.length = length.toNat then
        let blk : Block := ⟨buf, data, length.toNat, h, length.toNat_lt⟩
        some { s with core := threadStep s.core a, rx := some ⟨uciPacketAlloc blk, blk, 0, s.sessions⟩ }
      else none

/-- One pass of the loop of `uci_received`, or what follows it. -/
def receiving (s : Session) (alloc : Bool) : Option Session :=
  match s.rx with
  | none => none
  | some r =>
    let stop := { s with rx := none, rxList := s.rxList ++ [⟨uciLastPacket r.packet r.blk r.readn, r.session⟩] }
    match uciNextPayload r.blk r.readn with
    | none => none
    | some none => some stop
    | some (some payloadSize) =>
      if alloc then
        let next := uciSplitPacket r.blk r.readn payloadSize
        some { s with
          rx := some { r with readn := sizeT (r.readn + next.length) }
          rxList := s.rxList ++ [⟨next, r.session⟩] }
      else some stop

/-- The calls of the core that are not for the UCI layer. -/
def othersCall : CoreAct → Bool
  | .register layer => layer.id != ulUciApp
  | .unregister _ layer => layer.id != ulUciApp
  | .thread _ => false
  | _ => true

def sessionStep (s : Session) : SessionAct → Option Session
  | .uciOpen => some (openStep s)
  | .uciRelease i => releaseStep s i
  | .uciRead maxSize => readStep s maxSize
  | .thread a data => sessionThread s a data
  | .split alloc => receiving s alloc
  | .core a => if othersCall a then (coreStep s.core a).map fun core => { s with core := core } else none

/-! The property and the condition. -/

/-- A release finds nothing left to read and no `uci_received` under way, and a block is
received only while a session is open. -/
def NothingCrosses (s : Session) : SessionAct → Prop
  | .uciRelease _ => s.rxList = [] ∧ s.rx.isNone = true
  | .thread _ _ => (deliveryTo s).isSome = true → s.opened = true
  | _ => True

instance (s : Session) (a : SessionAct) : Decidable (NothingCrosses s a) :=
  match a with
  | .uciRelease _ => inferInstanceAs (Decidable (s.rxList = [] ∧ s.rx.isNone = true))
  | .thread _ _ => inferInstanceAs (Decidable ((deliveryTo s).isSome = true → s.opened = true))
  | .uciOpen => inferInstanceAs (Decidable True)
  | .uciRead _ => inferInstanceAs (Decidable True)
  | .split _ => inferInstanceAs (Decidable True)
  | .core _ => inferInstanceAs (Decidable True)

/-! The invariant. -/

structure InSession (s : Session) : Prop where
  slot : s.opened = true → s.core.layers ulUciApp.toNat = some uciLayer
  returned : ∀ r ∈ s.returned, r.queued.session = r.session
  queued : ∀ q ∈ s.rxList, q.session = s.sessions
  receiving : ∀ r, s.rx = some r → r.session = s.sessions
  closed : s.opened = false → s.rxList = [] ∧ s.rx = none

namespace InSession

variable {s s' : Session}

theorem init : InSession sessionInit := by
  refine ⟨(fun h => nomatch h), ?_, ?_, ?_, fun _ => ⟨rfl, rfl⟩⟩
  · intro r hr
    cases hr
  · intro q hq
    cases hq
  · intro r hr
    cases hr

/-- The core goes on, with the UCI layer where it was. -/
theorem inCore {core : Core} (I : InSession s)
    (hslot : core.layers ulUciApp.toNat = s.core.layers ulUciApp.toNat) :
    InSession { s with core := core } :=
  ⟨fun h => hslot.trans (I.slot h), I.returned, I.queued, I.receiving, I.closed⟩

/-- The UCI layer is registered only while no file is open, and then nothing is queued. -/
theorem openStep (I : InSession s) : InSession (openStep s) := by
  rcases hsspiRegister_cases s.core uciLayer with heq | heq | ⟨heq, _, hnone⟩
  · simp only [Uci.openStep, heq, eInval]
    exact I
  · simp only [Uci.openStep, heq, eBusy]
    exact I
  -- registered means that the slot was free, which it is not while the file is open
  · have hclosed : s.opened = false := by
      cases ho : s.opened with
      | false => rfl
      | true =>
        have := I.slot ho
        rw [show ulUciApp = uciLayer.id from rfl, hnone] at this
        cases this
    obtain ⟨hlist, hrx⟩ := I.closed hclosed
    simp only [Uci.openStep, heq, if_true]
    have hself : Function.update s.core.layers uciLayer.id.toNat (some uciLayer) uciLayer.id.toNat = some uciLayer :=
      Function.update_self _ _ _
    refine ⟨fun _ => hself, I.returned, ?_, ?_, (fun h => nomatch h)⟩
    · intro q hq
      rw [hlist] at hq
      cases hq
    · intro r hr
      rw [hrx] at hr
      cases hr

theorem releaseStep {i : Nat} (I : InSession s) (hc : NothingCrosses s (.uciRelease i))
    (h : releaseStep s i = some s') : InSession s' := by
  unfold Uci.releaseStep at h
  split at h
  · obtain ⟨core, _, rfl⟩ := Option.map_eq_some_iff.mp h
    -- the condition: the queue is empty and no block is being split
    exact ⟨(fun h => nomatch h), I.returned, I.queued, I.receiving,
      fun _ => ⟨hc.1, Option.isNone_iff_eq_none.mp hc.2⟩⟩
  · cases h

theorem readStep {maxSize : Nat} (I : InSession s) (h : readStep s maxSize = some s') : InSession s' := by
  unfold Uci.readStep at h
  split at h
  · next hopen =>
    split at h
    · cases h
      exact I
    · next q rest hlist =>
      split at h
      · cases h
        exact I
      · cases h
        have hq : ∀ p ∈ q :: rest, p.session = s.sessions := by
          rw [← hlist]
          exact I.queued
        refine ⟨I.slot, ?_, fun p hp => hq p (List.mem_cons_of_mem _ hp), I.receiving, ?_⟩
        · intro r hr
          rcases List.mem_append.mp hr with hr | hr
          · exact I.returned r hr
          · rw [List.mem_singleton.mp hr]
            exact hq q List.mem_cons_self
        · intro hclosed
          rw [hopen] at hclosed
          cases hclosed
  · cases h

theorem thread {a : Answer} {data : List UInt8} (I : InSession s) (hc : NothingCrosses s (.thread a data))
    (h : sessionThread s a data = some s') : InSession s' := by
  have hslot : (threadStep s.core a).layers ulUciApp.toNat = s.core.layers ulUciApp.toNat := by
    rw [(threadStep_frame s.core a).layers]
  unfold sessionThread at h
  split at h
  · cases h
  · split at h
    · cases h
      exact I.inCore hslot
    · next length buf hto =>
      split at h
      · cases h
        -- a block is handed to the UCI layer only while the file is open
        have hopen : s.opened = true := hc (by rw [hto]; rfl)
        refine ⟨fun h => hslot.trans (I.slot h), I.returned, I.queued, ?_, ?_⟩
        · intro r hr
          cases hr
          rfl
        · intro hclosed
          rw [hopen] at hclosed
          cases hclosed
      · cases h

/-- What is queued in a pass is of the session of the reception. -/
theorem receivingStep {alloc : Bool} (I : InSession s) (h : Uci.receiving s alloc = some s') : InSession s' := by
  unfold Uci.receiving at h
  split at h
  · cases h
  · next r hr =>
    have hopen : s.opened = true := by
      cases ho : s.opened with
      | true => rfl
      | false =>
        rw [(I.closed ho).2] at hr
        cases hr
    have push : ∀ {p : UciPacket} {rx : Option Receiving}, (∀ r', rx = some r' → r'.session = s.sessions) →
        InSession { s with rx := rx, rxList := s.rxList ++ [⟨p, r.session⟩] } := by
      intro p rx hrx
      refine ⟨I.slot, I.returned, ?_, hrx, ?_⟩
      · intro q hq
        rcases List.mem_append.mp hq with hq | hq
        · exact I.queued q hq
        · rw [List.mem_singleton.mp hq]
          exact I.receiving r hr
      · intro hclosed
        rw [show s.opened = false from hclosed] at hopen
        cases hopen
    split at h
    · cases h
    · cases h
      exact push fun r' hr' => nomatch hr'
    · split at h
      · cases h
        refine push fun r' hr' => ?_
        cases hr'
        exact I.receiving r hr
      · cases h
        exact push fun r' hr' => nomatch hr'

end InSession

/-- A call for another layer leaves the slot of the UCI layer. -/
theorem othersCall_slot {s s' : Core} {a : CoreAct} (ha : othersCall a = true) (h : coreStep s a = some s') :
    s'.layers ulUciApp.toNat = s.layers ulUciApp.toNat := by
  have other : ∀ {id : UInt8} {l : Option LayerRef}, (id != ulUciApp) = true →
      Function.update s.layers id.toNat l ulUciApp.toNat = s.layers ulUciApp.toNat := by
    intro id l hid
    refine Function.update_of_ne (fun heq => ?_) _ _
    rw [UInt8.toNat_inj.mp heq] at hid
    simp at hid
  cases coreStep_effect h with
  | register layers hothers =>
    apply hothers
    intro heq
    have hid : (_ != ulUciApp) = true := ha
    rw [UInt8.toNat_inj.mp heq.symm] at hid
    simp at hid
  | unregister _ _ => exact other ha
  | thread => cases ha
  | _ => rfl

theorem InSession.step {s s' : Session} {a : SessionAct} (I : InSession s) (hc : NothingCrosses s a)
    (h : sessionStep s a = some s') : InSession s' := by
  cases a with
  | uciOpen =>
    cases h
    exact I.openStep
  | uciRelease i => exact I.releaseStep hc h
  | uciRead maxSize => exact I.readStep h
  | thread a data => exact I.thread hc h
  | split alloc => exact I.receivingStep h
  | core a =>
    rw [sessionStep] at h
    split at h
    · next ha =>
      obtain ⟨core, hcore, rfl⟩ := Option.map_eq_some_iff.mp h
      exact I.inCore (othersCall_slot ha hcore)
    · cases h

end Qm35.Uci
