import Qm35.Lib.Lts
import Qm35.Log.Parse

/- Reads of a level against responses (`log_level_get`, `parse_get_log_lvl_response`).
   A read leaves a completion, which is on its stack, in `read_done` of its module, sends
   a request and waits; a response completes what `read_done` points to, in every
   module with its id. The slot is never cleared, and a second read overwrites it. The
   wait takes the completion from the slot again, which may be that of the second read
   by then.

   What a response finds in a slot, and who sleeps on what, is a matter of the order in which
   the calls have entered and gone to sleep (`complete_orderly_iff`).

   Calls are numbered, and a completion has the number of its call. The response is
   processed one access at a time, as the calls are; the table stays the one it is. A
   completion of a call that has returned keeps its count here. -/
namespace Qm35.Log

open Lts

/-- Where a `log_level_get` is: `m` is its module, and `w` the completion it sleeps on. -/
inductive CallPc where
  | idle
  /-- `read_done` is stored -/
  | stored (m : Nat)
  /-- the request is sent -/
  | sent (m : Nat)
  | waiting (m w : Nat)
  | returned (lvl : UInt8)
deriving DecidableEq

/-- The module of a call in progress. -/
def CallPc.module : CallPc → Option Nat
  | .idle => none
  | .stored m => some m
  | .sent m => some m
  | .waiting m _ => some m
  | .returned _ => none

/-- A response being processed, at module `idx`; `completing` after the test of `read_done`. -/
structure Response where
  srcId : UInt8
  srcLvl : UInt8
  idx : Nat
  completing : Bool

/-- `completions` are the counts of the completions. Two records are kept, on which no decision is
taken: `strays`, the completions completed after the return of their call, and `abandoned`, the calls
that a response of their module left asleep on a completion no longer in the slot. -/
structure Rendezvous where
  modules : List LogModule
  calls : Nat → CallPc
  completions : Nat → Nat
  response : Option Response
  strays : List Nat
  abandoned : Nat → Bool

/-- `read_done` of a module. -/
def Rendezvous.readDone (s : Rendezvous) (m : Nat) : Option Nat := s.modules[m]?.bind LogModule.readDone

/-- The table as `parse_log_sources_response` leaves it, and no call. -/
def rendezvousInit (sources : List Source) : Rendezvous :=
  ⟨sources.map fun s => ⟨s.id, s.lvl, s.name, none⟩, fun _ => .idle, fun _ => 0, none, [], fun _ => false⟩

inductive RendezvousAct where
  /-- `log_level_get` of module `m` up to the store; `grant` is the outcome of the allocation -/
  | enter (c m : Nat) (grant : Bool)
  /-- `hsspi_send` -/
  | send (c : Nat) (ok : Bool)
  /-- the slot is read for `wait_for_completion` -/
  | wait (c : Nat)
  /-- the completion is taken, and the level returned -/
  | wake (c : Nat)
  /-- a response arrives -/
  | respond (srcId srcLvl : UInt8)
  /-- the next module is looked at, up to the test of `read_done` -/
  | scan
  /-- `complete` -/
  | complete

/-- The call is asleep on a completion that is not completed and that the slot has lost. -/
def Rendezvous.lost (s : Rendezvous) (m c : Nat) : Bool :=
  match s.calls c with
  | .waiting m' w => m' == m && s.completions w == 0 && s.readDone m != some w
  | _ => false

/-- The response is done with module `m`. -/
def Rendezvous.processed (s : Rendezvous) (m : Nat) : Rendezvous :=
  { s with abandoned := fun c => s.abandoned c || s.lost m c }

/-- The call returns. -/
def Rendezvous.ret (s : Rendezvous) (c : Nat) (lvl : UInt8) : Rendezvous :=
  { s with calls := Function.update s.calls c (.returned lvl) }

/-- The loop body of `parse_get_log_lvl_response`, up to the test. -/
def scanStep (s : Rendezvous) (r : Response) : Rendezvous :=
  match s.modules[r.idx]? with
  | none => { s with response := none }
  | some m =>
    if m.id = r.srcId then
      let s := { s with modules := s.modules.set r.idx { m with lvl := r.srcLvl } }
      if m.readDone.isSome then { s with response := some { r with completing := true } }
      else { s.processed r.idx with response := some { r with idx := r.idx + 1 } }
    else { s with response := some { r with idx := r.idx + 1 } }

/-- `complete` of the completion `w` in the slot. -/
def completeStep (s : Rendezvous) (r : Response) (w : Nat) : Rendezvous :=
  let s := { s with
    completions := Function.update s.completions w (s.completions w + 1)
    strays := if (s.calls w).module.isSome then s.strays else w :: s.strays }
  { s.processed r.idx with response := some { r with idx := r.idx + 1, completing := false } }

def rendezvousStep (s : Rendezvous) : RendezvousAct → Option Rendezvous
  | .enter c m grant =>
    match s.calls c, s.modules[m]? with
    | .idle, some md =>
      if grant then some { s with
        modules := s.modules.set m { md with readDone := some c }
        calls := Function.update s.calls c (.stored m) }
      else some (s.ret c 0)
    | _, _ => none
  | .send c ok =>
    match s.calls c with
    | .stored m => some (if ok then { s with calls := Function.update s.calls c (.sent m) } else s.ret c 0)
    | _ => none
  | .wait c =>
    match s.calls c with
    | .sent m => (s.readDone m).map fun w => { s with calls := Function.update s.calls c (.waiting m w) }
    | _ => none
  | .wake c =>
    match s.calls c with
    | .waiting m w =>
      if 0 < s.completions w then
        (s.modules[m]?).map fun md =>
          { s with completions := Function.update s.completions w (s.completions w - 1) }.ret c md.lvl
      else none
    | _ => none
  | .respond srcId srcLvl =>
    if s.response.isNone then some { s with response := some ⟨srcId, srcLvl, 0, false⟩ } else none
  | .scan =>
    match s.response with
    | some r => if r.completing then none else some (scanStep s r)
    | none => none
  | .complete =>
    match s.response with
    | some r => if r.completing then (s.readDone r.idx).map (completeStep s r) else none
    | none => none

/-! The property. -/

/-- A call is in progress on the module. -/
def Rendezvous.InProgress (s : Rendezvous) (m : Nat) : Prop := ∃ c, (s.calls c).module = some m

/-- Another call is in progress on the module. -/
def Rendezvous.Shared (s : Rendezvous) (c m : Nat) : Prop := ∃ c', c' ≠ c ∧ (s.calls c').module = some m

/-- A call that has filled the slot returns only while another is in progress on the module; and the slot
that a response completes is that of a call in progress, and what every sleeper on the module sleeps
on that has not been completed. -/
def Orderly (s : Rendezvous) : RendezvousAct → Prop
  | .send c false => ∀ m, s.calls c = .stored m → s.Shared c m
  | .wake c => ∀ m w, s.calls c = .waiting m w → 0 < s.completions w → s.Shared c m
  | .complete => ∀ r w, s.response = some r → r.completing = true → s.readDone r.idx = some w →
    (s.calls w).module.isSome = true ∧
      ∀ c w', s.calls c = .waiting r.idx w' → w' = w ∨ 0 < s.completions w'
  | _ => True

/-- A call in progress has filled the slot of its module. -/
def Filled (s : Rendezvous) : Prop := ∀ c m, (s.calls c).module = some m → ∃ w, s.readDone m = some w

section Steps
variable {s s' : Rendezvous} {c m w : Nat} {a : RendezvousAct} {r : Response} {ok grant : Bool}

/-! What each action does. -/

theorem enter_some : rendezvousStep s (.enter c m grant) = some s' ↔
    s.calls c = .idle ∧ ∃ md, s.modules[m]? = some md ∧
      s' = if grant then { s with
          modules := s.modules.set m { md with readDone := some c }
          calls := Function.update s.calls c (.stored m) }
        else s.ret c 0 := by
  simp only [rendezvousStep]
  cases s.calls c <;> cases s.modules[m]? <;> simp [eq_comm, ← apply_ite]

theorem send_some : rendezvousStep s (.send c ok) = some s' ↔
    ∃ m, s.calls c = .stored m ∧
      s' = if ok then { s with calls := Function.update s.calls c (.sent m) } else s.ret c 0 := by
  simp only [rendezvousStep]
  cases s.calls c <;> simp [eq_comm]

theorem wait_some : rendezvousStep s (.wait c) = some s' ↔
    ∃ m w, s.calls c = .sent m ∧ s.readDone m = some w ∧
      s' = { s with calls := Function.update s.calls c (.waiting m w) } := by
  simp only [rendezvousStep]
  cases s.calls c <;> simp [eq_comm]

theorem wake_some : rendezvousStep s (.wake c) = some s' ↔
    ∃ m w md, s.calls c = .waiting m w ∧ 0 < s.completions w ∧ s.modules[m]? = some md ∧
      s' = { s with completions := Function.update s.completions w (s.completions w - 1) }.ret c md.lvl := by
  simp only [rendezvousStep]
  cases s.calls c <;> simp [eq_comm]

theorem respond_some {srcId srcLvl : UInt8} : rendezvousStep s (.respond srcId srcLvl) = some s' ↔
    s.response = none ∧ s' = { s with response := some ⟨srcId, srcLvl, 0, false⟩ } := by
  simp only [rendezvousStep]
  cases s.response <;> simp [eq_comm (a := s')]

theorem scan_some : rendezvousStep s .scan = some s' ↔
    ∃ r, s.response = some r ∧ r.completing = false ∧ s' = scanStep s r := by
  simp only [rendezvousStep]
  cases s.response <;> simp [eq_comm (a := s')]

theorem complete_some : rendezvousStep s .complete = some s' ↔
    ∃ r w, s.response = some r ∧ r.completing = true ∧ s.readDone r.idx = some w ∧ s' = completeStep s r w := by
  simp only [rendezvousStep]
  cases s.response <;> simp [eq_comm (a := s')]

/-! What they do to the slots. -/

theorem readDone_set {md md' : LogModule} (hm : s.modules[m]? = some md) (m' : Nat) :
    { s with modules := s.modules.set m md' }.readDone m' = if m = m' then md'.readDone else s.readDone m' := by
  obtain ⟨hlt, -⟩ := List.getElem?_eq_some_iff.mp hm
  simp only [Rendezvous.readDone, List.getElem?_set]
  split
  · simp
  · rfl

theorem update_module {pc : CallPc} {c' : Nat} (h : pc.module = (s.calls c).module) :
    (Function.update s.calls c pc c').module = (s.calls c').module := by
  by_cases hc : c' = c
  · rw [hc, Function.update_self, h]
  · rw [Function.update_of_ne hc]

/-- Nothing but the response and the levels has changed. -/
structure SameSlots (s s' : Rendezvous) : Prop where
  readDone : ∀ m, s'.readDone m = s.readDone m
  module : ∀ c, (s'.calls c).module = (s.calls c).module
  strays : s'.strays = s.strays
  abandoned : ∀ c, s'.abandoned c = s.abandoned c

theorem SameSlots.filled (h : SameSlots s s') (hf : Filled s) : Filled s' := by
  intro c m hc
  rw [h.module] at hc
  rw [h.readDone]
  exact hf c m hc

theorem lost_iff : s.lost m c = true ↔
    ∃ w, s.calls c = .waiting m w ∧ s.completions w = 0 ∧ s.readDone m ≠ some w := by
  unfold Rendezvous.lost
  cases s.calls c <;> simp [and_assoc]

/-- No call is lost on a module whose slot is empty. -/
theorem not_lost (hf : Filled s) (hm : s.readDone m = none) : s.lost m c = false := by
  refine Bool.eq_false_iff.mpr fun h => ?_
  obtain ⟨w, hc, -⟩ := lost_iff.mp h
  obtain ⟨w', hw⟩ := hf c m (by rw [hc]; rfl)
  rw [hm] at hw
  cases hw

/-- A level that is stored leaves the slots as they are. -/
theorem readDone_level {md : LogModule} {idx : Nat} (hm : s.modules[idx]? = some md) (lvl : UInt8) (m : Nat) :
    { s with modules := s.modules.set idx { md with lvl := lvl } }.readDone m = s.readDone m := by
  rw [readDone_set hm]
  split
  · next heq =>
    rw [← heq, Rendezvous.readDone, hm]
    rfl
  · rfl

theorem scan_readDone (m : Nat) : (scanStep s r).readDone m = s.readDone m := by
  unfold scanStep
  cases hm : s.modules[r.idx]? with
  | none => rfl
  | some md =>
    dsimp only
    split
    · split <;> exact readDone_level hm r.srcLvl m
    · rfl

theorem scan_calls : (scanStep s r).calls = s.calls := by
  unfold scanStep
  split
  · rfl
  · dsimp only
    split
    · split <;> rfl
    · rfl

theorem scan_same (hf : Filled s) : SameSlots s (scanStep s r) := by
  refine ⟨scan_readDone, fun c => by rw [scan_calls], ?_, fun c => ?_⟩ <;> unfold scanStep
  · split
    · rfl
    · dsimp only
      split
      · split <;> rfl
      · rfl
  · cases hm : s.modules[r.idx]? with
    | none => rfl
    | some md =>
      dsimp only
      split
      · split
        · rfl
        · next hnone =>
          -- nobody is asleep on a module whose slot is empty
          have hempty : { s with modules := s.modules.set r.idx { md with lvl := r.srcLvl } }.readDone r.idx = none := by
            rw [readDone_level hm, Rendezvous.readDone, hm]
            simpa using hnone
          have hlost := not_lost (c := c) (fun c m hc => by rw [readDone_level hm]; exact hf c m hc) hempty
          simp [Rendezvous.processed, hlost]
      · rfl

theorem filled_ret {completions : Nat → Nat} {lvl : UInt8} (hf : Filled s) :
    Filled ({ s with completions := completions }.ret c lvl) := by
  intro c' m hc'
  by_cases heq : c' = c
  · rw [heq] at hc'
    simp [Rendezvous.ret, CallPc.module] at hc'
  · exact hf c' m (by simpa [Rendezvous.ret, heq] using hc')

/-- A call that fills its slot. -/
theorem readDone_fill {md : LogModule} {calls : Nat → CallPc} (hm : s.modules[m]? = some md) (m' : Nat) :
    { s with modules := s.modules.set m { md with readDone := some c }, calls := calls }.readDone m' =
      if m = m' then some c else s.readDone m' := by
  have hset : { s with modules := s.modules.set m { md with readDone := some c } }.readDone m' =
      if m = m' then some c else s.readDone m' := readDone_set hm m'
  exact hset

/-! A response that nothing interrupts is the loop of the parser. -/

/-- The modules after the parser has looked at module `idx`, which has the id. -/
def atLevel (modules : List LogModule) (idx : Nat) (m : LogModule) (lvl : UInt8) : List LogModule :=
  modules.set idx { m with lvl := lvl }

theorem logLvlLoop_hit {layer : LogLayer} {table : ModuleTable} {md : LogModule} {srcId srcLvl : UInt8} {todo idx : Nat}
    (ht : layer.logModules = some table) (hm : table.modules[idx]? = some md) (hid : md.id = srcId) :
    logLvlLoop srcId srcLvl (todo + 1) idx layer = logLvlLoop srcId srcLvl todo (idx + 1) { layer with
      logModules := some { table with modules := atLevel table.modules idx md srcLvl }
      completed := layer.completed ++ md.readDone.toList } := by
  rw [logLvlLoop, ht]
  simp only [Option.bind_some, hm, if_pos hid, Option.map_some]
  rfl

theorem logLvlLoop_miss {layer : LogLayer} {table : ModuleTable} {md : LogModule} {srcId srcLvl : UInt8} {todo idx : Nat}
    (ht : layer.logModules = some table) (hm : table.modules[idx]? = some md) (hid : ¬md.id = srcId) :
    logLvlLoop srcId srcLvl (todo + 1) idx layer = logLvlLoop srcId srcLvl todo (idx + 1) layer := by
  rw [logLvlLoop, ht]
  simp only [Option.bind_some, hm, if_neg hid]

/-- The state and the layer have the same modules, and the same completions from `s0` and `layer0` on. -/
structure Alike (alloc : Nat) (s0 s : Rendezvous) (layer0 layer : LogLayer) : Prop where
  modules : layer.logModules = some ⟨alloc, s.modules⟩
  completed : ∃ ws, layer.completed = layer0.completed ++ ws ∧ ∀ w, s.completions w = s0.completions w + ws.count w

theorem Alike.trans {alloc : Nat} {s0 s1 s2 : Rendezvous} {layer0 layer1 layer2 : LogLayer}
    (h : Alike alloc s0 s1 layer0 layer1) (h' : Alike alloc s1 s2 layer1 layer2) : Alike alloc s0 s2 layer0 layer2 := by
  obtain ⟨ws, hws, hcounts⟩ := h.completed
  obtain ⟨ws', hws', hcounts'⟩ := h'.completed
  refine ⟨h'.modules, ws ++ ws', ?_, fun w => ?_⟩
  · rw [hws', hws, List.append_assoc]
  · rw [hcounts', hcounts, List.count_append, Nat.add_assoc]

/-- One module of the loop. -/
theorem module_uninterrupted {alloc : Nat} {layer : LogLayer} {srcId srcLvl : UInt8} {idx : Nat} (todo : Nat)
    (hlt : idx < s.modules.length) (ht : layer.logModules = some ⟨alloc, s.modules⟩)
    (hr : s.response = some ⟨srcId, srcLvl, idx, false⟩) : ∃ acts s' layer',
      run rendezvousStep s acts = some s' ∧ (∀ a ∈ acts, a = .scan ∨ a = .complete) ∧
      s'.response = some ⟨srcId, srcLvl, idx + 1, false⟩ ∧ s'.modules.length = s.modules.length ∧
      logLvlLoop srcId srcLvl (todo + 1) idx layer = logLvlLoop srcId srcLvl todo (idx + 1) layer' ∧
      Alike alloc s s' layer layer' := by
  have hm : s.modules[idx]? = some (s.modules[idx]) := List.getElem?_eq_getElem hlt
  generalize s.modules[idx] = md at hm
  by_cases hid : md.id = srcId
  · rw [logLvlLoop_hit ht hm hid]
    cases hdone : md.readDone with
    | none =>
      have hstep : rendezvousStep s .scan = some
          { ({ s with modules := atLevel s.modules idx md srcLvl } : Rendezvous).processed idx with
            response := some ⟨srcId, srcLvl, idx + 1, false⟩ } := by
        simp [rendezvousStep, hr, scanStep, hm, hid, hdone, atLevel]
      refine ⟨[.scan], _, _, run_cons_some.mpr ⟨_, hstep, rfl⟩, by simp, rfl, ?_, rfl, rfl, [], rfl, fun _ => rfl⟩
      exact List.length_set
    | some w =>
      have hscan : rendezvousStep s .scan = some { s with
          modules := atLevel s.modules idx md srcLvl, response := some ⟨srcId, srcLvl, idx, true⟩ } := by
        simp [rendezvousStep, hr, scanStep, hm, hid, hdone, atLevel]
      generalize hs1 : { s with
          modules := atLevel s.modules idx md srcLvl, response := some ⟨srcId, srcLvl, idx, true⟩ } = s1 at hscan
      have hcomplete : rendezvousStep s1 .complete = some (completeStep s1 ⟨srcId, srcLvl, idx, true⟩ w) := by
        refine complete_some.mpr ⟨⟨srcId, srcLvl, idx, true⟩, w, ?_, rfl, ?_, rfl⟩
        · rw [← hs1]
        · rw [← hs1]
          simp [Rendezvous.readDone, atLevel, hlt, hdone]
      refine ⟨[.scan, .complete], _, _, run_cons_some.mpr ⟨s1, hscan, run_cons_some.mpr ⟨_, hcomplete, rfl⟩⟩,
        by simp, rfl, ?_, rfl, ?_, [w], rfl, fun v => ?_⟩
      · rw [← hs1]
        exact List.length_set
      · rw [← hs1]
        rfl
      · rw [← hs1]
        by_cases hv : v = w
        · subst hv
          simp [completeStep, Rendezvous.processed]
        · simp [completeStep, Rendezvous.processed, hv, Ne.symm hv]
  · rw [logLvlLoop_miss ht hm hid]
    have hstep : rendezvousStep s .scan = some { s with response := some ⟨srcId, srcLvl, idx + 1, false⟩ } := by
      simp [rendezvousStep, hr, scanStep, hm, hid]
    exact ⟨[.scan], _, layer, run_cons_some.mpr ⟨_, hstep, rfl⟩, by simp, rfl, rfl, rfl, ht, [], by simp, fun _ => rfl⟩

/-- The actions process a response as `logLvlLoop` does: the modules are those it leaves, and the
completions those it completes. -/
theorem response_uninterrupted {alloc : Nat} {layer : LogLayer} {srcId srcLvl : UInt8} {todo idx : Nat}
    (hlen : idx + todo = s.modules.length) (ht : layer.logModules = some ⟨alloc, s.modules⟩)
    (hr : s.response = some ⟨srcId, srcLvl, idx, false⟩) : ∃ acts s' layer',
      run rendezvousStep s acts = some s' ∧ (∀ a ∈ acts, a = .scan ∨ a = .complete) ∧ s'.response = none ∧
      logLvlLoop srcId srcLvl todo idx layer = .ok layer' ∧ Alike alloc s s' layer layer' := by
  induction todo generalizing s idx layer with
  | zero =>
    have hend : s.modules[idx]? = none := List.getElem?_eq_none (by omega)
    refine ⟨[.scan], { s with response := none }, layer, ?_, by simp, rfl, rfl, ht, [], by simp, fun _ => rfl⟩
    simp [run, rendezvousStep, hr, scanStep, hend]
  | succ todo ih =>
    obtain ⟨acts, s1, layer1, hrun, hacts, hr1, hlen1, hloop, halike⟩ :=
      module_uninterrupted todo (by omega) ht hr
    obtain ⟨acts', s', layer', hrun', hacts', hresp, hloop', halike'⟩ :=
      ih (by omega) halike.modules hr1
    refine ⟨acts ++ acts', s', layer', ?_, fun a ha => ?_, hresp, hloop.trans hloop', halike.trans halike'⟩
    · rw [run_append, hrun, Option.bind_some, hrun']
    · exact (List.mem_append.mp ha).elim (hacts a) (hacts' a)

/-! The invariants. -/

theorem Filled.step (hf : Filled s) (h : rendezvousStep s a = some s') : Filled s' := by
  cases a with
  | enter c m grant =>
    obtain ⟨hc, md, hm, rfl⟩ := enter_some.mp h
    cases grant with
    | true =>
      intro c' m' hc'
      simp only [↓reduceIte] at hc' ⊢
      rw [readDone_fill hm]
      split
      · exact ⟨c, rfl⟩
      · next hne =>
        by_cases heq : c' = c
        · rw [heq, Function.update_self] at hc'
          exact absurd (Option.some.inj hc') hne
        · rw [Function.update_of_ne heq] at hc'
          exact hf c' m' hc'
    | false => exact filled_ret hf
  | send c ok =>
    obtain ⟨m, hc, rfl⟩ := send_some.mp h
    cases ok with
    | true =>
      have hsame : SameSlots s { s with calls := Function.update s.calls c (.sent m) } :=
        ⟨fun _ => rfl, fun _ => update_module (by rw [hc]; rfl), rfl, fun _ => rfl⟩
      exact hsame.filled hf
    | false => exact filled_ret hf
  | wait c =>
    obtain ⟨m, w, hc, -, rfl⟩ := wait_some.mp h
    have hsame : SameSlots s { s with calls := Function.update s.calls c (.waiting m w) } :=
      ⟨fun _ => rfl, fun _ => update_module (by rw [hc]; rfl), rfl, fun _ => rfl⟩
    exact hsame.filled hf
  | wake c =>
    obtain ⟨m, w, md, -, -, -, rfl⟩ := wake_some.mp h
    exact filled_ret hf
  | respond srcId srcLvl =>
    obtain ⟨-, rfl⟩ := respond_some.mp h
    exact hf
  | scan =>
    obtain ⟨r, -, -, rfl⟩ := scan_some.mp h
    exact (scan_same hf).filled hf
  | complete =>
    obtain ⟨r, w, -, -, -, rfl⟩ := complete_some.mp h
    exact hf

end Steps

/-! The order of calls and responses. -/

theorem init_readDone {sources : List Source} (m : Nat) : (rendezvousInit sources).readDone m = none := by
  refine Option.eq_none_iff_forall_ne_some.mpr fun w h => ?_
  obtain ⟨md, hmd, hw⟩ := Option.bind_eq_some_iff.mp h
  obtain ⟨src, -, rfl⟩ := List.mem_map.mp (List.mem_of_getElem? hmd)
  cases hw


/-- The call that fills the slot of module `m`, after one more action. -/
def fills (m : Nat) (last : Option Nat) : RendezvousAct → Option Nat
  | .enter c m' true => if m' = m then some c else last
  | _ => last

/-- The last call to enter the module. -/
def lastEntered (m : Nat) (acts : List RendezvousAct) : Option Nat := acts.foldl (fills m) none

/-- How far a call has come. -/
def CallPc.rank : CallPc → Nat
  | .idle => 0
  | .stored _ => 1
  | .sent _ => 2
  | .waiting _ _ => 3
  | .returned _ => 4

section Order
variable {s s' t : Rendezvous} {c m w : Nat} {a : RendezvousAct} {acts : List RendezvousAct} {last : Option Nat}

/-- Only a call that enters fills a slot. -/
theorem readDone_step (h : rendezvousStep s a = some s') (m : Nat) : s'.readDone m = fills m (s.readDone m) a := by
  cases a with
  | enter c m' grant =>
    obtain ⟨-, md, hm, rfl⟩ := enter_some.mp h
    cases grant with
    | true => exact readDone_fill hm m
    | false => rfl
  | send c ok =>
    obtain ⟨m', -, rfl⟩ := send_some.mp h
    cases ok <;> rfl
  | wait c =>
    obtain ⟨m', w, -, -, rfl⟩ := wait_some.mp h
    rfl
  | wake c =>
    obtain ⟨m', w, md, -, -, -, rfl⟩ := wake_some.mp h
    rfl
  | respond srcId srcLvl =>
    obtain ⟨-, rfl⟩ := respond_some.mp h
    rfl
  | scan =>
    obtain ⟨r, -, -, rfl⟩ := scan_some.mp h
    exact scan_readDone m
  | complete =>
    obtain ⟨r, w, -, -, -, rfl⟩ := complete_some.mp h
    rfl

theorem readDone_run (h : run rendezvousStep s acts = some t) (m : Nat) : t.readDone m = acts.foldl (fills m) (s.readDone m) := by
  induction acts generalizing s with
  | nil =>
    cases h
    rfl
  | cons a acts ih =>
    obtain ⟨s1, h1, h2⟩ := run_cons_some.mp h
    rw [ih h2, readDone_step h1]
    rfl

/-- A call stays where it is, or goes on. -/
theorem rank_step (h : rendezvousStep s a = some s') (c : Nat) :
    s'.calls c = s.calls c ∨ (s.calls c).rank < (s'.calls c).rank := by
  have hmoved : ∀ (d : Nat) (pc : CallPc), (s.calls d).rank < pc.rank →
      Function.update s.calls d pc c = s.calls c ∨ (s.calls c).rank < (Function.update s.calls d pc c).rank := by
    intro d pc hlt
    by_cases hc : c = d
    · subst hc
      right
      simpa using hlt
    · left
      exact Function.update_of_ne hc _ _
  cases a with
  | enter d m grant =>
    obtain ⟨hidle, md, -, rfl⟩ := enter_some.mp h
    cases grant <;> exact hmoved d _ (by simp [hidle, CallPc.rank])
  | send d ok =>
    obtain ⟨m, hd, rfl⟩ := send_some.mp h
    cases ok <;> exact hmoved d _ (by simp [hd, CallPc.rank])
  | wait d =>
    obtain ⟨m, w, hd, -, rfl⟩ := wait_some.mp h
    exact hmoved d _ (by simp [hd, CallPc.rank])
  | wake d =>
    obtain ⟨m, w, md, hd, -, -, rfl⟩ := wake_some.mp h
    exact hmoved d _ (by simp [hd, CallPc.rank])
  | respond srcId srcLvl =>
    obtain ⟨-, rfl⟩ := respond_some.mp h
    exact .inl rfl
  | scan =>
    obtain ⟨r, -, -, rfl⟩ := scan_some.mp h
    exact .inl (congrFun scan_calls c)
  | complete =>
    obtain ⟨r, w, -, -, -, rfl⟩ := complete_some.mp h
    exact .inl rfl

theorem rank_run (h : run rendezvousStep s acts = some t) (c : Nat) :
    t.calls c = s.calls c ∨ (s.calls c).rank < (t.calls c).rank := by
  induction acts generalizing s with
  | nil =>
    cases h
    exact .inl rfl
  | cons a acts ih =>
    obtain ⟨s1, h1, h2⟩ := run_cons_some.mp h
    rcases rank_step h1 c with heq | hlt <;> rcases ih h2 with heq' | hlt'
    · exact .inl (heq'.trans heq)
    · exact .inr (heq ▸ hlt')
    · exact .inr (heq' ▸ hlt)
    · exact .inr (hlt.trans hlt')

/-- A call enters once. -/
theorem enters_once (h : run rendezvousStep s acts = some t) (hs : s.calls c ≠ .idle) (m : Nat) (grant : Bool) :
    .enter c m grant ∉ acts := by
  intro hmem
  obtain ⟨before, after, rfl⟩ := List.append_of_mem hmem
  rw [run_append] at h
  obtain ⟨s1, h1, h2⟩ := Option.bind_eq_some_iff.mp h
  obtain ⟨s2, h3, -⟩ := run_cons_some.mp h2
  obtain ⟨hidle, -⟩ := enter_some.mp h3
  rcases rank_run h1 c with heq | hlt
  · exact hs (heq.symm.trans hidle)
  · rw [hidle] at hlt
    exact absurd hlt (Nat.not_lt_zero _)

/-- Nobody enters the module. -/
def NoneEnters (m : Nat) (acts : List RendezvousAct) : Prop := ∀ c, .enter c m true ∉ acts

/-- A slot is as it was where nobody enters the module, and else it is filled by one of those who do. -/
theorem foldl_fills_cases (m : Nat) (acts : List RendezvousAct) (last : Option Nat) :
    NoneEnters m acts ∧ acts.foldl (fills m) last = last ∨
      ∃ w, .enter w m true ∈ acts ∧ acts.foldl (fills m) last = some w := by
  induction acts generalizing last with
  | nil => exact .inl ⟨fun _ => List.not_mem_nil, rfl⟩
  | cons a acts ih =>
    rcases ih (fills m last a) with ⟨hnone, hlast⟩ | ⟨w, hmem, hlast⟩
    · by_cases ha : ∃ c, a = .enter c m true
      · obtain ⟨c, rfl⟩ := ha
        refine .inr ⟨c, List.mem_cons_self, hlast.trans ?_⟩
        simp [fills]
      · have hsame : fills m last a = last := by
          unfold fills
          split
          · next c m' =>
            refine if_neg fun heq => ha ⟨c, by rw [heq]⟩
          · rfl
        refine .inl ⟨fun c hc => ?_, hlast.trans hsame⟩
        rcases List.mem_cons.mp hc with heq | hc
        · exact ha ⟨c, heq.symm⟩
        · exact hnone c hc
    · exact .inr ⟨w, List.mem_cons_of_mem _ hmem, hlast⟩

/-- A call goes to sleep on the completion that is in the slot. -/
theorem wait_step (h : rendezvousStep s a = some s') (hs : ∀ m w, s.calls c ≠ .waiting m w)
    (hs' : s'.calls c = .waiting m w) : a = .wait c ∧ s.readDone m = some w := by
  -- a call that moves elsewhere does not fall asleep, and the others stay where they are
  have hmoved : ∀ (d : Nat) (pc : CallPc), (∀ m w, pc ≠ .waiting m w) →
      Function.update s.calls d pc c ≠ .waiting m w := by
    intro d pc hpc
    by_cases hc : c = d
    · subst hc
      simpa using hpc m w
    · rw [Function.update_of_ne hc]
      exact hs m w
  cases a with
  | enter d m grant =>
    obtain ⟨-, md, -, rfl⟩ := enter_some.mp h
    cases grant <;> exact absurd hs' (hmoved d _ (by simp))
  | send d ok =>
    obtain ⟨m, -, rfl⟩ := send_some.mp h
    cases ok <;> exact absurd hs' (hmoved d _ (by simp))
  | wait d =>
    obtain ⟨m', w', -, hslot, rfl⟩ := wait_some.mp h
    by_cases hc : c = d
    · subst hc
      simp only [Function.update_self, CallPc.waiting.injEq] at hs'
      obtain ⟨rfl, rfl⟩ := hs'
      exact ⟨rfl, hslot⟩
    · dsimp only at hs'
      rw [Function.update_of_ne hc] at hs'
      exact absurd hs' (hs m w)
  | wake d =>
    obtain ⟨m, w, md, -, -, -, rfl⟩ := wake_some.mp h
    exact absurd hs' (hmoved d _ (by simp))
  | respond srcId srcLvl =>
    obtain ⟨-, rfl⟩ := respond_some.mp h
    exact absurd hs' (hs m w)
  | scan =>
    obtain ⟨r, -, -, rfl⟩ := scan_some.mp h
    rw [scan_calls] at hs'
    exact absurd hs' (hs m w)
  | complete =>
    obtain ⟨r, w', -, -, -, rfl⟩ := complete_some.mp h
    exact absurd hs' (hs m w)

/-- So does a call that is asleep after a run. -/
theorem wait_split (h : run rendezvousStep s acts = some t) (hs : ∀ m w, s.calls c ≠ .waiting m w)
    (ht : t.calls c = .waiting m w) : ∃ before after s1, acts = before ++ .wait c :: after ∧
      run rendezvousStep s before = some s1 ∧ s1.readDone m = some w := by
  induction acts generalizing s with
  | nil =>
    cases h
    exact absurd ht (hs m w)
  | cons a acts ih =>
    obtain ⟨s1, h1, h2⟩ := run_cons_some.mp h
    by_cases hw : ∃ m' w', s1.calls c = .waiting m' w'
    · obtain ⟨m', w', hw⟩ := hw
      obtain ⟨rfl, hslot⟩ := wait_step h1 hs hw
      rcases rank_run h2 c with heq | hlt
      · rw [ht, hw] at heq
        cases heq
        exact ⟨[], acts, s, rfl, rfl, hslot⟩
      · rw [ht, hw] at hlt
        exact absurd hlt (Nat.lt_irrefl _)
    · obtain ⟨before, after, s2, rfl, hrun, hslot⟩ := ih h2 fun m' w' hw' => hw ⟨m', w', hw'⟩
      exact ⟨a :: before, after, s2, rfl, run_cons_some.mpr ⟨s1, h1, hrun⟩, hslot⟩

/-- Wherever it went to sleep, it is asleep on what was in the slot then. -/
theorem wait_slot {before after : List RendezvousAct} (h : run rendezvousStep s (before ++ .wait c :: after) = some t)
    (ht : t.calls c = .waiting m w) : ∃ s1, run rendezvousStep s before = some s1 ∧ s1.readDone m = some w := by
  rw [run_append] at h
  obtain ⟨s1, h1, h2⟩ := Option.bind_eq_some_iff.mp h
  obtain ⟨s2, hwait, h3⟩ := run_cons_some.mp h2
  obtain ⟨m', w', -, hslot, hs2⟩ := wait_some.mp hwait
  have hasleep : s2.calls c = .waiting m' w' := by simp [hs2]
  rcases rank_run h3 c with heq | hlt
  · rw [ht, hasleep] at heq
    cases heq
    exact ⟨s1, h1, hslot⟩
  · rw [ht, hasleep] at hlt
    exact absurd hlt (Nat.lt_irrefl _)

theorem entered_not_idle {grant : Bool} (h : run rendezvousStep s acts = some t) (hmem : .enter c m grant ∈ acts) :
    t.calls c ≠ .idle := by
  obtain ⟨before, after, rfl⟩ := List.append_of_mem hmem
  rw [run_append] at h
  obtain ⟨s1, -, h2⟩ := Option.bind_eq_some_iff.mp h
  obtain ⟨s2, henter, h3⟩ := run_cons_some.mp h2
  have hentered : s2.calls c ≠ .idle := by
    obtain ⟨-, md, -, rfl⟩ := enter_some.mp henter
    cases grant <;> simp [Rendezvous.ret]
  rcases rank_run h3 c with heq | hlt
  · exact heq ▸ hentered
  · intro hidle
    rw [hidle] at hlt
    exact absurd hlt (Nat.not_lt_zero _)

theorem lastEntered_split {before after : List RendezvousAct} :
    lastEntered m (before ++ .wait c :: after) = after.foldl (fills m) (lastEntered m before) := by
  simp [lastEntered, fills]

end Order

/-- In the order of the calls: a response may complete the slot of a module exactly if the last call to enter the module
has not returned, and since each call asleep there went to sleep nobody has entered, unless it has been woken. -/
theorem complete_orderly_iff {sources : List Source} {acts : List RendezvousAct} {s : Rendezvous} {r : Response}
    (h : run rendezvousStep (rendezvousInit sources) acts = some s) (hr : s.response = some r)
    (hcompleting : r.completing = true) :
    Orderly s .complete ↔ (∀ w, lastEntered r.idx acts = some w → (s.calls w).module.isSome = true) ∧
      ∀ c w, s.calls c = .waiting r.idx w → 0 < s.completions w ∨
        ∃ before after, acts = before ++ .wait c :: after ∧ NoneEnters r.idx after := by
  have hslots : ∀ {done : List RendezvousAct} {t : Rendezvous},
      run rendezvousStep (rendezvousInit sources) done = some t → t.readDone r.idx = lastEntered r.idx done := by
    intro done t hdone
    rw [readDone_run hdone, init_readDone]
    rfl
  have hslot := hslots h
  have hinit : Filled (rendezvousInit sources) := fun c m hc => nomatch hc
  have hfilled : Filled s := run_preserves (fun _ _ _ hf hs => hf.step hs) hinit h
  constructor
  · intro horderly
    refine ⟨fun w hw => (horderly r w hr hcompleting (hslot.trans hw)).1, fun c w hc => ?_⟩
    obtain ⟨v, hv⟩ := hfilled c r.idx (by rw [hc]; rfl)
    rcases (horderly r v hr hcompleting hv).2 c w hc with rfl | hpos
    · right
      obtain ⟨before, after, s1, rfl, hbefore, hw⟩ := wait_split h (by simp [rendezvousInit]) hc
      have hw' : lastEntered r.idx before = some w := (hslots hbefore).symm.trans hw
      refine ⟨before, after, rfl, ?_⟩
      rcases foldl_fills_cases r.idx after (some w) with ⟨hnone, -⟩ | ⟨x, hx, hlast⟩
      · exact hnone
      · -- the last one in would be the same call, which entered before
        rw [hslot, lastEntered_split, hw', hlast] at hv
        cases hv
        rcases foldl_fills_cases r.idx before none with ⟨-, hnever⟩ | ⟨y, hy, hentered⟩
        · exact absurd (hw'.symm.trans hnever) (by simp)
        · obtain rfl : y = w := Option.some.inj (hentered.symm.trans hw')
          rw [run_append, hbefore] at h
          exact absurd (List.mem_cons_of_mem _ hx) (enters_once h (entered_not_idle hbefore hy) r.idx true)
    · exact .inl hpos
  · rintro ⟨hlast, hasleep⟩ r' w hr' - hw
    obtain rfl : r = r' := Option.some.inj (hr.symm.trans hr')
    refine ⟨hlast w (hslot.symm.trans hw), fun c w' hc => ?_⟩
    rcases hasleep c w' hc with hpos | ⟨before, after, rfl, hnone⟩
    · exact .inr hpos
    · left
      obtain ⟨s1, hbefore, hw'⟩ := wait_slot h hc
      rw [hslots hbefore] at hw'
      rcases foldl_fills_cases r.idx after (some w') with ⟨-, hsame⟩ | ⟨x, hx, -⟩
      · rw [hslot, lastEntered_split, hw', hsame] at hw
        exact Option.some.inj hw
      · exact absurd hx (hnone x)

/-- No call is in progress on the module where one comes in, and a slot is completed only for a call in
progress. -/
def Serial (s : Rendezvous) : RendezvousAct → Prop
  | .enter _ m true => ¬s.InProgress m
  | .complete => ∀ r w, s.response = some r → s.readDone r.idx = some w → (s.calls w).module.isSome = true
  | _ => True

/-- The slot is that of the one call in progress, which sleeps on its own completion. -/
structure Own (s : Rendezvous) : Prop where
  slot : ∀ c m, (s.calls c).module = some m → s.readDone m = some c
  asleep : ∀ c m w, s.calls c = .waiting m w → w = c
  strays : s.strays = []
  abandoned : ∀ c, s.abandoned c = false

section Serial
variable {s s' : Rendezvous} {c m w : Nat} {a : RendezvousAct} {r : Response}

/-- A call that moves on, or returns, leaves the others as they are. -/
theorem Own.update {completions : Nat → Nat} {pc : CallPc} (ho : Own s)
    (hpc : ∀ m, pc.module = some m → s.readDone m = some c) (hw : ∀ m w, pc = .waiting m w → w = c) :
    Own { s with completions := completions, calls := Function.update s.calls c pc } := by
  refine ⟨fun c' m hc' => ?_, fun c' m w hc' => ?_, ho.strays, ho.abandoned⟩
  · by_cases heq : c' = c
    · subst heq
      exact hpc m (by simpa using hc')
    · exact ho.slot c' m (by simpa [heq] using hc')
  · by_cases heq : c' = c
    · subst heq
      exact hw m w (by simpa using hc')
    · exact ho.asleep c' m w (by simpa [heq] using hc')

theorem Own.filled (ho : Own s) : Filled s := fun c m hc => ⟨c, ho.slot c m hc⟩

theorem Own.not_lost (ho : Own s) : s.lost m c = false := by
  refine Bool.eq_false_iff.mpr fun h => ?_
  obtain ⟨w, hc, -, hne⟩ := lost_iff.mp h
  rw [ho.asleep c m w hc] at hne
  exact hne (ho.slot c m (by rw [hc]; rfl))

theorem Own.completeStep (ho : Own s) (hin : (s.calls w).module.isSome = true) : Own (completeStep s r w) := by
  have hone : Own { s with
      completions := Function.update s.completions w (s.completions w + 1)
      strays := if (s.calls w).module.isSome then s.strays else w :: s.strays } :=
    ⟨ho.slot, ho.asleep, by rw [if_pos hin]; exact ho.strays, ho.abandoned⟩
  refine ⟨hone.slot, hone.asleep, hone.strays, fun c => ?_⟩
  exact Bool.or_eq_false_iff.mpr ⟨ho.abandoned c, hone.not_lost⟩

theorem Own.scanStep (ho : Own s) : Own (scanStep s r) := by
  have hsame : SameSlots s (Log.scanStep s r) := scan_same ho.filled
  refine ⟨fun c m hc => ?_, fun c m w hc => ?_, hsame.strays.trans ho.strays,
    fun c => (hsame.abandoned c).trans (ho.abandoned c)⟩
  · rw [hsame.module] at hc
    rw [hsame.readDone]
    exact ho.slot c m hc
  · rw [scan_calls] at hc
    exact ho.asleep c m w hc

theorem Own.step (ho : Own s) (hserial : Serial s a) (h : rendezvousStep s a = some s') : Own s' := by
  cases a with
  | enter c m grant =>
    obtain ⟨hc, md, hm, rfl⟩ := enter_some.mp h
    cases grant with
    | true =>
      have hslot : ∀ m', { s with
          modules := s.modules.set m { md with readDone := some c }
          calls := Function.update s.calls c (.stored m) }.readDone m' = if m = m' then some c else s.readDone m' :=
        readDone_fill hm
      simp only [↓reduceIte]
      refine ⟨fun c' m' hc' => ?_, fun c' m' w hc' => ?_, ho.strays, ho.abandoned⟩
      · rw [hslot]
        by_cases heq : c' = c
        · subst heq
          rw [if_pos (by simpa [CallPc.module] using hc')]
        · have hold : (s.calls c').module = some m' := by simpa [heq] using hc'
          -- another call's slot is not overwritten: it is of another module
          rw [if_neg fun hmm => hserial ⟨c', by rw [hmm]; exact hold⟩]
          exact ho.slot c' m' hold
      · by_cases heq : c' = c
        · subst heq
          simp at hc'
        · exact ho.asleep c' m' w (by simpa [heq] using hc')
    | false => exact ho.update (fun m h => nomatch h) (fun m w h => nomatch h)
  | send c ok =>
    obtain ⟨m, hc, rfl⟩ := send_some.mp h
    have hslot : s.readDone m = some c := ho.slot c m (by rw [hc]; rfl)
    cases ok with
    | true =>
      refine ho.update (fun m' h => ?_) (fun m w h => nomatch h)
      cases h
      exact hslot
    | false => exact ho.update (fun m h => nomatch h) (fun m w h => nomatch h)
  | wait c =>
    obtain ⟨m, w, hc, hw, rfl⟩ := wait_some.mp h
    have hslot : s.readDone m = some c := ho.slot c m (by rw [hc]; rfl)
    refine ho.update (fun m' h => ?_) (fun m' w' h => ?_)
    · cases h
      exact hslot
    · cases h
      exact Option.some.inj (hw.symm.trans hslot)
  -- the slot keeps the completion of a call that returns, but `Own` is about calls in progress
  | wake c =>
    obtain ⟨m, w, md, -, -, -, rfl⟩ := wake_some.mp h
    exact ho.update (fun m h => nomatch h) (fun m w h => nomatch h)
  | respond srcId srcLvl =>
    obtain ⟨-, rfl⟩ := respond_some.mp h
    exact ⟨ho.slot, ho.asleep, ho.strays, ho.abandoned⟩
  | scan =>
    obtain ⟨r, -, -, rfl⟩ := scan_some.mp h
    exact ho.scanStep
  | complete =>
    obtain ⟨r, w, hr, -, hw, rfl⟩ := complete_some.mp h
    exact ho.completeStep (hserial r w hr hw)

end Serial

/-- Such reads are never left behind, and each sleeps on its own completion, which is the one in the slot. -/
theorem serial_own {sources : List Source} {acts : List RendezvousAct} {s : Rendezvous}
    (hm : Meets rendezvousStep Serial (rendezvousInit sources) acts)
    (h : run rendezvousStep (rendezvousInit sources) acts = some s) : Own s := by
  have hinit : Own (rendezvousInit sources) :=
    ⟨fun _ _ h => (nomatch h), fun _ _ _ h => (nomatch h), rfl, fun _ => rfl⟩
  exact run_invariant (fun _ _ _ ho hs h => ho.step hs h) hinit hm h

end Qm35.Log
