import Qm35.Lib.Lts
import Qm35.Log.Parse

/- The table of modules over whole sequences of packets (`parse_log_sources_response`,
   `debug_create_module_entry`, `log_level_get`). A list of sources replaces the table: the
   old one is freed, but the debugfs files made for it stay, and so do the reads of a
   level that came in through one. The count is stored before the allocation, which can
   fail.

   A list is parsed in steps, so that the table can be looked at between them: first the
   count is stored, the old table freed and the new one allocated, then each pass of the
   loop is a step (`list_run`). The parsers look at no size; what they find when they leave
   the body is what lies behind it in memory, and only where there is nothing the run ends.

   So the table stays valid exactly as long as a list comes only while there is no file
   yet, and its table can be allocated (`table_iff`). The device sends the list once for
   a request, but the driver does not look whether it made one, and a second list is
   read as the first was. -/
namespace Qm35.Log

open Lts

/-- `parse_log_sources_response` in its loop: the modules still to come, the index of the next, and
the bytes at `data`. -/
structure Parsing where
  todo : Nat
  idx : Nat
  data : List UInt8

/-- The loop has come to an end, or has not. -/
def Parsing.of (todo idx : Nat) (data : List UInt8) : Option Parsing :=
  if todo = 0 then none else some ⟨todo, idx, data⟩

/-- The layer, the `log_level_get`s in progress, each with the module it was called with, and the parser
in its loop. -/
structure TableState where
  layer : LogLayer
  readers : List ModuleEntry
  parsing : Option Parsing

def tableInit (debugfs : Nat → EntryAnswer) : TableState := ⟨logLayerInit debugfs, [], none⟩

inductive TableAct where
  /-- `log_received`, of a list up to the loop; `grant` is the outcome of the allocation, and `behind` are
  the bytes in memory behind the body -/
  | received (data : List UInt8) (status : Int) (grant : Bool) (behind : List UInt8)
  /-- a pass of the loop of `parse_log_sources_response` -/
  | record
  /-- `log_level_get` of the module of a file -/
  | levelGet (e : ModuleEntry)
  /-- its return -/
  | levelGot (e : ModuleEntry)

/-- The bytes that can be read: the parsers of the two responses do not look where the body ends. -/
def parserBytes (cmdId : Nat) (body behind : List UInt8) : List UInt8 :=
  if cmdId = logCidGetLogLvl ∨ cmdId = logCidGetLogSrc then body ++ behind else body

/-- `log_received`, of a list up to the loop. -/
def tableReceived (s : TableState) (data : List UInt8) (status : Int) (grant : Bool) (behind : List UInt8) :
    Except Fault TableState :=
  if status ≠ 0 then .ok s
  else
    match logPacketOf data with
    | none => .ok s
    | some (hdr, body) =>
      let bytes := parserBytes hdr.cmdId body behind
      if hdr.cmdId = logCidGetLogSrc then do
        let (layer, records) ← logSourcesTable s.layer bytes grant
        -- without a table there is no loop
        let parsing := if layer.logModules.isNone then none else Parsing.of layer.logModulesCount 0 records
        .ok { s with layer := layer, parsing := parsing }
      else do
        let (_, layer) ← logSwitch s.layer hdr.cmdId bytes grant
        .ok { s with layer := layer }

def tableStep (s : TableState) : TableAct → Option TableState
  | .received data status grant behind =>
    -- one thread receives the packets, one after the other
    if s.parsing.isSome then none
    else
      match tableReceived s data status grant behind with
      | .ok s' => some s'
      | .error _ => none
  | .record =>
    match s.parsing with
    | none => none
    | some p =>
      match logSourcesPass p.idx s.layer p.data with
      | .ok (layer, data) => some { s with layer := layer, parsing := Parsing.of (p.todo - 1) (p.idx + 1) data }
      | .error _ => none
  | .levelGet e => if e ∈ s.layer.entries then some { s with readers := e :: s.readers } else none
  | .levelGot e => if e ∈ s.readers then some { s with readers := s.readers.erase e } else none

/-- The pointer is into the current table. -/
def Current (layer : LogLayer) (e : ModuleEntry) : Prop :=
  ∃ table, layer.logModules = some table ∧ e.alloc = table.alloc ∧ e.idx < table.modules.length

/-- The table has as many modules as the count says, and nothing points elsewhere. -/
structure TableInv (s : TableState) : Prop where
  sized : s.layer.logModulesCount ≠ 0 →
    ∃ table, s.layer.logModules = some table ∧ table.modules.length = s.layer.logModulesCount
  file : ∀ e ∈ s.layer.entries, Current s.layer e
  reader : ∀ e ∈ s.readers, Current s.layer e

/-- The block is a list of sources: its count, and the bytes that follow, in the body and behind it. -/
def ListResponse (data : List UInt8) (status : Int) (behind : List UInt8) (count : UInt8) (records : List UInt8) :
    Prop :=
  status = 0 ∧ ∃ hdr body, logPacketOf data = some (hdr, body) ∧ hdr.cmdId = logCidGetLogSrc ∧
    body ++ behind = count :: records

/-- A list that is received finds its table allocated, and no file. -/
def FirstList (s : TableState) : TableAct → Prop
  | .received data status grant behind => s.parsing = none →
    ∀ count records, ListResponse data status behind count records →
      (count.toNat = 0 ∨ grant = true) ∧ s.layer.entries = []
  | _ => True

/-! What a packet changes. -/

/-- The number of the table's allocation, and of its modules. -/
def LogLayer.shape (layer : LogLayer) : Option (Nat × Nat) :=
  layer.logModules.map fun table => (table.alloc, table.modules.length)

/-- The table is where it was and as long as it was. -/
structure SameTable (layer layer' : LogLayer) : Prop where
  count : layer'.logModulesCount = layer.logModulesCount
  allocs : layer'.allocs = layer.allocs
  shape : layer'.shape = layer.shape

section Shape
variable {layer layer' layer'' : LogLayer} {e : ModuleEntry} {cmdId idx : Nat} {body : List UInt8} {grant : Bool} {r : Int}

theorem current_iff : Current layer e ↔ ∃ n, layer.shape = some (e.alloc, n) ∧ e.idx < n := by
  unfold Current LogLayer.shape
  constructor
  · rintro ⟨table, htable, halloc, hidx⟩
    exact ⟨table.modules.length, by rw [htable, halloc, Option.map_some], hidx⟩
  · rintro ⟨n, hshape, hidx⟩
    obtain ⟨table, htable, heq⟩ := Option.map_eq_some_iff.mp hshape
    obtain ⟨halloc, rfl⟩ := Prod.mk.inj heq
    exact ⟨table, htable, halloc.symm, hidx⟩

theorem sized_iff {n : Nat} : (∃ table, layer.logModules = some table ∧ table.modules.length = n) ↔
    ∃ alloc, layer.shape = some (alloc, n) := by
  simp [LogLayer.shape]

theorem SameTable.refl (layer : LogLayer) : SameTable layer layer := ⟨rfl, rfl, rfl⟩

theorem SameTable.current (h : SameTable layer layer') : Current layer' e ↔ Current layer e := by
  rw [current_iff, current_iff, h.shape]

/-- Reading a record leaves the table in place, and asks for a file of its module. -/
theorem sameTable_enter (s : Source) (idx : Nat) (layer : LogLayer) : SameTable layer (s.enter idx layer) ∧
    ∀ e ∈ (s.enter idx layer).entries, e ∈ layer.entries ∨ e = ⟨layer.allocs, idx, s.name⟩ := by
  rw [Source.enter_eq]
  refine ⟨⟨rfl, rfl, ?_⟩, fun e he => ?_⟩
  · simp [LogLayer.shape, setModule, Function.comp_def]
  · rcases List.mem_append.mp he with he | he
    · exact .inl he
    · split at he <;> simp_all

/-- The files made are never taken away. -/
theorem enter_keeps (s : Source) (idx : Nat) (layer : LogLayer) : layer.entries ⊆ (s.enter idx layer).entries := by
  rw [Source.enter_eq]
  exact List.subset_append_left _ _

theorem logLvlLoop_same {srcId srcLvl : UInt8} {todo : Nat} (h : logLvlLoop srcId srcLvl todo idx layer = .ok layer') :
    SameTable layer layer' ∧ layer'.entries = layer.entries := by
  induction todo generalizing idx layer with
  | zero =>
    cases h
    exact ⟨.refl _, rfl⟩
  | succ todo ih =>
    unfold logLvlLoop at h
    split at h
    · cases h
    · dsimp only at h
      split at h
      · obtain ⟨hsame, hentries⟩ := ih h
        refine ⟨⟨hsame.count, hsame.allocs, hsame.shape.trans ?_⟩, hentries⟩
        simp [LogLayer.shape, Function.comp_def]
      · exact ih h

/-- A packet that is not a list leaves the table and the files alone. -/
theorem logSwitch_same (hcmd : cmdId ≠ logCidGetLogSrc) (h : logSwitch layer cmdId body grant = .ok (r, layer')) :
    SameTable layer layer' ∧ layer'.entries = layer.entries := by
  unfold logSwitch at h
  rw [if_neg hcmd] at h
  split at h
  · split at h
    · cases h
    · cases h
      exact ⟨⟨rfl, rfl, rfl⟩, rfl⟩
  · split at h
    · cases h
      exact ⟨.refl layer, rfl⟩
    · split at h
      · simp only [parseGetLogLvlResponse, bind_eq_ok] at h
        obtain ⟨⟨srcId, _⟩, -, ⟨srcLvl, _⟩, -, layer1, hloop, h⟩ := h
        cases h
        exact logLvlLoop_same hloop
      · cases h
        exact ⟨.refl layer, rfl⟩

end Shape

/-! The steps. -/

/-- After the count and the table. -/
def listStarted (s : TableState) (count : UInt8) (records : List UInt8) (grant : Bool) : TableState :=
  { s with
    layer := { s.layer with
      logModulesCount := count.toNat
      logModules := kcalloc (s.layer.allocs + 1) count.toNat grant
      allocs := s.layer.allocs + 1 }
    parsing := if count.toNat = 0 ∨ grant = true then Parsing.of count.toNat 0 records else none }

section Steps
variable {s s' : TableState} {layer' : LogLayer} {data records behind : List UInt8} {count : UInt8} {status : Int}
  {grant : Bool} {a : TableAct} {todo idx : Nat}

theorem parsing_of {p : Parsing} (h : Parsing.of todo idx data = some p) : p = ⟨todo, idx, data⟩ ∧ 0 < todo := by
  unfold Parsing.of at h
  split at h
  · cases h
  · cases h
    exact ⟨rfl, by omega⟩

theorem tableReceived_list (hlist : ListResponse data status behind count records) :
    tableReceived s data status grant behind = .ok (listStarted s count records grant) := by
  obtain ⟨rfl, hdr, body, hpkt, hcmd, hbytes⟩ := hlist
  have hparser : parserBytes logCidGetLogSrc body behind = count :: records := by simp [parserBytes, hbytes]
  simp only [tableReceived, hpkt, hcmd, hparser, logSourcesTable, nextByte, ok_bind, ne_eq, not_true_eq_false, if_false,
    if_true, listStarted]
  by_cases hgrant : count.toNat = 0 ∨ grant = true <;> simp [kcalloc, hgrant]

/-- A list starts, whatever its records are. -/
theorem received_list (hidle : s.parsing = none) (hlist : ListResponse data status behind count records) :
    tableStep s (.received data status grant behind) = some (listStarted s count records grant) := by
  simp [tableStep, hidle, tableReceived_list hlist]

/-- Any other packet leaves the table and the files alone. -/
theorem received_other (hnot : ∀ count records, ¬ListResponse data status behind count records)
    (h : tableStep s (.received data status grant behind) = some s') :
    ∃ layer', s' = { s with layer := layer' } ∧ SameTable s.layer layer' ∧ layer'.entries = s.layer.entries := by
  have hself : ∃ layer', s = { s with layer := layer' } ∧ SameTable s.layer layer' ∧ layer'.entries = s.layer.entries :=
    ⟨s.layer, rfl, .refl _, rfl⟩
  have hrec : tableReceived s data status grant behind = .ok s' := by
    simp only [tableStep] at h
    split at h
    · cases h
    · split at h
      · next hrec =>
        cases h
        exact hrec
      · cases h
  unfold tableReceived at hrec
  by_cases hstatus : status = 0
  · rw [if_neg (not_not.mpr hstatus)] at hrec
    cases hpkt : logPacketOf data with
    | none =>
      rw [hpkt] at hrec
      cases hrec
      exact hself
    | some pkt =>
      obtain ⟨hdr, body⟩ := pkt
      simp only [hpkt] at hrec
      by_cases hcmd : hdr.cmdId = logCidGetLogSrc
      · -- a list without a count ends the run
        rw [if_pos hcmd] at hrec
        have hbytes : parserBytes hdr.cmdId body behind = body ++ behind := by simp [parserBytes, hcmd]
        cases hempty : body ++ behind with
        | nil =>
          rw [hbytes, hempty] at hrec
          cases hrec
        | cons count records => exact absurd ⟨hstatus, hdr, body, hpkt, hcmd, hempty⟩ (hnot count records)
      · rw [if_neg hcmd, bind_eq_ok] at hrec
        obtain ⟨⟨r, layer'⟩, hswitch, hrec⟩ := hrec
        cases hrec
        exact ⟨layer', rfl, logSwitch_same hcmd hswitch⟩
  · rw [if_pos hstatus] at hrec
    cases hrec
    exact hself

theorem received_idle (h : tableStep s (.received data status grant behind) = some s') : s.parsing = none := by
  simp only [tableStep] at h
  split at h
  · cases h
  · next hidle => simpa using hidle

theorem record_some : tableStep s .record = some s' ↔
    ∃ (p : Parsing) (src : Source) (rest : List UInt8), s.parsing = some p ∧ p.data = src.bytes ++ rest ∧ src.Valid ∧
      s' = { s with layer := src.enter p.idx s.layer, parsing := Parsing.of (p.todo - 1) (p.idx + 1) rest } := by
  constructor
  · intro h
    simp only [tableStep] at h
    split at h
    · cases h
    · next p hp =>
      split at h
      · next hpass =>
        cases h
        obtain ⟨src, hdata, hs, rfl⟩ := logSourcesPass_ok.mp hpass
        exact ⟨p, src, _, hp, hdata, hs, rfl⟩
      · cases h
  · rintro ⟨p, src, rest, hp, hdata, hs, rfl⟩
    have hpass : logSourcesPass p.idx s.layer p.data = .ok (src.enter p.idx s.layer, rest) :=
      logSourcesPass_ok.mpr ⟨src, hdata, hs, rfl⟩
    simp only [tableStep, hp, hpass]

theorem levelGet_some {e : ModuleEntry} : tableStep s (.levelGet e) = some s' ↔
    e ∈ s.layer.entries ∧ s' = { s with readers := e :: s.readers } := by
  simp [tableStep, eq_comm]

theorem levelGot_some {e : ModuleEntry} : tableStep s (.levelGot e) = some s' ↔
    e ∈ s.readers ∧ s' = { s with readers := s.readers.erase e } := by
  simp [tableStep, eq_comm]

/-- The passes are those of the loop. -/
theorem records_run (hparsing : s.parsing = Parsing.of todo idx data) :
    run tableStep s (List.replicate todo .record) = some s' ↔
      ∃ layer', logSourcesLoop todo idx s.layer data = .ok layer' ∧ s' = { s with layer := layer', parsing := none } := by
  induction todo generalizing s idx data with
  | zero =>
    rw [show Parsing.of 0 idx data = none from rfl] at hparsing
    cases s
    simp_all [logSourcesLoop, eq_comm]
  | succ todo ih =>
    rw [show Parsing.of (todo + 1) idx data = some ⟨todo + 1, idx, data⟩ from rfl] at hparsing
    rw [List.replicate_succ, run_cons_some]
    constructor
    · rintro ⟨t, hstep, hrun⟩
      obtain ⟨p, src, rest, heq, hdata, hs, rfl⟩ := record_some.mp hstep
      rw [hparsing] at heq
      cases heq
      obtain ⟨layer', hloop, rfl⟩ := (ih rfl).mp hrun
      exact ⟨layer', logSourcesLoop_succ.mpr ⟨src, rest, hdata, hs, hloop⟩, rfl⟩
    · rintro ⟨layer', hloop, rfl⟩
      obtain ⟨src, rest, hdata, hs, hloop⟩ := logSourcesLoop_succ.mp hloop
      refine ⟨_, record_some.mpr ⟨_, src, rest, hparsing, hdata, hs, rfl⟩, ?_⟩
      exact (ih rfl).mpr ⟨layer', hloop, rfl⟩

/-- A list with its table and as many passes as it has modules are `log_received` of it. -/
theorem list_run (hidle : s.parsing = none) (hlist : ListResponse data status [] count records)
    (hgrant : count.toNat = 0 ∨ grant = true) :
    run tableStep s (.received data status grant [] :: List.replicate count.toNat .record) = some s' ↔
      ∃ layer', logReceived s.layer data status grant = .ok layer' ∧ s' = { s with layer := layer' } := by
  have hparsing : (listStarted s count records grant).parsing = Parsing.of count.toNat 0 records := if_pos hgrant
  have hlayer : (listStarted s count records grant).layer = allocated s.layer count.toNat := by
    simp [listStarted, allocated, kcalloc, hgrant]
  have hreceived : ∀ layer', logReceived s.layer data status grant = .ok layer' ↔
      logSourcesLoop count.toNat 0 (allocated s.layer count.toNat) records = .ok layer' := by
    obtain ⟨rfl, hdr, body, hpkt, hcmd, hbytes⟩ := hlist
    rw [List.append_nil] at hbytes
    subst hbytes
    have hswitch : logSwitch s.layer hdr.cmdId (count :: records) grant =
        parseLogSourcesResponse s.layer (count :: records) grant := by
      rw [hcmd]
      rfl
    intro layer'
    simp only [logReceived, hpkt, hswitch, parseLogSources_allocated hgrant, bind_eq_ok, ne_eq, not_true_eq_false, if_false]
    constructor
    · rintro ⟨_, ⟨layer1, hloop, heq⟩, h⟩
      cases heq
      cases h
      exact hloop
    · intro hloop
      exact ⟨_, ⟨layer', hloop, rfl⟩, rfl⟩
  rw [run_cons, received_list hidle hlist]
  refine (records_run hparsing).trans ?_
  have hstate : ∀ layer' : LogLayer, { listStarted s count records grant with layer := layer', parsing := none } =
      { s with layer := layer' } := by
    intro layer'
    simp [listStarted, hidle]
  simp only [hlayer, hreceived, hstate]

end Steps

/-! The invariant. -/

/-- The table is the last allocated, what is read is a file, and the loop stays within the table. -/
structure Rooted (s : TableState) : Prop where
  last : ∀ alloc n, s.layer.shape = some (alloc, n) → alloc = s.layer.allocs
  readFile : ∀ e ∈ s.readers, e ∈ s.layer.entries
  loop : ∀ p, s.parsing = some p → s.layer.shape = some (s.layer.allocs, p.idx + p.todo) ∧ 0 < p.todo

section Invariant
variable {s s' : TableState} {data records behind : List UInt8} {count : UInt8} {status : Int} {grant : Bool}
  {a : TableAct}

theorem listStarted_shape : (listStarted s count records grant).layer.shape =
    if count.toNat = 0 ∨ grant = true then some (s.layer.allocs + 1, count.toNat) else none := by
  by_cases hgrant : count.toNat = 0 ∨ grant = true <;> simp [listStarted, LogLayer.shape, kcalloc, hgrant]

theorem Rooted.listStarted (hs : Rooted s) : Rooted (listStarted s count records grant) := by
  refine ⟨fun alloc n h => ?_, hs.readFile, fun p h => ?_⟩
  · rw [listStarted_shape] at h
    split at h
    · cases h
      rfl
    · cases h
  · rw [listStarted_shape]
    by_cases hgrant : count.toNat = 0 ∨ grant = true
    · obtain ⟨rfl, hpos⟩ := parsing_of ((if_pos hgrant).symm.trans h)
      rw [if_pos hgrant, Nat.zero_add]
      exact ⟨rfl, hpos⟩
    · cases (if_neg hgrant).symm.trans h

theorem Rooted.step (hs : Rooted s) (h : tableStep s a = some s') : Rooted s' := by
  cases a with
  | received data status grant behind =>
    by_cases hlist : ∃ count records, ListResponse data status behind count records
    · obtain ⟨count, records, hlist⟩ := hlist
      rw [received_list (received_idle h) hlist] at h
      cases h
      exact hs.listStarted
    · obtain ⟨layer', rfl, hsame, hentries⟩ := received_other (fun c r hl => hlist ⟨c, r, hl⟩) h
      refine ⟨fun alloc n hshape => ?_, fun e he => ?_, fun p hp => ?_⟩
      · rw [hsame.allocs]
        exact hs.last alloc n (hsame.shape.symm.trans hshape)
      · rw [hentries]
        exact hs.readFile e he
      · rw [hsame.shape, hsame.allocs]
        exact hs.loop p hp
  | record =>
    obtain ⟨p, src, rest, hp, -, -, rfl⟩ := record_some.mp h
    obtain ⟨hsame, -⟩ := sameTable_enter src p.idx s.layer
    obtain ⟨hshape, hpos⟩ := hs.loop p hp
    refine ⟨fun alloc n h => ?_, fun e he => enter_keeps _ _ _ (hs.readFile e he), fun q hq => ?_⟩
    · rw [hsame.allocs]
      exact hs.last alloc n (hsame.shape.symm.trans h)
    · obtain ⟨rfl, hmore⟩ := parsing_of hq
      have hsum : p.idx + 1 + (p.todo - 1) = p.idx + p.todo := by omega
      rw [hsame.shape, hsame.allocs, hshape, hsum]
      exact ⟨rfl, hmore⟩
  | levelGet e =>
    obtain ⟨he, rfl⟩ := levelGet_some.mp h
    exact ⟨hs.last, List.forall_mem_cons.mpr ⟨he, hs.readFile⟩, hs.loop⟩
  | levelGot e =>
    obtain ⟨-, rfl⟩ := levelGot_some.mp h
    exact ⟨hs.last, fun e' he => hs.readFile e' (List.mem_of_mem_erase he), hs.loop⟩

/-- The start of a list leaves the table valid exactly if it can be allocated and there was no file. -/
theorem list_inv (hs : Rooted s) (hi : TableInv s) : TableInv (listStarted s count records grant) ↔
    (count.toNat = 0 ∨ grant = true) ∧ s.layer.entries = [] := by
  by_cases hgrant : count.toNat = 0 ∨ grant = true
  · rw [and_iff_right hgrant]
    have hshape : (listStarted s count records grant).layer.shape = some (s.layer.allocs + 1, count.toNat) :=
      listStarted_shape.trans (if_pos hgrant)
    constructor
    · -- a file of the old table is a file of the new one
      intro hinv
      refine List.eq_nil_iff_forall_not_mem.mpr fun e he => ?_
      obtain ⟨n, hold, -⟩ := current_iff.mp (hi.file e he)
      obtain ⟨n', hnew, -⟩ := current_iff.mp (hinv.file e he)
      rw [hshape] at hnew
      have hlast : e.alloc = s.layer.allocs := hs.last e.alloc n hold
      have halloc : s.layer.allocs + 1 = e.alloc := (Prod.mk.inj (Option.some.inj hnew)).1
      omega
    · intro hnone
      refine ⟨fun _ => sized_iff.mpr ⟨_, hshape⟩, fun e he => ?_, fun e he => ?_⟩
      · rw [show (listStarted s count records grant).layer.entries = [] from hnone] at he
        cases he
      · have hfile := hs.readFile e he
        rw [hnone] at hfile
        cases hfile
  · refine iff_of_false (fun hinv => ?_) fun h => hgrant h.1
    have hne : (listStarted s count records grant).layer.logModulesCount ≠ 0 := fun h0 => hgrant (.inl h0)
    obtain ⟨alloc, hsome⟩ := sized_iff.mp (hinv.sized hne)
    rw [listStarted_shape, if_neg hgrant] at hsome
    cases hsome

/-- A pass of the loop keeps the table valid: its file is for a module of this table. -/
theorem TableInv.record (hs : Rooted s) (hi : TableInv s) (h : tableStep s .record = some s') : TableInv s' := by
  obtain ⟨p, src, rest, hp, -, -, rfl⟩ := record_some.mp h
  obtain ⟨hsame, hentries⟩ := sameTable_enter src p.idx s.layer
  obtain ⟨hshape, hpos⟩ := hs.loop p hp
  refine ⟨?_, fun e he => hsame.current.mpr ?_, fun e he => hsame.current.mpr (hi.reader e he)⟩
  · simp only [hsame.count, sized_iff, hsame.shape]
    rw [← sized_iff]
    exact hi.sized
  · rcases hentries e he with hold | rfl
    · exact hi.file e hold
    · exact current_iff.mpr ⟨_, hshape, by dsimp only; omega⟩

/-- What keeps the table valid in one step. -/
theorem firstList_iff (hs : Rooted s) (hi : TableInv s) :
    FirstList s a ↔ ∀ s', tableStep s a = some s' → TableInv s' := by
  cases a with
  | received data status grant behind =>
    constructor
    · intro hfirst s' h
      by_cases hlist : ∃ count records, ListResponse data status behind count records
      · obtain ⟨count, records, hlist⟩ := hlist
        have hidle := received_idle h
        rw [received_list hidle hlist] at h
        cases h
        exact (list_inv hs hi).mpr (hfirst hidle count records hlist)
      · obtain ⟨layer', rfl, hsame, hentries⟩ := received_other (fun c r hl => hlist ⟨c, r, hl⟩) h
        refine ⟨?_, fun e he => hsame.current.mpr (hi.file e (hentries ▸ he)), fun e he =>
          hsame.current.mpr (hi.reader e he)⟩
        simp only [hsame.count, sized_iff, hsame.shape]
        rw [← sized_iff]
        exact hi.sized
    · intro h hidle count records hlist
      exact (list_inv hs hi).mp (h _ (received_list hidle hlist))
  | record => exact iff_of_true trivial fun s' h => hi.record hs h
  | levelGet e =>
    refine iff_of_true trivial fun s' h => ?_
    obtain ⟨he, rfl⟩ := levelGet_some.mp h
    exact ⟨hi.sized, hi.file, List.forall_mem_cons.mpr ⟨hi.file e he, hi.reader⟩⟩
  | levelGot e =>
    refine iff_of_true trivial fun s' h => ?_
    obtain ⟨-, rfl⟩ := levelGot_some.mp h
    exact ⟨hi.sized, hi.file, fun e' he => hi.reader e' (List.mem_of_mem_erase he)⟩

end Invariant

/-- The table is valid over any sequence of packets and reads exactly where every list finds its table
allocated and no file. -/
theorem table_iff (debugfs : Nat → EntryAnswer) (acts : List TableAct) :
    (∀ done s, done <+: acts → run tableStep (tableInit debugfs) done = some s → TableInv s) ↔
      Meets tableStep FirstList (tableInit debugfs) acts := by
  have hroot : Rooted (tableInit debugfs) := by
    refine ⟨fun alloc n h => ?_, fun e he => ?_, fun p hp => ?_⟩
    · cases h
    · cases he
    · cases hp
  have hinit : TableInv (tableInit debugfs) := by
    refine ⟨fun h => absurd rfl h, fun e he => ?_, fun e he => ?_⟩
    · cases he
    · cases he
  have hiff := meets_iff_of_preserves (C := FirstList) (I := TableInv) (J := Rooted)
    (fun _ _ _ hs h => hs.step h) (fun _ _ hs hi => firstList_iff hs hi) hroot hinit acts
  exact hiff.symm

/-- A list of one module. -/
def oneModule : TableAct := .received [3, 0, 6, 0, 1, 5, 6, 65, 66, 0] 0 true []

/-- The list comes again while the level of its module is read. -/
theorem not_table_valid : ¬∀ (debugfs : Nat → EntryAnswer) (acts : List TableAct) (s : TableState),
    run tableStep (tableInit debugfs) acts = some s → TableInv s := by
  intro h
  have hinv := h allMade [oneModule, .record, .levelGet ⟨1, 0, [65, 66]⟩, oneModule] _ rfl
  obtain ⟨n, hshape, -⟩ := current_iff.mp (hinv.reader ⟨1, 0, [65, 66]⟩ (by simp))
  cases hshape

end Qm35.Log
