import Qm35.Ring.Model

/- Reception of log packets (`hsspi_log.c`). A packet has a command and the size of its
   body; the body of a `LOG_CID_GET_LOG_SRC` response is a count of modules and, for
   each, an id, a level and a NUL-terminated name. The parsers get a pointer to the
   body, so the body is a list of bytes here and a read past its end is a fault, as is
   a name too long for its field. `data_size`, which no parser looks at, is its length.

   Completions are numbered; the layer keeps those that have been completed. It also keeps
   the calls of `debug_create_module_entry`, each with the table it points into, and the
   files that have come of them: debugfs may refuse any (`Debugfs`), as it does when two
   modules have the same name, and nobody looks at the result. -/
namespace Qm35.Log

def logCidTraceNtf : Nat := 0x0000
def logCidSetLogLvl : Nat := 0x0001
def logCidGetLogLvl : Nat := 0x0002
def logCidGetLogSrc : Nat := 0x0003

/-- An access outside the body, the name field or the table, or a fault of the ring buffer. -/
inductive Fault where
  | body
  | name
  | table
  | ring
deriving DecidableEq

/-- The size of the field `name` of `struct log_module`. -/
def nameSize : Nat := 64

/-- `struct log_module`; `name` is the string in the field. -/
structure LogModule where
  id : UInt8
  lvl : UInt8
  name : List UInt8
  readDone : Option Nat

/-- An array of modules, with the number of the allocation. -/
structure ModuleTable where
  alloc : Nat
  modules : List LogModule

/-- A debugfs entry: which module of which table, and its name. -/
structure ModuleEntry where
  alloc : Nat
  idx : Nat
  name : List UInt8
deriving DecidableEq

/-- What `debugfs_create_dir` and `debugfs_create_file` return: a dentry, `NULL`, or an error pointer. -/
inductive Debugfs where
  | dentry
  | null
  | error
deriving DecidableEq

/-- What debugfs does with one call of `debug_create_module_entry`. -/
structure EntryAnswer where
  dir : Debugfs
  file : Debugfs

/-- There is a `log_level` file after the call. -/
def EntryAnswer.made (answer : EntryAnswer) : Bool := answer.dir == .dentry && answer.file == .dentry

/-- `struct log_layer`, with the number of tables allocated, the answers of debugfs to the calls of
`debug_create_module_entry`, the calls that have been made, the files created and the completions
completed. -/
structure LogLayer where
  logModulesCount : Nat
  logModules : Option ModuleTable
  rb : Ring.Rb
  allocs : Nat
  debugfs : Nat → EntryAnswer
  entryCalls : List ModuleEntry
  entries : List ModuleEntry
  completed : List Nat

/-- `log_layer_init` -/
def logLayerInit (debugfs : Nat → EntryAnswer) : LogLayer :=
  ⟨0, none, Ring.rbInit (fun _ => 0) Ring.traceRbSize, 0, debugfs, [], [], []⟩

/-! Reading the body. -/

/-- `*data++` -/
def nextByte : List UInt8 → Except Fault (UInt8 × List UInt8)
  | [] => .error .body
  | val :: data => .ok (val, data)

/-- `strcpy` into a field of `room` bytes: the string copied. -/
def strcpy : Nat → List UInt8 → Except Fault (List UInt8)
  | _, [] => .error .body
  | 0, _ :: _ => .error .name
  | room + 1, val :: data => if val = 0 then .ok [] else do
    let name ← strcpy room data
    .ok (val :: name)

def strlen : List UInt8 → Except Fault Nat
  | [] => .error .body
  | val :: data => if val = 0 then .ok 0 else do
    let n ← strlen data
    .ok (n + 1)

/-! The parsers. -/

/-- `debug_create_module_entry` for the module `idx` of the current table. -/
def debugCreateModuleEntry (layer : LogLayer) (idx : Nat) (name : List UInt8) : Int × LogLayer :=
  let entry : ModuleEntry := ⟨layer.allocs, idx, name⟩
  let answer := layer.debugfs layer.entryCalls.length
  let called := { layer with entryCalls := layer.entryCalls ++ [entry] }
  match answer.dir, answer.file with
  | .null, _ => (-1, called)
  -- an error pointer is not `NULL`; as the parent of the file it comes back once more
  | .error, _ => (0, called)
  | .dentry, .null => (-1, called)
  | .dentry, .error => (0, called)
  | .dentry, .dentry => (0, { called with entries := layer.entries ++ [entry] })

/-- The assignments to the fields of `log_modules[idx]`. -/
def setModule (layer : LogLayer) (idx : Nat) (id lvl : UInt8) (name : List UInt8) : LogLayer :=
  { layer with logModules := layer.logModules.map fun table =>
      { table with modules := table.modules.set idx ⟨id, lvl, name, none⟩ } }

/-- One pass of the loop of `parse_log_sources_response`, for module `idx`, and the rest of the bytes. -/
def logSourcesPass (idx : Nat) (layer : LogLayer) (data : List UInt8) : Except Fault (LogLayer × List UInt8) := do
  let (id, data) ← nextByte data
  let (lvl, data) ← nextByte data
  let name ← strcpy nameSize data
  let n ← strlen data
  let (_, layer) := debugCreateModuleEntry (setModule layer idx id lvl name) idx name
  .ok (layer, data.drop (n + 1))

/-- The loop of `parse_log_sources_response`, from module `idx` on. -/
def logSourcesLoop : (todo idx : Nat) → LogLayer → List UInt8 → Except Fault LogLayer
  | 0, _, layer, _ => .ok layer
  | todo + 1, idx, layer, data => do
    let (layer, data) ← logSourcesPass idx layer data
    logSourcesLoop todo (idx + 1) layer data

/-- `kcalloc` of the modules: an allocation of size 0 always succeeds. -/
def kcalloc (alloc count : Nat) (grant : Bool) : Option ModuleTable :=
  if count = 0 ∨ grant then some ⟨alloc, List.replicate count ⟨0, 0, [], none⟩⟩ else none

/-- `parse_log_sources_response` up to the loop: the count is stored, the old table freed and the new
one allocated. -/
def logSourcesTable (layer : LogLayer) (data : List UInt8) (grant : Bool) : Except Fault (LogLayer × List UInt8) := do
  let (count, data) ← nextByte data
  let alloc := layer.allocs + 1
  .ok ({ layer with
    logModulesCount := count.toNat
    logModules := kcalloc alloc count.toNat grant
    allocs := alloc }, data)

/-- `parse_log_sources_response` -/
def parseLogSourcesResponse (layer : LogLayer) (data : List UInt8) (grant : Bool) :
    Except Fault (Int × LogLayer) := do
  let (layer, data) ← logSourcesTable layer data grant
  if layer.logModules.isNone then .ok (1, layer)
  else do
    let layer ← logSourcesLoop layer.logModulesCount 0 layer data
    .ok (0, layer)

/-- The loop of `parse_get_log_lvl_response`, from module `idx` on. -/
def logLvlLoop (srcId srcLvl : UInt8) : (todo idx : Nat) → LogLayer → Except Fault LogLayer
  | 0, _, layer => .ok layer
  | todo + 1, idx, layer =>
    match layer.logModules.bind fun table => table.modules[idx]? with
    | none => .error .table
    | some m =>
      let layer := if m.id = srcId then
        { layer with
          logModules := layer.logModules.map fun table =>
            { table with modules := table.modules.set idx { m with lvl := srcLvl } }
          completed := layer.completed ++ m.readDone.toList }
        else layer
      logLvlLoop srcId srcLvl todo (idx + 1) layer

/-- `parse_get_log_lvl_response` -/
def parseGetLogLvlResponse (layer : LogLayer) (data : List UInt8) : Except Fault (Int × LogLayer) := do
  let (srcId, data) ← nextByte data
  let (srcLvl, _) ← nextByte data
  let layer ← logLvlLoop srcId srcLvl layer.logModulesCount 0 layer
  .ok (0, layer)

/-! `log_received`. -/

/-- `struct log_packet_hdr` -/
structure LogPacketHdr where
  cmdId : Nat
  bSize : Nat
deriving DecidableEq

/-- The header of a block and its body of `b_size` bytes, where the block is long enough. -/
def logPacketOf (data : List UInt8) : Option (LogPacketHdr × List UInt8) :=
  match data with
  | c0 :: c1 :: s0 :: s1 :: body =>
    let hdr : LogPacketHdr := ⟨c0.toNat + 256 * c1.toNat, s0.toNat + 256 * s1.toNat⟩
    if data.length < 4 + hdr.bSize then none else some (hdr, body.take hdr.bSize)
  | _ => none

/-- The switch over the command, with what the parser returns; `log_received` ignores that. -/
def logSwitch (layer : LogLayer) (cmdId : Nat) (body : List UInt8) (grant : Bool) :
    Except Fault (Int × LogLayer) :=
  if cmdId = logCidTraceNtf then
    match Ring.rbPush layer.rb body with
    | none => .error .ring
    | some (_, rb) => .ok (0, { layer with rb := rb })
  else if cmdId = logCidSetLogLvl then .ok (0, layer)
  else if cmdId = logCidGetLogLvl then parseGetLogLvlResponse layer body
  else if cmdId = logCidGetLogSrc then parseLogSourcesResponse layer body grant
  else .ok (0, layer)

/-- `log_received` of a block with the given status -/
def logReceived (layer : LogLayer) (data : List UInt8) (status : Int) (grant : Bool) : Except Fault LogLayer :=
  if status ≠ 0 then .ok layer
  else
    match logPacketOf data with
    | none => .ok layer
    | some (hdr, body) => do
      let (_, layer) ← logSwitch layer hdr.cmdId body grant
      .ok layer

end Qm35.Log
