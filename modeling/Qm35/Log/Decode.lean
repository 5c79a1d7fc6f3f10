import Qm35.Log.Parse

/- The round trip of the list of log sources. `sourcesBody` writes a list of sources as a
   `LOG_CID_GET_LOG_SRC` body: the count, then each record. Reading it back gives exactly
   that list, whatever the layer held before: the table has one module for each source,
   in order, and `debug_create_module_entry` is called for each, in order. Whether a file
   comes of a call is up to debugfs, which refuses some names, and the loop goes on either
   way. The loop is followed by the sources still to come; what it has already read is the
   front of the table. -/
namespace Qm35.Log

/-- The body that lists the sources. -/
def sourcesBody (sources : List Source) : List UInt8 :=
  UInt8.ofNat sources.length :: sources.flatMap Source.bytes

/-- A packet with that body. -/
def sourcesPacket (sources : List Source) : List UInt8 :=
  let bSize := (sourcesBody sources).length
  UInt8.ofNat logCidGetLogSrc :: 0 :: UInt8.ofNat bSize :: UInt8.ofNat (bSize / 256) :: sourcesBody sources

/-- The module of the table that holds a source. -/
def Source.module (s : Source) : LogModule := ⟨s.id, s.lvl, s.name, none⟩

/-- The entries asked for, for sources that stand in a table from index `idx` on. -/
def sourceEntries (alloc idx : Nat) (sources : List Source) : List ModuleEntry :=
  sources.mapIdx fun i s => ⟨alloc, idx + i, s.name⟩

/-- The entries created, where the first call is number `n`. -/
def createdEntries (debugfs : Nat → EntryAnswer) (n : Nat) (calls : List ModuleEntry) : List ModuleEntry :=
  ((calls.zipIdx n).filter fun call => (debugfs call.2).made).map Prod.fst

/-- The layer once the sources are read: a new table of them, and what has come of the call for each. -/
def decoded (layer : LogLayer) (sources : List Source) : LogLayer :=
  let calls := sourceEntries (layer.allocs + 1) 0 sources
  { layer with
    logModulesCount := sources.length
    logModules := some ⟨layer.allocs + 1, sources.map Source.module⟩
    allocs := layer.allocs + 1
    entryCalls := layer.entryCalls ++ calls
    entries := layer.entries ++ createdEntries layer.debugfs layer.entryCalls.length calls }

/-- The same with an entry for each source. -/
def decodedAll (layer : LogLayer) (sources : List Source) : LogLayer :=
  { decoded layer sources with entries := layer.entries ++ sourceEntries (layer.allocs + 1) 0 sources }

/-- A table in the middle of the loop: the modules read, and the rest as allocated. -/
def filling (layer : LogLayer) (before : List LogModule) (todo : Nat) : LogLayer :=
  { layer with
    logModules := some ⟨layer.allocs, before ++ List.replicate todo ⟨0, 0, [], none⟩⟩ }

section Loop
variable {layer : LogLayer} {before : List LogModule} {data rest : List UInt8} {s : Source}
  {sources : List Source} {todo idx alloc : Nat}

@[simp] theorem sourceEntries_nil : sourceEntries alloc idx [] = [] := rfl

theorem sourceEntries_cons : sourceEntries alloc idx (s :: sources) =
    ⟨alloc, idx, s.name⟩ :: sourceEntries alloc (idx + 1) sources := by
  unfold sourceEntries
  rw [List.mapIdx_cons, Nat.add_zero]
  congr 2
  funext i s'
  rw [Nat.add_right_comm, Nat.add_assoc]

@[simp] theorem createdEntries_nil {debugfs : Nat → EntryAnswer} {n : Nat} : createdEntries debugfs n [] = [] := rfl

theorem createdEntries_cons {debugfs : Nat → EntryAnswer} {n : Nat} {call : ModuleEntry} {calls : List ModuleEntry} :
    createdEntries debugfs n (call :: calls) =
      (if (debugfs n).made = true then [call] else []) ++ createdEntries debugfs (n + 1) calls := by
  by_cases hmade : (debugfs n).made = true <;> simp [createdEntries, List.zipIdx_cons, hmade]

/-- debugfs that makes them all leaves an entry for each call. -/
theorem createdEntries_all {debugfs : Nat → EntryAnswer} {n : Nat} {calls : List ModuleEntry}
    (hmade : ∀ i < calls.length, (debugfs (n + i)).made = true) : createdEntries debugfs n calls = calls := by
  induction calls generalizing n with
  | nil => rfl
  | cons call calls ih =>
    have hfirst : (debugfs n).made = true := hmade 0 (by simp)
    have hrest : createdEntries debugfs (n + 1) calls = calls := by
      apply ih
      intro i hi
      rw [Nat.add_assoc, Nat.add_comm 1]
      exact hmade (i + 1) (by simpa using hi)
    rw [createdEntries_cons, if_pos hfirst, hrest, List.singleton_append]

/-- What one pass of the loop does with the record the bytes begin with. -/
theorem logSourcesLoop_record (hs : s.Valid) :
    logSourcesLoop (todo + 1) idx layer (s.bytes ++ rest) = logSourcesLoop todo (idx + 1) (s.enter idx layer) rest := by
  have hpass : logSourcesPass idx layer (s.bytes ++ rest) = .ok (s.enter idx layer, rest) :=
    logSourcesPass_ok.mpr ⟨s, rfl, hs, rfl⟩
  rw [logSourcesLoop, hpass, ok_bind]

/-- The layer after the call for the next source. -/
def called (layer : LogLayer) (idx : Nat) (s : Source) : LogLayer :=
  { layer with
    entryCalls := layer.entryCalls ++ [⟨layer.allocs, idx, s.name⟩]
    entries := layer.entries ++
      if (layer.debugfs layer.entryCalls.length).made = true then [⟨layer.allocs, idx, s.name⟩] else [] }

/-- The fields of the next module are assigned. -/
theorem setModule_filling :
    setModule (filling layer before (todo + 1)) before.length s.id s.lvl s.name =
      filling layer (before ++ [s.module]) todo := by
  simp [setModule, filling, Source.module, List.replicate_succ]

theorem enter_filling : s.enter before.length (filling layer before (todo + 1)) =
    filling (called layer before.length s) (before ++ [s.module]) todo := by
  rw [Source.enter_eq, setModule_filling]
  rfl

/-- The loop fills the table with the sources and asks for their entries. -/
theorem logSourcesLoop_sources (before : List LogModule) (hvalid : ∀ s ∈ sources, s.Valid) :
    logSourcesLoop sources.length before.length (filling layer before sources.length)
        (sources.flatMap Source.bytes ++ rest) =
      .ok { filling layer (before ++ sources.map Source.module) 0 with
        entryCalls := layer.entryCalls ++ sourceEntries layer.allocs before.length sources
        entries := layer.entries ++ createdEntries layer.debugfs layer.entryCalls.length
          (sourceEntries layer.allocs before.length sources) } := by
  induction sources generalizing layer before with
  | nil => simp [logSourcesLoop, filling]
  | cons s sources ih =>
    have hs : s.Valid := hvalid s List.mem_cons_self
    have hlen : before.length + 1 = (before ++ [s.module]).length := by simp
    rw [List.flatMap_cons, List.append_assoc, List.length_cons, logSourcesLoop_record hs, enter_filling, hlen,
      ih _ fun s' h => hvalid s' (List.mem_cons_of_mem s h)]
    simp [filling, called, sourceEntries_cons, createdEntries_cons]

end Loop

/-! The parser. -/

section Parser
variable {layer : LogLayer} {sources : List Source}

theorem sourcesBody_count (hlen : sources.length ≤ 255) :
    (UInt8.ofNat sources.length).toNat = sources.length := by
  rw [UInt8.toNat_ofNat']
  omega

theorem parseLogSources_sources (hlen : sources.length ≤ 255) (hvalid : ∀ s ∈ sources, s.Valid) :
    parseLogSourcesResponse layer (sourcesBody sources) true = .ok (0, decoded layer sources) := by
  let start : LogLayer :=
    { layer with logModulesCount := sources.length, allocs := layer.allocs + 1 }
  have hstart : allocated layer sources.length = filling start [] sources.length := rfl
  have hloop : logSourcesLoop sources.length 0 (filling start [] sources.length)
      (sources.flatMap Source.bytes) = .ok (decoded layer sources) := by
    rw [← List.append_nil (sources.flatMap Source.bytes)]
    refine (logSourcesLoop_sources [] hvalid).trans ?_
    simp [filling, decoded, start]
  rw [sourcesBody, parseLogSources_allocated (.inr rfl), sourcesBody_count hlen, hstart, hloop, ok_bind]

/-- The encoding of a list fits the size field of a packet. -/
theorem sourcesBody_length (hlen : sources.length ≤ 255) (hvalid : ∀ s ∈ sources, s.Valid) :
    (sourcesBody sources).length ≤ 1 + 255 * (2 + nameSize) := by
  have hrecords : (sources.flatMap Source.bytes).length ≤ sources.length * (2 + nameSize) := by
    clear hlen
    induction sources with
    | nil => simp
    | cons s sources ih =>
      have hs : s.Valid := hvalid s List.mem_cons_self
      have hbytes : s.bytes.length = s.name.length + 3 := by simp [Source.bytes]
      have hrest := ih fun s' h => hvalid s' (List.mem_cons_of_mem s h)
      have hname : s.name.length < nameSize := hs.2
      rw [List.flatMap_cons, List.length_append, List.length_cons, Nat.succ_mul, hbytes]
      omega
  have hbound : sources.length * (2 + nameSize) ≤ 255 * (2 + nameSize) := Nat.mul_le_mul_right _ hlen
  rw [sourcesBody, List.length_cons]
  omega

/-- The packet is taken apart again, whatever follows it in the block. -/
theorem logPacketOf_sources (hlen : sources.length ≤ 255) (hvalid : ∀ s ∈ sources, s.Valid)
    (rest : List UInt8) : logPacketOf (sourcesPacket sources ++ rest) =
      some (⟨logCidGetLogSrc, (sourcesBody sources).length⟩, sourcesBody sources) := by
  have hbound : (sourcesBody sources).length ≤ 1 + 255 * (2 + nameSize) := sourcesBody_length hlen hvalid
  have hsize : (UInt8.ofNat (sourcesBody sources).length).toNat +
      256 * (UInt8.ofNat ((sourcesBody sources).length / 256)).toNat = (sourcesBody sources).length := by
    rw [UInt8.toNat_ofNat', UInt8.toNat_ofNat']
    unfold nameSize at hbound
    omega
  have hcmd : (UInt8.ofNat logCidGetLogSrc).toNat + 256 * (0 : UInt8).toNat = logCidGetLogSrc := rfl
  simp only [sourcesPacket, List.cons_append, logPacketOf, hsize, hcmd]
  rw [if_neg (by simp only [List.length_cons, List.length_append]; omega), List.take_left]

end Parser

/-- A list of sources is decoded exactly: after `parse_log_sources_response`, and after
`log_received` of a packet that carries the list, the table has the sources in order,
`debug_create_module_entry` was called for each, in order, and there are the entries that debugfs
has made of these calls, whatever the layer held; where it makes them all, there is one for each. -/
theorem logSources_roundtrip (layer : LogLayer) (sources : List Source) (hlen : sources.length ≤ 255)
    (hvalid : ∀ s ∈ sources, s.Valid) :
    parseLogSourcesResponse layer (sourcesBody sources) true = .ok (0, decoded layer sources) ∧
      (∀ rest, logReceived layer (sourcesPacket sources ++ rest) 0 true = .ok (decoded layer sources)) ∧
      ((∀ i < sources.length, (layer.debugfs (layer.entryCalls.length + i)).made = true) →
        decoded layer sources = decodedAll layer sources) := by
  have hparse : parseLogSourcesResponse layer (sourcesBody sources) true = .ok (0, decoded layer sources) :=
    parseLogSources_sources hlen hvalid
  refine ⟨hparse, fun rest => ?_, fun hmade => ?_⟩
  · unfold logReceived
    rw [if_neg (by decide), logPacketOf_sources hlen hvalid]
    simp only
    rw [logSwitch, if_neg (by decide), if_neg (by decide), if_neg (by decide), if_pos rfl, hparse]
    rfl
  · have hall : createdEntries layer.debugfs layer.entryCalls.length (sourceEntries (layer.allocs + 1) 0 sources) =
        sourceEntries (layer.allocs + 1) 0 sources := by
      apply createdEntries_all
      simpa [sourceEntries] using hmade
    rw [decodedAll, decoded, hall]

/-- debugfs refuses the second of two directories of one name. -/
def secondRefused (n : Nat) : EntryAnswer := if n = 1 then ⟨.error, .error⟩ else ⟨.dentry, .dentry⟩

/-- Two sources replace the table that was there, and only the first gets its file. -/
theorem logSources_roundtrip_two :
    let sources : List Source := [⟨1, 2, [65, 66]⟩, ⟨3, 4, [65, 66]⟩]
    let layer : LogLayer :=
      { logLayerInit secondRefused with logModulesCount := 1, logModules := some ⟨7, [⟨9, 9, [67], none⟩]⟩, allocs := 7 }
    parseLogSourcesResponse layer [2, 1, 2, 65, 66, 0, 3, 4, 65, 66, 0] true = .ok (0, decoded layer sources) ∧
      (decoded layer sources).entries = [⟨8, 0, [65, 66]⟩] := by
  intro sources layer
  obtain ⟨hparse, -, -⟩ := logSources_roundtrip layer sources (by decide) (by simp [sources, Source.Valid, nameSize])
  exact ⟨hparse, by decide⟩

/-- There is no entry for the second of two modules of one name. -/
theorem not_logSources_roundtrip : ¬∀ (layer : LogLayer) (sources : List Source), sources.length ≤ 255 →
    (∀ s ∈ sources, s.Valid) →
    parseLogSourcesResponse layer (sourcesBody sources) true = .ok (0, decodedAll layer sources) := by
  intro h
  have hparse := h (logLayerInit secondRefused) [⟨1, 2, [65, 66]⟩, ⟨3, 4, [65, 66]⟩] (by decide)
    (by simp [Source.Valid, nameSize])
  have hentries : (parseLogSourcesResponse (logLayerInit secondRefused)
      [2, 1, 2, 65, 66, 0, 3, 4, 65, 66, 0] true).map (fun r => r.2.entries) = .ok [⟨1, 0, [65, 66]⟩] := rfl
  have hboth := (congrArg (Except.map fun r => r.2.entries) hparse).symm.trans hentries
  exact absurd (Except.ok.inj hboth) (by decide)

end Qm35.Log
