import Qm35.Log.Model

/- Whether the parsers stay inside the packet. Neither looks at the size of the body: the
   first checks nothing but the allocation of the table, the second nothing at all. So
   a body is parsed without leaving it exactly when it is what the parser takes it to
   be (`SourceList`, or two bytes), or when the allocation for a non-empty list fails
   and the records are never read. -/
namespace Qm35.Log

section Except
variable {ε α β : Type} {x : Except ε α} {f : α → Except ε β} {b : β} {e : ε}

theorem ok_bind {a : α} : (.ok a >>= f : Except ε β) = f a := rfl

theorem bind_eq_ok : (x >>= f) = .ok b ↔ ∃ a, x = .ok a ∧ f a = .ok b := by
  cases x with
  | error e => exact ⟨(fun h => nomatch h), fun ⟨_, h, _⟩ => nomatch h⟩
  | ok a => exact ⟨fun h => ⟨a, rfl, h⟩, fun ⟨_, h, hf⟩ => by cases h; exact hf⟩

theorem bind_eq_error : (x >>= f) = .error e ↔ x = .error e ∨ ∃ a, x = .ok a ∧ f a = .error e := by
  cases x with
  | error e' =>
    constructor
    · intro h
      cases h
      exact .inl rfl
    · rintro (h | ⟨_, h, -⟩)
      · cases h
        rfl
      · cases h
  | ok a =>
    constructor
    · exact fun h => .inr ⟨a, rfl, h⟩
    · rintro (h | ⟨_, h, hf⟩)
      · cases h
      · cases h
        exact hf

end Except

/-! The records of the body. -/

/-- A module as the body lists it. -/
structure Source where
  id : UInt8
  lvl : UInt8
  name : List UInt8

/-- Its bytes: id, level, and the name with its terminator. -/
def Source.bytes (s : Source) : List UInt8 := s.id :: s.lvl :: (s.name ++ [0])

/-- The name is a string that fits the field, terminator included. -/
def Source.Valid (s : Source) : Prop := 0 ∉ s.name ∧ s.name.length < nameSize

/-- The layer after the pass of the loop that has read the source. -/
def Source.enter (s : Source) (idx : Nat) (layer : LogLayer) : LogLayer :=
  (debugCreateModuleEntry (setModule layer idx s.id s.lvl s.name) idx s.name).2

/-- The bytes begin with `n` records. -/
def Records (n : Nat) (data : List UInt8) : Prop :=
  ∃ (sources : List Source) (rest : List UInt8), data = sources.flatMap Source.bytes ++ rest ∧
    sources.length = n ∧ ∀ s ∈ sources, s.Valid

/-- A count and as many records. -/
def SourceList (body : List UInt8) : Prop := ∃ count data, body = count :: data ∧ Records count.toNat data

/-- The body is what the parser of the command takes it to be. -/
def WellFormed (cmdId : Nat) (body : List UInt8) : Prop :=
  (cmdId = logCidGetLogLvl → 2 ≤ body.length) ∧ (cmdId = logCidGetLogSrc → SourceList body)

/-- No byte outside the body is read and none outside the name field written, and a malformed
body is rejected. -/
def Contained (cmdId : Nat) (body : List UInt8) (r : Except Fault (Int × LogLayer)) : Prop :=
  r ≠ .error .body ∧ r ≠ .error .name ∧ (¬WellFormed cmdId body → ∃ layer, r = .ok (1, layer))

theorem records_zero (data : List UInt8) : Records 0 data := ⟨[], data, rfl, rfl, by simp⟩

theorem records_succ {n : Nat} {data : List UInt8} : Records (n + 1) data ↔
    ∃ (s : Source) (rest : List UInt8), data = s.bytes ++ rest ∧ s.Valid ∧ Records n rest := by
  constructor
  · rintro ⟨sources, rest, rfl, hlen, hvalid⟩
    cases sources with
    | nil => simp at hlen
    | cons s sources =>
      refine ⟨s, sources.flatMap Source.bytes ++ rest, ?_, hvalid s (by simp), ?_⟩
      · rw [List.flatMap_cons, List.append_assoc]
      · exact ⟨sources, rest, rfl, by simpa using hlen, fun s' h => hvalid s' (List.mem_cons_of_mem _ h)⟩
  · rintro ⟨s, _, rfl, hs, sources, rest, rfl, hlen, hvalid⟩
    refine ⟨s :: sources, rest, ?_, by simp [hlen], ?_⟩
    · rw [List.flatMap_cons, List.append_assoc]
    · intro s' h
      rcases List.mem_cons.mp h with rfl | h
      · exact hs
      · exact hvalid s' h

/-! Reading strings. -/

section Strings
variable {data name rest : List UInt8} {room : Nat} {f : Fault}

/-- The faults of a parser that leaves the body or the field. -/
def Outside (f : Fault) : Prop := f = .body ∨ f = .name

theorem nextByte_error (h : nextByte data = .error f) : Outside f := by
  cases data with
  | nil =>
    cases h
    exact .inl rfl
  | cons val data => cases h

theorem strcpy_ok : strcpy room data = .ok name ↔
    0 ∉ name ∧ name.length < room ∧ ∃ rest, data = name ++ 0 :: rest := by
  induction data generalizing room name with
  | nil => simp [strcpy]
  | cons val data ih =>
    cases room with
    | zero => simp [strcpy]
    | succ room =>
      unfold strcpy
      by_cases h0 : val = 0
      · rw [if_pos h0]
        subst h0
        constructor
        · intro h
          cases h
          exact ⟨by simp, by simp, data, rfl⟩
        · rintro ⟨hnul, -, rest, heq⟩
          cases name with
          | nil => rfl
          | cons c name =>
            cases heq
            exact absurd List.mem_cons_self hnul
      · rw [if_neg h0, bind_eq_ok]
        constructor
        · rintro ⟨tail, htail, h⟩
          cases h
          obtain ⟨hnul, hlen, rest, rfl⟩ := ih.mp htail
          refine ⟨?_, by simpa using hlen, rest, rfl⟩
          rw [List.mem_cons, not_or]
          exact ⟨fun h => h0 h.symm, hnul⟩
        · rintro ⟨hnul, hlen, rest, heq⟩
          cases name with
          | nil =>
            cases heq
            exact absurd rfl h0
          | cons c name =>
            cases heq
            rw [List.mem_cons, not_or] at hnul
            exact ⟨name, ih.mpr ⟨hnul.2, by simpa using hlen, rest, rfl⟩, rfl⟩

theorem strcpy_error (h : strcpy room data = .error f) : Outside f := by
  induction data generalizing room with
  | nil =>
    simp only [strcpy] at h
    cases h
    exact .inl rfl
  | cons val data ih =>
    cases room with
    | zero =>
      cases h
      exact .inr rfl
    | succ room =>
      unfold strcpy at h
      by_cases h0 : val = 0
      · rw [if_pos h0] at h
        cases h
      · rw [if_neg h0, bind_eq_error] at h
        rcases h with h | ⟨_, -, h⟩
        · exact ih h
        · cases h

theorem strlen_terminated (hnul : 0 ∉ name) : strlen (name ++ 0 :: rest) = .ok name.length := by
  induction name with
  | nil => rfl
  | cons c name ih =>
    rw [List.mem_cons, not_or] at hnul
    have hc : c ≠ 0 := fun h => hnul.1 h.symm
    rw [List.cons_append, strlen, if_neg hc, ih hnul.2]
    rfl

theorem drop_terminated : (name ++ 0 :: rest).drop (name.length + 1) = rest := by
  rw [List.drop_append, List.drop_eq_nil_of_le (by omega), Nat.add_sub_cancel_left]
  rfl

end Strings

/-! The parsers. -/

section Parse
variable {layer layer' : LogLayer} {data body rest : List UInt8} {todo idx cmdId : Nat} {grant : Bool} {f : Fault}

/-- A pass assigns the fields of the module and asks debugfs for its file. -/
theorem Source.enter_eq (s : Source) (idx : Nat) (layer : LogLayer) : s.enter idx layer =
    { setModule layer idx s.id s.lvl s.name with
      entryCalls := layer.entryCalls ++ [⟨layer.allocs, idx, s.name⟩]
      entries := layer.entries ++
        if (layer.debugfs layer.entryCalls.length).made = true then [⟨layer.allocs, idx, s.name⟩] else [] } := by
  cases hanswer : layer.debugfs layer.entryCalls.length with
  | mk dir file => cases dir <;> cases file <;> simp [enter, debugCreateModuleEntry, setModule, hanswer, EntryAnswer.made]

/-- One record is read exactly when the bytes begin with one. -/
theorem logSourcesPass_ok : logSourcesPass idx layer data = .ok (layer', rest) ↔
    ∃ s : Source, data = s.bytes ++ rest ∧ s.Valid ∧ layer' = s.enter idx layer := by
  constructor
  · intro h
    unfold logSourcesPass at h
    match data with
    | [] => cases h
    | [id] => cases h
    | id :: lvl :: data =>
      simp only [nextByte, bind_eq_ok] at h
      obtain ⟨_, hid, _, hlvl, name, hname, n, hn, h⟩ := h
      cases hid
      cases hlvl
      obtain ⟨hnul, hlen, rest', rfl⟩ := strcpy_ok.mp hname
      rw [strlen_terminated hnul] at hn
      cases hn
      cases h
      refine ⟨⟨id, lvl, name⟩, ?_, ⟨hnul, hlen⟩, rfl⟩
      rw [drop_terminated]
      simp [Source.bytes]
  · rintro ⟨⟨id, lvl, name⟩, rfl, ⟨hnul, hlen⟩, rfl⟩
    have hdata : Source.bytes ⟨id, lvl, name⟩ ++ rest = id :: lvl :: (name ++ 0 :: rest) := by
      simp [Source.bytes]
    rw [hdata, logSourcesPass]
    simp only [nextByte, bind_eq_ok]
    refine ⟨_, rfl, _, rfl, name, strcpy_ok.mpr ⟨hnul, hlen, rest, rfl⟩, _, strlen_terminated hnul, ?_⟩
    rw [drop_terminated]
    rfl

theorem logSourcesPass_error (h : logSourcesPass idx layer data = .error f) : Outside f := by
  simp only [logSourcesPass, bind_eq_error] at h
  rcases h with h | ⟨_, -, h | ⟨_, -, h | ⟨name, hname, h | ⟨_, -, h⟩⟩⟩⟩
  · exact nextByte_error h
  · exact nextByte_error h
  · exact strcpy_error h
  · obtain ⟨hnul, -, rest, heq⟩ := strcpy_ok.mp hname
    rw [heq, strlen_terminated hnul] at h
    cases h
  · cases h

theorem logSourcesLoop_succ : logSourcesLoop (todo + 1) idx layer data = .ok layer' ↔
    ∃ (s : Source) (rest : List UInt8), data = s.bytes ++ rest ∧ s.Valid ∧
      logSourcesLoop todo (idx + 1) (s.enter idx layer) rest = .ok layer' := by
  rw [logSourcesLoop, bind_eq_ok]
  constructor
  · rintro ⟨⟨layer1, rest⟩, hpass, h⟩
    obtain ⟨s, hdata, hs, rfl⟩ := logSourcesPass_ok.mp hpass
    exact ⟨s, rest, hdata, hs, h⟩
  · rintro ⟨s, rest, hdata, hs, h⟩
    exact ⟨(s.enter idx layer, rest), logSourcesPass_ok.mpr ⟨s, hdata, hs, rfl⟩, h⟩

theorem logSourcesLoop_ok :
    (∃ layer', logSourcesLoop todo idx layer data = .ok layer') ↔ Records todo data := by
  induction todo generalizing idx layer data with
  | zero => exact ⟨fun _ => records_zero data, fun _ => ⟨layer, rfl⟩⟩
  | succ todo ih =>
    simp only [logSourcesLoop_succ, records_succ]
    constructor
    · rintro ⟨layer', s, rest, hdata, hs, h⟩
      exact ⟨s, rest, hdata, hs, ih.mp ⟨layer', h⟩⟩
    · rintro ⟨s, rest, hdata, hs, h⟩
      obtain ⟨layer', h⟩ := ih.mpr h
      exact ⟨layer', s, rest, hdata, hs, h⟩

theorem logSourcesLoop_error (h : logSourcesLoop todo idx layer data = .error f) : Outside f := by
  induction todo generalizing idx layer data with
  | zero => cases h
  | succ todo ih =>
    rw [logSourcesLoop, bind_eq_error] at h
    rcases h with h | ⟨⟨layer1, rest⟩, -, h⟩
    · exact logSourcesPass_error h
    · exact ih h

theorem logLvlLoop_error {srcId srcLvl : UInt8} (h : logLvlLoop srcId srcLvl todo idx layer = .error f) :
    f = .table := by
  induction todo generalizing idx layer with
  | zero => cases h
  | succ todo ih =>
    unfold logLvlLoop at h
    split at h
    · cases h
      rfl
    · exact ih h

/-- The layer with a new table, before the records are read. -/
def allocated (layer : LogLayer) (count : Nat) : LogLayer :=
  { layer with
    logModulesCount := count
    logModules := some ⟨layer.allocs + 1, List.replicate count ⟨0, 0, [], none⟩⟩
    allocs := layer.allocs + 1 }

theorem parseLogSources_allocated {count : UInt8} (h : count.toNat = 0 ∨ grant = true) :
    parseLogSourcesResponse layer (count :: data) grant =
      logSourcesLoop count.toNat 0 (allocated layer count.toNat) data >>= fun layer => .ok (0, layer) := by
  simp only [parseLogSourcesResponse, logSourcesTable, nextByte, ok_bind, kcalloc, if_pos h]
  rfl

theorem parseLogSources_failed {count : UInt8} (h : ¬count.toNat = 0) :
    parseLogSourcesResponse layer (count :: data) false = .ok (1, { layer with
      logModulesCount := count.toNat
      logModules := none
      allocs := layer.allocs + 1 }) := by
  have hk : ¬(count.toNat = 0 ∨ false = true) := by simpa using h
  simp only [parseLogSourcesResponse, logSourcesTable, nextByte, ok_bind, kcalloc, if_neg hk]
  rfl

/-- The level parser leaves the body exactly where there are less than two bytes. -/
theorem parseGetLogLvl_contained :
    Contained logCidGetLogLvl body (parseGetLogLvlResponse layer body) ↔ 2 ≤ body.length := by
  match body with
  | [] => exact ⟨fun h => absurd rfl h.1, fun h => absurd h (by decide)⟩
  | [_] => exact ⟨fun h => absurd rfl h.1, fun h => absurd h (by decide : ¬2 ≤ 1)⟩
  | srcId :: srcLvl :: rest =>
    have hlen : 2 ≤ (srcId :: srcLvl :: rest).length := by simp
    refine ⟨fun _ => hlen, fun _ => ?_⟩
    have hparse : parseGetLogLvlResponse layer (srcId :: srcLvl :: rest) =
        logLvlLoop srcId srcLvl layer.logModulesCount 0 layer >>= fun layer => .ok (0, layer) := rfl
    have herr : ∀ f, parseGetLogLvlResponse layer (srcId :: srcLvl :: rest) = .error f → f = .table := by
      intro f h
      rw [hparse, bind_eq_error] at h
      rcases h with h | ⟨_, -, h⟩
      · exact logLvlLoop_error h
      · cases h
    refine ⟨(fun h => nomatch herr _ h), (fun h => nomatch herr _ h), fun h => absurd ?_ h⟩
    exact ⟨fun _ => hlen, fun h => absurd h (by decide)⟩

theorem wellFormed_src : WellFormed logCidGetLogSrc body ↔ SourceList body :=
  ⟨fun h => h.2 rfl, fun h => ⟨fun h => absurd h (by decide), fun _ => h⟩⟩

theorem sourceList_cons {count : UInt8} : SourceList (count :: data) ↔ Records count.toNat data := by
  constructor
  · rintro ⟨_, _, h, hr⟩
    cases h
    exact hr
  · exact fun hr => ⟨count, data, rfl, hr⟩

/-- With a table for it the list parser stays inside exactly where it finds its records. -/
theorem parseLogSources_granted {count : UInt8} (h : count.toNat = 0 ∨ grant = true) :
    Contained logCidGetLogSrc (count :: data) (parseLogSourcesResponse layer (count :: data) grant) ↔
      SourceList (count :: data) := by
  rw [sourceList_cons, parseLogSources_allocated h]
  constructor
  · rintro ⟨hbody, hname, -⟩
    cases hl : logSourcesLoop count.toNat 0 (allocated layer count.toNat) data with
    | ok layer' => exact logSourcesLoop_ok.mp ⟨layer', hl⟩
    | error f =>
      rw [hl] at hbody hname
      rcases logSourcesLoop_error hl with rfl | rfl
      · exact absurd rfl hbody
      · exact absurd rfl hname
  · intro hr
    have hok : ∃ layer', logSourcesLoop count.toNat 0 (allocated layer count.toNat) data = .ok layer' :=
      logSourcesLoop_ok.mpr hr
    obtain ⟨layer', hl⟩ := hok
    rw [hl, ok_bind]
    exact ⟨(fun h => nomatch h), (fun h => nomatch h),
      fun h => absurd (wellFormed_src.mpr (sourceList_cons.mpr hr)) h⟩

/-- The list parser stays inside exactly where the body is a list, or the table for it cannot
be allocated. -/
theorem parseLogSources_contained :
    Contained logCidGetLogSrc body (parseLogSourcesResponse layer body grant) ↔
      SourceList body ∨ ∃ count ∈ body.head?, count ≠ 0 ∧ grant = false := by
  match body with
  | [] =>
    refine ⟨fun h => absurd rfl h.1, ?_⟩
    rintro (⟨_, _, h, -⟩ | ⟨_, h, -⟩)
    · cases h
    · cases h
  | count :: data =>
    by_cases hfail : count ≠ 0 ∧ grant = false
    · -- the parser returns 1 before it reads a record
      refine ⟨fun _ => .inr ⟨count, rfl, hfail⟩, fun _ => ?_⟩
      obtain ⟨h0, rfl⟩ := hfail
      have hcount : ¬count.toNat = 0 := fun h => h0 (UInt8.toNat_inj.mp h)
      rw [parseLogSources_failed hcount]
      exact ⟨(fun h => nomatch h), (fun h => nomatch h), fun _ => ⟨_, rfl⟩⟩
    · have hgrant : count.toNat = 0 ∨ grant = true := by
        by_contra hnot
        rw [not_or, Bool.not_eq_true] at hnot
        exact hfail ⟨fun h0 => hnot.1 (by rw [h0]; rfl), hnot.2⟩
      rw [parseLogSources_granted hgrant, or_iff_left]
      rintro ⟨_, h, hc⟩
      cases h
      exact hfail hc

end Parse

/-- A log packet is parsed inside its body, and rejected where the body is malformed, exactly
when the body is well formed or the table for a non-empty list cannot be allocated. -/
theorem logSwitch_contained_iff (layer : LogLayer) (data : List UInt8) (grant : Bool) (hdr : LogPacketHdr)
    (body : List UInt8) (_ : logPacketOf data = some (hdr, body)) :
    Contained hdr.cmdId body (logSwitch layer hdr.cmdId body grant) ↔
      WellFormed hdr.cmdId body ∨
        hdr.cmdId = logCidGetLogSrc ∧ ∃ count ∈ body.head?, count ≠ 0 ∧ grant = false := by
  generalize hdr.cmdId = cmdId
  by_cases hlvl : cmdId = logCidGetLogLvl
  · subst hlvl
    have hsrc : ¬logCidGetLogLvl = logCidGetLogSrc := by decide
    have hwf : WellFormed logCidGetLogLvl body ↔ 2 ≤ body.length :=
      ⟨fun h => h.1 rfl, fun h => ⟨fun _ => h, fun h' => absurd h' hsrc⟩⟩
    rw [hwf, or_iff_left fun h => hsrc h.1]
    exact parseGetLogLvl_contained
  by_cases hsrc : cmdId = logCidGetLogSrc
  · subst hsrc
    rw [wellFormed_src, and_iff_right rfl]
    exact parseLogSources_contained
  have hwf : WellFormed cmdId body := ⟨fun h => absurd h hlvl, fun h => absurd h hsrc⟩
  refine ⟨fun _ => .inl hwf, fun _ => ?_⟩
  -- no other command has a parser; the ring buffer has faults of its own
  have herr : ∀ f, logSwitch layer cmdId body grant = .error f → f = .ring := by
    intro f h
    unfold logSwitch at h
    rw [if_neg hlvl, if_neg hsrc] at h
    split at h
    · split at h
      · cases h
        rfl
      · cases h
    · split at h
      · cases h
      · cases h
  exact ⟨(fun h => nomatch herr _ h), (fun h => nomatch herr _ h), fun h => absurd hwf h⟩

/-- debugfs makes every file it is asked for. -/
def allMade (_ : Nat) : EntryAnswer := ⟨.dentry, .dentry⟩

/-- A list of one module with the name "AB". -/
theorem logSwitch_contained_one :
    Contained logCidGetLogSrc [1, 5, 6, 65, 66, 0]
      (logSwitch (logLayerInit allMade) logCidGetLogSrc [1, 5, 6, 65, 66, 0] true) :=
  (logSwitch_contained_iff (logLayerInit allMade) [3, 0, 6, 0, 1, 5, 6, 65, 66, 0] true ⟨3, 6⟩
    [1, 5, 6, 65, 66, 0] rfl).mpr (.inl ⟨fun h => absurd h (by decide), fun _ =>
      ⟨1, [5, 6, 65, 66, 0], rfl, [⟨5, 6, [65, 66]⟩], [], rfl, rfl, by simp [Source.Valid, nameSize]⟩⟩)

/-- A list of one module whose name does not end in the packet. -/
theorem not_logSwitch_contained :
    ¬∀ (layer : LogLayer) (data : List UInt8) (grant : Bool) (hdr : LogPacketHdr) (body : List UInt8),
      logPacketOf data = some (hdr, body) →
      Contained hdr.cmdId body (logSwitch layer hdr.cmdId body grant) := by
  intro h
  exact (h (logLayerInit allMade) [3, 0, 4, 0, 1, 5, 6, 65] true ⟨3, 4⟩ [1, 5, 6, 65] rfl).1 rfl

end Qm35.Log
