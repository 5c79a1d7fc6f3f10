import Qm35.Rom.Said

/- Stitched firmware: four sections one after the other, each behind its size as a
   little-endian 32-bit integer. `qmrom_unstitch_fw` first goes over the sizes with a
   32-bit `tot_len`, whose sums wrap, and then allocates and copies the sections. Where
   all of it succeeds on a file of less than 4 GiB no sum has wrapped, since every
   section lies in the file: then the file is exactly its four sections. -/
namespace Qm35.Qmrom

open ByteMem Trace

/-- `*(uint32_t *)&data[off]` -/
def le32At (data : List UInt8) (off : Nat) : Option Nat :=
  match data.drop off with
  | b0 :: b1 :: b2 :: b3 :: _ => some (b0.toNat + 256 * b1.toNat + 65536 * (b2.toNat + 256 * b3.toNat))
  | _ => none

/-- The source of a `memcpy`. -/
def sliceAt (data : List UInt8) (off n : Nat) : Option (List UInt8) :=
  if off + n ≤ data.length then some ((data.drop off).take n) else none

/-- A section in the file: where it starts, and its size. -/
structure Extent where
  off : Nat
  size : Nat

structure Layout where
  key1 : Extent
  key2 : Extent
  crt : Extent
  fw : Extent

/-- A section in memory of its own. -/
structure Section where
  ptr : Nat
  data : List UInt8

/-- `struct unstitched_firmware` -/
structure UnstitchedFirmware where
  fwImg : Section
  fwCrt : Section
  key1Crt : Section
  key2Crt : Section

/-- The first part of `qmrom_unstitch_fw`, up to the allocations. -/
def unstitchLayout (data : List UInt8) (revision : Nat) : Option (Except Int Layout) :=
  if revision = chipRevisionA0 then some (.error eInval)
  else if data.length < 8 then some (.error eInval)
  else do
    let key1CrtSz ← le32At data 0
    if data.length < u32 (0 + key1CrtSz) + 4 then some (.error eInval)
    else do
      let pKey1 := u32 (0 + 4)
      let totLen := u32 (pKey1 + key1CrtSz)
      let key2CrtSz ← le32At data totLen
      if data.length < u32 (totLen + key2CrtSz) + 4 then some (.error eInval)
      else do
        let pKey2 := u32 (totLen + 4)
        let totLen := u32 (pKey2 + key2CrtSz)
        let fwCrtSz ← le32At data totLen
        if data.length < u32 (totLen + fwCrtSz) + 4 then some (.error eInval)
        else do
          let pCrt := u32 (totLen + 4)
          let totLen := u32 (pCrt + fwCrtSz)
          let fwImgSz ← le32At data totLen
          if u32 (totLen + fwImgSz) + 4 ≠ data.length then some (.error eInval)
          else some (.ok ⟨⟨pKey1, key1CrtSz⟩, ⟨pKey2, key2CrtSz⟩, ⟨pCrt, fwCrtSz⟩, ⟨u32 (totLen + 4), fwImgSz⟩⟩)

/-- The copies into the memory allocated. -/
def unstitchCopy (data : List UInt8) (l : Layout) (fwImg fwCrt key1Crt key2Crt : Nat) : Option UnstitchedFirmware := do
  let key1 ← sliceAt data l.key1.off l.key1.size
  let key2 ← sliceAt data l.key2.off l.key2.size
  let crt ← sliceAt data l.crt.off l.crt.size
  let fw ← sliceAt data l.fw.off l.fw.size
  some ⟨⟨fwImg, fw⟩, ⟨fwCrt, crt⟩, ⟨key1Crt, key1⟩, ⟨key2Crt, key2⟩⟩

/-- The end of `qmrom_unstitch_fw` where an allocation fails. -/
def unstitchErr (ptrs : List Nat) : Rom (Except Int UnstitchedFirmware) := do
  ptrs.forM qmromFree
  pure (.error eNoMem)

/-- `qmrom_unstitch_fw`: its error, or the sections where it returns 0. -/
def qmromUnstitchFw (data : List UInt8) (revision : Nat) : Rom (Except Int UnstitchedFirmware) := do
  match ← ofOption (unstitchLayout data revision) with
  | .error rc => pure (.error rc)
  | .ok l =>
    match ← qmromAlloc with
    | none => pure (.error eNoMem)
    | some fwImg =>
      match ← qmromAlloc with
      | none => unstitchErr [fwImg]
      | some fwCrt =>
        match ← qmromAlloc with
        | none => unstitchErr [fwImg, fwCrt]
        | some key1Crt =>
          match ← qmromAlloc with
          | none => unstitchErr [fwImg, fwCrt, key1Crt]
          | some key2Crt => do
            let fws ← ofOption (unstitchCopy data l fwImg fwCrt key1Crt key2Crt)
            pure (.ok fws)

/-- The `free`s at the end of the flash functions. -/
def freeSections (fws : UnstitchedFirmware) : Rom Unit :=
  [fws.fwImg.ptr, fws.fwCrt.ptr, fws.key1Crt.ptr, fws.key2Crt.ptr].forM qmromFree

/-! What the B0 and the C0 share: the responses of `enum B0_RESP` and `enum C0_RESP`, the check
of the key type against the life cycle state, and the error for a wrong response to data. -/

def waitingForSecFileData : UInt8 := 0x06
def waitingForFirstKeyCert : UInt8 := 0x11
def waitingForSecondKeyCert : UInt8 := 0x12
def waitingForContentCert : UInt8 := 0x13
def errFirstKeyCertOrFwVer : UInt8 := 0x15

def keyTypeCheck (h : Handle) (key1Crt : Section) : Rom Int := do
  let hbk ← ofOption key1Crt.data[hbkLoc]?
  if hbk = hbk2eIcv ∧ h.lcsState ≠ ccBsvChipManufactureLcs then pure eInval
  else if hbk = hbk2eOem ∧ h.lcsState ≠ ccBsvSecureLcs then pure eInval
  else pure 0

def wrongData (got expected : UInt8) : Rom Int :=
  wrongResp got expected (if got = errFirstKeyCertOrFwVer then pegErrFirstKeyCertOrFwVer else spiProtoWrongResp)

/-! What a file that is unstitched looks like. -/

/-- A section behind its size. -/
def prefixed (data : List UInt8) : List UInt8 := bytes32 data.length ++ data

/-- The file made of the four sections. -/
def stitched (fws : UnstitchedFirmware) : List UInt8 :=
  prefixed fws.key1Crt.data ++ (prefixed fws.key2Crt.data ++ (prefixed fws.fwCrt.data ++ prefixed fws.fwImg.data))

section Layout
variable {data s : List UInt8} {off n t : Nat}

theorem u32_of_le (h : n ≤ t) (ht : t < 4294967296) : u32 n = n :=
  Nat.mod_eq_of_lt (Nat.lt_of_le_of_lt h ht)

theorem bytes32_of_toNat (b0 b1 b2 b3 : UInt8) :
    bytes32 (b0.toNat + 256 * b1.toNat + 65536 * (b2.toNat + 256 * b3.toNat)) = [b0, b1, b2, b3] := by
  have h0 := b0.toNat_lt
  have h1 := b1.toNat_lt
  have h2 := b2.toNat_lt
  have h3 := b3.toNat_lt
  have byte : ∀ {b : UInt8} {k : Nat}, k % 256 = b.toNat → UInt8.ofNat k = b := by
    intro b k hk
    apply UInt8.toNat_inj.mp
    rw [UInt8.toNat_ofNat']
    exact hk
  have e0 := byte (b := b0) (k := b0.toNat + 256 * b1.toNat + 65536 * (b2.toNat + 256 * b3.toNat)) (by omega)
  have e1 := byte (b := b1) (k := (b0.toNat + 256 * b1.toNat + 65536 * (b2.toNat + 256 * b3.toNat)) / 256) (by omega)
  have e2 := byte (b := b2) (k := (b0.toNat + 256 * b1.toNat + 65536 * (b2.toNat + 256 * b3.toNat)) / 65536) (by omega)
  have e3 := byte (b := b3) (k := (b0.toNat + 256 * b1.toNat + 65536 * (b2.toNat + 256 * b3.toNat)) / 65536 / 256)
    (by omega)
  simp only [bytes32, bytes16, e0, e1, e2, e3]
  rfl

theorem le32At_some (h : le32At data off = some n) :
    off + 4 ≤ data.length ∧ data.drop off = bytes32 n ++ data.drop (off + 4) := by
  unfold le32At at h
  split at h
  · next b0 b1 b2 b3 rest hdrop =>
    cases h
    have hlen := congrArg List.length hdrop
    simp only [List.length_drop, List.length_cons] at hlen
    refine ⟨by omega, ?_⟩
    rw [bytes32_of_toNat, ← List.drop_drop, hdrop]
    rfl
  · cases h

theorem sliceAt_some (h : sliceAt data off n = some s) :
    off + n ≤ data.length ∧ s.length = n ∧ data.drop off = s ++ data.drop (off + n) := by
  unfold sliceAt at h
  split at h
  · next hle =>
    cases h
    refine ⟨hle, ?_, ?_⟩
    · rw [List.length_take, List.length_drop]
      omega
    · rw [← List.drop_drop, List.take_append_drop]
  · cases h

/-- A size and the section behind it, copied from where the code looks for it. -/
theorem section_at (hdata : data.length < 4294967296) (hsize : le32At data t = some n)
    (hslice : sliceAt data (u32 (t + 4)) n = some s) :
    data.drop t = prefixed s ++ data.drop (t + 4 + n) ∧ t + 4 + n ≤ data.length ∧
      u32 (u32 (t + 4) + n) = t + 4 + n := by
  obtain ⟨hle, hdrop⟩ := le32At_some hsize
  rw [u32_of_le hle hdata] at hslice ⊢
  obtain ⟨hin, hlen, hrest⟩ := sliceAt_some hslice
  refine ⟨?_, hin, u32_of_le hin hdata⟩
  rw [hdrop, hrest, prefixed, hlen, List.append_assoc]

end Layout

theorem unstitchLayout_ok {data : List UInt8} {revision : Nat} {l : Layout}
    (h : unstitchLayout data revision = some (.ok l)) :
    ∃ t2 t3 t4, le32At data 0 = some l.key1.size ∧ l.key1.off = u32 (0 + 4) ∧
      t2 = u32 (u32 (0 + 4) + l.key1.size) ∧
      le32At data t2 = some l.key2.size ∧ l.key2.off = u32 (t2 + 4) ∧ t3 = u32 (u32 (t2 + 4) + l.key2.size) ∧
      le32At data t3 = some l.crt.size ∧ l.crt.off = u32 (t3 + 4) ∧ t4 = u32 (u32 (t3 + 4) + l.crt.size) ∧
      le32At data t4 = some l.fw.size ∧ l.fw.off = u32 (t4 + 4) ∧ u32 (t4 + l.fw.size) + 4 = data.length := by
  unfold unstitchLayout at h
  split at h
  · cases h
  · split at h
    · cases h
    · obtain ⟨n1, h1, h⟩ := Option.bind_eq_some_iff.mp h
      split at h
      · cases h
      · obtain ⟨n2, h2, h⟩ := Option.bind_eq_some_iff.mp h
        split at h
        · cases h
        · obtain ⟨n3, h3, h⟩ := Option.bind_eq_some_iff.mp h
          split at h
          · cases h
          · obtain ⟨n4, h4, h⟩ := Option.bind_eq_some_iff.mp h
            split at h
            · cases h
            · next heq =>
              cases h
              exact ⟨_, _, _, h1, rfl, rfl, h2, rfl, rfl, h3, rfl, rfl, h4, rfl, not_not.mp heq⟩

/-- A file that is unstitched is its four sections. -/
theorem unstitched_file {data : List UInt8} {revision fwImg fwCrt key1Crt key2Crt : Nat} {l : Layout}
    {fws : UnstitchedFirmware} (hdata : data.length < 4294967296)
    (hl : unstitchLayout data revision = some (.ok l))
    (hc : unstitchCopy data l fwImg fwCrt key1Crt key2Crt = some fws) : data = stitched fws := by
  obtain ⟨t2, t3, t4, h1, o1, e2, h2, o2, e3, h3, o3, e4, h4, o4, hend⟩ := unstitchLayout_ok hl
  unfold unstitchCopy at hc
  obtain ⟨key1, s1, hc⟩ := Option.bind_eq_some_iff.mp hc
  obtain ⟨key2, s2, hc⟩ := Option.bind_eq_some_iff.mp hc
  obtain ⟨crt, s3, hc⟩ := Option.bind_eq_some_iff.mp hc
  obtain ⟨img, s4, hc⟩ := Option.bind_eq_some_iff.mp hc
  cases hc
  rw [o1] at s1
  rw [o2] at s2
  rw [o3] at s3
  rw [o4] at s4
  obtain ⟨d1, _, w1⟩ := section_at hdata h1 s1
  obtain ⟨d2, _, w2⟩ := section_at hdata h2 s2
  obtain ⟨d3, _, w3⟩ := section_at hdata h3 s3
  obtain ⟨d4, in4, _⟩ := section_at hdata h4 s4
  rw [← e2.trans w1] at d1
  rw [← e3.trans w2] at d2
  rw [← e4.trans w3] at d3
  -- nothing follows the image
  have hlast : data.drop (t4 + 4 + l.fw.size) = [] := by
    rw [u32_of_le (t := data.length) (by omega) hdata] at hend
    exact List.drop_eq_nil_of_le (by omega)
  calc data = data.drop 0 := List.drop_zero.symm
    _ = prefixed key1 ++ data.drop t2 := d1
    _ = prefixed key1 ++ (prefixed key2 ++ data.drop t3) := by rw [d2]
    _ = prefixed key1 ++ (prefixed key2 ++ (prefixed crt ++ data.drop t4)) := by rw [d3]
    _ = prefixed key1 ++ (prefixed key2 ++ (prefixed crt ++ prefixed img)) := by
      rw [d4, hlast, List.append_nil]

theorem unstitchLayout_error {data : List UInt8} {revision : Nat} {rc : Int}
    (h : unstitchLayout data revision = some (.error rc)) : rc = eInval := by
  unfold unstitchLayout at h
  split at h
  · cases h
    rfl
  · split at h
    · cases h
      rfl
    · obtain ⟨n1, _, h⟩ := Option.bind_eq_some_iff.mp h
      split at h
      · cases h
        rfl
      · obtain ⟨n2, _, h⟩ := Option.bind_eq_some_iff.mp h
        split at h
        · cases h
          rfl
        · obtain ⟨n3, _, h⟩ := Option.bind_eq_some_iff.mp h
          split at h
          · cases h
            rfl
          · obtain ⟨n4, _, h⟩ := Option.bind_eq_some_iff.mp h
            split at h <;> cases h
            rfl

/-- The rule for `qmrom_unstitch_fw`: what holds of its ends, of a fault in the file, and of what
comes after an allocation or a free where it holds of that, holds of the whole. -/
theorem unstitchFw_induct {data : List UInt8} {revision : Nat} {P : Rom (Except Int UnstitchedFirmware) → Prop}
    (hfault : (unstitchLayout data revision = none ∨ ∃ l fwImg fwCrt key1Crt key2Crt,
      unstitchLayout data revision = some (.ok l) ∧ unstitchCopy data l fwImg fwCrt key1Crt key2Crt = none) →
      P (ofOption none))
    (herror : ∀ rc, rc ≠ 0 → P (pure (.error rc)))
    (hfree : ∀ ptr x, P x → P (qmromFree ptr >>= fun _ => x))
    (halloc : ∀ f, (∀ ptr, P (f ptr)) → P (qmromAlloc >>= f))
    (hok : ∀ l fwImg fwCrt key1Crt key2Crt fws, unstitchLayout data revision = some (.ok l) →
      unstitchCopy data l fwImg fwCrt key1Crt key2Crt = some fws → P (pure (.ok fws))) :
    P (qmromUnstitchFw data revision) := by
  have hnomem : P (pure (.error eNoMem)) := herror eNoMem (by decide)
  have herr : ∀ ptrs, P (unstitchErr ptrs) := by
    intro ptrs
    induction ptrs with
    | nil => exact hnomem
    | cons ptr ptrs ih => exact hfree ptr _ ih
  unfold qmromUnstitchFw
  cases hl : unstitchLayout data revision with
  | none => exact hfault (.inl hl)
  | some layout =>
    cases layout with
    | error rc =>
      rw [unstitchLayout_error hl, ofOption_some_bind]
      exact herror eInval (by decide)
    | ok l =>
      rw [ofOption_some_bind]
      -- each allocation that fails frees those before it
      refine halloc _ fun fwImg => ?_
      cases fwImg with
      | none => exact hnomem
      | some fwImg =>
        refine halloc _ fun fwCrt => ?_
        cases fwCrt with
        | none => exact herr _
        | some fwCrt =>
          refine halloc _ fun key1Crt => ?_
          cases key1Crt with
          | none => exact herr _
          | some key1Crt =>
            refine halloc _ fun key2Crt => ?_
            cases key2Crt with
            | none => exact herr _
            | some key2Crt =>
              dsimp only
              cases hc : unstitchCopy data l fwImg fwCrt key1Crt key2Crt with
              | none => exact hfault (.inr ⟨l, fwImg, fwCrt, key1Crt, key2Crt, hl, hc⟩)
              | some fws => exact hok l fwImg fwCrt key1Crt key2Crt fws hl hc

/-- What `qmrom_unstitch_fw` returns: an error, or the sections the file is made of. -/
def Unstitched (data : List UInt8) : Except Int UnstitchedFirmware → Prop
  | .error rc => rc ≠ 0
  | .ok fws => data = stitched fws

theorem unstitchFw_returns {data : List UInt8} (revision : Nat) (hdata : data.length < 4294967296) :
    Says Machine.said (fun _ => True) (qmromUnstitchFw data revision) fun r _ os => os = [] ∧ Unstitched data r := by
  apply unstitchFw_induct (P := fun x => Says Machine.said (fun _ => True) x fun r _ os => os = [] ∧ Unstitched data r)
  · exact fun _ _ _ _ _ h => nomatch h
  · exact fun rc hrc => Says.pure' fun _ _ => ⟨rfl, hrc⟩
  · exact fun ptr x hx => (listens_free ptr).silent.followed fun _ => hx
  · exact fun f hf => listens_alloc.silent.followed hf
  · exact fun l _ _ _ _ fws hl hc => Says.pure' fun _ _ => ⟨rfl, unstitched_file hdata hl hc⟩

/-- The sections fit an `int`. -/
def SectionsFit (fws : UnstitchedFirmware) : Prop :=
  ∀ s ∈ [fws.key1Crt, fws.key2Crt, fws.fwCrt, fws.fwImg], s.data.length ≤ 2147483647

/-- No section is larger than the file. -/
theorem sectionsFit_of_stitched {fw : Firmware} {fws : UnstitchedFirmware} (h : fw.data = stitched fws) :
    SectionsFit fws := by
  have hfits := fw.fits
  rw [h] at hfits
  simp only [stitched, prefixed, List.length_append, bytes32_length] at hfits
  intro s hs
  simp only [List.mem_cons, List.not_mem_nil, or_false] at hs
  rcases hs with rfl | rfl | rfl | rfl <;> omega

theorem silent_freeSections (fws : UnstitchedFirmware) : SilentRom (freeSections fws) := by
  have hfree : ∀ ptrs : List Nat, SilentRom (ptrs.forM qmromFree) := by
    intro ptrs
    induction ptrs with
    | nil => exact Silent.pure' _
    | cons ptr ptrs ih => exact (listens_free ptr).silent.bind fun _ => ih
  exact hfree _

theorem silent_keyTypeCheck (h : Handle) (key1Crt : Section) : SilentRom (keyTypeCheck h key1Crt) := by
  refine (Silent.ofOption _).bind fun hbk => Silent.ite' (Silent.pure' _) ?_
  exact Silent.ite' (Silent.pure' _) (Silent.pure' _)

/-- The result of a wrong response to data is an error. -/
theorem wrongData_error (got : UInt8) :
    (if got = errFirstKeyCertOrFwVer then pegErrFirstKeyCertOrFwVer else spiProtoWrongResp) ≠ 0 := by
  split <;> decide

theorem wrongData_sends {got expected : UInt8} {cmd data : List UInt8} : SendsData cmd data (wrongData got expected) :=
  SendsData.complaint (wrongData_error got)

/-- The frees at the end do not change what a flash function has said. -/
theorem emits_freeSections {x : Rom Int} {L : Language Said} (fws : UnstitchedFirmware)
    (hx : Emits Machine.said x L) :
    Emits Machine.said (do let rc ← x; freeSections fws; pure rc) L :=
  hx.andThen (silent_freeSections fws)

end Qm35.Qmrom
