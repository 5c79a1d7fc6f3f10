import Qm35.Lib.Lts
import Qm35.Rom.DbgCert
import Qm35.Rom.Probe

/- The operations of libqmrom on one handle, in any order. An operation has no result
   where one of its accesses would leave the memory it is for: `hstc`, `sstc` or the
   firmware file. None leaves the two buffers. What can still fail is to flash firmware
   that is not what it should be: before anything is put into `hstc` or looked for in
   `sstc`, `qmrom_unstitch_fw` may look for a size or a section outside the file, and
   the key type outside the key 1 certificate; and `flash_fw` is `NULL` before a probe
   has succeeded. -/
namespace Qm35.Qmrom

open ByteMem Trace

inductive Operation where
  | probe (rev : RomCode)
  | probeDevice
  | flashFw (fw : Firmware)
  | flashDbgCert (cert : Firmware)
  | eraseDbgCert

structure Session where
  handle : ProbeHandle
  machine : Machine

/-- A probe function of one of the revisions. -/
def probeOf : RomCode → ProbeHandle → Rom (Int × ProbeHandle)
  | .a0 => qmromA0ProbeDevice
  | .b0 => qmromB0ProbeDevice
  | .c0 => qmromC0ProbeDevice

/-- What an operation does with the handle. -/
def Operation.call (h : ProbeHandle) : Operation → Rom (Int × ProbeHandle)
  | .probe rev => probeOf rev h
  | .probeDevice => qmromProbeDevice h
  | .flashFw fw => do
    let rc ← qmromFlashFw h.toHandle fw
    pure (rc, h)
  | .flashDbgCert cert => do
    let rc ← qmromFlashDbgCert h.toHandle cert
    pure (rc, h)
  | .eraseDbgCert => do
    let rc ← qmromEraseDbgCert h.toHandle
    pure (rc, h)

def opStep (s : Session) (op : Operation) : Option Session :=
  (op.call s.handle s.machine).map fun r => ⟨r.1.2, r.2⟩

/-- All four sections are in the file. -/
def Layout.Inside (l : Layout) (data : List UInt8) : Prop :=
  ∀ e ∈ [l.key1, l.key2, l.crt, l.fw], e.off + e.size ≤ data.length

/-- A size is looked for outside of the file, or a section is, or the key 1 certificate has no key type. -/
def UnstitchFault (data : List UInt8) (revision : Nat) : Prop :=
  unstitchLayout data revision = none ∨
    ∃ l, unstitchLayout data revision = some (.ok l) ∧ (¬l.Inside data ∨ l.key1.size ≤ hbkLoc)

/-- The firmware is not what it should be, or there is no `flash_fw`. This depends on the file and the
handle alone. -/
def FileFault (h : Handle) (fw : Firmware) : Prop :=
  match h.flashFw with
  | none => True
  | some .a0 => False
  | some .b0 | some .c0 => UnstitchFault fw.data h.chipRev

/-! Firmware that is what it should be. -/

theorem sliceAt_inside {data : List UInt8} {e : Extent} (h : e.off + e.size ≤ data.length) :
    ∃ s, sliceAt data e.off e.size = some s := ⟨_, if_pos h⟩

theorem unstitchCopy_of_inside {data : List UInt8} {l : Layout} (h : l.Inside data) (fwImg fwCrt key1Crt key2Crt : Nat) :
    ∃ fws, unstitchCopy data l fwImg fwCrt key1Crt key2Crt = some fws := by
  obtain ⟨key1, h1⟩ := sliceAt_inside (h l.key1 (by simp))
  obtain ⟨key2, h2⟩ := sliceAt_inside (h l.key2 (by simp))
  obtain ⟨crt, h3⟩ := sliceAt_inside (h l.crt (by simp))
  obtain ⟨fw, h4⟩ := sliceAt_inside (h l.fw (by simp))
  unfold unstitchCopy
  rw [h1, h2, h3, h4]
  exact ⟨_, rfl⟩

theorem unstitchCopy_some {data : List UInt8} {l : Layout} {fwImg fwCrt key1Crt key2Crt : Nat}
    {fws : UnstitchedFirmware} (h : unstitchCopy data l fwImg fwCrt key1Crt key2Crt = some fws) :
    l.Inside data ∧ fws.key1Crt.data.length = l.key1.size := by
  unfold unstitchCopy at h
  obtain ⟨key1, h1, h⟩ := Option.bind_eq_some_iff.mp h
  obtain ⟨key2, h2, h⟩ := Option.bind_eq_some_iff.mp h
  obtain ⟨crt, h3, h⟩ := Option.bind_eq_some_iff.mp h
  obtain ⟨fw, h4, h⟩ := Option.bind_eq_some_iff.mp h
  cases h
  refine ⟨?_, (sliceAt_some h1).2.1⟩
  have hall := And.intro (sliceAt_some h1).1 (And.intro (sliceAt_some h2).1
    (And.intro (sliceAt_some h3).1 (sliceAt_some h4).1))
  simpa [Layout.Inside] using hall

/-- What `qmrom_unstitch_fw` returns without a fault can be flashed. -/
theorem unstitchFw_flashable {fw : Firmware} {revision : Nat} (hok : ¬UnstitchFault fw.data revision) :
    Returns (fun _ => True) (qmromUnstitchFw fw.data revision) fun r _ => ∀ fws, r = .ok fws → Flashable fws := by
  apply unstitchFw_induct (P := fun x => Returns (fun _ => True) x fun r _ => ∀ fws, r = .ok fws → Flashable fws)
  · intro hfault
    rcases hfault with hl | ⟨l, fwImg, fwCrt, key1Crt, key2Crt, hl, hc⟩
    · exact absurd (.inl hl) hok
    · refine absurd (.inr ⟨l, hl, .inl fun hin => ?_⟩) hok
      obtain ⟨fws, hfws⟩ := unstitchCopy_of_inside hin fwImg fwCrt key1Crt key2Crt
      rw [hc] at hfws
      cases hfws
  · exact fun rc _ => Returns.pure' fun _ _ _ h => nomatch h
  · exact fun ptr x hx => Returns.bind (J := fun _ _ => True) (fun m _ => ⟨(), _, rfl, trivial⟩) fun _ => hx
  · exact fun f hf => Returns.bind (J := fun _ _ => True) (fun m _ => ⟨_, _, rfl, trivial⟩) hf
  · intro l _ _ _ _ fws hl hc
    refine Returns.pure' fun _ _ fws' h => ?_
    cases h
    refine ⟨sectionsFit_of_stitched (unstitched_file (fits_u32 fw) hl hc), ?_⟩
    rw [(unstitchCopy_some hc).2]
    by_contra hkey
    exact hok (.inr ⟨l, hl, .inr (Nat.le_of_not_lt hkey)⟩)

/-- Memory is given back, which cannot fail. -/
theorem acts_freeSections (fws : UnstitchedFirmware) {fault : Prop} :
    Acts (fun e => ¬e.Line) fault (freeSections fws) := by
  have hfree : ∀ ptrs : List Nat, Acts (fun e => ¬e.Line) fault (ptrs.forM qmromFree : Rom Unit) := by
    intro ptrs
    induction ptrs with
    | nil => exact Performs.pure' _
    | cons ptr ptrs ih => exact Performs.bind (acts_event fun _ => ⟨_, _, _, rfl, rfl, id⟩) fun _ => ih
  exact hfree _

/-- What follows `qmrom_unstitch_fw` where it has returned the sections. -/
theorem acts_b0FlashUnstitchedFw (h : Handle) (fws : UnstitchedFirmware) :
    Acts (fun e => ¬e.Line) (¬Flashable fws) (qmromB0FlashUnstitchedFw h fws) := by
  have hsections : Acts (fun e => ¬e.Line) (¬Flashable fws) (b0FlashSections h fws) :=
    (acts_b0FlashSections h).more fun _ => Event.Protocol.notLine
  exact hsections.bind fun _ => (acts_freeSections fws).bind fun _ => Performs.pure' _

theorem acts_c0FlashUnstitchedFw (h : Handle) (fws : UnstitchedFirmware) :
    Acts (fun e => ¬e.Line) (¬Flashable fws) (do
      let rc ← match ← c0LoadResponse h fws with
        | .error rc => pure rc
        | .ok resp => c0FlashSections h fws resp
      freeSections fws
      pure rc) := by
  have hend : ∀ {x : Rom Int}, Acts (fun e => ¬e.Line) (¬Flashable fws) x →
      Acts (fun e => ¬e.Line) (¬Flashable fws) (do let rc ← x; freeSections fws; pure rc) :=
    fun hx => hx.bind fun _ => (acts_freeSections fws).bind fun _ => Performs.pure' _
  have hload : Acts (fun e => ¬e.Line) (¬Flashable fws) (c0LoadResponse h fws) :=
    (acts_c0LoadResponse h).more fun _ => Event.Protocol.notLine
  refine hload.bind fun r => ?_
  cases r with
  | error rc => exact hend (Performs.pure' rc)
  | ok resp => exact hend ((acts_c0FlashSections h resp).more fun _ => Event.Protocol.notLine)

/-- What comes after `qmrom_unstitch_fw`. -/
theorem safe_unstitched {α : Type} {x : Rom (Except Int UnstitchedFirmware)} {f : Except Int UnstitchedFirmware → Rom α}
    (hx : Returns (fun _ => True) x fun r _ => ∀ fws, r = .ok fws → Flashable fws)
    (herror : ∀ rc, Safe (f (.error rc))) (hok : ∀ fws, Flashable fws → Safe (f (.ok fws))) : Safe (x >>= f) := by
  refine Returns.bind hx fun r m hr => ?_
  cases r with
  | error rc => exact herror rc m trivial
  | ok fws => exact hok fws (hr fws rfl) m trivial

theorem safe_flashFw {h : Handle} {fw : Firmware} (hok : ¬FileFault h fw) : Safe (qmromFlashFw h fw) := by
  unfold FileFault at hok
  unfold qmromFlashFw
  cases hrev : h.flashFw with
  | none =>
    rw [hrev] at hok
    exact absurd trivial hok
  | some rev =>
    rw [hrev] at hok
    cases rev with
    | a0 =>
      obtain ⟨y, heq, hy⟩ := acts_a0FlashFw h fw
      dsimp only
      rw [heq]
      exact (probes_reboot.okThen (hy.more fun _ => Event.Protocol.outside)).returns not_false
    | b0 =>
      refine safe_unstitched (unstitchFw_flashable hok) (fun rc => Returns.pure' fun _ _ => trivial) fun fws hfws => ?_
      exact (acts_b0FlashUnstitchedFw h fws).safe (not_not.mpr hfws)
    | c0 =>
      refine safe_unstitched (unstitchFw_flashable hok) (fun rc => Returns.pure' fun _ _ => trivial) fun fws hfws => ?_
      exact (acts_c0FlashUnstitchedFw h fws).safe (not_not.mpr hfws)

/-! Firmware that is not. -/

/-- The program does not look at `hstc` and `sstc`, and leaves them as they are. -/
def Bufferless {α : Type} (x : Rom α) : Prop :=
  ∀ m hstc sstc, x { m with hstc := hstc, sstc := sstc } =
    (x m).map fun r => (r.1, { r.2 with hstc := hstc, sstc := sstc })

theorem Bufferless.bind {α β : Type} {x : Rom α} {f : α → Rom β} (hx : Bufferless x) (hf : ∀ a, Bufferless (f a)) :
    Bufferless (x >>= f) := by
  intro m hstc sstc
  show (x _).bind (fun r => f r.1 r.2) = ((x m).bind fun r => f r.1 r.2).map _
  rw [hx m hstc sstc, Option.bind_map, Option.map_bind]
  congr 1
  funext r
  exact hf r.1 r.2 hstc sstc

theorem bufferless_pure {α : Type} (a : α) : Bufferless (pure a : Rom α) := fun _ _ _ => rfl

/-- A fault. -/
theorem bufferless_none {α : Type} : Bufferless (ofOption none : Rom α) := fun _ _ _ => rfl

/-- Where the key type is outside of the certificate, nothing comes after it. -/
theorem keyTypeCheck_none (h : Handle) {key1Crt : Section} (hkey : key1Crt.data.length ≤ hbkLoc) :
    keyTypeCheck h key1Crt = ofOption none := by
  unfold keyTypeCheck
  rw [List.getElem?_eq_none hkey]
  rfl

/-- What comes after `qmrom_unstitch_fw` and fails for want of a key type. -/
theorem bufferless_unstitched {α : Type} {data : List UInt8} {revision : Nat}
    {f : Except Int UnstitchedFirmware → Rom α} (hfault : UnstitchFault data revision)
    (herror : ∀ rc, Bufferless (f (.error rc)))
    (hok : ∀ fws, fws.key1Crt.data.length ≤ hbkLoc → Bufferless (f (.ok fws))) :
    Bufferless (qmromUnstitchFw data revision >>= f) := by
  apply unstitchFw_induct (P := fun x => Bufferless (x >>= f))
  · exact fun _ => bufferless_none
  · exact fun rc _ => herror rc
  · exact fun ptr x hx => Bufferless.bind (x := qmromFree ptr) (fun _ _ _ => rfl) fun _ => hx
  · exact fun g hg => Bufferless.bind (x := qmromAlloc) (fun _ _ _ => rfl) hg
  · intro l _ _ _ _ fws hl hc
    obtain ⟨hin, hlen⟩ := unstitchCopy_some hc
    apply hok fws
    rw [hlen]
    rcases hfault with hnone | ⟨l', hl', hfault⟩
    · rw [hl] at hnone
      cases hnone
    · rw [hl] at hl'
      cases hl'
      exact hfault.resolve_left (not_not.mpr hin)

/-- Flashing such firmware does nothing with the buffers, whether or not it gets as far as the fault. -/
theorem bufferless_flashFw {h : Handle} {fw : Firmware} (hfault : FileFault h fw) : Bufferless (qmromFlashFw h fw) := by
  unfold FileFault at hfault
  unfold qmromFlashFw
  cases hrev : h.flashFw with
  | none => exact bufferless_none
  | some rev =>
    rw [hrev] at hfault
    cases rev with
    | a0 => exact hfault.elim
    | b0 =>
      refine bufferless_unstitched hfault (fun rc => bufferless_pure rc) fun fws hkey => ?_
      dsimp only
      unfold qmromB0FlashUnstitchedFw b0FlashSections okThen
      rw [keyTypeCheck_none h hkey]
      exact bufferless_none
    | c0 =>
      refine bufferless_unstitched hfault (fun rc => bufferless_pure rc) fun fws hkey => ?_
      dsimp only
      unfold c0LoadResponse okElse
      rw [keyTypeCheck_none h hkey]
      exact bufferless_none

/-! Any sequence. -/

theorem safe_call (h : ProbeHandle) {op : Operation} (hok : ∀ fw, op = .flashFw fw → ¬FileFault h.toHandle fw) :
    Safe (op.call h) := by
  have hret : ∀ {x : Rom Int}, Safe x → Safe (do let rc ← x; pure (rc, h)) := fun hx =>
    Returns.bind hx fun _ => Returns.pure' fun _ _ => trivial
  cases op with
  | probe rev =>
    cases rev with
    | a0 => exact (probes_a0ProbeDevice h).safe not_false
    | b0 => exact (probes_b0ProbeDevice h).safe not_false
    | c0 => exact (probes_c0ProbeDevice h).safe not_false
  | probeDevice => exact (probes_probeDevice h).safe not_false
  | flashFw fw => exact hret (safe_flashFw (hok fw rfl))
  | flashDbgCert cert => exact hret ((acts_flashDbgCert _ cert).safe not_false)
  | eraseDbgCert => exact hret ((acts_eraseDbgCert _).safe not_false)

/-- An operation without a result has been given firmware that is not what it should be. -/
theorem opStep_none {s : Session} {op : Operation} (hnone : opStep s op = none) :
    ∃ fw, op = .flashFw fw ∧ FileFault s.handle.toHandle fw := by
  by_contra hno
  obtain ⟨r, m', hrun⟩ := (safe_call s.handle fun fw hop hfault => hno ⟨fw, hop, hfault⟩).some s.machine
  unfold opStep at hnone
  rw [hrun] at hnone
  cases hnone

/-- Every sequence of operations runs to its end, or up to firmware that is not what it should be and
that is given up without a look at the buffers: no access to `hstc` or `sstc` is outside of what is
allocated. -/
theorem operations_inside (s : Session) (ops : List Operation) :
    (∃ t, Lts.run opStep s ops = some t) ∨
      ∃ done fw rest t, ops = done ++ .flashFw fw :: rest ∧ Lts.run opStep s done = some t ∧
        opStep t (.flashFw fw) = none ∧ FileFault t.handle.toHandle fw ∧
        Bufferless (qmromFlashFw t.handle.toHandle fw) := by
  induction ops generalizing s with
  | nil => exact .inl ⟨s, rfl⟩
  | cons op ops ih =>
    cases hstep : opStep s op with
    | none =>
      obtain ⟨fw, rfl, hfault⟩ := opStep_none hstep
      exact .inr ⟨[], fw, ops, s, rfl, rfl, hstep, hfault, bufferless_flashFw hfault⟩
    | some s' =>
      rcases ih s' with ⟨t, ht⟩ | ⟨done, fw, rest, t, hops, ht, hfault⟩
      · exact .inl ⟨t, Lts.run_cons_some.mpr ⟨s', hstep, ht⟩⟩
      · refine .inr ⟨op :: done, fw, rest, t, ?_, Lts.run_cons_some.mpr ⟨s', hstep, ht⟩, hfault⟩
        rw [hops, List.cons_append]

end Qm35.Qmrom
