import Qm35.Rom.A0
import Qm35.Rom.B0
import Qm35.Rom.C0

/- Whether the success of `qmrom_flash_fw` means that the firmware is in the device. On
   the A0 and the B0 it does: a run that returns 0 has written the load command and all
   of the data, whatever the device answers, and every complaint about a response comes
   with an error. On the C0 it does exactly where the answer to the load command is the
   expected one, since for any other the function still returns 0. -/
namespace Qm35.Qmrom

open ByteMem Trace

/-- `qmrom_flash_fw` -/
def qmromFlashFw (h : Handle) (fw : Firmware) : Rom Int :=
  match h.flashFw with
  | some .a0 => qmromA0FlashFw h fw
  | some .b0 => qmromB0FlashFw h fw
  | some .c0 => qmromC0FlashFw h fw
  | none => ofOption none

/-- The load command and then the whole image, or the sections of the file in order, have been
written. -/
def Loaded (h : Handle) (fw : Firmware) (os : List Said) : Prop :=
  match h.flashFw with
  | some .a0 => os ∈ a0Load fw
  | some .b0 => ∃ fws, fw.data = stitched fws ∧ os ∈ b0Load h fws
  | some .c0 => ∃ fws, fw.data = stitched fws ∧ os ∈ c0Load h fws
  | none => False

/-- A run that returns 0 has loaded the firmware, and a complaint comes with an error. -/
def FlashSound (h : Handle) (fw : Firmware) (m : Machine) : Prop :=
  ∀ rc m', qmromFlashFw h fw m = some (rc, m') →
    (rc = 0 → Loaded h fw m'.said) ∧ ∀ got expected, .wrongResp got expected ∈ m'.said → rc ≠ 0

/-- The C0 answers the load command with another response than `WAITING_FOR_FIRST_KEY_CERT`. -/
def LoadRefused (h : Handle) (fw : Firmware) (m : Machine) : Prop :=
  h.flashFw = some .c0 ∧ ∃ fws resp m1 m2, qmromUnstitchFw fw.data h.chipRev m = some (.ok fws, m1) ∧
    c0LoadResponse h fws m1 = some (.ok resp, m2) ∧ resp ≠ waitingForFirstKeyCert

/-! What is said in a load are writes. -/

/-- Nothing is complained about. -/
def writesOnly : Language Said := {os | ∀ o ∈ os, ∃ payload, o = .write payload}

theorem mul_writesOnly {L M : Language Said} (hL : L ≤ writesOnly) (hM : M ≤ writesOnly) : L * M ≤ writesOnly := by
  intro os hos o ho
  obtain ⟨a, ha, b, hb, rfl⟩ := Language.mem_mul.mp hos
  rcases List.mem_append.mp ho with ho | ho
  · exact hL ha o ho
  · exact hM hb o ho

theorem write_writesOnly (payload : List UInt8) : ({[.write payload]} : Language Said) ≤ writesOnly := by
  intro os hos o ho
  cases hos
  exact ⟨payload, List.mem_singleton.mp ho⟩

theorem chunked_writesOnly (cmd data : List UInt8) : chunked cmd data ≤ writesOnly := by
  intro os ⟨chunks, hos, _⟩ o ho
  subst hos
  obtain ⟨c, _, rfl⟩ := List.mem_map.mp ho
  exact ⟨_, rfl⟩

theorem sections_writesOnly (cert img : List UInt8) (fws : UnstitchedFirmware) :
    chunked cert fws.key1Crt.data * (chunked cert fws.key2Crt.data *
      (chunked cert fws.fwCrt.data * chunked img fws.fwImg.data)) ≤ writesOnly :=
  mul_writesOnly (chunked_writesOnly _ _) (mul_writesOnly (chunked_writesOnly _ _)
    (mul_writesOnly (chunked_writesOnly _ _) (chunked_writesOnly _ _)))

theorem loaded_writesOnly {h : Handle} {fw : Firmware} {os : List Said} (hl : Loaded h fw os) :
    os ∈ writesOnly := by
  unfold Loaded at hl
  split at hl
  · refine mul_writesOnly (write_writesOnly _) (mul_writesOnly ?_ (mul_writesOnly (write_writesOnly _)
      (chunked_writesOnly _ _))) hl
    intro os hos o ho
    cases hos
    simp only [List.mem_cons, List.not_mem_nil, or_false, or_self] at ho
    exact ⟨_, ho⟩
  · obtain ⟨fws, _, hos⟩ := hl
    exact mul_writesOnly (write_writesOnly _) (sections_writesOnly _ _ _) hos
  · obtain ⟨fws, _, hos⟩ := hl
    exact mul_writesOnly (mul_writesOnly (write_writesOnly _) (write_writesOnly _)) (sections_writesOnly _ _ _) hos
  · exact hl.elim

/-! Each revision. -/

/-- A run that returns 0 only where the firmware is loaded is sound. -/
theorem flashSound_of_loaded {h : Handle} {fw : Firmware} {m : Machine}
    (hl : ∀ m', qmromFlashFw h fw m = some (0, m') → Loaded h fw m'.said) : FlashSound h fw m := by
  intro rc m' hrun
  refine ⟨fun h0 => hl m' (h0 ▸ hrun), ?_⟩
  intro got expected hmem h0
  obtain ⟨payload, hw⟩ := loaded_writesOnly (hl m' (h0 ▸ hrun)) _ hmem
  cases hw

theorem fits_u32 (fw : Firmware) : fw.data.length < 4294967296 := by
  have := fw.fits
  omega

theorem b0FlashFw_loaded {h : Handle} {fw : Firmware} {m m' : Machine} (hm : m.said = [])
    (hrun : qmromB0FlashFw h fw m = some (0, m')) : ∃ fws, fw.data = stitched fws ∧ m'.said ∈ b0Load h fws := by
  obtain ⟨r, m1, hun, hrun⟩ := bind_some.mp hrun
  obtain ⟨_, hos1, rfl, hr⟩ := unstitchFw_returns h.chipRev (fits_u32 fw) m r m1 trivial hun
  cases r with
  | error rc =>
    obtain ⟨rfl, rfl⟩ := pure_some.mp hrun
    exact absurd rfl hr
  | ok fws =>
    obtain ⟨os, hos, hload⟩ := b0FlashUnstitchedFw_emits h (sectionsFit_of_stitched hr) m1 0 m' trivial hrun
    rw [hos1, hm] at hos
    exact ⟨fws, hr, hos ▸ hload rfl⟩

/-- On the C0 the answer to the load command must be the expected one. -/
theorem c0FlashFw_loaded {h : Handle} {fw : Firmware} {m m' : Machine} (hm : m.said = [])
    (hc0 : h.flashFw = some .c0) (hok : ¬LoadRefused h fw m) (hrun : qmromC0FlashFw h fw m = some (0, m')) :
    ∃ fws, fw.data = stitched fws ∧ m'.said ∈ c0Load h fws := by
  obtain ⟨r, m1, hun, hrun⟩ := bind_some.mp hrun
  obtain ⟨_, hos1, rfl, hr⟩ := unstitchFw_returns h.chipRev (fits_u32 fw) m r m1 trivial hun
  cases r with
  | error rc =>
    obtain ⟨rfl, rfl⟩ := pure_some.mp hrun
    exact absurd rfl hr
  | ok fws =>
    obtain ⟨r, m2, hresp, hrun⟩ := bind_some.mp hrun
    obtain ⟨os2, hos2, herr, hyield⟩ := c0LoadResponse_yields h fws m1 r m2 trivial hresp
    cases r with
    | error rc =>
      have hnever : Emits Machine.said (pure rc) (0 : Language Said) := Emits.error (herr rc rfl)
      obtain ⟨_, _, hno⟩ := emits_freeSections fws hnever m2 0 m' trivial hrun
      exact absurd (hno rfl) (Language.notMem_zero _)
    | ok resp =>
      have hfirst : resp = waitingForFirstKeyCert := by
        by_contra hne
        exact hok ⟨hc0, fws, resp, m1, m2, hun, hresp, hne⟩
      subst hfirst
      have hsections := c0FlashSections_emits h (sectionsFit_of_stitched hr)
      obtain ⟨os3, hos3, hload⟩ := emits_freeSections fws hsections m2 0 m' trivial hrun
      rw [hos2, hos1, hm] at hos3
      exact ⟨fws, hr, hos3 ▸ Language.append_mem_mul (hyield _ rfl) (hload rfl)⟩

theorem freeSections_some (fws : UnstitchedFirmware) (m : Machine) :
    ∃ m', freeSections fws m = some ((), m') ∧ m'.said = m.said := by
  obtain ⟨m', hrun⟩ : ∃ m', freeSections fws m = some ((), m') := ⟨_, rfl⟩
  obtain ⟨_, hos, rfl⟩ := silent_freeSections fws m () m' trivial hrun
  exact ⟨m', hrun, by rw [hos, List.append_nil]⟩

/-- A refused load ends with 0 and a complaint. -/
theorem loadRefused_run {h : Handle} {fw : Firmware} {m : Machine} (hr : LoadRefused h fw m) :
    ∃ m' got, qmromFlashFw h fw m = some (0, m') ∧ .wrongResp got waitingForFirstKeyCert ∈ m'.said := by
  obtain ⟨hc0, fws, resp, m1, m2, hun, hresp, hne⟩ := hr
  obtain ⟨m3, hfree, hsaid⟩ := freeSections_some fws (m2.complain resp waitingForFirstKeyCert)
  have hsections : c0FlashSections h fws resp m2 = some (0, m2.complain resp waitingForFirstKeyCert) := by
    unfold c0FlashSections
    rw [if_pos hne]
    exact wrongResp_some _ _ _ _
  refine ⟨m3, resp, ?_, ?_⟩
  · unfold qmromFlashFw
    rw [hc0]
    refine bind_some.mpr ⟨_, m1, hun, bind_some.mpr ⟨_, m2, hresp, bind_some.mpr ⟨0, _, hsections, ?_⟩⟩⟩
    exact bind_some.mpr ⟨(), m3, hfree, rfl⟩
  · rw [hsaid, complain_said]
    simp

/-- Success means that the firmware is loaded exactly where a C0 does not refuse the load. -/
theorem flash_sound_iff (h : Handle) (fw : Firmware) (hstc sstc : Mem) (dev : Nat → Answer) :
    FlashSound h fw (machineInit hstc sstc dev) ↔ ¬LoadRefused h fw (machineInit hstc sstc dev) := by
  constructor
  · intro hsound hr
    obtain ⟨m', got, hrun, hmem⟩ := loadRefused_run hr
    exact (hsound 0 m' hrun).2 got _ hmem rfl
  · intro hok
    apply flashSound_of_loaded
    intro m' hrun
    unfold qmromFlashFw at hrun
    unfold Loaded
    cases hrev : h.flashFw with
    | none =>
      rw [hrev] at hrun
      cases hrun
    | some rev =>
      rw [hrev] at hrun
      cases rev with
      | a0 =>
        obtain ⟨os, hos, hload⟩ := a0FlashFw_emits h fw _ 0 m' trivial hrun
        rw [show (machineInit hstc sstc dev).said = [] from rfl, List.nil_append] at hos
        exact hos ▸ hload rfl
      | b0 => exact b0FlashFw_loaded rfl hrun
      | c0 => exact c0FlashFw_loaded rfl hrev hok hrun

/-- A file with a key 1 certificate of 13 bytes and nothing else. -/
def smallFirmware : Firmware := ⟨prefixed (List.replicate 13 2) ++ (prefixed [] ++ (prefixed [] ++ prefixed [])), by decide⟩

/-- A C0 that answers the load command with `ERR_FIRST_KEY_CERT_OR_FW_VER`. -/
def refusingDevice (n : Nat) : Answer where
  rc := 0
  bytes i := if i = 0 then (if n < 18 then 0x22 else 0x80) else if i = 2 then 1 else if i = 4 then errFirstKeyCertOrFwVer else 0
  alloc := true

/-- It is given nothing but the load command, and the function returns 0. -/
theorem not_flash_sound : ¬∀ h fw hstc sstc dev, FlashSound h fw (machineInit hstc sstc dev) := by
  intro hall
  have heval : (qmromFlashFw ⟨10, 0xC0, 5, some .c0⟩ smallFirmware (machineInit (fun _ => 0) (fun _ => 0) refusingDevice)).map
      (fun r => (r.1, r.2.said)) = some (0, [.write (bytes32 6), .write (bytes32 1), .wrongResp 0x15 0x11]) := by
    decide +kernel
  obtain ⟨⟨rc, m'⟩, hrun, heq⟩ := Option.map_eq_some_iff.mp heval
  obtain ⟨h0, hsaid⟩ := Prod.mk.inj heq
  refine (hall _ _ _ _ _ rc m' hrun).2 0x15 0x11 ?_ h0
  rw [show m'.said = _ from hsaid]
  simp

end Qm35.Qmrom
