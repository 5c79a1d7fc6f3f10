import Qm35.Hsspi.Transfer

/- Whether the status an upper layer is told agrees with what `hsspi_rx` makes of the
   read. `received` is called with the result of the transfer alone, before the SoC
   header is looked at; the checks of the flags, of `ul` and of the length only change
   what `hsspi_rx` returns. The two agree exactly where no block was handed out, or no
   transfer was accepted, or the header of the accepted one passes the checks. -/
namespace Qm35.Hsspi

/-- The header of a read: output active, no error, and for what was asked. -/
def HeaderFits (soc : StcHeader) (ul : UInt8) (length : UInt16) : Prop :=
  soc.flags &&& stcSocOa ≠ 0 ∧ soc.flags &&& stcSocErr = 0 ∧ soc.ul = ul ∧ soc.length = length

/-- The layer is registered and hands out a block. -/
def GetsBlock (layers : Nat → Option Layer) (ul : UInt8) (length : UInt16) : Prop :=
  layerIdIsValid ul = true ∧ ∃ layer blk, layers ul.toNat = some layer ∧ layer.get length = some blk

/-- A block that was handed out comes back with status 0 only with a header that fits, and
exactly when the read returns 0. -/
def StatusAgrees (r : HsspiRx) (ul : UInt8) (length : UInt16) : Prop :=
  ∀ blk, r.blk = some blk →
    ∃ st, r.received = some st ∧ (st = 0 → HeaderFits r.soc ul length) ∧ (st = 0 ↔ r.ret = 0)

theorem checkSocFlag_rx (f : UInt8) :
    checkSocFlag f false = true ↔ f &&& stcSocOa ≠ 0 ∧ f &&& stcSocErr = 0 := by
  have h : ∀ n : Fin 256, checkSocFlag (UInt8.ofFin n) false = true ↔
      UInt8.ofFin n &&& stcSocOa ≠ 0 ∧ UInt8.ofFin n &&& stcSocErr = 0 := by decide +kernel
  exact h f.toFin

section Rx
variable (layers : Nat → Option Layer) (env : Nat → Attempt) (ssIrq : Bool) (ul : UInt8) (length : UInt16)

theorem hsspiRx_blk : (∃ blk, (hsspiRx layers env ssIrq ul length).blk = some blk) ↔
    GetsBlock layers ul length := by
  have hblk : (hsspiRx layers env ssIrq ul length).blk =
      (if layerIdIsValid ul then layers ul.toNat else none).bind fun layer => layer.get length := by
    unfold hsspiRx
    dsimp only
    split <;> rfl
  rw [hblk, GetsBlock]
  by_cases hv : layerIdIsValid ul = true
  · simp only [hv, if_true, Option.bind_eq_some_iff, true_and]
    constructor
    · rintro ⟨blk, layer, hl, hg⟩
      exact ⟨layer, blk, hl, hg⟩
    · rintro ⟨layer, blk, hl, hg⟩
      exact ⟨blk, layer, hl, hg⟩
  · simp [hv]

theorem hsspiRx_received : (hsspiRx layers env ssIrq ul length).received =
    (hsspiRx layers env ssIrq ul length).blk.map fun _ => (spiXfer env).ret := by
  unfold hsspiRx
  dsimp only
  split <;> rfl

theorem hsspiRx_soc : (hsspiRx layers env ssIrq ul length).soc = (spiXfer env).soc := by
  unfold hsspiRx
  dsimp only
  split <;> rfl

/-- `hsspi_rx` returns 0 exactly when the transfer succeeds and its header fits. -/
theorem hsspiRx_ret : (hsspiRx layers env ssIrq ul length).ret = 0 ↔
    (spiXfer env).ret = 0 ∧ HeaderFits (spiXfer env).soc ul length := by
  have hfits : HeaderFits (spiXfer env).soc ul length ↔
      checkSocFlag (spiXfer env).soc.flags false = true ∧
        ¬((spiXfer env).soc.ul ≠ ul ∨ (spiXfer env).soc.length ≠ length) := by
    rw [checkSocFlag_rx, HeaderFits, not_or, not_not, not_not, and_assoc]
  rw [hfits]
  unfold hsspiRx
  dsimp only
  by_cases hx : (spiXfer env).ret = 0
  · rw [if_neg (not_not.mpr hx)]
    by_cases hf : checkSocFlag (spiXfer env).soc.flags false = true
    · simp [hx, hf]
    · simp [hf]
  · rw [if_pos hx]
    simp [hx]

/-- Status and result agree exactly where no block is handed out, or no attempt of the
transfer is accepted, or the header of the accepted one fits. -/
theorem status_agrees_iff : StatusAgrees (hsspiRx layers env ssIrq ul length) ul length ↔
    (GetsBlock layers ul length → ∀ k, Accepted env k → HeaderFits (env k).soc ul length) := by
  constructor
  · intro h hget k hk
    obtain ⟨blk, hblk⟩ := (hsspiRx_blk layers env ssIrq ul length).mpr hget
    obtain ⟨st, hst, hfit, _⟩ := h blk hblk
    rw [hsspiRx_received, hblk, Option.map_some, Option.some.injEq] at hst
    rcases spiXfer_spec env with ⟨i, hi, hret, hsoc⟩ | ⟨hno, _⟩
    · have hf := hfit (hst.symm.trans hret)
      rw [hsspiRx_soc, hsoc, hi.unique hk] at hf
      exact hf
    · exact absurd hk (hno k)
  · intro h blk hblk
    refine ⟨(spiXfer env).ret, by rw [hsspiRx_received, hblk]; rfl, ?_⟩
    rw [hsspiRx_ret, hsspiRx_soc]
    rcases spiXfer_spec env with ⟨i, hi, hret, hsoc⟩ | ⟨_, hret⟩
    · have hf := h ((hsspiRx_blk layers env ssIrq ul length).mp ⟨blk, hblk⟩) i hi
      rw [← hsoc] at hf
      exact ⟨fun _ => hf, fun _ => ⟨hret, hf⟩, fun _ => hret⟩
    · exact ⟨fun h0 => absurd h0 hret, fun h0 => absurd h0 hret, fun h0 => h0.1⟩

end Rx

/-- A read of two bytes for the UCI layer that is answered with the error bit set. -/
theorem not_status_agrees : ¬∀ layers env ssIrq ul length,
    StatusAgrees (hsspiRx layers env ssIrq ul length) ul length := by
  intro hall
  have h := hall (fun _ => some ⟨2, fun length => some ⟨0, length, length⟩⟩)
    (fun _ => ⟨⟨false, true, 0, true⟩, 0, ⟨stcSocOa ||| stcSocRdy ||| stcSocErr, 2, 2⟩⟩) false 2 2
    ⟨0, 2, 2⟩ (by decide)
  obtain ⟨st, hst, hfit, _⟩ := h
  have h0 : st = 0 := by
    have heval : some (0 : Int) = some st := by
      rw [← hst]
      decide
    exact (Option.some.inj heval).symm
  exact absurd (hfit h0).2.1 (by decide)

end Qm35.Hsspi
