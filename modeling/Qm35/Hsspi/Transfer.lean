import Mathlib.Tactic

/- One exchange on the HSSPI (`hsspi.c`): the retrying transfer `spi_xfer` and the
   three users of it, `hsspi_rx`, `hsspi_tx` and `hsspi_pre_read`. What the device and
   the SPI controller answer is a sequence of attempts, one for each pass of the loop
   of `spi_xfer`; the answers are arbitrary. What a call does to the upper layer is in
   its result: the status handed to `received` or `sent`, and the blocks asked for. -/
namespace Qm35.Hsspi

def eAgain : Int := -11

/-! The STC flags. -/

def stcHostWr : UInt8 := 0x80
def stcHostPrd : UInt8 := 0x40
def stcHostRd : UInt8 := 0x20
def stcSocOdw : UInt8 := 0x80
def stcSocOa : UInt8 := 0x40
def stcSocRdy : UInt8 := 0x20
def stcSocErr : UInt8 := 0x10

/-- `struct stc_header` -/
structure StcHeader where
  flags : UInt8
  ul : UInt8
  length : UInt16
deriving DecidableEq

/-- `struct hsspi_block`, its buffer named by `data`. -/
structure Block where
  data : Nat
  length : UInt16
  size : UInt16
deriving DecidableEq

/-- `struct hsspi_layer` with what its `get` answers for a length. -/
structure Layer where
  id : UInt8
  get : UInt16 → Option Block

/-- What `hsspi_wait_ss_ready` finds: the `SS_BUSY` flag, the level of the line, the result
of the wait for the ready event, and the level after it. -/
structure ReadyWait where
  ssBusy : Bool
  ssRdy : Bool
  event : Int
  ssRdyAfter : Bool

/-- One pass of the loop of `spi_xfer`: the wait, the result of `spi_sync_transfer`, and
the header in `hsspi->soc` after it. -/
structure Attempt where
  wait : ReadyWait
  xfer : Int
  soc : StcHeader

/-- `hsspi_wait_ss_ready` -/
def hsspiWaitSsReady (w : ReadyWait) : Int :=
  if !w.ssBusy && w.ssRdy then 0
  else if w.event = 0 then eAgain
  else if w.event < 0 then w.event
  else if !w.ssRdyAfter then eAgain
  else 0

/-- The ready test of `spi_xfer` on the SoC flags. -/
def socReady (soc : StcHeader) : Bool := soc.flags &&& stcSocRdy != 0 && soc.flags &&& 0x0f == 0

/-- A call of `spi_xfer`: its result, `hsspi->soc` after it, and the transfers performed. -/
structure SpiXfer where
  ret : Int
  soc : StcHeader
  xfers : List (Int × StcHeader)

/-- One pass of the loop, up to the test at its end: `ret`, and whether it broke out. -/
def spiXferPass (a : Attempt) (s : SpiXfer) : SpiXfer × Bool :=
  let ret := hsspiWaitSsReady a.wait
  if ret < 0 then ({ s with ret := ret }, false)
  else
    let s := { ret := a.xfer, soc := a.soc, xfers := s.xfers ++ [(a.xfer, a.soc)] }
    if s.ret ≠ 0 then (s, false)
    else if !socReady s.soc then ({ s with ret := eAgain }, false)
    else (s, true)

/-- The loop of `spi_xfer`, with `retry` passes left; `k` numbers the pass. -/
def spiXferLoop (env : Nat → Attempt) : Nat → Nat → SpiXfer → SpiXfer
  | 0, _, s => s
  | retry + 1, k, s =>
    let (s, broke) := spiXferPass (env k) s
    if !broke && s.ret == eAgain then spiXferLoop env retry (k + 1) s else s

def spiXferRetries : Nat := 5

/-- `spi_xfer` -/
def spiXfer (env : Nat → Attempt) : SpiXfer :=
  spiXferLoop env spiXferRetries 0 ⟨0, ⟨0, 0, 0⟩, []⟩

/-- `check_soc_flag` -/
def checkSocFlag (socFlags : UInt8) (isTx : Bool) : Bool :=
  socFlags &&& (stcSocErr ||| stcSocOa) == (if isTx then 0 else stcSocOa)

def ulMaxIdx : Nat := 6

/-- `layer_id_is_valid` -/
def layerIdIsValid (ul : UInt8) : Bool := decide (ul.toNat < ulMaxIdx)

/-- A call of `hsspi_rx`: the host header, the block `get` returned, the status `received`
was called with, the SoC header of the read transfer, `HSSPI_FLAGS_SS_IRQ` after it and
whether `odw_cleared` was called. -/
structure HsspiRx where
  ret : Int
  host : StcHeader
  blk : Option Block
  received : Option Int
  soc : StcHeader
  ssIrq : Bool
  odwCleared : Bool

/-- `hsspi_rx` -/
def hsspiRx (layers : Nat → Option Layer) (env : Nat → Attempt) (ssIrq : Bool) (ul : UInt8)
    (length : UInt16) : HsspiRx :=
  let host : StcHeader := ⟨stcHostRd, ul, length⟩
  let layer := if layerIdIsValid ul then layers ul.toNat else none
  let blk := layer.bind fun layer => layer.get length
  let x := spiXfer env
  -- the upper layer is told before the header is looked at
  let received := blk.map fun _ => x.ret
  if x.ret ≠ 0 then ⟨x.ret, host, blk, received, x.soc, ssIrq, false⟩
  else
    let ret := if !checkSocFlag x.soc.flags false then -1 else x.ret
    let ret := if x.soc.ul ≠ ul ∨ x.soc.length ≠ length then -1 else ret
    let clears := x.soc.flags &&& stcSocOdw == 0 && ssIrq
    ⟨ret, host, blk, received, x.soc, ssIrq && !clears, clears⟩

/-- A call of `hsspi_tx` or `hsspi_pre_read`: the host header, the status `sent` was called
with, and the read that followed. -/
structure HsspiTx where
  ret : Int
  host : StcHeader
  sent : Option Int
  rx : Option HsspiRx

/-- `hsspi_tx`; `env'` answers the transfer of the read after it. -/
def hsspiTx (layers : Nat → Option Layer) (env env' : Nat → Attempt) (ssIrq : Bool) (layer : Layer)
    (blk : Block) : HsspiTx :=
  let host : StcHeader :=
    ⟨if ssIrq then stcHostWr ||| stcHostPrd else stcHostWr, layer.id, blk.length⟩
  let x := spiXfer env
  if x.ret ≠ 0 then ⟨x.ret, host, some x.ret, none⟩
  else if host.flags &&& stcHostPrd != 0 then
    let rx := hsspiRx layers env' ssIrq x.soc.ul x.soc.length
    ⟨rx.ret, host, some x.ret, some rx⟩
  else ⟨x.ret, host, some x.ret, none⟩

/-- `hsspi_pre_read` -/
def hsspiPreRead (layers : Nat → Option Layer) (env env' : Nat → Attempt) (ssIrq : Bool) : HsspiTx :=
  let host : StcHeader := ⟨stcHostPrd, 0, 0⟩
  let x := spiXfer env
  if x.ret ≠ 0 then ⟨x.ret, host, none, none⟩
  else
    let rx := hsspiRx layers env' ssIrq x.soc.ul x.soc.length
    ⟨rx.ret, host, none, some rx⟩

/-! The transfer. -/

/-- What a pass of the loop returns on its own. -/
def attemptRet (a : Attempt) : Int :=
  if hsspiWaitSsReady a.wait < 0 then hsspiWaitSsReady a.wait
  else if a.xfer ≠ 0 then a.xfer
  else if !socReady a.soc then eAgain
  else 0

/-- The `k`-th attempt is the one `spi_xfer` accepts: those before it are retried, and it
succeeds with the SoC ready. -/
def Accepted (env : Nat → Attempt) (k : Nat) : Prop :=
  k < spiXferRetries ∧ (∀ j < k, attemptRet (env j) = eAgain) ∧ attemptRet (env k) = 0

/-- `spi_xfer` after a pass. -/
def afterPass (a : Attempt) (s : SpiXfer) : SpiXfer :=
  if hsspiWaitSsReady a.wait < 0 then { s with ret := attemptRet a }
  else ⟨attemptRet a, a.soc, s.xfers ++ [(a.xfer, a.soc)]⟩

theorem spiXferPass_eq (a : Attempt) (s : SpiXfer) :
    spiXferPass a s = (afterPass a s, attemptRet a == 0) := by
  by_cases hw : hsspiWaitSsReady a.wait < 0
  · have hne : hsspiWaitSsReady a.wait ≠ 0 := by omega
    simp [spiXferPass, afterPass, attemptRet, hw, hne]
  · by_cases hx : a.xfer = 0
    · by_cases hr : socReady a.soc = true
      · simp [spiXferPass, afterPass, attemptRet, hw, hx, hr]
      · simp [spiXferPass, afterPass, attemptRet, hw, hx, hr, eAgain]
    · simp [spiXferPass, afterPass, attemptRet, hw, hx]

section Loop
variable {a : Attempt} {env : Nat → Attempt} {i k retry : Nat} {s : SpiXfer}

@[simp] theorem afterPass_ret : (afterPass a s).ret = attemptRet a := by
  unfold afterPass
  split <;> rfl

theorem afterPass_soc (h : attemptRet a = 0) : (afterPass a s).soc = a.soc := by
  have hw : ¬hsspiWaitSsReady a.wait < 0 := by
    intro hw
    rw [attemptRet, if_pos hw] at h
    omega
  rw [afterPass, if_neg hw]

theorem spiXferLoop_succ : spiXferLoop env (retry + 1) k s =
    if attemptRet (env k) = eAgain then spiXferLoop env retry (k + 1) (afterPass (env k) s)
    else afterPass (env k) s := by
  rw [spiXferLoop, spiXferPass_eq]
  by_cases he : attemptRet (env k) = eAgain
  · simp [he, eAgain]
  · simp [he]

/-- An attempt is accepted after the `k`-th only if the `k`-th is retried. -/
theorem Accepted.retried (h : Accepted env i) (hbefore : ∀ j < k, attemptRet (env j) = eAgain) (hne : i ≠ k) :
    attemptRet (env k) = eAgain ∧ k < i := by
  obtain ⟨_, hi, h0⟩ := h
  rcases Nat.lt_or_gt_of_ne hne with hlt | hgt
  · rw [hbefore i hlt] at h0
    cases h0
  · exact ⟨hi k hgt, hgt⟩

/-- The last attempt made: it is accepted, or none is. -/
theorem afterPass_last (hk : k < spiXferRetries) (hbefore : ∀ j < k, attemptRet (env j) = eAgain)
    (hlast : ∀ i, k < i → ¬Accepted env i) :
    (∃ i, Accepted env i ∧ (afterPass (env k) s).ret = 0 ∧ (afterPass (env k) s).soc = (env i).soc) ∨
    (∀ i, ¬Accepted env i) ∧ (afterPass (env k) s).ret ≠ 0 := by
  rw [afterPass_ret]
  by_cases h0 : attemptRet (env k) = 0
  · exact .inl ⟨k, ⟨hk, hbefore, h0⟩, h0, afterPass_soc h0⟩
  · refine .inr ⟨?_, h0⟩
    intro i hi
    by_cases hik : i = k
    · exact h0 (hik ▸ hi.2.2)
    · exact hlast i (hi.retried hbefore hik).2 hi

/-- The loop: either some attempt is accepted, the result is 0 and the header is that
attempt's, or no attempt is and the result is an error. -/
theorem spiXferLoop_spec (hk : k + (retry + 1) = spiXferRetries)
    (hbefore : ∀ j < k, attemptRet (env j) = eAgain) :
    (∃ i, Accepted env i ∧ (spiXferLoop env (retry + 1) k s).ret = 0 ∧
      (spiXferLoop env (retry + 1) k s).soc = (env i).soc) ∨
    (∀ i, ¬Accepted env i) ∧ (spiXferLoop env (retry + 1) k s).ret ≠ 0 := by
  induction retry generalizing k s with
  | zero =>
    have hloop : spiXferLoop env 1 k s = afterPass (env k) s := by
      rw [spiXferLoop_succ]
      split <;> rfl
    rw [hloop]
    apply afterPass_last (by omega) hbefore
    intro i hki hi
    have := hi.1
    omega
  | succ retry ih =>
    rw [spiXferLoop_succ]
    by_cases he : attemptRet (env k) = eAgain
    · rw [if_pos he]
      apply ih (by omega)
      intro j hj
      rcases Nat.lt_or_eq_of_le (Nat.le_of_lt_succ hj) with hj | rfl
      · exact hbefore j hj
      · exact he
    · rw [if_neg he]
      apply afterPass_last (by omega) hbefore
      intro i hki hi
      exact he (hi.retried hbefore (Nat.ne_of_gt hki)).1

theorem spiXfer_spec (env : Nat → Attempt) :
    (∃ i, Accepted env i ∧ (spiXfer env).ret = 0 ∧ (spiXfer env).soc = (env i).soc) ∨
    (∀ i, ¬Accepted env i) ∧ (spiXfer env).ret ≠ 0 :=
  spiXferLoop_spec rfl (fun j hj => absurd hj (Nat.not_lt_zero j))

theorem Accepted.unique {j : Nat} (h : Accepted env i) (h' : Accepted env j) : i = j := by
  by_contra hne
  have hij := (h'.retried h.2.1 (Ne.symm hne)).2
  have hji := (h.retried h'.2.1 hne).2
  omega

end Loop

end Qm35.Hsspi
