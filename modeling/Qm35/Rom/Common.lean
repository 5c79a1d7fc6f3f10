import Qm35.Lib.Bytes
import Qm35.Lib.Trace

/- The ROM protocol (`qmrom_common.c`): frames of a 4-byte `struct stc` header and a
   payload, built in `hstc` and exchanged for what the device puts into `sstc`. The
   machine holds both buffers, byte by byte, the answers of the outside world and a
   log of everything asked of it; the answer to a call is the one at the place its
   entry takes in the log, so that a run meets an arbitrary sequence of results and
   response bytes. A program fails where the C code would access memory outside an
   object. -/
namespace Qm35.Qmrom

open ByteMem Trace

def eInval : Int := -22
def eNoMem : Int := -12
def spiErrInvalidStcLen : Int := -8010
def spiErrWaitReadyTimeout : Int := -8011
def pegErrFirstKeyCertOrFwVer : Int := -9005
def spiProtoWrongResp : Int := -10001

/-- `sizeof(struct stc)` -/
def sizeofStc : Nat := 4

def maxStcFrameLen : Nat := 2048

/-- What `qmrom_allocate_stcs` allocates for each buffer. -/
def stcBufSize : Nat := maxStcFrameLen + 4

/-! The host's flags, and the SoC's. -/

def hostWrite : UInt8 := 0x80
def hostPreRead : UInt8 := 0x40
def hostRead : UInt8 := 0x20
def socOutWaiting : UInt8 := 0x80
def socOutActive : UInt8 := 0x40
def spiShReadyCmdBitMask : UInt8 := 0x20

/-- `enum chip_revision_e` -/
def chipRevisionA0 : Nat := 0xA0

/-- The life cycle states the flash functions look at. -/
def ccBsvChipManufactureLcs : Nat := 0
def ccBsvSecureLcs : Nat := 5

/-- The key type in the key 1 certificate. -/
def hbkLoc : Nat := 12
def hbk2eIcv : UInt8 := 0
def hbk2eOem : UInt8 := 1

/-- The revision whose functions are in `rom_ops`. -/
inductive RomCode where
  | a0
  | b0
  | c0
deriving DecidableEq

/-- `struct qmrom_handle`, without its buffers. -/
structure Handle where
  commsRetries : Int
  chipRev : Nat
  lcsState : Nat
  flashFw : Option RomCode

/-- `struct firmware`: no more than `INT_MAX` bytes are read from a firmware file. -/
structure Firmware where
  data : List UInt8
  fits : data.length ≤ 2147483647

/-- What the outside answers: a result code, received bytes, or whether memory was allocated. -/
structure Answer where
  rc : Int
  bytes : Mem
  alloc : Bool

inductive Event where
  | xfer (tx : List UInt8) (rc : Int)
  | readyLine (rc : Int)
  | csLevel (level : Nat) (rc : Int)
  | reset
  | alloc (ok : Bool)
  | free (ptr : Nat)
  /-- The log message for a response other than the expected one. -/
  | wrongResp (got expected : UInt8)

structure Machine where
  hstc : Mem
  sstc : Mem
  dev : Nat → Answer
  log : List Event

abbrev Rom := StateT Machine Option

def machineInit (hstc sstc : Mem) (dev : Nat → Answer) : Machine := ⟨hstc, sstc, dev, []⟩

/-! What is asked of the outside. -/

/-- The answer to the next call, which is logged. -/
def ask (event : Answer → Event) : Rom Answer := fun m =>
  let a := m.dev m.log.length
  some (a, { m with log := m.log ++ [event a] })

def emit (event : Event) : Rom Unit := fun m => some ((), { m with log := m.log ++ [event] })

/-- `qmrom_spi_transfer` of the first `size` bytes of `hstc` and `sstc`. -/
def qmromSpiTransfer (size : Nat) : Rom Int := fun m =>
  if stcBufSize < size then none
  else
    let a := m.dev m.log.length
    some (a.rc, { m with
      sstc := fun i => if i < size then a.bytes i else m.sstc i
      log := m.log ++ [.xfer (m.hstc.read 0 size) a.rc] })

def qmromSpiWaitForReadyLine : Rom Int := do
  let a ← ask fun a => .readyLine a.rc
  pure a.rc

def qmromSpiSetCsLevel (level : Nat) : Rom Int := do
  let a ← ask fun a => .csLevel level a.rc
  pure a.rc

/-- `qmrom_alloc`: a fresh pointer, or `NULL`. -/
def qmromAlloc : Rom (Option Nat) := fun m =>
  let a := m.dev m.log.length
  some (if a.alloc then some m.log.length else none, { m with log := m.log ++ [.alloc a.alloc] })

def qmromFree (ptr : Nat) : Rom Unit := emit (.free ptr)

/-! The two buffers. -/

def hstcStore (off : Nat) (bs : List UInt8) : Rom Unit := fun m =>
  if stcBufSize < off + bs.length then none else some ((), { m with hstc := m.hstc.write off bs })

/-- `hstc->all = 0` -/
def hstcClear : Rom Unit := hstcStore 0 (List.replicate sizeofStc 0)

/-- The header, with `ul` 1. -/
def hstcHeader (flags : UInt8) (len : Nat) : Rom Unit := hstcStore 0 ([flags, 1] ++ bytes16 len)

def hstcLen : Rom Nat := fun m => some (m.hstc.le16 2, m)

def rawFlags : Rom UInt8 := fun m => some (m.sstc 0, m)

def sstcLen : Rom Nat := fun m => some (m.sstc.le16 2, m)

/-- `sstc->payload[0]` -/
def payload0 : Rom UInt8 := fun m => some (m.sstc sizeofStc, m)

def setRawFlags (flags : UInt8) : Rom Unit := fun m => some ((), { m with sstc := m.sstc.write 0 [flags] })

/-- `sstc->len = bswap_16(sstc->len)` -/
def bswapLen : Rom Unit := fun m => some ((), { m with sstc := m.sstc.write 2 [m.sstc 3, m.sstc 2] })

/-! The frames. -/

def qmromPreRead : Rom Int := do
  hstcHeader hostPreRead 0
  hstcStore sizeofStc [0]
  let len ← hstcLen
  qmromSpiTransfer (sizeofStc + len)

def qmromRead : Rom Int := do
  let rdSize ← sstcLen
  if maxStcFrameLen < rdSize then pure spiErrInvalidStcLen
  else do
    hstcStore 0 (List.replicate (sizeofStc + rdSize) 0)
    hstcHeader hostRead rdSize
    qmromSpiTransfer (sizeofStc + rdSize)

/-- A write frame with the payload, which the write functions build. -/
def writeFrame (payload : List UInt8) : Rom Int := do
  hstcHeader hostWrite payload.length
  hstcStore sizeofStc payload
  let len ← hstcLen
  qmromSpiTransfer (sizeofStc + len)

def qmromWriteCmd (cmd : UInt8) : Rom Int := writeFrame [cmd]

def qmromWriteCmd32 (cmd : Nat) : Rom Int := writeFrame (bytes32 cmd)

def qmromWriteSizeCmd (cmd : UInt8) (data : List UInt8) : Rom Int := writeFrame ([cmd] ++ data)

def qmromWriteSizeCmd32 (cmd : Nat) (data : List UInt8) : Rom Int := writeFrame (bytes32 cmd ++ data)

/-- `qmrom_reboot_bootloader` -/
def qmromRebootBootloader : Rom Int :=
  okThen (qmromSpiSetCsLevel 0) do
    emit .reset
    okThen (qmromSpiSetCsLevel 1) (pure 0)

/-- The initial value of `int retries`, as the 32-bit number that `retries--` counts down: a
negative value goes on down and wraps. -/
def Handle.retries (h : Handle) : Nat := (h.commsRetries % 4294967296).toNat

/-- The error path of a response that is not the expected one. -/
def wrongResp (got expected : UInt8) (rc : Int) : Rom Int := do
  emit (.wrongResp got expected)
  pure rc

/-- `sent < fw->size`. `sent` is an `int`: from 2^31 on it is negative, and as `size_t` not
below the size. -/
def moreToSend (size sent : Nat) : Bool := decide (sent < size) && decide (sent < 2147483648)

/-- `tx_bytes` -/
def txBytes (size sent chunkSize : Nat) : Nat := min (u32 (size - sent)) chunkSize

/-- `tx_bytes` of data from `bin_data` on. -/
def chunkAt (data : List UInt8) (sent chunkSize : Nat) : List UInt8 :=
  (data.drop sent).take (txBytes data.length sent chunkSize)

/-- The loops that send `size` bytes in chunks, on fuel: a pass at `sent` goes on with the
rest of the loop. -/
def chunkLoop (size chunkSize : Nat) (pass : Nat → Rom Int → Rom Int) : Nat → Nat → Rom Int
  | 0, _ => ofOption none
  | fuel + 1, sent =>
    if moreToSend size sent then
      pass sent (chunkLoop size chunkSize pass fuel (sent + txBytes size sent chunkSize))
    else pure 0

/-- `do xfer while (retries-- && sstc->raw_flags == 0)` -/
def pollLoop (xfer : Rom Unit) : Nat → Rom Unit
  | 0 => xfer
  | retries + 1 => do
    xfer
    let flags ← rawFlags
    if flags = 0 then pollLoop xfer retries else pure ()

/-- The rule for the loops: what holds of the end and of a run out of fuel, and is kept by a
pass, holds of the loop. -/
theorem chunkLoop_induct {size chunkSize : Nat} {pass : Nat → Rom Int → Rom Int} {P : Nat → Rom Int → Prop}
    (hfuel : ∀ sent, P sent (ofOption none)) (hend : ∀ sent, moreToSend size sent = false → P sent (pure 0))
    (hpass : ∀ sent next, moreToSend size sent = true → P (sent + txBytes size sent chunkSize) next →
      P sent (pass sent next))
    (fuel sent : Nat) : P sent (chunkLoop size chunkSize pass fuel sent) := by
  induction fuel generalizing sent with
  | zero => exact hfuel sent
  | succ fuel ih =>
    unfold chunkLoop
    by_cases hmore : moreToSend size sent = true
    · rw [if_pos hmore]
      exact hpass sent _ hmore (ih _)
    · rw [if_neg hmore]
      exact hend sent (Bool.eq_false_iff.mpr hmore)

/-- Every pass sends something, so one unit of fuel for each byte left and one for the end are
enough. -/
theorem chunkLoop_fuel {size chunkSize : Nat} (pass : Nat → Rom Int → Rom Int) (hsize : size ≤ 2147483647)
    (hchunk : 0 < chunkSize) {fuel sent : Nat} (hfuel : size - sent < fuel) (more : Nat) :
    chunkLoop size chunkSize pass (fuel + more) sent = chunkLoop size chunkSize pass fuel sent := by
  induction fuel generalizing sent with
  | zero => exact absurd hfuel (Nat.not_lt_zero _)
  | succ fuel ih =>
    rw [Nat.succ_add, chunkLoop, chunkLoop]
    by_cases hmore : moreToSend size sent = true
    · have hlt : sent < size := by
        simp only [moreToSend, Bool.and_eq_true, decide_eq_true_eq] at hmore
        exact hmore.1
      have hpos : 0 < txBytes size sent chunkSize := by
        unfold txBytes u32
        omega
      rw [if_pos hmore, if_pos hmore, ih (by omega)]
    · rw [if_neg hmore, if_neg hmore]

/-! Steps that ask nothing of the outside. -/

/-- The log stays as it is. -/
def Mute {α : Type} (x : Rom α) : Prop := ∀ m a m', x m = some (a, m') → m'.log = m.log

theorem mute_hstcStore (off : Nat) (bs : List UInt8) : Mute (hstcStore off bs) := by
  intro m a m' hx
  unfold hstcStore at hx
  split at hx <;> cases hx
  rfl

/-- A step that always returns. -/
theorem mute_of_eq {α : Type} {x : Rom α} (a : Machine → α) (f : Machine → Machine) (h : ∀ m, x m = some (a m, f m))
    (hlog : ∀ m, (f m).log = m.log) : Mute x := by
  intro m b m' hx
  rw [h] at hx
  cases hx
  exact hlog m

theorem mute_hstcLen : Mute hstcLen := mute_of_eq _ _ (fun _ => rfl) fun _ => rfl

theorem mute_rawFlags : Mute rawFlags := mute_of_eq _ _ (fun _ => rfl) fun _ => rfl

theorem mute_setRawFlags (flags : UInt8) : Mute (setRawFlags flags) := mute_of_eq _ _ (fun _ => rfl) fun _ => rfl

end Qm35.Qmrom
