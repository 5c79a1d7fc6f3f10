import Qm35.Rom.Bounds

/- Probing (`qmrom_probe_device`): the B0, the C0 and the A0 are asked for their chip
   version in turn, and the first to answer with its own revision has its functions put
   into `rom_ops`. What the device answers is read from fixed places in the payload of
   `sstc`, the version only as far as the device has announced it. -/
namespace Qm35.Qmrom

open ByteMem Trace

def romCmdB0GetChipVer : UInt8 := 0x2
def romCmdB0GetSocInfo : UInt8 := 0x3
def romCmdC0GetChipVer : Nat := 0x2
def romCmdC0GetSocInfo : Nat := 0x3

/-! `CHIP_VERSION_CHIP_REV_PAYLOAD_OFFSET` and `CHIP_VERSION_DEV_REV_PAYLOAD_OFFSET`, which each
revision has of its own. -/

def chipRevPayloadOffsetA0 : Nat := 1
def chipRevPayloadOffsetB0 : Nat := 1
def devRevPayloadOffsetB0 : Nat := 3
def chipRevPayloadOffsetC0 : Nat := 4
def devRevPayloadOffsetC0 : Nat := 6

def chipRevisionB0 : Nat := 0xB0
def chipRevisionC0 : Nat := 0xC0

def romSocIdLen : Nat := 0x20
def romUuidLen : Nat := 0x10

/-- `chip_rev = -1` of an unsigned enumeration. -/
def chipRevisionNone : Nat := 4294967295

/-- `struct qmrom_handle` with what only the probe functions fill in. -/
structure ProbeHandle extends Handle where
  deviceVersion : Nat
  socId : List UInt8
  uuid : List UInt8

/-! The payload of `sstc`. -/

/-- `n` bytes of the payload. -/
def sstcPayload (offset n : Nat) : Rom (List UInt8) := fun m =>
  if stcBufSize < sizeofStc + offset + n then none else some (m.sstc.read (sizeofStc + offset) n, m)

/-- A little-endian integer. -/
def leBytes (bs : List UInt8) : Nat := bs.foldr (fun b n => b.toNat + 256 * n) 0

/-- `SSTC2UINT16` -/
def sstc2uint16 (offset : Nat) : Rom Nat := do
  let len ← sstcLen
  if offset + 2 ≤ len then do
    let bs ← sstcPayload offset 2
    pure (leBytes bs)
  else pure 0xbeed

def bswap16 (n : Nat) : Nat := n % 256 * 256 + n / 256

/-- Goes on with `k` where the result of `x` is 0, and else returns it. -/
def probeThen (x : Rom Int) (h : ProbeHandle) (k : Rom (Int × ProbeHandle)) : Rom (Int × ProbeHandle) := do
  let rc ← x
  if rc ≠ 0 then pure (rc, h) else k

/-- The end of the probe functions of the B0 and the C0: the identity of the device, from the
payload at `offset`, with a life cycle state of `lcsLen` bytes. -/
def probeIdentity (h : ProbeHandle) (offset lcsLen : Nat) (rev : RomCode) : Rom (Int × ProbeHandle) := do
  let socId ← sstcPayload offset romSocIdLen
  let lcs ← sstcPayload (offset + romSocIdLen) lcsLen
  let uuid ← sstcPayload (offset + romSocIdLen + lcsLen) romUuidLen
  pure (0, { h with
    socId := socId.reverse, lcsState := leBytes lcs, uuid := uuid.reverse, flashFw := some rev })

/-! The B0. -/

/-- One pass of the loop of `qmrom_b0_poll_cmd_resp`, and what follows it. After the `break` the
function returns 0 only with `retries` left. -/
def b0RespPass (h : Handle) (retries : Nat) (next : Rom Int) : Rom Int := do
  let flags ← rawFlags
  if flags &&& socOutWaiting ≠ 0 then do
    let _ ← qmromPreRead
    let len ← sstcLen
    if 0xff < len then pure (-1)
    else do
      let _ ← qmromRead
      pure (if 0 < retries ∧ retries < 2147483648 then 0 else -1)
  else do
    qmromB0PollSoc h
    next

def b0RespLoop (h : Handle) : Nat → Rom Int
  | 0 => b0RespPass h 0 (pure (-1))
  | retries + 1 => b0RespPass h (retries + 1) (b0RespLoop h retries)

def qmromB0PollCmdResp (h : Handle) : Rom Int := do
  qmromB0PollSoc h
  b0RespLoop h h.retries

/-- `qmrom_b0_probe_device`: its result, and the handle then. -/
def qmromB0ProbeDevice (h : ProbeHandle) : Rom (Int × ProbeHandle) :=
  probeThen qmromRebootBootloader h <|
  probeThen (qmromB0WaitReady h.toHandle) h <|
  probeThen (qmromWriteCmd romCmdB0GetChipVer) h <|
  probeThen (qmromB0PollCmdResp h.toHandle) h do
    let chipRev ← sstc2uint16 chipRevPayloadOffsetB0
    let devRev ← sstc2uint16 devRevPayloadOffsetB0
    let h := { h with chipRev := chipRev % 256, deviceVersion := bswap16 devRev }
    if h.chipRev ≠ chipRevisionB0 then pure (-1, { h with chipRev := chipRevisionNone })
    else
      probeThen (qmromB0WaitReady h.toHandle) h <|
      probeThen (qmromWriteCmd romCmdB0GetSocInfo) h <|
      probeThen (qmromB0PollCmdResp h.toHandle) h <|
      probeIdentity h 1 1 .b0

/-! The C0. -/

def qmromC0ProbeDevice (h : ProbeHandle) : Rom (Int × ProbeHandle) :=
  probeThen qmromRebootBootloader h <|
  probeThen (qmromC0WaitReady h.toHandle) h <|
  probeThen (qmromWriteCmd32C0 romCmdC0GetChipVer) h <|
  probeThen (qmromC0PollCmdResp h.toHandle) h do
    let chipRev ← sstc2uint16 chipRevPayloadOffsetC0
    let devRev ← sstc2uint16 devRevPayloadOffsetC0
    let h := { h with chipRev := chipRev % 256, deviceVersion := bswap16 devRev }
    if h.chipRev ≠ chipRevisionC0 then pure (-1, { h with chipRev := chipRevisionNone })
    else
      probeThen (qmromC0WaitReady h.toHandle) h <|
      probeThen (qmromWriteCmd32C0 romCmdC0GetSocInfo) h <|
      probeThen (qmromC0PollCmdResp h.toHandle) h <|
      probeIdentity h 4 4 .c0

/-! The A0, and all of them. -/

def qmromA0ProbeDevice (h : ProbeHandle) : Rom (Int × ProbeHandle) :=
  probeThen qmromRebootBootloader h <|
  probeThen (qmromA0WaitReady h.toHandle) h do
    let _ ← qmromPreRead
    bswapLen
    let len ← sstcLen
    -- likely the wrong endianness
    if 0xff < len then pure (-1, h)
    else do
      let _ ← qmromRead
      let chipRev ← sstc2uint16 chipRevPayloadOffsetA0
      let h := { h with chipRev := bswap16 chipRev % 256 }
      if h.chipRev ≠ chipRevisionA0 then pure (-1, { h with chipRev := chipRevisionNone })
      else pure (0, { h with flashFw := some .a0 })

def qmromProbeDevice (h : ProbeHandle) : Rom (Int × ProbeHandle) := do
  let (rc, h) ← qmromB0ProbeDevice h
  if rc = 0 then pure (rc, h)
  else do
    let (rc, h) ← qmromC0ProbeDevice h
    if rc = 0 then pure (rc, h)
    else do
      let (rc, h) ← qmromA0ProbeDevice h
      if rc = 0 then pure (rc, h) else pure (-1, h)

/-! What it asks for and accesses. -/

theorem plain_sstcPayload {offset n : Nat} (h : sizeofStc + offset + n ≤ stcBufSize) : Plain (sstcPayload offset n) :=
  (apart_look _ fun _ => if_neg (Nat.not_lt.mpr h)).plain

theorem plain_sstc2uint16 {offset : Nat} (h : sizeofStc + offset + 2 ≤ stcBufSize) : Plain (sstc2uint16 offset) := by
  refine apart_sstcLen.plain.bind fun len => Performs.ite' (fun _ => ?_) fun _ => Performs.pure' _
  exact (plain_sstcPayload h).bind fun _ => Performs.pure' _

theorem plain_probeIdentity (h : ProbeHandle) {offset lcsLen : Nat} (rev : RomCode)
    (hfit : sizeofStc + (offset + romSocIdLen + lcsLen) + romUuidLen ≤ stcBufSize) :
    Plain (probeIdentity h offset lcsLen rev) := by
  refine (plain_sstcPayload ?_).bind fun _ => (plain_sstcPayload ?_).bind fun _ => ?_
  · omega
  · omega
  · exact (plain_sstcPayload hfit).bind fun _ => Performs.pure' _

theorem plain_b0PollCmdResp (h : Handle) : Plain (qmromB0PollCmdResp h) := by
  have hpass : ∀ retries {next : Rom Int}, Plain next → Plain (b0RespPass h retries next) := by
    intro retries next hnext
    refine apart_rawFlags.plain.bind fun flags => Performs.ite' (fun _ => ?_) fun _ => ?_
    · refine plain_preRead.bind fun _ => apart_sstcLen.plain.bind fun len => ?_
      exact Performs.ite' (fun _ => Performs.pure' _) fun _ => plain_read.bind fun _ => Performs.pure' _
    · exact (plain_b0PollSoc h).bind fun _ => hnext
  have hloop : ∀ retries, Plain (b0RespLoop h retries) := by
    intro retries
    induction retries with
    | zero => exact hpass 0 (Performs.pure' _)
    | succ retries ih => exact hpass _ ih
  exact (plain_b0PollSoc h).bind fun _ => hloop _

/-- Anything but memory is asked for, and nothing fails. -/
abbrev Probes {α : Type} (x : Rom α) : Prop := Acts Event.Outside False x

theorem Plain.probes {α : Type} {x : Rom α} (h : Plain x) : Probes x := h.acts.more fun _ => Event.Protocol.outside

theorem probes_reboot : Probes qmromRebootBootloader := acts_reboot.more fun _ => Event.Line.outside

theorem probes_writeCmd (cmd : UInt8) : Probes (qmromWriteCmd cmd) := (acts_writeCmd cmd).more fun _ => Event.Protocol.outside

theorem probes_writeCmd32C0 (cmd : Nat) : Probes (qmromWriteCmd32C0 cmd) :=
  (acts_writeCmd32C0 cmd).more fun _ => Event.Protocol.outside

theorem Probes.then {x : Rom Int} {h : ProbeHandle} {k : Rom (Int × ProbeHandle)} (hx : Probes x) (hk : Probes k) :
    Probes (probeThen x h k) :=
  hx.bind fun _ => Performs.ite' (fun _ => Performs.pure' _) fun _ => hk

theorem probes_b0ProbeDevice (h : ProbeHandle) : Probes (qmromB0ProbeDevice h) := by
  apply probes_reboot.then
  apply (plain_b0WaitReady _).probes.then
  apply (probes_writeCmd _).then
  apply (plain_b0PollCmdResp _).probes.then
  refine (plain_sstc2uint16 (by decide)).probes.bind fun chipRev => ?_
  refine (plain_sstc2uint16 (by decide)).probes.bind fun devRev => Performs.ite' (fun _ => Performs.pure' _) fun _ => ?_
  apply (plain_b0WaitReady _).probes.then
  apply (probes_writeCmd _).then
  apply (plain_b0PollCmdResp _).probes.then
  exact (plain_probeIdentity _ _ (by decide)).probes

theorem probes_c0ProbeDevice (h : ProbeHandle) : Probes (qmromC0ProbeDevice h) := by
  apply probes_reboot.then
  apply (plain_c0WaitReady _).probes.then
  apply (probes_writeCmd32C0 _).then
  apply (plain_c0PollCmdResp _).probes.then
  refine (plain_sstc2uint16 (by decide)).probes.bind fun chipRev => ?_
  refine (plain_sstc2uint16 (by decide)).probes.bind fun devRev => Performs.ite' (fun _ => Performs.pure' _) fun _ => ?_
  apply (plain_c0WaitReady _).probes.then
  apply (probes_writeCmd32C0 _).then
  apply (plain_c0PollCmdResp _).probes.then
  exact (plain_probeIdentity _ _ (by decide)).probes

theorem probes_a0ProbeDevice (h : ProbeHandle) : Probes (qmromA0ProbeDevice h) := by
  apply probes_reboot.then
  apply (plain_a0WaitReady _).probes.then
  refine plain_preRead.probes.bind fun _ => apart_bswapLen.plain.probes.bind fun _ => ?_
  refine apart_sstcLen.plain.probes.bind fun len => Performs.ite' (fun _ => Performs.pure' _) fun _ => ?_
  refine plain_read.probes.bind fun _ => (plain_sstc2uint16 (by decide)).probes.bind fun chipRev => ?_
  exact Performs.ite' (fun _ => Performs.pure' _) fun _ => Performs.pure' _

theorem probes_probeDevice (h : ProbeHandle) : Probes (qmromProbeDevice h) := by
  refine (probes_b0ProbeDevice h).bind fun r => Performs.ite' (fun _ => Performs.pure' _) fun _ => ?_
  refine (probes_c0ProbeDevice r.2).bind fun r => Performs.ite' (fun _ => Performs.pure' _) fun _ => ?_
  refine (probes_a0ProbeDevice r.2).bind fun r => ?_
  exact Performs.ite' (fun _ => Performs.pure' _) fun _ => Performs.pure' _

end Qm35.Qmrom
