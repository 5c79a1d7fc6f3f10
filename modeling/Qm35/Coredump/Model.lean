import Qm35.Lib.Bytes
import Qm35.Lib.Lts

/- Reception of coredumps (`hsspi_coredump.c`). The device announces a dump with a header
   that gives its size and checksum, and sends it in bodies; the driver collects them in
   a buffer and answers with ACK or NACK when the dump is complete, or with whatever the
   status is when no message has come for two seconds.

   A result is `none` where the C code would access memory outside the buffer. The state
   of a run has, beside the layer, a record of the last header, of the bytes accepted
   since and of the statuses sent; no decision is taken on it. -/
namespace Qm35.Coredump

open ByteMem

def coredumpHeaderNtf : UInt8 := 0x00
def coredumpBodyNtf : UInt8 := 0x01

def coredumpRcvNack : UInt8 := 0x00
def coredumpRcvAck : UInt8 := 0x01

/-- `struct coredump_hdr_ntf` -/
structure CoredumpHdrNtf where
  size : Nat
  crc : Nat
deriving DecidableEq

/-- `sizeof(struct coredump_hdr_ntf)` -/
def sizeofHdrNtf : Nat := 6

/-- The allocation behind `coredump_data`: the size granted, and its bytes. -/
structure Buffer where
  granted : Nat
  bytes : Mem

/-- `memcpy` into the buffer. -/
def Buffer.store (b : Buffer) (off : Nat) (bs : List UInt8) : Option Buffer :=
  if off + bs.length ≤ b.granted then some { b with bytes := b.bytes.write off bs } else none

/-- The first `n` bytes of the buffer. -/
def Buffer.load (b : Buffer) (n : Nat) : Option (List UInt8) :=
  if n ≤ b.granted then some (b.bytes.read 0 n) else none

/-- What the allocator grants: how much more than was asked for, and the contents after it. -/
structure Grant where
  slack : Nat
  contents : Mem

/-- `krealloc`, `none` for a pointer that is `ZERO_OR_NULL_PTR`. -/
def krealloc (kmallocMaxSize size : Nat) (grant : Option Grant) : Option Buffer :=
  if size = 0 then none
  else if kmallocMaxSize < size then none
  else grant.map fun g => ⟨size + g.slack, g.contents⟩

/-- `struct coredump_layer`; `timer` is whether the timer is pending. -/
structure CoredumpLayer where
  coredumpData : Option Buffer
  coredumpDataWrIdx : Nat
  coredumpSize : Nat
  coredumpCrc : Nat
  coredumpStatus : UInt8
  timer : Bool

/-- `coredump_layer_init` -/
def coredumpLayerInit : CoredumpLayer := ⟨none, 0, 0, 0, coredumpRcvNack, false⟩

/-- The loop of `coredump_get_checksum` over the bytes. -/
def checksumLoop (bs : List UInt8) : Nat := bs.foldl (fun crc val => u16 (crc + val.toNat)) 0

/-- `coredump_get_checksum` -/
def coredumpGetChecksum (layer : CoredumpLayer) : Option Nat := do
  let data ← layer.coredumpData
  let bs ← data.load layer.coredumpDataWrIdx
  some (checksumLoop bs)

/-- `coredump_header_ntf_received` -/
def coredumpHeaderNtfReceived (kmallocMaxSize : Nat) (layer : CoredumpLayer) (chn : CoredumpHdrNtf)
    (grant : Option Grant) : CoredumpLayer :=
  let layer := { layer with
    coredumpDataWrIdx := 0, coredumpSize := chn.size, coredumpCrc := chn.crc, coredumpStatus := coredumpRcvNack }
  match krealloc kmallocMaxSize layer.coredumpSize grant with
  | none => { layer with coredumpData := none, coredumpSize := 0, coredumpCrc := 0 }
  | some data => { layer with coredumpData := some data }

/-- `coredump_body_ntf_received`: the layer, and whether it returns 0. -/
def coredumpBodyNtfReceived (layer : CoredumpLayer) (body : List UInt8) : Option (CoredumpLayer × Bool) :=
  match layer.coredumpData with
  | none => some (layer, false)
  | some data =>
    if layer.coredumpSize < u32 (body.length + layer.coredumpDataWrIdx) then some (layer, false)
    else do
      let data ← data.store layer.coredumpDataWrIdx body
      some ({ layer with
        coredumpData := some data
        coredumpDataWrIdx := u32 (layer.coredumpDataWrIdx + body.length) }, true)

/-- `memcpy` of the header out of the body of a message. -/
def hdrNtfOf : List UInt8 → Option CoredumpHdrNtf
  | s0 :: s1 :: s2 :: s3 :: c0 :: c1 :: _ =>
    some ⟨s0.toNat + 256 * s1.toNat + 65536 * (s2.toNat + 256 * s3.toNat), c0.toNat + 256 * c1.toNat⟩
  | _ => none

/-- What `coredump_received` has made of a message: nothing, or taken a header, or accepted a
body and possibly sent a status. -/
inductive Outcome where
  | ignored
  | header (chn : CoredumpHdrNtf)
  | body (bytes : List UInt8) (sent : Option UInt8)
deriving DecidableEq

/-- The branch of a body that `coredump_body_ntf_received` has accepted. -/
def coredumpBodyAccepted (layer : CoredumpLayer) (body : List UInt8) : Option (CoredumpLayer × Outcome) :=
  if layer.coredumpDataWrIdx = layer.coredumpSize then do
    let crc ← coredumpGetChecksum layer
    let layer := if crc = layer.coredumpCrc then { layer with coredumpStatus := coredumpRcvAck } else layer
    some (layer, .body body (some layer.coredumpStatus))
  else some ({ layer with timer := true }, .body body none)

/-- A message of the coredump layer: a block and the status `received` is called with. -/
structure Message where
  data : List UInt8
  status : Int
  fits : data.length < 65536

/-- `coredump_received` -/
def coredumpReceived (kmallocMaxSize : Nat) (layer : CoredumpLayer) (msg : Message) (grant : Option Grant) :
    Option (CoredumpLayer × Outcome) :=
  if msg.status ≠ 0 then some (layer, .ignored)
  else
    match msg.data with
    | [] => some (layer, .ignored)
    | cmdId :: body =>
      let layer := { layer with timer := false }
      if cmdId = coredumpHeaderNtf then
        match hdrNtfOf body with
        | none => some (layer, .ignored)
        | some chn => some (coredumpHeaderNtfReceived kmallocMaxSize layer chn grant, .header chn)
      else if cmdId = coredumpBodyNtf then do
        let (layer, accepted) ← coredumpBodyNtfReceived layer body
        if accepted then coredumpBodyAccepted layer body else some (layer, .ignored)
      else some (layer, .ignored)

/-- `debug_coredump_get`: the bytes it exposes. -/
def debugCoredumpGet (layer : CoredumpLayer) : Option (List UInt8) :=
  match layer.coredumpData with
  | none => if layer.coredumpDataWrIdx = 0 then some [] else none
  | some data => data.load layer.coredumpDataWrIdx

/-! Runs. -/

/-- A call of `coredump_send_rcv_status`: from the timer or not, and what had been received. -/
structure RcvStatus where
  ack : UInt8
  expired : Bool
  header : Option CoredumpHdrNtf
  body : List UInt8

/-- The layer; the last well-formed header, the bytes accepted since, and whether a status has
been sent since; and all statuses sent. -/
structure Dump where
  layer : CoredumpLayer
  header : Option CoredumpHdrNtf
  body : List UInt8
  replied : Bool
  statuses : List RcvStatus

def dumpInit : Dump := ⟨coredumpLayerInit, none, [], false, []⟩

inductive DumpAct where
  | message (msg : Message) (grant : Option Grant)
  | timer

/-- What is recorded of a message. -/
def record (s : Dump) (layer : CoredumpLayer) : Outcome → Dump
  | .ignored => { s with layer := layer }
  | .header chn => { s with layer := layer, header := some chn, body := [], replied := false }
  | .body bytes none => { s with layer := layer, body := s.body ++ bytes }
  | .body bytes (some ack) =>
    { s with
      layer := layer
      body := s.body ++ bytes
      replied := true
      statuses := s.statuses ++ [⟨ack, false, s.header, s.body ++ bytes⟩] }

/-- `corredump_on_expired_timer`, for a timer that is pending. -/
def timerStep (s : Dump) : Dump :=
  if s.layer.timer then
    { s with
      layer := { s.layer with timer := false }
      replied := true
      statuses := s.statuses ++ [⟨s.layer.coredumpStatus, true, s.header, s.body⟩] }
  else s

def dumpStep (kmallocMaxSize : Nat) (s : Dump) : DumpAct → Option Dump
  | .message msg grant => do
    let (layer, outcome) ← coredumpReceived kmallocMaxSize s.layer msg grant
    some (record s layer outcome)
  | .timer => some (timerStep s)

end Qm35.Coredump
