import Qm35.Lib.Lts
import Qm35.Ring.Model

/- Runs of the trace ring buffer. `History` is the buffer with what a run has to be
   judged by: the payloads pushed so far, the payloads popped so far, and, for each
   offset, the number of the last push that wrote an entry header there. A popped
   payload is recorded with the number of the push whose header the pop read. None
   of the three is read by the buffer's own code.

   `nextPos` is the step from one entry to the next as every reader of the buffer
   takes it, so `Reaches tail x` says that `x` lies on the entry chain in ring
   order, and the entries retained are those between `tail` and `head`. -/
namespace Qm35.Ring

open ByteMem

/-- The calls on a trace buffer. -/
inductive RbOp where
  | push (data : List UInt8)
  | pop
  | nextSize
  | canPop
  | reset

structure History where
  rb : Rb
  owner : Nat → Nat
  pushed : List (List UInt8)
  popped : List (Nat × List UInt8)

/-- `rb_init` of a zero-filled buffer of the trace size. -/
def histInit : History := ⟨rbInit (fun _ => 0) traceRbSize, fun _ => 0, [], []⟩

def histStep (h : History) : RbOp → Option History
  | .push data => do
    let (rc, rb) ← rbPush h.rb data
    if rc = 0 then
      some { h with
        rb := rb
        owner := Function.update h.owner (rb.head - (2 + data.length)) h.pushed.length
        pushed := h.pushed ++ [data] }
    else some { h with rb := rb }
  | .pop => do
    let (entry, rb) ← rbPop h.rb
    match entry with
    | some data => some { h with
        rb := rb
        popped := h.popped ++ [(h.owner (rb.rdtail - (2 + data.length)), data)] }
    | none => some { h with rb := rb }
  | .nextSize => do
    let (_, rb) ← rbNextSize h.rb
    some { h with rb := rb }
  | .canPop => some h
  | .reset => some { h with rb := rbReset h.rb }

section Steps
variable {h : History} {rb : Rb} {data : List UInt8}

theorem histStep_push (e : rbPush h.rb data = some (0, rb)) :
    histStep h (.push data) = some { h with
      rb := rb
      owner := Function.update h.owner (rb.head - (2 + data.length)) h.pushed.length
      pushed := h.pushed ++ [data] } := by
  simp only [histStep, e, Option.bind_eq_bind, Option.bind_some, if_true]

theorem histStep_pop (e : rbPop h.rb = some (some data, rb)) :
    histStep h .pop = some { h with
      rb := rb
      popped := h.popped ++ [(h.owner (rb.rdtail - (2 + data.length)), data)] } := by
  simp only [histStep, e, Option.bind_eq_bind, Option.bind_some]

theorem histStep_pop_none (e : rbPop h.rb = some (none, rb)) :
    histStep h .pop = some { h with rb := rb } := by
  simp only [histStep, e, Option.bind_eq_bind, Option.bind_some]

theorem histStep_nextSize {n : Nat} (e : rbNextSize h.rb = some (n, rb)) :
    histStep h .nextSize = some { h with rb := rb } := by
  simp only [histStep, e, Option.bind_eq_bind, Option.bind_some]

end Steps

/-- The calls a reader that never resets makes, with the payloads `log_received` admits. -/
def Admitted : RbOp → Prop
  | .push data => 1 ≤ data.length ∧ data.length ≤ 65531
  | .reset => False
  | _ => True

/-! The entry chain. -/

/-- The position after `x` on the chain: past the entry at `x`, or, from the end
marker, offset 0. There is none at `head`. -/
def nextPos (rb : Rb) (x : Nat) : Option Nat :=
  if x = rb.head then none
  else if rb.buf.le16 x = 0 then (if x = 0 then none else some 0)
  else some (x + (2 + rb.buf.le16 x))

/-- `y` follows `x` on the chain, some entries later. -/
def Reaches (rb : Rb) : Nat → Nat → Prop := Relation.ReflTransGen fun x y => nextPos rb x = some y

/-- `x` is the header of an entry between `tail` and `head`. -/
def Retained (rb : Rb) (x : Nat) : Prop :=
  Reaches rb rb.tail x ∧ x ≠ rb.head ∧ rb.buf.le16 x ≠ 0

/-- The entry whose header is at `x`, with the number of the push that wrote it. -/
def entryAt (h : History) (x : Nat) : Nat × List UInt8 :=
  (h.owner x, h.rb.buf.read (x + 2) (h.rb.buf.le16 x))

/-- Pop until `rb_can_pop` is false, `fuel` times at most. -/
def drain : Nat → History → Option History
  | 0, h => some h
  | fuel + 1, h => if rbCanPop h.rb then (histStep h .pop).bind (drain fuel) else some h

end Qm35.Ring
