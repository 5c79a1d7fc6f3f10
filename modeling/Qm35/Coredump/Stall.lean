import Qm35.Coredump.Reassembly

/- Whether a dump that has stalled is going to be answered. Every message with a command
   byte stops the timer before it is looked at, and only a body that is accepted and
   leaves the dump incomplete starts it again. A message that is dropped after that
   (an unknown command, a header that is too short, a body that does not fit) leaves
   a dump that has begun without a timer. As long as no such message comes while a
   dump is under way, the timer is pending. -/
namespace Qm35.Coredump

/-- Part of a dump has been accepted, and no status has been sent for it. -/
def UnderWay (s : Dump) : Prop :=
  s.body ≠ [] ∧ 0 < s.layer.coredumpDataWrIdx ∧ s.layer.coredumpDataWrIdx < s.layer.coredumpSize ∧
    s.replied = false

instance (s : Dump) : Decidable (UnderWay s) := inferInstanceAs (Decidable (_ ∧ _))

/-- A message that stops the timer and is then dropped. -/
def Dropped (layer : CoredumpLayer) (msg : Message) : Prop :=
  msg.status = 0 ∧ ∃ cmdId ∈ msg.data.head?, ¬Taken layer cmdId msg.data.tail

instance (layer : CoredumpLayer) (msg : Message) : Decidable (Dropped layer msg) :=
  inferInstanceAs (Decidable (_ ∧ _))

/-- No message is dropped while a dump is under way. -/
def Undisturbed (s : Dump) : DumpAct → Prop
  | .message msg _ => UnderWay s → ¬Dropped s.layer msg
  | .timer => True

instance (s : Dump) : (act : DumpAct) → Decidable (Undisturbed s act)
  | .message msg _ => inferInstanceAs (Decidable (UnderWay s → ¬Dropped s.layer msg))
  | .timer => inferInstanceAs (Decidable True)

/-- A dump that is under way is going to be answered. -/
def Watched (s : Dump) : Prop := UnderWay s → s.layer.timer = true

section Step
variable {kmallocMaxSize : Nat} {s : Dump} {layer : CoredumpLayer} {outcome : Outcome} {msg : Message}
  {grant : Option Grant}

end Step

end Qm35.Coredump
