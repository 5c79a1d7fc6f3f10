import Qm35.Lib.Along
import Qm35.Rom.Load
import Qm35.Rom.Transcript

/- What `qm_firmware_load` asks of the file system and of the device. A load probes the
   device, and then makes at most two attempts: the first with the file of the production
   image, the second, which comes after a reboot, only where the first has failed and with
   the file of the other image; where the name is given, on the A0, and on a chip that is
   not secure, that is the same file. An attempt requests one file by name, keeps to the
   script of that file for the probed device, and releases the file before it returns; of
   the lines of the device only the flash function of the A0 drives any, in a reboot of
   its own.

   The load returns what the last attempt returned. Where that is 0 the image was one for the
   life cycle state of the chip and its script has been written to the end, last of all;
   only a C0 may instead have been given the two load commands and nothing more, since its
   refusal is not taken for an error. -/
namespace Qm35.Qmrom

open ByteMem Trace

/-! One image. -/

/-- The two commands of a C0 load. -/
def c0Commands (h : Handle) : List (List UInt8) :=
  [frameBytes (bytes32 romCmdC0UseIndirectRramWr)] ++ [frameBytes (bytes32 (c0FlashCmd h))]

/-- What `qmrom_flash_fw` has written where it returns `rc`. -/
def Flashed (h : Handle) (fw : Firmware) (rc : Int) (os : List (List UInt8)) : Prop :=
  ∃ script, FlashScript h fw script ∧ os <+: script ∧
    (rc = 0 → script ≠ [] ∧ (os = script ∨ h.flashFw = some .c0 ∧ os = c0Commands h))

section Image
variable {h : Handle} {fw : Firmware} {fws : UnstitchedFirmware}

end Image

/-! The lines. -/

/-- What `qmrom_reboot_bootloader` asks for: the chip select goes low, the device is reset, and the chip select
goes high again. -/
inductive Rebooted : List Event → Prop
  | refused {rc : Int} : rc ≠ 0 → Rebooted [.csLevel 0 rc]
  | reset {rc : Int} : Rebooted [.csLevel 0 0, .reset, .csLevel 1 rc]

instance : DecidablePred Event.Line
  | .csLevel _ _ => isTrue trivial
  | .reset => isTrue trivial
  | .xfer _ _ => isFalse id
  | .readyLine _ => isFalse id
  | .alloc _ => isFalse id
  | .free _ => isFalse id
  | .wrongResp _ _ => isFalse id

/-- What is done with the lines. -/
def linesOf (log : List Event) : List Event := log.filter fun e => e.Line

/-- Only the flash function of the A0 reboots. -/
def FlashLines (h : Handle) (lines : List Event) : Prop := if h.flashFw = some .a0 then Rebooted lines else lines = []

section Lines
variable {h : Handle} {m m' : Machine} {rc : Int} {log : List Event}

end Lines

/-! Attempts and loads. -/

/-- What a call has returned, asked of the device, and done with firmware objects. -/
structure Report where
  rc : Int
  log : List Event
  objects : List FwEvent

/-- The frames that were written. -/
def framesOf (log : List Event) : List (List UInt8) := log.filterMap Event.writeFrame

/-- An attempt with the file of this name, which gets object `n` if there is one. -/
inductive Attempted (h : Handle) (name : String) (n : Nat) : Option Firmware → Report → Prop
  | missing : Attempted h name n none ⟨-1, [], [.request name false, .release none]⟩
  | flashed {fw : Firmware} {rc : Int} {log : List Event} : Flashed h fw rc (framesOf log) → FlashLines h (linesOf log) →
      Attempted h name n (some fw) ⟨rc, log, [.request name true, .release (some n)]⟩

/-- An attempt where the files are these and there are `n` objects. -/
def AttemptedWith (p : LoadParams) (h : Handle) (useProdFw : Bool) (files : Nat → String → Option Firmware) (n : Nat)
    (r : Report) : Prop :=
  Attempted h (fwFileName p.fwname h useProdFw) n (files n (fwFileName p.fwname h useProdFw)) r

/-- The frames of a probe. -/
def probeWords : Language (List UInt8) := beginnings (probeScript .b0) * beginnings (probeScript .c0)

/-- The probe of a load from `s` on: what it has found, and asked for. -/
structure ProbedFrom (p : LoadParams) (s : Loader) (h : Option QmromHandle) (log : List Event) : Prop where
  init : ∃ m, qmromInit p.qmromRetries.toInt s.machine = some (h, m) ∧ m.log = s.machine.log ++ log
  frames : framesOf log ∈ probeWords

/-- A load from `s` on. -/
inductive LoadedFrom (p : LoadParams) (s : Loader) : Report → Prop
  | unprobed {log : List Event} : ProbedFrom p s none log → LoadedFrom p s ⟨-1, log, []⟩
  | first {h : QmromHandle} {log : List Event} {r : Report} : ProbedFrom p s (some h) log →
      AttemptedWith p h.toHandle true s.files s.objects.length r → r.rc = 0 →
      LoadedFrom p s ⟨0, log ++ r.log, r.objects⟩
  | second {h : QmromHandle} {log reboot : List Event} {r r' : Report} : ProbedFrom p s (some h) log →
      AttemptedWith p h.toHandle true s.files s.objects.length r → r.rc ≠ 0 → Rebooted reboot →
      AttemptedWith p h.toHandle false s.files (s.objects.length + r.objects.length) r' →
      LoadedFrom p s ⟨r'.rc, log ++ r.log ++ reboot ++ r'.log, r.objects ++ r'.objects⟩

/-- What has been written last is all of the script of a file that was requested and found, or on a C0 the two
commands. -/
def Report.Complete (files : Nat → String → Option Firmware) (r : Report) : Prop :=
  ∃ h fw script name n, FlashScript h fw script ∧ script ≠ [] ∧ files n name = some fw ∧
    .request name true ∈ r.objects ∧ .release (some n) ∈ r.objects ∧
    (script <:+ framesOf r.log ∨ h.flashFw = some .c0 ∧ c0Commands h <:+ framesOf r.log)

section Loads
variable {p : LoadParams} {h : QmromHandle} {useProdFw : Bool} {s s' : Loader} {r : Report} {rc : Int}

theorem framesOf_append (log log' : List Event) : framesOf (log ++ log') = framesOf log ++ framesOf log' :=
  List.filterMap_append

/-- An attempt that returns 0 ends with the script of its file. -/
theorem AttemptedWith.complete {h : Handle} {files : Nat → String → Option Firmware} {n : Nat}
    (ha : AttemptedWith p h useProdFw files n r) (h0 : r.rc = 0) {before : List Event} {objects : List FwEvent} :
    Report.Complete files ⟨0, before ++ r.log, objects ++ r.objects⟩ := by
  unfold AttemptedWith at ha
  generalize hfile : files n (fwFileName p.fwname h useProdFw) = file at ha
  cases ha with
  | missing => simp at h0
  | flashed hflashed hlines =>
    obtain ⟨script, hscript, -, hall⟩ := hflashed
    obtain ⟨hne, hend⟩ := hall h0
    refine ⟨h, _, script, _, n, hscript, hne, hfile, by simp, by simp, ?_⟩
    rw [framesOf_append]
    refine hend.imp (fun heq => ?_) fun ⟨hc0, heq⟩ => ⟨hc0, ?_⟩
    · rw [heq]
      exact List.suffix_append _ _
    · rw [heq]
      exact List.suffix_append _ _

theorem LoadedFrom.complete (hl : LoadedFrom p s r) (h0 : r.rc = 0) : r.Complete s.files := by
  cases hl with
  | unprobed => simp at h0
  | first _ ha hrc => exact show Report.Complete s.files ⟨0, _, [] ++ _⟩ from ha.complete hrc
  | second _ _ _ _ ha =>
    dsimp only at h0
    rw [h0]
    exact ha.complete h0

end Loads

end Qm35.Qmrom
