import Qm35.Hsspi.Quiescence

/- Who has the SPI bus (`qm35-spi.c`). The ioctls that reset, power or flash the chip,
   the debugfs reset and suspend/resume all have one shape: `qm35_hsspi_stop`, a body,
   `qm35_hsspi_start`. Any number of callers go through it at the same time as the
   thread of the core, each with its own program counter; the body of a firmware
   upload makes transfers of its own.

   Both ends of that shape go wrong under another caller. `qm35_hsspi_stop` reads the
   state without the lock and returns at once when it is `HSSPI_STOPPED`, which
   `hsspi_stop` sets before it waits for the thread. And `qm35_hsspi_start` starts the
   core again whoever else has stopped it. A run in which neither happens keeps the
   bus free between the two. -/
namespace Qm35.Driver

open Qm35.Hsspi

/-- What stops HSSPI, does something to the chip, and starts HSSPI again. -/
inductive Op where
  /-- `QM35_CTRL_RESET` -/
  | reset
  /-- `QM35_CTRL_FW_UPLOAD` -/
  | fwUpload
  /-- `QM35_CTRL_POWER` -/
  | power (on : Bool)
  /-- `qm35_reset_sync`, from debugfs -/
  | hwReset
  /-- `qm35_pm_suspend`, and `qm35_pm_resume` at the end -/
  | suspend
deriving DecidableEq

/-- Whether the operation ends with `qm35_hsspi_start`. -/
def Op.starts (regulatorsEnabled : Bool) : Op → Bool
  | .power on => !regulatorsEnabled || (regulatorsEnabled && on)
  | _ => true

/-- Whether the body transfers over SPI: `qm_firmware_load`. -/
def Op.loadsFirmware : Op → Bool
  | .fwUpload => true
  | _ => false

/-- Where a caller is. `stopRead` and `startRead` are before the unlocked read of the
state, `stopCall` and `startCall` after it. -/
inductive Pc where
  | idle
  | stopRead (op : Op)
  | stopCall (op : Op)
  | stopWait (op : Op)
  | body (op : Op)
  | romXfer (op : Op)
  | startRead (op : Op)
  | startCall (op : Op)
deriving DecidableEq

/-- `struct qm35_ctx` -/
structure Qm35Ctx where
  core : Core
  regulatorsEnabled : Bool
  pcs : Nat → Pc

/-- `qm35_probe` has started HSSPI or not. -/
def ctxInit (regulatorsEnabled running : Bool) : Qm35Ctx where
  core := if running then hsspiStart coreInit else coreInit
  regulatorsEnabled := regulatorsEnabled
  pcs := fun _ => .idle

inductive DriverAct where
  /-- What goes on in the core beside the operations. -/
  | core (a : CoreAct)
  | enter (i : Nat) (op : Op)
  | step (i : Nat)
  /-- A firmware upload starts a transfer. -/
  | romXfer (i : Nat)

/-- The actions of the core that are not the operations' own: `hsspi_start` and `hsspi_stop`
are called by them only, and a caller inside an operation makes no other call. -/
def Qm35Ctx.besides (d : Qm35Ctx) : CoreAct → Bool
  | .start => false
  | .stop _ => false
  | .unregister i _ => d.pcs i == .idle
  | .ret i => d.pcs i == .idle
  | _ => true

def Qm35Ctx.goto (d : Qm35Ctx) (i : Nat) (pc : Pc) : Qm35Ctx :=
  { d with pcs := Function.update d.pcs i pc }

@[simp] theorem goto_core (d : Qm35Ctx) (i : Nat) (pc : Pc) : (d.goto i pc).core = d.core := rfl

@[simp] theorem goto_self (d : Qm35Ctx) (i : Nat) (pc : Pc) : (d.goto i pc).pcs i = pc :=
  Function.update_self _ _ _

theorem goto_other (d : Qm35Ctx) {i j : Nat} (pc : Pc) (h : j ≠ i) : (d.goto i pc).pcs j = d.pcs j :=
  Function.update_of_ne h _ _

/-- The next step of the caller `i`. -/
def callerStep (d : Qm35Ctx) (i : Nat) : Option Qm35Ctx :=
  match d.pcs i with
  | .idle => none
  -- `qm35_hsspi_stop`
  | .stopRead op => some (d.goto i (if d.core.state = .stopped then .body op else .stopCall op))
  | .stopCall op => (coreStep d.core (.stop i)).map fun core => { d with core := core }.goto i (.stopWait op)
  | .stopWait op => (coreStep d.core (.ret i)).map fun core => { d with core := core }.goto i (.body op)
  | .body op => some (d.goto i (if op.starts d.regulatorsEnabled then .startRead op else .idle))
  | .romXfer op => some (d.goto i (.body op))
  -- `qm35_hsspi_start`
  | .startRead op => some (d.goto i (if d.core.state = .running then .idle else .startCall op))
  | .startCall _ => (coreStep d.core .start).map fun core => { d with core := core }.goto i .idle

def driverStep (d : Qm35Ctx) : DriverAct → Option Qm35Ctx
  | .core a => if d.besides a then (coreStep d.core a).map fun core => { d with core := core } else none
  | .enter i op => if d.pcs i = .idle then some (d.goto i (.stopRead op)) else none
  | .step i => callerStep d i
  | .romXfer i =>
    match d.pcs i with
    | .body op => if op.loadsFirmware then some (d.goto i (.romXfer op)) else none
    | _ => none

/-- `qm35_hsspi_stop` has returned to the caller, and its `qm35_hsspi_start` has not run. -/
def Pc.Holds : Pc → Prop
  | .body _ => True
  | .romXfer _ => True
  | .startRead _ => True
  | .startCall _ => True
  | _ => False

/-- The caller waits in `hsspi_stop`. -/
def Pc.Waits : Pc → Prop
  | .stopWait _ => True
  | _ => False

end Qm35.Driver
