import Qm35.Hsspi.SsReady

/- Waking up the firmware (`qm35-spi.c`, `hsspi.c`). `exton` is low while the firmware
   sleeps, and a sleeping firmware does not raise `ss_ready` by itself. `spi_xfer` looks
   at `exton` once, before it waits; if the firmware falls asleep after that,
   `qm35_exton_handler` wakes it up, if somebody is waiting. The handler of `ss_ready`
   takes the wakeup line back before it sets `SS_READY`, and `qm35_exton_handler` clears
   `SS_READY`, so the two can undo each other's work. The handlers' accesses are steps of
   their own, and an edge of `exton` is pending until its handler is entered.

   No order of these steps loses the wakeup (`no_lost_wakeup`): while `spi_xfer` waits
   and the firmware sleeps, the line is raised or `SS_READY` is set, as soon as no
   handler is under way. And nobody waits outside `spi_xfer`, so that a firmware which
   falls asleep there is left alone. -/
namespace Qm35.Hsspi

/-- Where `qm35_exton_handler` is: outside, after it has cleared `SS_READY`, or in `qm35_wakeup`. -/
inductive ExtonPc where
  | idle
  | cleared
  | waking
deriving DecidableEq

/-- The link, a falling edge of `exton` whose handler has not run yet, and where that handler is. -/
structure Wake where
  link : Link
  extonPending : Bool
  extonPc : ExtonPc

def wakeInit (line exton : Bool) : Wake := ⟨linkInit line exton, false, .idle⟩

/-- The next step of `qm35_exton_handler`, which is entered for a pending edge. -/
def extonHandlerStep (s : Wake) : Option Wake :=
  match s.extonPc with
  | .idle =>
    if s.extonPending then
      some { link := { s.link with ssReady := false }, extonPending := false, extonPc := .cleared }
    else none
  | .cleared => some { s with extonPc := if s.link.waitingSsRdy then .waking else .idle }
  | .waking => some { s with link := { s.link with wakeup := true }, extonPc := .idle }

def wakeStep (s : Wake) : LinkAct → Option Wake
  | .extonLevel level =>
    some { s with
      link := { s.link with exton := level }
      extonPending := s.extonPending || (s.link.exton && !level) }
  | .extonHandler => extonHandlerStep s
  | .thread a => some { s with link := xferStep s.link a }
  | .rdyHandler => (rdyStep s.link).map fun link => { s with link := link }
  | .rise =>
    if s.link.line then none
    else some { s with link := { s.link with line := true, pending := true, log := .edge :: s.link.log } }
  | .fall => some { s with link := { s.link with line := false } }

/-! The invariant. -/

/-- `hsspi_wait_ss_ready` has set `waiting_ss_rdy` and not cleared it yet. -/
def XferPc.waits : XferPc → Bool
  | .testBusy _ => true
  | .clearReady _ => true
  | .testLine _ => true
  | .testExton _ => true
  | .wakeup _ => true
  | .waitEvent _ => true
  | .testLineAfter _ => true
  | .doneWaiting _ => true
  | _ => false

/-- The firmware is being woken up, the thread is about to go on, or a handler will see to it. -/
def Coming (s : Wake) : Prop :=
  s.link.wakeup = true ∨ s.link.ssReady = true ∨ s.link.rdyPc ≠ .idle ∨ s.extonPending = true ∨ s.extonPc ≠ .idle

structure Attended (s : Wake) : Prop where
  waits : s.link.pc.waits = true → s.link.waitingSsRdy = true
  outside : s.link.pc = .idle → s.link.waitingSsRdy = false
  coming : ∀ retry, s.link.pc = .waitEvent retry → s.link.exton = false → Coming s

theorem passEnd_outside (retry : Nat) (ret : Int) : (passEnd retry ret).waits = false ∧ passEnd retry ret ≠ .idle ∧
    ∀ n, passEnd retry ret ≠ .waitEvent n := by
  unfold passEnd
  split
  · cases retry <;> simp [XferPc.waits]
  · simp [XferPc.waits]

namespace Attended

variable {s s' : Wake}

theorem init (line exton : Bool) : Attended (wakeInit line exton) :=
  ⟨nofun, fun _ => rfl, nofun⟩

/-- The thread goes on to a step outside the wait, and not out of `spi_xfer`. -/
theorem leaves {link : Link} (hpc : link.pc.waits = false ∧ link.pc ≠ .idle ∧ ∀ n, link.pc ≠ .waitEvent n) :
    Attended { s with link := link } :=
  ⟨fun h => absurd h (by rw [hpc.1]; exact Bool.false_ne_true), fun h => absurd h hpc.2.1,
    fun n h => absurd h (hpc.2.2 n)⟩

/-- The thread goes on inside `hsspi_wait_ss_ready`, not to the wait for the event. -/
theorem goes {link : Link} (hw : link.waitingSsRdy = true) (hpc : link.pc ≠ .idle ∧ ∀ n, link.pc ≠ .waitEvent n) :
    Attended { s with link := link } :=
  ⟨fun _ => hw, fun h => absurd h hpc.1, fun n h => absurd h (hpc.2 n)⟩

theorem thread (A : Attended s) (a : XferAnswer) : Attended { s with link := xferStep s.link a } := by
  have hwaits : s.link.pc.waits = true → s.link.waitingSsRdy = true := A.waits
  unfold xferStep
  cases hpc : s.link.pc with
  | idle =>
    dsimp only
    exact leaves ⟨rfl, nofun, nofun⟩
  | wait retry =>
    dsimp only
    exact goes rfl ⟨nofun, nofun⟩
  | testBusy retry =>
    have hw := hwaits (by rw [hpc]; rfl)
    dsimp only
    split <;> exact goes hw ⟨nofun, nofun⟩
  | clearReady retry =>
    dsimp only
    exact goes (hwaits (by rw [hpc]; rfl)) ⟨nofun, nofun⟩
  | testLine retry =>
    have hw := hwaits (by rw [hpc]; rfl)
    dsimp only
    split
    · exact leaves ⟨rfl, nofun, nofun⟩
    · exact goes hw ⟨nofun, nofun⟩
  | testExton retry =>
    have hw := hwaits (by rw [hpc]; rfl)
    dsimp only
    by_cases hexton : s.link.exton = true
    · rw [if_pos hexton]
      -- it waits without having woken the firmware only with `exton` high
      refine ⟨fun _ => hw, nofun, fun _ _ hlow => ?_⟩
      rw [show s.link.exton = false from hlow] at hexton
      cases hexton
    · rw [if_neg hexton]
      exact goes hw ⟨nofun, nofun⟩
  | wakeup retry => exact ⟨fun _ => hwaits (by rw [hpc]; rfl), nofun, fun _ _ _ => .inl rfl⟩
  | waitEvent retry =>
    have hw := hwaits (by rw [hpc]; rfl)
    dsimp only
    split
    · exact goes hw ⟨nofun, nofun⟩
    · cases a.event with
      | sleep => exact A
      | timeout => exact leaves (passEnd_outside retry eAgain)
      | signal => exact leaves (passEnd_outside retry eRestartSys)
  | testLineAfter retry =>
    have hw := hwaits (by rw [hpc]; rfl)
    dsimp only
    split
    · exact goes hw ⟨nofun, nofun⟩
    · exact leaves (passEnd_outside retry eAgain)
  | inXfer retry =>
    dsimp only
    split
    · exact leaves (passEnd_outside retry a.ret)
    split
    · exact leaves ⟨rfl, nofun, nofun⟩
    · exact leaves ⟨rfl, nofun, nofun⟩
  | wakeupAfter retry =>
    dsimp only
    exact leaves (passEnd_outside retry eAgain)
  | leave ret => exact ⟨nofun, fun _ => rfl, nofun⟩
  | _ =>
    dsimp only
    exact leaves ⟨rfl, nofun, nofun⟩

/-- The handler of `ss_ready` takes the line back, but then it is under way until `SS_READY` is set. -/
theorem rdyHandler (A : Attended s) {link : Link} (hs : rdyStep s.link = some link) :
    Attended { s with link := link } := by
  unfold rdyStep at hs
  cases hpc : s.link.rdyPc with
  | idle =>
    simp only [hpc] at hs
    split at hs
    · cases hs
      exact ⟨A.waits, A.outside, fun _ _ _ => .inr (.inr (.inl nofun))⟩
    · cases hs
  | clearing =>
    simp only [hpc] at hs
    cases hs
    exact ⟨A.waits, A.outside, fun _ _ _ => .inr (.inr (.inl nofun))⟩
  | setting =>
    simp only [hpc] at hs
    cases hs
    exact ⟨A.waits, A.outside, fun _ _ _ => .inr (.inl rfl)⟩

/-- The handler of `exton` clears `SS_READY`, but then it goes on to wake up whoever is waiting. -/
theorem extonHandler (A : Attended s) (hs : extonHandlerStep s = some s') : Attended s' := by
  unfold extonHandlerStep at hs
  cases hpc : s.extonPc with
  | idle =>
    simp only [hpc] at hs
    split at hs
    · cases hs
      exact ⟨A.waits, A.outside, fun _ _ _ => .inr (.inr (.inr (.inr nofun)))⟩
    · cases hs
  | cleared =>
    simp only [hpc] at hs
    cases hs
    refine ⟨A.waits, A.outside, fun n hn _ => .inr (.inr (.inr (.inr ?_)))⟩
    have hw : s.link.waitingSsRdy = true := A.waits (by rw [show s.link.pc = _ from hn]; rfl)
    simp [hw]
  | waking =>
    simp only [hpc] at hs
    cases hs
    exact ⟨A.waits, A.outside, fun _ _ _ => .inl rfl⟩

theorem step {a : LinkAct} (A : Attended s) (hs : wakeStep s a = some s') : Attended s' := by
  cases a with
  | thread a =>
    cases hs
    exact A.thread a
  | rise =>
    simp only [wakeStep] at hs
    split at hs
    · cases hs
    · cases hs
      exact ⟨A.waits, A.outside, A.coming⟩
  | fall =>
    cases hs
    exact ⟨A.waits, A.outside, A.coming⟩
  | rdyHandler =>
    obtain ⟨link, hlink, rfl⟩ := Option.map_eq_some_iff.mp hs
    exact A.rdyHandler hlink
  | extonLevel level =>
    cases hs
    refine ⟨A.waits, A.outside, fun n hn hlow => ?_⟩
    -- the level is low now: it was before, or this is a falling edge
    have hlevel : level = false := hlow
    cases hexton : s.link.exton with
    | false =>
      obtain h | h | h | h | h := A.coming n hn hexton
      · exact .inl h
      · exact .inr (.inl h)
      · exact .inr (.inr (.inl h))
      · exact .inr (.inr (.inr (.inl (by simp [h]))))
      · exact .inr (.inr (.inr (.inr h)))
    | true => exact .inr (.inr (.inr (.inl (by simp [hlevel]))))
  | extonHandler => exact A.extonHandler hs

end Attended

/-- While the thread waits for a firmware that sleeps, it is being woken up once the handlers have run;
outside `spi_xfer` nobody is waiting. -/
theorem no_lost_wakeup {line exton : Bool} {acts : List LinkAct} {s : Wake}
    (hr : Lts.run wakeStep (wakeInit line exton) acts = some s) :
    (s.link.pc = .idle → s.link.waitingSsRdy = false) ∧
    ∀ retry, s.link.pc = .waitEvent retry → s.link.exton = false →
      s.link.wakeup = true ∨ s.link.ssReady = true ∨
        s.link.rdyPc ≠ .idle ∨ s.extonPending = true ∨ s.extonPc ≠ .idle := by
  have A : Attended s := Lts.run_preserves (fun _ _ _ A hs => A.step hs) (Attended.init line exton) hr
  exact ⟨A.outside, A.coming⟩

/-- The firmware is awake when the thread looks, falls asleep while it waits, and the handler runs. -/
def fallsAsleep : List LinkAct :=
  List.replicate 6 goOn ++ [.extonLevel false, .extonHandler, .extonHandler, .extonHandler]

theorem no_lost_wakeup_asleep : ∃ s, Lts.run wakeStep (wakeInit false true) fallsAsleep = some s ∧
    s.link.pc = .waitEvent 4 ∧ s.link.exton = false ∧ s.link.wakeup = true := by
  obtain ⟨s, hr, hpc, hexton, hready, hrdy, hpending, hhandler⟩ :
      ∃ s, Lts.run wakeStep (wakeInit false true) fallsAsleep = some s ∧ s.link.pc = .waitEvent 4 ∧
        s.link.exton = false ∧ s.link.ssReady = false ∧ s.link.rdyPc = .idle ∧ s.extonPending = false ∧
        s.extonPc = .idle := ⟨_, rfl, rfl, rfl, rfl, rfl, rfl, rfl⟩
  refine ⟨s, hr, hpc, hexton, ?_⟩
  have hcoming := (no_lost_wakeup hr).2 4 hpc hexton
  simpa [hready, hrdy, hpending, hhandler] using hcoming

end Qm35.Hsspi
