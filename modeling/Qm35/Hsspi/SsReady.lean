import Qm35.Lib.Lts
import Qm35.Hsspi.Transfer

/- The ready line (`hsspi.c`, `qm35-spi.c`). The firmware raises `ss_ready` when it can take a
   transfer and lowers it while it is busy with one, so there is to be one edge for each
   transfer. Two flags carry the edge from the interrupt handler to `spi_xfer`: the thread
   sets `SS_BUSY` before a transfer and the handler clears it; the handler sets `SS_READY`
   and the thread clears it. The handler's two accesses and the thread's are steps of
   their own, and the line changes whenever it likes.

   An edge that comes after the thread has taken the last one, but before the transfer
   starts, is counted to the transfer that is about to start: its handler clears `SS_BUSY`
   or sets `SS_READY` all the same, and the next transfer starts on it while the line is
   still up (`not_edge_between`). So a transfer must start settled: with the line up, the
   flags as the thread has left them and no edge on its way. A run in which every
   transfer does has an edge between any two (`edge_between`); a transfer that does not
   can be followed by one without (`unsettled_start_slips`). -/
namespace Qm35.Hsspi

def eRestartSys : Int := -512

/-- Where the thread is in `spi_xfer`; `retry` passes are left after this one. -/
inductive XferPc where
  | idle
  -- `hsspi_wait_ss_ready`
  | wait (retry : Nat)
  | testBusy (retry : Nat)
  | clearReady (retry : Nat)
  | testLine (retry : Nat)
  | testExton (retry : Nat)
  | wakeup (retry : Nat)
  | waitEvent (retry : Nat)
  | testLineAfter (retry : Nat)
  | doneWaiting (retry : Nat)
  -- the transfer
  | setBusy (retry : Nat)
  | xfer (retry : Nat)
  | inXfer (retry : Nat)
  | wakeupAfter (retry : Nat)
  | leave (ret : Int)
deriving DecidableEq

/-- Where `qm35_ss_rdy_handler` is: outside, or before one of its accesses to the flags. -/
inductive RdyHandlerPc where
  | idle
  | clearing
  | setting
deriving DecidableEq

/-- A rising edge of the line; `hsspi_wait_ss_ready` has taken the firmware for ready; a transfer starts. -/
inductive LinkEvent where
  | edge
  | ready
  | start
deriving DecidableEq

/-- What `spi_xfer` and the handlers share: the flags, the lines, an edge whose handler has not run
yet, and where everyone is. `wakeup` is whether `qm35_wakeup` has raised its pins, `extonCleared`
whether `qm35_exton_handler` is between its two steps; the log has the newest event first. -/
structure Link where
  ssBusy : Bool
  ssReady : Bool
  waitingSsRdy : Bool
  wakeup : Bool
  line : Bool
  exton : Bool
  pending : Bool
  rdyPc : RdyHandlerPc
  extonCleared : Bool
  pc : XferPc
  log : List LinkEvent

/-- After `hsspi_init` and `hsspi_irqs_setup`. -/
def linkInit (line exton : Bool) : Link where
  ssBusy := false
  ssReady := false
  waitingSsRdy := false
  wakeup := false
  line := line
  exton := exton
  pending := false
  rdyPc := .idle
  extonCleared := false
  pc := .idle
  log := []

/-- What comes of a wait whose condition is false: it goes on, or ends. -/
inductive WaitEnd where
  | sleep
  | timeout
  | signal

/-- What the outside answers to a step of `spi_xfer`. -/
structure XferAnswer where
  event : WaitEnd
  ret : Int
  soc : StcHeader

/-- The end of a pass of the loop of `spi_xfer`. -/
def passEnd (retry : Nat) (ret : Int) : XferPc :=
  if ret = eAgain then
    match retry with
    | 0 => .leave ret
    | retry + 1 => .wait retry
  else .leave ret

/-- The next step of `spi_xfer`, from its call on. -/
def xferStep (s : Link) (a : XferAnswer) : Link :=
  match s.pc with
  | .idle => { s with pc := .wait (spiXferRetries - 1) }
  | .wait retry => { s with waitingSsRdy := true, pc := .testBusy retry }
  | .testBusy retry => { s with pc := if s.ssBusy then .testExton retry else .clearReady retry }
  | .clearReady retry => { s with ssReady := false, pc := .testLine retry }
  | .testLine retry =>
    if s.line then { s with pc := .setBusy retry, log := .ready :: s.log } else { s with pc := .testExton retry }
  | .testExton retry => { s with pc := if s.exton then .waitEvent retry else .wakeup retry }
  | .wakeup retry => { s with wakeup := true, pc := .waitEvent retry }
  | .waitEvent retry =>
    if s.ssReady then { s with ssReady := false, pc := .testLineAfter retry }
    else
      match a.event with
      | .sleep => s
      | .timeout => { s with pc := passEnd retry eAgain }
      | .signal => { s with pc := passEnd retry eRestartSys }
  | .testLineAfter retry =>
    if s.line then { s with pc := .doneWaiting retry, log := .ready :: s.log } else { s with pc := passEnd retry eAgain }
  | .doneWaiting retry => { s with waitingSsRdy := false, pc := .setBusy retry }
  | .setBusy retry => { s with ssBusy := true, pc := .xfer retry }
  | .xfer retry => { s with pc := .inXfer retry, log := .start :: s.log }
  | .inXfer retry =>
    if a.ret ≠ 0 then { s with pc := passEnd retry a.ret }
    else if !socReady a.soc then { s with pc := .wakeupAfter retry }
    else { s with pc := .leave 0 }
  | .wakeupAfter retry => { s with wakeup := true, pc := passEnd retry eAgain }
  | .leave _ => { s with waitingSsRdy := false, pc := .idle }

/-- The next step of `qm35_ss_rdy_handler`, which is entered for a pending edge. -/
def rdyStep (s : Link) : Option Link :=
  match s.rdyPc with
  | .idle => if s.pending then some { s with pending := false, wakeup := false, rdyPc := .clearing } else none
  -- `hsspi_clear_spi_slave_busy`
  | .clearing => some { s with ssBusy := false, rdyPc := .setting }
  -- `hsspi_set_spi_slave_ready`
  | .setting => some { s with ssReady := true, rdyPc := .idle }

/-- The next step of `qm35_exton_handler`. -/
def extonStep (s : Link) : Link :=
  if s.extonCleared then { s with wakeup := s.wakeup || s.waitingSsRdy, extonCleared := false }
  else { s with ssReady := false, extonCleared := true }

inductive LinkAct where
  | thread (a : XferAnswer)
  | rise
  | fall
  | rdyHandler
  | extonLevel (level : Bool)
  | extonHandler

def linkStep (s : Link) : LinkAct → Option Link
  | .thread a => some (xferStep s a)
  | .rise => if s.line then none else some { s with line := true, pending := true, log := .edge :: s.log }
  | .fall => some { s with line := false }
  | .rdyHandler => rdyStep s
  | .extonLevel level => some { s with exton := level }
  | .extonHandler => some (extonStep s)

/-! Edges between transfers. -/

/-- Since the last transfer has started there has been an edge. -/
def Fresh (log : List LinkEvent) : Prop := ∀ later earlier, log = later ++ .start :: earlier → .edge ∈ later

/-- Whenever the firmware is taken for ready or a transfer starts, there has been an edge since each
transfer that has started before. -/
def EdgeBetween (log : List LinkEvent) : Prop :=
  ∀ later between earlier e, log = later ++ e :: (between ++ .start :: earlier) → e = .ready ∨ e = .start →
    .edge ∈ between

theorem fresh_nil : Fresh [] := by
  intro later earlier h
  exact absurd h.symm (List.append_ne_nil_of_right_ne_nil _ (List.cons_ne_nil _ _))

theorem fresh_edge (log : List LinkEvent) : Fresh (.edge :: log) := by
  intro later earlier h
  cases later with
  | nil => cases h
  | cons e later =>
    cases h
    exact List.mem_cons_self

theorem Fresh.ready {log : List LinkEvent} (h : Fresh log) : Fresh (.ready :: log) := by
  intro later earlier heq
  cases later with
  | nil => cases heq
  | cons e later =>
    cases heq
    exact List.mem_cons_of_mem _ (h later earlier rfl)

theorem edgeBetween_nil : EdgeBetween [] := by
  intro later between earlier e h
  exact absurd h.symm (List.append_ne_nil_of_right_ne_nil _ (List.cons_ne_nil _ _))

theorem edgeBetween_cons {e : LinkEvent} {log : List LinkEvent} :
    EdgeBetween (e :: log) ↔ EdgeBetween log ∧ (e = .ready ∨ e = .start → Fresh log) := by
  constructor
  · intro h
    refine ⟨fun later between earlier e' heq => h (e :: later) between earlier e' (by rw [heq]; rfl), fun he => ?_⟩
    intro between earlier heq
    exact h [] between earlier e (by rw [heq]; rfl) he
  · rintro ⟨hlog, he⟩ later between earlier e' heq he'
    cases later with
    | nil =>
      cases heq
      exact he he' between earlier rfl
    | cons e'' later =>
      cases heq
      exact hlog later between earlier e' rfl he'

/-! The condition. -/

/-- The flags are as the thread has left them, and no edge is on its way to them. -/
def Settled (s : Link) : Prop := s.ssBusy = true ∧ s.ssReady = false ∧ s.pending = false ∧ s.rdyPc = .idle

instance (s : Link) : Decidable (Settled s) := inferInstanceAs (Decidable (_ ∧ _ ∧ _ ∧ _))

/-- The next step starts the transfer. -/
def XferPc.starts : XferPc → Bool
  | .xfer _ => true
  | _ => false

/-- A transfer that starts with the line up starts settled. -/
def StartsSettled (s : Link) : LinkAct → Prop
  | .thread _ => s.pc.starts = true → s.line = true → Settled s
  | _ => True

instance (s : Link) : (a : LinkAct) → Decidable (StartsSettled s a)
  | .thread _ => inferInstanceAs (Decidable (_ → _ → _))
  | .rise => .isTrue trivial
  | .fall => .isTrue trivial
  | .rdyHandler => .isTrue trivial
  | .extonLevel _ => .isTrue trivial
  | .extonHandler => .isTrue trivial

/-- The thread has found a flag that says ready, and has not looked at the line yet. -/
def XferPc.Believes : XferPc → Prop
  | .clearReady _ => True
  | .testLine _ => True
  | .testLineAfter _ => True
  | _ => False

/-- The thread has taken the firmware for ready, and has not started the transfer yet. -/
def XferPc.Taken : XferPc → Prop
  | .doneWaiting _ => True
  | .setBusy _ => True
  | .xfer _ => True
  | _ => False

/-- As long as there has been no edge since the last start and the line is up, everything is settled
and the thread believes nothing else. -/
structure OneEdge (s : Link) : Prop where
  between : EdgeBetween s.log
  taken : s.pc.Taken → Fresh s.log
  settled : ¬Fresh s.log → s.line = true → Settled s ∧ ¬s.pc.Believes

theorem passEnd_plain (retry : Nat) (ret : Int) : ¬(passEnd retry ret).Believes ∧ ¬(passEnd retry ret).Taken := by
  unfold passEnd
  split
  · cases retry <;> exact ⟨fun h => h, fun h => h⟩
  · exact ⟨fun h => h, fun h => h⟩

namespace OneEdge

variable {s s' : Link}

theorem init (line exton : Bool) : OneEdge (linkInit line exton) :=
  ⟨edgeBetween_nil, fun h => h.elim, fun h => absurd fresh_nil h⟩

/-- The thread goes on to a step at which it neither believes nor has taken anything. -/
theorem goto (E : OneEdge s) {waitingSsRdy wakeup : Bool} {pc : XferPc} (hpc : ¬pc.Believes ∧ ¬pc.Taken) :
    OneEdge { s with waitingSsRdy := waitingSsRdy, wakeup := wakeup, pc := pc } :=
  ⟨E.between, fun h => absurd h hpc.2, fun hstale hline => ⟨(E.settled hstale hline).1, hpc.1⟩⟩

/-- What the thread has taken stays taken. -/
theorem keep (E : OneEdge s) (ht : s.pc.Taken) {ssBusy waitingSsRdy : Bool} {pc : XferPc} :
    OneEdge { s with ssBusy := ssBusy, waitingSsRdy := waitingSsRdy, pc := pc } :=
  ⟨E.between, fun _ => E.taken ht, fun hstale => absurd (E.taken ht) hstale⟩

/-- The thread has found a flag that says ready: with the line up there has been an edge. -/
theorem believe (E : OneEdge s) {pc : XferPc} (ht : ¬pc.Taken) (hflag : ¬Settled s) {ssReady : Bool} :
    OneEdge { s with ssReady := ssReady, pc := pc } :=
  ⟨E.between, fun h => absurd h ht, fun hstale hline => absurd (E.settled hstale hline).1 hflag⟩

/-- With the line up the thread takes the firmware for ready, rightly. -/
theorem take (E : OneEdge s) (hb : s.pc.Believes) (hline : s.line = true) {pc : XferPc} :
    OneEdge { s with pc := pc, log := .ready :: s.log } := by
  have hfresh : Fresh s.log := by
    by_contra hstale
    exact (E.settled hstale hline).2 hb
  exact ⟨edgeBetween_cons.mpr ⟨E.between, fun _ => hfresh⟩, fun _ => hfresh.ready,
    fun hstale => absurd hfresh.ready hstale⟩

/-- A transfer starts, settled where the line is up. -/
theorem start (E : OneEdge s) (ht : s.pc.Taken) (hstart : s.line = true → Settled s) (retry : Nat) :
    OneEdge { s with pc := .inXfer retry, log := .start :: s.log } := by
  have hfresh := E.taken ht
  exact ⟨edgeBetween_cons.mpr ⟨E.between, fun _ => hfresh⟩, fun h => h.elim,
    fun _ hline => ⟨hstart hline, fun h => h⟩⟩

/-- A step of the thread, from each of its program counters. -/
theorem thread (E : OneEdge s) (a : XferAnswer) (hc : StartsSettled s (.thread a)) : OneEdge (xferStep s a) := by
  unfold xferStep
  cases hpc : s.pc with
  | idle => exact E.goto ⟨fun h => h, fun h => h⟩
  | wait retry => exact E.goto ⟨fun h => h, fun h => h⟩
  | testBusy retry =>
    dsimp only
    by_cases hbusy : s.ssBusy = true
    · rw [if_pos hbusy]
      exact E.goto ⟨fun h => h, fun h => h⟩
    · rw [if_neg hbusy]
      -- the firmware is not known to be busy, so this was not settled
      refine E.believe ?_ fun hset => hbusy hset.1
      exact fun h => h
  | clearReady retry =>
    -- the thread believes here, so with the line up there has been an edge
    refine ⟨E.between, fun h => h.elim, fun hstale hline => absurd ?_ (E.settled hstale hline).2⟩
    rw [hpc]
    trivial
  | testLine retry =>
    dsimp only
    by_cases hline : s.line = true
    · rw [if_pos hline]
      exact E.take (by rw [hpc]; trivial) hline
    · rw [if_neg hline]
      exact E.goto ⟨fun h => h, fun h => h⟩
  | testExton retry =>
    dsimp only
    split <;> exact E.goto ⟨fun h => h, fun h => h⟩
  | wakeup retry => exact E.goto ⟨fun h => h, fun h => h⟩
  | waitEvent retry =>
    dsimp only
    by_cases hready : s.ssReady = true
    · rw [if_pos hready]
      refine E.believe ?_ fun hset => ?_
      · exact fun h => h
      · rw [hset.2.1] at hready
        cases hready
    · rw [if_neg hready]
      cases a.event with
      | sleep => exact E
      | timeout => exact E.goto (passEnd_plain retry eAgain)
      | signal => exact E.goto (passEnd_plain retry eRestartSys)
  | testLineAfter retry =>
    dsimp only
    by_cases hline : s.line = true
    · rw [if_pos hline]
      exact E.take (by rw [hpc]; trivial) hline
    · rw [if_neg hline]
      exact E.goto (passEnd_plain retry eAgain)
  | doneWaiting retry => exact E.keep (by rw [hpc]; trivial)
  | setBusy retry => exact E.keep (by rw [hpc]; trivial)
  | xfer retry =>
    have hstart : s.pc.starts = true := by
      rw [hpc]
      rfl
    exact E.start (by rw [hpc]; trivial) (hc hstart) retry
  | inXfer retry =>
    dsimp only
    split
    · exact E.goto (passEnd_plain retry a.ret)
    split
    · exact E.goto ⟨fun h => h, fun h => h⟩
    · exact E.goto ⟨fun h => h, fun h => h⟩
  | wakeupAfter retry => exact E.goto (passEnd_plain retry eAgain)
  | leave ret => exact E.goto ⟨fun h => h, fun h => h⟩

/-- The handler of an edge: where everything is settled it does not run. -/
theorem rdyHandler (E : OneEdge s) (hs : rdyStep s = some s') : OneEdge s' := by
  unfold rdyStep at hs
  cases hpc : s.rdyPc with
  | idle =>
    rw [hpc] at hs
    by_cases hpending : s.pending = true
    · cases (if_pos hpending).symm.trans hs
      refine ⟨E.between, E.taken, fun hstale hline => ?_⟩
      have hset := (E.settled hstale hline).1
      rw [hset.2.2.1] at hpending
      cases hpending
    · cases (if_neg hpending).symm.trans hs
  | clearing =>
    rw [hpc] at hs
    cases hs
    refine ⟨E.between, E.taken, fun hstale hline => ?_⟩
    have hset := (E.settled hstale hline).1
    cases hpc.symm.trans hset.2.2.2
  | setting =>
    rw [hpc] at hs
    cases hs
    refine ⟨E.between, E.taken, fun hstale hline => ?_⟩
    have hset := (E.settled hstale hline).1
    cases hpc.symm.trans hset.2.2.2

theorem extonHandler (E : OneEdge s) : OneEdge (extonStep s) := by
  unfold extonStep
  split
  · exact ⟨E.between, E.taken, E.settled⟩
  · refine ⟨E.between, E.taken, fun hstale hline => ?_⟩
    obtain ⟨hset, hb⟩ := E.settled hstale hline
    exact ⟨⟨hset.1, rfl, hset.2.2⟩, hb⟩

theorem step {a : LinkAct} (E : OneEdge s) (hc : StartsSettled s a) (hs : linkStep s a = some s') : OneEdge s' := by
  cases a with
  | thread a =>
    cases hs
    exact E.thread a hc
  | rise =>
    rw [linkStep] at hs
    split at hs
    · cases hs
    · cases hs
      have hfresh := fresh_edge s.log
      exact ⟨edgeBetween_cons.mpr ⟨E.between, fun h => by rcases h with h | h <;> cases h⟩, fun _ => hfresh,
        fun hstale => absurd hfresh hstale⟩
  | fall =>
    cases hs
    exact ⟨E.between, E.taken, fun _ hline => nomatch hline⟩
  | rdyHandler => exact E.rdyHandler hs
  | extonLevel level =>
    cases hs
    exact ⟨E.between, E.taken, E.settled⟩
  | extonHandler =>
    cases hs
    exact E.extonHandler

end OneEdge

/-- In every run in which each transfer starts settled, or with the line down, there is an edge between
any two transfers, and none is started on an indication that is older than the last one. -/
theorem edge_between {line exton : Bool} {acts : List LinkAct} {s : Link}
    (hm : Lts.Meets linkStep StartsSettled (linkInit line exton) acts)
    (hr : Lts.run linkStep (linkInit line exton) acts = some s) : EdgeBetween s.log := by
  have E : OneEdge s := Lts.run_invariant (fun _ _ _ E hc hs => E.step hc hs) (OneEdge.init line exton) hm hr
  exact E.between

/-! A start that is not settled. -/

/-- The thread goes on, its transfers succeeding. -/
def goOn : LinkAct := .thread ⟨.sleep, 0, ⟨stcSocRdy, 0, 0⟩⟩

/-- From outside `spi_xfer`, with the line up and a flag that says ready, the thread takes the firmware
for ready. -/
theorem takes {s : Link} (hpc : s.pc = .idle) (hline : s.line = true) (hflag : s.ssBusy = false ∨ s.ssReady = true) :
    ∃ n s', Lts.run linkStep s (List.replicate n goOn) = some s' ∧ s'.log = .ready :: s.log := by
  obtain ⟨ssBusy, ssReady, waitingSsRdy, wakeup, line, exton, pending, rdyPc, extonCleared, pc, log⟩ := s
  subst hpc hline
  cases ssBusy with
  | false => exact ⟨5, _, rfl, rfl⟩
  | true =>
    have hready : ssReady = true := hflag.resolve_left (fun h => nomatch h)
    subst hready
    cases exton with
    | true => exact ⟨6, _, rfl, rfl⟩
    | false => exact ⟨7, _, rfl, rfl⟩

/-- An edge that is on its way reaches the flags. -/
theorem arrives {s : Link} (hun : ¬Settled s) : ∃ n s', Lts.run linkStep s (List.replicate n .rdyHandler) = some s' ∧
    s'.pc = s.pc ∧ s'.line = s.line ∧ s'.log = s.log ∧ (s'.ssBusy = false ∨ s'.ssReady = true) := by
  obtain ⟨ssBusy, ssReady, waitingSsRdy, wakeup, line, exton, pending, rdyPc, extonCleared, pc, log⟩ := s
  cases rdyPc with
  | clearing => exact ⟨2, _, rfl, rfl, rfl, rfl, .inr rfl⟩
  | setting => exact ⟨1, _, rfl, rfl, rfl, rfl, .inr rfl⟩
  | idle =>
    cases pending with
    | true => exact ⟨3, _, rfl, rfl, rfl, rfl, .inr rfl⟩
    | false =>
      refine ⟨0, _, rfl, rfl, rfl, rfl, ?_⟩
      by_contra hnot
      rw [not_or, Bool.not_eq_false, Bool.not_eq_true] at hnot
      exact hun ⟨hnot.1, hnot.2, rfl, rfl⟩

/-- A transfer that starts neither settled nor with the line down can be followed by another without an edge. -/
theorem unsettled_start_slips {s : Link} {retry : Nat} (hpc : s.pc = .xfer retry) (hline : s.line = true)
    (hun : ¬Settled s) : ∃ acts s', .rise ∉ acts ∧ Lts.run linkStep s acts = some s' ∧ ¬EdgeBetween s'.log := by
  have hafter : ¬Settled { s with pc := .idle, waitingSsRdy := false, log := .start :: s.log } := hun
  obtain ⟨n, s1, hrun1, hpc1, hline1, hlog1, hflag1⟩ := arrives hafter
  obtain ⟨k, s2, hrun2, hlog2⟩ := takes hpc1 (hline1.trans hline) hflag1
  refine ⟨List.replicate 3 goOn ++ (List.replicate n .rdyHandler ++ List.replicate k goOn), s2, ?_, ?_, fun h => ?_⟩
  · simp [goOn]
  · have hstart : Lts.run linkStep s (List.replicate 3 goOn) =
        some { s with pc := .idle, waitingSsRdy := false, log := .start :: s.log } := by
      obtain ⟨ssBusy, ssReady, waitingSsRdy, wakeup, line, exton, pending, rdyPc, extonCleared, pc, log⟩ := s
      subst hpc
      rfl
    rw [Lts.run_append, hstart, Option.bind_some, Lts.run_append, hrun1]
    exact hrun2
  · rw [hlog2, hlog1] at h
    exact absurd (h [] [] s.log .ready rfl (.inl rfl)) List.not_mem_nil

/-- One edge, its handler, and a transfer; the line goes down and up again, and the next transfer. -/
def edgeEach : List LinkAct :=
  [.rise, .rdyHandler, .rdyHandler, .rdyHandler] ++ List.replicate 9 goOn ++
    [.fall, .rise, .rdyHandler, .rdyHandler, .rdyHandler] ++ List.replicate 7 goOn

theorem edge_between_each : ∃ s, Lts.run linkStep (linkInit false true) edgeEach = some s ∧
    s.log = [.start, .ready, .edge, .start, .ready, .edge] ∧ EdgeBetween s.log := by
  have hm : Lts.Meets linkStep StartsSettled (linkInit false true) edgeEach := by decide
  exact ⟨_, rfl, rfl, edge_between hm rfl⟩

/-- The handler of the only edge is between its two accesses while the thread takes the firmware for
ready, and sets `SS_READY` after that: the second transfer is started on it. -/
def lateReady : List LinkAct :=
  [.rise, .rdyHandler, .rdyHandler] ++ List.replicate 5 goOn ++ [.rdyHandler] ++ List.replicate 13 goOn

theorem not_edge_between : ¬∀ line exton acts s, Lts.run linkStep (linkInit line exton) acts = some s →
    EdgeBetween s.log := by
  intro h
  have hlate := h false true lateReady _ rfl [] [.ready] [.ready, .edge] .start rfl (.inr rfl)
  exact absurd hlate (by decide)

end Qm35.Hsspi
