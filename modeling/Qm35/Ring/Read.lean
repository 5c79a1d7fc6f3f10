import Qm35.Ring.Reset

/- Reading the traces (`debug_traces_read` in `debug.c`) beside `log_received`, which
   pushes. A read asks for the size of the next entry, waits for one if there is none,
   compares the size with the user's buffer, and pops. Each access to the trace buffer is
   a step of its own, since `rb->lock` is released between them; what the read does with
   its own data is part of the step before. Any number of reads may be in progress, and
   the traces may be opened, which resets, at any time.

   The entry that is popped need not be the one whose size was compared: pushes may have
   evicted that one. And the result of the wait goes through a `uint16_t`, which makes a
   positive number of `-ERESTARTSYS`. Apart from these two every result is an error, or 0,
   or the length of the entry copied (`reads_iff`). -/
namespace Qm35.Ring

open ByteMem Lts

def eMsgSize : Int := -90
def eFault : Int := -14
def eNoSys : Int := -38
def eRestartSys : Int := -512

/-- An `int` in a `uint16_t`. -/
def toU16 (ret : Int) : Nat := (ret % 65536).toNat

/-- Where a call of `debug_traces_read` is, with its `count`. -/
inductive ReadPc where
  | idle
  | query (count : Nat) (nonblock : Bool)
  | waiting (count : Nat)
  | pop (count : Nat)
deriving DecidableEq

/-- What a call returned, and the bytes it copied to the user. -/
structure Returned where
  count : Nat
  ret : Int
  copied : List UInt8

/-- `traceOps` is set once `log_layer_init` is done. -/
structure Traces where
  ring : History
  traceOps : Bool
  reads : Nat → ReadPc
  returned : List Returned

def tracesInit : Traces := ⟨histInit, false, fun _ => .idle, []⟩

namespace Traces

def goto (s : Traces) (i : Nat) (pc : ReadPc) : Traces := { s with reads := Function.update s.reads i pc }

/-- The call `i` returns. -/
def ret (s : Traces) (i count : Nat) (ret : Int) (copied : List UInt8) : Traces :=
  { s with reads := Function.update s.reads i .idle, returned := s.returned ++ [⟨count, ret, copied⟩] }

/-- `trace_get_next_size`: the size, and the buffer as it leaves it. -/
def nextSize (s : Traces) : Option (Nat × Traces) :=
  (rbNextSize s.ring.rb).map fun (size, rb) => (size, { s with ring := { s.ring with rb := rb } })

/-- The test of the size against the user's buffer. -/
def sized (s : Traces) (i count size : Nat) : Traces :=
  if count < size then s.ret i count eMsgSize [] else s.goto i (.pop count)

/-- `copy_to_user`, which does not copy the last `notCopied` bytes of the entry, and the end of the call. -/
def copy (s : Traces) (i count : Nat) (entry : List UInt8) (notCopied : Nat) : Traces :=
  s.ret i count (if u16 notCopied ≠ 0 then eFault else u16 entry.length) (entry.take (entry.length - notCopied))

end Traces

inductive ReadAct where
  | logLayerInit
  /-- by `log_received`, of any body its length field allows -/
  | push (data : List UInt8)
  /-- `debug_traces_open` -/
  | tracesOpen
  | read (i count : Nat) (nonblock : Bool)
  | query (i : Nat)
  /-- the condition of `wait_event_interruptible` is evaluated -/
  | wake (i : Nat)
  /-- the wait ends by a signal -/
  | interrupt (i : Nat)
  | pop (i notCopied : Nat)

def readStep (s : Traces) : ReadAct → Option Traces
  | .logLayerInit => some { s with traceOps := true }
  | .push data =>
    if s.traceOps = true ∧ data.length ≤ 65531 then
      (histStep s.ring (.push data)).map fun ring => { s with ring := ring }
    else none
  | .tracesOpen => if s.traceOps then (histStep s.ring .reset).map fun ring => { s with ring := ring } else some s
  | .read i count nonblock =>
    if s.reads i = .idle then
      some (if s.traceOps then s.goto i (.query count nonblock) else s.ret i count eNoSys [])
    else none
  | .query i =>
    match s.reads i with
    | .query count nonblock => do
      let (size, s) ← s.nextSize
      if size = 0 then some (if nonblock then s.ret i count 0 [] else s.goto i (.waiting count))
      else some (s.sized i count size)
    | _ => none
  | .wake i =>
    match s.reads i with
    | .waiting count => do
      let (size, s) ← s.nextSize
      if size = 0 then some s else some (s.sized i count size)
    | _ => none
  | .interrupt i =>
    match s.reads i with
    | .waiting count => some (s.ret i count (toU16 eRestartSys) [])
    | _ => none
  | .pop i notCopied =>
    match s.reads i with
    | .pop count => do
      let (entry, _) ← rbPop s.ring.rb
      let ring ← histStep s.ring .pop
      let s := { s with ring := ring }
      match entry with
      | none => some (s.ret i count 0 [])
      | some entry => if notCopied ≤ entry.length then some (s.copy i count entry notCopied) else none
    | _ => none

/-- Not more than `count` bytes were copied, and the result is an error, or 0, or the length of an entry that
was pushed and has been copied. -/
def Consistent (pushed : List (List UInt8)) (r : Returned) : Prop :=
  r.copied.length ≤ r.count ∧ (r.ret < 0 ∨ r.ret = 0 ∨ r.ret = r.copied.length ∧ r.copied ∈ pushed)

/-- No wait is interrupted; and of the entry that is next when a call pops no more than `count` bytes are copied, so
unless `copy_to_user` fails it is not longer. -/
def Undisturbed (s : Traces) : ReadAct → Prop
  | .interrupt i => ∀ count, s.reads i ≠ .waiting count
  | .pop i notCopied => ∀ count size rb, s.reads i = .pop count → rbNextSize s.ring.rb = some (size, rb) →
    notCopied ≤ size → size - notCopied ≤ count
  | _ => True

/-! The buffer under the reads. -/

/-- Between two calls every entry retained or pending is one that was pushed. -/
def Logged (h : History) : Prop :=
  ∃ ret pend, Lay h.rb h.owner ret pend ∧ (∀ x ∈ ret, x.2 ∈ h.pushed) ∧ ∀ x ∈ pend, x.2 ∈ h.pushed

/-- Sizes are 16-bit. -/
theorem rbNextSizeAt_lt {rb : Rb} {t n t' : Nat} (h : rbNextSizeAt rb t = some (n, t')) : n < 65536 := by
  have load : ∀ {off m : Nat}, rb.load16 off = some m → m < 65536 := by
    intro off m hm
    simp only [Rb.load16, Option.ite_none_right_eq_some, Option.some.injEq] at hm
    rw [← hm.2]
    exact ByteMem.Mem.le16_lt rb.buf off
  unfold rbNextSizeAt at h
  split at h
  · obtain ⟨m, hm, h⟩ := Option.bind_eq_some_iff.mp h
    split at h
    · split at h
      · cases h
        decide
      · obtain ⟨m', hm', h⟩ := Option.bind_eq_some_iff.mp h
        cases h
        exact load hm'
    · cases h
      exact load hm
  · cases h
    decide

namespace Logged

variable {h : History}

theorem init : Logged histInit :=
  ⟨[], [], Ordered.init.lay, (fun _ hx => nomatch hx), fun _ hx => nomatch hx⟩

/-- A call of a reader, after which `pend'` is pending. -/
theorem read {rb : Rb} {owner : Nat → Nat} {ret pend pend' : List Tagged} {popped : List Tagged}
    (hL : Lay rb owner ret pend') (hret : ∀ x ∈ ret, x.2 ∈ h.pushed) (hpend : ∀ x ∈ pend, x.2 ∈ h.pushed)
    (hsub : pend' ⊆ pend) : Logged ⟨rb, owner, h.pushed, popped⟩ :=
  ⟨ret, pend', hL, hret, fun x hx => hpend x (hsub hx)⟩

theorem push (H : Logged h) {data : List UInt8} (hlen : data.length ≤ 65531) :
    ∃ h', histStep h (.push data) = some h' ∧ Logged h' ∧ h.pushed ⊆ h'.pushed := by
  obtain ⟨ret, pend, hL, hret, hpend⟩ := H
  by_cases h1 : 1 ≤ data.length
  · obtain ⟨rb', ret', pend', hrun, hL', hk, -⟩ := rbPush_spec h.pushed.length hL h1 hlen
    have hret' : ∀ x ∈ ret', x.2 ∈ h.pushed := fun x hx => hret x (hk.suffix.subset hx)
    have hpend' : ∀ x ∈ pend', x.2 ∈ h.pushed := by
      rcases hk.reader with rfl | ⟨rfl, -⟩ | ⟨rfl, -⟩
      · exact hpend
      · exact hret'
      · exact fun x hx => nomatch hx
    have snoc : ∀ {xs : List Tagged}, (∀ x ∈ xs, x.2 ∈ h.pushed) →
        ∀ x ∈ xs ++ [(h.pushed.length, data)], x.2 ∈ h.pushed ++ [data] := by
      intro xs hxs x hx
      rcases List.mem_append.mp hx with hx | hx
      · exact List.mem_append_left _ (hxs x hx)
      · rw [List.mem_singleton.mp hx]
        simp
    exact ⟨_, histStep_push hrun, ⟨_, _, hL', snoc hret', snoc hpend'⟩, List.subset_append_left _ _⟩
  · have hrun : rbPush h.rb data = some (1, h.rb) := by
      simp [rbPush, show data.length = 0 by omega]
    exact ⟨h, by simp [histStep, hrun], ⟨ret, pend, hL, hret, hpend⟩, fun _ hx => hx⟩

theorem reset (H : Logged h) : Logged { h with rb := rbReset h.rb } := by
  obtain ⟨ret, pend, hL, hret, hpend⟩ := H
  exact ⟨ret, ret, hL.reset, hret, hret⟩

theorem nextSize (H : Logged h) : ∃ size rb, rbNextSize h.rb = some (size, rb) ∧ Logged { h with rb := rb } := by
  obtain ⟨ret, pend, hL, hret, hpend⟩ := H
  obtain ⟨size, rb, hrun, hL'⟩ := rbNextSize_spec hL
  exact ⟨size, rb, hrun, ret, pend, hL', hret, hpend⟩

/-- A pop returns the entry whose size the reader would be told, or there is none. -/
theorem pop (H : Logged h) : (∃ rb, rbNextSize h.rb = some (0, rb)) ∧ rbPop h.rb = some (none, h.rb) ∧
      histStep h .pop = some h ∨
    ∃ data rb h', (∃ rb', rbNextSize h.rb = some (data.length, rb')) ∧ rbPop h.rb = some (some data, rb) ∧
      histStep h .pop = some h' ∧ Logged h' ∧ h'.pushed = h.pushed ∧ data ∈ h.pushed ∧ data.length < 65536 := by
  obtain ⟨ret, pend, hL, hret, hpend⟩ := H
  cases pend with
  | nil =>
    have hempty := rbPop_empty hL
    have hsize := rbNextSizeAt_empty (hL.caught_up.mp rfl)
    exact .inl ⟨⟨h.rb, by simp [rbNextSize, hsize]⟩, hempty, histStep_pop_none hempty⟩
  | cons x pend =>
    obtain ⟨t, N⟩ := hL.next
    obtain ⟨rb, hrun, -, hL'⟩ := rbPop_spec hL
    refine .inr ⟨x.2, rb, _, ⟨{ h.rb with rdtail := t }, by simp [rbNextSize, N.next]⟩, hrun, histStep_pop hrun, ?_, rfl,
      hpend x List.mem_cons_self, rbNextSizeAt_lt N.next⟩
    exact read hL' hret hpend (List.subset_cons_self _ _)

end Logged

/-! The results. -/

def AllConsistent (s : Traces) : Prop := ∀ r ∈ s.returned, Consistent s.ring.pushed r

theorem Consistent.mono {pushed pushed' : List (List UInt8)} {r : Returned} (h : Consistent pushed r)
    (hsub : pushed ⊆ pushed') : Consistent pushed' r :=
  ⟨h.1, h.2.imp_right (Or.imp_right (And.imp_right fun hmem => hsub hmem))⟩

/-- An error, or nothing, with nothing copied. -/
theorem consistent_nothing {pushed : List (List UInt8)} {count : Nat} {ret : Int} (h : ret ≤ 0) :
    Consistent pushed ⟨count, ret, []⟩ := by
  refine ⟨Nat.zero_le _, ?_⟩
  dsimp only
  omega

namespace AllConsistent

variable {s : Traces} {i count : Nat}

theorem ring (A : AllConsistent s) {ring : History} (hsub : s.ring.pushed ⊆ ring.pushed) :
    AllConsistent { s with ring := ring } :=
  fun r hr => (A r hr).mono hsub

theorem ret_iff (A : AllConsistent s) {ret : Int} {copied : List UInt8} :
    AllConsistent (s.ret i count ret copied) ↔ Consistent s.ring.pushed ⟨count, ret, copied⟩ := by
  constructor
  · exact fun h => h _ (List.mem_append_right _ List.mem_cons_self)
  · intro h r hr
    rcases List.mem_append.mp hr with hr | hr
    · exact A r hr
    · rw [List.mem_singleton.mp hr]
      exact h

theorem sized (A : AllConsistent s) (size : Nat) : AllConsistent (s.sized i count size) := by
  unfold Traces.sized
  split
  · exact A.ret_iff.mpr (consistent_nothing (by decide))
  · exact A

/-- The copy is consistent exactly if not more than `count` bytes of the entry are copied. -/
theorem copy_iff (A : AllConsistent s) {entry : List UInt8} {notCopied : Nat} (hmem : entry ∈ s.ring.pushed)
    (hlen : entry.length < 65536) (hnot : notCopied ≤ entry.length) :
    AllConsistent (s.copy i count entry notCopied) ↔ entry.length - notCopied ≤ count := by
  have htake : (entry.take (entry.length - notCopied)).length = entry.length - notCopied := by
    rw [List.length_take]
    omega
  unfold Traces.copy
  rw [A.ret_iff, Consistent, htake]
  refine and_iff_left ?_
  have hu : u16 notCopied = notCopied := Nat.mod_eq_of_lt (by omega)
  have hu' : u16 entry.length = entry.length := Nat.mod_eq_of_lt hlen
  rw [hu, hu']
  by_cases hzero : notCopied = 0
  · subst hzero
    rw [Nat.sub_zero, List.take_length]
    exact .inr (.inr ⟨rfl, hmem⟩)
  · rw [if_pos hzero]
    exact .inl (show eFault < 0 by decide)

end AllConsistent

/-- What every step keeps, and those that return no more than an error or 0. -/
structure Keeps (s s' : Traces) : Prop where
  logged : Logged s'.ring
  consistent : AllConsistent s → AllConsistent s'

/-- The next size, as a step of a call. -/
theorem Logged.tracesNextSize {s : Traces} (H : Logged s.ring) :
    ∃ size s', s.nextSize = some (size, s') ∧ Keeps s s' := by
  obtain ⟨size, rb, hrun, H'⟩ := H.nextSize
  refine ⟨size, { s with ring := { s.ring with rb := rb } }, ?_, H', id⟩
  rw [Traces.nextSize, hrun]
  rfl

theorem Keeps.sized {s s' : Traces} (K : Keeps s s') (i count size : Nat) : Keeps s (s'.sized i count size) := by
  refine ⟨?_, fun A => (K.consistent A).sized size⟩
  unfold Traces.sized
  split <;> exact K.logged

theorem Keeps.ret {s s' : Traces} (K : Keeps s s') {i count : Nat} {ret : Int} (h : ret ≤ 0) :
    Keeps s (s'.ret i count ret []) :=
  ⟨K.logged, fun A => (K.consistent A).ret_iff.mpr (consistent_nothing h)⟩

/-- Only the end of a wait by a signal, and a pop, can return anything else. -/
theorem Logged.keeps {s s' : Traces} {a : ReadAct} (H : Logged s.ring) (h : readStep s a = some s')
    (hinterrupt : ∀ i, a ≠ .interrupt i) (hpop : ∀ i notCopied, a ≠ .pop i notCopied) : Keeps s s' := by
  have K : Keeps s s := ⟨H, id⟩
  cases a with
  | logLayerInit =>
    cases h
    exact ⟨H, id⟩
  | push data =>
    simp only [readStep] at h
    split at h
    · next hlen =>
      obtain ⟨h', hrun, H', hsub⟩ := H.push hlen.2
      rw [hrun] at h
      cases h
      exact ⟨H', fun A => A.ring hsub⟩
    · cases h
  | tracesOpen =>
    simp only [readStep] at h
    split at h
    · cases h
      exact ⟨H.reset, id⟩
    · cases h
      exact K
  | read i count nonblock =>
    simp only [readStep] at h
    split at h
    · cases h
      split
      · exact ⟨H, id⟩
      · exact K.ret (by decide)
    · cases h
  -- the peek may move the reader; an empty buffer makes the call return 0 or wait
  | query i =>
    simp only [readStep] at h
    split at h
    · obtain ⟨size, t, hrun, K'⟩ := H.tracesNextSize
      simp only [hrun, Option.bind_eq_bind, Option.bind_some] at h
      split at h
      · cases h
        split
        · exact K'.ret (Int.le_refl 0)
        · exact ⟨K'.logged, K'.consistent⟩
      · cases h
        exact K'.sized _ _ _
    · cases h
  | wake i =>
    simp only [readStep] at h
    split at h
    · obtain ⟨size, t, hrun, K'⟩ := H.tracesNextSize
      simp only [hrun, Option.bind_eq_bind, Option.bind_some] at h
      split at h
      · cases h
        exact K'
      · cases h
        exact K'.sized _ _ _
    · cases h
  | interrupt i => exact absurd rfl (hinterrupt i)
  | pop i notCopied => exact absurd rfl (hpop i notCopied)

/-- The buffer is used as it should be, whatever is read and pushed. -/
theorem Logged.step {s s' : Traces} {a : ReadAct} (H : Logged s.ring) (h : readStep s a = some s') : Logged s'.ring := by
  cases a with
  | interrupt i =>
    simp only [readStep] at h
    split at h
    · cases h
      exact H
    · cases h
  | pop i notCopied =>
    simp only [readStep] at h
    split at h
    · rcases H.pop with ⟨-, hpop, hstep⟩ | ⟨data, rb, h', -, hpop, hstep, H', -⟩
      · simp only [hpop, hstep, Option.bind_eq_bind, Option.bind_some, Option.some.injEq] at h
        subst h
        exact H
      · simp only [hpop, hstep, Option.bind_eq_bind, Option.bind_some] at h
        split at h
        · cases h
          exact H'
        · cases h
    · cases h
  | _ => exact (H.keeps h (fun _ h => nomatch h) fun _ _ h => nomatch h).logged

/-- A step keeps the results consistent exactly if it is an undisturbed one. -/
theorem undisturbed_iff {s : Traces} {a : ReadAct} (H : Logged s.ring) (A : AllConsistent s) :
    Undisturbed s a ↔ ∀ s', readStep s a = some s' → AllConsistent s' := by
  cases a with
  | interrupt i =>
    -- -ERESTARTSYS as a `uint16_t` is a positive number, with nothing copied
    have hnot : ∀ count pushed, ¬Consistent pushed ⟨count, toU16 eRestartSys, []⟩ := by
      intro count pushed
      simp [Consistent, toU16, eRestartSys]
    simp only [Undisturbed, readStep]
    cases hpc : s.reads i with
    | waiting count =>
      refine iff_of_false (fun h => h count rfl) fun h => ?_
      exact hnot count _ (A.ret_iff.mp (h _ rfl))
    | _ => exact iff_of_true (fun _ h => nomatch h) fun _ h => nomatch h
  | pop i notCopied =>
    simp only [Undisturbed, readStep]
    cases hpc : s.reads i with
    | pop count =>
      rcases H.pop with ⟨⟨rb, hsize⟩, hpop, hstep⟩ | ⟨data, rb, h', ⟨rb', hsize⟩, hpop, hstep, H', hpushed, hmem, hlen⟩
      · refine iff_of_true ?_ fun s' h => ?_
        · intro count' size rb' _ hsize' _
          rw [hsize] at hsize'
          cases hsize'
          omega
        · simp only [hpop, hstep, Option.bind_eq_bind, Option.bind_some, Option.some.injEq] at h
          subst h
          exact A.ret_iff.mpr (consistent_nothing (Int.le_refl 0))
      -- an entry is popped: the result is its length, of which `notCopied` bytes were not copied
      · have A' : AllConsistent { s with ring := h' } := A.ring (hpushed ▸ fun _ hx => hx)
        have hcopy : notCopied ≤ data.length → (AllConsistent (({ s with ring := h' } : Traces).copy i count data notCopied) ↔
            data.length - notCopied ≤ count) := A'.copy_iff (hpushed ▸ hmem) hlen
        simp only [hpop, hstep, hsize, Option.bind_eq_bind, Option.bind_some]
        constructor
        · intro hund s' h
          split at h
          · next hnot =>
            cases h
            exact (hcopy hnot).mpr (hund count data.length rb' rfl rfl hnot)
          · cases h
        · intro hall count' size rb'' hcount heq hnot
          cases hcount
          cases heq
          exact (hcopy hnot).mp (hall _ (if_pos hnot))
    | _ => exact iff_of_true (fun _ _ _ h => nomatch h) fun _ h => nomatch h
  | _ => exact iff_of_true trivial fun s' h => (H.keeps h (fun _ h => nomatch h) fun _ _ h => nomatch h).consistent A

/-- Over any interleaving every read returns an error, or 0, or the length of the entry it has copied, exactly where
no wait is interrupted and no entry that is too long is copied. -/
theorem reads_iff (acts : List ReadAct) :
    (∀ done s, done <+: acts → run readStep tracesInit done = some s → AllConsistent s) ↔
      Meets readStep Undisturbed tracesInit acts := by
  have hinit : AllConsistent tracesInit := fun r hr => nomatch hr
  have hiff := meets_iff_of_preserves (C := Undisturbed) (I := AllConsistent) (J := fun s => Logged s.ring)
    (fun _ _ _ H h => H.step h) (fun _ _ H A => undisturbed_iff H A) Logged.init hinit acts
  exact hiff.symm

/-- A read that waits, and is interrupted. -/
def interrupted : List ReadAct := [.logLayerInit, .read 0 4096 false, .query 0, .interrupt 0]

theorem not_reads_consistent : ¬∀ (acts : List ReadAct) (s : Traces),
    run readStep tracesInit acts = some s → AllConsistent s := by
  intro h
  obtain ⟨s, hr, r, hmem, hret, hcopied⟩ : ∃ s, run readStep tracesInit interrupted = some s ∧
      ∃ r ∈ s.returned, r.ret = 65024 ∧ r.copied = [] := ⟨_, rfl, _, List.mem_cons_self, rfl, rfl⟩
  have hcons := (h interrupted s hr r hmem).2
  rw [hret, hcopied] at hcons
  rcases hcons with h | h | ⟨h, -⟩ <;> exact absurd h (by decide)

/-- Pushes between two steps of the reads. -/
theorem run_pushes {datas : List (List UInt8)} (hlen : ∀ data ∈ datas, data.length ≤ 65531) {s : Traces} {h : History}
    (hops : s.traceOps = true) (hr : run histStep s.ring (datas.map RbOp.push) = some h) :
    run readStep s (datas.map ReadAct.push) = some { s with ring := h } := by
  induction datas generalizing s with
  | nil =>
    cases hr
    rfl
  | cons data datas ih =>
    obtain ⟨h1, hstep, hr⟩ := run_cons_some.mp hr
    refine run_cons_some.mpr ⟨{ s with ring := h1 }, ?_, ?_⟩
    · simp [readStep, hops, hlen data List.mem_cons_self, hstep]
    · exact ih (s := { s with ring := h1 }) (fun d hd => hlen d (List.mem_cons_of_mem _ hd)) hops hr

/-- The size the shadow finds is the one the buffer answers. -/
theorem Sim.size {s : Shadow} {h : History} (S : Sim s h) {n : Nat}
    (hn : (shadowNext s).map (fun r => r.1.map Hdr.len) = some (some n)) :
    ∃ rb, rbNextSize h.rb = some (n, rb) := by
  obtain ⟨r, hr, heq⟩ := Option.map_eq_some_iff.mp hn
  rcases S.follows.next hr with ⟨hnone, -⟩ | ⟨e, he, -, -, hsize⟩
  · rw [hnone] at heq
    cases heq
  · rw [he] at heq
    cases heq
    exact ⟨{ h.rb with rdtail := r.2 }, by simp [rbNextSize, hsize]⟩

/-- A pop copies whatever entry is next by then. -/
theorem pop_copies {s : Traces} (H : Logged s.ring) {i count size : Nat} {rb : Rb} (hpc : s.reads i = .pop count)
    (hsize : rbNextSize s.ring.rb = some (size, rb)) (hne : size ≠ 0) :
    ∃ data s', data.length = size ∧ readStep s (.pop i 0) = some s' ∧ ⟨count, u16 size, data⟩ ∈ s'.returned := by
  rcases H.pop with ⟨⟨rb', hnone⟩, -⟩ | ⟨data, rb1, h', ⟨rb', hdata⟩, hpop, hstep, -⟩
  · rw [hsize] at hnone
    cases hnone
    exact absurd rfl hne
  · have hlen : size = data.length := by
      rw [hsize] at hdata
      exact congrArg Prod.fst (Option.some.inj hdata)
    refine ⟨data, ({ s with ring := h' } : Traces).copy i count data 0, hlen.symm, ?_, ?_⟩
    · simp [readStep, hpc, hpop, hstep]
    · rw [hlen]
      simp [Traces.copy, Traces.ret, u16]

/-- A read compares the size of a short entry, and many long ones are pushed before it pops. -/
def replacedBeforePop : List ReadAct :=
  [.logLayerInit, .push [0], .read 0 1 false, .query 0] ++
    (List.replicate 17 (List.replicate 65531 0)).map ReadAct.push ++ [.pop 0 0]

/-- After the short entry, with its size compared. -/
theorem compared_short {h : History} {rb : Rb} (hpush : histStep histInit (.push [0]) = some h)
    (hnext : rbNextSize h.rb = some (1, rb)) : ∃ s, run readStep tracesInit [.logLayerInit, .push [0],
      .read 0 1 false, .query 0] = some s ∧ s.ring = { h with rb := rb } ∧ s.traceOps = true ∧ s.reads 0 = .pop 1 := by
  have hstep : readStep { tracesInit with traceOps := true } (.push [0]) =
      some { tracesInit with traceOps := true, ring := h } := by
    simp only [readStep]
    rw [if_pos ⟨trivial, by decide⟩]
    exact congrArg (Option.map _) hpush
  have hread : readStep { tracesInit with traceOps := true, ring := h } (.read 0 1 false) =
      some (({ tracesInit with traceOps := true, ring := h } : Traces).goto 0 (.query 1 false)) := rfl
  have hquery : ∃ s, readStep (({ tracesInit with traceOps := true, ring := h } : Traces).goto 0 (.query 1 false))
      (.query 0) = some s ∧ s.ring = { h with rb := rb } ∧ s.traceOps = true ∧ s.reads 0 = .pop 1 := by
    simp [readStep, Traces.nextSize, hnext, Traces.sized, Traces.goto]
  obtain ⟨s, hs, hring, hops, hpc⟩ := hquery
  refine ⟨s, ?_, hring, hops, hpc⟩
  exact run_cons_some.mpr ⟨_, rfl, run_cons_some.mpr ⟨_, hstep, run_cons_some.mpr ⟨_, hread,
    run_cons_some.mpr ⟨_, hs, rfl⟩⟩⟩⟩

/-- It copies one of these, to a buffer of one byte. -/
theorem replaced_before_pop : ∃ s, run readStep tracesInit replacedBeforePop = some s ∧
    ∃ r ∈ s.returned, r.count = 1 ∧ r.copied.length = 65531 := by
  have heval : (run shadowStep shadowInit (.push 1 :: .nextSize :: List.replicate 17 (.push 65531))).map
      (fun s => (shadowNext s).map fun r => r.1.map Hdr.len) = some (some (some 65531)) := by decide +kernel
  obtain ⟨s3, hs3, hsize3⟩ := Option.map_eq_some_iff.mp heval
  obtain ⟨s1, hs1, hs3⟩ := run_cons_some.mp hs3
  obtain ⟨s2, hs2, hs3⟩ := run_cons_some.mp hs3
  -- the short entry, and the size of it
  obtain ⟨h1, hpush, S1⟩ := Sim.init.step hs1
  have hsize1 : (shadowNext s1).map (fun r => r.1.map Hdr.len) = some (some 1) := by
    have hone : (shadowStep shadowInit (.push 1)).map
        (fun s => (shadowNext s).map fun r => r.1.map Hdr.len) = some (some (some 1)) := by decide +kernel
    rw [hs1] at hone
    exact Option.some.inj hone
  obtain ⟨rb1, hnext1⟩ := S1.size hsize1
  obtain ⟨h2, hnext2, S2⟩ := S1.nextSize hs2
  rw [histStep_nextSize hnext1] at hnext2
  cases hnext2
  obtain ⟨t, hcompared, hring, hops, hpc⟩ := compared_short hpush hnext1
  -- the long ones
  obtain ⟨h3, hrun3, S3⟩ := shadow_run S2 hs3
  obtain ⟨rb3, hnext3⟩ := S3.size hsize3
  have hpushes : run readStep t ((List.replicate 17 (List.replicate 65531 0)).map ReadAct.push) =
      some { t with ring := h3 } := by
    refine run_pushes ?_ hops ?_
    · intro data hdata
      rw [List.eq_of_mem_replicate hdata, List.length_replicate]
    · rw [hring, List.map_replicate]
      rw [List.map_replicate] at hrun3
      exact hrun3
  have hbefore : ∀ acts, run readStep tracesInit ([.logLayerInit, .push [0], .read 0 1 false, .query 0] ++
      (List.replicate 17 (List.replicate 65531 0)).map ReadAct.push ++ acts) = run readStep { t with ring := h3 } acts := by
    intro acts
    rw [run_append, run_append, hcompared, Option.bind_some, hpushes, Option.bind_some]
  have hlogged : Logged h3 := run_preserves (I := fun s => Logged s.ring) (fun _ _ _ H h => H.step h) Logged.init (hbefore [])
  obtain ⟨data, s, hlen, hpop, hmem⟩ := pop_copies (s := { t with ring := h3 }) hlogged hpc hnext3 (by decide)
  exact ⟨s, (hbefore [.pop 0 0]).trans (run_cons_some.mpr ⟨s, hpop, rfl⟩), _, hmem, rfl, hlen⟩

end Qm35.Ring
