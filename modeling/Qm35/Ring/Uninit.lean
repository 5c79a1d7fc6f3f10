import Qm35.Ring.Pop

/- The buffer before anything has been written to it. `rb_init` takes it from `kmalloc`,
   which does not clear it, while `__rb_skip` tells a buffer that was never written from
   one with entries by the size 0 at offset 0. The first push finds `tail` on `head`
   and calls it, so what it does depends on what the memory held before: it may go round
   the eviction loop for ever. Only a push whose entry size wraps around to less than
   a size field always ends, and then the cursors are wherever the memory said.

   Two runs with different contents at first therefore agree on all answers exactly in
   the runs that do not get as far as that (`Overlong`). -/
namespace Qm35.Ring

open ByteMem

/-- What a caller sees of a call. -/
inductive Answer where
  | rc (ret : Nat)
  | entry (payload : Option (List UInt8))
  | size (len : Nat)
  | ready (canPop : Bool)
  | done
deriving DecidableEq

def rbCall (rb : Rb) : RbOp → Option (Answer × Rb)
  | .push data => (rbPush rb data).map fun r => (.rc r.1, r.2)
  | .pop => (rbPop rb).map fun r => (.entry r.1, r.2)
  | .nextSize => (rbNextSize rb).map fun r => (.size r.1, r.2)
  | .canPop => some (.ready (rbCanPop rb), rb)
  | .reset => some (.done, rbReset rb)

/-- A call, with the answers so far. -/
def callStep (s : Rb × List Answer) (op : RbOp) : Option (Rb × List Answer) :=
  (rbCall s.1 op).map fun r => (r.2, s.2 ++ [r.1])

/-- `rb_init` of a buffer of the trace size with some contents. -/
def fresh (buf : Mem) : Rb × List Answer := (rbInit buf traceRbSize, [])

/-- The calls all return, with the same answers whatever the buffer held at first. -/
def Independent (ops : List RbOp) : Prop :=
  ∀ buf buf', ∃ s s', Lts.run callStep (fresh buf) ops = some s ∧
    Lts.run callStep (fresh buf') ops = some s' ∧ s.2 = s'.2

/-- Anything but a push that stores an entry. -/
def StoresNothing : RbOp → Prop
  | .push data => data = []
  | _ => True

/-- A call that tells nothing of the buffer. -/
def TellsNothing : RbOp → Prop
  | .push data => data = []
  | .reset => True
  | _ => False

instance : DecidablePred StoresNothing := fun op => by
  cases op <;> unfold StoresNothing <;> infer_instance

instance : DecidablePred TellsNothing := fun op => by
  cases op <;> unfold TellsNothing <;> infer_instance

/-- No entry is ever stored, or only one, of 65534 or 65535 bytes, and nothing is asked after that. -/
def Overlong (ops : List RbOp) : Prop :=
  (∀ op ∈ ops, StoresNothing op) ∨
    ∃ before data after, ops = before ++ .push data :: after ∧ (∀ op ∈ before, StoresNothing op) ∧
      65534 ≤ data.length ∧ ∀ op ∈ after, TellsNothing op

/-! Runs of calls. -/

section Runs
variable {rb : Rb} {s t : Rb × List Answer} {op : RbOp} {ops xs rest : List RbOp} {buf buf' : Mem}

theorem callStep_some (h : callStep s op = some t) : ∃ answer, rbCall s.1 op = some (answer, t.1) ∧
    t.2 = s.2 ++ [answer] := by
  obtain ⟨⟨answer, rb⟩, hcall, rfl⟩ := Option.map_eq_some_iff.mp h
  exact ⟨answer, hcall, rfl⟩

/-- Every call adds an answer. -/
theorem run_answers (h : Lts.run callStep s ops = some t) : ∃ new, t.2 = s.2 ++ new ∧ new.length = ops.length := by
  induction ops generalizing s with
  | nil =>
    cases h
    exact ⟨[], (List.append_nil _).symm, rfl⟩
  | cons op ops ih =>
    obtain ⟨s', hstep, hrun⟩ := Lts.run_cons_some.mp h
    obtain ⟨answer, -, ha⟩ := callStep_some hstep
    obtain ⟨new, hnew, hlen⟩ := ih hrun
    refine ⟨answer :: new, ?_, ?_⟩
    · rw [hnew, ha, List.append_assoc]
      rfl
    · rw [List.length_cons, List.length_cons, hlen]

/-- Calls that leave the buffer as it is. -/
theorem run_fixed {answer : RbOp → Answer} (h : ∀ op ∈ ops, rbCall rb op = some (answer op, rb))
    (answers : List Answer) : Lts.run callStep (rb, answers) ops = some (rb, answers ++ ops.map answer) := by
  induction ops generalizing answers with
  | nil => simp
  | cons op ops ih =>
    have hstep : callStep (rb, answers) op = some (rb, answers ++ [answer op]) := by
      simp [callStep, h op List.mem_cons_self]
    rw [Lts.run_cons, hstep, Option.bind_some, ih fun op' hop' => h op' (List.mem_cons_of_mem _ hop')]
    simp

/-- A call in independent runs returns, with the same answer in both. -/
theorem Independent.call (h : Independent (xs ++ op :: rest)) {s s' : Rb × List Answer}
    (hs : Lts.run callStep (fresh buf) xs = some s) (hs' : Lts.run callStep (fresh buf') xs = some s') :
    ∃ answer rb rb', rbCall s.1 op = some (answer, rb) ∧ rbCall s'.1 op = some (answer, rb') := by
  obtain ⟨t, t', ht, ht', heq⟩ := h buf buf'
  rw [Lts.run_append, hs, Option.bind_some] at ht
  rw [Lts.run_append, hs', Option.bind_some] at ht'
  obtain ⟨u, hstep, hrest⟩ := Lts.run_cons_some.mp ht
  obtain ⟨u', hstep', hrest'⟩ := Lts.run_cons_some.mp ht'
  obtain ⟨answer, hcall, hu⟩ := callStep_some hstep
  obtain ⟨answer', hcall', hu'⟩ := callStep_some hstep'
  obtain ⟨old, hold, hlen⟩ := run_answers hs
  obtain ⟨old', hold', hlen'⟩ := run_answers hs'
  obtain ⟨new, hnew, -⟩ := run_answers hrest
  obtain ⟨new', hnew', -⟩ := run_answers hrest'
  -- as many answers before the call in both
  have hsame : s.2 ++ ([answer] ++ new) = s'.2 ++ ([answer'] ++ new') := by
    rw [← List.append_assoc, ← List.append_assoc, ← hu, ← hu', ← hnew, ← hnew', heq]
  have hcount : s.2.length = s'.2.length := by
    rw [hold, hold', List.length_append, List.length_append, hlen, hlen']
    rfl
  obtain ⟨-, htail⟩ := List.append_inj hsame hcount
  cases (List.cons.inj htail).1
  exact ⟨answer, u.1, u'.1, hcall, hcall'⟩

end Runs

/-! The buffer before the first push. -/

/-- What a call that stores nothing answers. -/
def freshAnswer : RbOp → Answer
  | .push _ => .rc 1
  | .pop => .entry none
  | .nextSize => .size 0
  | .canPop => .ready false
  | .reset => .done

theorem rbCall_fresh {op : RbOp} (h : StoresNothing op) (buf : Mem) :
    rbCall (rbInit buf traceRbSize) op = some (freshAnswer op, rbInit buf traceRbSize) := by
  cases op with
  | push data =>
    cases h
    rfl
  | pop => rfl
  | nextSize => rfl
  | canPop => rfl
  | reset => rfl

/-- A caught-up reader is told nothing by a reset, nor by an empty push. -/
theorem rbCall_told {rb : Rb} (hr : rb.rdtail = rb.tail) {op : RbOp} (h : TellsNothing op) :
    rbCall rb op = some (freshAnswer op, rb) := by
  cases op with
  | push data =>
    cases h
    rfl
  | reset =>
    cases rb
    cases hr
    rfl
  | pop => cases h
  | nextSize => cases h
  | canPop => cases h

theorem run_fresh {ops : List RbOp} (h : ∀ op ∈ ops, StoresNothing op) (buf : Mem) :
    Lts.run callStep (fresh buf) ops = some (rbInit buf traceRbSize, ops.map freshAnswer) := by
  unfold fresh
  rw [run_fixed (fun op hop => rbCall_fresh (h op hop) buf), List.nil_append]

/-! The eviction loop. -/

section Loop
variable {rb : Rb} {es : Nat}

/-- A round that changes nothing is followed by another one. -/
theorem rbEvict_endless (hov : rbOverruns rb es = true) (hskip : rbSkip rb = some (rb, true))
    (hr : rb.tail = rb.rdtail) (fuel : Nat) : rbEvict es fuel rb = none := by
  have hsame : (if rb.tail = rb.rdtail then { rb with rdtail := rb.tail } else rb) = rb := by
    cases rb
    cases hr
    exact if_pos rfl
  induction fuel with
  | zero => rfl
  | succ fuel ih => rw [rbEvict_round hov hskip, hsame, ih]

/-- `tail` on a size 0 from which the size at the start leads back to it: both cursors stay there. -/
theorem rbEvict_circle {t n : Nat} (hsize : rb.size = traceRbSize) (ht : rb.tail = t) (hr : rb.rdtail = t)
    (hn : rb.buf.le16 0 = n) (hback : t = 2 + n) (hzero : rb.buf.le16 t = 0) (hin : t + 2 ≤ rb.size)
    (hhead : rb.head ≤ t) (hreach : t ≤ rb.head + es) (hes : es < 65536) (fuel : Nat) :
    rbEvict es fuel rb = none := by
  rw [traceRbSize] at hsize
  have hov : rbOverruns rb es = true := (rbOverruns_iff (by omega)).mpr ⟨by omega, by omega⟩
  have hskip : rbSkip rb = some (rb, true) := by
    rw [rbSkip_marker (by omega) (by rw [ht]; exact hzero) (by omega) hn, ← hback, ← ht]
  exact rbEvict_endless hov hskip (ht.trans hr.symm) fuel

/-- A push whose eviction loop does not end. -/
theorem rbPush_endless {data : List UInt8} (h1 : data ≠ []) (hsize : rb.size = traceRbSize)
    (hroom : rb.head + 65537 < rb.size) (h : ∀ fuel, rbEvict (rbEntrySize data.length) fuel rb = none) :
    rbPush rb data = none := by
  have hes : rbEntrySize data.length < 65536 := Nat.mod_lt _ (by decide)
  have hw : rbWraps rb (rbEntrySize data.length) = false := by
    apply Bool.eq_false_iff.mpr
    rw [ne_eq, rbWraps_iff _ hsize (by omega)]
    omega
  simp [rbPush, h1, hw, h]

end Loop

/-- A buffer that begins with a size, with nothing behind. -/
def beginning (n : Nat) : Mem := Mem.write (fun _ => 0) 0 (bytes16 n)

theorem beginning_size {n : Nat} (h : n < 65536) : (beginning n).le16 0 = n := Mem.le16_write h

theorem beginning_zero {n x : Nat} (h : 2 ≤ x) : (beginning n).le16 x = 0 := by
  have hout : ∀ i, 2 ≤ i → beginning n i = 0 := fun i hi => Mem.write_out (.inr (by simpa using hi))
  simp [Mem.le16, hout x h, hout (x + 1) (by omega)]

/-- There is a buffer for which the first push of an entry does not return. -/
theorem rbPush_first_endless {data : List UInt8} (h1 : data ≠ []) (hlt : data.length < 65534) :
    rbPush (rbInit (beginning 1) traceRbSize) data = none := by
  have hpos := List.length_pos_iff.mpr h1
  have hes : rbEntrySize data.length = 2 + data.length := u16_of_lt (by omega)
  apply rbPush_endless h1 rfl (by decide)
  intro fuel
  rw [hes]
  cases fuel with
  | zero => rfl
  | succ fuel =>
    have hov : rbOverruns (rbInit (beginning 1) traceRbSize) (2 + data.length) = true := by
      simp [rbOverruns, rbInit]
    have hskip : rbSkip (rbInit (beginning 1) traceRbSize) =
        some ({ rbInit (beginning 1) traceRbSize with tail := 0 + (2 + 1) }, true) :=
      rbSkip_entry (by decide) (beginning_size (by decide)) (Nat.le_refl 1) (by decide)
    rw [rbEvict_round hov hskip]
    apply rbEvict_circle (t := 3) (n := 1)
    · rfl
    · rfl
    · rfl
    · exact beginning_size (by decide)
    · rfl
    · exact beginning_zero (by decide)
    · decide
    · decide
    · show 3 ≤ 0 + (2 + data.length)
      omega
    · omega

/-! After an entry whose size has wrapped around. -/

/-- `rb` after a first push of 65534 or 65535 bytes that has left the cursors at `t`. -/
def afterOverlong (buf : Mem) (data : List UInt8) (t : Nat) : Rb :=
  { written (rbInit buf traceRbSize) data with tail := t, rdtail := t }

section Overlong
variable {data : List UInt8} {buf : Mem}

/-- The first push of so many bytes returns; where it leaves the cursors is up to what the buffer held. -/
theorem rbPush_overlong (h : 65534 ≤ data.length) (h2 : data.length < 65536) (buf : Mem) :
    rbPush (rbInit buf traceRbSize) data =
      some (0, afterOverlong buf data (if buf.le16 0 = 0 then 0 else 2 + buf.le16 0)) := by
  have hlt := Mem.le16_lt buf 0
  have hes : rbEntrySize data.length ≤ 1 := by
    unfold rbEntrySize u16
    omega
  have hw : rbWraps (rbInit buf traceRbSize) (rbEntrySize data.length) = false := by
    apply Bool.eq_false_iff.mpr
    rw [ne_eq, rbWraps_iff _ rfl (Nat.zero_le _)]
    simp only [rbInit, traceRbSize]
    omega
  have hov : rbOverruns (rbInit buf traceRbSize) (rbEntrySize data.length) = true := by
    simp [rbOverruns, rbInit]
  have hev : rbEvict (rbEntrySize data.length) rbEvictRounds (rbInit buf traceRbSize) =
      some { rbInit buf traceRbSize with
        tail := if buf.le16 0 = 0 then 0 else 2 + buf.le16 0
        rdtail := if buf.le16 0 = 0 then 0 else 2 + buf.le16 0 } := by
    by_cases hz : buf.le16 0 = 0
    · rw [if_pos hz]
      exact rbEvict_unwritten hov (rbSkip_unwritten (show 2 ≤ traceRbSize by decide) rfl hz) rfl
    · have hskip : rbSkip (rbInit buf traceRbSize) =
          some ({ rbInit buf traceRbSize with tail := 0 + (2 + buf.le16 0) }, true) :=
        rbSkip_entry (show 0 + 2 ≤ traceRbSize by decide) rfl (Nat.pos_of_ne_zero hz)
          (show 0 + (2 + buf.le16 0) < 4294967296 by omega)
      rw [if_neg hz]
      show rbEvict _ (65537 + 1) _ = _
      rw [rbEvict_round hov hskip, if_pos (by rfl), Nat.zero_add]
      apply rbEvict_stop
      have hpast : ¬2 + buf.le16 0 ≤ u32 (rbEntrySize data.length) := by
        have := u32_le (rbEntrySize data.length)
        omega
      simp [rbOverruns, rbInit, hpast]
  refine rbPush_stages (by omega) (if_neg (by rw [hw]; decide)) hev rfl ?_
  show 0 + (2 + data.length) ≤ traceRbSize
  rw [traceRbSize]
  omega

/-- A pop that finds a size returns a payload. -/
theorem rbPop_entry {rb rb' : Rb} {n t : Nat} {entry : Option (List UInt8)}
    (hnext : rbNextSizeAt rb rb.rdtail = some (n, t)) (hn : n ≠ 0) (h : rbPop rb = some (entry, rb')) :
    entry ≠ none := by
  simp only [rbPop, rbPopAt, hnext, hn, if_false, Option.bind_eq_bind, Option.bind_some,
    Option.bind_eq_some_iff] at h
  obtain ⟨r, ⟨trace, -, hr⟩, heq⟩ := h
  cases hr
  cases heq
  exact Option.some_ne_none trace

/-- In a buffer of zeros the entry is there to be read. -/
theorem afterOverlong_zero (h : 65534 ≤ data.length) (h2 : data.length < 65536) :
    rbNextSizeAt (afterOverlong (fun _ => 0) data 0) 0 = some (data.length, 0) := by
  refine rbNextSizeAt_entry ?_ (show 0 + 2 ≤ traceRbSize by decide) (written_size h2) (by omega)
  show 0 ≠ 0 + (2 + data.length)
  omega

/-- In one that had its size at the start, the cursors are at its end. -/
theorem afterOverlong_caught : (afterOverlong (beginning data.length) data (2 + data.length)).rdtail =
    (afterOverlong (beginning data.length) data (2 + data.length)).head :=
  (Nat.zero_add _).symm

/-- There `tail` finds a size 0, goes back to the entry, and comes out at its end again. -/
theorem afterOverlong_endless (h2 : data.length < 65536) {data' : List UInt8} (h1 : data' ≠ []) :
    rbPush (afterOverlong (beginning data.length) data (2 + data.length)) data' = none := by
  have hbehind : Mem.Agree (rbInit (beginning data.length) traceRbSize).buf
      (written (rbInit (beginning data.length) traceRbSize) data).buf (2 + data.length) (2 + data.length + 2) :=
    written_agree (.inr (Nat.le_of_eq (Nat.zero_add _)))
  have hzero : (afterOverlong (beginning data.length) data (2 + data.length)).buf.le16 (2 + data.length) = 0 :=
    (Mem.le16_congr hbehind).symm.trans (beginning_zero (by omega))
  refine rbPush_endless h1 rfl ?_ fun fuel => ?_
  · show 0 + (2 + data.length) + 65537 < traceRbSize
    rw [traceRbSize]
    omega
  · refine rbEvict_circle rfl rfl rfl (written_size h2) rfl hzero ?_ ?_ ?_ (Nat.mod_lt _ (by decide)) fuel
    · show 2 + data.length + 2 ≤ traceRbSize
      rw [traceRbSize]
      omega
    · show 0 + (2 + data.length) ≤ 2 + data.length
      omega
    · show 2 + data.length ≤ 0 + (2 + data.length) + _
      omega

/-- Whatever is told of the buffer then depends on what it held. -/
theorem afterOverlong_differ (h : 65534 ≤ data.length) (h2 : data.length < 65536) {op : RbOp}
    (hop : ¬TellsNothing op) {answer answer' : Answer} {rb rb' : Rb}
    (hcall : rbCall (afterOverlong (fun _ => 0) data 0) op = some (answer, rb))
    (hcall' : rbCall (afterOverlong (beginning data.length) data (2 + data.length)) op = some (answer', rb')) :
    answer ≠ answer' := by
  have hnext : rbNextSizeAt (afterOverlong (fun _ => 0) data 0) (afterOverlong (fun _ => 0) data 0).rdtail =
      some (data.length, 0) := afterOverlong_zero h h2
  have hcaught : (afterOverlong (beginning data.length) data (2 + data.length)).rdtail = _ := afterOverlong_caught
  have hempty := rbNextSizeAt_empty hcaught
  cases op with
  | push data' =>
    rw [rbCall, afterOverlong_endless h2 hop] at hcall'
    cases hcall'
  | pop =>
    have hpop : rbPop (afterOverlong (beginning data.length) data (2 + data.length)) =
        some (none, afterOverlong (beginning data.length) data (2 + data.length)) := by
      simp [rbPop, rbPopAt, hempty]
    rw [rbCall, hpop] at hcall'
    cases hcall'
    obtain ⟨⟨entry, rb1⟩, hrun, heq⟩ := Option.map_eq_some_iff.mp hcall
    cases heq
    simpa using rbPop_entry hnext (by omega) hrun
  | nextSize =>
    simp only [rbCall, rbNextSize, hnext, hempty] at hcall hcall'
    cases hcall
    cases hcall'
    simp only [ne_eq, Answer.size.injEq]
    omega
  | canPop =>
    cases hcall
    cases hcall'
    have hpending : ¬(afterOverlong (fun _ => 0) data 0).rdtail = (afterOverlong (fun _ => 0) data 0).head := by
      show ¬0 = 0 + (2 + data.length)
      omega
    simp [rbCanPop, rbCanPopAt, hcaught, hpending]
  | reset => exact absurd trivial hop

end Overlong

/-! Runs from `rb_init`. -/

theorem run_overlong {before after : List RbOp} {data : List UInt8} (hbefore : ∀ op ∈ before, StoresNothing op)
    (h : 65534 ≤ data.length) (h2 : data.length < 65536) (hafter : ∀ op ∈ after, TellsNothing op) (buf : Mem) :
    Lts.run callStep (fresh buf) (before ++ .push data :: after) =
      some (afterOverlong buf data (if buf.le16 0 = 0 then 0 else 2 + buf.le16 0),
        before.map freshAnswer ++ [.rc 0] ++ after.map freshAnswer) := by
  have hpush := rbPush_overlong h h2 buf
  rw [Lts.run_append, run_fresh hbefore, Option.bind_some, Lts.run_cons]
  simp only [callStep, rbCall, hpush, Option.map_some, Option.bind_some]
  exact run_fixed (fun op hop => rbCall_told rfl (hafter op hop)) _

/-- The first element that fails a test. -/
theorem exists_first {α : Type} {p : α → Prop} [DecidablePred p] {l : List α} (h : ¬∀ x ∈ l, p x) :
    ∃ xs y ys, l = xs ++ y :: ys ∧ (∀ x ∈ xs, p x) ∧ ¬p y := by
  cases hf : l.find? fun x => !decide (p x) with
  | none => exact absurd (fun x hx => by simpa using List.find?_eq_none.mp hf x hx) h
  | some y =>
    obtain ⟨hy, xs, ys, hl, hxs⟩ := List.find?_eq_some_iff_append.mp hf
    exact ⟨xs, y, ys, hl, fun x hx => by simpa using hxs x hx, by simpa using hy⟩

/-- The calls do not depend on what the buffer held exactly if no entry is stored, or only one whose size
wraps around, after which nothing is asked. -/
theorem independent_iff {ops : List RbOp} (hlen : ∀ data, RbOp.push data ∈ ops → data.length < 65536) :
    Independent ops ↔ Overlong ops := by
  constructor
  · intro h
    by_cases hall : ∀ op ∈ ops, StoresNothing op
    · exact .inl hall
    obtain ⟨before, op, after, rfl, hbefore, hop⟩ := exists_first hall
    obtain ⟨data, rfl⟩ : ∃ data, op = .push data := by
      cases op with
      | push data => exact ⟨data, rfl⟩
      | _ => exact absurd trivial hop
    have h2 := hlen data (List.mem_append_right _ List.mem_cons_self)
    -- the first entry: its push has to return for every buffer
    have hdata : 65534 ≤ data.length := by
      apply Nat.le_of_not_lt
      intro hlt
      obtain ⟨answer, rb, rb', hcall, -⟩ := h.call (run_fresh hbefore (beginning 1)) (run_fresh hbefore (beginning 1))
      rw [rbCall, rbPush_first_endless hop hlt] at hcall
      cases hcall
    refine .inr ⟨before, data, after, rfl, hbefore, hdata, ?_⟩
    by_contra hasked
    obtain ⟨told, op, rest, rfl, htold, hop⟩ := exists_first hasked
    -- the first call that asks something: its answer is not the same for all
    have hsplit : before ++ .push data :: (told ++ op :: rest) = before ++ .push data :: told ++ op :: rest := by
      simp
    rw [hsplit] at h
    have hne : (beginning data.length).le16 0 ≠ 0 := by
      rw [beginning_size h2]
      omega
    have hzero := run_overlong hbefore hdata h2 htold fun _ => 0
    have hsize := run_overlong hbefore hdata h2 htold (beginning data.length)
    rw [if_pos (show Mem.le16 (fun _ => 0) 0 = 0 from rfl)] at hzero
    rw [if_neg hne, beginning_size h2] at hsize
    obtain ⟨answer, rb, rb', hcall, hcall'⟩ := h.call hzero hsize
    exact afterOverlong_differ hdata h2 hop hcall hcall' rfl
  · rintro (hall | ⟨before, data, after, rfl, hbefore, hdata, hafter⟩) buf buf'
    · exact ⟨_, _, run_fresh hall buf, run_fresh hall buf', rfl⟩
    · have h2 := hlen data (List.mem_append_right _ List.mem_cons_self)
      exact ⟨_, _, run_overlong hbefore hdata h2 hafter buf, run_overlong hbefore hdata h2 hafter buf', rfl⟩

/-- Reads, resets and pushes of nothing. -/
theorem independent_empty : Independent [.canPop, .push [], .pop, .reset, .nextSize] := by
  have hlen : ∀ data, RbOp.push data ∈ [RbOp.canPop, .push [], .pop, .reset, .nextSize] → data.length < 65536 := by
    simp
  exact (independent_iff hlen).mpr (.inl (by decide))

/-- A first push of one byte returns only if the memory happens to let it. -/
theorem not_independent :
    ¬∀ ops : List RbOp, (∀ data, RbOp.push data ∈ ops → data.length < 65536) → Independent ops := by
  intro hall
  obtain ⟨s, s', hrun, -, -⟩ := hall [.push [7]] (by simp) (beginning 1) fun _ => 0
  obtain ⟨t, hstep, -⟩ := Lts.run_cons_some.mp hrun
  obtain ⟨answer, hcall, -⟩ := callStep_some hstep
  have hnone : rbPush (fresh (beginning 1)).1 [7] = none :=
    rbPush_first_endless (List.cons_ne_nil _ _) (by decide)
  rw [rbCall, hnone] at hcall
  cases hcall

end Qm35.Ring
