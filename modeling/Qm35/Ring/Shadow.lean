import Qm35.Ring.Push

/- Runs of the trace buffer without its megabyte. Which entry a call reaches depends
   only on the cursors and on the sizes stored at the headers, never on payload
   bytes, so a run can be followed on a list of the headers known to be intact.
   `shadowStep` takes the same decisions as the buffer's code from that list, and
   stops where it would need a header it does not know. Whatever it computes, the
   buffer does (`shadow_run`), for every content of the payloads: with it a run of
   many laps is evaluated. -/
namespace Qm35.Ring

open ByteMem

/-- A header known to be intact: where it is, the size it holds, and the number of
the push that wrote it. -/
structure Hdr where
  off : Nat
  len : Nat
  push : Nat

structure Shadow where
  hdrs : List Hdr
  head : Nat
  tail : Nat
  rdtail : Nat
  pushes : Nat
  popped : List Nat

/-- The calls, with the length of a payload for the payload. -/
inductive ShadowOp where
  | push (len : Nat)
  | pop
  | nextSize

/-- The call on the buffer itself, with a payload of zeros. -/
def ShadowOp.call : ShadowOp → RbOp
  | .push len => .push (List.replicate len 0)
  | .pop => .pop
  | .nextSize => .nextSize

/-- A payload length that `log_received` admits. -/
def ShadowOp.fits : ShadowOp → Bool
  | .push len => decide (1 ≤ len) && decide (len ≤ 65531)
  | _ => true

theorem ShadowOp.admitted {op : ShadowOp} (h : op.fits = true) : Admitted op.call := by
  cases op with
  | push len =>
    have hlen : 1 ≤ len ∧ len ≤ 65531 := by simpa [fits] using h
    have he : (List.replicate len (0 : UInt8)).length = len := List.length_replicate
    simp only [call, Admitted, he]
    exact hlen
  | pop => trivial
  | nextSize => trivial

def shadowInit : Shadow := ⟨[⟨0, 0, 0⟩], 0, 0, 0, 0, []⟩

def Shadow.hdr (s : Shadow) (off : Nat) : Option Hdr := s.hdrs.find? fun e => e.off == off

/-- Store `n` bytes at a header: those that share bytes with them are lost. -/
def Shadow.put (s : Shadow) (e : Hdr) (n : Nat) : Shadow :=
  { s with hdrs := e :: s.hdrs.filter fun x => decide (x.off + 2 ≤ e.off) || decide (e.off + n ≤ x.off) }

/-- The first entry pending with the cursor on it, or the cursor of a caught-up reader. -/
def shadowNext (s : Shadow) : Option (Option Hdr × Nat) :=
  if s.rdtail = s.head then some (none, s.rdtail)
  else do
    let e ← s.hdr s.rdtail
    if e.len = 0 then
      if s.rdtail = 0 then none
      else
        let e ← s.hdr 0
        if e.len = 0 then none else some (some e, 0)
    else some (some e, s.rdtail)

def shadowSkip (s : Shadow) : Option (Shadow × Bool) := do
  let e ← s.hdr s.tail
  if e.len = 0 then
    if s.tail = 0 then some (s, false)
    else
      let e ← s.hdr 0
      some ({ s with tail := u32 (0 + (2 + e.len)) }, true)
  else some ({ s with tail := u32 (s.tail + (2 + e.len)) }, true)

def shadowEvict (entrySize : Nat) : Nat → Shadow → Option Shadow
  | 0, _ => none
  | fuel + 1, s =>
    if s.head ≤ s.tail ∧ s.tail ≤ u32 (s.head + entrySize) then do
      let (s', skipped) ← shadowSkip s
      let s' := if s.tail = s.rdtail then { s' with rdtail := s'.tail } else s'
      if skipped then shadowEvict entrySize fuel s' else some s'
    else some s

def shadowWrap (s : Shadow) : Shadow :=
  let s := s.put ⟨s.head, 0, 0⟩ 2
  { s with
    tail := if s.head ≤ s.tail then 0 else s.tail
    rdtail := if s.head ≤ s.rdtail then 0 else s.rdtail
    head := 0 }

/-- The write of a payload of `len` bytes. -/
def shadowWrite (s : Shadow) (len : Nat) : Shadow :=
  { s.put ⟨s.head, len, s.pushes⟩ (2 + len) with
    head := s.head + (2 + len)
    pushes := s.pushes + 1 }

def shadowPush (s : Shadow) (len : Nat) : Option Shadow :=
  if 1 ≤ len ∧ len ≤ 65531 ∧ s.head + 2 ≤ traceRbSize then do
    let s := if traceRbSize ≤ s.head + (2 + len) + 2 then shadowWrap s else s
    let s ← shadowEvict (2 + len) 100 s
    if s.head + (2 + len) ≤ traceRbSize then some (shadowWrite s len) else none
  else none

def shadowPop (s : Shadow) : Option Shadow := do
  let (e, tail) ← shadowNext s
  match e with
  | some e =>
    if tail + (2 + e.len) ≤ traceRbSize then
      some { s with rdtail := tail + (2 + e.len), popped := s.popped ++ [e.push] }
    else none
  | none => some { s with rdtail := tail }

def shadowStep (s : Shadow) : ShadowOp → Option Shadow
  | .push len => shadowPush s len
  | .pop => shadowPop s
  | .nextSize => (shadowNext s).map fun r => { s with rdtail := r.2 }

/-! The shadow is followed by the buffer. -/

/-- `rb` is where `s` says, and every header known to `s` is in it. -/
structure Follows (s : Shadow) (rb : Rb) (owner : Nat → Nat) : Prop where
  size : rb.size = traceRbSize
  head : rb.head = s.head
  tail : rb.tail = s.tail
  rdtail : rb.rdtail = s.rdtail
  hdrs : ∀ e ∈ s.hdrs, e.off + 2 ≤ traceRbSize ∧ rb.buf.le16 e.off = e.len ∧
    (e.len ≠ 0 → owner e.off = e.push)

namespace Follows

variable {s s' : Shadow} {rb : Rb} {owner : Nat → Nat}

theorem hdr {off : Nat} {e : Hdr} (F : Follows s rb owner) (h : s.hdr off = some e) :
    rb.load16 off = some e.len ∧ rb.buf.le16 off = e.len ∧ (e.len ≠ 0 → owner off = e.push) := by
  have hoff : e.off = off := by
    have := List.find?_some h
    simpa using this
  obtain ⟨h1, h2, h3⟩ := F.hdrs e (List.mem_of_find?_eq_some h)
  rw [hoff] at h1 h2 h3
  refine ⟨?_, h2, h3⟩
  rw [Rb.load16, F.size, if_pos h1, h2]

/-- A write of `n` bytes that stores the header `e`. -/
theorem put {e : Hdr} {n : Nat} {buf' : Mem} {owner' : Nat → Nat} (F : Follows s rb owner)
    (hb : ∀ a b, b ≤ e.off ∨ e.off + n ≤ a → Mem.Agree rb.buf buf' a b)
    (ho : ∀ x, x + 2 ≤ e.off ∨ e.off + n ≤ x → owner x = owner' x) (hsz : e.off + 2 ≤ traceRbSize)
    (hlen : buf'.le16 e.off = e.len) (hpush : e.len ≠ 0 → owner' e.off = e.push) :
    Follows (s.put e n) { rb with buf := buf' } owner' := by
  refine ⟨F.size, F.head, F.tail, F.rdtail, ?_⟩
  intro x hx
  rcases List.mem_cons.mp hx with rfl | hx
  · exact ⟨hsz, hlen, hpush⟩
  · obtain ⟨hmem, hoff⟩ := List.mem_filter.mp hx
    obtain ⟨h1, h2, h3⟩ := F.hdrs x hmem
    have hout : x.off + 2 ≤ e.off ∨ e.off + n ≤ x.off := by simpa using hoff
    refine ⟨h1, ?_, ?_⟩
    · rw [← h2]
      exact (Mem.le16_congr (hb _ _ hout)).symm
    · rw [← ho _ hout]
      exact h3

theorem next {r : Option Hdr × Nat} (F : Follows s rb owner) (h : shadowNext s = some r) :
    (r.1 = none ∧ rbNextSizeAt rb rb.rdtail = some (0, r.2)) ∨
    ∃ e, r.1 = some e ∧ e.len ≠ 0 ∧ owner r.2 = e.push ∧ rbNextSizeAt rb rb.rdtail = some (e.len, r.2) := by
  unfold shadowNext at h
  split at h
  · next heq =>
    cases h
    left
    refine ⟨rfl, ?_⟩
    simp [rbNextSizeAt, rbCanPopAt, F.rdtail, F.head, heq]
  · next hne =>
    right
    obtain ⟨e, he, h⟩ := Option.bind_eq_some_iff.mp h
    obtain ⟨hl, _, ho⟩ := F.hdr he
    split at h
    · next h0 =>
      split at h
      · cases h
      · next hr =>
        obtain ⟨e', he', h⟩ := Option.bind_eq_some_iff.mp h
        obtain ⟨hl', _, ho'⟩ := F.hdr he'
        split at h
        · cases h
        · next h0' =>
          cases h
          refine ⟨e', rfl, h0', ho' h0', ?_⟩
          simp [rbNextSizeAt, rbCanPopAt, F.rdtail, F.head, hne, hl, h0, hr, hl']
    · next h0 =>
      cases h
      refine ⟨e, rfl, h0, ho h0, ?_⟩
      simp [rbNextSizeAt, rbCanPopAt, F.rdtail, F.head, hne, hl, h0]

theorem skip {b : Bool} (F : Follows s rb owner) (h : shadowSkip s = some (s', b)) :
    ∃ rb', rbSkip rb = some (rb', b) ∧ Follows s' rb' owner ∧ s'.pushes = s.pushes ∧ s'.popped = s.popped := by
  obtain ⟨e, he, h⟩ := Option.bind_eq_some_iff.mp h
  obtain ⟨hl, _⟩ := F.hdr he
  rw [← F.tail] at hl h
  split at h
  · next h0 =>
    split at h
    · next ht =>
      cases h
      rw [ht] at hl
      exact ⟨rb, by simp [rbSkip, hl, h0, ht], F, rfl, rfl⟩
    · next ht =>
      obtain ⟨e', he', h⟩ := Option.bind_eq_some_iff.mp h
      obtain ⟨hl', _⟩ := F.hdr he'
      cases h
      exact ⟨{ rb with tail := u32 (0 + (2 + e'.len)) }, by simp [rbSkip, hl, h0, ht, hl'],
        ⟨F.size, F.head, rfl, F.rdtail, F.hdrs⟩, rfl, rfl⟩
  · next h0 =>
    cases h
    exact ⟨{ rb with tail := u32 (rb.tail + (2 + e.len)) }, by simp [rbSkip, hl, h0],
      ⟨F.size, F.head, rfl, F.rdtail, F.hdrs⟩, rfl, rfl⟩

theorem evict {es fuel fuel' : Nat} (hf : fuel ≤ fuel') (F : Follows s rb owner)
    (h : shadowEvict es fuel s = some s') :
    ∃ rb', rbEvict es fuel' rb = some rb' ∧ Follows s' rb' owner ∧ s'.pushes = s.pushes ∧
      s'.popped = s.popped := by
  induction fuel generalizing s rb fuel' with
  | zero => cases h
  | succ fuel ih =>
    obtain ⟨fuel', rfl⟩ : ∃ k, fuel' = k + 1 := ⟨fuel' - 1, by omega⟩
    rw [shadowEvict] at h
    split at h
    · next hov =>
      have hov' : rbOverruns rb es = true := by simpa [rbOverruns, F.head, F.tail] using hov
      obtain ⟨⟨s1, b⟩, hs, h⟩ := Option.bind_eq_some_iff.mp h
      obtain ⟨rb1, hskip, F1, hp1, hq1⟩ := F.skip hs
      -- the reader is taken along on both sides or on neither
      have hmv : Follows (if s.tail = s.rdtail then { s1 with rdtail := s1.tail } else s1)
          (if rb.tail = rb.rdtail then { rb1 with rdtail := rb1.tail } else rb1) owner := by
        rw [F.tail, F.rdtail]
        split
        · exact ⟨F1.size, F1.head, F1.tail, F1.tail, F1.hdrs⟩
        · exact F1
      have hpp : ∀ c : Prop, [Decidable c] →
          (if c then { s1 with rdtail := s1.tail } else s1).pushes = s.pushes ∧
          (if c then { s1 with rdtail := s1.tail } else s1).popped = s.popped := by
        intro c _
        split <;> exact ⟨hp1, hq1⟩
      cases b with
      | true =>
        obtain ⟨rb', hev, F', hp', hq'⟩ := ih (Nat.le_of_succ_le_succ hf) hmv h
        refine ⟨rb', ?_, F', hp'.trans (hpp _).1, hq'.trans (hpp _).2⟩
        rw [rbEvict_round hov' hskip]
        exact hev
      | false =>
        cases h
        refine ⟨_, ?_, hmv, (hpp _).1, (hpp _).2⟩
        simp [rbEvict, hov', hskip]
    · next hov =>
      cases h
      have hov' : rbOverruns rb es = false := by
        rw [← Bool.not_eq_true]
        simpa [rbOverruns, F.head, F.tail] using hov
      exact ⟨rb, rbEvict_stop hov', F, rfl, rfl⟩

theorem wrap (F : Follows s rb owner) (h : s.head + 2 ≤ traceRbSize) :
    Follows (shadowWrap s) (wrapped rb) owner := by
  have F' : Follows (s.put ⟨s.head, 0, 0⟩ 2) { rb with buf := rb.buf.write rb.head (bytes16 0) } owner := by
    refine F.put ?_ (fun _ _ => rfl) h ?_ (fun h => absurd rfl h)
    · intro a b hab
      rw [F.head]
      exact Mem.Agree.write hab
    · rw [F.head]
      exact Mem.le16_write (by omega)
  refine ⟨F.size, rfl, ?_, ?_, F'.hdrs⟩
  · show (if rb.head ≤ rb.tail then 0 else rb.tail) = _
    rw [F.head, F.tail]
    rfl
  · show (if rb.head ≤ rb.rdtail then 0 else rb.rdtail) = _
    rw [F.head, F.rdtail]
    rfl

theorem write {data : List UInt8} (F : Follows s rb owner) (h2 : data.length ≤ 65531)
    (h : s.head + (2 + data.length) ≤ traceRbSize) :
    Follows (shadowWrite s data.length) (written rb data) (Function.update owner rb.head s.pushes) := by
  have hlen : (written rb data).buf.le16 rb.head = data.length := by
    have h : Mem.Agree (rb.buf.write rb.head (bytes16 data.length)) (written rb data).buf
        rb.head (rb.head + 2) := Mem.Agree.write (.inl (Nat.le_refl _))
    rw [← Mem.le16_congr h]
    exact Mem.le16_write (by omega)
  have F' : Follows (s.put ⟨s.head, data.length, s.pushes⟩ (2 + data.length))
      { rb with buf := (written rb data).buf } (Function.update owner rb.head s.pushes) := by
    refine F.put ?_ ?_ (by dsimp only; omega) ?_ ?_
    · intro a b hab
      rw [← F.head] at hab
      exact written_agree hab
    · intro x hx
      rw [Function.update_of_ne (by rw [F.head]; dsimp only at hx; omega)]
    · rw [← F.head]
      exact hlen
    · intro _
      rw [← F.head, Function.update_self]
  exact ⟨F.size, by show rb.head + _ = s.head + _; rw [F.head], F.tail, F.rdtail, F'.hdrs⟩

end Follows

/-- `h` is a state the shadow `s` describes. -/
structure Sim (s : Shadow) (h : History) : Prop where
  follows : Follows s h.rb h.owner
  pushes : h.pushed.length = s.pushes
  popped : h.popped.map Prod.fst = s.popped

namespace Sim

variable {s s' : Shadow} {h : History}

theorem init : Sim shadowInit histInit := by
  refine ⟨⟨rfl, rfl, rfl, rfl, ?_⟩, rfl, rfl⟩
  intro e he
  rw [List.mem_singleton.mp he]
  exact ⟨by decide, rfl, fun _ => rfl⟩

theorem push {data : List UInt8} (S : Sim s h) (hs : shadowPush s data.length = some s') :
    ∃ h', histStep h (.push data) = some h' ∧ Sim s' h' := by
  unfold shadowPush at hs
  split at hs
  · next hg =>
    obtain ⟨h1, h2, h3⟩ := hg
    obtain ⟨s2, hev, hs⟩ := Option.bind_eq_some_iff.mp hs
    have F := S.follows
    have hw : rbWraps h.rb (2 + data.length) = true ↔ traceRbSize ≤ s.head + (2 + data.length) + 2 := by
      rw [← F.head, ← F.size]
      exact rbWraps_iff _ F.size (by rw [F.head, F.size]; omega)
    -- the wrap, the eviction and the write follow one after the other
    obtain ⟨rb1, hrb1, F1⟩ : ∃ rb1,
        (if rbWraps h.rb (2 + data.length) then rbWrap h.rb else some h.rb) = some rb1 ∧
        Follows (if traceRbSize ≤ s.head + (2 + data.length) + 2 then shadowWrap s else s) rb1 h.owner := by
      by_cases hc : traceRbSize ≤ s.head + (2 + data.length) + 2
      · rw [if_pos hc, if_pos (hw.mpr hc)]
        exact ⟨wrapped h.rb, rbWrap_eq (by rw [F.head, F.size]; exact h3), F.wrap h3⟩
      · rw [if_neg hc, if_neg (mt hw.mp hc)]
        exact ⟨h.rb, rfl, F⟩
    obtain ⟨rb2, hev2, F2, hp, hq⟩ := F1.evict (show 100 ≤ rbEvictRounds by decide) hev
    have hpq : s2.pushes = s.pushes ∧ s2.popped = s.popped := by
      rw [hp, hq]
      split <;> exact ⟨rfl, rfl⟩
    split at hs
    · next hfit =>
      cases hs
      have hpush := rbPush_eq h1 h2 hrb1 hev2 F2.size (by rw [F2.head, F2.size]; exact hfit)
      refine ⟨_, histStep_push hpush, ?_, ?_, ?_⟩
      · show Follows _ (written rb2 data) (Function.update h.owner _ h.pushed.length)
        rw [written_header, S.pushes, ← hpq.1]
        exact F2.write h2 hfit
      · show (h.pushed ++ [data]).length = s2.pushes + 1
        rw [List.length_append, S.pushes, hpq.1]
        rfl
      · show h.popped.map Prod.fst = s2.popped
        rw [S.popped, hpq.2]
    · cases hs
  · cases hs

theorem pop (S : Sim s h) (hs : shadowPop s = some s') :
    ∃ h', histStep h .pop = some h' ∧ Sim s' h' := by
  obtain ⟨⟨e, t⟩, hn, hs⟩ := Option.bind_eq_some_iff.mp hs
  have F := S.follows
  have hsz : traceRbSize < 4294967296 := by decide
  rcases F.next hn with ⟨rfl, hn'⟩ | ⟨e, rfl, h0, ho, hn'⟩
  · cases hs
    refine ⟨{ h with rb := { h.rb with rdtail := t } }, ?_, ⟨F.size, F.head, F.tail, rfl, F.hdrs⟩,
      S.pushes, S.popped⟩
    simp [histStep, rbPop, rbPopAt, hn']
  · dsimp only at hs ho hn'
    split at hs
    · next hfit =>
      cases hs
      have hu1 : u32 (t + 2) = t + 2 := u32_of_lt (by omega)
      have hu2 : u32 (t + 2 + e.len) = t + (2 + e.len) := by
        rw [u32_of_lt (by omega)]
        omega
      have hb : t + 2 + e.len ≤ h.rb.size := by
        rw [F.size]
        omega
      refine ⟨{ h with
          rb := { h.rb with rdtail := t + (2 + e.len) }
          popped := h.popped ++ [(e.push, h.rb.buf.read (t + 2) e.len)] },
        ?_, ⟨F.size, F.head, F.tail, rfl, F.hdrs⟩, S.pushes, ?_⟩
      · simp [histStep, rbPop, rbPopAt, hn', h0, Rb.load, hu1, hu2, hb, ho]
      · simp [S.popped]
    · cases hs

theorem nextSize (S : Sim s h) (hs : shadowStep s .nextSize = some s') :
    ∃ h', histStep h .nextSize = some h' ∧ Sim s' h' := by
  obtain ⟨⟨e, t⟩, hn, rfl⟩ := Option.map_eq_some_iff.mp hs
  have F := S.follows
  refine ⟨{ h with rb := { h.rb with rdtail := t } }, ?_, ⟨F.size, F.head, F.tail, rfl, F.hdrs⟩,
    S.pushes, S.popped⟩
  rcases F.next hn with ⟨_, hn'⟩ | ⟨_, _, _, _, hn'⟩ <;> simp [histStep, rbNextSize, hn']

theorem step {op : ShadowOp} (S : Sim s h) (hs : shadowStep s op = some s') :
    ∃ h', histStep h op.call = some h' ∧ Sim s' h' := by
  cases op with
  | push len =>
    refine S.push ?_
    rw [List.length_replicate]
    exact hs
  | pop => exact S.pop hs
  | nextSize => exact S.nextSize hs

end Sim

theorem admitted_calls {ops : List ShadowOp} (h : ops.all ShadowOp.fits = true) :
    ∀ op ∈ ops.map ShadowOp.call, Admitted op := by
  intro op hop
  obtain ⟨c, hc, rfl⟩ := List.mem_map.mp hop
  exact ShadowOp.admitted (List.all_eq_true.mp h c hc)

/-- What a shadow run computes, the buffer does. -/
theorem shadow_run {ops : List ShadowOp} {s s' : Shadow} {h : History} (S : Sim s h)
    (hs : Lts.run shadowStep s ops = some s') :
    ∃ h', Lts.run histStep h (ops.map ShadowOp.call) = some h' ∧ Sim s' h' := by
  induction ops generalizing s h with
  | nil =>
    cases hs
    exact ⟨h, rfl, S⟩
  | cons op ops ih =>
    obtain ⟨s1, h1, hs⟩ := Lts.run_cons_some.mp hs
    obtain ⟨g, hg, S1⟩ := S.step h1
    obtain ⟨g', hg', S'⟩ := ih S1 hs
    exact ⟨g', Lts.run_cons_some.mpr ⟨g, hg, hg'⟩, S'⟩

/-- The call is admitted, and the cursors show that it is no push that takes the reader elsewhere. -/
def ShadowOp.passes (s : Shadow) : ShadowOp → Bool
  | .push len => decide (1 ≤ len) && decide (len ≤ 65531) &&
    passesBy (decide (traceRbSize ≤ s.head + (2 + len) + 2)) s.head s.tail s.rdtail
  | _ => true

theorem Sim.passes {s : Shadow} {h : History} {op : ShadowOp} (S : Sim s h) (hop : op.passes s = true)
    (hs : (shadowStep s op).isSome = true) : Admitted op.call ∧
      ∀ data, op.call = .push data → ¬Redelivers h.rb data.length ∧ ¬LeavesBehind h.rb data.length := by
  cases op with
  | push len =>
    have hlen : (List.replicate len (0 : UInt8)).length = len := List.length_replicate
    simp only [ShadowOp.passes, Bool.and_eq_true, decide_eq_true_eq] at hop
    obtain ⟨⟨h1, h2⟩, hpass⟩ := hop
    have hhead : s.head + 2 ≤ traceRbSize := by
      by_contra hno
      simp [shadowStep, shadowPush, hno] at hs
    have F := S.follows
    have hwraps : rbWraps h.rb (rbEntrySize len) = decide (traceRbSize ≤ s.head + (2 + len) + 2) := by
      rw [Bool.eq_iff_iff, decide_eq_true_iff, rbEntrySize_eq h2, ← F.head, ← F.size]
      exact rbWraps_iff _ F.size (by rw [F.head, F.size]; omega)
    rw [← hwraps, ← F.head, ← F.tail, ← F.rdtail] at hpass
    refine ⟨⟨by rw [hlen]; exact h1, by rw [hlen]; exact h2⟩, ?_⟩
    rintro data hdata
    obtain rfl : List.replicate len 0 = data := RbOp.push.inj hdata
    rw [hlen]
    exact passesBy_neither hpass
  | pop => exact ⟨trivial, fun _ h => nomatch h⟩
  | nextSize => exact ⟨trivial, fun _ h => nomatch h⟩

/-- A shadow run that the cursors let through is one of the buffer in which no push takes the reader elsewhere. -/
theorem shadow_meets {ops : List ShadowOp} {s s' : Shadow} {h : History} (S : Sim s h)
    (hs : Lts.run shadowStep s ops = some s') (hm : Lts.Meets shadowStep (fun s op => op.passes s = true) s ops) :
    Lts.Meets histStep (fun h op => Admitted op ∧
      ∀ data, op = .push data → ¬Redelivers h.rb data.length ∧ ¬LeavesBehind h.rb data.length) h
      (ops.map ShadowOp.call) := by
  induction ops generalizing s h with
  | nil => trivial
  | cons op ops ih =>
    obtain ⟨s1, h1, hs⟩ := Lts.run_cons_some.mp hs
    obtain ⟨g, hg, S1⟩ := S.step h1
    exact .cons hg (S.passes hm.1 (by rw [h1]; rfl)) (ih S1 hs (hm.2 s1 h1))

/-- Sixteen payloads of 65531 bytes, of which three are popped; a seventeenth, which wraps and drops two of these; and
twelve pops, with a look at what is next before and after them. -/
def wrapCalls : List ShadowOp :=
  List.replicate 16 (.push 65531) ++ List.replicate 3 .pop ++ [.nextSize, .push 65531, .nextSize] ++
    List.replicate 12 .pop ++ [.nextSize]

end Qm35.Ring
