import Qm35.Ring.Push

/- Reading in the two layouts. A caught-up reader gets nothing. Otherwise
   `__rb_next_size` finds the header of the first pending entry, stepping over the
   end marker where the reader stands on it, and `rb_pop` returns that entry's
   payload and moves past it. -/
namespace Qm35.Ring

open ByteMem

variable {rb : Rb} {owner : Nat → Nat} {ret pend old cur : List Tagged} {e : Nat}

theorem rbNextSizeAt_empty (h : rb.rdtail = rb.head) :
    rbNextSizeAt rb rb.rdtail = some (0, rb.rdtail) := by
  simp [rbNextSizeAt, rbCanPopAt, h]

theorem rbNextSizeAt_entry {t n : Nat} (ht : t ≠ rb.head) (hb : t + 2 ≤ rb.size)
    (hn : rb.buf.le16 t = n) (h1 : 1 ≤ n) : rbNextSizeAt rb t = some (n, t) := by
  simp [rbNextSizeAt, rbCanPopAt, ht, Rb.load16, hb, hn, show n ≠ 0 by omega]

theorem rbNextSizeAt_marker {t n : Nat} (ht : t ≠ rb.head) (hb : t + 2 ≤ rb.size)
    (hm : rb.buf.le16 t = 0) (h0 : t ≠ 0) (hn : rb.buf.le16 0 = n) :
    rbNextSizeAt rb t = some (n, 0) := by
  simp [rbNextSizeAt, rbCanPopAt, ht, Rb.load16, hb, hm, h0, show 2 ≤ rb.size by omega, hn]

/-- Nothing is pending exactly when the reader is caught up. -/
theorem Lay.caught_up (L : Lay rb owner ret pend) : pend = [] ↔ rb.rdtail = rb.head := by
  have hends : Chain rb.buf owner rb.rdtail pend rb.head → (pend = [] ↔ rb.rdtail = rb.head) := by
    intro h
    constructor
    · rintro rfl
      have hs := h.span
      rw [storedSize_nil] at hs
      omega
    · intro heq
      rw [heq] at h
      exact h.self
  rcases L with F | ⟨e, old, cur, W, _, h0, hlt⟩
  · exact hends F.pendChain
  · rcases W.reader with ⟨con, pold, _, hpe, hc, _⟩ | ⟨_, _, _, _, hpe⟩
    · have hle := hc.le
      have hcur : cur ≠ [] := W.curChain.ne_nil (by omega)
      refine ⟨fun h => ?_, fun h => by omega⟩
      rw [hpe] at h
      exact absurd (List.append_eq_nil_iff.mp h).2 hcur
    · exact hends hpe

/-- The header of the first pending entry is at `t`, and the reader is still in the
layout both on that header and past the entry. -/
structure NextEntry (rb : Rb) (owner : Nat → Nat) (ret : List Tagged) (x : Tagged)
    (pend : List Tagged) (t : Nat) : Prop where
  next : rbNextSizeAt rb rb.rdtail = some (x.2.length, t)
  pos : 1 ≤ x.2.length
  tag : owner t = x.1
  data : rb.buf.read (t + 2) x.2.length = x.2
  bound : t + (2 + x.2.length) ≤ rb.size
  before : Lay { rb with rdtail := t } owner ret (x :: pend)
  after : Lay { rb with rdtail := t + (2 + x.2.length) } owner ret pend

theorem Flat.next {x : Tagged} (F : Flat rb owner ret (x :: pend)) :
    NextEntry rb owner ret x pend rb.rdtail := by
  have hroom := F.room
  have hne : rb.rdtail ≠ rb.head := by
    intro h
    have hc := F.pendChain
    rw [h] at hc
    exact List.cons_ne_nil _ _ hc.self
  obtain ⟨data, pend', heq, h1, h2, h3, h4, h5⟩ := F.pendChain.head_entry hne
  rw [List.cons.injEq] at heq
  obtain ⟨rfl, rfl⟩ := heq
  have hle := h5.le
  refine ⟨rbNextSizeAt_entry hne (by omega) h3 h1, h1, rfl, h4, by dsimp only; omega, .inl F, .inl ?_⟩
  refine ⟨F.size, F.room, F.retChain, h5, .inl ?_, F.used⟩
  rcases F.reader with ⟨con, hret, hc⟩ | ⟨h0, _, y, hy⟩
  · exact ⟨con ++ [(owner rb.rdtail, data)], by rw [hret, List.append_assoc]; rfl,
      hc.append (.cons h1 h2 h3 h4 (.nil _))⟩
  · -- left behind by one entry: past it, the reader is at `tail`
    rw [List.cons.injEq] at hy
    obtain ⟨_, rfl⟩ := hy
    have htail := F.retChain.start_unique h5
    refine ⟨[], rfl, ?_⟩
    show Chain rb.buf owner rb.tail [] (rb.rdtail + (2 + data.length))
    rw [htail]
    exact .nil _

theorem Wrapped.next {x : Tagged} (W : Wrapped rb owner e old cur (x :: pend)) (h0 : 0 < rb.head)
    (hlt : rb.head < rb.tail) : ∃ t, NextEntry rb owner (old ++ cur) x pend t := by
  have hhi := W.markHi
  have hroom := W.room
  have holdle := W.oldChain.le
  have hsz := W.size
  -- the same layout with the reader moved
  have moved : ∀ {r : Nat} {p : List Tagged}, _ →
      Lay { rb with rdtail := r } owner (old ++ cur) p := fun {r p} hr =>
    .inr ⟨e, old, cur, ⟨W.size, W.room, W.markHi, W.markLo, W.mark, W.headLe, W.oldChain, W.curChain, hr⟩,
      rfl, h0, hlt⟩
  rcases W.reader with ⟨con, pold, ho, hpe, hc, hpo⟩ | ⟨con, hcu, hrt, hc, hpe⟩
  · have hcle := hc.le
    have hpole := hpo.le
    by_cases hre : rb.rdtail = e
    · -- on the end marker: the next entry is the first of the buffer
      rw [hre] at hpo
      rw [hpo.self, List.nil_append] at hpe
      obtain ⟨data, cur', heq, h1, h2, h3, h4, h5⟩ := W.curChain.head_entry (by omega)
      have hx : x = (owner 0, data) ∧ pend = cur' := by
        rw [heq, List.cons.injEq] at hpe
        exact hpe
      obtain ⟨rfl, rfl⟩ := hx
      have hle := h5.le
      have hent : Chain rb.buf owner 0 [(owner 0, data)] (0 + (2 + data.length)) :=
        .cons h1 h2 h3 h4 (.nil _)
      refine ⟨0, rbNextSizeAt_marker (by omega) (by omega) (by rw [hre]; exact W.mark) (by omega) h3,
        h1, rfl, h4, by dsimp only; omega, moved (.inr ⟨[], hpe.symm, ?_, .nil _, ?_⟩),
        moved (.inr ⟨[(owner 0, data)], heq, ?_, hent, h5⟩)⟩
      · show 0 < rb.tail
        omega
      · rw [hpe]
        exact W.curChain
      · show 0 + (2 + data.length) < rb.tail
        omega
    · obtain ⟨data, pold', heq, h1, h2, h3, h4, h5⟩ := hpo.head_entry hre
      subst heq
      rw [List.cons_append, List.cons.injEq] at hpe
      obtain ⟨rfl, rfl⟩ := hpe
      have hle := h5.le
      refine ⟨rb.rdtail, rbNextSizeAt_entry (by omega) (by omega) h3 h1, h1, rfl, h4,
        by dsimp only; omega, moved W.reader, moved (.inl ⟨con ++ [(owner rb.rdtail, data)], pold', ?_, rfl,
          hc.append (.cons h1 h2 h3 h4 (.nil _)), h5⟩)⟩
      rw [ho, List.append_assoc]
      rfl
  · have hne : rb.rdtail ≠ rb.head := by
      intro h
      rw [h] at hpe
      exact List.cons_ne_nil _ _ hpe.self
    obtain ⟨data, pend', heq, h1, h2, h3, h4, h5⟩ := hpe.head_entry hne
    rw [List.cons.injEq] at heq
    obtain ⟨rfl, rfl⟩ := heq
    have hle := h5.le
    refine ⟨rb.rdtail, rbNextSizeAt_entry hne (by omega) h3 h1, h1, rfl, h4,
      by dsimp only; omega, moved W.reader, moved (.inr ⟨con ++ [(owner rb.rdtail, data)], ?_, ?_,
        hc.append (.cons h1 h2 h3 h4 (.nil _)), h5⟩)⟩
    · rw [hcu, List.append_assoc]
      rfl
    · show rb.rdtail + (2 + data.length) < rb.tail
      omega

theorem Lay.size (L : Lay rb owner ret pend) : rb.size = traceRbSize := by
  rcases L with F | ⟨_, _, _, W, _⟩
  · exact F.size
  · exact W.size

theorem Lay.next {x : Tagged} (L : Lay rb owner ret (x :: pend)) :
    ∃ t, NextEntry rb owner ret x pend t := by
  rcases L with F | ⟨e, old, cur, W, rfl, h0, hlt⟩
  · exact ⟨_, F.next⟩
  · exact W.next h0 hlt

/-! The calls of a reader. -/

theorem rbNextSize_spec (L : Lay rb owner ret pend) :
    ∃ n rb', rbNextSize rb = some (n, rb') ∧ Lay rb' owner ret pend := by
  cases pend with
  | nil =>
    have hc := L.caught_up.mp rfl
    refine ⟨0, rb, ?_, L⟩
    simp [rbNextSize, rbNextSizeAt_empty hc]
  | cons x pend =>
    obtain ⟨t, N⟩ := L.next
    refine ⟨x.2.length, { rb with rdtail := t }, ?_, N.before⟩
    simp [rbNextSize, N.next]

theorem rbPop_empty (L : Lay rb owner ret []) : rbPop rb = some (none, rb) := by
  have hc := L.caught_up.mp rfl
  simp [rbPop, rbPopAt, rbNextSizeAt_empty hc]

/-- `rb_pop` returns the first pending entry; its header is where the new `rdtail` says. -/
theorem rbPop_spec {x : Tagged} (L : Lay rb owner ret (x :: pend)) :
    ∃ rb', rbPop rb = some (some x.2, rb') ∧ owner (rb'.rdtail - (2 + x.2.length)) = x.1 ∧
      Lay rb' owner ret pend := by
  obtain ⟨t, N⟩ := L.next
  have hsz := L.size
  have hb := N.bound
  have hpos := N.pos
  rw [traceRbSize] at hsz
  have hu1 : u32 (t + 2) = t + 2 := u32_of_lt (by omega)
  have hu2 : u32 (t + 2 + x.2.length) = t + (2 + x.2.length) := by
    rw [u32_of_lt (by omega)]
    omega
  refine ⟨{ rb with rdtail := t + (2 + x.2.length) }, ?_, ?_, N.after⟩
  · have hb' : t + 2 + x.2.length ≤ rb.size := by omega
    simp [rbPop, rbPopAt, N.next, show x.2.length ≠ 0 by omega, Rb.load, hu1, hu2, hb', N.data]
  · show owner (t + (2 + x.2.length) - (2 + x.2.length)) = x.1
    rw [Nat.add_sub_cancel]
    exact N.tag

end Qm35.Ring
