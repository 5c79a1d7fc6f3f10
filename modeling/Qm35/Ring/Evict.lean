import Qm35.Ring.Layout

/- The eviction loop of `rb_push`. It only ever runs in the wrapped layout, or once
   over a buffer that was never written. Each round drops the oldest entry: the one
   at `tail`, or, with `tail` on the end marker, the one at offset 0, after which
   the layout is flat again. A reader standing on the dropped entry is taken along;
   a reader at offset 0 is not when `tail` is on the end marker, although both mean
   the same entry, and is then left behind `tail`. -/
namespace Qm35.Ring

open ByteMem

variable {rb : Rb} {owner : Nat → Nat} {ret pend old cur : List Tagged} {e es : Nat}

/-- A suffix of what is left is all of what is left. -/
theorem eq_of_suffix_of_append {xs ys : List Tagged} (h : xs <:+ ys) (h' : ∃ con, xs = con ++ ys) :
    ys = xs := by
  obtain ⟨con, rfl⟩ := h'
  have hlen := h.length_le
  rw [List.length_append] at hlen
  rw [List.eq_nil_of_length_eq_zero (show con.length = 0 by omega), List.nil_append]

theorem rbSkip_entry {n : Nat} (hb : rb.tail + 2 ≤ rb.size) (hn : rb.buf.le16 rb.tail = n)
    (h0 : 1 ≤ n) (hu : rb.tail + (2 + n) < 4294967296) :
    rbSkip rb = some ({ rb with tail := rb.tail + (2 + n) }, true) := by
  simp [rbSkip, Rb.load16, hb, hn, u32_of_lt hu, show n ≠ 0 by omega]

theorem rbSkip_marker {n : Nat} (hb : rb.tail + 2 ≤ rb.size) (hm : rb.buf.le16 rb.tail = 0)
    (ht : rb.tail ≠ 0) (hn : rb.buf.le16 0 = n) :
    rbSkip rb = some ({ rb with tail := 2 + n }, true) := by
  have hlt := Mem.le16_lt rb.buf 0
  have hu : 2 + n < 4294967296 := by omega
  simp [rbSkip, Rb.load16, hb, hm, ht, hn, show 2 ≤ rb.size by omega, u32_of_lt hu]

theorem rbSkip_unwritten (hb : 2 ≤ rb.size) (ht : rb.tail = 0) (hm : rb.buf.le16 0 = 0) :
    rbSkip rb = some (rb, false) := by
  simp [rbSkip, Rb.load16, ht, hb, hm]

theorem rbEvict_stop {fuel : Nat} (h : rbOverruns rb es = false) :
    rbEvict es (fuel + 1) rb = some rb := by
  simp [rbEvict, h]

theorem rbEvict_unwritten {fuel : Nat} (h : rbOverruns rb es = true)
    (hs : rbSkip rb = some (rb, false)) (hr : rb.tail = rb.rdtail) :
    rbEvict es (fuel + 1) rb = some rb := by
  cases rb
  cases hr
  simp [rbEvict, h, hs]

theorem rbEvict_round {fuel : Nat} {rb' : Rb} (h : rbOverruns rb es = true)
    (hs : rbSkip rb = some (rb', true)) :
    rbEvict es (fuel + 1) rb =
      rbEvict es fuel (if rb.tail = rb.rdtail then { rb' with rdtail := rb'.tail } else rb') := by
  simp [rbEvict, h, hs]

/-- What the loop leaves: `ret'` and `pend'` of the entries that were retained and
pending, in a layout with room for an entry of size `es` at `head`. -/
structure Evicted (es : Nat) (rb rb' : Rb) (owner : Nat → Nat) (e : Nat)
    (ret pend ret' pend' : List Tagged) : Prop where
  buf : rb'.buf = rb.buf
  size : rb'.size = rb.size
  head : rb'.head = rb.head
  suffix : ret' <:+ ret
  reader : pend' = pend ∨ pend' = ret' ∧ ret' <:+ pend
  layout :
    (∃ old cur, Wrapped rb' owner e old cur pend' ∧ ret' = old ++ cur ∧ rb'.head + es < rb'.tail) ∨
    (Flat rb' owner ret' pend' ∧ rb'.tail < rb'.head ∧
      (OnFlat rb' owner ret' pend' ∨ rb.rdtail = 0 ∧ e ≤ rb.head + es))

/-- One round with `tail` on an entry. -/
theorem Wrapped.round_entry (W : Wrapped rb owner e old cur pend) (hte : rb.tail ≠ e) :
    ∃ n data old' pend' rb',
      1 ≤ n ∧ rb.tail + (2 + n) ≤ e ∧
      rbSkip rb = some ({ rb with tail := rb.tail + (2 + n) }, true) ∧
      rb' = (if rb.tail = rb.rdtail then { rb with tail := rb.tail + (2 + n), rdtail := rb.tail + (2 + n) }
        else { rb with tail := rb.tail + (2 + n) }) ∧
      old = (owner rb.tail, data) :: old' ∧ Wrapped rb' owner e old' cur pend' ∧
      (rb.rdtail = rb.tail ∧ pend = old ++ cur ∧ pend' = old' ++ cur ∨
        rb.rdtail ≠ rb.tail ∧ pend' = pend) := by
  obtain ⟨data, old', rfl, h1, h2, h3, h4, h5⟩ := W.oldChain.head_entry hte
  have hle := h5.le
  have hsz := W.size
  have hhi := W.markHi
  have hhd := W.headLe
  rw [traceRbSize] at hsz
  have hskip : rbSkip rb = some ({ rb with tail := rb.tail + (2 + data.length) }, true) :=
    rbSkip_entry (by omega) h3 h1 (by omega)
  by_cases hr : rb.tail = rb.rdtail
  · -- the reader stands on the entry: it is taken along
    have hp : pend = ((owner rb.tail, data) :: old') ++ cur := by
      rcases W.reader with ⟨con, pold, ho, hpe, hc, _⟩ | ⟨_, _, hlt, _, _⟩
      · rw [← hr] at hc
        rw [hpe, ho, hc.self, List.nil_append]
      · omega
    refine ⟨data.length, data, old', old' ++ cur,
      { rb with tail := rb.tail + (2 + data.length), rdtail := rb.tail + (2 + data.length) },
      h1, hle, hskip, by rw [if_pos hr], rfl, ?_, .inl ⟨hr.symm, hp, rfl⟩⟩
    exact ⟨W.size, W.room, W.markHi, W.markLo, W.mark, by dsimp only; omega, h5, W.curChain,
      .inl ⟨[], old', rfl, rfl, .nil _, h5⟩⟩
  · refine ⟨data.length, data, old', pend, { rb with tail := rb.tail + (2 + data.length) },
      h1, hle, hskip, by rw [if_neg hr], rfl, ?_, .inr ⟨fun h => hr h.symm, rfl⟩⟩
    refine ⟨W.size, W.room, W.markHi, W.markLo, W.mark, by dsimp only; omega, h5, W.curChain, ?_⟩
    rcases W.reader with ⟨con, pold, ho, hpe, hc, hpo⟩ | ⟨con, hcu, hlt, hc, hpe⟩
    · left
      obtain ⟨data', con', rfl, _, _, h3', h4', hc'⟩ := hc.head_entry hr
      have hlen : data.length = data'.length := h3.symm.trans h3'
      rw [List.cons_append, List.cons.injEq] at ho
      refine ⟨con', pold, ho.2, hpe, ?_, hpo⟩
      rw [hlen]
      exact hc'
    · exact .inr ⟨con, hcu, by dsimp only; omega, hc, hpe⟩

/-- The round with `tail` on the end marker: the layout is flat after it. -/
theorem Wrapped.round_marker (W : Wrapped rb owner e old cur pend) (hte : rb.tail = e)
    (hes : es ≤ 65533) (hov : e ≤ rb.head + es) :
    ∃ n ret' pend' rb',
      rbSkip rb = some ({ rb with tail := 2 + n }, true) ∧
      rb' = (if rb.tail = rb.rdtail then { rb with tail := 2 + n, rdtail := 2 + n }
        else { rb with tail := 2 + n }) ∧
      ret' <:+ old ++ cur ∧ (pend' = pend ∨ pend' = ret' ∧ ret' <:+ pend) ∧
      Flat rb' owner ret' pend' ∧ rb'.tail < rb'.head ∧
      (OnFlat rb' owner ret' pend' ∨ rb.rdtail = 0 ∧ e ≤ rb.head + es) := by
  have hold : old = [] := by
    have h := W.oldChain
    rw [hte] at h
    exact h.self
  subst hold
  have hsz := W.size
  have hlo := W.markLo
  have hhi := W.markHi
  rw [traceRbSize] at hsz
  obtain ⟨data, cur', rfl, h1, h2, h3, h4, h5⟩ := W.curChain.head_entry (by omega)
  rw [Nat.zero_add] at h5
  have hskip : rbSkip rb = some ({ rb with tail := 2 + data.length }, true) :=
    rbSkip_marker (by omega) (by rw [hte]; exact W.mark) (by omega) h3
  have hlt : 2 + data.length < rb.head := by omega
  have hsuf : cur' <:+ [] ++ (owner 0, data) :: cur' := List.suffix_cons _ _
  by_cases hr : rb.tail = rb.rdtail
  · -- the reader stands on the marker as well: it is taken along
    have hp : pend = (owner 0, data) :: cur' := by
      rcases W.reader with ⟨con, pold, ho, hpe, _, _⟩ | ⟨_, _, hlt, _, _⟩
      · rw [hpe, (List.append_eq_nil_iff.mp ho.symm).2, List.nil_append]
      · omega
    have hon : OnFlat { rb with tail := 2 + data.length, rdtail := 2 + data.length } owner cur' cur' :=
      ⟨[], rfl, .nil _⟩
    refine ⟨data.length, cur', cur', _, hskip, rfl, hsuf, .inr ⟨rfl, ?_⟩, ?_, ?_, ?_⟩
    · rw [hp]
      exact List.suffix_cons _ _
    · rw [if_pos hr]
      exact ⟨W.size, W.room, h5, h5, .inl hon, .inl hlt⟩
    · rw [if_pos hr]
      exact hlt
    · rw [if_pos hr]
      exact .inl hon
  · -- a reader not on the marker is on the second chain; at its start it stays behind
    have hnew : ∃ con, (owner 0, data) :: cur' = con ++ pend ∧
        Chain rb.buf owner 0 con rb.rdtail ∧ Chain rb.buf owner rb.rdtail pend rb.head := by
      rcases W.reader with ⟨con, pold, _, _, hc, hpo⟩ | ⟨con, hcu, _, hc, hpe⟩
      · have := hc.le
        have := hpo.le
        omega
      · exact ⟨con, hcu, hc, hpe⟩
    obtain ⟨con, hcu, hc, hpe⟩ := hnew
    have hon : rb.rdtail ≠ 0 → OnFlat { rb with tail := 2 + data.length } owner cur' pend := by
      intro h0
      obtain ⟨data', con', rfl, _, _, h3', _, hc'⟩ := hc.head_entry (Ne.symm h0)
      rw [List.cons_append, List.cons.injEq] at hcu
      rw [Nat.zero_add, ← h3.symm.trans h3'] at hc'
      exact ⟨con', hcu.2, hc'⟩
    refine ⟨data.length, cur', pend, _, hskip, rfl, hsuf, .inl rfl, ?_, ?_, ?_⟩
    · rw [if_neg hr]
      refine ⟨W.size, W.room, h5, hpe, ?_, .inl hlt⟩
      by_cases h0 : rb.rdtail = 0
      · rw [h0] at hc
        rw [hc.self, List.nil_append] at hcu
        exact .inr ⟨h0, by dsimp only; omega, _, hcu.symm⟩
      · exact .inl (hon h0)
    · rw [if_neg hr]
      exact hlt
    · rw [if_neg hr]
      by_cases h0 : rb.rdtail = 0
      · exact .inr ⟨h0, hov⟩
      · exact .inl (hon h0)

theorem rbOverruns_iff (hu : rb.head + es < 4294967296) :
    rbOverruns rb es = true ↔ rb.head ≤ rb.tail ∧ rb.tail ≤ rb.head + es := by
  simp [rbOverruns, u32_of_lt hu]

/-- What was kept of a suffix is kept of the whole, and the reader's part with it. -/
theorem Evicted.trans_entry {rb' rb'' : Rb} {old' pend' ret'' pend'' : List Tagged} {x : Tagged}
    (hbuf : rb'.buf = rb.buf) (hsize : rb'.size = rb.size) (hhead : rb'.head = rb.head)
    (hreader : rb.rdtail = rb.tail ∧ rb'.rdtail ≠ 0 ∧ pend = (x :: old') ++ cur ∧ pend' = old' ++ cur ∨
      rb'.rdtail = rb.rdtail ∧ pend' = pend)
    (E : Evicted es rb' rb'' owner e (old' ++ cur) pend' ret'' pend'') :
    Evicted es rb rb'' owner e ((x :: old') ++ cur) pend ret'' pend'' := by
  have hsuf : ret'' <:+ (x :: old') ++ cur := E.suffix.trans (List.suffix_cons _ _)
  refine ⟨E.buf.trans hbuf, E.size.trans hsize, E.head.trans hhead, hsuf, ?_, ?_⟩
  · rcases hreader with ⟨_, hne, hp, hp'⟩ | ⟨_, hp'⟩
    · right
      rcases E.reader with h | ⟨h, _⟩
      · -- a reader taken along is on the chain, so all of it is pending
        have hcon : ∃ con, ret'' = con ++ pend'' := by
          rcases E.layout with ⟨old, cur, W, hret, _⟩ | ⟨_, _, ⟨con, hc, _⟩ | ⟨h0, _⟩⟩
          · rcases W.reader with ⟨con, pold, ho, hpe, _, _⟩ | ⟨con, hcu, _, _, _⟩
            · exact ⟨con, by rw [hret, ho, hpe, List.append_assoc]⟩
            · exact ⟨old ++ con, by rw [hret, hcu, List.append_assoc]⟩
          · exact ⟨con, hc⟩
          · exact absurd h0 hne
        have hall : pend'' = ret'' := eq_of_suffix_of_append (by rw [h, hp']; exact E.suffix) hcon
        refine ⟨hall, ?_⟩
        rw [← hall, h, hp', hp]
        exact List.suffix_cons _ _
      · exact ⟨h, by rw [hp]; exact hsuf⟩
    · rw [← hp']
      exact E.reader
  · rcases E.layout with h | ⟨F, hlt, h⟩
    · left
      rwa [hhead] at *
    · refine .inr ⟨F, hlt, h.imp_right ?_⟩
      rintro ⟨h0, hov⟩
      rcases hreader with ⟨_, hne, _, _⟩ | ⟨heq, _⟩
      · exact absurd h0 hne
      · rw [heq] at h0
        rw [hhead] at hov
        exact ⟨h0, hov⟩

/-- `__rb_skip` goes to a place at most one entry further, or from the start. -/
theorem rbSkip_tail_le {rb rb' : Rb} {skipped : Bool} (h : rbSkip rb = some (rb', skipped)) :
    rb'.tail ≤ rb.tail + 65537 ∧ (rb.buf.le16 rb.tail = 0 → rb.tail ≠ 0 → rb'.tail ≤ 65537) := by
  have hlt := Mem.le16_lt rb.buf rb.tail
  have hlt0 := Mem.le16_lt rb.buf 0
  have hu := u32_le (rb.tail + (2 + rb.buf.le16 rb.tail))
  have hu0 := u32_le (2 + rb.buf.le16 0)
  by_cases hb : rb.tail + 2 ≤ rb.size
  · by_cases hm : rb.buf.le16 rb.tail = 0
    · by_cases ht : rb.tail = 0
      · rw [rbSkip_unwritten (by omega) ht (ht ▸ hm)] at h
        cases h
        omega
      · simp [rbSkip, Rb.load16, hb, hm, ht, show 2 ≤ rb.size by omega] at h
        obtain ⟨rfl, -⟩ := h
        constructor <;> dsimp only <;> omega
    · simp [rbSkip, Rb.load16, hb, hm] at h
      obtain ⟨rfl, -⟩ := h
      constructor <;> dsimp only <;> omega
  · simp [rbSkip, Rb.load16, hb] at h

/-- Where the loop ends: it has not gone on, or to the first entry past the new one, or past the end marker. -/
def Ends (rb rb' : Rb) (e es : Nat) : Prop :=
  rb' = rb ∧ rbOverruns rb es = false ∨ rb.tail < rb'.tail ∧ rb'.tail ≤ rb.head + es + 65537 ∨
    rb'.tail < rb.head ∧ rb'.tail ≤ 65537 ∧ e ≤ rb.head + es

/-- A round with `tail` on an entry comes first. -/
theorem Ends.entry {rb1 rb' : Rb} {n : Nat} (hhead : rb1.head = rb.head) (htail : rb1.tail = rb.tail + (2 + n))
    (hfar : rb1.tail ≤ rb.tail + 65537) (hov : rb.tail ≤ rb.head + es) (h : Ends rb1 rb' e es) : Ends rb rb' e es := by
  rcases h with ⟨rfl, -⟩ | ⟨h1, h2⟩ | ⟨h1, h2, h3⟩
  · exact .inr (.inl ⟨by omega, by omega⟩)
  · exact .inr (.inl ⟨by omega, by omega⟩)
  · exact .inr (.inr ⟨by omega, h2, by omega⟩)

/-- The loop ends, with room for the new entry. -/
theorem rbEvict_wrapped (hes : es ≤ 65533) : ∀ (fuel : Nat) (rb : Rb) (old pend : List Tagged),
    Wrapped rb owner e old cur pend → rb.head + es + 1 - rb.tail < fuel →
    ∃ rb' ret' pend', rbEvict es fuel rb = some rb' ∧
      Evicted es rb rb' owner e (old ++ cur) pend ret' pend' ∧ Ends rb rb' e es := by
  -- each round moves `tail` up, or ends the loop at the marker: the bytes that are in the way bound the rounds
  intro fuel
  induction fuel with
  | zero =>
    intro rb old pend _ hf
    omega
  | succ fuel ih =>
    intro rb old pend W hf
    have hsz := W.size
    have hroom := W.room
    have hhi := W.markHi
    have hlo := W.markLo
    have hhd := W.headLe
    have hle := W.oldChain.le
    rw [traceRbSize] at hsz
    have hu : rb.head + es < 4294967296 := by omega
    by_cases hov : rbOverruns rb es = true
    · have hov' := (rbOverruns_iff hu).mp hov
      by_cases hte : rb.tail = e
      · obtain ⟨n, ret', pend', rb', hskip, hrb', hsuf, hread, F, hlt, hon⟩ :=
          W.round_marker hte hes (by omega)
        have hfar := (rbSkip_tail_le hskip).2 (hte ▸ W.mark) (by omega)
        -- past the marker `tail` is below `head`, and the condition of the loop fails
        have hstop : rbOverruns rb' es = false := by
          simp [rbOverruns, Nat.not_le.mpr hlt]
        have hb : rb'.buf = rb.buf ∧ rb'.size = rb.size ∧ rb'.head = rb.head ∧ rb'.tail = 2 + n := by
          rw [hrb']
          split <;> simp
        have hends : rb'.tail < rb.head ∧ rb'.tail ≤ 65537 ∧ e ≤ rb.head + es := by
          dsimp only at hfar
          omega
        obtain ⟨f, rfl⟩ : ∃ f, fuel = f + 1 := ⟨fuel - 1, by omega⟩
        refine ⟨rb', ret', pend', ?_, ⟨hb.1, hb.2.1, hb.2.2.1, hsuf, hread, .inr ⟨F, hlt, hon⟩⟩, .inr (.inr hends)⟩
        rw [rbEvict_round hov hskip, ← hrb', rbEvict_stop hstop]
      · obtain ⟨n, data, old', pend', rb', h1, _, hskip, hrb', rfl, W', hread⟩ := W.round_entry hte
        have hb : rb'.buf = rb.buf ∧ rb'.size = rb.size ∧ rb'.head = rb.head ∧
            rb'.tail = rb.tail + (2 + n) := by
          rw [hrb']
          split <;> simp
        have hfar := (rbSkip_tail_le hskip).1
        obtain ⟨rb'', ret'', pend'', hrun, E, hends⟩ := ih rb' old' pend' W' (by omega)
        refine ⟨rb'', ret'', pend'', ?_, ?_, hends.entry hb.2.2.1 hb.2.2.2 (hb.2.2.2 ▸ hfar) hov'.2⟩
        · rw [rbEvict_round hov hskip, ← hrb', hrun]
        · refine Evicted.trans_entry hb.1 hb.2.1 hb.2.2.1 ?_ E
          rcases hread with ⟨hr, hp, hp'⟩ | ⟨hr, hp'⟩
          · refine .inl ⟨hr, ?_, hp, hp'⟩
            rw [hrb', if_pos hr.symm]
            dsimp only
            omega
          · refine .inr ⟨?_, hp'⟩
            rw [hrb', if_neg (Ne.symm hr)]
    · have hstop : rbOverruns rb es = false := by simpa using hov
      refine ⟨rb, old ++ cur, pend, rbEvict_stop hstop, ⟨rfl, rfl, rfl,
        List.suffix_refl _, .inl rfl, .inl ⟨old, cur, W, rfl, ?_⟩⟩, .inl ⟨rfl, hstop⟩⟩
      have hno : ¬(rb.head ≤ rb.tail ∧ rb.tail ≤ rb.head + es) := fun h => hov ((rbOverruns_iff hu).mpr h)
      omega

end Qm35.Ring
