import Qm35.Ring.Audit

/- Where the cursors point. Both always stand on the size field of an entry, or on an end
   marker, that `rb_push` has stored and that no store since has touched, or they are
   at `head`. In the layout with one chain that is so for every entry on it, and for the
   one a reader has been left on; in the layout with two, for every entry of both
   and for the end marker between them (`Standing`). An eviction only shortens the chains,
   and what a push stores is clear of all of them. -/
namespace Qm35.Ring

open ByteMem

/-- The two bytes at `x` were stored as a `kind`, and no store since has touched them. -/
def Stands (stores : List Store) (kind : Kind) (x : Nat) : Prop :=
  ∃ later earlier, stores = later ++ ⟨kind, x, 2⟩ :: earlier ∧ ∀ w ∈ later, w.off + w.len ≤ x ∨ x + 2 ≤ w.off

/-- Where a cursor may point. -/
def PointsWell (a : Audit) (x : Nat) : Prop :=
  x = a.rb.head ∨ Stands a.stores .header x ∨ Stands a.stores .marker x

section Stands
variable {stores new : List Store} {kind : Kind} {x a a' : Nat} {es xs ys : List Tagged}

theorem Stands.after (h : Stands stores kind x) (hoff : ∀ w ∈ new, w.off + w.len ≤ x ∨ x + 2 ≤ w.off) :
    Stands (new ++ stores) kind x := by
  obtain ⟨later, earlier, rfl, hlater⟩ := h
  refine ⟨new ++ later, earlier, (List.append_assoc ..).symm, fun w hw => ?_⟩
  rcases List.mem_append.mp hw with hw | hw
  · exact hoff w hw
  · exact hlater w hw

/-- Every entry of a chain from `a` stands. -/
def Sits (stores : List Store) : Nat → List Tagged → Prop
  | _, [] => True
  | a, x :: es => Stands stores .header a ∧ Sits stores (a + (2 + x.2.length)) es

theorem Sits.append : Sits stores a (xs ++ ys) ↔ Sits stores a xs ∧ Sits stores (a + storedSize xs) ys := by
  induction xs generalizing a with
  | nil => simp [Sits]
  | cons x xs ih =>
    obtain ⟨i, data⟩ := x
    simp only [List.cons_append, Sits, ih, storedSize_cons, and_assoc, Nat.add_assoc]

/-- The end of a chain, from where it starts. -/
theorem Sits.suffix (h : Sits stores a es) {es' : List Tagged} (hs : es' <:+ es)
    (hends : a' + storedSize es' = a + storedSize es) : Sits stores a' es' := by
  obtain ⟨con, rfl⟩ := hs
  rw [storedSize_append] at hends
  have hstart : a' = a + storedSize con := by omega
  rw [hstart]
  exact (Sits.append.mp h).2

/-- What is stored clear of a chain leaves its entries standing. -/
theorem Sits.after (h : Sits stores a es)
    (hoff : ∀ w ∈ new, w.off + w.len ≤ a ∨ a + storedSize es ≤ w.off) : Sits (new ++ stores) a es := by
  induction es generalizing a with
  | nil => trivial
  | cons x es ih =>
    obtain ⟨i, data⟩ := x
    simp only [storedSize_cons] at hoff
    refine ⟨h.1.after fun w hw => ?_, ih h.2 fun w hw => ?_⟩
    · have := hoff w hw
      omega
    · have := hoff w hw
      dsimp only
      omega

theorem Sits.start (h : Sits stores a es) : es = [] ∨ Stands stores .header a := by
  cases es with
  | nil => exact .inl rfl
  | cons x es => exact .inr h.1

end Stands

/-- Of two ends of one list, the one that takes less space is an end of the other. -/
theorem suffix_of_storedSize_le {xs ys zs : List Tagged} (hx : xs <:+ zs) (hy : ys <:+ zs)
    (hle : storedSize xs ≤ storedSize ys) : xs <:+ ys := by
  rcases List.suffix_or_suffix_of_suffix hx hy with h | ⟨con, rfl⟩
  · exact h
  · rw [storedSize_append] at hle
    cases con with
    | nil => exact List.suffix_refl _
    | cons x con =>
      obtain ⟨i, data⟩ := x
      rw [storedSize_cons] at hle
      omega

/-! The layouts, with everything that stands. -/

/-- The chain from `tail` to the end marker, the marker, and the chain from 0. -/
structure TwoStand (stores : List Store) (rb : Rb) (e : Nat) (old cur : List Tagged) : Prop where
  old : Sits stores rb.tail old
  mark : Stands stores .marker e
  cur : Sits stores 0 cur

/-- The layout between two calls. -/
inductive Standing (stores : List Store) (rb : Rb) (owner : Nat → Nat) (ret pend : List Tagged) : Prop
  | one : Flat rb owner ret pend → Sits stores rb.tail ret → Sits stores rb.rdtail pend →
      Standing stores rb owner ret pend
  | two {e : Nat} {old cur : List Tagged} : Wrapped rb owner e old cur pend → ret = old ++ cur →
      0 < rb.head → rb.head < rb.tail → TwoStand stores rb e old cur → Standing stores rb owner ret pend

section Layout
variable {stores : List Store} {rb rb' : Rb} {owner : Nat → Nat} {ret pend ret' pend' old cur : List Tagged}
  {e es : Nat} {data : List UInt8}

theorem Standing.lay (S : Standing stores rb owner ret pend) : Lay rb owner ret pend := by
  cases S with
  | one F _ _ => exact .inl F
  | two W hret h0 hlt _ => exact .inr ⟨_, _, _, W, hret, h0, hlt⟩

/-- The cursors point at something that stands. -/
theorem Standing.pointsWell (S : Standing stores rb owner ret pend) :
    PointsWell ⟨rb, stores⟩ rb.tail ∧ PointsWell ⟨rb, stores⟩ rb.rdtail := by
  -- at the start of a chain there is an entry, or else the chain's end
  have start : ∀ {a b : Nat} {es : List Tagged}, Chain rb.buf owner a es b → Sits stores a es →
      b = rb.head ∨ Stands stores .marker b → PointsWell ⟨rb, stores⟩ a := by
    intro a b es hc hs hend
    rcases hs.start with rfl | h
    · cases hc.span
      exact hend.imp_right .inr
    · exact .inr (.inl h)
  cases S with
  | one F ht hr => exact ⟨start F.retChain ht (.inl rfl), start F.pendChain hr (.inl rfl)⟩
  | two W hret h0 hlt T =>
    refine ⟨start W.oldChain T.old (.inr T.mark), ?_⟩
    rcases W.reader with ⟨con, pold, ho, _, hc, hpo⟩ | ⟨con, hcu, _, hc, hpe⟩
    · refine start hpo (T.old.suffix ⟨con, ho.symm⟩ ?_) (.inr T.mark)
      rw [← hpo.span, ← W.oldChain.span]
    · refine start hpe (T.cur.suffix ⟨con, hcu.symm⟩ ?_) (.inl rfl)
      rw [← hpe.span, ← W.curChain.span]

/-- A reader that moves takes nothing from under the cursors. -/
theorem Standing.moved (S : Standing stores rb owner ret pend) (L : Lay rb' owner ret pend')
    (hbuf : rb'.buf = rb.buf) (hhead : rb'.head = rb.head) (htail : rb'.tail = rb.tail)
    (hpend : pend' <:+ pend ∨ pend' <:+ ret) : Standing stores rb' owner ret pend' := by
  cases S with
  | one F ht hr =>
    rcases L with F' | ⟨e, old, cur, W', _, _, hlt⟩
    · refine .one F' (htail ▸ ht) ?_
      have hspan := F'.pendChain.span
      rcases hpend with h | h
      · refine hr.suffix h ?_
        rw [← hspan, ← F.pendChain.span, hhead]
      · refine ht.suffix h ?_
        rw [← hspan, ← F.retChain.span, hhead]
    · have := F.retChain.le
      omega
  | two W hret h0 hlt T =>
    rcases L with F' | ⟨e', old', cur', W', hret', h0', hlt'⟩
    · have := F'.retChain.le
      omega
    · -- the two chains are the same ones
      have hcur : Chain rb.buf owner 0 cur' rb.head := by
        rw [← hbuf, ← hhead]
        exact W'.curChain
      have hc := W.curChain.unique hcur
      subst hc
      have ho := List.append_cancel_right (hret.symm.trans hret')
      subst ho
      have he : e' = _ := W'.oldChain.span.trans ((congrArg (· + _) htail).trans W.oldChain.span.symm)
      subst he
      exact .two W' hret' h0' hlt' ⟨htail ▸ T.old, T.mark, T.cur⟩

/-! A push. -/

/-- What stands when the loop has ended: a layout with room for an entry of size `es` at `head`. -/
def Cleared (stores : List Store) (rb : Rb) (owner : Nat → Nat) (es : Nat) (ret pend : List Tagged) : Prop :=
  (∃ e old cur, Wrapped rb owner e old cur pend ∧ ret = old ++ cur ∧ rb.head + es < rb.tail ∧
      TwoStand stores rb e old cur) ∨
    Flat rb owner ret pend ∧ rb.head + es + 3 ≤ rb.size ∧ Sits stores rb.tail ret ∧ Sits stores rb.rdtail pend

/-- The loop leaves standing what is left on the chains. -/
theorem TwoStand.evicted (T : TwoStand stores rb e old cur) (W : Wrapped rb owner e old cur pend)
    (E : Evicted es rb rb' owner e (old ++ cur) pend ret' pend')
    (hroom : 0 < rb.head → rb.head + es + 3 ≤ rb.size) : Cleared stores rb' owner es ret' pend' := by
  have hcur : Chain rb'.buf owner 0 cur rb'.head := by
    rw [E.buf, E.head]
    exact W.curChain
  have hspan := hcur.span
  rcases E.layout with ⟨old', cur', W', rfl, hlt⟩ | ⟨F, hlt, _⟩
  · have hc := hcur.unique W'.curChain
    subst hc
    obtain ⟨gone, hgone⟩ := E.suffix
    rw [← List.append_assoc] at hgone
    have hold : old' <:+ old := ⟨gone, List.append_cancel_right hgone⟩
    refine .inl ⟨e, old', cur, W', rfl, hlt, T.old.suffix hold ?_, T.mark, T.cur⟩
    rw [← W'.oldChain.span, ← W.oldChain.span]
  · have htail := F.retChain.span
    have hsuf : ret' <:+ cur := suffix_of_storedSize_le E.suffix (List.suffix_append _ _) (by omega)
    refine .inr ⟨F, ?_, T.cur.suffix hsuf (by omega), ?_⟩
    · rw [E.head, E.size]
      rw [E.head] at hlt
      exact hroom (by omega)
    · have hpend := F.pendChain.span
      rcases F.reader with ⟨con, hret, _⟩ | ⟨h0, _, _⟩
      · exact T.cur.suffix (List.IsSuffix.trans ⟨con, hret.symm⟩ hsuf) (by omega)
      · -- a reader left at offset 0 has the whole of the second chain to see
        have hp := F.pendChain
        rw [h0] at hp ⊢
        rw [hp.unique hcur]
        exact T.cur

/-- The end marker, and what is before it. -/
theorem Standing.wrap (S : Standing stores rb owner ret pend) {ret1 pend1 : List Tagged}
    (W1 : Wrapped (wrapped rb) owner rb.head ret1 [] pend1) (hsuf : ret1 <:+ ret) :
    TwoStand (⟨.marker, rb.head, 2⟩ :: stores) (wrapped rb) rb.head ret1 [] := by
  have hspan := W1.oldChain.span
  have hsits : Sits stores (wrapped rb).tail ret1 := by
    cases S with
    | one F ht _ =>
      refine ht.suffix hsuf ?_
      rw [← hspan, ← F.retChain.span]
    | @two e old cur W hret h0 hlt T =>
      have hcur := W.curChain.span
      rw [hret] at hsuf
      have hsuf' : ret1 <:+ cur := suffix_of_storedSize_le hsuf (List.suffix_append _ _) (by omega)
      exact T.cur.suffix hsuf' (by omega)
  have hclear : ∀ w ∈ [(⟨.marker, rb.head, 2⟩ : Store)], w.off + w.len ≤ (wrapped rb).tail ∨
      (wrapped rb).tail + storedSize ret1 ≤ w.off := by
    intro w hw
    rw [List.mem_singleton.mp hw]
    exact .inr (Nat.le_of_eq hspan.symm)
  exact ⟨hsits.after hclear, ⟨[], stores, rfl, fun _ h => nomatch h⟩, trivial⟩

/-- What a push stores is clear of what is before the new entry and behind it. -/
theorem pushStores_clear {len a b : Nat} (h : b ≤ rb.head ∨ rb.head + (2 + len) ≤ a) :
    ∀ w ∈ pushStores rb len, w.off + w.len ≤ a ∨ b ≤ w.off := by
  intro w hw
  simp only [pushStores, List.mem_cons, List.not_mem_nil, or_false] at hw
  rcases hw with rfl | rfl <;> dsimp only <;> omega

/-- The new entry stands, and the chains with it. -/
theorem Cleared.write (n : Nat) (C : Cleared stores rb owner (2 + data.length) ret pend) (h1 : 1 ≤ data.length)
    (h2 : data.length ≤ 65531) :
    Standing (pushStores rb data.length ++ stores) (written rb data) (Function.update owner rb.head n)
      (ret ++ [(n, data)]) (pend ++ [(n, data)]) := by
  -- a chain up to `head`, with the new entry
  have snoc : ∀ {a : Nat} {es : List Tagged}, Chain rb.buf owner a es rb.head → Sits stores a es →
      Sits (pushStores rb data.length ++ stores) a (es ++ [(n, data)]) := by
    intro a es hc hs
    have hspan := hc.span
    refine Sits.append.mpr ⟨hs.after (pushStores_clear (.inl (Nat.le_of_eq hspan.symm))), ?_, trivial⟩
    rw [← hspan]
    refine ⟨[⟨.payload, rb.head + 2, data.length⟩], stores, rfl, fun w hw => ?_⟩
    rw [List.mem_singleton.mp hw]
    exact .inr (Nat.le_refl _)
  rcases C with ⟨e, old, cur, W, rfl, hlt, T⟩ | ⟨F, hroom, ht, hr⟩
  · have hle := W.oldChain.le
    refine .two (W.write h1 h2 hlt) (List.append_assoc ..) ?_ hlt
      ⟨T.old.after (pushStores_clear (.inr (Nat.le_of_lt hlt))), T.mark.after (pushStores_clear (.inr ?_)),
        snoc W.curChain T.cur⟩
    · show 0 < rb.head + (2 + data.length)
      omega
    · omega
  · exact .one (F.write h1 h2 hroom) (snoc F.retChain ht) (snoc F.pendChain hr)

/-- `rb_push` once the loop has ended with room for the entry. -/
theorem Cleared.push {rb1 rb2 : Rb} {stores1 : List Store} (n : Nat) (h1 : 1 ≤ data.length) (h2 : data.length ≤ 65531)
    (hsize : rb.size = traceRbSize) (hhead : rb.head ≤ rb.size)
    (hw : (if rbWraps rb (2 + data.length) then rbWrap rb else some rb) = some rb1)
    (haw : (if rbWraps rb (2 + data.length) then auditWrap ⟨rb, stores⟩ else some ⟨rb, stores⟩) = some ⟨rb1, stores1⟩)
    (hs1 : rb1.size = rb.size) (hh1 : rb1.head ≤ rb.head)
    (hev : rbEvict (2 + data.length) rbEvictRounds rb1 = some rb2) (hs2 : rb2.size = rb.size)
    (C : Cleared stores1 rb2 owner (2 + data.length) ret' pend') :
    ∃ rb2 stores' ret' pend', rbPush rb data = some (0, written rb2 data) ∧
      auditPush ⟨rb, stores⟩ data = some (0, ⟨written rb2 data, stores'⟩) ∧
      Standing stores' (written rb2 data) (Function.update owner rb2.head n) ret' pend' := by
  have hb : rb2.head + (2 + data.length) ≤ rb2.size := by
    rcases C with ⟨e, old, cur, W, _, hlt, _⟩ | ⟨_, hroom, _⟩
    · have hle := W.oldChain.le
      have hhi := W.markHi
      omega
    · omega
  have hin1 : rb1.head ≤ rb1.size := by omega
  have haudit : auditPush ⟨rb, stores⟩ data =
      some (0, ⟨written rb2 data, pushStores rb2 data.length ++ stores1⟩) :=
    auditPush_eq ⟨rb, stores⟩ ⟨rb1, stores1⟩ h1 h2 hsize hhead haw hev (hs1.trans hsize) hin1 (hs2.trans hsize) hb
  exact ⟨rb2, _, _, _, rbPush_eq h1 h2 hw hev (hs2.trans hsize) hb, haudit, C.write n h1 h2⟩

/-- `rb_push` of an admitted payload, audited. -/
theorem Standing.push (n : Nat) (S : Standing stores rb owner ret pend) (h1 : 1 ≤ data.length)
    (h2 : data.length ≤ 65531) :
    ∃ rb2 stores' ret' pend', rbPush rb data = some (0, written rb2 data) ∧
      auditPush ⟨rb, stores⟩ data = some (0, ⟨written rb2 data, stores'⟩) ∧
      Standing stores' (written rb2 data) (Function.update owner rb2.head n) ret' pend' := by
  have hsize := S.lay.size
  have hes : 2 + data.length ≤ 65533 := by omega
  have hroom : rb.head + 3 ≤ rb.size := by
    cases S with
    | one F => exact F.room
    | two W => exact W.room
  have hhead : rb.head ≤ rb.size := by omega
  cases hw : rbWraps rb (2 + data.length) with
  | false =>
    have hspace := room_of_not_wraps hsize (by omega) hw
    have hw' : ¬rbWraps rb (2 + data.length) = true := by simp [hw]
    cases S with
    | one F ht hr =>
      have C : Cleared stores rb owner (2 + data.length) ret pend := .inr ⟨F, hspace, ht, hr⟩
      exact C.push n h1 h2 hsize hhead (if_neg hw') (if_neg hw') rfl (Nat.le_refl _) (F.rbEvict_eq _) rfl
    | two W hret h0 hlt T =>
      obtain ⟨rb2, ret', pend', hev, E, -⟩ := rbEvict_wrapped hes rbEvictRounds rb _ pend W
        (by rw [rbEvictRounds]; omega)
      have C := T.evicted W E fun _ => hspace
      exact C.push n h1 h2 hsize hhead (if_neg hw') (if_neg hw') rfl (Nat.le_refl _) hev E.size
  | true =>
    obtain ⟨hwrap, ret1, pend1, W1, hs1, -, -⟩ := S.lay.wrap h2 hw
    have hawrap : auditWrap ⟨rb, stores⟩ = some ⟨wrapped rb, ⟨.marker, rb.head, 2⟩ :: stores⟩ :=
      auditWrap_eq (a := ⟨rb, stores⟩) (by dsimp only; omega)
    have hzero : (wrapped rb).head = 0 := rfl
    have T := S.wrap W1 hs1
    obtain ⟨rb2, ret', pend', hev, E, -⟩ := rbEvict_wrapped hes rbEvictRounds (wrapped rb) ret1 pend1 W1
      (by rw [rbEvictRounds, hzero]; omega)
    have C := T.evicted W1 E fun h => absurd h (by omega)
    exact C.push n h1 h2 hsize hhead ((if_pos hw).trans hwrap) ((if_pos hw).trans hawrap) rfl (Nat.zero_le _) hev E.size

end Layout

/-! Over a run. -/

theorem rbNextSize_moves {rb rb' : Rb} {n : Nat} (h : rbNextSize rb = some (n, rb')) :
    ∃ t, rb' = { rb with rdtail := t } := by
  unfold rbNextSize at h
  simp only [Option.bind_eq_bind, Option.bind_eq_some_iff] at h
  obtain ⟨⟨len, t⟩, -, h⟩ := h
  cases h
  exact ⟨t, rfl⟩

theorem rbPop_moves {rb rb' : Rb} {entry : Option (List UInt8)} (h : rbPop rb = some (entry, rb')) :
    ∃ t, rb' = { rb with rdtail := t } := by
  unfold rbPop at h
  simp only [Option.bind_eq_bind, Option.bind_eq_some_iff] at h
  obtain ⟨⟨entry', t⟩, -, h⟩ := h
  cases h
  exact ⟨t, rfl⟩

/-- An audited run beside the run: the same buffer, in which the cursors' chains stand. -/
def Safe (a : Audit) (h : History) : Prop :=
  h.rb = a.rb ∧ ∃ ret pend, Standing a.stores a.rb h.owner ret pend

theorem safe_init : Safe auditInit histInit := by
  have F : Flat histInit.rb histInit.owner [] [] := by
    rcases Ordered.init.lay with F | ⟨_, _, _, W, _, h0, _⟩
    · exact F
    · cases h0
  exact ⟨rfl, [], [], .one F trivial trivial⟩

theorem Safe.step {a : Audit} {h : History} (S : Safe a h) {op : RbOp} (hfits : Fits op) :
    ∃ a' h', auditStep a op = some a' ∧ histStep h op = some h' ∧ Safe a' h' := by
  obtain ⟨rb, stores⟩ := a
  obtain ⟨hrb, ret, pend, S⟩ := S
  dsimp only at hrb S
  subst hrb
  cases op with
  | push data =>
    obtain ⟨rb2, stores', ret', pend', hrun, haudit, S'⟩ := S.push h.pushed.length hfits.1 hfits.2
    refine ⟨⟨written rb2 data, stores'⟩, _, ?_, histStep_push hrun, rfl, ret', pend', ?_⟩
    · simp only [auditStep, haudit, Option.bind_eq_bind, Option.bind_some]
    · dsimp only
      rw [written_header]
      exact S'
  | pop =>
    have hpop : auditPop h.rb = rbPop h.rb := auditPop_eq S.lay.size
    cases pend with
    | nil =>
      have hrun := rbPop_empty S.lay
      refine ⟨⟨h.rb, stores⟩, _, ?_, histStep_pop_none hrun, rfl, ret, [], S⟩
      simp only [auditStep, hpop, hrun, Option.bind_eq_bind, Option.bind_some]
    | cons x pend =>
      obtain ⟨rb', hrun, -, hL⟩ := rbPop_spec S.lay
      obtain ⟨t, rfl⟩ := rbPop_moves hrun
      refine ⟨⟨{ h.rb with rdtail := t }, stores⟩, _, ?_, histStep_pop hrun, rfl, ret, pend,
        S.moved hL rfl rfl rfl (.inl (List.suffix_cons _ _))⟩
      simp only [auditStep, hpop, hrun, Option.bind_eq_bind, Option.bind_some]
  | nextSize =>
    obtain ⟨n, rb', hrun, hL⟩ := rbNextSize_spec S.lay
    obtain ⟨t, rfl⟩ := rbNextSize_moves hrun
    refine ⟨⟨{ h.rb with rdtail := t }, stores⟩, _, ?_, histStep_nextSize hrun, rfl, ret, pend,
      S.moved hL rfl rfl rfl (.inl (List.suffix_refl _))⟩
    simp only [auditStep, hrun, Option.bind_eq_bind, Option.bind_some]
  | canPop => exact ⟨_, h, rfl, rfl, rfl, ret, pend, S⟩
  | reset =>
    exact ⟨⟨rbReset h.rb, stores⟩, _, rfl, rfl, rfl, ret, ret,
      S.moved S.lay.reset rfl rfl rfl (.inr (List.suffix_refl _))⟩

/-- From `rb_init` of a zero-filled buffer no call with an admitted payload accesses anything outside the buffer,
loops for ever or has a sum wrap around, and both cursors are at `head` or point at a size field or an end marker
that a push has stored and that nothing has been stored over. -/
theorem ring_safe {ops : List RbOp} (hfits : ∀ op ∈ ops, Fits op) :
    ∃ a h, Lts.run auditStep auditInit ops = some a ∧ Lts.run histStep histInit ops = some h ∧ h.rb = a.rb ∧
      PointsWell a a.rb.tail ∧ PointsWell a a.rb.rdtail := by
  have hstep : ∀ a h op, Safe a h → Fits op →
      ∃ a' h', auditStep a op = some a' ∧ histStep h op = some h' ∧ Safe a' h' := by
    intro a h op S hop
    exact S.step hop
  obtain ⟨a, h, ha, hh, heq, ret, pend, S⟩ := Lts.run_beside hstep safe_init hfits
  exact ⟨a, h, ha, hh, heq, S.pointsWell⟩

/-- Two entries, the first of them read. -/
theorem ring_safe_two : ∃ a h, Lts.run auditStep auditInit [.push [7], .push [8, 9], .pop, .nextSize] = some a ∧
    Lts.run histStep histInit [.push [7], .push [8, 9], .pop, .nextSize] = some h ∧ h.rb = a.rb ∧
    PointsWell a a.rb.tail ∧ PointsWell a a.rb.rdtail := by
  have hfits : ∀ op ∈ [RbOp.push [7], .push [8, 9], .pop, .nextSize], Fits op := by
    simp [Fits]
  exact ring_safe hfits

end Qm35.Ring
