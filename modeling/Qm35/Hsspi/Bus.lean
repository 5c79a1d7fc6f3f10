import Qm35.Hsspi.Progress

/- What the device sees of the core: the headers the host sends on the bus, one for
   each call of `spi_xfer`, and what becomes of them. The protocol is a system of its
   own, whose only state is the read the host owes: an accepted exchange with
   `STC_HOST_PRD` announces one, for the layer and the length the device answered
   with, and the next exchange is that read; no other exchange is a read. Along every
   run of the core, with whatever callers and answers,

     (a) the exchanges are a run of that protocol (`exchange_drives`);
     (b) the writes are the accepted blocks, in order and each once, and `sent` is
         called with what came of each (`Writes`);
     (c) a read is announced only while `SS_IRQ` is set (`Asked`);
     (d) the device is reset after every sixth failure in a row (`Counted`), where
         the failures can be read off the exchanges. -/
namespace Qm35.Hsspi

/-- One call of `spi_xfer`: `hsspi->host`, its result, and `hsspi->soc` after it. -/
structure Exchange where
  host : StcHeader
  ret : Int
  soc : StcHeader

/-- The exchange that a step ends; `len` gives the length of the block of a TX work. -/
def exchangeOf (len : TxWork → UInt16) (s : Core) : CoreAct → List Exchange
  | .thread a =>
    match s.pc with
    | .txXfer w prd =>
      [⟨⟨if prd then stcHostWr ||| stcHostPrd else stcHostWr, w.layer.id, len w⟩, a.ret, a.soc⟩]
    | .preXfer => [⟨⟨stcHostPrd, 0, 0⟩, a.ret, a.soc⟩]
    | .rxXfer ul length _ => [⟨⟨stcHostRd, ul, length⟩, a.ret, a.soc⟩]
    | _ => []
  | _ => []

/-- The exchanges of a run from `hsspi_init` on. -/
def exchanges (len : TxWork → UInt16) (acts : List CoreAct) : List Exchange :=
  Lts.observed coreStep (exchangeOf len) coreInit acts

/-! The protocol. -/

def StcHeader.has (h : StcHeader) (flag : UInt8) : Bool := h.flags &&& flag != 0

namespace Exchange

/-- The header of a read. -/
def read (x : Exchange) : Option StcHeader := if x.host.has stcHostRd then some x.host else none

/-- The read that an accepted exchange announces. -/
def announced (x : Exchange) : Option StcHeader :=
  if x.ret = 0 ∧ x.host.has stcHostPrd = true then some ⟨stcHostRd, x.soc.ul, x.soc.length⟩ else none

/-- The layer, the length and the outcome of a write. -/
def written (x : Exchange) : Option (UInt8 × UInt16 × Int) :=
  if x.host.has stcHostWr then some (x.host.ul, x.host.length, x.ret) else none

end Exchange

/-- One exchange, where `owed` is the read the host owes. -/
def protocolStep (owed : Option StcHeader) (x : Exchange) : Option (Option StcHeader) :=
  if x.read = owed then some x.announced else none

/-- The read that `hsspi_tx` or `hsspi_pre_read` goes on to. -/
def ThreadPc.owed : ThreadPc → Option StcHeader
  | .txDone _ prd ret soc => if ret = 0 ∧ prd = true then some ⟨stcHostRd, soc.ul, soc.length⟩ else none
  | .rx ul length => some ⟨stcHostRd, ul, length⟩
  | .rxFound ul length _ => some ⟨stcHostRd, ul, length⟩
  | .rxGot ul length _ => some ⟨stcHostRd, ul, length⟩
  | .rxXfer ul length _ => some ⟨stcHostRd, ul, length⟩
  | _ => none

/-! The flags of the three headers. -/

section Flags
variable {ul : UInt8} {length : UInt16} {prd : Bool}

@[simp] theorem has_tx_wr :
    (StcHeader.mk (if prd then stcHostWr ||| stcHostPrd else stcHostWr) ul length).has stcHostWr = true := by
  cases prd <;> simp only [StcHeader.has] <;> decide

@[simp] theorem has_tx_rd :
    (StcHeader.mk (if prd then stcHostWr ||| stcHostPrd else stcHostWr) ul length).has stcHostRd = false := by
  cases prd <;> simp only [StcHeader.has] <;> decide

@[simp] theorem has_tx_prd :
    (StcHeader.mk (if prd then stcHostWr ||| stcHostPrd else stcHostWr) ul length).has stcHostPrd = prd := by
  cases prd <;> simp only [StcHeader.has] <;> decide

@[simp] theorem has_prd_wr : (StcHeader.mk stcHostPrd ul length).has stcHostWr = false := by
  simp only [StcHeader.has]; decide

@[simp] theorem has_prd_rd : (StcHeader.mk stcHostPrd ul length).has stcHostRd = false := by
  simp only [StcHeader.has]; decide

@[simp] theorem has_prd_prd : (StcHeader.mk stcHostPrd ul length).has stcHostPrd = true := by
  simp only [StcHeader.has]; decide

@[simp] theorem has_rd_wr : (StcHeader.mk stcHostRd ul length).has stcHostWr = false := by
  simp only [StcHeader.has]; decide

@[simp] theorem has_rd_rd : (StcHeader.mk stcHostRd ul length).has stcHostRd = true := by
  simp only [StcHeader.has]; decide

@[simp] theorem has_rd_prd : (StcHeader.mk stcHostRd ul length).has stcHostPrd = false := by
  simp only [StcHeader.has]; decide

end Flags

/-! (a) The protocol is kept. -/

variable {len : TxWork → UInt16} {s s' t : Core} {acts : List CoreAct}

/-- The steps of the others are not seen on the bus. -/
theorem exchangeOf_other {a : CoreAct} (ha : ∀ b, a ≠ .thread b) : exchangeOf len s a = [] := by
  cases a with
  | thread b => exact absurd rfl (ha b)
  | _ => rfl

theorem CoreAct.thread_or (a : CoreAct) : (∃ b, a = .thread b) ∨ ∀ b, a ≠ .thread b := by
  cases a with
  | thread b => exact .inl ⟨b, rfl⟩
  | _ => exact .inr fun _ h => nomatch h

/-- Whatever step the thread takes, the exchange it ends is one the protocol allows. -/
theorem threadStep_drives (s : Core) (a : Answer) :
    Lts.run protocolStep s.pc.owed (exchangeOf len s (.thread a)) = some (threadStep s a).pc.owed := by
  unfold threadStep
  cases hpc : s.pc with
  | sampled isEmpty state =>
    simp only [exchangeOf, hpc]
    split <;> rfl
  | woken =>
    simp only [exchangeOf, hpc, getWork]
    split <;> rfl
  | txXfer w prd =>
    simp [exchangeOf, hpc, ThreadPc.owed, Lts.run, protocolStep, Exchange.read, Exchange.announced]
  | txDone w prd ret soc =>
    simp only [exchangeOf, hpc]
    split
    · next h => simp [ThreadPc.owed, h]
    · next h => simp [ThreadPc.owed, h]
  | preXfer =>
    simp only [exchangeOf, hpc]
    split
    · next h => simp [ThreadPc.owed, Lts.run, protocolStep, Exchange.read, Exchange.announced, h]
    · next h => simp [ThreadPc.owed, Lts.run, protocolStep, Exchange.read, Exchange.announced, h]
  | rxFound ul length layer =>
    simp only [exchangeOf, hpc]
    split <;> rfl
  | rxXfer ul length got =>
    simp [exchangeOf, hpc, ThreadPc.owed, Lts.run, protocolStep, Exchange.read, Exchange.announced]
  | rxDone ul length got ret soc =>
    simp only [exchangeOf, hpc]
    split <;> rfl
  | rxCheck ul length ret soc =>
    simp only [exchangeOf, hpc]
    split <;> rw [threadRound_pc] <;> rfl
  | _ => simp [exchangeOf, hpc, ThreadPc.owed]

theorem exchange_drives {a : CoreAct} (h : coreStep s a = some s') :
    Lts.run protocolStep s.pc.owed (exchangeOf len s a) = some s'.pc.owed := by
  obtain ⟨b, rfl⟩ | ha := a.thread_or
  · cases h
    exact threadStep_drives s b
  · rw [exchangeOf_other ha, coreStep_pc ha h, Lts.run_nil]

/-! (b) The writes are the blocks. -/

/-- The TX work whose exchange has ended, before `sent` is called. -/
def ThreadPc.unsent : ThreadPc → List (TxWork × Int)
  | .txDone w _ ret _ => [(w, ret)]
  | _ => []

/-- What the device sees of a TX work with its outcome. -/
def onBus (len : TxWork → UInt16) (p : TxWork × Int) : UInt8 × UInt16 × Int := (p.1.layer.id, len p.1, p.2)

/-- The writes seen are those of the blocks the layers have been told about, and of the one they are about to be. -/
def Writes (len : TxWork → UInt16) (s : Core) (xs : List Exchange) : Prop :=
  xs.filterMap Exchange.written = (s.sent ++ s.pc.unsent).map (onBus len)

theorem threadStep_writes (s : Core) (a : Answer) : ((threadStep s a).sent ++ (threadStep s a).pc.unsent).map (onBus len) =
    (s.sent ++ s.pc.unsent).map (onBus len) ++ (exchangeOf len s (.thread a)).filterMap Exchange.written := by
  unfold threadStep
  cases hpc : s.pc with
  | sampled isEmpty state =>
    simp only [exchangeOf, hpc]
    split <;> simp [ThreadPc.unsent]
  | woken =>
    simp only [exchangeOf, hpc, getWork]
    split <;> simp [ThreadPc.unsent]
  | txXfer w prd => simp [exchangeOf, hpc, ThreadPc.unsent, Exchange.written, onBus]
  | txDone w prd ret soc =>
    simp only [exchangeOf, hpc]
    split <;> simp [ThreadPc.unsent]
  | preXfer =>
    simp only [exchangeOf, hpc]
    split <;> simp [ThreadPc.unsent, Exchange.written]
  | rxFound ul length layer =>
    simp only [exchangeOf, hpc]
    split <;> simp [ThreadPc.unsent]
  | rxXfer ul length got => simp [exchangeOf, hpc, ThreadPc.unsent, Exchange.written]
  | rxDone ul length got ret soc =>
    simp only [exchangeOf, hpc]
    split <;> simp [ThreadPc.unsent]
  | rxCheck ul length ret soc =>
    simp only [exchangeOf, hpc]
    split
    · simp [ThreadPc.unsent]
    · split <;> simp [ThreadPc.unsent]
  | _ => simp [exchangeOf, hpc, ThreadPc.unsent]

theorem coreStep_sent {a : CoreAct} (ha : ∀ b, a ≠ .thread b) (h : coreStep s a = some s') : s'.sent = s.sent := by
  cases coreStep_effect h with
  | thread => exact absurd rfl (ha _)
  | _ => rfl

theorem Writes.step {xs : List Exchange} {a : CoreAct} (hw : Writes len s xs) (h : coreStep s a = some s') :
    Writes len s' (xs ++ exchangeOf len s a) := by
  obtain ⟨b, rfl⟩ | ha := a.thread_or
  · cases h
    rw [Writes, List.filterMap_append, hw, threadStep_writes]
  · rw [Writes, exchangeOf_other ha, List.append_nil, coreStep_sent ha h, coreStep_pc ha h]
    exact hw

theorem writes_run (hr : Lts.run coreStep coreInit acts = some t) : Writes len t (exchanges len acts) :=
  Lts.run_observed (fun _ _ _ _ hw h => hw.step h) rfl hr

/-- They are the accepted blocks, in the order in which they were accepted, as far as the thread has come. -/
theorem writes_accepted (hr : Lts.run coreStep coreInit acts = some t) :
    (t.sent ++ t.pc.unsent).map Prod.fst <+: t.accepted := by
  have O : Ownership t := Lts.run_preserves (fun _ _ _ O h => O.step h) Ownership.init hr
  rw [O.txs, List.map_append, List.append_assoc]
  refine (List.prefix_append_right_inj _).mpr ?_
  cases t.pc <;> simp [ThreadPc.unsent, ThreadPc.current]

/-! (c) The host asks only when it was told to. -/

/-- Between the test of `SS_IRQ` and the exchange with `STC_HOST_PRD` the flag stays set. -/
def Asked (s : Core) : Prop :=
  match s.pc with
  | .sampled isEmpty _ => isEmpty = true ∨ s.workList ≠ []
  | .woken => s.workList ≠ [] ∨ s.ssIrq = true
  | .txXfer _ prd => prd = true → s.ssIrq = true
  | .preRead => s.ssIrq = true
  | .preXfer => s.ssIrq = true
  | _ => True

/-- Nobody but the thread clears the flag or takes out work. -/
theorem Asked.others {a : CoreAct} (hI : Asked s) (ha : ∀ b, a ≠ .thread b) (h : coreStep s a = some s') :
    Asked s' := by
  have hpc := coreStep_pc ha h
  have hirq : s.ssIrq = true → s'.ssIrq = true := by
    intro hs
    cases coreStep_effect h with
    | thread => exact absurd rfl (ha _)
    | ssIrq => rfl
    | _ => exact hs
  have hwork : s.workList ≠ [] → s'.workList ≠ [] := by
    intro hs
    cases coreStep_effect h with
    | thread => exact absurd rfl (ha _)
    | accept => exact List.append_ne_nil_of_left_ne_nil hs _
    | unregister => exact List.append_ne_nil_of_left_ne_nil hs _
    | stop => exact List.append_ne_nil_of_left_ne_nil hs _
    | _ => exact hs
  unfold Asked at hI ⊢
  rw [hpc]
  revert hI
  cases s.pc with
  | sampled isEmpty state => exact Or.imp_right hwork
  | woken => exact Or.imp hwork hirq
  | txXfer w prd => exact fun hI h => hirq (hI h)
  | preRead => exact hirq
  | preXfer => exact hirq
  | _ => exact id

theorem threadRound_asked (s : Core) (ret : Int) : Asked (threadRound s ret) := by
  rw [Asked, threadRound_pc]
  trivial

theorem Asked.thread (hI : Asked s) (a : Answer) : Asked (threadStep s a) := by
  unfold threadStep
  cases hpc : s.pc with
  -- what is sampled is the list itself: empty, or there is work
  | idle =>
    show s.workList.isEmpty = true ∨ s.workList ≠ []
    cases s.workList with
    | nil => exact .inl rfl
    | cons w ws => exact .inr (List.cons_ne_nil w ws)
  | sampled isEmpty state =>
    simp only [Asked, hpc] at hI
    dsimp only
    split
    · next h =>
      show s.workList ≠ [] ∨ s.ssIrq = true
      rcases hI with hI | hI
      · simp only [hI, Bool.not_true, Bool.false_or, Bool.and_eq_true] at h
        exact .inr h.2
      · exact .inl hI
    · trivial
  | woken =>
    simp only [Asked, hpc] at hI
    dsimp only [getWork]
    split
    · next hw => exact hI.resolve_left fun h => h hw
    · trivial
    · trivial
  | tx w => exact id
  | txDone w prd ret soc =>
    dsimp only
    split
    · trivial
    · exact threadRound_asked _ _
  | preRead => simpa [Asked, hpc] using hI
  | preXfer =>
    dsimp only
    split
    · trivial
    · exact threadRound_asked _ _
  | rxFound ul length layer =>
    dsimp only
    split <;> trivial
  | rxDone ul length got ret soc =>
    dsimp only
    split <;> trivial
  | rxCheck ul length ret soc =>
    dsimp only
    split
    · exact threadRound_asked _ _
    · exact threadRound_asked _ _
  | _ => trivial

theorem asked_run (hr : Lts.run coreStep coreInit acts = some t) : Asked t := by
  refine Lts.run_preserves ?_ (show Asked coreInit from trivial) hr
  intro s a s' hI h
  obtain ⟨b, rfl⟩ | ha := a.thread_or
  · cases h
    exact hI.thread b
  · exact hI.others ha h

/-- An exchange with `STC_HOST_PRD` is made while `SS_IRQ` is set. -/
theorem Asked.prd (hI : Asked s) {a : CoreAct} {x : Exchange} (hx : x ∈ exchangeOf len s a)
    (hprd : x.host.has stcHostPrd = true) : s.ssIrq = true := by
  obtain ⟨b, rfl⟩ | ha := a.thread_or
  · cases hpc : s.pc with
    | txXfer w prd =>
      simp only [exchangeOf, hpc, List.mem_singleton] at hx
      subst hx
      rw [has_tx_prd] at hprd
      simp only [Asked, hpc] at hI
      exact hI hprd
    | preXfer => simpa [Asked, hpc] using hI
    | rxXfer ul length got =>
      simp only [exchangeOf, hpc, List.mem_singleton] at hx
      subst hx
      rw [has_rd_prd] at hprd
      cases hprd
    | _ => simp [exchangeOf, hpc] at hx
  · rw [exchangeOf_other ha] at hx
    cases hx

/-- The bus as the device sees it, along every run of the core. -/
theorem bus_conforms (hr : Lts.run coreStep coreInit acts = some t) :
    Lts.run protocolStep none (exchanges len acts) = some t.pc.owed ∧
    (exchanges len acts).filterMap Exchange.written = (t.sent ++ t.pc.unsent).map (onBus len) ∧
    (t.sent ++ t.pc.unsent).map Prod.fst <+: t.accepted ∧
    ∀ a, ∀ x ∈ exchangeOf len t a, x.host.has stcHostPrd = true → t.ssIrq = true :=
  ⟨Lts.observed_drives (fun _ _ _ h => exchange_drives h) hr, writes_run hr, writes_accepted hr,
    fun _ _ hx => (asked_run hr).prd hx⟩

/-- A block sent while the device asks to be read. -/
def sendWithIrq : List CoreAct :=
  [.register ⟨0, 2⟩, .start, .send (some ⟨0, 2⟩) (some 5) true, .ssIrq] ++
    List.replicate 12 (.thread ⟨0, ⟨0x60, 2, 7⟩, some 9⟩)

theorem bus_conforms_irq : ∃ t, Lts.run coreStep coreInit sendWithIrq = some t ∧
    (exchanges (fun _ => 3) sendWithIrq).map Exchange.host = [⟨0xc0, 2, 3⟩, ⟨0x20, 2, 7⟩] ∧
    Lts.run protocolStep none (exchanges (fun _ => 3) sendWithIrq) = some none ∧
    (exchanges (fun _ => 3) sendWithIrq).filterMap Exchange.written = [(2, 3, 0)] := by
  obtain ⟨t, ht, howed, hsent⟩ : ∃ t, Lts.run coreStep coreInit sendWithIrq = some t ∧ t.pc.owed = none ∧
      (t.sent ++ t.pc.unsent).map (onBus fun _ => 3) = [(2, 3, 0)] := ⟨_, rfl, rfl, rfl⟩
  obtain ⟨hproto, hwrites, _, _⟩ := @bus_conforms (fun _ => 3) t sendWithIrq ht
  exact ⟨t, ht, rfl, hproto.trans (congrArg some howed), hwrites.trans hsent⟩

/-! (d) The reset of the device. -/

/-- What `hsspi_rx` returns for a read. -/
def readResult (ul : UInt8) (length : UInt16) (ret : Int) (soc : StcHeader) : Int :=
  if ret ≠ 0 then ret else if checkSocFlag soc.flags false && soc.ul == ul && soc.length == length then 0 else -1

/-- What an exchange says about the round of the thread it is in: the result, if the round ends with it. -/
def Exchange.result (x : Exchange) : Option Int :=
  if x.host.has stcHostRd then some (readResult x.host.ul x.host.length x.ret x.soc)
  else if x.ret = 0 ∧ x.host.has stcHostPrd = true then none
  else some x.ret

/-- The result of a round that has not been counted yet. -/
def ThreadPc.uncounted : ThreadPc → List Int
  | .txDone _ prd ret _ => if ret = 0 ∧ prd = true then [] else [ret]
  | .rxDone ul length _ ret soc => [readResult ul length ret soc]
  | .rxCheck ul length ret soc => [readResult ul length ret soc]
  | _ => []

/-- The failures since the last success. -/
def failing (rs : List Int) : Nat := (rs.reverse.takeWhile fun r => r ≠ 0).length

/-- The failures in a row that lead to a reset. -/
def resetAfter : Nat := maxSuccessiveErrors + 1

/-- How often the failures in a row had come to a multiple of `resetAfter`. -/
def resetsDue (rs : List Int) : Nat := rs.inits.countP fun p => 0 < failing p ∧ resetAfter ∣ failing p

@[simp] theorem failing_snoc (rs : List Int) (r : Int) :
    failing (rs ++ [r]) = if r = 0 then 0 else failing rs + 1 := by
  by_cases hr : r = 0 <;> simp [failing, hr]

theorem resetsDue_snoc (rs : List Int) (r : Int) : resetsDue (rs ++ [r]) =
    resetsDue rs + if 0 < failing (rs ++ [r]) ∧ resetAfter ∣ failing (rs ++ [r]) then 1 else 0 := by
  simp [resetsDue, List.inits_append, List.countP_append, List.countP_cons]

/-- The counters after rounds with these results. -/
def Counted (s : Core) (rs : List Int) : Prop :=
  s.resets = resetsDue rs ∧ s.successiveErrors = failing rs % resetAfter

/-- The end of a round counts its result. -/
theorem Counted.round {rs : List Int} (h : Counted s rs) (ret : Int) : Counted (threadRound s ret) (rs ++ [ret]) := by
  obtain ⟨hresets, herrors⟩ := h
  unfold threadRound Counted
  rw [resetsDue_snoc, failing_snoc]
  by_cases hret : ret = 0
  · simp [hret, hresets]
  · have hmod : maxSuccessiveErrors < s.successiveErrors + 1 ↔ resetAfter ∣ failing rs + 1 := by
      rw [herrors]
      simp only [maxSuccessiveErrors, resetAfter]
      omega
    rw [if_pos hret, if_neg hret]
    by_cases hdue : resetAfter ∣ failing rs + 1
    · rw [if_pos (hmod.mpr hdue), if_pos ⟨by omega, hdue⟩]
      exact ⟨by rw [hresets], (Nat.mod_eq_zero_of_dvd hdue).symm⟩
    · rw [if_neg (mt hmod.mp hdue), if_neg fun h => hdue h.2]
      refine ⟨hresets, ?_⟩
      show s.successiveErrors + 1 = (failing rs + 1) % resetAfter
      rw [herrors]
      simp only [maxSuccessiveErrors, resetAfter] at hdue ⊢
      omega

/-- The results of the rounds, as seen on the bus: those counted, and the one that is about to be. -/
def Tallied (s : Core) (xs : List Exchange) : Prop :=
  ∃ rs, xs.filterMap Exchange.result = rs ++ s.pc.uncounted ∧ Counted s rs

section Tallied
variable {u : Core} {xs : List Exchange}

/-- A step that ends no round, where `ys` is seen. -/
theorem Tallied.moves (h : Tallied s xs) (ys : List Exchange)
    (hu : u.resets = s.resets ∧ u.successiveErrors = s.successiveErrors)
    (hpc : s.pc.uncounted ++ ys.filterMap Exchange.result = u.pc.uncounted) : Tallied u (xs ++ ys) := by
  obtain ⟨rs, hrs, hc⟩ := h
  refine ⟨rs, ?_, hu.1.trans hc.1, hu.2.trans hc.2⟩
  rw [List.filterMap_append, hrs, List.append_assoc, hpc]

/-- A step that ends a round with the result `ret`. -/
theorem Tallied.ends (h : Tallied s xs) (ys : List Exchange)
    (hu : u.resets = s.resets ∧ u.successiveErrors = s.successiveErrors) {ret : Int}
    (hpc : s.pc.uncounted ++ ys.filterMap Exchange.result = [ret]) : Tallied (threadRound u ret) (xs ++ ys) := by
  obtain ⟨rs, hrs, hc⟩ := h
  refine ⟨rs ++ [ret], ?_, Counted.round ⟨hu.1.trans hc.1, hu.2.trans hc.2⟩ ret⟩
  rw [List.filterMap_append, hrs, List.append_assoc, hpc, threadRound_pc]
  exact (List.append_nil _).symm

theorem Tallied.thread (h : Tallied s xs) (a : Answer) :
    Tallied (threadStep s a) (xs ++ exchangeOf len s (.thread a)) := by
  unfold threadStep
  cases hpc : s.pc with
  | sampled isEmpty state =>
    simp only [exchangeOf, hpc]
    refine h.moves [] ⟨rfl, rfl⟩ ?_
    split <;> simp [hpc, ThreadPc.uncounted]
  | woken =>
    simp only [exchangeOf, hpc, getWork]
    split <;> exact h.moves [] ⟨rfl, rfl⟩ (by simp [hpc, ThreadPc.uncounted])
  | txXfer w prd =>
    refine h.moves _ ⟨rfl, rfl⟩ ?_
    simp only [exchangeOf, hpc, ThreadPc.uncounted, Exchange.result, List.filterMap_cons, List.filterMap_nil,
      List.nil_append, has_tx_rd, has_tx_prd]
    by_cases hret : a.ret = 0 ∧ prd = true <;> simp [hret]
  -- the result of an exchange is counted only at the end of the round
  | txDone w prd ret soc =>
    simp only [exchangeOf, hpc]
    split
    · next hret => exact h.moves [] ⟨rfl, rfl⟩ (by simp [hpc, ThreadPc.uncounted, hret])
    · next hret =>
      refine h.ends [] ?_ ?_
      · exact ⟨rfl, rfl⟩
      · simp [hpc, ThreadPc.uncounted, hret]
  | preXfer =>
    simp only [exchangeOf, hpc]
    split
    · next hret => exact h.moves _ ⟨rfl, rfl⟩ (by simp [hpc, ThreadPc.uncounted, Exchange.result, hret])
    · next hret => exact h.ends _ ⟨rfl, rfl⟩ (by simp [hpc, ThreadPc.uncounted, Exchange.result, hret])
  | rxFound ul length layer =>
    simp only [exchangeOf, hpc]
    split <;> exact h.moves [] ⟨rfl, rfl⟩ (by simp [hpc, ThreadPc.uncounted])
  | rxXfer ul length got =>
    exact h.moves _ ⟨rfl, rfl⟩ (by simp [exchangeOf, hpc, ThreadPc.uncounted, Exchange.result])
  | rxDone ul length got ret soc =>
    simp only [exchangeOf, hpc]
    split <;> exact h.moves [] ⟨rfl, rfl⟩ (by simp [hpc, ThreadPc.uncounted])
  | rxCheck ul length ret soc =>
    simp only [exchangeOf, hpc]
    split
    · next hret => exact h.ends [] ⟨rfl, rfl⟩ (by simp [hpc, ThreadPc.uncounted, readResult, hret])
    · next hret =>
      refine h.ends [] ?_ (by simp [hpc, ThreadPc.uncounted, readResult, hret])
      split <;> exact ⟨rfl, rfl⟩
  | _ => exact h.moves _ ⟨rfl, rfl⟩ (by simp [exchangeOf, hpc, ThreadPc.uncounted])

theorem Tallied.others (h : Tallied s xs) {a : CoreAct} (ha : ∀ b, a ≠ .thread b) (hs : coreStep s a = some s') :
    Tallied s' xs := by
  have hu : s'.resets = s.resets ∧ s'.successiveErrors = s.successiveErrors := by
    cases coreStep_effect hs with
    | thread => exact absurd rfl (ha _)
    | _ => exact ⟨rfl, rfl⟩
  have hmoves := h.moves [] hu (by rw [coreStep_pc ha hs, List.filterMap_nil, List.append_nil])
  rwa [List.append_nil] at hmoves

end Tallied

/-- The device is reset after every `resetAfter` failures in a row, whatever comes between the rounds, and
at no other time: how often it has been can be read off the bus. -/
theorem resets_tallied (hr : Lts.run coreStep coreInit acts = some t) :
    ∃ rs, (exchanges len acts).filterMap Exchange.result = rs ++ t.pc.uncounted ∧ t.resets = resetsDue rs ∧
      t.successiveErrors = failing rs % resetAfter := by
  refine Lts.run_observed (I := Tallied) ?_ ⟨[], rfl, rfl, rfl⟩ hr
  intro s a s' xs h hs
  obtain ⟨b, rfl⟩ | ha := a.thread_or
  · cases hs
    exact h.thread b
  · rw [exchangeOf_other ha, List.append_nil]
    exact h.others ha hs

/-- The device asks to be read, and no transfer succeeds. -/
def deadBus : List CoreAct := [.start, .ssIrq] ++ List.replicate 40 (.thread ⟨-5, ⟨0, 0, 0⟩, none⟩)

theorem resets_tallied_dead : ∃ t rs, Lts.run coreStep coreInit deadBus = some t ∧
    (exchanges (fun _ => 0) deadBus).filterMap Exchange.result = rs ∧ rs = List.replicate 8 (-5) ∧
    t.resets = resetsDue rs ∧ t.resets = 1 ∧ t.successiveErrors = 2 := by
  obtain ⟨t, ht, hpc, hresets, herrors⟩ : ∃ t, Lts.run coreStep coreInit deadBus = some t ∧ t.pc.uncounted = [] ∧
      t.resets = 1 ∧ t.successiveErrors = 2 := ⟨_, rfl, rfl, rfl, rfl⟩
  obtain ⟨rs, hrs, hr, _⟩ := @resets_tallied (fun _ => 0) t deadBus ht
  rw [hpc, List.append_nil] at hrs
  exact ⟨t, rs, ht, hrs, hrs.symm.trans rfl, hr, hresets, herrors⟩

end Qm35.Hsspi
