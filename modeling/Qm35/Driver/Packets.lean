import Qm35.Coredump.Reassembly

/- The packets of the log and coredump layers (`hsspi_log.c`, `hsspi_coredump.c`). A packet
   is allocated for a block that the core is about to receive, or for a request; the core
   gives back through `received` or `sent` every block that it has taken, once, and the
   layer frees it there. A request that `hsspi_send` refuses is not taken, and is for the
   caller to free. The three requests of the log layer do. The two of the coredump layer
   return what `hsspi_send` returned and leave the packet behind.

   Packets are numbered; the frees of each are counted. What a message is decides whether
   a status is sent, so the layer and its messages are those of the coredump model. Of
   the log layer only `enabled` matters: its `received` frees the packet whatever is in it. -/
namespace Qm35.Driver

open Lts Qm35.Coredump

/-- The layer whose callbacks a block is given back through. -/
inductive Layer where
  | log
  | coredump
deriving DecidableEq

/-- `core` are the packets the core has. -/
structure Packets where
  allocated : Nat
  freed : Nat → Nat
  core : List (Layer × Nat)
  enabled : Bool
  dump : Dump

def packetsInit : Packets := ⟨0, fun _ => 0, [], false, dumpInit⟩

/-- The outcome of `kzalloc` of the packet, and of `hsspi_init_block`. -/
inductive Alloc where
  | noPacket
  | noBlock
  | granted
deriving DecidableEq

/-- `log_packet_free`, `coredump_packet_free` -/
def packetFree (s : Packets) (p : Nat) : Packets := { s with freed := Function.update s.freed p (s.freed p + 1) }

/-- `log_packet_alloc`, `coredump_packet_alloc` -/
def packetAlloc (s : Packets) : Alloc → Packets × Option Nat
  | .noPacket => (s, none)
  | .noBlock => (packetFree { s with allocated := s.allocated + 1 } s.allocated, none)
  | .granted => ({ s with allocated := s.allocated + 1 }, some s.allocated)

/-- The core takes a packet. -/
def coreTake (s : Packets) (layer : Layer) (p : Nat) : Packets := { s with core := s.core ++ [(layer, p)] }

/-- `log_get`, `coredump_get`: the packet is for the core to fill. -/
def blockGet (layer : Layer) (s : Packets) (alloc : Alloc) : Packets :=
  match packetAlloc s alloc with
  | (s, none) => s
  | (s, some p) => coreTake s layer p

/-- `hsspi_send` with result `ret` -/
def hsspiSend (layer : Layer) (s : Packets) (p : Nat) (ret : Int) : Packets := if ret = 0 then coreTake s layer p else s

/-- A request of the log layer, and what `hsspi_send` has returned. -/
def logRequest (s : Packets) (alloc : Alloc) (ret : Int) : Packets × Option Int :=
  match packetAlloc s alloc with
  | (s, none) => (s, none)
  | (s, some p) =>
    let s := hsspiSend .log s p ret
    (if ret ≠ 0 then packetFree s p else s, some ret)

/-- `log_enable_set` -/
def logEnableSet (s : Packets) (enable : Bool) (alloc : Alloc) (ret : Int) : Packets :=
  if s.enabled then s
  else
    match logRequest s alloc ret with
    | (s, some 0) => { s with enabled := enable }
    | (s, _) => s

/-- `log_level_set` -/
def logLevelSet (s : Packets) (alloc : Alloc) (ret : Int) : Packets := (logRequest s alloc ret).1

/-- `log_level_get`, up to the wait -/
def logLevelGet (s : Packets) (alloc : Alloc) (ret : Int) : Packets := (logRequest s alloc ret).1

/-- -ENOMEM -/
def enomem : Int := -12

/-- A request of the coredump layer, and the result. -/
def coredumpRequest (s : Packets) (alloc : Alloc) (ret : Int) : Packets × Int :=
  match packetAlloc s alloc with
  | (s, none) => (s, enomem)
  | (s, some p) => (hsspiSend .coredump s p ret, ret)

/-- `coredump_send_rcv_status` -/
def coredumpSendRcvStatus (s : Packets) (alloc : Alloc) (ret : Int) : Packets × Int := coredumpRequest s alloc ret

/-- `debug_coredump_force` -/
def debugCoredumpForce (s : Packets) (alloc : Alloc) (ret : Int) : Packets × Int := coredumpRequest s alloc ret

/-- What `coredump_received` does after it has taken the message in, and before it frees the block. -/
def answer (s : Packets) (alloc : Alloc) (ret : Int) : Outcome → Packets
  | .body _ (some _) => (coredumpSendRcvStatus s alloc ret).1
  | _ => s

/-- The core gives a packet back. -/
def giveBack (s : Packets) (layer : Layer) (p : Nat) : Packets := { s with core := s.core.erase (layer, p) }

/-- `alloc` and `ret` are the outcomes of the allocations and of `hsspi_send`. -/
inductive PacketAct where
  | get (layer : Layer) (alloc : Alloc)
  | sent (layer : Layer) (p : Nat)
  | logReceived (p : Nat)
  | coredumpReceived (p : Nat) (msg : Message) (grant : Option Grant) (alloc : Alloc) (ret : Int)
  | enableSet (enable : Bool) (alloc : Alloc) (ret : Int)
  | levelSet (alloc : Alloc) (ret : Int)
  | levelGet (alloc : Alloc) (ret : Int)
  | coredumpForce (alloc : Alloc) (ret : Int)
  /-- `corredump_on_expired_timer` -/
  | timer (alloc : Alloc) (ret : Int)

def packetStep (kmallocMaxSize : Nat) (s : Packets) : PacketAct → Option Packets
  | .get layer alloc => some (blockGet layer s alloc)
  | .sent layer p => if (layer, p) ∈ s.core then some (packetFree (giveBack s layer p) p) else none
  | .logReceived p => if (.log, p) ∈ s.core then some (packetFree (giveBack s .log p) p) else none
  | .coredumpReceived p msg grant alloc ret =>
    if (.coredump, p) ∈ s.core then do
      let (layer, outcome) ← coredumpReceived kmallocMaxSize s.dump.layer msg grant
      let s := { giveBack s .coredump p with dump := record s.dump layer outcome }
      some (packetFree (answer s alloc ret outcome) p)
    else none
  | .enableSet enable alloc ret => some (logEnableSet s enable alloc ret)
  | .levelSet alloc ret => some (logLevelSet s alloc ret)
  | .levelGet alloc ret => some (logLevelGet s alloc ret)
  | .coredumpForce alloc ret => some (debugCoredumpForce s alloc ret).1
  | .timer alloc ret =>
    if s.dump.layer.timer then some (coredumpSendRcvStatus { s with dump := timerStep s.dump } alloc ret).1 else none

/-! The property. -/

/-- The core has the packet. -/
def Packets.Has (s : Packets) (p : Nat) : Prop := ∃ layer, (layer, p) ∈ s.core

/-- Every packet allocated is with the core and not freed, or not with the core and freed once. -/
def Conserved (s : Packets) : Prop :=
  ∀ p < s.allocated, s.Has p ∧ s.freed p = 0 ∨ ¬s.Has p ∧ s.freed p = 1

/-- The message is the last body of a dump, and fits. -/
def LastBody (layer : CoredumpLayer) (msg : Message) : Prop :=
  msg.status = 0 ∧ ∃ body, msg.data = coredumpBodyNtf :: body ∧ layer.coredumpData.isSome = true ∧
    layer.coredumpDataWrIdx + body.length = layer.coredumpSize

/-- No request of the coredump layer is refused. -/
def Accepted (s : Packets) : PacketAct → Prop
  | .coredumpReceived p msg _ alloc ret => (.coredump, p) ∈ s.core → LastBody s.dump.layer msg → alloc = .granted → ret = 0
  | .coredumpForce alloc ret => alloc = .granted → ret = 0
  | .timer alloc ret => s.dump.layer.timer = true → alloc = .granted → ret = 0
  | _ => True

/-- What holds of the packets in any case. -/
structure Sound (s : Packets) : Prop where
  held : ∀ p, s.Has p → p < s.allocated ∧ s.freed p = 0
  distinct : (s.core.map Prod.snd).Nodup
  fresh : ∀ p, s.allocated ≤ p → s.freed p = 0

section Moves
variable {s : Packets} {layer : Layer} {p q : Nat} {alloc : Alloc} {ret : Int}

/-! The ways a packet can go. -/

theorem has_coreTake : (coreTake s layer p).Has q ↔ s.Has q ∨ q = p := by
  simp [Packets.Has, coreTake, exists_or]

theorem Sound.fresh_free (h : Sound s) : ¬s.Has s.allocated := fun hhas => Nat.lt_irrefl _ (h.held _ hhas).1

/-- What the core gives back it no longer has. -/
theorem has_giveBack (h : Sound s) (hp : (layer, p) ∈ s.core) : (giveBack s layer p).Has q ↔ s.Has q ∧ q ≠ p := by
  have hnodup : s.core.Nodup := .of_map _ h.distinct
  constructor
  · rintro ⟨l, hl⟩
    obtain ⟨hne, hmem⟩ := hnodup.mem_erase_iff.mp hl
    refine ⟨⟨l, hmem⟩, fun heq => hne ?_⟩
    exact List.inj_on_of_nodup_map h.distinct hmem hp heq
  · rintro ⟨⟨l, hl⟩, hne⟩
    refine ⟨l, hnodup.mem_erase_iff.mpr ⟨fun heq => hne ?_, hl⟩⟩
    exact congrArg Prod.snd heq

/-- A packet that the core takes. -/
def accept (s : Packets) (layer : Layer) : Packets := coreTake { s with allocated := s.allocated + 1 } layer s.allocated

/-- A packet that is freed at once. -/
def discard (s : Packets) : Packets := packetFree { s with allocated := s.allocated + 1 } s.allocated

/-- A packet that nobody has. -/
def leak (s : Packets) : Packets := { s with allocated := s.allocated + 1 }

/-- A packet that comes back and is freed. -/
def retire (s : Packets) (layer : Layer) (p : Nat) : Packets := packetFree (giveBack s layer p) p

theorem Sound.leak (h : Sound s) : Sound (leak s) := by
  refine ⟨fun p hp => ?_, h.distinct, fun p hp => h.fresh p (Nat.le_of_succ_le hp)⟩
  obtain ⟨hlt, hfree⟩ := h.held p hp
  exact ⟨Nat.lt_succ_of_lt hlt, hfree⟩

theorem Sound.accept (h : Sound s) : Sound (accept s layer) := by
  refine ⟨fun p hp => ?_, ?_, fun p hp => h.fresh p (Nat.le_of_succ_le hp)⟩
  · rcases has_coreTake.mp hp with hold | rfl
    · exact h.leak.held p hold
    · exact ⟨Nat.lt_succ_self _, h.fresh _ (Nat.le_refl _)⟩
  · have hnew : s.allocated ∉ s.core.map Prod.snd := by
      intro hmem
      obtain ⟨⟨l, q⟩, hl, rfl⟩ := List.mem_map.mp hmem
      exact Nat.lt_irrefl _ (h.held _ ⟨l, hl⟩).1
    have hnodup : ((s.core ++ [(layer, s.allocated)]).map Prod.snd).Nodup := by
      rw [List.map_append]
      exact h.distinct.append (List.nodup_singleton _) (by simpa using hnew)
    exact hnodup

theorem Sound.discard (h : Sound s) : Sound (discard s) := by
  refine ⟨fun p hp => ?_, h.distinct, fun p hp => ?_⟩
  · obtain ⟨hlt, hfree⟩ := h.held p hp
    refine ⟨Nat.lt_succ_of_lt hlt, ?_⟩
    exact (Function.update_of_ne (Nat.ne_of_lt hlt) _ _).trans hfree
  · have hlt : s.allocated < p := hp
    exact (Function.update_of_ne (Nat.ne_of_gt hlt) _ _).trans (h.fresh p (Nat.le_of_lt hlt))

theorem Sound.retire (h : Sound s) (hp : (layer, p) ∈ s.core) : Sound (retire s layer p) := by
  refine ⟨fun q hq => ?_, ?_, fun q hq => ?_⟩
  · obtain ⟨hold, hne⟩ := (has_giveBack h hp).mp hq
    obtain ⟨hlt, hfree⟩ := h.held q hold
    exact ⟨hlt, (Function.update_of_ne hne _ _).trans hfree⟩
  · exact h.distinct.sublist (List.erase_sublist.map _)
  · have hlt : p < s.allocated := (h.held p ⟨layer, hp⟩).1
    have hne : q ≠ p := fun heq => by subst heq; exact absurd hq (Nat.not_le_of_lt hlt)
    exact (Function.update_of_ne hne _ _).trans (h.fresh q hq)

theorem Conserved.accept (hs : Sound s) (h : Conserved s) : Conserved (accept s layer) := by
  intro q hq
  rcases Nat.lt_succ_iff_lt_or_eq.mp hq with hlt | rfl
  · have hhas : (Driver.accept s layer).Has q ↔ s.Has q :=
      has_coreTake.trans (or_iff_left (Nat.ne_of_lt hlt))
    rw [hhas]
    exact h q hlt
  · exact .inl ⟨has_coreTake.mpr (.inr rfl), hs.fresh _ (Nat.le_refl _)⟩

theorem Conserved.discard (hs : Sound s) (h : Conserved s) : Conserved (discard s) := by
  intro q hq
  rcases Nat.lt_succ_iff_lt_or_eq.mp hq with hlt | rfl
  · have hfreed : (Driver.discard s).freed q = s.freed q := Function.update_of_ne (Nat.ne_of_lt hlt) _ _
    rw [hfreed]
    exact h q hlt
  · refine .inr ⟨hs.fresh_free, ?_⟩
    simp [Driver.discard, packetFree, hs.fresh]

theorem not_conserved_leak (hs : Sound s) : ¬Conserved (leak s) := by
  intro h
  rcases h s.allocated (Nat.lt_succ_self _) with ⟨hhas, -⟩ | ⟨-, hfreed⟩
  · exact hs.fresh_free hhas
  · exact absurd ((hs.fresh _ (Nat.le_refl _)).symm.trans hfreed) (by decide)

theorem Conserved.retire (hs : Sound s) (h : Conserved s) (hp : (layer, p) ∈ s.core) : Conserved (retire s layer p) := by
  intro q hq
  have hhas : (Driver.retire s layer p).Has q ↔ s.Has q ∧ q ≠ p := has_giveBack hs hp
  rw [hhas]
  by_cases heq : q = p
  · subst heq
    refine .inr ⟨fun hnot => hnot.2 rfl, ?_⟩
    simp [Driver.retire, packetFree, giveBack, (hs.held q ⟨layer, hp⟩).2]
  · have hfreed : (Driver.retire s layer p).freed q = s.freed q := Function.update_of_ne heq _ _
    rw [hfreed, and_iff_left heq]
    exact h q hq

/-! What the functions do. -/

theorem blockGet_eq : blockGet layer s alloc =
    match alloc with
    | .noPacket => s
    | .noBlock => discard s
    | .granted => accept s layer := by
  cases alloc <;> rfl

theorem logRequest_eq : (logRequest s alloc ret).1 =
    match alloc with
    | .noPacket => s
    | .noBlock => discard s
    | .granted => if ret = 0 then accept s .log else discard s := by
  cases alloc with
  | granted =>
    by_cases hret : ret = 0
    · simp [logRequest, packetAlloc, hsspiSend, accept, hret]
    · simp [logRequest, packetAlloc, hsspiSend, discard, hret]
  | _ => rfl

theorem coredumpRequest_eq : (coredumpRequest s alloc ret).1 =
    match alloc with
    | .noPacket => s
    | .noBlock => discard s
    | .granted => if ret = 0 then accept s .coredump else leak s := by
  cases alloc <;> rfl

theorem Sound.blockGet (h : Sound s) : Sound (blockGet layer s alloc) := by
  rw [blockGet_eq]
  cases alloc with
  | noPacket => exact h
  | noBlock => exact h.discard
  | granted => exact h.accept

theorem Sound.logRequest (h : Sound s) : Sound (logRequest s alloc ret).1 := by
  rw [logRequest_eq]
  cases alloc with
  | noPacket => exact h
  | noBlock => exact h.discard
  | granted =>
    dsimp only
    split
    · exact h.accept
    · exact h.discard

theorem Sound.coredumpRequest (h : Sound s) : Sound (coredumpRequest s alloc ret).1 := by
  rw [coredumpRequest_eq]
  cases alloc with
  | noPacket => exact h
  | noBlock => exact h.discard
  | granted =>
    dsimp only
    split
    · exact h.accept
    · exact h.leak

theorem Conserved.blockGet (hs : Sound s) (h : Conserved s) : Conserved (blockGet layer s alloc) := by
  rw [blockGet_eq]
  cases alloc with
  | noPacket => exact h
  | noBlock => exact h.discard hs
  | granted => exact h.accept hs

/-- A refused request of the log layer is freed. -/
theorem Conserved.logRequest (hs : Sound s) (h : Conserved s) : Conserved (logRequest s alloc ret).1 := by
  rw [logRequest_eq]
  cases alloc with
  | noPacket => exact h
  | noBlock => exact h.discard hs
  | granted =>
    dsimp only
    split
    · exact h.accept hs
    · exact h.discard hs

/-- A refused request of the coredump layer is lost. -/
theorem conserved_coredumpRequest (hs : Sound s) (h : Conserved s) (alloc : Alloc) (ret : Int) :
    Conserved (coredumpRequest s alloc ret).1 ↔ (alloc = .granted → ret = 0) := by
  rw [coredumpRequest_eq]
  cases alloc with
  | noPacket => exact iff_of_true h fun h => nomatch h
  | noBlock => exact iff_of_true (h.discard hs) fun h => nomatch h
  | granted =>
    dsimp only
    by_cases hret : ret = 0
    · rw [if_pos hret]
      exact iff_of_true (h.accept hs) fun _ => hret
    · rw [if_neg hret]
      exact iff_of_false (not_conserved_leak hs) fun hacc => hret (hacc rfl)

/-- The block may be freed before the answer as well. -/
theorem packetFree_request (hp : p < s.allocated) :
    packetFree (coredumpRequest s alloc ret).1 p = (coredumpRequest (packetFree s p) alloc ret).1 := by
  rw [coredumpRequest_eq, coredumpRequest_eq]
  cases alloc with
  | noPacket => rfl
  | noBlock =>
    have hne : p ≠ s.allocated := Nat.ne_of_lt hp
    simp [discard, packetFree, Function.update_of_ne hne, Function.update_of_ne hne.symm, Function.update_comm hne.symm]
  | granted =>
    dsimp only
    split <;> rfl

theorem packetFree_answer {outcome : Outcome} (hp : p < s.allocated) :
    packetFree (answer s alloc ret outcome) p = answer (packetFree s p) alloc ret outcome := by
  unfold answer
  split
  · exact packetFree_request hp
  · rfl

theorem enableSet_cases (s : Packets) (enable : Bool) (alloc : Alloc) (ret : Int) : logEnableSet s enable alloc ret = s ∨
    ∃ enabled, logEnableSet s enable alloc ret = { (logRequest s alloc ret).1 with enabled := enabled } := by
  unfold logEnableSet
  split
  · exact .inl rfl
  · right
    split
    · next heq => exact ⟨enable, by rw [heq]⟩
    · next t r _ heq => exact ⟨t.enabled, by rw [heq]⟩

theorem Sound.enableSet (h : Sound s) (enable : Bool) : Sound (logEnableSet s enable alloc ret) := by
  rcases enableSet_cases s enable alloc ret with heq | ⟨enabled, heq⟩
  · rw [heq]
    exact h
  · rw [heq]
    have hreq : Sound (Driver.logRequest s alloc ret).1 := h.logRequest
    exact ⟨hreq.held, hreq.distinct, hreq.fresh⟩

theorem Conserved.enableSet (hs : Sound s) (h : Conserved s) (enable : Bool) :
    Conserved (logEnableSet s enable alloc ret) := by
  rcases enableSet_cases s enable alloc ret with heq | ⟨enabled, heq⟩
  · rw [heq]
    exact h
  · rw [heq]
    exact h.logRequest hs

end Moves

/-! One step. -/

/-- A message has a status sent exactly if it is the last body. -/
theorem received_sends {kmallocMaxSize : Nat} {layer layer' : CoredumpLayer} {msg : Message} {grant : Option Grant}
    {outcome : Outcome} (hr : Received kmallocMaxSize layer msg grant layer' outcome) :
    LastBody layer msg ↔ ∃ body ack, outcome = .body body (some ack) := by
  cases hr with
  | unread h =>
    refine iff_of_false ?_ fun ⟨_, _, h⟩ => nomatch h
    rintro ⟨hstatus, body, hdata, -⟩
    rcases h with h | h
    · exact h hstatus
    · rw [hdata] at h
      cases h
  | refused hstatus hdata hnot =>
    refine iff_of_false ?_ fun ⟨_, _, h⟩ => nomatch h
    rintro ⟨-, body, hdata', hbuf, hfull⟩
    cases hdata.symm.trans hdata'
    exact hnot (.inr ⟨rfl, hbuf, Nat.le_of_eq hfull⟩)
  | header hstatus hdata hhdr =>
    refine iff_of_false ?_ fun ⟨_, _, h⟩ => nomatch h
    rintro ⟨-, body, hdata', -⟩
    exact absurd (List.cons.inj (hdata.symm.trans hdata')).1 (by decide)
  | part hstatus hdata hbuf hlt =>
    refine iff_of_false ?_ fun ⟨_, _, h⟩ => nomatch h
    rintro ⟨-, body, hdata', -, hfull⟩
    cases hdata.symm.trans hdata'
    exact Nat.ne_of_lt hlt hfull
  | last hstatus hdata hbuf hfull hack =>
    exact iff_of_true ⟨hstatus, _, hdata, by rw [hbuf]; rfl, hfull⟩ ⟨_, _, rfl⟩

section Step
variable {kmallocMaxSize : Nat} {s s' : Packets} {a : PacketAct}

/-- The packets are sound, and the buffer of the dump in order. -/
structure InOrder (kmallocMaxSize : Nat) (s : Packets) : Prop where
  sound : Sound s
  dump : Assembled kmallocMaxSize s.dump

theorem giveBack_some {layer : Layer} {p : Nat} :
    (if (layer, p) ∈ s.core then some (packetFree (giveBack s layer p) p) else none) = some s' ↔
      (layer, p) ∈ s.core ∧ s' = retire s layer p := by
  simp [retire, eq_comm]

/-- A received coredump block is freed, and its message answered. -/
theorem coredumpReceived_some {p : Nat} {msg : Message} {grant : Option Grant} {alloc : Alloc} {ret : Int}
    (hs : Sound s) : packetStep kmallocMaxSize s (.coredumpReceived p msg grant alloc ret) = some s' ↔
      (.coredump, p) ∈ s.core ∧ ∃ layer outcome,
        coredumpReceived kmallocMaxSize s.dump.layer msg grant = some (layer, outcome) ∧
        s' = answer { retire s .coredump p with dump := record s.dump layer outcome } alloc ret outcome := by
  by_cases hp : (Layer.coredump, p) ∈ s.core
  · have hlt : p < s.allocated := (hs.held p ⟨.coredump, hp⟩).1
    have hfree : ∀ layer outcome,
        packetFree (answer { giveBack s .coredump p with dump := record s.dump layer outcome } alloc ret outcome) p =
          answer { retire s .coredump p with dump := record s.dump layer outcome } alloc ret outcome :=
      fun _ _ => packetFree_answer hlt
    simp only [packetStep, hp, if_true, true_and, Option.bind_eq_bind, Option.bind_eq_some_iff, hfree,
      Option.some.injEq, Prod.exists, eq_comm (a := s')]
  · simp [packetStep, hp]

theorem timer_some {alloc : Alloc} {ret : Int} : packetStep kmallocMaxSize s (.timer alloc ret) = some s' ↔
    s.dump.layer.timer = true ∧ s' = (coredumpRequest { s with dump := timerStep s.dump } alloc ret).1 := by
  simp [packetStep, coredumpSendRcvStatus, eq_comm (a := s')]

theorem coredumpRequest_dump {alloc : Alloc} {ret : Int} : (coredumpRequest s alloc ret).1.dump = s.dump := by
  rw [coredumpRequest_eq]
  cases alloc with
  | granted =>
    dsimp only
    split <;> rfl
  | _ => rfl

theorem logRequest_dump {alloc : Alloc} {ret : Int} : (logRequest s alloc ret).1.dump = s.dump := by
  rw [logRequest_eq]
  cases alloc with
  | granted =>
    dsimp only
    split <;> rfl
  | _ => rfl

theorem answer_dump {alloc : Alloc} {ret : Int} {outcome : Outcome} : (answer s alloc ret outcome).dump = s.dump := by
  unfold answer
  split
  · exact coredumpRequest_dump
  · rfl

/-- The state with another dump. -/
theorem Sound.withDump (h : Sound s) (dump : Dump) : Sound { s with dump := dump } := ⟨h.held, h.distinct, h.fresh⟩

theorem Conserved.withDump (h : Conserved s) (dump : Dump) : Conserved { s with dump := dump } := h

theorem Sound.answer {alloc : Alloc} {ret : Int} (h : Sound s) (outcome : Outcome) : Sound (answer s alloc ret outcome) := by
  unfold Driver.answer
  split
  · exact h.coredumpRequest
  · exact h

theorem InOrder.step (hmax : kmallocMaxSize < 2147483648) (h : InOrder kmallocMaxSize s)
    (hstep : packetStep kmallocMaxSize s a = some s') : InOrder kmallocMaxSize s' := by
  cases a with
  | get layer alloc =>
    cases hstep
    refine ⟨h.sound.blockGet, ?_⟩
    rw [blockGet_eq]
    cases alloc <;> exact h.dump
  | sent layer p =>
    obtain ⟨hp, rfl⟩ := giveBack_some.mp hstep
    exact ⟨h.sound.retire hp, h.dump⟩
  | logReceived p =>
    obtain ⟨hp, rfl⟩ := giveBack_some.mp hstep
    exact ⟨h.sound.retire hp, h.dump⟩
  | coredumpReceived p msg grant alloc ret =>
    obtain ⟨hp, layer, outcome, hrec, rfl⟩ := (coredumpReceived_some h.sound).mp hstep
    -- what the layer did is one of the five things of `Received`
    obtain ⟨layer', outcome', hrec', hr⟩ := coredumpReceived_spec hmax h.dump.toBacked msg grant
    cases hrec.symm.trans hrec'
    refine ⟨((h.sound.retire hp).withDump _).answer outcome, ?_⟩
    rw [answer_dump]
    exact h.dump.record hr
  | enableSet enable alloc ret =>
    cases hstep
    refine ⟨h.sound.enableSet enable, ?_⟩
    rcases enableSet_cases s enable alloc ret with heq | ⟨enabled, heq⟩
    · rw [heq]
      exact h.dump
    · rw [heq, logRequest_dump]
      exact h.dump
  | levelSet alloc ret =>
    cases hstep
    exact ⟨h.sound.logRequest, by rw [logLevelSet, logRequest_dump]; exact h.dump⟩
  | levelGet alloc ret =>
    cases hstep
    exact ⟨h.sound.logRequest, by rw [logLevelGet, logRequest_dump]; exact h.dump⟩
  | coredumpForce alloc ret =>
    cases hstep
    exact ⟨h.sound.coredumpRequest, by rw [debugCoredumpForce, coredumpRequest_dump]; exact h.dump⟩
  | timer alloc ret =>
    obtain ⟨-, rfl⟩ := timer_some.mp hstep
    exact ⟨(h.sound.withDump _).coredumpRequest, by rw [coredumpRequest_dump]; exact h.dump.timer⟩

/-- What conserves the packets in one step. -/
theorem accepted_iff (hmax : kmallocMaxSize < 2147483648) (hs : InOrder kmallocMaxSize s) (h : Conserved s) :
    Accepted s a ↔ ∀ s', packetStep kmallocMaxSize s a = some s' → Conserved s' := by
  cases a with
  -- the upper layers give every packet back; a packet is lost only in a refused request of the coredump layer
  | get layer alloc =>
    refine iff_of_true trivial fun s' hstep => ?_
    cases hstep
    exact h.blockGet hs.sound
  | sent layer p =>
    refine iff_of_true trivial fun s' hstep => ?_
    obtain ⟨hp, rfl⟩ := giveBack_some.mp hstep
    exact h.retire hs.sound hp
  | logReceived p =>
    refine iff_of_true trivial fun s' hstep => ?_
    obtain ⟨hp, rfl⟩ := giveBack_some.mp hstep
    exact h.retire hs.sound hp
  | coredumpReceived p msg grant alloc ret =>
    obtain ⟨layer, outcome, hrec, hr⟩ := coredumpReceived_spec hmax hs.dump.toBacked msg grant
    have hsends := received_sends hr
    have hstep : ∀ s', packetStep kmallocMaxSize s (.coredumpReceived p msg grant alloc ret) = some s' ↔
        (.coredump, p) ∈ s.core ∧
          s' = answer { retire s .coredump p with dump := record s.dump layer outcome } alloc ret outcome := by
      intro s'
      rw [coredumpReceived_some hs.sound, hrec]
      simp
    have hanswer : (.coredump, p) ∈ s.core →
        (Conserved (answer { retire s .coredump p with dump := record s.dump layer outcome } alloc ret outcome) ↔
          (LastBody s.dump.layer msg → alloc = .granted → ret = 0)) := by
      intro hp
      have hsound := (hs.sound.retire hp).withDump (record s.dump layer outcome)
      have hcons := (h.retire hs.sound hp).withDump (record s.dump layer outcome)
      rw [hsends]
      unfold answer
      split
      -- the one answer: the status of a dump, sent at its last body
      · next body ack =>
        refine (conserved_coredumpRequest hsound hcons _ _).trans ⟨fun hacc _ => hacc, fun hacc => hacc ⟨_, _, rfl⟩⟩
      · next hnot => exact iff_of_true hcons fun ⟨body, ack, heq⟩ => absurd heq (hnot body ack)
    constructor
    · intro hacc s' h1
      obtain ⟨hp, rfl⟩ := (hstep s').mp h1
      exact (hanswer hp).mpr (hacc hp)
    · exact fun hall hp => (hanswer hp).mp (hall _ ((hstep _).mpr ⟨hp, rfl⟩))
  | enableSet enable alloc ret =>
    refine iff_of_true trivial fun s' hstep => ?_
    cases hstep
    exact h.enableSet hs.sound enable
  | levelSet alloc ret =>
    refine iff_of_true trivial fun s' hstep => ?_
    cases hstep
    exact h.logRequest hs.sound
  | levelGet alloc ret =>
    refine iff_of_true trivial fun s' hstep => ?_
    cases hstep
    exact h.logRequest hs.sound
  | coredumpForce alloc ret =>
    have hforce := conserved_coredumpRequest hs.sound h alloc ret
    constructor
    · rintro hacc s' hstep
      cases hstep
      exact hforce.mpr hacc
    · exact fun hall => hforce.mp (hall _ rfl)
  | timer alloc ret =>
    have htimer := conserved_coredumpRequest (hs.sound.withDump (timerStep s.dump)) (h.withDump _) alloc ret
    constructor
    · rintro hacc s' hstep
      obtain ⟨hpending, rfl⟩ := timer_some.mp hstep
      exact htimer.mpr (hacc hpending)
    · exact fun hall hpending => htimer.mp (hall _ (timer_some.mpr ⟨hpending, rfl⟩))

end Step

/-- Over any sequence of callbacks, commands and expiries the packets are conserved exactly where no
request of the coredump layer is refused. -/
theorem conserved_iff {kmallocMaxSize : Nat} (hmax : kmallocMaxSize < 2147483648) (acts : List PacketAct) :
    (∀ done s, done <+: acts → run (packetStep kmallocMaxSize) packetsInit done = some s → Conserved s) ↔
      Meets (packetStep kmallocMaxSize) Accepted packetsInit acts := by
  have hinit : InOrder kmallocMaxSize packetsInit := by
    refine ⟨⟨fun p hp => ?_, List.nodup_nil, fun _ _ => rfl⟩, assembled_init⟩
    obtain ⟨l, hl⟩ := hp
    cases hl
  have hcons : Conserved packetsInit := fun p hp => absurd hp (Nat.not_lt_zero p)
  have hiff := meets_iff_of_preserves (C := Accepted) (I := Conserved) (J := InOrder kmallocMaxSize)
    (fun _ _ _ hs h => hs.step hmax h) (fun _ _ hs h => accepted_iff hmax hs h) hinit hcons acts
  exact hiff.symm

/-- Requests of the log layer, one of them refused, and a coredump that is accepted. -/
def requests : List PacketAct :=
  [.enableSet true .granted 0, .levelGet .granted (-11), .sent .log 0, .coredumpForce .granted 0, .get .coredump .granted]

theorem conserved_requests : 4194304 < 2147483648 ∧
    ∀ done s, done <+: requests → run (packetStep 4194304) packetsInit done = some s → Conserved s := by
  have hm : Meets (packetStep 4194304) Accepted packetsInit requests :=
    .of_mem fun a ha s => by
      simp only [requests, List.mem_cons, List.not_mem_nil, or_false] at ha
      rcases ha with rfl | rfl | rfl | rfl | rfl <;> simp [Accepted]
  exact ⟨by decide, (conserved_iff (by decide) requests).mpr hm⟩

/-- A coredump is forced while HSSPI is stopped. -/
theorem not_conserved : ¬∀ (acts : List PacketAct) (s : Packets),
    run (packetStep 4194304) packetsInit acts = some s → Conserved s := by
  intro h
  have hforced := h [.coredumpForce .granted (-11)] _ rfl
  exact not_conserved_leak (s := packetsInit) ⟨fun p ⟨l, hl⟩ => (nomatch hl), List.nodup_nil, fun _ _ => rfl⟩ hforced

end Qm35.Driver
