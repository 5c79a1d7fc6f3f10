import Qm35.Rom.A0
import Qm35.Rom.B0
import Qm35.Rom.C0

/- Whether the loops that send the image wait for the device. Before another chunk they
   poll, announce a read and read, and go on where the first payload byte in `sstc` is
   the expected response. Nothing looks at what the three transfers return, and a read
   of nothing, or of more than fits, leaves the byte of an earlier exchange where it is.
   So a chunk is sent on a fresh response only where the byte tells: where every
   exchange either completes with the response in its own payload or ends with another
   byte than the expected one. -/
namespace Qm35.Qmrom

open ByteMem Trace

/-! Exchanges, from what a run hears. -/

/-- What is heard between two chunks: the byte in `payload[0]` after it, and whether another
chunk follows. -/
structure Exchange where
  heard : List Heard
  resp : UInt8
  followed : Bool

/-- The exchanges of a run. `since` is what has been heard since the last chunk, or nothing
where no exchange is due before the first one; `b` is the byte in `payload[0]`. -/
def exchanges (since : Option (List Heard)) (b : UInt8) : List Heard → List Exchange
  | [] =>
    match since with
    | none => []
    | some heard => if heard.isEmpty then [] else [⟨heard, b, false⟩]
  | x :: os =>
    if x.event.isWrite then
      (since.map fun heard => (⟨heard, b, true⟩ : Exchange)).toList ++ exchanges (some []) (x.payload0 b) os
    else exchanges (since.map (· ++ [x])) (x.payload0 b) os

def Event.isXfer : Event → Bool
  | .xfer _ _ => true
  | _ => false

/-- No transfer and no wait for the ready line that has failed. -/
def Event.succeeds : Event → Bool
  | .xfer _ rc => rc == 0
  | .readyLine rc => rc == 0
  | _ => true

/-- The exchange has completed without an error, and its last transfer is a read with the
expected response in its payload. -/
def fresh (expected : UInt8) (heard : List Heard) : Bool :=
  match heard.reverse.dropWhile fun x => !x.event.isXfer with
  | ⟨.xfer tx rc, a⟩ :: before =>
    rc == 0 && tx.head? == some hostRead && decide (sizeofStc < tx.length) && a.bytes sizeofStc == expected &&
      before.all fun x => x.event.succeeds
  | _ => false

/-! The three loops. -/

inductive DataLoop where
  | a0WriteChunks (data : List UInt8)
  | b0FlashData (fw : Section) (cmd exp : UInt8)
  | c0FlashData (fw : Section) (cmd resp : UInt8) (skipLastCheck : Bool)

def DataLoop.run (h : Handle) : DataLoop → Rom Int
  | .a0WriteChunks data => qmromA0WriteChunks h data
  | .b0FlashData fw cmd exp => qmromB0FlashData h fw cmd exp
  | .c0FlashData fw cmd resp skipLastCheck => qmromC0FlashData h fw cmd resp skipLastCheck

def DataLoop.expected : DataLoop → UInt8
  | .a0WriteChunks _ => spiRspWaitForImage
  | .b0FlashData _ _ exp => exp
  | .c0FlashData _ _ resp _ => resp

/-- On the C0 the first chunk is sent at once. -/
def DataLoop.since : DataLoop → Option (List Heard)
  | .c0FlashData _ _ _ _ => none
  | _ => some []

/-- The exchanges of every run of the loop from `m` are in `P`. -/
def EveryExchange (h : Handle) (loop : DataLoop) (m : Machine) (P : Exchange → Prop) : Prop :=
  ∀ rc m' os, loop.run h m = some (rc, m') → m'.heard = m.heard ++ os →
    ∀ x ∈ exchanges loop.since (m.sstc sizeofStc) os, P x

/-- Another chunk is sent only on a fresh response. -/
def Waits (h : Handle) (loop : DataLoop) (m : Machine) : Prop :=
  EveryExchange h loop m fun x => x.followed = true → fresh loop.expected x.heard = true

/-- An exchange that has not brought the expected response ends with another byte. -/
def Tells (h : Handle) (loop : DataLoop) (m : Machine) : Prop :=
  EveryExchange h loop m fun x => fresh loop.expected x.heard = true ∨ x.resp ≠ loop.expected

/-! What the loops do look at: the byte. -/

/-- Where another chunk follows, the byte is the expected one. -/
def Heeded (expected : UInt8) (since : Option (List Heard)) (b : UInt8) (os : List Heard) : Prop :=
  ∀ x ∈ exchanges since b os, x.followed = true → x.resp = expected

section Traces
variable {expected b : UInt8} {since : Option (List Heard)} {xs os : List Heard} {x : Heard}

/-- What is heard before the next chunk belongs to the exchange. -/
theorem exchanges_listen (hq : ∀ x ∈ xs, x.event.Quiet) :
    exchanges since b (xs ++ os) = exchanges (since.map (· ++ xs)) (xs.foldl Heard.payload0 b) os := by
  induction xs generalizing since b with
  | nil => cases since <;> simp
  | cons x xs ih =>
    have hx : x.event.isWrite = false := Event.Quiet.isWrite (hq x List.mem_cons_self)
    rw [List.cons_append, exchanges, hx, if_neg Bool.false_ne_true,
      ih fun x h => hq x (List.mem_cons_of_mem _ h), Option.map_map, List.foldl_cons]
    congr 2
    funext heard
    simp

theorem heeded_listen (hq : ∀ x ∈ xs, x.event.Quiet)
    (h : Heeded expected (since.map (· ++ xs)) (xs.foldl Heard.payload0 b) os) :
    Heeded expected since b (xs ++ os) := by
  unfold Heeded
  rw [exchanges_listen hq]
  exact h

/-- Nothing follows where the run ends. -/
theorem heeded_end (hq : ∀ x ∈ xs, x.event.isWrite = false) : Heeded expected since b xs := by
  induction xs generalizing since b with
  | nil =>
    intro x hx
    cases since with
    | none => cases hx
    | some heard =>
      simp only [exchanges] at hx
      split at hx
      · cases hx
      · rw [List.mem_singleton.mp hx]
        exact fun h => nomatch h
  | cons x xs ih =>
    intro y hy
    rw [exchanges, hq x List.mem_cons_self, if_neg Bool.false_ne_true] at hy
    exact ih (fun x h => hq x (List.mem_cons_of_mem _ h)) y hy

/-- A chunk, where the byte before it is the expected one unless none is due. -/
theorem heeded_write (hw : x.event.isWrite = true) (hb : since.isSome = true → b = expected)
    (h : Heeded expected (some []) (x.payload0 b) os) : Heeded expected since b (x :: os) := by
  intro y hy
  rw [exchanges, if_pos hw] at hy
  rcases List.mem_append.mp hy with hy | hy
  · cases since with
    | none => cases hy
    | some heard =>
      rw [List.mem_singleton.mp hy]
      exact fun _ => hb rfl
  · exact h y hy

end Traces

/-- From a state in `I`, whatever has been heard so far, the program heeds the byte. `due` is
whether an exchange is due before its first chunk. -/
def Heeds (expected : UInt8) (due : Bool) (I : Machine → Prop) (x : Rom Int) : Prop :=
  ∀ since m rc m', since.isSome = due → I m → x m = some (rc, m') →
    ∃ os, m'.heard = m.heard ++ os ∧ Heeded expected since (m.sstc sizeofStc) os

section Programs
variable {expected : UInt8} {due : Bool} {I : Machine → Prop} {next : Rom Int}

/-- The response of a machine whose byte is the expected one. -/
def Expects (expected : UInt8) (m : Machine) : Prop := m.sstc sizeofStc = expected

theorem heeds_pure (rc : Int) : Heeds expected due I (pure rc) := by
  intro since m rc' m' _ _ hx
  obtain ⟨rfl, rfl⟩ := pure_some.mp hx
  exact ⟨[], (List.append_nil _).symm, heeded_end (by simp)⟩

theorem heeds_fuel : Heeds expected due I (ofOption none) := fun _ _ _ _ _ _ hx => nomatch hx

/-- What is heard first, and leads from `I` to `J`. -/
theorem Heeds.listen {α : Type} {x : Rom α} {f : α → Rom Int} {J : Machine → Prop} (hx : Listens x)
    (hJ : ∀ m a m', I m → x m = some (a, m') → J m') (hf : ∀ a, Heeds expected due J (f a)) :
    Heeds expected due I (x >>= f) := by
  intro since m rc m' hdue hm hrun
  obtain ⟨a, m1, h1, h2⟩ := bind_some.mp hrun
  obtain ⟨os, hos, hq, hv, -⟩ := hx m a m1 trivial h1
  obtain ⟨os', hos', hh⟩ := hf a (since.map (· ++ os)) m1 rc m' (by simpa using hdue) (hJ m a m1 hm h1) h2
  have hheard : m1.heard = m.heard ++ os := hos
  have hbyte : m1.sstc sizeofStc = os.foldl Heard.payload0 (m.sstc sizeofStc) := hv
  refine ⟨os ++ os', ?_, ?_⟩
  · rw [hos', hheard, List.append_assoc]
  · rw [hbyte] at hh
    exact heeded_listen hq hh

theorem Heeds.of_listen {α : Type} {x : Rom α} {f : α → Rom Int} (hx : Listens x)
    (hf : ∀ a, Heeds expected due (fun _ => True) (f a)) : Heeds expected due I (x >>= f) :=
  Heeds.listen hx (fun _ _ _ _ _ => trivial) hf

/-- A complaint ends the run. -/
theorem heeds_wrongResp (got expected' : UInt8) (rc : Int) : Heeds expected due I (wrongResp got expected' rc) := by
  intro since m rc' m' _ _ hx
  obtain ⟨_, m1, h1, h2⟩ := bind_some.mp hx
  obtain ⟨rfl, rfl⟩ := pure_some.mp h2
  cases h1
  exact ⟨_, heard_log rfl rfl, heeded_end (by simp [Event.isWrite])⟩

/-- The check of the response. -/
theorem heeds_check {wrong : UInt8 → Rom Int} (hwrong : ∀ got, Heeds expected due (fun _ => True) (wrong got))
    (hnext : Heeds expected due (Expects expected) next) :
    Heeds expected due I (do let resp ← payload0; if resp ≠ expected then wrong resp else next) := by
  intro since m rc m' hdue _ hrun
  obtain ⟨resp, m1, h1, h2⟩ := bind_some.mp hrun
  cases h1
  by_cases hresp : m.sstc sizeofStc = expected
  · rw [if_neg (not_not.mpr hresp)] at h2
    exact hnext since m rc m' hdue hresp h2
  · rw [if_pos hresp] at h2
    exact hwrong _ since m rc m' hdue trivial h2

/-- A chunk, and the rest of the loop where it has been sent. -/
theorem heeds_write (payload : List UInt8) (hI : ∀ m, I m → due = true → Expects expected m)
    (hnext : Heeds expected true (fun _ => True) next) :
    Heeds expected due I (okThen (writeFrame payload) next) := by
  intro since m rc m' hdue hm hrun
  obtain ⟨rc1, m1, h1, h2⟩ := bind_some.mp hrun
  obtain ⟨hlog, hdev, hpay⟩ := writeFrame_some h1
  have hheard := heard_log hlog hdev
  have hb : since.isSome = true → m.sstc sizeofStc = expected := fun hs => hI m hm (hdue.symm.trans hs)
  by_cases hrc : rc1 = 0
  · rw [if_neg (not_not.mpr hrc)] at h2
    obtain ⟨os, hos, hh⟩ := hnext (some []) m1 rc m' rfl trivial h2
    refine ⟨_, ?_, heeded_write rfl hb (hpay ▸ hh)⟩
    rw [hos, hheard, List.append_assoc]
    rfl
  · rw [if_pos hrc] at h2
    obtain ⟨rfl, rfl⟩ := pure_some.mp h2
    exact ⟨_, hheard, heeded_write rfl hb (heeded_end (by simp))⟩

end Programs

/-! Each revision. -/

theorem a0WriteChunks_heeds (h : Handle) (data : List UInt8) :
    Heeds spiRspWaitForImage true (fun _ => True) (qmromA0WriteChunks h data) := by
  refine chunkLoop_induct (P := fun _ x => Heeds spiRspWaitForImage true (fun _ => True) x)
    (fun _ => heeds_fuel) (fun _ _ => heeds_pure 0) (fun sent next _ hnext => ?_) _ 0
  have hloop : a0ChunkPass h data sent next = (do
      qmromA0PollSoc h
      let _ ← qmromPreRead
      bswapLen
      let _ ← qmromRead
      let resp ← payload0
      if resp ≠ spiRspWaitForImage then wrongResp resp spiRspWaitForImage spiProtoWrongResp
      else okThen (qmromA0WriteData (chunkAt data sent chunkSizeA0)) next) := by
    simp only [a0ChunkPass, a0Response, bind_assoc]
  rw [hloop]
  apply Heeds.of_listen (plain_a0PollSoc h).listens
  intro _
  apply Heeds.of_listen plain_preRead.listens
  intro _
  apply Heeds.of_listen apart_bswapLen.listens
  intro _
  apply Heeds.of_listen plain_read.listens
  intro _
  apply heeds_check (fun got => heeds_wrongResp _ _ _)
  exact heeds_write _ (fun _ hm _ => hm) hnext

theorem b0FlashData_heeds (h : Handle) (fw : Section) (cmd exp : UInt8) :
    Heeds exp true (fun _ => True) (qmromB0FlashData h fw cmd exp) := by
  refine chunkLoop_induct (P := fun _ x => Heeds exp true (fun _ => True) x)
    (fun _ => heeds_fuel) (fun _ _ => heeds_pure 0) (fun sent next _ hnext => ?_) _ 0
  apply Heeds.of_listen (plain_b0PollSoc h).listens
  intro _
  apply Heeds.of_listen plain_preRead.listens
  intro _
  apply Heeds.of_listen plain_read.listens
  intro _
  apply heeds_check (fun got => heeds_wrongResp _ _ _)
  exact heeds_write _ (fun _ hm _ => hm) hnext

/-- After a chunk the exchange is due; before the first one none is. -/
theorem c0FlashData_heeds (h : Handle) (fw : Section) (cmd resp : UInt8) (skipLastCheck due : Bool) :
    Heeds resp due (fun m => due = true → Expects resp m) (qmromC0FlashData h fw cmd resp skipLastCheck) := by
  refine chunkLoop_induct (P := fun _ x => ∀ due, Heeds resp due (fun m => due = true → Expects resp m) x)
    (fun _ _ => heeds_fuel) (fun _ _ _ => heeds_pure 0) (fun sent next _ hnext due => ?_) _ 0 due
  unfold c0DataPass qmromWriteSizeCmd32C0 afterReadyLine okThen
  rw [bind_assoc]
  -- the wait before the chunk leaves the byte alone
  apply Heeds.listen (J := fun m => due = true → Expects resp m) apart_readyLine.listens
    fun m a m' hm hx => by cases hx; exact hm
  intro _
  apply heeds_write _ fun _ hm => hm
  dsimp only
  split
  · exact heeds_pure 0
  apply Heeds.of_listen (plain_c0PollSoc h).listens
  intro _
  apply Heeds.of_listen plain_preReadC0.listens
  intro _
  apply Heeds.of_listen plain_readC0.listens
  intro _
  apply heeds_check (fun got => heeds_wrongResp _ _ _)
  intro since m rc m' hdue hm
  exact hnext true since m rc m' hdue fun _ => hm

/-- The byte is heeded, whichever loop it is. -/
theorem DataLoop.heeds (h : Handle) (loop : DataLoop) {m m' : Machine} {rc : Int}
    (hrun : loop.run h m = some (rc, m')) :
    ∃ os, m'.heard = m.heard ++ os ∧ Heeded loop.expected loop.since (m.sstc sizeofStc) os := by
  cases loop with
  | a0WriteChunks data => exact a0WriteChunks_heeds h data (some []) m rc m' rfl trivial hrun
  | b0FlashData fw cmd exp => exact b0FlashData_heeds h fw cmd exp (some []) m rc m' rfl trivial hrun
  | c0FlashData fw cmd resp skipLastCheck =>
    exact c0FlashData_heeds h fw cmd resp skipLastCheck false none m rc m' rfl (fun h => nomatch h) hrun

/-- Another chunk is sent only on a fresh response, where the byte tells. -/
theorem waits_of_tells (h : Handle) (loop : DataLoop) (m : Machine) (htells : Tells h loop m) :
    Waits h loop m := by
  intro rc m' os hrun hos x hx hfollowed
  obtain ⟨os', hos', hheeded⟩ := DataLoop.heeds h loop hrun
  have heq : os' = os := List.append_cancel_left (hos'.symm.trans hos)
  subst heq
  have hresp : x.resp = loop.expected := hheeded x hx hfollowed
  rcases htells rc m' os' hrun hos x hx with hfresh | hne
  · exact hfresh
  · exact absurd hresp hne

/-- Two chunks for a B0. -/
def twoChunks : DataLoop := .b0FlashData ⟨0, List.replicate 1009 7⟩ romCmdB0CertData waitingForFirstKeyCert

def b0Handle : Handle := ⟨10, 0xB0, 5, some .b0⟩

/-- A device that has the response for the key 1 certificate in every answer, and announces one
byte in the first `n` and 65535 in the others. -/
def certDevice (n k : Nat) : Answer where
  rc := 0
  bytes i := if i = 0 then 0x80 else if i = 2 then (if k < n then 1 else 0xff)
    else if i = 3 then (if k < n then 0 else 0xff) else if i = 4 then waitingForFirstKeyCert else 0
  alloc := true

/-- The exchanges of the run: whether each is fresh, and whether a chunk follows. -/
def exchangesOf (dev : Nat → Answer) : Option (List (Bool × Bool)) :=
  (twoChunks.run b0Handle (machineInit (fun _ => 0) (fun _ => 0) dev)).map fun r =>
    (exchanges twoChunks.since 0 r.2.heard).map fun x => (fresh waitingForFirstKeyCert x.heard, x.followed)

theorem exchangesOf_some {dev : Nat → Answer} {l : List (Bool × Bool)} (h : exchangesOf dev = some l) :
    ∃ rc m', twoChunks.run b0Handle (machineInit (fun _ => 0) (fun _ => 0) dev) = some (rc, m') ∧
      (exchanges twoChunks.since 0 m'.heard).map
        (fun x => (fresh waitingForFirstKeyCert x.heard, x.followed)) = l := by
  obtain ⟨⟨rc, m'⟩, hrun, heq⟩ := Option.map_eq_some_iff.mp h
  exact ⟨rc, m', hrun, heq⟩

/-- A device that announces its responses. -/
theorem waits_prompt : Waits b0Handle twoChunks (machineInit (fun _ => 0) (fun _ => 0) (certDevice 100)) := by
  apply waits_of_tells
  intro rc m' os hrun hos x hx
  have heval : exchangesOf (certDevice 100) = some [(true, true), (true, true)] := by decide +kernel
  obtain ⟨rc', m'', hrun', heq⟩ := exchangesOf_some heval
  rw [hrun] at hrun'
  cases hrun'
  have hheard : m'.heard = os := hos
  rw [hheard] at heq
  have hmem : (fresh waitingForFirstKeyCert x.heard, x.followed) ∈ [(true, true), (true, true)] := by
    rw [← heq]
    exact List.mem_map_of_mem hx
  left
  simp only [List.mem_cons, Prod.mk.injEq, List.not_mem_nil, or_false, or_self] at hmem
  exact hmem.1

/-- A device that announces more than fits before the second chunk: the read is refused, and the
chunk is sent on the response to the first exchange. -/
theorem not_waits : ¬∀ h loop m, Waits h loop m := by
  intro hall
  have heval : exchangesOf (certDevice 3) = some [(true, true), (false, true)] := by decide +kernel
  obtain ⟨rc, m', hrun, heq⟩ := exchangesOf_some heval
  have hmem : (false, true) ∈ [(true, true), (false, true)] := by simp
  rw [← heq] at hmem
  obtain ⟨x, hx, hpair⟩ := List.mem_map.mp hmem
  obtain ⟨hfresh, hfollowed⟩ := Prod.mk.inj hpair
  have hwaits := hall b0Handle twoChunks _ rc m' m'.heard hrun rfl x hx hfollowed
  exact absurd (hfresh.symm.trans hwaits) Bool.false_ne_true

end Qm35.Qmrom
