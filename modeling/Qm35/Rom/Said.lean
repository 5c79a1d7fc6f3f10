import Qm35.Rom.Heard

/- What a run says on the bus: the payloads of the write frames that went through, and
   the complaints about responses that were not the expected ones. The other frames
   leave no trace here, so a program that only listens says nothing. -/
namespace Qm35.Qmrom

open ByteMem Trace

inductive Said where
  | write (payload : List UInt8)
  | wrongResp (got expected : UInt8)
deriving DecidableEq

def Event.said : Event → Option Said
  | .xfer tx rc => if rc = 0 ∧ tx.head? = some hostWrite then some (.write (tx.drop sizeofStc)) else none
  | .wrongResp got expected => some (.wrongResp got expected)
  | _ => none

def Machine.said (m : Machine) : List Said := m.log.filterMap Event.said

theorem Event.Quiet.said {e : Event} (h : e.Quiet) : e.said = none := by
  cases e with
  | xfer tx rc => exact if_neg fun hw => h hw.2
  | wrongResp got expected => exact h.elim
  | _ => rfl

theorem said_log {m m' : Machine} {e : Event} (h : m'.log = m.log ++ [e]) :
    m'.said = m.said ++ e.said.toList := by
  unfold Machine.said
  rw [h, List.filterMap_append]
  cases he : e.said <;> simp [he]

abbrev SilentRom {α : Type} (x : Rom α) : Prop := Silent Machine.said x

/-- A program that only listens says nothing. -/
theorem Listens.silent {α : Type} {x : Rom α} (h : Listens x) : SilentRom x :=
  h.silent_part fun _ => Event.Quiet.said

theorem Plain.silent {α : Type} {x : Rom α} (h : Plain x) : SilentRom x := h.listens.silent

/-- A write frame is the payload, said where the transfer went through. -/
theorem writeFrame_said {payload : List UInt8} {m m' : Machine} {rc : Int}
    (hx : writeFrame payload m = some (rc, m')) :
    m'.said = m.said ++ if rc = 0 then [.write payload] else [] := by
  obtain ⟨hlog, -, -⟩ := writeFrame_some hx
  rw [said_log hlog]
  congr 1
  by_cases hrc : rc = 0
  · subst hrc
    rfl
  · rw [if_neg hrc, Event.said, if_neg fun h => hrc h.1]
    rfl

theorem writeFrame_adds (payload : List UInt8) : Says Machine.said (fun _ => True) (writeFrame payload)
    fun rc _ os => os = if rc = 0 then [.write payload] else [] :=
  fun _ _ _ _ hx => ⟨_, writeFrame_said hx, rfl⟩

theorem writeFrame_emits (payload : List UInt8) : Emits Machine.said (writeFrame payload) {[.write payload]} := by
  refine (writeFrame_adds payload).mono (fun _ => id) fun rc _ os hos h0 => ?_
  rw [hos, if_pos h0]
  rfl

/-- After a complaint. -/
def Machine.complain (m : Machine) (got expected : UInt8) : Machine :=
  { m with log := m.log ++ [.wrongResp got expected] }

theorem wrongResp_some (got expected : UInt8) (rc : Int) (m : Machine) :
    wrongResp got expected rc m = some (rc, m.complain got expected) := rfl

theorem complain_said (m : Machine) (got expected : UInt8) :
    (m.complain got expected).said = m.said ++ [.wrongResp got expected] :=
  said_log (e := .wrongResp got expected) rfl

theorem wrongResp_adds (got expected : UInt8) (rc : Int) : Says Machine.said (fun _ => True) (wrongResp got expected rc)
    fun rc' _ os => rc' = rc ∧ os = [.wrongResp got expected] := by
  intro m rc' m' _ hx
  cases (wrongResp_some got expected rc m).symm.trans hx
  exact ⟨_, complain_said m got expected, rfl, rfl⟩

/-- A complaint comes with an error. -/
theorem wrongResp_emits {got expected : UInt8} {rc : Int} {L : Language Said} (h : rc ≠ 0) :
    Emits Machine.said (wrongResp got expected rc) L := by
  refine (wrongResp_adds got expected rc).mono (fun _ => id) fun rc' _ os hos h0 => ?_
  exact absurd (hos.1.symm.trans h0) h

/-! Data sent in chunks. -/

/-- The data in chunks, each behind the command. -/
def chunked (cmd data : List UInt8) : Language Said :=
  {os | ∃ chunks : List (List UInt8), os = chunks.map (fun c => .write (cmd ++ c)) ∧ chunks.flatten = data}

theorem nil_mem_chunked (cmd : List UInt8) : [] ∈ chunked cmd [] := ⟨[], rfl, rfl⟩

/-- A chunk more. -/
theorem cons_mem_chunked {cmd chunk rest : List UInt8} {os : List Said} :
    .write (cmd ++ chunk) :: os ∈ chunked cmd (chunk ++ rest) ↔ os ∈ chunked cmd rest := by
  constructor
  · intro ⟨chunks, hos, hflat⟩
    cases chunks with
    | nil => cases hos
    | cons c chunks =>
      obtain ⟨hfirst, hrest⟩ := List.cons.inj hos
      have hc : chunk = c := List.append_cancel_left (Said.write.inj hfirst)
      rw [List.flatten_cons, ← hc] at hflat
      exact ⟨chunks, hrest, List.append_cancel_left hflat⟩
  · intro ⟨chunks, hos, hflat⟩
    exact ⟨chunk :: chunks, by rw [hos]; rfl, by rw [List.flatten_cons, hflat]⟩

/-- Without a chunk there is no data. -/
theorem nil_mem_chunked_iff {cmd data : List UInt8} : [] ∈ chunked cmd data ↔ data = [] := by
  constructor
  · intro ⟨chunks, hos, hflat⟩
    rw [List.map_eq_nil_iff.mp hos.symm] at hflat
    exact hflat.symm
  · intro h
    rw [h]
    exact nil_mem_chunked cmd

theorem wrongResp_notMem_chunked {cmd data : List UInt8} {got expected : UInt8} {os : List Said} :
    .wrongResp got expected :: os ∉ chunked cmd data := by
  intro ⟨chunks, hos, _⟩
  cases chunks with
  | nil => cases hos
  | cons c chunks => cases (List.cons.inj hos).1

/-- The program sends data behind the command and nothing else, and all of `data` exactly where it
returns 0. -/
def SendsData (cmd data : List UInt8) (x : Rom Int) : Prop :=
  Says Machine.said (fun _ => True) x fun rc _ os =>
    (rc = 0 ↔ os ∈ chunked cmd data) ∧ ∀ payload, .write payload ∈ os → cmd <+: payload

namespace SendsData

variable {cmd data : List UInt8} {next : Rom Int}

theorem emits {x : Rom Int} (h : SendsData cmd data x) : Emits Machine.said x (chunked cmd data) :=
  h.mono (fun _ => id) fun _ _ _ h => h.1.mp

theorem done : SendsData cmd [] (pure 0) := by
  apply Says.pure'
  intro _ _
  exact ⟨iff_of_true rfl (nil_mem_chunked cmd), by simp⟩

/-- A complaint comes with an error. -/
theorem complaint {got expected : UInt8} {rc : Int} (h : rc ≠ 0) : SendsData cmd data (wrongResp got expected rc) := by
  refine (wrongResp_adds got expected rc).mono (fun _ => id) fun rc' _ os hos => ?_
  obtain ⟨rfl, rfl⟩ := hos
  exact ⟨iff_of_false h wrongResp_notMem_chunked, by simp⟩

theorem ite' {c : Prop} [Decidable c] {x y : Rom Int} (hx : c → SendsData cmd data x)
    (hy : ¬c → SendsData cmd data y) : SendsData cmd data (if c then x else y) :=
  Says.ite' hx hy

/-- What is done in silence first. -/
theorem listen {α : Type} {x : Rom α} {f : α → Rom Int} (hx : Listens x) (hf : ∀ a, SendsData cmd data (f a)) :
    SendsData cmd data (x >>= f) :=
  hx.silent.followed hf

/-- A chunk, and then the rest of the data. -/
theorem chunk {rest : List UInt8} {c : List UInt8} (hc : c ≠ []) {x : Rom Int} (hnext : SendsData cmd rest next)
    (hx : Says Machine.said (fun _ => True) x fun rc _ os => os = if rc = 0 then [.write (cmd ++ c)] else []) :
    SendsData cmd (c ++ rest) (okThen x next) := by
  intro m rc m' _ hrun
  rcases okThen_some.mp hrun with ⟨hrc, h1⟩ | ⟨m1, h1, h2⟩
  · -- the transfer has failed, with data left
    obtain ⟨os, hos, hsaid⟩ := hx m rc m' trivial h1
    rw [if_neg hrc] at hsaid
    subst hsaid
    refine ⟨[], hos, iff_of_false hrc fun hmem => ?_, by simp⟩
    exact hc (List.append_eq_nil_iff.mp (nil_mem_chunked_iff.mp hmem)).1
  · obtain ⟨os, hos, hsaid⟩ := hx m 0 m1 trivial h1
    rw [if_pos rfl] at hsaid
    subst hsaid
    obtain ⟨os', hos', hiff, hcmd⟩ := hnext m1 rc m' trivial h2
    refine ⟨.write (cmd ++ c) :: os', ?_, hiff.trans cons_mem_chunked.symm, ?_⟩
    · rw [hos', hos, List.append_assoc]
      rfl
    · intro payload hmem
      rcases List.mem_cons.mp hmem with heq | hmem
      · rw [Said.write.inj heq]
        exact List.prefix_append cmd c
      · exact hcmd payload hmem

end SendsData

/-- The chunk sent next, and what is left after it. -/
theorem chunkAt_append (data : List UInt8) (sent chunkSize : Nat) :
    chunkAt data sent chunkSize ++ data.drop (sent + txBytes data.length sent chunkSize) = data.drop sent := by
  rw [chunkAt, ← List.drop_drop, List.take_append_drop]

/-- With more to send, the chunk is not empty. -/
theorem chunkAt_ne_nil {data : List UInt8} {sent chunkSize : Nat} (hdata : data.length ≤ 2147483647)
    (hchunk : 0 < chunkSize) (hmore : moreToSend data.length sent = true) : chunkAt data sent chunkSize ≠ [] := by
  simp only [moreToSend, Bool.and_eq_true, decide_eq_true_eq] at hmore
  apply List.ne_nil_of_length_pos
  unfold chunkAt txBytes u32
  rw [List.length_take, List.length_drop]
  omega

/-- The loop ends at the end of the data, for what fits an `int`. -/
theorem drop_of_not_more {data : List UInt8} {sent : Nat} (hdata : data.length ≤ 2147483647)
    (h : moreToSend data.length sent = false) : data.drop sent = [] := by
  apply List.drop_eq_nil_of_le
  simp only [moreToSend, Bool.and_eq_false_iff, decide_eq_false_iff_not] at h
  omega

/-- A write of the chunk the loop is at, and then what sends the rest. -/
theorem sends_chunk {cmd data : List UInt8} {sent chunkSize : Nat} {next : Rom Int} (hne : chunkAt data sent chunkSize ≠ [])
    (hnext : SendsData cmd (data.drop (sent + txBytes data.length sent chunkSize)) next) :
    SendsData cmd (data.drop sent) (okThen (writeFrame (cmd ++ chunkAt data sent chunkSize)) next) := by
  rw [← chunkAt_append data sent chunkSize]
  exact SendsData.chunk hne hnext (writeFrame_adds _)

/-- A loop whose passes send the chunk they are at sends the data. -/
theorem chunkLoop_sends {data cmd : List UInt8} {chunkSize : Nat} {pass : Nat → Rom Int → Rom Int}
    (hdata : data.length ≤ 2147483647) (hchunk : 0 < chunkSize)
    (hpass : ∀ sent next, chunkAt data sent chunkSize ≠ [] →
      SendsData cmd (data.drop (sent + txBytes data.length sent chunkSize)) next →
      SendsData cmd (data.drop sent) (pass sent next)) (fuel sent : Nat) :
    SendsData cmd (data.drop sent) (chunkLoop data.length chunkSize pass fuel sent) := by
  refine chunkLoop_induct (P := fun sent x => SendsData cmd (data.drop sent) x)
    (fun sent => fun m a m' _ hx => nomatch hx) (fun sent hmore => ?_)
    (fun sent next hmore => hpass sent next (chunkAt_ne_nil hdata hchunk hmore)) fuel sent
  rw [drop_of_not_more hdata hmore]
  exact SendsData.done

end Qm35.Qmrom
