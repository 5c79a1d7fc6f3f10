import Qm35.Rom.Fresh
import Qm35.Rom.Bounds

/- The frames an image is sent in, on each revision. All write frames count, also one
   whose transfer failed. Their data is a beginning of the image, and all of it where the
   loop returns 0; the chunks are full but for the last, and each frame fits and says its
   own length. What carries the induction is the data still to be sent: where a chunk is
   short there is none left, so no other chunk follows it. -/
namespace Qm35.Qmrom

open ByteMem Trace

/-- The bytes of a write frame, whatever came of the transfer. -/
def Event.writeFrame : Event → Option (List UInt8)
  | .xfer tx _ => if tx.head? = some hostWrite then some tx else none
  | _ => none

/-- The write frames, in order. -/
def Machine.writes (m : Machine) : List (List UInt8) := m.log.filterMap Event.writeFrame

/-- The field `len` of a frame. -/
def lenField (frame : List UInt8) : Nat := (frame.getD 2 0).toNat + 256 * (frame.getD 3 0).toNat

/-- The image a loop sends. -/
def DataLoop.data : DataLoop → List UInt8
  | .a0WriteChunks data => data
  | .b0FlashData fw _ _ => fw.data
  | .c0FlashData fw _ _ _ => fw.data

/-- The command in front of the data of each frame. -/
def DataLoop.cmd : DataLoop → List UInt8
  | .a0WriteChunks _ => []
  | .b0FlashData _ cmd _ => [cmd]
  | .c0FlashData _ cmd _ _ => bytes32 cmd.toNat

def DataLoop.chunkSize : DataLoop → Nat
  | .a0WriteChunks _ => chunkSizeA0
  | .b0FlashData _ _ _ => chunkSizeB0
  | .c0FlashData _ _ _ _ => chunkSizeC0

/-- Chunks of the data, cut as a loop that returns `rc` sends them. -/
structure ChunksOf (chunkSize : Nat) (data : List UInt8) (rc : Int) (chunks : List (List UInt8)) : Prop where
  front : chunks.flatten <+: data
  whole : rc = 0 → chunks.flatten = data
  sized : ∀ c ∈ chunks, 1 ≤ c.length ∧ c.length ≤ chunkSize
  full : ∀ c ∈ chunks.dropLast, c.length = chunkSize

/-- A frame that fits and says its own length. -/
structure WellFramed (cmd chunk : List UInt8) : Prop where
  fits : (frameBytes (cmd ++ chunk)).length ≤ maxStcFrameLen
  len : lenField (frameBytes (cmd ++ chunk)) = cmd.length + chunk.length

/-- The loop returns, and has sent the image exactly. -/
def SendsExactly (h : Handle) (loop : DataLoop) (m : Machine) : Prop :=
  ∃ rc m' chunks, loop.run h m = some (rc, m') ∧ ChunksOf loop.chunkSize loop.data rc chunks ∧
    (∀ c ∈ chunks, WellFramed loop.cmd c) ∧
    m'.writes = m.writes ++ chunks.map fun c => frameBytes (loop.cmd ++ c)

/-! Chunks. -/

section Chunks
variable {chunkSize : Nat} {data rest c : List UInt8} {rc : Int} {chunks : List (List UInt8)}

theorem ChunksOf.nil_of_error (h : rc ≠ 0) : ChunksOf chunkSize data rc [] :=
  ⟨List.nil_prefix, fun h0 => absurd h0 h, by simp, by simp⟩

theorem ChunksOf.nil_of_done : ChunksOf chunkSize [] rc [] :=
  ⟨List.nil_prefix, fun _ => rfl, by simp, by simp⟩

/-- Of no data there are no chunks. -/
theorem ChunksOf.eq_nil (h : ChunksOf chunkSize [] rc chunks) : chunks = [] := by
  have hflat : chunks.flatten = [] := List.prefix_nil.mp h.front
  cases chunks with
  | nil => rfl
  | cons c chunks =>
    have hc : c = [] := (List.append_eq_nil_iff.mp hflat).1
    have hlen := (h.sized c List.mem_cons_self).1
    rw [hc] at hlen
    exact absurd hlen (by decide)

/-- A chunk in front, which is full unless nothing is left after it. -/
theorem ChunksOf.cons (hsize : 1 ≤ c.length ∧ c.length ≤ chunkSize) (hfull : rest ≠ [] → c.length = chunkSize)
    (h : ChunksOf chunkSize rest rc chunks) : ChunksOf chunkSize (c ++ rest) rc (c :: chunks) := by
  refine ⟨?_, fun h0 => ?_, ?_, ?_⟩
  · rw [List.flatten_cons]
    exact (List.prefix_append_right_inj c).mpr h.front
  · rw [List.flatten_cons, h.whole h0]
  · intro c' hc'
    rcases List.mem_cons.mp hc' with rfl | hc'
    · exact hsize
    · exact h.sized c' hc'
  · cases chunks with
    | nil => simp
    | cons d chunks =>
      have hrest : rest ≠ [] := by
        rintro rfl
        cases h.eq_nil
      intro c' hc'
      rw [List.dropLast_cons_of_ne_nil (List.cons_ne_nil d chunks)] at hc'
      rcases List.mem_cons.mp hc' with rfl | hc'
      · exact hfull hrest
      · exact h.full c' hc'

/-- A failed transfer of a chunk ends the loop behind it. -/
theorem ChunksOf.single_of_error (h : rc ≠ 0) (hsize : 1 ≤ c.length ∧ c.length ≤ chunkSize) :
    ChunksOf chunkSize (c ++ rest) rc [c] := by
  refine ⟨?_, fun h0 => absurd h0 h, ?_, by simp⟩
  · rw [List.flatten_singleton]
    exact List.prefix_append c rest
  · intro c' hc'
    rw [List.mem_singleton.mp hc']
    exact hsize

theorem wellFramed {cmd : List UInt8} (h : sizeofStc + cmd.length + c.length ≤ maxStcFrameLen) :
    WellFramed cmd c := by
  have hlt : cmd.length + c.length < 65536 := by
    unfold sizeofStc maxStcFrameLen at h
    omega
  constructor
  · have hlen : (frameBytes (cmd ++ c)).length = sizeofStc + cmd.length + c.length := by
      simp [frameBytes, sizeofStc]
      omega
    omega
  · simp only [lenField, frameBytes, bytes16, List.cons_append, List.nil_append, List.getD_cons_succ,
      List.getD_cons_zero, UInt8.toNat_ofNat', List.length_append]
    omega

end Chunks

/-! Loops that send chunks. -/

/-- The program sends chunks of the data, each behind the command, and no other write frame. -/
def SendsChunks (cmd : List UInt8) (chunkSize : Nat) (data : List UInt8) (x : Rom Int) : Prop :=
  Says Machine.writes (fun _ => True) x fun rc _ os =>
    ∃ chunks, ChunksOf chunkSize data rc chunks ∧ os = chunks.map fun c => frameBytes (cmd ++ c)

namespace SendsChunks

variable {cmd data rest c : List UInt8} {chunkSize : Nat} {next : Rom Int}

theorem writes_quiet {e : Event} (h : e.Quiet) : e.writeFrame = none := by
  cases e with
  | xfer tx rc => exact if_neg h
  | wrongResp got expected => exact h.elim
  | _ => rfl

theorem writeFrame_writes {payload : List UInt8} {m m' : Machine} {rc : Int}
    (hx : writeFrame payload m = some (rc, m')) : m'.writes = m.writes ++ [frameBytes payload] := by
  obtain ⟨hlog, -, -⟩ := writeFrame_some hx
  unfold Machine.writes
  rw [hlog, List.filterMap_append]
  rfl

theorem done : SendsChunks cmd chunkSize [] (pure 0) :=
  Says.pure' fun _ _ => ⟨[], .nil_of_done, rfl⟩

/-- A complaint sends nothing and is an error. -/
theorem complaint {got expected : UInt8} {rc : Int} (h : rc ≠ 0) :
    SendsChunks cmd chunkSize data (wrongResp got expected rc) := by
  intro m rc' m' _ hx
  cases (wrongResp_some got expected rc m).symm.trans hx
  refine ⟨[], ?_, [], .nil_of_error h, rfl⟩
  unfold Machine.writes Machine.complain
  rw [List.filterMap_append]
  rfl

theorem listen {α : Type} {x : Rom α} {f : α → Rom Int} (hx : Listens x)
    (hf : ∀ a, SendsChunks cmd chunkSize data (f a)) : SendsChunks cmd chunkSize data (x >>= f) :=
  Silent.followed (hx.silent_part fun _ => writes_quiet) hf

theorem ite' {p : Prop} [Decidable p] {x y : Rom Int} (hx : p → SendsChunks cmd chunkSize data x)
    (hy : ¬p → SendsChunks cmd chunkSize data y) : SendsChunks cmd chunkSize data (if p then x else y) :=
  Says.ite' hx hy

/-- A chunk, and then the rest of the data. -/
theorem chunk (hsize : 1 ≤ c.length ∧ c.length ≤ chunkSize) (hfull : rest ≠ [] → c.length = chunkSize)
    (hnext : SendsChunks cmd chunkSize rest next) :
    SendsChunks cmd chunkSize (c ++ rest) (okThen (writeFrame (cmd ++ c)) next) := by
  intro m rc m' _ hrun
  -- a failed write is the last; after one that went well the rest follows
  rcases okThen_some.mp hrun with ⟨hrc, h1⟩ | ⟨m1, h1, h2⟩
  · exact ⟨_, writeFrame_writes h1, [c], .single_of_error hrc hsize, rfl⟩
  · obtain ⟨os, hos, chunks, hchunks, rfl⟩ := hnext m1 rc m' trivial h2
    refine ⟨frameBytes (cmd ++ c) :: chunks.map fun c => frameBytes (cmd ++ c), ?_, c :: chunks,
      hchunks.cons hsize hfull, rfl⟩
    rw [hos, writeFrame_writes h1, List.append_assoc]
    rfl

end SendsChunks

section Loop
variable {data cmd : List UInt8} {sent chunkSize : Nat}

/-- With more to send, the next chunk has between 1 byte and a chunk's size. -/
theorem chunkAt_sized (hdata : data.length ≤ 2147483647) (hchunk : 0 < chunkSize)
    (hmore : moreToSend data.length sent = true) :
    1 ≤ (chunkAt data sent chunkSize).length ∧ (chunkAt data sent chunkSize).length ≤ chunkSize :=
  ⟨List.length_pos_of_ne_nil (chunkAt_ne_nil hdata hchunk hmore), chunkAt_length_le data sent chunkSize⟩

/-- It is full unless it is the last. -/
theorem chunkAt_full (hdata : data.length ≤ 2147483647)
    (hrest : data.drop (sent + txBytes data.length sent chunkSize) ≠ []) :
    (chunkAt data sent chunkSize).length = chunkSize := by
  have hlt : sent + txBytes data.length sent chunkSize < data.length := by
    by_contra hge
    exact hrest (List.drop_eq_nil_of_le (by omega))
  unfold chunkAt txBytes u32 at *
  rw [List.length_take, List.length_drop]
  omega

/-- The write of the chunk a loop is at, and then what sends the rest. -/
theorem sendsChunks_pass {next : Rom Int} (hdata : data.length ≤ 2147483647) (hchunk : 0 < chunkSize)
    (hmore : moreToSend data.length sent = true)
    (hnext : SendsChunks cmd chunkSize (data.drop (sent + txBytes data.length sent chunkSize)) next) :
    SendsChunks cmd chunkSize (data.drop sent) (okThen (writeFrame (cmd ++ chunkAt data sent chunkSize)) next) := by
  rw [← chunkAt_append data sent chunkSize]
  exact SendsChunks.chunk (chunkAt_sized hdata hchunk hmore) (chunkAt_full hdata) hnext

/-- A loop whose passes send the chunk they are at. -/
theorem chunkLoop_sendsChunks {pass : Nat → Rom Int → Rom Int} (hdata : data.length ≤ 2147483647)
    (hpass : ∀ sent next, moreToSend data.length sent = true →
      SendsChunks cmd chunkSize (data.drop (sent + txBytes data.length sent chunkSize)) next →
      SendsChunks cmd chunkSize (data.drop sent) (pass sent next)) (fuel sent : Nat) :
    SendsChunks cmd chunkSize (data.drop sent) (chunkLoop data.length chunkSize pass fuel sent) := by
  refine chunkLoop_induct (P := fun sent x => SendsChunks cmd chunkSize (data.drop sent) x)
    (fun sent => fun m a m' _ hx => nomatch hx) (fun sent hmore => ?_) hpass fuel sent
  rw [drop_of_not_more hdata hmore]
  exact SendsChunks.done

end Loop

/-! Each revision. -/

theorem a0WriteChunks_chunks (h : Handle) {data : List UInt8} (hdata : data.length ≤ 2147483647) :
    SendsChunks [] chunkSizeA0 data (qmromA0WriteChunks h data) := by
  refine chunkLoop_sendsChunks hdata (fun sent next hmore hnext => ?_) _ 0
  apply SendsChunks.listen (plain_a0Response h).listens
  intro resp
  apply SendsChunks.ite' (fun _ => SendsChunks.complaint (by decide))
  exact fun _ => sendsChunks_pass hdata (by decide) hmore hnext

theorem b0FlashData_chunks (h : Handle) {fw : Section} (hdata : fw.data.length ≤ 2147483647) (cmd exp : UInt8) :
    SendsChunks [cmd] chunkSizeB0 fw.data (qmromB0FlashData h fw cmd exp) := by
  refine chunkLoop_sendsChunks hdata (fun sent next hmore hnext => ?_) _ 0
  apply SendsChunks.listen (plain_b0PollSoc h).listens
  intro _
  apply SendsChunks.listen plain_preRead.listens
  intro _
  apply SendsChunks.listen plain_read.listens
  intro _
  apply SendsChunks.listen apart_payload0.listens
  intro resp
  apply SendsChunks.ite' (fun _ => SendsChunks.complaint (wrongData_error _))
  exact fun _ => sendsChunks_pass hdata (by decide) hmore hnext

theorem c0FlashData_chunks (h : Handle) {fw : Section} (hdata : fw.data.length ≤ 2147483647) (cmd resp : UInt8)
    (skipLastCheck : Bool) :
    SendsChunks (bytes32 cmd.toNat) chunkSizeC0 fw.data (qmromC0FlashData h fw cmd resp skipLastCheck) := by
  refine chunkLoop_sendsChunks hdata (fun sent next hmore hnext => ?_) _ 0
  unfold c0DataPass qmromWriteSizeCmd32C0 afterReadyLine okThen
  rw [bind_assoc]
  apply SendsChunks.listen apart_readyLine.listens
  intro _
  apply sendsChunks_pass hdata (by decide) hmore
  dsimp only
  apply SendsChunks.ite'
  · -- the last chunk of the image: the rest is empty
    intro hlast
    rw [List.drop_eq_nil_of_le (Nat.le_of_eq hlast.2.1.symm)]
    exact SendsChunks.done
  · intro _
    apply SendsChunks.listen (plain_c0PollSoc h).listens
    intro _
    apply SendsChunks.listen plain_preReadC0.listens
    intro _
    apply SendsChunks.listen plain_readC0.listens
    intro _
    apply SendsChunks.listen apart_payload0.listens
    intro got
    exact SendsChunks.ite' (fun _ => SendsChunks.complaint (wrongData_error _)) fun _ => hnext

/-- Whichever loop it is. -/
theorem DataLoop.chunks (h : Handle) (loop : DataLoop) (hdata : loop.data.length ≤ 2147483647) :
    SendsChunks loop.cmd loop.chunkSize loop.data (loop.run h) := by
  cases loop with
  | a0WriteChunks data => exact a0WriteChunks_chunks h hdata
  | b0FlashData fw cmd exp => exact b0FlashData_chunks h hdata cmd exp
  | c0FlashData fw cmd resp skipLastCheck => exact c0FlashData_chunks h hdata cmd resp skipLastCheck

theorem DataLoop.safe (h : Handle) (loop : DataLoop) (hdata : loop.data.length ≤ 2147483647) :
    Safe (loop.run h) := by
  cases loop with
  | a0WriteChunks data => exact (acts_a0WriteChunks h (Nat.not_lt.mpr hdata)).safe not_false
  | b0FlashData fw cmd exp => exact (acts_b0FlashData h (Nat.not_lt.mpr hdata) cmd exp).safe not_false
  | c0FlashData fw cmd resp skipLastCheck => exact (acts_c0FlashData h (Nat.not_lt.mpr hdata) cmd resp skipLastCheck).safe not_false

/-- A full chunk behind the command fills a frame at most. -/
theorem DataLoop.fits (loop : DataLoop) : sizeofStc + loop.cmd.length + loop.chunkSize ≤ maxStcFrameLen := by
  cases loop with
  | a0WriteChunks data => exact (by decide : 4 + 0 + 1016 ≤ 2048)
  | b0FlashData fw cmd exp => exact (by decide : 4 + 1 + 1008 ≤ 2048)
  | c0FlashData fw cmd resp skipLastCheck => exact (by decide : 4 + 4 + 2040 ≤ 2048)

/-- Chunked transmission is exact on every revision, whatever the buffers hold and the device
answers, for an image of less than 2^31 bytes. -/
theorem chunks_exact (h : Handle) (loop : DataLoop) (m : Machine) (hdata : loop.data.length < 2147483648) :
    SendsExactly h loop m := by
  have hle : loop.data.length ≤ 2147483647 := by omega
  obtain ⟨rc, m', hrun⟩ := (loop.safe h hle).some m
  obtain ⟨os, hos, chunks, hchunks, rfl⟩ := loop.chunks h hle m rc m' trivial hrun
  refine ⟨rc, m', chunks, hrun, hchunks, fun c hc => wellFramed ?_, hos⟩
  -- a frame is the header, the command and at most a full chunk
  calc sizeofStc + loop.cmd.length + c.length
      ≤ sizeofStc + loop.cmd.length + loop.chunkSize := Nat.add_le_add_left (hchunks.sized c hc).2 _
    _ ≤ maxStcFrameLen := loop.fits

/-- An image of two chunks for a B0 that asks for each. -/
theorem chunks_exact_two :
    SendsExactly b0Handle twoChunks (machineInit (fun _ => 0) (fun _ => 0) (certDevice 100)) := by
  have hlen : twoChunks.data.length = 1009 := List.length_replicate
  exact chunks_exact b0Handle twoChunks _ (by omega)

end Qm35.Qmrom
