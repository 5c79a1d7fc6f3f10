import Qm35.Lib.Script
import Qm35.Rom.Chunks
import Qm35.Rom.Identity
import Qm35.Rom.Operations

/- What libqmrom writes to the device, in runs that succeed and in runs that fail. Each
   operation has a script of write frames, which depends on the handle and the file
   alone: the commands, the sizes, and each section cut into chunks. Whatever the device
   answers and wherever the operation gives up, the frames it has written are a beginning
   of that script, a frame whose transfer failed being the last: none is left out, sent
   twice or sent out of turn. Over a session, operation after operation, the beginnings
   stand one behind the other (`session_transcript`).

   The script of an image of the wrong kind is empty: before its load command the flash
   functions look at the key type, and an ICV image goes only to a chip in the
   manufacturing state and an OEM image only to a secure one. So is that of a file that is
   not made of four sections. -/
namespace Qm35.Qmrom

open ByteMem Trace

/-- The frame of each chunk, behind the command. -/
def chunkFrames (cmd : List UInt8) (chunks : List (List UInt8)) : List (List UInt8) :=
  chunks.map fun c => frameBytes (cmd ++ c)

/-- The three certificates and the image. -/
def sectionFrames (cert img : List UInt8) (chunkSize : Nat) (fws : UnstitchedFirmware) : List (List UInt8) :=
  chunkFrames cert (cut chunkSize fws.key1Crt.data) ++ (chunkFrames cert (cut chunkSize fws.key2Crt.data) ++
    (chunkFrames cert (cut chunkSize fws.fwCrt.data) ++ chunkFrames img (cut chunkSize fws.fwImg.data)))

/-- The image is one for the life cycle state of the chip. -/
def keyTypeFits (h : Handle) (key1Crt : Section) : Bool :=
  match key1Crt.data[hbkLoc]? with
  | none => false
  | some hbk => (hbk != hbk2eIcv || h.lcsState == ccBsvChipManufactureLcs) &&
      (hbk != hbk2eOem || h.lcsState == ccBsvSecureLcs)

/-! The scripts. -/

def a0Script (fw : Firmware) : List (List UInt8) :=
  [frameBytes [romCmdA0DownloadRramCmd]] ++ ([frameBytes [0], frameBytes [0], frameBytes [0]] ++
    ([frameBytes (bytes32 fw.data.length)] ++ chunkFrames [] (cut chunkSizeA0 fw.data)))

def b0Script (h : Handle) (fws : UnstitchedFirmware) : List (List UInt8) :=
  if keyTypeFits h fws.key1Crt then
    [frameBytes [b0FlashCmd h]] ++ sectionFrames [romCmdB0CertData] [romCmdB0SecImageData] chunkSizeB0 fws
  else []

def c0Script (h : Handle) (fws : UnstitchedFirmware) : List (List UInt8) :=
  if keyTypeFits h fws.key1Crt then
    ([frameBytes (bytes32 romCmdC0UseIndirectRramWr)] ++ [frameBytes (bytes32 (c0FlashCmd h))]) ++
      sectionFrames (bytes32 romCmdC0CertData.toNat) (bytes32 romCmdC0SecImageData.toNat) chunkSizeC0 fws
  else []

/-- The script of `qmrom_flash_fw`. -/
inductive FlashScript (h : Handle) (fw : Firmware) : List (List UInt8) → Prop
  | a0 : h.flashFw = some .a0 → FlashScript h fw (a0Script fw)
  | b0 (fws : UnstitchedFirmware) : h.flashFw = some .b0 → fw.data = stitched fws → FlashScript h fw (b0Script h fws)
  | c0 (fws : UnstitchedFirmware) : h.flashFw = some .c0 → fw.data = stitched fws → FlashScript h fw (c0Script h fws)
  | garbled : h.flashFw ≠ some .a0 → (∀ fws, fw.data ≠ stitched fws) → FlashScript h fw []

/-- The script of `qmrom_flash_dbg_cert`. -/
def certScript (h : Handle) (cert : Firmware) : List (List UInt8) :=
  match h.flashFw with
  | some .b0 => [frameBytes [romCmdB0WriteDbgCert]] ++
      ([frameBytes ([romCmdB0DebugCertSize] ++ bytes32 cert.data.length)] ++
        chunkFrames [romCmdB0CertData] (cut chunkSizeB0 cert.data))
  | some .c0 => ([frameBytes (bytes32 romCmdC0UseIndirectRramWr)] ++ [frameBytes (bytes32 romCmdC0WriteDbgCert)]) ++
      ([frameBytes (bytes32 romCmdC0DebugCertSize ++ bytes32 cert.data.length)] ++
        chunkFrames (bytes32 romCmdC0CertData.toNat) (cut chunkSizeC0 cert.data))
  | some .a0 | none => []

/-- The script of `qmrom_erase_dbg_cert`. -/
def eraseScript (h : Handle) : List (List UInt8) :=
  match h.flashFw with
  | some .b0 => [frameBytes [romCmdB0EraseDbgCert]]
  | some .c0 => [frameBytes (bytes32 romCmdC0EraseDbgCert)]
  | some .a0 | none => []

/-- The script of a probe of one revision. -/
def probeScript : RomCode → List (List UInt8)
  | .a0 => []
  | .b0 => [frameBytes [romCmdB0GetChipVer]] ++ [frameBytes [romCmdB0GetSocInfo]]
  | .c0 => [frameBytes (bytes32 romCmdC0GetChipVer)] ++ [frameBytes (bytes32 romCmdC0GetSocInfo)]

/-- The beginnings of a script. -/
def beginnings (script : List (List UInt8)) : Language (List UInt8) := {os | os <+: script}

/-- What an operation may write. -/
def Operation.words (h : Handle) : Operation → Language (List UInt8)
  | .probe rev => beginnings (probeScript rev)
  | .probeDevice => beginnings (probeScript .b0) * beginnings (probeScript .c0)
  | .flashFw fw => {os | ∃ script, FlashScript h fw script ∧ os <+: script}
  | .flashDbgCert cert => beginnings (certScript h cert)
  | .eraseDbgCert => beginnings (eraseScript h)

/-- What a session may write, operation after operation. -/
def sessionWords : Session → List Operation → Language (List UInt8)
  | _, [] => 1
  | s, op :: ops =>
    match opStep s op with
    | some s' => op.words s.handle.toHandle * sessionWords s' ops
    | none => 1

/-! One frame, and what is silent. -/

theorem Listens.still {α : Type} {x : Rom α} (h : Listens x) : Silent Machine.writes x :=
  h.silent_part fun _ => SendsChunks.writes_quiet

theorem Plain.still {α : Type} {x : Rom α} (h : Plain x) : Silent Machine.writes x := h.listens.still

theorem writeFrame_follows (payload : List UInt8) :
    Follows Machine.writes [frameBytes payload] (writeFrame payload) := by
  intro m rc m' _ hx
  exact ⟨_, SendsChunks.writeFrame_writes hx, List.prefix_rfl, fun _ => rfl⟩

theorem writeFrame_frame (payload : List UInt8) : Adds Machine.writes [frameBytes payload] (writeFrame payload) := by
  intro m rc m' _ hx
  exact ⟨_, SendsChunks.writeFrame_writes hx, rfl⟩

theorem afterReadyLine_follows {x : Rom Int} {s : List (List UInt8)} (hx : Follows Machine.writes s x) :
    Follows Machine.writes s (afterReadyLine x) :=
  Follows.silent apart_readyLine.listens.still fun _ => hx

/-- A complaint writes nothing, and is an error. -/
theorem wrongResp_follows {got expected : UInt8} {rc : Int} (h : rc ≠ 0) {s : List (List UInt8)} :
    Follows Machine.writes s (wrongResp got expected rc) := by
  intro m rc' m' _ hx
  cases (wrongResp_some got expected rc m).symm.trans hx
  refine ⟨[], ?_, List.nil_prefix, fun h0 => absurd h0 h⟩
  simp [Machine.writes, Machine.complain, Event.writeFrame]

theorem wrongResp_still (got expected : UInt8) (rc : Int) : Silent Machine.writes (wrongResp got expected rc) := by
  intro m rc' m' _ hx
  cases (wrongResp_some got expected rc m).symm.trans hx
  refine ⟨[], ?_, rfl⟩
  simp [Machine.writes, Machine.complain, Event.writeFrame]

/-! The data. -/

section Data
variable {data cmd : List UInt8} {sent chunkSize : Nat}

/-- The chunk a loop is at is the next piece, and what is left after it is in the other pieces. -/
theorem cut_at (hdata : data.length ≤ 2147483647) (hchunk : 0 < chunkSize) (hmore : moreToSend data.length sent = true) :
    cut chunkSize (data.drop sent) =
      chunkAt data sent chunkSize :: cut chunkSize (data.drop (sent + txBytes data.length sent chunkSize)) := by
  have hlt : sent < data.length := by
    simp only [moreToSend, Bool.and_eq_true, decide_eq_true_eq] at hmore
    exact hmore.1
  have htx : txBytes data.length sent chunkSize = min (data.length - sent) chunkSize := by
    unfold txBytes u32
    congr 1
    omega
  have hne : data.drop sent ≠ [] := List.ne_nil_of_length_pos (by rw [List.length_drop]; omega)
  have htake : (data.drop sent).take chunkSize = (data.drop sent).take (min (data.length - sent) chunkSize) := by
    rw [List.take_eq_take_iff, List.length_drop]
    omega
  have hdrop : data.drop (sent + chunkSize) = data.drop (sent + min (data.length - sent) chunkSize) := by
    by_cases hle : chunkSize ≤ data.length - sent
    · rw [Nat.min_eq_right hle]
    · rw [List.drop_eq_nil_of_le (by omega), List.drop_eq_nil_of_le (by omega)]
  rw [cut_cons hchunk hne, chunkAt, htx, htake, List.drop_drop, hdrop]

/-- The write of the chunk a loop is at, and then what sends the rest. -/
theorem follows_pass {next : Rom Int} (hdata : data.length ≤ 2147483647) (hchunk : 0 < chunkSize)
    (hmore : moreToSend data.length sent = true)
    (hnext : Follows Machine.writes
      (chunkFrames cmd (cut chunkSize (data.drop (sent + txBytes data.length sent chunkSize)))) next) :
    Follows Machine.writes (chunkFrames cmd (cut chunkSize (data.drop sent)))
      (okThen (writeFrame (cmd ++ chunkAt data sent chunkSize)) next) := by
  rw [cut_at hdata hchunk hmore]
  exact (writeFrame_follows _).okThen hnext

/-- A loop whose passes send the chunk they are at. -/
theorem chunkLoop_follows {pass : Nat → Rom Int → Rom Int} (hdata : data.length ≤ 2147483647) (hchunk : 0 < chunkSize)
    (hpass : ∀ sent next, moreToSend data.length sent = true →
      Follows Machine.writes
        (chunkFrames cmd (cut chunkSize (data.drop (sent + txBytes data.length sent chunkSize)))) next →
      Follows Machine.writes (chunkFrames cmd (cut chunkSize (data.drop sent))) (pass sent next)) (fuel : Nat) :
    Follows Machine.writes (chunkFrames cmd (cut chunkSize data)) (chunkLoop data.length chunkSize pass fuel 0) := by
  refine chunkLoop_induct (P := fun sent x =>
      Follows Machine.writes (chunkFrames cmd (cut chunkSize (data.drop sent))) x)
    (fun _ _ _ _ _ hx => nomatch hx) (fun sent hmore => ?_) hpass fuel 0
  rw [drop_of_not_more hdata hmore, cut_nil hchunk]
  exact Follows.ok

end Data

theorem wrongData_follows {got expected : UInt8} {s : List (List UInt8)} :
    Follows Machine.writes s (wrongData got expected) :=
  wrongResp_follows (wrongData_error got)

theorem a0WriteChunks_follows (h : Handle) {data : List UInt8} (hdata : data.length ≤ 2147483647) :
    Follows Machine.writes (chunkFrames [] (cut chunkSizeA0 data)) (qmromA0WriteChunks h data) := by
  refine chunkLoop_follows hdata (by decide) (fun sent next hmore hnext => ?_) _
  refine Follows.silent (plain_a0Response h).still fun resp => ?_
  refine Follows.ite' (fun _ => wrongResp_follows (by decide)) fun _ => ?_
  exact follows_pass hdata (by decide) hmore hnext

theorem b0FlashData_follows (h : Handle) {fw : Section} (hdata : fw.data.length ≤ 2147483647) (cmd exp : UInt8) :
    Follows Machine.writes (chunkFrames [cmd] (cut chunkSizeB0 fw.data)) (qmromB0FlashData h fw cmd exp) := by
  refine chunkLoop_follows hdata (by decide) (fun sent next hmore hnext => ?_) _
  refine Follows.silent (plain_b0PollSoc h).still fun _ => Follows.silent plain_preRead.still fun _ => ?_
  refine Follows.silent plain_read.still fun _ => Follows.silent apart_payload0.listens.still fun resp => ?_
  refine Follows.ite' (fun _ => wrongData_follows) fun _ => ?_
  exact follows_pass hdata (by decide) hmore hnext

theorem c0FlashData_follows (h : Handle) {fw : Section} (hdata : fw.data.length ≤ 2147483647) (cmd resp : UInt8)
    (skipLastCheck : Bool) :
    Follows Machine.writes (chunkFrames (bytes32 cmd.toNat) (cut chunkSizeC0 fw.data))
      (qmromC0FlashData h fw cmd resp skipLastCheck) := by
  refine chunkLoop_follows hdata (by decide) (fun sent next hmore hnext => ?_) _
  unfold c0DataPass qmromWriteSizeCmd32C0 afterReadyLine okThen
  rw [bind_assoc]
  refine Follows.silent apart_readyLine.listens.still fun _ => ?_
  refine follows_pass hdata (by decide) hmore ?_
  dsimp only
  refine Follows.ite' (fun hlast => ?_) fun _ => ?_
  · -- the last chunk of the image: the rest is empty
    rw [List.drop_eq_nil_of_le (Nat.le_of_eq hlast.2.1.symm), cut_nil (by decide)]
    exact Follows.ok
  · refine Follows.silent (plain_c0PollSoc h).still fun _ => Follows.silent plain_preReadC0.still fun _ => ?_
    refine Follows.silent plain_readC0.still fun _ => Follows.silent apart_payload0.listens.still fun got => ?_
    exact Follows.ite' (fun _ => wrongData_follows) fun _ => hnext

/-! The operations. -/

theorem a0RespLoop_follows (h : Handle) (resps : List UInt8) : Follows Machine.writes
    ((resps.filter (· < spiRspWaitImageSize)).map fun _ => frameBytes [0]) (a0RespLoop h resps) := by
  induction resps with
  | nil => exact Follows.ok
  | cons resp rest ih =>
    refine Follows.silent (plain_a0Response h).still fun got => ?_
    refine Follows.ite' (fun _ => wrongResp_follows (by decide)) fun _ => Follows.ite' (fun hlt => ?_) fun hge => ?_
    · rw [List.filter_cons_of_pos (by simpa using hlt)]
      exact (writeFrame_follows [0]).okThen ih
    · rwa [List.filter_cons_of_neg (by simpa using hge)]

theorem a0FlashFw_follows (h : Handle) (fw : Firmware) :
    Follows Machine.writes (a0Script fw) (qmromA0FlashFw h fw) := by
  refine Follows.silent_okThen listens_reboot.still (Follows.silent_okThen (plain_a0WaitReady h).still ?_)
  refine Follows.silent plain_preRead.still fun _ => Follows.silent apart_bswapLen.listens.still fun _ => ?_
  refine Follows.silent plain_read.still fun _ => Follows.silent apart_payload0.listens.still fun resp => ?_
  refine Follows.ite' (fun _ => wrongResp_follows (by decide)) fun _ => ?_
  refine (writeFrame_follows _).okThen ((a0RespLoop_follows h _).okThen ((writeFrame_follows _).okThen ?_))
  exact a0WriteChunks_follows h fw.fits

/-- The key type is looked at before anything is written. -/
theorem keyTypeCheck_fits (h : Handle) (key1Crt : Section) : Says Machine.writes (fun _ => True)
    (keyTypeCheck h key1Crt) fun rc _ os => os = [] ∧ (rc = 0 ↔ keyTypeFits h key1Crt = true) := by
  unfold keyTypeCheck keyTypeFits
  refine Says.known (Says.ofOption _) fun hbk hhbk => ?_
  simp only [hhbk]
  refine Says.ite' (fun hicv => Says.pure' fun _ _ => ⟨rfl, ?_⟩) fun hicv => ?_
  · simp [hicv, eInval]
  refine Says.ite' (fun hoem => Says.pure' fun _ _ => ⟨rfl, ?_⟩) fun hoem => Says.pure' fun _ _ => ⟨rfl, ?_⟩
  · simp [hoem, eInval]
  · have hfits : (hbk = hbk2eIcv → h.lcsState = ccBsvChipManufactureLcs) ∧
        (hbk = hbk2eOem → h.lcsState = ccBsvSecureLcs) :=
      ⟨fun heq => not_not.mp fun hne => hicv ⟨heq, hne⟩, fun heq => not_not.mp fun hne => hoem ⟨heq, hne⟩⟩
    simpa [← imp_iff_not_or] using hfits

/-- What comes after the check, on a script that is empty where the image is of the wrong kind. -/
theorem keyTypeCheck_follows {h : Handle} {key1Crt : Section} {s : List (List UInt8)} {next : Rom Int}
    (hnext : Follows Machine.writes s next) :
    Follows Machine.writes (if keyTypeFits h key1Crt then s else []) (okThen (keyTypeCheck h key1Crt) next) := by
  by_cases hfits : keyTypeFits h key1Crt = true
  · rw [if_pos hfits]
    exact Follows.silent_okThen ((keyTypeCheck_fits h key1Crt).mono (fun _ => id) fun _ _ _ hos => hos.1) hnext
  · rw [if_neg hfits]
    exact Follows.never ((keyTypeCheck_fits h key1Crt).mono (fun _ => id) fun rc _ os hos =>
      ⟨hos.1, fun h0 => hfits (hos.2.mp h0)⟩)

theorem silent_freeSections_writes (fws : UnstitchedFirmware) : Silent Machine.writes (freeSections fws) := by
  have hfree : ∀ ptrs : List Nat, Silent Machine.writes (ptrs.forM qmromFree : Rom Unit) := by
    intro ptrs
    induction ptrs with
    | nil => exact Silent.pure' _
    | cons ptr ptrs ih => exact (listens_free ptr).still.bind fun _ => ih
  exact hfree _

theorem b0FlashUnstitchedFw_follows (h : Handle) {fws : UnstitchedFirmware} (hfit : SectionsFit fws) :
    Follows Machine.writes (b0Script h fws) (qmromB0FlashUnstitchedFw h fws) := by
  have hk1 := hfit fws.key1Crt (by simp)
  have hk2 := hfit fws.key2Crt (by simp)
  have hcrt := hfit fws.fwCrt (by simp)
  have himg := hfit fws.fwImg (by simp)
  refine Follows.andThen (keyTypeCheck_follows ?_) (silent_freeSections_writes fws)
  refine Follows.silent_okThen (plain_b0WaitReady h).still ((writeFrame_follows _).okThen ?_)
  refine (b0FlashData_follows h hk1 _ _).okThen ((b0FlashData_follows h hk2 _ _).okThen ?_)
  exact (b0FlashData_follows h hcrt _ _).okThen (b0FlashData_follows h himg _ _)

/-- On the C0 the end of the script may be missing from a run that returns 0. -/
theorem c0FlashSections_keeps (h : Handle) {fws : UnstitchedFirmware} (hfit : SectionsFit fws) (resp : UInt8) :
    Keeps Machine.writes
      (sectionFrames (bytes32 romCmdC0CertData.toNat) (bytes32 romCmdC0SecImageData.toNat) chunkSizeC0 fws)
      (c0FlashSections h fws resp) := by
  have hk1 := hfit fws.key1Crt (by simp)
  have hk2 := hfit fws.key2Crt (by simp)
  have hcrt := hfit fws.fwCrt (by simp)
  have himg := hfit fws.fwImg (by simp)
  refine Keeps.ite' (fun _ => ?_) fun _ => Keeps.silent (plain_c0PollSoc h).still fun _ => Follows.keeps ?_
  · exact (wrongResp_still _ _ _).mono (fun _ => id) fun _ _ os hos => hos ▸ List.nil_prefix
  · refine (c0FlashData_follows h hk1 _ _ _).okThen ((c0FlashData_follows h hk2 _ _ _).okThen ?_)
    exact (c0FlashData_follows h hcrt _ _ _).okThen (c0FlashData_follows h himg _ _ _)

theorem c0LoadResponse_delivers (h : Handle) (fws : UnstitchedFirmware) : Delivers Machine.writes
    ([frameBytes (bytes32 romCmdC0UseIndirectRramWr)] ++ [frameBytes (bytes32 (c0FlashCmd h))])
    (c0LoadResponse h fws) := by
  have hcheck : Silent Machine.writes (keyTypeCheck h fws.key1Crt) :=
    (keyTypeCheck_fits h fws.key1Crt).mono (fun _ => id) fun _ _ _ hos => hos.1
  refine Delivers.silent_okElse hcheck (Delivers.silent_okElse (plain_c0WaitReady h).still ?_)
  refine Delivers.okElse (afterReadyLine_follows (writeFrame_follows _)) ?_
  refine Delivers.silent (plain_c0PollSoc h).still fun _ => Delivers.silent plain_preReadC0.still fun _ => ?_
  refine Delivers.silent plain_readC0.still fun _ => Delivers.silent (plain_c0PollSoc h).still fun _ => ?_
  rw [← List.append_nil [frameBytes (bytes32 (c0FlashCmd h))]]
  refine Delivers.okElse (afterReadyLine_follows (writeFrame_follows _)) ?_
  refine Delivers.silent (plain_c0PollCmdResp h).still fun _ => ?_
  exact Delivers.silent apart_payload0.listens.still fun resp => Delivers.ok resp

/-- An image of the wrong kind is refused before anything is written. -/
theorem c0LoadResponse_refused {h : Handle} {fws : UnstitchedFirmware} (hfits : ¬keyTypeFits h fws.key1Crt = true) :
    Says Machine.writes (fun _ => True) (c0LoadResponse h fws) fun r _ os => os = [] ∧ ∃ rc, r = .error rc := by
  intro m r m' _ hrun
  obtain ⟨rc, m1, hcheck, hrun⟩ := bind_some.mp hrun
  obtain ⟨os, hos, rfl, hrc⟩ := keyTypeCheck_fits h fws.key1Crt m rc m1 trivial hcheck
  rw [if_pos fun h0 => hfits (hrc.mp h0)] at hrun
  obtain ⟨rfl, rfl⟩ := pure_some.mp hrun
  exact ⟨[], hos, rfl, rc, rfl⟩

theorem c0FlashUnstitched_keeps (h : Handle) {fws : UnstitchedFirmware} (hfit : SectionsFit fws) :
    Keeps Machine.writes (c0Script h fws) (do
      let rc ← match ← c0LoadResponse h fws with
        | .error rc => pure rc
        | .ok resp => c0FlashSections h fws resp
      freeSections fws
      pure rc) := by
  have hend : ∀ rc : Int, Silent Machine.writes (do freeSections fws; pure rc) := fun rc =>
    (silent_freeSections_writes fws).bind fun _ => Silent.pure' rc
  unfold c0Script
  by_cases hfits : keyTypeFits h fws.key1Crt = true
  · rw [if_pos hfits]
    refine (c0LoadResponse_delivers h fws).goesOn (fun rc => hend rc) fun resp => ?_
    exact Keeps.andThen (c0FlashSections_keeps h hfit resp) hend
  · rw [if_neg hfits]
    refine Says.known (c0LoadResponse_refused hfits) ?_
    rintro r ⟨rc, rfl⟩
    exact (hend rc).mono (fun _ => id) fun _ _ os hos => hos ▸ List.nil_prefix

theorem FlashScript.exists {h : Handle} (hrev : h.flashFw ≠ none) (fw : Firmware) :
    ∃ script, FlashScript h fw script := by
  by_cases hdata : ∃ fws, fw.data = stitched fws
  · obtain ⟨fws, hfws⟩ := hdata
    cases hflash : h.flashFw with
    | none => exact absurd hflash hrev
    | some rev =>
      cases rev with
      | a0 => exact ⟨_, .a0 hflash⟩
      | b0 => exact ⟨_, .b0 fws hflash hfws⟩
      | c0 => exact ⟨_, .c0 fws hflash hfws⟩
  · by_cases ha0 : h.flashFw = some .a0
    · exact ⟨_, .a0 ha0⟩
    · exact ⟨_, .garbled ha0 fun fws hfws => hdata ⟨fws, hfws⟩⟩

theorem unstitchFw_still {data : List UInt8} (revision : Nat) (hdata : data.length < 4294967296) :
    Says Machine.writes (fun _ => True) (qmromUnstitchFw data revision) fun r _ os => os = [] ∧ Unstitched data r := by
  apply unstitchFw_induct (P := fun x => Says Machine.writes (fun _ => True) x fun r _ os => os = [] ∧ Unstitched data r)
  · exact fun _ _ _ _ _ h => nomatch h
  · exact fun rc hrc => Says.pure' fun _ _ => ⟨rfl, hrc⟩
  · exact fun ptr x hx => (listens_free ptr).still.followed fun _ => hx
  · exact fun f hf => listens_alloc.still.followed hf
  · exact fun l _ _ _ _ fws hl hc => Says.pure' fun _ _ => ⟨rfl, unstitched_file hdata hl hc⟩

/-- Flashing what `qmrom_unstitch_fw` makes of the file. -/
theorem flashUnstitched_script {h : Handle} {fw : Firmware} (hrev : h.flashFw ≠ none)
    {f : Except Int UnstitchedFirmware → Rom Int} (herror : ∀ rc, Silent Machine.writes (f (.error rc)))
    (hok : ∀ fws, fw.data = stitched fws → ∃ script, FlashScript h fw script ∧ Keeps Machine.writes script (f (.ok fws))) :
    Says Machine.writes (fun _ => True) (qmromUnstitchFw fw.data h.chipRev >>= f)
      fun _ _ os => ∃ script, FlashScript h fw script ∧ os <+: script := by
  refine Says.known (P := Unstitched fw.data) (unstitchFw_still h.chipRev (fits_u32 fw)) fun r hr => ?_
  cases r with
  | error rc =>
    obtain ⟨script, hscript⟩ := FlashScript.exists hrev fw
    exact (herror rc).mono (fun _ => id) fun _ _ os hos => ⟨script, hscript, hos ▸ List.nil_prefix⟩
  | ok fws =>
    obtain ⟨script, hscript, hkeeps⟩ := hok fws hr
    exact Says.mono hkeeps (fun _ => id) fun _ _ os hos => ⟨script, hscript, hos⟩

theorem flashFw_script (h : Handle) (fw : Firmware) : Says Machine.writes (fun _ => True) (qmromFlashFw h fw)
    fun _ _ os => ∃ script, FlashScript h fw script ∧ os <+: script := by
  unfold qmromFlashFw
  cases hflash : h.flashFw with
  | none => exact fun _ _ _ _ hx => nomatch hx
  | some rev =>
    have hrev : h.flashFw ≠ none := by
      rw [hflash]
      exact Option.some_ne_none rev
    cases rev with
    | a0 =>
      exact Says.mono (a0FlashFw_follows h fw).keeps (fun _ => id) fun _ _ os hos => ⟨_, .a0 hflash, hos⟩
    | b0 =>
      refine flashUnstitched_script hrev (fun rc => Silent.pure' rc) fun fws hfws => ⟨_, .b0 fws hflash hfws, ?_⟩
      exact (b0FlashUnstitchedFw_follows h (sectionsFit_of_stitched hfws)).keeps
    | c0 =>
      refine flashUnstitched_script hrev (fun rc => Silent.pure' rc) fun fws hfws => ⟨_, .c0 fws hflash hfws, ?_⟩
      exact c0FlashUnstitched_keeps h (sectionsFit_of_stitched hfws)

/-! The certificates. -/

theorem b0FlashDebugCert_keeps (h : Handle) (cert : Firmware) : Keeps Machine.writes
    ([frameBytes [romCmdB0WriteDbgCert]] ++ ([frameBytes ([romCmdB0DebugCertSize] ++ bytes32 cert.data.length)] ++
      chunkFrames [romCmdB0CertData] (cut chunkSizeB0 cert.data))) (qmromB0FlashDebugCert h cert) := by
  rw [← List.append_assoc]
  have hstart : Follows Machine.writes
      ([frameBytes [romCmdB0WriteDbgCert]] ++ [frameBytes ([romCmdB0DebugCertSize] ++ bytes32 cert.data.length)])
      (b0CertStart h cert) := by
    refine Follows.silent_okThen (plain_b0WaitReady h).still ((writeFrame_follows _).okThen ?_)
    refine Follows.silent (plain_b0PollSoc h).still fun _ => Follows.silent plain_preRead.still fun _ => ?_
    refine Follows.silent plain_read.still fun _ => ?_
    refine Says.bind (writeFrame_frame _) fun rc os => ?_
    intro m rc' m' hos hrun
    obtain ⟨resp, m1, h1, hrun⟩ := bind_some.mp hrun
    cases h1
    subst hos
    split at hrun
    · obtain ⟨os', hos', rfl⟩ := wrongResp_still _ _ _ m rc' m' trivial hrun
      cases (wrongResp_some _ _ _ m).symm.trans hrun
      exact ⟨[], hos', by simp [spiProtoWrongResp]⟩
    · obtain ⟨rfl, rfl⟩ := pure_some.mp hrun
      exact ⟨[], (List.append_nil _).symm, by simp⟩
  refine hstart.thenKeeps (Keeps.andThen (b0FlashData_follows h (certSection_fits cert) _ _).keeps fun _ => ?_)
  exact Silent.pure' 0

theorem c0CertCommand_follows (h : Handle) : Follows Machine.writes
    ([frameBytes (bytes32 romCmdC0UseIndirectRramWr)] ++ [frameBytes (bytes32 romCmdC0WriteDbgCert)])
    (c0CertCommand h) := by
  refine Follows.silent_okThen (plain_c0WaitReady h).still ?_
  refine (afterReadyLine_follows (writeFrame_follows _)).okThen ?_
  refine Follows.silent (plain_c0PollSoc h).still fun _ => Follows.silent plain_preReadC0.still fun _ => ?_
  refine Follows.silent plain_readC0.still fun _ => Follows.silent (plain_c0PollSoc h).still fun _ => ?_
  rw [← List.append_nil [frameBytes (bytes32 romCmdC0WriteDbgCert)]]
  refine (afterReadyLine_follows (writeFrame_follows _)).okThen ?_
  exact Follows.silent (plain_c0PollCmdResp h).still fun _ => Follows.ok

/-- The size is written in any case, and its result is only returned later. -/
theorem c0CertSize_frame (h : Handle) (cert : Firmware) : Adds Machine.writes
    [frameBytes (bytes32 romCmdC0DebugCertSize ++ bytes32 cert.data.length)] (c0CertSize h cert) := by
  refine Adds.andThen ?_ fun rc => (plain_c0PollCmdResp h).still.bind fun _ => Silent.pure' rc
  exact apart_readyLine.listens.still.followed fun _ => writeFrame_frame _

theorem c0FlashDebugCert_keeps (h : Handle) (cert : Firmware) : Keeps Machine.writes
    (([frameBytes (bytes32 romCmdC0UseIndirectRramWr)] ++ [frameBytes (bytes32 romCmdC0WriteDbgCert)]) ++
      ([frameBytes (bytes32 romCmdC0DebugCertSize ++ bytes32 cert.data.length)] ++
        chunkFrames (bytes32 romCmdC0CertData.toNat) (cut chunkSizeC0 cert.data))) (qmromC0FlashDebugCert h cert) := by
  refine (c0CertCommand_follows h).thenKeeps (Keeps.silent apart_payload0.listens.still fun resp => ?_)
  have hquiet : ∀ {got expected : UInt8} {rc : Int} {s : List (List UInt8)},
      Keeps Machine.writes s (wrongResp got expected rc) := fun {got expected rc s} =>
    (wrongResp_still got expected rc).mono (fun _ => id) fun _ _ os hos => hos ▸ List.nil_prefix
  refine Keeps.ite' (fun _ => hquiet) fun _ => (c0CertSize_frame h cert).keeps fun rc => ?_
  refine Keeps.silent apart_payload0.listens.still fun resp => Keeps.ite' (fun _ => hquiet) fun _ => ?_
  exact Keeps.andThen (c0FlashData_follows h (certSection_fits cert) _ _ _).keeps fun _ => Silent.pure' 0

theorem flashDbgCert_keeps (h : Handle) (cert : Firmware) :
    Keeps Machine.writes (certScript h cert) (qmromFlashDbgCert h cert) := by
  unfold qmromFlashDbgCert certScript
  cases h.flashFw with
  | none => exact Keeps.pure' _
  | some rev =>
    cases rev with
    | a0 => exact Keeps.pure' _
    | b0 => exact b0FlashDebugCert_keeps h cert
    | c0 => exact c0FlashDebugCert_keeps h cert

theorem eraseDbgCert_keeps (h : Handle) : Keeps Machine.writes (eraseScript h) (qmromEraseDbgCert h) := by
  unfold qmromEraseDbgCert eraseScript
  cases h.flashFw with
  | none => exact Keeps.pure' _
  | some rev =>
    cases rev with
    | a0 => exact Keeps.pure' _
    | b0 =>
      refine Keeps.silent (plain_b0WaitReady h).still fun rc => Keeps.ite' (fun _ => Keeps.pure' _) fun _ => ?_
      exact (writeFrame_follows _).thenKeeps (t := []) (Keeps.pure' 0)
    | c0 =>
      refine (Follows.silent_okThen (plain_c0WaitReady h).still ?_).keeps
      exact (afterReadyLine_follows (writeFrame_follows _)).okThen (t := []) Follows.ok

/-! The probes. -/

/-- The end of a script in a program that writes nothing more. -/
theorem keeps_still {α : Type} {x : Rom α} (hx : Silent Machine.writes x) : Keeps Machine.writes [] x :=
  Says.mono hx (fun _ => id) fun _ _ _ hos => hos ▸ List.nil_prefix

theorem probeThen_keeps {x : Rom Int} {h : ProbeHandle} {k : Rom (Int × ProbeHandle)} {s t : List (List UInt8)}
    (hx : Follows Machine.writes s x) (hk : Keeps Machine.writes t k) :
    Keeps Machine.writes (s ++ t) (probeThen x h k) :=
  hx.goesOn (fun rc hrc => by rw [if_pos hrc]; exact Silent.pure' _) hk

theorem probeThen_still {x : Rom Int} {h : ProbeHandle} {k : Rom (Int × ProbeHandle)} {t : List (List UInt8)}
    (hx : Silent Machine.writes x) (hk : Keeps Machine.writes t k) : Keeps Machine.writes t (probeThen x h k) :=
  Keeps.silent hx fun _ => Keeps.ite' (fun _ => Keeps.pure' _) fun _ => hk

theorem a0ProbeDevice_keeps (h : ProbeHandle) : Keeps Machine.writes (probeScript .a0) (qmromA0ProbeDevice h) := by
  refine probeThen_still listens_reboot.still (probeThen_still (plain_a0WaitReady _).still ?_)
  refine Keeps.silent plain_preRead.still fun _ => Keeps.silent apart_bswapLen.listens.still fun _ => ?_
  refine Keeps.silent apart_sstcLen.listens.still fun len => Keeps.ite' (fun _ => Keeps.pure' _) fun _ => ?_
  refine Keeps.silent plain_read.still fun _ => ?_
  refine Keeps.silent (plain_sstc2uint16 (by decide)).still fun _ => ?_
  exact Keeps.ite' (fun _ => Keeps.pure' _) fun _ => Keeps.pure' _

theorem b0ProbeDevice_keeps (h : ProbeHandle) : Keeps Machine.writes (probeScript .b0) (qmromB0ProbeDevice h) := by
  refine probeThen_still listens_reboot.still (probeThen_still (plain_b0WaitReady _).still ?_)
  refine probeThen_keeps (writeFrame_follows _) (probeThen_still (plain_b0PollCmdResp _).still ?_)
  refine Keeps.silent (plain_sstc2uint16 (by decide)).still fun chipRev => ?_
  refine Keeps.silent (plain_sstc2uint16 (by decide)).still fun devRev => ?_
  refine Keeps.ite' (fun _ => Keeps.pure' _) fun _ => probeThen_still (plain_b0WaitReady _).still ?_
  refine probeThen_keeps (t := []) (writeFrame_follows _) (probeThen_still (plain_b0PollCmdResp _).still ?_)
  exact keeps_still (plain_probeIdentity _ _ (by decide)).still

theorem c0ProbeDevice_keeps (h : ProbeHandle) : Keeps Machine.writes (probeScript .c0) (qmromC0ProbeDevice h) := by
  refine probeThen_still listens_reboot.still (probeThen_still (plain_c0WaitReady _).still ?_)
  refine probeThen_keeps (afterReadyLine_follows (writeFrame_follows _)) ?_
  refine probeThen_still (plain_c0PollCmdResp _).still ?_
  refine Keeps.silent (plain_sstc2uint16 (by decide)).still fun chipRev => ?_
  refine Keeps.silent (plain_sstc2uint16 (by decide)).still fun devRev => ?_
  refine Keeps.ite' (fun _ => Keeps.pure' _) fun _ => probeThen_still (plain_c0WaitReady _).still ?_
  refine probeThen_keeps (t := []) (afterReadyLine_follows (writeFrame_follows _)) ?_
  refine probeThen_still (plain_c0PollCmdResp _).still ?_
  exact keeps_still (plain_probeIdentity _ _ (by decide)).still

theorem probeOf_keeps (rev : RomCode) (h : ProbeHandle) : Keeps Machine.writes (probeScript rev) (probeOf rev h) := by
  cases rev with
  | a0 => exact a0ProbeDevice_keeps h
  | b0 => exact b0ProbeDevice_keeps h
  | c0 => exact c0ProbeDevice_keeps h

/-- The B0 first, then the C0, and the A0, which is only listened to. -/
theorem probeDevice_writes (h : ProbeHandle) : Says Machine.writes (fun _ => True) (qmromProbeDevice h)
    fun _ _ os => os ∈ beginnings (probeScript .b0) * beginnings (probeScript .c0) := by
  refine Says.bind (b0ProbeDevice_keeps h) fun r os => ?_
  intro m b m' hos hrun
  dsimp only at hrun
  have hmem : ∀ {os'}, os' <+: probeScript .c0 → os ++ os' ∈ beginnings (probeScript .b0) * beginnings (probeScript .c0) :=
    fun hos' => Language.append_mem_mul hos hos'
  split at hrun
  · obtain ⟨-, rfl⟩ := pure_some.mp hrun
    exact ⟨[], (List.append_nil _).symm, hmem List.nil_prefix⟩
  · obtain ⟨r1, m1, h1, hrun⟩ := bind_some.mp hrun
    obtain ⟨os1, hos1, hkeep1⟩ := c0ProbeDevice_keeps r.2 m r1 m1 trivial h1
    split at hrun
    · obtain ⟨-, rfl⟩ := pure_some.mp hrun
      exact ⟨os1, hos1, hmem hkeep1⟩
    · obtain ⟨r2, m2, h2, hrun⟩ := bind_some.mp hrun
      obtain ⟨os2, hos2, hkeep2⟩ := a0ProbeDevice_keeps r1.2 m1 r2 m2 trivial h2
      have hnil : os2 = [] := List.prefix_nil.mp hkeep2
      have hend : m' = m2 := by
        split at hrun
        · exact (pure_some.mp hrun).2.symm
        · exact (pure_some.mp hrun).2.symm
      subst hend hnil
      exact ⟨os1, by rw [hos2, hos1, List.append_nil], hmem hkeep1⟩

/-! Sessions. -/

theorem call_writes (h : ProbeHandle) (op : Operation) : Says Machine.writes (fun _ => True) (op.call h)
    fun _ _ os => os ∈ op.words h.toHandle := by
  have hret : ∀ {x : Rom Int} {L : Language (List UInt8)}, Says Machine.writes (fun _ => True) x (fun _ _ os => os ∈ L) →
      Says Machine.writes (fun _ => True) (do let rc ← x; pure (rc, h)) fun _ _ os => os ∈ L := by
    intro x L hx
    refine Says.bind hx fun rc os => ?_
    intro m r m' hos hrun
    obtain ⟨-, rfl⟩ := pure_some.mp hrun
    exact ⟨[], (List.append_nil _).symm, by simpa using hos⟩
  cases op with
  | probe rev => exact probeOf_keeps rev h
  | probeDevice => exact probeDevice_writes h
  | flashFw fw => exact hret (flashFw_script h.toHandle fw)
  | flashDbgCert cert => exact hret (flashDbgCert_keeps h.toHandle cert)
  | eraseDbgCert => exact hret (eraseDbgCert_keeps h.toHandle)

/-- What has been written in a session are beginnings of the scripts of its operations, in order. -/
theorem session_transcript {s t : Session} {ops : List Operation} (hr : Lts.run opStep s ops = some t) :
    ∃ os ∈ sessionWords s ops, t.machine.writes = s.machine.writes ++ os := by
  induction ops generalizing s with
  | nil =>
    cases hr
    exact ⟨[], Language.nil_mem_one, (List.append_nil _).symm⟩
  | cons op ops ih =>
    obtain ⟨s', hs, hrest⟩ := Lts.run_cons_some.mp hr
    obtain ⟨⟨r, m'⟩, hcall, heq⟩ := Option.map_eq_some_iff.mp hs
    obtain ⟨os, hos, hword⟩ := call_writes s.handle op s.machine r m' trivial hcall
    obtain ⟨os', hword', hos'⟩ := ih hrest
    refine ⟨os ++ os', ?_, ?_⟩
    · rw [sessionWords, hs]
      exact Language.append_mem_mul hword hword'
    · rw [hos', ← List.append_assoc, ← hos]
      rw [← heq]

/-- A handle on the C0 that refuses the load. -/
def refusedSession : Session := ⟨⟨⟨10, 0xC0, 5, some .c0⟩, 0, [], []⟩, machineInit (fun _ => 0) (fun _ => 0) refusingDevice⟩

/-- It has been given the two commands, and none of the sections. -/
theorem session_transcript_refused : ∃ t, Lts.run opStep refusedSession [.flashFw smallFirmware] = some t ∧
    t.machine.writes = [frameBytes (bytes32 6), frameBytes (bytes32 1)] ∧
    ∃ os ∈ sessionWords refusedSession [.flashFw smallFirmware],
      t.machine.writes = refusedSession.machine.writes ++ os := by
  have heval : (Lts.run opStep refusedSession [.flashFw smallFirmware]).map (fun t => t.machine.writes) =
      some [frameBytes (bytes32 6), frameBytes (bytes32 1)] := by decide +kernel
  obtain ⟨t, hr, hwrites⟩ := Option.map_eq_some_iff.mp heval
  exact ⟨t, hr, hwrites, session_transcript hr⟩

end Qm35.Qmrom
