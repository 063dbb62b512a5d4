import IpodEsp32.Snooper.Handler
import IpodEsp32.Snooper.Lingo
import IpodEsp32.Snooper.Reception

/-!
# Packet dispatch

`snooper::_processPacket` and the two Lingo processors. A pointer into the payload is
the index it points to.
-/

namespace IpodEsp32

namespace Snooper

/-! ### Lingo 0x00 -/

/-- The switch of `processLingo0x00`. -/
def logLingo0x00 (byteArray : ℕ) (cmdID : UInt8) : Handler Unit :=
  match L0x00.ofByte cmdID with
  | some .identify =>
      espLog .info "CMD: 0x%02x Identify with Lingo 0x%02x" do
        return [cmdID.toNat, (← readByte (byteArray + 1)).toNat]
  | some .requestExtendedInterfaceMode =>
      espLog .info "CMD: 0x%02x RequestExtendedInterfaceMode" (pure [cmdID.toNat])
  | some .enterExtendedInterfaceMode =>
      espLog .info "CMD: 0x%02x EnterExtendedInterfaceMode" (pure [cmdID.toNat])
  | some .exitExtendedInterfaceMode =>
      espLog .info "CMD: 0x%02x ExitExtendedInterfaceMode" (pure [cmdID.toNat])
  | some .requestiPodName =>
      espLog .info "CMD: 0x%02x RequestiPodName" (pure [cmdID.toNat])
  | some .requestiPodSoftwareVersion =>
      espLog .info "CMD: 0x%02x RequestiPodSoftwareVersion" (pure [cmdID.toNat])
  | some .requestiPodSerialNum =>
      espLog .info "CMD: 0x%02x RequestiPodSerialNum" (pure [cmdID.toNat])
  | some .requestiPodModelNum =>
      espLog .info "CMD: 0x%02x RequestiPodModelNum" (pure [cmdID.toNat])
  | some .requestLingoProtocolVersion =>
      espLog .info "CMD: 0x%02x RequestLingoProtocolVersion for Lingo 0x%02x" do
        return [cmdID.toNat, (← readByte (byteArray + 1)).toNat]
  | some .identifyDeviceLingoes =>
      espLog .info "CMD: 0x%02x IdentifyDeviceLingoes" (pure [cmdID.toNat])
  | some .retAccessoryInfo =>
      espLog .info "CMD: 0x%02x RetAccessoryInfo: 0x%02x" do
        return [cmdID.toNat, (← readByte (byteArray + 1)).toNat]
  | none => espLog .warn "CMD 0x%02x not recognized." (pure [cmdID.toNat])

/-- `snooper::processLingo0x00`: `byteArray` starts at the command byte. -/
def processLingo0x00 (byteArray : ℕ) (len : UInt32) : Handler Unit := do
  let cmdID ← readByte byteArray
  logLingo0x00 byteArray cmdID
  queuePacket byteArray len

/-! ### Lingo 0x04 -/

/-- The inner switch of `GetIndexedPlayingTrackInfo`, on the type requested. -/
def trackInfoLine (infoType : UInt8) : LogLevel × String :=
  if infoType = 0x00 then
    (.info, "CMD 0x%04x GetIndexedPlayingTrackInfo 0x%02x for index %d : Duration")
  else if infoType = 0x02 then
    (.info, "CMD 0x%04x GetIndexedPlayingTrackInfo 0x%02x for index %d : Release date")
  else if infoType = 0x01 then
    (.info, "CMD 0x%04x GetIndexedPlayingTrackInfo 0x%02x for index %d : Title")
  else if infoType = 0x05 then
    (.info, "CMD 0x%04x GetIndexedPlayingTrackInfo 0x%02x for index %d : Genre")
  else if infoType = 0x06 then
    (.info, "CMD 0x%04x GetIndexedPlayingTrackInfo 0x%02x for index %d : Composer")
  else
    (.warn,
      "CMD 0x%04x GetIndexedPlayingTrackInfo 0x%02x for index %d : Type not recognised!")

def logTrackIndex (format : String) (byteArray : ℕ) (cmdID : UInt8) : Handler Unit := do
  let tempTrackIndex ← readWord (byteArray + 2)
  espLog .info format (pure [cmdID.toNat, tempTrackIndex])

def logParameter (format : String) (byteArray : ℕ) (cmdID : UInt8) : Handler Unit :=
  espLog .info format do
    return [cmdID.toNat, (← readByte (byteArray + 2)).toNat]

def logLingo0x04 (byteArray : ℕ) (cmdID : UInt8) : Handler Unit :=
  match L0x04.ofByte cmdID with
  | some .getIndexedPlayingTrackInfo => do
      let tempTrackIndex ← readWord (byteArray + 3)
      let infoType ← readByte (byteArray + 2)
      espLog (trackInfoLine infoType).1 (trackInfoLine infoType).2 do
        return [cmdID.toNat, (← readByte (byteArray + 2)).toNat, tempTrackIndex]
  | some .requestProtocolVersion =>
      espLog .info "CMD 0x%04x RequestProtocolVersion" (pure [cmdID.toNat])
  | some .resetDBSelection =>
      espLog .info "CMD 0x%04x ResetDBSelection" (pure [cmdID.toNat])
  | some .selectDBRecord =>
      espLog .info "CMD 0x%04x SelectDBRecord" (pure [cmdID.toNat])
  | some .getNumberCategorizedDBRecords => do
      let category ← readByte (byteArray + 2)
      espLog .info "CMD 0x%04x GetNumberCategorizedDBRecords category: 0x%02x"
        (pure [cmdID.toNat, category.toNat])
  | some .retrieveCategorizedDatabaseRecords => do
      let category ← readByte (byteArray + 2)
      let startIndex ← readWord (byteArray + 3)
      let counts ← readWord (byteArray + 7)
      espLog .info
        "CMD 0x%04x RetrieveCategorizedDatabaseRecords category: 0x%02x from %d for %d counts"
        (pure [cmdID.toNat, category.toNat, startIndex, counts])
  | some .getPlayStatus =>
      espLog .info "CMD 0x%04x GetPlayStatus" (pure [cmdID.toNat])
  | some .getCurrentPlayingTrackIndex =>
      espLog .info "CMD 0x%04x GetCurrentPlayingTrackIndex" (pure [cmdID.toNat])
  | some .getIndexedPlayingTrackTitle =>
      logTrackIndex "CMD 0x%04x GetIndexedPlayingTrackTitle for index %d" byteArray cmdID
  | some .getIndexedPlayingTrackArtistName =>
      logTrackIndex "CMD 0x%04x GetIndexedPlayingTrackArtistName for index %d"
        byteArray cmdID
  | some .getIndexedPlayingTrackAlbumName =>
      logTrackIndex "CMD 0x%04x GetIndexedPlayingTrackAlbumName for index %d"
        byteArray cmdID
  | some .setPlayStatusChangeNotification =>
      logParameter "CMD 0x%04x SetPlayStatusChangeNotification 0x%02x" byteArray cmdID
  | some .playCurrentSelection =>
      logTrackIndex "CMD 0x%04x PlayCurrentSelection index %d" byteArray cmdID
  | some .playControl =>
      logParameter "CMD 0x%04x PlayControl req: 0x%02x" byteArray cmdID
  | some .getShuffle => espLog .info "CMD 0x%04x GetShuffle" (pure [cmdID.toNat])
  | some .setShuffle =>
      logParameter "CMD 0x%04x SetShuffle req: 0x%02x" byteArray cmdID
  | some .getRepeat => espLog .info "CMD 0x%04x GetRepeat" (pure [cmdID.toNat])
  | some .setRepeat =>
      logParameter "CMD 0x%04x SetRepeat req: 0x%02x" byteArray cmdID
  | some .getNumPlayingTracks =>
      espLog .info "CMD 0x%04x GetNumPlayingTracks" (pure [cmdID.toNat])
  | some .setCurrentPlayingTrack =>
      logTrackIndex "CMD 0x%04x SetCurrentPlayingTrack index %d" byteArray cmdID
  | none => pure ()

/-- `snooper::processLingo0x04`: `byteArray` starts at the first of the two command
bytes. Unlike the other processor it queues nothing. -/
def processLingo0x04 (byteArray : ℕ) (_len : UInt32) : Handler Unit := do
  let cmdID ← readByte (byteArray + 1)
  logLingo0x04 byteArray cmdID

/-! ### Dispatch -/

/-- `snooper::_processPacket` -/
def processPacket (byteArray : ℕ) (len : UInt32) : Handler Unit := do
  let rxLingoID ← readByte byteArray
  let subPayload := byteArray + 1
  let subPayloadLen := len - 1
  if rxLingoID = 0x00 then
    espLog .debug "Lingo 0x00 Packet in processor,payload length: %d"
      (pure [subPayloadLen.toNat])
    enterProcessor rxLingoID subPayloadLen
    processLingo0x00 subPayload subPayloadLen
  else if rxLingoID = 0x04 then
    espLog .debug "Lingo 0x04 Packet in processor,payload length: %d"
      (pure [subPayloadLen.toNat])
    enterProcessor rxLingoID subPayloadLen
    processLingo0x04 subPayload subPayloadLen
  else espLog .warn "Unknown Lingo packet : L0x%x" (pure [rxLingoID.toNat])

theorem toNat_ofNat_sub_one {n : ℕ} (h : n ≤ 254) :
    (UInt32.ofNat (n + 1) - 1).toNat = n := by
  rw [UInt32.ofNat_add]
  simp
  omega

/-! ### What the switches do -/

theorem logTrackIndex_onlyLooks (format : String) (byteArray : ℕ) (cmdID : UInt8) :
    (logTrackIndex format byteArray cmdID).OnlyLooks :=
  onlyLooks_bind (onlyLooks_readWord _) fun _ => onlyLooks_espLog _ _ (onlyLooks_pure _)

theorem logParameter_onlyLooks (format : String) (byteArray : ℕ) (cmdID : UInt8) :
    (logParameter format byteArray cmdID).OnlyLooks :=
  onlyLooks_espLog _ _ (onlyLooks_bind (onlyLooks_readByte _) fun _ => onlyLooks_pure _)

theorem logLingo0x00_onlyLooks (byteArray : ℕ) (cmdID : UInt8) :
    (logLingo0x00 byteArray cmdID).OnlyLooks := by
  have hparam : ∀ format, (espLog .info format do
      return [cmdID.toNat, (← readByte (byteArray + 1)).toNat]).OnlyLooks := fun format =>
    onlyLooks_espLog _ _ (onlyLooks_bind (onlyLooks_readByte _) fun _ => onlyLooks_pure _)
  have hplain : ∀ level format, (espLog level format (pure [cmdID.toNat])).OnlyLooks :=
    fun level format => onlyLooks_espLog _ _ (onlyLooks_pure _)
  unfold logLingo0x00
  rcases L0x00.ofByte cmdID with _ | c
  · exact hplain _ _
  · cases c with
    | identify | requestLingoProtocolVersion | retAccessoryInfo => exact hparam _
    | _ => exact hplain _ _

theorem logLingo0x04_onlyLooks (byteArray : ℕ) (cmdID : UInt8) :
    (logLingo0x04 byteArray cmdID).OnlyLooks := by
  have hplain : ∀ level format args, (espLog level format (pure args)).OnlyLooks :=
    fun level format args => onlyLooks_espLog _ _ (onlyLooks_pure _)
  unfold logLingo0x04
  rcases L0x04.ofByte cmdID with _ | c
  · exact onlyLooks_pure _
  · cases c with
    | getIndexedPlayingTrackInfo =>
        exact onlyLooks_bind (onlyLooks_readWord _) fun _ =>
          onlyLooks_bind (onlyLooks_readByte _) fun _ =>
            onlyLooks_espLog _ _
              (onlyLooks_bind (onlyLooks_readByte _) fun _ => onlyLooks_pure _)
    | getNumberCategorizedDBRecords =>
        exact onlyLooks_bind (onlyLooks_readByte _) fun _ => hplain _ _ _
    | retrieveCategorizedDatabaseRecords =>
        exact onlyLooks_bind (onlyLooks_readByte _) fun _ =>
          onlyLooks_bind (onlyLooks_readWord _) fun _ =>
            onlyLooks_bind (onlyLooks_readWord _) fun _ => hplain _ _ _
    | getIndexedPlayingTrackTitle | getIndexedPlayingTrackArtistName
    | getIndexedPlayingTrackAlbumName | playCurrentSelection | setCurrentPlayingTrack =>
        exact logTrackIndex_onlyLooks _ _ _
    | setPlayStatusChangeNotification | playControl | setShuffle | setRepeat =>
        exact logParameter_onlyLooks _ _ _
    | _ => exact hplain _ _ _

/-- Dispatch queues the packet without its Lingo byte if that byte is `0x00`, and
nothing otherwise. -/
theorem queued_processPacket (byteArray : ℕ) (len : UInt32) (env : Env) :
    (processPacket byteArray len).queued env =
      if env.memory byteArray = 0x00 then
        [(List.range (len - 1).toNat).map fun i => env.memory (byteArray + 1 + i)]
      else [] := by
  have hlog : ∀ level format args, (espLog level format (pure args)).queued env = [] :=
    fun level format args => (onlyLooks_espLog _ _ (onlyLooks_pure _)).queued_eq_nil env
  have henter : ∀ lingo len, (enterProcessor lingo len).queued env = [] := fun _ _ => rfl
  have hread : ∀ p, (readByte p).queued env = [] := fun _ => rfl
  rw [processPacket, queued_bind, hread, List.nil_append, value_readByte]
  by_cases h0 : env.memory byteArray = 0x00
  · simp only [h0, if_true, queued_bind, hlog, henter, hread, processLingo0x00,
      (logLingo0x00_onlyLooks _ _).queued_eq_nil, queued_queuePacket, List.nil_append]
  · by_cases h4 : env.memory byteArray = 0x04
    · simp [h4, queued_bind, hlog, henter, hread, processLingo0x04,
        (logLingo0x04_onlyLooks _ _).queued_eq_nil]
    · simp [h0, h4, hlog]

theorem processed_processPacket (byteArray : ℕ) (len : UInt32) (env : Env) :
    (processPacket byteArray len).processed env =
      if env.memory byteArray = 0x00 ∨ env.memory byteArray = 0x04 then [len - 1] else [] := by
  have hlog : ∀ level format args, (espLog level format (pure args)).processed env = [] :=
    fun level format args => (onlyLooks_espLog _ _ (onlyLooks_pure _)).processed_eq_nil env
  have henter : ∀ lingo len, (enterProcessor lingo len).processed env = [len] :=
    fun _ _ => rfl
  have hread : ∀ p, (readByte p).processed env = [] := fun _ => rfl
  rw [processPacket, processed_bind, hread, List.nil_append, value_readByte]
  by_cases h0 : env.memory byteArray = 0x00
  · simp [h0, processed_bind, hlog, henter, hread, processLingo0x00,
      (logLingo0x00_onlyLooks _ _).processed_eq_nil, processed_queuePacket]
  · by_cases h4 : env.memory byteArray = 0x04
    · simp [h4, processed_bind, hlog, henter, hread, processLingo0x04,
        (logLingo0x04_onlyLooks _ _).processed_eq_nil]
    · simp [h0, h4, hlog]

/-! ### What becomes of a packet -/

def Packet.lingo (p : Packet) : UInt8 :=
  p.bytes.head (List.length_pos_iff.1 p.one_le_length)

def Packet.body (p : Packet) : List UInt8 := p.bytes.tail

theorem Packet.bytes_eq (p : Packet) : p.bytes = p.lingo :: p.body :=
  (List.cons_head_tail _).symm

/-- What `_processTask` queues for transmission when it handles a packet. -/
def Packet.forwarded (p : Packet) : Option (List UInt8) :=
  ((processPacket 0 (UInt32.ofNat p.bytes.length)).queued
    (Env.holding 0 p.bytes fun _ => 0x00)).head?

/-- In every build and whatever lies behind the packet, dispatch queues what is
forwarded and no more. -/
theorem Packet.queued_eq_forwarded (p : Packet) (coreDebugLevel : ℕ)
    (beyond : ℕ → UInt8) :
    (processPacket 0 (UInt32.ofNat p.bytes.length)).queued
        (Env.holding coreDebugLevel p.bytes beyond) = p.forwarded.toList ∧
      p.forwarded = if p.lingo = 0x00 then some p.body else none := by
  have hqueued : ∀ level beyond, (processPacket 0 (UInt32.ofNat p.bytes.length)).queued
      (Env.holding level p.bytes beyond) = if p.lingo = 0x00 then [p.body] else [] := by
    intro level beyond
    have hle := p.length_le
    have hlen : (UInt32.ofNat p.bytes.length - 1).toNat = p.body.length := by
      rw [p.bytes_eq, List.length_cons, toNat_ofNat_sub_one]
      rw [p.bytes_eq, List.length_cons] at hle
      omega
    have hmem : (Env.holding level p.bytes beyond).memory 0 = p.lingo := by
      rw [p.bytes_eq]
      rfl
    have hcopy : (List.range p.body.length).map
        (fun i => (Env.holding level p.bytes beyond).memory (0 + 1 + i)) = p.body := by
      refine List.ext_getElem (by simp) fun i hi hi' => ?_
      rw [List.getElem_map, List.getElem_range, p.bytes_eq, Env.holding, Nat.add_comm]
      exact List.getD_eq_getElem _ _ hi'
    rw [queued_processPacket, hmem, hlen, hcopy]
  have hforwarded : p.forwarded = if p.lingo = 0x00 then some p.body else none := by
    rw [Packet.forwarded, hqueued]
    split <;> rfl
  refine ⟨?_, hforwarded⟩
  rw [hqueued, hforwarded]
  split <;> rfl

theorem Packet.forwarded_eq (p : Packet) :
    p.forwarded = if p.lingo = 0x00 then some p.body else none :=
  (p.queued_eq_forwarded 0 fun _ => 0x00).2

end Snooper

end IpodEsp32
