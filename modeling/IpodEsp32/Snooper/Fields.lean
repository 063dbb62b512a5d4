import IpodEsp32.Snooper.Dispatch

/-!
# Multi-byte fields

The commands of the extended interface that name tracks or records carry their numbers
as 32-bit fields, high byte first. `L0x04.fieldOffsets` says where; what
`processLingo0x04` reads there are the numbers written by the accessory, as the line it
logs shows (`byteOrder`).
-/

namespace IpodEsp32

namespace Snooper

/-- Where the 32-bit fields of a command begin, counted from its first command byte. -/
def L0x04.fieldOffsets : L0x04 → List ℕ
  | .getIndexedPlayingTrackInfo => [3]
  | .retrieveCategorizedDatabaseRecords => [3, 7]
  | .getIndexedPlayingTrackTitle | .getIndexedPlayingTrackArtistName
  | .getIndexedPlayingTrackAlbumName | .playCurrentSelection
  | .setCurrentPlayingTrack => [2]
  | _ => []

/-- The number that `bytes` hold at position `p` in four bytes, high byte first. -/
def fieldAt (bytes : List UInt8) (p : ℕ) : ℕ := bigEndian ((bytes.drop p).take 4)

/-! ### The lines a handler logs -/

@[simp] def Effect.logged? : Effect → Option (LogLevel × String × List ℕ)
  | .logged level format args => some (level, format, args)
  | _ => none

variable {α β : Type}

def Handler.logged (x : Handler α) (env : Env) : List (LogLevel × String × List ℕ) :=
  (x.effects env).filterMap Effect.logged?

@[simp] theorem logged_bind (x : Handler α) (f : α → Handler β) (env : Env) :
    (x >>= f).logged env = x.logged env ++ (f (x.value env)).logged env :=
  List.filterMap_append

@[simp] theorem logged_espLog (level : LogLevel) (format : String)
    (args : Handler (List ℕ)) (env : Env) :
    (espLog level format args).logged env =
      if level.threshold ≤ env.coreDebugLevel then
        args.logged env ++ [(level, format, args.value env)]
      else [] := by
  by_cases h : level.threshold ≤ env.coreDebugLevel <;>
    simp [Handler.logged, Handler.effects, espLog, h]

/-! ### What a packet yields -/

def Yields (x : Handler α) (bytes : List UInt8) (beyond : ℕ → UInt8) (a : α) : Prop :=
  ∀ coreDebugLevel, x.logged (Env.holding coreDebugLevel bytes beyond) = [] ∧
    x.value (Env.holding coreDebugLevel bytes beyond) = a

/-- In every build that includes it the handler logs one line, whose last arguments are
the numbers `fields`. -/
def Reports (x : Handler α) (bytes : List UInt8) (beyond : ℕ → UInt8)
    (fields : List ℕ) : Prop :=
  ∃ level format params, ∀ coreDebugLevel,
    x.logged (Env.holding coreDebugLevel bytes beyond) =
      if level.threshold ≤ coreDebugLevel then [(level, format, params ++ fields)] else []

section

variable {bytes : List UInt8} {beyond : ℕ → UInt8}

theorem yields_pure (a : α) : Yields (pure a : Handler α) bytes beyond a :=
  fun _ => ⟨rfl, rfl⟩

theorem yields_readByte (p : ℕ) :
    Yields (readByte p) bytes beyond (bytes.getD p (beyond p)) :=
  fun _ => ⟨rfl, rfl⟩

theorem yields_readWord {p : ℕ} (h : p + 4 ≤ bytes.length) :
    Yields (readWord p) bytes beyond (fieldAt bytes p) := by
  intro coreDebugLevel
  have hmem : ∀ i (hi : i < bytes.length),
      (Env.holding coreDebugLevel bytes beyond).memory i = bytes[i] := fun i hi =>
    List.getD_eq_getElem bytes (beyond i) hi
  refine ⟨rfl, ?_⟩
  rw [value_readWord, hmem p (by omega), hmem (p + 1) (by omega), hmem (p + 2) (by omega),
    hmem (p + 3) (by omega), fieldAt, List.drop_eq_getElem_cons (by omega : p < bytes.length),
    List.drop_eq_getElem_cons (by omega : p + 1 < bytes.length),
    List.drop_eq_getElem_cons (by omega : p + 1 + 1 < bytes.length),
    List.drop_eq_getElem_cons (by omega : p + 1 + 1 + 1 < bytes.length),
    ← littleEndian_reverse]
  rfl

theorem Yields.bind {x : Handler α} {f : α → Handler β} {a : α} {b : β}
    (hx : Yields x bytes beyond a) (hf : Yields (f a) bytes beyond b) :
    Yields (x >>= f) bytes beyond b := by
  intro coreDebugLevel
  rw [logged_bind, value_bind, (hx coreDebugLevel).1, (hx coreDebugLevel).2]
  exact hf coreDebugLevel

theorem Yields.reports {x : Handler α} {f : α → Handler β} {a : α} {fields : List ℕ}
    (hx : Yields x bytes beyond a) (hf : Reports (f a) bytes beyond fields) :
    Reports (x >>= f) bytes beyond fields := by
  obtain ⟨level, format, params, h⟩ := hf
  refine ⟨level, format, params, fun coreDebugLevel => ?_⟩
  rw [logged_bind, (hx coreDebugLevel).1, (hx coreDebugLevel).2]
  exact h coreDebugLevel

theorem reports_espLog (level : LogLevel) (format : String) {args : Handler (List ℕ)}
    (params : List ℕ) {fields : List ℕ} (h : Yields args bytes beyond (params ++ fields)) :
    Reports (espLog level format args) bytes beyond fields := by
  refine ⟨level, format, params, fun coreDebugLevel => ?_⟩
  rw [logged_espLog, (h coreDebugLevel).1, (h coreDebugLevel).2, List.nil_append]
  rfl

theorem reports_plain (level : LogLevel) (format : String) (args : List ℕ) :
    Reports (espLog level format (pure args)) bytes beyond [] := by
  refine reports_espLog level format args ?_
  rw [List.append_nil]
  exact yields_pure args

theorem logParameter_reports (format : String) (byteArray : ℕ) (cmdID : UInt8) :
    Reports (logParameter format byteArray cmdID) bytes beyond [] :=
  reports_espLog _ _ [_, _] ((yields_readByte _).bind (yields_pure _))

theorem logTrackIndex_reports (format : String) {byteArray : ℕ} (cmdID : UInt8)
    (h : byteArray + 2 + 4 ≤ bytes.length) :
    Reports (logTrackIndex format byteArray cmdID) bytes beyond
      [fieldAt bytes (byteArray + 2)] :=
  (yields_readWord h).reports (reports_espLog _ _ [cmdID.toNat] (yields_pure _))

/-- The switch of `processLingo0x04` reports the fields of the command. -/
theorem logLingo0x04_reports {byteArray : ℕ} {cmdID : UInt8} {c : L0x04}
    (hc : L0x04.ofByte cmdID = some c)
    (hlong : ∀ o ∈ c.fieldOffsets, byteArray + o + 4 ≤ bytes.length) :
    Reports (logLingo0x04 byteArray cmdID) bytes beyond
      (c.fieldOffsets.map fun o => fieldAt bytes (byteArray + o)) := by
  unfold logLingo0x04
  rw [hc]
  cases c with
  | getIndexedPlayingTrackInfo =>
      have hindex := hlong 3 (List.mem_singleton_self 3)
      exact (yields_readWord hindex).reports ((yields_readByte _).reports
        (reports_espLog _ _ [_, _] ((yields_readByte _).bind (yields_pure _))))
  | retrieveCategorizedDatabaseRecords =>
      have hstart := hlong 3 (List.mem_cons_self)
      have hcounts := hlong 7 (List.mem_cons_of_mem 3 (List.mem_singleton_self 7))
      exact (yields_readByte _).reports ((yields_readWord hstart).reports
        ((yields_readWord hcounts).reports (reports_espLog _ _ [_, _] (yields_pure _))))
  | getIndexedPlayingTrackTitle | getIndexedPlayingTrackArtistName
  | getIndexedPlayingTrackAlbumName | playCurrentSelection | setCurrentPlayingTrack =>
      exact logTrackIndex_reports _ _ (hlong 2 (List.mem_singleton_self 2))
  | setPlayStatusChangeNotification | playControl | setShuffle | setRepeat =>
      exact logParameter_reports _ _ _
  | getNumberCategorizedDBRecords => exact (yields_readByte _).reports (reports_plain _ _ _)
  | _ => exact reports_plain _ _ _

end

/-- Swapping the bytes of a value of any width: bytes loaded low byte first and swapped
are the number they are written as, swapping is its own inverse, and the line that
`processLingo0x04` logs for a packet long enough to hold the fields of its command ends
with the numbers written there. As in dispatch, the pointer handed to the processor is
the one behind the Lingo byte. -/
theorem byteOrder :
    (∀ bytes : List UInt8, swapEndian bytes.length (littleEndian bytes) =
        ∑ k : Fin bytes.length, (bytes.get k).toNat * 256 ^ (bytes.length - 1 - k)) ∧
      (∀ n u, u < 256 ^ n → swapEndian n u < 256 ^ n ∧ swapEndian n (swapEndian n u) = u) ∧
      ∀ (p : Packet) (c : L0x04) (len : UInt32) (beyond : ℕ → UInt8),
        p.bytes[2]? = some c.code → (∀ o ∈ c.fieldOffsets, 1 + o + 4 ≤ p.bytes.length) →
          Reports (processLingo0x04 1 len) p.bytes beyond
            (c.fieldOffsets.map fun o => fieldAt p.bytes (1 + o)) := by
  refine ⟨swapEndian_littleEndian_eq_bigEndian,
    fun n u h => ⟨swapEndian_lt n u, swapEndian_swapEndian h⟩, ?_⟩
  intro p c len beyond hcmd hlong
  have hbyte : p.bytes.getD 2 (beyond 2) = c.code := by
    rw [List.getD_eq_getElem?_getD, hcmd, Option.getD_some]
  refine (yields_readByte (1 + 1)).reports (logLingo0x04_reports ?_ hlong)
  rw [hbyte, L0x04.ofByte_code]

def retrieveRecords : Packet where
  bytes := [0x04, 0x00, 0x1A, 0x05, 0x00, 0x00, 0x00, 0x07, 0x00, 0x01, 0x00, 0x02]
  one_le_length := by decide
  length_le := by decide

theorem byteOrder_retrieveRecords :
    Reports (processLingo0x04 1 11) retrieveRecords.bytes (fun _ => 0x00) [7, 65538] ∧
      swapEndian 3 (swapEndian 3 0x01FF00) = 0x01FF00 := by
  have hfields : L0x04.retrieveCategorizedDatabaseRecords.fieldOffsets.map
      (fun o => fieldAt retrieveRecords.bytes (1 + o)) = [7, 65538] := by
    decide
  have h := byteOrder.2.2 retrieveRecords .retrieveCategorizedDatabaseRecords 11
    (fun _ => 0x00) rfl (by decide)
  rw [hfields] at h
  exact ⟨h, (byteOrder.2.1 3 0x01FF00 (by decide)).2⟩

end Snooper

end IpodEsp32
