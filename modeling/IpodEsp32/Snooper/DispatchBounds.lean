import IpodEsp32.Snooper.Dispatch

/-!
# The bytes that dispatch reads

The processors read at fixed offsets that depend on the command only, whatever the
length of the packet. `extent` is the length a packet must have for all of them to lie
inside; it depends on the Lingo, on the command, and on whether the build logs the
parameters. Handling a packet stays inside its payload exactly when it is that long
(`contained_iff_extent_le`); the shortest packet the framer accepts is not
(`not_contained_shortest`).
-/

namespace IpodEsp32

namespace Snooper

/-- The length of packet that `processLingo0x00` needs, from the command byte on. -/
def extent0x00 (coreDebugLevel : ℕ) : Option L0x00 → ℕ
  | some .identify | some .requestLingoProtocolVersion | some .retAccessoryInfo =>
      if LogLevel.info.threshold ≤ coreDebugLevel then 2 else 1
  | _ => 1

def extent0x04 (coreDebugLevel : ℕ) : Option L0x04 → ℕ
  | some .getIndexedPlayingTrackInfo => 7
  | some .getNumberCategorizedDBRecords => 3
  | some .retrieveCategorizedDatabaseRecords => 11
  | some .getIndexedPlayingTrackTitle | some .getIndexedPlayingTrackArtistName
  | some .getIndexedPlayingTrackAlbumName | some .playCurrentSelection
  | some .setCurrentPlayingTrack => 6
  | some .setPlayStatusChangeNotification | some .playControl | some .setShuffle
  | some .setRepeat => if LogLevel.info.threshold ≤ coreDebugLevel then 3 else 2
  | _ => 2

/-- The length that the handling of a packet needs, by its Lingo and its command. -/
def extent (coreDebugLevel : ℕ) : List UInt8 → ℕ
  | 0x00 :: cmdID :: _ => 1 + extent0x00 coreDebugLevel (L0x00.ofByte cmdID)
  | [0x00] => 2
  | 0x04 :: _ :: cmdID :: _ => 1 + extent0x04 coreDebugLevel (L0x04.ofByte cmdID)
  | 0x04 :: _ => 3
  | _ => 1

/-- Every byte read while the packet at the start of the memory is handled lies in its
payload, and the length passed on is one less than its own. -/
def Contained (env : Env) (p : Packet) : Prop :=
  (processPacket 0 (UInt32.ofNat p.bytes.length)).Within env p.bytes.length ∧
    ∀ len ∈ (processPacket 0 (UInt32.ofNat p.bytes.length)).processed env,
      len.toNat + 1 = p.bytes.length

instance (env : Env) (p : Packet) : Decidable (Contained env p) :=
  inferInstanceAs (Decidable (_ ∧ _))

/-! ### The processors -/

theorem within_processLingo0x00_iff (byteArray : ℕ) (len : UInt32) (env : Env) :
    (processLingo0x00 byteArray len).Within env (byteArray + len.toNat) ↔
      extent0x00 env.coreDebugLevel (L0x00.ofByte (env.memory byteArray)) ≤ len.toNat := by
  have hparam : (LogLevel.info.threshold ≤ env.coreDebugLevel → 1 < len.toNat) ∧
      0 < len.toNat ↔
        (if LogLevel.info.threshold ≤ env.coreDebugLevel then 2 else 1) ≤ len.toNat := by
    split <;> omega
  simp only [processLingo0x00, logLingo0x00, within_bind, within_readByte,
    value_readByte, within_queuePacket, Nat.add_lt_add_iff_left, imp_self, implies_true,
    and_true]
  rcases L0x00.ofByte (env.memory byteArray) with _ | c
  · simp [extent0x00, Nat.succ_le_iff]
  · cases c with
    | identify | requestLingoProtocolVersion | retAccessoryInfo =>
        simpa [extent0x00, and_comm] using hparam
    | _ => simp [extent0x00, Nat.succ_le_iff]

theorem within_processLingo0x04_iff (byteArray : ℕ) (len : UInt32) (env : Env) (n : ℕ) :
    (processLingo0x04 byteArray len).Within env (byteArray + n) ↔
      extent0x04 env.coreDebugLevel (L0x04.ofByte (env.memory (byteArray + 1))) ≤ n := by
  have hparam : 1 < n ∧ (LogLevel.info.threshold ≤ env.coreDebugLevel → 2 < n) ↔
      (if LogLevel.info.threshold ≤ env.coreDebugLevel then 3 else 2) ≤ n := by
    split <;> omega
  simp only [processLingo0x04, logLingo0x04, within_bind, within_readByte,
    value_readByte, Nat.add_lt_add_iff_left]
  rcases L0x04.ofByte (env.memory (byteArray + 1)) with _ | c
  · simp [extent0x04, Nat.succ_le_iff]
  · cases c with
    | getIndexedPlayingTrackInfo =>
        simp [extent0x04, Nat.add_assoc]
        omega
    | getNumberCategorizedDBRecords =>
        simp [extent0x04]
        omega
    | retrieveCategorizedDatabaseRecords =>
        simp [extent0x04, Nat.add_assoc]
        omega
    | getIndexedPlayingTrackTitle | getIndexedPlayingTrackArtistName
    | getIndexedPlayingTrackAlbumName | playCurrentSelection | setCurrentPlayingTrack =>
        simp [extent0x04, logTrackIndex, Nat.add_assoc]
        omega
    | setPlayStatusChangeNotification | playControl | setShuffle | setRepeat =>
        simpa [extent0x04, logParameter] using hparam
    | _ => simp [extent0x04, Nat.succ_le_iff]

theorem one_le_extent0x00 (coreDebugLevel : ℕ) (c : Option L0x00) :
    1 ≤ extent0x00 coreDebugLevel c := by
  unfold extent0x00
  split
  all_goals first | exact le_rfl | (split <;> decide)

theorem two_le_extent0x04 (coreDebugLevel : ℕ) (c : Option L0x04) :
    2 ≤ extent0x04 coreDebugLevel c := by
  unfold extent0x04
  split
  all_goals first | decide | (split <;> decide)

/-! ### Dispatch -/

theorem extent_of_other (coreDebugLevel : ℕ) {lingo : UInt8} (sub : List UInt8)
    (h0 : lingo ≠ 0x00) (h4 : lingo ≠ 0x04) : extent coreDebugLevel (lingo :: sub) = 1 := by
  unfold extent
  split <;> simp_all

/-- Without a command byte the packet is too short, whatever is read behind it. -/
theorem extent0x00_le_iff (coreDebugLevel : ℕ) (sub : List UInt8) (beyond : ℕ → UInt8) :
    extent0x00 coreDebugLevel (L0x00.ofByte
        ((Env.holding coreDebugLevel (0x00 :: sub) beyond).memory 1)) ≤ sub.length ↔
      extent coreDebugLevel (0x00 :: sub) ≤ 1 + sub.length := by
  cases sub with
  | nil =>
      have hpos := one_le_extent0x00 coreDebugLevel (L0x00.ofByte (beyond 1))
      simp [extent, Env.holding]
      omega
  | cons cmdID rest => simp [extent, Env.holding]

theorem extent0x04_le_iff (coreDebugLevel : ℕ) (sub : List UInt8) (beyond : ℕ → UInt8) :
    extent0x04 coreDebugLevel (L0x04.ofByte
        ((Env.holding coreDebugLevel (0x04 :: sub) beyond).memory 2)) ≤ sub.length ↔
      extent coreDebugLevel (0x04 :: sub) ≤ 1 + sub.length := by
  have htwo := two_le_extent0x04 coreDebugLevel (L0x04.ofByte (beyond 2))
  rcases sub with _ | ⟨high, _ | ⟨cmdID, rest⟩⟩
  · simp [extent, Env.holding]
    omega
  · simp [extent, Env.holding]
    omega
  · simp [extent, Env.holding]

theorem within_processPacket_iff (len : UInt32) (env : Env) (n : ℕ) :
    (processPacket 0 len).Within env (1 + n) ↔
      (env.memory 0 = 0x00 → (processLingo0x00 1 (len - 1)).Within env (1 + n)) ∧
        (env.memory 0 = 0x04 → (processLingo0x04 1 (len - 1)).Within env (1 + n)) := by
  simp only [processPacket, within_bind, within_readByte, value_readByte]
  by_cases h0 : env.memory 0 = 0x00
  · simp [h0]
  · by_cases h4 : env.memory 0 = 0x04
    · simp [h4]
    · simp [h0, h4]

theorem processed_length (env : Env) (p : Packet) :
    ∀ len ∈ (processPacket 0 (UInt32.ofNat p.bytes.length)).processed env,
      len.toNat + 1 = p.bytes.length := by
  obtain ⟨n, hn⟩ := Nat.exists_eq_succ_of_ne_zero (Nat.one_le_iff_ne_zero.1 p.one_le_length)
  have hle := p.length_le
  intro len hlen
  rw [processed_processPacket, hn] at hlen
  split at hlen
  · rw [List.mem_singleton.1 hlen, toNat_ofNat_sub_one (by omega), hn]
  · cases hlen

/-- Handling a packet stays inside its payload, whatever lies behind it, exactly when
the packet is as long as its Lingo and its command need. -/
theorem contained_iff_extent_le (coreDebugLevel : ℕ) (p : Packet) (beyond : ℕ → UInt8) :
    Contained (Env.holding coreDebugLevel p.bytes beyond) p ↔
      extent coreDebugLevel p.bytes ≤ p.bytes.length := by
  have hlens := processed_length (Env.holding coreDebugLevel p.bytes beyond) p
  obtain ⟨bytes, hone, hle⟩ := p
  cases bytes with
  | nil => simp at hone
  | cons lingo sub =>
      have hsub : sub.length ≤ 254 := Nat.le_of_succ_le_succ hle
      have hlen : (lingo :: sub).length = 1 + sub.length := by simp [Nat.add_comm]
      have hpass : (UInt32.ofNat (1 + sub.length) - 1).toNat = sub.length := by
        rw [Nat.add_comm]
        exact toNat_ofNat_sub_one hsub
      have hmem : (Env.holding coreDebugLevel (lingo :: sub) beyond).memory 0 = lingo := rfl
      rw [Contained, and_iff_left hlens]
      simp only [hlen]
      rw [within_processPacket_iff, hmem]
      by_cases h0 : lingo = 0x00
      · subst h0
        have hproc := within_processLingo0x00_iff 1 (UInt32.ofNat (1 + sub.length) - 1)
          (Env.holding coreDebugLevel (0x00 :: sub) beyond)
        rw [hpass] at hproc
        rw [hproc, ← extent0x00_le_iff coreDebugLevel sub beyond]
        simp [Env.holding]
      · by_cases h4 : lingo = 0x04
        · subst h4
          rw [within_processLingo0x04_iff, ← extent0x04_le_iff coreDebugLevel sub beyond]
          simp [Env.holding]
        · rw [extent_of_other coreDebugLevel sub h0 h4]
          simp [h0, h4]

/-- The shortest packet of Lingo `0x00` has no command byte, and the processor reads
one behind it. -/
theorem not_contained_shortest :
    ¬ Contained (Env.holding 0 shortest.bytes fun _ => 0x00) shortest := by
  decide

end Snooper

end IpodEsp32
