import IpodEsp32.Snooper.Reception
import IpodEsp32.Transition.Run

/-!
# Bounds of the receive buffer

`buf` holds `N = MAX_PACKET_SIZE` bytes. The length guard of `_rxTask` accepts every
announced length up to `N`, and the checksum byte is stored behind the payload before
it is compared, so a frame of length `N` has its checksum byte written to `buf[N]`.
This is the only access outside `buf` (`rxStep_inBounds`), and a run stays in bounds
exactly when it reads no such byte (`rxTask_inBounds_iff`). Whether a build can read
one depends on `N` alone (`rxTask_inBounds_iff_le`): a length byte is at most 255.
-/

namespace IpodEsp32

namespace Snooper

/-- The indices of `buf` an event accesses: the byte written, or the bytes read by
`_checksum` or by `memcpy`. -/
def RxEvent.accesses : RxEvent → List ℕ
  | .stored index => [index]
  | .summed len => List.range len
  | .offered cmd => List.range cmd.length
  | .discarded _ => []
  | .resetState => []

/-- Every access to `buf` among the events has its index below `N`. -/
def InBounds (N : ℕ) (events : List RxEvent) : Prop :=
  ∀ e ∈ events, ∀ i ∈ e.accesses, i < N

instance (N : ℕ) (events : List RxEvent) : Decidable (InBounds N events) :=
  inferInstanceAs (Decidable (∀ e ∈ events, ∀ i ∈ e.accesses, i < N))

variable {N : ℕ}

@[simp] theorem inBounds_nil : InBounds N [] := by
  intro e he
  cases he

@[simp] theorem inBounds_cons (e : RxEvent) (events : List RxEvent) :
    InBounds N (e :: events) ↔ (∀ i ∈ e.accesses, i < N) ∧ InBounds N events :=
  List.forall_mem_cons

theorem inBounds_append (events more : List RxEvent) :
    InBounds N (events ++ more) ↔ InBounds N events ∧ InBounds N more :=
  List.forall_mem_append

/-! ### One input -/

/-- The payload of the frame in progress is complete: the next byte is its checksum
byte. -/
def RxState.AwaitsChecksum (s : RxState N) : Prop :=
  s.rxIncomplete = true ∧ 0 < s.expLength ∧ s.cursor = s.expLength

instance (s : RxState N) : Decidable s.AwaitsChecksum :=
  inferInstanceAs (Decidable (_ ∧ _ ∧ _))

/-- The input is not the checksum byte of a frame whose payload fills `buf`. -/
def ChecksumFits (s : RxState N) : RxInput → Prop
  | .byte _ => s.AwaitsChecksum → s.expLength ≠ N
  | .pollEnd _ => True

instance (s : RxState N) : ∀ i, Decidable (ChecksumFits s i)
  | .byte _ => inferInstanceAs (Decidable (_ → _))
  | .pollEnd _ => isTrue trivial

theorem pollEnd_inBounds (t : Timeouts) (s : RxState N) (e : PollEnd) :
    InBounds N (rxStep t s (.pollEnd e)).2 := by
  rw [rxStep_pollEnd_eq, inBounds_append]
  constructor <;> split_ifs <;> simp [RxEvent.accesses]

/-- In a sound state an input accesses `buf` out of bounds only as the checksum byte
of a frame of length `N`. -/
theorem rxStep_inBounds (t : Timeouts) {s : RxState N} (hs : s.Sound) (i : RxInput) :
    InBounds N (rxStep t s i).2 ↔ ChecksumFits s i := by
  cases i with
  | pollEnd e => exact iff_of_true (pollEnd_inBounds t s e) trivial
  | byte r =>
      rw [rxStep, ChecksumFits]
      -- only a byte that completes a frame is one with a condition to meet
      have hfree : ¬ s.AwaitsChecksum → InBounds N (receiveByte s r).2 →
          (InBounds N (receiveByte s r).2 ↔ (s.AwaitsChecksum → s.expLength ≠ N)) :=
        fun hnot hin => iff_of_true hin fun h => absurd h hnot
      cases receiveByte_effect hs r with
      | ignored idle _ eq =>
          refine hfree (fun h => ?_) (by simp [eq])
          cases idle.symm.trans h.1
      | opened idle _ eq =>
          refine hfree (fun h => ?_) (by simp [eq])
          cases idle.symm.trans h.1
      | refused _ awaits _ eq =>
          exact hfree (fun h => h.2.1.ne' awaits.1) (by simp [eq, RxEvent.accesses])
      | announced _ awaits _ _ eq =>
          exact hfree (fun h => h.2.1.ne' awaits.1) (by simp [eq])
      | stored _ more _ fits eq =>
          refine hfree (fun h => more.ne h.2.2) ?_
          simpa [eq, RxEvent.accesses] using more.trans_le fits
      | completed busy pos last _ fits eq =>
          have hread : ∀ i ∈ List.range s.expLength, i < N :=
            fun i hi => (List.mem_range.1 hi).trans_le fits
          have hstore : InBounds N (receiveByte s r).2 ↔ s.cursor < N := by
            rw [eq, inBounds_cons, inBounds_cons, inBounds_cons]
            refine ⟨fun h => h.1 s.cursor (List.mem_singleton_self _), fun h =>
              ⟨List.forall_mem_singleton.2 h, hread, ?_, inBounds_nil⟩⟩
            split_ifs
            · exact hread
            · simp [RxEvent.accesses]
          rw [hstore, last]
          exact ⟨fun h _ => h.ne, fun h => lt_of_le_of_ne fits (h ⟨busy, pos, last⟩)⟩

/-! ### Runs -/

theorem throughout_inBounds_iff (t : Timeouts) {s : RxState N} (hs : s.Sound)
    (inputs : List RxInput) :
    Transition.Throughout (rxStep t) (fun events _ => InBounds N events) s inputs ↔
      Transition.StepsMeet (rxStep t) ChecksumFits s inputs := by
  refine Transition.throughout_iff_stepsMeet
    (I := fun events s => RxState.Sound s ∧ InBounds N events)
    ⟨hs, inBounds_nil⟩ ?_ (fun _ _ h => h.2) ?_ inputs
  · intro events s i hI hfits
    refine ⟨rxStep_sound t hI.1 i, ?_⟩
    rw [inBounds_append]
    exact ⟨hI.2, (rxStep_inBounds t hI.1 i).2 hfits⟩
  · intro events s i hI hfits hin
    rw [inBounds_append] at hin
    exact hfits ((rxStep_inBounds t hI.1 i).1 hin.2)

/-- For every `MAX_PACKET_SIZE`, a run of the task accesses `buf` in bounds all along
exactly when it reads no checksum byte of a frame of that length. -/
theorem rxTask_inBounds_iff (N : ℕ) (t : Timeouts) (lastByteRX lastActivity : UInt32)
    (inputs : List RxInput) :
    Transition.Throughout (rxStep t) (fun events _ => InBounds N events)
        (RxState.start N lastByteRX lastActivity) inputs ↔
      Transition.StepsMeet (rxStep t) ChecksumFits
        (RxState.start N lastByteRX lastActivity) inputs :=
  throughout_inBounds_iff t (RxState.sound_start lastByteRX lastActivity) inputs

/-- A frame as long as a buffer of 16 bytes: its checksum byte is written to
`buf[16]`. -/
theorem rxTask_not_inBounds :
    ¬ ∀ N ≥ 1, ∀ (t : Timeouts) (lastByteRX lastActivity : UInt32) (inputs : List RxInput),
      Transition.Throughout (rxStep t) (fun events _ => InBounds N events)
        (RxState.start N lastByteRX lastActivity) inputs := by
  intro h
  have hrun := (h 16 (by decide) {} 0 0
    (pollAt 10 ([0xFF, 0x55, 0x10] ++ List.replicate 16 0x00 ++ [0xF0]))).last
  revert hrun
  decide +kernel

/-! ### Builds -/

theorem run_payload (t : Timeouts) {s : RxState N} (rs : List ByteRead)
    (hbusy : s.rxIncomplete = true) (hpos : 0 < s.expLength)
    (hroom : s.cursor + rs.length ≤ s.expLength) :
    (Transition.run (rxStep t) s (rs.map .byte)).1.rxIncomplete = true ∧
      (Transition.run (rxStep t) s (rs.map .byte)).1.expLength = s.expLength ∧
      (Transition.run (rxStep t) s (rs.map .byte)).1.cursor = s.cursor + rs.length := by
  induction rs generalizing s with
  | nil => exact ⟨hbusy, rfl, rfl⟩
  | cons r rs ih =>
      rw [List.length_cons] at hroom ⊢
      have hl : ¬ (s.expLength = 0 ∧ s.cursor = 0) := fun h => hpos.ne' h.1
      have hmore : (s.stampByte r).cursor ≠ (s.stampByte r).expLength :=
        (by omega : s.cursor < s.expLength).ne
      have hstep : rxStep t s (.byte r) =
          ({ s.stampByte r with
              buf := s.buf.setIfInBounds s.cursor r.incByte
              cursor := s.cursor + 1
              prevByte := r.incByte }, [.stored s.cursor]) := by
        rw [rxStep, receiveByte_busy hbusy, if_neg hl, receivePayload_more hmore]
        rfl
      rw [List.map_cons, Transition.run_cons, hstep]
      obtain ⟨h₁, h₂, h₃⟩ := ih (s := { s.stampByte r with
          buf := s.buf.setIfInBounds s.cursor r.incByte
          cursor := s.cursor + 1
          prevByte := r.incByte }) hbusy hpos (by change s.cursor + 1 + _ ≤ s.expLength; omega)
      exact ⟨h₁, h₂, h₃.trans (Nat.add_right_comm _ _ _)⟩

def frameHead (n : ℕ) : List RxInput :=
  [0xFF, 0x55, UInt8.ofNat n].map fun b => .byte ⟨0, b, 0⟩

theorem run_frameHead (t : Timeouts) (hN : 1 ≤ N) (hle : N ≤ 255)
    (lastByteRX lastActivity : UInt32) :
    let s := (Transition.run (rxStep t) (RxState.start N lastByteRX lastActivity)
      (frameHead N)).1
    s.rxIncomplete = true ∧ s.expLength = N ∧ s.cursor = 0 := by
  have hsize : N % 256 = N := by omega
  have hpos : ¬ N = 0 := by omega
  simp [frameHead, Transition.run_cons, rxStep, receiveByte, RxState.start, receiveLength,
    hsize, hpos]

/-- Every run of a build stays in bounds exactly when no length byte can announce
as much as `buf` holds. -/
theorem rxTask_inBounds_iff_le (t : Timeouts) (hN : 1 ≤ N) :
    (∀ lastByteRX lastActivity inputs,
        Transition.Throughout (rxStep t) (fun events _ => InBounds N events)
          (RxState.start N lastByteRX lastActivity) inputs) ↔
      256 ≤ N := by
  constructor
  · intro h
    by_contra hlt
    -- the frame that announces `N` bytes, read up to its checksum byte
    obtain ⟨hbusy, hexp, hcur⟩ := run_frameHead t hN (by omega) 0 0
    let rs : List ByteRead := List.replicate N ⟨0, 0x00, 0⟩
    obtain ⟨hbusy', hexp', hcur'⟩ := run_payload t rs hbusy (by omega)
      (by rw [hcur, hexp, List.length_replicate, Nat.zero_add])
    have hmeet := (throughout_inBounds_iff t (RxState.sound_start 0 0) _).1
      (h 0 0 (frameHead N ++ rs.map .byte ++ [.byte ⟨0, 0x00, 0⟩]))
    have hfits := hmeet _ _ List.prefix_rfl
    rw [Transition.run_append] at hfits
    refine hfits ⟨hbusy', hN.trans_eq (hexp'.trans hexp).symm, ?_⟩ (hexp'.trans hexp)
    rw [hcur', hexp', hcur, hexp, List.length_replicate, Nat.zero_add]
  · intro hle m₁ m₂ inputs
    rw [throughout_inBounds_iff t (RxState.sound_start m₁ m₂)]
    rintro pre i -
    have hs : (Transition.run (rxStep t) (RxState.start N m₁ m₂) pre).1.Sound :=
      Transition.invariant (I := fun _ s => RxState.Sound s) (RxState.sound_start m₁ m₂)
        (fun _ s i hs => rxStep_sound t hs i) pre
    cases i with
    | pollEnd e => trivial
    | byte r =>
        intro hlast hexp
        rcases hs hlast.1 with h | h
        · exact hlast.2.1.ne' h.1
        · omega

end Snooper

end IpodEsp32
