import IpodEsp32.Snooper.RxTask
import Mathlib.Tactic.SplitIfs

/-!
# What a byte does to the receive task

The variables of `_rxTask` agree with a frame in progress in every reachable state, for
every `N` (`RxState.Sound`); when no frame is in progress they may hold anything. In such
a state a byte does one of six things (`ByteEffect`), which is all that the invariants of
the task need to know about `receiveByte`.
-/

namespace IpodEsp32

namespace Snooper

variable {N : ℕ}

/-! ### Soundness of the variables -/

/-- While a frame is in progress, either its length is still awaited or `expLength`
is the accepted length and `cursor` has not passed it. -/
def RxState.Sound (s : RxState N) : Prop :=
  s.rxIncomplete = true →
    (s.expLength = 0 ∧ s.cursor = 0) ∨
      (0 < s.expLength ∧ s.expLength ≤ 255 ∧ s.expLength ≤ N ∧ s.cursor ≤ s.expLength)

theorem RxState.sound_of_idle {s : RxState N} (h : s.rxIncomplete = false) : s.Sound := by
  intro h'
  rw [h] at h'
  cases h'

theorem RxState.sound_start (lastByteRX lastActivity : UInt32) :
    (RxState.start N lastByteRX lastActivity).Sound :=
  sound_of_idle rfl

/-! ### What a byte does -/

theorem take_setIfInBounds_succ (buf : Vector UInt8 N) {n : ℕ} (hn : n < N) (b : UInt8) :
    (buf.setIfInBounds n b).toList.take (n + 1) = buf.toList.take n ++ [b] := by
  have hlen : n < buf.toList.length := by simpa using hn
  rw [Vector.toList_setIfInBounds, List.take_add_one, List.take_set_of_le le_rfl,
    List.getElem?_set_self hlen, Option.toList_some]

theorem take_setIfInBounds (buf : Vector UInt8 N) (n : ℕ) (b : UInt8) :
    (buf.setIfInBounds n b).toList.take n = buf.toList.take n := by
  rw [Vector.toList_setIfInBounds, List.take_set_of_le le_rfl]

theorem receivePayload_more {s : RxState N} (h : s.cursor ≠ s.expLength) (b : UInt8) :
    receivePayload s b =
      ({ s with buf := s.buf.setIfInBounds s.cursor b, cursor := s.cursor + 1 },
        [.stored s.cursor]) := by
  simp [receivePayload, h]

/-- The checksum byte is stored behind the payload, ends the frame, and the payload
is offered exactly when this byte closes it. -/
theorem receivePayload_last {s : RxState N} (h : s.cursor = s.expLength)
    (hN : s.expLength ≤ N) (b : UInt8) :
    receivePayload s b =
      ({ s with
          buf := s.buf.setIfInBounds s.cursor b
          cursor := s.cursor + 1
          rxIncomplete := false },
        [.stored s.cursor, .summed s.expLength,
          if Closes (s.buf.toList.take s.cursor) b then
            .offered ⟨s.buf.toList.take s.cursor, s.expLength⟩
          else .discarded .checksumMismatch]) := by
  have htake := take_setIfInBounds s.buf s.cursor b
  have hsum : checksum (s.buf.setIfInBounds s.cursor b).toList s.expLength =
      closingByte (s.buf.toList.take s.cursor) := by
    rw [checksum_eq_closingByte _ (by simpa using hN), ← h, htake]
  have hlast : s.cursor + 1 = s.expLength + 1 := by rw [h]
  simp only [receivePayload, hlast, if_true, hsum]
  rw [← h, htake]
  by_cases hc : Closes (s.buf.toList.take s.cursor) b
  · rw [if_pos ((closes_iff_eq_closingByte _ _).1 hc).symm, if_pos hc]
  · rw [if_neg fun h' => hc ((closes_iff_eq_closingByte _ _).2 h'.symm), if_neg hc]

/-- What a byte does in a sound state, and what is known of the state when it does
it. -/
inductive ByteEffect (s : RxState N) (r : ByteRead) : Prop
  | ignored (idle : s.rxIncomplete = false)
      (sync : ¬ (s.prevByte = 0xFF ∧ r.incByte = 0x55))
      (eq : receiveByte s r =
        ({ s with lastActivity := r.activityMillis, prevByte := r.incByte }, []))
  | opened (idle : s.rxIncomplete = false) (sync : s.prevByte = 0xFF ∧ r.incByte = 0x55)
      (eq : receiveByte s r =
        ({ s.stampByte r with
          rxIncomplete := true
          expLength := 0
          cursor := 0
          prevByte := r.incByte }, []))
  | refused (busy : s.rxIncomplete = true) (awaits : s.expLength = 0 ∧ s.cursor = 0)
      (length : N < r.incByte.toNat ∨ r.incByte.toNat = 0)
      (eq : receiveByte s r =
        ({ s.stampByte r with
          expLength := r.incByte.toNat
          rxIncomplete := false
          prevByte := r.incByte },
          [.discarded (if N < r.incByte.toNat then .tooLong else .zeroLength)]))
  | announced (busy : s.rxIncomplete = true) (awaits : s.expLength = 0 ∧ s.cursor = 0)
      (pos : 0 < r.incByte.toNat) (fits : r.incByte.toNat ≤ N)
      (eq : receiveByte s r =
        ({ s.stampByte r with expLength := r.incByte.toNat, prevByte := r.incByte }, []))
  | stored (busy : s.rxIncomplete = true) (more : s.cursor < s.expLength)
      (size : s.expLength ≤ 255) (fits : s.expLength ≤ N)
      (eq : receiveByte s r =
        ({ s.stampByte r with
          buf := s.buf.setIfInBounds s.cursor r.incByte
          cursor := s.cursor + 1
          prevByte := r.incByte }, [.stored s.cursor]))
  | completed (busy : s.rxIncomplete = true) (pos : 0 < s.expLength)
      (last : s.cursor = s.expLength) (size : s.expLength ≤ 255) (fits : s.expLength ≤ N)
      (eq : receiveByte s r =
        ({ s.stampByte r with
          buf := s.buf.setIfInBounds s.cursor r.incByte
          cursor := s.cursor + 1
          rxIncomplete := false
          prevByte := r.incByte },
          [.stored s.cursor, .summed s.expLength,
            if Closes (s.buf.toList.take s.cursor) r.incByte then
              .offered ⟨s.buf.toList.take s.cursor, s.expLength⟩
            else .discarded .checksumMismatch]))

theorem receiveByte_effect {s : RxState N} (hs : s.Sound) (r : ByteRead) :
    ByteEffect s r := by
  cases hbusy : s.rxIncomplete with
  | false =>
      by_cases hsync : s.prevByte = 0xFF ∧ r.incByte = 0x55
      · exact .opened hbusy hsync (receiveByte_sync hbusy r hsync)
      · exact .ignored hbusy hsync (receiveByte_idle hbusy r hsync)
  | true =>
      have heq := receiveByte_busy hbusy r
      by_cases hl : s.expLength = 0 ∧ s.cursor = 0
      · rw [if_pos hl] at heq
        by_cases hlong : N < r.incByte.toNat
        · refine .refused hbusy hl (Or.inl hlong) (heq.trans ?_)
          simp [receiveLength, hlong]
        by_cases hzero : r.incByte.toNat = 0
        · refine .refused hbusy hl (Or.inr hzero) (heq.trans ?_)
          simp [receiveLength, hzero]
        · refine .announced hbusy hl (Nat.pos_of_ne_zero hzero) (not_lt.1 hlong)
            (heq.trans ?_)
          simp [receiveLength, hlong, hzero]
      · rcases hs hbusy with h | ⟨hpos, hsize, hfits, hcur⟩
        · exact absurd h hl
        rw [if_neg hl] at heq
        rcases hcur.lt_or_eq with hmore | hlast
        · rw [receivePayload_more (s := s.stampByte r) hmore.ne] at heq
          exact .stored hbusy hmore hsize hfits heq
        · rw [receivePayload_last (s := s.stampByte r) hlast hfits] at heq
          exact .completed hbusy hpos hlast hsize hfits heq

theorem completed_of_offered {s : RxState N} (hs : s.Sound) {r : ByteRead}
    {cmd : AapCommand} (h : RxEvent.offered cmd ∈ (receiveByte s r).2) :
    s.rxIncomplete = true ∧ s.cursor = s.expLength ∧
      (1 ≤ s.expLength ∧ s.expLength ≤ 255 ∧ s.expLength ≤ N) ∧
        cmd = ⟨s.buf.toList.take s.cursor, s.expLength⟩ := by
  cases receiveByte_effect hs r with
  | completed busy pos last size fits eq =>
      refine ⟨busy, last, ⟨pos, size, fits⟩, ?_⟩
      rw [eq] at h
      by_cases hc : Closes (s.buf.toList.take s.cursor) r.incByte
      · simpa [hc] using h
      · simp [hc] at h
  | ignored _ _ eq => simp [eq] at h
  | opened _ _ eq => simp [eq] at h
  | refused _ _ _ eq => simp [eq] at h
  | announced _ _ _ _ eq => simp [eq] at h
  | stored _ _ _ _ eq => simp [eq] at h

theorem receiveByte_not_pollEnd (s : RxState N) (r : ByteRead) :
    RxEvent.discarded .incomplete ∉ (receiveByte s r).2 ∧
      RxEvent.resetState ∉ (receiveByte s r).2 := by
  have hlength : ∀ a : RxState N,
      RxEvent.discarded .incomplete ∉ (receiveLength a r.incByte).2 ∧
        RxEvent.resetState ∉ (receiveLength a r.incByte).2 := by
    intro a
    simp only [receiveLength]
    split_ifs <;> simp
  have hpayload : ∀ a : RxState N,
      RxEvent.discarded .incomplete ∉ (receivePayload a r.incByte).2 ∧
        RxEvent.resetState ∉ (receivePayload a r.incByte).2 := by
    intro a
    simp only [receivePayload]
    split_ifs <;> simp
  cases hbusy : s.rxIncomplete with
  | false =>
      by_cases hsync : s.prevByte = 0xFF ∧ r.incByte = 0x55
      · simp [receiveByte_sync hbusy r hsync]
      · simp [receiveByte_idle hbusy r hsync]
  | true =>
      rw [receiveByte_busy hbusy]
      split
      · exact hlength _
      · exact hpayload _

theorem receiveByte_sound {s : RxState N} (hs : s.Sound) (r : ByteRead) :
    (receiveByte s r).1.Sound := by
  cases receiveByte_effect hs r with
  | ignored idle _ eq =>
      rw [eq]
      exact RxState.sound_of_idle idle
  | opened _ _ eq =>
      rw [eq]
      exact fun _ => Or.inl ⟨rfl, rfl⟩
  | refused _ _ _ eq =>
      rw [eq]
      exact RxState.sound_of_idle rfl
  | announced _ awaits pos fits eq =>
      rw [eq]
      have hcur : s.cursor ≤ r.incByte.toNat := awaits.2.trans_le (Nat.zero_le _)
      exact fun _ => Or.inr ⟨pos, Nat.le_of_lt_succ r.incByte.toNat_lt, fits, hcur⟩
  | stored _ more size fits eq =>
      rw [eq]
      exact fun _ => Or.inr ⟨Nat.zero_lt_of_lt more, size, fits, more⟩
  | completed _ _ _ _ _ eq =>
      rw [eq]
      exact RxState.sound_of_idle rfl

theorem rxStep_sound (t : Timeouts) {s : RxState N} (hs : s.Sound) (i : RxInput) :
    (rxStep t s i).1.Sound := by
  cases i with
  | byte r => exact receiveByte_sound hs r
  | pollEnd e =>
      rw [rxStep_pollEnd_eq]
      exact fun hbusy => hs (Bool.and_eq_true_iff.1 hbusy).1

theorem rxRun_sound (t : Timeouts) {s : RxState N} (hs : s.Sound) (inputs : List RxInput) :
    (rxRun t s inputs).Sound := by
  induction inputs generalizing s with
  | nil => exact hs
  | cons i inputs ih => exact ih (rxStep_sound t hs i)

theorem RxState.Reachable.sound {t : Timeouts} {s : RxState N} (h : s.Reachable t) :
    s.Sound := by
  obtain ⟨m₁, m₂, inputs, rfl⟩ := h
  exact rxRun_sound t (RxState.sound_start m₁ m₂) inputs

end Snooper

end IpodEsp32
