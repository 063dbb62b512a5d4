import IpodEsp32.Snooper.ByteEffect

/-!
# The timestamps of the receive task

What each input does to `lastByteRX` and `lastActivity`. A byte always stores a reading
in `lastActivity`, and stores one in `lastByteRX` if it belongs to a frame. The end of
a poll compares both, and changes `lastActivity` when the serial check fires.
-/

namespace IpodEsp32

namespace Snooper

variable {N : ℕ}

/-- A byte for which `lastByteRX` is refreshed: one of the frame in progress, or the
second of a sync pair. -/
def RxState.Stamps (s : RxState N) (incByte : UInt8) : Prop :=
  s.rxIncomplete = true ∨ s.prevByte = 0xFF ∧ incByte = 0x55

instance (s : RxState N) (incByte : UInt8) : Decidable (s.Stamps incByte) :=
  inferInstanceAs (Decidable (_ ∨ _))

/-! ### A byte -/

theorem receiveLength_stamps (s : RxState N) (b : UInt8) :
    (receiveLength s b).1.lastByteRX = s.lastByteRX ∧
      (receiveLength s b).1.lastActivity = s.lastActivity := by
  simp only [receiveLength]
  split_ifs <;> exact ⟨rfl, rfl⟩

theorem receivePayload_stamps (s : RxState N) (b : UInt8) :
    (receivePayload s b).1.lastByteRX = s.lastByteRX ∧
      (receivePayload s b).1.lastActivity = s.lastActivity := by
  simp only [receivePayload]
  split_ifs <;> exact ⟨rfl, rfl⟩

theorem receiveByte_of_stamps {s : RxState N} {r : ByteRead} (h : s.Stamps r.incByte) :
    (receiveByte s r).1.lastByteRX = r.byteMillis ∧
      (receiveByte s r).1.lastActivity = r.activityMillis := by
  cases hbusy : s.rxIncomplete with
  | false =>
      have hsync : s.prevByte = 0xFF ∧ r.incByte = 0x55 :=
        h.resolve_left (by rw [hbusy]; exact Bool.false_ne_true)
      rw [receiveByte_sync hbusy r hsync]
      exact ⟨rfl, rfl⟩
  | true =>
      rw [receiveByte_busy hbusy]
      split
      · exact receiveLength_stamps (s.stampByte r) r.incByte
      · exact receivePayload_stamps (s.stampByte r) r.incByte

/-- A byte outside a frame refreshes `lastActivity` only, and starts no frame. -/
theorem receiveByte_of_not_stamps {s : RxState N} {r : ByteRead}
    (h : ¬ s.Stamps r.incByte) :
    receiveByte s r =
      ({ s with lastActivity := r.activityMillis, prevByte := r.incByte }, []) :=
  receiveByte_idle (Bool.eq_false_iff.2 fun hbusy => h (Or.inl hbusy)) r
    fun hsync => h (Or.inr hsync)

theorem receiveByte_lastActivity (s : RxState N) (r : ByteRead) :
    (receiveByte s r).1.lastActivity = r.activityMillis := by
  by_cases h : s.Stamps r.incByte
  · exact (receiveByte_of_stamps h).2
  · rw [receiveByte_of_not_stamps h]

theorem stamps_of_busy {s : RxState N} {r : ByteRead}
    (h : (receiveByte s r).1.rxIncomplete = true) : s.Stamps r.incByte := by
  by_contra hnot
  rw [receiveByte_of_not_stamps hnot] at h
  exact hnot (Or.inl h)

/-! ### The end of a poll -/

theorem discarded_mem_iff (t : Timeouts) (s : RxState N) (e : PollEnd) :
    RxEvent.discarded .incomplete ∈ (rxStep t s (.pollEnd e)).2 ↔
      interbyteExpired t s e.interbyteMillis = true := by
  rw [rxStep_pollEnd_eq]
  cases interbyteExpired t s e.interbyteMillis <;>
    cases serialExpired t s e.serialMillis <;> simp

theorem resetState_mem_iff (t : Timeouts) (s : RxState N) (e : PollEnd) :
    RxEvent.resetState ∈ (rxStep t s (.pollEnd e)).2 ↔
      serialExpired t s e.serialMillis = true := by
  rw [rxStep_pollEnd_eq]
  cases interbyteExpired t s e.interbyteMillis <;>
    cases serialExpired t s e.serialMillis <;> simp

end Snooper

end IpodEsp32
