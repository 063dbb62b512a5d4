import IpodEsp32.Snooper.Reception
import IpodEsp32.Snooper.Timestamps
import IpodEsp32.Transition.Run

/-!
# Resets without a frame in progress

`resetState` empties the queues but leaves `_rxIncomplete` alone, and `_txTask` waits
while the flag is set. Nothing in the code forbids a reset in the middle of a frame;
it follows from the order of the two checks and from how close together the clock is
read. A byte of a frame stores two readings, the one for the inter-byte check after the
one for the serial check, and an iteration compares with them in the same order. If
these two lags never add up to more than the gap between the timeouts, a frame that
survives the inter-byte check is too young for the serial check.

The lags are differences of readings modulo `2 ^ 32`: for elapsed times below the wrap
these are the elapsed times.
-/

namespace IpodEsp32

namespace Snooper

variable {N : ℕ}

/-- For a byte that stores both, by how much the reading for `lastByteRX` follows the
one for `lastActivity`. -/
def byteLag (s : RxState N) : RxInput → List ℕ
  | .byte r =>
      if s.Stamps r.incByte then [(r.byteMillis - r.activityMillis).toNat] else []
  | .pollEnd _ => []

/-- For an iteration that takes both, by how much the reading for the serial check
follows the one for the inter-byte check. -/
def checkLag (s : RxState N) : RxInput → List ℕ
  | .byte _ => []
  | .pollEnd e =>
      if s.rxIncomplete then [(e.serialMillis - e.interbyteMillis).toNat] else []

/-- If the input makes the task call `resetState`, no frame is in progress. -/
def ResetsIdle (t : Timeouts) (s : RxState N) (i : RxInput) : Prop :=
  RxEvent.resetState ∈ (rxStep t s i).2 → (rxStep t s i).1.rxIncomplete = false

theorem toNat_sub_le (a b c : UInt32) : (a - c).toNat ≤ (a - b).toNat + (b - c).toNat := by
  have hsum : a - c = (a - b) + (b - c) := by grind
  rw [hsum, UInt32.toNat_add]
  exact Nat.mod_le _ _

/-- A frame too young for the serial check: its own lag, the age that the inter-byte
check lets pass and the lag of the iteration stay within the serial timeout. -/
theorem resetsIdle_of_lag_le {t : Timeouts} {s : RxState N} {i : RxInput}
    (h : s.rxIncomplete = true → ∀ d ∈ checkLag s i,
      (s.lastByteRX - s.lastActivity).toNat + d + t.interbyteTimeout.toNat ≤
        t.serialTimeout.toNat) :
    ResetsIdle t s i := by
  intro hreset
  cases i with
  | byte r => exact absurd hreset (receiveByte_not_pollEnd s r).2
  | pollEnd e =>
      rw [resetState_mem_iff, serialExpired, decide_eq_true_iff, gt_iff_lt,
        UInt32.lt_iff_toNat_lt] at hreset
      rw [rxStep_pollEnd_eq]
      cases hbusy : s.rxIncomplete with
      | false => rfl
      | true =>
          have hlag := h hbusy (e.serialMillis - e.interbyteMillis).toNat
            (by rw [checkLag, if_pos hbusy]; exact List.mem_singleton_self _)
          have hage := toNat_sub_le e.serialMillis e.interbyteMillis s.lastActivity
          have hcheck := toNat_sub_le e.interbyteMillis s.lastByteRX s.lastActivity
          have hexpired : interbyteExpired t s e.interbyteMillis = true := by
            rw [interbyteExpired, hbusy, Bool.true_and, decide_eq_true_iff, gt_iff_lt,
              UInt32.lt_iff_toNat_lt]
            omega
          rw [hexpired]
          rfl

/-- The timestamps are as far apart as the readings taken for a byte of the frame in
progress. -/
def LagRead (lags : List ℕ) (s : RxState N) : Prop :=
  s.rxIncomplete = true → (s.lastByteRX - s.lastActivity).toNat ∈ lags

theorem LagRead.step {t : Timeouts} {lags : List ℕ} {s : RxState N} {i : RxInput}
    (h : LagRead lags s) (hidle : ResetsIdle t s i) :
    LagRead (lags ++ byteLag s i) (rxStep t s i).1 := by
  intro hbusy
  cases i with
  | byte r =>
      have hstamps := stamps_of_busy hbusy
      obtain ⟨hbyte, hactivity⟩ := receiveByte_of_stamps hstamps
      rw [rxStep, hbyte, hactivity, byteLag, if_pos hstamps]
      exact List.mem_append_right _ (List.mem_singleton_self _)
  | pollEnd e =>
      have hquiet : ¬ serialExpired t s e.serialMillis = true := by
        intro hserial
        have hclear := hidle ((resetState_mem_iff t s e).2 hserial)
        rw [hbusy] at hclear
        cases hclear
      rw [rxStep_pollEnd_eq] at hbusy ⊢
      simp only [if_neg hquiet]
      exact List.mem_append_left _ (h (Bool.and_eq_true_iff.1 hbusy).1)

theorem stepsMeet_resetsIdle {t : Timeouts} {s : RxState N} {inputs : List RxInput}
    (hidle : s.rxIncomplete = false)
    (hlags : ∀ d₁ ∈ Transition.collect (rxStep t) byteLag s inputs,
      ∀ d₂ ∈ Transition.collect (rxStep t) checkLag s inputs,
        d₁ + d₂ + t.interbyteTimeout.toNat ≤ t.serialTimeout.toNat) :
    Transition.StepsMeet (rxStep t) (ResetsIdle t) s inputs := by
  have hsafe : ∀ pre i, pre ++ [i] <+: inputs →
      LagRead (Transition.collect (rxStep t) byteLag s pre)
        (Transition.run (rxStep t) s pre).1 →
      ResetsIdle t (Transition.run (rxStep t) s pre).1 i := by
    intro pre i hpre hlag
    refine resetsIdle_of_lag_le fun hbusy d hd => hlags _ ?_ d ?_
    · have hle := (List.prefix_append pre [i]).trans hpre
      exact (Transition.collect_prefix _ _ hle).subset (hlag hbusy)
    · refine (Transition.collect_prefix _ _ hpre).subset ?_
      rw [Transition.collect_concat]
      exact List.mem_append_right _ hd
  have hstart : LagRead [] s := by
    intro hbusy
    rw [hidle] at hbusy
    cases hbusy
  intro pre i hpre
  refine hsafe pre i hpre (Transition.invariant_along
    (I := fun pre s' => LagRead (Transition.collect (rxStep t) byteLag s pre) s')
    hstart ?_ pre ((List.prefix_append pre [i]).trans hpre))
  intro pre i hpre hlag
  rw [Transition.collect_concat]
  exact hlag.step (hsafe pre i hpre hlag)

/-- If the lag of a byte and the lag of an iteration never add up to more than the gap
between the timeouts, every reset of a run happens with no frame in progress. -/
theorem rxTask_resetsIdle (N : ℕ) (t : Timeouts) (lastByteRX lastActivity : UInt32)
    (inputs : List RxInput)
    (hlags : ∀ d₁ ∈ Transition.collect (rxStep t) byteLag
        (RxState.start N lastByteRX lastActivity) inputs,
      ∀ d₂ ∈ Transition.collect (rxStep t) checkLag
          (RxState.start N lastByteRX lastActivity) inputs,
        d₁ + d₂ + t.interbyteTimeout.toNat ≤ t.serialTimeout.toNat) :
    Transition.StepsMeet (rxStep t) (ResetsIdle t)
      (RxState.start N lastByteRX lastActivity) inputs :=
  stepsMeet_resetsIdle rfl hlags

/-- Two bytes of a frame, an iteration that leaves it in progress, and one a minute
later that discards it and resets. -/
theorem rxTask_resetsIdle_minute :
    let inputs : List RxInput :=
      [.byte ⟨10, 0xFF, 0⟩, .byte ⟨10, 0x55, 12⟩, .pollEnd ⟨20, 23, 0⟩,
        .pollEnd ⟨60020, 60023, 60024⟩]
    Transition.StepsMeet (rxStep {}) (ResetsIdle {})
        (RxState.start maxPacketSize 0 0) inputs ∧
      RxEvent.resetState ∈
        (Transition.run (rxStep {}) (RxState.start maxPacketSize 0 0) inputs).2 :=
  ⟨rxTask_resetsIdle _ _ _ _ _ (by decide +kernel), by decide +kernel⟩

end Snooper

end IpodEsp32
