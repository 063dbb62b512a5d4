import IpodEsp32.Snooper.RealTime
import IpodEsp32.Snooper.Verdicts

/-!
# Deadlines of the receive task

With clock readings at most `D` apart, nothing that `_rxTask` waits for can take
arbitrarily long in real time. A frame in progress, which holds up `_txTask`,
is over after at most 256 pauses of the longest kind (`rxTask_frame_deadline`). On a line
that stays silent `resetState` is called again and again, at intervals longer than the
serial timeout and by at most four readings so (`rxTask_reset_deadline`).
-/

namespace IpodEsp32

namespace Snooper

variable {N : ℕ} {t : Timeouts} {D : ℕ}

/-! ### Frames in progress -/

theorem stamp_le_of_isChain {gap : ℕ} {b x : TimedByte} {later : List TimedByte}
    (h : (b :: later).IsChain (FollowsWithin gap)) (hx : (b :: later).getLast? = some x) :
    x.stamp ≤ b.stamp + later.length * gap := by
  induction later generalizing b with
  | nil =>
      rw [List.getLast?_singleton, Option.some_inj] at hx
      rw [hx]
      exact Nat.le_add_right _ _
  | cons c later ih =>
      obtain ⟨hbc, hrest⟩ := List.isChain_cons_cons.1 h
      have hc := hbc.2
      have hlast := ih hrest (by rwa [List.getLast?_cons_cons] at hx)
      rw [List.length_cons, Nat.succ_mul]
      omega

theorem FrameRead.exists_first {gap : ℕ} {s : RxState N} {bytes : List TimedByte}
    (h : FrameRead gap s bytes) (hs : s.Sound) (hbusy : s.rxIncomplete = true) :
    ∃ earlier b later, bytes = earlier ++ b :: later ∧ b.incByte = 0x55 ∧
      (b :: later).IsChain (FollowsWithin gap) ∧
        s.HasRead (later.map TimedByte.incByte) ∧ later.length ≤ 256 := by
  obtain ⟨earlier, frame, hbytes, hchain, hframe⟩ := h hbusy
  cases frame with
  | nil => split_ifs at hframe <;> simp at hframe
  | cons b later =>
      refine ⟨earlier, b, later, hbytes, ?_⟩
      by_cases hl : s.expLength = 0 ∧ s.cursor = 0
      · rw [if_pos hl, List.map_cons, List.cons.injEq] at hframe
        have hnone := List.map_eq_nil_iff.1 hframe.2
        exact ⟨hframe.1, hchain, (if_pos hl).mpr hframe.2, by simp [hnone]⟩
      · rw [if_neg hl] at hframe
        obtain ⟨l, hlen, hframe⟩ := hframe
        rw [List.map_cons, List.cons.injEq] at hframe
        refine ⟨hframe.1, hchain, (if_neg hl).mpr ⟨l, hlen, hframe.2⟩, ?_⟩
        have hlength := congrArg List.length hframe.2
        rw [List.length_map, List.length_cons, List.length_take] at hlength
        obtain ⟨-, hsize, -, hcur⟩ := (hs hbusy).resolve_left hl
        omega

theorem Timed.frame_deadline {s : RxState N} {bytes : List TimedByte} {activity now : ℕ}
    (h : Timed t D s bytes activity now) (hbusy : s.rxIncomplete = true) :
    ∃ earlier b later, bytes = earlier ++ b :: later ∧ b.incByte = 0x55 ∧
      s.HasRead (later.map TimedByte.incByte) ∧ later.length ≤ 256 ∧
        now ≤ b.stamp + 256 * (t.interbyteTimeout.toNat + 4 * D) +
          t.interbyteTimeout.toNat + 2 * D := by
  obtain ⟨earlier, b, later, rfl, hb, hchain, hread, hlen⟩ :=
    h.frameRead.exists_first h.sound hbusy
  obtain ⟨x, hlast, -, -, -, hnow⟩ := h.dated.frame hbusy
  rw [List.getLast?_append, List.getLast?_cons, Option.some_or,
    ← List.getLast?_cons] at hlast
  have hstamp := stamp_le_of_isChain hchain hlast
  have hgaps := Nat.mul_le_mul_right (t.interbyteTimeout.toNat + 4 * D) hlen
  exact ⟨earlier, b, later, rfl, hb, hread, hlen, by omega⟩

/-- A frame in progress is recent: since its `55` was read no more than 256 bytes have
followed, and no more time has passed than pauses between them may take. -/
theorem rxTask_frame_deadline (N : ℕ) (t : Timeouts) (D : ℕ) (lastByteRX : UInt32)
    (start : ℕ) (inputs : List TimedInput)
    (hserial : 4 * D + t.serialTimeout.toNat < 2 ^ 32)
    (hinterbyte : 4 * D + t.interbyteTimeout.toNat < 2 ^ 32)
    (hpaced : Paced D (start :: Transition.collect (timedStep t) (readings t)
      (RxState.start N lastByteRX (millis start)) inputs)) :
    ∀ pre, pre <+: inputs →
      let s := (Transition.run (timedStep t)
        (RxState.start N lastByteRX (millis start)) pre).1
      s.rxIncomplete = true →
        ∃ earlier b later, timedBytes pre = earlier ++ b :: later ∧ b.incByte = 0x55 ∧
          s.HasRead (later.map TimedByte.incByte) ∧ later.length ≤ 256 ∧
            latest start (Transition.collect (timedStep t) (readings t)
                (RxState.start N lastByteRX (millis start)) pre) ≤
              b.stamp + 256 * (t.interbyteTimeout.toNat + 4 * D) +
                t.interbyteTimeout.toNat + 2 * D := by
  intro pre hpre s hbusy
  have hstart : Timed t D (RxState.start N lastByteRX (millis start)) [] start start :=
    ⟨RxState.sound_start _ _, dated_start lastByteRX start, frameRead_of_idle rfl⟩
  exact (timed_along hstart hserial hinterbyte hpaced pre hpre).frame_deadline hbusy

/-- The shortest frame while its payload byte is awaited, across the wrap. -/
theorem rxTask_frame_deadline_acrossWrap :
    let pre := acrossWrap.take 4
    let s := (Transition.run (timedStep {})
      (RxState.start maxPacketSize 0 (millis 4294967000)) pre).1
    ∃ earlier b later, timedBytes pre = earlier ++ b :: later ∧ b.incByte = 0x55 ∧
      s.HasRead (later.map TimedByte.incByte) ∧ later.length ≤ 256 ∧
        latest 4294967000 (Transition.collect (timedStep {}) (readings {})
            (RxState.start maxPacketSize 0 (millis 4294967000)) pre) ≤
          b.stamp + 256 * (500 + 4 * 60000) + 500 + 2 * 60000 :=
  rxTask_frame_deadline maxPacketSize {} 60000 0 4294967000 acrossWrap (by decide)
    (by decide) (by decide +kernel) (acrossWrap.take 4) ⟨acrossWrap.drop 4, rfl⟩
    (by decide +kernel)

/-! ### Resets -/

def resetReadings (t : Timeouts) (s : RxState N) : TimedInput → List ℕ
  | .byte _ => []
  | .pollEnd e => activityReadings t s (.pollEnd e)

theorem isChain_concat {R : ℕ → ℕ → Prop} {x y : ℕ} {xs : List ℕ}
    (h : (x :: xs).IsChain R) (hy : R (latest x xs) y) : (x :: (xs ++ [y])).IsChain R := by
  rw [← List.cons_append, List.isChain_append]
  refine ⟨h, List.isChain_singleton y, ?_⟩
  simpa [List.getLast?_cons, latest] using hy

/-- What is known of the readings stored in `lastActivity`, by any input (`activity`)
and by resets only (`resets`). -/
structure ResetsDated (t : Timeouts) (D start : ℕ) (activity resets : List ℕ) : Prop where
  chain : (start :: activity).IsChain
    fun x y => x ≤ y ∧ y ≤ x + t.serialTimeout.toNat + 4 * D
  spaced : resets.Pairwise fun x y => x + t.serialTimeout.toNat < y
  le_latest : ∀ x ∈ resets, x ≤ latest start activity

theorem ResetsDated.step {start : ℕ} {activity resets : List ℕ}
    (h : ResetsDated t D start activity resets) {s : RxState N} {bytes : List TimedByte}
    {now : ℕ} (htimed : Timed t D s bytes (latest start activity) now)
    (hserial : 4 * D + t.serialTimeout.toNat < 2 ^ 32) {i : TimedInput}
    (hpaced : Paced D (now :: readings t s i)) :
    ResetsDated t D start (activity ++ activityReadings t s i)
      (resets ++ resetReadings t s i) := by
  have hle := htimed.dated.activity_le
  have hage := htimed.dated.now_le
  cases i with
  | byte b =>
      obtain ⟨h₁, h₂, -⟩ := hpaced.byte
      rw [activityReadings, resetReadings, List.append_nil]
      refine ⟨isChain_concat h.chain (by omega), h.spaced, fun x hx => ?_⟩
      rw [latest_append, latest_singleton]
      exact (h.le_latest x hx).trans (hle.trans h₁)
  | pollEnd e =>
      obtain ⟨-, h₁, h₂, hreset⟩ := hpaced.pollEnd
      rw [resetReadings]
      rw [activityReadings] at hreset ⊢
      split_ifs at hreset ⊢ with hmem
      · obtain ⟨⟨h₃, h₄⟩, -⟩ := paced_cons_cons.1 hreset
        have hexpired := (htimed.dated.serialExpired_iff hserial hpaced).1
          ((resetState_mem_iff t s e.read).1 hmem)
        refine ⟨isChain_concat h.chain (by omega), pairwise_concat h.spaced ?_, ?_⟩
        · intro x hx
          have := h.le_latest x hx
          omega
        · intro x hx
          rw [latest_append, latest_singleton]
          rcases List.mem_append.1 hx with hx | hx
          · have := h.le_latest x hx
            omega
          · exact (List.mem_singleton.1 hx).le
      · rwa [List.append_nil, List.append_nil]

/-- Between two bytes read or resets called one after the other, no more time passes than
the serial timeout and four readings, nor has more passed since the last of them; two
resets are further apart than the serial timeout. -/
theorem rxTask_reset_deadline (N : ℕ) (t : Timeouts) (D : ℕ) (lastByteRX : UInt32)
    (start : ℕ) (inputs : List TimedInput)
    (hserial : 4 * D + t.serialTimeout.toNat < 2 ^ 32)
    (hinterbyte : 4 * D + t.interbyteTimeout.toNat < 2 ^ 32)
    (hpaced : Paced D (start :: Transition.collect (timedStep t) (readings t)
      (RxState.start N lastByteRX (millis start)) inputs)) :
    let s₀ := RxState.start N lastByteRX (millis start)
    let activity := Transition.collect (timedStep t) (activityReadings t) s₀ inputs
    let resets := Transition.collect (timedStep t) (resetReadings t) s₀ inputs
    (start :: activity).IsChain
        (fun x y => x ≤ y ∧ y ≤ x + t.serialTimeout.toNat + 4 * D) ∧
      latest start (Transition.collect (timedStep t) (readings t) s₀ inputs) ≤
          latest start activity + t.serialTimeout.toNat + D ∧
        resets.Pairwise fun x y => x + t.serialTimeout.toNat < y := by
  intro s₀ activity resets
  have hstart : Timed t D s₀ [] start start :=
    ⟨RxState.sound_start _ _, dated_start lastByteRX start, frameRead_of_idle rfl⟩
  have htimed := timed_along hstart hserial hinterbyte hpaced
  have hdated : ∀ pre, pre <+: inputs →
      ResetsDated t D start (Transition.collect (timedStep t) (activityReadings t) s₀ pre)
        (Transition.collect (timedStep t) (resetReadings t) s₀ pre) := by
    intro pre
    induction pre using List.reverseRecOn with
    | nil => exact fun _ => ⟨List.isChain_singleton _, .nil, fun x hx => by cases hx⟩
    | append_singleton pre i ih =>
        intro hpre
        have hbefore := (List.prefix_append pre [i]).trans hpre
        rw [Transition.collect_concat, Transition.collect_concat]
        exact (ih hbefore).step (htimed pre hbefore) hserial (paced_at hpaced hpre)
  have hlast := hdated inputs List.prefix_rfl
  exact ⟨hlast.chain, (htimed inputs List.prefix_rfl).dated.now_le, hlast.spaced⟩

def silentPolls : List TimedInput :=
  [.pollEnd ⟨0, 30000, 0⟩, .pollEnd ⟨0, 60005, 60010⟩, .pollEnd ⟨0, 90000, 0⟩,
    .pollEnd ⟨0, 120015, 120020⟩]

/-- The line is reset twice. -/
theorem rxTask_reset_deadline_silentPolls :
    let s₀ := RxState.start maxPacketSize 0 (millis 0)
    let activity := Transition.collect (timedStep {}) (activityReadings {}) s₀ silentPolls
    (0 :: activity).IsChain (fun x y => x ≤ y ∧ y ≤ x + 60000 + 4 * 31000) ∧
      latest 0 (Transition.collect (timedStep {}) (readings {}) s₀ silentPolls) ≤
          latest 0 activity + 60000 + 31000 ∧
        (Transition.collect (timedStep {}) (resetReadings {}) s₀ silentPolls).Pairwise
          fun x y => x + 60000 < y :=
  rxTask_reset_deadline maxPacketSize {} 31000 0 0 silentPolls (by decide) (by decide)
    (by decide +kernel)

end Snooper

end IpodEsp32
