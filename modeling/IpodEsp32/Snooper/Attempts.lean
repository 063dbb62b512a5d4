import IpodEsp32.Snooper.Reception
import IpodEsp32.Transition.Run
import Mathlib.Order.Interval.Finset.Nat

/-!
# Frame attempts

A frame attempt takes the sync pair that sets `_rxIncomplete` and every byte read until
the flag is cleared. `Watch` runs `_rxTask` next to a record of the bytes it has read
and of the attempt in progress, and a step returns the attempt it ends; the task does
not see the record.

`prevByte` is kept when a frame ends. When the last byte of an attempt is an `FF` and
the next byte a `55`, this `FF` opens the next attempt as well, which is the only way in
which two attempts share a byte (`rxTask_attempts_iff`).
-/

namespace IpodEsp32

namespace Snooper

/-- The bytes of a frame attempt by their positions in the stream, from the `FF` of its
sync pair at `first` on, up to the byte before `next`. -/
structure Attempt where
  first : ℕ
  next : ℕ

def Attempt.positions (a : Attempt) : Finset ℕ := Finset.Ico a.first a.next

variable {N : ℕ}

/-- The receive task, the bytes it has read, the position `first` of the `FF` that
opened the attempt in progress, and how many bytes had been read when the last attempt
ended. -/
structure Watch (N : ℕ) where
  rx : RxState N
  bytes : List UInt8
  first : ℕ
  closedAt : ℕ

def Watch.start (N : ℕ) (lastByteRX lastActivity : UInt32) : Watch N where
  rx := RxState.start N lastByteRX lastActivity
  bytes := []
  first := 0
  closedAt := 0

def watchStep (t : Timeouts) (w : Watch N) (i : RxInput) : Watch N × List Attempt :=
  let rx := (rxStep t w.rx i).1
  let bytes := w.bytes ++ bytesRead [i]
  if w.rx.rxIncomplete then
    if rx.rxIncomplete then ({ w with rx, bytes }, [])
    else ({ w with rx, bytes, closedAt := bytes.length }, [⟨w.first, bytes.length⟩])
  else
    -- if the byte just read sets the flag, the attempt begins one byte before it
    ({ w with rx, bytes, first := bytes.length - 2 }, [])

def Watch.inProgress (w : Watch N) : List Attempt :=
  if w.rx.rxIncomplete then [⟨w.first, w.bytes.length⟩] else []

theorem Watch.inProgress_idle {w : Watch N} (h : w.rx.rxIncomplete = false) :
    w.inProgress = [] := by
  rw [inProgress, h]
  rfl

theorem Watch.inProgress_busy {w : Watch N} (h : w.rx.rxIncomplete = true) :
    w.inProgress = [⟨w.first, w.bytes.length⟩] :=
  if_pos h

/-- No two attempts, finished or in progress, have a byte in common. -/
def AttemptsDisjoint (ended : List Attempt) (w : Watch N) : Prop :=
  (ended ++ w.inProgress).Pairwise fun a b => Disjoint a.positions b.positions

instance (ended : List Attempt) (w : Watch N) : Decidable (AttemptsDisjoint ended w) :=
  inferInstanceAs (Decidable (List.Pairwise _ _))

/-- The input is not a `55` read directly after an attempt that ended on an `FF`. -/
def FreshSync (w : Watch N) : RxInput → Prop
  | .byte r => w.closedAt = w.bytes.length → ¬ (w.rx.prevByte = 0xFF ∧ r.incByte = 0x55)
  | .pollEnd _ => True

/-! ### The record -/

theorem watchStep_rx (t : Timeouts) (w : Watch N) (i : RxInput) :
    (watchStep t w i).1.rx = (rxStep t w.rx i).1 := by
  simp only [watchStep]
  split_ifs <;> rfl

theorem watchStep_bytes (t : Timeouts) (w : Watch N) (i : RxInput) :
    (watchStep t w i).1.bytes = w.bytes ++ bytesRead [i] := by
  simp only [watchStep]
  split_ifs <;> rfl

theorem bytesRead_cons (i : RxInput) (inputs : List RxInput) :
    bytesRead (i :: inputs) = bytesRead [i] ++ bytesRead inputs := by
  cases i <;> rfl

/-- The record follows the task: its variables are those of the run without the record,
its bytes those read from the port. -/
theorem run_watchStep (t : Timeouts) (w : Watch N) (inputs : List RxInput) :
    (Transition.run (watchStep t) w inputs).1.rx = rxRun t w.rx inputs ∧
      (Transition.run (watchStep t) w inputs).1.bytes = w.bytes ++ bytesRead inputs := by
  induction inputs generalizing w with
  | nil => exact ⟨rfl, (List.append_nil _).symm⟩
  | cons i inputs ih =>
      obtain ⟨hrx, hbytes⟩ := ih (watchStep t w i).1
      rw [watchStep_rx] at hrx
      rw [watchStep_bytes, List.append_assoc, ← bytesRead_cons] at hbytes
      exact ⟨hrx, hbytes⟩

/-! ### What opens an attempt -/

theorem rxStep_pollEnd (t : Timeouts) (s : RxState N) (e : PollEnd) :
    (rxStep t s (.pollEnd e)).1.prevByte = s.prevByte ∧
      ((rxStep t s (.pollEnd e)).1.rxIncomplete = true → s.rxIncomplete = true) := by
  rw [rxStep_pollEnd_eq]
  exact ⟨rfl, fun h => (Bool.and_eq_true_iff.1 h).1⟩

theorem rxStep_opens {t : Timeouts} {s : RxState N} {i : RxInput}
    (hidle : s.rxIncomplete = false) (hbusy : (rxStep t s i).1.rxIncomplete = true) :
    ∃ r, i = .byte r ∧ s.prevByte = 0xFF ∧ r.incByte = 0x55 := by
  cases i with
  | pollEnd e =>
      have h := (rxStep_pollEnd t s e).2 hbusy
      rw [hidle] at h
      cases h
  | byte r =>
      by_cases hsync : s.prevByte = 0xFF ∧ r.incByte = 0x55
      · exact ⟨r, rfl, hsync⟩
      · rw [rxStep, receiveByte_idle hidle r hsync, hidle] at hbusy
        cases hbusy

theorem rxStep_prevByte (t : Timeouts) (s : RxState N) (i : RxInput) :
    (rxStep t s i).1.prevByte = (bytesRead [i]).getLast?.getD s.prevByte := by
  cases i with
  | byte r => rfl
  | pollEnd e => exact (rxStep_pollEnd t s e).1

/-! ### What holds of the record in every run -/

def SyncAt (bytes : List UInt8) (i : ℕ) : Prop :=
  bytes[i]? = some 0xFF ∧ bytes[i + 1]? = some 0x55

theorem getElem?_append_of_some {α : Type*} {xs : List α} {i : ℕ} {x : α}
    (h : xs[i]? = some x) (ys : List α) : (xs ++ ys)[i]? = some x := by
  obtain ⟨hi, -⟩ := List.getElem?_eq_some_iff.1 h
  rw [List.getElem?_append_left hi, h]

theorem SyncAt.append {bytes : List UInt8} {i : ℕ} (h : SyncAt bytes i)
    (more : List UInt8) : SyncAt (bytes ++ more) i :=
  ⟨getElem?_append_of_some h.1 more, getElem?_append_of_some h.2 more⟩

theorem length_pos_of_getLast? {α : Type*} {xs : List α} {x : α}
    (h : xs.getLast? = some x) : 0 < xs.length :=
  List.length_pos_of_mem (List.mem_of_getLast? h)

theorem syncAt_concat {bytes : List UInt8} (h : bytes.getLast? = some 0xFF) :
    SyncAt (bytes ++ [0x55]) (bytes.length - 1) := by
  have hsucc : bytes.length - 1 + 1 = bytes.length :=
    Nat.sub_add_cancel (length_pos_of_getLast? h)
  rw [List.getLast?_eq_getElem?] at h
  refine ⟨getElem?_append_of_some h _, ?_⟩
  rw [hsucc]
  exact List.getElem?_concat_length

theorem getLast?_eq_of_getD {bytes : List UInt8} {b : UInt8} (hb : b ≠ 0x00)
    (h : bytes.getLast?.getD 0x00 = b) : bytes.getLast? = some b := by
  cases hlast : bytes.getLast? with
  | none =>
      rw [hlast] at h
      exact absurd h.symm hb
  | some c => rw [← h, hlast, Option.getD_some]

/-- The attempts ended and the one in progress begin with a sync pair, in the order in
which they were opened; an attempt begins no earlier than at the last byte of the one
before. -/
structure Watch.Sound (ended : List Attempt) (w : Watch N) : Prop where
  prevByte_eq : w.rx.prevByte = w.bytes.getLast?.getD 0x00
  closedAt_le : w.closedAt ≤ w.bytes.length
  next_le : ∀ a ∈ ended, a.next ≤ w.closedAt
  last : w.closedAt ≠ 0 → ∃ a ∈ ended, a.next = w.closedAt
  two_le : ∀ a ∈ ended, a.first + 2 ≤ a.next
  syncAt_ended : ∀ a ∈ ended, SyncAt w.bytes a.first
  progress : w.rx.rxIncomplete = true →
    w.closedAt ≤ w.first + 1 ∧ w.first + 2 ≤ w.bytes.length ∧ SyncAt w.bytes w.first

theorem Watch.sound_start (lastByteRX lastActivity : UInt32) :
    (Watch.start N lastByteRX lastActivity).Sound [] where
  prevByte_eq := rfl
  closedAt_le := le_rfl
  next_le a ha := by cases ha
  last h := absurd rfl h
  two_le a ha := by cases ha
  syncAt_ended a ha := by cases ha
  progress h := by cases h

theorem watchStep_idle {w : Watch N} (h : w.rx.rxIncomplete = false) (t : Timeouts)
    (i : RxInput) :
    watchStep t w i =
      ({ w with
          rx := (rxStep t w.rx i).1
          bytes := w.bytes ++ bytesRead [i]
          first := (w.bytes ++ bytesRead [i]).length - 2 }, []) := by
  simp [watchStep, h]

theorem watchStep_stays {t : Timeouts} {w : Watch N} {i : RxInput}
    (h : w.rx.rxIncomplete = true) (h' : (rxStep t w.rx i).1.rxIncomplete = true) :
    watchStep t w i =
      ({ w with rx := (rxStep t w.rx i).1, bytes := w.bytes ++ bytesRead [i] }, []) := by
  simp [watchStep, h, h']

theorem watchStep_ends {t : Timeouts} {w : Watch N} {i : RxInput}
    (h : w.rx.rxIncomplete = true) (h' : (rxStep t w.rx i).1.rxIncomplete = false) :
    watchStep t w i =
      ({ w with
          rx := (rxStep t w.rx i).1
          bytes := w.bytes ++ bytesRead [i]
          closedAt := (w.bytes ++ bytesRead [i]).length },
        [⟨w.first, (w.bytes ++ bytesRead [i]).length⟩]) := by
  simp [watchStep, h, h']

theorem Watch.Sound.step {t : Timeouts} {ended : List Attempt} {w : Watch N}
    (h : w.Sound ended) (i : RxInput) :
    (watchStep t w i).1.Sound (ended ++ (watchStep t w i).2) := by
  have hlen : w.bytes.length ≤ (w.bytes ++ bytesRead [i]).length := by simp
  have hprev : (rxStep t w.rx i).1.prevByte =
      (w.bytes ++ bytesRead [i]).getLast?.getD 0x00 := by
    rw [rxStep_prevByte, h.prevByte_eq, List.getLast?_append]
    cases (bytesRead [i]).getLast? <;> rfl
  have hkeep : ∀ a ∈ ended, SyncAt (w.bytes ++ bytesRead [i]) a.first := fun a ha =>
    (h.syncAt_ended a ha).append _
  cases hbusy : w.rx.rxIncomplete with
  | false =>
      rw [watchStep_idle hbusy, List.append_nil]
      refine ⟨hprev, h.closedAt_le.trans hlen, h.next_le, h.last, h.two_le, hkeep,
        fun hopen => ?_⟩
      obtain ⟨r, rfl, hff, h55⟩ := rxStep_opens hbusy hopen
      rw [h.prevByte_eq] at hff
      have hlast := getLast?_eq_of_getD (by decide) hff
      have hpos := length_pos_of_getLast? hlast
      have hclosed := h.closedAt_le
      have hsync := syncAt_concat hlast
      simp only [bytesRead, h55, List.length_append, List.length_singleton]
      exact ⟨by omega, by omega, hsync⟩
  | true =>
      obtain ⟨hclosed, hfirst, hsync⟩ := h.progress hbusy
      cases hnext : (rxStep t w.rx i).1.rxIncomplete with
      | true =>
          rw [watchStep_stays hbusy hnext, List.append_nil]
          exact ⟨hprev, h.closedAt_le.trans hlen, h.next_le, h.last, h.two_le, hkeep,
            fun _ => ⟨hclosed, hfirst.trans hlen, hsync.append _⟩⟩
      | false =>
          rw [watchStep_ends hbusy hnext]
          refine ⟨hprev, le_rfl, ?_, fun _ => ?_, ?_, ?_, fun hopen => ?_⟩
          · rw [List.forall_mem_append]
            exact ⟨fun a ha => ((h.next_le a ha).trans h.closedAt_le).trans hlen,
              List.forall_mem_singleton.2 le_rfl⟩
          · exact ⟨_, List.mem_append_right _ (List.mem_singleton_self _), rfl⟩
          · rw [List.forall_mem_append]
            exact ⟨h.two_le, List.forall_mem_singleton.2 (hfirst.trans hlen)⟩
          · rw [List.forall_mem_append]
            exact ⟨hkeep, List.forall_mem_singleton.2 (hsync.append _)⟩
          · rw [hnext] at hopen
            cases hopen

theorem watch_sound (t : Timeouts) (lastByteRX lastActivity : UInt32)
    (inputs : List RxInput) :
    Watch.Sound
      (Transition.run (watchStep t) (Watch.start N lastByteRX lastActivity) inputs).2
      (Transition.run (watchStep t) (Watch.start N lastByteRX lastActivity) inputs).1 :=
  Transition.invariant (I := fun ended w => Watch.Sound ended w)
    (Watch.sound_start lastByteRX lastActivity) (fun _ _ i h => h.step i) inputs

/-- In every run each attempt, ended or in progress, begins with a sync pair of the
bytes read, and takes at least these two. -/
theorem rxTask_attempts_sync (t : Timeouts) (lastByteRX lastActivity : UInt32)
    (inputs : List RxInput) :
    let s := Transition.run (watchStep t) (Watch.start N lastByteRX lastActivity) inputs
    ∀ a ∈ s.2 ++ s.1.inProgress,
      SyncAt (bytesRead inputs) a.first ∧ a.first + 2 ≤ a.next ∧
        a.next ≤ (bytesRead inputs).length := by
  intro s a ha
  have hs := watch_sound (N := N) t lastByteRX lastActivity inputs
  have hbytes : s.1.bytes = bytesRead inputs := (run_watchStep t _ inputs).2
  rw [← hbytes]
  rcases List.mem_append.1 ha with ha | ha
  · exact ⟨hs.syncAt_ended a ha, hs.two_le a ha, (hs.next_le a ha).trans hs.closedAt_le⟩
  · cases hbusy : s.1.rx.rxIncomplete with
    | false =>
        rw [Watch.inProgress_idle hbusy] at ha
        cases ha
    | true =>
        obtain ⟨-, hfirst, hsync⟩ := hs.progress hbusy
        rw [Watch.inProgress_busy hbusy, List.mem_singleton] at ha
        rw [ha]
        exact ⟨hsync, hfirst, le_rfl⟩

/-! ### Disjoint attempts -/

/-- The attempts follow one another without a common byte. -/
structure Watch.Separate (ended : List Attempt) (w : Watch N) : Prop where
  ended : ended.Pairwise fun a b => a.next ≤ b.first
  progress : w.rx.rxIncomplete = true → w.closedAt ≤ w.first

theorem Attempt.disjoint_positions {a b : Attempt} (h : a.next ≤ b.first) :
    Disjoint a.positions b.positions := by
  rw [Finset.disjoint_left]
  intro i ha hb
  rw [positions, Finset.mem_Ico] at ha hb
  omega

theorem pairwise_concat {α : Type*} {R : α → α → Prop} {xs : List α} {x : α}
    (h : xs.Pairwise R) (hx : ∀ y ∈ xs, R y x) : (xs ++ [x]).Pairwise R :=
  List.pairwise_append.2 ⟨h, List.pairwise_singleton R x, fun y hy z hz => by
    rw [List.mem_singleton.1 hz]
    exact hx y hy⟩

theorem Watch.Separate.attemptsDisjoint {ended : List Attempt} {w : Watch N}
    (hs : w.Sound ended) (h : w.Separate ended) : AttemptsDisjoint ended w := by
  refine List.Pairwise.imp Attempt.disjoint_positions ?_
  cases hbusy : w.rx.rxIncomplete with
  | false =>
      rw [inProgress_idle hbusy, List.append_nil]
      exact h.ended
  | true =>
      rw [inProgress_busy hbusy]
      exact pairwise_concat h.ended fun a ha => (hs.next_le a ha).trans (h.progress hbusy)

/-- A step keeps the attempts separate unless a `55` is read directly after an attempt
that ended on an `FF`. -/
theorem Watch.Separate.step {t : Timeouts} {ended : List Attempt} {w : Watch N}
    (hs : w.Sound ended) (h : w.Separate ended) {i : RxInput} (hfresh : FreshSync w i) :
    (watchStep t w i).1.Separate (ended ++ (watchStep t w i).2) := by
  cases hbusy : w.rx.rxIncomplete with
  | false =>
      rw [watchStep_idle hbusy, List.append_nil]
      refine ⟨h.ended, fun hopen => ?_⟩
      obtain ⟨r, rfl, hsync⟩ := rxStep_opens hbusy hopen
      have hne : w.closedAt ≠ w.bytes.length := fun heq => hfresh heq hsync
      have hlt := lt_of_le_of_ne hs.closedAt_le hne
      simp only [bytesRead, List.length_append, List.length_singleton]
      omega
  | true =>
      cases hnext : (rxStep t w.rx i).1.rxIncomplete with
      | true =>
          rw [watchStep_stays hbusy hnext, List.append_nil]
          exact ⟨h.ended, fun _ => h.progress hbusy⟩
      | false =>
          rw [watchStep_ends hbusy hnext]
          refine ⟨pairwise_concat h.ended fun a ha =>
            (hs.next_le a ha).trans (h.progress hbusy), fun hopen => ?_⟩
          rw [hnext] at hopen
          cases hopen

/-- A `55` read directly after an attempt that ended on an `FF` opens an attempt which
shares this `FF`. -/
theorem not_attemptsDisjoint_step {t : Timeouts} {ended : List Attempt} {w : Watch N}
    (hs : w.Sound ended) {i : RxInput} (hfresh : ¬ FreshSync w i) :
    ¬ AttemptsDisjoint (ended ++ (watchStep t w i).2) (watchStep t w i).1 := by
  cases i with
  | pollEnd e => exact absurd trivial hfresh
  | byte r =>
      obtain ⟨hclosed, hsync⟩ : w.closedAt = w.bytes.length ∧
          w.rx.prevByte = 0xFF ∧ r.incByte = 0x55 := by
        by_contra hnot
        exact hfresh fun heq hsync => hnot ⟨heq, hsync⟩
      have hpos : 0 < w.bytes.length :=
        length_pos_of_getLast? (getLast?_eq_of_getD (by decide)
          (hs.prevByte_eq.symm.trans hsync.1))
      have hidle : w.rx.rxIncomplete = false := by
        rw [← Bool.not_eq_true]
        intro hbusy
        obtain ⟨hle, hfirst, -⟩ := hs.progress hbusy
        omega
      obtain ⟨a, ha, hnext⟩ := hs.last (by omega)
      have htwo := hs.two_le a ha
      have hopen : (rxStep t w.rx (.byte r)).1.rxIncomplete = true := by
        rw [rxStep, receiveByte_sync hidle r hsync]
      rw [watchStep_idle hidle, List.append_nil, AttemptsDisjoint,
        Watch.inProgress_busy hopen, List.pairwise_append]
      rintro ⟨-, -, hdisj⟩
      have hlen : (w.bytes ++ bytesRead [.byte r]).length = w.bytes.length + 1 :=
        List.length_append
      have hlast : w.bytes.length - 1 ∈ a.positions :=
        Finset.mem_Ico.2 ⟨by omega, by omega⟩
      refine Finset.disjoint_left.1 (hdisj a ha _ (List.mem_singleton_self _)) hlast ?_
      simp only [Attempt.positions, Finset.mem_Ico, hlen]
      omega

/-- In every run of the task the attempts share no byte all along exactly when no `55`
is read directly after an attempt that ended on an `FF`. -/
theorem rxTask_attempts_iff (N : ℕ) (t : Timeouts) (lastByteRX lastActivity : UInt32)
    (inputs : List RxInput) :
    Transition.Throughout (watchStep t) AttemptsDisjoint
        (Watch.start N lastByteRX lastActivity) inputs ↔
      Transition.StepsMeet (watchStep t) FreshSync
        (Watch.start N lastByteRX lastActivity) inputs := by
  refine Transition.throughout_iff_stepsMeet
    (I := fun ended w => Watch.Sound ended w ∧ Watch.Separate ended w)
    ⟨Watch.sound_start lastByteRX lastActivity, List.Pairwise.nil, fun h => by cases h⟩
    (fun _ _ i h hfresh => ⟨h.1.step i, h.2.step h.1 hfresh⟩)
    (fun _ _ h => h.2.attemptsDisjoint h.1)
    (fun _ _ _ h hfresh => not_attemptsDisjoint_step h.1 hfresh) inputs

/-- The checksum byte of the shortest frame is an `FF`; with a `55` after it this byte
belongs to two attempts. -/
theorem rxTask_not_attemptsDisjoint :
    ¬ ∀ (N : ℕ) (t : Timeouts) (lastByteRX lastActivity : UInt32) (inputs : List RxInput),
      Transition.Throughout (watchStep t) AttemptsDisjoint
        (Watch.start N lastByteRX lastActivity) inputs := by
  intro h
  have hrun := (h maxPacketSize {} 0 0
    (pollAt 10 [0xFF, 0x55, 0x01, 0x00, 0xFF] ++ pollAt 20 [0x55])).last
  revert hrun
  decide +kernel

end Snooper

end IpodEsp32
