import IpodEsp32.Snooper.Drain

/-!
# Printing beside a frame

`_txTask` looks at `_rxIncomplete` before it takes a payload, and not again: a frame may
begin between the test and the calls of `Serial`. Then the record is printed while the
frame is read, but it stays the only one: in every interleaving at most one record is
written for each frame begun, as long as it is in progress (`written_inside_frames`).
-/

namespace IpodEsp32

namespace Snooper

variable {R : Receiver} {cmdSize txSize : ℕ}

def InFrame (s : Tasks R cmdSize txSize) (_ : Move R) : Prop := R.rxIncomplete s.rx = true

instance (s : Tasks R cmdSize txSize) (m : Move R) : Decidable (InFrame s m) :=
  inferInstanceAs (Decidable (_ = _))

/-- What a move writes while a frame is in progress. -/
def writtenInside (s : Tasks R cmdSize txSize) (m : Move R) : List Record :=
  if R.rxIncomplete s.rx then printedRecords (s.step m).2 else []

def frameBegun (s : Tasks R cmdSize txSize) (m : Move R) : List (Move R) :=
  if R.rxIncomplete s.rx = false ∧ R.rxIncomplete (s.step m).1.rx = true then [m] else []

/-- The records that `_txTask` may write before it looks at `_rxIncomplete` again. -/
def TxPc.due : TxPc → ℕ
  | .receiving | .printing _ | .writing _ => 1
  | .testing | .ending _ | .freeing _ => 0

theorem TxPc.due_le (pc : TxPc) : pc.due ≤ 1 := by
  cases pc <;> simp [due]

def Tasks.due (s : Tasks R cmdSize txSize) : ℕ :=
  if R.rxIncomplete s.rx then s.txPc.due else 0

theorem Tasks.due_le (s : Tasks R cmdSize txSize) : s.due ≤ 1 := by
  rw [due]
  split
  · exact s.txPc.due_le
  · exact Nat.zero_le 1

theorem txMove_due (s : Tasks R cmdSize txSize) (milliVolts : ℕ)
    (hframe : R.rxIncomplete s.rx = true) :
    (printedRecords (txMove s milliVolts).2).length + (txMove s milliVolts).1.txPc.due ≤
      s.txPc.due := by
  cases hpc : s.txPc with
  | testing => simp [txMove, hpc, hframe, printedRecords, TxPc.due]
  | receiving =>
      cases hq : s.txQueue.receive <;> simp [txMove, hpc, hq, printedRecords, TxPc.due]
  | printing b | writing b | ending b | freeing b =>
      simp [txMove, hpc, printedRecords, Event.printed?, TxPc.due]

theorem step_of_ne_tx (s : Tasks R cmdSize txSize) {m : Move R}
    (h : ∀ milliVolts, m ≠ .tx milliVolts) :
    printedRecords (s.step m).2 = [] ∧ (s.step m).1.txPc = s.txPc := by
  have hm := s.step_moves m
  generalize (s.step m).1 = s', (s.step m).2 = events at hm ⊢
  cases hm with
  | look milliVolts | take milliVolts | miss milliVolts | print milliVolts
  | write milliVolts | println milliVolts | freeTx milliVolts => exact absurd rfl (h milliVolts)
  | _ => exact ⟨by simp [printedRecords, Event.printed?], rfl⟩

/-- What a move writes inside a frame was due; a frame that begins makes one record due. -/
theorem due_step (s : Tasks R cmdSize txSize) (m : Move R) :
    (writtenInside s m).length + (s.step m).1.due ≤ s.due + (frameBegun s m).length := by
  cases hframe : R.rxIncomplete s.rx with
  | false =>
      have hwritten : writtenInside s m = [] := by simp [writtenInside, hframe]
      rw [hwritten, List.length_nil, Nat.zero_add]
      cases hnext : R.rxIncomplete (s.step m).1.rx with
      | false => simp [Tasks.due, hnext]
      | true =>
          have hbegun : frameBegun s m = [m] := by simp [frameBegun, hframe, hnext]
          rw [hbegun]
          exact (s.step m).1.due_le.trans (Nat.le_add_left 1 s.due)
  | true =>
      have hdue : s.due = s.txPc.due := by simp [Tasks.due, hframe]
      have hwritten : writtenInside s m = printedRecords (s.step m).2 := by
        simp [writtenInside, hframe]
      have hle : (s.step m).1.due ≤ (s.step m).1.txPc.due := by
        rw [Tasks.due]
        split
        · exact le_rfl
        · exact Nat.zero_le _
      have htotal : (printedRecords (s.step m).2).length + (s.step m).1.txPc.due ≤
          s.txPc.due := by
        by_cases htx : ∃ milliVolts, m = .tx milliVolts
        · obtain ⟨milliVolts, rfl⟩ := htx
          exact txMove_due s milliVolts hframe
        · obtain ⟨hnone, hpc⟩ := step_of_ne_tx s fun milliVolts h => htx ⟨milliVolts, h⟩
          rw [hnone, hpc, List.length_nil, Nat.zero_add]
      rw [hwritten, hdue]
      omega

theorem collect_inFrame {s : Tasks R cmdSize txSize} {ms : List (Move R)}
    (h : Transition.StepsMeet Tasks.step InFrame s ms) :
    Transition.collect Tasks.step writtenInside s ms =
        printedRecords (Transition.run Tasks.step s ms).2 ∧
      Transition.collect Tasks.step frameBegun s ms = [] := by
  induction ms generalizing s with
  | nil => exact ⟨rfl, rfl⟩
  | cons m ms ih =>
      rw [Transition.stepsMeet_cons] at h
      obtain ⟨hwritten, hbegun⟩ := ih h.2
      have hframe : R.rxIncomplete s.rx = true := h.1
      rw [Transition.collect, Transition.collect, Transition.run_cons, hwritten, hbegun]
      simp [writtenInside, frameBegun, hframe, printedRecords]

/-- In every interleaving no more than one record is written in a stretch during which a
frame is in progress, and no more are written in all frames together than frames are
begun. -/
theorem written_inside_frames (rx : R.State) (ms : List (Move R)) :
    let start : Tasks R cmdSize txSize := Tasks.start cmdSize txSize rx
    (∀ pre frame, pre ++ frame <+: ms →
      Transition.StepsMeet Tasks.step InFrame (Transition.run Tasks.step start pre).1 frame →
        (printedRecords (Transition.run Tasks.step
          (Transition.run Tasks.step start pre).1 frame).2).length ≤ 1) ∧
      (Transition.collect Tasks.step writtenInside start ms).length ≤
        (Transition.collect Tasks.step frameBegun start ms).length := by
  intro start
  have hpaid := fun s => Transition.length_collect_add_le (@due_step R cmdSize txSize) s
  constructor
  · intro pre frame _ hframe
    have hstretch := hpaid (Transition.run Tasks.step start pre).1 frame
    have hdue := (Transition.run Tasks.step start pre).1.due_le
    obtain ⟨hwritten, hbegun⟩ := collect_inFrame hframe
    rw [hwritten, hbegun, List.length_nil] at hstretch
    omega
  · have hdue : start.due = 0 := by simp [start, Tasks.due, Tasks.start, TxPc.due]
    have hall := hpaid start ms
    omega

/-- A frame begins while `_txTask` is about to print the packet of the frame before. -/
example :
    let ms : List (Move (rxTask {})) := readBytes {} requestiPodName.frame ++
      [.rx, .process, .process, .process, .tx 3300, .tx 3300] ++
      readBytes {} [0xFF, 0x55] ++ [.tx 3300, .tx 3300, .tx 3300]
    let start := Tasks.start 2 2 (rxTaskStart {})
    (Transition.collect Tasks.step writtenInside start ms).map Prod.snd = [[0x07]] ∧
      (Transition.collect Tasks.step frameBegun start ms).length = 2 := by
  decide +kernel

end Snooper

end IpodEsp32
