import IpodEsp32.Snooper.Leaks
import IpodEsp32.Transition.Progress
import Mathlib.Data.Fintype.Basic

/-!
# The pipeline runs dry

While the line is quiet the three tasks work off what is in the queues and in their
hands: each move of a task that has something to do lowers the work left, and none adds
to it. However the tasks take turns, a bounded number of rounds empties the pipeline; then
every record was printed or given up, and every buffer was deleted or leaked (`tasks_drained`).
-/

namespace IpodEsp32

namespace Snooper

/-- The tasks of a snooper. -/
inductive Task
  | rx
  | process
  | tx
  deriving DecidableEq

instance : Fintype Task where
  elems := {.rx, .process, .tx}
  complete k := by cases k <;> decide

variable {R : Receiver} {cmdSize txSize : ℕ}

def Move.task? : Move R → Option Task
  | .read _ => none
  | .rx => some .rx
  | .process => some .process
  | .tx _ => some .tx

/-- No frame is in progress, and the move is not one by which `_rxTask` accepts a packet
or begins to reset. -/
def QuietLine (s : Tasks R cmdSize txSize) (m : Move R) : Prop :=
  R.rxIncomplete s.rx = false ∧ ∀ i, m = .read i → (R.step s.rx i).2 = .none

/-! ### The work left -/

/-- What `_rxTask` has to do: a packet to send stands for all that becomes of it. -/
def RxPc.work : RxPc → ℕ
  | .reading => 0
  | .sending _ => 11
  | .dropping _ => 1
  | .drainCmd => 5
  | .drainCmdFree _ => 6
  | .drainTx => 3
  | .drainTxFree _ => 4
  | .resetCmd => 2
  | .resetTx => 1

def ProcessPc.work : ProcessPc → ℕ
  | .receiving => 0
  | .processing _ => 9
  | .queueing _ _ => 8
  | .dropping _ _ => 2
  | .freeing _ => 1

/-- What `_txTask` has to do, with `n` payloads in its queue. Having looked at
`_rxIncomplete` is worth one move as long as there is something to receive. -/
def TxPc.work (n : ℕ) : TxPc → ℕ
  | .testing => 6 * n
  | .receiving => 6 * n - 1
  | .printing _ => 6 * n + 4
  | .writing _ => 6 * n + 3
  | .ending _ => 6 * n + 2
  | .freeing _ => 6 * n + 1

def Tasks.work : Task → Tasks R cmdSize txSize → ℕ
  | .rx, s => s.rxPc.work
  | .process, s => s.processPc.work + 10 * s.cmdQueue.items.length
  | .tx, s => s.txPc.work s.txQueue.items.length

theorem total_work (s : Tasks R cmdSize txSize) :
    Transition.total Tasks.work s =
      s.rxPc.work + (s.processPc.work + 10 * s.cmdQueue.items.length) +
        s.txPc.work s.txQueue.items.length := by
  have huniv : (Finset.univ : Finset Task) = {.rx, .process, .tx} := rfl
  rw [Transition.total, huniv, Finset.sum_insert (by decide), Finset.sum_insert (by decide),
    Finset.sum_singleton, ← Nat.add_assoc]
  rfl

/-- One payload more in `_txQueue` is worth five or six moves of `_txTask`. -/
theorem TxPc.work_succ (n : ℕ) (pc : TxPc) :
    pc.work n + 5 ≤ pc.work (n + 1) ∧ pc.work (n + 1) ≤ pc.work n + 6 := by
  cases pc <;> simp only [work] <;> omega

theorem TxPc.work_mono {m n : ℕ} (h : m ≤ n) (pc : TxPc) : pc.work m ≤ pc.work n := by
  cases pc <;> simp only [work] <;> omega

/-! ### What a move works off -/

section

variable (s : Tasks R cmdSize txSize)

theorem rxMove_work :
    Transition.total Tasks.work (rxMove s).1 < Transition.total Tasks.work s ∨
      ((rxMove s).1 = s ∧ s.rxPc.work = 0) := by
  simp only [total_work, rxMove]
  cases hpc : s.rxPc with
  | reading => exact Or.inr ⟨rfl, rfl⟩
  | sending b =>
      cases hq : s.cmdQueue.send b with
      | none => simp only [hq, RxPc.work]; omega
      | some q =>
          simp only [hq, Rtos.Queue.items_of_send hq, List.length_append,
            List.length_singleton, RxPc.work]
          omega
  | drainCmd =>
      cases hq : s.cmdQueue.receive with
      | none => simp only [RxPc.work]; omega
      | some next =>
          simp only [Rtos.Queue.items_of_receive hq, List.length_cons, RxPc.work]
          omega
  | drainTx =>
      cases hq : s.txQueue.receive with
      | none => simp only [RxPc.work]; omega
      | some next =>
          have hsucc := s.txPc.work_succ next.2.items.length
          simp only [Rtos.Queue.items_of_receive hq, List.length_cons, RxPc.work]
          omega
  | resetCmd =>
      simp only [Rtos.Queue.items_empty, List.length_nil, RxPc.work]
      omega
  | resetTx =>
      have hmono := s.txPc.work_mono (Nat.zero_le s.txQueue.items.length)
      simp only [Rtos.Queue.items_empty, List.length_nil, RxPc.work]
      omega
  | dropping b | drainCmdFree b | drainTxFree b => simp only [RxPc.work]; omega

theorem processMove_work :
    Transition.total Tasks.work (processMove s).1 < Transition.total Tasks.work s ∨
      ((processMove s).1 = s ∧ Tasks.work .process s = 0) := by
  simp only [total_work, Tasks.work, processMove]
  cases hpc : s.processPc with
  | receiving =>
      cases hq : s.cmdQueue.receive with
      | none =>
          rw [Rtos.Queue.receive_eq_none_iff.1 hq]
          exact Or.inr ⟨rfl, rfl⟩
      | some next =>
          simp only [Rtos.Queue.items_of_receive hq, List.length_cons, ProcessPc.work]
          omega
  | processing b =>
      cases hf : b.content.forwarded with
      | none | some bytes => simp only [hf, ProcessPc.work]; omega
  | queueing b t =>
      cases hq : s.txQueue.send t with
      | none => simp only [hq, ProcessPc.work]; omega
      | some q =>
          have hsucc := s.txPc.work_succ s.txQueue.items.length
          simp only [hq, Rtos.Queue.items_of_send hq, List.length_append,
            List.length_singleton, ProcessPc.work]
          omega
  | dropping b t | freeing b => simp only [ProcessPc.work]; omega

theorem txMove_work (milliVolts : ℕ) (h : R.rxIncomplete s.rx = false) :
    Transition.total Tasks.work (txMove s milliVolts).1 < Transition.total Tasks.work s ∨
      ((∀ k, Tasks.work k (txMove s milliVolts).1 = Tasks.work k s) ∧
        Tasks.work .tx s = 0) := by
  have hkeep : ∀ pc : TxPc, pc.work s.txQueue.items.length = 0 → Tasks.work .tx s = 0 →
      ∀ k, Tasks.work k { s with txPc := pc } = Tasks.work k s := by
    intro pc hpc hnone k
    cases k with
    | rx | process => rfl
    | tx => exact hpc.trans hnone.symm
  cases hpc : s.txPc with
  | testing =>
      have hstep : (txMove s milliVolts).1 = { s with txPc := .receiving } := by
        simp [txMove, hpc, h]
      rw [hstep, total_work, total_work, hpc]
      rcases Nat.eq_zero_or_pos s.txQueue.items.length with hnone | hpos
      · refine Or.inr ⟨hkeep .receiving ?_ ?_, ?_⟩ <;> simp [Tasks.work, TxPc.work, hpc, hnone]
      · simp only [TxPc.work]
        omega
  | receiving =>
      cases hq : s.txQueue.receive with
      | none =>
          have hstep : (txMove s milliVolts).1 = { s with txPc := .testing } := by
            simp [txMove, hpc, hq]
          have hnone := congrArg List.length (Rtos.Queue.receive_eq_none_iff.1 hq)
          rw [hstep]
          refine Or.inr ⟨hkeep .testing ?_ ?_, ?_⟩ <;> simp_all [Tasks.work, TxPc.work]
      | some next =>
          simp only [total_work, txMove, hpc, hq, Rtos.Queue.items_of_receive hq,
            List.length_cons, TxPc.work]
          omega
  | printing b | writing b | ending b | freeing b =>
      simp only [total_work, txMove, hpc, TxPc.work]
      omega

end

/-! ### Runs -/

theorem workedOff :
    Transition.WorkedOff (@Tasks.step R cmdSize txSize) QuietLine Move.task? Tasks.work where
  lowers_or_keeps s m hquiet := by
    have hstay : ∀ s' : Tasks R cmdSize txSize, s' = s →
        ∀ k, Tasks.work k s' = Tasks.work k s := fun s' h k => by rw [h]
    cases m with
    | read i =>
        have hnone := hquiet.2 i rfl
        refine Or.inr fun k => ?_
        simp only [Tasks.step, readMove]
        split
        · rw [hnone]
          cases k <;> rfl
        · rfl
    | rx => exact (rxMove_work s).imp_right fun h => hstay _ h.1
    | process => exact (processMove_work s).imp_right fun h => hstay _ h.1
    | tx milliVolts => exact (txMove_work s milliVolts hquiet.1).imp_right And.left
  lowers s m k hquiet hmover hwork := by
    cases m with
    | read i => cases hmover
    | rx =>
        cases hmover
        exact (rxMove_work s).resolve_right fun h => hwork.ne' h.2
    | process =>
        cases hmover
        exact (processMove_work s).resolve_right fun h => hwork.ne' h.2
    | tx milliVolts =>
        cases hmover
        exact (txMove_work s milliVolts hquiet.1).resolve_right fun h => hwork.ne' h.2

theorem total_work_le (s : Tasks R cmdSize txSize) :
    Transition.total Tasks.work s ≤ 10 * cmdSize + 6 * txSize + 24 := by
  have hcmd := s.cmdQueue.length_le
  have htx := s.txQueue.length_le
  have hrxPc : s.rxPc.work ≤ 11 := by cases s.rxPc <;> simp [RxPc.work]
  have hprocessPc : s.processPc.work ≤ 9 := by cases s.processPc <;> simp [ProcessPc.work]
  have htxPc : s.txPc.work s.txQueue.items.length ≤ 6 * txSize + 4 := by
    cases s.txPc <;> simp only [TxPc.work] <;> omega
  rw [total_work]
  omega

theorem idle_of_total_work {s : Tasks R cmdSize txSize}
    (h : Transition.total Tasks.work s = 0) : s.Idle := by
  have hrx : s.rxPc.work = 0 := Transition.work_eq_zero h .rx
  have hprocess : s.processPc.work + 10 * s.cmdQueue.items.length = 0 :=
    Transition.work_eq_zero h .process
  have htx : s.txPc.work s.txQueue.items.length = 0 := Transition.work_eq_zero h .tx
  refine ⟨List.length_eq_zero_iff.1 (by omega), List.length_eq_zero_iff.1 ?_, ?_, ?_, ?_⟩
  · cases hpc : s.txPc <;> simp only [hpc, TxPc.work] at htx <;> omega
  · cases hpc : s.rxPc <;> simp_all [RxPc.work, RxPc.held]
  · cases hpc : s.processPc <;> simp_all [ProcessPc.work, ProcessPc.held]
  · cases hpc : s.txPc <;> simp_all [TxPc.work, TxPc.held]

theorem held_of_idle {s : Tasks R cmdSize txSize} (h : s.Idle) : s.held = [] := by
  obtain ⟨hcmd, htx, hrx, hprocess, htxPc⟩ := h
  simp [Tasks.held, hcmd, htx, hrx, hprocess, htxPc]

theorem step_rx {s : Tasks R cmdSize txSize} {m : Move R} (h : m.task? ≠ none) :
    (s.step m).1.rx = s.rx := by
  have hm := s.step_moves m
  cases m with
  | read i => exact absurd rfl h
  | rx | process | tx =>
      generalize (s.step _).1 = s', (s.step _).2 = events at hm
      cases hm <;> rfl

theorem stepsMeet_quietLine {s : Tasks R cmdSize txSize} {ms : List (Move R)}
    (hidle : R.rxIncomplete s.rx = false) (hms : ∀ m ∈ ms, m.task? ≠ none) :
    Transition.StepsMeet Tasks.step QuietLine s ms := by
  induction ms generalizing s with
  | nil => exact Transition.stepsMeet_nil QuietLine s
  | cons m ms ih =>
      have hm := hms m List.mem_cons_self
      have hrest := ih (s := (s.step m).1) (by rwa [step_rx hm])
        fun m' hm' => hms m' (List.mem_cons_of_mem m hm')
      refine Transition.stepsMeet_cons.2 ⟨⟨hidle, ?_⟩, hrest⟩
      rintro i rfl
      exact absurd rfl hm

/-- Whatever has happened before, once the line stays quiet a bounded number of rounds,
in which each task moves at least once, in any order, leaves both queues empty and no
packet in the hands of a task: each record was printed or given up, and each buffer was
deleted or leaked. -/
theorem tasks_drained (rx : R.State) (ms : List (Move R)) (rounds : List (List (Move R)))
    (hquiet : Transition.StepsMeet Tasks.step QuietLine
      (Transition.run Tasks.step (Tasks.start cmdSize txSize rx) ms).1 rounds.flatten)
    (hrounds : ∀ round ∈ rounds, ∀ k, ∃ m ∈ round, m.task? = some k)
    (hlen : 10 * cmdSize + 6 * txSize + 24 ≤ rounds.length) :
    let all := ms ++ rounds.flatten
    let s := Transition.run Tasks.step (Tasks.start cmdSize txSize rx) all
    s.1.Idle ∧
      (printedRecords s.2 ++ droppedRecords s.2).Perm
          (lingo0x00Records (acceptedPackets s.2)) ∧
        ((leaks (Tasks.start cmdSize txSize rx) all).flatten ++
          s.2.filterMap Event.freed?).Perm (List.range s.1.allocated) := by
  intro all s
  have hidle : s.1.Idle := by
    have hexhaust := workedOff.exhaust hquiet hrounds ((total_work_le _).trans hlen)
    rw [← congrArg Prod.fst (Transition.run_append Tasks.step
      (Tasks.start cmdSize txSize rx) ms rounds.flatten)] at hexhaust
    exact idle_of_total_work hexhaust
  refine ⟨hidle, ((flowing_run rx all).settled hidle).1, ?_⟩
  have hbooks : Accounted (leaks (Tasks.start cmdSize txSize rx) all) s.2 s.1 :=
    accounted_run rx all
  rwa [Accounted, Ownership.Exact, held_of_idle hidle] at hbooks

/-- A packet read from the port, and then 56 rounds of the three tasks. -/
theorem tasks_drained_requestiPodName :
    let ms := readBytes {} requestiPodName.frame
    let rounds := List.replicate 56 [.tx 3300, .rx, .process]
    let all := ms ++ rounds.flatten
    let s := Transition.run Tasks.step (Tasks.start 2 2 (rxTaskStart {})) all
    s.1.Idle ∧
      (printedRecords s.2 ++ droppedRecords s.2).Perm
          (lingo0x00Records (acceptedPackets s.2)) ∧
        ((leaks (Tasks.start 2 2 (rxTaskStart {})) all).flatten ++
          s.2.filterMap Event.freed?).Perm (List.range s.1.allocated) := by
  refine tasks_drained (rxTaskStart {}) _ _
    (stepsMeet_quietLine (by decide +kernel) ?_) ?_ (by decide)
  · intro m hm
    obtain ⟨round, hround, hm⟩ := List.mem_flatten.1 hm
    rw [List.eq_of_mem_replicate hround] at hm
    have htask : ∀ m ∈ [(.tx 3300 : Move (rxTask {})), .rx, .process], m.task? ≠ none := by
      simp [Move.task?]
    exact htask m hm
  · intro round hround k
    rw [List.eq_of_mem_replicate hround]
    cases k <;> simp [Move.task?]

end Snooper

end IpodEsp32
