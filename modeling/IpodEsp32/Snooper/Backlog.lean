import IpodEsp32.Flow.Backlog
import IpodEsp32.Snooper.Delivery

/-!
# Bursts that the queues can take

Without a reset, packets are given up only by sends to a full queue. Whether a run gives
up any can be told from the order of its sends and receives alone: it does not exactly
when in no part of the run a queue is sent more than its size beyond what is received from
it (`no_drop_iff_balanced`). Then all the records accepted are printed, in order.
-/

namespace IpodEsp32

namespace Snooper

open Flow (Tick)

variable {R : Receiver} {cmdSize txSize : ℕ}

def NotResetting (s : Tasks R cmdSize txSize) (_ : Move R) : Prop :=
  s.rxPc.resetting = false

instance (s : Tasks R cmdSize txSize) (m : Move R) : Decidable (NotResetting s m) :=
  inferInstanceAs (Decidable (_ = _))

/-- What a move is to `_cmdQueue`: a send, or a receive. -/
def cmdTick (s : Tasks R cmdSize txSize) : Move R → Option Tick
  | .rx => match s.rxPc with
    | .sending _ => some .arrive
    | _ => none
  | .process => match s.processPc with
    | .receiving => some .serve
    | _ => none
  | _ => none

def txTick (s : Tasks R cmdSize txSize) : Move R → Option Tick
  | .process => match s.processPc with
    | .queueing _ _ => some .arrive
    | _ => none
  | .tx _ => match s.txPc with
    | .receiving => some .serve
    | _ => none
  | _ => none

def Tasks.cmdLevel (s : Tasks R cmdSize txSize) : ℕ := s.cmdQueue.items.length

def Tasks.txLevel (s : Tasks R cmdSize txSize) : ℕ := s.txQueue.items.length

theorem cmdLevel_of_tick_none {s : Tasks R cmdSize txSize} {m : Move R}
    (hreset : NotResetting s m) (htick : cmdTick s m = none) :
    (s.step m).1.cmdLevel = s.cmdLevel := by
  have hm := s.step_moves m
  rw [NotResetting] at hreset
  generalize (s.step m).1 = s', (s.step m).2 = events at hm
  cases hm with
  | send b q hpc hq => simp [cmdTick, hpc] at htick
  | receive b q hpc hq => simp [cmdTick, hpc] at htick
  | drainCmd b q hpc hq => simp [hpc, RxPc.resetting] at hreset
  | resetCmd hpc => simp [hpc, RxPc.resetting] at hreset
  | _ => rfl

theorem cmdBacklogged :
    Flow.Backlogged (@Tasks.step R cmdSize txSize) NotResetting cmdSize Tasks.cmdLevel
      cmdTick where
  other s m hreset htick := cmdLevel_of_tick_none hreset htick
  arrive s m hreset htick hlt := by
    cases m with
    | rx =>
        cases hpc : s.rxPc with
        | sending b =>
            obtain ⟨q, hq, hlen⟩ := Rtos.Queue.exists_send b hlt
            simpa [Tasks.step, rxMove, hpc, hq, Tasks.cmdLevel] using hlen
        | _ => simp [cmdTick, hpc] at htick
    | process => cases hpc : s.processPc <;> simp [cmdTick, hpc] at htick
    | read i | tx milliVolts => cases htick
  serve s m hreset htick := by
    cases m with
    | rx => cases hpc : s.rxPc <;> simp [cmdTick, hpc] at htick
    | process =>
        cases hpc : s.processPc with
        | receiving =>
            cases hq : s.cmdQueue.receive with
            | none =>
                have hnone := Rtos.Queue.receive_eq_none_iff.1 hq
                simp [Tasks.step, processMove, hpc, hq, Tasks.cmdLevel, hnone]
            | some next =>
                have hsome := Rtos.Queue.items_of_receive hq
                simp [Tasks.step, processMove, hpc, hq, Tasks.cmdLevel, hsome]
        | _ => simp [cmdTick, hpc] at htick
    | read i | tx milliVolts => cases htick

theorem txLevel_of_tick_none {s : Tasks R cmdSize txSize} {m : Move R}
    (hreset : NotResetting s m) (htick : txTick s m = none) :
    (s.step m).1.txLevel = s.txLevel := by
  have hm := s.step_moves m
  rw [NotResetting] at hreset
  generalize (s.step m).1 = s', (s.step m).2 = events at hm
  cases hm with
  | queue b t q hpc hq => simp [txTick, hpc] at htick
  | take milliVolts t q hpc hq => simp [txTick, hpc] at htick
  | drainTx t q hpc hq => simp [hpc, RxPc.resetting] at hreset
  | resetTx hpc => simp [hpc, RxPc.resetting] at hreset
  | _ => rfl

theorem txBacklogged :
    Flow.Backlogged (@Tasks.step R cmdSize txSize) NotResetting txSize Tasks.txLevel
      txTick where
  other s m hreset htick := txLevel_of_tick_none hreset htick
  arrive s m hreset htick hlt := by
    cases m with
    | process =>
        cases hpc : s.processPc with
        | queueing b t =>
            obtain ⟨q, hq, hlen⟩ := Rtos.Queue.exists_send t hlt
            simpa [Tasks.step, processMove, hpc, hq, Tasks.txLevel] using hlen
        | _ => simp [txTick, hpc] at htick
    | tx milliVolts => cases hpc : s.txPc <;> simp [txTick, hpc] at htick
    | read i | rx => cases htick
  serve s m hreset htick := by
    cases m with
    | process => cases hpc : s.processPc <;> simp [txTick, hpc] at htick
    | tx milliVolts =>
        cases hpc : s.txPc with
        | receiving =>
            cases hq : s.txQueue.receive with
            | none =>
                have hnone := Rtos.Queue.receive_eq_none_iff.1 hq
                simp [Tasks.step, txMove, hpc, hq, Tasks.txLevel, hnone]
            | some next =>
                have hsome := Rtos.Queue.items_of_receive hq
                simp [Tasks.step, txMove, hpc, hq, Tasks.txLevel, hsome]
        | _ => simp [txTick, hpc] at htick
    | read i | rx => cases htick

/-! ### Drops -/

theorem no_drop_of_room {s : Tasks R cmdSize txSize} {m : Move R}
    (hreset : NotResetting s m) (hcmd : Flow.Room cmdSize Tasks.cmdLevel cmdTick s m)
    (htx : Flow.Room txSize Tasks.txLevel txTick s m) :
    ∀ e ∈ (s.step m).2, e.isDrop = false := by
  intro e he
  by_contra hdrop
  rw [Bool.not_eq_false] at hdrop
  rcases dropExplained s m e he hdrop with
    ⟨-, hresetting⟩ | ⟨b, rfl, hpc, hfull⟩ | ⟨b, t, rfl, hpc, hfull⟩
  · exact Bool.false_ne_true (hreset.symm.trans hresetting)
  · exact absurd hfull (hcmd (by simp [cmdTick, hpc])).ne
  · exact absurd hfull (htx (by simp [txTick, hpc])).ne

theorem room_of_no_drop {s : Tasks R cmdSize txSize} {m : Move R}
    (h : ∀ e ∈ (s.step m).2, e.isDrop = false) :
    Flow.Room cmdSize Tasks.cmdLevel cmdTick s m ∧
      Flow.Room txSize Tasks.txLevel txTick s m := by
  constructor
  · intro htick
    refine lt_of_le_of_ne s.cmdQueue.length_le fun hfull => ?_
    cases m with
    | rx =>
        cases hpc : s.rxPc with
        | sending b =>
            have hfailed := Rtos.Queue.send_eq_none_iff (x := b).2 hfull
            simp [Tasks.step, rxMove, hpc, hfailed, Event.isDrop] at h
        | _ => simp [cmdTick, hpc] at htick
    | process => cases hpc : s.processPc <;> simp [cmdTick, hpc] at htick
    | read i | tx milliVolts => cases htick
  · intro htick
    refine lt_of_le_of_ne s.txQueue.length_le fun hfull => ?_
    cases m with
    | process =>
        cases hpc : s.processPc with
        | queueing b t =>
            have hfailed := Rtos.Queue.send_eq_none_iff (x := t).2 hfull
            simp [Tasks.step, processMove, hpc, hfailed, Event.isDrop] at h
        | _ => simp [txTick, hpc] at htick
    | tx milliVolts => cases hpc : s.txPc <;> simp [txTick, hpc] at htick
    | read i | rx => cases htick

/-- In a run without a reset nothing is given up exactly when in no part of it a queue is
sent more, beyond what is received from it, than it can hold. -/
theorem no_drop_iff_balanced (rx : R.State) (ms : List (Move R))
    (hreset : Transition.StepsMeet Tasks.step NotResetting
      (Tasks.start cmdSize txSize rx) ms) :
    (∀ e ∈ (Transition.run Tasks.step (Tasks.start cmdSize txSize rx) ms).2,
        e.isDrop = false) ↔
      (∀ w, w <:+: Flow.ticks Tasks.step cmdTick (Tasks.start cmdSize txSize rx) ms →
        Flow.Balanced cmdSize w) ∧
      ∀ w, w <:+: Flow.ticks Tasks.step txTick (Tasks.start cmdSize txSize rx) ms →
        Flow.Balanced txSize w := by
  rw [← cmdBacklogged.stepsMeet_iff hreset rfl, ← txBacklogged.stepsMeet_iff hreset rfl,
    Transition.forall_mem_run_iff]
  constructor
  · intro h
    exact ⟨h.imp fun s m hm => (room_of_no_drop hm).1,
      h.imp fun s m hm => (room_of_no_drop hm).2⟩
  · rintro ⟨hcmd, htx⟩
    exact ((hreset.and (hcmd.and htx))).imp fun s m hm => no_drop_of_room hm.1 hm.2.1 hm.2.2

def twoPackets : List (Move (rxTask {})) :=
  readBytes {} requestiPodName.frame ++ carryOn {} ++
    readBytes {} requestProtocolVersion.frame ++ carryOn {}

/-- With queues of one packet each, nothing is given up. -/
theorem no_drop_iff_balanced_twoPackets :
    let s := Tasks.start 1 1 (rxTaskStart {})
    (∀ e ∈ (Transition.run Tasks.step s twoPackets).2, e.isDrop = false) ↔
      (∀ w, w <:+: Flow.ticks Tasks.step cmdTick s twoPackets → Flow.Balanced 1 w) ∧
        ∀ w, w <:+: Flow.ticks Tasks.step txTick s twoPackets → Flow.Balanced 1 w :=
  no_drop_iff_balanced (rxTaskStart {}) twoPackets (by decide +kernel)

theorem dropped_eq_nil {h : List Event} (hdrop : ∀ e ∈ h, e.isDrop = false) :
    droppedRecords h = [] := by
  refine List.filterMap_eq_nil_iff.2 fun e he => ?_
  have hnot := hdrop e he
  cases e with
  | droppedCmd | droppedTx => cases hnot
  | _ => rfl

/-- Bursts that the queues can take are printed in full: once nothing is under way, the
records printed are those of the packets accepted, in order. -/
theorem printed_eq_of_balanced (rx : R.State) (ms : List (Move R))
    (hreset : Transition.StepsMeet Tasks.step NotResetting
      (Tasks.start cmdSize txSize rx) ms)
    (hcmd : ∀ w, w <:+: Flow.ticks Tasks.step cmdTick (Tasks.start cmdSize txSize rx) ms →
      Flow.Balanced cmdSize w)
    (htx : ∀ w, w <:+: Flow.ticks Tasks.step txTick (Tasks.start cmdSize txSize rx) ms →
      Flow.Balanced txSize w)
    (hidle : (Transition.run Tasks.step (Tasks.start cmdSize txSize rx) ms).1.Idle) :
    let h := (Transition.run Tasks.step (Tasks.start cmdSize txSize rx) ms).2
    printedRecords h = lingo0x00Records (acceptedPackets h) := by
  have hmeet := hreset.and (((cmdBacklogged.stepsMeet_iff hreset rfl).2 hcmd).and
    ((txBacklogged.stepsMeet_iff hreset rfl).2 htx))
  have hdrop := Transition.forall_mem_run_iff.2
    (hmeet.imp fun s m hm => no_drop_of_room hm.1 hm.2.1 hm.2.2)
  exact ((flowing_run rx ms).settled hidle).2 (dropped_eq_nil hdrop)

end Snooper

end IpodEsp32
