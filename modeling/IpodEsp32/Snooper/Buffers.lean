import IpodEsp32.Ownership.Ledger
import IpodEsp32.Snooper.Delivery

/-!
# Who owns the payload buffers

Every buffer allocated by `_rxTask` or `_queuePacket` is in the hands of a task, in a
queue, or was deleted. `xQueueReset` forgets what is still in a queue, and `resetState`
calls it after a loop that drains the queue. For `_cmdQueue` nothing can be left, since
only the task that runs the loop fills it. `_txQueue` is filled by `_processTask`, which
may run between the loop and the call; a buffer it queues there is lost
(`lost_between_drain_and_reset`). The books are exact throughout a run exactly when
`_txQueue` is empty at each of these calls (`owned_throughout_iff`).
-/

namespace IpodEsp32

namespace Snooper

def Event.freed? : Event → Option ℕ
  | .freed id => some id
  | _ => none

variable {R : Receiver} {cmdSize txSize : ℕ}

def Tasks.held (s : Tasks R cmdSize txSize) : List ℕ :=
  s.txPc.held ++ s.txQueue.items.map Buffer.id ++ s.processPc.held ++
    s.cmdQueue.items.map Buffer.id ++ s.rxPc.held

/-- Each buffer ever allocated is in one `_cmdQueue` entry, in one `_txQueue` entry, in
the hands of one task, or was deleted once, and only one of these. -/
def Owned (h : List Event) (s : Tasks R cmdSize txSize) : Prop :=
  Ownership.Books Event.freed? h s.held s.allocated

instance (h : List Event) (s : Tasks R cmdSize txSize) : Decidable (Owned h s) :=
  inferInstanceAs (Decidable (Ownership.Books _ _ _ _))

/-- If the move is the call of `xQueueReset` on `_txQueue`, the queue is empty. -/
def TxResetEmpty (s : Tasks R cmdSize txSize) (m : Move R) : Prop :=
  m = .rx → s.rxPc = .resetTx → s.txQueue.items = []

/-- `_rxTask` is in `resetState`, behind the loop that drains `_cmdQueue` and before the
reset of that queue. -/
def RxPc.CmdDrained : RxPc → Prop
  | .drainTx | .drainTxFree _ | .resetCmd => True
  | _ => False

/-- The books are exact, and what `resetState` has drained stays empty. -/
structure Ledgered (h : List Event) (s : Tasks R cmdSize txSize) : Prop where
  owned : Owned h s
  drained : s.rxPc.CmdDrained → s.cmdQueue.items = []

theorem ledgered_start (rx : R.State) :
    Ledgered [] (Tasks.start cmdSize txSize rx : Tasks R cmdSize txSize) where
  owned := Ownership.books_start
  drained h := by cases h

section

variable {h events : List Event} {s s' : Tasks R cmdSize txSize}

theorem freed_droppedCmd (bs : List (Buffer Packet)) :
    (bs.map Event.droppedCmd).filterMap Event.freed? = [] := by
  simp [Event.freed?]

theorem freed_droppedTx (ts : List (Buffer (List UInt8))) :
    (ts.map Event.droppedTx).filterMap Event.freed? = [] := by
  simp [Event.freed?]

theorem Ledgered.owned_move {m : Move R} (hs : Ledgered h s) (hm : s.Moves m events s')
    (hreset : TxResetEmpty s m) : Owned (h ++ events) s' := by
  obtain ⟨howned, hdrained⟩ := hs
  cases hm with
  | stay m => exact howned.stay rfl rfl rfl
  | read i hpc => exact howned.stay rfl rfl rfl
  | accept i p hpc =>
      exact howned.allocate s.held [] rfl rfl (by simp)
        (by simp [Tasks.held, hpc, RxPc.held])
  | reset i hpc | sendFailed b hpc hfull | drainedCmd hpc hq | drainedTx hpc hq =>
      exact howned.stay rfl rfl (by simp [Tasks.held, hpc, RxPc.held])
  | send b q hpc hq =>
      exact howned.stay rfl rfl (by simp [Tasks.held, hpc, hq, RxPc.held])
  | dropCmd b hpc | drainCmdFree b hpc | drainTxFree b hpc =>
      exact howned.free b.id (s.txPc.held ++ s.txQueue.items.map Buffer.id ++
          s.processPc.held ++ s.cmdQueue.items.map Buffer.id) [] rfl rfl
        (by simp [Tasks.held, hpc, RxPc.held]) (by simp [Tasks.held, RxPc.held])
  | drainCmd b q hpc hq =>
      exact howned.carry b.id (s.txPc.held ++ s.txQueue.items.map Buffer.id ++
          s.processPc.held) (q.items.map Buffer.id) [] rfl rfl
        (by simp [Tasks.held, hpc, hq, RxPc.held]) (by simp [Tasks.held, RxPc.held])
  | drainTx t q hpc hq =>
      exact howned.carry t.id s.txPc.held (q.items.map Buffer.id ++ s.processPc.held ++
          s.cmdQueue.items.map Buffer.id) [] rfl rfl
        (by simp [Tasks.held, hpc, hq, RxPc.held]) (by simp [Tasks.held, RxPc.held])
  | resetCmd hpc =>
      have hempty : s.cmdQueue.items = [] := hdrained (by rw [hpc]; trivial)
      exact howned.stay (freed_droppedCmd _) rfl
        (by simp [Tasks.held, hpc, hempty, RxPc.held])
  | resetTx hpc =>
      have hempty : s.txQueue.items = [] := hreset rfl hpc
      exact howned.stay (freed_droppedTx _) rfl
        (by simp [Tasks.held, hpc, hempty, RxPc.held])
  | receive b q hpc hq | queue b t q hpc hq =>
      exact howned.stay rfl rfl (by simp [Tasks.held, hpc, hq, ProcessPc.held])
  | forward b bytes hpc hf =>
      exact howned.allocate (s.txPc.held ++ s.txQueue.items.map Buffer.id)
        (b.id :: (s.cmdQueue.items.map Buffer.id ++ s.rxPc.held)) rfl rfl
        (by simp [Tasks.held, hpc, ProcessPc.held]) (by simp [Tasks.held, ProcessPc.held])
  | pass b hpc hf | queueFailed b t hpc hfull =>
      exact howned.stay rfl rfl (by simp [Tasks.held, hpc, ProcessPc.held])
  | dropTx b t hpc =>
      exact howned.free t.id (s.txPc.held ++ s.txQueue.items.map Buffer.id)
        (b.id :: (s.cmdQueue.items.map Buffer.id ++ s.rxPc.held)) rfl rfl
        (by simp [Tasks.held, hpc, ProcessPc.held]) (by simp [Tasks.held, ProcessPc.held])
  | freeCmd b hpc =>
      exact howned.free b.id (s.txPc.held ++ s.txQueue.items.map Buffer.id)
        (s.cmdQueue.items.map Buffer.id ++ s.rxPc.held) rfl rfl
        (by simp [Tasks.held, hpc, ProcessPc.held]) (by simp [Tasks.held, ProcessPc.held])
  | look milliVolts hpc hrx | miss milliVolts hpc hq | print milliVolts t hpc
  | write milliVolts t hpc | println milliVolts t hpc =>
      exact howned.stay rfl rfl (by simp [Tasks.held, hpc, TxPc.held])
  | take milliVolts t q hpc hq =>
      exact howned.stay rfl rfl (by simp [Tasks.held, hpc, hq, TxPc.held])
  | freeTx milliVolts t hpc =>
      exact howned.free t.id [] (s.txQueue.items.map Buffer.id ++ s.processPc.held ++
          s.cmdQueue.items.map Buffer.id ++ s.rxPc.held) rfl rfl
        (by simp [Tasks.held, hpc, TxPc.held]) (by simp [Tasks.held, TxPc.held])

/-- What `resetState` has drained from `_cmdQueue` stays drained: only `_rxTask` fills
it. -/
theorem Ledgered.drained_move {m : Move R} (hs : Ledgered h s) (hm : s.Moves m events s')
    (hdrained : s'.rxPc.CmdDrained) : s'.cmdQueue.items = [] := by
  have hstay := hs.drained
  cases hm with
  | drainedCmd hpc hq => exact hq
  | drainTx t q hpc hq | drainedTx hpc hq | drainTxFree t hpc =>
      exact hstay (by rw [hpc]; trivial)
  | receive b q hpc hq =>
      have hempty := hstay hdrained
      rw [hq] at hempty
      cases hempty
  | read i hpc => exact hstay hdrained
  | accept i p hpc | reset i hpc | send b q hpc hq | sendFailed b hpc hfull
  | dropCmd b hpc | drainCmd b q hpc hq | drainCmdFree b hpc | resetCmd hpc
  | resetTx hpc => cases hdrained
  | _ => exact hstay hdrained

theorem Owned.lost {m : Move R} (hs : Owned h s) (hnot : ¬ TxResetEmpty s m) :
    ¬ Owned (h ++ (s.step m).2) (s.step m).1 := by
  rw [TxResetEmpty, not_forall] at hnot
  obtain ⟨rfl, hnot⟩ := hnot
  rw [not_forall] at hnot
  obtain ⟨hpc, hfull⟩ := hnot
  have hstep : s.step .rx = ({ s with txQueue := .empty, rxPc := .reading },
      s.txQueue.items.map .droppedTx) := by
    simp [Tasks.step, rxMove, hpc]
  have hheld : s.held = s.txPc.held ++ (s.txQueue.items.map Buffer.id ++
      (s.processPc.held ++ s.cmdQueue.items.map Buffer.id)) := by
    simp [Tasks.held, hpc, RxPc.held]
  have hheld' : (({ s with txQueue := .empty, rxPc := .reading } :
      Tasks R cmdSize txSize)).held =
      s.txPc.held ++ (s.processPc.held ++ s.cmdQueue.items.map Buffer.id) := by
    simp [Tasks.held, RxPc.held]
  rw [hstep, Owned, hheld']
  exact Ownership.Books.not_books_of_lost hs _ _ (freed_droppedTx _)
    (by simpa using hfull) hheld

end

/-- In every interleaving, each buffer ever allocated is in exactly one place in every
state reached exactly when `_txQueue` is empty whenever `resetState` calls `xQueueReset`
on it. -/
theorem owned_throughout_iff (rx : R.State) (ms : List (Move R)) :
    Transition.Throughout Tasks.step Owned
        (Tasks.start cmdSize txSize rx : Tasks R cmdSize txSize) ms ↔
      Transition.StepsMeet Tasks.step TxResetEmpty
        (Tasks.start cmdSize txSize rx : Tasks R cmdSize txSize) ms :=
  Transition.throughout_iff_stepsMeet (I := Ledgered) (ledgered_start rx)
    (fun _ s m hs hreset =>
      ⟨hs.owned_move (s.step_moves m) hreset, hs.drained_move (s.step_moves m)⟩)
    (fun _ _ hs => hs.owned) (fun _ _ _ hs hnot => hs.owned.lost hnot) ms

/-- `_processTask` holds a packet while `_rxTask` drains both queues, and queues it for
transmission before `_txQueue` is reset: its copy, buffer 1, is nowhere. -/
theorem lost_between_drain_and_reset :
    let s := Transition.run Tasks.step (Tasks.start 32 32 (rxTaskStart {}))
      (readBytes {} requestiPodName.frame ++ [.rx, .process, .process] ++
        [.read (.pollEnd ⟨60001, 60001, 60001⟩), .rx, .rx] ++ [.process] ++ [.rx, .rx])
    s.1.allocated = 2 ∧ s.1.held = [0] ∧ s.2.filterMap Event.freed? = [] ∧ ¬ Owned s.2 s.1 := by
  decide +kernel

end Snooper

end IpodEsp32
