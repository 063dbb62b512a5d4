import IpodEsp32.Snooper.Drain

/-!
# The destructor

`~snooper` deletes the three tasks wherever they are, one after the other, then drains
both queues and deletes them. A task deleted later still runs while the first are gone,
so the moves of the tasks and of the destructor interleave. What a task holds when it is
deleted is nobody's; nothing else is lost, and however the tasks are cut off the
destructor ends (`destructor_accounted`).
-/

namespace IpodEsp32

namespace Snooper

/-- Where the destructor is: at the call of `vTaskDelete` for one of the tasks, in one of
the loops that drain the queues, or at the call of `vQueueDelete` for one of them. -/
inductive DestructorPc
  | deleteRx
  | deleteProcess
  | deleteTx
  | drainCmd
  | drainCmdFree (b : Buffer Packet)
  | drainTx
  | drainTxFree (b : Buffer (List UInt8))
  | deleteCmdQueue
  | deleteTxQueue
  | done
  deriving DecidableEq

def DestructorPc.alive : DestructorPc → Task → Bool
  | .deleteRx, _ => true
  | .deleteProcess, k => k != .rx
  | .deleteTx, k => k == .tx
  | _, _ => false

def DestructorPc.held : DestructorPc → List ℕ
  | .drainCmdFree b => [b.id]
  | .drainTxFree t => [t.id]
  | _ => []

def Move.owner {R : Receiver} : Move R → Task
  | .read _ | .rx => .rx
  | .process => .process
  | .tx _ => .tx

/-- A snooper that is destroyed. A deleted task stays where it was. -/
structure Teardown (R : Receiver) (cmdSize txSize : ℕ) where
  tasks : Tasks R cmdSize txSize
  pc : DestructorPc

inductive TeardownMove (R : Receiver)
  | task (m : Move R)
  | destructor

variable {R : Receiver} {cmdSize txSize : ℕ}

/-- The tasks just created; the destructor may be called at any time. -/
def Teardown.start (cmdSize txSize : ℕ) (rx : R.State) : Teardown R cmdSize txSize where
  tasks := .start cmdSize txSize rx
  pc := .deleteRx

/-- `~snooper` -/
def destructorMove (s : Teardown R cmdSize txSize) :
    Teardown R cmdSize txSize × List Event :=
  match s.pc with
  | .deleteRx => ({ s with pc := .deleteProcess }, [])
  | .deleteProcess => ({ s with pc := .deleteTx }, [])
  | .deleteTx => ({ s with pc := .drainCmd }, [])
  | .drainCmd =>
      match s.tasks.cmdQueue.receive with
      | some (b, q) =>
          ({ tasks := { s.tasks with cmdQueue := q }, pc := .drainCmdFree b },
            [.droppedCmd b])
      | none => ({ s with pc := .drainTx }, [])
  | .drainCmdFree b => ({ s with pc := .drainCmd }, [.freed b.id])
  | .drainTx =>
      match s.tasks.txQueue.receive with
      | some (t, q) =>
          ({ tasks := { s.tasks with txQueue := q }, pc := .drainTxFree t },
            [.droppedTx t])
      | none => ({ s with pc := .deleteCmdQueue }, [])
  | .drainTxFree t => ({ s with pc := .drainTx }, [.freed t.id])
  | .deleteCmdQueue =>
      ({ tasks := { s.tasks with cmdQueue := .empty }, pc := .deleteTxQueue },
        s.tasks.cmdQueue.items.map .droppedCmd)
  | .deleteTxQueue =>
      ({ tasks := { s.tasks with txQueue := .empty }, pc := .done },
        s.tasks.txQueue.items.map .droppedTx)
  | .done => (s, [])

def Teardown.step (s : Teardown R cmdSize txSize) :
    TeardownMove R → Teardown R cmdSize txSize × List Event
  | .task m =>
      if s.pc.alive m.owner then
        ({ s with tasks := (s.tasks.step m).1 }, (s.tasks.step m).2)
      else
        (s, [])
  | .destructor => destructorMove s

def Teardown.taken (s : Teardown R cmdSize txSize) : TeardownMove R → List (Move R)
  | .task m => if s.pc.alive m.owner then [m] else []
  | .destructor => []

/-- The moves of the tasks in a run, up to the end of each of them. -/
def taken (s : Teardown R cmdSize txSize) (ms : List (TeardownMove R)) : List (Move R) :=
  Transition.collect Teardown.step Teardown.taken s ms

/-! ### What a move of the destructor can do -/

/-- What a move of the destructor finds and what it changes. -/
inductive Teardown.Moves (s : Teardown R cmdSize txSize) :
    List Event → Teardown R cmdSize txSize → Prop
  | deleteRx : s.pc = .deleteRx → Moves s [] { s with pc := .deleteProcess }
  | deleteProcess : s.pc = .deleteProcess → Moves s [] { s with pc := .deleteTx }
  | deleteTx : s.pc = .deleteTx → Moves s [] { s with pc := .drainCmd }
  | drainCmd (b : Buffer Packet) (q : Rtos.Queue cmdSize (Buffer Packet)) :
      s.pc = .drainCmd → s.tasks.cmdQueue.items = b :: q.items →
      Moves s [.droppedCmd b]
        { tasks := { s.tasks with cmdQueue := q }, pc := .drainCmdFree b }
  | drainedCmd : s.pc = .drainCmd → s.tasks.cmdQueue.items = [] →
      Moves s [] { s with pc := .drainTx }
  | drainCmdFree (b : Buffer Packet) : s.pc = .drainCmdFree b →
      Moves s [.freed b.id] { s with pc := .drainCmd }
  | drainTx (t : Buffer (List UInt8)) (q : Rtos.Queue txSize (Buffer (List UInt8))) :
      s.pc = .drainTx → s.tasks.txQueue.items = t :: q.items →
      Moves s [.droppedTx t]
        { tasks := { s.tasks with txQueue := q }, pc := .drainTxFree t }
  | drainedTx : s.pc = .drainTx → s.tasks.txQueue.items = [] →
      Moves s [] { s with pc := .deleteCmdQueue }
  | drainTxFree (t : Buffer (List UInt8)) : s.pc = .drainTxFree t →
      Moves s [.freed t.id] { s with pc := .drainTx }
  | deleteCmdQueue : s.pc = .deleteCmdQueue →
      Moves s (s.tasks.cmdQueue.items.map .droppedCmd)
        { tasks := { s.tasks with cmdQueue := .empty }, pc := .deleteTxQueue }
  | deleteTxQueue : s.pc = .deleteTxQueue →
      Moves s (s.tasks.txQueue.items.map .droppedTx)
        { tasks := { s.tasks with txQueue := .empty }, pc := .done }
  | done : s.pc = .done → Moves s [] s

theorem destructorMove_moves (s : Teardown R cmdSize txSize) :
    s.Moves (destructorMove s).2 (destructorMove s).1 := by
  unfold destructorMove
  cases hpc : s.pc with
  | deleteRx => exact .deleteRx hpc
  | deleteProcess => exact .deleteProcess hpc
  | deleteTx => exact .deleteTx hpc
  | drainCmd =>
      cases hq : s.tasks.cmdQueue.receive with
      | none =>
          simpa [hq] using Teardown.Moves.drainedCmd hpc (Rtos.Queue.receive_eq_none_iff.1 hq)
      | some next =>
          simpa [hq] using
            Teardown.Moves.drainCmd next.1 next.2 hpc (Rtos.Queue.items_of_receive hq)
  | drainCmdFree b => exact .drainCmdFree b hpc
  | drainTx =>
      cases hq : s.tasks.txQueue.receive with
      | none =>
          simpa [hq] using Teardown.Moves.drainedTx hpc (Rtos.Queue.receive_eq_none_iff.1 hq)
      | some next =>
          simpa [hq] using
            Teardown.Moves.drainTx next.1 next.2 hpc (Rtos.Queue.items_of_receive hq)
  | drainTxFree t => exact .drainTxFree t hpc
  | deleteCmdQueue => exact .deleteCmdQueue hpc
  | deleteTxQueue => exact .deleteTxQueue hpc
  | done => exact .done hpc

/-! ### The books -/

def DestructorPc.Running : DestructorPc → Prop
  | .deleteRx | .deleteProcess | .deleteTx => True
  | _ => False

def DestructorPc.CmdDrained : DestructorPc → Prop
  | .drainTx | .drainTxFree _ | .deleteCmdQueue | .deleteTxQueue | .done => True
  | _ => False

def DestructorPc.TxDrained : DestructorPc → Prop
  | .deleteCmdQueue | .deleteTxQueue | .done => True
  | _ => False

theorem DestructorPc.running_of_alive {pc : DestructorPc} {k : Task}
    (h : pc.alive k = true) : pc.Running := by
  cases pc with
  | deleteRx | deleteProcess | deleteTx => trivial
  | _ => cases h

theorem DestructorPc.Running.held_eq {pc : DestructorPc} (h : pc.Running) :
    pc.held = [] := by
  cases pc with
  | deleteRx | deleteProcess | deleteTx => rfl
  | _ => cases h

/-- The buffers in the queues, in the hands of the tasks, left or deleted, and in those of
the destructor. -/
def Teardown.held (s : Teardown R cmdSize txSize) : List ℕ :=
  s.tasks.held ++ s.pc.held

/-- As long as a task is left, the snooper is where the moves taken have led it; then the
destructor deletes what it takes from the queues, and a queue once drained stays empty. -/
structure TornDown (rx : R.State) (ms : List (Move R)) (h : List Event)
    (s : Teardown R cmdSize txSize) : Prop where
  ran : s.pc.Running →
    (s.tasks, h) = Transition.run Tasks.step (Tasks.start cmdSize txSize rx) ms
  books : Ownership.Books Event.freed?
    ((leaks (Tasks.start cmdSize txSize rx : Tasks R cmdSize txSize) ms).flatten.map
      Event.freed ++ h) s.held s.tasks.allocated
  cmd : s.pc.CmdDrained → s.tasks.cmdQueue.items = []
  tx : s.pc.TxDrained → s.tasks.txQueue.items = []

variable {rx : R.State} {ms : List (Move R)} {h : List Event}
  {s s' : Teardown R cmdSize txSize}

/-- While a task is left, the books are those of the tasks. -/
theorem tornDown_of_run (hpc : s.pc.Running)
    (hrun : (s.tasks, h) = Transition.run Tasks.step (Tasks.start cmdSize txSize rx) ms) :
    TornDown rx ms h s where
  ran _ := hrun
  books := by
    have hbooks := @accounted_run R cmdSize txSize rx ms
    rw [← hrun, accounted_iff_owned] at hbooks
    rwa [Teardown.held, hpc.held_eq, List.append_nil]
  cmd h' := by cases hs : s.pc <;> simp_all [DestructorPc.Running, DestructorPc.CmdDrained]
  tx h' := by cases hs : s.pc <;> simp_all [DestructorPc.Running, DestructorPc.TxDrained]

theorem TornDown.books_destructor {events : List Event} (hs : TornDown rx ms h s)
    (hm : s.Moves events s') :
    Ownership.Books Event.freed?
      ((leaks (Tasks.start cmdSize txSize rx : Tasks R cmdSize txSize) ms).flatten.map
        Event.freed ++ (h ++ events)) s'.held s'.tasks.allocated := by
  obtain ⟨-, hbooks, hcmd, htx⟩ := hs
  rw [← List.append_assoc]
  cases hm with
  | deleteRx hpc | deleteProcess hpc | deleteTx hpc | drainedCmd hpc hq | drainedTx hpc hq =>
      exact hbooks.stay rfl rfl (by simp [Teardown.held, hpc, DestructorPc.held])
  | drainCmd b q hpc hq =>
      exact hbooks.carry b.id (s.tasks.txPc.held ++ s.tasks.txQueue.items.map Buffer.id ++
          s.tasks.processPc.held) (q.items.map Buffer.id ++ s.tasks.rxPc.held) [] rfl rfl
        (by simp [Teardown.held, Tasks.held, hpc, hq, DestructorPc.held])
        (by simp [Teardown.held, Tasks.held, DestructorPc.held])
  | drainTx t q hpc hq =>
      exact hbooks.carry t.id s.tasks.txPc.held (q.items.map Buffer.id ++
          s.tasks.processPc.held ++ s.tasks.cmdQueue.items.map Buffer.id ++
          s.tasks.rxPc.held) [] rfl rfl
        (by simp [Teardown.held, Tasks.held, hpc, hq, DestructorPc.held])
        (by simp [Teardown.held, Tasks.held, DestructorPc.held])
  | drainCmdFree b hpc | drainTxFree b hpc =>
      exact hbooks.free b.id s.tasks.held [] rfl rfl
        (by simp [Teardown.held, hpc, DestructorPc.held])
        (by simp [Teardown.held, DestructorPc.held])
  | deleteCmdQueue hpc =>
      have hempty := hcmd (by rw [hpc]; trivial)
      exact hbooks.stay (freed_droppedCmd _) rfl
        (by simp [Teardown.held, Tasks.held, hpc, hempty, DestructorPc.held])
  | deleteTxQueue hpc =>
      have hempty := htx (by rw [hpc]; trivial)
      exact hbooks.stay (freed_droppedTx _) rfl
        (by simp [Teardown.held, Tasks.held, hpc, hempty, DestructorPc.held])
  | done hpc => exact hbooks.stay rfl rfl rfl

theorem TornDown.drained_destructor {events : List Event} (hs : TornDown rx ms h s)
    (hm : s.Moves events s') :
    (s'.pc.CmdDrained → s'.tasks.cmdQueue.items = []) ∧
      (s'.pc.TxDrained → s'.tasks.txQueue.items = []) := by
  obtain ⟨-, -, hcmd, htx⟩ := hs
  cases hm with
  | deleteRx hpc | deleteProcess hpc | deleteTx hpc | drainCmd b q hpc hq
  | drainCmdFree b hpc => exact ⟨fun h => h.elim, fun h => h.elim⟩
  | drainedCmd hpc hq => exact ⟨fun _ => hq, fun h => h.elim⟩
  | drainTx t q hpc hq | drainTxFree t hpc =>
      exact ⟨fun _ => hcmd (by rw [hpc]; trivial), fun h => h.elim⟩
  | drainedTx hpc hq => exact ⟨fun _ => hcmd (by rw [hpc]; trivial), fun _ => hq⟩
  | deleteCmdQueue hpc => exact ⟨fun _ => rfl, fun _ => htx (by rw [hpc]; trivial)⟩
  | deleteTxQueue hpc => exact ⟨fun _ => hcmd (by rw [hpc]; trivial), fun _ => rfl⟩
  | done hpc => exact ⟨hcmd, htx⟩

theorem TornDown.ran_destructor {events : List Event} (hs : TornDown rx ms h s)
    (hm : s.Moves events s') (hrunning : s'.pc.Running) :
    (s'.tasks, h ++ events) =
      Transition.run Tasks.step (Tasks.start cmdSize txSize rx) ms := by
  cases hm with
  | deleteRx hpc | deleteProcess hpc =>
      rw [List.append_nil]
      exact hs.ran (by rw [hpc]; trivial)
  | done hpc =>
      rw [hpc] at hrunning
      exact hrunning.elim
  | _ => exact hrunning.elim

theorem TornDown.step (hs : TornDown rx ms h s) (m : TeardownMove R) :
    TornDown rx (ms ++ s.taken m) (h ++ (s.step m).2) (s.step m).1 := by
  cases m with
  | task m =>
      by_cases halive : s.pc.alive m.owner
      · have hrunning := DestructorPc.running_of_alive halive
        have hstep : s.step (.task m) =
            ({ s with tasks := (s.tasks.step m).1 }, (s.tasks.step m).2) := if_pos halive
        have htaken : s.taken (.task m) = [m] := if_pos halive
        rw [hstep, htaken]
        refine tornDown_of_run hrunning ?_
        rw [Transition.run_concat, ← hs.ran hrunning]
      · have hstep : s.step (.task m) = (s, []) := if_neg halive
        have htaken : s.taken (.task m) = [] := if_neg halive
        rwa [hstep, htaken, List.append_nil, List.append_nil]
  | destructor =>
      have hm := destructorMove_moves s
      have hdrained := hs.drained_destructor hm
      rw [Teardown.taken, List.append_nil]
      exact ⟨hs.ran_destructor hm, hs.books_destructor hm, hdrained.1, hdrained.2⟩

theorem tornDown_run (rx : R.State) (ms : List (TeardownMove R)) :
    let s := Transition.run Teardown.step (Teardown.start cmdSize txSize rx) ms
    TornDown rx (taken (Teardown.start cmdSize txSize rx) ms) s.2 s.1 := by
  induction ms using List.reverseRecOn with
  | nil => exact tornDown_of_run trivial rfl
  | append_singleton ms m ih =>
      rw [Transition.run_concat, taken, Transition.collect_concat]
      exact ih.step m

/-! ### The destructor ends -/

/-- The moves the destructor has still to make; a queue may fill as long as a task is
left. -/
def Teardown.work (s : Teardown R cmdSize txSize) : ℕ :=
  match s.pc with
  | .deleteRx => 2 * cmdSize + 2 * txSize + 7
  | .deleteProcess => 2 * cmdSize + 2 * txSize + 6
  | .deleteTx => 2 * cmdSize + 2 * txSize + 5
  | .drainCmd => 2 * s.tasks.cmdQueue.items.length + 2 * txSize + 4
  | .drainCmdFree _ => 2 * s.tasks.cmdQueue.items.length + 2 * txSize + 5
  | .drainTx => 2 * s.tasks.txQueue.items.length + 3
  | .drainTxFree _ => 2 * s.tasks.txQueue.items.length + 4
  | .deleteCmdQueue => 2
  | .deleteTxQueue => 1
  | .done => 0

theorem Teardown.Moves.work {events : List Event} (hm : s.Moves events s') :
    s'.work < s.work ∨ s'.work = s.work ∧ s.work = 0 := by
  have hcmd := s.tasks.cmdQueue.length_le
  have htx := s.tasks.txQueue.length_le
  cases hm with
  | done hpc => exact Or.inr ⟨rfl, by rw [Teardown.work, hpc]⟩
  | drainCmd b q hpc hq | drainTx b q hpc hq =>
      simp only [Teardown.work, hpc, hq, List.length_cons]
      omega
  | deleteRx hpc | deleteProcess hpc | deleteTx hpc | drainedCmd hpc hq
  | drainCmdFree b hpc | drainedTx hpc hq | drainTxFree b hpc | deleteCmdQueue hpc
  | deleteTxQueue hpc =>
      simp only [Teardown.work, hpc]
      omega

def TeardownMove.destructor? : TeardownMove R → Option Unit
  | .task _ => none
  | .destructor => some ()

theorem total_work_teardown (s : Teardown R cmdSize txSize) :
    Transition.total (fun _ : Unit => Teardown.work) s = s.work :=
  Fintype.sum_unique _

/-- A deleted task does not move, and before the work left depends on the destructor
alone. -/
theorem Teardown.work_task (s : Teardown R cmdSize txSize) (m : Move R) :
    (s.step (.task m)).1.work = s.work := by
  rw [step]
  split
  · rename_i halive
    have hrunning := DestructorPc.running_of_alive halive
    cases hpc : s.pc with
    | deleteRx | deleteProcess | deleteTx => simp [work, hpc]
    | _ =>
        rw [hpc] at hrunning
        exact hrunning.elim
  · rfl

theorem workedOff_destructor :
    Transition.WorkedOff (@Teardown.step R cmdSize txSize) (fun _ _ => True)
      TeardownMove.destructor? (fun _ : Unit => Teardown.work) where
  lowers_or_keeps s m _ := by
    rw [total_work_teardown, total_work_teardown]
    cases m with
    | task m => exact Or.inr fun _ => s.work_task m
    | destructor => exact (destructorMove_moves s).work.imp_right fun h _ => h.1
  lowers s m k _ hmover hwork := by
    rw [total_work_teardown, total_work_teardown]
    cases m with
    | task m => cases hmover
    | destructor => exact (destructorMove_moves s).work.resolve_right fun h => hwork.ne' h.2

theorem Teardown.done_of_work {s : Teardown R cmdSize txSize} (h : s.work = 0) :
    s.pc = .done := by
  cases hpc : s.pc with
  | done => rfl
  | _ => simp [work, hpc] at h

/-- Wherever the tasks are when the destructor is called, and however those not yet
deleted go on, the destructor ends. Then each buffer ever allocated was in the hands of a
task when that was deleted, which is true of four buffers at most, was forgotten by a
`resetState`, or was deleted once, and only one of these. -/
theorem destructor_accounted (rx : R.State) (rounds : List (List (TeardownMove R)))
    (hrounds : ∀ round ∈ rounds, .destructor ∈ round)
    (hlen : 2 * cmdSize + 2 * txSize + 7 ≤ rounds.length) :
    let start : Teardown R cmdSize txSize := Teardown.start cmdSize txSize rx
    let s := Transition.run Teardown.step start rounds.flatten
    s.1.pc = .done ∧
      (s.1.tasks.hands ++ ((leaks start.tasks (taken start rounds.flatten)).flatten ++
        s.2.filterMap Event.freed?)).Perm (List.range s.1.tasks.allocated) ∧
      s.1.tasks.hands.length ≤ 4 := by
  intro start s
  have hdone : s.1.pc = .done := by
    have hexhaust := workedOff_destructor.exhaust
      (Transition.stepsMeet_of_forall (fun _ _ _ => trivial) start)
      (fun round hround _ => ⟨.destructor, hrounds round hround, rfl⟩)
      ((total_work_teardown start).le.trans hlen)
    rw [total_work_teardown] at hexhaust
    exact Teardown.done_of_work hexhaust
  have htorn : TornDown rx (taken start rounds.flatten) s.2 s.1 := tornDown_run rx rounds.flatten
  have hcmd := htorn.cmd (by rw [hdone]; trivial)
  have htx := htorn.tx (by rw [hdone]; trivial)
  have hheld : s.1.held = s.1.tasks.hands := by
    simp [Teardown.held, Tasks.held, Tasks.hands, hcmd, htx, hdone, DestructorPc.held]
  have hbooks := htorn.books
  rw [Ownership.Books, List.filterMap_append, freed_freed, hheld] at hbooks
  exact ⟨hdone, hbooks, s.1.tasks.length_hands_le⟩

/-- `_processTask` holds a packet and its copy when the snooper is destroyed. -/
theorem destructor_accounted_requestiPodName :
    let ms : List (Move (rxTask {})) :=
      readBytes {} requestiPodName.frame ++ [.rx, .process, .process]
    let rounds := (ms.map .task ++ [.destructor]) ::
      List.replicate 14 [.destructor, .task .process]
    let start := Teardown.start 2 2 (rxTaskStart {})
    let s := Transition.run Teardown.step start rounds.flatten
    s.1.pc = .done ∧
      (s.1.tasks.hands ++ ((leaks start.tasks (taken start rounds.flatten)).flatten ++
        s.2.filterMap Event.freed?)).Perm (List.range s.1.tasks.allocated) ∧
      s.1.tasks.hands.length ≤ 4 := by
  intro ms rounds
  refine destructor_accounted (rxTaskStart {}) rounds ?_ (by decide)
  intro round hround
  rcases List.mem_cons.1 hround with rfl | hround
  · simp
  · rw [List.eq_of_mem_replicate hround]
    simp

/-- If `_processTask` goes on while `_rxTask` is deleted, it still queues the copy, which
the destructor finds; the packet itself is lost. -/
example :
    let ms : List (Move (rxTask {})) :=
      readBytes {} requestiPodName.frame ++ [.rx, .process, .process]
    let s := Transition.run Teardown.step (Teardown.start 2 2 (rxTaskStart {}))
      (ms.map .task ++ [.destructor, .task .process] ++ List.replicate 14 .destructor)
    s.1.tasks.hands = [0] ∧ s.2.filterMap Event.freed? = [1] := by
  decide +kernel

end Snooper

end IpodEsp32
