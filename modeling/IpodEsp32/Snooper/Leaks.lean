import IpodEsp32.Snooper.Buffers
import Mathlib.Algebra.Order.BigOperators.Group.List

/-!
# What `resetState` leaks

The books of the payload buffers are exact in every interleaving once the buffers that
`xQueueReset` forgets in `_txQueue` are counted (`buffers_accounted`). There are few of
them: `_cmdQueue` stays empty from the time it is drained until the end of `resetState`,
so `_processTask` has at most one packet to forward after `_txQueue` was found empty, and
each `resetState` leaks at most one buffer. The heap in use is bounded by the sizes of
the queues and the number of resets (`leaks_bounded`).
-/

namespace IpodEsp32

namespace Snooper

variable {R : Receiver} {cmdSize txSize : ℕ}

/-- For each completed `resetState`, the buffers forgotten in `_txQueue`. -/
def resetLeaks (s : Tasks R cmdSize txSize) (m : Move R) : List (List ℕ) :=
  match m, s.rxPc with
  | .rx, .resetTx => [s.txQueue.items.map Buffer.id]
  | _, _ => []

theorem resetLeaks_resetTx {s : Tasks R cmdSize txSize} (h : s.rxPc = .resetTx) :
    resetLeaks s .rx = [s.txQueue.items.map Buffer.id] := by
  simp [resetLeaks, h]

theorem flatten_resetLeaks {s : Tasks R cmdSize txSize} {m : Move R}
    (h : TxResetEmpty s m) : (resetLeaks s m).flatten = [] := by
  unfold resetLeaks
  split
  · rename_i hpc
    simp [h rfl hpc]
  · rfl

/-! ### The books -/

/-- Each buffer ever allocated is in one place, was deleted once, or was leaked once. -/
def Accounted (leaks : List (List ℕ)) (h : List Event) (s : Tasks R cmdSize txSize) :
    Prop :=
  Ownership.Exact s.held (leaks.flatten ++ h.filterMap Event.freed?) s.allocated

section

variable {leaks : List (List ℕ)} {h : List Event} {s : Tasks R cmdSize txSize}

theorem freed_freed (ids : List ℕ) : (ids.map Event.freed).filterMap Event.freed? = ids := by
  rw [List.filterMap_map]
  exact List.filterMap_some

theorem accounted_iff_owned :
    Accounted leaks h s ↔ Owned (leaks.flatten.map Event.freed ++ h) s := by
  rw [Owned, Ownership.Books, List.filterMap_append, freed_freed]
  rfl

theorem Accounted.step (hs : Accounted leaks h s)
    (hdrained : s.rxPc.CmdDrained → s.cmdQueue.items = []) (m : Move R) :
    Accounted (leaks ++ resetLeaks s m) (h ++ (s.step m).2) (s.step m).1 := by
  by_cases hreset : TxResetEmpty s m
  · have howned := (Ledgered.mk (accounted_iff_owned.1 hs) hdrained).owned_move
      (s.step_moves m) hreset
    rw [Accounted, List.flatten_append, flatten_resetLeaks hreset, List.append_nil]
    rw [List.append_assoc] at howned
    exact accounted_iff_owned.2 howned
  · obtain ⟨rfl, hpc⟩ : m = .rx ∧ s.rxPc = .resetTx := by
      by_contra hnot
      exact hreset fun hm hpc => absurd ⟨hm, hpc⟩ hnot
    have hstep : s.step .rx = ({ s with txQueue := .empty, rxPc := .reading },
        s.txQueue.items.map .droppedTx) := by
      simp [Tasks.step, rxMove, hpc]
    have hheld : s.held = s.txPc.held ++ (s.txQueue.items.map Buffer.id ++
        (s.processPc.held ++ s.cmdQueue.items.map Buffer.id)) := by
      simp [Tasks.held, hpc, RxPc.held]
    have hheld' : (({ s with txQueue := .empty, rxPc := .reading } :
        Tasks R cmdSize txSize)).held =
        s.txPc.held ++ (s.processPc.held ++ s.cmdQueue.items.map Buffer.id) := by
      simp [Tasks.held, RxPc.held]
    rw [Accounted, hheld] at hs
    have hrelease := hs.release
    rw [hstep, Accounted, hheld', resetLeaks_resetTx hpc, List.flatten_append,
      List.flatten_singleton, List.filterMap_append, freed_droppedTx, List.append_nil]
    refine (List.Perm.append_left _ ?_).trans hrelease
    rw [← List.append_assoc]
    exact List.perm_append_comm.append_right _

end

/-! ### At most one buffer for each reset -/

/-- `_rxTask` is in `resetState`, and has found `_txQueue` empty. -/
def RxPc.TxDrained : RxPc → Prop
  | .resetCmd | .resetTx => True
  | _ => False

/-- From the time it is drained until the end of `resetState`, `_cmdQueue` is empty, and
once `_txQueue` was found empty at most one more record gets there. -/
structure Tasks.Settling (s : Tasks R cmdSize txSize) : Prop where
  cmd : s.rxPc.CmdDrained ∨ s.rxPc = .resetTx → s.cmdQueue.items = []
  tx : s.rxPc.TxDrained → s.txQueue.items.length + s.processPc.records.length ≤ 1

theorem RxPc.TxDrained.cmd {pc : RxPc} (h : pc.TxDrained) :
    pc.CmdDrained ∨ pc = .resetTx := by
  cases pc with
  | resetCmd => exact Or.inl trivial
  | resetTx => exact Or.inr rfl
  | _ => cases h

theorem Tasks.settling_of_not {s : Tasks R cmdSize txSize}
    (h : ¬ (s.rxPc.CmdDrained ∨ s.rxPc = .resetTx)) : s.Settling where
  cmd h' := absurd h' h
  tx h' := absurd h'.cmd h

theorem Tasks.settling_start (rx : R.State) :
    (Tasks.start cmdSize txSize rx : Tasks R cmdSize txSize).Settling :=
  settling_of_not (by simp [start, RxPc.CmdDrained])

theorem ProcessPc.length_records_le (pc : ProcessPc) : pc.records.length ≤ 1 := by
  cases pc with
  | processing b => exact Option.length_toList_le
  | receiving | queueing | dropping | freeing => simp [records]

theorem Tasks.Settling.move {s s' : Tasks R cmdSize txSize} {m : Move R}
    {events : List Event} (hs : s.Settling) (hm : s.Moves m events s') : s'.Settling := by
  have hcmd := hs.cmd
  have htx := hs.tx
  cases hm with
  | stay m => exact hs
  | read i hpc => exact ⟨hcmd, htx⟩
  | accept i p hpc | reset i hpc | send b q hpc hq | sendFailed b hpc hfull
  | dropCmd b hpc | drainCmd b q hpc hq | drainCmdFree b hpc | resetTx hpc =>
      exact Tasks.settling_of_not (by simp [RxPc.CmdDrained])
  | drainedCmd hpc hq => exact ⟨fun _ => hq, fun h => by cases h⟩
  | drainTx t q hpc hq | drainTxFree t hpc =>
      exact ⟨fun _ => hcmd (Or.inl (by rw [hpc]; trivial)), fun h => by cases h⟩
  | drainedTx hpc hq =>
      refine ⟨fun _ => hcmd (Or.inl (by rw [hpc]; trivial)), fun _ => ?_⟩
      have hone := s.processPc.length_records_le
      rw [hq]
      simpa using hone
  | resetCmd hpc => exact ⟨fun _ => rfl, fun _ => htx (by rw [hpc]; trivial)⟩
  | receive b q hpc hq =>
      -- there is nothing to receive while `_cmdQueue` is drained
      refine Tasks.settling_of_not fun h => ?_
      rw [hcmd h] at hq
      cases hq
  | forward b bytes hpc hf =>
      refine ⟨hcmd, fun h => ?_⟩
      have hone := htx h
      simpa [hpc, ProcessPc.records, cmdRecord, hf] using hone
  | pass b hpc hf =>
      refine ⟨hcmd, fun h => ?_⟩
      have hone := htx h
      simpa [hpc, ProcessPc.records, cmdRecord, hf] using hone
  | queue b t q hpc hq =>
      refine ⟨hcmd, fun h => ?_⟩
      have hone := htx h
      simpa [hpc, hq, ProcessPc.records] using hone
  | queueFailed b t hpc hfull =>
      refine ⟨hcmd, fun h => ?_⟩
      have hone := htx h
      exact (Nat.le_add_right _ _).trans hone
  | dropTx b t hpc | freeCmd b hpc =>
      refine ⟨hcmd, fun h => ?_⟩
      have hone := htx h
      simpa [hpc, ProcessPc.records] using hone
  | take milliVolts t q hpc hq =>
      refine ⟨hcmd, fun h => ?_⟩
      have hone := htx h
      rw [hq, List.length_cons] at hone
      exact (Nat.add_le_add_right (Nat.le_succ _) _).trans hone
  | look | miss | print | write | println | freeTx => exact ⟨hcmd, htx⟩

/-! ### Runs -/

/-- For each `resetState` completed in a run, the buffers it forgets. -/
def leaks (s : Tasks R cmdSize txSize) (ms : List (Move R)) : List (List ℕ) :=
  Transition.collect Tasks.step resetLeaks s ms

theorem leaks_concat (s : Tasks R cmdSize txSize) (ms : List (Move R)) (m : Move R) :
    leaks s (ms ++ [m]) = leaks s ms ++ resetLeaks (Transition.run Tasks.step s ms).1 m :=
  Transition.collect_concat resetLeaks s ms m

theorem settling_run (rx : R.State) (ms : List (Move R)) :
    (Transition.run Tasks.step (Tasks.start cmdSize txSize rx) ms).1.Settling :=
  Transition.invariant (I := fun _ s => Tasks.Settling s) (Tasks.settling_start rx)
    (fun _ s m hs => hs.move (s.step_moves m)) ms

theorem accounted_run (rx : R.State) (ms : List (Move R)) :
    let s := Transition.run Tasks.step (Tasks.start cmdSize txSize rx) ms
    Accounted (leaks (Tasks.start cmdSize txSize rx) ms) s.2 s.1 := by
  induction ms using List.reverseRecOn with
  | nil => exact Ownership.exact_start
  | append_singleton ms m ih =>
      have hsettling := @settling_run R cmdSize txSize rx ms
      have hstep := ih.step (fun h => hsettling.cmd (Or.inl h)) m
      rw [Transition.run_concat, leaks_concat]
      exact hstep

/-- In every interleaving each buffer ever allocated is in the hands of one task or in
one queue, was forgotten by one `resetState`, or was deleted once, and only one of
these. -/
theorem buffers_accounted (rx : R.State) (ms : List (Move R)) :
    let s := Transition.run Tasks.step (Tasks.start cmdSize txSize rx) ms
    (s.1.held ++ ((leaks (Tasks.start cmdSize txSize rx) ms).flatten ++
      s.2.filterMap Event.freed?)).Perm (List.range s.1.allocated) :=
  accounted_run rx ms

theorem length_resetLeaks_le {s : Tasks R cmdSize txSize} (hs : s.Settling) (m : Move R) :
    ∀ ids ∈ resetLeaks s m, ids.length ≤ 1 := by
  unfold resetLeaks
  split
  · rename_i hpc
    have hone := hs.tx (by rw [hpc]; trivial)
    simp only [List.forall_mem_singleton, List.length_map]
    omega
  · simp

theorem leaks_le_one (rx : R.State) (ms : List (Move R)) :
    ∀ ids ∈ leaks (Tasks.start cmdSize txSize rx : Tasks R cmdSize txSize) ms,
      ids.length ≤ 1 := by
  induction ms using List.reverseRecOn with
  | nil => exact fun ids hids => by cases hids
  | append_singleton ms m ih =>
      rw [leaks_concat, List.forall_mem_append]
      exact ⟨ih, length_resetLeaks_le (settling_run rx ms) m⟩

def Tasks.hands (s : Tasks R cmdSize txSize) : List ℕ :=
  s.txPc.held ++ s.processPc.held ++ s.rxPc.held

theorem Tasks.length_hands_le (s : Tasks R cmdSize txSize) : s.hands.length ≤ 4 := by
  have hrxPc : s.rxPc.held.length ≤ 1 := by cases s.rxPc <;> simp [RxPc.held]
  have hprocessPc : s.processPc.held.length ≤ 2 := by
    cases s.processPc <;> simp [ProcessPc.held]
  have htxPc : s.txPc.held.length ≤ 1 := by cases s.txPc <;> simp [TxPc.held]
  simp only [hands, List.length_append]
  omega

theorem Tasks.length_held_le (s : Tasks R cmdSize txSize) :
    s.held.length ≤ cmdSize + txSize + 4 := by
  have hcmd := s.cmdQueue.length_le
  have htx := s.txQueue.length_le
  have hhands := s.length_hands_le
  simp only [hands, List.length_append] at hhands
  simp only [held, List.length_append, List.length_map]
  omega

/-- No `resetState` leaks more than one buffer, so that in every interleaving the buffers
not deleted are at most those that fit into the queues, four more in the hands of the
tasks, and one for each `resetState` completed. -/
theorem leaks_bounded (rx : R.State) (ms : List (Move R)) :
    let s := Transition.run Tasks.step (Tasks.start cmdSize txSize rx) ms
    (∀ ids ∈ leaks (Tasks.start cmdSize txSize rx) ms, ids.length ≤ 1) ∧
      s.1.allocated ≤ (s.2.filterMap Event.freed?).length +
        (cmdSize + txSize + 4 + (leaks (Tasks.start cmdSize txSize rx) ms).length) := by
  intro s
  have hone := @leaks_le_one R cmdSize txSize rx ms
  have hheld := s.1.length_held_le
  have hbooks : s.1.held.length + ((leaks (Tasks.start cmdSize txSize rx) ms).flatten ++
      s.2.filterMap Event.freed?).length = s.1.allocated := (accounted_run rx ms).length
  have hflat : (leaks (Tasks.start cmdSize txSize rx) ms).flatten.length ≤
      (leaks (Tasks.start cmdSize txSize rx) ms).length := by
    have hsum := List.sum_le_card_nsmul
      ((leaks (Tasks.start cmdSize txSize rx) ms).map List.length) 1
        (by simpa using hone)
    rwa [List.length_map, smul_eq_mul, Nat.mul_one, ← List.length_flatten] at hsum
  rw [List.length_append] at hbooks
  exact ⟨hone, by omega⟩

end Snooper

end IpodEsp32
