import IpodEsp32.Flow.Carried
import IpodEsp32.Snooper.Leaks

/-!
# What survives `resetState`

When `resetState` returns, both queues are empty, but the other two tasks may still hold
a packet each. These two, and nothing else of what was accepted before, can be printed
afterwards (`printed_after_reset`).
-/

namespace IpodEsp32

namespace Snooper

variable {R : Receiver} {cmdSize txSize : ℕ}

theorem TxPc.length_records_le (pc : TxPc) : pc.records.length ≤ 1 := by
  cases pc <;> simp [records]

theorem lingo0x00Records_of_run (rx : R.State) (ms : List (Move R)) :
    let s := Transition.run Tasks.step (Tasks.start cmdSize txSize rx) ms
    (printedRecords s.2 ++ s.1.flight ++ droppedRecords s.2).Perm
      (lingo0x00Records (acceptedPackets s.2)) := by
  intro s
  have hcomplete := (@flowing_run R cmdSize txSize rx ms).conserved.complete
  rw [recordFlow_source] at hcomplete
  exact hcomplete

theorem step_resetTx {s : Tasks R cmdSize txSize} (hs : s.Settling)
    (hreset : s.rxPc = .resetTx) :
    (s.step .rx).1.flight =
      (s.step .rx).1.txPc.records ++ (s.step .rx).1.processPc.records := by
  have hcmd := hs.cmd (Or.inr hreset)
  simp [Tasks.step, rxMove, hreset, Tasks.flight, hcmd, RxPc.records]

/-- When `resetState` returns, each record accepted so far has been printed or given up,
but for those in the hands of `_txTask` and of `_processTask`, one each; whatever the
tasks do afterwards, of all the records accepted before only these two are still printed,
in this order. -/
theorem printed_after_reset (rx : R.State) (ms later : List (Move R))
    (hreset : (Transition.run Tasks.step (Tasks.start cmdSize txSize rx) ms).1.rxPc =
      .resetTx) :
    let s := Transition.run Tasks.step (Tasks.start cmdSize txSize rx) (ms ++ [.rx])
    let held := s.1.txPc.records ++ s.1.processPc.records
    held.length ≤ 2 ∧
      (printedRecords s.2 ++ held ++ droppedRecords s.2).Perm
          (lingo0x00Records (acceptedPackets s.2)) ∧
        ((printedRecords (Transition.run Tasks.step s.1 later).2).filter
          fun r => decide (r.1 < s.1.accepted)).Sublist held := by
  intro s held
  have hflight : s.1.flight = held := by
    have hstep := step_resetTx (settling_run rx ms) hreset
    rwa [← congrArg Prod.fst (Transition.run_concat Tasks.step _ ms .rx)] at hstep
  have hbefore := @flowing_run R cmdSize txSize rx (ms ++ [.rx])
  have hafter := @flowing_run R cmdSize txSize rx (ms ++ [.rx] ++ later)
  rw [Transition.run_append] at hafter
  rw [Flowing, hflight] at hbefore
  refine ⟨?_, ?_, hbefore.delivered_later hafter⟩
  · have htx := s.1.txPc.length_records_le
    have hprocess := s.1.processPc.length_records_le
    rw [List.length_append]
    omega
  · rw [← hflight]
    exact lingo0x00Records_of_run rx (ms ++ [.rx])

/-- `_processTask` holds a packet while `_rxTask` resets, and prints it afterwards. -/
theorem printed_after_reset_requestiPodName :
    let ms := readBytes {} requestiPodName.frame ++ [.rx, .process] ++
      [.read (.pollEnd ⟨60001, 60001, 60001⟩), .rx, .rx, .rx]
    let later := List.replicate 3 .process ++ List.replicate 6 (.tx 3300)
    let s := Transition.run Tasks.step (Tasks.start 32 32 (rxTaskStart {})) (ms ++ [.rx])
    let held := s.1.txPc.records ++ s.1.processPc.records
    held.length ≤ 2 ∧
      (printedRecords s.2 ++ held ++ droppedRecords s.2).Perm
          (lingo0x00Records (acceptedPackets s.2)) ∧
        ((printedRecords (Transition.run Tasks.step s.1 later).2).filter
          fun r => decide (r.1 < s.1.accepted)).Sublist held :=
  printed_after_reset (rxTaskStart {}) _ _ (by decide +kernel)

end Snooper

end IpodEsp32
