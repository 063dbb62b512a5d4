import IpodEsp32.Transition.Run
import Mathlib.Algebra.Order.BigOperators.Group.Finset

/-!
# Work that is worked off

The parties of a system each have some work left, counted in ℕ. `WorkedOff` says that a
step lowers the total or leaves to every party what it had, and that a party with work
left lowers the total whenever it moves. In a round every party moves at least once, in
any order, so as many rounds as there is work leave none (`WorkedOff.exhaust`).
-/

namespace Transition

variable {σ ι ω κ : Type*} [Fintype κ]

def total (work : κ → σ → ℕ) (s : σ) : ℕ := ∑ k, work k s

/-- The steps that meet `G` work off what there is to do. `mover` tells which party an
input is a move of, if of any. -/
structure WorkedOff (step : σ → ι → σ × List ω) (G : σ → ι → Prop) (mover : ι → Option κ)
    (work : κ → σ → ℕ) : Prop where
  lowers_or_keeps : ∀ s i, G s i →
    total work (step s i).1 < total work s ∨ ∀ k, work k (step s i).1 = work k s
  lowers : ∀ s i k, G s i → mover i = some k → 0 < work k s →
    total work (step s i).1 < total work s

/-- Every party moves in the round. -/
def FullRound (mover : ι → Option κ) (round : List ι) : Prop :=
  ∀ k, ∃ i ∈ round, mover i = some k

variable {step : σ → ι → σ × List ω} {G : σ → ι → Prop} {mover : ι → Option κ}
  {work : κ → σ → ℕ}

theorem exists_work_pos {s : σ} (h : 0 < total work s) : ∃ k, 0 < work k s := by
  obtain ⟨k, -, hk⟩ := Finset.exists_ne_zero_of_sum_ne_zero h.ne'
  exact ⟨k, Nat.pos_of_ne_zero hk⟩

theorem WorkedOff.step_le (hw : WorkedOff step G mover work) {s : σ} {i : ι} (hi : G s i) :
    total work (step s i).1 ≤ total work s := by
  rcases hw.lowers_or_keeps s i hi with hlt | hkeep
  · exact hlt.le
  · exact (Finset.sum_congr rfl fun k _ => hkeep k).le

theorem WorkedOff.run_le (hw : WorkedOff step G mover work) {s : σ} {is : List ι}
    (hmeet : StepsMeet step G s is) : total work (run step s is).1 ≤ total work s := by
  induction is generalizing s with
  | nil => exact le_rfl
  | cons i is ih =>
      rw [stepsMeet_cons] at hmeet
      exact (ih hmeet.2).trans (hw.step_le hmeet.1)

theorem WorkedOff.run_lt (hw : WorkedOff step G mover work) {s : σ} {is : List ι} {k : κ}
    (hmeet : StepsMeet step G s is) (hmoves : ∃ i ∈ is, mover i = some k)
    (hk : 0 < work k s) : total work (run step s is).1 < total work s := by
  induction is generalizing s with
  | nil =>
      obtain ⟨i, hi, -⟩ := hmoves
      cases hi
  | cons i is ih =>
      rw [stepsMeet_cons] at hmeet
      rcases hw.lowers_or_keeps s i hmeet.1 with hlt | hkeep
      · exact (hw.run_le hmeet.2).trans_lt hlt
      -- a step that keeps the work of every party is not one of this party
      have hlater : ∃ j ∈ is, mover j = some k := by
        obtain ⟨j, hj, hmover⟩ := hmoves
        rcases List.mem_cons.1 hj with rfl | hj
        · have hlt := hw.lowers s j k hmeet.1 hmover hk
          exact absurd (Finset.sum_congr rfl fun k _ => hkeep k) hlt.ne
        · exact ⟨j, hj, hmover⟩
      exact (ih hmeet.2 hlater (by rwa [hkeep])).trans_le (hw.step_le hmeet.1)

/-- As many full rounds as there is work leave none. -/
theorem WorkedOff.exhaust (hw : WorkedOff step G mover work) {s : σ}
    {rounds : List (List ι)} (hmeet : StepsMeet step G s rounds.flatten)
    (hrounds : ∀ round ∈ rounds, FullRound mover round)
    (hlen : total work s ≤ rounds.length) :
    total work (run step s rounds.flatten).1 = 0 := by
  induction rounds generalizing s with
  | nil => exact Nat.le_zero.1 hlen
  | cons round rounds ih =>
      rw [List.flatten_cons, stepsMeet_append] at hmeet
      rw [List.flatten_cons, run_append]
      refine ih hmeet.2 (fun r hr => hrounds r (List.mem_cons_of_mem round hr)) ?_
      rw [List.length_cons] at hlen
      rcases Nat.eq_zero_or_pos (total work s) with hzero | hpos
      · have hle := hw.run_le hmeet.1
        omega
      · obtain ⟨k, hk⟩ := exists_work_pos hpos
        have hlt := hw.run_lt hmeet.1 (hrounds round List.mem_cons_self k) hk
        omega

/-- If as long as there is work some step that meets `G` lowers it, a run of such steps
leaves none. -/
theorem exists_run_of_progress
    (hprogress : ∀ s, 0 < total work s → ∃ i, G s i ∧ total work (step s i).1 < total work s)
    (s : σ) : ∃ is, StepsMeet step G s is ∧ total work (run step s is).1 = 0 := by
  induction hn : total work s using Nat.strong_induction_on generalizing s with
  | _ n ih =>
      rcases Nat.eq_zero_or_pos n with hzero | hpos
      · exact ⟨[], stepsMeet_nil G s, hn.trans hzero⟩
      · obtain ⟨i, hi, hlt⟩ := hprogress s (hn ▸ hpos)
        obtain ⟨is, his, hdone⟩ := ih _ (hn ▸ hlt) _ rfl
        exact ⟨i :: is, stepsMeet_cons.2 ⟨hi, his⟩, hdone⟩

theorem work_eq_zero {s : σ} (h : total work s = 0) (k : κ) : work k s = 0 :=
  Finset.sum_eq_zero_iff.1 h k (Finset.mem_univ k)

end Transition
