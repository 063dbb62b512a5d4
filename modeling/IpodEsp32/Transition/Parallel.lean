import IpodEsp32.Transition.Run
import Mathlib.Logic.Function.Basic

/-!
# Systems side by side

Systems of one kind run side by side, each input and output with the name of the system
it belongs to. What concerns one of them in an interleaving is its own run on its own
inputs (`run_interleave`).
-/

namespace Transition

variable {κ σ ι ω : Type*} [DecidableEq κ] (step : σ → ι → σ × List ω)

/-- One of the systems takes a step. -/
def interleave (c : κ → σ) (m : κ × ι) : (κ → σ) × List (κ × ω) :=
  (Function.update c m.1 (step (c m.1) m.2).1, (step (c m.1) m.2).2.map fun e => (m.1, e))

def part {α : Type*} (k : κ) (xs : List (κ × α)) : List α :=
  xs.filterMap fun x => if x.1 = k then some x.2 else none

theorem part_append {α : Type*} (k : κ) (xs ys : List (κ × α)) :
    part k (xs ++ ys) = part k xs ++ part k ys :=
  List.filterMap_append

theorem part_map_self {α : Type*} (k : κ) (xs : List α) :
    part k (xs.map fun x => (k, x)) = xs := by
  simp [part, List.filterMap_map]

theorem part_map_of_ne {α : Type*} {k l : κ} (h : l ≠ k) (xs : List α) :
    part k (xs.map fun x => (l, x)) = [] := by
  simp [part, List.filterMap_map, h]

variable {step}

/-- Side by side with others, a system runs as it does alone. -/
theorem run_interleave (c : κ → σ) (ms : List (κ × ι)) (k : κ) :
    ((run (interleave step) c ms).1 k, part k (run (interleave step) c ms).2) =
      run step (c k) (part k ms) := by
  induction ms using List.reverseRecOn with
  | nil => rfl
  | append_singleton ms m ih =>
      obtain ⟨l, i⟩ := m
      rw [run_concat, part_append, part_append]
      by_cases hl : l = k
      · subst hl
        have hone : part l [(l, i)] = [i] := part_map_self l [i]
        rw [hone, run_concat, ← ih]
        simp only [interleave, Function.update_self, part_map_self]
      · have hnone : part k [(l, i)] = [] := part_map_of_ne hl [i]
        rw [hnone, List.append_nil, ← ih]
        simp only [interleave, Function.update_of_ne (Ne.symm hl), part_map_of_ne hl,
          List.append_nil]

end Transition
