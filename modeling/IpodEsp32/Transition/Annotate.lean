import IpodEsp32.Transition.Run

/-!
# Runs with more to be seen

Some of what a step does leaves no trace in its outputs. `annotate` adds what a function
reads off the state and the input, without a change to the run itself, so that the rules
about outputs apply to it.
-/

namespace Transition

variable {σ ι ω α : Type*} (step : σ → ι → σ × List ω) (f : σ → ι → List α)

/-- The step, with what `f` reads off it in front of its outputs. -/
def annotate (s : σ) (i : ι) : σ × List (α ⊕ ω) :=
  ((step s i).1, (f s i).map Sum.inl ++ (step s i).2.map Sum.inr)

def notes (es : List (α ⊕ ω)) : List α := es.filterMap Sum.getLeft?

def outputs (es : List (α ⊕ ω)) : List ω := es.filterMap Sum.getRight?

theorem notes_map (as : List α) (os : List ω) :
    notes (as.map Sum.inl ++ os.map Sum.inr) = as ∧
      outputs (as.map Sum.inl ++ os.map Sum.inr) = os := by
  constructor
  · simp [notes, List.filterMap_append, List.filterMap_map, Function.comp_def]
  · simp [outputs, List.filterMap_append, List.filterMap_map, Function.comp_def]

variable {step f}

/-- Annotating changes neither the states nor the outputs of a run. -/
theorem run_annotate (s : σ) (is : List ι) :
    (run (annotate step f) s is).1 = (run step s is).1 ∧
      notes (run (annotate step f) s is).2 = collect step f s is ∧
      outputs (run (annotate step f) s is).2 = (run step s is).2 := by
  induction is generalizing s with
  | nil => exact ⟨rfl, rfl, rfl⟩
  | cons i is ih =>
      obtain ⟨hstate, hnotes, houtputs⟩ := ih (step s i).1
      obtain ⟨hnote, houtput⟩ := notes_map (f s i) (step s i).2
      rw [run_cons, run_cons]
      refine ⟨hstate, ?_, ?_⟩
      · rw [notes, List.filterMap_append]
        exact congrArg₂ (· ++ ·) hnote hnotes
      · rw [outputs, List.filterMap_append]
        exact congrArg₂ (· ++ ·) houtput houtputs

end Transition
