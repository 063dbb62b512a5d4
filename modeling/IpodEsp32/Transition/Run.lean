import Mathlib.Data.List.Infix

/-!
# Runs of a step function

A step function takes a state and an input to the next state and a list of outputs.
`run` follows a list of inputs and collects the outputs, so an interleaving of
several activities is a list of inputs that say who moves. An invariant may speak of
the state and of the outputs so far.

Some invariants are kept only by steps that meet a condition on the state before
them. `StepsMeet` says that every step of a run does, `Throughout` that a property
holds all along a run, and `throughout_iff_stepsMeet` turns an invariant of the good
steps into the exact condition, when a bad step breaks the property at once.

Conditions on several steps of a run at a time are conditions on what is read off its
steps, which `collect` lists in order.
-/

namespace Transition

variable {σ ι ω : Type*} (step : σ → ι → σ × List ω)

/-- The state after a list of inputs, and the outputs on the way. -/
def run : σ → List ι → σ × List ω
  | s, [] => (s, [])
  | s, i :: is =>
      ((run (step s i).1 is).1, (step s i).2 ++ (run (step s i).1 is).2)

@[simp] theorem run_nil (s : σ) : run step s [] = (s, []) := rfl

theorem run_cons (s : σ) (i : ι) (is : List ι) :
    run step s (i :: is) =
      ((run step (step s i).1 is).1, (step s i).2 ++ (run step (step s i).1 is).2) := rfl

theorem run_append (s : σ) (is js : List ι) :
    run step s (is ++ js) =
      ((run step (run step s is).1 js).1,
        (run step s is).2 ++ (run step (run step s is).1 js).2) := by
  induction is generalizing s with
  | nil => rfl
  | cons i is ih => rw [List.cons_append, run_cons, ih, run_cons, List.append_assoc]

theorem run_concat (s : σ) (is : List ι) (i : ι) :
    run step s (is ++ [i]) =
      ((step (run step s is).1 i).1,
        (run step s is).2 ++ (step (run step s is).1 i).2) := by
  rw [run_append, run_cons, run_nil, List.append_nil]

/-! ### Conditions on the steps of a run -/

/-- Every step of the run is taken in a state that meets `G`. -/
def StepsMeet (G : σ → ι → Prop) (s : σ) (is : List ι) : Prop :=
  ∀ pre i, pre ++ [i] <+: is → G (run step s pre).1 i

/-- `P` holds in every state of the run, with the outputs so far. -/
def Throughout (P : List ω → σ → Prop) (s : σ) (is : List ι) : Prop :=
  ∀ pre, pre <+: is → P (run step s pre).2 (run step s pre).1

variable {step}

theorem stepsMeet_nil (G : σ → ι → Prop) (s : σ) : StepsMeet step G s [] := by
  intro pre i hi
  simp at hi

theorem stepsMeet_cons {G : σ → ι → Prop} {s : σ} {i : ι} {is : List ι} :
    StepsMeet step G s (i :: is) ↔ G s i ∧ StepsMeet step G (step s i).1 is := by
  constructor
  · intro h
    refine ⟨h [] i ((List.prefix_append [i] is)), fun pre j hj => ?_⟩
    exact h (i :: pre) j ((List.prefix_cons_inj i).2 hj)
  · rintro ⟨hi, his⟩ pre j hj
    cases pre with
    | nil =>
        rw [List.nil_append, List.cons_prefix_cons] at hj
        rwa [hj.1]
    | cons k pre =>
        rw [List.cons_append, List.cons_prefix_cons] at hj
        obtain ⟨rfl, hpre⟩ := hj
        exact his pre j hpre

/-- A run meets a decidable condition or it does not. -/
instance decidableStepsMeet {G : σ → ι → Prop} [∀ s i, Decidable (G s i)] :
    ∀ (s : σ) (is : List ι), Decidable (StepsMeet step G s is)
  | s, [] => isTrue (stepsMeet_nil G s)
  | s, i :: is =>
      have := decidableStepsMeet (G := G) (step s i).1 is
      decidable_of_iff _ stepsMeet_cons.symm

theorem stepsMeet_append {G : σ → ι → Prop} {s : σ} {is js : List ι} :
    StepsMeet step G s (is ++ js) ↔
      StepsMeet step G s is ∧ StepsMeet step G (run step s is).1 js := by
  induction is generalizing s with
  | nil => simp [stepsMeet_nil]
  | cons i is ih =>
      rw [List.cons_append, stepsMeet_cons, stepsMeet_cons, ih, run_cons, and_assoc]

theorem stepsMeet_of_forall {G : σ → ι → Prop} {is : List ι} (h : ∀ i ∈ is, ∀ s, G s i)
    (s : σ) : StepsMeet step G s is :=
  fun _ i hi => h i (hi.subset (List.mem_append_right _ (List.mem_singleton_self i))) _

theorem StepsMeet.imp {G G' : σ → ι → Prop} {s : σ} {is : List ι}
    (h : StepsMeet step G s is) (himp : ∀ s i, G s i → G' s i) : StepsMeet step G' s is :=
  fun pre i hi => himp _ i (h pre i hi)

theorem StepsMeet.and {G G' : σ → ι → Prop} {s : σ} {is : List ι}
    (h : StepsMeet step G s is) (h' : StepsMeet step G' s is) :
    StepsMeet step (fun s i => G s i ∧ G' s i) s is :=
  fun pre i hi => ⟨h pre i hi, h' pre i hi⟩

theorem forall_mem_run_iff {P : ω → Prop} {s : σ} {is : List ι} :
    (∀ e ∈ (run step s is).2, P e) ↔
      StepsMeet step (fun s i => ∀ e ∈ (step s i).2, P e) s is := by
  induction is generalizing s with
  | nil => exact iff_of_true (by simp) (stepsMeet_nil _ s)
  | cons i is ih => rw [run_cons, List.forall_mem_append, ih, stepsMeet_cons]

/-- An output of a run is one of a step, and what comes before and after it are the
outputs before and after in this step and in the others. -/
theorem exists_step_of_run {s : σ} {is : List ι} {pre post : List ω} {e : ω}
    (h : (run step s is).2 = pre ++ e :: post) :
    ∃ first i rest before after, is = first ++ i :: rest ∧
      (step (run step s first).1 i).2 = before ++ e :: after ∧
        pre = (run step s first).2 ++ before ∧
          post = after ++ (run step (step (run step s first).1 i).1 rest).2 := by
  induction is generalizing s pre with
  | nil => simp at h
  | cons i is ih =>
      have hlater : ∀ pre', (run step (step s i).1 is).2 = pre' ++ e :: post →
          pre = (step s i).2 ++ pre' → ∃ first j rest before after,
            i :: is = first ++ j :: rest ∧
              (step (run step s first).1 j).2 = before ++ e :: after ∧
                pre = (run step s first).2 ++ before ∧
                  post = after ++ (run step (step (run step s first).1 j).1 rest).2 := by
        rintro pre' hrun rfl
        obtain ⟨first, j, rest, before, after, rfl, hstep, rfl, hpost⟩ := ih hrun
        exact ⟨i :: first, j, rest, before, after, rfl, hstep,
          (List.append_assoc _ _ _).symm, hpost⟩
      rw [run_cons] at h
      rcases List.append_eq_append_iff.1 h with ⟨pre', hpre, hrun⟩ | ⟨mid, hstep, hmid⟩
      · exact hlater pre' hrun hpre
      · cases mid with
        | nil => exact hlater [] hmid.symm (by rw [hstep, List.append_nil, List.append_nil])
        | cons x after =>
            obtain ⟨rfl, rfl⟩ := List.cons.inj hmid
            exact ⟨[], i, is, pre, after, rfl, hstep, rfl, rfl⟩

theorem StepsMeet.of_prefix {G : σ → ι → Prop} {s : σ} {is js : List ι}
    (h : StepsMeet step G s js) (hpre : is <+: js) : StepsMeet step G s is :=
  fun pre i hi => h pre i (hi.trans hpre)

theorem Throughout.of_prefix {P : List ω → σ → Prop} {s : σ} {is js : List ι}
    (h : Throughout step P s js) (hpre : is <+: js) : Throughout step P s is :=
  fun pre hi => h pre (hi.trans hpre)

theorem Throughout.last {P : List ω → σ → Prop} {s : σ} {is : List ι}
    (h : Throughout step P s is) : P (run step s is).2 (run step s is).1 :=
  h is List.prefix_rfl

theorem invariant_of_stepsMeet {G : σ → ι → Prop} {I : List ω → σ → Prop} {s : σ}
    (hstart : I [] s)
    (hstep : ∀ h s i, I h s → G s i → I (h ++ (step s i).2) (step s i).1)
    {is : List ι} (hmeet : StepsMeet step G s is) :
    I (run step s is).2 (run step s is).1 := by
  induction is using List.reverseRecOn with
  | nil => exact hstart
  | append_singleton is i ih =>
      rw [run_concat]
      exact hstep _ _ i (ih (hmeet.of_prefix (List.prefix_append is [i])))
        (hmeet is i List.prefix_rfl)

theorem invariant {I : List ω → σ → Prop} {s : σ} (hstart : I [] s)
    (hstep : ∀ h s i, I h s → I (h ++ (step s i).2) (step s i).1) (is : List ι) :
    I (run step s is).2 (run step s is).1 :=
  invariant_of_stepsMeet (G := fun _ _ => True) hstart
    (fun h s i hI _ => hstep h s i hI) fun _ _ _ => trivial

/-- If the steps that meet `G` keep an invariant that gives `P`, and a step that does
not meet it makes `P` false, then `P` holds throughout a run exactly when every step
of it meets `G`. -/
theorem throughout_iff_stepsMeet {G : σ → ι → Prop} {I P : List ω → σ → Prop} {s : σ}
    (hstart : I [] s)
    (hstep : ∀ h s i, I h s → G s i → I (h ++ (step s i).2) (step s i).1)
    (hgood : ∀ h s, I h s → P h s)
    (hbad : ∀ h s i, I h s → ¬ G s i → ¬ P (h ++ (step s i).2) (step s i).1)
    (is : List ι) : Throughout step P s is ↔ StepsMeet step G s is := by
  constructor
  · intro h
    induction is using List.reverseRecOn with
    | nil => exact stepsMeet_nil G s
    | append_singleton is i ih =>
        have hmeet := ih (h.of_prefix (List.prefix_append is [i]))
        have hG : G (run step s is).1 i := by
          by_contra hnot
          have hlast := h.last
          rw [run_concat] at hlast
          exact hbad _ _ i (invariant_of_stepsMeet hstart hstep hmeet) hnot hlast
        rw [stepsMeet_append, stepsMeet_cons]
        exact ⟨hmeet, hG, stepsMeet_nil G _⟩
  · intro h pre hpre
    exact hgood _ _ (invariant_of_stepsMeet hstart hstep (h.of_prefix hpre))

/-! ### What the steps of a run take -/

/-- What `f` reads off each step of a run, in order. -/
def collect (step : σ → ι → σ × List ω) {α : Type*} (f : σ → ι → List α) : σ → List ι → List α
  | _, [] => []
  | s, i :: is => f s i ++ collect step f (step s i).1 is

theorem collect_append {α : Type*} (f : σ → ι → List α) (s : σ) (is js : List ι) :
    collect step f s (is ++ js) =
      collect step f s is ++ collect step f (run step s is).1 js := by
  induction is generalizing s with
  | nil => rfl
  | cons i is ih =>
      rw [List.cons_append, collect, ih, collect, run_cons, List.append_assoc]

theorem collect_concat {α : Type*} (f : σ → ι → List α) (s : σ) (is : List ι) (i : ι) :
    collect step f s (is ++ [i]) = collect step f s is ++ f (run step s is).1 i := by
  rw [collect_append, collect, collect, List.append_nil]

theorem collect_prefix {α : Type*} (f : σ → ι → List α) (s : σ) {is js : List ι}
    (h : is <+: js) : collect step f s is <+: collect step f s js := by
  obtain ⟨ks, rfl⟩ := h
  rw [collect_append]
  exact List.prefix_append _ _

theorem filterMap_run {α β : Type*} {f : σ → ι → List α} {g : α → Option β} {o : ω → Option β}
    (hstep : ∀ s i, (step s i).2.filterMap o = (f s i).filterMap g) (s : σ) (is : List ι) :
    (run step s is).2.filterMap o = (collect step f s is).filterMap g := by
  induction is generalizing s with
  | nil => rfl
  | cons i is ih =>
      rw [run_cons, collect, List.filterMap_append, List.filterMap_append, hstep, ih]

/-- What is spent in a run is covered by what is earned in it and the potential at its
start, if this is so for every step. -/
theorem length_collect_add_le {α β : Type*} {spent : σ → ι → List α} {earned : σ → ι → List β}
    {potential : σ → ℕ}
    (hstep : ∀ s i, (spent s i).length + potential (step s i).1 ≤
      potential s + (earned s i).length) (s : σ) (is : List ι) :
    (collect step spent s is).length + potential (run step s is).1 ≤
      potential s + (collect step earned s is).length := by
  induction is generalizing s with
  | nil => exact (Nat.zero_add _).le
  | cons i is ih =>
      have hfirst := hstep s i
      have hrest := ih (step s i).1
      simp only [collect, run_cons, List.length_append]
      omega

theorem invariant_along {I : List ι → σ → Prop} {s : σ} {is : List ι} (hstart : I [] s)
    (hstep : ∀ pre i, pre ++ [i] <+: is → I pre (run step s pre).1 →
      I (pre ++ [i]) (step (run step s pre).1 i).1) :
    ∀ pre, pre <+: is → I pre (run step s pre).1 := by
  intro pre
  induction pre using List.reverseRecOn with
  | nil => exact fun _ => hstart
  | append_singleton pre i ih =>
      intro hpre
      rw [run_concat]
      exact hstep pre i hpre (ih ((List.prefix_append pre [i]).trans hpre))

end Transition
