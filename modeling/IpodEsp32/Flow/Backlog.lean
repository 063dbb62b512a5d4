import IpodEsp32.Transition.Run

/-!
# How many arrivals a queue can take

A queue of fixed capacity sees arrivals and services. `Fits` says that it is never full
when something arrives. Starting empty, this is so exactly when in no part of the history,
wherever it begins and ends, the arrivals outnumber the services by more than the capacity
(`fits_iff`). `Backlogged` reads the arrivals and services of a queue off the steps of a
system; there the condition on the history is the exact one for every step to find room
(`Backlogged.stepsMeet_iff`).
-/

namespace Flow

/-- What happens to a queue. -/
inductive Tick
  | arrive
  | serve
  deriving DecidableEq

/-- From a level of `n` on, the queue has room whenever something arrives. A service of
an empty queue does nothing. -/
def Fits (capacity : ℕ) : ℕ → List Tick → Prop
  | _, [] => True
  | n, .arrive :: ts => n < capacity ∧ Fits capacity (n + 1) ts
  | n, .serve :: ts => Fits capacity (n - 1) ts

/-- The arrivals outnumber the services by no more than the capacity. -/
def Balanced (capacity : ℕ) (ts : List Tick) : Prop :=
  ts.count .arrive ≤ ts.count .serve + capacity

theorem count_arrive_cons (ts : List Tick) :
    (Tick.arrive :: ts).count .arrive = ts.count .arrive + 1 ∧
      (Tick.arrive :: ts).count .serve = ts.count .serve :=
  ⟨List.count_cons_self, List.count_cons_of_ne (by decide)⟩

theorem count_serve_cons (ts : List Tick) :
    (Tick.serve :: ts).count .arrive = ts.count .arrive ∧
      (Tick.serve :: ts).count .serve = ts.count .serve + 1 :=
  ⟨List.count_cons_of_ne (by decide), List.count_cons_self⟩

/-- From any level, the beginnings of the history have to make up for what is there. -/
theorem fits_iff_of_le {capacity n : ℕ} (h : n ≤ capacity) (ts : List Tick) :
    Fits capacity n ts ↔
      (∀ p, p <+: ts → n + p.count .arrive ≤ p.count .serve + capacity) ∧
        ∀ w, w <:+: ts → Balanced capacity w := by
  induction ts generalizing n with
  | nil =>
      refine iff_of_true trivial ⟨fun p hp => ?_, fun w hw => ?_⟩
      · rw [List.prefix_nil.1 hp]
        simpa using h
      · rw [List.infix_nil.1 hw]
        exact Nat.zero_le _
  | cons t ts ih =>
      have htail : ∀ w, w <:+: ts → w <:+: t :: ts := fun w hw =>
        hw.trans (List.suffix_cons t ts).isInfix
      cases t with
      | arrive =>
          constructor
          · rintro ⟨hlt, hrest⟩
            obtain ⟨hbegin, hpart⟩ := (ih hlt).1 hrest
            have hp : ∀ p, p <+: .arrive :: ts →
                n + p.count .arrive ≤ p.count .serve + capacity := by
              intro p hp
              rcases List.prefix_cons_iff.1 hp with rfl | ⟨q, rfl, hq⟩
              · simpa using h
              · have hle := hbegin q hq
                rw [(count_arrive_cons q).1, (count_arrive_cons q).2]
                omega
            refine ⟨hp, fun w hw => ?_⟩
            rcases List.infix_cons_iff.1 hw with hw | hw
            · exact le_trans (Nat.le_add_left _ n) (hp w hw)
            · exact hpart w hw
          · rintro ⟨hbegin, hpart⟩
            have hlt : n + 1 ≤ capacity := by
              simpa using hbegin [.arrive] (List.prefix_append [_] ts)
            refine ⟨hlt, (ih hlt).2 ⟨fun p hp => ?_, fun w hw => hpart w (htail w hw)⟩⟩
            have hle := hbegin (.arrive :: p) ((List.prefix_cons_inj _).2 hp)
            rw [(count_arrive_cons p).1, (count_arrive_cons p).2] at hle
            omega
      | serve =>
          have hpred : n - 1 ≤ capacity := (Nat.sub_le n 1).trans h
          constructor
          · intro hrest
            obtain ⟨hbegin, hpart⟩ := (ih hpred).1 hrest
            have hp : ∀ p, p <+: .serve :: ts →
                n + p.count .arrive ≤ p.count .serve + capacity := by
              intro p hp
              rcases List.prefix_cons_iff.1 hp with rfl | ⟨q, rfl, hq⟩
              · simpa using h
              · have hle := hbegin q hq
                rw [(count_serve_cons q).1, (count_serve_cons q).2]
                omega
            refine ⟨hp, fun w hw => ?_⟩
            rcases List.infix_cons_iff.1 hw with hw | hw
            · exact le_trans (Nat.le_add_left _ n) (hp w hw)
            · exact hpart w hw
          · rintro ⟨hbegin, hpart⟩
            refine (ih hpred).2 ⟨fun p hp => ?_, fun w hw => hpart w (htail w hw)⟩
            -- where the queue was empty, the beginning is a part like any other
            have hle := hbegin (.serve :: p) ((List.prefix_cons_inj _).2 hp)
            have hbalanced := hpart p (htail p hp.isInfix)
            rw [(count_serve_cons p).1, (count_serve_cons p).2] at hle
            rw [Balanced] at hbalanced
            omega

/-- An empty queue has room for whatever arrives exactly when every part of the history
is balanced. -/
theorem fits_iff (capacity : ℕ) (ts : List Tick) :
    Fits capacity 0 ts ↔ ∀ w, w <:+: ts → Balanced capacity w := by
  rw [fits_iff_of_le (Nat.zero_le capacity)]
  refine and_iff_right_of_imp fun hpart p hp => ?_
  rw [Nat.zero_add]
  exact hpart p hp.isInfix

/-! ### The queue of a system -/

/-- In the steps that meet `G`, the level of a queue follows the arrivals and services
that `tick` reads off them; something that arrives at a full queue does not get in. -/
structure Backlogged {σ ι ω : Type*} (step : σ → ι → σ × List ω) (G : σ → ι → Prop)
    (capacity : ℕ) (level : σ → ℕ) (tick : σ → ι → Option Tick) : Prop where
  other : ∀ s i, G s i → tick s i = none → level (step s i).1 = level s
  arrive : ∀ s i, G s i → tick s i = some .arrive → level s < capacity →
    level (step s i).1 = level s + 1
  serve : ∀ s i, G s i → tick s i = some .serve → level (step s i).1 = level s - 1

def ticks {σ ι ω : Type*} (step : σ → ι → σ × List ω) (tick : σ → ι → Option Tick) :
    σ → List ι → List Tick :=
  Transition.collect step fun s i => (tick s i).toList

def Room {σ ι : Type*} (capacity : ℕ) (level : σ → ℕ) (tick : σ → ι → Option Tick)
    (s : σ) (i : ι) : Prop :=
  tick s i = some .arrive → level s < capacity

variable {σ ι ω : Type*} {step : σ → ι → σ × List ω} {G : σ → ι → Prop} {capacity : ℕ}
  {level : σ → ℕ} {tick : σ → ι → Option Tick}

theorem Backlogged.stepsMeet_iff_fits (hq : Backlogged step G capacity level tick) {s : σ}
    {is : List ι} (hmeet : Transition.StepsMeet step G s is) :
    Transition.StepsMeet step (Room capacity level tick) s is ↔
      Fits capacity (level s) (ticks step tick s is) := by
  induction is generalizing s with
  | nil => exact iff_of_true (Transition.stepsMeet_nil _ s) trivial
  | cons i is ih =>
      rw [Transition.stepsMeet_cons] at hmeet
      rw [Transition.stepsMeet_cons, ih hmeet.2, ticks, Transition.collect]
      cases htick : tick s i with
      | none =>
          rw [hq.other s i hmeet.1 htick]
          refine and_iff_right fun h => ?_
          rw [htick] at h
          cases h
      | some t =>
          cases t with
          | arrive =>
              have hroom : Room capacity level tick s i ↔ level s < capacity :=
                ⟨fun h => h htick, fun h _ => h⟩
              rw [hroom]
              refine and_congr_right fun hlt => ?_
              rw [hq.arrive s i hmeet.1 htick hlt]
              rfl
          | serve =>
              rw [hq.serve s i hmeet.1 htick]
              refine and_iff_right fun h => ?_
              rw [htick] at h
              cases h

/-- Starting empty, the queue has room for whatever arrives in a run exactly when every
part of its history is balanced. -/
theorem Backlogged.stepsMeet_iff (hq : Backlogged step G capacity level tick) {s : σ}
    {is : List ι} (hmeet : Transition.StepsMeet step G s is) (hempty : level s = 0) :
    Transition.StepsMeet step (Room capacity level tick) s is ↔
      ∀ w, w <:+: ticks step tick s is → Balanced capacity w := by
  rw [hq.stepsMeet_iff_fits hmeet, hempty, fits_iff]

end Flow
