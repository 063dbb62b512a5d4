import IpodEsp32.Flow.Observed
import Mathlib.Data.List.Sort

/-!
# What is in flight is carried on

A history that goes on from a point where `flight` is in flight settles it: of the
results whose items were accepted before that point, those delivered later, those lost
later and those still in flight are together the ones of `flight`, each once
(`Flowing.carried`), and those delivered keep their order (`Flowing.delivered_later`).
-/

namespace Flow

section

variable {α β : Type*} (outcome : α → Option β)

theorem filter_numbered_append (xs ys : List α) :
    (numbered outcome (xs ++ ys)).filter (fun r => decide (r.1 < xs.length)) =
      numbered outcome xs := by
  have hfirst : ∀ r ∈ numbered outcome xs, decide (r.1 < xs.length) = true := by
    intro r hr
    obtain ⟨x, hx, hout⟩ := List.mem_filterMap.1 hr
    obtain ⟨y, -, rfl⟩ := Option.map_eq_some_iff.1 hout
    exact decide_eq_true (List.snd_lt_of_mem_zipIdx hx)
  have hlater : ∀ r ∈ (ys.zipIdx xs.length).filterMap
      fun x => (outcome x.1).map fun y => (x.2, y), ¬ decide (r.1 < xs.length) = true := by
    intro r hr
    obtain ⟨x, hx, hout⟩ := List.mem_filterMap.1 hr
    obtain ⟨y, -, rfl⟩ := Option.map_eq_some_iff.1 hout
    have hle := List.le_snd_of_mem_zipIdx hx
    simpa using hle
  rw [numbered, List.zipIdx_append, List.filterMap_append, List.filter_append,
    Nat.zero_add, List.filter_eq_nil_iff.2 hlater, List.append_nil]
  exact List.filter_eq_self.2 hfirst

end

variable {ω α β : Type*} {O : Observer ω α β} {h later : List ω} {count count' : ℕ}
  {flight flight' : List (ℕ × β)}

theorem Flowing.before (hs : Flowing O h count flight) {xs : List (ℕ × β)}
    (hxs : xs ⊆ O.source h) : xs.filter (fun r => decide (r.1 < count)) = xs := by
  have hsource := filter_numbered_append O.outcome (O.accepted h) []
  rw [List.append_nil, ← hs.counted] at hsource
  exact List.filter_eq_self.2 fun r hr => List.filter_eq_self.1 hsource r (hxs hr)

/-- What was in flight has been delivered or lost since, or still is in flight. -/
theorem Flowing.carried (hs : Flowing O h count flight)
    (hs' : Flowing O (h ++ later) count' flight') :
    ((O.delivered later ++ flight' ++ O.lost later).filter
      fun r => decide (r.1 < count)).Perm flight := by
  have hcomplete := hs.conserved.complete
  have hdelivered := hs.before fun r hr =>
    hcomplete.subset (List.mem_append_left _ (List.mem_append_left flight hr))
  have hlost := hs.before fun r hr => hcomplete.subset (List.mem_append_right _ hr)
  have hsource : (O.source (h ++ later)).filter (fun r => decide (r.1 < count)) =
      O.source h := by
    rw [Observer.source, accepted_append, hs.counted, filter_numbered_append]
    rfl
  have hall := hs'.conserved.complete.filter fun r => decide (r.1 < count)
  rw [hsource, delivered_append, lost_append, List.filter_append, List.filter_append,
    List.filter_append, List.filter_append, hdelivered, hlost] at hall
  -- what was delivered and lost before cancels
  classical
  rw [List.filter_append, List.filter_append, List.perm_iff_count]
  intro r
  have hcount := (hall.trans hcomplete.symm).count_eq r
  simp only [List.count_append] at hcount ⊢
  omega

/-- What was in flight and is delivered later keeps its order. -/
theorem Flowing.delivered_later (hs : Flowing O h count flight)
    (hs' : Flowing O (h ++ later) count' flight') :
    ((O.delivered later).filter fun r => decide (r.1 < count)).Sublist flight := by
  have hlater : (O.delivered later).Pairwise fun r r' => r.1 < r'.1 := by
    have hall := hs'.selection.2
    rw [delivered_append] at hall
    exact (List.pairwise_append.1 hall).2.1
  have hflight : flight.Pairwise fun r r' => r.1 < r'.1 :=
    ((numbered_sorted _ _).sublist hs.conserved.ordered).sublist
      (List.sublist_append_right _ _)
  have hsub : ((O.delivered later).filter fun r => decide (r.1 < count)).Subperm flight := by
    refine List.Subperm.trans (List.Sublist.subperm ?_) (hs.carried hs').subperm
    rw [List.append_assoc, List.filter_append]
    exact List.sublist_append_left _ _
  have hantisymm : Std.Antisymm fun r r' : ℕ × β => r.1 < r'.1 :=
    ⟨fun _ _ hlt hgt => absurd hgt hlt.asymm⟩
  exact List.sublist_of_subperm_of_pairwise hsub (hlater.filter _) hflight

end Flow
