import IpodEsp32.Flow.Observed

/-!
# The last result of a kind

With nothing in flight, the last result delivered among those of a kind is the last
that was to be delivered exactly when this one was not lost; what was lost before it
makes no difference (`Flowing.latest_iff`).
-/

namespace Flow

section

variable {α : Type*} {xs ys lost : List α}

/-- If a selection and what is left out make up a list, they end alike exactly when the
last element is not left out. -/
theorem getLast?_eq_iff (hsub : xs.Sublist ys) (hall : (xs ++ lost).Perm ys)
    (hnodup : ys.Nodup) :
    xs.getLast? = ys.getLast? ↔ ∀ y, ys.getLast? = some y → y ∉ lost := by
  rcases List.eq_nil_or_concat ys with rfl | ⟨init, y, rfl⟩
  · rw [List.sublist_nil.1 hsub]
    exact iff_of_true rfl nofun
  rw [List.concat_eq_append] at hsub hall hnodup ⊢
  rw [List.getLast?_concat]
  have hdisjoint := List.nodup_append.1 (hall.nodup_iff.2 hnodup)
  obtain ⟨front, back, rfl, hfront, hback⟩ := List.sublist_append_iff.1 hsub
  rcases List.sublist_singleton.1 hback with rfl | rfl
  · -- the last element is not selected
    have hnot : y ∉ front := fun hy =>
      (List.nodup_append.1 hnodup).2.2 y (hfront.subset hy) y (List.mem_singleton_self y) rfl
    rw [List.append_nil] at hall ⊢
    have hlost : y ∈ lost := by
      have hy := hall.mem_iff.2 (List.mem_append_right init (List.mem_singleton_self y))
      exact (List.mem_append.1 hy).resolve_left hnot
    refine iff_of_false (fun hlast => ?_) fun h => h y rfl hlost
    exact hnot (List.mem_of_getLast? hlast)
  · rw [List.getLast?_concat]
    refine iff_of_true rfl fun z hz hlost => ?_
    obtain rfl := Option.some.inj hz
    exact hdisjoint.2.2 y (List.mem_append_right front (List.mem_singleton_self y)) y hlost rfl

end

variable {ω α β : Type*} {O : Observer ω α β} {h : List ω} {count : ℕ}

/-- Among the results of a kind, the last delivered is the last of the source exactly
when that one was not lost. -/
theorem Flowing.latest_iff (hs : Flowing O h count []) (p : ℕ × β → Bool) :
    ((O.delivered h).filter p).getLast? = ((O.source h).filter p).getLast? ↔
      ∀ r, ((O.source h).filter p).getLast? = some r → r ∉ O.lost h := by
  have hsub : ((O.delivered h).filter p).Sublist ((O.source h).filter p) :=
    hs.selection.1.filter p
  have hall : ((O.delivered h).filter p ++ (O.lost h).filter p).Perm
      ((O.source h).filter p) := by
    rw [← List.filter_append]
    exact hs.conserved.settled.filter p
  have hnodup : ((O.source h).filter p).Nodup :=
    (numbered_nodup O.outcome (O.accepted h)).filter p
  rw [getLast?_eq_iff hsub hall hnodup]
  refine forall_congr' fun r => imp_congr_right fun hr => ?_
  have hp : p r = true := (List.mem_filter.1 (List.mem_of_getLast? hr)).2
  rw [List.mem_filter, and_iff_left hp]

end Flow
