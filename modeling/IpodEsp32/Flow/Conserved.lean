import Mathlib.Data.List.Basic
import Mathlib.Data.List.Perm.Subperm

/-!
# Flow through a pipeline

Items enter a pipeline in a given order, the `source`. At any time some have been
delivered, some are in flight, and some were lost on the way. The flow is `Conserved`
when the items delivered and those in flight stand in the order of the source, and
each item of the source is in exactly one of the three.

The rules follow the items: one enters behind those in flight, the first in flight is
delivered, and anything in flight may be lost.
-/

namespace Flow

/-- Nothing is reordered, and each item of the source is delivered, in flight or
lost. -/
structure Conserved {α : Type*} (source delivered flight lost : List α) : Prop where
  ordered : (delivered ++ flight).Sublist source
  complete : (delivered ++ flight ++ lost).Perm source

variable {α : Type*} {source delivered flight lost before after xs : List α}

theorem conserved_start : Conserved ([] : List α) [] [] [] where
  ordered := List.Sublist.refl []
  complete := List.Perm.refl []

theorem Conserved.enter (h : Conserved source delivered flight lost) (xs : List α) :
    Conserved (source ++ xs) delivered (flight ++ xs) lost where
  ordered := by
    rw [← List.append_assoc]
    exact h.ordered.append (List.Sublist.refl xs)
  complete := by
    have hmove : (delivered ++ (flight ++ xs) ++ lost).Perm
        (delivered ++ flight ++ lost ++ xs) := by
      rw [← List.append_assoc, List.append_assoc, List.append_assoc _ lost xs]
      exact List.perm_append_comm.append_left (delivered ++ flight)
    exact hmove.trans (h.complete.append_right xs)

theorem Conserved.deliver (h : Conserved source delivered (xs ++ flight) lost) :
    Conserved source (delivered ++ xs) flight lost where
  ordered := by
    rw [List.append_assoc]
    exact h.ordered
  complete := by
    rw [List.append_assoc delivered]
    exact h.complete

theorem Conserved.lose (h : Conserved source delivered (before ++ xs ++ after) lost) :
    Conserved source delivered (before ++ after) (lost ++ xs) where
  ordered := by
    have hsub : (before ++ after).Sublist (before ++ xs ++ after) :=
      (List.sublist_append_left before xs).append (List.Sublist.refl after)
    exact (hsub.append_left delivered).trans h.ordered
  complete := by
    have hmove : (delivered ++ (before ++ after) ++ (lost ++ xs)).Perm
        (delivered ++ (before ++ xs ++ after) ++ lost) := by
      simp only [List.append_assoc]
      refine (List.Perm.append_left before ?_).append_left delivered
      rw [← List.append_assoc, ← List.append_assoc]
      exact List.perm_append_comm.trans (by rw [List.append_assoc])
    exact hmove.trans h.complete

theorem Conserved.delivered_sublist (h : Conserved source delivered flight lost) :
    delivered.Sublist source :=
  (List.sublist_append_left delivered flight).trans h.ordered

theorem Conserved.settled (h : Conserved source delivered [] lost) :
    (delivered ++ lost).Perm source := by
  simpa using h.complete

theorem Conserved.delivered_eq (h : Conserved source delivered [] lost)
    (hlost : lost = []) : delivered = source := by
  subst hlost
  exact h.delivered_sublist.eq_of_length (by simpa using h.settled.length_eq)

end Flow
