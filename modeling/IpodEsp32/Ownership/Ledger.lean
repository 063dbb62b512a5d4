import Mathlib.Data.List.Basic
import Mathlib.Data.List.Range

/-!
# Who owns what was allocated

Allocations are numbered in the order in which they are made. `held` lists the
identities of the allocations that something still owns, with one entry for each
owner, and `freed` those of the releases made so far. The books are `Exact` when
each of the `next` identities handed out occurs exactly once in the two together:
nothing is owned twice, released twice, released and still owned, or lost.

`Books` reads the releases off the events of a run; its rules are about one step, what it
adds to the history and how it changes what is held.
-/

namespace Ownership

/-- Each of the first `next` identities is held once, or was freed once, and not
both. -/
def Exact (held freed : List ℕ) (next : ℕ) : Prop :=
  (held ++ freed).Perm (List.range next)

variable {held freed before middle after lost : List ℕ} {next id : ℕ}

theorem exact_start : Exact [] [] 0 :=
  List.Perm.refl []

theorem Exact.carry (h : Exact (before ++ id :: (middle ++ after)) freed next) :
    Exact (before ++ (middle ++ id :: after)) freed next := by
  have hmove : (before ++ (middle ++ id :: after)).Perm
      (before ++ id :: (middle ++ after)) :=
    List.perm_middle.append_left before
  exact (hmove.append_right freed).trans h

theorem Exact.allocate (h : Exact (before ++ after) freed next) :
    Exact (before ++ next :: after) freed (next + 1) := by
  have hcons : (before ++ next :: after ++ freed).Perm (next :: List.range next) :=
    (List.perm_middle.append_right freed).trans (h.cons next)
  rw [Exact, List.range_succ]
  exact hcons.trans (List.perm_append_singleton next _).symm

theorem Exact.free (h : Exact (before ++ id :: after) freed next) :
    Exact (before ++ after) (freed ++ [id]) next := by
  have hmove : (before ++ after ++ (freed ++ [id])).Perm (id :: (before ++ after ++ freed)) := by
    rw [← List.append_assoc]
    exact List.perm_append_singleton id _
  exact hmove.trans ((List.perm_middle.append_right freed).symm.trans h)

/-- Whatever stops being held without being released spoils the books. -/
theorem Exact.not_exact_of_lost (h : Exact (before ++ (lost ++ after)) freed next)
    (hlost : lost ≠ []) : ¬ Exact (before ++ after) freed next := by
  intro h'
  have hlen := (h.trans h'.symm).length_eq
  have hpos := List.length_pos_iff.2 hlost
  simp only [List.length_append] at hlen
  omega

/-- What is lost may as well have been released. -/
theorem Exact.release (h : Exact (before ++ (lost ++ after)) freed next) :
    Exact (before ++ after) (lost ++ freed) next := by
  have hmove : (before ++ (lost ++ after) ++ freed).Perm
      (before ++ after ++ (lost ++ freed)) := by
    simp only [List.append_assoc]
    refine List.Perm.append_left before ?_
    rw [← List.append_assoc, ← List.append_assoc]
    exact List.perm_append_comm.append_right freed
  exact hmove.symm.trans h

theorem Exact.length (h : Exact held freed next) : held.length + freed.length = next := by
  have hlen := h.length_eq
  rwa [List.length_append, List.length_range] at hlen

/-! ### The books of a run -/

section

variable {ω : Type*} (freed? : ω → Option ℕ)

/-- After the history `h` the allocations made so far are those held and those
released. -/
def Books (h : List ω) (held : List ℕ) (next : ℕ) : Prop :=
  Exact held (h.filterMap freed?) next

instance (h : List ω) (held : List ℕ) (next : ℕ) : Decidable (Books freed? h held next) :=
  inferInstanceAs (Decidable (List.Perm _ _))

variable {freed?} {h events : List ω} {held held' : List ℕ} {next' : ℕ}

theorem books_start : Books freed? [] [] 0 := exact_start

theorem filterMap_append_of_keeps (h : List ω) (hevents : events.filterMap freed? = []) :
    (h ++ events).filterMap freed? = h.filterMap freed? := by
  rw [List.filterMap_append, hevents, List.append_nil]

theorem Books.stay (hs : Books freed? h held next) (hevents : events.filterMap freed? = [])
    (hnext : next' = next) (hheld : held' = held) :
    Books freed? (h ++ events) held' next' := by
  rw [Books, filterMap_append_of_keeps h hevents, hnext, hheld]
  exact hs

theorem Books.carry (hs : Books freed? h held next) (id : ℕ) (before middle after : List ℕ)
    (hevents : events.filterMap freed? = []) (hnext : next' = next)
    (hheld : held = before ++ id :: (middle ++ after))
    (hheld' : held' = before ++ (middle ++ id :: after)) :
    Books freed? (h ++ events) held' next' := by
  rw [Books, filterMap_append_of_keeps h hevents, hnext, hheld']
  rw [Books, hheld] at hs
  exact hs.carry

theorem Books.allocate (hs : Books freed? h held next) (before after : List ℕ)
    (hevents : events.filterMap freed? = []) (hnext : next' = next + 1)
    (hheld : held = before ++ after) (hheld' : held' = before ++ next :: after) :
    Books freed? (h ++ events) held' next' := by
  rw [Books, filterMap_append_of_keeps h hevents, hnext, hheld']
  rw [Books, hheld] at hs
  exact hs.allocate

theorem Books.free (hs : Books freed? h held next) {e : ω} (id : ℕ)
    (before after : List ℕ) (he : freed? e = some id) (hnext : next' = next)
    (hheld : held = before ++ id :: after) (hheld' : held' = before ++ after) :
    Books freed? (h ++ [e]) held' next' := by
  have hfreed : [e].filterMap freed? = [id] := by simp [he]
  rw [Books, List.filterMap_append, hfreed, hnext, hheld']
  rw [Books, hheld] at hs
  exact hs.free

theorem Books.not_books_of_lost (hs : Books freed? h held next) (before after : List ℕ)
    (hevents : events.filterMap freed? = []) (hlost : lost ≠ [])
    (hheld : held = before ++ (lost ++ after)) :
    ¬ Books freed? (h ++ events) (before ++ after) next := by
  rw [Books, filterMap_append_of_keeps h hevents]
  rw [Books, hheld] at hs
  exact hs.not_exact_of_lost hlost

end

end Ownership
