import IpodEsp32.Flow.Conserved
import Mathlib.Data.List.Enum
import Mathlib.Data.List.Nodup

/-!
# Flow seen in a history

The events of a run show which items were accepted, delivered and lost. An `Observer`
reads them, and says what an accepted item is to become: nothing, or a result, which is
known by the number of the item. A run is `Flowing` when the results of the items
accepted so far are conserved, given those in flight.

Each rule is about one step: what it adds to the history, and how it changes the number
of items accepted and the results in flight.
-/

namespace Flow

/-- How a history of events is read. -/
structure Observer (ω α β : Type*) where
  accepted? : ω → Option α
  outcome : α → Option β
  delivered? : ω → Option (ℕ × β)
  lost? : ω → Option (ℕ × β)

/-- The results of a list of items, each with the place of its item in the list. -/
def numbered {α β : Type*} (outcome : α → Option β) (xs : List α) : List (ℕ × β) :=
  xs.zipIdx.filterMap fun x => (outcome x.1).map fun y => (x.2, y)

section

variable {α β : Type*} (outcome : α → Option β)

theorem filterMap_cons_toList (x : α) (xs : List α) :
    (x :: xs).filterMap outcome = (outcome x).toList ++ xs.filterMap outcome := by
  rw [List.filterMap_cons]
  cases outcome x <;> rfl

theorem filterMap_concat (xs : List α) (x : α) :
    (xs ++ [x]).filterMap outcome = xs.filterMap outcome ++ (outcome x).toList := by
  rw [List.filterMap_append, filterMap_cons_toList, List.filterMap_nil, List.append_nil]

theorem numbered_concat (xs : List α) (x : α) :
    numbered outcome (xs ++ [x]) =
      numbered outcome xs ++ ((outcome x).map fun y => (xs.length, y)).toList := by
  rw [numbered, List.zipIdx_append, List.zipIdx_singleton, filterMap_concat]
  simp [numbered]

theorem numbered_sorted (xs : List α) :
    (numbered outcome xs).Pairwise fun r r' => r.1 < r'.1 := by
  have hindex : xs.zipIdx.Pairwise fun a b => a.2 < b.2 := by
    rw [← List.pairwise_map, List.zipIdx_map_snd]
    exact List.pairwise_lt_range'
  refine hindex.filterMap _ ?_
  rintro ⟨x, n⟩ ⟨x', n'⟩ hlt r hr r' hr'
  obtain ⟨y, -, rfl⟩ := Option.map_eq_some_iff.1 hr
  obtain ⟨y', -, rfl⟩ := Option.map_eq_some_iff.1 hr'
  exact hlt

theorem numbered_map_fst_nodup (xs : List α) :
    ((numbered outcome xs).map Prod.fst).Nodup :=
  List.pairwise_map.2 ((numbered_sorted outcome xs).imp Nat.ne_of_lt)

theorem numbered_nodup (xs : List α) : (numbered outcome xs).Nodup :=
  List.Nodup.of_map Prod.fst (numbered_map_fst_nodup outcome xs)

theorem numbered_inj {xs : List α} {r r' : ℕ × β} (hr : r ∈ numbered outcome xs)
    (hr' : r' ∈ numbered outcome xs) (h : r.1 = r'.1) : r = r' :=
  List.inj_on_of_nodup_map (numbered_map_fst_nodup outcome xs) hr hr' h

theorem numbered_map_snd (xs : List α) :
    (numbered outcome xs).map Prod.snd = xs.filterMap outcome := by
  have hfst : xs.filterMap outcome = (xs.zipIdx.map Prod.fst).filterMap outcome := by
    rw [List.zipIdx_map_fst]
  rw [hfst, numbered, List.map_filterMap, List.filterMap_map]
  congr 1
  funext x
  simp [Function.comp_def]

end

variable {ω α β : Type*} (O : Observer ω α β)

def Observer.accepted (h : List ω) : List α := h.filterMap O.accepted?

def Observer.source (h : List ω) : List (ℕ × β) := numbered O.outcome (O.accepted h)

def Observer.delivered (h : List ω) : List (ℕ × β) := h.filterMap O.delivered?

def Observer.lost (h : List ω) : List (ℕ × β) := h.filterMap O.lost?

/-- After the history `h`, in which `count` items were accepted, the results in flight
are `flight`, and nothing was reordered, duplicated, or lost unseen. -/
structure Flowing (h : List ω) (count : ℕ) (flight : List (ℕ × β)) : Prop where
  counted : count = (O.accepted h).length
  conserved : Conserved (O.source h) (O.delivered h) flight (O.lost h)

/-- The events neither accept nor deliver anything, and lose the results `lost`. -/
def Observer.Loses (events : List ω) (lost : List (ℕ × β)) : Prop :=
  O.accepted events = [] ∧ O.delivered events = [] ∧ O.lost events = lost

variable {O} {h events : List ω} {count count' : ℕ} {flight flight' : List (ℕ × β)}

theorem accepted_append (h events : List ω) :
    O.accepted (h ++ events) = O.accepted h ++ O.accepted events :=
  List.filterMap_append

theorem delivered_append (h events : List ω) :
    O.delivered (h ++ events) = O.delivered h ++ O.delivered events :=
  List.filterMap_append

theorem lost_append (h events : List ω) :
    O.lost (h ++ events) = O.lost h ++ O.lost events :=
  List.filterMap_append

theorem loses_nil (h : ∀ e ∈ events,
    O.accepted? e = none ∧ O.delivered? e = none ∧ O.lost? e = none) : O.Loses events [] :=
  ⟨List.filterMap_eq_nil_iff.2 fun e he => (h e he).1,
    List.filterMap_eq_nil_iff.2 fun e he => (h e he).2.1,
    List.filterMap_eq_nil_iff.2 fun e he => (h e he).2.2⟩

theorem loses_singleton {e : ω} (ha : O.accepted? e = none) (hd : O.delivered? e = none)
    (hl : O.lost? e = none) : O.Loses [e] [] :=
  loses_nil (by simp [ha, hd, hl])

theorem flowing_start : Flowing O [] 0 [] where
  counted := rfl
  conserved := conserved_start

theorem Flowing.lose (hs : Flowing O h count flight) {lost : List (ℕ × β)}
    (hevents : O.Loses events lost) (before after : List (ℕ × β)) (hcount : count' = count)
    (hflight : flight = before ++ lost ++ after) (hflight' : flight' = before ++ after) :
    Flowing O (h ++ events) count' flight' := by
  obtain ⟨ha, hd, hl⟩ := hevents
  subst hcount hflight hflight'
  refine ⟨?_, ?_⟩
  · rw [accepted_append, ha, List.append_nil, hs.counted]
  · rw [Observer.source, accepted_append, delivered_append, lost_append, ha, hd, hl,
      List.append_nil, List.append_nil]
    exact hs.conserved.lose

theorem Flowing.silent (hs : Flowing O h count flight) (hevents : O.Loses events [])
    (hcount : count' = count) (hflight : flight' = flight) :
    Flowing O (h ++ events) count' flight' :=
  hs.lose hevents flight [] hcount (by simp) (by simp [hflight])

theorem Flowing.enter (hs : Flowing O h count flight) {e : ω} {x : α}
    (he : O.accepted? e = some x) (hd : O.delivered? e = none) (hl : O.lost? e = none)
    (hcount : count' = count + 1)
    (hflight : flight' = flight ++ ((O.outcome x).map fun y => (count, y)).toList) :
    Flowing O (h ++ [e]) count' flight' := by
  have ha : O.accepted [e] = [x] := by simp [Observer.accepted, he]
  have hd' : O.delivered [e] = [] := by simp [Observer.delivered, hd]
  have hl' : O.lost [e] = [] := by simp [Observer.lost, hl]
  refine ⟨?_, ?_⟩
  · rw [hcount, accepted_append, ha, List.length_append, List.length_singleton, hs.counted]
  · rw [Observer.source, accepted_append, delivered_append, lost_append, ha, hd', hl',
      List.append_nil, List.append_nil, numbered_concat, ← hs.counted, hflight]
    exact hs.conserved.enter _

theorem Flowing.deliver (hs : Flowing O h count flight) {delivered : List (ℕ × β)}
    (ha : O.accepted events = []) (hd : O.delivered events = delivered)
    (hl : O.lost events = []) (hcount : count' = count)
    (hflight : flight = delivered ++ flight') :
    Flowing O (h ++ events) count' flight' := by
  refine ⟨?_, ?_⟩
  · rw [hcount, accepted_append, ha, List.append_nil, hs.counted]
  · rw [Observer.source, accepted_append, delivered_append, lost_append, ha, hd, hl,
      List.append_nil, List.append_nil]
    have hcons := hs.conserved
    rw [hflight] at hcons
    exact hcons.deliver

/-- What was delivered is a selection of the results, in their order, each at most
once. -/
theorem Flowing.selection (hs : Flowing O h count flight) :
    (O.delivered h).Sublist (O.source h) ∧
      (O.delivered h).Pairwise fun r r' => r.1 < r'.1 := by
  have hsub := hs.conserved.delivered_sublist
  exact ⟨hsub, (numbered_sorted _ _).sublist hsub⟩

end Flow
