import Mathlib.Data.List.Basic

/-!
# Bounded queues

The queues of the operating system: first in first out, of a fixed capacity, with
atomic operations. A send that may wait is one that happens, or gives up, at some
later point of the interleaving, so it fails only if the queue is full at that
point; a receive that may wait is one that has not happened yet.
-/

namespace Rtos

/-- A queue that holds at most `capacity` items, the oldest one first. -/
structure Queue (capacity : ℕ) (α : Type*) where
  items : List α
  length_le : items.length ≤ capacity

namespace Queue

variable {capacity : ℕ} {α : Type*}

def empty : Queue capacity α := ⟨[], Nat.zero_le capacity⟩

/-- `xQueueSend`: the item goes behind the others, unless the queue is full. -/
def send (q : Queue capacity α) (x : α) : Option (Queue capacity α) :=
  if h : q.items.length < capacity then
    some ⟨q.items ++ [x], by rw [List.length_append]; exact h⟩
  else none

/-- `xQueueReceive`: the oldest item is taken out, unless the queue is empty. -/
def receive (q : Queue capacity α) : Option (α × Queue capacity α) :=
  match q with
  | ⟨[], _⟩ => none
  | ⟨x :: items, h⟩ => some (x, ⟨items, Nat.le_of_succ_le h⟩)

@[simp] theorem items_empty : (empty : Queue capacity α).items = [] := rfl

theorem send_eq_none_iff {q : Queue capacity α} {x : α} :
    q.send x = none ↔ q.items.length = capacity := by
  have hle := q.length_le
  by_cases h : q.items.length < capacity
  · simp [send, h, Nat.ne_of_lt h]
  · simp [send, Nat.le_antisymm hle (Nat.le_of_not_lt h)]

theorem items_of_send {q q' : Queue capacity α} {x : α} (h : q.send x = some q') :
    q'.items = q.items ++ [x] := by
  by_cases hlt : q.items.length < capacity
  · rw [send, dif_pos hlt, Option.some.injEq] at h
    rw [← h]
  · rw [send, dif_neg hlt] at h
    cases h

theorem exists_send {q : Queue capacity α} (x : α) (h : q.items.length < capacity) :
    ∃ q', q.send x = some q' ∧ q'.items.length = q.items.length + 1 := by
  cases hq : q.send x with
  | none => exact absurd (send_eq_none_iff.1 hq) (Nat.ne_of_lt h)
  | some q' => exact ⟨q', rfl, by simp [items_of_send hq]⟩

theorem receive_eq_none_iff {q : Queue capacity α} : q.receive = none ↔ q.items = [] := by
  obtain ⟨items, h⟩ := q
  cases items <;> simp [receive]

theorem items_of_receive {q q' : Queue capacity α} {x : α}
    (h : q.receive = some (x, q')) : q.items = x :: q'.items := by
  obtain ⟨items, hle⟩ := q
  cases items with
  | nil => cases h
  | cons y items =>
      simp only [receive, Option.some.injEq, Prod.mk.injEq] at h
      rw [← h.1, ← h.2]

end Queue

end Rtos
