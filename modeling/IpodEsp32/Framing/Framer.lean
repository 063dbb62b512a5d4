import Mathlib.Data.List.Chain

/-!
# Length-prefixed framing

A frame on the wire is a pair of sync symbols, a length symbol, as many payload
symbols as the length symbol announces, and one trailer symbol that closes the
payload. A `Framer` reads one symbol at a time and remembers the previous one,
so that a sync pair is recognised across any cut of the stream. A `cut` drops
the frame in progress and keeps the remembered symbol.

Everything here is stated for an arbitrary symbol type and an arbitrary
`Format`; `feed` collects the payloads offered along a list of signals, and
`stamped` also records how many symbols had been read when each was offered.
-/

namespace Framing

/-- The shape of a frame: the sync pair, the payload length announced by a
length symbol, and which trailer closes which payload. -/
structure Format (β : Type*) where
  first : β
  second : β
  first_ne_second : first ≠ second
  size : β → ℕ
  closes : List β → β → Bool

/-- What the framer is waiting for. In `body n got` the announced length is `n`
and `got` is the payload read so far. -/
inductive Phase (β : Type*)
  | hunting
  | length
  | body (n : ℕ) (got : List β)

structure Framer (β : Type*) where
  prev : β
  phase : Phase β

/-- One symbol read from the wire, or the loss of the frame in progress. -/
inductive Signal (β : Type*)
  | symbol (b : β)
  | cut

def Signal.width {β : Type*} : Signal β → ℕ
  | .symbol _ => 1
  | .cut => 0

@[simp] theorem Signal.width_symbol {β : Type*} (b : β) :
    (Signal.symbol b).width = 1 := rfl

@[simp] theorem Signal.width_cut {β : Type*} :
    (Signal.cut : Signal β).width = 0 := rfl

def symbols {β : Type*} : List (Signal β) → List β
  | [] => []
  | .symbol b :: xs => b :: symbols xs
  | .cut :: xs => symbols xs

@[simp] theorem symbols_nil {β : Type*} :
    symbols ([] : List (Signal β)) = [] := rfl

@[simp] theorem symbols_symbol_cons {β : Type*} (b : β) (xs : List (Signal β)) :
    symbols (.symbol b :: xs) = b :: symbols xs := rfl

@[simp] theorem symbols_cut_cons {β : Type*} (xs : List (Signal β)) :
    symbols (.cut :: xs) = symbols xs := rfl

theorem symbols_append {β : Type*} (xs ys : List (Signal β)) :
    symbols (xs ++ ys) = symbols xs ++ symbols ys := by
  induction xs with
  | nil => rfl
  | cons x xs ih => cases x <;> simp [ih]

/-- For each cut, the number of symbols read before it, counted from `n`. -/
def cuts {β : Type*} : ℕ → List (Signal β) → List ℕ
  | _, [] => []
  | n, .symbol _ :: xs => cuts (n + 1) xs
  | n, .cut :: xs => n :: cuts n xs

theorem le_of_mem_cuts {β : Type*} {n d : ℕ} {xs : List (Signal β)}
    (h : d ∈ cuts n xs) : n ≤ d := by
  induction xs generalizing n with
  | nil => simp [cuts] at h
  | cons x xs ih =>
      cases x with
      | symbol b => exact Nat.le_of_succ_le (ih h)
      | cut =>
          rcases List.mem_cons.1 h with rfl | h
          · exact le_rfl
          · exact ih h

theorem eq_map_symbol_of_cuts {β : Type*} {n : ℕ} {xs : List (Signal β)}
    (h : cuts n xs = []) : xs = (symbols xs).map .symbol := by
  induction xs generalizing n with
  | nil => rfl
  | cons x xs ih =>
      cases x with
      | symbol b => rw [symbols_symbol_cons, List.map_cons, ← ih h]
      | cut => simp [cuts] at h

/-! ### One signal -/

section

variable {β : Type*} [DecidableEq β] (F : Format β)

def Sync (a b : β) : Prop := a = F.first ∧ b = F.second

instance (a b : β) : Decidable (Sync F a b) :=
  inferInstanceAs (Decidable (_ ∧ _))

/-- Reading one symbol: the next framer and the payload it completes, if any. -/
def read (f : Framer β) (b : β) : Framer β × Option (List β) :=
  match f.phase with
  | .hunting => (⟨b, if Sync F f.prev b then .length else .hunting⟩, none)
  | .length => (⟨b, if F.size b = 0 then .hunting else .body (F.size b) []⟩, none)
  | .body n got =>
      if got.length = n then (⟨b, .hunting⟩, if F.closes got b then some got else none)
      else (⟨b, .body n (got ++ [b])⟩, none)

def step (f : Framer β) : Signal β → Framer β × Option (List β)
  | .symbol b => read F f b
  | .cut => (⟨f.prev, .hunting⟩, none)

@[simp] theorem read_prev (f : Framer β) (b : β) : (read F f b).1.prev = b := by
  unfold read
  split
  · rfl
  · rfl
  · split <;> rfl

theorem read_hunting (a b : β) :
    read F ⟨a, .hunting⟩ b =
      (⟨b, if Sync F a b then .length else .hunting⟩, none) := rfl

theorem read_length (a b : β) :
    read F ⟨a, .length⟩ b =
      (⟨b, if F.size b = 0 then .hunting else .body (F.size b) []⟩, none) := rfl

theorem read_body_of_lt (a b : β) {n : ℕ} {got : List β} (h : got.length < n) :
    read F ⟨a, .body n got⟩ b = (⟨b, .body n (got ++ [b])⟩, none) := by
  simp [read, h.ne]

theorem read_body_last (a b : β) (got : List β) :
    read F ⟨a, .body got.length got⟩ b =
      (⟨b, .hunting⟩, if F.closes got b then some got else none) := by
  simp [read]

/-! ### Lists of signals -/

def feed : Framer β → List (Signal β) → Framer β × List (List β)
  | f, [] => (f, [])
  | f, x :: xs =>
      ((feed (step F f x).1 xs).1,
        (step F f x).2.toList ++ (feed (step F f x).1 xs).2)

/-- The payloads offered along a list of signals, each with the number of
symbols read when it was offered, counted from `n`. -/
def stamped : ℕ → Framer β → List (Signal β) → List (ℕ × List β)
  | _, _, [] => []
  | n, f, x :: xs =>
      (step F f x).2.toList.map (fun p => (n + x.width, p)) ++
        stamped (n + x.width) (step F f x).1 xs

@[simp] theorem feed_nil (f : Framer β) : feed F f [] = (f, []) := rfl

theorem feed_cons (f : Framer β) (x : Signal β) (xs : List (Signal β)) :
    feed F f (x :: xs) =
      ((feed F (step F f x).1 xs).1,
        (step F f x).2.toList ++ (feed F (step F f x).1 xs).2) := rfl

theorem feed_append (f : Framer β) (xs ys : List (Signal β)) :
    feed F f (xs ++ ys) =
      ((feed F (feed F f xs).1 ys).1,
        (feed F f xs).2 ++ (feed F (feed F f xs).1 ys).2) := by
  induction xs generalizing f with
  | nil => simp
  | cons x xs ih => simp [feed_cons, ih (step F f x).1]

theorem stamped_map_snd (n : ℕ) (f : Framer β) (xs : List (Signal β)) :
    (stamped F n f xs).map Prod.snd = (feed F f xs).2 := by
  induction xs generalizing n f with
  | nil => rfl
  | cons x xs ih => simp [stamped, feed_cons, ih, Function.comp_def]

theorem stamped_append (n : ℕ) (f : Framer β) (xs ys : List (Signal β)) :
    stamped F n f (xs ++ ys) =
      stamped F n f xs ++
        stamped F (n + (symbols xs).length) (feed F f xs).1 ys := by
  induction xs generalizing n f with
  | nil => rfl
  | cons x xs ih =>
      rw [List.cons_append, stamped, ih, stamped, feed_cons, List.append_assoc]
      cases x with
      | symbol b =>
          rw [symbols_symbol_cons, List.length_cons, Signal.width_symbol,
            Nat.add_assoc, Nat.add_comm 1]
      | cut => rfl

def readAll (f : Framer β) (bs : List β) : Framer β × List (List β) :=
  feed F f (bs.map .symbol)

@[simp] theorem readAll_nil (f : Framer β) : readAll F f [] = (f, []) := rfl

theorem readAll_cons (f : Framer β) (b : β) (bs : List β) :
    readAll F f (b :: bs) =
      ((readAll F (read F f b).1 bs).1,
        (read F f b).2.toList ++ (readAll F (read F f b).1 bs).2) := rfl

theorem readAll_append (f : Framer β) (bs cs : List β) :
    readAll F f (bs ++ cs) =
      ((readAll F (readAll F f bs).1 cs).1,
        (readAll F f bs).2 ++ (readAll F (readAll F f bs).1 cs).2) := by
  simp [readAll, feed_append]

end

end Framing
