import IpodEsp32.Framing.Framer

/-!
# Reading back what was framed

`Frame.word` writes a frame out as symbols. From any hunting framer, whatever
symbol it remembers, reading the word of a frame offers the payload and returns
to hunting, and reading symbols among which no sync pair occurs changes nothing
but the remembered symbol. Hence a stream of frames with such noise before,
between and after them offers the payloads in order and nothing else.
-/

namespace Framing

variable {β : Type*}

/-- A frame of the format: its length symbol announces the payload, which is not
empty, and the trailer closes it. -/
structure Frame (F : Format β) where
  length : β
  payload : List β
  trailer : β
  size_length : F.size length = payload.length
  payload_ne_nil : payload ≠ []
  closed : F.closes payload trailer = true

def Frame.rest {F : Format β} (w : Frame F) : List β :=
  w.length :: (w.payload ++ [w.trailer])

def Frame.word {F : Format β} (w : Frame F) : List β :=
  F.first :: F.second :: w.rest

theorem Frame.length_word {F : Format β} (w : Frame F) :
    w.word.length = w.payload.length + 4 := by
  simp [word, rest]

def words {F : Format β} (ws : List (Frame F)) : List β :=
  (ws.map Frame.word).flatten

@[simp] theorem words_nil {F : Format β} : words ([] : List (Frame F)) = [] := rfl

theorem words_cons {F : Format β} (w : Frame F) (ws : List (Frame F)) :
    words (w :: ws) = w.word ++ words ws := rfl

/-- The symbols `bs`, read after the symbol `a`, contain no sync pair, the pair
formed by `a` and the first of them included. -/
def Clean (F : Format β) (a : β) (bs : List β) : Prop :=
  List.IsChain (fun x y => ¬ Sync F x y) (a :: bs)

theorem clean_nil (F : Format β) (a : β) : Clean F a [] :=
  List.isChain_singleton a

theorem clean_cons {F : Format β} {a b : β} {bs : List β} :
    Clean F a (b :: bs) ↔ ¬ Sync F a b ∧ Clean F b bs :=
  List.isChain_cons_cons

/-- A noise string before the first frame, then frames each followed by a noise
string. -/
def stream {F : Format β} (noise : List β) (segs : List (Frame F × List β)) : List β :=
  noise ++ (segs.map fun s => s.1.word ++ s.2).flatten

theorem stream_cons {F : Format β} (noise : List β) (s : Frame F × List β)
    (segs : List (Frame F × List β)) :
    stream noise (s :: segs) = noise ++ (s.1.word ++ stream s.2 segs) := by
  simp [stream]

variable [DecidableEq β] {F : Format β}

theorem readAll_clean {f : Framer β} {bs : List β} (hf : f.phase = .hunting)
    (hbs : Clean F f.prev bs) :
    readAll F f bs = (⟨bs.getLast?.getD f.prev, .hunting⟩, []) := by
  induction bs generalizing f with
  | nil =>
      rcases f with ⟨a, ph⟩
      simp_all
  | cons b bs ih =>
      rcases f with ⟨a, ph⟩
      simp only at hf
      subst hf
      rw [clean_cons] at hbs
      have hread : read F ⟨a, .hunting⟩ b = (⟨b, .hunting⟩, none) := by
        rw [read_hunting, if_neg hbs.1]
      rw [readAll_cons, hread, ih rfl hbs.2]
      simp [List.getLast?_cons]

theorem readAll_body (a : β) {n : ℕ} {got bs : List β}
    (h : got.length + bs.length ≤ n) :
    readAll F ⟨a, .body n got⟩ bs =
      (⟨bs.getLast?.getD a, .body n (got ++ bs)⟩, []) := by
  induction bs generalizing a got with
  | nil => simp
  | cons b bs ih =>
      rw [List.length_cons] at h
      have hlen : (got ++ [b]).length + bs.length ≤ n := by simp; omega
      rw [readAll_cons, read_body_of_lt F a b (by omega), ih b hlen]
      simp [List.getLast?_cons]

theorem readAll_body_last (a b : β) {n : ℕ} {got bs : List β}
    (h : got.length + bs.length = n) :
    readAll F ⟨a, .body n got⟩ (bs ++ [b]) =
      (⟨b, .hunting⟩, if F.closes (got ++ bs) b then [got ++ bs] else []) := by
  have hlast := read_body_last F (bs.getLast?.getD a) b (got ++ bs)
  rw [List.length_append, h] at hlast
  rw [readAll_append, readAll_body a h.le, readAll_cons, hlast]
  cases F.closes (got ++ bs) b <;> simp

theorem read_second (F : Format β) :
    read F ⟨F.first, .hunting⟩ F.second = (⟨F.second, .length⟩, none) := by
  rw [read_hunting, if_pos ⟨rfl, rfl⟩]

theorem read_first (F : Format β) (a : β) :
    read F ⟨a, .hunting⟩ F.first = (⟨F.first, .hunting⟩, none) := by
  rw [read_hunting, if_neg fun h => F.first_ne_second h.2]

theorem readAll_rest {l c : β} {p : List β} (a : β) (hl : F.size l = p.length)
    (hp : p ≠ []) :
    readAll F ⟨a, .length⟩ (l :: (p ++ [c])) =
      (⟨c, .hunting⟩, if F.closes p c then [p] else []) := by
  have hsize : F.size l ≠ 0 := by
    rw [hl]
    exact fun h => hp (List.length_eq_zero_iff.1 h)
  rw [readAll_cons, read_length, if_neg hsize,
    readAll_body_last l c (by simp [hl] : ([] : List β).length + p.length = F.size l)]
  rfl

theorem readAll_framed {l c : β} {p : List β} (a : β) (hl : F.size l = p.length)
    (hp : p ≠ []) :
    readAll F ⟨a, .hunting⟩ (F.first :: F.second :: l :: (p ++ [c])) =
      (⟨c, .hunting⟩, if F.closes p c then [p] else []) := by
  rw [readAll_cons, read_first, readAll_cons, read_second, readAll_rest _ hl hp]
  rfl

theorem readAll_word (a : β) (w : Frame F) :
    readAll F ⟨a, .hunting⟩ w.word = (⟨w.trailer, .hunting⟩, [w.payload]) := by
  rw [Frame.word, Frame.rest, readAll_framed a w.size_length w.payload_ne_nil,
    if_pos w.closed]

/-- Frames with noise before, between and after them: the payloads are offered in
order, nothing else is, and the framer ends hunting. -/
theorem readAll_stream {noise : List β} {segs : List (Frame F × List β)} {f : Framer β}
    (hf : f.phase = .hunting) (hnoise : Clean F f.prev noise)
    (hsegs : ∀ s ∈ segs, Clean F s.1.trailer s.2) :
    (readAll F f (stream noise segs)).1.phase = .hunting ∧
      (readAll F f (stream noise segs)).2 = segs.map fun s => s.1.payload := by
  induction segs generalizing noise f with
  | nil => simp [stream, readAll_clean hf hnoise]
  | cons s segs ih =>
      have hrest := ih (f := ⟨s.1.trailer, .hunting⟩) rfl
        (hsegs s List.mem_cons_self)
        fun t ht => hsegs t (List.mem_cons_of_mem s ht)
      rw [stream_cons, readAll_append, readAll_clean hf hnoise, readAll_append,
        readAll_word]
      simpa using hrest

theorem readAll_words (ws : List (Frame F)) {f : Framer β} (hf : f.phase = .hunting) :
    (readAll F f (words ws)).1.phase = .hunting ∧
      (readAll F f (words ws)).2 = ws.map Frame.payload := by
  have hstream : words ws =
      stream ([] : List β) (ws.map fun w => (w, ([] : List β))) := by
    simp [words, stream, Function.comp_def]
  have hclean : ∀ s ∈ ws.map fun w => (w, ([] : List β)), Clean F s.1.trailer s.2 := by
    simp [clean_nil]
  have h := readAll_stream hf (clean_nil F f.prev) hclean
  rw [hstream]
  simpa [Function.comp_def] using h

end Framing
