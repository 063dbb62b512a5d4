import IpodEsp32.Framing.RoundTrip

/-!
# Resynchronisation after a false frame

A framer caught in the middle of a frame takes the following symbols for the rest
of that frame, and may end it anywhere inside a real one. If the sync pair occurs
in the stream at frame starts only, the framer then stays hunting until the next
frame start and reads every frame from there on. A frame start whose first sync
symbol is the last symbol of the false frame is not missed either, since the
framer remembers that symbol.

`Framer.debt` is the number of symbols the frame in progress still takes, so it
bounds what is lost.
-/

namespace Framing

variable {β : Type*}

/-- The sync pair occurs among the words of `ws` at the first symbol of a frame
only. -/
def OnlyAtStarts {F : Format β} (ws : List (Frame F)) : Prop :=
  ∀ i, (words ws)[i]? = some F.first → (words ws)[i + 1]? = some F.second →
    ∃ lost w later, ws = lost ++ w :: later ∧ i = (words lost).length

theorem words_append {F : Format β} (ws ws' : List (Frame F)) :
    words (ws ++ ws') = words ws ++ words ws' := by
  simp [words]

theorem words_drop_cons {F : Format β} (w : Frame F) (ws : List (Frame F)) (n : ℕ) :
    (words (w :: ws)).drop (w.word.length + n) = (words ws).drop n := by
  rw [words_cons, List.drop_length_add_append]

/-- A frame start that lies inside the word of `w` is the start of `w`. -/
theorem start_of_lt_word {F : Format β} {before later lost later' : List (Frame F)}
    {w w' : Frame F} (h : before ++ w :: later = lost ++ w' :: later')
    (hle : (words before).length ≤ (words lost).length)
    (hlt : (words lost).length < (words before).length + w.word.length) :
    (words lost).length = (words before).length := by
  rcases List.append_eq_append_iff.1 h with ⟨x, rfl, hx⟩ | ⟨x, rfl, hx⟩
  · cases x with
    | nil => simp
    | cons y x =>
        simp only [List.cons_append, List.cons.injEq] at hx
        rw [words_append, words_cons, ← hx.1, List.length_append,
          List.length_append] at hlt
        omega
  · rw [words_append, List.length_append] at hle ⊢
    omega

theorem OnlyAtStarts.clean_rest {F : Format β} {before later : List (Frame F)}
    {w : Frame F} (h : OnlyAtStarts (before ++ w :: later)) :
    Clean F F.second w.rest := by
  rw [Clean, List.isChain_iff_forall_rel_of_append_cons_cons]
  rintro a b u v huv ⟨rfl, rfl⟩
  have hwords : words (before ++ w :: later) = (words before ++ F.first :: u) ++
      F.first :: F.second :: (v ++ words later) := by
    rw [words_append, words_cons, Frame.word, huv]
    simp
  obtain ⟨lost, w', later', hsplit, hi⟩ :=
    h (words before ++ F.first :: u).length
      (by rw [hwords, List.getElem?_append_right le_rfl]; simp)
      (by rw [hwords, List.getElem?_append_right (by omega)]; simp)
  -- the pair would be a frame start strictly inside the word of `w`
  have hlen : (words before ++ F.first :: u).length = (words before).length + u.length + 1 := by
    simp
    omega
  have hword : w.word.length = u.length + v.length + 3 := by
    rw [Frame.word, huv]
    simp
    omega
  have hstart := start_of_lt_word hsplit (by omega) (by omega)
  omega

variable [DecidableEq β] {F : Format β}

/-- The end of a word, read from inside by a hunting framer that remembers the
symbol before: the frame is offered only when that symbol is its first one. -/
theorem readAll_drop_word {w : Frame F} (hw : Clean F F.second w.rest) {n : ℕ} {a : β}
    (ha : w.word[n]? = some a) :
    (readAll F ⟨a, .hunting⟩ (w.word.drop (n + 1))).1.phase = .hunting ∧
      (readAll F ⟨a, .hunting⟩ (w.word.drop (n + 1))).2 =
        if n = 0 then [w.payload] else [] := by
  cases n with
  | zero =>
      have hfirst : a = F.first := by
        simpa [Frame.word, eq_comm] using ha
      have hrest := readAll_rest F.second w.size_length w.payload_ne_nil (c := w.trailer)
      have hdrop : w.word.drop (0 + 1) = F.second :: w.rest := rfl
      rw [hfirst, hdrop, readAll_cons, read_second, Frame.rest, hrest, w.closed]
      simp
  | succ n =>
      have hdrop : w.word.drop (n + 1 + 1) = w.rest.drop n := rfl
      have hget : (F.second :: w.rest)[n]? = some a := by
        simpa [Frame.word] using ha
      obtain ⟨hlt, hval⟩ := List.getElem?_eq_some_iff.1 hget
      have hclean : Clean F a (w.rest.drop n) := by
        have h := List.IsChain.drop hw n
        rwa [List.drop_eq_getElem_cons hlt, hval] at h
      rw [hdrop, readAll_clean rfl hclean]
      simp

/-- Hunting in the middle of a stream of frames: of the frames whose words are
cut after position `n`, with the symbol there remembered, exactly those that
start at `n` or later are offered. -/
theorem readAll_drop_words {ws : List (Frame F)}
    (hclean : ∀ w ∈ ws, Clean F F.second w.rest) {n : ℕ} {a : β}
    (ha : (words ws)[n]? = some a) :
    ∃ lost later, ws = lost ++ later ∧
      (readAll F ⟨a, .hunting⟩ ((words ws).drop (n + 1))).1.phase = .hunting ∧
      (readAll F ⟨a, .hunting⟩ ((words ws).drop (n + 1))).2 = later.map Frame.payload ∧
      ∀ lost' w later', ws = lost' ++ w :: later' → n ≤ (words lost').length →
        lost.length ≤ lost'.length := by
  induction ws generalizing n with
  | nil => simp at ha
  | cons w ws ih =>
      by_cases hin : n < w.word.length
      · rw [words_cons, List.getElem?_append_left hin] at ha
        obtain ⟨hph, hoff⟩ := readAll_drop_word (hclean w List.mem_cons_self) ha
        have hrest := readAll_words ws hph
        have hdrop : (words (w :: ws)).drop (n + 1) =
            w.word.drop (n + 1) ++ words ws := by
          rw [words_cons, List.drop_append_of_le_length hin]
        rw [hdrop, readAll_append, hoff]
        by_cases hzero : n = 0
        · exact ⟨[], w :: ws, rfl, hrest.1, by rw [if_pos hzero, hrest.2]; rfl, by simp⟩
        · refine ⟨[w], ws, rfl, hrest.1, by rw [if_neg hzero, hrest.2]; rfl, ?_⟩
          intro lost' w' later' _ hle
          cases lost' with
          | nil =>
              rw [words_nil, List.length_nil] at hle
              omega
          | cons => simp
      · obtain ⟨m, rfl⟩ := Nat.exists_eq_add_of_le (Nat.le_of_not_lt hin)
        have hget : (words ws)[m]? = some a := by
          rw [words_cons, List.getElem?_append_right (Nat.le_add_right _ _),
            Nat.add_sub_cancel_left] at ha
          exact ha
        obtain ⟨lost, later, rfl, hph, hoff, hbound⟩ :=
          ih (fun v hv => hclean v (List.mem_cons_of_mem w hv)) hget
        rw [Nat.add_assoc, words_drop_cons]
        refine ⟨w :: lost, later, rfl, hph, hoff, ?_⟩
        intro lost' w' later' hsplit hle
        cases lost' with
        | nil =>
            have := w.length_word
            rw [words_nil, List.length_nil] at hle
            omega
        | cons v lost' =>
            simp only [List.cons_append, List.cons.injEq] at hsplit
            obtain ⟨rfl, hsplit⟩ := hsplit
            rw [words_cons, List.length_append] at hle
            have := hbound lost' w' later' hsplit (by omega)
            simpa using this

/-- The number of symbols a frame in progress still takes, when `l` is the next
symbol read. -/
def debt (F : Format β) (l : β) : Phase β → ℕ
  | .hunting => 0
  | .length => F.size l + 2
  | .body n got => n - got.length + 1

def Phase.Sound : Phase β → Prop
  | .body n got => got.length ≤ n
  | _ => True

theorem readAll_body_debt (a : β) {n : ℕ} {got : List β} (h : got.length ≤ n)
    (bs : List β) :
    (bs.length ≤ n - got.length ∧ (readAll F ⟨a, .body n got⟩ bs).2 = []) ∨
      ∃ b junk, bs[n - got.length]? = some b ∧ junk.length ≤ 1 ∧
        readAll F ⟨a, .body n got⟩ (bs.take (n - got.length + 1)) =
          (⟨b, .hunting⟩, junk) := by
  rcases Nat.lt_or_ge (n - got.length) bs.length with hlt | hge
  · right
    have hget : bs[n - got.length]? = some bs[n - got.length] := by
      simp [hlt]
    have hread := readAll_body_last (F := F) a bs[n - got.length]
      (by rw [List.length_take]; omega :
        got.length + (bs.take (n - got.length)).length = n)
    have htake : bs.take (n - got.length + 1) =
        bs.take (n - got.length) ++ [bs[n - got.length]] := by
      rw [List.take_add_one, hget, Option.toList_some]
    rw [← htake] at hread
    exact ⟨_, _, hget, by split <;> simp, hread⟩
  · left
    exact ⟨hge, by rw [readAll_body a (by omega)]⟩

/-- A frame in progress takes `debt` symbols, offers at most one payload and then
hunts; with fewer symbols it offers nothing. -/
theorem readAll_debt {f : Framer β} (hf : f.phase ≠ .hunting) (hs : f.phase.Sound)
    {l : β} (hl : F.size l ≠ 0) (bs : List β) :
    ((l :: bs).length < debt F l f.phase ∧ (readAll F f (l :: bs)).2 = []) ∨
      ∃ n a junk, n + 1 = debt F l f.phase ∧ (l :: bs)[n]? = some a ∧
        junk.length ≤ 1 ∧
        readAll F f ((l :: bs).take (n + 1)) = (⟨a, .hunting⟩, junk) := by
  obtain ⟨a, ph⟩ := f
  cases ph with
  | hunting => exact absurd rfl hf
  | length =>
      have hlen : readAll F ⟨a, .length⟩ (l :: bs) =
          readAll F ⟨l, .body (F.size l) []⟩ bs := by
        rw [readAll_cons, read_length, if_neg hl]
        rfl
      have hnil : ([] : List β).length ≤ F.size l := Nat.zero_le _
      rcases readAll_body_debt (F := F) l hnil bs with
        ⟨hle, hoff⟩ | ⟨b, junk, hget, hjunk, hread⟩
      · left
        refine ⟨?_, by rw [hlen]; exact hoff⟩
        simp [debt] at hle ⊢
        omega
      · right
        refine ⟨F.size l + 1, b, junk, rfl, by simpa using hget, hjunk, ?_⟩
        rw [List.take_succ_cons, readAll_cons, read_length, if_neg hl]
        simp at hread
        simp [hread]
  | body n got =>
      rcases readAll_body_debt (F := F) a hs (l :: bs) with
        ⟨hle, hoff⟩ | ⟨b, junk, hget, hjunk, hread⟩
      · exact Or.inl ⟨Nat.lt_succ_of_le hle, hoff⟩
      · exact Or.inr ⟨_, b, junk, rfl, hget, hjunk, hread⟩

/-- From any framer, a stream of frames with the sync pair at frame starts only
offers at most one stray payload and then the payloads of a suffix of the frames,
which contains every frame that starts at the last symbol of the frame in progress
or later, and all of them if there was none in progress. -/
theorem readAll_resync {ws : List (Frame F)} (honly : OnlyAtStarts ws) {f : Framer β}
    (hs : f.phase.Sound) (hfirst : F.size F.first ≠ 0) :
    ∃ junk lost later, ws = lost ++ later ∧ junk.length ≤ 1 ∧
      (readAll F f (words ws)).2 = junk ++ later.map Frame.payload ∧
      (∀ lost' w later', ws = lost' ++ w :: later' →
        debt F F.first f.phase ≤ (words lost').length + 1 →
          lost.length ≤ lost'.length) ∧
      (f.phase = .hunting → junk = [] ∧ lost = []) := by
  by_cases hf : f.phase = .hunting
  · exact ⟨[], [], ws, rfl, by simp, (readAll_words ws hf).2, by simp, by simp⟩
  cases ws with
  | nil => exact ⟨[], [], [], rfl, by simp, rfl, by simp, by simp⟩
  | cons w ws =>
      have hclean : ∀ v ∈ w :: ws, Clean F F.second v.rest := by
        intro v hv
        obtain ⟨before, later, hsplit⟩ := List.append_of_mem hv
        exact OnlyAtStarts.clean_rest (hsplit ▸ honly)
      have hword : words (w :: ws) = F.first :: (F.second :: w.rest ++ words ws) := rfl
      rcases readAll_debt hf hs hfirst (F.second :: w.rest ++ words ws) with
        ⟨hlt, hoff⟩ | ⟨n, a, junk, hn, hget, hjunk, hread⟩
      · refine ⟨[], w :: ws, [], by simp, by simp, by rw [hword, hoff]; simp, ?_,
          fun h => absurd h hf⟩
        intro lost' w' later' hsplit hle
        rw [← hword, hsplit, words_append, words_cons, List.length_append,
          List.length_append, Frame.length_word] at hlt
        omega
      · rw [← hword] at hget hread
        obtain ⟨lost, later, hsplit, -, hoff, hbound⟩ := readAll_drop_words hclean hget
        refine ⟨junk, lost, later, hsplit, hjunk, ?_, ?_, fun h => absurd h hf⟩
        · rw [← List.take_append_drop (n + 1) (words (w :: ws)), readAll_append, hread]
          simp only [hoff]
        · intro lost' w' later' hsplit' hle
          exact hbound lost' w' later' hsplit' (by omega)

end Framing
