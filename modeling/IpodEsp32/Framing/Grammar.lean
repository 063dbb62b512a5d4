import IpodEsp32.Framing.RoundTrip

/-!
# Reading as a grammar

`Parses F a xs ps` says without any state what a stream consists of: read behind the
symbol `a` and outside any frame, the signals `xs` are frames with the payloads `ps`,
between symbols that open no frame, frames whose trailer does not close them, lengths
that announce nothing, and fragments that a cut or the end of the stream leaves
unfinished. The rules take a sync pair wherever there is one, so every stream parses in
exactly one way, and the payloads of this parse are what a framer offers
(`parses_iff`).
-/

namespace Framing

variable {β : Type*}

/-- Symbols behind a sync pair that are not a whole frame yet: none, or a length that
announces a payload and no more symbols than it announces. -/
inductive Fragment (F : Format β) : List β → Prop
  | nil : Fragment F []
  | body {l : β} {got : List β} (size_ne : F.size l ≠ 0) (got_le : got.length ≤ F.size l) :
      Fragment F (l :: got)

/-- The signals `xs`, read behind the symbol `a` and outside any frame, carry the
payloads `ps`. In each rule `b` completes a sync pair, or does not. -/
inductive Parses (F : Format β) : β → List (Signal β) → List (List β) → Prop
  | done (a : β) : Parses F a [] []
  | cut {a : β} {xs : List (Signal β)} {ps : List (List β)} (rest : Parses F a xs ps) :
      Parses F a (.cut :: xs) ps
  | noise {a b : β} {xs : List (Signal β)} {ps : List (List β)} (sync : ¬ Sync F a b)
      (rest : Parses F b xs ps) : Parses F a (.symbol b :: xs) ps
  | frame {a b : β} {xs : List (Signal β)} {ps : List (List β)} (w : Frame F)
      (sync : Sync F a b) (rest : Parses F w.trailer xs ps) :
      Parses F a ((b :: w.rest).map .symbol ++ xs) (w.payload :: ps)
  | rejected {a b l c : β} {p : List β} {xs : List (Signal β)} {ps : List (List β)}
      (sync : Sync F a b) (size_eq : F.size l = p.length) (ne_nil : p ≠ [])
      (open_ : F.closes p c = false) (rest : Parses F c xs ps) :
      Parses F a ((b :: l :: (p ++ [c])).map .symbol ++ xs) ps
  | empty {a b l : β} {xs : List (Signal β)} {ps : List (List β)} (sync : Sync F a b)
      (size_eq : F.size l = 0) (rest : Parses F l xs ps) :
      Parses F a ([b, l].map .symbol ++ xs) ps
  | broken {a b : β} {bs : List β} {xs : List (Signal β)} {ps : List (List β)}
      (sync : Sync F a b) (fragment : Fragment F bs)
      (rest : Parses F (bs.getLast?.getD b) xs ps) :
      Parses F a ((b :: bs).map .symbol ++ .cut :: xs) ps
  | unfinished {a b : β} {bs : List β} (sync : Sync F a b) (fragment : Fragment F bs) :
      Parses F a ((b :: bs).map .symbol) []

/-! ### Every stream parses -/

theorem exists_symbols (n : ℕ) (xs : List (Signal β)) :
    (∃ (bs : List β) (rest : List (Signal β)),
        bs.length = n ∧ xs = bs.map .symbol ++ rest) ∨
      (∃ bs : List β, bs.length < n ∧ xs = bs.map .symbol) ∨
        ∃ (bs : List β) (rest : List (Signal β)),
          bs.length < n ∧ xs = bs.map .symbol ++ .cut :: rest := by
  induction n generalizing xs with
  | zero => exact Or.inl ⟨[], xs, rfl, rfl⟩
  | succ n ih =>
      cases xs with
      | nil => exact Or.inr (Or.inl ⟨[], n.succ_pos, rfl⟩)
      | cons x xs =>
          cases x with
          | cut => exact Or.inr (Or.inr ⟨[], xs, n.succ_pos, rfl⟩)
          | symbol b =>
              rcases ih xs with ⟨bs, rest, hlen, rfl⟩ | ⟨bs, hlen, rfl⟩ | ⟨bs, rest, hlen, rfl⟩
              · exact Or.inl ⟨b :: bs, rest, congrArg Nat.succ hlen, rfl⟩
              · exact Or.inr (Or.inl ⟨b :: bs, Nat.succ_lt_succ hlen, rfl⟩)
              · exact Or.inr (Or.inr ⟨b :: bs, rest, Nat.succ_lt_succ hlen, rfl⟩)

variable {F : Format β}

/-- Behind a sync pair there is a parse, if there is one of every shorter stream. -/
theorem exists_parses_sync {a b : β} (sync : Sync F a b) (xs : List (Signal β))
    (ih : ∀ c ys, ys.length ≤ xs.length → ∃ ps, Parses F c ys ps) :
    ∃ ps, Parses F a (.symbol b :: xs) ps := by
  cases xs with
  | nil => exact ⟨[], .unfinished sync .nil⟩
  | cons x xs =>
      cases x with
      | cut =>
          obtain ⟨ps, h⟩ := ih b xs (Nat.le_succ _)
          exact ⟨ps, .broken sync .nil h⟩
      | symbol l =>
          by_cases hsize : F.size l = 0
          · obtain ⟨ps, h⟩ := ih l xs (Nat.le_succ _)
            exact ⟨ps, .empty sync hsize h⟩
          rcases exists_symbols (F.size l + 1) xs with
            ⟨bs, rest, hlen, rfl⟩ | ⟨bs, hlen, rfl⟩ | ⟨bs, rest, hlen, rfl⟩
          · obtain ⟨p, c, rfl⟩ : ∃ p c, bs = p ++ [c] := by
              rcases List.eq_nil_or_concat' bs with rfl | h
              · cases hlen
              · exact h
            have hp : F.size l = p.length := by simpa using hlen.symm
            have hne : p ≠ [] := fun h => hsize (by rw [hp, h, List.length_nil])
            obtain ⟨ps, h⟩ := ih c rest (by simp; omega)
            cases hc : F.closes p c with
            | true => exact ⟨p :: ps, .frame ⟨l, p, c, hp, hne, hc⟩ sync h⟩
            | false => exact ⟨ps, .rejected sync hp hne hc h⟩
          · exact ⟨[], .unfinished sync (.body hsize (Nat.le_of_lt_succ hlen))⟩
          · obtain ⟨ps, h⟩ := ih ((l :: bs).getLast?.getD b) rest (by simp; omega)
            exact ⟨ps, .broken sync (.body hsize (Nat.le_of_lt_succ hlen)) h⟩

theorem exists_parses (a : β) (xs : List (Signal β)) : ∃ ps, Parses F a xs ps := by
  induction hn : xs.length using Nat.strong_induction_on generalizing a xs with
  | _ n ih =>
      subst hn
      cases xs with
      | nil => exact ⟨[], .done a⟩
      | cons x xs =>
          have hrest : ∀ c ys, ys.length ≤ xs.length → ∃ ps, Parses F c ys ps :=
            fun c ys hle => ih ys.length (Nat.lt_succ_of_le hle) c ys rfl
          cases x with
          | cut =>
              obtain ⟨ps, h⟩ := hrest a xs le_rfl
              exact ⟨ps, .cut h⟩
          | symbol b =>
              by_cases sync : Sync F a b
              · exact exists_parses_sync sync xs hrest
              · obtain ⟨ps, h⟩ := hrest b xs le_rfl
                exact ⟨ps, .noise sync h⟩

/-! ### A parse is what a framer offers -/

variable [DecidableEq β]

theorem feed_symbols_append (f : Framer β) (bs : List β) (xs : List (Signal β)) :
    (feed F f (bs.map .symbol ++ xs)).2 =
      (readAll F f bs).2 ++ (feed F (readAll F f bs).1 xs).2 := by
  rw [feed_append]
  rfl

theorem readAll_sync {a b : β} (h : Sync F a b) (bs : List β) :
    readAll F ⟨a, .hunting⟩ (b :: bs) = readAll F ⟨b, .length⟩ bs := by
  rw [readAll_cons, read_hunting, if_pos h]
  rfl

theorem readAll_fragment {bs : List β} (h : Fragment F bs) (b : β) :
    ∃ phase, readAll F ⟨b, .length⟩ bs = (⟨bs.getLast?.getD b, phase⟩, []) := by
  cases h with
  | nil => exact ⟨.length, rfl⟩
  | body size_ne got_le =>
      rename_i l got
      have hbody : readAll F ⟨l, .body (F.size l) []⟩ got =
          (⟨got.getLast?.getD l, .body (F.size l) got⟩, []) :=
        readAll_body l (by simpa using got_le)
      refine ⟨.body (F.size l) got, ?_⟩
      rw [readAll_cons, read_length, if_neg size_ne, hbody, List.getLast?_cons]
      rfl

theorem feed_of_parses {a : β} {xs : List (Signal β)} {ps : List (List β)}
    (h : Parses F a xs ps) : (feed F ⟨a, .hunting⟩ xs).2 = ps := by
  induction h with
  | done a => rfl
  | cut rest ih => exact ih
  | noise sync rest ih =>
      rw [feed_cons, step, read_hunting, if_neg sync]
      exact ih
  | frame w sync rest ih =>
      rw [feed_symbols_append, readAll_sync sync, Frame.rest,
        readAll_rest _ w.size_length w.payload_ne_nil, if_pos w.closed, ih]
      rfl
  | rejected sync size_eq ne_nil open_ rest ih =>
      rw [feed_symbols_append, readAll_sync sync, readAll_rest _ size_eq ne_nil, ih, open_]
      rfl
  | empty sync size_eq rest ih =>
      rw [feed_symbols_append, readAll_sync sync, readAll_cons, read_length, if_pos size_eq]
      exact ih
  | broken sync fragment rest ih =>
      obtain ⟨phase, hread⟩ := readAll_fragment fragment _
      rw [feed_symbols_append, readAll_sync sync, hread]
      exact ih
  | unfinished sync fragment =>
      obtain ⟨phase, hread⟩ := readAll_fragment fragment _
      have hall := congrArg Prod.snd ((readAll_sync sync _).trans hread)
      exact hall

/-- A stream parses as what a hunting framer offers, and as nothing else. -/
theorem parses_iff (a : β) (xs : List (Signal β)) (ps : List (List β)) :
    Parses F a xs ps ↔ (feed F ⟨a, .hunting⟩ xs).2 = ps := by
  refine ⟨feed_of_parses, fun h => ?_⟩
  obtain ⟨ps', hps'⟩ := exists_parses (F := F) a xs
  rwa [← h, feed_of_parses hps']

end Framing
