import IpodEsp32.Framing.Framer
import Mathlib.Data.List.Pairwise

/-!
# Every offer is justified by what was read

`JustifiedAt F bs cs i o` says that the frame which justifies the offer `o`
stands at position `i` of the symbols `bs`, and that none of the cuts `cs` fell
between the reading of its second sync symbol and that of its trailer. The
invariant `Tracks` ties the phase of the framer to the symbols read so far; it
holds along every list of signals, whatever the symbols are and wherever the
cuts fall.
-/

namespace Framing

variable {β : Type*}

/-- The offer `o`, stamped with the number of symbols read, is the frame that
starts at position `i` of `bs`, with no cut inside. -/
def JustifiedAt (F : Format β) (bs : List β) (cs : List ℕ) (i : ℕ)
    (o : ℕ × List β) : Prop :=
  ∃ before l c after,
    bs = before ++ F.first :: F.second :: l :: (o.2 ++ c :: after) ∧
      before.length = i ∧ o.1 = i + o.2.length + 4 ∧
      F.size l = o.2.length ∧ o.2 ≠ [] ∧ F.closes o.2 c = true ∧
      ∀ d ∈ cs, ¬ (i + 2 ≤ d ∧ d < o.1)

theorem JustifiedAt.unique {F : Format β} {bs : List β} {cs : List ℕ} {i : ℕ}
    {o o' : ℕ × List β} (h : JustifiedAt F bs cs i o) (h' : JustifiedAt F bs cs i o') :
    o = o' := by
  obtain ⟨before, l, c, after, hbs, hi, hn, hl, -⟩ := h
  obtain ⟨before', l', c', after', hbs', hi', hn', hl', -⟩ := h'
  rw [hbs] at hbs'
  obtain ⟨-, htail⟩ := List.append_inj hbs' (hi.trans hi'.symm)
  simp only [List.cons.injEq, true_and] at htail
  obtain ⟨rfl, htail⟩ := htail
  obtain ⟨hp, -⟩ := List.append_inj htail (hl.symm.trans hl')
  refine Prod.ext ?_ hp
  rw [hn, hn', hp]

/-- What the framer knows of the symbols `bs` read so far and the cuts `cs` met
so far: the remembered symbol is the last one, and a frame in progress stands at
the end of `bs`, uncut since its second sync symbol. -/
structure Tracks (F : Format β) (bs : List β) (cs : List ℕ) (f : Framer β) : Prop where
  prev_first : f.prev = F.first → ∃ before, bs = before ++ [F.first]
  length_phase : f.phase = .length →
    ∃ before, bs = before ++ [F.first, F.second] ∧ ∀ d ∈ cs, d < before.length + 2
  body_phase : ∀ n got, f.phase = .body n got →
    ∃ before l, bs = before ++ F.first :: F.second :: l :: got ∧
      F.size l = n ∧ n ≠ 0 ∧ got.length ≤ n ∧ ∀ d ∈ cs, d < before.length + 2

theorem tracks_start {F : Format β} {a : β} (ha : a ≠ F.first) :
    Tracks F [] [] ⟨a, .hunting⟩ where
  prev_first h := absurd h ha
  length_phase h := by simp at h
  body_phase n got h := by simp at h

theorem Tracks.symbol_prev {F : Format β} {bs : List β} (b : β) (h : b = F.first) :
    ∃ before, bs ++ [b] = before ++ [F.first] :=
  ⟨bs, by rw [h]⟩

variable [DecidableEq β] {F : Format β}

theorem Tracks.cut {bs : List β} {cs : List ℕ} {f : Framer β} (h : Tracks F bs cs f) :
    Tracks F bs (cs ++ [bs.length]) (step F f .cut).1 where
  prev_first := h.prev_first
  length_phase h' := by simp [step] at h'
  body_phase n got h' := by simp [step] at h'

theorem Tracks.symbol {bs : List β} {cs : List ℕ} {f : Framer β} (h : Tracks F bs cs f)
    (hcs : ∀ d ∈ cs, d ≤ bs.length) (b : β) :
    Tracks F (bs ++ [b]) cs (read F f b).1 := by
  obtain ⟨a, ph⟩ := f
  cases ph with
  | hunting =>
      rw [read_hunting]
      refine ⟨Tracks.symbol_prev b, ?_, ?_⟩
      · intro hph
        by_cases hs : Sync F a b
        · obtain ⟨before, rfl⟩ := h.prev_first hs.1
          refine ⟨before, by simp [hs.2], fun d hd => ?_⟩
          have := hcs d hd
          simp at this
          omega
        · simp [hs] at hph
      · intro n got hph
        by_cases hs : Sync F a b <;> simp [hs] at hph
  | length =>
      rw [read_length]
      obtain ⟨before, rfl, hcut⟩ := h.length_phase rfl
      refine ⟨Tracks.symbol_prev b, ?_, ?_⟩
      · intro hph
        by_cases hz : F.size b = 0 <;> simp [hz] at hph
      · intro n got hph
        by_cases hz : F.size b = 0
        · simp [hz] at hph
        · simp only [hz, if_false, Phase.body.injEq] at hph
          obtain ⟨rfl, rfl⟩ := hph
          exact ⟨before, b, by simp, rfl, hz, by simp, hcut⟩
  | body n got =>
      obtain ⟨before, l, rfl, hl, hn, hgot, hcut⟩ := h.body_phase n got rfl
      by_cases hlt : got.length < n
      · rw [read_body_of_lt F a b hlt]
        refine ⟨Tracks.symbol_prev b, fun hph => by simp at hph, ?_⟩
        intro m got' hph
        simp only [Phase.body.injEq] at hph
        obtain ⟨rfl, rfl⟩ := hph
        exact ⟨before, l, by simp, hl, hn, by simp; omega, hcut⟩
      · have hlen : got.length = n := by omega
        subst hlen
        rw [read_body_last]
        exact ⟨Tracks.symbol_prev b, fun hph => by simp at hph,
          fun m got' hph => by simp at hph⟩

/-- The payload completed by a symbol is justified by the symbols read so far,
whatever is read and cut afterwards. -/
theorem Tracks.justified {bs : List β} {cs : List ℕ} {f : Framer β}
    (h : Tracks F bs cs f) {b : β} {p : List β} (hp : (read F f b).2 = some p)
    (after : List β) {later : List ℕ} (hlater : ∀ d ∈ later, bs.length + 1 ≤ d) :
    ∃ i, JustifiedAt F (bs ++ b :: after) (cs ++ later) i (bs.length + 1, p) := by
  obtain ⟨a, ph⟩ := f
  cases ph with
  | hunting => simp [read] at hp
  | length => simp [read] at hp
  | body n got =>
      obtain ⟨before, l, rfl, hl, hn, hgot, hcut⟩ := h.body_phase n got rfl
      by_cases hlt : got.length < n
      · simp [read_body_of_lt F a b hlt] at hp
      · have hlen : got.length = n := by omega
        subst hlen
        rw [read_body_last] at hp
        cases hc : F.closes got b with
        | false => simp [hc] at hp
        | true =>
            simp only [hc, if_true, Option.some.injEq] at hp
            subst hp
            refine ⟨before.length, before, l, b, after, by simp, rfl, ?_, hl, ?_, hc, ?_⟩
            · simp
              omega
            · exact fun hnil => hn (List.length_eq_zero_iff.2 hnil)
            · intro d hd
              rcases List.mem_append.1 hd with hd | hd
              · have := hcut d hd
                omega
              · have := hlater d hd
                omega

theorem Tracks.stamped_justified {bs : List β} {cs : List ℕ} {f : Framer β}
    (h : Tracks F bs cs f) (hcs : ∀ d ∈ cs, d ≤ bs.length) (xs : List (Signal β)) :
    ∀ o ∈ stamped F bs.length f xs,
      ∃ i, JustifiedAt F (bs ++ symbols xs) (cs ++ cuts bs.length xs) i o := by
  induction xs generalizing bs cs f with
  | nil => simp [stamped]
  | cons x xs ih =>
      intro o ho
      cases x with
      | cut =>
          have hcs' : ∀ d ∈ cs ++ [bs.length], d ≤ bs.length := by
            simpa [or_imp, forall_and] using hcs
          have ho' : o ∈ stamped F bs.length (step F f .cut).1 xs := by
            simpa [stamped, step] using ho
          obtain ⟨i, hi⟩ := ih h.cut hcs' o ho'
          exact ⟨i, by simpa [cuts] using hi⟩
      | symbol b =>
          rw [stamped, List.mem_append] at ho
          rcases ho with ho | ho
          · obtain ⟨p, hp, rfl⟩ := List.mem_map.1 ho
            have hread : (read F f b).2 = some p := by simpa [step] using hp
            exact h.justified hread (symbols xs) fun d hd => le_of_mem_cuts hd
          · have hcs' : ∀ d ∈ cs, d ≤ (bs ++ [b]).length := by
              intro d hd
              have := hcs d hd
              simp
              omega
            have hlen : (bs ++ [b]).length = bs.length + 1 := by simp
            obtain ⟨i, hi⟩ := ih (h.symbol hcs b) hcs' o (by rwa [hlen])
            rw [hlen] at hi
            exact ⟨i, by simpa [cuts] using hi⟩

theorem lt_of_mem_stamped {n : ℕ} {f : Framer β} {xs : List (Signal β)} {o : ℕ × List β}
    (h : o ∈ stamped F n f xs) : n < o.1 := by
  induction xs generalizing n f with
  | nil => simp [stamped] at h
  | cons x xs ih =>
      rw [stamped, List.mem_append] at h
      cases x with
      | cut =>
          rcases h with h | h
          · simp [step] at h
          · exact ih h
      | symbol b =>
          rcases h with h | h
          · obtain ⟨p, -, rfl⟩ := List.mem_map.1 h
            exact Nat.lt_succ_self n
          · exact Nat.lt_of_succ_lt (ih h)

theorem stamped_pairwise (n : ℕ) (f : Framer β) (xs : List (Signal β)) :
    (stamped F n f xs).Pairwise fun o o' => o.1 < o'.1 := by
  induction xs generalizing n f with
  | nil => exact List.Pairwise.nil
  | cons x xs ih =>
      rw [stamped, List.pairwise_append]
      refine ⟨?_, ih _ _, ?_⟩
      · cases (step F f x).2 <;> simp
      · intro o ho o' ho'
        obtain ⟨p, -, rfl⟩ := List.mem_map.1 ho
        exact lt_of_mem_stamped ho'

/-- From a hunting framer that does not remember the
first sync symbol: every offer is justified, offers come in the order of their
trailers, and no position justifies two of them. -/
theorem stamped_sound {a : β} (ha : a ≠ F.first) (xs : List (Signal β)) :
    (∀ o ∈ stamped F 0 ⟨a, .hunting⟩ xs,
        ∃ i, JustifiedAt F (symbols xs) (cuts 0 xs) i o) ∧
      (stamped F 0 ⟨a, .hunting⟩ xs).Pairwise (fun o o' => o.1 < o'.1) := by
  refine ⟨?_, stamped_pairwise 0 _ xs⟩
  simpa using (tracks_start ha).stamped_justified (by simp) xs

end Framing
