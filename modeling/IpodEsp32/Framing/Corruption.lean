import IpodEsp32.Framing.RoundTrip

/-!
# Frames with a changed symbol

A `Change` replaces the symbol at one place of a list by a different one, and an
`Arrival` is a frame that arrives whole or with one symbol of its payload or trailer
changed. A format detects changes if no changed frame is closed by its trailer. Since
the announced length is not touched, a framer of such a format reads past a changed
frame in step: it drops this frame and no other, whatever sync pairs the change
created.
-/

namespace Framing

variable {β : Type*}

/-- The symbol at one place of `bs` replaced by a different one. -/
structure Change (bs : List β) where
  index : ℕ
  index_lt : index < bs.length
  symbol : β
  symbol_ne : symbol ≠ bs[index]

def Change.apply {bs : List β} (e : Change bs) : List β := bs.set e.index e.symbol

@[simp] theorem Change.length_apply {bs : List β} (e : Change bs) :
    e.apply.length = bs.length :=
  List.length_set

/-- A frame as it arrives: whole, or with one symbol after its length changed. -/
structure Arrival (F : Format β) where
  frame : Frame F
  change : Option (Change (frame.payload ++ [frame.trailer]))

variable {F : Format β}

def Arrival.body (a : Arrival F) : List β :=
  a.change.elim (a.frame.payload ++ [a.frame.trailer]) Change.apply

def Arrival.word (a : Arrival F) : List β :=
  F.first :: F.second :: a.frame.length :: a.body

def Arrival.intact (a : Arrival F) : Bool := a.change.isNone

/-- No trailer closes a payload when one symbol of a frame is changed. -/
def Format.DetectsChange (F : Format β) : Prop :=
  ∀ (w : Frame F) (e : Change (w.payload ++ [w.trailer])) (p : List β) (c : β),
    e.apply = p ++ [c] → F.closes p c = false

/-- What arrives has the shape of a frame of the length announced, and its trailer
closes it exactly if nothing was changed. -/
theorem Arrival.exists_body_eq (hF : F.DetectsChange) (a : Arrival F) :
    ∃ p c, a.body = p ++ [c] ∧ p.length = a.frame.payload.length ∧
      F.closes p c = a.intact ∧ (a.intact = true → p = a.frame.payload) := by
  rcases a with ⟨w, _ | e⟩
  · exact ⟨w.payload, w.trailer, rfl, rfl, w.closed, fun _ => rfl⟩
  · have hlen : e.apply.length = w.payload.length + 1 := by simp
    obtain ⟨p, c, hpc⟩ : ∃ p c, e.apply = p ++ [c] := by
      rcases List.eq_nil_or_concat' e.apply with h | ⟨p, c, h⟩
      · simp [h] at hlen
      · exact ⟨p, c, h⟩
    refine ⟨p, c, hpc, by simpa [hpc] using hlen, hF w e p c hpc, fun h => ?_⟩
    cases h

variable [DecidableEq β]

theorem readAll_arrival (hF : F.DetectsChange) (x : β) (a : Arrival F) :
    ∃ c, readAll F ⟨x, .hunting⟩ a.word =
      (⟨c, .hunting⟩, if a.intact then [a.frame.payload] else []) := by
  obtain ⟨p, c, hbody, hlen, hcloses, hpayload⟩ := a.exists_body_eq hF
  have hsize : F.size a.frame.length = p.length := by rw [hlen, a.frame.size_length]
  have hne : p ≠ [] := by
    rw [← List.length_pos_iff, hlen, List.length_pos_iff]
    exact a.frame.payload_ne_nil
  refine ⟨c, ?_⟩
  rw [Arrival.word, hbody, readAll_framed x hsize hne, hcloses]
  by_cases h : a.intact = true
  · rw [if_pos h, if_pos h, hpayload h]
  · rw [if_neg h, if_neg h]

/-- The payloads of the intact frames are offered in order, nothing else is, and the
framer ends hunting. -/
theorem readAll_arrivals (hF : F.DetectsChange) (as : List (Arrival F)) {f : Framer β}
    (hf : f.phase = .hunting) :
    (readAll F f (as.map Arrival.word).flatten).1.phase = .hunting ∧
      (readAll F f (as.map Arrival.word).flatten).2 =
        (as.filter Arrival.intact).map fun a => a.frame.payload := by
  induction as generalizing f with
  | nil => exact ⟨hf, rfl⟩
  | cons a as ih =>
      rcases f with ⟨x, phase⟩
      simp only at hf
      subst hf
      obtain ⟨c, hread⟩ := readAll_arrival hF x a
      obtain ⟨hphase, hoff⟩ := ih (f := ⟨c, .hunting⟩) rfl
      rw [List.map_cons, List.flatten_cons, readAll_append, hread]
      refine ⟨hphase, ?_⟩
      rw [hoff, List.filter_cons]
      by_cases h : a.intact = true
      · rw [if_pos h, if_pos h, List.map_cons]
        rfl
      · rw [if_neg h, if_neg h]
        rfl

end Framing
