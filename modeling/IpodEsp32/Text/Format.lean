import Mathlib.Data.List.Basic

/-!
# Numbers and lines of a text

A text is a list of bytes. Numbers are written in decimal, signed words as `%d` does, and
read back from the front of a text (`readD_formatD`); `lines` are the complete lines of a
text, those that are ended by a given byte.
-/

namespace Text

def ascii (cs : List Char) : List UInt8 := cs.map fun c => UInt8.ofNat c.toNat

def isDigit (b : UInt8) : Bool := 0x30 ≤ b && b ≤ 0x39

/-! ### Numbers -/

def decimal (n : ℕ) : List UInt8 := ascii (Nat.toDigits 10 n)

/-- The number at the front of a text, and what follows it. -/
def readDecimal (text : List UInt8) : ℕ × List UInt8 :=
  ((text.takeWhile isDigit).foldl (fun n b => 10 * n + (b.toNat - 0x30)) 0,
    text.dropWhile isDigit)

theorem isDigit_char {c : Char} (h : c.isDigit = true) :
    (UInt8.ofNat c.toNat).toNat = c.toNat ∧ isDigit (UInt8.ofNat c.toNat) = true := by
  simp only [Char.isDigit, Bool.and_eq_true, decide_eq_true_eq, UInt32.le_iff_toNat_le] at h
  have hlow : 48 ≤ c.toNat := h.1
  have hhigh : c.toNat ≤ 57 := h.2
  have hbyte : (UInt8.ofNat c.toNat).toNat = c.toNat := by
    rw [UInt8.toNat_ofNat']
    omega
  refine ⟨hbyte, ?_⟩
  simp only [isDigit, Bool.and_eq_true, decide_eq_true_eq, UInt8.le_iff_toNat_le, hbyte]
  exact ⟨hlow, hhigh⟩

theorem isDigit_of_mem_decimal {n : ℕ} {b : UInt8} (hb : b ∈ decimal n) :
    isDigit b = true := by
  obtain ⟨c, hc, rfl⟩ := List.mem_map.1 hb
  exact (isDigit_char (Nat.isDigit_of_mem_toDigits (by decide) (by decide) hc)).2

theorem decimal_ne_nil (n : ℕ) : decimal n ≠ [] := by
  simp [decimal, ascii, Nat.toDigits_ne_nil]

theorem foldl_ascii {cs : List Char} (hcs : ∀ c ∈ cs, c.isDigit = true) (n : ℕ) :
    (ascii cs).foldl (fun n b => 10 * n + (b.toNat - 0x30)) n = Nat.ofDigitChars 10 cs n := by
  induction cs generalizing n with
  | nil => rfl
  | cons c cs ih =>
      rw [List.forall_mem_cons] at hcs
      rw [Nat.ofDigitChars_cons, ← ih hcs.2]
      simp [ascii, (isDigit_char hcs.1).1]

theorem readDecimal_decimal (n : ℕ) {rest : List UInt8}
    (hrest : ∀ b, rest.head? = some b → isDigit b = false) :
    readDecimal (decimal n ++ rest) = (n, rest) := by
  have hdigits : ∀ b ∈ decimal n, isDigit b = true := fun b hb => isDigit_of_mem_decimal hb
  have htake : rest.takeWhile isDigit = [] := by
    cases rest with
    | nil => rfl
    | cons b rest => simp [hrest b rfl]
  have hdrop : rest.dropWhile isDigit = rest := by
    cases rest with
    | nil => rfl
    | cons b rest => simp [hrest b rfl]
  rw [readDecimal, List.takeWhile_append_of_pos hdigits, List.dropWhile_append_of_pos hdigits,
    htake, hdrop, List.append_nil, decimal, foldl_ascii fun c hc =>
      Nat.isDigit_of_mem_toDigits (by decide) (by decide) hc]
  simp

/-- A word as `%d` writes it. -/
def formatD (w : UInt32) : List UInt8 :=
  if w.toNat < 0x80000000 then decimal w.toNat else 0x2D :: decimal (0x100000000 - w.toNat)

/-- The signed number at the front of a text as a word, and what follows it. -/
def readD (text : List UInt8) : UInt32 × List UInt8 :=
  match text with
  | 0x2D :: text => (UInt32.ofNat (0x100000000 - (readDecimal text).1), (readDecimal text).2)
  | text => (UInt32.ofNat (readDecimal text).1, (readDecimal text).2)

/-- A word is read back as it was written, if no digit follows it. -/
theorem readD_formatD (w : UInt32) {rest : List UInt8}
    (hrest : ∀ b, rest.head? = some b → isDigit b = false) :
    readD (formatD w ++ rest) = (w, rest) := by
  have hlt := w.toNat_lt
  rw [formatD]
  split
  · -- a number without a sign begins with a digit
    obtain ⟨b, digits, hdecimal⟩ := List.exists_cons_of_ne_nil (decimal_ne_nil w.toNat)
    have hb : isDigit b = true := isDigit_of_mem_decimal (n := w.toNat) (by simp [hdecimal])
    have hplain : readD (decimal w.toNat ++ rest) =
        (UInt32.ofNat (readDecimal (decimal w.toNat ++ rest)).1,
          (readDecimal (decimal w.toNat ++ rest)).2) := by
      rw [hdecimal, List.cons_append, readD]
      rintro _ ⟨⟩
      cases hb
    rw [hplain, readDecimal_decimal _ hrest, UInt32.ofNat_toNat]
  · rw [List.cons_append, readD, readDecimal_decimal _ hrest]
    have hback : 0x100000000 - (0x100000000 - w.toNat) = w.toNat := by omega
    rw [hback, UInt32.ofNat_toNat]

/-! ### Lines -/

/-- The complete lines of a text, without the byte that ends them. -/
def lines (stop : UInt8) (text : List UInt8) : List (List UInt8) :=
  (text.splitOn stop).dropLast

theorem lines_append_stop {stop : UInt8} {line : List UInt8} (hline : stop ∉ line)
    (text : List UInt8) : lines stop (line ++ stop :: text) = line :: lines stop text := by
  have hplain : ∀ b ∈ line, (b == stop) = false := by
    intro b hb
    rw [beq_eq_false_iff_ne]
    rintro rfl
    exact hline hb
  rw [lines, List.splitOn_eq_splitOnP,
    List.splitOnP_append_cons_of_forall_mem hplain stop (beq_self_eq_true stop),
    List.dropLast_cons_of_ne_nil (List.splitOnP_ne_nil _ _)]
  rfl

theorem lines_flatMap {stop : UInt8} {ls : List (List UInt8)} (hls : ∀ l ∈ ls, stop ∉ l) :
    lines stop (ls.flatMap fun l => l ++ [stop]) = ls := by
  induction ls with
  | nil => rfl
  | cons l ls ih =>
      rw [List.forall_mem_cons] at hls
      rw [List.flatMap_cons, List.append_assoc, List.singleton_append,
        lines_append_stop hls.1, ih hls.2]

end Text
