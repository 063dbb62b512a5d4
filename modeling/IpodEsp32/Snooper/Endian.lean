import Mathlib.Algebra.BigOperators.Fin
import Mathlib.Data.List.GetD
import Mathlib.Data.Nat.Digits.Defs

/-!
# Byte order

The ESP32 stores an unsigned type of `n` bytes with its low byte first; the iPod
protocol writes the high byte first. A value of such a type is a natural number
below `256 ^ n`, `toBytes n` are the bytes it is stored as, and `swapEndian n` is
`swap_endian` at a type of `n` bytes: it copies the bytes of one union to another in
reverse.

`bigEndian` is the number that the protocol writes as a list of bytes. Loading bytes
and swapping them yields this number (`swapEndian_littleEndian_eq_bigEndian`), and
swapping twice changes no value of the type (`swapEndian_swapEndian`).
-/

namespace IpodEsp32

namespace Snooper

/-- The value stored as `bytes`, low byte first. -/
def littleEndian : List UInt8 → ℕ
  | [] => 0
  | b :: bytes => b.toNat + 256 * littleEndian bytes

def toBytes : ℕ → ℕ → List UInt8
  | 0, _ => []
  | n + 1, u => UInt8.ofNat u :: toBytes n (u / 256)

/-- The number written as `bytes`, high byte first. -/
def bigEndian (bytes : List UInt8) : ℕ :=
  ∑ k : Fin bytes.length, (bytes.get k).toNat * 256 ^ (bytes.length - 1 - k)

/-- `swap_endian` at a type of `n` bytes: `dest.u8[k] = source.u8[n - k - 1]`. -/
def swapEndian (n u : ℕ) : ℕ :=
  let source := toBytes n u
  let dest := (List.range n).map fun k => source.getD (n - k - 1) 0
  littleEndian dest

@[simp] theorem length_toBytes (n u : ℕ) : (toBytes n u).length = n := by
  induction n generalizing u with
  | zero => rfl
  | succ n ih => rw [toBytes, List.length_cons, ih]

theorem toBytes_littleEndian (bytes : List UInt8) :
    toBytes bytes.length (littleEndian bytes) = bytes := by
  induction bytes with
  | nil => rfl
  | cons b bytes ih =>
      have hb := b.toNat_lt
      have hdiv : (b.toNat + 256 * littleEndian bytes) / 256 = littleEndian bytes := by
        omega
      have hlow : UInt8.ofNat (b.toNat + 256 * littleEndian bytes) = b := by
        rw [← UInt8.toNat_inj, UInt8.toNat_ofNat']
        omega
      rw [List.length_cons, littleEndian, toBytes, hdiv, ih, hlow]

theorem swapEndian_eq_littleEndian_reverse (n u : ℕ) :
    swapEndian n u = littleEndian (toBytes n u).reverse := by
  have hlist : ((List.range n).map fun k => (toBytes n u).getD (n - k - 1) 0) =
      (toBytes n u).reverse := by
    refine List.ext_getElem (by simp) fun k hk _ => ?_
    have hlt : k < n := by simpa using hk
    have hindex : (toBytes n u).length - 1 - k = n - k - 1 := by
      rw [length_toBytes, Nat.sub_right_comm]
    rw [List.getElem_map, List.getElem_range, List.getElem_reverse,
      List.getD_eq_getElem _ _ (by rw [length_toBytes]; omega)]
    simp only [hindex]
  rw [swapEndian, hlist]

theorem swapEndian_littleEndian (bytes : List UInt8) :
    swapEndian bytes.length (littleEndian bytes) = littleEndian bytes.reverse := by
  rw [swapEndian_eq_littleEndian_reverse, toBytes_littleEndian]

/-! ### Positional values -/

theorem bigEndian_cons (b : UInt8) (bytes : List UInt8) :
    bigEndian (b :: bytes) = b.toNat * 256 ^ bytes.length + bigEndian bytes := by
  have hrest : ∀ k : Fin bytes.length,
      bytes.length + 1 - 1 - (k.succ : ℕ) = bytes.length - 1 - (k : ℕ) := by
    intro k
    rw [Fin.val_succ]
    omega
  change ∑ k : Fin (bytes.length + 1), ((b :: bytes).get k).toNat *
    256 ^ (bytes.length + 1 - 1 - (k : ℕ)) = _
  rw [Fin.sum_univ_succ, bigEndian]
  simp only [hrest]
  rfl

theorem littleEndian_eq_ofDigits (bytes : List UInt8) :
    littleEndian bytes = Nat.ofDigits 256 (bytes.map UInt8.toNat) := by
  induction bytes with
  | nil => rfl
  | cons b bytes ih => rw [littleEndian, ih, List.map_cons, Nat.ofDigits_cons]

theorem littleEndian_lt (bytes : List UInt8) : littleEndian bytes < 256 ^ bytes.length := by
  have hdigits : ∀ d ∈ bytes.map UInt8.toNat, d < 256 := by
    intro d hd
    obtain ⟨b, -, rfl⟩ := List.mem_map.1 hd
    exact b.toNat_lt
  rw [littleEndian_eq_ofDigits, ← List.length_map (f := UInt8.toNat)]
  exact Nat.ofDigits_lt_base_pow_length (by decide) hdigits

theorem littleEndian_reverse (bytes : List UInt8) :
    littleEndian bytes.reverse = bigEndian bytes := by
  induction bytes with
  | nil => rfl
  | cons b bytes ih =>
      rw [littleEndian_eq_ofDigits, List.map_reverse] at ih ⊢
      rw [List.map_cons, Nat.ofDigits_reverse_cons, ih, bigEndian_cons, List.length_map,
        Nat.add_comm, Nat.mul_comm]

/-- Loading bytes low byte first and swapping yields the number they are written as. -/
theorem swapEndian_littleEndian_eq_bigEndian (bytes : List UInt8) :
    swapEndian bytes.length (littleEndian bytes) = bigEndian bytes := by
  rw [swapEndian_littleEndian, littleEndian_reverse]

theorem littleEndian_toBytes {n u : ℕ} (h : u < 256 ^ n) : littleEndian (toBytes n u) = u := by
  induction n generalizing u with
  | zero => exact (Nat.lt_one_iff.1 h).symm
  | succ n ih =>
      have hdiv : u / 256 < 256 ^ n := by
        rw [Nat.pow_succ] at h
        exact Nat.div_lt_of_lt_mul (by rwa [Nat.mul_comm])
      rw [toBytes, littleEndian, ih hdiv, UInt8.toNat_ofNat']
      exact Nat.mod_add_div u 256

theorem swapEndian_lt (n u : ℕ) : swapEndian n u < 256 ^ n := by
  have h := littleEndian_lt (toBytes n u).reverse
  rwa [List.length_reverse, length_toBytes, ← swapEndian_eq_littleEndian_reverse] at h

/-- Swapping twice changes no value of the type. -/
theorem swapEndian_swapEndian {n u : ℕ} (h : u < 256 ^ n) :
    swapEndian n (swapEndian n u) = u := by
  have hback := toBytes_littleEndian (toBytes n u).reverse
  rw [List.length_reverse, length_toBytes, ← swapEndian_eq_littleEndian_reverse] at hback
  rw [swapEndian_eq_littleEndian_reverse, hback, List.reverse_reverse, littleEndian_toBytes h]

end Snooper

end IpodEsp32
