import Mathlib.Algebra.BigOperators.Group.List.Basic
import Mathlib.Algebra.Ring.Nat

/-!
# The packet checksum

`checksum` is `snooper::_checksum`: the length and the payload bytes are added in
a 32-bit accumulator, and the low byte of the sum is subtracted from `0x100`.
`Closes p c` is the property a frame on the wire has: length, payload and checksum
byte add up to zero modulo 256. The two agree for every payload, the wrap of
`0x100 - 0` included.
-/

namespace IpodEsp32

namespace Snooper

/-- `snooper::_checksum`: the bytes `byteArray[0..len)` and `len` itself, summed in
`tempChecksum`. -/
def checksum (byteArray : List UInt8) (len : ℕ) : UInt8 :=
  let tempChecksum : UInt32 :=
    (byteArray.take len).foldl (fun t b => t + b.toUInt32) (UInt32.ofNat len)
  (0x100 - (tempChecksum &&& 0xFF)).toUInt8

/-- Length, payload and checksum byte add up to zero modulo 256. -/
def Closes (p : List UInt8) (c : UInt8) : Prop :=
  (p.length + (p.map UInt8.toNat).sum + c.toNat) % 256 = 0

instance (p : List UInt8) (c : UInt8) : Decidable (Closes p c) :=
  inferInstanceAs (Decidable (_ = _))

def closingByte (p : List UInt8) : UInt8 :=
  0 - UInt8.ofNat (p.length + (p.map UInt8.toNat).sum)

theorem closes_iff_eq_closingByte (p : List UInt8) (c : UInt8) :
    Closes p c ↔ c = closingByte p := by
  have hc := c.toNat_lt
  rw [← UInt8.toNat_inj, closingByte, Closes, UInt8.toNat_sub, UInt8.toNat_ofNat',
    UInt8.toNat_zero]
  omega

theorem closes_closingByte (p : List UInt8) : Closes p (closingByte p) :=
  (closes_iff_eq_closingByte p _).2 rfl

theorem toUInt8_foldl_add (bs : List UInt8) (t : UInt32) :
    (bs.foldl (fun t b => t + b.toUInt32) t).toUInt8 =
      t.toUInt8 + UInt8.ofNat (bs.map UInt8.toNat).sum := by
  induction bs generalizing t with
  | nil => simp
  | cons b bs ih =>
      rw [List.foldl_cons, ih, List.map_cons, List.sum_cons, UInt32.toUInt8_add,
        UInt8.toUInt8_toUInt32, UInt8.ofNat_add, UInt8.ofNat_toNat, UInt8.add_assoc]

theorem wrap_sub_mask (x : UInt8) :
    (0x100 : UInt32).toUInt8 - (x &&& (0xFF : UInt32).toUInt8) = 0 - x := by
  have hmask : x &&& (0xFF : UInt32).toUInt8 = x := by
    rw [← UInt8.toNat_inj, UInt8.toNat_and]
    exact (Nat.and_two_pow_sub_one_eq_mod x.toNat 8).trans (Nat.mod_eq_of_lt x.toNat_lt)
  rw [hmask]
  rfl

/-- The code's checksum of the first `len` bytes of a buffer is the byte that
closes them. -/
theorem checksum_eq_closingByte (byteArray : List UInt8) {len : ℕ}
    (h : len ≤ byteArray.length) :
    checksum byteArray len = closingByte (byteArray.take len) := by
  have hlen : (byteArray.take len).length = len := by simp [h]
  simp only [checksum, closingByte, UInt32.toUInt8_sub, UInt32.toUInt8_and,
    toUInt8_foldl_add, hlen, UInt8.ofNat_add, UInt32.toUInt8_ofNat', wrap_sub_mask]

end Snooper

end IpodEsp32
