/-!
# Addition that stops at the greatest number

Counters are words of 32 bits, limits of a method's frame are words of 16 bits. Both are added
so that a sum too great becomes the greatest word instead of starting over at zero.

**Results.**
* `toNat_satAdd`, `toNat_satAdd16`: the sum of two words, or the greatest word if the sum is
  greater.
-/

namespace BytecodeCoverage

/-- The greatest 32-bit word. -/
def maxWord : Nat := 0xffffffff

/-- The sum, or the greatest word if the sum exceeds it. -/
def satAdd (a b : UInt32) : UInt32 :=
  UInt32.ofNat (min (a.toNat + b.toNat) maxWord)

theorem toNat_satAdd (a b : UInt32) : (satAdd a b).toNat = min (a.toNat + b.toNat) maxWord := by
  have : min (a.toNat + b.toNat) maxWord < 4294967296 := by
    simp only [maxWord]
    omega
  simp only [satAdd, UInt32.toNat_ofNat']
  exact Nat.mod_eq_of_lt this

theorem satAdd_comm (a b : UInt32) : satAdd a b = satAdd b a := by
  simp only [satAdd, Nat.add_comm]

theorem satAdd_assoc (a b c : UInt32) : satAdd (satAdd a b) c = satAdd a (satAdd b c) := by
  apply UInt32.toNat_inj.1
  simp only [toNat_satAdd]
  omega

/-- The sum of two 16-bit words, or the greatest such word if the sum exceeds it. -/
def satAdd16 (a b : UInt16) : UInt16 :=
  UInt16.ofNat (min (a.toNat + b.toNat) 0xffff)

theorem toNat_satAdd16 (a b : UInt16) : (satAdd16 a b).toNat = min (a.toNat + b.toNat) 0xffff := by
  have : min (a.toNat + b.toNat) 0xffff < 65536 := by omega
  simp only [satAdd16, UInt16.toNat_ofNat']
  exact Nat.mod_eq_of_lt this

end BytecodeCoverage
