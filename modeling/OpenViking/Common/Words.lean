import Mathlib.Data.Nat.Digits.Lemmas

/-!
# Numbers in bytes

A number is stored in a fixed number of bytes, with the least or with the most
significant byte first.  A number that needs more bytes loses its high ones.
-/

namespace OpenViking
namespace Words

/-- The low bytes of a number, the least significant first. -/
def littleEndian : Nat -> Nat -> List UInt8
  | 0, _ => []
  | width + 1, n => UInt8.ofNat n :: littleEndian width (n / 256)

variable (bytes : List UInt8)

def ofLittleEndian : Nat :=
  Nat.ofDigits 256 (bytes.map UInt8.toNat)

/-- The low bytes of a number, the most significant first. -/
def bigEndian (width n : Nat) : List UInt8 :=
  (littleEndian width n).reverse

def ofBigEndian : Nat :=
  ofLittleEndian bytes.reverse

@[simp] theorem ofLittleEndian_nil : ofLittleEndian [] = 0 :=
  rfl

@[simp] theorem ofLittleEndian_cons (b : UInt8) (bytes : List UInt8) :
    ofLittleEndian (b :: bytes) = b.toNat + 256 * ofLittleEndian bytes := by
  simp [ofLittleEndian, Nat.ofDigits_cons]

theorem ofLittleEndian_lt : ofLittleEndian bytes < 256 ^ bytes.length := by
  induction bytes with
  | nil =>
    decide
  | cons b bytes ih =>
    have hb : b.toNat < 256 := b.toNat_lt
    rw [ofLittleEndian_cons, List.length_cons, pow_succ']
    omega

theorem ofBigEndian_lt : ofBigEndian bytes < 256 ^ bytes.length := by
  have h := ofLittleEndian_lt bytes.reverse
  rwa [List.length_reverse] at h

theorem ofLittleEndian_littleEndian (width n : Nat) :
    ofLittleEndian (littleEndian width n) = n % 256 ^ width := by
  induction width generalizing n with
  | zero =>
    rw [littleEndian, ofLittleEndian_nil, pow_zero, Nat.mod_one]
  | succ width ih =>
    rw [littleEndian, ofLittleEndian_cons, ih, pow_succ', Nat.mod_mul]
    rfl

theorem ofBigEndian_bigEndian (width n : Nat) :
    ofBigEndian (bigEndian width n) = n % 256 ^ width := by
  rw [ofBigEndian, bigEndian, List.reverse_reverse, ofLittleEndian_littleEndian]

theorem littleEndian_ofLittleEndian :
    littleEndian bytes.length (ofLittleEndian bytes) = bytes := by
  induction bytes with
  | nil =>
    rfl
  | cons b bytes ih =>
    have hb : b.toNat < 256 := b.toNat_lt
    have hdiv : (b.toNat + 256 * ofLittleEndian bytes) / 256 =
        ofLittleEndian bytes := by
      omega
    have hlow : UInt8.ofNat (b.toNat + 256 * ofLittleEndian bytes) = b := by
      apply UInt8.toNat_inj.mp
      rw [UInt8.toNat_ofNat']
      omega
    rw [List.length_cons, ofLittleEndian_cons, littleEndian, hdiv, hlow, ih]

theorem bigEndian_ofBigEndian :
    bigEndian bytes.length (ofBigEndian bytes) = bytes := by
  have h := littleEndian_ofLittleEndian bytes.reverse
  rw [List.length_reverse] at h
  rw [bigEndian, ofBigEndian, h, List.reverse_reverse]

end Words
end OpenViking
