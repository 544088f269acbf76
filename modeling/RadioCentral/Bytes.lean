/-!
Byte strings and the words they carry. Words are read and written in both byte orders; the pieces of
a fixed length that a byte string holds are cut from its front, and what is too short for a piece is
left out.
-/
namespace RadioCentral

abbrev Bytes := List UInt8

namespace Bytes

/-- The number written by the bytes, least significant byte first. -/
def leValue : Bytes → Nat
  | [] => 0
  | b :: rest => b.toNat + 256 * leValue rest

/-- The number written by the bytes, most significant byte first. -/
def beValue (bytes : Bytes) : Nat := leValue bytes.reverse

def leBytes : (width : Nat) → Nat → Bytes
  | 0, _ => []
  | width + 1, n => UInt8.ofNat n :: leBytes width (n / 256)

def beBytes (width n : Nat) : Bytes := (leBytes width n).reverse

/-- The complete pieces of length `n`, from the front; a shorter rest is dropped. -/
def pieces (n : Nat) (bytes : Bytes) : List Bytes :=
  if _h : 0 < n ∧ n ≤ bytes.length then bytes.take n :: pieces n (bytes.drop n) else []
termination_by bytes.length
decreasing_by simp only [List.length_drop]; omega

@[simp] theorem length_leBytes (width n : Nat) : (leBytes width n).length = width := by
  induction width generalizing n with
  | zero => rfl
  | succ width ih => simp [leBytes, ih]

/-- Writing a number that fits the width and reading it back gives the number. -/
theorem leValue_leBytes (width n : Nat) (fits : n < Nat.pow 256 width) :
    leValue (leBytes width n) = n := by
  induction width generalizing n with
  | zero => simp at fits; simp [leBytes, leValue, fits]
  | succ width ih =>
    have smaller : n / 256 < Nat.pow 256 width := by
      rw [Nat.div_lt_iff_lt_mul (by decide)]; rwa [Nat.pow_eq, Nat.pow_succ] at fits
    simp only [leBytes, leValue, ih _ smaller, UInt8.toNat_ofNat']
    omega

theorem leValue_lt (bytes : Bytes) : leValue bytes < Nat.pow 256 bytes.length := by
  induction bytes with
  | nil => simp [leValue]
  | cons b rest ih =>
    have := b.toNat_lt
    simp only [leValue, List.length_cons, Nat.pow_eq, Nat.pow_succ] at ih ⊢
    omega

end Bytes

end RadioCentral
