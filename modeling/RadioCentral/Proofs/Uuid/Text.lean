import RadioCentral.Uuid.Text

/-!
The written form of an identifier is read back, and consists of hexadecimal digits and hyphens.
-/
namespace RadioCentral

namespace Hex

theorem digitValue?_digit {n : Nat} (small : n < 16) : digitValue? (digit n) = some n := by
  have all : ∀ m : Fin 16, digitValue? (digit m) = some m.val := by decide
  exact all ⟨n, small⟩

@[simp] theorem length_digits (width n : Nat) : (digits width n).length = width := by
  induction width generalizing n with
  | zero => rfl
  | succ width ih => simp [digits, ih]

/-- The digits of a number write what is left of it when the places above them are dropped. -/
theorem value?_digits (width n : Nat) : value? (digits width n) = some (n % Nat.pow 16 width) := by
  induction width generalizing n with
  | zero => simp [value?, digits, Nat.mod_one]
  | succ width ih =>
    have front := ih (n / 16)
    unfold value? at front
    rw [value?, digits, List.foldlM_append, front]
    have last : digitValue? (digit (n % 16)) = some (n % 16) := digitValue?_digit (Nat.mod_lt n (by decide))
    have whole : n % Nat.pow 16 (width + 1) = 16 * (n / 16 % Nat.pow 16 width) + n % 16 := by
      rw [Nat.pow_eq, Nat.pow_succ', Nat.mod_mul, Nat.add_comm]
      rfl
    simp only [List.foldlM_cons, List.foldlM_nil, last, Option.bind_eq_bind, Option.bind_some,
      Option.map_some, whole]
    rfl

theorem mem_digits {c : Char} {width n : Nat} (mem : c ∈ digits width n) : ∃ m : Fin 16, c = digit m := by
  induction width generalizing n with
  | zero => exact absurd mem List.not_mem_nil
  | succ width ih =>
    rcases List.mem_append.1 mem with front | last
    · exact ih front
    · exact ⟨⟨n % 16, Nat.mod_lt n (by decide)⟩, List.mem_singleton.1 last⟩

end Hex

namespace Uuid

def reach : List Nat → Nat
  | [] => 0
  | [_] => 0
  | n :: rest => n + reach rest

theorem unhyphenate_hyphenate (lengths : List Nat) {cs : List Char}
    (long : reach lengths ≤ cs.length) : unhyphenate lengths (hyphenate lengths cs) = some cs := by
  induction lengths generalizing cs with
  | nil => rfl
  | cons n lengths ih =>
    cases lengths with
    | nil => rfl
    | cons m lengths =>
      have split : reach (n :: m :: lengths) = n + reach (m :: lengths) := rfl
      have front : (cs.take n).length = n := List.length_take_of_le (by omega)
      have back : unhyphenate (m :: lengths) (hyphenate (m :: lengths) (cs.drop n)) = some (cs.drop n) :=
        ih (by rw [List.length_drop]; omega)
      have taken : (cs.take n ++ '-' :: hyphenate (m :: lengths) (cs.drop n)).take n = cs.take n := by
        rw [List.take_append_of_le_length (Nat.le_of_eq front.symm), List.take_take, Nat.min_self]
      have dropped : (cs.take n ++ '-' :: hyphenate (m :: lengths) (cs.drop n)).drop n =
          '-' :: hyphenate (m :: lengths) (cs.drop n) := by
        rw [List.drop_append_of_le_length (Nat.le_of_eq front.symm), List.drop_eq_nil_of_le (by omega),
          List.nil_append]
      simp [hyphenate, unhyphenate, taken, dropped, back]

theorem length_hyphenate (lengths : List Nat) {cs : List Char} (long : reach lengths ≤ cs.length) :
    (hyphenate lengths cs).length = cs.length + (lengths.length - 1) := by
  induction lengths generalizing cs with
  | nil => rfl
  | cons n lengths ih =>
    cases lengths with
    | nil => rfl
    | cons m lengths =>
      have split : reach (n :: m :: lengths) = n + reach (m :: lengths) := rfl
      have back : (hyphenate (m :: lengths) (cs.drop n)).length = (cs.drop n).length + lengths.length :=
        ih (by rw [List.length_drop]; omega)
      simp only [hyphenate, List.length_append, List.length_take, List.length_cons, back, List.length_drop]
      simp
      omega

theorem mem_hyphenate {c : Char} {lengths : List Nat} {cs : List Char} (mem : c ∈ hyphenate lengths cs) :
    c = '-' ∨ c ∈ cs := by
  induction lengths generalizing cs with
  | nil => exact Or.inr mem
  | cons n lengths ih =>
    cases lengths with
    | nil => exact Or.inr mem
    | cons m lengths =>
      simp only [hyphenate, List.mem_append, List.mem_cons] at mem
      obtain front | hyphen | back := mem
      · exact Or.inr (List.mem_of_mem_take front)
      · exact Or.inl hyphen
      · exact (ih back).imp_right List.mem_of_mem_drop

theorem ofText?_hyphenate {cs : List Char} (length : cs.length = 32) {n : Nat}
    (value : Hex.value? cs = some n) : ofText? (String.ofList (hyphenate groups cs)) = some (ofNat n) := by
  have long : reach groups ≤ cs.length := by
    rw [length]
    decide
  have whole : (hyphenate groups cs).length = 36 := by
    rw [length_hyphenate groups long, length]
    rfl
  have read : ofHyphenated? (hyphenate groups cs) = some (ofNat n) := by
    rw [ofHyphenated?, if_pos whole, unhyphenate_hyphenate groups long, Option.bind_some, ofDigits?,
      if_pos length, value, Option.map_some]
  simp only [ofText?, String.toList_ofList, whole]
  exact read

theorem ofText?_text (u : Uuid) : ofText? u.text = some u := by
  have small : u.toNat < Nat.pow 16 32 := Nat.lt_of_lt_of_eq u.toNat_lt (by decide)
  have value := Hex.value?_digits 32 u.toNat
  rw [Nat.mod_eq_of_lt small] at value
  have same : ofNat u.toNat = u := toNat_inj.1 (by rw [toNat_ofNat, Nat.mod_eq_of_lt u.toNat_lt])
  rw [text, ofText?_hyphenate (Hex.length_digits 32 u.toNat) value, same]

/-- The written form needs no escape anywhere. -/
theorem mem_text {u : Uuid} {c : Char} (mem : c ∈ u.text.toList) :
    c = '-' ∨ ∃ m : Fin 16, c = Hex.digit m := by
  rw [text, String.toList_ofList] at mem
  exact (mem_hyphenate mem).imp_right Hex.mem_digits

end Uuid

end RadioCentral
