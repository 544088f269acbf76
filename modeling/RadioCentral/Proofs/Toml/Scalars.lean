import RadioCentral.Toml.Document
import RadioCentral.Toml.Reading.Value

/-!
Scalars as they are written are read back: texts that need no escape, numbers of 64 bits and truth values.
-/
namespace RadioCentral.Toml

/-- What may come behind a scalar: the end of a line, or what goes on with an array or ends it. -/
inductive Delimited : List Char → Prop where
  | newline (rest : List Char) : Delimited ('\n' :: rest)
  | comma (rest : List Char) : Delimited (',' :: rest)
  | bracket (rest : List Char) : Delimited (']' :: rest)

/-- A character of a class is none that is outside it. -/
theorem ne_of_class {p : Char → Bool} {c d : Char} (own : p c = true) (other : p d = false) : c ≠ d := by
  rintro rfl
  simp [own] at other

/-! ### Texts -/

def isPlain (c : Char) : Bool := isText c && c != '"' && c != '\\'

theorem isPlain_iff {c : Char} : isPlain c = true ↔ isText c = true ∧ c ≠ '"' ∧ c ≠ '\\' := by
  simp [isPlain, and_assoc]

theorem basic?_plain {cs : List Char} (plain : ∀ c ∈ cs, isPlain c = true) (rest : List Char) :
    basic? (cs ++ '"' :: rest) = some (cs, rest) := by
  induction cs with
  | nil => rw [List.nil_append, basic?]
  | cons c cs ih =>
    obtain ⟨first, others⟩ := List.forall_mem_cons.1 plain
    obtain ⟨text, unquoted, unescaped⟩ := isPlain_iff.1 first
    rw [List.cons_append, basic?, if_pos text, ih others]
    · rfl
    · simp [unquoted]
    · simp [unescaped]

theorem Delimited.head {cs : List Char} (delimited : Delimited cs) :
    ∃ c rest, cs = c :: rest ∧ (c = '\n' ∨ c = ',' ∨ c = ']') := by
  cases delimited <;> simp

/-- An empty text is no start of a text of several lines, since no quote comes behind it. -/
theorem string?_plain {cs : List Char} (plain : ∀ c ∈ cs, isPlain c = true) {rest : List Char}
    (delimited : Delimited rest) : string? ('"' :: cs ++ '"' :: rest) = some (cs, rest) := by
  cases cs with
  | nil => cases delimited <;> simp [string?, quoted?, basic?]
  | cons c cs =>
    obtain ⟨-, unquoted, -⟩ := isPlain_iff.1 (plain c List.mem_cons_self)
    have read := basic?_plain plain rest
    simp only [List.cons_append] at read ⊢
    rw [string?]
    · exact read
    · simp [unquoted]
    · simp

theorem scalar?_text {s : String} (plain : ∀ c ∈ s.toList, isPlain c = true) {rest : List Char}
    (delimited : Delimited rest) :
    scalar? ((Scalar.text s).written.toList ++ rest) = some (.string s, rest) := by
  have written : (Scalar.text s).written.toList ++ rest = '"' :: s.toList ++ '"' :: rest := by
    simp [Scalar.written]
  rw [written, scalar?, string?_plain plain delimited]
  simp

/-! ### Numbers -/

def Numeric (cs : List Char) : Prop :=
  ∃ digits rest, cs = digits ++ rest ∧ (∀ c ∈ digits, isDecimal c = true) ∧ Delimited rest

theorem Numeric.head {cs : List Char} (numeric : Numeric cs) :
    ∃ c rest, cs = c :: rest ∧ (isDecimal c = true ∨ c = '\n' ∨ c = ',' ∨ c = ']') := by
  obtain ⟨digits, rest, rfl, decimal, delimited⟩ := numeric
  cases digits with
  | nil =>
    obtain ⟨c, rest, rfl, which⟩ := delimited.head
    exact ⟨c, rest, rfl, Or.inr which⟩
  | cons c digits => exact ⟨c, digits ++ rest, rfl, Or.inl (decimal c List.mem_cons_self)⟩

theorem after?_numeric {cs : List Char} (numeric : Numeric cs) {c : Char} (hc : c = '-' ∨ c = ':') :
    after? c cs = none := by
  obtain ⟨d, rest, rfl, which⟩ := numeric.head
  have nondecimal : isDecimal c = false := by
    rcases hc with rfl | rfl <;> rfl
  have other : d ≠ c := by
    rcases which with decimal | delimiter
    · exact ne_of_class decimal nondecimal
    · rcases hc with rfl | rfl <;> rcases delimiter with rfl | rfl | rfl <;> decide
  rw [after?, if_neg other]

theorem fixed?_nondecimal {c : Char} (other : isDecimal c = false) (width low high : Nat) (cs : List Char) :
    fixed? (width + 1) low high (c :: cs) = none := by
  simp [fixed?, other]

/-- A number of so many digits leaves digits and what comes behind them. -/
theorem fixed?_numeric {cs rest : List Char} (numeric : Numeric cs) {width low high n : Nat}
    (found : fixed? width low high cs = some (n, rest)) : Numeric rest := by
  obtain ⟨digits, tail, rfl, decimal, delimited⟩ := numeric
  simp only [fixed?, Option.ite_none_right_eq_some, Option.some.injEq, Prod.mk.injEq] at found
  obtain ⟨⟨whole, all, -⟩, -, rfl⟩ := found
  have within : width ≤ digits.length := by
    refine Nat.le_of_not_lt fun short => ?_
    obtain ⟨c, tail, rfl, which⟩ := delimited.head
    have mem : c ∈ (digits ++ c :: tail).take width := by
      rw [List.take_append]
      refine List.mem_append_right _ ?_
      obtain ⟨k, hk⟩ := Nat.exists_eq_add_of_lt short
      have left : width - digits.length = k + 1 := by omega
      rw [left]
      simp
    have decimal := List.all_eq_true.1 all c mem
    rcases which with rfl | rfl | rfl
    all_goals exact absurd decimal (by decide)
  refine ⟨digits.drop width, tail, ?_, fun c hc => decimal c (List.mem_of_mem_drop hc), delimited⟩
  rw [List.drop_append_of_le_length within]

theorem moment?_numeric {cs : List Char} (numeric : Numeric cs) : moment? cs = none := by
  have undated : date? cs = none := by
    unfold date?
    cases found : fixed? 4 0 9999 cs with
    | none => rfl
    | some year => simp [after?_numeric (fixed?_numeric numeric found) (Or.inl rfl)]
  have untimed : time? cs = none := by
    unfold time? hourMinute?
    cases found : fixed? 2 0 23 cs with
    | none => rfl
    | some hour => simp [after?_numeric (fixed?_numeric numeric found) (Or.inr rfl)]
  rw [moment?, undated, untimed]

theorem moment?_nondecimal {c : Char} (other : isDecimal c = false) (cs : List Char) :
    moment? (c :: cs) = none := by
  have first := fixed?_nondecimal other
  simp [moment?, date?, time?, hourMinute?, first]

theorem digitsBehind_decimal {digits rest : List Char} (decimal : ∀ c ∈ digits, isDecimal c = true)
    (delimited : Delimited rest) : digitsBehind isDecimal (digits ++ rest) = (digits, rest) := by
  induction digits with
  | nil => cases delimited <;> rfl
  | cons c digits ih =>
    obtain ⟨first, others⟩ := List.forall_mem_cons.1 decimal
    rw [List.cons_append, digitsBehind, if_pos first, ih others]
    simp [ne_of_class (d := '_') first rfl]

theorem numeral_decimal {digits : List Char} (decimal : ∀ c ∈ digits, isDecimal c = true) :
    numeral 10 digits = Nat.ofDigitChars 10 digits 0 := by
  have value {c : Char} (hc : isDecimal c = true) : (Hex.digitValue? c).getD 0 = c.toNat - '0'.toNat := by
    simp only [isDecimal, Bool.and_eq_true, decide_eq_true_eq] at hc
    simp [Hex.digitValue?, hc]
  have fold (start : Nat) : digits.foldl (fun n c => 10 * n + (Hex.digitValue? c).getD 0) start =
      Nat.ofDigitChars 10 digits start := by
    induction digits generalizing start with
    | nil => simp
    | cons c digits ih =>
      obtain ⟨first, others⟩ := List.forall_mem_cons.1 decimal
      rw [List.foldl_cons, ih others, value first, Nat.ofDigitChars_cons]
  exact fold 0

theorem decimal_toDigits (n : Nat) : ∀ c ∈ Nat.toDigits 10 n, isDecimal c = true := fun _ mem =>
  Nat.isDigit_of_mem_toDigits (by decide) (by decide) mem

/-- Only nought starts with a nought. -/
theorem toDigits_head (n : Nat) (positive : 0 < n) : ∃ c cs, Nat.toDigits 10 n = c :: cs ∧ c ≠ '0' := by
  induction n using Nat.strongRecOn with
  | ind n ih =>
    rw [Nat.toDigits_eq_if (by decide)]
    split
    · exact ⟨_, [], rfl, by simp; omega⟩
    · obtain ⟨c, cs, digits, nonzero⟩ := ih (n / 10) (by omega) (by omega)
      exact ⟨c, cs ++ [(n % 10).digitChar], by rw [digits]; rfl, nonzero⟩

theorem whole?_toDigits (n : Nat) {rest : List Char} (delimited : Delimited rest) :
    whole? (Nat.toDigits 10 n ++ rest) = some (Nat.toDigits 10 n, rest) := by
  rcases Nat.eq_zero_or_pos n with rfl | positive
  · simp [whole?]
  · have decimal := decimal_toDigits n
    obtain ⟨c, cs, digits, nonzero⟩ := toDigits_head n positive
    rw [digits] at decimal ⊢
    obtain ⟨first, others⟩ := List.forall_mem_cons.1 decimal
    rw [List.cons_append, whole?, digits?, if_pos first, digitsBehind_decimal others delimited]
    simp [nonzero]

theorem double?_delimited (minus : Bool) (digits : List Char) {rest : List Char}
    (delimited : Delimited rest) : double? minus digits rest = none := by
  cases delimited <;> rfl

theorem sign_decimal {c : Char} (decimal : isDecimal c = true) (cs : List Char) :
    sign (c :: cs) = (false, c :: cs) := by
  simp [sign, ne_of_class (d := '-') decimal rfl, ne_of_class (d := '+') decimal rfl]

theorem integerOf?_of_fits {n : Int} (low : -0x80000000_00000000 ≤ n) (high : n < 0x80000000_00000000) :
    integerOf? n = some (.integer n) := if_pos ⟨low, high⟩

theorem numeral_toDigits (n : Nat) : numeral 10 (Nat.toDigits 10 n) = n := by
  rw [numeral_decimal (decimal_toDigits n), Nat.ofDigitChars_ten_toDigits]

theorem decimal?_toDigits (n : Nat) {rest : List Char} (delimited : Delimited rest) :
    decimal? (Nat.toDigits 10 n ++ rest) = (integerOf? n).map (·, rest) := by
  have unsigned : sign (Nat.toDigits 10 n ++ rest) = (false, Nat.toDigits 10 n ++ rest) := by
    have decimal := decimal_toDigits n
    cases digits : Nat.toDigits 10 n with
    | nil => exact absurd digits Nat.toDigits_ne_nil
    | cons c cs =>
      rw [digits] at decimal
      exact sign_decimal (decimal c List.mem_cons_self) _
  simp only [decimal?, unsigned, whole?_toDigits n delimited, Option.bind_some,
    double?_delimited _ _ delimited]
  rw [Option.none_or, if_neg Bool.false_ne_true, numeral_toDigits]

theorem decimal?_minus (n : Nat) {rest : List Char} (delimited : Delimited rest) :
    decimal? ('-' :: (Nat.toDigits 10 n ++ rest)) = (integerOf? (-n)).map (·, rest) := by
  simp only [decimal?, sign, whole?_toDigits n delimited, Option.bind_some, double?_delimited _ _ delimited]
  rw [Option.none_or, if_pos trivial, numeral_toDigits]

/-- A nought with nothing behind it starts no number of another base. -/
theorem number?_toDigits (n : Nat) {rest : List Char} (delimited : Delimited rest) :
    number? (Nat.toDigits 10 n ++ rest) =
      (decimal? (Nat.toDigits 10 n ++ rest)).or (special? (Nat.toDigits 10 n ++ rest)) := by
  rcases Nat.eq_zero_or_pos n with rfl | positive
  · cases delimited <;> rfl
  · obtain ⟨c, cs, digits, nonzero⟩ := toDigits_head n positive
    simp [digits, number?, nonzero]

theorem string?_unquoted {c : Char} (double : c ≠ '"') (single : c ≠ '\'') (cs : List Char) :
    string? (c :: cs) = none := by
  simp [string?, quoted?, double, single]

theorem boolean?_other {c : Char} (yes : c ≠ 't') (no : c ≠ 'f') (cs : List Char) :
    boolean? (c :: cs) = none := by
  simp [boolean?, yes, no]

/-- What starts with a minus or a digit is a date or a number. -/
theorem scalar?_numeric {c : Char} (numeric : c = '-' ∨ isDecimal c = true) {cs : List Char}
    (undated : moment? (c :: cs) = none) : scalar? (c :: cs) = number? (c :: cs) := by
  have other {d : Char} (minus : d ≠ '-') (digit : isDecimal d = false) : c ≠ d := by
    rcases numeric with rfl | decimal
    · exact minus.symm
    · exact ne_of_class decimal digit
  rw [scalar?, string?_unquoted (other (by decide) (by decide)) (other (by decide) (by decide)), undated,
    boolean?_other (other (by decide) (by decide)) (other (by decide) (by decide)), Option.none_or]

theorem scalar?_toDigits {n : Nat} (high : n < 0x80000000_00000000) {rest : List Char}
    (delimited : Delimited rest) : scalar? (Nat.toDigits 10 n ++ rest) = some (.integer n, rest) := by
  have undated : moment? (Nat.toDigits 10 n ++ rest) = none :=
    moment?_numeric ⟨_, _, rfl, decimal_toDigits n, delimited⟩
  have read : number? (Nat.toDigits 10 n ++ rest) = some (.integer n, rest) := by
    rw [number?_toDigits n delimited, decimal?_toDigits n delimited, integerOf?_of_fits (by omega) (by omega)]
    rfl
  have decimal := decimal_toDigits n
  cases digits : Nat.toDigits 10 n with
  | nil => exact absurd digits Nat.toDigits_ne_nil
  | cons c cs =>
    rw [digits] at decimal undated read
    exact (scalar?_numeric (Or.inr (decimal c List.mem_cons_self)) undated).trans read

theorem scalar?_minus {n : Nat} (low : n ≤ 0x80000000_00000000) {rest : List Char}
    (delimited : Delimited rest) :
    scalar? ('-' :: (Nat.toDigits 10 n ++ rest)) = some (.integer (-n), rest) := by
  rw [scalar?_numeric (Or.inl rfl) (moment?_nondecimal (by decide) _), number?, decimal?_minus n delimited,
    integerOf?_of_fits (by omega) (by omega)]
  · rfl
  all_goals simp

theorem scalar?_number {n : Int} (low : -0x80000000_00000000 ≤ n) (high : n < 0x80000000_00000000)
    {rest : List Char} (delimited : Delimited rest) :
    scalar? ((Scalar.number n).written.toList ++ rest) = some (.integer n, rest) := by
  cases n with
  | ofNat n =>
    have written : (Scalar.number (.ofNat n)).written.toList = Nat.toDigits 10 n := Nat.toList_repr
    rw [written]
    exact scalar?_toDigits (Int.ofNat_lt.1 high) delimited
  | negSucc n =>
    have written : (Scalar.number (.negSucc n)).written.toList = '-' :: Nat.toDigits 10 (n + 1) := by
      have repr : (Scalar.number (.negSucc n)).written = "-" ++ Nat.repr (n + 1) := rfl
      rw [repr, String.toList_append, Nat.toList_repr]
      rfl
    rw [written]
    exact scalar?_minus (by omega) delimited

theorem scalar?_truth (b : Bool) (rest : List Char) :
    scalar? ((Scalar.truth b).written.toList ++ rest) = some (.boolean b, rest) := by
  cases b <;> rfl

/-- A scalar that needs no escape and no more than 64 bits. -/
def Scalar.Plain : Scalar → Prop
  | text s => ∀ c ∈ s.toList, isPlain c = true
  | number n => -0x80000000_00000000 ≤ n ∧ n < 0x80000000_00000000
  | truth _ => True

instance : (s : Scalar) → Decidable s.Plain
  | .text s => decidable_of_iff (s.toList.all isPlain = true) List.all_eq_true
  | .number n => inferInstanceAs (Decidable (-0x80000000_00000000 ≤ n ∧ n < 0x80000000_00000000))
  | .truth _ => inferInstanceAs (Decidable True)

theorem scalar?_written {s : Scalar} (plain : s.Plain) {rest : List Char} (delimited : Delimited rest) :
    scalar? (s.written.toList ++ rest) = some (s.value, rest) := by
  cases s with
  | text s => exact scalar?_text plain delimited
  | number n => exact scalar?_number plain.1 plain.2 delimited
  | truth b => exact scalar?_truth b rest

end RadioCentral.Toml
