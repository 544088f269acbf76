import RadioCentral.Proofs.Toml.Scalars

/-!
Scalars and lists of scalars as they are written are read back as the values they stand for.
-/
namespace RadioCentral.Toml

def EndsBlank (c : Char) : Prop := isSpace c = false ∧ c ≠ '#' ∧ c ≠ '\n' ∧ c ≠ '\r'

instance (c : Char) : Decidable (EndsBlank c) :=
  inferInstanceAs (Decidable (isSpace c = false ∧ c ≠ '#' ∧ c ≠ '\n' ∧ c ≠ '\r'))

theorem skipSpaces_of_ends {c : Char} (h : EndsBlank c) (cs : List Char) :
    skipSpaces (c :: cs) = c :: cs := by
  rw [skipSpaces, List.dropWhile_cons_of_neg (by simp [h.1])]

theorem skipBlank_of_ends {c : Char} (h : EndsBlank c) (cs : List Char) :
    skipBlank false (c :: cs) = c :: cs := by
  obtain ⟨space, comment, newline, carriage⟩ := h
  rw [skipBlank]
  · simp [space, comment]
  · exact newline
  · exact fun _ other => absurd other carriage

/-- A class of characters without the blank ones and the one that starts a comment. -/
theorem endsBlank_of_class {p : Char → Bool} {c : Char} (own : p c = true)
    (others : [' ', '\t', '#', '\n', '\r'].any p = false) : EndsBlank c := by
  have ne {d : Char} (mem : d ∈ [' ', '\t', '#', '\n', '\r']) : c ≠ d :=
    ne_of_class own (Bool.eq_false_iff.2 (List.any_eq_false.1 others d mem))
  refine ⟨?_, ne (by simp), ne (by simp), ne (by simp)⟩
  simp [isSpace, ne (d := ' ') (by simp), ne (d := '\t') (by simp)]

/-- A scalar starts with a quote, a minus, a digit or a letter. -/
theorem Scalar.written_head (s : Scalar) :
    ∃ c cs, s.written.toList = c :: cs ∧ EndsBlank c ∧ c ≠ '[' ∧ c ≠ '{' := by
  cases s with
  | text s => exact ⟨'"', s.toList ++ ['"'], by simp [written], by decide, by decide, by decide⟩
  | truth b => cases b <;> exact ⟨_, _, rfl, by decide, by decide, by decide⟩
  | number n =>
    cases n with
    | negSucc n =>
      have repr : (number (.negSucc n)).written = "-" ++ Nat.repr (n + 1) := rfl
      exact ⟨'-', (Nat.repr (n + 1)).toList, by rw [repr, String.toList_append]; rfl, by decide,
        by decide, by decide⟩
    | ofNat n =>
      have digits : (number (.ofNat n)).written.toList = Nat.toDigits 10 n := Nat.toList_repr
      have decimal := decimal_toDigits n
      rw [digits]
      cases here : Nat.toDigits 10 n with
      | nil => exact absurd here Nat.toDigits_ne_nil
      | cons c cs =>
        rw [here] at decimal
        have first := decimal c List.mem_cons_self
        exact ⟨c, cs, rfl, endsBlank_of_class first rfl, ne_of_class first rfl, ne_of_class first rfl⟩

theorem value?_scalar {s : Scalar} (plain : s.Plain) (depth : Nat) {rest : List Char}
    (delimited : Delimited rest) : value? depth (s.written.toList ++ rest) = some (s.value, rest) := by
  have read := scalar?_written plain delimited
  obtain ⟨c, cs, written, -, bracket, brace⟩ := s.written_head
  rw [written, List.cons_append] at read ⊢
  rw [value?]
  · exact read
  · simp [bracket]
  · simp [brace]

/-! ### Lists -/

section

variable {α : Type} {item? : List Char → Option (α × List Char)} {separator? : List Char → Option (List Char)}
  {cs rest next : List Char} {x : α}

theorem sepBy?_none (none' : item? cs = none) : sepBy? item? separator? cs = none := by
  rw [sepBy?, none']
  rfl

theorem sepBy?_last (first : item? cs = some (x, rest)) (ends : separator? rest = none) :
    sepBy? item? separator? cs = some ([x], rest) := by
  rw [sepBy?, first]
  simp [ends]

theorem sepBy?_trailing (first : item? cs = some (x, rest)) (goes : separator? rest = some next)
    (nothing : item? next = none) : sepBy? item? separator? cs = some ([x], rest) := by
  rw [sepBy?, first]
  simp [goes, sepBy?_none nothing]

theorem sepBy?_more {xs : List α} {tail : List Char} (first : item? cs = some (x, rest))
    (goes : separator? rest = some next) (shorter : next.length < cs.length)
    (others : sepBy? item? separator? next = some (xs, tail)) :
    sepBy? item? separator? cs = some (x :: xs, tail) := by
  rw [sepBy?, first]
  simp [goes, shorter, others]

end

/-- A bracket that closes a list is no value. -/
theorem value?_bracket (depth : Nat) (rest : List Char) : value? depth (']' :: rest) = none := by
  have undated := moment?_nondecimal (show isDecimal ']' = false from rfl) rest
  have scalar : scalar? (']' :: rest) = none := by
    rw [scalar?, undated]
    rfl
  cases depth <;> exact scalar

theorem element?_scalar {s : Scalar} (plain : s.Plain) (depth : Nat) (blank : List Char)
    {rest : List Char} (blanks : ∀ cs, skipBlank false (blank ++ cs) = skipBlank false cs)
    (delimited : Delimited rest)    (ends : skipBlank false rest = rest) :
    element? (value? depth) (blank ++ (s.written.toList ++ rest)) = some (s.value, rest) := by
  obtain ⟨c, cs, written, head, -⟩ := s.written_head
  have start : skipBlank false (s.written.toList ++ rest) = s.written.toList ++ rest := by
    rw [written]
    exact skipBlank_of_ends head _
  rw [element?, blanks, start, value?_scalar plain depth delimited]
  simp [ends]

def listLines (ss : List Scalar) : List Char :=
  ss.flatMap fun s => "\n    ".toList ++ (s.written.toList ++ [','])

theorem listLines_cons (s : Scalar) (ss : List Scalar) (rest : List Char) :
    listLines (s :: ss) ++ rest = "\n    ".toList ++ (s.written.toList ++ ',' :: (listLines ss ++ rest)) := by
  simp [listLines]

/-- The elements of a list of several lines are read up to the last comma, which no element follows. -/
theorem sepBy?_listLines {s : Scalar} {ss : List Scalar} (plain : ∀ t ∈ s :: ss, t.Plain) (depth : Nat)
    (rest : List Char) :
    sepBy? (element? (value? depth)) (after? ',') (listLines (s :: ss) ++ '\n' :: ']' :: rest) =
      some ((s :: ss).map Scalar.value, ',' :: '\n' :: ']' :: rest) := by
  induction ss generalizing s with
  | nil =>
    have first := element?_scalar (plain s List.mem_cons_self) depth "\n    ".toList (fun _ => rfl)
      (.comma ('\n' :: ']' :: rest)) rfl
    have nothing : element? (value? depth) ('\n' :: ']' :: rest) = none := by
      have skip : skipBlank false ('\n' :: ']' :: rest) = ']' :: rest := rfl
      rw [element?, skip, value?_bracket]
      rfl
    rw [listLines_cons]
    exact sepBy?_trailing first rfl nothing
  | cons t ss ih =>
    obtain ⟨this, others⟩ := List.forall_mem_cons.1 plain
    have first := element?_scalar this depth "\n    ".toList (fun _ => rfl)
      (.comma (listLines (t :: ss) ++ '\n' :: ']' :: rest)) rfl
    rw [listLines_cons]
    refine sepBy?_more first rfl ?_ (ih others)
    simp
    omega

theorem Item.written_many (s t : Scalar) (ss : List Scalar) :
    (many (s :: t :: ss)).written.toList = '[' :: (listLines (s :: t :: ss) ++ ['\n', ']']) := by
  have lines (ss : List Scalar) :
      '\n' :: (String.join (ss.map fun s => "    " ++ s.written ++ ",\n")).toList =
        listLines ss ++ ['\n'] := by
    induction ss with
    | nil => rfl
    | cons s ss ih =>
      rw [listLines_cons, ← ih]
      simp
  have written : (many (s :: t :: ss)).written.toList = '[' :: '\n' ::
      (String.join ((s :: t :: ss).map fun s => "    " ++ s.written ++ ",\n")).toList ++ [']'] := by
    simp [Item.written]
  rw [written, List.cons_append, lines]
  simp

theorem array?_many {ss : List Scalar} (plain : ∀ s ∈ ss, s.Plain) (depth : Nat) (rest : List Char) :
    ∃ cs, (Item.many ss).written.toList = '[' :: cs ∧
      array? (value? depth) (cs ++ rest) = some (.array (ss.map Scalar.value), rest) := by
  match ss with
  | [] =>
    refine ⟨[']'], rfl, ?_⟩
    have empty : sepBy? (element? (value? depth)) (after? ',') (']' :: rest) = none := by
      have skip : skipBlank false (']' :: rest) = ']' :: rest := rfl
      refine sepBy?_none ?_
      rw [element?, skip, value?_bracket]
      rfl
    simp only [array?, List.cons_append, List.nil_append, empty]
    rfl
  | [s] =>
    refine ⟨s.written.toList ++ [']'], by simp [Item.written], ?_⟩
    have first := element?_scalar (plain s List.mem_cons_self) depth [] (fun _ => rfl)
      (.bracket rest) rfl
    have only : sepBy? (element? (value? depth)) (after? ',') (s.written.toList ++ ']' :: rest) =
        some ([s.value], ']' :: rest) := sepBy?_last first rfl
    simp only [array?, List.append_assoc, List.cons_append, List.nil_append, only]
    rfl
  | s :: t :: ss =>
    refine ⟨_, Item.written_many s t ss, ?_⟩
    have lines := sepBy?_listLines plain depth rest
    simp only [array?, List.append_assoc, List.cons_append, List.nil_append, lines]
    rfl

theorem Item.written_head (i : Item) : ∃ c cs, i.written.toList = c :: cs ∧ EndsBlank c := by
  cases i with
  | one s =>
    obtain ⟨c, cs, chars, ends, -⟩ := s.written_head
    exact ⟨c, cs, chars, ends⟩
  | many ss =>
    match ss with
    | [] => exact ⟨'[', [']'], rfl, by decide⟩
    | [s] => exact ⟨'[', s.written.toList ++ [']'], by simp [written], by decide⟩
    | s :: t :: ss => exact ⟨'[', _, written_many s t ss, by decide⟩

def Item.Plain : Item → Prop
  | one s => s.Plain
  | many ss => ∀ s ∈ ss, s.Plain

theorem value?_item {i : Item} (plain : i.Plain) (depth : Nat) {rest : List Char}
    (delimited : Delimited rest) : value? (depth + 1) (i.written.toList ++ rest) = some (i.value, rest) := by
  cases i with
  | one s => exact value?_scalar plain (depth + 1) delimited
  | many ss =>
    obtain ⟨cs, written, read⟩ := array?_many plain depth rest
    rw [written]
    exact read

end RadioCentral.Toml
