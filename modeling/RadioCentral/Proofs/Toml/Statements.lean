import Mathlib.Data.List.Forall2
import RadioCentral.Proofs.Toml.Items
import RadioCentral.Toml.Reading

/-!
A document as it is written is read as its statements, one after the other, however many empty lines
stand between them.
-/
namespace RadioCentral.Toml

/-! ### Keys -/

def IsWord (key : String) : Prop := key ≠ "" ∧ ∀ c ∈ key.toList, isBare c = true

instance (key : String) : Decidable (IsWord key) :=
  decidable_of_iff (key ≠ "" ∧ key.toList.all isBare = true) (and_congr_right' List.all_eq_true)

theorem endsBlank_of_bare {c : Char} (bare : isBare c = true) : EndsBlank c :=
  endsBlank_of_class bare rfl

theorem IsWord.head {key : String} (word : IsWord key) : ∃ c cs, key.toList = c :: cs ∧ isBare c = true := by
  cases chars : key.toList with
  | nil => exact absurd (String.toList_eq_nil_iff.1 chars) word.1
  | cons c cs => exact ⟨c, cs, rfl, word.2 c (by simp [chars])⟩

theorem key?_word {key : String} (word : IsWord key) {c : Char} {rest : List Char} (ends : isBare c = false)
    (only : after? '.' (skipSpaces (c :: rest)) = none) :
    key? (key.toList ++ c :: rest) = some ([key], skipSpaces (c :: rest)) := by
  have part : keyPart? (key.toList ++ c :: rest) = some (key, c :: rest) := by
    have taken : (key.toList ++ c :: rest).takeWhile isBare = key.toList := by
      rw [List.takeWhile_append_of_pos word.2, List.takeWhile_cons_of_neg (by simp [ends]), List.append_nil]
    have left : (key.toList ++ c :: rest).dropWhile isBare = c :: rest := by
      rw [List.dropWhile_append_of_pos word.2, List.dropWhile_cons_of_neg (by simp [ends])]
    obtain ⟨d, ds, chars, bare⟩ := word.head
    rw [chars, List.cons_append] at taken left ⊢
    rw [keyPart?]
    · simp [taken, left, ← chars, word.1]
    · simp [ne_of_class (d := '"') bare rfl]
    · simp [ne_of_class (d := '\'') bare rfl]
  have spaced : spacedPart? (key.toList ++ c :: rest) = some (key, skipSpaces (c :: rest)) := by
    obtain ⟨d, ds, chars, bare⟩ := word.head
    have start : skipSpaces (key.toList ++ c :: rest) = key.toList ++ c :: rest := by
      rw [chars]
      exact skipSpaces_of_ends (endsBlank_of_bare bare) _
    rw [spacedPart?, start, part]
    rfl
  rw [key?, sepBy?_last spaced only]
  rfl

/-! ### Statements -/

structure Reads (piece : String) (statement : Statement) : Prop where
  starts : ∃ c cs, piece.toList = c :: cs ∧ (c = '[' ∨ isBare c = true)
  read : ∀ rest, Statement.ofChars? (piece.toList ++ '\n' :: rest) = some (statement, '\n' :: rest)

theorem Reads.header {name : String} (word : IsWord name) : Reads ("[" ++ name ++ "]") (.header [name]) where
  starts := ⟨'[', name.toList ++ [']'], by simp, Or.inl rfl⟩
  read rest := by
    have written : ("[" ++ name ++ "]").toList ++ '\n' :: rest =
        '[' :: (name.toList ++ ']' :: '\n' :: rest) := by
      simp
    have key : key? (name.toList ++ ']' :: '\n' :: rest) = some ([name], ']' :: '\n' :: rest) :=
      key?_word word rfl rfl
    obtain ⟨c, cs, chars, bare⟩ := word.head
    rw [chars, List.cons_append] at key
    rw [written, chars, List.cons_append, Statement.ofChars?]
    · rw [key]
      rfl
    · simp [ne_of_class (d := '[') bare rfl]

theorem keyValue?_item {key : String} {item : Item} (word : IsWord key) (plain : item.Plain)
    (rest : List Char) :
    keyValue? (value? maxDepth) (key.toList ++ ' ' :: '=' :: ' ' :: (item.written.toList ++ '\n' :: rest)) =
      some (([key], item.value), '\n' :: rest) := by
  have start : skipSpaces (' ' :: (item.written.toList ++ '\n' :: rest)) =
      item.written.toList ++ '\n' :: rest := by
    obtain ⟨c, cs, chars, ends⟩ := item.written_head
    rw [chars]
    exact skipSpaces_of_ends ends _
  have equals : after? '=' (skipSpaces (' ' :: '=' :: ' ' :: (item.written.toList ++ '\n' :: rest))) =
      some (' ' :: (item.written.toList ++ '\n' :: rest)) := rfl
  have value : value? maxDepth (item.written.toList ++ '\n' :: rest) = some (item.value, '\n' :: rest) :=
    value?_item plain _ (.newline rest)
  rw [keyValue?, key?_word word rfl rfl]
  simp only [Option.bind_eq_bind, Option.bind_some, equals, start, value]
  rfl

theorem Reads.entry {key : String} {item : Item} (word : IsWord key) (plain : item.Plain) :
    Reads (key ++ " = " ++ item.written) (.entry [key] item.value) where
  starts := by
    obtain ⟨c, cs, chars, bare⟩ := word.head
    exact ⟨c, cs ++ (" = ".toList ++ item.written.toList), by simp [chars], Or.inr bare⟩
  read rest := by
    have written : (key ++ " = " ++ item.written).toList ++ '\n' :: rest =
        key.toList ++ ' ' :: '=' :: ' ' :: (item.written.toList ++ '\n' :: rest) := by
      simp
    have found := keyValue?_item word plain rest
    obtain ⟨c, cs, chars, bare⟩ := word.head
    rw [chars, List.cons_append] at found
    rw [written, chars, List.cons_append, Statement.ofChars?]
    · rw [found]
      rfl
    · simp [ne_of_class (d := '[') bare rfl]
    · simp [ne_of_class (d := '[') bare rfl]

theorem Reads.endsBlank {piece : String} {statement : Statement} (reads : Reads piece statement) :
    ∃ c cs, piece.toList = c :: cs ∧ EndsBlank c := by
  obtain ⟨c, cs, chars, rfl | bare⟩ := reads.starts
  · exact ⟨_, cs, chars, by decide⟩
  · exact ⟨c, cs, chars, endsBlank_of_bare bare⟩

theorem skipBlank_newlines (n : Nat) (cs : List Char) :
    skipBlank false (List.replicate n '\n' ++ cs) = skipBlank false cs := by
  induction n with
  | zero => rfl
  | succ n ih => exact ih

theorem list?_of_blank {cs : List Char} (blank : skipBlank false cs = []) : Statement.list? cs = some [] := by
  rw [Statement.list?, blank]

theorem list?_of_next {cs found rest next : List Char} {c : Char} {statement : Statement}
    {statements : List Statement} (starts : skipBlank false cs = c :: found)
    (read : Statement.ofChars? (c :: found) = some (statement, rest)) (ends : lineEnd? rest = some next)
    (shorter : next.length < cs.length) (others : Statement.list? next = some statements) :
    Statement.list? cs = some (statement :: statements) := by
  rw [Statement.list?, starts]
  simp [read, ends, shorter, others]

def linesText (lines : List String) : String := String.join (lines.map (· ++ "\n"))

theorem toList_linesText_cons (line : String) (lines : List String) :
    (linesText (line :: lines)).toList = line.toList ++ '\n' :: (linesText lines).toList := by
  simp [linesText]

/-- The induction carries the empty lines that were passed since the last statement. -/
theorem list?_lines {lines : List String} {statements : List Statement}
    (reads : List.Forall₂ Reads (lines.filter (· ≠ "")) statements) (passed : Nat) :
    Statement.list? (List.replicate passed '\n' ++ (linesText lines).toList) = some statements := by
  induction lines generalizing statements passed with
  | nil =>
    cases reads
    exact list?_of_blank (skipBlank_newlines passed [])
  | cons line lines ih =>
    by_cases empty : line = ""
    · subst empty
      have more : List.replicate passed '\n' ++ (linesText ("" :: lines)).toList =
          List.replicate (passed + 1) '\n' ++ (linesText lines).toList := by
        rw [toList_linesText_cons, List.replicate_succ']
        simp
      rw [more]
      exact ih reads (passed + 1)
    · rw [List.filter_cons_of_pos (by simpa using empty)] at reads
      cases reads with
      | cons reads others =>
        obtain ⟨c, cs, chars, ends⟩ := reads.endsBlank
        have read := reads.read (linesText lines).toList
        rw [toList_linesText_cons, chars] at *
        refine list?_of_next ?_ read rfl ?_ (ih others 0)
        · rw [skipBlank_newlines]
          exact skipBlank_of_ends ends _
        · simp
          omega

/-! ### Documents -/

structure Section.Plain (s : Section) : Prop where
  name : IsWord s.name
  keys : ∀ e ∈ s.entries, IsWord e.1
  items : ∀ e ∈ s.entries, e.2.Plain

def Section.lines (s : Section) : List String :=
  ("[" ++ s.name ++ "]") :: s.entries.map fun e => e.1 ++ " = " ++ e.2.written

def Section.statements (s : Section) : List Statement :=
  .header [s.name] :: s.entries.map fun e => .entry [e.1] e.2.value

theorem Section.Plain.reads {s : Section} (plain : s.Plain) : List.Forall₂ Reads s.lines s.statements := by
  refine .cons (.header plain.name) ?_
  rw [List.forall₂_map_left_iff, List.forall₂_map_right_iff, List.forall₂_same]
  exact fun e mem => .entry (plain.keys e mem) (plain.items e mem)

namespace Document

def lines (d : Document) : List String := d.flatMap Section.lines

def statements (d : Document) : List Statement := d.flatMap Section.statements

/-- A text of a document: what stands on its lines, in order, with any number of empty lines before,
between and behind. -/
def LaidOut (d : Document) (text : String) : Prop :=
  ∃ lines, lines.filter (· ≠ "") = d.lines ∧ text = linesText lines

theorem reads {d : Document} (plain : ∀ s ∈ d, s.Plain) : List.Forall₂ Reads d.lines d.statements := by
  induction d with
  | nil => exact .nil
  | cons s d ih =>
    obtain ⟨first, others⟩ := List.forall_mem_cons.1 plain
    exact List.rel_append first.reads (ih others)

theorem list?_laidOut {d : Document} (plain : ∀ s ∈ d, s.Plain) {text : String} (laid : d.LaidOut text) :
    Statement.list? text.toList = some d.statements := by
  obtain ⟨lines, filled, rfl⟩ := laid
  exact list?_lines (filled ▸ reads plain) 0

end Document

theorem Section.written_eq (s : Section) : s.written = linesText s.lines := by
  have entries : (s.entries.map fun e => e.1 ++ " = " ++ e.2.written ++ "\n") =
      (s.entries.map fun e => e.1 ++ " = " ++ e.2.written).map (· ++ "\n") := by
    rw [List.map_map]
    rfl
  rw [written, entries, linesText, lines, List.map_cons, String.join_cons]
  simp [String.append_assoc]

theorem Section.filter_lines (s : Section) : s.lines.filter (· ≠ "") = s.lines := by
  refine List.filter_eq_self.2 fun line mem => ?_
  rcases List.mem_cons.1 mem with rfl | entry
  · simp
  · obtain ⟨e, -, rfl⟩ := List.mem_map.1 entry
    simp

/-- A document is written with one empty line between its sections. -/
theorem Document.written_laidOut (d : Document) : d.LaidOut d.written := by
  induction d with
  | nil => exact ⟨[], rfl, by simp [written, linesText]⟩
  | cons s d ih =>
    obtain ⟨lines, filled, text⟩ := ih
    cases d with
    | nil =>
      refine ⟨s.lines, s.filter_lines.trans ?_, by simp [written, s.written_eq]⟩
      simp [Document.lines]
    | cons t d =>
      refine ⟨s.lines ++ "" :: lines, ?_, ?_⟩
      · rw [List.filter_append, s.filter_lines, List.filter_cons_of_neg (by simp), filled]
        rfl
      · have joined : written (s :: t :: d) = s.written ++ "\n" ++ written (t :: d) :=
          String.intercalate_cons_cons
        rw [joined, text, s.written_eq]
        simp [linesText, String.append_assoc]

end RadioCentral.Toml
