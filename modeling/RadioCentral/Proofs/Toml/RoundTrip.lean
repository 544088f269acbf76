import RadioCentral.Proofs.Toml.Statements

/-!
A document that needs no escape and uses no name twice is read back from its texts: its statements build
the table of its values.
-/
namespace RadioCentral.Toml

theorem lookup_eq_none {α : Type} {entries : List (String × α)} {key : String}
    (new : key ∉ entries.map Prod.fst) : entries.lookup key = none := by
  simp only [List.lookup_eq_none_iff, bne_iff_ne]
  rintro p mem rfl
  exact new (List.mem_map_of_mem mem)

theorem lookup_concat {α : Type} {entries : List (String × α)} {key : String}
    (new : key ∉ entries.map Prod.fst) (x : α) : (entries ++ [(key, x)]).lookup key = some x := by
  rw [List.lookup_append, lookup_eq_none new]
  simp

theorem Entries.replace_concat {entries : Entries} {key : String} (new : key ∉ entries.map Prod.fst)
    (old node : Node) : replace key node (entries ++ [(key, old)]) = entries ++ [(key, node)] := by
  have others : replace key node entries = entries := by
    refine (List.map_congr_left fun e mem => ?_).trans (List.map_id _)
    have other : e.1 ≠ key := by
      rintro rfl
      exact new (List.mem_map_of_mem mem)
    rw [if_neg other]
    rfl
  rw [replace, List.map_append, ← replace, others]
  simp

namespace Statement

variable {table : Entries} {name : String}

theorem step?_header (new : name ∉ table.map Prod.fst) (path : List String) :
    step? ⟨table, path⟩ (.header [name]) = some ⟨table ++ [(name, .table .explicit [])], [name]⟩ := by
  simp [step?, Entries.within?, Entries.openTable?, lookup_eq_none new, Entries.push]

/-- An entry goes into the table that was opened last. -/
theorem step?_entry (new : name ∉ table.map Prod.fst) {inner : Entries} {key : String}
    (fresh : key ∉ inner.map Prod.fst) (v : Value) :
    step? ⟨table ++ [(name, .table .explicit inner)], [name]⟩ (.entry [key] v) =
      some ⟨table ++ [(name, .table .explicit (inner ++ [(key, .value v)]))], [name]⟩ := by
  have entered : Entries.enter? [key] v .explicit inner = some (inner ++ [(key, .value v)]) := by
    simp [Entries.enter?, Entries.within?, Entries.add?, lookup_eq_none fresh, Entries.push]
  simp [step?, Entries.within?, lookup_concat new, entered, Entries.replace_concat new]

end Statement

def Section.built (s : Section) : Entries := s.entries.map fun e => (e.1, .value e.2.value)

def Document.built (d : Document) : Entries := d.map fun s => (s.name, .table .explicit s.built)

theorem foldlM_entries {table : Entries} {name : String} (new : name ∉ table.map Prod.fst) (inner : Entries)
    (entries : List (String × Item)) (distinct : (inner.map Prod.fst ++ entries.map Prod.fst).Nodup) :
    (entries.map fun e => Statement.entry [e.1] e.2.value).foldlM Statement.step?
        ⟨table ++ [(name, .table .explicit inner)], [name]⟩ =
      some ⟨table ++ [(name, .table .explicit (inner ++ entries.map fun e => (e.1, .value e.2.value)))],
        [name]⟩ := by
  induction entries generalizing inner with
  | nil => simp
  | cons e entries ih =>
    have fresh : e.1 ∉ inner.map Prod.fst := fun mem =>
      (List.nodup_append.1 distinct).2.2 _ mem _ List.mem_cons_self rfl
    have others := ih (inner ++ [(e.1, .value e.2.value)]) (by simpa using distinct)
    rw [List.map_cons, List.foldlM_cons, Statement.step?_entry new fresh]
    simpa using others

theorem foldlM_section {table : Entries} {s : Section} (new : s.name ∉ table.map Prod.fst)
    (distinct : (s.entries.map Prod.fst).Nodup) (path : List String) :
    s.statements.foldlM Statement.step? ⟨table, path⟩ =
      some ⟨table ++ [(s.name, .table .explicit s.built)], [s.name]⟩ := by
  have entries := foldlM_entries new [] s.entries distinct
  rw [Section.statements, List.foldlM_cons, Statement.step?_header new]
  exact entries

/-- A document that can be written as it is and in which no name stands for two things. -/
structure Document.Plain (d : Document) : Prop where
  sections : ∀ s ∈ d, s.Plain
  names : (d.map Section.name).Nodup
  keys : ∀ s ∈ d, (s.entries.map Prod.fst).Nodup

theorem foldlM_document (table : Entries) {d : Document} (keys : ∀ s ∈ d, (s.entries.map Prod.fst).Nodup)
    (distinct : (table.map Prod.fst ++ d.map Section.name).Nodup) (path : List String) :
    ∃ path', d.statements.foldlM Statement.step? ⟨table, path⟩ = some ⟨table ++ d.built, path'⟩ := by
  induction d generalizing table path with
  | nil => exact ⟨path, by simp [Document.statements, Document.built]⟩
  | cons s d ih =>
    obtain ⟨first, others⟩ := List.forall_mem_cons.1 keys
    have new : s.name ∉ table.map Prod.fst := fun mem =>
      (List.nodup_append.1 distinct).2.2 _ mem _ List.mem_cons_self rfl
    obtain ⟨path', rest⟩ := ih (table ++ [(s.name, .table .explicit s.built)]) others
      (by simpa using distinct) [s.name]
    refine ⟨path', ?_⟩
    have statements : Document.statements (s :: d) = s.statements ++ Document.statements d := rfl
    rw [statements, List.foldlM_append, foldlM_section new first path]
    simpa [Document.built] using rest

theorem valuesOf_section (s : Section) : valuesOf s.built = s.entries.map fun e => (e.1, e.2.value) := by
  unfold Section.built
  induction s.entries with
  | nil => rfl
  | cons e entries ih => simp [valuesOf, Node.toValue, ih]

theorem valuesOf_built (d : Document) : .table (valuesOf d.built) = d.value := by
  rw [Document.value, Document.built, Value.table.injEq]
  induction d with
  | nil => rfl
  | cons s d ih => simp [valuesOf, Node.toValue, ih, valuesOf_section, Section.value]

namespace Document

variable {d : Document} {text : String}

theorem Plain.build? (plain : d.Plain) : Statement.build? d.statements = some d.value := by
  obtain ⟨path, built⟩ := foldlM_document [] plain.keys plain.names []
  rw [Statement.build?, built, ← valuesOf_built]
  rfl

/-- No text of a document starts with a mark of the byte order. -/
theorem Plain.unmarked (plain : d.Plain) (laid : d.LaidOut text) (rest : List Char) :
    text.toList ≠ '\ufeff' :: rest := by
  obtain ⟨lines, filled, rfl⟩ := laid
  cases lines with
  | nil => simp [linesText]
  | cons line lines =>
    rw [toList_linesText_cons]
    by_cases empty : line = ""
    · simp [empty]
    · have reads := Document.reads plain.sections
      rw [← filled, List.filter_cons_of_pos (p := fun l => decide (l ≠ "")) (by simpa using empty)] at reads
      generalize d.statements = statements at reads
      cases reads with
      | cons reads _ =>
        obtain ⟨c, cs, chars, start⟩ := reads.starts
        rw [chars]
        rintro marked
        obtain ⟨rfl, -⟩ := List.cons.inj marked
        exact absurd start (by decide)

theorem Plain.ofText?_laidOut (plain : d.Plain) (laid : d.LaidOut text) :
    Value.ofText? text = some d.value := by
  rw [Value.ofText?]
  split
  · rename_i rest marked
    exact absurd marked (plain.unmarked laid rest)
  · rw [list?_laidOut plain.sections laid]
    exact plain.build?

end Document

end RadioCentral.Toml
