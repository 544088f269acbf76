import RadioCentral.Uuid

/-!
Finite sets of identifiers, kept as their ascending list, so that equal sets are equal values. The
view of a set is membership in that list.
-/
namespace RadioCentral

structure UuidSet where
  toList : List Uuid
  ascending : toList.Pairwise (· < ·)
  deriving DecidableEq

namespace UuidSet

def insertSorted (u : Uuid) : List Uuid → List Uuid
  | [] => [u]
  | v :: rest => if u < v then u :: v :: rest else if u = v then v :: rest else v :: insertSorted u rest

theorem mem_insertSorted {u x : Uuid} {l : List Uuid} :
    x ∈ insertSorted u l ↔ x = u ∨ x ∈ l := by
  induction l with
  | nil => simp [insertSorted]
  | cons v rest ih =>
    unfold insertSorted
    split
    · simp
    · split
      · rename_i h; subst h; simp
      · simp only [List.mem_cons, ih]; exact or_left_comm

theorem pairwise_insertSorted {u : Uuid} {l : List Uuid} (h : l.Pairwise (· < ·)) :
    (insertSorted u l).Pairwise (· < ·) := by
  induction l with
  | nil => simp [insertSorted]
  | cons v rest ih =>
    rw [List.pairwise_cons] at h
    unfold insertSorted
    split
    · rename_i before
      refine List.pairwise_cons.2 ⟨fun x hx => ?_, List.pairwise_cons.2 h⟩
      rcases List.mem_cons.1 hx with rfl | hx
      · exact before
      · exact Uuid.lt_trans before (h.1 x hx)
    · split
      · exact List.pairwise_cons.2 h
      · rename_i notBefore other
        refine List.pairwise_cons.2 ⟨fun x hx => ?_, ih h.2⟩
        rcases mem_insertSorted.1 hx with rfl | hx
        · exact Uuid.lt_of_not_lt_of_ne notBefore other
        · exact h.1 x hx

def empty : UuidSet := ⟨[], List.Pairwise.nil⟩

instance : EmptyCollection UuidSet := ⟨empty⟩
instance : Inhabited UuidSet := ⟨empty⟩
instance : Membership Uuid UuidSet := ⟨fun s u => u ∈ s.toList⟩
instance (u : Uuid) (s : UuidSet) : Decidable (u ∈ s) := inferInstanceAs (Decidable (u ∈ s.toList))

def insert (u : Uuid) (s : UuidSet) : UuidSet :=
  ⟨insertSorted u s.toList, pairwise_insertSorted s.ascending⟩

def erase (u : Uuid) (s : UuidSet) : UuidSet :=
  ⟨s.toList.filter (· ≠ u), s.ascending.filter _⟩

def isEmpty (s : UuidSet) : Bool := s.toList.isEmpty

def insertAll (us : List Uuid) (s : UuidSet) : UuidSet := us.foldl (fun s u => s.insert u) s

def eraseAll (us : List Uuid) (s : UuidSet) : UuidSet := us.foldl (fun s u => s.erase u) s

def ofList (us : List Uuid) : UuidSet := insertAll us ∅

@[simp] theorem mem_insert {u x : Uuid} {s : UuidSet} : x ∈ s.insert u ↔ x = u ∨ x ∈ s :=
  mem_insertSorted

@[simp] theorem mem_erase {u x : Uuid} {s : UuidSet} : x ∈ s.erase u ↔ x ∈ s ∧ x ≠ u := by
  show x ∈ s.toList.filter (· ≠ u) ↔ x ∈ s.toList ∧ x ≠ u
  simp

@[simp] theorem not_mem_empty (x : Uuid) : ¬ x ∈ (∅ : UuidSet) := List.not_mem_nil

@[simp] theorem mem_insertAll {us : List Uuid} {x : Uuid} {s : UuidSet} :
    x ∈ s.insertAll us ↔ x ∈ us ∨ x ∈ s := by
  induction us generalizing s with
  | nil => simp [insertAll]
  | cons u us ih =>
    have : s.insertAll (u :: us) = (s.insert u).insertAll us := rfl
    rw [this, ih, mem_insert, List.mem_cons]
    exact or_left_comm.trans or_assoc.symm

@[simp] theorem mem_eraseAll {us : List Uuid} {x : Uuid} {s : UuidSet} :
    x ∈ s.eraseAll us ↔ x ∈ s ∧ x ∉ us := by
  induction us generalizing s with
  | nil => simp [eraseAll]
  | cons u us ih =>
    have : s.eraseAll (u :: us) = (s.erase u).eraseAll us := rfl
    rw [this, ih, mem_erase, List.mem_cons, not_or, and_assoc]

theorem isEmpty_iff {s : UuidSet} : s.isEmpty = true ↔ ∀ x, ¬ x ∈ s := by
  simp only [isEmpty, List.isEmpty_iff, Membership.mem]
  exact List.eq_nil_iff_forall_not_mem

end UuidSet

end RadioCentral
