import Mathlib.Algebra.Group.Int.Defs
import Mathlib.Data.List.Basic
import RadioCentral.Advert

/-!
The grammar of advertisements, without a cursor: how a byte string falls into records and a rest, which
services a record lists, and which byte strings call for a connection. Parsing decides exactly this.
-/
namespace RadioCentral

namespace Bytes

/-- The pieces are the stretches of full length that begin at a multiple of it. -/
theorem mem_pieces {n : Nat} (pos : 0 < n) {bytes piece : Bytes} :
    piece ∈ pieces n bytes ↔
      ∃ before after, bytes = before ++ piece ++ after ∧ n ∣ before.length ∧ piece.length = n := by
  fun_induction pieces n bytes with
  | case1 bytes more ih =>
    have front : (bytes.take n).length = n := List.length_take_of_le more.2
    rw [List.mem_cons, ih]
    constructor
    · rintro (rfl | ⟨before, after, split, aligned, whole⟩)
      · exact ⟨[], bytes.drop n, by simp, by simp, front⟩
      · refine ⟨bytes.take n ++ before, after, ?_, ?_, whole⟩
        · rw [List.append_assoc, List.append_assoc, ← List.append_assoc before, ← split,
            List.take_append_drop]
        · rw [List.length_append, front]
          exact Nat.dvd_add (Nat.dvd_refl n) aligned
    · rintro ⟨before, after, rfl, aligned, whole⟩
      by_cases first : before = []
      · left
        rw [first, List.nil_append, ← whole, List.take_left]
      · right
        have long : n ≤ before.length := Nat.le_of_dvd (List.length_pos_iff.2 first) aligned
        refine ⟨before.drop n, after, ?_, ?_, whole⟩
        · rw [List.append_assoc, List.drop_append_of_le_length long, List.append_assoc]
        · rw [List.length_drop]
          exact Nat.dvd_sub aligned (Nat.dvd_refl n)
  | case2 bytes none =>
    have short : bytes.length < n := by omega
    constructor
    · intro mem
      cases mem
    · rintro ⟨before, after, rfl, -, whole⟩
      simp only [List.length_append] at short
      omega

theorem leValue_pair (lo hi : UInt8) : leValue [lo, hi] = lo.toNat + 256 * hi.toNat := by
  simp [leValue]

def signed (b₀ b₁ b₂ b₃ : UInt8) : Int :=
  let n := ((b₀.toNat * 256 + b₁.toNat) * 256 + b₂.toNat) * 256 + b₃.toNat
  if b₀.toNat < 128 then n else n - 2 ^ 32

end Bytes

namespace Advert

/-- What belongs to no record: too few bytes, a length of zero, or one that runs past the end. -/
inductive Leftover : Bytes → Prop where
  | short {bytes : Bytes} (few : bytes.length < 2) : Leftover bytes
  | zero {rest : Bytes} : Leftover (0 :: rest)
  | past {length : UInt8} {rest : Bytes} (more : rest.length < length.toNat) : Leftover (length :: rest)

inductive Cut : Bytes → List Record → Bytes → Prop where
  | stop {rest : Bytes} (left : Leftover rest) : Cut rest [] rest
  | record {length : UInt8} {r : Record} {bytes rest : Bytes} {records : List Record}
      (fits : length.toNat = r.payload.length + 1) (cut : Cut bytes records rest) :
      Cut (length :: r.kind :: (r.payload ++ bytes)) (r :: records) rest

theorem leftover_iff {bytes : Bytes} : Leftover bytes ↔ Record.next? bytes = none := by
  match bytes with
  | [] => exact ⟨fun _ => rfl, fun _ => .short (by simp)⟩
  | [b] => exact ⟨fun _ => rfl, fun _ => .short (by simp)⟩
  | length :: kind :: rest =>
    have stops : Record.next? (length :: kind :: rest) = none ↔
        length.toNat = 0 ∨ length.toNat - 1 > rest.length := by
      simp only [Record.next?]
      split
      · rename_i stops
        simpa using stops
      · rename_i goes
        simpa using goes
    rw [stops]
    constructor
    · intro left
      cases left with
      | short few =>
        simp only [List.length_cons] at few
        omega
      | zero => exact Or.inl rfl
      | past more =>
        simp only [List.length_cons] at more
        omega
    · rintro (zero | past)
      · obtain rfl : length = 0 := UInt8.toNat_inj.1 zero
        exact .zero
      · refine .past ?_
        simp only [List.length_cons]
        omega

theorem next?_record {length : UInt8} {r : Record} (fits : length.toNat = r.payload.length + 1)
    (bytes : Bytes) : Record.next? (length :: r.kind :: (r.payload ++ bytes)) = some (r, bytes) := by
  have payload : length.toNat - 1 = r.payload.length := by omega
  have inside : ¬ (length.toNat = 0 ∨ r.payload.length > (r.payload ++ bytes).length) := by
    rw [List.length_append]
    omega
  simp only [Record.next?, payload, if_neg inside, List.take_left, List.drop_left]

theorem record_of_next? {bytes rest : Bytes} {r : Record} (h : Record.next? bytes = some (r, rest)) :
    ∃ length : UInt8, length.toNat = r.payload.length + 1 ∧ bytes = length :: r.kind :: (r.payload ++ rest) := by
  match bytes, h with
  | length :: kind :: tail, h =>
    simp only [Record.next?] at h
    split at h
    · cases h
    · rename_i inside
      cases h
      refine ⟨length, ?_, by simp⟩
      have whole : (tail.take (length.toNat - 1)).length = length.toNat - 1 :=
        List.length_take_of_le (by omega)
      show length.toNat = (tail.take (length.toNat - 1)).length + 1
      omega

/-- Every byte string falls into the records that are read off its front, and a rest. -/
theorem cut_split (bytes : Bytes) : ∃ rest, Cut bytes (Record.split bytes) rest := by
  fun_induction Record.split bytes with
  | case1 bytes none => exact ⟨bytes, .stop (leftover_iff.2 none)⟩
  | case2 bytes r rest next ih =>
    obtain ⟨left, cut⟩ := ih
    obtain ⟨length, fits, rfl⟩ := record_of_next? next
    exact ⟨left, .record fits cut⟩

/-- It does so in one way only. -/
theorem Cut.records_eq {bytes rest : Bytes} {records : List Record} (cut : Cut bytes records rest) :
    records = Record.split bytes := by
  induction cut with
  | stop left =>
    have none := leftover_iff.1 left
    rw [Record.split]
    split
    · rfl
    · rename_i next
      rw [none] at next
      cases next
  | @record length r bytes rest records fits cut ih =>
    have here := next?_record fits bytes
    rw [Record.split]
    split
    · rename_i left
      rw [here] at left
      cases left
    · rename_i r' rest' next
      rw [here] at next
      cases next
      rw [ih]

/-- A record lists a service: among short identifiers, or among long ones. Both stand in the payload
one after the other, least significant byte first. -/
inductive Lists (service : Uuid) (r : Record) : Prop where
  | short {before after : Bytes} {lo hi : UInt8} (kind : r.kind = 0x02 ∨ r.kind = 0x03)
      (split : r.payload = before ++ [lo, hi] ++ after) (aligned : 2 ∣ before.length)
      (names : service = Uuid.expand (UInt16.ofNat (lo.toNat + 256 * hi.toNat)))
  | long {before piece after : Bytes} (kind : r.kind = 0x06 ∨ r.kind = 0x07)
      (split : r.payload = before ++ piece ++ after) (aligned : 16 ∣ before.length)
      (whole : piece.length = 16) (names : service = Uuid.ofNat (Bytes.leValue piece))

theorem Kind.ofByte?_short {byte : UInt8} :
    Kind.ofByte? byte = some .shortServices ↔ byte = 0x02 ∨ byte = 0x03 := by
  unfold Kind.ofByte?
  split
  · simp_all
  · split
    · simp_all
    · split <;> simp_all

theorem Kind.ofByte?_long {byte : UInt8} :
    Kind.ofByte? byte = some .longServices ↔ byte = 0x06 ∨ byte = 0x07 := by
  unfold Kind.ofByte?
  split
  · rename_i short
    rcases short with rfl | rfl <;> decide
  · split
    · simp_all
    · split <;> simp_all

theorem Kind.ofByte?_data {byte : UInt8} : Kind.ofByte? byte = some .serviceData ↔ byte = 0x16 := by
  unfold Kind.ofByte?
  split
  · rename_i short
    rcases short with rfl | rfl <;> decide
  · split
    · rename_i long
      rcases long with rfl | rfl <;> decide
    · split <;> simp_all

theorem mem_servicesOf {service : Uuid} {r : Record} : service ∈ servicesOf r ↔ Lists service r := by
  have pair : ∀ piece, piece ∈ Bytes.pieces 2 r.payload ↔ _ := fun _ => Bytes.mem_pieces (by decide)
  have sixteen : ∀ piece, piece ∈ Bytes.pieces 16 r.payload ↔ _ := fun _ => Bytes.mem_pieces (by decide)
  constructor
  · intro mem
    unfold servicesOf at mem
    split at mem
    · rename_i kind
      obtain ⟨piece, cut, rfl⟩ := List.mem_map.1 mem
      obtain ⟨before, after, split, aligned, whole⟩ := (pair piece).1 cut
      obtain ⟨lo, hi, rfl⟩ := List.length_eq_two.1 whole
      exact .short (Kind.ofByte?_short.1 kind) split aligned (by rw [Bytes.leValue_pair])
    · rename_i kind
      obtain ⟨piece, cut, rfl⟩ := List.mem_map.1 mem
      obtain ⟨before, after, split, aligned, whole⟩ := (sixteen piece).1 cut
      exact .long (Kind.ofByte?_long.1 kind) split aligned whole rfl
    · cases mem
  · intro lists
    cases lists with
    | @short before after lo hi kind split aligned names =>
      have mem := (pair [lo, hi]).2 ⟨before, after, split, aligned, rfl⟩
      rw [names, ← Bytes.leValue_pair]
      simp only [servicesOf, Kind.ofByte?_short.2 kind]
      exact List.mem_map.2 ⟨_, mem, rfl⟩
    | @long before piece after kind split aligned whole names =>
      have mem := (sixteen piece).2 ⟨before, after, split, aligned, whole⟩
      rw [names]
      simp only [servicesOf, Kind.ofByte?_long.2 kind]
      exact List.mem_map.2 ⟨_, mem, rfl⟩

theorem mem_addService {services : List Uuid} {u v : Uuid} :
    u ∈ addService services v ↔ u ∈ services ∨ u = v := by
  unfold addService
  split
  · rename_i listed
    refine ⟨Or.inl, fun h => h.elim id ?_⟩
    rintro rfl
    exact listed
  · simp

theorem mem_addServices {services more : List Uuid} {u : Uuid} :
    u ∈ more.foldl addService services ↔ u ∈ services ∨ u ∈ more := by
  induction more generalizing services with
  | nil => simp
  | cons v more ih => rw [List.foldl_cons, ih, mem_addService, List.mem_cons, or_assoc]

theorem mem_services_extend {records : List Record} {a : Advert} {u : Uuid} :
    u ∈ (records.foldl extend a).services ↔ u ∈ a.services ∨ ∃ r ∈ records, Lists u r := by
  induction records generalizing a with
  | nil => simp
  | cons r records ih =>
    rw [List.foldl_cons, ih]
    show u ∈ (servicesOf r).foldl addService a.services ∨ _ ↔ _
    rw [mem_addServices, mem_servicesOf, List.exists_mem_cons_iff, or_assoc]

theorem serviceData_extend (records : List Record) (a : Advert) :
    (records.foldl extend a).serviceData = a.serviceData ++ records.filterMap serviceDataOf := by
  induction records generalizing a with
  | nil => simp
  | cons r records ih =>
    rw [List.foldl_cons, ih]
    show (a.serviceData ++ (serviceDataOf r).toList) ++ _ = _
    rw [List.filterMap_cons, List.append_assoc]
    cases serviceDataOf r <;> rfl

def holdsData (r : Record) : Bool := r.kind == 0x16 && decide (2 ≤ r.payload.length)

theorem serviceDataOf_eq (r : Record) :
    serviceDataOf r = if holdsData r then
      some ⟨UInt16.ofNat (Bytes.leValue (r.payload.take 2)), r.payload.drop 2⟩ else none := by
  simp only [serviceDataOf, Kind.ofByte?_data, holdsData, Bool.and_eq_true, beq_iff_eq, decide_eq_true_eq]

/-- The only service data there is begins with a number above ours. -/
inductive Outbids (localNonce : Int32) : List Record → Prop where
  | only {records : List Record} {r : Record} {lo hi b₀ b₁ b₂ b₃ : UInt8} {more : Bytes}
      (single : records.filter holdsData = [r])
      (payload : r.payload = lo :: hi :: b₀ :: b₁ :: b₂ :: b₃ :: more)
      (above : localNonce.toInt < Bytes.signed b₀ b₁ b₂ b₃) : Outbids localNonce records

def Invites (service : Uuid) (localNonce : Int32) (bytes : Bytes) : Prop :=
  ∃ records rest, Cut bytes records rest ∧ (∃ r ∈ records, Lists service r) ∧ Outbids localNonce records

theorem toInt_nonceOf (b₀ b₁ b₂ b₃ : UInt8) :
    (nonceOf [b₀, b₁, b₂, b₃]).toInt = Bytes.signed b₀ b₁ b₂ b₃ := by
  have h₀ := b₀.toNat_lt
  have h₁ := b₁.toNat_lt
  have h₂ := b₂.toNat_lt
  have h₃ := b₃.toNat_lt
  have value : Bytes.beValue [b₀, b₁, b₂, b₃] =
      ((b₀.toNat * 256 + b₁.toNat) * 256 + b₂.toNat) * 256 + b₃.toNat := by
    simp only [Bytes.beValue, List.reverse_cons, List.reverse_nil, List.nil_append, List.cons_append,
      Bytes.leValue]
    omega
  have small : Bytes.beValue [b₀, b₁, b₂, b₃] < 2 ^ 32 := by omega
  rw [nonceOf, Int32.toInt_ofBitVec, BitVec.toInt_eq_toNat_cond, BitVec.toNat_ofNat,
    Nat.mod_eq_of_lt small, value]
  simp only [Bytes.signed]
  split <;> split <;> omega

theorem nonce?_single {a : Advert} {data : ServiceData} (single : a.serviceData = [data]) :
    a.nonce? = if 4 ≤ data.data.length then some (nonceOf (data.data.take 4)) else none := by
  simp only [nonce?, single]

theorem serviceData_eq (records : List Record) :
    records.filterMap serviceDataOf = (records.filter holdsData).map fun r =>
      ⟨UInt16.ofNat (Bytes.leValue (r.payload.take 2)), r.payload.drop 2⟩ := by
  induction records with
  | nil => rfl
  | cons r records ih =>
    rw [List.filterMap_cons, serviceDataOf_eq, List.filter_cons]
    cases holdsData r with
    | false => exact ih
    | true => simp [ih]

/-- The nonce that is read is the number at the front of the only service data there is. -/
theorem outbids_iff {localNonce : Int32} {a : Advert} {records : List Record}
    (read : a.serviceData = records.filterMap serviceDataOf) :
    (∃ nonce, a.nonce? = some nonce ∧ localNonce < nonce) ↔ Outbids localNonce records := by
  rw [serviceData_eq] at read
  constructor
  · rintro ⟨nonce, found, above⟩
    match single : records.filter holdsData with
    | [] =>
      rw [single] at read
      simp [nonce?, read] at found
    | [r] =>
      rw [single] at read
      rw [nonce?_single read] at found
      split at found
      · rename_i enough
        obtain rfl := Option.some.inj found
        match payload : r.payload with
        | lo :: hi :: b₀ :: b₁ :: b₂ :: b₃ :: more =>
          refine .only single payload ?_
          rw [← toInt_nonceOf, ← Int32.lt_iff_toInt_lt]
          simpa [payload] using above
        | [] | [_] | [_, _] | [_, _, _] | [_, _, _, _] | [_, _, _, _, _] => simp [payload] at enough
      · cases found
    | _ :: _ :: _ =>
      rw [single] at read
      simp [nonce?, read] at found
  · intro outbids
    cases outbids with
    | @only r lo hi b₀ b₁ b₂ b₃ more single payload above =>
      rw [single] at read
      refine ⟨nonceOf [b₀, b₁, b₂, b₃], ?_, ?_⟩
      · rw [nonce?_single read]
        simp [payload]
      · rw [Int32.lt_iff_toInt_lt, toInt_nonceOf]
        exact above

/-- The verdict is to connect exactly on the byte strings that call for it. -/
theorem verdict_connect_iff {service : Uuid} {localNonce : Int32} {bytes : Bytes} :
    (∃ nonce, (parse bytes).verdict service localNonce = .connect nonce) ↔
      Invites service localNonce bytes := by
  have listed : (parse bytes).advertises service = true ↔ ∃ r ∈ Record.split bytes, Lists service r := by
    rw [advertises, decide_eq_true_eq, parse, mem_services_extend]
    simp
  have read : (parse bytes).serviceData = (Record.split bytes).filterMap serviceDataOf := by
    rw [parse, serviceData_extend, List.nil_append]
  have connects : (∃ nonce, (parse bytes).verdict service localNonce = .connect nonce) ↔
      (parse bytes).advertises service = true ∧
        ∃ nonce, (parse bytes).nonce? = some nonce ∧ localNonce < nonce := by
    unfold verdict
    cases (parse bytes).advertises service with
    | false => simp
    | true =>
      cases (parse bytes).nonce? with
      | none => simp [Verdict.ofNonce]
      | some nonce =>
        simp only [↓reduceIte, Verdict.ofNonce]
        split <;> simp [*]
  rw [connects, listed, outbids_iff read]
  constructor
  · rintro ⟨lists, outbids⟩
    obtain ⟨rest, cut⟩ := cut_split bytes
    exact ⟨Record.split bytes, rest, cut, lists, outbids⟩
  · rintro ⟨records, rest, cut, lists, outbids⟩
    obtain rfl := cut.records_eq
    exact ⟨lists, outbids⟩

end Advert

end RadioCentral
