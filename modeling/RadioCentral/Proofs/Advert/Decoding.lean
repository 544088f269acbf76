import Mathlib.Data.List.Basic
import Mathlib.Data.List.Forall2
import Mathlib.Data.List.Induction
import Mathlib.Tactic.Ring
import RadioCentral.Proofs.Advert.Grammar

/-!
What a byte string says as an advertisement, read off its grammar: it falls into records and a rest in
one way, each record says something by its type, and the advert collects what the records say. The
parser decodes exactly this, and a reader that moves a cursor over the bytes and checks every access
gives the same advert, so no access of it is ever out of range.
-/
namespace RadioCentral

/-- The base leaves the bits free that a short identifier takes. -/
theorem Uuid.expand_eq_or (short : UInt16) :
    Uuid.expand short = Uuid.ofNat (Uuid.base ||| short.toNat <<< 96) := by
  rw [Uuid.expand, Nat.add_comm, Nat.or_comm, Nat.shiftLeft_add_eq_or_of_lt (by decide)]

namespace Bytes

/-- Pieces of a fixed length in a row, and after them too few bytes for one more. -/
inductive Pieces (n : Nat) : Bytes → List Bytes → Prop where
  | rest {bytes : Bytes} (few : bytes.length < n) : Pieces n bytes []
  | piece {piece bytes : Bytes} {more : List Bytes} (whole : piece.length = n)
      (cut : Pieces n bytes more) : Pieces n (piece ++ bytes) (piece :: more)

theorem pieces_iff {n : Nat} (pos : 0 < n) {bytes : Bytes} {cut : List Bytes} :
    Pieces n bytes cut ↔ cut = pieces n bytes := by
  constructor
  · intro h
    induction h with
    | rest few => rw [pieces, dif_neg (by omega)]
    | @piece piece bytes more whole cut ih =>
      have enough : n ≤ (piece ++ bytes).length := by
        rw [List.length_append]
        omega
      rw [pieces, dif_pos ⟨pos, enough⟩, ih, ← whole, List.take_left, List.drop_left]
  · rintro rfl
    fun_induction pieces n bytes with
    | case1 bytes more ih =>
      have cut := Pieces.piece (List.length_take_of_le more.2) ih
      rwa [List.take_append_drop] at cut
    | case2 bytes none => exact .rest (by omega)

theorem length_of_mem_pieces {n : Nat} (pos : 0 < n) {bytes piece : Bytes}
    (mem : piece ∈ pieces n bytes) : piece.length = n := by
  obtain ⟨_, _, -, -, whole⟩ := (mem_pieces pos).1 mem
  exact whole

theorem leValue_append (front back : Bytes) :
    leValue (front ++ back) = leValue front + 256 ^ front.length * leValue back := by
  induction front with
  | nil => simp [leValue]
  | cons b front ih =>
    simp only [List.cons_append, leValue, ih, List.length_cons, Nat.pow_succ]
    ring

theorem exists_of_two_le {bytes : Bytes} (enough : 2 ≤ bytes.length) :
    ∃ lo hi rest, bytes = lo :: hi :: rest := by
  obtain ⟨lo, more, rfl⟩ := List.exists_cons_of_length_pos (Nat.lt_of_lt_of_le Nat.two_pos enough)
  obtain ⟨hi, rest, rfl⟩ := List.exists_cons_of_length_pos (Nat.le_of_succ_le_succ enough)
  exact ⟨lo, hi, rest, rfl⟩

end Bytes

namespace Advert

/-! ### Records and rest -/

theorem Cut.bytes_eq {bytes rest : Bytes} {records : List Record} (cut : Cut bytes records rest) :
    bytes = records.flatMap Record.encode ++ rest := by
  induction cut with
  | stop left => rfl
  | @record length r bytes rest records fits cut ih =>
    have short : r.payload.length ≤ Record.maxPayload := by
      have := length.toNat_lt
      simp only [Record.maxPayload]
      omega
    have number : UInt8.ofNat (r.payload.length + 1) = length := by
      rw [← fits]
      exact UInt8.ofNat_toNat
    have encoded : r.encode = length :: r.kind :: r.payload := by
      simp only [Record.encode, List.take_of_length_le short, number]
    rw [List.flatMap_cons, encoded, List.append_assoc, ← ih]
    rfl

/-- A byte string falls into records and a rest in one way. -/
theorem Cut.unique {bytes rest rest' : Bytes} {records records' : List Record}
    (cut : Cut bytes records rest) (cut' : Cut bytes records' rest') :
    records' = records ∧ rest' = rest := by
  have same : records' = records := cut'.records_eq.trans cut.records_eq.symm
  subst same
  exact ⟨rfl, List.append_cancel_left (cut'.bytes_eq.symm.trans cut.bytes_eq)⟩

/-! ### What the records say -/

/-- What a record says by its type. Bytes that are too few for an identifier say nothing. -/
inductive Conveys (r : Record) : Advert → Prop where
  | short {pieces : List Bytes} (kind : r.kind = 0x02 ∨ r.kind = 0x03)
      (cut : Bytes.Pieces 2 r.payload pieces) :
      Conveys r ⟨pieces.map fun piece => Uuid.expand (UInt16.ofNat (Bytes.leValue piece)), []⟩
  | long {pieces : List Bytes} (kind : r.kind = 0x06 ∨ r.kind = 0x07)
      (cut : Bytes.Pieces 16 r.payload pieces) :
      Conveys r ⟨pieces.map fun piece => Uuid.ofNat (Bytes.leValue piece), []⟩
  | data {lo hi : UInt8} {data : Bytes} (kind : r.kind = 0x16) (payload : r.payload = lo :: hi :: data) :
      Conveys r ⟨[], [⟨UInt16.ofNat (lo.toNat + 256 * hi.toNat), data⟩]⟩
  | unnamed (kind : r.kind = 0x16) (few : r.payload.length < 2) : Conveys r ⟨[], []⟩
  | other (kind : r.kind ∉ [0x02, 0x03, 0x06, 0x07, 0x16]) : Conveys r ⟨[], []⟩

theorem Kind.ofByte?_none {byte : UInt8} :
    Kind.ofByte? byte = none ↔ byte ∉ [0x02, 0x03, 0x06, 0x07, 0x16] := by
  simp only [List.mem_cons, List.not_mem_nil, or_false, not_or]
  constructor
  · intro none
    refine ⟨?_, ?_, ?_, ?_, ?_⟩ <;> (rintro rfl; exact absurd none (by decide))
  · rintro ⟨two, three, six, seven, data⟩
    simp [Kind.ofByte?, two, three, six, seven, data]

def addition (r : Record) : Advert := ⟨servicesOf r, (serviceDataOf r).toList⟩

theorem conveys_addition (r : Record) : Conveys r (addition r) := by
  have two : Bytes.Pieces 2 r.payload (Bytes.pieces 2 r.payload) := (Bytes.pieces_iff (by decide)).2 rfl
  have sixteen : Bytes.Pieces 16 r.payload (Bytes.pieces 16 r.payload) :=
    (Bytes.pieces_iff (by decide)).2 rfl
  cases kind : Kind.ofByte? r.kind with
  | none => simpa [addition, servicesOf, serviceDataOf, kind] using Conveys.other (Kind.ofByte?_none.1 kind)
  | some k =>
    cases k with
    | shortServices =>
      have said := Conveys.short (Kind.ofByte?_short.1 kind) two
      simpa only [addition, servicesOf, serviceDataOf, kind, reduceCtorEq, Option.some.injEq, false_and,
        ↓reduceIte, Option.toList_none] using said
    | longServices =>
      have said := Conveys.long (Kind.ofByte?_long.1 kind) sixteen
      simpa only [addition, servicesOf, serviceDataOf, kind, reduceCtorEq, Option.some.injEq, false_and,
        ↓reduceIte, Option.toList_none] using said
    | serviceData =>
      have data := Kind.ofByte?_data.1 kind
      by_cases enough : 2 ≤ r.payload.length
      · obtain ⟨lo, hi, rest, payload⟩ := Bytes.exists_of_two_le enough
        have said := Conveys.data data payload
        rw [← Bytes.leValue_pair] at said
        simpa [addition, servicesOf, serviceDataOf, kind, payload] using said
      · simpa [addition, servicesOf, serviceDataOf, kind, enough] using
          Conveys.unnamed data (Nat.not_le.1 enough)

theorem conveys_iff {r : Record} {a : Advert} : Conveys r a ↔ a = addition r := by
  constructor
  · intro said
    cases said with
    | short kind cut =>
      obtain rfl := (Bytes.pieces_iff (by decide)).1 cut
      simp [addition, servicesOf, serviceDataOf, Kind.ofByte?_short.2 kind]
    | long kind cut =>
      obtain rfl := (Bytes.pieces_iff (by decide)).1 cut
      simp [addition, servicesOf, serviceDataOf, Kind.ofByte?_long.2 kind]
    | data kind payload =>
      simp [addition, servicesOf, serviceDataOf, Kind.ofByte?_data.2 kind, payload, Bytes.leValue_pair]
    | unnamed kind few =>
      simp [addition, servicesOf, serviceDataOf, Kind.ofByte?_data.2 kind, Nat.not_le.2 few]
    | other kind => simp [addition, servicesOf, serviceDataOf, Kind.ofByte?_none.2 kind]
  · rintro rfl
    exact conveys_addition r

def collect (said : List Advert) : Advert :=
  ⟨(said.flatMap services).eraseDups, said.flatMap serviceData⟩

theorem foldl_addService (services : List Uuid) : services.foldl addService [] = services.eraseDups := by
  induction services using List.reverseRecOn with
  | nil => rfl
  | append_singleton services u ih =>
    rw [List.foldl_append, ih, List.eraseDups_append]
    by_cases listed : u ∈ services
    · simp [addService, listed, List.removeAll]
    · simp [addService, listed, List.removeAll, List.eraseDups_cons]

theorem services_extend (records : List Record) (a : Advert) :
    (records.foldl extend a).services = (records.flatMap servicesOf).foldl addService a.services := by
  induction records generalizing a with
  | nil => rfl
  | cons r records ih =>
    rw [List.foldl_cons, ih, List.flatMap_cons, List.foldl_append]
    rfl

theorem foldl_extend (records : List Record) :
    records.foldl extend {} = collect (records.map addition) := by
  have services := services_extend records {}
  have data := serviceData_extend records {}
  rw [foldl_addService] at services
  rw [List.nil_append, List.filterMap_eq_flatMap_toList] at data
  rw [collect, List.flatMap_map, List.flatMap_map]
  exact congrArg₂ Advert.mk services data

theorem forall₂_conveys {records : List Record} {said : List Advert} :
    List.Forall₂ Conveys records said ↔ said = records.map addition := by
  constructor
  · intro all
    induction all with
    | nil => rfl
    | cons first _ ih => rw [conveys_iff.1 first, ih, List.map_cons]
  · rintro rfl
    rw [List.forall₂_map_right_iff, List.forall₂_same]
    exact fun r _ => conveys_addition r

/-- What a byte string says: it falls into records and a rest, and the records say it. -/
def Decodes (bytes : Bytes) (a : Advert) : Prop :=
  ∃ records rest said, Cut bytes records rest ∧ List.Forall₂ Conveys records said ∧ a = collect said

theorem decodes_iff {bytes : Bytes} {a : Advert} : Decodes bytes a ↔ a = parse bytes := by
  constructor
  · rintro ⟨records, rest, said, cut, each, rfl⟩
    rw [forall₂_conveys.1 each, cut.records_eq, parse, foldl_extend]
  · rintro rfl
    obtain ⟨rest, cut⟩ := cut_split bytes
    exact ⟨_, rest, _, cut, forall₂_conveys.2 rfl, by rw [parse, foldl_extend]⟩

/-! ### Reading with a cursor -/

def minus? (n m : Nat) : Option Nat := if m ≤ n then some (n - m) else none

def slice? (bytes : Bytes) (lo hi : Nat) : Option Bytes :=
  if lo ≤ hi ∧ hi ≤ bytes.length then some ((bytes.take hi).drop lo) else none

def short? (bytes : Bytes) : Option UInt16 := do
  let lo ← bytes[0]?
  let hi ← bytes[1]?
  return UInt16.ofNat (lo.toNat + 256 * hi.toNat)

def word? (bytes : Bytes) (lo hi : Nat) : Option Nat := do
  let word ← slice? bytes lo hi
  if word.length = 8 then some (Bytes.leValue word) else none

def long? (bytes : Bytes) : Option Uuid := do
  let low ← word? bytes 0 8
  let high ← word? bytes 8 bytes.length
  return Uuid.ofNat (high <<< 64 ||| low)

def extend? (a : Advert) (kind : UInt8) (payload : Bytes) : Option Advert :=
  if kind = 0x02 ∨ kind = 0x03 then do
    let services ← (Bytes.pieces 2 payload).mapM fun piece => do
      let short ← short? piece
      return Uuid.ofNat (Uuid.base ||| short.toNat <<< 96)
    return { a with services := services.foldl addService a.services }
  else if kind = 0x06 ∨ kind = 0x07 then do
    let services ← (Bytes.pieces 16 payload).mapM long?
    return { a with services := services.foldl addService a.services }
  else if kind = 0x16 ∧ 2 ≤ payload.length then do
    let uuid ← short? payload
    let data ← slice? payload 2 payload.length
    return { a with serviceData := a.serviceData ++ [⟨uuid, data⟩] }
  else some a

/-- One turn of the reader: the cursor and the advert after one more record, or nothing where reading
stops. No turn is made if an access is out of range. -/
def turn? (bytes : Bytes) (cursor : Nat) (a : Advert) : Option (Option (Nat × Advert)) := do
  let left ← minus? bytes.length cursor
  if left < 2 then some none
  else do
    let length ← bytes[cursor]?
    let room ← minus? left 1
    if length.toNat = 0 ∨ room < length.toNat then some none
    else do
      let kind ← bytes[cursor + 1]?
      let payload ← slice? bytes (cursor + 2) (cursor + 1 + length.toNat)
      let extended ← extend? a kind payload
      return some (cursor + 1 + length.toNat, extended)

theorem minus?_of_le {n m : Nat} (below : m ≤ n) : minus? n m = some (n - m) := if_pos below

theorem slice?_append (front middle back : Bytes) :
    slice? (front ++ (middle ++ back)) front.length (front.length + middle.length) = some middle := by
  rw [slice?, if_pos ⟨by omega, by simp⟩, ← List.append_assoc, ← List.length_append, List.take_left,
    List.drop_left]

theorem short?_pair (lo hi : UInt8) (rest : Bytes) :
    short? (lo :: hi :: rest) = some (UInt16.ofNat (Bytes.leValue [lo, hi])) := by
  rw [Bytes.leValue_pair]
  rfl

theorem long?_eq {bytes : Bytes} (whole : bytes.length = 16) :
    long? bytes = some (Uuid.ofNat (Bytes.leValue bytes)) := by
  have low : (bytes.take 8).length = 8 := List.length_take_of_le (by omega)
  have high : (bytes.drop 8).length = 8 := by rw [List.length_drop, whole]
  have lower : word? bytes 0 8 = some (Bytes.leValue (bytes.take 8)) := by
    have cut := slice?_append [] (bytes.take 8) (bytes.drop 8)
    simp only [List.nil_append, List.take_append_drop, List.length_nil, low] at cut
    simp [word?, cut, low]
  have upper : word? bytes 8 bytes.length = some (Bytes.leValue (bytes.drop 8)) := by
    have cut := slice?_append (bytes.take 8) (bytes.drop 8) []
    simp only [List.append_nil, List.take_append_drop, high, low] at cut
    simp [word?, whole, cut, high]
  have small := Bytes.leValue_lt (bytes.take 8)
  rw [low] at small
  have value : Bytes.leValue (bytes.drop 8) <<< 64 ||| Bytes.leValue (bytes.take 8) = Bytes.leValue bytes := by
    rw [← Nat.shiftLeft_add_eq_or_of_lt small, Nat.shiftLeft_eq]
    conv_rhs => rw [← List.take_append_drop 8 bytes, Bytes.leValue_append, low]
    ring
  simp [long?, lower, upper, value]

theorem mapM_eq_some {α β : Type} {f : α → Option β} {g : α → β} {xs : List α}
    (each : ∀ x ∈ xs, f x = some (g x)) : xs.mapM f = some (xs.map g) := by
  induction xs with
  | nil => rfl
  | cons x xs ih =>
    obtain ⟨first, others⟩ := List.forall_mem_cons.1 each
    simp [List.mapM_cons, first, ih others]

/-- No access to a payload is out of range. -/
theorem extend?_eq (a : Advert) (r : Record) : extend? a r.kind r.payload = some (extend a r) := by
  have shorts : (Bytes.pieces 2 r.payload).mapM (fun piece => do
      let short ← short? piece
      return Uuid.ofNat (Uuid.base ||| short.toNat <<< 96)) =
      some ((Bytes.pieces 2 r.payload).map fun piece => Uuid.expand (UInt16.ofNat (Bytes.leValue piece))) := by
    refine mapM_eq_some fun piece mem => ?_
    obtain ⟨lo, hi, rfl⟩ := List.length_eq_two.1 (Bytes.length_of_mem_pieces (by decide) mem)
    rw [short?_pair, Uuid.expand_eq_or]
    rfl
  have longs : (Bytes.pieces 16 r.payload).mapM long? =
      some ((Bytes.pieces 16 r.payload).map fun piece => Uuid.ofNat (Bytes.leValue piece)) :=
    mapM_eq_some fun piece mem => long?_eq (Bytes.length_of_mem_pieces (by decide) mem)
  unfold extend?
  split
  · rename_i kind
    rw [shorts]
    simp [extend, servicesOf, serviceDataOf, Kind.ofByte?_short.2 kind]
  split
  · rename_i kind
    rw [longs]
    simp [extend, servicesOf, serviceDataOf, Kind.ofByte?_long.2 kind]
  split
  · rename_i data
    obtain ⟨kind, enough⟩ := data
    obtain ⟨lo, hi, rest, payload⟩ := Bytes.exists_of_two_le enough
    have cut : slice? (lo :: hi :: rest) 2 (rest.length + 1 + 1) = some rest := by simp [slice?]
    simp [short?_pair, cut, extend, servicesOf, serviceDataOf, Kind.ofByte?_data.2 kind, payload]
  · rename_i short long data
    have nothing : servicesOf r = [] := by
      unfold servicesOf
      split
      · exact absurd (Kind.ofByte?_short.1 ‹_›) short
      · exact absurd (Kind.ofByte?_long.1 ‹_›) long
      · rfl
    have none : serviceDataOf r = none := by
      simp only [serviceDataOf, Kind.ofByte?_data, if_neg data]
    simp [extend, nothing, none]

/-- Inside the bytes every access is in range, and the turn reads the next record. -/
theorem turn?_eq {bytes : Bytes} {cursor : Nat} (inside : cursor ≤ bytes.length) (a : Advert) :
    turn? bytes cursor a = some ((Record.next? (bytes.drop cursor)).map fun next =>
      (bytes.length - next.2.length, extend a next.1)) := by
  obtain ⟨front, back, rfl, rfl⟩ : ∃ front back, bytes = front ++ back ∧ cursor = front.length :=
    ⟨bytes.take cursor, bytes.drop cursor, by simp, by simp [inside]⟩
  have left : minus? (front ++ back).length front.length = some back.length := by
    rw [minus?_of_le inside, List.length_append, Nat.add_sub_cancel_left]
  rw [List.drop_left, turn?, left, Option.bind_eq_bind, Option.bind_some]
  match back with
  | [] | [_] => simp [Record.next?]
  | length :: kind :: rest =>
    have first : (front ++ length :: kind :: rest)[front.length]? = some length := by simp
    have second : (front ++ length :: kind :: rest)[front.length + 1]? = some kind := by
      rw [List.getElem?_append_right (by omega)]
      simp
    have room : minus? (length :: kind :: rest).length 1 = some (rest.length + 1) := rfl
    have enough : ¬ (length :: kind :: rest).length < 2 := by simp
    rw [if_neg enough, first, room, Option.bind_eq_bind, Option.bind_some, Option.bind_some]
    by_cases stops : length.toNat = 0 ∨ rest.length + 1 < length.toNat
    · have none : Record.next? (length :: kind :: rest) = none := by
        rw [Record.next?, if_pos (by omega)]
      rw [if_pos stops, none]
      rfl
    · have next : Record.next? (length :: kind :: rest) =
          some (⟨kind, rest.take (length.toNat - 1)⟩, rest.drop (length.toNat - 1)) := by
        rw [Record.next?, if_neg (by omega)]
      have whole : (rest.take (length.toNat - 1)).length = length.toNat - 1 :=
        List.length_take_of_le (by omega)
      have cut : slice? (front ++ length :: kind :: rest) (front.length + 2)
          (front.length + 1 + length.toNat) = some (rest.take (length.toNat - 1)) := by
        have middle := slice?_append (front ++ [length, kind]) (rest.take (length.toNat - 1))
          (rest.drop (length.toNat - 1))
        rw [List.take_append_drop, whole, List.append_assoc, List.length_append] at middle
        have stop : front.length + 1 + length.toNat = front.length + 2 + (length.toNat - 1) := by omega
        rw [stop]
        exact middle
      have position : front.length + 1 + length.toNat =
          (front ++ length :: kind :: rest).length - (rest.drop (length.toNat - 1)).length := by
        simp only [List.length_append, List.length_cons, List.length_drop]
        omega
      have extended : extend? a kind (rest.take (length.toNat - 1)) =
          some (extend a ⟨kind, rest.take (length.toNat - 1)⟩) := extend?_eq a ⟨kind, _⟩
      simp only [if_neg stops, second, cut, extended, next, Option.bind_eq_bind, Option.bind_some,
        Option.map_some]
      rw [position]
      rfl

theorem turn?_advances {bytes : Bytes} {cursor cursor' : Nat} {a a' : Advert}
    (turn : turn? bytes cursor a = some (some (cursor', a'))) :
    cursor < cursor' ∧ cursor' ≤ bytes.length := by
  by_cases inside : cursor ≤ bytes.length
  · rw [turn?_eq inside, Option.some_inj, Option.map_eq_some_iff] at turn
    obtain ⟨next, read, moved⟩ := turn
    have shorter := Record.length_of_next? read
    rw [List.length_drop] at shorter
    have position : bytes.length - next.2.length = cursor' := congrArg Prod.fst moved
    omega
  · rw [turn?, minus?, if_neg inside] at turn
    cases turn

def readFrom? (bytes : Bytes) (cursor : Nat) (a : Advert) : Option Advert :=
  match _h : turn? bytes cursor a with
  | none => none
  | some none => some a
  | some (some next) => readFrom? bytes next.1 next.2
termination_by bytes.length - cursor
decreasing_by
  have := turn?_advances _h
  omega

theorem readFrom?_stop {bytes : Bytes} {cursor : Nat} {a : Advert}
    (turn : turn? bytes cursor a = some none) : readFrom? bytes cursor a = some a := by
  rw [readFrom?]
  split <;> simp_all

theorem readFrom?_turn {bytes : Bytes} {cursor cursor' : Nat} {a a' : Advert}
    (turn : turn? bytes cursor a = some (some (cursor', a'))) :
    readFrom? bytes cursor a = readFrom? bytes cursor' a' := by
  rw [readFrom?]
  split <;> simp_all

/-- From the end of what is read on, the reader takes in the records at the front of the rest. -/
theorem readFrom?_eq (front back : Bytes) (a : Advert) :
    readFrom? (front ++ back) front.length a = some ((Record.split back).foldl extend a) := by
  have inside (back : Bytes) : front.length ≤ (front ++ back).length := by simp
  fun_induction Record.split back generalizing front a with
  | case1 back none =>
    refine readFrom?_stop ?_
    rw [turn?_eq (inside back), List.drop_left, none]
    rfl
  | case2 back r rest next ih =>
    have turn := turn?_eq (inside back) a
    rw [List.drop_left, next, Option.map_some] at turn
    obtain ⟨length, fits, rfl⟩ := record_of_next? next
    have moved : (front ++ length :: r.kind :: (r.payload ++ rest)).length - rest.length =
        (front ++ length :: r.kind :: r.payload).length := by
      simp only [List.length_append, List.length_cons]
      omega
    have more := ih (front ++ length :: r.kind :: r.payload) (extend a r) (by simp)
    rw [moved] at turn
    rw [readFrom?_turn turn, List.foldl_cons, ← more, List.append_assoc]
    rfl

/-- A byte string falls into records and a rest in exactly one way; what is decoded is what the records
say, and reading it with a cursor ends with every access in range. -/
theorem parse_decodes (bytes : Bytes) :
    (∃! cut : List Record × Bytes, Cut bytes cut.1 cut.2) ∧
      (∀ a, Decodes bytes a ↔ a = parse bytes) ∧ readFrom? bytes 0 {} = some (parse bytes) := by
  refine ⟨?_, fun a => decodes_iff, readFrom?_eq [] bytes {}⟩
  obtain ⟨rest, cut⟩ := cut_split bytes
  refine ⟨(Record.split bytes, rest), cut, ?_⟩
  rintro ⟨records', rest'⟩ cut'
  obtain ⟨rfl, rfl⟩ := cut.unique cut'
  rfl

example : parse [6, 0x03, 0x34, 0x12, 0x34, 0x12, 0xff, 0, 5, 0x16] =
    ⟨[Uuid.expand 0x1234], []⟩ := by cbv

end Advert

end RadioCentral
