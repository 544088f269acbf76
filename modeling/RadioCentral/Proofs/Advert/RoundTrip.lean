import RadioCentral.Advert.Builder
import RadioCentral.Proofs.Advert.Decoding

/-!
Writing an advertisement and reading it back, whatever bytes follow. The records that are read are the
ones that were written, cut to the length a record can have, and then those of the bytes that follow;
parts that fit are read back whole.
-/
namespace RadioCentral

namespace Bytes

theorem pieces_flatMap {α : Type} {n : Nat} (pos : 0 < n) {f : α → Bytes} (whole : ∀ x, (f x).length = n)
    (xs : List α) : pieces n (xs.flatMap f) = xs.map f := by
  refine ((pieces_iff pos).1 ?_).symm
  induction xs with
  | nil => exact .rest pos
  | cons x xs ih => exact .piece (whole x) ih

theorem beValue_beBytes (width n : Nat) (fits : n < Nat.pow 256 width) :
    beValue (beBytes width n) = n := by
  rw [beValue, beBytes, List.reverse_reverse, leValue_leBytes width n fits]

end Bytes

namespace Advert

/-! ### The records that are written -/

/-- What is written of a record: a payload that is too long loses its tail. -/
def Record.clipped (r : Record) : Record := ⟨r.kind, r.payload.take maxPayload⟩

theorem Record.clipped_eq {r : Record} (fits : r.payload.length ≤ maxPayload) : r.clipped = r := by
  rw [clipped, List.take_of_length_le fits]

/-- A record in front is cut off as written, and the rest is cut as before. -/
theorem Cut.encode {bytes rest : Bytes} {records : List Record} (r : Record)
    (cut : Cut bytes records rest) : Cut (r.encode ++ bytes) (r.clipped :: records) rest := by
  have short : (r.payload.take Record.maxPayload).length ≤ 254 := List.length_take_le _ _
  have fits : (UInt8.ofNat ((r.payload.take Record.maxPayload).length + 1)).toNat =
      r.clipped.payload.length + 1 := by
    rw [UInt8.toNat_ofNat', Nat.mod_eq_of_lt (by omega)]
    rfl
  exact .record fits cut

theorem Cut.build {tail rest : Bytes} {records : List Record} (parts : List Part)
    (cut : Cut tail records rest) :
    Cut (build parts ++ tail) (parts.map (fun part => part.record.clipped) ++ records) rest := by
  induction parts with
  | nil => exact cut
  | cons part parts ih =>
    have front := Cut.encode part.record ih
    rwa [← List.append_assoc] at front

/-! ### What the parts say -/

theorem short_leBytes (u : UInt16) : UInt16.ofNat (Bytes.leValue (Bytes.leBytes 2 u.toNat)) = u := by
  rw [Bytes.leValue_leBytes 2 _ u.toNat_lt, UInt16.ofNat_toNat]

theorem long_leBytes (u : Uuid) : Uuid.ofNat (Bytes.leValue (Bytes.leBytes 16 u.toNat)) = u := by
  rw [Bytes.leValue_leBytes 16 _ u.toNat_lt, ← Uuid.toNat_inj, Uuid.toNat_ofNat,
    Nat.mod_eq_of_lt u.toNat_lt]

namespace Part

def Fits : Part → Prop
  | .shortServices uuids => uuids.length ≤ 127
  | .longServices uuids => uuids.length ≤ 15
  | .serviceData _ data => data.length ≤ 252
  | .nonce _ _ => True
  | .raw _ payload => payload.length ≤ 254

theorem fits_iff {part : Part} : part.Fits ↔ part.record.payload.length ≤ Record.maxPayload := by
  cases part with
  | shortServices uuids =>
    simp only [Fits, record, List.length_flatMap, Bytes.length_leBytes, List.map_const',
      List.sum_replicate_nat, Record.maxPayload]
    omega
  | longServices uuids =>
    simp only [Fits, record, List.length_flatMap, Bytes.length_leBytes, List.map_const',
      List.sum_replicate_nat, Record.maxPayload]
    omega
  | serviceData uuid data =>
    simp only [Fits, record, serviceDataRecord, List.length_append, Bytes.length_leBytes, Record.maxPayload]
    omega
  | nonce uuid value =>
    simp [Fits, record, serviceDataRecord, nonceBytes, Bytes.beBytes, Record.maxPayload]
  | raw kind payload => exact Iff.rfl

/-- What a part is there to say; a raw part says what its bytes say by the grammar. -/
inductive Conveys : Part → Advert → Prop where
  | shortServices (uuids : List UInt16) : Conveys (.shortServices uuids) ⟨uuids.map Uuid.expand, []⟩
  | longServices (uuids : List Uuid) : Conveys (.longServices uuids) ⟨uuids, []⟩
  | serviceData (uuid : UInt16) (data : Bytes) : Conveys (.serviceData uuid data) ⟨[], [⟨uuid, data⟩]⟩
  | nonce (uuid : UInt16) (value : Int32) :
      Conveys (.nonce uuid value) ⟨[], [⟨uuid, nonceBytes value⟩]⟩
  | raw {kind : UInt8} {payload : Bytes} {a : Advert} (said : Advert.Conveys ⟨kind, payload⟩ a) :
      Conveys (.raw kind payload) a

theorem addition_shortServices (uuids : List UInt16) :
    addition (Part.shortServices uuids).record = ⟨uuids.map Uuid.expand, []⟩ := by
  have kind : Kind.ofByte? Kind.shortServices.byte = some .shortServices := rfl
  have cut := Bytes.pieces_flatMap (n := 2) (by decide) (fun u : UInt16 => Bytes.length_leBytes 2 u.toNat) uuids
  simp [addition, servicesOf, serviceDataOf, record, kind, cut, short_leBytes, Function.comp_def]

theorem addition_longServices (uuids : List Uuid) :
    addition (Part.longServices uuids).record = ⟨uuids, []⟩ := by
  have kind : Kind.ofByte? Kind.longServices.byte = some .longServices := rfl
  have cut := Bytes.pieces_flatMap (n := 16) (by decide) (fun u : Uuid => Bytes.length_leBytes 16 u.toNat) uuids
  simp [addition, servicesOf, serviceDataOf, record, kind, cut, long_leBytes, Function.comp_def]

theorem addition_serviceData (uuid : UInt16) (data : Bytes) :
    addition (serviceDataRecord uuid data) = ⟨[], [⟨uuid, data⟩]⟩ := by
  have kind : Kind.ofByte? Kind.serviceData.byte = some .serviceData := rfl
  have front : (Bytes.leBytes 2 uuid.toNat ++ data).take 2 = Bytes.leBytes 2 uuid.toNat :=
    List.take_left' (Bytes.length_leBytes 2 _)
  have back : (Bytes.leBytes 2 uuid.toNat ++ data).drop 2 = data :=
    List.drop_left' (Bytes.length_leBytes 2 _)
  simp [addition, servicesOf, serviceDataOf, serviceDataRecord, kind, front, back,
    Bytes.leValue_leBytes 2 _ uuid.toNat_lt]

/-- A part says what its record says at full length. -/
theorem conveys_iff {part : Part} {a : Advert} : part.Conveys a ↔ a = addition part.record := by
  constructor
  · intro said
    cases said with
    | shortServices uuids => exact (addition_shortServices uuids).symm
    | longServices uuids => exact (addition_longServices uuids).symm
    | serviceData uuid data => exact (addition_serviceData uuid data).symm
    | nonce uuid value => exact (addition_serviceData uuid (nonceBytes value)).symm
    | raw said => exact Advert.conveys_iff.1 said
  · rintro rfl
    cases part with
    | shortServices uuids => exact addition_shortServices uuids ▸ .shortServices uuids
    | longServices uuids => exact addition_longServices uuids ▸ .longServices uuids
    | serviceData uuid data => exact addition_serviceData uuid data ▸ .serviceData uuid data
    | nonce uuid value => exact addition_serviceData uuid (nonceBytes value) ▸ .nonce uuid value
    | raw kind payload => exact .raw (conveys_addition _)

end Part

/-! ### Reading what is written -/

/-- Listing again what is listed once changes nothing. -/
theorem addServices_listed (services more : List Uuid) :
    (more.foldl addService []).foldl addService services = more.foldl addService services := by
  induction more using List.reverseRecOn with
  | nil => rfl
  | append_singleton more u ih =>
    rw [List.foldl_append, List.foldl_append, ← ih]
    by_cases listed : u ∈ more
    · have before : u ∈ more.foldl addService [] := mem_addServices.2 (Or.inr listed)
      have already : u ∈ more.foldl addService services := mem_addServices.2 (Or.inr listed)
      simp [addService, before, ih, already]
    · have new : u ∉ more.foldl addService [] := by simp [mem_addServices, listed]
      simp [addService, new]

theorem eraseDups_append_eraseDups (services more : List Uuid) :
    (services ++ more.eraseDups).eraseDups = (services ++ more).eraseDups := by
  simp only [← foldl_addService, List.foldl_append, addServices_listed]

/-- What is collected already may stand for the parts it is collected from. -/
theorem collect_append_collect (said more : List Advert) :
    collect (said ++ [collect more]) = collect (said ++ more) := by
  simp [collect, eraseDups_append_eraseDups]

/-- Any parts and any bytes behind them: what was written of the records is read, then the rest. -/
theorem parse_build_append (parts : List Part) (tail : Bytes) :
    parse (build parts ++ tail) =
      collect (parts.map (fun part => addition part.record.clipped) ++ [parse tail]) := by
  obtain ⟨rest, cut⟩ := cut_split tail
  have whole := Cut.build parts cut
  have tailed : parse tail = collect ((Record.split tail).map addition) := foldl_extend _
  calc parse (build parts ++ tail)
      = collect ((Record.split (build parts ++ tail)).map addition) := foldl_extend _
    _ = collect (parts.map (fun part => addition part.record.clipped) ++
          (Record.split tail).map addition) := by
        rw [← whole.records_eq, List.map_append, List.map_map]
        rfl
    _ = _ := by rw [tailed, collect_append_collect]

theorem forall₂_part_conveys {parts : List Part} {said : List Advert} :
    List.Forall₂ Part.Conveys parts said ↔ said = parts.map fun part => addition part.record := by
  constructor
  · intro all
    induction all with
    | nil => rfl
    | cons first _ ih => rw [Part.conveys_iff.1 first, ih, List.map_cons]
  · rintro rfl
    rw [List.forall₂_map_right_iff, List.forall₂_same]
    exact fun part _ => Part.conveys_iff.2 rfl

theorem nonceOf_nonceBytes (n : Int32) : nonceOf (nonceBytes n) = n := by
  rw [nonceOf, nonceBytes, Bytes.beValue_beBytes 4 _ n.toBitVec.isLt, BitVec.ofNat_toNat,
    BitVec.setWidth_eq]
  rfl

theorem nonce?_nonceBytes {a : Advert} {uuid : UInt16} {n : Int32}
    (single : a.serviceData = [⟨uuid, nonceBytes n⟩]) : a.nonce? = some n := by
  have length : (nonceBytes n).length = 4 := by simp [nonceBytes, Bytes.beBytes]
  rw [nonce?_single single, if_pos length.ge, List.take_of_length_le length.le, nonceOf_nonceBytes]

/-- Cutting a record to its length takes no identifier off service data. -/
theorem holdsData_clipped (r : Record) : holdsData r.clipped = holdsData r := by
  have enough : 2 ≤ (r.payload.take Record.maxPayload).length ↔ 2 ≤ r.payload.length := by
    simp only [List.length_take, Record.maxPayload]
    omega
  simp only [holdsData, Record.clipped, enough]

theorem serviceData_clipped {r : Record} (none : (addition r).serviceData = []) :
    (addition r.clipped).serviceData = [] := by
  simp only [addition, serviceDataOf_eq, holdsData_clipped] at none ⊢
  split <;> simp_all

/-- Parts that fit say everything they are there to say, in front of what follows. -/
theorem eq_parse_build {parts : List Part} (fits : ∀ part ∈ parts, part.Fits) (tail : Bytes) {a : Advert} :
    a = parse (build parts ++ tail) ↔
      ∃ said, List.Forall₂ Part.Conveys parts said ∧ a = collect (said ++ [parse tail]) := by
  have whole : parts.map (fun part => addition part.record.clipped) =
      parts.map fun part => addition part.record :=
    List.map_congr_left fun part mem => by rw [Record.clipped_eq (Part.fits_iff.1 (fits part mem))]
  rw [parse_build_append, whole]
  constructor
  · rintro rfl
    exact ⟨_, forall₂_part_conveys.2 rfl, rfl⟩
  · rintro ⟨said, each, rfl⟩
    rw [forall₂_part_conveys.1 each]

theorem nonce?_build {before after : List Part} {tail : Bytes} (uuid : UInt16) (value : Int32)
    (silent : ∀ part ∈ before ++ after, ∀ a, part.Conveys a → a.serviceData = [])
    (tailless : (parse tail).serviceData = []) :
    (parse (build (before ++ .nonce uuid value :: after) ++ tail)).nonce? = some value := by
  have none (parts : List Part) (among : parts ⊆ before ++ after) :
      parts.flatMap (fun part => (addition part.record.clipped).serviceData) = [] :=
    List.flatMap_eq_nil_iff.2 fun part mem =>
      serviceData_clipped (silent part (among mem) _ (Part.conveys_iff.2 rfl))
  have fits : (Part.nonce uuid value).Fits := trivial
  have own : addition (Part.nonce uuid value).record.clipped = ⟨[], [⟨uuid, nonceBytes value⟩]⟩ := by
    rw [Record.clipped_eq (Part.fits_iff.1 fits)]
    exact Part.addition_serviceData uuid (nonceBytes value)
  have single : (parse (build (before ++ .nonce uuid value :: after) ++ tail)).serviceData =
      [⟨uuid, nonceBytes value⟩] := by
    simp [parse_build_append, collect, List.flatMap_map, none before (by simp), none after (by simp), own,
      tailless]
  exact nonce?_nonceBytes single

theorem encode_of_not_fits {part : Part} (long : ¬ part.Fits) :
    part.record.encode = 255 :: part.record.kind :: part.record.payload.take 254 := by
  have length : (part.record.payload.take Record.maxPayload).length = 254 := by
    rw [Part.fits_iff, Nat.not_le] at long
    exact List.length_take_of_le long.le
  rw [Record.encode, length]
  rfl

/-- Reading gives back what was written, whatever follows. Parts that fit say everything they are there
to say, in order and before what follows; a nonce that is the only service data is read; of a part that
does not fit 254 bytes are written; and fitting or not, every part is one record in front of the
records of what follows. -/
theorem parse_build (parts : List Part) (tail : Bytes) :
    ((∀ part ∈ parts, part.Fits) → ∀ a, a = parse (build parts ++ tail) ↔
      ∃ said, List.Forall₂ Part.Conveys parts said ∧ a = collect (said ++ [parse tail])) ∧
    (∀ before uuid value after, parts = before ++ .nonce uuid value :: after →
      (∀ part ∈ before ++ after, ∀ a, part.Conveys a → a.serviceData = []) →
      (parse tail).serviceData = [] → (parse (build parts ++ tail)).nonce? = some value) ∧
    (∀ part ∈ parts, ¬ part.Fits →
      part.record.encode = 255 :: part.record.kind :: part.record.payload.take 254) ∧
    ∀ records rest, Cut tail records rest →
      Cut (build parts ++ tail) (parts.map (fun part => part.record.clipped) ++ records) rest := by
  refine ⟨fun fits a => eq_parse_build fits tail, ?_, fun part _ => encode_of_not_fits,
    fun records rest => Cut.build parts⟩
  rintro before uuid value after rfl silent tailless
  exact nonce?_build uuid value silent tailless

def beacon : List Part :=
  [.shortServices [0x1234, 0x5678], .longServices [Uuid.meshService, Uuid.expand 0x1234],
    .nonce 0x1234 (-5)]

/-- Read back from in front of a record that breaks off, each service counts once. -/
theorem parse_build_beacon :
    parse (build beacon ++ [9, 0x16]) =
      ⟨[Uuid.expand 0x1234, Uuid.expand 0x5678, Uuid.meshService], [⟨0x1234, nonceBytes (-5)⟩]⟩ ∧
    (parse (build beacon ++ [9, 0x16])).nonce? = some (-5) := by
  have tail : parse [9, 0x16] = {} := by cbv
  have fits : ∀ part ∈ beacon, part.Fits := by simp [beacon, Part.Fits]
  obtain ⟨read, found, -, -⟩ := parse_build beacon [9, 0x16]
  have each : List.Forall₂ Part.Conveys beacon [⟨[Uuid.expand 0x1234, Uuid.expand 0x5678], []⟩,
      ⟨[Uuid.meshService, Uuid.expand 0x1234], []⟩, ⟨[], [⟨0x1234, nonceBytes (-5)⟩]⟩] :=
    .cons (.shortServices _) (.cons (.longServices _) (.cons (.nonce _ _) .nil))
  constructor
  · refine ((read fits _).2 ⟨_, each, ?_⟩).symm
    rw [tail]
    decide
  · refine found (beacon.take 2) 0x1234 (-5) [] rfl ?_ (by rw [tail])
    intro part mem a said
    simp only [beacon, List.take_succ_cons, List.take_zero, List.append_nil, List.mem_cons,
      List.not_mem_nil, or_false] at mem
    rcases mem with rfl | rfl <;> (cases said; rfl)

end Advert

end RadioCentral
