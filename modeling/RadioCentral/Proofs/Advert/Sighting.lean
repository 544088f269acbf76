import RadioCentral.Advert.Sighting
import RadioCentral.Proofs.Advert.RoundTrip

/-!
What is left of a sighting once it is written as bytes. A sighting has a verdict of its own, read off
what the adapter reports. The bytes give that verdict too, but for the services that find no room: a list
of services is one record, which holds 127 short identifiers or 15 long ones.
-/
namespace RadioCentral

theorem Uuid.expand_of_shorten {u : Uuid} {short : UInt16} (has : u.shorten = some short) :
    Uuid.expand short = u := by
  unfold shorten at has
  split at has
  · rename_i standing
    obtain ⟨low, high⟩ := standing
    obtain rfl := Option.some.inj has
    have whole : base + (u.toNat >>> 96) <<< 96 = u.toNat := by
      rw [Nat.shiftRight_eq_div_pow, Nat.shiftLeft_eq, ← low, Nat.shiftLeft_eq, Nat.one_mul]
      exact Nat.mod_add_div' _ _
    rw [expand, UInt16.toNat_ofNat_of_lt' high, ← Uuid.toNat_inj, whole, toNat_ofNat,
      Nat.mod_eq_of_lt u.toNat_lt]
  · cases has

/-- Pieces that are cut off somewhere: those in front of the cut are read, the one it hits is not. -/
theorem Bytes.pieces_take_flatMap {α : Type} {n : Nat} (pos : 0 < n) {f : α → Bytes}
    (whole : ∀ x, (f x).length = n) (xs : List α) (m : Nat) :
    pieces n ((xs.flatMap f).take m) = (xs.take (m / n)).map f := by
  refine ((pieces_iff pos).1 ?_).symm
  induction xs generalizing m with
  | nil =>
    have none : Pieces n [] [] := .rest pos
    simpa using none
  | cons x xs ih =>
    rw [List.flatMap_cons]
    by_cases cut : m < n
    · rw [Nat.div_eq_of_lt cut]
      exact .rest (Nat.lt_of_le_of_lt (List.length_take_le _ _) cut)
    · obtain ⟨k, rfl⟩ := Nat.exists_eq_add_of_le (Nat.not_lt.1 cut)
      rw [Nat.add_div_left k pos, List.take_succ_cons, List.map_cons]
      nth_rewrite 2 [← whole x]
      rw [List.take_length_add_append]
      exact .piece (whole x) (ih k)

namespace Advert

/-! ### Records that are cut to their length -/

theorem addition_clipped_shortServices (uuids : List UInt16) :
    addition (Part.shortServices uuids).record.clipped = ⟨(uuids.take 127).map Uuid.expand, []⟩ := by
  have kind : Kind.ofByte? Kind.shortServices.byte = some .shortServices := rfl
  have cut : Bytes.pieces 2 ((uuids.flatMap fun u => Bytes.leBytes 2 u.toNat).take Record.maxPayload) =
      (uuids.take 127).map fun u => Bytes.leBytes 2 u.toNat :=
    Bytes.pieces_take_flatMap (by decide) (fun u : UInt16 => Bytes.length_leBytes 2 u.toNat) uuids _
  simp [addition, servicesOf, serviceDataOf, Part.record, Record.clipped, kind, cut, short_leBytes,
    Function.comp_def]

theorem addition_clipped_longServices (uuids : List Uuid) :
    addition (Part.longServices uuids).record.clipped = ⟨uuids.take 15, []⟩ := by
  have kind : Kind.ofByte? Kind.longServices.byte = some .longServices := rfl
  have cut : Bytes.pieces 16 ((uuids.flatMap fun u => Bytes.leBytes 16 u.toNat).take Record.maxPayload) =
      (uuids.take 15).map fun u => Bytes.leBytes 16 u.toNat :=
    Bytes.pieces_take_flatMap (by decide) (fun u : Uuid => Bytes.length_leBytes 16 u.toNat) uuids _
  simp [addition, servicesOf, serviceDataOf, Part.record, Record.clipped, kind, cut, long_leBytes,
    Function.comp_def]

theorem addition_clipped_serviceData (uuid : UInt16) (data : Bytes) :
    addition (serviceDataRecord uuid data).clipped = ⟨[], [⟨uuid, data.take 252⟩]⟩ := by
  have cut : (serviceDataRecord uuid data).clipped = serviceDataRecord uuid (data.take 252) := by
    have length : (Bytes.leBytes 2 uuid.toNat).length = 2 := Bytes.length_leBytes 2 _
    have whole : (Bytes.leBytes 2 uuid.toNat).take 254 = Bytes.leBytes 2 uuid.toNat :=
      List.take_of_length_le (by omega)
    simp [serviceDataRecord, Record.clipped, Record.maxPayload, List.take_append, length, whole]
  rw [cut, Part.addition_serviceData]

theorem parse_written (parts : List Part) :
    parse (build parts) = collect (parts.map fun part => addition part.record.clipped) := by
  have read := parse_build_append parts []
  have nothing : parse [] = {} := by cbv
  simpa [nothing, collect] using read

end Advert

namespace Sighting

def soleNonce? : List (Uuid × Bytes) → Option Int32
  | [(_, b₀ :: b₁ :: b₂ :: b₃ :: _)] => some (Int32.ofInt (Bytes.signed b₀ b₁ b₂ b₃))
  | _ => none

/-- The nonce that is reported: service data counts under a short form only. -/
def nonce? (s : Sighting) : Option Int32 :=
  soleNonce? (s.serviceData.filter fun entry => entry.1.shorten.isSome)

/-- The verdict on what is reported, without a byte written. -/
def verdict (s : Sighting) (service : Uuid) (localNonce : Int32) : Advert.Verdict :=
  if service ∈ s.services then
    match s.nonce? with
    | none => .missingNonce
    | some nonce => if localNonce < nonce then .connect nonce else .leave nonce
  else .foreignService

/-- A sighting without the services that find no room in their record. -/
def clipped (s : Sighting) : Sighting :=
  { s with
    services := (s.services.filter fun u => u.shorten.isSome).take 127 ++
      (s.services.filter fun u => u.shorten.isNone).take 15 }

theorem expand_shortServices (s : Sighting) :
    s.shortServices.map Uuid.expand = s.services.filter fun u => u.shorten.isSome := by
  unfold shortServices
  induction s.services with
  | nil => rfl
  | cons u services ih =>
    cases has : u.shorten with
    | none => simp [has, ih]
    | some short => simp [has, ih, Uuid.expand_of_shorten has]

theorem shortServiceData_eq (s : Sighting) :
    s.shortServiceData = (s.serviceData.filter fun entry => entry.1.shorten.isSome).map fun entry =>
      ⟨entry.1.shorten.getD 0, entry.2⟩ := by
  unfold shortServiceData
  induction s.serviceData with
  | nil => rfl
  | cons entry data ih => cases has : entry.1.shorten <;> simp [has, ih]

/-- What the bytes of a sighting say: the services that find room, and all the service data that is
written, cut to its record. -/
theorem parse_payload (s : Sighting) :
    Advert.parse s.payload =
      ⟨s.clipped.services.eraseDups, s.shortServiceData.map fun d => ⟨d.uuid, d.data.take 252⟩⟩ := by
  have data (d : ServiceData) : Advert.addition (Advert.Part.serviceData d.uuid d.data).record.clipped =
      ⟨[], [⟨d.uuid, d.data.take 252⟩]⟩ := Advert.addition_clipped_serviceData d.uuid d.data
  have silent : s.shortServiceData.flatMap (fun _ => ([] : List Uuid)) = [] :=
    List.flatMap_eq_nil_iff.2 fun _ _ => rfl
  have written : (s.shortServiceData.flatMap fun d => [(⟨d.uuid, d.data.take 252⟩ : ServiceData)]) =
      s.shortServiceData.map fun d => ⟨d.uuid, d.data.take 252⟩ := List.map_eq_flatMap.symm
  have said : s.clipped.services = (s.shortServices.take 127).map Uuid.expand ++ s.longServices.take 15 := by
    rw [List.map_take, expand_shortServices]
    rfl
  rw [payload, Advert.parse_written, said, Advert.collect, parts]
  by_cases shorts : s.shortServices = [] <;> by_cases longs : s.longServices = [] <;>
    simp [shorts, longs, data, silent, written, Advert.addition_clipped_shortServices,
      Advert.addition_clipped_longServices, List.flatMap_map, Function.comp_def]

theorem ofInt_signed (b₀ b₁ b₂ b₃ : UInt8) :
    Int32.ofInt (Bytes.signed b₀ b₁ b₂ b₃) = Advert.nonceOf [b₀, b₁, b₂, b₃] := by
  rw [← Advert.toInt_nonceOf, Int32.ofInt_toInt]

/-- A record holds 252 bytes of service data, so that cutting it to its length leaves the nonce alone. -/
theorem nonce?_map_take (services : List Uuid) (f : Uuid → UInt16) (entries : List (Uuid × Bytes)) :
    (⟨services, entries.map fun entry => ⟨f entry.1, entry.2.take 252⟩⟩ : Advert).nonce? =
      soleNonce? entries := by
  match entries with
  | [] => rfl
  | [(_, b₀ :: b₁ :: b₂ :: b₃ :: _)] => simp [soleNonce?, ofInt_signed, Advert.nonce?]
  | [(_, [])] | [(_, [_])] | [(_, [_, _])] | [(_, [_, _, _])] => rfl
  | _ :: _ :: _ => simp [soleNonce?, Advert.nonce?]

/-- The bytes give the verdict of the sighting without the services that find no room. -/
theorem verdict_parse_payload (s : Sighting) (service : Uuid) (localNonce : Int32) :
    (Advert.parse s.payload).verdict service localNonce = s.clipped.verdict service localNonce := by
  have listed : (Advert.parse s.payload).advertises service = decide (service ∈ s.clipped.services) := by
    simp only [parse_payload, Advert.advertises, List.mem_eraseDups]
  have nonce : (Advert.parse s.payload).nonce? = s.nonce? := by
    rw [parse_payload, shortServiceData_eq, List.map_map]
    exact nonce?_map_take _ (fun u => u.shorten.getD 0) _
  have same : s.clipped.nonce? = s.nonce? := rfl
  simp only [Advert.verdict, verdict, listed, decide_eq_true_eq, nonce, same]
  rfl

theorem verdict_clipped_eq_iff (s : Sighting) (service : Uuid) (localNonce : Int32) :
    s.clipped.verdict service localNonce = s.verdict service localNonce ↔
      (service ∈ s.services → service ∈ s.clipped.services) := by
  have back (room : service ∈ s.clipped.services) : service ∈ s.services := by
    rcases List.mem_append.1 room with short | long
    · exact (List.mem_filter.1 (List.mem_of_mem_take short)).1
    · exact (List.mem_filter.1 (List.mem_of_mem_take long)).1
  have same : s.clipped.nonce? = s.nonce? := rfl
  simp only [verdict, same]
  by_cases listed : service ∈ s.services
  · by_cases room : service ∈ s.clipped.services
    · simp [listed, room]
    · simp only [listed, room, ↓reduceIte, imp_false, not_true_eq_false, iff_false]
      split
      · simp
      · split <;> simp
  · simp [listed, mt back listed]

theorem soleNonce?_perm {entries entries' : List (Uuid × Bytes)} (same : entries'.Perm entries) :
    soleNonce? entries' = soleNonce? entries := by
  match entries, entries' with
  | [], _ => rw [List.perm_nil.1 same]
  | [_], _ => rw [List.perm_singleton.1 same]
  | _ :: _ :: _, _ :: _ :: _ => simp [soleNonce?]
  | _ :: _ :: _, [] | _ :: _ :: _, [_] => simpa using same.length_eq

/-- Writing a sighting as bytes and reading these gives the verdict on the sighting as far as its services
find room: the verdict is the sighting's own unless the service is listed and finds none, and the order of
the service data does not matter. -/
theorem verdict_resighted (s : Sighting) (service : Uuid) (localNonce : Int32) :
    let resighted := (Advert.parse s.payload).verdict service localNonce
    resighted = s.clipped.verdict service localNonce ∧
    (resighted = s.verdict service localNonce ↔
      (service ∈ s.services → service ∈ s.clipped.services)) ∧
    ∀ t : Sighting, t.services = s.services → t.serviceData.Perm s.serviceData →
      (Advert.parse t.payload).verdict service localNonce = resighted := by
  intro resighted
  refine ⟨verdict_parse_payload s service localNonce, ?_, fun t services data => ?_⟩
  · rw [← verdict_clipped_eq_iff s service localNonce, ← verdict_parse_payload]
  · have room : t.clipped.services = s.clipped.services := by simp only [clipped, services]
    have nonce : t.clipped.nonce? = s.clipped.nonce? :=
      soleNonce?_perm (data.filter fun entry => entry.1.shorten.isSome)
    rw [verdict_parse_payload t, verdict, room, nonce]
    exact (verdict_parse_payload s service localNonce).symm

def crowded : Sighting where
  services := (List.range 15).map Uuid.ofNat ++ [Uuid.meshService]
  serviceData := [(Uuid.expand 0x1234, [0, 0, 0, 5])]

/-- The sixteenth service finds no room: its owner would be connected to, and is foreign. -/
theorem verdict_lost : ¬ ∀ (s : Sighting) (service : Uuid) (localNonce : Int32),
    (Advert.parse s.payload).verdict service localNonce = s.verdict service localNonce := by
  intro kept
  have own : crowded.verdict Uuid.meshService 4 = .connect 5 := by decide
  have room : crowded.clipped.verdict Uuid.meshService 4 = .foreignService := by decide
  have written := verdict_parse_payload crowded Uuid.meshService 4
  rw [kept, own, room] at written
  cases written

end Sighting

end RadioCentral
