import RadioCentral.AppSettings.Text
import RadioCentral.Proofs.Toml.RoundTrip
import RadioCentral.Proofs.Uuid.Text

/-!
What a library for the texts of settings is documented to do, and that the program's library does it.
Documents are read back from their texts and values from what they are written as. A record is a table of
its fields, in which a field that has no value is left out; it is read field by field, and a field that is
absent has its default.
-/
namespace RadioCentral

open Toml (Document Section Item Scalar Value)

/-- A value is read back from what it is written as. -/
structure Codec.Keeps {α : Type} (c : Codec Item α) (x : α) : Prop where
  plain : (c.write x).Plain
  reads : c.read? (c.write x).value = some x

namespace Format

variable (F : Format)

/-- A table holds the fields of some settings, or lacks them where they have their defaults. -/
structure Finds (table : List (String × Value)) (s : Settings) : Prop where
  service : Value.field? F.uuid.read? ({} : Settings).service (table.lookup "service_uuid") = some s.service
  scanMode : Value.field? F.scanMode.read? ({} : Settings).scanMode (table.lookup "scan_mode") =
    some s.scanMode
  negotiate : Value.field? F.truth.read? ({} : Settings).negotiate (table.lookup "request_unit_size") =
    some s.negotiate
  unitSize : Value.field? F.unitSize.read? ({} : Settings).unitSize (table.lookup "requested_unit_size") =
    some s.unitSize
  routes : Value.field? F.routes.read? ({} : Settings).routes (table.lookup "connect_routes") = some s.routes
  notify : Value.field? F.uuids.read? ({} : Settings).notify (table.lookup "notify_characteristics") =
    some s.notify

structure FindsRuntime (table : List (String × Value)) (s : RuntimeSettings) : Prop where
  nonce : Value.field? (fun v => (F.nonce.read? v).map some) ({} : RuntimeSettings).nonce
    (table.lookup "advertise_nonce") = some s.nonce
  readyTimeout : Value.field? F.seconds.read? ({} : RuntimeSettings).readyTimeout
    (table.lookup "ready_timeout_secs") = some s.readyTimeout
  writeTimeout : Value.field? F.seconds.read? ({} : RuntimeSettings).writeTimeout
    (table.lookup "write_timeout_secs") = some s.writeTimeout

structure FindsApp (table : List (String × Value)) (s : AppSettings) : Prop where
  central : Value.field? F.settings.read? {} (table.lookup "central") = some s.central
  runtime : Value.field? F.runtime.read? {} (table.lookup "runtime") = some s.runtime

structure Documented : Prop where
  renders : ∀ d, Document.Plain d → ∃ text, F.render? d = some text
  parses : ∀ d text, Document.Plain d → F.render? d = some text → F.parse? text = some d.value
  uuid : ∀ u, F.uuid.Keeps u
  uuids : ∀ us, F.uuids.Keeps us
  scanMode : ∀ m, F.scanMode.Keeps m
  routes : ∀ rs, F.routes.Keeps rs
  truth : ∀ b, F.truth.Keeps b
  unitSize : ∀ n, F.unitSize.Keeps n
  nonce : ∀ n, F.nonce.Keeps n
  seconds : ∀ n : UInt64, n.toNat ≤ Toml.maxNumber → F.seconds.Keeps n
  writesSettings : ∀ s, F.settings.write s =
    [("service_uuid", F.uuid.write s.service), ("scan_mode", F.scanMode.write s.scanMode),
      ("request_unit_size", F.truth.write s.negotiate), ("requested_unit_size", F.unitSize.write s.unitSize),
      ("connect_routes", F.routes.write s.routes), ("notify_characteristics", F.uuids.write s.notify)]
  writesRuntime : ∀ s, F.runtime.write s =
    (s.nonce.toList.map fun n => ("advertise_nonce", F.nonce.write n)) ++
      [("ready_timeout_secs", F.seconds.write s.readyTimeout),
        ("write_timeout_secs", F.seconds.write s.writeTimeout)]
  writesApp : ∀ s, F.app.write s =
    [⟨"central", F.settings.write s.central⟩, ⟨"runtime", F.runtime.write s.runtime⟩]
  readsSettings : ∀ table s, F.Finds table s → F.settings.read? (.table table) = some s
  readsRuntime : ∀ table s, F.FindsRuntime table s → F.runtime.read? (.table table) = some s
  readsApp : ∀ table s, F.FindsApp table s → F.app.read? (.table table) = some s

end Format

/-! ### The library of the program -/

namespace Toml

theorem Scalar.Plain.isWritable {s : Scalar} (plain : s.Plain) : s.isWritable = true := by
  cases s with
  | text | truth => rfl
  | number n =>
    have bound : (maxNumber : Int) = 0x7fffffff_ffffffff := rfl
    obtain ⟨low, high⟩ := plain
    exact Bool.and_eq_true_iff.2 ⟨decide_eq_true (by omega), decide_eq_true (by omega)⟩

theorem Item.Plain.scalars {i : Item} (plain : i.Plain) : ∀ s ∈ i.scalars, s.Plain := by
  cases i with
  | one s => exact List.forall_mem_singleton.2 plain
  | many ss => exact plain

theorem Document.Plain.isWritable {d : Document} (plain : d.Plain) : Document.isWritable d = true := by
  simp only [Document.isWritable, List.all_eq_true]
  exact fun s mem e entry scalar among =>
    (((plain.sections s mem).items e entry).scalars scalar among).isWritable

namespace Value

theorem listOf?_map {α : Type} {element? : Value → Option α} {write : α → Scalar}
    (read : ∀ x, element? (write x).value = some x) (xs : List α) :
    listOf? element? (Item.many (xs.map write)).value = some xs := by
  have mapped : ((xs.map write).map Scalar.value).mapM element? = some xs := by
    induction xs with
    | nil => rfl
    | cons x xs ih =>
      rw [List.map_cons, List.map_cons, List.mapM_cons, read, ih]
      rfl
  exact mapped

theorem integerIn?_of_mem {low high n : Int} (above : low ≤ n) (below : n ≤ high) :
    (Value.integer n).integerIn? low high = some n := if_pos ⟨above, below⟩

end Value

end Toml

theorem Uuid.text_plain (u : Uuid) : (Scalar.text u.text).Plain := by
  have digits : ∀ m : Fin 16, Toml.isPlain (Hex.digit m) = true := by decide
  intro c mem
  obtain rfl | ⟨m, rfl⟩ := Uuid.mem_text mem
  · rfl
  · exact digits m

theorem ScanMode.name_plain (m : ScanMode) : (Scalar.text m.name).Plain := by
  cases m <;> decide

theorem Route.name_plain (r : Route) : (Scalar.text r.name).Plain := by
  cases r <;> decide

namespace Format

open Toml.Value

/-- A list is kept if its elements are. -/
theorem keeps_many {α : Type} {write : α → Scalar} {element? : Value → Option α}
    (plain : ∀ x, (write x).Plain) (read : ∀ x, element? (write x).value = some x) (xs : List α) :
    (Codec.mk (fun xs => .many (xs.map write)) (listOf? element?)).Keeps xs where
  plain s mem := by
    obtain ⟨x, -, rfl⟩ := List.mem_map.1 mem
    exact plain x
  reads := listOf?_map read xs

theorem readsSettings_toml {table : List (String × Value)} {s : Settings} (finds : toml.Finds table s) :
    Settings.ofValue? (.table table) = some s := by
  obtain ⟨service, scanMode, negotiate, unitSize, routes, notify⟩ := finds
  simp only [toml] at service scanMode negotiate unitSize routes notify
  simp only [Settings.ofValue?, fields?, Settings.fieldNames, List.map_cons, List.map_nil,
    Option.bind_eq_bind, Option.bind_some, service, scanMode, negotiate, unitSize, routes, notify]
  rfl

theorem readsRuntime_toml {table : List (String × Value)} {s : RuntimeSettings}
    (finds : toml.FindsRuntime table s) : RuntimeSettings.ofValue? (.table table) = some s := by
  obtain ⟨nonce, readyTimeout, writeTimeout⟩ := finds
  simp only [toml] at nonce readyTimeout writeTimeout
  simp only [RuntimeSettings.ofValue?, fields?, RuntimeSettings.fieldNames, List.map_cons, List.map_nil,
    Option.bind_eq_bind, Option.bind_some, nonce, readyTimeout, writeTimeout]
  rfl

theorem readsApp_toml {table : List (String × Value)} {s : AppSettings} (finds : toml.FindsApp table s) :
    AppSettings.ofValue? (.table table) = some s := by
  obtain ⟨central, runtime⟩ := finds
  simp only [toml] at central runtime
  simp only [AppSettings.ofValue?, fields?, AppSettings.fieldNames, List.map_cons, List.map_nil,
    Option.bind_eq_bind, Option.bind_some, central, runtime]
  rfl

theorem keeps_uuid (u : Uuid) : toml.uuid.Keeps u where
  plain := u.text_plain
  reads := by
    simp only [toml, Item.value, Scalar.value, Uuid.ofValue?]
    exact u.ofText?_text

theorem keeps_unitSize (n : UInt16) : toml.unitSize.Keeps n := by
  have := n.toNat_lt
  refine ⟨⟨by omega, by omega⟩, ?_⟩
  simp only [toml, Settings.unitSize?, Item.value, Scalar.value]
  rw [integerIn?_of_mem (by omega) (by omega)]
  simp

theorem keeps_nonce (n : Int32) : toml.nonce.Keeps n := by
  have low := n.le_toInt
  have high := n.toInt_lt
  refine ⟨⟨by omega, by omega⟩, ?_⟩
  simp only [toml, RuntimeSettings.nonce?, Item.value, Scalar.value]
  rw [integerIn?_of_mem (by omega) (by omega)]
  simp

theorem keeps_seconds {n : UInt64} (small : n.toNat ≤ Toml.maxNumber) : toml.seconds.Keeps n := by
  have := n.toNat_lt
  simp only [Toml.maxNumber] at small
  refine ⟨⟨by omega, by omega⟩, ?_⟩
  simp only [toml, RuntimeSettings.seconds?, Item.value, Scalar.value]
  rw [integerIn?_of_mem (by omega) (by omega)]
  simp

theorem render?_toml {d : Document} (plain : d.Plain) : toml.render? d = some d.written :=
  if_pos plain.isWritable

theorem parse?_toml {d : Document} {text : String} (plain : d.Plain) (laid : d.LaidOut text) :
    toml.parse? text = some d.value := plain.ofText?_laidOut laid

theorem documented_toml : toml.Documented where
  renders d plain := ⟨d.written, render?_toml plain⟩
  parses d text plain rendered := by
    obtain rfl : d.written = text := Option.some.inj ((render?_toml plain).symm.trans rendered)
    exact parse?_toml plain d.written_laidOut
  uuid := keeps_uuid
  uuids := keeps_many Uuid.text_plain Uuid.ofText?_text
  scanMode m := ⟨m.name_plain, by cases m <;> rfl⟩
  routes := keeps_many Route.name_plain fun r => by cases r <;> rfl
  truth _ := ⟨trivial, rfl⟩
  unitSize := keeps_unitSize
  nonce := keeps_nonce
  seconds _ := keeps_seconds
  writesSettings _ := rfl
  writesRuntime _ := rfl
  writesApp _ := rfl
  readsSettings _ _ := readsSettings_toml
  readsRuntime _ _ := readsRuntime_toml
  readsApp _ _ := readsApp_toml

end Format

end RadioCentral
