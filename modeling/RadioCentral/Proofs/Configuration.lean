import RadioCentral.Proofs.Format

/-!
Settings survive being written down, with any library that does what is documented. Whatever tables and
keys are taken out of their document, the rest is read as the settings that keep what is left and have
their defaults for what is gone.
-/
namespace RadioCentral

namespace Toml

/-! ### Parts of documents -/

def Section.keep (keys : String → Bool) (s : Section) : Section :=
  { s with entries := s.entries.filter fun e => keys e.1 }

@[simp] theorem Section.name_keep (s : Section) (keys : String → Bool) : (s.keep keys).name = s.name := rfl

/-- What is left of a document of which only some tables are kept, and of each only some keys. -/
def Document.keep (tables : String → Bool) (keys : String → String → Bool) (d : Document) : Document :=
  (d.filter fun s => tables s.name).map fun s => s.keep (keys s.name)

theorem Section.Plain.keep {s : Section} (plain : s.Plain) (keys : String → Bool) : (s.keep keys).Plain where
  name := plain.name
  keys e mem := plain.keys e (List.mem_of_mem_filter mem)
  items e mem := plain.items e (List.mem_of_mem_filter mem)

theorem Document.Plain.keep {d : Document} (plain : d.Plain) (tables : String → Bool)
    (keys : String → String → Bool) : Document.Plain (d.keep tables keys) where
  sections s mem := by
    obtain ⟨t, kept, rfl⟩ := List.mem_map.1 mem
    exact (plain.sections t (List.mem_of_mem_filter kept)).keep _
  names := by
    have names : (d.keep tables keys).map Section.name =
        (d.filter fun s => tables s.name).map Section.name := by
      rw [Document.keep, List.map_map]
      rfl
    rw [names]
    exact plain.names.sublist (List.filter_sublist.map _)
  keys s mem := by
    obtain ⟨t, kept, rfl⟩ := List.mem_map.1 mem
    exact (plain.keys t (List.mem_of_mem_filter kept)).sublist (List.filter_sublist.map _)

/-- What is left of a table that holds tables. -/
def Value.keep (tables : String → Bool) (keys : String → String → Bool) : Value → Value
  | .table entries => .table ((entries.filter fun e => tables e.1).map fun
    | (name, .table inner) => (name, .table (inner.filter fun e => keys name e.1))
    | e => e)
  | v => v

theorem Section.value_keep (s : Section) (keys : String → Bool) : (s.keep keys).value =
    .table ((s.entries.map fun e => (e.1, e.2.value)).filter fun e => keys e.1) := by
  rw [List.filter_map]
  rfl

theorem Document.value_keep (d : Document) (tables : String → Bool) (keys : String → String → Bool) :
    (d.keep tables keys).value = d.value.keep tables keys := by
  simp only [value, Value.keep, Document.keep, List.filter_map, List.map_map]
  refine congrArg Value.table (List.map_congr_left fun s _ => ?_)
  simp only [Function.comp_apply, Section.value_keep]
  rfl

theorem Document.keep_all (d : Document) : d.keep (fun _ => true) (fun _ _ => true) = d := by
  simp [Document.keep, Section.keep]

theorem lookup_kept {α β : Type} (keys : String → Bool) (f : α → β) (entries : List (String × α))
    (key : String) : ((entries.filter fun e => keys e.1).map fun e => (e.1, f e.2)).lookup key =
      if keys key then (entries.lookup key).map f else none := by
  induction entries with
  | nil => simp
  | cons e entries ih =>
    obtain ⟨name, x⟩ := e
    by_cases same : key = name
    · subst same
      cases kept : keys key with
      | false => simpa [kept] using ih
      | true => simp [kept]
    · have other : (key == name) = false := by simpa using same
      cases kept : keys name <;> simpa [kept, List.lookup_cons, other] using ih

end Toml

open Toml (Document Item Section Value)

/-! ### What is kept of settings -/

def Settings.keep (keys : String → Bool) (s : Settings) : Settings :=
  let defaults : Settings := {}
  { service := if keys "service_uuid" then s.service else defaults.service
    scanMode := if keys "scan_mode" then s.scanMode else defaults.scanMode
    negotiate := if keys "request_unit_size" then s.negotiate else defaults.negotiate
    unitSize := if keys "requested_unit_size" then s.unitSize else defaults.unitSize
    routes := if keys "connect_routes" then s.routes else defaults.routes
    notify := if keys "notify_characteristics" then s.notify else defaults.notify }

def RuntimeSettings.keep (keys : String → Bool) (s : RuntimeSettings) : RuntimeSettings :=
  let defaults : RuntimeSettings := {}
  { nonce := if keys "advertise_nonce" then s.nonce else defaults.nonce
    readyTimeout := if keys "ready_timeout_secs" then s.readyTimeout else defaults.readyTimeout
    writeTimeout := if keys "write_timeout_secs" then s.writeTimeout else defaults.writeTimeout }

/-- The settings that keep what stands under some tables and keys and have their defaults otherwise. -/
def AppSettings.keep (tables : String → Bool) (keys : String → String → Bool) (s : AppSettings) :
    AppSettings where
  central := if tables "central" then s.central.keep (keys "central") else {}
  runtime := if tables "runtime" then s.runtime.keep (keys "runtime") else {}

theorem AppSettings.keep_all (s : AppSettings) : s.keep (fun _ => true) (fun _ _ => true) = s := rfl

/-! ### Documents of settings -/

/-- A section is plain if its keys are among words and its scalars are plain. -/
theorem Toml.Section.plain_of_keys {s : Section} {names : List String} (word : Toml.IsWord s.name)
    (words : ∀ name ∈ names, Toml.IsWord name) (keys : (s.entries.map Prod.fst).Sublist names)
    (items : ∀ e ∈ s.entries, e.2.Plain) : s.Plain where
  name := word
  keys e mem := words e.1 (keys.subset (List.mem_map_of_mem mem))
  items := items

namespace Format.Documented

variable {F : Format} (documented : F.Documented)

include documented

theorem keys_settings (s : Settings) :
    ((F.settings.write s).map Prod.fst).Sublist Settings.fieldNames := by
  rw [documented.writesSettings]
  exact List.Sublist.refl _

theorem keys_runtime (s : RuntimeSettings) :
    ((F.runtime.write s).map Prod.fst).Sublist RuntimeSettings.fieldNames := by
  rw [documented.writesRuntime]
  cases s.nonce with
  | none => exact List.sublist_cons_self _ _
  | some n => exact List.Sublist.refl _

theorem items_settings (s : Settings) : ∀ e ∈ F.settings.write s, e.2.Plain := by
  simp only [documented.writesSettings, List.forall_mem_cons]
  exact ⟨(documented.uuid _).plain, (documented.scanMode _).plain, (documented.truth _).plain,
    (documented.unitSize _).plain, (documented.routes _).plain, (documented.uuids _).plain, by simp⟩

theorem items_runtime {s : RuntimeSettings} (ready : s.readyTimeout.toNat ≤ Toml.maxNumber)
    (write : s.writeTimeout.toNat ≤ Toml.maxNumber) : ∀ e ∈ F.runtime.write s, e.2.Plain := by
  rw [documented.writesRuntime, List.forall_mem_append]
  constructor
  · intro e mem
    obtain ⟨n, -, rfl⟩ := List.mem_map.1 mem
    exact (documented.nonce n).plain
  · simp only [List.forall_mem_cons]
    exact ⟨(documented.seconds _ ready).plain, (documented.seconds _ write).plain, by simp⟩

theorem plain_app {s : AppSettings} (ready : s.runtime.readyTimeout.toNat ≤ Toml.maxNumber)
    (write : s.runtime.writeTimeout.toNat ≤ Toml.maxNumber) : Document.Plain (F.app.write s) := by
  have central := documented.keys_settings s.central
  have runtime := documented.keys_runtime s.runtime
  have first : ∀ name ∈ Settings.fieldNames, Toml.IsWord name := by decide
  have second : ∀ name ∈ RuntimeSettings.fieldNames, Toml.IsWord name := by decide
  have headers : ∀ name ∈ AppSettings.fieldNames, Toml.IsWord name := by decide
  rw [documented.writesApp]
  constructor
  case sections =>
    refine List.forall_mem_cons.2 ⟨?_, List.forall_mem_singleton.2 ?_⟩
    · exact Section.plain_of_keys (headers "central" (by simp [AppSettings.fieldNames])) first central
        (documented.items_settings s.central)
    · exact Section.plain_of_keys (headers "runtime" (by simp [AppSettings.fieldNames])) second runtime
        (documented.items_runtime ready write)
  case names =>
    show AppSettings.fieldNames.Nodup
    decide
  case keys =>
    have distinct : Settings.fieldNames.Nodup ∧ RuntimeSettings.fieldNames.Nodup := by decide
    exact List.forall_mem_cons.2
      ⟨distinct.1.sublist central, List.forall_mem_singleton.2 (distinct.2.sublist runtime)⟩

/-! ### Reading back -/

omit documented in
/-- A field that is kept is read as what was written, and one that is not as its default. -/
theorem field?_kept {α : Type} {c : Codec Item α} {x : α} (keeps : c.Keeps x)
    {entries : List (String × Item)} {key : String} (there : entries.lookup key = some (c.write x))
    (default : α) (keys : String → Bool) :
    Value.field? c.read? default
        (((entries.filter fun e => keys e.1).map fun e => (e.1, e.2.value)).lookup key) =
      some (if keys key then x else default) := by
  rw [Toml.lookup_kept, there]
  cases keys key
  · rfl
  · exact keeps.reads

/-- The nonce has no key when there is none, and an absent key means none. -/
theorem field?_nonce (s : RuntimeSettings) (keys : String → Bool) :
    Value.field? (fun v => (F.nonce.read? v).map some) none
        ((((F.runtime.write s).filter fun e => keys e.1).map fun e => (e.1, e.2.value)).lookup
          "advertise_nonce") =
      some (if keys "advertise_nonce" then s.nonce else none) := by
  rw [Toml.lookup_kept, documented.writesRuntime]
  cases s.nonce with
  | none => cases keys "advertise_nonce" <;> rfl
  | some n =>
    cases keys "advertise_nonce"
    · rfl
    · exact congrArg (Option.map some) (documented.nonce n).reads

theorem reads_settings (s : Settings) (keys : String → Bool) :
    F.settings.read? ((Section.mk "central" (F.settings.write s)).keep keys).value = some (s.keep keys) := by
  have written := documented.writesSettings s
  refine documented.readsSettings _ _ ⟨?_, ?_, ?_, ?_, ?_, ?_⟩
  · exact field?_kept (documented.uuid _) (by rw [written]; rfl) _ keys
  · exact field?_kept (documented.scanMode _) (by rw [written]; rfl) _ keys
  · exact field?_kept (documented.truth _) (by rw [written]; rfl) _ keys
  · exact field?_kept (documented.unitSize _) (by rw [written]; rfl) _ keys
  · exact field?_kept (documented.routes _) (by rw [written]; rfl) _ keys
  · exact field?_kept (documented.uuids _) (by rw [written]; rfl) _ keys

theorem reads_runtime {s : RuntimeSettings} (ready : s.readyTimeout.toNat ≤ Toml.maxNumber)
    (write : s.writeTimeout.toNat ≤ Toml.maxNumber) (keys : String → Bool) :
    F.runtime.read? ((Section.mk "runtime" (F.runtime.write s)).keep keys).value = some (s.keep keys) := by
  have timeouts : (F.runtime.write s).lookup "ready_timeout_secs" = some (F.seconds.write s.readyTimeout) ∧
      (F.runtime.write s).lookup "write_timeout_secs" = some (F.seconds.write s.writeTimeout) := by
    rw [documented.writesRuntime]
    cases s.nonce <;> exact ⟨rfl, rfl⟩
  refine documented.readsRuntime _ _ ⟨documented.field?_nonce s keys, ?_, ?_⟩
  · exact field?_kept (documented.seconds _ ready) timeouts.1 _ keys
  · exact field?_kept (documented.seconds _ write) timeouts.2 _ keys

theorem reads_app {s : AppSettings} (ready : s.runtime.readyTimeout.toNat ≤ Toml.maxNumber)
    (write : s.runtime.writeTimeout.toNat ≤ Toml.maxNumber) (tables : String → Bool)
    (keys : String → String → Bool) :
    F.app.read? ((F.app.write s).keep tables keys).value = some (s.keep tables keys) := by
  have first := documented.reads_settings s.central (keys "central")
  have second := documented.reads_runtime ready write (keys "runtime")
  rw [documented.writesApp]
  refine documented.readsApp _ _ ⟨?_, ?_⟩
  all_goals cases kept : tables "central" <;> cases kept' : tables "runtime"
  all_goals simp [Document.keep, AppSettings.keep, kept, kept', List.lookup_cons, Value.field?, first, second]

end Format.Documented

namespace AppSettings

theorem fault?_eq_none_iff {s : AppSettings} :
    s.fault? = none ↔ ¬ (s.central.unitSize < minUnitSize ∨ maxUnitSize < s.central.unitSize) ∧
      s.central.routes ≠ [] ∧ ¬ (s.runtime.readyTimeout = 0 ∨ s.runtime.writeTimeout = 0) := by
  unfold fault?
  split
  · simp [*]
  · split
    · simp [*]
    · split <;> simp [*]

theorem validate_eq_ok_iff {s : AppSettings} : s.validate = .ok () ↔ s.fault? = none := by
  unfold validate
  cases s.fault? <;> simp

/-- What holds of a value and of its default holds of the one that is there in the end. -/
theorem holds_of_kept {α : Type} (P : α → Prop) {x default : α} (own : P x) (fallback : P default)
    (kept : Bool) : P (if kept then x else default) := by
  cases kept
  · exact fallback
  · exact own

/-- The defaults have no fault, so that nothing that is taken out makes one. -/
theorem fault?_keep {s : AppSettings} (sound : s.fault? = none) (tables : String → Bool)
    (keys : String → String → Bool) : (s.keep tables keys).fault? = none := by
  obtain ⟨size, routes, timeouts⟩ := fault?_eq_none_iff.1 sound
  obtain ⟨ready, write⟩ := not_or.1 timeouts
  let inRange (n : UInt16) : Prop := ¬ (n < minUnitSize ∨ maxUnitSize < n)
  have size (ks : String → Bool) : inRange (s.central.keep ks).unitSize :=
    holds_of_kept inRange size (by decide) _
  have routes (ks : String → Bool) : (s.central.keep ks).routes ≠ [] :=
    holds_of_kept (· ≠ []) routes (by decide) _
  have ready (ks : String → Bool) : (s.runtime.keep ks).readyTimeout ≠ 0 :=
    holds_of_kept (· ≠ 0) ready (by decide) _
  have write (ks : String → Bool) : (s.runtime.keep ks).writeTimeout ≠ 0 :=
    holds_of_kept (· ≠ 0) write (by decide) _
  refine fault?_eq_none_iff.2 ⟨?_, ?_, not_or.2 ⟨?_, ?_⟩⟩
  · exact holds_of_kept (fun c : Settings => inRange c.unitSize) (size _) (by decide) _
  · exact holds_of_kept (fun c : Settings => c.routes ≠ []) (routes _) (by decide) _
  · exact holds_of_kept (fun r : RuntimeSettings => r.readyTimeout ≠ 0) (ready _) (by decide) _
  · exact holds_of_kept (fun r : RuntimeSettings => r.writeTimeout ≠ 0) (write _) (by decide) _

variable {F : Format}

theorem ofText_of_faultless {text : String} {v : Value} {s : AppSettings} (parsed : F.parse? text = some v)
    (read : F.app.read? v = some s) (sound : s.fault? = none) : ofText F text = .ok s := by
  rw [ofText, parsed, Option.bind_some, read]
  simp only [validate_eq_ok_iff.2 sound]
  rfl

theorem validate_of_ofText {text : String} {s : AppSettings} (read : ofText F text = .ok s) :
    s.validate = .ok () := by
  unfold ofText at read
  split at read
  · cases read
  · rename_i t _
    cases checked : t.validate with
    | error e => simp [checked, Except.map] at read
    | ok u =>
      simp only [checked, Except.map, Except.ok.injEq] at read
      rw [← read, checked]

/-- A text of what is left of the document of settings is read as what is kept of the settings. -/
theorem ofText_of_parse (documented : F.Documented) {s : AppSettings} (valid : s.validate = .ok ())
    (ready : s.runtime.readyTimeout.toNat ≤ Toml.maxNumber)
    (write : s.runtime.writeTimeout.toNat ≤ Toml.maxNumber) {tables : String → Bool}
    {keys : String → String → Bool} {text : String}
    (parsed : F.parse? text = some ((F.app.write s).keep tables keys).value) :
    ofText F text = .ok (s.keep tables keys) :=
  ofText_of_faultless parsed (documented.reads_app ready write tables keys)
    (fault?_keep (validate_eq_ok_iff.1 valid) tables keys)

theorem toText_toml {s : AppSettings} (plain : s.document.Plain) :
    s.toText .toml = .ok s.document.written := by
  have rendered : Format.toml.render? (Format.toml.app.write s) = some s.document.written :=
    Format.render?_toml plain
  rw [toText, rendered]

/-- With the library of the program, what is taken out can leave any empty lines behind. -/
theorem ofText_laidOut {s : AppSettings} (valid : s.validate = .ok ())
    (ready : s.runtime.readyTimeout.toNat ≤ Toml.maxNumber)
    (write : s.runtime.writeTimeout.toNat ≤ Toml.maxNumber) {tables : String → Bool}
    {keys : String → String → Bool} {text : String}
    (laid : (s.document.keep tables keys).LaidOut text) : ofText .toml text = .ok (s.keep tables keys) := by
  have plain := Format.documented_toml.plain_app ready write
  exact ofText_of_parse Format.documented_toml valid ready write (Format.parse?_toml (plain.keep tables keys) laid)

/-- Settings survive being written down and taken out in part. With a library that does what is
documented, usable settings with timeouts that a document can hold have a text, which is read as these
settings. Let any tables and keys be taken out of what that text says: then there is a text of the rest,
and every text of it is read as the settings that keep what is left and have their defaults for what is
gone. Settings that are read, from any text, can be used. -/
theorem rendering_survives (F : Format) (documented : F.Documented) (s : AppSettings)
    (valid : s.validate = .ok ()) (ready : s.runtime.readyTimeout.toNat ≤ Toml.maxNumber)
    (write : s.runtime.writeTimeout.toNat ≤ Toml.maxNumber) :
    (∃ text v, s.toText F = .ok text ∧ ofText F text = .ok s ∧ F.parse? text = some v ∧
      ∀ tables keys, (∃ rest, F.parse? rest = some (v.keep tables keys)) ∧
        ∀ rest, F.parse? rest = some (v.keep tables keys) → ofText F rest = .ok (s.keep tables keys)) ∧
    ∀ text t, ofText F text = .ok t → t.validate = .ok () := by
  have plain := documented.plain_app ready write
  have reads (tables keys rest) (parsed : F.parse? rest = some ((F.app.write s).keep tables keys).value) :
      ofText F rest = .ok (s.keep tables keys) := ofText_of_parse documented valid ready write parsed
  obtain ⟨text, rendered⟩ := documented.renders _ plain
  have parsed := documented.parses _ _ plain rendered
  refine ⟨⟨text, (F.app.write s).value, by rw [toText, rendered], ?_, parsed, fun tables keys => ⟨?_, ?_⟩⟩,
    fun _ _ => validate_of_ofText⟩
  · have whole := reads (fun _ => true) (fun _ _ => true) text
    rw [Document.keep_all, keep_all] at whole
    exact whole parsed
  · obtain ⟨rest, again⟩ := documented.renders _ (plain.keep tables keys)
    exact ⟨rest, Document.value_keep _ tables keys ▸ documented.parses _ _ (plain.keep tables keys) again⟩
  · intro rest left
    exact reads tables keys rest (left.trans (by rw [Document.value_keep]))

def bench : AppSettings where
  central :=
    { service := Uuid.expand 0x180d
      scanMode := .serviceFiltered
      negotiate := false
      unitSize := 185
      routes := [.standard]
      notify := [Uuid.meshService, Uuid.expand 0x2a37] }
  runtime := { nonce := some (-7), readyTimeout := 12 }

/-- The last text is what is left of the text of `bench` without its first table and all keys of the other
but one, with empty lines put in. -/
theorem bench_survives :
    Format.toml.Documented ∧ bench.validate = .ok () ∧ bench.runtime.readyTimeout.toNat ≤ Toml.maxNumber ∧
      bench.runtime.writeTimeout.toNat ≤ Toml.maxNumber ∧
      (∃ text, bench.toText .toml = .ok text ∧ ofText .toml text = .ok bench) ∧
      ofText .toml "\n[runtime]\n\nadvertise_nonce = -7\n" = .ok { runtime := { nonce := some (-7) } } := by
  obtain ⟨⟨text, v, written, back, parsed, rest⟩, -⟩ :=
    rendering_survives .toml Format.documented_toml bench rfl (by decide) (by decide)
  have plain : bench.document.Plain := Format.documented_toml.plain_app (by decide) (by decide)
  obtain rfl : bench.document.written = text := Except.ok.inj ((toText_toml plain).symm.trans written)
  obtain rfl : bench.document.value = v :=
    Option.some.inj ((Format.parse?_toml plain bench.document.written_laidOut).symm.trans parsed)
  have laid : (bench.document.keep (fun table => table = "runtime")
      fun _ key => key = "advertise_nonce").LaidOut "\n[runtime]\n\nadvertise_nonce = -7\n" :=
    ⟨["", "[runtime]", "", "advertise_nonce = -7"], by decide, by decide⟩
  have left := Format.parse?_toml (plain.keep _ _) laid
  rw [Document.value_keep] at left
  exact ⟨Format.documented_toml, rfl, by decide, by decide, ⟨_, written, back⟩, (rest _ _).2 _ left⟩

end AppSettings

end RadioCentral
