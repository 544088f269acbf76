import RadioCentral.Proofs.Backend.Exposure
import RadioCentral.Proofs.Disclosure

/-!
At which characteristic a request ends up. The central looks an identifier up in the configured service;
the radio looks it up again, in all services of the device. Both find the same one exactly if no service
that is listed before the configured one has a characteristic of that identifier.
-/
namespace RadioCentral

/-! ### What is looked at -/

/-- Descriptors name the characteristic they are listed under. -/
def Service.Coherent (s : Service) : Prop := ∀ c ∈ s.characteristics, ∀ d ∈ c.descriptors, d.characteristic = c.uuid

/-- What has been looked at among the characteristics of the configured service when a call on an identifier
is made: the first of the identifier for a write, for the rest one that has a client configuration. -/
inductive DeviceCall.Checked (cs : List Characteristic) (u : Uuid) : DeviceCall → Characteristic → Prop where
  | write {target : Attribute} {value : Bytes} {mode : WriteMode} {c : Characteristic}
      (found : cs.find? (fun c => c.uuid = u) = some c) (writable : c.isWritable = true) :
      Checked cs u (.write target value mode) c
  | subscribe {target : Attribute} {c : Characteristic} {d : Descriptor} (listed : c ∈ cs) (named : c.uuid = u)
      (config : c.clientConfiguration? = some d) : Checked cs u (.subscribe target) c
  | unsubscribe {target : Attribute} {c : Characteristic} {d : Descriptor} (listed : c ∈ cs) (named : c.uuid = u)
      (config : c.clientConfiguration? = some d) : Checked cs u (.unsubscribe target) c

section

variable {exposed : List Service} {service u : Uuid} {cs : List Characteristic} {c : Characteristic}

theorem Service.wanted_listing (wanted : World.wantedCharacteristics service (listing exposed) = some cs) :
    ∃ s ∈ exposed, s.uuid = service ∧ s.ordered ∈ listing exposed ∧ s.ordered.characteristics = cs := by
  obtain ⟨t, found, rfl⟩ := Option.map_eq_some_iff.1 wanted
  have listed := List.mem_of_find?_eq_some found
  obtain ⟨s, there, rfl⟩ := mem_listing.1 listed
  have named : s.ordered.uuid = service := by simpa using List.find?_some found
  exact ⟨s, there, named, listed, rfl⟩

theorem Service.Coherent.names {s : Service} (coherent : s.Coherent) (listed : c ∈ s.ordered.characteristics)
    {d : Descriptor} (config : c.clientConfiguration? = some d) : d.characteristic = c.uuid := by
  obtain ⟨c, its, rfl⟩ := List.mem_map.1 (mem_orderedList.1 listed)
  exact coherent c its d (mem_orderedList.1 (List.mem_of_find?_eq_some config))

theorem DeviceCall.Checked.listed {call : DeviceCall} (checked : call.Checked cs u c) : c ∈ cs ∧ c.uuid = u := by
  cases checked with
  | write found => exact ⟨List.mem_of_find?_eq_some found, by simpa using List.find?_some found⟩
  | subscribe listed named | unsubscribe listed named => exact ⟨listed, named⟩

end

/-- A handle that was given out once belongs to one device. -/
theorem Log.Assigned.unique {log : Log} {h : Handle} {device place : Address} (distinct : log.issued.Nodup)
    (one : log.Assigned h device) (other : log.Assigned h place) : place = device := by
  obtain ⟨route, mem⟩ := one
  obtain ⟨route', mem'⟩ := other
  have issued {log : Log} {place : Address} {route : Route} (mem : .dialed place route (some h) ∈ log) :
      h ∈ log.issued := List.mem_filterMap.2 ⟨_, mem, rfl⟩
  obtain ⟨before, after, rfl⟩ := List.append_of_mem mem
  rw [issued_append, ← List.singleton_append, issued_append, issued_dialed, Option.toList_some,
    List.singleton_append, List.nodup_middle, List.nodup_cons] at distinct
  obtain ⟨once, -⟩ := distinct
  rcases List.mem_append.1 mem' with early | late
  · exact absurd (List.mem_append_left _ (issued early)) once
  · rcases List.mem_cons.1 late with same | late
    · cases same
      rfl
    · exact absurd (List.mem_append_right _ (issued late)) once

/-! ### Runs on a backend -/

def Move.Unasked : Move → Prop
  | .run _ | .finish .. | .stimulate _ => True
  | .dial _ | .ask _ => False

inductive Deed where
  | acts (operation : Operation)
  | heeds (event : RadioEvent)
  | moves (m : Move)

namespace Deed

def happening : Deed → Happening Backend
  | acts o => .operation o
  | heeds event => .operation (.radioEvent event)
  | moves m => .radioChanges (·.move m)

/-- What can happen while each device exposes its services. What was told may be taken up in any order, and more
than once. -/
def Allowed (exposes : Address → List Service) (b : Backend) : Deed → Prop
  | acts o => o.event? = none
  | heeds event => event ∈ b.events
  | moves m => m.Unasked ∧ m.Keeps exposes b.hardware

end Deed

structure Backend.Unused (exposes : Address → List Service) (b : Backend) : Prop where
  shown : b.hardware.Shows exposes
  links : b.links = []
  jobs : b.jobs = []
  calls : b.hardware.calls = []
  events : b.events = []

namespace World

/-- Each deed can happen where those before it have led. -/
def Possible (exposes : Address → List Service) (w : World (Recorded Backend)) : List Deed → Prop
  | [] => True
  | d :: deeds => d.Allowed exposes w.radio.state ∧ (w.happen Backend.radio d.happening).Possible exposes deeds

structure Sourced (exposes : Address → List Service) (history : List (Happening Backend))
    (w : World (Recorded Backend)) : Prop where
  founded : Founded exposes w.radio
  told : ∀ h services, .operation (.radioEvent (.servicesDiscovered h services)) ∈ history →
    ∃ device, w.radio.log.Assigned h device ∧ (services = [] ∨ services = Service.listing (exposes device))

section

variable {exposes : Address → List Service} {history : List (Happening Backend)} {w : World (Recorded Backend)}
  {d : Deed} {deeds : List Deed}

theorem founded_deed (founded : Founded exposes w.radio) (allowed : d.Allowed exposes w.radio.state) :
    Founded exposes (w.happen Backend.radio d.happening).radio := by
  cases d with
  | acts o =>
    have heard : Founded exposes (w.hear o.event?).radio := by
      rw [show o.event? = none from allowed, hear_none]
      exact founded
    exact (Founded.keeps exposes).step o heard
  | heeds event =>
    have heard : Founded exposes (w.hear (some event)).radio := founded.mono (List.subset_append_left _ _)
    exact (Founded.keeps exposes).step (.radioEvent event) heard
  | moves m =>
    obtain ⟨unasked, keeps⟩ := allowed
    refine founded.move keeps (List.Subset.refl _) (fun device same => ?_) fun job new => ?_
    · subst same
      exact unasked.elim
    · cases m with
      | run | finish | stimulate => cases new
      | dial | ask => exact unasked.elim

theorem Sourced.deed (sourced : w.Sourced exposes history) (allowed : d.Allowed exposes w.radio.state) :
    (w.happen Backend.radio d.happening).Sourced exposes (history ++ [d.happening]) where
  founded := founded_deed sourced.founded allowed
  told h services mem := by
    have grown := (log_happen Backend.radio w d.happening).subset
    suffices known : ∃ device, w.radio.log.Assigned h device ∧
        (services = [] ∨ services = Service.listing (exposes device)) from
      known.imp fun _ its => ⟨its.1.mono grown, its.2⟩
    rcases List.mem_append.1 mem with old | new
    · exact sourced.told h services old
    · have same := List.mem_singleton.1 new
      cases d with
      | heeds event =>
        cases same
        exact sourced.founded.told h services allowed
      | acts o =>
        cases same
        cases allowed
      | moves => cases same

theorem Sourced.run (sourced : w.Sourced exposes history) (possible : w.Possible exposes deeds) :
    ((deeds.map Deed.happening).foldl (happen Backend.radio) w).Sourced exposes
      (history ++ deeds.map Deed.happening) := by
  induction deeds generalizing history w with
  | nil => simpa using sourced
  | cons d deeds ih =>
    obtain ⟨allowed, possible⟩ := possible
    simpa using ih (sourced.deed allowed) possible

theorem sourced_fresh {b : Backend} {settings : Settings} (unused : b.Unused exposes) :
    (fresh settings b).Sourced exposes [] where
  told _ _ mem := by cases mem
  founded := {
    shown := unused.shown
    links e mem := by
      have none : e ∈ b.links.joins := mem
      rw [unused.links] at none
      cases none
    jobs job mem := by
      have none : job ∈ b.jobs := mem
      rw [unused.jobs] at none
      cases none
    calls device call target mem := by
      have none : .device device call ∈ b.hardware.calls := mem
      rw [unused.calls] at none
      cases none
    told h services mem := by
      have none : .servicesDiscovered h services ∈ b.events := mem
      rw [unused.events] at none
      cases none }

/-- What the central was told of on a handle is the configured service as the device of the handle exposes it. -/
theorem Sourced.wanted {service : Uuid} {h : Handle} {device : Address} {cs : List Characteristic}
    (sourced : w.Sourced exposes history) (distinct : w.radio.log.issued.Nodup)
    (dialed : w.radio.log.Assigned h device) (told : Told service history h cs) :
    wantedCharacteristics service (Service.listing (exposes device)) = some cs := by
  obtain ⟨services, known, wanted⟩ := told
  obtain ⟨place, given, none | all⟩ := sourced.told h services known
  · rw [none] at wanted
    cases wanted
  · rwa [← dialed.unique distinct given, ← all]

theorem issued_nodup_deeds (settings : Settings) (b : Backend) (deeds : List Deed) :
    (outcome Backend.radio settings b (deeds.map Deed.happening)).radio.log.issued.Nodup := by
  refine issued_nodup Backend.numbers settings b _ fun change mem c => ?_
  obtain ⟨d, -, same⟩ := List.mem_map.1 mem
  cases d with
  | acts | heeds => cases same
  | moves m =>
    cases same
    exact Backend.nextHandle_move m c

end

section

variable {exposes : Address → List Service} {settings : Settings} {b : Backend}
  {history : List (Happening Backend)} {call : DeviceCall} {h : Handle} {device : Address} {target : Attribute}

/-- Whoever asks for a call has looked at a characteristic of its identifier in the configured service. -/
theorem Sourced.checked (sourced : (outcome Backend.radio settings b history).Sourced exposes history)
    (coherent : ∀ s ∈ exposes device, s.Coherent)
    (distinct : (outcome Backend.radio settings b history).radio.log.issued.Nodup)
    (dialed : (outcome Backend.radio settings b history).radio.log.Assigned h device)
    (grounded : call.Grounded (outcome Backend.radio settings b history).radio.log h target) :
    ∃ cs c, wantedCharacteristics settings.service (Service.listing (exposes device)) = some cs ∧
      call.Checked cs target.uuid c := by
  have onHandle {request : Request} (asked : request ∈ (outcome Backend.radio settings b history).radio.log.requests)
      (its : request.handle? = some h) :
      request ∈ (outcome Backend.radio settings b history).radio.log.requestsOn h :=
    List.mem_filter.2 ⟨asked, by simpa using its⟩
  have configures {d : Descriptor} {value : Bytes}
      (asked : .writeDescriptor h d value ∈ (outcome Backend.radio settings b history).radio.log.requests)
      (names : d.characteristic = target.uuid) :
      ∃ cs c, wantedCharacteristics settings.service (Service.listing (exposes device)) = some cs ∧
        c ∈ cs ∧ c.uuid = target.uuid ∧ c.clientConfiguration? = some d := by
    obtain ⟨cs, c, told, listed, config⟩ :=
      configures_outcome (List.nodup_iff_count_le_one.1 distinct h) (onHandle asked rfl)
    have wanted := sourced.wanted distinct dialed told
    obtain ⟨s, there, -, -, rfl⟩ := Service.wanted_listing wanted
    exact ⟨_, c, wanted, listed, ((coherent s there).names listed config).symm.trans names, config⟩
  cases grounded with
  | @write _ value mode asked =>
    obtain ⟨cs, c, told, found, writable⟩ :=
      (discloses_outcome Backend.radio settings b history).writes h target.uuid value mode (onHandle asked rfl)
    exact ⟨cs, c, sourced.wanted distinct dialed told, .write found writable⟩
  | subscribe asked _ names =>
    obtain ⟨cs, c, wanted, listed, named, config⟩ := configures asked names
    exact ⟨cs, c, wanted, .subscribe listed named config⟩
  | unsubscribe asked _ names =>
    obtain ⟨cs, c, wanted, listed, named, config⟩ := configures asked names
    exact ⟨cs, c, wanted, .unsubscribe listed named config⟩

end

/-- Whatever happens on a backend whose devices keep their services, a call that acts on a characteristic is made
for a request of the central, on a handle of the device, after a characteristic of the identifier was looked at
in the configured service. The call acts on a characteristic of that service if and only if no service listed
before it has one of the identifier; and then, unless the device exposes the service more than once, it is the
first of the identifier among those that were looked at. -/
theorem targets_configured_iff {exposes : Address → List Service} {b : Backend} (unused : b.Unused exposes)
    (coherent : ∀ device, ∀ s ∈ exposes device, s.Coherent) (settings : Settings) {deeds : List Deed}
    (possible : (fresh settings b).Possible exposes deeds) :
    let w := outcome Backend.radio settings b (deeds.map Deed.happening)
    ∀ device call target, .device device call ∈ w.radio.state.hardware.calls → call.target? = some target →
      ∃ h cs c, w.radio.log.Assigned h device ∧ call.Grounded w.radio.log h target ∧
        wantedCharacteristics settings.service (Service.listing (exposes device)) = some cs ∧
        call.Checked cs target.uuid c ∧
        (target.service = settings.service ↔
          ∀ s ∈ exposes device, s.Has target.uuid → ¬ s.uuid < settings.service) ∧
        ((∀ s ∈ exposes device, ∀ t ∈ exposes device, s.uuid = settings.service → t.uuid = settings.service → s = t) →
          target.service = settings.service → cs.find? (fun c => c.uuid = target.uuid) = some target.characteristic) := by
  intro w device call target made acts
  have sourced : w.Sourced exposes (deeds.map Deed.happening) := (sourced_fresh unused).run possible
  obtain ⟨h, dialed, grounded, first⟩ := sourced.founded.calls device call target made acts
  obtain ⟨cs, c, wanted, checked⟩ :=
    sourced.checked (coherent device) (issued_nodup_deeds settings b deeds) dialed grounded
  refine ⟨h, cs, c, dialed, grounded, wanted, checked, ?service, ?characteristic⟩
  all_goals obtain ⟨s, there, its, listed, rfl⟩ := Service.wanted_listing wanted
  case service =>
    exact first.service_eq_iff ⟨s, there, its, Service.has_ordered.1 ⟨c, checked.listed⟩⟩
  case characteristic =>
    intro single same
    exact first.characteristic_eq (same ▸ single) listed (its.trans same.symm)

end World

/-! ### A device that exposes an identifier twice -/

namespace Visit

def place : Address := ⟨"p"⟩

def outlet : Characteristic :=
  Characteristic.withClientConfiguration { uuid := Uuid.expand 0x2a38, properties := .union .write .notify }

def settings : Settings := { service := Uuid.expand 0x1234, notify := [outlet.uuid] }

def service : Service := { uuid := settings.service, characteristics := [outlet] }

/-- A service that is listed before the configured one. Its characteristic has the identifier of the outlet and can
neither be written nor subscribed to. -/
def namesake : Service :=
  { uuid := Uuid.expand 0x1233, characteristics := [{ uuid := outlet.uuid, properties := .read }] }

def sighting : Sighting := { services := [settings.service], serviceData := [(settings.service, [0, 0, 0, 5])] }

def backend (exposed : List Service) : Backend :=
  { hardware := { devices := [(place, { sighting := some sighting, gatt := exposed })] } }

def deeds (exposed : List Service) : List Deed :=
  [.moves (.stimulate (.adapterEvent (.seen place))), .moves (.run 0), .acts .start,
    .heeds (.advertisement place sighting.payload), .acts .dispatchNext, .moves (.run 2), .heeds (.connected ⟨1⟩),
    .moves (.run 3), .heeds (.servicesDiscovered ⟨1⟩ (Service.listing exposed)), .moves (.run 3),
    .heeds (.descriptorWritten ⟨1⟩ outlet.uuid enableIndication true), .acts (.write [7] outlet.uuid place),
    .moves (.run 4)]

theorem unused (exposed : List Service) : (backend exposed).Unused fun _ => exposed where
  shown id d there := by
    obtain ⟨rfl, -⟩ : d = { sighting := some sighting, gatt := exposed } ∧ (id == place) = true := by
      cases named : id == place <;> simp_all [backend, Hardware.device?, List.lookup_cons]
    exact ⟨rfl, .inl rfl⟩
  links := rfl
  jobs := rfl
  calls := rfl
  events := rfl

def result (exposed : List Service) : World (Recorded Backend) :=
  World.outcome Backend.radio settings (backend exposed) ((deeds exposed).map Deed.happening)

theorem coherent_service : service.Coherent := by
  simp [Service.Coherent, service, outlet, Characteristic.withClientConfiguration]

theorem coherent_namesake : namesake.Coherent := by
  simp [Service.Coherent, namesake]

theorem possible_deeds {exposed : List Service} (either : exposed = [service] ∨ exposed = [service, namesake]) :
    (World.fresh settings (backend exposed)).Possible (fun _ => exposed) (deeds exposed) := by
  rcases either with rfl | rfl
  all_goals
    refine ⟨⟨trivial, trivial⟩, ⟨trivial, trivial⟩, rfl, ?_, rfl, ⟨trivial, trivial⟩, ?_,
      ⟨trivial, trivial⟩, ?_, ⟨trivial, trivial⟩, ?_, rfl, ⟨trivial, trivial⟩, trivial⟩
    all_goals exact List.mem_of_getLast? (by cbv)

end Visit

namespace World

/-- With the configured service alone, its outlet is subscribed and written to, and nothing else is. -/
theorem visit_targets_outlet :
    let exposes : Address → List Service := fun _ => [Visit.service]
    let calls := (Visit.result [Visit.service]).radio.state.hardware.calls
    (Visit.backend [Visit.service]).Unused exposes ∧ (∀ device, ∀ s ∈ exposes device, s.Coherent) ∧
    (fresh Visit.settings (Visit.backend [Visit.service])).Possible exposes (Visit.deeds [Visit.service]) ∧
    .device Visit.place (.subscribe ⟨Visit.settings.service, Visit.outlet⟩) ∈ calls ∧
    .device Visit.place (.write ⟨Visit.settings.service, Visit.outlet⟩ [7] .withResponse) ∈ calls ∧
    ∀ device call target, .device device call ∈ calls → call.target? = some target →
      target.service = Visit.settings.service ∧
        [Visit.outlet].find? (fun c => c.uuid = target.uuid) = some target.characteristic := by
  intro exposes calls
  have coherent : ∀ device, ∀ s ∈ exposes device, s.Coherent :=
    fun _ => List.forall_mem_singleton.2 Visit.coherent_service
  have possible := Visit.possible_deeds (.inl rfl)
  have listed : wantedCharacteristics Visit.settings.service (Service.listing [Visit.service]) =
      some [Visit.outlet] := by cbv
  have made : calls = [.device Visit.place .connect, .device Visit.place .notifications,
      .device Visit.place .discoverServices,
      .device Visit.place (.subscribe ⟨Visit.settings.service, Visit.outlet⟩),
      .device Visit.place (.write ⟨Visit.settings.service, Visit.outlet⟩ [7] .withResponse)] := by
    subst calls
    cbv
  refine ⟨Visit.unused _, coherent, possible, by simp [made], by simp [made], fun device call target there acts => ?_⟩
  obtain ⟨h, cs, c, -, -, wanted, -, iff, first⟩ :=
    targets_configured_iff (Visit.unused _) coherent Visit.settings possible device call target there acts
  have same := iff.2 (List.forall_mem_singleton.2 fun _ => Uuid.lt_irrefl _)
  obtain rfl : [Visit.outlet] = cs := Option.some.inj (listed.symm.trans wanted)
  exact ⟨same, first (by simp) same⟩

/-- A service that is listed before the configured one shadows it: a characteristic is subscribed and written to
that was not looked at, and that allows neither. -/
theorem visit_targets_namesake :
    let exposed := [Visit.service, Visit.namesake]
    let calls := (Visit.result exposed).radio.state.hardware.calls
    let target : Attribute := ⟨Visit.namesake.uuid, { uuid := Visit.outlet.uuid, properties := .read }⟩
    ((Visit.backend exposed).Unused (fun _ => exposed) ∧ (∀ s ∈ exposed, s.Coherent) ∧
      (fresh Visit.settings (Visit.backend exposed)).Possible (fun _ => exposed) (Visit.deeds exposed)) ∧
    .device Visit.place (.subscribe target) ∈ calls ∧
    .device Visit.place (.write target [7] .withResponse) ∈ calls ∧
    target.service ≠ Visit.settings.service ∧ target.characteristic.isWritable = false ∧
    target.characteristic.clientConfiguration? = none := by
  intro exposed calls target
  have made : calls = [.device Visit.place .connect, .device Visit.place .notifications,
      .device Visit.place .discoverServices, .device Visit.place (.subscribe target),
      .device Visit.place (.write target [7] .withResponse)] := by
    subst calls target exposed
    cbv
  refine ⟨⟨Visit.unused _, ?coherent, Visit.possible_deeds (.inr rfl)⟩, by simp [made], by simp [made], ?_, ?_, rfl⟩
  case coherent =>
    exact List.forall_mem_cons.2 ⟨Visit.coherent_service, List.forall_mem_singleton.2 Visit.coherent_namesake⟩
  · decide
  · decide

end World

end RadioCentral
