import RadioCentral.Proofs.Backend.Cleanup
import RadioCentral.Proofs.Listing
import RadioCentral.Proofs.Registry.Coherence
import RadioCentral.Proofs.Run.Numbering

/-!
Where the calls on characteristics come from. While every device exposes the same services, what a call
acts on is the first characteristic of an identifier over all of them, and the call is made for a request
that names the identifier, on a link that was dialed to the device.
-/
namespace RadioCentral

namespace Hardware

variable {exposes : Address → List Service} {hw : Hardware} {id : Address}

/-- Each device exposes its services, and of them all or none have been discovered. -/
def Shows (exposes : Address → List Service) (hw : Hardware) : Prop :=
  ∀ id d, hw.device? id = some d →
    d.gatt = exposes id ∧ (d.discovered = [] ∨ d.discovered = Service.listing (exposes id))

theorem device?_setDevice (id k : Address) (d : Device) (hw : Hardware) :
    (hw.setDevice id d).device? k = if k = id then some d else hw.device? k := by
  have others := Registry.lookup_filter_ne hw.devices id k
  by_cases same : k = id
  · simp [device?, setDevice, same]
  · rw [if_neg same] at others ⊢
    rw [device?, setDevice, List.lookup_cons, (beq_eq_false_iff_ne).2 same]
    exact others

theorem device?_removeDevice (id k : Address) (hw : Hardware) :
    (hw.removeDevice id).device? k = if k = id then none else hw.device? k :=
  Registry.lookup_filter_ne hw.devices id k

namespace Shows

theorem setDevice (shows' : hw.Shows exposes) {d : Device} (gatt : d.gatt = exposes id)
    (discovered : d.discovered = [] ∨ d.discovered = Service.listing (exposes id)) :
    (hw.setDevice id d).Shows exposes := by
  intro k e there
  rw [device?_setDevice] at there
  split at there
  case isTrue same =>
    cases there
    exact same ▸ ⟨gatt, discovered⟩
  case isFalse => exact shows' k e there

theorem services (shows' : hw.Shows exposes) (id : Address) :
    hw.services id = [] ∨ hw.services id = Service.listing (exposes id) := by
  unfold Hardware.services
  cases there : hw.device? id with
  | none => exact .inl rfl
  | some d => exact (shows' id d there).2

theorem first (shows' : hw.Shows exposes) {u : Uuid} {target : Attribute}
    (found : hw.attribute? id u = some target) :
    Attribute.First (Service.listing (exposes id)) u target := by
  have first := Attribute.first_of_find? found
  rcases shows'.services id with none | all
  · obtain ⟨s, there, -⟩ := first.exposed
    rw [none] at there
    cases there
  · rwa [all] at first

end Shows

theorem stable_shows (exposes : Address → List Service) : Stable (Shows exposes) where
  note _ _ shows' := shows'
  takeEffect call hw shows' := by
    have modify (id : Address) (f : Device → Device) (gatt : ∀ d, (f d).gatt = d.gatt)
        (discovered : ∀ d, (f d).discovered = d.discovered ∨ (f d).discovered = Service.listing d.gatt) :
        (hw.modifyDevice id f).Shows exposes := by
      unfold modifyDevice
      split
      case h_1 d there =>
        obtain ⟨exposed, known⟩ := shows' id d there
        refine shows'.setDevice ((gatt d).trans exposed) ?_
        rcases discovered d with same | all
        · rwa [same]
        · exact .inr (by rw [all, exposed])
      case h_2 => exact shows'
    unfold Hardware.takeEffect
    split
    · exact modify _ _ (fun _ => rfl) fun _ => .inl rfl
    · exact modify _ _ (fun _ => rfl) fun _ => .inl rfl
    · exact modify _ _ (fun _ => rfl) fun _ => .inr rfl
    · exact shows'

end Hardware

def Stimulus.Keeps (exposes : Address → List Service) (hw : Hardware) : Stimulus → Prop
  | .device id change => (change.apply ((hw.device? id).getD {})).gatt = exposes id
  | .adapterEvent _ | .endEvents | .adapter _ | .removeDevice _ | .finish .. | .notify .. | .endNotifications _ => True

def Move.Keeps (exposes : Address → List Service) (hw : Hardware) : Move → Prop
  | .stimulate stimulus => stimulus.Keeps exposes hw
  | .run _ | .finish .. | .dial _ | .ask _ => True

namespace Backend

variable {exposes : Address → List Service} {b : Backend}

theorem hardware_ask (request : Request) (b : Backend) : (b.ask request).2.hardware = b.hardware := by
  cases request with
  | discover | writeDescriptor | disconnect =>
    simp only [ask, onLink]
    split <;> rfl
  | write =>
    simp only [ask, write]
    (repeat' split) <;> rfl
  | release =>
    simp only [ask, release]
    split <;> rfl
  | startScan | stopScan | setNotify | requestUnitSize | invalidateCache => rfl

theorem hardware_dial (device : Address) (b : Backend) : (b.dial device).2.hardware = b.hardware := by
  unfold dial
  split <;> rfl

theorem hardware_wake (t : Task) (b : Backend) : (b.wake t).hardware = b.hardware := by
  unfold wake
  split <;> rfl

theorem hardware_wakeReaders (device : Address) (b : Backend) : (b.wakeReaders device).hardware = b.hardware := by
  unfold wakeReaders
  generalize b.links.handlesTo device = handles
  induction handles generalizing b with
  | nil => rfl
  | cons h handles ih => exact (ih _).trans (hardware_wake _ b)

theorem shows_finishAt (i : Nat) (failure : Option Failure) (shows' : b.hardware.Shows exposes) :
    (b.finishAt i failure).hardware.Shows exposes := by
  have stable := Hardware.stable_shows exposes
  unfold finishAt
  split
  · exact shows'
  case h_2 held _ =>
    show (if failure.isNone = true then effectOf held b.hardware else b.hardware).Shows exposes
    split
    · unfold effectOf
      split
      · exact stable.takeEffect _ _ shows'
      · exact stable.takeEffect _ _ shows'
      · exact stable.takeEffect _ _ shows'
      · exact shows'
    · exact shows'

theorem shows_stimulate {stimulus : Stimulus} (keeps : stimulus.Keeps exposes b.hardware)
    (shows' : b.hardware.Shows exposes) : (b.stimulate stimulus).hardware.Shows exposes := by
  cases stimulus with
  | adapterEvent event =>
    simp only [stimulate]
    split
    · rw [hardware_wake]
      exact shows'
    · exact shows'
  | endEvents | adapter | endNotifications => exact shows'
  | device id change =>
    refine shows'.setDevice keeps ?_
    cases there : b.hardware.device? id with
    | none => exact .inl rfl
    | some d => exact (shows' id d there).2
  | removeDevice id =>
    intro k d there
    have left : (if k = id then none else b.hardware.device? k) = some d :=
      (Hardware.device?_removeDevice id k b.hardware).symm.trans there
    split at left
    · cases left
    · exact shows' k d left
  | finish place kind failure =>
    simp only [stimulate]
    split
    · exact shows_finishAt _ failure shows'
    · exact shows'
  | notify device characteristic value =>
    rw [stimulate, hardware_wakeReaders]
    exact shows'

theorem shows_move {m : Move} (keeps : m.Keeps exposes b.hardware) (shows' : b.hardware.Shows exposes) :
    (b.move m).hardware.Shows exposes := by
  cases m with
  | run i =>
    cases found : b.ready[i]? with
    | none => rwa [move, runAt_none found]
    | some t => exact (conduct_runAt (Hardware.stable_shows exposes) found shows').hardware
  | finish i failure => exact shows_finishAt i failure shows'
  | dial device => exact (hardware_dial device b).symm ▸ shows'
  | ask request => exact (hardware_ask request b).symm ▸ shows'
  | stimulate stimulus => exact shows_stimulate keeps shows'

end Backend

/-! ### What calls are made for -/

def Log.Assigned (h : Handle) (device : Address) (log : Log) : Prop := ∃ route, .dialed device route (some h) ∈ log

/-- The device of a job's link was dialed, and a write was asked for; it is to the first characteristic of its
identifier. -/
def Job.Grounded (exposes : Address → List Service) (log : Log) : Job → Prop
  | .discover h device => log.Assigned h device
  | .writeDescriptor h device d value => log.Assigned h device ∧ .writeDescriptor h d value ∈ log.requests
  | .write h device target value mode => log.Assigned h device ∧
    .write h target.uuid value mode ∈ log.requests ∧
      Attribute.First (Service.listing (exposes device)) target.uuid target
  | .startScan _ | .stopScan | .connect .. | .listen .. | .closeOrphan _ | .disconnect .. | .checkReleased _
  | .closeReleased _ => True

/-- What a call that acts on a characteristic was asked for by, on a link to the device. -/
inductive DeviceCall.Grounded (log : Log) (h : Handle) : DeviceCall → Attribute → Prop where
  | write {target : Attribute} {value : Bytes} {mode : WriteMode}
      (asked : .write h target.uuid value mode ∈ log.requests) : Grounded log h (.write target value mode) target
  | subscribe {target : Attribute} {d : Descriptor} {value : Bytes}
      (asked : .writeDescriptor h d value ∈ log.requests) (config : d.uuid = Uuid.clientConfiguration)
      (names : d.characteristic = target.uuid) : Grounded log h (.subscribe target) target
  | unsubscribe {target : Attribute} {d : Descriptor}
      (asked : .writeDescriptor h d disableNotification ∈ log.requests)
      (config : d.uuid = Uuid.clientConfiguration) (names : d.characteristic = target.uuid) :
      Grounded log h (.unsubscribe target) target

/-- The characteristic that a call acts on. -/
def DeviceCall.target? : DeviceCall → Option Attribute
  | .subscribe target | .unsubscribe target | .write target .. => some target
  | .connect | .disconnect | .isConnected | .notifications | .discoverServices | .writeDescriptor .. => none

section

variable {exposes : Address → List Service} {log more : Log} {job next : Job} {t : LinkTable} {hw : Hardware}
  {h : Handle} {device : Address} {call : DeviceCall} {target : Attribute}

theorem Log.Assigned.mono (dialed : log.Assigned h device) (grown : log ⊆ more) : more.Assigned h device :=
  dialed.imp fun _ mem => grown mem

theorem Log.requests_subset (grown : log ⊆ more) : log.requests ⊆ more.requests := fun request mem => by
  obtain ⟨e, there, its⟩ := List.mem_filterMap.1 mem
  exact List.mem_filterMap.2 ⟨e, grown there, its⟩

theorem Job.Grounded.mono (grounded : job.Grounded exposes log) (grown : log ⊆ more) :
    job.Grounded exposes more := by
  cases job with
  | discover => exact Log.Assigned.mono grounded grown
  | writeDescriptor => exact ⟨grounded.1.mono grown, Log.requests_subset grown grounded.2⟩
  | write => exact ⟨grounded.1.mono grown, Log.requests_subset grown grounded.2.1, grounded.2.2⟩
  | startScan | stopScan | connect | listen | closeOrphan | disconnect | checkReleased | closeReleased => trivial

theorem DeviceCall.Grounded.mono (grounded : call.Grounded log h target) (grown : log ⊆ more) :
    call.Grounded more h target := by
  cases grounded with
  | write asked => exact .write (Log.requests_subset grown asked)
  | subscribe asked config names => exact .subscribe (Log.requests_subset grown asked) config names
  | unsubscribe asked config names => exact .unsubscribe (Log.requests_subset grown asked) config names

theorem Job.Grounded.onward (grounded : job.Grounded exposes log) (onward : job.Onward t next) :
    next.Grounded exposes log := by
  cases onward with
  | self => exact grounded
  | listens | orphaned | released | letsGo => trivial

/-- A job that is grounded makes grounded calls, on the first characteristic of the identifier. -/
theorem Job.Grounded.makes (grounded : job.Grounded exposes log) (shows' : hw.Shows exposes)
    (made : job.next hw = .call (.device device call)) (acts : call.target? = some target) :
    ∃ h, log.Assigned h device ∧ call.Grounded log h target ∧
      Attribute.First (Service.listing (exposes device)) target.uuid target := by
  cases job with
  | write h place aim value mode =>
    cases made
    cases acts
    exact ⟨h, grounded.1, .write grounded.2.1, grounded.2.2⟩
  | writeDescriptor h place d value =>
    obtain ⟨dialed, asked⟩ := grounded
    simp only [next, descriptorCall] at made
    split at made
    · cases made
    case h_2 aim found =>
      have first := shows'.first found
      split at made
      case isTrue config =>
        by_cases off : value = disableNotification
        · rw [if_pos off] at made
          cases made
          cases acts
          exact ⟨h, dialed, .unsubscribe (off ▸ asked) config first.named.symm, first.named.symm ▸ first⟩
        · rw [if_neg off] at made
          cases made
          cases acts
          exact ⟨h, dialed, .subscribe asked config first.named.symm, first.named.symm ▸ first⟩
      case isFalse =>
        split at made <;> cases made
        cases acts
  | startScan | stopScan => cases made
  | connect | listen | closeOrphan | discover | disconnect | checkReleased | closeReleased =>
    cases made
    cases acts

/-- A radio whose record says why each job is there and why each call on a characteristic was made, and which
services have been told of. -/
structure Founded (exposes : Address → List Service) (r : Recorded Backend) : Prop where
  shown : r.state.hardware.Shows exposes
  links : ∀ e ∈ r.state.links.joins, r.log.Assigned e.1 e.2
  jobs : ∀ job ∈ r.state.jobs, job.Grounded exposes r.log
  calls : ∀ device call target, .device device call ∈ r.state.hardware.calls → call.target? = some target →
    ∃ h, r.log.Assigned h device ∧ call.Grounded r.log h target ∧
      Attribute.First (Service.listing (exposes device)) target.uuid target
  told : ∀ h services, .servicesDiscovered h services ∈ r.state.events →
    ∃ device, r.log.Assigned h device ∧ (services = [] ∨ services = Service.listing (exposes device))

namespace Founded

variable {r : Recorded Backend} {m : Move}

/-- A reader tells of no services. -/
theorem not_relays {b : Backend} {services : List Service} : ¬ b.Relays m (.servicesDiscovered h services) := by
  rintro ⟨t, -, relays⟩
  cases t with
  | start | attend => exact relays
  | deliver =>
    obtain ⟨_, _, same⟩ := relays
    cases same
  | read =>
    obtain ⟨_, _, same⟩ | ⟨_, _, -, -, same⟩ := relays <;> cases same
  | resume waiter =>
    cases waiter with
    | job | opener => exact relays
    | reader => obtain ⟨_, _, same⟩ | ⟨_, _, -, -, same⟩ := relays <;> cases same

/-- One move keeps to the record, if what it adds is in there. -/
theorem move (founded : Founded exposes r) (keeps : m.Keeps exposes r.state.hardware) (grown : r.log ⊆ more)
    (linked : ∀ device, m = .dial device → device ∈ r.state.known → more.Assigned ⟨r.state.nextHandle⟩ device)
    (spawned : ∀ job ∈ r.state.spawned m, job.Grounded exposes more) :
    Founded exposes ⟨r.state.move m, more⟩ := by
  obtain ⟨⟨made, calls, callers⟩, ⟨sent, events, tellers⟩, left⟩ :=
    Backend.conduct_move (Hardware.stable_shows exposes) founded.shown m
  constructor
  case shown => exact Backend.shows_move keeps founded.shown
  case links =>
    intro e mem
    rcases Backend.mem_joins_move mem with old | ⟨device, rfl, known, rfl⟩
    · exact (founded.links e old).mono grown
    · exact linked device rfl known
  case jobs =>
    intro job mem
    rcases left job mem with old | new | ⟨begun, carried, onward⟩
    · exact (founded.jobs job old).mono grown
    · exact spawned job new
    · exact ((founded.jobs begun (Backend.mem_jobs_of_carries carried)).onward onward).mono grown
  case calls =>
    intro device call target mem acts
    rw [calls] at mem
    obtain ⟨h, dialed, grounded, first⟩ : ∃ h, r.log.Assigned h device ∧ call.Grounded r.log h target ∧
        Attribute.First (Service.listing (exposes device)) target.uuid target := by
      rcases List.mem_append.1 mem with old | new
      · exact founded.calls device call target old acts
      · obtain ⟨job, last, hw, carried, onward, shown, next⟩ := callers _ new
        have grounded := (founded.jobs job (Backend.mem_jobs_of_carries carried)).onward onward
        exact grounded.makes shown next acts
    exact ⟨h, dialed.mono grown, grounded.mono grown, first⟩
  case told =>
    intro h services mem
    rw [events] at mem
    obtain ⟨device, dialed, all⟩ : ∃ device, r.log.Assigned h device ∧
        (services = [] ∨ services = Service.listing (exposes device)) := by
      rcases List.mem_append.1 mem with old | new
      · exact founded.told h services old
      · rcases tellers _ new with relays | ⟨job, last, hw, carried, onward, shown, tells⟩
        · exact absurd relays not_relays
        · have grounded := (founded.jobs job (Backend.mem_jobs_of_carries carried)).onward onward
          cases tells with
          | discovered _ device => exact ⟨device, grounded, shown.services device⟩
          | undiscovered _ device => exact ⟨device, grounded, .inl rfl⟩
    exact ⟨device, dialed.mono grown, all⟩

theorem mono (founded : Founded exposes r) (grown : r.log ⊆ more) : Founded exposes ⟨r.state, more⟩ where
  shown := founded.shown
  links e mem := (founded.links e mem).mono grown
  jobs job mem := (founded.jobs job mem).mono grown
  calls device call target mem acts := by
    obtain ⟨h, dialed, grounded, first⟩ := founded.calls device call target mem acts
    exact ⟨h, dialed.mono grown, grounded.mono grown, first⟩
  told h services mem := by
    obtain ⟨device, dialed, all⟩ := founded.told h services mem
    exact ⟨device, dialed.mono grown, all⟩

/-- The job of a request is grounded once the request is in the record. -/
theorem grounded_jobFor? (founded : Founded exposes r) {request : Request}
    (left : r.state.jobFor? request = some job) (grown : r.log ⊆ more) (asked : request ∈ more.requests) :
    job.Grounded exposes more := by
  have dialed {h : Handle} {device : Address} (linked : r.state.links.device? h = some device) :
      more.Assigned h device :=
    (founded.links _ (LinkTable.mem_joins_of_device? linked)).mono grown
  cases request with
  | startScan | stopScan =>
    cases left
    trivial
  | setNotify | requestUnitSize | invalidateCache => cases left
  | discover h =>
    obtain ⟨device, linked, rfl⟩ := Option.map_eq_some_iff.1 left
    exact dialed linked
  | writeDescriptor h d value =>
    obtain ⟨device, linked, rfl⟩ := Option.map_eq_some_iff.1 left
    exact ⟨dialed linked, asked⟩
  | disconnect | release =>
    obtain ⟨device, -, rfl⟩ := Option.map_eq_some_iff.1 left
    trivial
  | write h u value mode =>
    obtain ⟨device, linked, found⟩ := Option.bind_eq_some_iff.1 left
    obtain ⟨target, at_, rfl⟩ := Option.map_eq_some_iff.1 found
    have first := founded.shown.first at_
    obtain rfl := first.named
    exact ⟨dialed linked, asked, first⟩

/-- Whatever is asked of the radio is in its record. -/
theorem keeps (exposes : Address → List Service) : Backend.radio.recorded.Keeps (Founded exposes) := by
  constructor
  case connect =>
    intro a route r founded
    cases route with
    | lowEnergy => exact founded.mono (List.subset_append_left _ _)
    | standard =>
      refine founded.move (m := .dial a) trivial (List.subset_append_left _ _) ?linked ?spawned
      case linked =>
        rintro device same known
        cases same
        have accepted : (r.state.dial a).1 = .ok ⟨r.state.nextHandle⟩ := by simp [Backend.dial, known]
        refine ⟨.standard, List.mem_append_right _ ?_⟩
        show _ ∈ [Exchange.dialed a .standard (r.state.dial a).1.toOption]
        rw [accepted]
        exact List.mem_singleton_self _
      case spawned =>
        intro job new
        simp only [Backend.spawned] at new
        split at new
        · obtain rfl := List.mem_singleton.1 new
          trivial
        · cases new
  case ask =>
    intro request r founded
    refine founded.move (m := .ask request) trivial (List.subset_append_left _ _) (by simp) fun job new => ?_
    refine founded.grounded_jobFor? (Option.mem_toList.1 new) (List.subset_append_left _ _) ?_
    simp [Log.requests, Exchange.request?]

end Founded

end

end RadioCentral
