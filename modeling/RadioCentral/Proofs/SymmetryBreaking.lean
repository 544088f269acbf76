import RadioCentral.Proofs.Admission
import RadioCentral.Proofs.Advert.RoundTrip
import RadioCentral.Proofs.Dispatching
import RadioCentral.Proofs.ReleasedHandles

/-!
Two devices of one service that see each other. Each announces its nonce and connects only to a larger
one, so that of the two at most one ever tries to connect, whatever else happens to them and in
whatever order; between equal nonces neither does.
-/
namespace RadioCentral

variable {σ τ : Type}

namespace Advert

def Part.Names (service : Uuid) : Part → Prop
  | .shortServices uuids => ∃ short ∈ uuids, Uuid.expand short = service
  | .longServices uuids => service ∈ uuids
  | .serviceData .. | .nonce .. | .raw .. => False

inductive Part.Plain : Part → Prop where
  | raw {kind : UInt8} (payload : Bytes) (other : kind ≠ 0x16) : Plain (.raw kind payload)

/-- What a device announces: in any order, a list of services that fits one record and holds the
service, the nonce, and whatever else is written raw without being service data. -/
def Announces (service : Uuid) (nonce : Int32) (data : Bytes) : Prop :=
  ∃ parts list uuid plain, data = build parts ∧ parts.Perm (list :: .nonce uuid nonce :: plain) ∧
    list.Fits ∧ list.Names service ∧ ∀ part ∈ plain, part.Plain

theorem Part.Names.mem_services {service : Uuid} {part : Part} (names : part.Names service) :
    service ∈ (addition part.record).services := by
  cases part with
  | shortServices uuids =>
    rw [addition_shortServices]
    exact List.mem_map.2 names
  | longServices uuids =>
    rw [addition_longServices]
    exact names
  | serviceData | nonce | raw => exact names.elim

/-- A list of services says nothing else. -/
theorem Part.Names.silent {service : Uuid} {part : Part} (names : part.Names service) {a : Advert}
    (said : part.Conveys a) : a.serviceData = [] := by
  cases said with
  | shortServices | longServices => rfl
  | serviceData | nonce | raw => exact names.elim

theorem Part.Plain.silent {part : Part} (plain : part.Plain) {a : Advert} (said : part.Conveys a) :
    a.serviceData = [] := by
  cases plain with
  | @raw kind payload other =>
    obtain rfl := Part.conveys_iff.1 said
    have none : holdsData ⟨kind, payload⟩ = false := by simp [holdsData, other]
    simp [addition, Part.record, serviceDataOf_eq, none]

variable {service : Uuid} {nonce : Int32} {data : Bytes}

theorem Announces.advertises (announces : Announces service nonce data) :
    (parse data).advertises service = true := by
  obtain ⟨parts, list, uuid, plain, rfl, perm, fits, names, -⟩ := announces
  have written : list ∈ parts := perm.mem_iff.2 List.mem_cons_self
  have said : service ∈ (addition list.record.clipped).services := by
    rw [Record.clipped_eq (Part.fits_iff.1 fits)]
    exact names.mem_services
  rw [Advert.advertises, decide_eq_true_eq, ← List.append_nil (build parts), parse_build_append]
  simp only [collect, List.mem_eraseDups, List.mem_flatMap, List.mem_append, List.mem_map]
  exact ⟨_, Or.inl ⟨list, written, rfl⟩, said⟩

theorem Announces.nonce? (announces : Announces service nonce data) : (parse data).nonce? = some nonce := by
  obtain ⟨parts, list, uuid, plain, rfl, perm, -, names, plains⟩ := announces
  have written : Part.nonce uuid nonce ∈ parts := perm.mem_iff.2 (by simp)
  obtain ⟨before, after, rfl⟩ := List.append_of_mem written
  have others : (before ++ after).Perm (list :: plain) :=
    (List.perm_middle.symm.trans (perm.trans (List.Perm.swap _ _ _))).cons_inv
  rw [← List.append_nil (build _)]
  refine nonce?_build uuid nonce (fun part mem a said => ?_) (by cbv)
  rcases List.mem_cons.1 (others.mem_iff.1 mem) with rfl | among
  · exact names.silent said
  · exact (plains part among).silent said

/-- An announcement calls for a connection exactly where its nonce is the larger one. -/
theorem Announces.invites_iff (announces : Announces service nonce data) {own : Int32} :
    Invites service own data ↔ own < nonce := by
  rw [← verdict_connect_iff, verdict, announces.advertises, announces.nonce?]
  simp only [↓reduceIte, Verdict.ofNonce]
  split <;> simp [*]

end Advert

namespace World

structure Withheld (w : World (Recorded σ)) : Prop where
  registry : w.central.registry = {}
  queue : w.central.dispatch.queue = []
  dials : w.radio.log.dials = []

def HasTried (w : World (Recorded σ)) : Prop := w.central.dispatch.queue ≠ [] ∨ w.radio.log.dials ≠ []

theorem Withheld.not_hasTried {w : World (Recorded σ)} (withheld : w.Withheld) : ¬ w.HasTried :=
  not_or.2 ⟨not_not.2 withheld.queue, not_not.2 withheld.dials⟩

section

variable (R : Radio σ)

/-- What is meant for a peer that is not there comes to nothing. -/
theorem drive_unknown {w : World σ} {a : Address} (unknown : w.central.registry.get? a = none)
    (event : PeerEvent) : w.drive R a event = w := by
  have ignored : w.transition R a event = ([], w) := by
    simp only [transition, Registry.advance, unknown]
  rw [drive_eq, ignored, settle]

/-- Where nobody is known and no attempt waits, this stays so until an advertisement is admitted. -/
theorem queue_happen {w : World (Recorded σ)} (empty : w.central.registry = {})
    (idle : w.central.dispatch.queue = []) {x : Happening σ}
    (refused : ∀ a data, x = .operation (.radioEvent (.advertisement a data)) → ¬ w.Admissible a data) :
    (w.happen R x).central.registry = {} ∧ (w.happen R x).central.dispatch.queue = [] := by
  have unknown (a : Address) : w.central.registry.get? a = none := by
    rw [empty]
    rfl
  have past (a : Address) : w.awaitsConnect a = false := by simp only [awaitsConnect, unknown]
  cases x with
  | radioChanges change => exact ⟨empty, idle⟩
  | operation o =>
    cases o with
    | radioEvent event =>
      cases names : event.handle? with
      | none =>
        cases event with
        | advertisement a data =>
          rw [happen_refused R (refused a data rfl)]
          exact ⟨empty, idle⟩
        | _ => cases names
      | some h =>
        have stranger : (w.hear (some event)).central.registry.addressFor? h = none := by
          show w.central.registry.addressFor? h = none
          rw [empty]
          rfl
        have same : w.happen R (.operation (.radioEvent event)) = w.hear (some event) :=
          onRadioEvent_unknown R.recorded names stranger
        rw [same]
        exact ⟨empty, idle⟩
    | stop order =>
      have nobody : (w.scan (Scanner.stop R.recorded)).central.registry.addresses order = [] := by
        show w.central.registry.addresses order = []
        rw [empty]
        exact (Registry.addresses_perm order {}).eq_nil
      simp only [happen, Operation.event?, hear_none, step, stop, nobody, List.foldl_nil]
      exact ⟨empty, idle⟩
    | reset =>
      simp only [happen, Operation.event?, hear_none, step]
      rw [central_reset]
      exact ⟨rfl, idle⟩
    | disconnect a =>
      simp only [happen, Operation.event?, hear_none, step, disconnect, drive_unknown R.recorded (unknown a)]
      exact ⟨empty, idle⟩
    | write data c a =>
      simp only [happen, Operation.event?, hear_none, step, write, unknown]
      exact ⟨empty, idle⟩
    | initiate a =>
      simp only [happen, Operation.event?, hear_none, step, initiate_past R.recorded (past a)]
      exact ⟨empty, idle⟩
    | dispatchNext =>
      have none : w.takeAttempt = (none, w) := by simp only [takeAttempt, idle]
      simp only [happen, Operation.event?, hear_none, step, dispatchNext, none]
      exact ⟨empty, idle⟩
    | claimDispatch =>
      simp only [happen, Operation.event?, hear_none, step, claimDispatch, Dispatch.claim]
      split <;> exact ⟨empty, idle⟩
    | dropDispatch => exact ⟨empty, rfl⟩
    | start | registerNotify | setNonce | setGovernor => exact ⟨empty, idle⟩

theorem Withheld.happen {w : World (Recorded σ)} (withheld : w.Withheld) {x : Happening σ}
    (refused : ∀ a data, x = .operation (.radioEvent (.advertisement a data)) → ¬ w.Admissible a data) :
    (w.happen R x).Withheld := by
  obtain ⟨registry, queue⟩ := queue_happen R withheld.registry withheld.queue refused
  have bare (a : Address) : ¬ w.Tries x a := by
    rintro ⟨-, p, here, -⟩
    rw [withheld.registry] at here
    cases here
  exact ⟨registry, queue, (dials_of_not_tries bare).trans withheld.dials⟩

/-! ### The nonce -/

theorem nonce_execute (a : Address) (step : Registry.Step) (w : World σ) :
    (w.execute R a step).2.central.nonce = w.central.nonce := by
  cases step with
  | release h => rfl
  | run action handle =>
    cases action <;> simp only [execute, perform, registry_askOn, registry_switch] <;> try rfl
    split <;> rfl

theorem nonce_runAll (duties : List Duty) (w : World σ) :
    (w.runAll R duties).central.nonce = w.central.nonce :=
  runAll_induction (P := fun v => v.central.nonce = w.central.nonce)
    (fun d _ step v now => (nonce_execute R d.address step v).trans now) (fun _ _ _ _ now => now) rfl

theorem nonce_openAttempt (a : Address) (w : World σ) :
    (w.openAttempt R a).1.central.nonce = w.central.nonce := by
  unfold openAttempt
  split
  · rename_i waits
    split
    · rename_i dialed
      rw [initiate_accepted R waits dialed]
    · rfl
  · rfl

theorem nonce_openEvent (event : RadioEvent) (w : World σ) :
    (w.openEvent event R).1.central.nonce = w.central.nonce := by
  cases event with
  | advertisement a data =>
    simp only [openEvent]
    split <;> rfl
  | connected | disconnected | servicesDiscovered | unitSizeChanged => rfl
  | descriptorWritten h c value success =>
    simp only [openEvent, RadioEvent.peerEvent?]
    cases result : Subscription.resultEvent? c value success with
    | some told => rfl
    | none => simp only [Option.map_none, onRadioEvent, result]
  | characteristicChanged =>
    simp only [openEvent, RadioEvent.peerEvent?, onRadioEvent, onValue]
    (repeat' split) <;> rfl
  | characteristicWritten =>
    simp only [openEvent, RadioEvent.peerEvent?, onRadioEvent, onWritten]
    split <;> rfl

/-- Nothing but setting it changes the nonce. -/
theorem nonce_happen (w : World (Recorded σ)) {x : Happening σ}
    (other : ∀ n, x ≠ .operation (.setNonce n)) : (w.happen R x).central.nonce = w.central.nonce := by
  rw [happen_eq, nonce_runAll]
  cases x with
  | radioChanges change => rfl
  | operation o =>
    cases o with
    | setNonce n => exact absurd rfl (other n)
    | radioEvent event => exact nonce_openEvent R.recorded event _
    | initiate a => exact nonce_openAttempt R.recorded a _
    | reset =>
      simp only [opening, Operation.event?, hear_none, openStep, step]
      rw [central_reset]
    | write data c a =>
      simp only [opening, openStep, step, write]
      (repeat' split) <;> rfl
    | dispatchNext =>
      simp only [opening, Operation.event?, hear_none, openStep, takeAttempt]
      cases w.central.dispatch.queue with
      | nil => rfl
      | cons a queue => exact nonce_openAttempt R.recorded a _
    | start | stop | disconnect | registerNotify | setGovernor | claimDispatch | dropDispatch => rfl

end

/-- What hearing an announcement comes to where nothing else is against connecting. The peer is
entered, and its attempt is queued where attempts can be queued at all, exactly under the condition;
otherwise no attempt is added. -/
def Connects (R : Radio σ) (w : World (Recorded σ)) (a : Address) (data : Bytes) (condition : Prop) : Prop :=
  let adverted : Happening σ := .operation (.radioEvent (.advertisement a data))
  let w' := w.happen R adverted
  ((∃ c ∈ w.changes R adverted, c.Adds a) ↔ condition) ∧
  (w.central.dispatch.receiver ≠ .dropped →
    (w'.central.dispatch.queue = w.central.dispatch.queue ++ [a] ↔ condition)) ∧
  (¬ condition → w'.central = w.central ∧ w'.radio.log.dials = w.radio.log.dials)

theorem connects_of_admissible {R : Radio σ} {w : World (Recorded σ)} {a : Address} {data : Bytes}
    {condition : Prop} (decides : w.Admissible a data ↔ condition) : w.Connects R a data condition := by
  refine ⟨(adds_iff R).trans decides, fun alive => ?_, fun against => ?_⟩
  · rw [← decides]
    constructor
    · intro queued
      by_contra refused
      rw [happen_refused R refused] at queued
      have longer := congrArg List.length queued
      simp [hear] at longer
    · intro admissible
      obtain ⟨_, central, -⟩ := happen_queued R admissible alive
      rw [central]
  · rw [happen_refused R (mt decides.1 against)]
    exact ⟨rfl, dials_hear _ w⟩

end World

/-! ### Two devices -/

/-- A device: a radio in its first state, how it is set up, and the nonce it was given for good. -/
structure Party (σ : Type) where
  radio : Radio σ
  state : σ
  settings : Settings
  nonce : Int32

namespace Party

open World

def after (d : Party σ) (history : List (Happening σ)) : World (Recorded σ) :=
  outcome d.radio d.settings d.state (.operation (.setNonce d.nonce) :: history)

def Sends (e : Party τ) (data : Bytes) : Prop := Advert.Announces e.settings.service e.nonce data

/-- What may happen to a device that sees only one other. It keeps its own nonce, and every
advertisement it hears is sent by the other; all else is left open. -/
def Sees (d : Party σ) (e : Party τ) : Happening σ → Prop
  | .operation (.setNonce n) => n = d.nonce
  | .operation (.radioEvent (.advertisement _ data)) => e.Sends data
  | _ => True

def EverTries (d : Party σ) (history : List (Happening σ)) : Prop :=
  ∃ early, early <+: history ∧ (d.after early).HasTried

/-- Hearing the other while scanning is wanted, the address is unknown and the governor has nothing
against it, a device connects exactly if its own nonce is the smaller one. -/
def Decides (d : Party σ) (e : Party τ) (history : List (Happening σ)) : Prop :=
  ∀ a data, e.Sends data → (d.after history).central.scanner.requested = true →
    (d.after history).central.registry.contains a = false →
    (d.after history).central.allows a = true →
    (d.after history).Connects d.radio a data (d.nonce < e.nonce)

section

variable {d : Party σ} {e : Party τ} {history : List (Happening σ)}

theorem after_concat (x : Happening σ) : d.after (history ++ [x]) = (d.after history).happen d.radio x := by
  rw [after, ← List.cons_append, outcome_concat]
  rfl

theorem settings_after (d : Party σ) (history : List (Happening σ)) :
    (d.after history).central.settings = d.settings :=
  settings_outcome d.radio d.settings d.state _

theorem nonce_after (sees : ∀ x ∈ history, d.Sees e x) : (d.after history).central.nonce = d.nonce := by
  induction history using List.reverseRecOn with
  | nil => rfl
  | append_singleton history x ih =>
    have before := ih fun y mem => sees y (List.mem_append_left _ mem)
    rw [after_concat]
    by_cases set : ∃ n, x = .operation (.setNonce n)
    · obtain ⟨n, rfl⟩ := set
      exact sees (.operation (.setNonce n)) (by simp)
    · rw [nonce_happen d.radio _ fun n is => set ⟨n, is⟩, before]

/-- What the other sends calls for a connection exactly if its nonce is the larger one. -/
theorem invites_after (same : d.settings.service = e.settings.service) (sees : ∀ x ∈ history, d.Sees e x)
    {data : Bytes} (sent : e.Sends data) :
    Advert.Invites (d.after history).central.settings.service (d.after history).central.nonce data ↔
      d.nonce < e.nonce := by
  rw [settings_after, nonce_after sees, same]
  exact sent.invites_iff

/-- A device whose nonce is not the smaller one never gets to know anybody. -/
theorem withheld_after (same : d.settings.service = e.settings.service) (above : ¬ d.nonce < e.nonce)
    (sees : ∀ x ∈ history, d.Sees e x) : (d.after history).Withheld := by
  induction history using List.reverseRecOn with
  | nil => exact ⟨rfl, rfl, rfl⟩
  | append_singleton history x ih =>
    have earlier : ∀ y ∈ history, d.Sees e y := fun y mem => sees y (List.mem_append_left _ mem)
    rw [after_concat]
    refine (ih earlier).happen d.radio ?_
    rintro a data rfl admissible
    have sent : e.Sends data := sees (.operation (.radioEvent (.advertisement a data))) (by simp)
    exact above ((invites_after same earlier sent).1 admissible.invites)

theorem not_everTries (same : d.settings.service = e.settings.service) (above : ¬ d.nonce < e.nonce)
    (sees : ∀ x ∈ history, d.Sees e x) : ¬ d.EverTries history := by
  rintro ⟨early, within, tried⟩
  have seen : ∀ x ∈ early, d.Sees e x := fun x mem => sees x (within.subset mem)
  exact (withheld_after same above seen).not_hasTried tried

theorem decides (same : d.settings.service = e.settings.service) (sees : ∀ x ∈ history, d.Sees e x) :
    d.Decides e history := by
  intro a data sent wanted unknown allowed
  refine connects_of_admissible ?_
  rw [← invites_after same sees sent]
  refine ⟨fun admissible => admissible.invites, fun invited => ⟨wanted, invited, ?_, ?_⟩⟩
  · simpa [Registry.contains, Registry.get?] using unknown
  · intro governor mem
    simpa [Central.allows, Option.mem_def.1 mem] using allowed

end

/-- Two devices of one service that see only each other never both connect. Whatever happens to them, in
any order of one against the other, at most one of them ever queues or issues a connect, and neither
does if their nonces are equal. Hearing the other with nothing against it, a device starts an attempt
exactly if its own nonce is the smaller one. -/
theorem at_most_one_tries (d : Party σ) (e : Party τ) (same : d.settings.service = e.settings.service)
    (joint : List (Happening σ ⊕ Happening τ)) (left : ∀ x, .inl x ∈ joint → d.Sees e x)
    (right : ∀ x, .inr x ∈ joint → e.Sees d x) :
    let own := joint.filterMap Sum.getLeft?
    let others := joint.filterMap Sum.getRight?
    ¬ (d.EverTries own ∧ e.EverTries others) ∧
    (d.nonce = e.nonce → ¬ d.EverTries own ∧ ¬ e.EverTries others) ∧
    d.Decides e own ∧ e.Decides d others := by
  intro own others
  have seen : ∀ x ∈ own, d.Sees e x := fun x mem => by
    obtain ⟨y, within, is⟩ := List.mem_filterMap.1 mem
    exact left x (Sum.getLeft?_eq_some_iff.1 is ▸ within)
  have watched : ∀ x ∈ others, e.Sees d x := fun x mem => by
    obtain ⟨y, within, is⟩ := List.mem_filterMap.1 mem
    exact right x (Sum.getRight?_eq_some_iff.1 is ▸ within)
  refine ⟨?_, fun equal => ?_, decides same seen, decides same.symm watched⟩
  · rintro ⟨here, there⟩
    have below : d.nonce < e.nonce := by_contra fun above => not_everTries same above seen here
    have above : e.nonce < d.nonce := by_contra fun above => not_everTries same.symm above watched there
    exact Int32.lt_irrefl (Int32.lt_trans below above)
  · have unordered : ¬ d.nonce < e.nonce := equal ▸ Int32.lt_irrefl
    have reversed : ¬ e.nonce < d.nonce := equal ▸ Int32.lt_irrefl
    exact ⟨not_everTries same unordered seen, not_everTries same.symm reversed watched⟩

def near : Party SimulatedRadio :=
  { radio := SimulatedRadio.radio, state := {}, settings := Encounter.settings, nonce := -7 }

def far : Party SimulatedRadio := { near with nonce := 5 }

def call : Bytes := Advert.build [.raw 0x01 [6], .shortServices [0x5678, 0x1234], .nonce 0x1234 (-7)]

def meeting : List (Happening SimulatedRadio ⊕ Happening SimulatedRadio) :=
  [.inl (.operation .start), .inr (.operation .start),
    .inr (.operation (.radioEvent (.advertisement ⟨"near"⟩ call))),
    .inl (.operation (.radioEvent (.advertisement ⟨"far"⟩ invitation))),
    .inl (.operation .dispatchNext), .inr (.operation (.radioEvent (.advertisement ⟨"near"⟩ call)))]

theorem near_sends_call : near.Sends call := by
  refine ⟨_, .shortServices [0x5678, 0x1234], 0x1234, [.raw 0x01 [6]], rfl, ?_, ?_, ?_, ?_⟩
  · exact (List.Perm.swap _ _ _).trans (.cons _ (.swap _ _ _))
  · simp [Advert.Part.Fits]
  · exact ⟨0x1234, by simp, rfl⟩
  · intro part mem
    obtain rfl := List.mem_singleton.1 mem
    exact .raw [6] (by decide)

theorem far_sends_invitation : far.Sends invitation := by
  refine ⟨[.shortServices [0x1234], .nonce 0x1234 5], .shortServices [0x1234], 0x1234, [],
    by cbv, .rfl, ?_, ?_, ?_⟩
  · simp [Advert.Part.Fits]
  · exact ⟨0x1234, by simp, rfl⟩
  · simp

/-- In a meeting the one with the negative nonce tries, so the other never does. -/
theorem near_tries_far_never : near.settings.service = far.settings.service ∧
    (∀ x, .inl x ∈ meeting → near.Sees far x) ∧ (∀ x, .inr x ∈ meeting → far.Sees near x) ∧
    near.EverTries (meeting.filterMap Sum.getLeft?) ∧ ¬ far.EverTries (meeting.filterMap Sum.getRight?) := by
  have left : ∀ x, .inl x ∈ meeting → near.Sees far x := by
    intro x mem
    simp only [meeting, List.mem_cons, Sum.inl.injEq, reduceCtorEq, List.not_mem_nil, or_false, false_or] at mem
    rcases mem with rfl | rfl | rfl
    · trivial
    · exact far_sends_invitation
    · trivial
  have right : ∀ x, .inr x ∈ meeting → far.Sees near x := by
    intro x mem
    simp only [meeting, List.mem_cons, Sum.inr.injEq, reduceCtorEq, List.not_mem_nil, or_false, false_or] at mem
    rcases mem with rfl | rfl | rfl
    · trivial
    · exact near_sends_call
    · exact near_sends_call
  have tries : near.EverTries (meeting.filterMap Sum.getLeft?) := by
    refine ⟨_, List.prefix_refl _, Or.inr ?_⟩
    have dialed : (near.after (meeting.filterMap Sum.getLeft?)).radio.log.dials.length = 1 := by cbv
    intro none
    rw [none] at dialed
    cases dialed
  have once := (at_most_one_tries near far rfl meeting left right).1
  exact ⟨rfl, left, right, tries, fun both => once ⟨tries, both⟩⟩

end Party

end RadioCentral
