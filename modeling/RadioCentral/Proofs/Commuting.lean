import RadioCentral.Proofs.Dispatching
import RadioCentral.Proofs.Locality
import RadioCentral.Proofs.ReleasedHandles

/-!
Operations on different peers commute. Neither reads what the other changes, except for the scan, which
goes on if no attempt is open after both of them, whichever comes first.
-/
namespace RadioCentral

open Registry (Step Edit Scope)

variable {σ : Type}

def Registry.handle? (a : Address) (r : Registry) : Option Handle := (r.get? a).bind (·.handle)

namespace World

/-- The operations on the peer of an address: an event of the radio that names its handle, sending it
away, and taking up its attempt. -/
inductive ActsOn (w : World σ) (a : Address) : Operation → Prop where
  | event {event : RadioEvent} {h : Handle} (holds : w.central.registry.handle? a = some h)
      (names : event.handle? = some h) : ActsOn w a (.radioEvent event)
  | disconnect : ActsOn w a (.disconnect a)
  | initiate : ActsOn w a (.initiate a)

variable {F : Answers} {a : Address} {w : World (Recorded σ)}

theorem handle?_eq_some {r : Registry} {h : Handle} :
    r.handle? a = some h ↔ ∃ p, r.get? a = some p ∧ p.handle = some h :=
  Option.bind_eq_some_iff

theorem runs_of_orderly (orderly : w.central.registry.Orderly) (a : Address) :
    w.central.registry.Runs a (w.central.registry.handle? a) := by
  intro p here
  simp [(orderly.live a p here).begun, Registry.handle?, here]

theorem resembles_self (orderly : w.central.registry.Orderly) (traced : w.central.registry.Traced)
    (a : Address) : w.Resembles a w :=
  ⟨rfl, rfl, rfl, orderly.closedAt a, traced a⟩

/-- Where the peer stands as it does in a given world, its handle leads to it. -/
theorem Resembles.known {h : Handle} {u : World (Recorded σ)} (same : w.Resembles a u)
    (holds : w.central.registry.handle? a = some h) :
    u.central.registry.addressFor? h = some a := by
  obtain ⟨p, here, holds⟩ := handle?_eq_some.1 holds
  exact same.traced p h (same.peer.trans here) holds

/-- An event that means something to the peer of a handle concerns that peer only. -/
theorem onHandle_effect {h : Handle} (orderly : w.central.registry.Orderly)
    (holds : w.central.registry.handle? a = some h) (event : PeerEvent) :
    ∃ e : Effect, Confined F e ⟨a, some h, none⟩ w (·.onHandle F.radio.recorded h event) := by
  obtain ⟨e, within, complete, brings⟩ :=
    drive_effect (F := F) event (holds ▸ runs_of_orderly orderly a)
  refine ⟨e, within, complete, fun u same => ?_⟩
  simp only [onHandle, same.known holds]
  exact brings u same

/-- An event that names the handle of a peer concerns that peer only. -/
theorem onRadioEvent_effect {event : RadioEvent} {h : Handle} (orderly : w.central.registry.Orderly)
    (holds : w.central.registry.handle? a = some h) (names : event.handle? = some h) :
    ∃ e : Effect, Confined F e ⟨a, some h, none⟩ w (·.onRadioEvent F.radio.recorded event) := by
  cases event with
  | advertisement a data => cases names
  | connected k | disconnected k | unitSizeChanged k size success =>
    obtain rfl := Option.some.inj names
    exact onHandle_effect orderly holds _
  | servicesDiscovered k services =>
    obtain rfl := Option.some.inj names
    obtain ⟨e, within, complete, brings⟩ := onHandle_effect (F := F) orderly holds
      (.servicesDiscovered (wantedCharacteristics w.central.settings.service services))
    refine ⟨e, within, complete, fun u same => ?_⟩
    rw [onRadioEvent, same.settings]
    exact brings u same
  | descriptorWritten k c value success =>
    obtain rfl := Option.some.inj names
    simp only [onRadioEvent]
    cases Subscription.resultEvent? c value success with
    | some event => exact onHandle_effect orderly holds event
    | none => exact ⟨{}, confined_nothing fun _ _ => rfl⟩
  | characteristicChanged k c value =>
    obtain rfl := Option.some.inj names
    obtain ⟨p, here, -⟩ := handle?_eq_some.1 holds
    have view : ∀ u : World (Recorded σ), w.Resembles a u → u.onValue k c value =
        if p.delivers c then u.report (.dataReceived a value) else u := by
      intro u same
      simp only [onValue, same.known holds, same.peer.trans here]
    by_cases delivers : p.delivers c = true
    · exact ⟨_, confined_report rfl fun u same => (view u same).trans (if_pos delivers)⟩
    · exact ⟨{}, confined_nothing fun u same => (view u same).trans (if_neg delivers)⟩
  | characteristicWritten k c value status =>
    obtain rfl := Option.some.inj names
    refine ⟨_, confined_report (r := .dataSent a value
      (if status = writeSucceeded then none else some (.writeRejected a c status))) rfl ?_⟩
    intro u same
    simp only [onRadioEvent, onWritten, same.known holds]

theorem fst_dialFrom (a : Address) (routes : List Route) (error : RadioError) (s t : Recorded σ) :
    (F.radio.recorded.dialFrom a error routes s).1 = (F.radio.recorded.dialFrom a error routes t).1 := by
  induction routes generalizing error s t with
  | nil => rfl
  | cons route routes ih =>
    unfold Radio.dialFrom
    simp only [Radio.recorded, Answers.radio] at ih ⊢
    cases F.connect a route with
    | ok h => rfl
    | error refusal => exact ih refusal _ _

/-- Dialing leads to the same answer wherever it is done, and asks for nothing else. -/
theorem dial_local {u : World (Recorded σ)} (same : w.Resembles a u) :
    ∃ (log : Log) (s : Recorded σ), s.log = u.radio.log ++ log ∧ (∀ h, log.requestsOn h = []) ∧
      log.issued = (F.radio.recorded.dial w.central.settings.routes a w.radio).1.toOption.toList ∧
      F.radio.recorded.dial u.central.settings.routes a u.radio =
        ((F.radio.recorded.dial w.central.settings.routes a w.radio).1, s) := by
  obtain ⟨log, grown, dials⟩ := dials_dialFrom F.radio w.central.settings.routes a
    (.unsupported "connect") u.radio
  rw [fst_dialFrom a _ _ u.radio w.radio] at dials
  refine ⟨log, _, grown, dials.requestsOn_eq, dials.issued_eq, ?_⟩
  rw [same.settings]
  exact Prod.ext (fst_dialFrom a _ _ u.radio w.radio) rfl

/-- A peer that waits to be dialed takes the handle it is given, if it is given one. -/
theorem initiate_effect (orderly : w.central.registry.Orderly) (traced : w.central.registry.Traced)
    (a : Address) :
    ∃ (fresh : Option Handle) (e : Effect),
      Confined F e ⟨a, w.central.registry.handle? a, fresh⟩ w (·.initiate F.radio.recorded a) ∧
      ∀ h, fresh = some h →
        (w.initiate F.radio.recorded a).radio.log.issued = w.radio.log.issued ++ [h] := by
  have waiting : ∀ u : World (Recorded σ), w.Resembles a u → u.awaitsConnect a = w.awaitsConnect a :=
    fun u same => by rw [awaitsConnect, same.peer, awaitsConnect]
  cases waits : w.awaitsConnect a with
  | false =>
    refine ⟨none, {}, confined_nothing fun u same => ?_, by simp⟩
    exact initiate_past F.radio.recorded ((waiting u same).trans waits)
  | true =>
    obtain ⟨p, here, phase, bare⟩ := bare_of_awaitsConnect waits
    have unheld : w.central.registry.handle? a = none := by simp [Registry.handle?, here, bare]
    rw [unheld]
    cases answer : (F.radio.recorded.dial w.central.settings.routes a w.radio).1 with
    | ok h =>
      let given : Peer := { p with handle := some h }
      have own : p.address = a := Registry.address_of_get? here
      refine ⟨some h, { edits := [.give a given h own] }, ⟨⟨?_, fun _ _ => rfl, by simp⟩,
        fun _ => by simp [Edit.give], fun u same => ?_⟩, fun k new => ?_⟩
      · exact List.forall_mem_singleton.2 ⟨rfl, Or.inl rfl, Or.inr rfl⟩
      · obtain ⟨log, s, grown, silent, -, dialed⟩ := dial_local (F := F) same
        rw [answer] at dialed
        have there : u.central.registry.get? a = some p := same.peer.trans here
        have edited : (u.central.registry.attach a h).2 = u.central.registry.edit [.give a given h own] :=
          Registry.attach_eq_apply there bare phase rfl own
        rw [initiate_accepted F.radio.recorded ((waiting u same).trans waits) dialed, edited]
        refine ⟨by simp [Answers.play, Answers.scanAfter], fun k => ?_⟩
        rw [grown, Log.requestsOn_append, silent]
      · obtain rfl := Option.some.inj new
        obtain ⟨log, s, grown, -, issued, dialed⟩ :=
          dial_local (F := F) (resembles_self orderly traced a)
        rw [answer] at dialed issued
        rw [initiate_accepted F.radio.recorded waits dialed, grown, Log.issued_append, issued]
        rfl
    | error refusal =>
      obtain ⟨e, within, complete, brings⟩ :=
        drive_effect (F := F) .connectFailed (unheld ▸ runs_of_orderly orderly a)
      refine ⟨none, e, ⟨within, complete, fun u same => ?_⟩, by simp⟩
      obtain ⟨log, s, grown, silent, -, dialed⟩ := dial_local (F := F) same
      rw [answer] at dialed
      have told : w.Resembles a { u with radio := s } :=
        ⟨same.peer, same.settings, same.notify, same.closed, same.traced⟩
      rw [initiate_refused F.radio.recorded ((waiting u same).trans waits) dialed]
      refine (brings _ told).of_unnoticed rfl fun k => ?_
      rw [grown, Log.requestsOn_append, silent, List.append_nil]

/-- What an operation on a peer does is decided on by that peer, whatever else is going on. -/
theorem operation_effect {x : Operation} (orderly : w.central.registry.Orderly)
    (traced : w.central.registry.Traced) (acts : w.ActsOn a x) :
    ∃ (fresh : Option Handle) (e : Effect),
      Confined F e ⟨a, w.central.registry.handle? a, fresh⟩ w (·.happen F.radio (.operation x)) ∧
      ∀ h, fresh = some h → x = .initiate a ∧
        (w.happen F.radio (.operation x)).radio.log.issued = w.radio.log.issued ++ [h] := by
  cases acts with
  | @event event h holds names =>
    obtain ⟨e, within, complete, brings⟩ := onRadioEvent_effect (F := F) orderly holds names
    refine ⟨none, e, ⟨holds ▸ within, complete, fun u same => ?_⟩, by simp⟩
    have heard : w.Resembles a (u.hear (some event)) :=
      ⟨same.peer, same.settings, same.notify, same.closed, same.traced⟩
    exact (brings _ heard).of_unnoticed rfl fun k => requestsOn_hear k (some event) u
  | disconnect =>
    obtain ⟨e, confined⟩ :=
      drive_effect (F := F) .disconnectRequested (runs_of_orderly orderly a)
    simp only [happen, Operation.event?, hear_none]
    exact ⟨none, e, confined, by simp⟩
  | initiate =>
    obtain ⟨fresh, e, confined, new⟩ := initiate_effect (F := F) orderly traced a
    simp only [happen, Operation.event?, hear_none]
    exact ⟨fresh, e, confined, fun h given => ⟨trivial, new h given⟩⟩

end World

/-- The same in everything but the order in which different peers were dealt with. -/
structure Alike (w v : World (Recorded σ)) : Prop where
  central : { w.central with reports := v.central.reports } = v.central
  requests : ∀ h, w.radio.log.requestsOn h = v.radio.log.requestsOn h
  reports : ∀ a, w.central.reports.filter (fun r => r.address = a) =
    v.central.reports.filter fun r => r.address = a

namespace Alike

variable {F : Answers} {e f : Effect} {s t : Scope} {w w' u v : World (Recorded σ)}

theorem refl (w : World (Recorded σ)) : Alike w w := ⟨rfl, fun _ => rfl, fun _ => rfl⟩

theorem trans (first : Alike w u) (second : Alike u v) : Alike w v := by
  constructor
  case central =>
    have same : { w.central with reports := v.central.reports } =
        { u.central with reports := v.central.reports } :=
      congrArg (fun c : Central => { c with reports := v.central.reports }) first.central
    exact same.trans second.central
  case requests => exact fun h => (first.requests h).trans (second.requests h)
  case reports => exact fun a => (first.reports a).trans (second.reports a)

theorem registry (alike : Alike w v) : w.central.registry = v.central.registry := by
  have same := congrArg Central.registry alike.central
  exact same

/-- The same effect on worlds that are alike leaves them alike. -/
theorem bring (alike : Alike w w') (left : Brings F e w u) (right : Brings F e w' v) : Alike u v := by
  constructor
  case central =>
    have same : F.play e w'.central =
        { F.play e w.central with reports := w'.central.reports ++ e.reports } :=
      (congrArg (F.play e) alike.central).symm
    rw [left.central, right.central, same]
  case requests =>
    intro h
    rw [left.requests, right.requests, alike.requests]
  case reports =>
    intro a
    rw [left.central, right.central]
    simp only [Answers.play, List.filter_append, alike.reports]

/-- Effects on scopes that are apart have the same outcome in either order. -/
theorem of_apart (apart : s.Apart t) (he : e.Within s) (hf : f.Within t)
    (left : Brings F (e.andThen f) w u) (right : Brings F (f.andThen e) w v) : Alike u v := by
  constructor
  case central =>
    have registry : w.central.registry.edit (e.andThen f).edits =
        w.central.registry.edit (f.andThen e).edits := by
      simp only [Effect.andThen, Registry.edit_append]
      exact Registry.edit_comm he.edits hf.edits apart
    have resumes : (e.andThen f).resumes = (f.andThen e).resumes := Bool.or_comm _ _
    rw [left.central, right.central]
    simp only [Answers.play, Answers.scanAfter, registry, resumes]
  case requests =>
    intro h
    rw [left.requests, right.requests]
    by_cases held : s.held = some h
    · simp only [Effect.andThen, hf.requests h (apart.held h held), List.append_nil, List.nil_append]
    · simp only [Effect.andThen, he.requests h held, List.append_nil, List.nil_append]
  case reports =>
    intro a
    rw [left.central, right.central]
    simp only [Answers.play, Effect.andThen, List.filter_append]
    by_cases here : a = s.address
    · rw [hf.filter_reports (here ▸ apart.address), List.append_nil, List.nil_append]
    · rw [he.filter_reports here, List.append_nil, List.nil_append]

end Alike

namespace World

variable {F : Answers} {a b : Address} {w u : World (Recorded σ)}

theorem get?_of_brings {s : Scope} {e : Effect} (within : e.Within s) (brings : Brings F e w u)
    (other : b ≠ s.address) : u.central.registry.get? b = w.central.registry.get? b := by
  rw [brings.central]
  exact Registry.get?_edit within.edits other

/-- After an operation on another peer an address stands as it did before. -/
theorem Resembles.bring {s : Scope} {e : Effect} {fresh : Option Handle} (same : w.Resembles b w)
    (within : e.Within s) (brings : Brings F e w u)
    (apart : s.Apart ⟨b, w.central.registry.handle? b, fresh⟩) : w.Resembles b u := by
  have peer := get?_of_brings within brings apart.address.symm
  constructor
  case peer => exact peer
  case settings =>
    rw [brings.central]
    rfl
  case notify =>
    rw [brings.central]
    rfl
  case closed =>
    intro p here ready attempted
    rw [brings.central] at attempted
    exact same.closed p (peer.symm.trans here) ready (Registry.connecting_edit_subset b attempted)
  case traced =>
    intro p h here holds
    have held : w.central.registry.handle? b = some h :=
      handle?_eq_some.2 ⟨p, peer.symm.trans here, holds⟩
    rw [brings.central, ← same.known held]
    exact Registry.addressFor?_edit within.edits (fun there => apart.held h there held)
      (fun new => apart.fresh h new held)

/-- Two operations that are confined to scopes that are apart can be done in either order. -/
theorem alike_of_confined {x y : World (Recorded σ) → World (Recorded σ)} {e f : Effect}
    {new fresh : Option Handle} (orderly : w.central.registry.Orderly)
    (traced : w.central.registry.Traced)
    (apart : Scope.Apart ⟨a, w.central.registry.handle? a, new⟩ ⟨b, w.central.registry.handle? b, fresh⟩)
    (hx : Confined F e ⟨a, w.central.registry.handle? a, new⟩ w x)
    (hy : Confined F f ⟨b, w.central.registry.handle? b, fresh⟩ w y) : Alike (y (x w)) (x (y w)) := by
  have atA := resembles_self orderly traced a
  have atB := resembles_self orderly traced b
  have first := hx.brings w atA
  have second := hy.brings w atB
  have left := hy.brings (x w) (atB.bring hx.within first apart)
  have right := hx.brings (y w) (atA.bring hy.within second apart.symm)
  exact .of_apart apart hx.within hy.within (first.trans left hy.complete)
    (second.trans right hx.complete)

theorem handle?_ne (traced : w.central.registry.Traced) (other : a ≠ b) {h : Handle}
    (holds : w.central.registry.handle? a = some h) : w.central.registry.handle? b ≠ some h := by
  intro there
  obtain ⟨p, here, holds⟩ := handle?_eq_some.1 holds
  obtain ⟨q, there, also⟩ := handle?_eq_some.1 there
  have first := traced a p h here holds
  have second := traced b q h there also
  exact other (Option.some.inj (first.symm.trans second))

/-- Operations on different peers concern different handles, and only one of them takes a new one. -/
theorem apart_of_acts {x y : Operation} {new fresh : Option Handle}
    (conserved : Conserved w.central.registry w.radio.log [])
    (traced : w.central.registry.Traced) (other : a ≠ b)
    (single : ¬ (x = .initiate a ∧ y = .initiate b))
    (left : (w.happen F.radio (.operation x)).radio.log.issued.Nodup)
    (right : (w.happen F.radio (.operation y)).radio.log.issued.Nodup)
    (newly : ∀ h, new = some h → x = .initiate a ∧
      (w.happen F.radio (.operation x)).radio.log.issued = w.radio.log.issued ++ [h])
    (freshly : ∀ h, fresh = some h → y = .initiate b ∧
      (w.happen F.radio (.operation y)).radio.log.issued = w.radio.log.issued ++ [h]) :
    Scope.Apart ⟨a, w.central.registry.handle? a, new⟩ ⟨b, w.central.registry.handle? b, fresh⟩ := by
  have unheld : ∀ {c h}, (w.radio.log.issued ++ [h]).Nodup →
      w.central.registry.handle? c ≠ some h := by
    intro c h distinct holds
    obtain ⟨p, here, holds⟩ := handle?_eq_some.1 holds
    have held : h ∈ w.central.registry.held :=
      List.mem_filterMap.2 ⟨p, List.mem_of_find?_eq_some here, holds⟩
    have old := conserved.issued_of_held held
    exact (List.nodup_append.1 distinct).2.2 h old h List.mem_cons_self rfl
  constructor
  case address => exact other
  case held => exact fun h holds => handle?_ne traced other holds
  case fresh => exact fun h given => unheld ((newly h given).2 ▸ left)
  case held_fresh => exact fun h given => unheld ((freshly h given).2 ▸ right)
  case single =>
    cases given : new with
    | none => exact Or.inl rfl
    | some h =>
      refine Or.inr (Option.eq_none_iff_forall_ne_some.2 fun k also => ?_)
      exact single ⟨(newly h given).1, (freshly k also).1⟩

theorem orderly_disconnect (orderly : w.central.registry.Orderly) (a : Address) :
    (w.disconnect F.radio.recorded a).central.registry.Orderly :=
  orderly_drive orderly fun up => by cases up

theorem alike_disconnect {v : World (Recorded σ)} (alike : Alike w v)
    (orderly : w.central.registry.Orderly) (traced : w.central.registry.Traced) (a : Address) :
    Alike (w.disconnect F.radio.recorded a) (v.disconnect F.radio.recorded a) := by
  obtain ⟨e, -, -, brings⟩ :=
    drive_effect (F := F) .disconnectRequested (runs_of_orderly orderly a)
  have registry := alike.registry
  have settings := congrArg Central.settings alike.central
  have notify := congrArg Central.notify alike.central
  have same : w.Resembles a v := ⟨congrArg (·.get? a) registry.symm, settings.symm, notify.symm,
    registry ▸ orderly.closedAt a, registry ▸ traced a⟩
  exact alike.bring (brings w (resembles_self orderly traced a)) (brings v same)

theorem alike_disconnects {v : World (Recorded σ)} (alike : Alike w v)
    (orderly : w.central.registry.Orderly) (traced : w.central.registry.Traced)
    (order : List Address) :
    Alike (order.foldl (fun w a => w.disconnect F.radio.recorded a) w)
      (order.foldl (fun w a => w.disconnect F.radio.recorded a) v) := by
  induction order generalizing w v with
  | nil => exact alike
  | cons a order ih =>
    exact ih (alike_disconnect alike orderly traced a) (orderly_disconnect orderly a)
      (traced_drive traced)

theorem disconnect_comm (orderly : w.central.registry.Orderly) (traced : w.central.registry.Traced)
    (other : a ≠ b) :
    Alike ((w.disconnect F.radio.recorded a).disconnect F.radio.recorded b)
      ((w.disconnect F.radio.recorded b).disconnect F.radio.recorded a) := by
  obtain ⟨e, hx⟩ := drive_effect (F := F) .disconnectRequested (runs_of_orderly orderly a)
  obtain ⟨f, hy⟩ := drive_effect (F := F) .disconnectRequested (runs_of_orderly orderly b)
  have apart : Scope.Apart ⟨a, w.central.registry.handle? a, none⟩
      ⟨b, w.central.registry.handle? b, none⟩ :=
    ⟨other, fun h holds => handle?_ne traced other holds, by simp, by simp, Or.inl rfl⟩
  exact alike_of_confined orderly traced apart hx hy

/-- Peers can be sent away in any order. -/
theorem disconnects_perm {l m : List Address} (perm : l.Perm m)
    (orderly : w.central.registry.Orderly) (traced : w.central.registry.Traced) :
    Alike (l.foldl (fun w a => w.disconnect F.radio.recorded a) w)
      (m.foldl (fun w a => w.disconnect F.radio.recorded a) w) := by
  induction perm generalizing w with
  | nil => exact Alike.refl w
  | cons a perm ih => exact ih (orderly_disconnect orderly a) (traced_drive traced)
  | swap a b l =>
    by_cases same : a = b
    · subst same
      exact Alike.refl _
    · refine alike_disconnects (disconnect_comm orderly traced (Ne.symm same)) ?_ ?_ l
      · exact orderly_disconnect (orderly_disconnect orderly b) a
      · exact traced_drive (traced_drive traced)
  | trans _ _ ih jh => exact (ih orderly traced).trans (jh orderly traced)

/-- Operations on different peers commute. Let a run lead to some state, on a radio that has not given
out a handle twice, and let the radio answer from then on by fixed answers. Two operations on different
peers, each an event of the radio that names the peer's handle, sending the peer away or taking up its
attempt, but not both the last, can be done in either order, if neither is answered by a handle that
was given out before: the central comes out the same but for its reports, the requests on each handle
are the same and so are the reports on each address. Neither operation touches the other peer. So
stopping comes to the same whatever order it sends the peers away in. -/
theorem operations_commute (R : Radio σ) (settings : Settings) (s : σ) (history : List (Happening σ))
    (F : Answers) :
    let w := outcome R settings s history
    w.radio.log.issued.Nodup →
    (∀ a b x y, a ≠ b → w.ActsOn a x → w.ActsOn b y → ¬ (x = .initiate a ∧ y = .initiate b) →
      let v := w.happen F.radio (.operation x)
      let u := w.happen F.radio (.operation y)
      v.radio.log.issued.Nodup → u.radio.log.issued.Nodup →
        Alike (v.happen F.radio (.operation y)) (u.happen F.radio (.operation x)) ∧
        v.central.registry.get? b = w.central.registry.get? b ∧
        u.central.registry.get? a = w.central.registry.get? a) ∧
    ∀ (order : Registry.Order) (l : List Address), l.Perm w.central.registry.known →
      Alike (l.foldl (fun w a => w.disconnect F.radio.recorded a)
        (w.scan (Scanner.stop F.radio.recorded))) (w.happen F.radio (.operation (.stop order))) := by
  intro w distinct
  have orderly := orderly_outcome R settings s history
  have traced := traced_outcome R settings s history distinct
  have conserved := conserved_outcome R settings s history
  refine ⟨?_, fun order l perm => ?_⟩
  · intro a b x y other actsX actsY single v u left right
    obtain ⟨new, e, hx, newly⟩ := operation_effect (F := F) orderly traced actsX
    obtain ⟨fresh, f, hy, freshly⟩ := operation_effect (F := F) orderly traced actsY
    have apart := apart_of_acts conserved traced other single left right newly freshly
    have atA := hx.brings w (resembles_self orderly traced a)
    have atB := hy.brings w (resembles_self orderly traced b)
    exact ⟨alike_of_confined orderly traced apart hx hy, get?_of_brings hx.within atA other.symm,
      get?_of_brings hy.within atB other⟩
  · simp only [happen, Operation.event?, hear_none, step, stop]
    exact disconnects_perm (perm.trans (Registry.addresses_perm order _).symm) orderly traced

end World

namespace Encounter

def underway : List (Happening SimulatedRadio) := history.take 8

def spent : Answers where
  negotiates := false
  connect _ _ := .error .noAdapter
  ask
    | .writeDescriptor .. => false
    | _ => true

def lost : Operation := .radioEvent (.disconnected ⟨1⟩)

end Encounter

namespace World

open Encounter

/-- The link of one peer goes down and the other cannot be dialed: the scan goes on in either order. -/
theorem operations_commute_underway :
    let w := outcome SimulatedRadio.radio settings {} underway
    let v := w.happen spent.radio (.operation lost)
    let u := w.happen spent.radio (.operation (.initiate ⟨"b"⟩))
    w.radio.log.issued.Nodup ∧ w.ActsOn ⟨"a"⟩ lost ∧ w.ActsOn ⟨"b"⟩ (.initiate ⟨"b"⟩) ∧
      Alike (v.happen spent.radio (.operation (.initiate ⟨"b"⟩))) (u.happen spent.radio (.operation lost)) ∧
      v.central.isScanning = false ∧
      (v.happen spent.radio (.operation (.initiate ⟨"b"⟩))).central.isScanning = true ∧
      Alike ([⟨"b"⟩, ⟨"a"⟩].foldl (fun w a => w.disconnect spent.radio.recorded a)
        (w.scan (Scanner.stop spent.radio.recorded))) (w.happen spent.radio (.operation (.stop .admission))) := by
  intro w v u
  have issued : (outcome SimulatedRadio.radio settings {} underway).radio.log.issued = [⟨1⟩] := by cbv
  have holds : (outcome SimulatedRadio.radio settings {} underway).central.registry.handle? ⟨"a"⟩ =
      some ⟨1⟩ := by cbv
  have known : (outcome SimulatedRadio.radio settings {} underway).central.registry.known =
      [⟨"a"⟩, ⟨"b"⟩] := by cbv
  have first : ((outcome SimulatedRadio.radio settings {} underway).happen spent.radio
      (.operation lost)).radio.log.issued = [⟨1⟩] := by cbv
  have second : ((outcome SimulatedRadio.radio settings {} underway).happen spent.radio
      (.operation (.initiate ⟨"b"⟩))).radio.log.issued = [⟨1⟩] := by cbv
  have distinct : [(⟨1⟩ : Handle)].Nodup := by decide
  have actsA : w.ActsOn ⟨"a"⟩ lost := .event holds rfl
  have actsB : w.ActsOn ⟨"b"⟩ (.initiate ⟨"b"⟩) := .initiate
  obtain ⟨pair, stopping⟩ := operations_commute SimulatedRadio.radio settings {} underway spent
    (issued ▸ distinct)
  obtain ⟨alike, -, -⟩ := pair ⟨"a"⟩ ⟨"b"⟩ lost (.initiate ⟨"b"⟩) (by decide) actsA actsB
    (by simp [lost]) (first ▸ distinct) (second ▸ distinct)
  have halted : ((outcome SimulatedRadio.radio settings {} underway).happen spent.radio
      (.operation lost)).central.isScanning = false := by cbv
  have resumed : (((outcome SimulatedRadio.radio settings {} underway).happen spent.radio
      (.operation lost)).happen spent.radio (.operation (.initiate ⟨"b"⟩))).central.isScanning = true := by
    cbv
  have order : [(⟨"b"⟩ : Address), ⟨"a"⟩].Perm w.central.registry.known := by
    rw [known]
    exact List.Perm.swap _ _ []
  exact ⟨issued ▸ distinct, actsA, actsB, alike, halted, resumed, stopping _ _ order⟩

end World

end RadioCentral
