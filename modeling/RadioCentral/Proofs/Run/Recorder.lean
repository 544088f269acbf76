import RadioCentral.Central.Operation
import RadioCentral.Radio.Simulated

/-!
Runs of a central on any radio, with a record of what passes between the two. The record is kept in
the state of the radio: every request is passed on and written down together with its answer.
-/
namespace RadioCentral

inductive Exchange where
  | dialed (address : Address) (route : Route) (answer : Option Handle)
  | asked (request : Request) (answer : Bool)
  | told (event : RadioEvent)
  deriving DecidableEq, Repr

abbrev Log := List Exchange

/-- An entry of a list that has grown by one is the new one or stands in the old list. -/
theorem split_concat {α : Type} {l before after : List α} {x e : α} (split : l ++ [e] = before ++ x :: after) :
    x = e ∧ before = l ∨ ∃ rest, after = rest ++ [e] ∧ l = before ++ x :: rest := by
  rcases List.eq_nil_or_concat after with rfl | ⟨rest, y, rfl⟩
  · obtain ⟨old, same⟩ := List.append_inj' split rfl
    exact Or.inl ⟨(List.singleton_inj.1 same).symm, old.symm⟩
  · rw [List.concat_eq_append, ← List.cons_append, ← List.append_assoc] at split
    obtain ⟨old, same⟩ := List.append_inj' split rfl
    obtain rfl := List.singleton_inj.1 same
    exact Or.inr ⟨rest, List.concat_eq_append, old⟩

def Request.released? : Request → Option Handle
  | .release h => some h
  | .startScan .. | .stopScan | .discover _ | .setNotify .. | .writeDescriptor .. | .requestUnitSize ..
  | .write .. | .disconnect _ | .invalidateCache _ => none

namespace Exchange

def issued? : Exchange → Option Handle
  | dialed _ _ answer => answer
  | asked .. | told _ => none

def request? : Exchange → Option Request
  | asked request _ => some request
  | dialed .. | told _ => none

end Exchange

namespace Log

def issued (log : Log) : List Handle := log.filterMap Exchange.issued?

def requests (log : Log) : List Request := log.filterMap Exchange.request?

def released (log : Log) : List Handle := log.requests.filterMap Request.released?

def requestsOn (h : Handle) (log : Log) : List Request :=
  log.requests.filter fun request => request.handle? = some h

@[simp] theorem issued_append (l m : Log) : issued (l ++ m) = issued l ++ issued m :=
  List.filterMap_append

@[simp] theorem released_append (l m : Log) : released (l ++ m) = released l ++ released m := by
  simp [released, requests]

@[simp] theorem requestsOn_append (h : Handle) (l m : Log) :
    requestsOn h (l ++ m) = requestsOn h l ++ requestsOn h m := by
  simp [requestsOn, requests]

theorem issued_dialed (a : Address) (route : Route) (answer : Option Handle) :
    issued [.dialed a route answer] = answer.toList := by
  cases answer <;> rfl

theorem issued_asked (request : Request) (answer : Bool) : issued [.asked request answer] = [] := rfl

theorem requestsOn_asked (h : Handle) (request : Request) (answer : Bool) :
    requestsOn h [.asked request answer] = if request.handle? = some h then [request] else [] := by
  by_cases named : request.handle? = some h <;> simp [requestsOn, requests, Exchange.request?, named]

theorem requestsOn_dialed (h : Handle) (a : Address) (route : Route) (answer : Option Handle) :
    requestsOn h [.dialed a route answer] = [] := rfl

theorem requestsOn_told (h : Handle) (event : RadioEvent) : requestsOn h [.told event] = [] := rfl

end Log

/-- A radio together with the record kept on it. -/
structure Recorded (σ : Type) where
  state : σ
  log : Log := []

variable {σ : Type}

/-- The radio that answers as another one does and keeps a record. -/
def Radio.recorded (R : Radio σ) : Radio (Recorded σ) where
  negotiates r := R.negotiates r.state
  connect address route r :=
    let (answer, state) := R.connect address route r.state
    (answer, { state, log := r.log ++ [.dialed address route answer.toOption] })
  ask request r :=
    let (answer, state) := R.ask request r.state
    (answer, { state, log := r.log ++ [.asked request answer] })

inductive Happening (σ : Type) where
  | operation (operation : Operation)
  /-- The state of the radio changes without being asked. -/
  | radioChanges (change : σ → σ)

def Happening.Stops (x : Happening σ) : Prop := ∃ order, x = .operation (.stop order)

def Happening.Resets (x : Happening σ) : Prop := ∃ order, x = .operation (.reset order)

def invitation : Bytes := [3, 0x03, 0x34, 0x12, 7, 0x16, 0x34, 0x12, 0, 0, 0, 5]

namespace Encounter

/-- Settings under which `invitation` is answered and one characteristic is of interest. -/
def settings : Settings := { service := Uuid.expand 0x1234, notify := [Uuid.expand 0x2a37] }

def target : Characteristic :=
  { uuid := Uuid.expand 0x2a37, properties := .notify }

def service : Service := { uuid := Uuid.expand 0x1234, characteristics := [target.withClientConfiguration] }

/-- Two peers are met. The first is linked and has its notifications switched on, the second is sent
away before its link is up. -/
def history : List (Happening SimulatedRadio) :=
  [.operation .start, .operation (.radioEvent (.advertisement ⟨"a"⟩ invitation)),
    .operation .dispatchNext, .operation (.radioEvent (.connected ⟨1⟩)),
    .operation (.radioEvent (.servicesDiscovered ⟨1⟩ [service])),
    .operation (.radioEvent (.descriptorWritten ⟨1⟩ target.uuid enableIndication true)),
    .operation (.radioEvent (.unitSizeChanged ⟨1⟩ 247 true)),
    .operation (.radioEvent (.advertisement ⟨"b"⟩ invitation)), .operation .dispatchNext,
    .operation (.disconnect ⟨"b"⟩)]

end Encounter

def Operation.event? : Operation → Option RadioEvent
  | .radioEvent event => some event
  | .start | .stop _ | .reset _ | .disconnect _ | .write .. | .registerNotify _ | .setNonce _
  | .setGovernor _ | .initiate _ | .dispatchNext | .claimDispatch | .dropDispatch => none

namespace World

def hear (event : Option RadioEvent) (w : World (Recorded σ)) : World (Recorded σ) :=
  { w with radio := { w.radio with log := w.radio.log ++ event.toList.map .told } }

theorem issued_hear (event : Option RadioEvent) (w : World (Recorded σ)) :
    (w.hear event).radio.log.issued = w.radio.log.issued := by
  cases event <;> simp [hear, Log.issued, Exchange.issued?]

theorem requestsOn_hear (h : Handle) (event : Option RadioEvent) (w : World (Recorded σ)) :
    (w.hear event).radio.log.requestsOn h = w.radio.log.requestsOn h := by
  cases event with
  | none => simp [hear]
  | some event =>
    rw [hear, Option.toList_some, List.map_singleton, Log.requestsOn_append, Log.requestsOn_told,
      List.append_nil]

def happen (R : Radio σ) (w : World (Recorded σ)) : Happening σ → World (Recorded σ)
  | .operation o => (w.hear o.event?).step R.recorded o
  | .radioChanges change => { w with radio := { w.radio with state := change w.radio.state } }

def fresh (settings : Settings) (s : σ) : World (Recorded σ) where
  central := Central.ofSettings settings
  radio := { state := s }

/-- Where a run leads. -/
def outcome (R : Radio σ) (settings : Settings) (s : σ) (history : List (Happening σ)) :
    World (Recorded σ) :=
  history.foldl (happen R) (fresh settings s)

@[simp] theorem outcome_nil (R : Radio σ) (settings : Settings) (s : σ) :
    outcome R settings s [] = fresh settings s := rfl

@[simp] theorem outcome_concat (R : Radio σ) (settings : Settings) (s : σ)
    (history : List (Happening σ)) (x : Happening σ) :
    outcome R settings s (history ++ [x]) = (outcome R settings s history).happen R x := by
  simp [outcome]

end World

end RadioCentral
