import RadioCentral.Central
import RadioCentral.Registry.Lemmas
import RadioCentral.Subscription

/-!
Carrying out what transitions ask for. A step may call for a further event at once; steps are done
before the events they call for, until neither is left. That this ends is seen from the distance the
peer still has to go: an event that brings it no further leaves no steps.
-/
namespace RadioCentral.World

open Registry (Step)

variable {σ : Type}

def ask (R : Radio σ) (request : Request) (w : World σ) : Bool × World σ :=
  let (answer, radio) := R.ask request w.radio
  (answer, { w with radio })

/-- Asks for something on a connection; without a handle the answer is no. -/
def askOn (R : Radio σ) (handle : Option Handle) (request : Handle → Request) (w : World σ) :
    Bool × World σ :=
  match handle with
  | some h => w.ask R (request h)
  | none => (false, w)

def report (r : Report) (w : World σ) : World σ := { w with central := w.central.report r }

/-- Changes the scan, which may act on the radio. -/
def scan (f : Scanner → σ → Scanner × σ) (w : World σ) : World σ :=
  let (scanner, radio) := f w.central.scanner w.radio
  { central := { w.central with scanner }, radio }

/-- What applies to a connection discovered now. -/
def policy (R : Radio σ) (w : World σ) : LinkPolicy where
  notify := w.central.notify
  unitSize :=
    if w.central.settings.negotiate && R.negotiates w.radio then some w.central.settings.unitSize
    else none

/-- Switches notifications on or off; the event is the one due at once. -/
def switch (R : Radio σ) (c : Characteristic) (enable : Bool) (handle : Option Handle) (w : World σ) :
    Option PeerEvent × World σ :=
  match handle with
  | some h =>
    let (outcome, radio) := Subscription.set R h c enable w.radio
    (Subscription.event? c enable outcome, { w with radio })
  | none => (some (if enable then .enableFailed c.uuid else .disableRefused), w)

/-- Carries out an action; the event is the one it calls for. -/
def perform (R : Radio σ) (a : Address) (handle : Option Handle) (action : Action) (w : World σ) :
    Option PeerEvent × World σ :=
  match action with
  | .pauseScanning => (none, w.scan (Scanner.pause R))
  | .resumeScanning =>
    (none, if w.central.registry.connecting.isEmpty then w.scan (Scanner.resume R) else w)
  | .connect =>
    let (queued, dispatch) := w.central.dispatch.send a
    (if queued then none else some .connectFailed, { w with central := { w.central with dispatch } })
  | .discoverServices =>
    let (issued, w) := w.askOn R handle .discover
    (if issued then none else some .discoveryRefused, w)
  | .subscribe c => w.switch R c true handle
  | .unsubscribe c => w.switch R c false handle
  | .requestUnitSize size =>
    let (issued, w) := w.askOn R handle (.requestUnitSize · size)
    (if issued then none else some .negotiationUnavailable, w)
  | .invalidateCache => (none, (w.askOn R handle .invalidateCache).2)
  | .disconnect => (none, (w.askOn R handle .disconnect).2)
  | .reportConnected unitSize => (none, w.report (.connected a unitSize))
  | .reportDisconnected => (none, w.report (.disconnected a))
  | .release => (none, w)
  | .forget => (none, w)

def execute (R : Radio σ) (a : Address) (step : Step) (w : World σ) : Option PeerEvent × World σ :=
  match step with
  | .run action handle => w.perform R a handle action
  | .release handle => (none, (w.ask R (.release handle)).2)

def transition (R : Radio σ) (a : Address) (event : PeerEvent) (w : World σ) : List Step × World σ :=
  let (steps, registry) := w.central.registry.advance (w.policy R) a event
  (steps, { w with central := { w.central with registry } })

theorem registry_askOn (R : Radio σ) (handle : Option Handle) (request : Handle → Request)
    (w : World σ) : (w.askOn R handle request).2.central = w.central := by
  cases handle <;> rfl

theorem registry_switch (R : Radio σ) (c : Characteristic) (enable : Bool) (handle : Option Handle)
    (w : World σ) : (w.switch R c enable handle).2.central = w.central := by
  cases handle <;> rfl

theorem registry_execute (R : Radio σ) (a : Address) (step : Step) (w : World σ) :
    (w.execute R a step).2.central.registry = w.central.registry := by
  cases step with
  | release handle => rfl
  | run action handle =>
    cases action <;> simp only [execute, perform, registry_askOn, registry_switch] <;> try rfl
    split <;> rfl

/-- Does all steps and then, one after the other, the events they call for. -/
def settle (R : Radio σ) (a : Address) (steps : List Step) (events : List PeerEvent) (w : World σ) :
    World σ :=
  match steps with
  | step :: steps =>
    let r := w.execute R a step
    settle R a steps (events ++ r.1.toList) r.2
  | [] =>
    match events with
    | event :: events =>
      let r := w.transition R a event
      settle R a r.1 events r.2
    | [] => w
termination_by (w.central.registry.distance a, 2 * steps.length + events.length)
decreasing_by
  · rw [registry_execute]
    apply Prod.Lex.right
    have : (w.execute R a step).1.toList.length ≤ 1 := by cases (w.execute R a step).1 <;> simp
    simp only [List.length_append, List.length_cons]
    omega
  · rcases Registry.distance_advance (w.policy R) a event w.central.registry with less | ⟨idle, same⟩
    · exact Prod.Lex.left _ _ less
    · show Prod.Lex _ _ (((w.central.registry.advance (w.policy R) a event).2.distance a), _) _
      rw [same]
      apply Prod.Lex.right
      have : (w.transition R a event).1 = [] := idle
      simp only [this, List.length_nil, List.length_cons]
      omega

def drive (R : Radio σ) (a : Address) (event : PeerEvent) (w : World σ) : World σ :=
  w.settle R a [] [event]

end RadioCentral.World
