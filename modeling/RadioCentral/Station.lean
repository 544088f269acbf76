import RadioCentral.Backend.Radio
import RadioCentral.Backend.Stimulus
import RadioCentral.Central.Driver
import RadioCentral.Report.Describe
import RadioCentral.Station.Activity

/-!
A running program: a central with its driver on a backend, a clock, and an activity in the foreground.
Tasks run first; when none is ready the foreground looks at what has been reported, and only when
nothing is left to be done does time go on.
-/
namespace RadioCentral

inductive Occurrence where
  | stimulus (stimulus : Stimulus)
  | interrupt
  deriving DecidableEq, Repr

structure Station where
  settings : AppSettings
  driven : Driven Backend
  now : Nat := 0
  /-- What is going to happen, in the order of time. -/
  agenda : List (Nat × Occurrence) := []
  activity : Activity := .idle
  /-- Whether the user interrupted the watching. -/
  interrupted : Bool := false
  /-- How the peers are visited, to ask them to go or to forget them. -/
  order : Registry.Order := .admission
  printed : List String := []

namespace Station

def world (s : Station) : World Backend := s.driven.world

def radio (s : Station) : Backend := s.world.radio

def onWorld (f : World Backend → World Backend) (s : Station) : Station :=
  { s with driven := { s.driven with world := f s.driven.world } }

def onRadio (f : Backend → Backend) (s : Station) : Station :=
  s.onWorld fun w => { w with radio := f w.radio }

/-- The central of a program with these settings; a nonce of the caller's is preferred to that of the
settings, and one drawn at random stands in for both. -/
def centralFor (settings : AppSettings) (nonce : Option Int32) (drawn : Int32) : Central :=
  { Central.ofSettings settings.central with nonce := (nonce.or settings.runtime.nonce).getD drawn }

def ofHardware (settings : AppSettings) (nonce : Option Int32) (drawn : Int32) (order : Registry.Order)
    (hardware : Hardware) : Station where
  settings
  order
  driven := Driven.ofWorld
    { central := centralFor settings nonce drawn
      radio := { hardware, inboxOpen := false, attended := true } }

/-! Tasks. -/

/-- The driver takes the events sent so far and handles them. -/
def attend (s : Station) : Station :=
  let (events, radio) := s.radio.takeEvents
  let world := { s.world with radio }
  { s with driven := { s.driven with world, inbox := s.driven.inbox ++ events }.settle Backend.radio }

def runTask (t : Task) (s : Station) : Station :=
  match t with
  | .attend => s.attend
  | t => s.onRadio (Backend.runTask t)

def pass (s : Station) : Station :=
  s.radio.ready.foldl (fun s t => s.runTask t) (s.onRadio fun b => { b with ready := [] })

/-! The foreground. -/

def print (line : String) (s : Station) : Station := { s with printed := s.printed ++ [line] }

def conclude (c : Conclusion) (s : Station) : Station := { s with activity := .done c }

def fail (e : CommandError) (s : Station) : Station := s.conclude (.failed e)

def takeReports (s : Station) : List Report × Station :=
  let (reports, world) := s.world.takeReports
  (reports, s.onWorld fun _ => world)

def isLate (s : Station) (deadline : Nat) : Bool := deadline ≤ s.now

/-- Ends the driver: queued attempts and radio events go with it. -/
def stopDriver (s : Station) : Station :=
  let s := { s with driven := { s.driven with running := false } }
  s.onWorld fun w => { w.dropDispatch with radio := w.radio.deafen }

def finishShutdown (line : Option String) (c : Conclusion) (s : Station) : Station :=
  (line.toList.foldl (fun s line => s.print line) s.stopDriver).conclude c

/-- Shuts down: asks every peer to go and waits for that, if there is anything to wait for. -/
def shutDown (line : Option String) (c : Conclusion) (s : Station) : Station :=
  let s := s.onWorld (World.stop Backend.radio s.order)
  if s.world.central.isIdle then s.finishShutdown line c
  else { s with activity := .draining (s.now + shutdownGrace) line c }

def await (a : Address) (deadline : Nat) (write : Option (Uuid × Bytes)) (s : Station) : Station :=
  { s with activity := .awaiting a deadline write }

def openingError : Opening → RadioError → CommandError
  | .listening, e => .radio e
  | _, e => .central (CentralError.ofRadio e)

def setOut (errand : Errand) (s : Station) : Station :=
  let s := s.onRadio fun b => { b with inboxOpen := true }
  match errand with
  | .watch seconds =>
    { s.onWorld (World.start Backend.radio) with
      activity := .watching (seconds.map (momentAfter s.now)) }
  | .send recipient characteristic data =>
    (s.onWorld (World.start Backend.radio)).await recipient
      (momentAfter s.now s.settings.runtime.readyTimeout) (some (characteristic, data))
  | .serve => { s with activity := .idle }

def onProgress (errand : Errand) (s : Station) : Opening.Progress → Station
  | .opened => s.setOut errand
  | .failed stage e => s.fail (openingError stage e)
  | .waiting stage =>
    { s.onRadio (fun b => { b with held := b.held ++ [⟨adapterPlace, stage.kind, .opener⟩] }) with
      activity := .opening stage errand }

def launch (errand : Errand) (s : Station) : Station :=
  s.onProgress errand (Opening.start s.radio.hardware .manager)

def pollOpening (stage : Opening) (errand : Errand) (s : Station) : Station :=
  match s.radio.openerAnswer with
  | none => s
  | some failure? =>
    let s := s.onRadio fun b => { b with openerAnswer := none }
    match failure? with
    | some failure => s.fail (openingError stage (.backend failure.message))
    | none => s.onProgress errand (Opening.proceed s.radio.hardware stage)

def pollWatching (deadline : Option Nat) (s : Station) : Station :=
  let (reports, s) := s.takeReports
  let s := reports.foldl (fun s r => s.print r.describe) s
  if s.interrupted || deadline.any s.isLate then s.shutDown none .finished else s

def writeTo (a : Address) (characteristic : Uuid) (data : Bytes) (s : Station) : Station :=
  let (result, world) := s.world.write Backend.radio data characteristic a
  let s := s.onWorld fun _ => world
  match result with
  | .error e => s.shutDown none (.failed (.central e))
  | .ok false => s.shutDown none (.failed (.writeRejected
      (a.text ++ " is not ready or has no characteristic " ++ characteristic.text)))
  | .ok true =>
    { s with activity := .confirming a data.length (momentAfter s.now s.settings.runtime.writeTimeout) }

/-- The unit size of a peer as its last connection was reported. -/
def readyReport? (a : Address) : Report → Option (Option UInt16)
  | .connected b size => if b = a then some size else none
  | _ => none

def sentReport? (a : Address) : Report → Option (Option CentralError)
  | .dataSent b _ error => if b = a then some error else none
  | _ => none

/-- Looks through the reports for the first that tells something; those before it are lost, those after
it stay. -/
def lookFor {α : Type} (tells : Report → Option α) (s : Station) : Option α × Station :=
  let (reports, s) := s.takeReports
  let rest := reports.dropWhile fun r => (tells r).isNone
  (rest.head?.bind tells,
    s.onWorld fun w => { w with central := { w.central with reports := rest.drop 1 } })

def pollAwaiting (a : Address) (deadline : Nat) (write : Option (Uuid × Bytes)) (s : Station) : Station :=
  let (found, s) := s.lookFor (readyReport? a)
  match found, write with
  | some size, none => s.conclude (.ready size)
  | some _, some (characteristic, data) => s.writeTo a characteristic data
  | none, _ => if s.isLate deadline then s.fail (.timedOut (a.text ++ " never became ready")) else s

def pollConfirming (a : Address) (size deadline : Nat) (s : Station) : Station :=
  let (found, s) := s.lookFor (sentReport? a)
  match found with
  | some none =>
    s.shutDown (some ("Sent " ++ toString size ++ " bytes to " ++ a.text)) .finished
  | some (some e) => s.shutDown none (.failed (.writeRejected e.message))
  | none =>
    if s.isLate deadline then
      s.shutDown none (.failed (.timedOut ("no write confirmation from " ++ a.text)))
    else s

/-- Waits for the peers to go. Whether one is left is looked at after each report. -/
def pollDraining (deadline : Nat) (line : Option String) (c : Conclusion) (s : Station) : Station :=
  let (reports, s) := s.takeReports
  if !reports.isEmpty && s.world.central.isIdle then s.finishShutdown line c
  else if s.isLate deadline then (s.onWorld (World.reset Backend.radio s.order)).finishShutdown line c
  else s

/-- Takes the activity one step further, if it need not wait. -/
def advance (s : Station) : Station :=
  match s.activity with
  | .opening stage errand => s.pollOpening stage errand
  | .watching deadline => s.pollWatching deadline
  | .awaiting a deadline write => s.pollAwaiting a deadline write
  | .confirming a size deadline => s.pollConfirming a size deadline
  | .draining deadline line c => s.pollDraining deadline line c
  | .idle | .done _ => s

/-- Takes the activity as far as it goes. No errand has more than four activities one after the other,
and opening is started anew at most twice. -/
def poll (s : Station) : Station := (List.range 8).foldl (fun s _ => s.advance) s

/-- Runs tasks and the foreground in turn until both have to wait, for at most so many rounds. -/
def settleWithin : (rounds : Nat) → Station → Station
  | 0, s => s
  | rounds + 1, s =>
    if s.radio.ready.isEmpty then
      let s := s.poll
      if s.radio.ready.isEmpty then s else settleWithin rounds s
    else settleWithin rounds s.pass

/-- More rounds than any chain of answers from connecting to the last release takes. -/
def enoughRounds : Nat := 1000

def settle (s : Station) : Station := s.settleWithin enoughRounds

end Station

end RadioCentral
