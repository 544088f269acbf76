import RadioCentral.Station

/-!
The clock of a program. It stands still while anything can be done and then goes on to the next moment
at which something happens: an occurrence of the agenda or the deadline of the activity. Of things that
happen in the same moment, occurrences come before the deadline, and both before the tasks they cause.
-/
namespace RadioCentral.Station

/-- Enters what is to happen, after what was entered for the same moment. -/
def schedule (occurrences : List (Nat × Occurrence)) (s : Station) : Station :=
  { s with agenda := (s.agenda ++ occurrences).mergeSort fun a b => a.1 ≤ b.1 }

def occur (o : Occurrence) (s : Station) : Station :=
  match o with
  | .stimulus stimulus => s.onRadio (Backend.stimulate stimulus)
  | .interrupt =>
    match s.activity with
    | .watching _ => { s with interrupted := true }
    | _ => s

def nextMoment? (s : Station) : Option Nat :=
  match s.agenda.head?, s.activity.deadline? with
  | some entry, some deadline => some (min entry.1 deadline)
  | some entry, none => some entry.1
  | none, deadline => deadline

def happen (s : Station) : Station :=
  let due := s.agenda.takeWhile fun entry => entry.1 ≤ s.now
  let s := { s with agenda := s.agenda.dropWhile fun entry => entry.1 ≤ s.now }
  ((due.foldl (fun s entry => s.occur entry.2) s).poll).settle

def goTo (moment : Nat) (s : Station) : Station := { s with now := max s.now moment }.happen

/-- Goes on until the activity is done, through at most so many moments. -/
def finishWithin : (moments : Nat) → Station → Station
  | 0, s => s
  | moments + 1, s =>
    match s.activity, s.nextMoment? with
    | .done _, _ => s
    | _, none => s
    | _, some moment => finishWithin moments (s.goTo moment)

/-- Goes on until the activity is done. Every moment uses up an occurrence or ends an activity, of
which there are at most four. -/
def finish (s : Station) : Station := s.settle.finishWithin (s.agenda.length + 4)

/-- Goes through every moment up to a given one, of which there are at most so many. -/
def passThrough (moment : Nat) : (moments : Nat) → Station → Station
  | 0, s => s
  | moments + 1, s =>
    match s.agenda.head? with
    | some entry => if entry.1 ≤ moment then passThrough moment moments (s.goTo entry.1) else s
    | none => s

def rest (duration : Nat) (s : Station) : Station :=
  let moment := s.now + duration
  (s.settle.passThrough moment s.agenda.length).goTo moment

/-- Takes an activity that has not begun to its end, while things happen at given times from now, and
tells how long it took. -/
def complete (act : Station → Station) (during : List (Nat × Occurrence)) (s : Station) :
    Conclusion × Nat × Station :=
  let began := s.now
  let s := (act (s.schedule (during.map fun entry => (began + entry.1, entry.2)))).finish
  ((s.activity.conclusion?).getD .finished, s.now - began, s)

def waitUntilReady (a : Address) (timeout : Nat) (s : Station) : Station :=
  if s.world.central.isConnectedTo a then s.conclude (.ready (s.world.central.unitSize? a))
  else (s.await a (s.now + timeout) none).poll

end RadioCentral.Station
