import RadioCentral.Hardware

/-!
Opening the first adapter: the manager is opened, it lists its adapters, and the first of them is
listened to. Each stage is one call whose outcome is laid down.
-/
namespace RadioCentral

inductive Opening where
  | manager
  | adapters
  | listening
  deriving DecidableEq, Repr

namespace Opening

def kind : Opening → CallKind
  | manager => .openManager
  | adapters => .listAdapters
  | listening => .listen

/-- The stage after one that succeeded; `none` when the adapter is open. -/
def next (count : Nat) : Opening → Except RadioError (Option Opening)
  | manager => .ok (some adapters)
  | adapters => if count = 0 then .error .noAdapter else .ok (some listening)
  | listening => .ok none

def remaining : Opening → Nat
  | manager => 2
  | adapters => 1
  | listening => 0

theorem remaining_next {count : Nat} {stage later : Opening} (h : stage.next count = .ok (some later)) :
    later.remaining < stage.remaining := by
  cases stage <;> simp only [next] at h
  · cases h; decide
  · split at h <;> cases h; decide
  · cases h

/-- How far opening comes on its own. -/
inductive Progress where
  | opened
  /-- The stage whose call stays open. -/
  | waiting (stage : Opening)
  | failed (stage : Opening) (error : RadioError)
  deriving DecidableEq, Repr

mutual

def start (h : Hardware) (stage : Opening) : Progress :=
  match h.script.outcome stage.kind with
  | .hold => .waiting stage
  | .fail failure => .failed stage (.backend failure.message)
  | .succeed => proceed h stage
termination_by (stage.remaining, 1)

def proceed (h : Hardware) (stage : Opening) : Progress :=
  match _found : stage.next h.adapters with
  | .error error => .failed stage error
  | .ok none => .opened
  | .ok (some later) => start h later
termination_by (stage.remaining, 0)
decreasing_by exact Prod.Lex.left _ _ (remaining_next _found)

end

end Opening

end RadioCentral
