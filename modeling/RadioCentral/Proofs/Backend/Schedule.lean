import Mathlib.Data.List.Perm.Basic
import RadioCentral.Backend.Radio
import RadioCentral.Backend.Stimulus
import RadioCentral.Proofs.Backend.Growth
import RadioCentral.Proofs.Run.Recorder

/-!
What can happen around a radio whose jobs are tasks of a runtime, move by move: a ready task runs until it
waits, whether or not its turn has come; an open call comes to its end; something is asked for; the
hardware does something by itself. Only the first makes calls or tells anything, only requests leave
jobs behind, and only requests open and close links.
-/
namespace RadioCentral

inductive Move where
  /-- The ready task at a place runs. -/
  | run (place : Nat)
  /-- The open call at a place comes to its end. -/
  | finish (place : Nat) (failure : Option Failure)
  | dial (device : Address)
  | ask (request : Request)
  | stimulate (stimulus : Stimulus)
  deriving DecidableEq

def Move.released? : Move → Option Handle
  | .ask request => request.released?
  | .run _ | .finish .. | .dial _ | .stimulate _ => none

namespace Backend

def move (b : Backend) : Move → Backend
  | .run i => b.runAt i
  | .finish i failure => b.finishAt i failure
  | .dial device => (b.dial device).2
  | .ask request => (b.ask request).2
  | .stimulate stimulus => b.stimulate stimulus

def runs (b : Backend) : Move → Option Task
  | .run i => b.ready[i]?
  | .finish .. | .dial _ | .ask _ | .stimulate _ => none

def play (b : Backend) (moves : List Move) : Backend := moves.foldl move b

@[simp] theorem play_nil (b : Backend) : b.play [] = b := rfl

@[simp] theorem play_cons (b : Backend) (m : Move) (moves : List Move) :
    b.play (m :: moves) = (b.move m).play moves := rfl

theorem play_append (b : Backend) (moves more : List Move) :
    b.play (moves ++ more) = (b.play moves).play more :=
  List.foldl_append

def jobFor? (b : Backend) : Request → Option Job
  | .startScan mode service => some (.startScan (scanFilter service mode))
  | .stopScan => some .stopScan
  | .discover h => (b.links.device? h).map (.discover h)
  | .writeDescriptor h d value => (b.links.device? h).map (.writeDescriptor h · d value)
  | .write h c value mode => (b.links.device? h).bind fun device =>
    (b.hardware.attribute? device c).map (.write h device · value mode)
  | .disconnect h => (b.links.device? h).map (.disconnect h)
  | .release h => (b.links.device? h).map .checkReleased
  | .setNotify .. | .requestUnitSize .. | .invalidateCache _ => none

def spawned (b : Backend) : Move → List Job
  | .dial device => if device ∈ b.known then [.connect ⟨b.nextHandle⟩ device] else []
  | .ask request => (b.jobFor? request).toList
  | .run _ | .finish .. | .stimulate _ => []

/-- What a move does that runs no task: it may leave jobs behind, and close the link of a handle. Handles
already given out are linked anew by nobody. -/
structure Quiet (spawned : List Job) (closed : Option Handle) (b c : Backend) : Prop where
  calls : c.hardware.calls = b.hardware.calls
  events : c.events = b.events
  starts : c.starts = b.starts ++ spawned
  underWay : c.underWay.Perm b.underWay
  nextHandle : b.nextHandle ≤ c.nextHandle
  device? : ∀ h, h.id < b.nextHandle →
    c.links.device? h = if closed = some h then none else b.links.device? h

def without (i : Nat) (b : Backend) : Backend := { b with ready := b.ready.eraseIdx i }

section

variable {b c d : Backend} {h : Handle} {i : Nat} {t : Task} {left : List Job} {closed : Option Handle}

theorem Quiet.refl (b : Backend) : Quiet [] none b b where
  calls := rfl
  events := rfl
  starts := (List.append_nil _).symm
  underWay := .refl _
  nextHandle := Nat.le_refl _
  device? _ _ := by simp

theorem Quiet.trans (first : Quiet left closed b c) (last : Quiet [] none c d) : Quiet left closed b d where
  calls := last.calls.trans first.calls
  events := last.events.trans first.events
  starts := by rw [last.starts, List.append_nil, first.starts]
  underWay := last.underWay.trans first.underWay
  nextHandle := Nat.le_trans first.nextHandle last.nextHandle
  device? h given := by
    rw [last.device? h (Nat.lt_of_lt_of_le given first.nextHandle), first.device? h given]
    simp

theorem quiet_spawn (job : Job) (b : Backend) : Quiet [job] none b (b.spawn job) :=
  { Quiet.refl b with
    starts := by simp [spawn, Backend.starts, Task.starting?]
    underWay := by simp [spawn, Backend.underWay, List.filterMap_cons, Task.resuming?] }

theorem quiet_links {links : LinkTable} (device? : ∀ h, links.device? h = b.links.device? h) :
    Quiet [] none b { b with links } :=
  { Quiet.refl b with
    device? := fun h _ => by simpa using device? h }

theorem quiet_wake (starting : t.starting? = none) (resuming : t.resuming? = none) (b : Backend) :
    Quiet [] none b (b.wake t) := by
  unfold wake
  split
  · exact .refl b
  · exact { Quiet.refl b with
      starts := by simp [Backend.starts, starting]
      underWay := by simp [Backend.underWay, resuming] }

theorem quiet_dial (device : Address) (b : Backend) :
    Quiet (if device ∈ b.known then [.connect ⟨b.nextHandle⟩ device] else []) none b (b.dial device).2 := by
  unfold dial
  split
  · exact { quiet_spawn (.connect ⟨b.nextHandle⟩ device) b with
      nextHandle := Nat.le_succ _
      device? := fun h given => by
        have other : (⟨b.nextHandle⟩ : Handle) ≠ h := fun same => by simp [← same] at given
        simp [spawn, LinkTable.device?, LinkTable.get?, other] }
  · exact .refl b

theorem quiet_onLink (h : Handle) (job : Address → Job) (b : Backend) :
    Quiet ((b.links.device? h).map job).toList none b (b.onLink h job).2 := by
  unfold onLink
  split <;> rename_i linked <;> rw [linked]
  · exact quiet_spawn _ b
  · exact .refl b

theorem quiet_ask (request : Request) (b : Backend) :
    Quiet (b.jobFor? request).toList request.released? b (b.ask request).2 := by
  cases request with
  | startScan | stopScan => exact quiet_spawn _ b
  | discover | writeDescriptor | disconnect => exact quiet_onLink _ _ b
  | setNotify h c enable =>
    exact quiet_links (LinkTable.device?_modify (fun _ => by rfl) (fun _ => by rfl) b.links h)
  | requestUnitSize | invalidateCache => exact .refl b
  | write h c value mode =>
    simp only [ask, write, jobFor?]
    split <;> rename_i linked <;> rw [linked]
    · exact .refl b
    · split <;> rename_i found <;> simp only [Option.bind_some, found]
      · exact quiet_spawn _ b
      · exact .refl b
  | release h =>
    have closed (k : Handle) : (b.links.close h).device? k =
        if some h = some k then none else b.links.device? k := by
      simp [LinkTable.device?_close, eq_comm]
    simp only [ask, release, jobFor?]
    split <;> rename_i linked <;> rw [linked]
    · exact { quiet_spawn _ b with device? := fun k _ => closed k }
    · refine { Quiet.refl b with device? := fun k _ => ?_ }
      split
      case isTrue same => rw [← Option.some.inj same, linked]
      case isFalse => rfl

/-- A job whose call has ended waits for its turn to go on. -/
theorem quiet_finishAt (i : Nat) (failure : Option Failure) (b : Backend) :
    Quiet [] none b (b.finishAt i failure) := by
  unfold finishAt
  split
  · exact .refl b
  case h_2 held at_ =>
    have taken : b.held.Perm (held :: b.held.eraseIdx i) := by
      obtain ⟨bound, rfl⟩ := List.getElem?_eq_some_iff.1 at_
      exact (List.getElem_cons_eraseIdx_perm bound).symm
    have calls : (effectOf held b.hardware).calls = b.hardware.calls := by
      unfold effectOf
      split <;> first | exact calls_takeEffect _ _ | rfl
    refine { Quiet.refl b with calls := ?_, starts := by simp [Backend.starts, Task.starting?], underWay := ?_ }
    · show (if failure.isNone = true then effectOf held b.hardware else b.hardware).calls = b.hardware.calls
      split
      · exact calls
      · rfl
    · have waiting := taken.filterMap (·.waiter.job?)
      rw [filterMap_cons_toList] at waiting
      simpa [Backend.underWay, filterMap_cons_toList, Task.resuming?] using waiting.symm.append_left _

theorem quiet_wakeReaders (device : Address) (b : Backend) : Quiet [] none b (b.wakeReaders device) := by
  unfold wakeReaders
  generalize b.links.handlesTo device = handles
  induction handles generalizing b with
  | nil => exact .refl b
  | cons h handles ih => exact (quiet_wake rfl rfl b).trans (ih _)

theorem quiet_stimulate (stimulus : Stimulus) (b : Backend) : Quiet [] none b (b.stimulate stimulus) := by
  cases stimulus with
  | adapterEvent event =>
    simp only [stimulate]
    split
    · exact { quiet_wake (t := .read) rfl rfl { b with inbox := b.inbox ++ [event] } with }
    · exact .refl b
  | endEvents | adapter | device => exact { Quiet.refl b with }
  | removeDevice device | endNotifications device =>
    exact { quiet_links (LinkTable.device?_endStreams b.links device) with }
  | finish place kind failure =>
    simp only [stimulate]
    split
    · exact quiet_finishAt _ failure b
    · exact .refl b
  | notify device characteristic value =>
    exact (quiet_links (LinkTable.device?_put b.links device _)).trans (quiet_wakeReaders device _)

/-- A ready task is taken out, and does what it does. -/
theorem grows_runAt (found : b.ready[i]? = some t) :
    ∃ more, (∀ call ∈ more, call.isFollowUp = true) ∧
      Grows ((t.starting?.bind (firstCall? · b)).toList ++ more) (t.starting?.toList ++ t.resuming?.toList)
        (b.without i) (b.runAt i) := by
  rw [runAt, found]
  exact grows_runTask t (b.without i)

theorem runAt_none (empty : b.ready[i]? = none) : b.runAt i = b := by
  rw [runAt, empty]

theorem starts_eq (found : b.ready[i]? = some t) : b.starts = (b.ready.take i).filterMap Task.starting? ++
    (t.starting?.toList ++ (b.ready.drop (i + 1)).filterMap Task.starting?) := by
  obtain ⟨bound, rfl⟩ := List.getElem?_eq_some_iff.1 found
  rw [← filterMap_cons_toList, List.getElem_cons_drop, ← List.filterMap_append, List.take_append_drop, starts]

theorem starts_without (i : Nat) (b : Backend) : (b.without i).starts =
    (b.ready.take i).filterMap Task.starting? ++ (b.ready.drop (i + 1)).filterMap Task.starting? := by
  simp [starts, without, List.eraseIdx_eq_take_drop_succ]

theorem underWay_without (found : b.ready[i]? = some t) :
    b.underWay.Perm (t.resuming?.toList ++ (b.without i).underWay) := by
  obtain ⟨bound, rfl⟩ := List.getElem?_eq_some_iff.1 found
  have taken := (List.getElem_cons_eraseIdx_perm bound).symm.filterMap Task.resuming?
  rw [filterMap_cons_toList] at taken
  simpa [underWay, without] using taken.append_right _

/-- The jobs that are left when a task is taken out. -/
theorem mem_jobs_without {job : Job} (found : b.ready[i]? = some t) (mem : job ∈ b.jobs) :
    t.starting? = some job ∨ t.resuming? = some job ∨ job ∈ (b.without i).jobs := by
  rcases List.mem_append.1 mem with start | begun
  · rw [starts_eq found] at start
    simp only [jobs, starts_without, List.mem_append, Option.mem_toList] at start ⊢
    tauto
  · have begun := (underWay_without found).mem_iff.1 begun
    simp only [jobs, List.mem_append, Option.mem_toList] at begun ⊢
    tauto

/-- Either a move runs a ready task, or it runs none. -/
theorem ran_or_quiet (m : Move) (b : Backend) :
    (∃ i t, m = .run i ∧ b.ready[i]? = some t) ∨
      b.runs m = none ∧ Quiet (b.spawned m) m.released? b (b.move m) := by
  cases m with
  | run i =>
    cases found : b.ready[i]? with
    | none =>
      refine Or.inr ⟨found, ?_⟩
      rw [move, runAt_none found]
      exact .refl b
    | some t => exact Or.inl ⟨i, t, rfl, found⟩
  | finish i failure => exact Or.inr ⟨rfl, quiet_finishAt i failure b⟩
  | dial device => exact Or.inr ⟨rfl, quiet_dial device b⟩
  | ask request => exact Or.inr ⟨rfl, quiet_ask request b⟩
  | stimulate stimulus => exact Or.inr ⟨rfl, quiet_stimulate stimulus b⟩

theorem nextHandle_move (m : Move) (b : Backend) : b.nextHandle ≤ (b.move m).nextHandle := by
  rcases ran_or_quiet m b with ⟨i, t, rfl, found⟩ | ⟨-, quiet⟩
  · obtain ⟨_, _, grows⟩ := grows_runAt found
    exact Nat.le_of_eq grows.nextHandle.symm
  · exact quiet.nextHandle

theorem device?_move (m : Move) (given : h.id < b.nextHandle) :
    (b.move m).links.device? h = if m.released? = some h then none else b.links.device? h := by
  rcases ran_or_quiet m b with ⟨i, t, rfl, found⟩ | ⟨-, quiet⟩
  · obtain ⟨_, _, grows⟩ := grows_runAt found
    have same : (b.runAt i).links.device? h = b.links.device? h := grows.device? h
    simpa [move, Move.released?] using same
  · exact quiet.device? h given

theorem calls_move (m : Move) (b : Backend) : b.hardware.calls <+: (b.move m).hardware.calls := by
  rcases ran_or_quiet m b with ⟨i, t, rfl, found⟩ | ⟨-, quiet⟩
  · obtain ⟨_, _, grows⟩ := grows_runAt found
    exact grows.log
  · exact ⟨[], by rw [quiet.calls, List.append_nil]⟩

end

end Backend

end RadioCentral
