import Mathlib
import RadioCentral.Proofs.Backend.Schedule

/-!
A release that races the connecting of its handle. Whatever the tasks do in between, and in whatever order
they run, a device whose connection came up is asked to let go once its handle is released: by the one
who releases when the handle was still open, else by the job that connected. A connection is announced
only on an open handle.
-/
namespace RadioCentral

def Job.device? : Job → Option Address
  | .connect _ device | .listen _ device | .closeOrphan device | .discover _ device
  | .writeDescriptor _ device .. | .write _ device .. | .disconnect _ device | .checkReleased device
  | .closeReleased device => some device
  | .startScan _ | .stopScan => none

namespace Backend

/-- The job that hears an answer when a task runs, whether its call succeeded, and the backend then. -/
def heard (t : Task) (b : Backend) : Option (Job × Bool × Backend) :=
  match t with
  | .start job =>
    match b.issue job with
    | (some success, c) => some (job, success, c)
    | (none, _) => none
  | .resume waiter failure => waiter.job?.map (·, failure.isNone, b)
  | .deliver _ | .read | .attend => none

def hears (b : Backend) : Move → Option (Job × Bool × Backend)
  | .run i => b.ready[i]?.bind fun t => heard t (b.without i)
  | .finish .. | .dial _ | .ask _ | .stimulate _ => none

/-- A device has been asked to let go since a list of calls was made. -/
def LetGoSince (calls : List HardwareCall) (device : Address) (b : Backend) : Prop :=
  ∃ more, b.hardware.calls = calls ++ more ∧ .device device .disconnect ∈ more

section

variable {b c r : Backend} {h : Handle} {device : Address} {i : Nat} {t : Task} {m : Move} {job : Job}
  {success : Bool} {calls : List HardwareCall}

theorem LetGoSince.mono (asked : b.LetGoSince calls device) (grown : b.hardware.calls <+: c.hardware.calls) :
    c.LetGoSince calls device := by
  obtain ⟨more, log, mem⟩ := asked
  obtain ⟨rest, log'⟩ := grown
  exact ⟨more ++ rest, by rw [← log', log, List.append_assoc], List.mem_append_left _ mem⟩

theorem log_run (job : Job) (success : Option Bool) (b : Backend) :
    b.hardware.calls <+: (b.run job success).hardware.calls := by
  obtain ⟨_, _, grows⟩ := grows_run job success b
  exact grows.log

theorem isOpen_run (job : Job) (success : Option Bool) (h : Handle) (b : Backend) :
    (b.run job success).links.isOpen h = b.links.isOpen h := by
  obtain ⟨_, _, grows⟩ := grows_run job success b
  rw [LinkTable.isOpen_eq, grows.device? h, LinkTable.isOpen_eq]

/-- The jobs that only disconnect do it at once. -/
theorem LetGoSince.of_run (log : calls <+: b.hardware.calls)
    (first : b.firstCall? job = some (.device device .disconnect)) :
    (b.run job none).LetGoSince calls device := by
  obtain ⟨more, log⟩ := log
  obtain ⟨rest, -, grows⟩ := grows_run job none b
  refine ⟨more ++ [.device device .disconnect] ++ rest, ?_, by simp⟩
  rw [grows.calls, ← log]
  simp [opening?, first]

theorem hears_run (answer : b.hears m = some (job, success, c)) :
    ∃ i, m = .run i ∧ b.hardware.calls <+: c.hardware.calls ∧ b.move m = c.run job (some success) := by
  cases m with
  | finish | dial | ask | stimulate => cases answer
  | run i =>
    obtain ⟨t, found, told⟩ := Option.bind_eq_some_iff.1 answer
    have ran : b.move (.run i) = (b.without i).runTask t := by
      show b.runAt i = _
      rw [runAt, found]
      rfl
    refine ⟨i, rfl, ?_⟩
    rw [ran]
    cases t with
    | deliver | read | attend => cases told
    | start begun =>
      simp only [heard] at told
      split at told <;> cases told
      case h_1 answered =>
        refine ⟨(grows_issue_some answered).log, ?_⟩
        rw [runTask, run_none, answered]
    | resume waiter failure =>
      obtain ⟨j, waits, same⟩ := Option.map_eq_some_iff.1 told
      cases same
      cases waiter with
      | reader | opener => cases waits
      | job j =>
        cases waits
        exact ⟨List.prefix_rfl, rfl⟩

/-- The job a task goes on with hears an answer, or it still waits afterwards. -/
theorem hears_or_waits (found : b.ready[i]? = some t)
    (its : t.starting? = some job ∨ t.resuming? = some job) :
    (∃ success c, b.hears (.run i) = some (job, success, c)) ∨ job ∈ (b.runAt i).jobs := by
  have answer : b.hears (.run i) = heard t (b.without i) := by simp [hears, found]
  rw [answer]
  cases t with
  | deliver | read | attend => simp [Task.starting?, Task.resuming?] at its
  | resume waiter failure =>
    obtain waits : waiter.job? = some job := by simpa [Task.starting?, Task.resuming?] using its
    exact Or.inl ⟨failure.isNone, b.without i, by simp [heard, waits]⟩
  | start begun =>
    obtain rfl : begun = job := by simpa [Task.starting?, Task.resuming?] using its
    cases issued : (b.without i).issue begun with
    | mk answer c =>
      cases answer with
      | some success => exact Or.inl ⟨success, c, by simp [heard, issued]⟩
      | none =>
        right
        have ran : b.runAt i = c := by
          rw [runAt, found]
          show (b.without i).run begun none = c
          rw [run_none, issued]
        rw [ran]
        exact List.mem_append_right _ (grows_issue_none issued).2

/-- Whichever task runs, a job either hears an answer or goes on waiting. -/
theorem hears_or_left (found : b.ready[i]? = some t) (mem : job ∈ b.jobs) :
    (∃ success c, b.hears (.run i) = some (job, success, c)) ∨ job ∈ (b.runAt i).jobs := by
  obtain ⟨_, _, grows⟩ := grows_runAt found
  rcases mem_jobs_without found mem with begins | resumes | left
  · exact hears_or_waits found (Or.inl begins)
  · exact hears_or_waits found (Or.inr resumes)
  · right
    rcases List.mem_append.1 left with start | begun
    · exact List.mem_append_left _ (grows.starts ▸ start)
    · exact List.mem_append_right _ (grows.underWay begun)

/-- What the one who listens to a connection comes to: it stays open, or the device is let go. -/
theorem run_listen (log : calls <+: b.hardware.calls) (success : Bool) :
    (b.run (.listen h device) (some success)).links.isOpen h = true ∨
      (b.run (.listen h device) (some success)).LetGoSince calls device := by
  by_cases isOpen : b.links.isOpen h = true
  · exact Or.inl (by rwa [isOpen_run])
  · right
    have answered : b.answer (.listen h device) success = (some (.closeOrphan device), b) := by
      cases success <;> simp [answer, announce, openStream, isOpen]
    rw [run_some, answered]
    exact LetGoSince.of_run log rfl

/-- A connection that came up leaves its handle open, or the device is let go. -/
theorem run_connect (log : calls <+: b.hardware.calls) :
    (b.run (.connect h device) (some true)).links.isOpen h = true ∨
      (b.run (.connect h device) (some true)).LetGoSince calls device := by
  by_cases isOpen : b.links.isOpen h = true
  · exact Or.inl (by rwa [isOpen_run])
  · right
    have answered : b.answer (.connect h device) true = (some (.closeOrphan device), b) := by
      simp [answer, isOpen]
    rw [run_some, answered]
    exact LetGoSince.of_run log rfl

/-- A device that is found connected is let go. -/
theorem run_checkReleased (log : calls <+: b.hardware.calls)
    (connected : b.hardware.isConnected device = true) :
    (b.run (.checkReleased device) (some true)).LetGoSince calls device := by
  have answered : b.answer (.checkReleased device) true = (some (.closeReleased device), b) := by
    simp [answer, connected]
  rw [run_some, answered]
  exact LetGoSince.of_run log rfl

/-- What a device is due whose connection came up when a list of calls had been made: it was asked to let
go since, or the handle is open, or a job is left that sees to it. -/
structure Due (h : Handle) (device : Address) (calls : List HardwareCall) (b : Backend) : Prop where
  given : h.id < b.nextHandle
  linked : ∀ d, b.links.device? h = some d → d = device
  log : calls <+: b.hardware.calls
  seenTo : b.LetGoSince calls device ∨ b.links.isOpen h = true ∨
    .listen h device ∈ b.jobs ∨ .checkReleased device ∈ b.jobs

/-- Whoever has yet to find out whether a device is connected finds that it is, unless it was asked to let
go. -/
def FindsConnected (device : Address) (calls : List HardwareCall) (b : Backend) (m : Move) : Prop :=
  ∀ success c, b.hears m = some (.checkReleased device, success, c) → ¬ c.LetGoSince calls device →
    success = true ∧ c.hardware.isConnected device = true

theorem linked_move (m : Move) (given : h.id < b.nextHandle)
    (linked : ∀ d, b.links.device? h = some d → d = device) :
    ∀ d, (b.move m).links.device? h = some d → d = device := by
  intro d found
  rw [device?_move m given] at found
  split at found
  · cases found
  · exact linked d found

theorem Due.run (due : b.Due h device calls) (found : b.ready[i]? = some t)
    (finds : FindsConnected device calls b (.run i)) :
    (b.runAt i).LetGoSince calls device ∨ (b.runAt i).links.isOpen h = true ∨
      .listen h device ∈ (b.runAt i).jobs ∨ .checkReleased device ∈ (b.runAt i).jobs := by
  obtain ⟨_, _, grows⟩ := grows_runAt found
  rcases due.seenTo with asked | isOpen | listens | checks
  · exact Or.inl (asked.mono grows.log)
  · right; left
    have same : (b.runAt i).links.device? h = b.links.device? h := grows.device? h
    rwa [LinkTable.isOpen_eq, same, ← LinkTable.isOpen_eq]
  · rcases hears_or_left found listens with ⟨success, c, answer⟩ | left
    · obtain ⟨_, same, onward, ran⟩ := hears_run answer
      cases same
      rw [show b.runAt i = _ from ran]
      exact (run_listen (due.log.trans onward) success).symm.imp_right Or.inl
    · exact Or.inr (Or.inr (Or.inl left))
  · rcases hears_or_left found checks with ⟨success, c, answer⟩ | left
    · left
      obtain ⟨_, same, onward, ran⟩ := hears_run answer
      cases same
      rw [show b.runAt i = _ from ran]
      by_cases asked : c.LetGoSince calls device
      · exact asked.mono (log_run _ _ c)
      · obtain ⟨rfl, connected⟩ := finds success c answer asked
        exact run_checkReleased (due.log.trans onward) connected
    · exact Or.inr (Or.inr (Or.inr left))

theorem eq_release (gives : m.released? = some h) : m = .ask (.release h) := by
  cases m with
  | run | finish | dial | stimulate => cases gives
  | ask request => cases request <;> cases gives; rfl

/-- One move keeps what a device is due: by what the move runs, or by what it asks. -/
theorem Due.move (due : b.Due h device calls) (finds : FindsConnected device calls b m) :
    (b.move m).Due h device calls := by
  refine ⟨Nat.lt_of_lt_of_le due.given (nextHandle_move m b), linked_move m due.given due.linked,
    due.log.trans (calls_move m b), ?_⟩
  rcases ran_or_quiet m b with ⟨i, t, rfl, found⟩ | ⟨-, quiet⟩
  · exact due.run found finds
  · have kept {job : Job} (mem : job ∈ b.jobs) : job ∈ (b.move m).jobs := by
      rcases List.mem_append.1 mem with start | begun
      · exact List.mem_append_left _ (quiet.starts ▸ List.mem_append_left _ start)
      · exact List.mem_append_right _ (quiet.underWay.mem_iff.2 begun)
    rcases due.seenTo with asked | isOpen | listens | checks
    · exact Or.inl (asked.mono (calls_move m b))
    · rw [LinkTable.isOpen_eq] at isOpen ⊢
      rw [device?_move m due.given]
      split
      case isFalse => exact Or.inr (Or.inl isOpen)
      case isTrue gives =>
        obtain ⟨d, found⟩ := Option.isSome_iff_exists.1 isOpen
        obtain rfl := due.linked d found
        obtain rfl := eq_release gives
        have left : b.spawned (.ask (.release h)) = [.checkReleased d] := by simp [spawned, jobFor?, found]
        exact Or.inr (Or.inr (Or.inr (List.mem_append_left _ (by simp [quiet.starts, left]))))
    · exact Or.inr (Or.inr (Or.inl (kept listens)))
    · exact Or.inr (Or.inr (Or.inr (kept checks)))

theorem Due.play {moves : List Move} (due : b.Due h device calls)
    (finds : ∀ before n after, moves = before ++ n :: after →
      FindsConnected device calls (b.play before) n) :
    (b.play moves).Due h device calls := by
  induction moves generalizing b with
  | nil => exact due
  | cons m moves ih =>
    exact ih (due.move (finds [] m moves rfl)) fun before n after split =>
      finds (m :: before) n after (by rw [split, List.cons_append])

/-- A handle given out stays closed once it was released. -/
theorem closed_of_release {moves : List Move} (given : h.id < b.nextHandle)
    (released : .ask (.release h) ∈ moves) : (b.play moves).links.isOpen h = false := by
  have stays {moves : List Move} {b : Backend} (given : h.id < b.nextHandle)
      (closed : b.links.device? h = none) :
      (b.play moves).links.device? h = none := by
    induction moves generalizing b with
    | nil => exact closed
    | cons m moves ih =>
      refine ih (Nat.lt_of_lt_of_le given (nextHandle_move m b)) ?_
      rw [device?_move m given, closed, ite_self]
  rw [LinkTable.isOpen_eq]
  induction moves generalizing b with
  | nil => cases released
  | cons m moves ih =>
    have later := Nat.lt_of_lt_of_le given (nextHandle_move m b)
    rcases List.mem_cons.1 released with rfl | rest
    · rw [play_cons, stays later ((device?_move _ given).trans (if_pos rfl))]
      rfl
    · exact ih later rest

/-- A task sends news of a connection only while its handle is open. -/
theorem sends_connected (m : Move) (h : Handle) (b : Backend) : ∃ sent,
    (b.move m).events = b.events ++ sent ∧ (.connected h ∈ sent → b.links.isOpen h = true) := by
  rcases ran_or_quiet m b with ⟨i, t, rfl, found⟩ | ⟨-, quiet⟩
  · obtain ⟨_, _, grows⟩ := grows_runAt found
    obtain ⟨sent, events, live, -⟩ := grows.sends
    exact ⟨sent, events, live h⟩
  · exact ⟨[], by simp [quiet.events], by simp⟩

/-- Every open link has one of the handles given out so far. -/
def Numbered (b : Backend) : Prop := ∀ h, b.links.isOpen h = true → h.id < b.nextHandle

theorem Numbered.dial (numbered : b.Numbered) (dialed : b.dial device = (.ok h, c)) :
    h.id < c.nextHandle ∧ c.links.device? h = some device := by
  unfold Backend.dial at dialed
  split at dialed <;> cases dialed
  have unused : b.links.device? ⟨b.nextHandle⟩ = none := by
    cases found : b.links.device? ⟨b.nextHandle⟩ with
    | none => rfl
    | some d =>
      have isOpen : b.links.isOpen ⟨b.nextHandle⟩ = true := by simp [LinkTable.isOpen_eq, found]
      exact absurd (numbered ⟨b.nextHandle⟩ isOpen) (Nat.lt_irrefl _)
  have own : LinkTable.device? [{ handle := ⟨b.nextHandle⟩, device }] ⟨b.nextHandle⟩ = some device := by
    simp [LinkTable.device?, LinkTable.get?]
  exact ⟨Nat.lt_succ_self _, by simp [spawn, LinkTable.device?_append, unused, own]⟩

theorem linked_play {moves : List Move} (given : h.id < b.nextHandle)
    (linked : ∀ d, b.links.device? h = some d → d = device) :
    h.id < (b.play moves).nextHandle ∧ ∀ d, (b.play moves).links.device? h = some d → d = device := by
  induction moves generalizing b with
  | nil => exact ⟨given, linked⟩
  | cons m moves ih => exact ih (Nat.lt_of_lt_of_le given (nextHandle_move m b)) (linked_move m given linked)

/-- However the release of a handle and the tasks of the radio take turns: a device whose connection came up
is asked to let go after that, once nobody has anything left to do for it, provided that from then on it
answers that it is connected until it is asked. The connection is announced only while its handle is
open. -/
theorem release_lets_go {b b' : Backend} {device : Address} {h : Handle} (numbered : b.Numbered)
    (dialed : b.dial device = (.ok h, b')) :
    (∀ earlier m r later, (b'.play earlier).hears m = some (.connect h device, true, r) →
      .ask (.release h) ∈ earlier ++ later →
      (∀ before n after, later = before ++ n :: after →
        FindsConnected device r.hardware.calls (b'.play (earlier ++ m :: before)) n) →
      (∀ job ∈ (b'.play (earlier ++ m :: later)).jobs, job.device? ≠ some device) →
      (b'.play (earlier ++ m :: later)).LetGoSince r.hardware.calls device) ∧
    ∀ moves m, ∃ sent, (b'.play (moves ++ [m])).events = (b'.play moves).events ++ sent ∧
      (.connected h ∈ sent → (b'.play moves).links.isOpen h = true) := by
  obtain ⟨given, own⟩ := numbered.dial dialed
  constructor
  case left =>
    intro earlier m r later connected released finds finished
    obtain ⟨given', linked⟩ : h.id < (b'.play earlier).nextHandle ∧
        ∀ d, (b'.play earlier).links.device? h = some d → d = device :=
      linked_play given fun d found => Option.some.inj (found.symm.trans own)
    obtain ⟨i, rfl, -, ran⟩ := hears_run connected
    have due : ((b'.play earlier).move (.run i)).Due h device r.hardware.calls := by
      refine ⟨Nat.lt_of_lt_of_le given' (nextHandle_move _ _), linked_move _ given' linked, ?_, ?_⟩ <;> rw [ran]
      · exact log_run _ _ r
      · exact (run_connect List.prefix_rfl).symm.imp_right Or.inl
    have ends (moves : List Move) : b'.play (earlier ++ .run i :: moves) =
        ((b'.play earlier).move (.run i)).play moves := by
      rw [play_append, play_cons]
    have last := due.play fun before n after split => ends before ▸ finds before n after split
    rw [← ends] at last
    have closed : (b'.play (earlier ++ .run i :: later)).links.isOpen h = false := by
      refine closed_of_release given ?_
      rcases List.mem_append.1 released with sooner | later
      · exact List.mem_append_left _ sooner
      · exact List.mem_append_right _ (List.mem_cons_of_mem _ later)
    rcases last.seenTo with asked | isOpen | listens | checks
    · exact asked
    · rw [closed] at isOpen
      cases isOpen
    · exact absurd rfl (finished _ listens)
    · exact absurd rfl (finished _ checks)
  case right =>
    intro moves m
    rw [play_append]
    exact sends_connected m h _

/-- The handle is released while the values of its connection are not yet listened to. -/
theorem release_before_listening_lets_go :
    let b : Backend :=
      { hardware := { devices := [(⟨"p"⟩, { script := [(.notifications, .hold)] })] }, known := [⟨"p"⟩] }
    ((b.dial ⟨"p"⟩).2.play [.run 0, .ask (.release ⟨1⟩), .run 0, .finish 0 none, .run 0]).LetGoSince
      [.device ⟨"p"⟩ .connect] ⟨"p"⟩ := by
  intro b
  have numbered : b.Numbered := fun h isOpen => by cases isOpen
  have answers (c : Backend) (m : Move) (calls : List HardwareCall)
      (all : (c.hears m).all (fun a => a.1 ≠ .checkReleased ⟨"p"⟩ ||
        a.2.1 && a.2.2.hardware.isConnected ⟨"p"⟩) = true) : FindsConnected ⟨"p"⟩ calls c m := by
    intro success d answer _
    simpa [answer] using all
  have finished : ((b.dial ⟨"p"⟩).2.play
      [.run 0, .ask (.release ⟨1⟩), .run 0, .finish 0 none, .run 0]).jobs = [] := by cbv
  have dialed : b.dial ⟨"p"⟩ = (.ok ⟨1⟩, (b.dial ⟨"p"⟩).2) := rfl
  refine (release_lets_go numbered dialed).1 [] (.run 0) _
    [.ask (.release ⟨1⟩), .run 0, .finish 0 none, .run 0] rfl (by simp) ?_ fun job mem => ?_
  · intro before n after split
    apply answers
    rcases before with _ | ⟨_, _ | ⟨_, _ | ⟨_, _ | ⟨_, _⟩⟩⟩⟩ <;> simp at split
    · obtain ⟨rfl, -⟩ := split
      rfl
    · obtain ⟨rfl, rfl, -⟩ := split
      cbv
    · obtain ⟨rfl, rfl, rfl, -⟩ := split
      rfl
    · obtain ⟨rfl, rfl, rfl, rfl, -⟩ := split
      cbv
  · rw [List.nil_append, finished] at mem
    cases mem

end

end Backend

end RadioCentral
