import Mathlib
import RadioCentral.Proofs.Backend.Schedule

/-!
The order in which requests reach the hardware. Each accepted request is carried out by a task of its own,
and nothing makes one task wait for another: a task that overtakes another reorders their calls. What
holds under every schedule is that calls are made by the jobs of accepted requests, once each, and before
they are reported. Where tasks begin in the order they were left behind, calls are made in the order
of the requests; even then a call may take effect while an earlier one is still open.
-/
namespace RadioCentral

/-- The calls that switch scanning on or off. -/
def HardwareCall.isScan : HardwareCall → Bool
  | .startScan _ | .stopScan => true
  | .device .. => false

def Job.scanCall? : Job → Option HardwareCall
  | .startScan filter => some (.startScan filter)
  | .stopScan => some .stopScan
  | .connect .. | .listen .. | .closeOrphan _ | .discover .. | .writeDescriptor .. | .write .. | .disconnect ..
  | .checkReleased _ | .closeReleased _ => none

def Job.operation? : Job → Option Request
  | .writeDescriptor h _ d value => some (.writeDescriptor h d value)
  | .write h _ target value mode => some (.write h target.uuid value mode)
  | .disconnect h _ => some (.disconnect h)
  | .startScan _ | .stopScan | .connect .. | .listen .. | .closeOrphan _ | .discover .. | .checkReleased _
  | .closeReleased _ => none

namespace Request

def scanCall? : Request → Option HardwareCall
  | .startScan mode service => some (.startScan (Backend.scanFilter service mode))
  | .stopScan => some .stopScan
  | .discover _ | .setNotify .. | .writeDescriptor .. | .requestUnitSize .. | .write .. | .disconnect _
  | .release _ | .invalidateCache _ => none

def operation? : Request → Option Request
  | .writeDescriptor h d value => some (.writeDescriptor h d value)
  | .write h c value mode => some (.write h c value mode)
  | .disconnect h => some (.disconnect h)
  | .startScan .. | .stopScan | .discover _ | .setNotify .. | .requestUnitSize .. | .release _
  | .invalidateCache _ => none

def writing? : Request → Option Writing
  | .write h c value _ => some (.value h c value)
  | .writeDescriptor h d value => some (.descriptor h d.characteristic value)
  | .startScan .. | .stopScan | .discover _ | .setNotify .. | .requestUnitSize .. | .disconnect _ | .release _
  | .invalidateCache _ => none

end Request

namespace Backend

def begins (b : Backend) (m : Move) : Option (Job × Option HardwareCall) :=
  ((b.runs m).bind Task.starting?).map fun job => (job, b.firstCall? job)

def grants (b : Backend) : Move → Option Request
  | .ask request => if (b.ask request).1 then some request else none
  | .run _ | .finish .. | .dial _ | .stimulate _ => none

def begun : Backend → List Move → List (Job × Option HardwareCall)
  | _, [] => []
  | b, m :: moves => (b.begins m).toList ++ begun (b.move m) moves

def granted : Backend → List Move → List Request
  | _, [] => []
  | b, m :: moves => (b.grants m).toList ++ granted (b.move m) moves

/-- If a move begins a job, no other has waited longer to begin. -/
def FirstCome (b : Backend) (m : Move) : Prop :=
  ∀ i job, m = .run i → b.ready[i]? = some (.start job) → (b.ready.take i).filterMap Task.starting? = []

/-- Jobs begin in the order in which they were left behind. -/
def InTurn : Backend → List Move → Prop
  | _, [] => True
  | b, m :: moves => b.FirstCome m ∧ InTurn (b.move m) moves

/-- Scanning is switched on and off, and the operations of each link begin, in the order of the accepted
requests. -/
structure InOrder (b : Backend) (moves : List Move) : Prop where
  scans : (b.play moves).hardware.calls.filter HardwareCall.isScan =
    b.hardware.calls.filter HardwareCall.isScan ++ (b.granted moves).filterMap Request.scanCall?
  operations : ∀ h, ((b.begun moves).filterMap fun e => e.1.operation?).filter (·.handle? = some h) =
    ((b.granted moves).filterMap Request.operation?).filter (·.handle? = some h)

structure Reads {α : Type} (f : Job → Option α) (g : Request → Option α) : Prop where
  left : ∀ (b : Backend) (r : Request), (b.jobFor? r).bind f = if (b.ask r).1 then g r else none
  connect : ∀ h device, f (.connect h device) = none

section

variable {b c : Backend} {i : Nat} {t : Task} {m : Move} {α : Type} {f : Job → Option α}
  {g : Request → Option α}

theorem ask_onLink (h : Handle) (job : Address → Job) (b : Backend) :
    (b.onLink h job).1 = ((b.links.device? h).map job).isSome := by
  unfold onLink
  split <;> rename_i linked <;> rw [linked] <;> rfl

theorem ask_write (h : Handle) (c : Uuid) (value : Bytes) (mode : WriteMode) (b : Backend) :
    (b.write h c value mode).1 = (b.jobFor? (.write h c value mode)).isSome := by
  simp only [write, jobFor?]
  split <;> rename_i linked <;> rw [linked]
  · rfl
  · split <;> rename_i found <;> simp [found]

theorem reads_scanCall : Reads Job.scanCall? Request.scanCall? := by
  refine ⟨fun b r => ?_, fun _ _ => rfl⟩
  cases r with
  | startScan | stopScan => rfl
  | discover | writeDescriptor | disconnect | release =>
    simp [jobFor?, Request.scanCall?, Option.bind_map, Function.comp_def, Job.scanCall?]
  | write =>
    simp [jobFor?, Request.scanCall?, Option.bind_assoc, Option.bind_map, Function.comp_def,
      Job.scanCall?]
  | setNotify | requestUnitSize | invalidateCache => simp [jobFor?, Request.scanCall?]

theorem reads_operation : Reads Job.operation? Request.operation? := by
  refine ⟨fun b r => ?_, fun _ _ => rfl⟩
  cases r with
  | startScan | stopScan => rfl
  | setNotify | requestUnitSize | invalidateCache => simp [jobFor?, Request.operation?]
  | discover h | release h =>
    simp [jobFor?, Request.operation?, Option.bind_map, Function.comp_def, Job.operation?]
  | writeDescriptor h d value =>
    simp only [ask, ask_onLink]
    cases linked : b.links.device? h <;> simp [jobFor?, linked, Job.operation?, Request.operation?]
  | disconnect h =>
    simp only [ask, ask_onLink]
    cases linked : b.links.device? h <;> simp [jobFor?, linked, Job.operation?, Request.operation?]
  | write h c value mode =>
    simp only [ask, ask_write]
    cases linked : b.links.device? h with
    | none => simp [jobFor?, linked]
    | some device =>
      cases found : b.hardware.attribute? device c with
      | none => simp [jobFor?, linked, found]
      | some target =>
        have same : target.uuid = c := by simpa using List.find?_some found
        simp [jobFor?, linked, found, Job.operation?, Request.operation?, same]

theorem reads_writing : Reads Job.writing? Request.writing? := by
  refine ⟨fun b r => ?_, fun _ _ => rfl⟩
  have split : Job.writing? = fun job : Job => job.operation?.bind Request.writing? := by
    funext job
    cases job <;> rfl
  have whole : r.writing? = r.operation?.bind Request.writing? := by cases r <;> rfl
  rw [split, ← Option.bind_assoc, reads_operation.left, whole]
  split <;> rfl

/-- Of what a move leaves behind, as much can be read off as off the request it makes. -/
theorem Reads.spawned (reads : Reads f g) (m : Move) (b : Backend) :
    (b.spawned m).filterMap f = (b.grants m).toList.filterMap g := by
  cases m with
  | run | finish | stimulate => rfl
  | dial device =>
    simp only [Backend.spawned, grants]
    split <;> simp [reads.connect]
  | ask request =>
    have left : (b.jobFor? request).toList.filterMap f = ((b.jobFor? request).bind f).toList := by
      cases b.jobFor? request <;> simp [filterMap_cons_toList]
    have asked : (b.grants (.ask request)).toList.filterMap g = ((b.grants (.ask request)).bind g).toList := by
      cases b.grants (.ask request) <;> simp [filterMap_cons_toList]
    rw [asked, Backend.spawned, left, reads.left, grants]
    split <;> rfl

/-- The jobs waiting to begin are a queue: what is left behind joins it, what begins leaves it. -/
theorem starts_move (m : Move) (b : Backend) :
    (b.starts ++ b.spawned m).Perm ((b.begins m).toList.map Prod.fst ++ (b.move m).starts) := by
  rcases ran_or_quiet m b with ⟨i, t, rfl, found⟩ | ⟨idle, quiet⟩
  · obtain ⟨_, _, grows⟩ := grows_runAt found
    have after : (b.move (.run i)).starts = (b.without i).starts := grows.starts
    have job : (b.begins (.run i)).toList.map Prod.fst = t.starting?.toList := by
      cases starting : t.starting? <;> simp [begins, runs, found, starting]
    rw [after, job, starts_eq found, starts_without]
    simp only [Backend.spawned, List.append_nil]
    exact List.perm_append_comm_assoc _ _ _
  · simp [begins, idle, quiet.starts]

/-- In turn, the one that begins is the first. -/
theorem starts_move_inTurn (first : b.FirstCome m) :
    b.starts ++ b.spawned m = (b.begins m).toList.map Prod.fst ++ (b.move m).starts := by
  rcases ran_or_quiet m b with ⟨i, t, rfl, found⟩ | ⟨idle, quiet⟩
  · obtain ⟨_, _, grows⟩ := grows_runAt found
    have after : (b.move (.run i)).starts = (b.without i).starts := grows.starts
    rw [after, starts_eq found, starts_without]
    simp only [Backend.spawned, List.append_nil]
    cases t with
    | start job =>
      rw [first i job rfl found]
      simp [begins, runs, found, Task.starting?]
    | resume | deliver | read | attend => simp [begins, runs, found, Task.starting?]
  · simp [begins, idle, quiet.starts]

/-- Under every schedule, the jobs of the accepted requests have begun or wait to begin. -/
theorem starts_play (reads : Reads f g) (moves : List Move) (b : Backend) :
    (b.starts.filterMap f ++ (b.granted moves).filterMap g).Perm
      ((b.begun moves).filterMap (fun e => f e.1) ++ (b.play moves).starts.filterMap f) := by
  induction moves generalizing b with
  | nil => simp [granted, begun]
  | cons m moves ih =>
    have now := (starts_move m b).filterMap f
    simp only [List.filterMap_append, reads.spawned, List.filterMap_map, Function.comp_def] at now
    simp only [granted, begun, List.filterMap_append, play_cons]
    have joined := now.append_right (((b.move m).granted moves).filterMap g)
    have onward := (ih (b.move m)).append_left ((b.begins m).toList.filterMap fun e => f e.1)
    rw [List.append_assoc, List.append_assoc] at joined
    rw [List.append_assoc]
    exact joined.trans onward

/-- In turn, they have begun in the order of the requests. -/
theorem starts_play_inTurn (reads : Reads f g) {moves : List Move} (inTurn : b.InTurn moves) :
    b.starts.filterMap f ++ (b.granted moves).filterMap g =
      (b.begun moves).filterMap (fun e => f e.1) ++ (b.play moves).starts.filterMap f := by
  induction moves generalizing b with
  | nil => simp [granted, begun]
  | cons m moves ih =>
    obtain ⟨first, rest⟩ := inTurn
    have now := congrArg (List.filterMap f) (starts_move_inTurn first)
    simp only [List.filterMap_append, reads.spawned, List.filterMap_map, Function.comp_def] at now
    simp only [granted, begun, List.filterMap_append, play_cons]
    rw [← List.append_assoc, now, List.append_assoc, ih rest, List.append_assoc]

theorem isScan_firstCall (job : Job) (b : Backend) :
    (b.firstCall? job).filter HardwareCall.isScan = job.scanCall? := by
  cases job with
  | writeDescriptor h device d value =>
    cases found : b.hardware.attribute? device d.characteristic with
    | none => simp [firstCall?, Job.next, Job.descriptorCall, found, Job.scanCall?]
    | some target =>
      by_cases config : d.uuid = Uuid.clientConfiguration
      · simp [firstCall?, Job.next, Job.descriptorCall, found, config, HardwareCall.isScan, Job.scanCall?]
      · cases raw : target.characteristic.descriptors.find? fun e => e.uuid = d.uuid <;>
          simp [firstCall?, Job.next, Job.descriptorCall, found, config, raw, HardwareCall.isScan, Job.scanCall?]
  | startScan | stopScan | connect | listen | closeOrphan | discover | write | disconnect | checkReleased
  | closeReleased => rfl

theorem not_isScan_of_isFollowUp {call : HardwareCall} (followUp : call.isFollowUp = true) :
    call.isScan = false := by
  cases call with
  | startScan | stopScan => cases followUp
  | device => rfl

/-- A move makes the call of the job it begins, and then only what follows from earlier answers. -/
theorem calls_eq_move (m : Move) (b : Backend) : ∃ more, (∀ call ∈ more, call.isFollowUp = true) ∧
    (b.move m).hardware.calls = b.hardware.calls ++ ((b.begins m).bind Prod.snd).toList ++ more := by
  rcases ran_or_quiet m b with ⟨i, t, rfl, found⟩ | ⟨idle, quiet⟩
  · obtain ⟨more, followUps, grows⟩ := grows_runAt found
    have own : (b.begins (.run i)).bind Prod.snd = t.starting?.bind (firstCall? · b) := by
      cases starting : t.starting? <;> simp [begins, runs, found, starting]
    refine ⟨more, followUps, ?_⟩
    rw [own, List.append_assoc]
    exact grows.calls
  · exact ⟨[], by simp, by simp [begins, idle, quiet.calls]⟩

theorem scans_begins (m : Move) (b : Backend) : ((b.begins m).bind Prod.snd).toList.filter HardwareCall.isScan =
    (b.begins m).toList.filterMap fun e => e.1.scanCall? := by
  cases task : (b.runs m).bind Task.starting? with
  | none => simp [begins, task]
  | some job => simp [begins, task, ← Option.toList_filter, isScan_firstCall, filterMap_cons_toList]

/-- The calls of the jobs begun stand in the record of calls in this order, and among them are all calls
that switch scanning. -/
theorem calls_play (moves : List Move) (b : Backend) : ∃ more,
    (b.play moves).hardware.calls = b.hardware.calls ++ more ∧
    ((b.begun moves).filterMap Prod.snd).Sublist more ∧
    more.filter HardwareCall.isScan = (b.begun moves).filterMap fun e => e.1.scanCall? := by
  induction moves generalizing b with
  | nil => exact ⟨[], by simp, by simp [begun], by simp [begun]⟩
  | cons m moves ih =>
    obtain ⟨more, followUps, now⟩ := calls_eq_move m b
    obtain ⟨rest, later, within, scans⟩ := ih (b.move m)
    refine ⟨((b.begins m).bind Prod.snd).toList ++ more ++ rest, ?_, ?_, ?_⟩
    · rw [play_cons, later, now]
      simp only [List.append_assoc]
    · have own : (b.begins m).toList.filterMap Prod.snd = ((b.begins m).bind Prod.snd).toList := by
        cases b.begins m <;> simp [filterMap_cons_toList]
      rw [begun, List.filterMap_append, own]
      exact (List.sublist_append_left _ _).append within
    · have none : more.filter HardwareCall.isScan = [] :=
        List.filter_eq_nil_iff.2 fun call mem => by simp [not_isScan_of_isFollowUp (followUps call mem)]
      rw [begun, List.filter_append, List.filter_append, scans_begins, none, scans, List.filterMap_append,
        List.append_nil]

theorem reports_move (m : Move) (b : Backend) : ∃ sent, (b.move m).events = b.events ++ sent ∧
    ∀ w, (sent.filterMap RadioEvent.writing?).count w + (b.move m).unreported.count w ≤
      b.unreported.count w + ((b.begins m).toList.filterMap fun e => e.1.writing?).count w := by
  rcases ran_or_quiet m b with ⟨i, t, rfl, found⟩ | ⟨idle, quiet⟩
  · obtain ⟨_, _, grows⟩ := grows_runAt found
    obtain ⟨sent, events, -, counts⟩ := grows.sends
    have taken := ((underWay_without found).filterMap Job.writing?)
    have own : (b.begins (.run i)).toList.filterMap (fun e => e.1.writing?) =
        t.starting?.toList.filterMap Job.writing? := by
      cases starting : t.starting? <;> simp [begins, runs, found, starting, filterMap_cons_toList]
    refine ⟨sent, events, fun w => ?_⟩
    have within := counts w
    have before := taken.count_eq w
    rw [own]
    simp only [List.filterMap_append, List.count_append] at within before
    show _ + (b.runAt i).unreported.count w ≤ _
    unfold unreported at within ⊢
    omega
  · refine ⟨[], by simp [quiet.events], fun w => ?_⟩
    have same := (quiet.underWay.filterMap Job.writing?).count_eq w
    simp [unreported, same]

/-- Under every schedule, a write is reported only after it has begun. -/
theorem reports_play (moves : List Move) (b : Backend) : ∃ sent, (b.play moves).events = b.events ++ sent ∧
    ∀ w, (sent.filterMap RadioEvent.writing?).count w + (b.play moves).unreported.count w ≤
      b.unreported.count w + ((b.begun moves).filterMap fun e => e.1.writing?).count w := by
  induction moves generalizing b with
  | nil => exact ⟨[], by simp, by simp [begun]⟩
  | cons m moves ih =>
    obtain ⟨rest, later, counts⟩ := ih (b.move m)
    obtain ⟨sent, now, first⟩ := reports_move m b
    refine ⟨sent ++ rest, by rw [play_cons, later, now, List.append_assoc], fun w => ?_⟩
    have here := first w
    have there := counts w
    simp only [begun, List.filterMap_append, List.count_append, play_cons]
    omega

/-- However the tasks take turns: the calls that jobs begin with are made in the order in which the jobs begin,
and a write is begun no more often than it was accepted and reported no more often than it was begun.
Where jobs begin in the order in which they were left behind, and all have begun, scanning was switched
and the operations of each link have begun in the order of the requests; the last call that switched
scanning is that of the last such request. -/
theorem calls_in_order {b : Backend} (idle : b.jobs = []) (moves : List Move) :
    (∃ sent more, (b.play moves).events = b.events ++ sent ∧
      (b.play moves).hardware.calls = b.hardware.calls ++ more ∧
      ((b.begun moves).filterMap Prod.snd).Sublist more ∧
      ∀ w, (sent.filterMap RadioEvent.writing?).count w ≤
          ((b.begun moves).filterMap fun e => e.1.writing?).count w ∧
        ((b.begun moves).filterMap fun e => e.1.writing?).count w ≤
          ((b.granted moves).filterMap Request.writing?).count w) ∧
    (b.InTurn moves → (b.play moves).starts = [] → b.InOrder moves ∧
      ∀ call, ((b.granted moves).filterMap Request.scanCall?).getLast? = some call →
        ((b.play moves).hardware.calls.filter HardwareCall.isScan).getLast? = some call) := by
  obtain ⟨starts, underWay⟩ := List.append_eq_nil_iff.1 idle
  constructor
  case left =>
    obtain ⟨sent, events, counts⟩ := reports_play moves b
    obtain ⟨more, calls, within, -⟩ := calls_play moves b
    refine ⟨sent, more, events, calls, within, fun w => ?_⟩
    have conserved := (starts_play reads_writing moves b).count_eq w
    have reported := counts w
    simp only [starts, unreported, underWay, List.filterMap_nil, List.nil_append, List.count_append,
      List.count_nil] at conserved reported
    constructor <;> omega
  case right =>
    intro inTurn begun
    obtain ⟨more, calls, -, scans⟩ := calls_play moves b
    have scanCalls := starts_play_inTurn reads_scanCall inTurn
    have operations := starts_play_inTurn reads_operation inTurn
    simp only [starts, begun, List.filterMap_nil, List.nil_append, List.append_nil] at scanCalls operations
    have inOrder : b.InOrder moves := by
      constructor
      case scans => rw [calls, List.filter_append, scans, scanCalls]
      case operations => exact fun h => by rw [operations]
    refine ⟨inOrder, fun call last => ?_⟩
    rw [inOrder.scans, List.getLast?_append, last]
    rfl

/-- A scan that is started and stopped in turn ends stopped. -/
theorem scan_in_turn_ends_stopped :
    let b : Backend := { hardware := {} }
    let moves : List Move := [.ask (.startScan .unfiltered Uuid.meshService), .ask .stopScan, .run 0, .run 0]
    b.InOrder moves ∧ ((b.play moves).hardware.calls.filter HardwareCall.isScan).getLast? = some .stopScan := by
  intro b moves
  have inTurn : b.InTurn moves := by
    refine ⟨?_, ?_, ?_, ?_, trivial⟩ <;> intro i job run found <;> cases run <;> rfl
  have begun : (b.play moves).starts = [] := by cbv
  obtain ⟨inOrder, last⟩ := (calls_in_order (b := b) rfl moves).2 inTurn begun
  exact ⟨inOrder, last _ (by cbv)⟩

/-- Requests that run into each other. A stop of the scan that overtakes its start leaves the adapter scanning,
and a write overtakes the one before it. Even in turn, a link goes down while switching notifications
off is still open. -/
theorem overtaken_out_of_order :
    let u : Uuid := Uuid.meshService
    let d : Descriptor := ⟨Uuid.clientConfiguration, u⟩
    let c : Characteristic := ⟨u, .write, [d]⟩
    let device : Device :=
      { connected := true, discovered := [⟨u, [c]⟩], script := [(.unsubscribe, .hold)] }
    let link : Link := { handle := ⟨1⟩, device := ⟨"p"⟩ }
    let b : Backend := { hardware := { devices := [(⟨"p"⟩, device)] }, links := [link], nextHandle := 2 }
    let scan : List Move := [.ask (.startScan .unfiltered u), .ask .stopScan, .run 1, .run 0]
    let writes : List Move :=
      [.ask (.write ⟨1⟩ u [1] .withResponse), .ask (.write ⟨1⟩ u [2] .withResponse), .run 1, .run 0]
    let closing : List Move :=
      [.ask (.writeDescriptor ⟨1⟩ d disableNotification), .ask (.disconnect ⟨1⟩), .run 0, .run 0]
    (b.jobs = [] ∧ (b.play scan).jobs = [] ∧ (b.play writes).jobs = []) ∧
      ¬ b.InOrder scan ∧ ¬ b.InOrder writes ∧
      (b.play writes).hardware.calls =
        [[2], [1]].map (fun value => .device ⟨"p"⟩ (.write ⟨u, c⟩ value .withResponse)) ∧
      (b.play closing).events = [.disconnected ⟨1⟩] ∧ (b.play closing).held.map (·.kind) = [.unsubscribe] := by
  intro u d c device link b scan writes closing
  refine ⟨⟨rfl, by cbv, by cbv⟩, fun inOrder => ?_, fun inOrder => ?_, by cbv, by cbv, by cbv⟩
  · have made : (b.play scan).hardware.calls.filter HardwareCall.isScan = [.stopScan, .startScan []] := by cbv
    have asked : (b.granted scan).filterMap Request.scanCall? = [.startScan [], .stopScan] := by cbv
    have same := inOrder.scans
    rw [made, asked] at same
    cases same
  · have made : (b.begun writes).filterMap (fun e => e.1.operation?) =
        [.write ⟨1⟩ u [2] .withResponse, .write ⟨1⟩ u [1] .withResponse] := by cbv
    have asked : (b.granted writes).filterMap Request.operation? =
        [.write ⟨1⟩ u [1] .withResponse, .write ⟨1⟩ u [2] .withResponse] := by cbv
    have same := inOrder.operations ⟨1⟩
    rw [made, asked] at same
    simp [Request.handle?] at same

end

end Backend

end RadioCentral
