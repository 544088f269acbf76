import RadioCentral.Backend

/-!
What a task can do before it waits, said once for all tasks: it adds calls, it neither opens nor closes
links, the jobs that were waiting go on waiting, and it reports a write only if that write was taken up.
-/
namespace RadioCentral

inductive Writing where
  | value (handle : Handle) (characteristic : Uuid) (value : Bytes)
  | descriptor (handle : Handle) (characteristic : Uuid) (value : Bytes)
  deriving DecidableEq

def Job.writing? : Job → Option Writing
  | .write h _ target value _ => some (.value h target.uuid value)
  | .writeDescriptor h _ d value => some (.descriptor h d.characteristic value)
  | .startScan _ | .stopScan | .connect .. | .listen .. | .closeOrphan _ | .discover .. | .disconnect ..
  | .checkReleased _ | .closeReleased _ => none

def RadioEvent.writing? : RadioEvent → Option Writing
  | .characteristicWritten h c value _ => some (.value h c value)
  | .descriptorWritten h c value _ => some (.descriptor h c value)
  | .advertisement .. | .connected _ | .disconnected _ | .servicesDiscovered .. | .unitSizeChanged ..
  | .characteristicChanged .. => none

def Waiter.job? : Waiter → Option Job
  | .job j => some j
  | .reader _ | .opener => none

def HardwareCall.isFollowUp : HardwareCall → Bool
  | .device _ .notifications | .device _ .disconnect => true
  | _ => false

def Task.starting? : Task → Option Job
  | .start job => some job
  | .resume .. | .deliver _ | .read | .attend => none

def Task.resuming? : Task → Option Job
  | .resume waiter _ => waiter.job?
  | .start _ | .deliver _ | .read | .attend => none

theorem filterMap_cons_toList {α β : Type} (f : α → Option β) (a : α) (l : List α) :
    (a :: l).filterMap f = (f a).toList ++ l.filterMap f := by
  cases found : f a <;> simp [found]

namespace LinkTable

theorem isOpen_eq (t : LinkTable) (h : Handle) : t.isOpen h = (t.device? h).isSome := by
  simp [isOpen, device?]

theorem device?_map {f : Link → Link} (handle : ∀ l, (f l).handle = l.handle)
    (device : ∀ l, (f l).device = l.device) (t : LinkTable) (h : Handle) :
    device? (t.map f) h = device? t h := by
  simp only [device?, get?, List.find?_map, Option.map_map, Function.comp_def, handle, device]

theorem device?_modify {f : Link → Link} (handle : ∀ l, (f l).handle = l.handle)
    (device : ∀ l, (f l).device = l.device) (t : LinkTable) (k h : Handle) :
    (t.modify k f).device? h = t.device? h :=
  device?_map (fun l => by split <;> simp [handle]) (fun l => by split <;> simp [device]) t h

theorem device?_setStream (t : LinkTable) (k : Handle) (stream : Option Notifications) (h : Handle) :
    LinkTable.device? (t.modify k fun l => { l with notifications := stream }) h = t.device? h :=
  device?_modify (fun _ => by rfl) (fun _ => by rfl) t k h

theorem device?_put (t : LinkTable) (device : Address) (value : Uuid × Bytes) (h : Handle) :
    (t.put device value).device? h = t.device? h :=
  device?_map (fun l => by split <;> rfl) (fun l => by split <;> rfl) t h

theorem device?_endStreams (t : LinkTable) (device : Address) (h : Handle) :
    (t.endStreams device).device? h = t.device? h :=
  device?_map (fun l => by split <;> rfl) (fun l => by split <;> rfl) t h

theorem device?_close (t : LinkTable) (k h : Handle) :
    (t.close k).device? h = if h = k then none else t.device? h := by
  induction t with
  | nil => simp [close, device?, get?]
  | cons l t ih =>
    simp only [close, device?, get?] at ih ⊢
    grind

theorem device?_append (t u : LinkTable) (h : Handle) :
    LinkTable.device? (t ++ u) h = (t.device? h).or (u.device? h) := by
  simp only [device?, get?, List.find?_append, Option.map_or]

end LinkTable

namespace Backend

def starts (b : Backend) : List Job := b.ready.filterMap Task.starting?

def underWay (b : Backend) : List Job :=
  b.ready.filterMap Task.resuming? ++ b.held.filterMap (·.waiter.job?)

def jobs (b : Backend) : List Job := b.starts ++ b.underWay

def unreported (b : Backend) : List Writing := b.underWay.filterMap Job.writing?

/-- What can come of a backend until a task waits that goes on with certain jobs, and the calls made on the
way. -/
structure Grows (made : List HardwareCall) (taken : List Job) (b c : Backend) : Prop where
  calls : c.hardware.calls = b.hardware.calls ++ made
  starts : c.starts = b.starts
  underWay : b.underWay ⊆ c.underWay
  device? : ∀ h, c.links.device? h = b.links.device? h
  nextHandle : c.nextHandle = b.nextHandle
  sends : ∃ sent, c.events = b.events ++ sent ∧
    (∀ h, .connected h ∈ sent → b.links.isOpen h = true) ∧
    ∀ w, (sent.filterMap RadioEvent.writing?).count w + c.unreported.count w ≤
      b.unreported.count w + (taken.filterMap Job.writing?).count w

namespace Grows

variable {made made' : List HardwareCall} {taken more : List Job} {b c d : Backend}

theorem refl (b : Backend) : Grows [] [] b b where
  calls := (List.append_nil _).symm
  starts := rfl
  underWay := List.Subset.refl _
  device? _ := rfl
  nextHandle := rfl
  sends := ⟨[], by simp⟩

theorem log (grows : Grows made taken b c) : b.hardware.calls <+: c.hardware.calls :=
  ⟨made, grows.calls.symm⟩

theorem trans (first : Grows made taken b c) (last : Grows made' more c d) :
    Grows (made ++ made') (taken ++ more) b d where
  calls := by rw [last.calls, first.calls, List.append_assoc]
  starts := last.starts.trans first.starts
  underWay := List.Subset.trans first.underWay last.underWay
  device? h := (last.device? h).trans (first.device? h)
  nextHandle := last.nextHandle.trans first.nextHandle
  sends := by
    obtain ⟨sent, events, live, counts⟩ := first.sends
    obtain ⟨sent', events', live', counts'⟩ := last.sends
    refine ⟨sent ++ sent', by rw [events', events, List.append_assoc], fun h mem => ?_, fun w => ?_⟩
    · rcases List.mem_append.1 mem with old | new
      · exact live h old
      · rw [← live' h new, LinkTable.isOpen_eq, LinkTable.isOpen_eq, first.device? h]
    · have now := counts w
      have later := counts' w
      simp only [List.filterMap_append, List.count_append]
      omega

theorem taking (grows : Grows made taken b c)
    (within : ∀ w, (taken.filterMap Job.writing?).count w ≤ (more.filterMap Job.writing?).count w) :
    Grows made more b c := by
  obtain ⟨sent, events, live, counts⟩ := grows.sends
  exact { grows with sends := ⟨sent, events, live, fun w =>
    Nat.le_trans (counts w) (Nat.add_le_add_left (within w) _)⟩ }

end Grows

section

variable {job rest : Job} {success : Bool} {b c : Backend} {taken : List Job}

theorem grows_wake {t : Task} (starting : t.starting? = none) (resuming : t.resuming? = none) (b : Backend) :
    Grows [] [] b (b.wake t) := by
  unfold wake
  split
  · exact .refl b
  · have starts : starts { b with ready := b.ready ++ [t] } = b.starts := by simp [Backend.starts, starting]
    have underWay : Backend.underWay { b with ready := b.ready ++ [t] } = b.underWay := by
      simp [Backend.underWay, resuming]
    exact { Grows.refl b with
      starts := starts
      underWay := by rw [underWay]; exact List.Subset.refl _
      sends := ⟨[], by simp [unreported, underWay]⟩ }

/-- A report is sent for a write that was taken up, and a connection is announced on an open link. -/
theorem grows_send {event : RadioEvent} (live : ∀ h, event = .connected h → b.links.isOpen h = true)
    (counts : ∀ w, event.writing?.toList.count w ≤ (taken.filterMap Job.writing?).count w) :
    Grows [] taken b (b.send event) := by
  have sent : Grows [] taken b { b with events := b.events ++ [event] } :=
    { Grows.refl b with
      sends := by
        refine ⟨[event], rfl, fun h mem => live h (List.mem_singleton.1 mem).symm, fun w => ?_⟩
        have within := counts w
        have same : unreported { b with events := b.events ++ [event] } = b.unreported := rfl
        rw [same, filterMap_cons_toList]
        simp only [List.filterMap_nil, List.append_nil]
        omega }
  unfold send
  split
  · simp only
    split
    · simpa using sent.trans (grows_wake rfl rfl _)
    · exact sent
  · exact (Grows.refl b).taking (by simp)

theorem grows_links {links : LinkTable} (device? : ∀ h, links.device? h = b.links.device? h) :
    Grows [] [] b { b with links } :=
  { Grows.refl b with device? }

theorem grows_hold (held : Held) (b : Backend) :
    Grows [] held.waiter.job?.toList b { b with held := b.held ++ [held] } := by
  have underWay : Backend.underWay { b with held := b.held ++ [held] } =
      b.underWay ++ held.waiter.job?.toList := by
    simp [Backend.underWay, filterMap_cons_toList]
  exact { Grows.refl b with
    underWay := underWay ▸ List.subset_append_left _ _
    sends := ⟨[], by simp [unreported, underWay]⟩ }

theorem grows_openStream (h : Handle) (device : Address) (b : Backend) :
    Grows [] [] b (b.openStream h device) := by
  unfold openStream
  split
  · exact (grows_links (LinkTable.device?_setStream b.links h _)).trans (grows_wake rfl rfl _)
  · exact .refl b

theorem grows_announce (h : Handle) (device : Address) (b : Backend) :
    Grows [] taken b (b.announce h device).2 := by
  unfold announce
  split
  case isTrue isOpen =>
    refine grows_send (fun k same => ?_) fun w => by simp [RadioEvent.writing?]
    cases same
    exact isOpen
  case isFalse => exact (Grows.refl b).taking (by simp)

/-- The answer to a call either hands on to a job that writes nothing, or ends with the report. -/
theorem grows_answer (job : Job) (success : Bool) (b : Backend) :
    Grows [] [job] b (b.answer job success).2 := by
  have idle : Grows [] [job] b b := (Grows.refl b).taking (by simp)
  cases job with
  | connect h device =>
    cases success with
    | true => exact idle
    | false => exact grows_send (by simp) (by simp [RadioEvent.writing?])
  | listen h device =>
    cases success with
    | true => exact (grows_openStream h device b).trans (grows_announce h device _)
    | false => exact grows_announce h device b
  | write | writeDescriptor => exact grows_send (by simp) (by simp [RadioEvent.writing?, Job.writing?])
  | discover | disconnect => exact grows_send (by simp) (by simp [RadioEvent.writing?])
  | checkReleased | startScan | stopScan | closeOrphan | closeReleased => exact idle

def firstCall? (job : Job) (b : Backend) : Option HardwareCall :=
  match job.next b.hardware with
  | .call call => some call
  | .settled _ => none

/-- What an answer leads to writes nothing and asks for no scan. -/
theorem rest_of_answer (left : (b.answer job success).1 = some rest) :
    rest.writing? = none ∧ ∀ c, ∀ call ∈ firstCall? rest c, call.isFollowUp = true := by
  have listens (h : Handle) (device : Address) : (Job.listen h device).writing? = none ∧
      ∀ c, ∀ call ∈ firstCall? (.listen h device) c, call.isFollowUp = true :=
    ⟨rfl, by simp [firstCall?, Job.next, HardwareCall.isFollowUp]⟩
  have lets (device : Address) : (Job.closeOrphan device).writing? = none ∧
      ∀ c, ∀ call ∈ firstCall? (.closeOrphan device) c, call.isFollowUp = true :=
    ⟨rfl, by simp [firstCall?, Job.next, HardwareCall.isFollowUp]⟩
  cases job <;> simp only [answer, announce] at left
  case connect =>
    split at left
    · cases left
      split
      · exact listens _ _
      · exact lets _
    · cases left
  case listen => split at left <;> split at left <;> cases left <;> exact lets _
  case checkReleased =>
    split at left <;> cases left
    exact ⟨rfl, by simp [firstCall?, Job.next, HardwareCall.isFollowUp]⟩
  all_goals cases left

theorem calls_takeEffect (call : HardwareCall) (hw : Hardware) : (hw.takeEffect call).calls = hw.calls := by
  simp only [Hardware.takeEffect, Hardware.modifyDevice]
  (repeat' split) <;> rfl

/-- A call that is answered at once leaves nothing open. -/
theorem grows_issue_some (answered : b.issue job = (some success, c)) :
    Grows (b.firstCall? job).toList [] b c := by
  unfold issue at answered
  cases next : job.next b.hardware with
  | settled success =>
    rw [next] at answered
    cases answered
    simpa [firstCall?, next] using Grows.refl b
  | call call =>
    have noted : b.firstCall? job = some call := by simp [firstCall?, next]
    simp only [next, make] at answered
    split at answered <;> cases answered
    · exact { Grows.refl b with calls := by rw [noted, calls_takeEffect]; rfl }
    · exact { Grows.refl b with calls := by rw [noted]; rfl }

/-- A job that waits is left at its call. -/
theorem grows_issue_none (waits : b.issue job = (none, c)) :
    Grows (b.firstCall? job).toList [job] b c ∧ job ∈ c.underWay := by
  unfold issue at waits
  cases next : job.next b.hardware with
  | settled success =>
    rw [next] at waits
    cases waits
  | call call =>
    have noted : b.firstCall? job = some call := by simp [firstCall?, next]
    simp only [next, make] at waits
    split at waits <;> cases waits
    constructor
    · exact { grows_hold ⟨call.place, call.kind, .job job⟩ b with calls := by rw [noted]; rfl }
    · simp [underWay, Waiter.job?]

theorem run_none (job : Job) (b : Backend) : b.run job none =
    match b.issue job with
    | (some success, c) => c.run job (some success)
    | (none, c) => c :=
  run.eq_def job none b

theorem run_some (job : Job) (success : Bool) (b : Backend) : b.run job (some success) =
    match b.answer job success with
    | (some rest, c) => c.run rest none
    | (none, c) => c := by
  rw [run]
  split <;> simp_all

def opening? (job : Job) (success : Option Bool) (b : Backend) : Option HardwareCall :=
  if success.isNone then b.firstCall? job else none

/-- By the recursion of a run: a call, its answer, and what the answer leads to. -/
theorem grows_run (job : Job) (success : Option Bool) (b : Backend) :
    ∃ more, (∀ call ∈ more, call.isFollowUp = true) ∧
      Grows ((b.opening? job success).toList ++ more) [job] b (b.run job success) := by
  induction job, success, b using run.induct with
  | case1 b job success c answered ih =>
    obtain ⟨more, followUps, grows⟩ := ih
    rw [run_none, answered]
    exact ⟨more, followUps, by simpa [opening?] using (grows_issue_some answered).trans grows⟩
  | case2 b job c waits =>
    rw [run_none, waits]
    exact ⟨[], by simp, by simpa [opening?] using (grows_issue_none waits).1⟩
  | case3 job b success rest c answered ih =>
    obtain ⟨more, followUps, grows⟩ := ih
    have first := grows_answer job success b
    obtain ⟨quiet, follows⟩ := rest_of_answer (congrArg Prod.fst answered)
    rw [answered] at first
    rw [run_some, answered]
    refine ⟨(c.firstCall? rest).toList ++ more, fun call mem => ?_, ?_⟩
    · rcases List.mem_append.1 mem with own | later
      · exact follows c call (by simpa using own)
      · exact followUps call later
    · exact (first.trans grows).taking (by simp [List.filterMap_cons, quiet])
  | case4 job b success c answered =>
    have first := grows_answer job success b
    rw [answered] at first
    rw [run_some, answered]
    exact ⟨[], by simp, first⟩

/-- What is known of devices and how far adapter events are read does not matter here. -/
theorem grows_reading (b : Backend) (known : List Address) (reader : Reader) (inbox : List AdapterEvent) :
    Grows [] [] b { b with known, reader, inbox } :=
  { Grows.refl b with }

theorem grows_reportSighting (device : Address) (b : Backend) : Grows [] [] b (b.reportSighting device) := by
  unfold reportSighting
  split
  case h_1 sighting _ =>
    have quiet : (RadioEvent.advertisement device sighting.payload).writing? = none := rfl
    exact (grows_reading b _ b.reader b.inbox).trans (grows_send (by simp) (by simp [quiet]))
  case h_2 => exact .refl b

theorem grows_sendAll (events : List RadioEvent)
    (quiet : ∀ e ∈ events, e.writing? = none ∧ ∀ h, e ≠ .connected h) (b : Backend) :
    Grows [] [] b (events.foldl (fun b e => b.send e) b) := by
  induction events generalizing b with
  | nil => exact .refl b
  | cons e events ih =>
    obtain ⟨silent, other⟩ := quiet e List.mem_cons_self
    have first : Grows [] [] b (b.send e) := grows_send (fun h same => absurd same (other h)) (by simp [silent])
    exact first.trans (ih (fun e mem => quiet e (List.mem_cons_of_mem _ mem)) _)

theorem grows_handle (event : AdapterEvent) (b : Backend) : Grows [] [] b (b.handle event).2 := by
  cases event with
  | connected device => exact .refl b
  | disconnected device =>
    have all := grows_sendAll ((b.links.handlesTo device).map .disconnected)
      (List.forall_mem_map.2 fun _ _ => ⟨rfl, by simp⟩) b
    rwa [List.foldl_map] at all
  | seen device =>
    simp only [handle]
    split
    · exact .refl b
    · split
      · exact grows_reportSighting device b
      · exact .refl b
      · have held := grows_hold ⟨device, .properties, .reader device⟩ b
        exact held.trans (grows_reading _ b.known .waiting b.inbox)

theorem grows_readAll (events : List AdapterEvent) (b : Backend) : Grows [] [] b (b.readAll events) := by
  induction events generalizing b with
  | nil => exact grows_reading b b.known b.reader []
  | cons event events ih =>
    have first := grows_handle event b
    simp only [readAll]
    split <;> rename_i c handled <;> rw [handled] at first
    · exact first.trans (ih c)
    · exact first.trans (grows_reading c c.known c.reader events)

theorem grows_read (b : Backend) : Grows [] [] b b.read := by
  unfold read
  split
  · exact grows_readAll _ b
  · exact .refl b

theorem grows_deliver (h : Handle) (b : Backend) : Grows [] [] b (b.deliver h) := by
  unfold deliver
  split
  · exact .refl b
  · split
    · exact .refl b
    case h_2 link _ _ stream _ =>
      simp only
      generalize List.filter _ stream.values = wanted
      generalize some ({ stream with values := [] } : Notifications) = rest
      have all := grows_sendAll (wanted.map fun value => .characteristicChanged h value.1 value.2)
        (List.forall_mem_map.2 fun _ _ => ⟨rfl, by simp⟩)
        { b with links := b.links.modify h fun l => { l with notifications := rest } }
      rw [List.foldl_map] at all
      exact (grows_links (LinkTable.device?_setStream b.links h rest)).trans all

/-- What a task does before it waits. One that begins a job makes the call of the job first. -/
theorem grows_runTask (t : Task) (b : Backend) :
    ∃ more, (∀ call ∈ more, call.isFollowUp = true) ∧
      Grows ((t.starting?.bind (firstCall? · b)).toList ++ more) (t.starting?.toList ++ t.resuming?.toList) b
        (b.runTask t) := by
  have silent {c : Backend} (grows : Grows [] [] b c) : ∃ more : List HardwareCall,
      (∀ call ∈ more, call.isFollowUp = true) ∧ Grows more [] b c := ⟨[], by simp, grows⟩
  cases t with
  | start job => exact grows_run job none b
  | deliver h => exact silent (grows_deliver h b)
  | read => exact silent (grows_read b)
  | attend => exact silent (.refl b)
  | resume waiter failure =>
    cases waiter with
    | job job => exact grows_run job (some failure.isNone) b
    | opener => exact silent { Grows.refl b with }
    | reader device =>
      refine silent ?_
      simp only [runTask, resume]
      split
      · have first := grows_reading b b.known .idle b.inbox
        split
        · exact (first.trans (grows_reportSighting device _)).trans (grows_read _)
        · exact first.trans (grows_read _)
      · exact .refl b

end

end Backend

end RadioCentral
