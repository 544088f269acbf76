import RadioCentral.Proofs.Backend.Schedule

/-!
What a task may do, and no more. A job makes its own calls and those of the jobs it comes to, tells what
is theirs to tell and leaves at most one of them behind. The readers make no calls, and tell what the
adapter or a device has said.
-/
namespace RadioCentral

/-- What the calls of jobs keep true of the hardware. -/
structure Hardware.Stable (P : Hardware → Prop) : Prop where
  note : ∀ call hw, P hw → P (hw.note call)
  takeEffect : ∀ call hw, P hw → P (hw.takeEffect call)

theorem Hardware.stable_true : Hardware.Stable fun _ => True := ⟨fun _ _ => id, fun _ _ => id⟩

namespace LinkTable

def joins (t : LinkTable) : List (Handle × Address) := t.map fun l => (l.handle, l.device)

theorem joins_map {f : Link → Link} (handle : ∀ l, (f l).handle = l.handle)
    (device : ∀ l, (f l).device = l.device) (t : LinkTable) : joins (t.map f) = joins t := by
  simp [joins, Function.comp_def, handle, device]

theorem joins_modify {f : Link → Link} (handle : ∀ l, (f l).handle = l.handle)
    (device : ∀ l, (f l).device = l.device) (t : LinkTable) (h : Handle) : (t.modify h f).joins = t.joins :=
  joins_map (fun l => by split <;> simp [handle]) (fun l => by split <;> simp [device]) t

theorem joins_setStream (t : LinkTable) (h : Handle) (stream : Option Notifications) :
    joins (t.modify h fun l => { l with notifications := stream }) = t.joins :=
  joins_modify (fun _ => by rfl) (fun _ => by rfl) t h

theorem mem_handlesTo {t : LinkTable} {h : Handle} {device : Address} :
    h ∈ t.handlesTo device ↔ (h, device) ∈ t.joins := by
  simp only [handlesTo, joins, List.mem_map, List.mem_filter, decide_eq_true_eq, Prod.mk.injEq]
  exact ⟨fun ⟨l, ⟨mem, its⟩, same⟩ => ⟨l, mem, same, its⟩, fun ⟨l, mem, same, its⟩ => ⟨l, ⟨mem, its⟩, same⟩⟩

end LinkTable

namespace Job

/-- The jobs that a job may come to, as the links stand. -/
inductive Onward (t : LinkTable) : Job → Job → Prop where
  | self (job : Job) : Onward t job job
  | listens {h : Handle} (device : Address) (isOpen : t.isOpen h = true) :
      Onward t (.connect h device) (.listen h device)
  | orphaned {h : Handle} (device : Address) (closed : t.isOpen h = false) :
      Onward t (.connect h device) (.closeOrphan device)
  | released {h : Handle} (device : Address) (closed : t.isOpen h = false) :
      Onward t (.listen h device) (.closeOrphan device)
  | letsGo (device : Address) : Onward t (.checkReleased device) (.closeReleased device)

namespace Onward

variable {t u : LinkTable} {job next last : Job}

theorem trans (first : Onward t job next) (rest : Onward t next last) : Onward t job last := by
  cases first with
  | self => exact rest
  | listens device isOpen =>
    cases rest with
    | self => exact .listens device isOpen
    | released _ closed =>
      rw [isOpen] at closed
      cases closed
  | orphaned device closed =>
    cases rest
    exact .orphaned device closed
  | released device closed =>
    cases rest
    exact .released device closed
  | letsGo device =>
    cases rest
    exact .letsGo device

theorem congr (same : ∀ h, u.isOpen h = t.isOpen h) (onward : Onward u job next) : Onward t job next := by
  cases onward with
  | self => exact .self _
  | listens device isOpen => exact .listens device (same _ ▸ isOpen)
  | orphaned device closed => exact .orphaned device (same _ ▸ closed)
  | released device closed => exact .released device (same _ ▸ closed)
  | letsGo device => exact .letsGo device

end Onward

/-- What is a job's to tell, by what the hardware knows of the services. -/
inductive Tells (hw : Hardware) : Job → RadioEvent → Prop where
  | failed (h : Handle) (device : Address) : Tells hw (.connect h device) (.disconnected h)
  | connected (h : Handle) (device : Address) : Tells hw (.listen h device) (.connected h)
  | discovered (h : Handle) (device : Address) :
      Tells hw (.discover h device) (.servicesDiscovered h (hw.services device))
  | undiscovered (h : Handle) (device : Address) :
      Tells hw (.discover h device) (.servicesDiscovered h [])
  | configured (h : Handle) (device : Address) (d : Descriptor) (value : Bytes) (success : Bool) :
      Tells hw (.writeDescriptor h device d value) (.descriptorWritten h d.characteristic value success)
  | written (h : Handle) (device : Address) (target : Attribute) (value : Bytes) (mode : WriteMode)
      (status : UInt8) :
      Tells hw (.write h device target value mode) (.characteristicWritten h target.uuid value status)
  | disconnected (h : Handle) (device : Address) : Tells hw (.disconnect h device) (.disconnected h)

end Job

/-- What a task that is no job tells: what the adapter says of devices, or a value on a link. -/
def Task.Relays (b : Backend) (event : RadioEvent) : Task → Prop
  | .deliver h => ∃ c value, event = .characteristicChanged h c value
  | .read | .resume (.reader _) _ => (∃ device data, event = .advertisement device data) ∨
      ∃ device h, .disconnected device ∈ b.inbox ∧ h ∈ b.links.handlesTo device ∧ event = .disconnected h
  | .start _ | .resume (.job _) _ | .resume .opener _ | .attend => False

namespace Backend

/-- What comes of a backend by what the jobs `J` call, tell and leave behind and by the other news `N`, while
the hardware keeps to `P` and the links to their devices. -/
structure Conduct (P : Hardware → Prop) (J : Job → Prop) (N : RadioEvent → Prop) (b c : Backend) :
    Prop where
  hardware : P c.hardware
  made : ∃ made, c.hardware.calls = b.hardware.calls ++ made ∧
    ∀ call ∈ made, ∃ job hw, J job ∧ P hw ∧ job.next hw = .call call
  sent : ∃ sent, c.events = b.events ++ sent ∧
    ∀ event ∈ sent, N event ∨ ∃ job hw, J job ∧ P hw ∧ job.Tells hw event
  left : ∀ job ∈ c.jobs, job ∈ b.jobs ∨ J job
  joins : c.links.joins = b.links.joins

namespace Conduct

variable {P : Hardware → Prop} {J J' : Job → Prop} {N N' : RadioEvent → Prop} {b c d : Backend}

/-- Where nothing is called or told and no job comes, nothing was done. -/
theorem still (holds : P c.hardware) (calls : c.hardware.calls = b.hardware.calls)
    (events : c.events = b.events) (jobs : c.jobs = b.jobs) (joins : c.links.joins = b.links.joins) :
    Conduct P J N b c where
  hardware := holds
  made := ⟨[], by simp [calls]⟩
  sent := ⟨[], by simp [events]⟩
  left job mem := Or.inl (jobs ▸ mem)
  joins := joins

theorem refl (holds : P b.hardware) : Conduct P J N b b := still holds rfl rfl rfl rfl

theorem mono (conduct : Conduct P J N b c) (wider : ∀ job, J job → J' job)
    (more : ∀ event, N event → N' event) : Conduct P J' N' b c where
  hardware := conduct.hardware
  made := by
    obtain ⟨made, calls, whose⟩ := conduct.made
    refine ⟨made, calls, fun call mem => ?_⟩
    obtain ⟨job, hw, mine, holds, next⟩ := whose call mem
    exact ⟨job, hw, wider job mine, holds, next⟩
  sent := by
    obtain ⟨sent, events, whose⟩ := conduct.sent
    refine ⟨sent, events, fun event mem => (whose event mem).imp (more event) ?_⟩
    rintro ⟨job, hw, mine, holds, tells⟩
    exact ⟨job, hw, wider job mine, holds, tells⟩
  left job mem := (conduct.left job mem).imp_right (wider job)
  joins := conduct.joins

theorem trans (first : Conduct P J N b c) (rest : Conduct P J N c d) :
    Conduct P J N b d where
  hardware := rest.hardware
  made := by
    obtain ⟨made, calls, whose⟩ := first.made
    obtain ⟨made', calls', whose'⟩ := rest.made
    exact ⟨made ++ made', by rw [calls', calls, List.append_assoc], List.forall_mem_append.2 ⟨whose, whose'⟩⟩
  sent := by
    obtain ⟨sent, events, whose⟩ := first.sent
    obtain ⟨sent', events', whose'⟩ := rest.sent
    exact ⟨sent ++ sent', by rw [events', events, List.append_assoc],
      List.forall_mem_append.2 ⟨whose, whose'⟩⟩
  left job mem := (rest.left job mem).elim (first.left job) Or.inr
  joins := rest.joins.trans first.joins

end Conduct

section

variable {P : Hardware → Prop} {J : Job → Prop} {N : RadioEvent → Prop} {b c : Backend} {job : Job}
  {success : Bool}

theorem jobs_wake {t : Task} (starting : t.starting? = none) (resuming : t.resuming? = none) (b : Backend) :
    (b.wake t).jobs = b.jobs := by
  unfold wake
  split
  · rfl
  · simp [jobs, starts, underWay, starting, resuming]

theorem links_wake (t : Task) (b : Backend) : (b.wake t).links = b.links := by
  unfold wake
  split <;> rfl

theorem conduct_wake {t : Task} (starting : t.starting? = none) (resuming : t.resuming? = none)
    (holds : P b.hardware) : Conduct P J N b (b.wake t) := by
  have jobs := jobs_wake starting resuming b
  unfold wake at jobs ⊢
  split at jobs
  · rename_i there
    rw [if_pos there]
    exact .refl holds
  · rename_i new
    rw [if_neg new]
    exact .still holds rfl rfl jobs rfl

theorem conduct_send {event : RadioEvent} (holds : P b.hardware)
    (told : N event ∨ ∃ job hw, J job ∧ P hw ∧ job.Tells hw event) :
    Conduct P J N b (b.send event) := by
  have sent : Conduct P J N b { b with events := b.events ++ [event] } :=
    ⟨holds, ⟨[], by simp⟩, ⟨[event], rfl, List.forall_mem_singleton.2 told⟩, fun _ => Or.inl, rfl⟩
  unfold send
  split
  · simp only
    split
    · exact sent.trans (conduct_wake rfl rfl holds)
    · exact sent
  · exact .refl holds

theorem links_send (event : RadioEvent) (b : Backend) : (b.send event).links = b.links := by
  unfold send
  split
  · simp only
    split
    · exact links_wake _ _
    · rfl
  · rfl

theorem conduct_openStream (h : Handle) (device : Address) (holds : P b.hardware) :
    Conduct P J N b (b.openStream h device) := by
  unfold openStream
  split
  · have linked {links : LinkTable} (joins : links.joins = b.links.joins) :
        Conduct P J N b { b with links } := .still holds rfl rfl rfl joins
    exact (linked (LinkTable.joins_setStream _ h _)).trans (conduct_wake rfl rfl holds)
  · exact .refl holds

theorem isOpen_openStream (h : Handle) (device : Address) (k : Handle) (b : Backend) :
    (b.openStream h device).links.isOpen k = b.links.isOpen k := by
  rw [LinkTable.isOpen_eq, (grows_openStream h device b).device? k, LinkTable.isOpen_eq]

theorem conduct_announce (h : Handle) (device : Address) (holds : P b.hardware)
    (mine : J (.listen h device)) : Conduct P J N b (b.announce h device).2 := by
  unfold announce
  split
  · exact conduct_send holds (Or.inr ⟨_, _, mine, holds, .connected h device⟩)
  · exact .refl holds

theorem conduct_answer (job : Job) (success : Bool) (holds : P b.hardware) :
    Conduct P (· = job) N b (b.answer job success).2 := by
  have idle : Conduct P (· = job) N b b := .refl holds
  have tells {event : RadioEvent} (tells : job.Tells b.hardware event) :
      Conduct P (· = job) N b (b.send event) :=
    conduct_send holds (Or.inr ⟨job, _, rfl, holds, tells⟩)
  cases job with
  | connect h device =>
    cases success with
    | true => exact idle
    | false => exact tells (.failed h device)
  | listen h device =>
    cases success with
    | true =>
      have opened := conduct_openStream h device holds (J := (· = .listen h device)) (N := N)
      exact opened.trans (conduct_announce h device opened.hardware rfl)
    | false => exact conduct_announce h device holds rfl
  | discover h device =>
    cases success with
    | true => exact tells (.discovered h device)
    | false => exact tells (.undiscovered h device)
  | writeDescriptor h device d value => exact tells (.configured h device d value success)
  | write h device target value mode => exact tells (.written h device target value mode _)
  | disconnect h device => exact tells (.disconnected h device)
  | checkReleased | startScan | stopScan | closeOrphan | closeReleased => exact idle

/-- What an answer leads to is a job that the answered one may come to. -/
theorem onward_answer {rest : Job} (left : (b.answer job success).1 = some rest) :
    job.Onward b.links rest := by
  cases job with
  | connect h device =>
    cases success with
    | false => cases left
    | true =>
      obtain rfl := Option.some.inj left
      cases isOpen : b.links.isOpen h with
      | true => exact .listens device isOpen
      | false => exact .orphaned device isOpen
  | listen h device =>
    have closes {c : Backend} (left : (c.announce h device).1 = some rest)
        (same : c.links.isOpen h = b.links.isOpen h) : (Job.listen h device).Onward b.links rest := by
      unfold announce at left
      split at left
      · cases left
      case isFalse closed =>
        obtain rfl := Option.some.inj left
        exact .released device (by simpa [same] using closed)
    cases success with
    | true => exact closes left (isOpen_openStream h device h b)
    | false => exact closes left rfl
  | checkReleased device =>
    simp only [answer] at left
    split at left
    · obtain rfl := Option.some.inj left
      exact .letsGo device
    · cases left
  | startScan | stopScan | closeOrphan | discover | writeDescriptor | write | disconnect | closeReleased =>
    cases left

theorem conduct_issue (stable : Hardware.Stable P) (job : Job) (holds : P b.hardware) :
    Conduct P (· = job) N b (b.issue job).2 := by
  unfold issue
  cases next : job.next b.hardware with
  | settled success => exact .refl holds
  | call call =>
    have noted : P (b.hardware.note call) := stable.note call _ holds
    have made : ∀ c ∈ [call], ∃ j hw, j = job ∧ P hw ∧ j.next hw = .call c :=
      List.forall_mem_singleton.2 ⟨job, b.hardware, rfl, holds, next⟩
    simp only [make]
    split
    · refine ⟨stable.takeEffect call _ noted, ⟨[call], ?_, made⟩, ⟨[], by simp⟩, fun _ => Or.inl, rfl⟩
      exact calls_takeEffect call _
    · exact ⟨noted, ⟨[call], rfl, made⟩, ⟨[], by simp⟩, fun _ => Or.inl, rfl⟩
    · refine ⟨noted, ⟨[call], rfl, made⟩, ⟨[], by simp⟩, fun j mem => ?_, rfl⟩
      simpa [jobs, starts, underWay, filterMap_cons_toList, Waiter.job?, or_assoc] using mem

/-- By the recursion of a run: a job makes its call, hears the answer and hands on to another. -/
theorem conduct_run (stable : Hardware.Stable P) (job : Job) (success : Option Bool) (b : Backend)
    (holds : P b.hardware) : Conduct P (job.Onward b.links) N b (b.run job success) := by
  have own {b c : Backend} {job : Job} (conduct : Conduct P (· = job) N b c) :
      Conduct P (job.Onward b.links) N b c :=
    conduct.mono (fun _ same => by rw [same]; exact .self job) fun _ => id
  induction job, success, b using run.induct with
  | case1 job b success c answered ih =>
    have first := conduct_issue (N := N) stable job holds
    have links := (grows_issue_some answered).device?
    rw [answered] at first
    rw [run_none, answered]
    refine (own first).trans ((ih first.hardware).mono (fun j onward => ?_) fun _ => id)
    exact onward.congr fun h => by rw [LinkTable.isOpen_eq, links h, LinkTable.isOpen_eq]
  | case2 job b c waits =>
    have first := conduct_issue (N := N) stable job holds
    rw [waits] at first
    rw [run_none, waits]
    exact own first
  | case3 job b success rest c answered ih =>
    have first := conduct_answer (N := N) job success holds
    have onward := onward_answer (congrArg Prod.fst answered)
    have links := (grows_answer job success b).device?
    rw [answered] at first links
    rw [run_some, answered]
    refine (own first).trans ((ih first.hardware).mono (fun j further => onward.trans ?_) fun _ => id)
    exact further.congr fun h => by rw [LinkTable.isOpen_eq, links h, LinkTable.isOpen_eq]
  | case4 job b success c answered =>
    have first := conduct_answer (N := N) job success holds
    rw [answered] at first
    rw [run_some, answered]
    exact own first

/-! ### Readers -/

theorem conduct_reportSighting (device : Address) (holds : P b.hardware)
    (told : ∀ data, N (.advertisement device data)) :
    Conduct P J N b (b.reportSighting device) := by
  unfold reportSighting
  split
  · have known (known : List Address) : Conduct P J N b { b with known } := .still holds rfl rfl rfl rfl
    exact (known _).trans (conduct_send holds (Or.inl (told _)))
  · exact .refl holds

theorem inbox_send (event : RadioEvent) (b : Backend) : (b.send event).inbox = b.inbox := by
  unfold send
  split
  · simp only
    split
    · unfold wake
      split <;> rfl
    · rfl
  · rfl

theorem unread_reportSighting (device : Address) (b : Backend) :
    (b.reportSighting device).inbox = b.inbox ∧ (b.reportSighting device).links = b.links := by
  unfold reportSighting
  split
  · exact ⟨inbox_send _ _, links_send _ _⟩
  · exact ⟨rfl, rfl⟩

theorem conduct_sendAll (events : List RadioEvent) (holds : P b.hardware) (told : ∀ e ∈ events, N e) :
    Conduct P J N b (events.foldl (fun b e => b.send e) b) := by
  induction events generalizing b with
  | nil => exact .refl holds
  | cons e events ih =>
    obtain ⟨first, rest⟩ := List.forall_mem_cons.1 told
    have sent := conduct_send (J := J) holds (Or.inl first)
    exact sent.trans (ih sent.hardware rest)

theorem links_sendAll (events : List RadioEvent) (b : Backend) :
    (events.foldl (fun b e => b.send e) b).links = b.links := by
  induction events generalizing b with
  | nil => rfl
  | cons e events ih => exact (ih _).trans (links_send e b)

theorem links_handle (event : AdapterEvent) (b : Backend) : (b.handle event).2.links = b.links := by
  cases event with
  | connected => rfl
  | disconnected device =>
    have same := links_sendAll ((b.links.handlesTo device).map .disconnected) b
    rwa [List.foldl_map] at same
  | seen device =>
    simp only [handle]
    split
    · rfl
    · split
      · exact (unread_reportSighting device b).2
      · rfl
      · rfl

theorem conduct_handle (event : AdapterEvent) (holds : P b.hardware)
    (sighted : ∀ device data, N (.advertisement device data))
    (lost : ∀ device, event = .disconnected device → ∀ h ∈ b.links.handlesTo device, N (.disconnected h)) :
    Conduct P J N b (b.handle event).2 := by
  cases event with
  | connected => exact .refl holds
  | disconnected device =>
    have all := conduct_sendAll (J := J) ((b.links.handlesTo device).map .disconnected) holds
      (List.forall_mem_map.2 (lost device rfl))
    rwa [List.foldl_map] at all
  | seen device =>
    simp only [handle]
    split
    · exact .refl holds
    · split
      · exact conduct_reportSighting device holds (sighted device)
      · exact .refl holds
      · refine .still holds rfl rfl ?_ rfl
        simp [jobs, starts, underWay, Waiter.job?]

theorem conduct_readAll (events : List AdapterEvent) (holds : P b.hardware)
    (sighted : ∀ device data, N (.advertisement device data))
    (lost : ∀ device, .disconnected device ∈ events → ∀ h ∈ b.links.handlesTo device,
      N (.disconnected h)) : Conduct P J N b (b.readAll events) := by
  induction events generalizing b with
  | nil => exact .still holds rfl rfl rfl rfl
  | cons event events ih =>
    have first := conduct_handle (J := J) event holds sighted fun device same =>
      lost device (by simp [same])
    have links := links_handle event b
    simp only [readAll]
    split <;> rename_i c handled <;> rw [handled] at first links
    · refine first.trans (ih first.hardware fun device mem => ?_)
      rw [show c.links = b.links from links]
      exact lost device (List.mem_cons_of_mem _ mem)
    · exact first.trans (.still first.hardware rfl rfl rfl rfl)

theorem conduct_read (holds : P b.hardware) (sighted : ∀ device data, N (.advertisement device data))
    (lost : ∀ device, .disconnected device ∈ b.inbox → ∀ h ∈ b.links.handlesTo device,
      N (.disconnected h)) : Conduct P J N b b.read := by
  unfold read
  split
  · exact conduct_readAll _ holds sighted lost
  · exact .refl holds

theorem conduct_deliver (h : Handle) (holds : P b.hardware)
    (told : ∀ c value, N (.characteristicChanged h c value)) :
    Conduct P J N b (b.deliver h) := by
  unfold deliver
  split
  · exact .refl holds
  · split
    · exact .refl holds
    case h_2 link _ _ stream _ =>
      simp only
      generalize List.filter _ stream.values = wanted
      generalize some ({ stream with values := [] } : Notifications) = rest
      let opened : Backend :=
        { b with links := b.links.modify h fun l => { l with notifications := rest } }
      have linked : Conduct P J N b opened :=
        .still holds rfl rfl rfl (LinkTable.joins_setStream b.links h rest)
      have all := conduct_sendAll (J := J) (b := opened)
        (wanted.map fun value => .characteristicChanged h value.1 value.2) holds
        (List.forall_mem_map.2 fun value _ => told value.1 value.2)
      rw [List.foldl_map] at all
      exact linked.trans all

theorem conduct_runTask (stable : Hardware.Stable P) (t : Task) (b : Backend) (holds : P b.hardware) :
    Conduct P (fun j => ∃ job, t.starting?.or t.resuming? = some job ∧ job.Onward b.links j) (t.Relays b) b
      (b.runTask t) := by
  have own {job : Job} {c : Backend} (goesOn : t.starting?.or t.resuming? = some job)
      (conduct : Conduct P (job.Onward b.links) (t.Relays b) b c) :
      Conduct P (fun j => ∃ job, t.starting?.or t.resuming? = some job ∧ job.Onward b.links j) (t.Relays b) b c :=
    conduct.mono (fun j onward => ⟨job, goesOn, onward⟩) fun _ => id
  cases t with
  | start job => exact own rfl (conduct_run stable job none b holds)
  | deliver h => exact conduct_deliver h holds fun c value => ⟨c, value, rfl⟩
  | read =>
    exact conduct_read holds (fun device data => Or.inl ⟨device, data, rfl⟩)
      fun device mem h linked => Or.inr ⟨device, h, mem, linked, rfl⟩
  | attend => exact .refl holds
  | resume waiter failure =>
    cases waiter with
    | job job => exact own rfl (conduct_run stable job (some failure.isNone) b holds)
    | opener => exact .still holds rfl rfl rfl rfl
    | reader device =>
      have reads {c : Backend} (holds : P c.hardware) (inbox : c.inbox = b.inbox) (links : c.links = b.links) :
          Conduct P (fun _ => False) ((Task.resume (.reader device) failure).Relays b) c c.read :=
        conduct_read holds (fun device data => Or.inl ⟨device, data, rfl⟩) fun device mem h linked =>
          Or.inr ⟨device, h, inbox ▸ mem, links ▸ linked, rfl⟩
      refine Conduct.mono (J := fun _ => False) ?_ (fun _ => False.elim) fun _ => id
      simp only [runTask, resume]
      split
      · refine Conduct.trans (c := { b with reader := .idle }) (.still holds rfl rfl rfl rfl) ?_
        split
        · obtain ⟨inbox, links⟩ := unread_reportSighting device { b with reader := .idle }
          have sighted := conduct_reportSighting (b := { b with reader := .idle })
            (J := fun _ => False) (N := (Task.resume (.reader device) failure).Relays b) device holds
            fun data => Or.inl ⟨device, data, rfl⟩
          exact sighted.trans (reads sighted.hardware inbox links)
        · exact reads holds rfl rfl
      · exact .refl holds

end

/-! ### Moves -/

def carries? (b : Backend) (m : Move) : Option Job := (b.runs m).bind fun t => t.starting?.or t.resuming?

def Relays (b : Backend) (m : Move) (event : RadioEvent) : Prop := ∃ t ∈ b.runs m, t.Relays b event

section

variable {P : Hardware → Prop} {b : Backend} {job : Job} {m : Move}

theorem mem_jobs_of_carries (carried : b.carries? m = some job) : job ∈ b.jobs := by
  obtain ⟨t, runs, its⟩ := Option.bind_eq_some_iff.1 carried
  cases m with
  | finish | dial | ask | stimulate => cases runs
  | run i =>
    have ready : t ∈ b.ready := List.mem_of_getElem? runs
    rcases Option.or_eq_some_iff.1 its with starting | ⟨-, resuming⟩
    · exact List.mem_append_left _ (List.mem_filterMap.2 ⟨t, ready, starting⟩)
    · exact List.mem_append_right _ (List.mem_append_left _ (List.mem_filterMap.2 ⟨t, ready, resuming⟩))

theorem mem_jobs_of_without {i : Nat} (mem : job ∈ (b.without i).jobs) : job ∈ b.jobs := by
  have fewer : (b.without i).ready.Sublist b.ready := List.eraseIdx_sublist _ _
  rcases List.mem_append.1 mem with start | begun
  · exact List.mem_append_left _ ((fewer.filterMap _).subset start)
  · refine List.mem_append_right _ ((List.mem_append.1 begun).elim (fun ready => ?_) (List.mem_append_right _))
    exact List.mem_append_left _ ((fewer.filterMap _).subset ready)

theorem conduct_runAt (stable : Hardware.Stable P) {i : Nat} {t : Task} (found : b.ready[i]? = some t)
    (holds : P b.hardware) :
    Conduct P (fun j => ∃ job, t.starting?.or t.resuming? = some job ∧ job.Onward b.links j)
      (t.Relays (b.without i)) (b.without i) (b.move (.run i)) := by
  have ran : b.move (.run i) = (b.without i).runTask t := by
    rw [move, runAt, found]
    rfl
  exact ran ▸ conduct_runTask stable t (b.without i) holds

/-- What a move may do, and no more: whatever it calls, tells and leaves behind comes of the job that it
goes on with, or is told by a reader, or is the job of a request. -/
theorem conduct_move (stable : Hardware.Stable P) (holds : P b.hardware) (m : Move) :
    (∃ made, (b.move m).hardware.calls = b.hardware.calls ++ made ∧ ∀ call ∈ made, ∃ job j hw,
      b.carries? m = some job ∧ job.Onward b.links j ∧ P hw ∧ j.next hw = .call call) ∧
    (∃ sent, (b.move m).events = b.events ++ sent ∧ ∀ event ∈ sent, b.Relays m event ∨ ∃ job j hw,
      b.carries? m = some job ∧ job.Onward b.links j ∧ P hw ∧ j.Tells hw event) ∧
    ∀ j ∈ (b.move m).jobs, j ∈ b.jobs ∨ j ∈ b.spawned m ∨
      ∃ job, b.carries? m = some job ∧ job.Onward b.links j := by
  rcases ran_or_quiet m b with ⟨i, t, rfl, found⟩ | ⟨-, quiet⟩
  · have conduct := conduct_runAt stable found holds
    have carried : b.carries? (.run i) = t.starting?.or t.resuming? := by simp [carries?, runs, found]
    have relays {event : RadioEvent} (relays : t.Relays (b.without i) event) : b.Relays (.run i) event :=
      ⟨t, found, by cases t <;> exact relays⟩
    rw [carried]
    refine ⟨?_, ?_, fun j mem => ?_⟩
    · obtain ⟨made, calls, whose⟩ := conduct.made
      refine ⟨made, calls, fun call mem => ?_⟩
      obtain ⟨j, hw, ⟨job, its, onward⟩, holds, next⟩ := whose call mem
      exact ⟨job, j, hw, its, onward, holds, next⟩
    · obtain ⟨sent, events, whose⟩ := conduct.sent
      refine ⟨sent, events, fun event mem => (whose event mem).imp relays ?_⟩
      rintro ⟨j, hw, ⟨job, its, onward⟩, holds, tells⟩
      exact ⟨job, j, hw, its, onward, holds, tells⟩
    · exact (conduct.left j mem).imp mem_jobs_of_without Or.inr
  · refine ⟨⟨[], by simp [quiet.calls], by simp⟩, ⟨[], by simp [quiet.events], by simp⟩, fun j mem => ?_⟩
    rcases List.mem_append.1 mem with start | begun
    · rw [quiet.starts] at start
      rcases List.mem_append.1 start with old | new
      · exact Or.inl (List.mem_append_left _ old)
      · exact Or.inr (Or.inl new)
    · exact Or.inl (List.mem_append_right _ (quiet.underWay.mem_iff.1 begun))

end

end Backend

end RadioCentral
