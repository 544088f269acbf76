import RadioCentral.Proofs.Backend.Conduct
import RadioCentral.Proofs.Backend.Release

/-!
Letting go of a device that was connected to anew. A device is asked to disconnect whatever handle it is
asked for, and a job that closes one handle does not look whether another is open to the same device.
So an open handle is safe only from jobs that are not there: from those of handles closed before it was
given out, if none is left, and from those of the handles beside it, as long as nobody closes one.
-/
namespace RadioCentral

namespace LinkTable

theorem mem_joins_of_device? {t : LinkTable} {h : Handle} {device : Address}
    (linked : t.device? h = some device) : (h, device) ∈ t.joins := by
  obtain ⟨l, found, rfl⟩ := Option.map_eq_some_iff.1 linked
  obtain rfl : l.handle = h := by simpa using List.find?_some found
  exact List.mem_map_of_mem (List.mem_of_find?_eq_some found)

end LinkTable

namespace Job

variable {t : LinkTable} {job next : Job} {device : Address} {h : Handle} {hw : Hardware}

theorem Onward.device? (onward : job.Onward t next) : next.device? = job.device? := by
  cases onward <;> rfl

theorem Onward.handle? (onward : job.Onward t next) (its : next.handle? = some h) : job.handle? = some h := by
  cases onward with
  | self | listens => exact its
  | orphaned | released | letsGo => cases its

/-- A job that may come to ask a device to disconnect, as the links stand. -/
def CleansUp (t : LinkTable) (device : Address) (job : Job) : Prop :=
  ∃ last hw, job.Onward t last ∧ last.next hw = .call (.device device .disconnect)

theorem descriptorCall_ne_disconnect {place : Address} {d : Descriptor} {value : Bytes} :
    descriptorCall hw place d value ≠ .call (.device device .disconnect) := by
  unfold descriptorCall
  split
  · simp
  · split
    · split <;> simp
    · split <;> simp

/-- The jobs that disconnect: those that are there for it, and those that connect a handle closed
meanwhile. -/
theorem CleansUp.cases (cleansUp : job.CleansUp t device) :
    (∃ h, job = .disconnect h device) ∨
      (job = .closeOrphan device ∨ job = .checkReleased device ∨ job = .closeReleased device) ∨
      ∃ h, (job = .connect h device ∨ job = .listen h device) ∧ t.isOpen h = false := by
  obtain ⟨last, hw, onward, next⟩ := cleansUp
  cases onward with
  | listens => simp [Job.next] at next
  | orphaned place closed =>
    obtain rfl : place = device := by simpa [Job.next] using next
    exact .inr (.inr ⟨_, .inl rfl, closed⟩)
  | released place closed =>
    obtain rfl : place = device := by simpa [Job.next] using next
    exact .inr (.inr ⟨_, .inr rfl, closed⟩)
  | letsGo place =>
    obtain rfl : place = device := by simpa [Job.next] using next
    exact .inr (.inl (.inr (.inl rfl)))
  | self =>
    cases job with
    | disconnect h place => exact .inl ⟨h, by simpa [Job.next] using next⟩
    | closeOrphan place => exact .inr (.inl (.inl (by simpa [Job.next] using next)))
    | closeReleased place => exact .inr (.inl (.inr (.inr (by simpa [Job.next] using next))))
    | writeDescriptor => exact absurd next descriptorCall_ne_disconnect
    | startScan | stopScan | connect | listen | discover | write | checkReleased => simp [Job.next] at next

theorem CleansUp.device? (cleansUp : job.CleansUp t device) : job.device? = some device := by
  obtain ⟨h, rfl⟩ | (rfl | rfl | rfl) | ⟨h, rfl | rfl, -⟩ := cleansUp.cases <;> rfl

/-- Who connects a handle that is open takes no connection down. -/
theorem not_cleansUp_connect {place : Address} (linked : t.device? h = some place) :
    ¬ (Job.connect h place).CleansUp t device := by
  intro cleansUp
  obtain ⟨_, same⟩ | (same | same | same) | ⟨k, same | same, closed⟩ := cleansUp.cases <;> cases same
  rw [LinkTable.isOpen_eq, linked] at closed
  cases closed

/-- Only what becomes of its own handle can make a job clean up that did not. -/
theorem CleansUp.congr {u : LinkTable} (cleansUp : job.CleansUp t device)
    (same : ∀ h, job.handle? = some h → t.isOpen h = false → u.isOpen h = false) : job.CleansUp u device := by
  obtain ⟨h, rfl⟩ | (rfl | rfl | rfl) | ⟨h, rfl | rfl, closed⟩ := cleansUp.cases
  · exact ⟨_, {}, .self _, rfl⟩
  · exact ⟨_, {}, .self _, rfl⟩
  · exact ⟨_, {}, .letsGo device, rfl⟩
  · exact ⟨_, {}, .self _, rfl⟩
  · exact ⟨_, {}, .orphaned device (same h rfl closed), rfl⟩
  · exact ⟨_, {}, .released device (same h rfl closed), rfl⟩

/-- The jobs that tell that a connection is gone are those of its own handle. -/
theorem Tells.whose_disconnected (onward : job.Onward t next) (tells : next.Tells hw (.disconnected h)) :
    ∃ device, job = .connect h device ∨ job = .disconnect h device := by
  cases tells with
  | failed _ device =>
    cases onward
    exact ⟨device, .inl rfl⟩
  | disconnected _ device =>
    cases onward
    exact ⟨device, .inr rfl⟩

end Job

namespace Backend

variable {b c : Backend} {h k : Handle} {device : Address} {m : Move} {job : Job}

/-! ### Whose job it is -/

theorem links_wakeReaders (device : Address) (b : Backend) : (b.wakeReaders device).links = b.links := by
  unfold wakeReaders
  generalize b.links.handlesTo device = handles
  induction handles generalizing b with
  | nil => rfl
  | cons h handles ih => exact (ih _).trans (links_wake _ b)

theorem joins_stimulate (stimulus : Stimulus) (b : Backend) :
    (b.stimulate stimulus).links.joins = b.links.joins := by
  have mapped {f : Link → Link} (handle : ∀ l, (f l).handle = l.handle) (device : ∀ l, (f l).device = l.device) :
      LinkTable.joins (b.links.map f) = b.links.joins := LinkTable.joins_map handle device b.links
  cases stimulus with
  | adapterEvent event =>
    simp only [stimulate]
    split
    · rw [links_wake]
    · rfl
  | endEvents | adapter | device => rfl
  | removeDevice | endNotifications =>
    exact mapped (fun l => by split <;> rfl) (fun l => by split <;> rfl)
  | finish place kind failure =>
    simp only [stimulate]
    split
    · unfold finishAt
      split <;> rfl
    · rfl
  | notify place characteristic value =>
    rw [stimulate, links_wakeReaders]
    exact mapped (fun l => by split <;> rfl) (fun l => by split <;> rfl)

/-- Only a dial makes a link, and it is that of a new handle. -/
theorem mem_joins_move {e : Handle × Address} (mem : e ∈ (b.move m).links.joins) : e ∈ b.links.joins ∨
    ∃ device, m = .dial device ∧ device ∈ b.known ∧ e = (⟨b.nextHandle⟩, device) := by
  have same {links : LinkTable} (links_eq : links.joins = b.links.joins)
      (mem : e ∈ links.joins) : e ∈ b.links.joins := links_eq ▸ mem
  cases m with
  | run i =>
    cases found : b.ready[i]? with
    | none => exact .inl (by rwa [move, runAt_none found] at mem)
    | some t =>
      have conduct := conduct_runAt Hardware.stable_true found trivial
      exact .inl (same conduct.joins mem)
  | finish i failure =>
    left
    simp only [move, finishAt] at mem
    split at mem <;> exact mem
  | dial device =>
    simp only [move, dial] at mem
    split at mem
    case isTrue known =>
      have mem : e ∈ b.links.joins ++ [(⟨b.nextHandle⟩, device)] := by
        simpa [spawn, LinkTable.joins] using mem
      exact (List.mem_append.1 mem).imp_right fun new =>
        ⟨device, rfl, known, List.mem_singleton.1 new⟩
    case isFalse => exact .inl mem
  | ask request =>
    left
    cases request with
    | startScan | stopScan | requestUnitSize | invalidateCache => exact mem
    | discover | writeDescriptor | disconnect =>
      simp only [move, ask, onLink] at mem
      split at mem <;> exact mem
    | write =>
      simp only [move, ask, write] at mem
      (repeat' split at mem) <;> exact mem
    | setNotify h c enable =>
      exact same (LinkTable.joins_modify (fun _ => by rfl) (fun _ => by rfl) b.links h) mem
    | release h =>
      simp only [move, ask, release] at mem
      split at mem
      · have fewer : (b.links.close h).joins.Sublist b.links.joins := List.filter_sublist.map _
        exact fewer.subset mem
      · exact mem
  | stimulate stimulus => exact .inl (same (joins_stimulate stimulus b) mem)

/-- Links and jobs have handles that were given out. A handle is linked to one device, and its jobs keep to
that. -/
structure Attributed (b : Backend) : Prop where
  numbered : ∀ e ∈ b.links.joins, e.1.id < b.nextHandle
  single : ∀ e ∈ b.links.joins, ∀ e' ∈ b.links.joins, e.1 = e'.1 → e.2 = e'.2
  given : ∀ job ∈ b.jobs, ∀ h, job.handle? = some h → h.id < b.nextHandle
  whose : ∀ e ∈ b.links.joins, ∀ job ∈ b.jobs, job.handle? = some e.1 → job.device? = some e.2

/-- Nothing has to do with a handle but the link to a device and jobs on it. -/
structure Bound (h : Handle) (device : Address) (b : Backend) : Prop where
  given : h.id < b.nextHandle
  linked : ∀ e ∈ b.links.joins, e.1 = h → e.2 = device
  jobs : ∀ job ∈ b.jobs, job.handle? = some h → job.device? = some device

/-- The job of a request is on a link. -/
theorem jobFor?_linked {request : Request} (left : b.jobFor? request = some job) (its : job.handle? = some h) :
    ∃ device, b.links.device? h = some device ∧ job.device? = some device := by
  cases request with
  | startScan | stopScan => cases left; cases its
  | setNotify | requestUnitSize | invalidateCache => cases left
  | discover | writeDescriptor | disconnect =>
    obtain ⟨device, linked, rfl⟩ := Option.map_eq_some_iff.1 left
    cases its
    exact ⟨device, linked, rfl⟩
  | release =>
    obtain ⟨device, linked, rfl⟩ := Option.map_eq_some_iff.1 left
    cases its
  | write =>
    obtain ⟨device, linked, found⟩ := Option.bind_eq_some_iff.1 left
    obtain ⟨target, -, rfl⟩ := Option.map_eq_some_iff.1 found
    cases its
    exact ⟨device, linked, rfl⟩

/-- A job that a move leaves behind is one that was there, as far as handles go, or on a link, or connects
anew. -/
theorem job_move (mem : job ∈ (b.move m).jobs) (its : job.handle? = some h) :
    (∃ old ∈ b.jobs, old.handle? = some h ∧ old.device? = job.device?) ∨
      (∃ device, b.links.device? h = some device ∧ job.device? = some device) ∨
      ∃ device, m = .dial device ∧ device ∈ b.known ∧ h = ⟨b.nextHandle⟩ ∧ job = .connect h device := by
  obtain ⟨-, -, left⟩ := conduct_move (b := b) Hardware.stable_true trivial m
  rcases left job mem with old | new | ⟨begun, carried, onward⟩
  · exact .inl ⟨job, old, its, rfl⟩
  · cases m with
    | run | finish | stimulate => cases new
    | dial device =>
      simp only [spawned] at new
      split at new
      case isTrue known =>
        obtain rfl := List.mem_singleton.1 new
        cases its
        exact .inr (.inr ⟨device, rfl, known, rfl, rfl⟩)
      case isFalse => cases new
    | ask request => exact .inr (.inl (jobFor?_linked (Option.mem_toList.1 new) its))
  · exact .inl ⟨begun, mem_jobs_of_carries carried, onward.handle? its, onward.device?.symm⟩

theorem nextHandle_dial (known : device ∈ b.known) : (b.move (.dial device)).nextHandle = b.nextHandle + 1 := by
  simp [move, dial, known, spawn]

theorem attributed_of_opened (links : b.links = []) (idle : b.jobs = []) : b.Attributed where
  numbered e mem := by simp [links, LinkTable.joins] at mem
  single e mem := by simp [links, LinkTable.joins] at mem
  given job mem := by simp [idle] at mem
  whose e mem := by simp [links, LinkTable.joins] at mem

namespace Attributed

theorem linked_given (attributed : b.Attributed) (linked : b.links.device? h = some device) :
    h.id < b.nextHandle :=
  attributed.numbered _ (LinkTable.mem_joins_of_device? linked)

theorem fresh_link (attributed : b.Attributed) {e : Handle × Address} (mem : e ∈ b.links.joins) :
    e.1 ≠ ⟨b.nextHandle⟩ := fun same =>
  Nat.lt_irrefl _ (show b.nextHandle < b.nextHandle by simpa [same] using attributed.numbered e mem)

theorem fresh_job (attributed : b.Attributed) (mem : job ∈ b.jobs) : job.handle? ≠ some ⟨b.nextHandle⟩ :=
  fun same => Nat.lt_irrefl _ (attributed.given job mem _ same)

theorem move (attributed : b.Attributed) (m : Move) : (b.move m).Attributed where
  numbered e mem := by
    rcases mem_joins_move mem with old | ⟨device, rfl, known, rfl⟩
    · exact Nat.lt_of_lt_of_le (attributed.numbered e old) (nextHandle_move m b)
    · rw [nextHandle_dial known]
      exact Nat.lt_succ_self _
  single e mem e' mem' same := by
    rcases mem_joins_move mem with old | ⟨device, rfl, -, rfl⟩ <;>
      rcases mem_joins_move mem' with old' | ⟨device', again, -, rfl⟩
    · exact attributed.single e old e' old' same
    · exact absurd same (attributed.fresh_link old)
    · exact absurd same.symm (attributed.fresh_link old')
    · cases again
      rfl
  given job mem h its := by
    rcases job_move mem its with ⟨old, mem, same, -⟩ | ⟨device, linked, -⟩ | ⟨device, rfl, known, rfl, rfl⟩
    · exact Nat.lt_of_lt_of_le (attributed.given old mem h same) (nextHandle_move m b)
    · exact Nat.lt_of_lt_of_le (attributed.linked_given linked) (nextHandle_move m b)
    · rw [nextHandle_dial known]
      exact Nat.lt_succ_self _
  whose e linked job mem its := by
    rcases mem_joins_move linked with old | ⟨device, rfl, -, rfl⟩ <;>
      rcases job_move mem its with ⟨begun, there, same, place⟩ | ⟨place, own, on⟩ | ⟨place, again, -, same, rfl⟩
    · exact place ▸ attributed.whose e old begun there same
    · rw [on, attributed.single e old _ (LinkTable.mem_joins_of_device? own) rfl]
    · exact absurd same (attributed.fresh_link old)
    · exact absurd same (attributed.fresh_job there)
    · exact absurd rfl (attributed.fresh_link (LinkTable.mem_joins_of_device? own))
    · cases again
      rfl

theorem play (attributed : b.Attributed) (moves : List Move) : (b.play moves).Attributed := by
  induction moves generalizing b with
  | nil => exact attributed
  | cons m moves ih => exact ih (attributed.move m)

end Attributed

namespace Bound

theorem move (bound : b.Bound h device) (m : Move) : (b.move m).Bound h device where
  given := Nat.lt_of_lt_of_le bound.given (nextHandle_move m b)
  linked e mem its := by
    rcases mem_joins_move mem with old | ⟨place, -, -, rfl⟩
    · exact bound.linked e old its
    · cases its
      exact absurd bound.given (Nat.lt_irrefl _)
  jobs job mem its := by
    rcases job_move mem its with ⟨begun, there, same, place⟩ | ⟨place, own, on⟩ | ⟨place, -, -, rfl, rfl⟩
    · exact place ▸ bound.jobs begun there same
    · exact on.trans (congrArg some (bound.linked _ (LinkTable.mem_joins_of_device? own) rfl))
    · exact absurd bound.given (Nat.lt_irrefl _)

theorem play (bound : b.Bound h device) (moves : List Move) : (b.play moves).Bound h device := by
  induction moves generalizing b with
  | nil => exact bound
  | cons m moves ih => exact ih (bound.move m)

end Bound

theorem known_of_dial (dialed : b.dial device = (.ok h, c)) :
    device ∈ b.known ∧ h = ⟨b.nextHandle⟩ ∧ b.move (.dial device) = c := by
  unfold dial at dialed
  split at dialed <;> cases dialed
  case isTrue known => exact ⟨known, rfl, by simp [move, dial, known]⟩

/-- From the dial on, a handle has to do with the device dialed. -/
theorem Attributed.bound_of_dial (attributed : b.Attributed) (dialed : b.dial device = (.ok h, c)) :
    c.Bound h device := by
  obtain ⟨known, rfl, rfl⟩ := known_of_dial dialed
  refine ⟨by rw [nextHandle_dial known]; exact Nat.lt_succ_self _, fun e mem its => ?_, fun job mem its => ?_⟩
  · rcases mem_joins_move mem with old | ⟨place, again, -, rfl⟩
    · exact absurd its (attributed.fresh_link old)
    · cases again
      rfl
  · rcases job_move mem its with ⟨begun, there, same, -⟩ | ⟨place, own, -⟩ | ⟨place, again, -, -, rfl⟩
    · exact absurd same (attributed.fresh_job there)
    · exact absurd rfl (attributed.fresh_link (LinkTable.mem_joins_of_device? own))
    · cases again
      rfl

/-! ### Who closes -/

/-- A handle beside another one to the same device is disconnected or released. -/
def ClosesOther (b : Backend) (h : Handle) (device : Address) (m : Move) : Prop :=
  ∃ k ≠ h, b.links.device? k = some device ∧ (m = .ask (.disconnect k) ∨ m = .ask (.release k))

/-- A job starts to clean up when its own handle is released, and not before. -/
theorem Attributed.cleansUp_move (attributed : b.Attributed) (mem : job ∈ b.jobs)
    (cleansUp : job.CleansUp (b.move m).links device) :
    job.CleansUp b.links device ∨ ∃ k, m = .ask (.release k) ∧ b.links.device? k = some device := by
  by_cases released : ∃ k, m = .ask (.release k) ∧ b.links.device? k = some device
  · exact .inr released
  · refine .inl (cleansUp.congr fun k its closed => ?_)
    rw [LinkTable.isOpen_eq, device?_move m (attributed.given job mem k its)] at closed
    rw [LinkTable.isOpen_eq]
    split at closed
    case isFalse => exact closed
    case isTrue gives =>
      cases linked : b.links.device? k with
      | none => rfl
      | some place =>
        have own := attributed.whose _ (LinkTable.mem_joins_of_device? linked) job mem its
        obtain rfl : device = place := Option.some.inj (cleansUp.device?.symm.trans own)
        exact absurd ⟨k, eq_release gives, linked⟩ released

/-- An open handle whose device nobody will ask to disconnect, but one who disconnects the handle itself. -/
structure Spared (h : Handle) (device : Address) (b : Backend) : Prop where
  attributed : b.Attributed
  linked : b.links.device? h = some device
  alone : ∀ job ∈ b.jobs, job.CleansUp b.links device → job = .disconnect h device

theorem Spared.onward (spared : b.Spared h device) {next : Job} (mem : job ∈ b.jobs)
    (onward : job.Onward b.links next) (cleansUp : next.CleansUp b.links device) : job = .disconnect h device := by
  obtain ⟨last, hw, further, calls⟩ := cleansUp
  exact spared.alone job mem ⟨last, hw, onward.trans further, calls⟩

theorem released?_of_carries (carried : b.carries? m = some job) : m.released? = none := by
  cases m with
  | run | finish | dial | stimulate => rfl
  | ask => cases carried

theorem Attributed.device?_dial (attributed : b.Attributed) (known : device ∈ b.known) :
    (b.move (.dial device)).links.device? ⟨b.nextHandle⟩ = some device := by
  have numbered : b.Numbered := fun k isOpen => by
    obtain ⟨place, linked⟩ := Option.isSome_iff_exists.1 (LinkTable.isOpen_eq _ _ ▸ isOpen)
    exact attributed.linked_given linked
  exact (numbered.dial (c := b.move (.dial device)) (by simp [Backend.dial, Backend.move, known])).2

/-- A request that leaves a job behind that cleans up closes a handle. -/
theorem Spared.spawned (spared : b.Spared h device) (kept : m.released? ≠ some h)
    (others : ¬ b.ClosesOther h device m) (new : job ∈ b.spawned m)
    (cleansUp : job.CleansUp (b.move m).links device) : job = .disconnect h device := by
  have place := cleansUp.device?
  cases m with
  | run | finish | stimulate => cases new
  | dial device' =>
    simp only [Backend.spawned] at new
    split at new
    case isFalse => cases new
    case isTrue known =>
      obtain rfl := List.mem_singleton.1 new
      obtain rfl := Option.some.inj place
      exact absurd cleansUp (Job.not_cleansUp_connect (spared.attributed.device?_dial known))
  | ask request =>
    have left := Option.mem_toList.1 new
    cases request with
    | disconnect k =>
      obtain ⟨place', linked, rfl⟩ := Option.map_eq_some_iff.1 left
      obtain rfl := Option.some.inj place
      by_cases same : k = h
      · rw [same]
      · exact absurd ⟨k, same, linked, .inl rfl⟩ others
    | release k =>
      obtain ⟨place', linked, rfl⟩ := Option.map_eq_some_iff.1 left
      obtain rfl := Option.some.inj place
      exact absurd ⟨k, fun same => kept (by rw [same]; rfl), linked, .inr rfl⟩ others
    | startScan | stopScan => cases left; cases place
    | setNotify | requestUnitSize | invalidateCache => cases left
    | discover | writeDescriptor =>
      obtain ⟨_, -, rfl⟩ := Option.map_eq_some_iff.1 left
      obtain ⟨_, same⟩ | (same | same | same) | ⟨_, same | same, -⟩ := cleansUp.cases <;> cases same
    | write =>
      obtain ⟨_, -, found⟩ := Option.bind_eq_some_iff.1 left
      obtain ⟨_, -, rfl⟩ := Option.map_eq_some_iff.1 found
      obtain ⟨_, same⟩ | (same | same | same) | ⟨_, same | same, -⟩ := cleansUp.cases <;> cases same

/-- One move spares a handle unless it closes it, or another one beside it. -/
theorem Spared.move (spared : b.Spared h device) (kept : m.released? ≠ some h)
    (others : ¬ b.ClosesOther h device m) : (b.move m).Spared h device where
  attributed := spared.attributed.move m
  linked := by
    rw [device?_move m (spared.attributed.linked_given spared.linked), if_neg kept]
    exact spared.linked
  alone job mem cleansUp := by
    obtain ⟨-, -, left⟩ := conduct_move (b := b) Hardware.stable_true trivial m
    rcases left job mem with old | new | ⟨begun, carried, onward⟩
    · rcases spared.attributed.cleansUp_move old cleansUp with before | ⟨k, rfl, own⟩
      · exact spared.alone job old before
      · have other : k ≠ h := fun same => kept (by rw [same]; rfl)
        exact absurd ⟨k, other, own, .inr rfl⟩ others
    · exact spared.spawned kept others new cleansUp
    · have before : job.CleansUp b.links device := cleansUp.congr fun k its closed => by
        have given := spared.attributed.given begun (mem_jobs_of_carries carried) k (onward.handle? its)
        rwa [LinkTable.isOpen_eq, device?_move m given, released?_of_carries carried, if_neg nofun,
          ← LinkTable.isOpen_eq] at closed
      obtain rfl := spared.onward (mem_jobs_of_carries carried) onward before
      cases onward
      rfl

/-- A new handle is spared from the start when no job is left that would clean up. -/
theorem Attributed.spared_of_dial (attributed : b.Attributed) (dialed : b.dial device = (.ok h, c))
    (done : ∀ job ∈ b.jobs, ¬ job.CleansUp b.links device) : c.Spared h device := by
  obtain ⟨known, rfl, rfl⟩ := known_of_dial dialed
  refine ⟨attributed.move _, attributed.device?_dial known, fun job mem cleansUp => ?_⟩
  obtain ⟨-, -, left⟩ := conduct_move (b := b) Hardware.stable_true trivial (.dial device)
  rcases left job mem with old | new | ⟨begun, carried, -⟩
  · rcases attributed.cleansUp_move old cleansUp with before | ⟨k, same, -⟩
    · exact absurd before (done job old)
    · cases same
  · rw [spawned, if_pos known] at new
    obtain rfl := List.mem_singleton.1 new
    exact absurd cleansUp (Job.not_cleansUp_connect (attributed.device?_dial known))
  · cases carried

/-- As long as it is open, a handle is spared until another one beside it is closed. -/
theorem Spared.play {moves : List Move} (spared : b.Spared h device)
    (isOpen : (b.play moves).links.isOpen h = true) : (b.play moves).Spared h device ∨
      ∃ before m after, moves = before ++ m :: after ∧ (b.play before).ClosesOther h device m := by
  induction moves generalizing b with
  | nil => exact .inl spared
  | cons m moves ih =>
    by_cases others : b.ClosesOther h device m
    · exact .inr ⟨[], m, moves, rfl, others⟩
    · have kept : m.released? ≠ some h := fun released => by
        have given := spared.attributed.linked_given spared.linked
        have closed : (b.play (m :: moves)).links.isOpen h = false :=
          closed_of_release given (by simp [eq_release released])
        rw [isOpen] at closed
        cases closed
      refine (ih (spared.move kept others) isOpen).imp_right ?_
      rintro ⟨before, n, after, rfl, closes⟩
      exact ⟨m :: before, n, after, rfl, closes⟩

/-- A reader tells that a connection is gone after the adapter has said so of the device. -/
theorem Relays.lost (relays : b.Relays m (.disconnected h)) :
    ∃ place, .disconnected place ∈ b.inbox ∧ h ∈ b.links.handlesTo place := by
  have lost (relays : (∃ device data, RadioEvent.disconnected h = .advertisement device data) ∨
      ∃ place k, .disconnected place ∈ b.inbox ∧ k ∈ b.links.handlesTo place ∧
        RadioEvent.disconnected h = .disconnected k) :
      ∃ place, .disconnected place ∈ b.inbox ∧ h ∈ b.links.handlesTo place := by
    obtain ⟨_, _, same⟩ | ⟨place, k, unread, linked, same⟩ := relays <;> cases same
    exact ⟨place, unread, linked⟩
  obtain ⟨t, -, relays⟩ := relays
  cases t with
  | start | attend => exact relays.elim
  | deliver =>
    obtain ⟨_, _, same⟩ := relays
    cases same
  | read => exact lost relays
  | resume waiter =>
    cases waiter with
    | job | opener => exact relays.elim
    | reader => exact lost relays

/-- However the tasks of a radio take turns: as long as a handle is open, its device is asked to disconnect by
the task that disconnects the handle itself, and by nobody else unless a task that cleans up after an
earlier handle of the device was left when this one was given out, or another handle of the device has
been disconnected or released since. That the handle is disconnected is told by the tasks that connect
and disconnect it; else the adapter has reported the device gone while the handle was open. -/
theorem cleanup_spares_others {b c : Backend} {device : Address} {h : Handle} {past : List Move}
    (links : b.links = []) (idle : b.jobs = []) (dialed : (b.play past).dial device = (.ok h, c))
    (moves : List Move) (m : Move) :
    (∃ made, ((c.play moves).move m).hardware.calls = (c.play moves).hardware.calls ++ made ∧
      (.device device .disconnect ∈ made → (c.play moves).links.isOpen h = true →
        (c.play moves).carries? m = some (.disconnect h device) ∨
        (∃ job ∈ (b.play past).jobs, job.CleansUp (b.play past).links device) ∨
        ∃ before n after, moves = before ++ n :: after ∧ (c.play before).ClosesOther h device n)) ∧
    ∃ sent, ((c.play moves).move m).events = (c.play moves).events ++ sent ∧
      (.disconnected h ∈ sent →
        (c.play moves).carries? m = some (.connect h device) ∨
        (c.play moves).carries? m = some (.disconnect h device) ∨
        (c.play moves).Relays m (.disconnected h) ∧ .disconnected device ∈ (c.play moves).inbox ∧
          h ∈ (c.play moves).links.handlesTo device) := by
  have attributed := (attributed_of_opened links idle).play past
  have bound := (attributed.bound_of_dial dialed).play moves
  obtain ⟨⟨made, calls, callers⟩, ⟨sent, events, tellers⟩, -⟩ :=
    conduct_move (b := c.play moves) Hardware.stable_true trivial m
  constructor
  case left =>
    refine ⟨made, calls, fun asked isOpen => ?_⟩
    by_cases left : ∃ job ∈ (b.play past).jobs, job.CleansUp (b.play past).links device
    · exact .inr (.inl left)
    · have start := attributed.spared_of_dial dialed fun job mem cleansUp => left ⟨job, mem, cleansUp⟩
      refine (start.play isOpen).imp (fun spared => ?_) .inr
      obtain ⟨job, last, hw, carried, onward, -, next⟩ := callers _ asked
      rw [carried, spared.alone job (mem_jobs_of_carries carried) ⟨last, hw, onward, next⟩]
  case right =>
    refine ⟨sent, events, fun told => ?_⟩
    rcases tellers _ told with relays | ⟨job, last, hw, carried, onward, -, tells⟩
    · obtain ⟨place, unread, linked⟩ := relays.lost
      obtain rfl := bound.linked _ (LinkTable.mem_handlesTo.1 linked) rfl
      exact .inr (.inr ⟨relays, unread, linked⟩)
    · obtain ⟨place, its⟩ := tells.whose_disconnected onward
      have on := bound.jobs job (mem_jobs_of_carries carried)
      rw [carried]
      rcases its with rfl | rfl <;> obtain rfl := Option.some.inj (on rfl)
      · exact .inl rfl
      · exact .inr (.inl rfl)

/-- A handle given out after an earlier one was cleaned up after is disconnected by its own task. -/
theorem redialed_disconnects_itself :
    let p : Address := ⟨"p"⟩
    let b : Backend := { hardware := { devices := [(p, {})] }, known := [p] }
    let c := ((b.play [.dial p, .run 0, .ask (.release ⟨1⟩), .run 1]).dial p).2
    let now := c.play [.run 1, .ask (.disconnect ⟨2⟩)]
    ∃ made, (now.move (.run 2)).hardware.calls = now.hardware.calls ++ made ∧ .device p .disconnect ∈ made ∧
      now.carries? (.run 2) = some (.disconnect ⟨2⟩ p) := by
  intro p b c now
  have dialed : (b.play [.dial p, .run 0, .ask (.release ⟨1⟩), .run 1]).dial p = (.ok ⟨2⟩, c) := by
    refine Prod.ext ?_ rfl
    subst now c b
    cbv
  have isOpen : now.links.isOpen ⟨2⟩ = true := by
    subst now c b
    cbv
  have done : (b.play [.dial p, .run 0, .ask (.release ⟨1⟩), .run 1]).jobs = [] := by
    subst now c b
    cbv
  have disconnects : (now.move (.run 2)).hardware.calls = now.hardware.calls ++ [.device p .disconnect] := by
    subst now c b
    cbv
  subst now
  obtain ⟨⟨made, calls, spared⟩, -⟩ :=
    cleanup_spares_others (b := b) rfl rfl dialed [.run 1, .ask (.disconnect ⟨2⟩)] (.run 2)
  obtain rfl : made = [.device p .disconnect] := List.append_cancel_left (calls.symm.trans disconnects)
  refine ⟨_, disconnects, by simp, ?_⟩
  rcases spared (by simp) isOpen with own | ⟨job, mem, -⟩ | ⟨before, n, after, split, k, other, -, closes⟩
  · exact own
  · rw [done] at mem
    cases mem
  · have mem : n ∈ [Move.run 1, .ask (.disconnect ⟨2⟩)] := by simp [split]
    rcases closes with rfl | rfl <;> simp at mem
    exact absurd mem other

/-- A job that cleans up after a handle takes down another one to the same device: the one who releases, the one
who disconnects, or the one who finds its connection released. -/
theorem cleanup_takes_down_others :
    let p : Address := ⟨"p"⟩
    let b : Backend := { hardware := { devices := [(p, {})] }, known := [p] }
    let releases : List Move := [.dial p, .run 0, .ask (.release ⟨1⟩), .dial p, .run 2]
    let disconnects : List Move := [.dial p, .run 0, .ask (.disconnect ⟨1⟩), .ask (.release ⟨1⟩), .dial p, .run 3]
    let orphans : List Move := [.dial p, .ask (.release ⟨1⟩), .dial p, .run 2]
    (b.links = [] ∧ b.jobs = []) ∧
    ∀ e ∈ [(releases, 1, Job.checkReleased p), (disconnects, 1, .disconnect ⟨1⟩ p), (orphans, 0, .connect ⟨1⟩ p)],
      let now := b.play e.1
      let later := now.move (.run e.2.1)
      now.links.device? ⟨2⟩ = some p ∧ now.carries? (.run e.2.1) = some e.2.2 ∧
        now.hardware.calls.count (.device p .disconnect) = 0 ∧
        later.hardware.calls.count (.device p .disconnect) = 1 ∧ later.events.count (.disconnected ⟨2⟩) = 0 ∧
        (later.stimulate (.adapterEvent (.disconnected p))).settle.events.count (.disconnected ⟨2⟩) = 1 := by
  refine ⟨⟨rfl, by cbv⟩, fun e mem => ?_⟩
  fin_cases mem <;> refine ⟨?_, ?_, ?_, ?_, ?_, ?_⟩ <;> cbv

end Backend

end RadioCentral
