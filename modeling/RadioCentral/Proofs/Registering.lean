import RadioCentral.Proofs.LinkProtocol
import RadioCentral.Proofs.Run.Strand
import RadioCentral.Proofs.Writing

/-!
Registering a characteristic for notifications leaves the links past their discovery as they are. The run
that registers and the one that does not may differ in everything else from then on: in what is subscribed
to on later links, in when the scan goes on, in the handles given out.
-/
namespace RadioCentral

variable {σ τ : Type}

/-- An element that is in a list once stands between others. -/
theorem split_of_once {α : Type} [DecidableEq α] {x : α} {l : List α} (mem : x ∈ l) (once : l.count x ≤ 1) :
    ∃ xs ys, l = xs ++ x :: ys ∧ x ∉ xs ∧ x ∉ ys := by
  obtain ⟨xs, ys, rfl⟩ := List.append_of_mem mem
  simp only [List.count_append, List.count_cons_self] at once
  exact ⟨xs, ys, rfl, List.count_eq_zero.1 (by omega), List.count_eq_zero.1 (by omega)⟩

/-- A registry in order, in which a handle leads to its holder and has no other. -/
structure Registry.Sole (h : Handle) (r : Registry) : Prop where
  orderly : r.Orderly
  leads : r.Leads h
  once : r.held.count h ≤ 1

def Operation.Concerns (a : Address) (h : Handle) : Operation → Prop
  | .stop _ | .reset _ => True
  | .disconnect b | .write _ _ b => b = a
  | .radioEvent event => event.handle? = some h
  | .start | .registerNotify _ | .setNonce _ | .setGovernor _ | .initiate _ | .dispatchNext
  | .claimDispatch | .dropDispatch => False

namespace Registry.Sole

variable {a b : Address} {h k : Handle} {r : Registry} {p : Peer}

theorem known (sole : r.Sole h) (here : r.get? a = some p) (holds : p.handle = some h) :
    r.addressFor? h = some a := sole.leads a p here holds

theorem apart (sole : r.Sole h) (here : r.get? a = some p) (holds : p.handle = some h) : r.Apart a h :=
  sole.orderly.apart sole.leads (sole.known here holds)

/-- Other handles lead to other peers. -/
theorem elsewhere (sole : r.Sole h) (here : r.get? a = some p) (holds : p.handle = some h)
    (other : k ≠ h) (known : r.addressFor? k = some b) : b ≠ a := by
  rintro rfl
  obtain ⟨q, there, held⟩ := sole.orderly.indexed k b known
  obtain rfl := Option.some.inj (here.symm.trans there)
  exact other (Option.some.inj (held.symm.trans holds))

end Registry.Sole

namespace World

variable {R : Radio σ} {part : σ → τ} {a : Address} {h : Handle} {w v : World (Recorded σ)} {p : Peer}

/-! ### Operations for other peers -/

section Others

variable (isolates : R.Isolates h part) (sole : w.central.registry.Sole h)
  (here : w.central.registry.get? a = some p) (holds : p.handle = some h)

include isolates sole here holds

theorem strand_onHandle {k : Handle} (other : k ≠ h) (event : PeerEvent) :
    (w.onHandle R.recorded k event).strand part a h = w.strand part a h := by
  unfold onHandle
  cases known : w.central.registry.addressFor? k with
  | none => rfl
  | some b =>
    exact strand_drive isolates (sole.elsewhere here holds other known) (sole.apart here holds) event

omit sole holds in
theorem strand_onAdvertisement (b : Address) (data : Bytes) :
    (w.onAdvertisement R.recorded b data).strand part a h = w.strand part a h := by
  unfold onAdvertisement
  split
  · rename_i admits
    have unknown : w.central.registry.contains b = false := unknown_of_admits admits
    have other : b ≠ a := by
      rintro rfl
      simp [Registry.contains, here] at unknown
    have entered := fun policy => Registry.advance_insertConnecting unknown policy
    have peer : (w.enter b).central.registry.get? a = w.central.registry.get? a :=
      (Registry.get?_enroll unknown a).trans (if_neg other.symm)
    have runs : (w.enter b).central.registry.Runs b none := by
      intro q there
      rw [enter, Registry.get?_enroll unknown, if_pos rfl] at there
      obtain rfl := Option.some.inj there
      exact ⟨by simp, rfl⟩
    simp only [transition, entered]
    refine (strand_settle isolates other (w := w.enter b) runs (by simp) [] ?_).trans ?_
    · exact Registry.owed_run_other (by simp) [.pauseScanning, .connect]
    · exact Strand.ext peer rfl rfl rfl rfl
  · rfl

theorem strand_onRadioEvent {event : RadioEvent} (other : event.handle? ≠ some h) :
    (w.onRadioEvent R.recorded event).strand part a h = w.strand part a h := by
  have onHandle {k : Handle} (named : event.handle? = some k) (told : PeerEvent) :
      (w.onHandle R.recorded k told).strand part a h = w.strand part a h :=
    strand_onHandle isolates sole here holds (fun same => other (same ▸ named)) told
  have elsewhere {k : Handle} {b : Address} (named : event.handle? = some k)
      (known : w.central.registry.addressFor? k = some b) : b ≠ a :=
    sole.elsewhere here holds (fun same => other (same ▸ named)) known
  cases event with
  | advertisement b data => exact strand_onAdvertisement isolates here b data
  | connected k | disconnected k | servicesDiscovered k | unitSizeChanged k => exact onHandle rfl _
  | descriptorWritten k c value success =>
    simp only [onRadioEvent]
    split
    · exact onHandle rfl _
    · rfl
  | characteristicChanged k c value =>
    simp only [onRadioEvent, onValue]
    cases known : w.central.registry.addressFor? k with
    | none => rfl
    | some b =>
      simp only
      split
      · split
        · exact strand_report _ (elsewhere rfl known)
        · rfl
      · rfl
  | characteristicWritten k c value status =>
    simp only [onRadioEvent, onWritten]
    cases known : w.central.registry.addressFor? k with
    | none => rfl
    | some b => exact strand_report _ (elsewhere rfl known)

theorem strand_write {b : Address} (other : b ≠ a) (data : Bytes) (c : Uuid) :
    (w.write R.recorded data c b).2.strand part a h = w.strand part a h := by
  have written := written_write R.recorded w data c b
  generalize w.write R.recorded data c b = r at written ⊢
  cases written with
  | unknown | refused | early => rfl
  | @issued t q k offered has there ready held =>
    have free := (sole.apart here holds b q other there).2
    exact strand_ask isolates (.write k c data .withResponse) (by simpa [Request.handle?, held] using free)

/-- An operation that does not concern a link leaves its strand sole. -/
theorem strand_step (linked : w.awaitsConnect a = false) {o : Operation} (free : ¬ o.Concerns a h)
    (once : (w.step R.recorded o).radio.log.issued.count h ≤ w.radio.log.issued.count h) :
    (w.step R.recorded o).strand part a h = w.strand part a h := by
  have apart := sole.apart here holds
  cases o with
  | start =>
    exact strand_scan (scans_start R) ((isolates.keeps w.radio).activate _ (Spared.refl part h w.radio))
  | stop | reset => exact absurd trivial free
  | disconnect b => exact strand_drive isolates free apart .disconnectRequested
  | write data c b => exact strand_write isolates sole here holds free data c
  | radioEvent event => exact strand_onRadioEvent isolates sole here holds free
  | initiate b => exact strand_initiate isolates apart linked once
  | dispatchNext =>
    simp only [step, dispatchNext, takeAttempt] at once ⊢
    cases queue : w.central.dispatch.queue with
    | nil => simp only
    | cons b rest =>
      simp only [queue] at once ⊢
      exact strand_initiate isolates apart linked once
  | registerNotify | setNonce | setGovernor | claimDispatch | dropDispatch => rfl

end Others

/-! ### Operations for its own peer -/

section Own

variable (isolates : R.Isolates h part)

include isolates

theorem strand_disconnects {addresses : List Address} (others : a ∉ addresses)
    (apart : w.central.registry.Apart a h) :
    (addresses.foldl (fun w b => w.disconnect R.recorded b) w).strand part a h = w.strand part a h ∧
      (addresses.foldl (fun w b => w.disconnect R.recorded b) w).central.registry.Apart a h := by
  induction addresses generalizing w with
  | nil => exact ⟨rfl, apart⟩
  | cons b addresses ih =>
    simp only [List.mem_cons, not_or] at others
    have first := strand_drive isolates (Ne.symm others.1) apart .disconnectRequested
    obtain ⟨rest, apart⟩ := ih others.2 (apart_drive apart b .disconnectRequested)
    exact ⟨rest.trans first, apart⟩

/-- To a link, stopping is the disconnecting of its peer. -/
theorem strand_stop (order : Registry.Order) (sole : w.central.registry.Sole h)
    (here : w.central.registry.get? a = some p) (holds : p.handle = some h) :
    ∃ u : World (Recorded σ), u.strand part a h = w.strand part a h ∧
      (w.stop R.recorded order).strand part a h = (u.drive R.recorded a .disconnectRequested).strand part a h := by
  have scanned : (w.scan (Scanner.stop R.recorded)).strand part a h = w.strand part a h :=
    strand_scan (scans_stop R) ((isolates.keeps w.radio).halt _ (Spared.refl part h w.radio))
  have perm := Registry.addresses_perm order w.central.registry
  have mem : a ∈ w.central.registry.addresses order :=
    perm.mem_iff.2 (Registry.mem_known.2 (by simp [Registry.contains, here]))
  obtain ⟨xs, ys, split, before, after⟩ :=
    split_of_once mem (List.nodup_iff_count_le_one.1 (perm.nodup_iff.2 sole.orderly.unique) a)
  have apart : (w.scan (Scanner.stop R.recorded)).central.registry.Apart a h := sole.apart here holds
  have addresses : (w.scan (Scanner.stop R.recorded)).central.registry.addresses order = xs ++ a :: ys :=
    split
  obtain ⟨first, apart⟩ := strand_disconnects isolates before apart
  refine ⟨_, first.trans scanned, ?_⟩
  simp only [stop, addresses, List.foldl_append, List.foldl_cons]
  exact (strand_disconnects isolates after (apart_drive apart a .disconnectRequested)).1

theorem strand_releases {handles : List Handle} (others : h ∉ handles) :
    (handles.foldl (fun w k => (w.ask R.recorded (.release k)).2) w).strand part a h = w.strand part a h := by
  induction handles generalizing w with
  | nil => rfl
  | cons k handles ih =>
    simp only [List.mem_cons, not_or] at others
    have other : (Request.release k).handle? ≠ some h := by simpa [Request.handle?] using Ne.symm others.1
    exact (ih others.2).trans (strand_ask isolates (.release k) other)

/-- To a link, forgetting every peer is the release of its handle. -/
theorem strand_reset (order : Registry.Order) (sole : w.central.registry.Sole h)
    (here : w.central.registry.get? a = some p) (holds : p.handle = some h) :
    ∃ u : World (Recorded σ), u.strand part a h = { w.strand part a h with peer := none } ∧
      (w.reset R.recorded order).strand part a h = (u.ask R.recorded (.release h)).2.strand part a h := by
  have perm := Registry.clear_perm order w.central.registry
  have mem : h ∈ (w.central.registry.clear order).1 :=
    perm.mem_iff.2 (List.mem_filterMap.2 ⟨p, List.mem_of_find?_eq_some here, holds⟩)
  obtain ⟨xs, ys, handles, before, after⟩ := split_of_once mem (perm.count_eq h ▸ sole.once)
  let cleared : World (Recorded σ) :=
    { w with central := { w.central with registry := {}, scanner := w.central.scanner.reset } }
  refine ⟨_, strand_releases isolates (w := cleared) before, ?_⟩
  simp only [reset, handles, List.foldl_append, List.foldl_cons]
  exact strand_releases isolates after

omit isolates in
theorem report_own (same : w.strand part a h = v.strand part a h) (r : Report) :
    (w.report r).strand part a h = (v.report r).strand part a h := by
  obtain ⟨peer, told, asked, alike, settings⟩ := Strand.mk.inj same
  refine Strand.ext peer ?_ asked alike settings
  simp only [strand, report, Central.report, List.filter_append, told]

section Alike

variable (same : w.strand part a h = v.strand part a h) (past : (w.strand part a h).Past h)

include same past

theorem write_own (data : Bytes) (c : Uuid) :
    (w.write R.recorded data c a).2.strand part a h = (v.write R.recorded data c a).2.strand part a h := by
  obtain ⟨peer, -, -, -, -⟩ := Strand.mk.inj same
  simp only [write, ← peer]
  cases here : w.central.registry.get? a with
  | none => exact same
  | some p =>
    simp only
    cases p.characteristic? c with
    | none => exact same
    | some target =>
      simp only [(past p here).2]
      split
      · exact same
      · split
        · exact (ask_own isolates same (.write h target.uuid data .withResponse) rfl).2
        · exact same

theorem onHandle_own (known : w.central.registry.addressFor? h = some a)
    (known' : v.central.registry.addressFor? h = some a) (event : PeerEvent) :
    (w.onHandle R.recorded h event).strand part a h = (v.onHandle R.recorded h event).strand part a h ∧
      ((w.onHandle R.recorded h event).strand part a h).Past h := by
  simp only [onHandle, known, known']
  exact ⟨drive_own isolates same past event, past_settle past [] [event]⟩

/-- An event on the handle goes alike wherever the strand is the same. -/
theorem onRadioEvent_own (known : w.central.registry.addressFor? h = some a)
    (known' : v.central.registry.addressFor? h = some a) {event : RadioEvent}
    (named : event.handle? = some h) :
    (w.onRadioEvent R.recorded event).strand part a h = (v.onRadioEvent R.recorded event).strand part a h ∧
      ((w.onRadioEvent R.recorded event).strand part a h).Past h := by
  obtain ⟨peer, -, -, -, settings⟩ := Strand.mk.inj same
  have onHandle := onHandle_own isolates same past known known'
  have report (r : Report) : (w.report r).strand part a h = (v.report r).strand part a h ∧
      ((w.report r).strand part a h).Past h := ⟨report_own same r, past⟩
  cases event with
  | advertisement => cases named
  | connected k | disconnected k | unitSizeChanged k =>
    obtain rfl := Option.some.inj named
    exact onHandle _
  | servicesDiscovered k services =>
    obtain rfl := Option.some.inj named
    simp only [onRadioEvent, ← settings]
    exact onHandle _
  | descriptorWritten k c value success =>
    obtain rfl := Option.some.inj named
    simp only [onRadioEvent]
    split
    · exact onHandle _
    · exact ⟨same, past⟩
  | characteristicChanged k c value =>
    obtain rfl := Option.some.inj named
    simp only [onRadioEvent, onValue, known, known', ← peer]
    split
    · split
      · exact report _
      · exact ⟨same, past⟩
    · exact ⟨same, past⟩
  | characteristicWritten k c value status =>
    obtain rfl := Option.some.inj named
    simp only [onRadioEvent, onWritten, known, known']
    exact report _

/-- An operation that concerns a link goes alike wherever the strand is the same. -/
theorem step_own (sole : w.central.registry.Sole h) (sole' : v.central.registry.Sole h)
    (here : w.central.registry.get? a = some p) {o : Operation} (concerns : o.Concerns a h) :
    (w.step R.recorded o).strand part a h = (v.step R.recorded o).strand part a h ∧
      ((w.step R.recorded o).strand part a h).Past h := by
  have there : v.central.registry.get? a = some p := (Strand.mk.inj same).1.symm.trans here
  have holds : p.handle = some h := (past p here).2
  cases o with
  | stop order =>
    obtain ⟨u, first, stopped⟩ := strand_stop isolates order sole here holds
    obtain ⟨u', first', stopped'⟩ := strand_stop isolates order sole' there holds
    have past : (u.strand part a h).Past h := first ▸ past
    simp only [step, stopped, stopped']
    exact ⟨drive_own isolates (first.trans (same.trans first'.symm)) past _, past_settle past [] _⟩
  | reset order =>
    obtain ⟨u, first, released⟩ := strand_reset isolates order sole here holds
    obtain ⟨u', first', released'⟩ := strand_reset isolates order sole' there holds
    simp only [step, released, released']
    have alike : u.strand part a h = u'.strand part a h := by rw [first, first', same]
    refine ⟨(ask_own isolates alike (.release h) rfl).2, fun q there => ?_⟩
    have none : u.central.registry.get? a = none := congrArg Strand.peer first
    exact absurd (none.symm.trans there) (by simp)
  | disconnect b =>
    obtain rfl : b = a := concerns
    exact ⟨drive_own isolates same past _, past_settle past [] _⟩
  | write data c b =>
    obtain rfl : b = a := concerns
    refine ⟨write_own isolates same past data c, ?_⟩
    have kept : (w.write R.recorded data c b).2.central = w.central := by
      have written := written_write R.recorded w data c b
      generalize w.write R.recorded data c b = r at written
      cases written <;> rfl
    refine fun q there => past q ?_
    simpa only [step, strand, kept] using there
  | radioEvent event =>
    exact onRadioEvent_own isolates same past (sole.known here holds) (sole'.known there holds) concerns
  | start | registerNotify | setNonce | setGovernor | initiate | dispatchNext | claimDispatch
  | dropDispatch => exact absurd concerns id

end Alike

end Own

/-! ### Whole runs -/

section Runs

variable {settings : Settings} {s s' : σ} {history first second : List (Happening σ)}

theorem sole_outcome (single : (outcome R settings s history).radio.log.issued.count h ≤ 1) :
    (outcome R settings s history).central.registry.Sole h where
  orderly := orderly_outcome R settings s history
  leads := leads_outcome R settings s history single
  once := Nat.le_trans ((conserved_outcome R settings s history).count_held_le h) single

/-- Who holds a handle was given it. -/
theorem issued_of_holds (here : (outcome R settings s history).central.registry.get? a = some p)
    (holds : p.handle = some h) : 1 ≤ (outcome R settings s history).radio.log.issued.count h := by
  have held : h ∈ (outcome R settings s history).central.registry.held :=
    List.mem_filterMap.2 ⟨p, List.mem_of_find?_eq_some here, holds⟩
  exact Nat.le_trans (List.count_pos_iff.2 held) ((conserved_outcome R settings s history).count_held_le h)

/-- What happens without concerning a link leaves its strand alone. -/
theorem strand_happen_of_free (isolates : R.Isolates h part)
    (here : (outcome R settings s history).central.registry.get? a = some p)
    (past : ((outcome R settings s history).strand part a h).Past h) {o : Operation}
    (free : ¬ o.Concerns a h)
    (single : (outcome R settings s (history ++ [.operation o])).radio.log.issued.count h ≤ 1) :
    (outcome R settings s (history ++ [.operation o])).strand part a h =
      (outcome R settings s history).strand part a h := by
  obtain ⟨rank, holds⟩ := past p here
  have given := issued_of_holds here holds
  have sole : (outcome R settings s history).central.registry.Sole h :=
    sole_outcome (Nat.le_trans (count_issued_le R settings s history _ h) single)
  rw [outcome_concat] at single ⊢
  generalize outcome R settings s history = w at here given sole single ⊢
  have linked : w.awaitsConnect a = false := by
    have phase : p.phase ≠ .connecting := fun early => by simp [early, Phase.rank] at rank
    simp [awaitsConnect, here, phase]
  have heard : (w.hear o.event?).radio.log.issued = w.radio.log.issued := issued_hear o.event? w
  refine (strand_step isolates (w := w.hear o.event?) sole here holds linked free ?_).trans
    (strand_hear o.event?)
  rw [heard]
  exact Nat.le_trans single given

/-- One happening keeps the strand of a link the same in two runs. -/
theorem strand_happen (isolates : R.Isolates h part) {x : Happening σ}
    (respects : ∀ change, x = .radioChanges change → ∀ s s', part s = part s' →
      part (change s) = part (change s'))
    (here : (outcome R settings s first).central.registry.get? a = some p)
    (single : (outcome R settings s (first ++ [x])).radio.log.issued.count h ≤ 1)
    (single' : (outcome R settings s' (second ++ [x])).radio.log.issued.count h ≤ 1)
    (same : (outcome R settings s first).strand part a h = (outcome R settings s' second).strand part a h)
    (past : ((outcome R settings s first).strand part a h).Past h) :
    (outcome R settings s (first ++ [x])).strand part a h =
        (outcome R settings s' (second ++ [x])).strand part a h ∧
      ((outcome R settings s (first ++ [x])).strand part a h).Past h := by
  cases x with
  | radioChanges change =>
    obtain ⟨peer, told, asked, alike, settings⟩ := Strand.mk.inj same
    rw [outcome_concat, outcome_concat]
    exact ⟨Strand.ext peer told asked (respects change rfl _ _ alike) settings, past⟩
  | operation o =>
    have there : (outcome R settings s' second).central.registry.get? a = some p :=
      (Strand.mk.inj same).1.symm.trans here
    by_cases concerns : o.Concerns a h
    · have sole := sole_outcome (Nat.le_trans (count_issued_le R settings s first _ h) single)
      have sole' := sole_outcome (Nat.le_trans (count_issued_le R settings s' second _ h) single')
      rw [outcome_concat, outcome_concat]
      have heard : ((outcome R settings s first).hear o.event?).strand part a h =
          ((outcome R settings s' second).hear o.event?).strand part a h := by
        rw [strand_hear, strand_hear, same]
      exact step_own isolates heard past sole sole' here concerns
    · have still := strand_happen_of_free isolates here past concerns single
      rw [still, strand_happen_of_free isolates there (same ▸ past) concerns single']
      exact ⟨same, past⟩

/-- While its record is there, the same happenings keep the strand of a link the same in two runs. -/
theorem strands_alike (isolates : R.Isolates h part)
    (same : (outcome R settings s first).strand part a h = (outcome R settings s' second).strand part a h)
    (past : ((outcome R settings s first).strand part a h).Past h) (after : List (Happening σ))
    (respects : ∀ change, .radioChanges change ∈ after → ∀ s s', part s = part s' →
      part (change s) = part (change s'))
    (single : (outcome R settings s (first ++ after)).radio.log.issued.count h ≤ 1)
    (single' : (outcome R settings s' (second ++ after)).radio.log.issued.count h ≤ 1)
    (present : ∀ front x rest, after = front ++ x :: rest →
      (outcome R settings s (first ++ front)).central.registry.contains a = true) :
    (outcome R settings s (first ++ after)).strand part a h =
        (outcome R settings s' (second ++ after)).strand part a h ∧
      ((outcome R settings s (first ++ after)).strand part a h).Past h := by
  induction after using List.reverseRecOn with
  | nil => simpa only [List.append_nil] using ⟨same, past⟩
  | append_singleton after x ih =>
    rw [← List.append_assoc] at single single'
    obtain ⟨alike, past⟩ := ih (fun change mem => respects change (List.mem_append_left [x] mem))
      (Nat.le_trans (count_issued_le R settings s _ _ h) single)
      (Nat.le_trans (count_issued_le R settings s' _ _ h) single')
      (fun front y rest split => present front y (rest ++ [x]) (by simp [split]))
    obtain ⟨p, here⟩ := Option.isSome_iff_exists.1 (present after x [] rfl)
    rw [← List.append_assoc, ← List.append_assoc]
    exact strand_happen isolates (fun change last => respects change (by simp [last])) here single single'
      alike past

end Runs

/-- A characteristic is registered for notifications in one run and not in another; the same happens in
both from then on. To a link whose services were there by then this makes no difference as long as its
record stays: the record, what is asked of the radio on its handle and what is reported of its peer are the
same in both. Of the radio this takes that its answers on the handle come from a part of its state that
only the handle's own requests change, and that it does not give the handle out again. -/
theorem registration_leaves_links (R : Radio σ) (settings : Settings) (s : σ)
    (before after : List (Happening σ)) (u : Uuid) (a : Address) (h : Handle) (p : Peer) {part : σ → τ}
    (isolates : R.Isolates h part)
    (respects : ∀ change, .radioChanges change ∈ after → ∀ s s', part s = part s' →
      part (change s) = part (change s'))
    (here : (outcome R settings s before).central.registry.get? a = some p) (holds : p.handle = some h)
    (discovered : Phase.discovering.rank < p.phase.rank)
    (present : ∀ front x rest, after = front ++ x :: rest →
      (outcome R settings s (before ++ front)).central.registry.contains a = true) :
    let plain := outcome R settings s (before ++ after)
    let registered := outcome R settings s (before ++ .operation (.registerNotify u) :: after)
    plain.radio.log.issued.count h ≤ 1 → registered.radio.log.issued.count h ≤ 1 →
    registered.central.registry.get? a = plain.central.registry.get? a ∧
      registered.radio.log.requestsOn h = plain.radio.log.requestsOn h ∧
      registered.central.reports.filter (·.address = a) = plain.central.reports.filter (·.address = a) := by
  intro plain registered single single'
  have past : ((outcome R settings s before).strand part a h).Past h := by
    intro q there
    obtain rfl := Option.some.inj (here.symm.trans there)
    exact ⟨discovered, holds⟩
  have same : (outcome R settings s before).strand part a h =
      (outcome R settings s (before ++ [.operation (.registerNotify u)])).strand part a h := by
    rw [outcome_concat, happen]
    exact (strand_hear none).symm
  have split : registered =
      outcome R settings s ((before ++ [.operation (.registerNotify u)]) ++ after) := by
    rw [List.append_assoc, List.singleton_append]
  rw [split] at single' ⊢
  obtain ⟨alike, -⟩ := strands_alike isolates same past after respects single single' present
  obtain ⟨peer, told, asked, -, -⟩ := Strand.mk.inj alike
  exact ⟨peer.symm, asked.symm, told.symm⟩

end World

namespace Encounter

def extra : Characteristic := { uuid := Uuid.expand 0x2a39, properties := .notify }

/-- The first peer of the encounter becomes ready and tells a value while a second one is met, on which the
extra characteristic is found as well. In the end the first one is gone. -/
def joined : List (Happening SimulatedRadio) :=
  [.operation (.radioEvent (.descriptorWritten ⟨1⟩ target.uuid enableIndication true)),
    .operation (.radioEvent (.unitSizeChanged ⟨1⟩ 247 true)),
    .operation (.radioEvent (.advertisement ⟨"b"⟩ invitation)), .operation .dispatchNext,
    .operation (.radioEvent (.connected ⟨2⟩)),
    .operation (.radioEvent (.servicesDiscovered ⟨2⟩ [{ service with characteristics := [target, extra] }])),
    .operation (.radioEvent (.characteristicChanged ⟨1⟩ target.uuid [7])),
    .operation (.radioEvent (.disconnected ⟨1⟩)),
    .operation (.radioEvent (.descriptorWritten ⟨1⟩ target.uuid disableNotification true))]

end Encounter

namespace World

/-- Registering the extra characteristic once the first peer subscribes shows on the second one only. -/
theorem registration_beside_encounter :
    let plain := outcome SimulatedRadio.radio Encounter.settings {} (Encounter.history.take 5 ++ Encounter.joined)
    let registered := outcome SimulatedRadio.radio Encounter.settings {}
      (Encounter.history.take 5 ++ .operation (.registerNotify Encounter.extra.uuid) :: Encounter.joined)
    registered.radio.log.requestsOn ⟨2⟩ ≠ plain.radio.log.requestsOn ⟨2⟩ ∧
    plain.central.reports.filter (·.address = ⟨"a"⟩) =
      [.connected ⟨"a"⟩ (some 247), .dataReceived ⟨"a"⟩ [7], .disconnected ⟨"a"⟩] ∧
    registered.central.registry.get? ⟨"a"⟩ = plain.central.registry.get? ⟨"a"⟩ ∧
    registered.radio.log.requestsOn ⟨1⟩ = plain.radio.log.requestsOn ⟨1⟩ ∧
    registered.central.reports.filter (·.address = ⟨"a"⟩) =
      plain.central.reports.filter (·.address = ⟨"a"⟩) := by
  have found : ((outcome SimulatedRadio.radio Encounter.settings {}
      (Encounter.history.take 5)).central.registry.get? ⟨"a"⟩).map (fun p => (p.phase, p.handle)) =
      some (.subscribing, some ⟨1⟩) := by cbv
  have there : (List.range 9).all (fun n => (outcome SimulatedRadio.radio Encounter.settings {}
      (Encounter.history.take 5 ++ Encounter.joined.take n)).central.registry.contains ⟨"a"⟩) = true := by cbv
  have differs : (outcome SimulatedRadio.radio Encounter.settings {} (Encounter.history.take 5 ++
        .operation (.registerNotify Encounter.extra.uuid) :: Encounter.joined)).radio.log.requestsOn ⟨2⟩ ≠
      (outcome SimulatedRadio.radio Encounter.settings {}
        (Encounter.history.take 5 ++ Encounter.joined)).radio.log.requestsOn ⟨2⟩ := by
    cbv
    decide
  have told : (outcome SimulatedRadio.radio Encounter.settings {}
      (Encounter.history.take 5 ++ Encounter.joined)).central.reports.filter (·.address = ⟨"a"⟩) =
      [.connected ⟨"a"⟩ (some 247), .dataReceived ⟨"a"⟩ [7], .disconnected ⟨"a"⟩] := by cbv
  obtain ⟨p, here, facts⟩ := Option.map_eq_some_iff.1 found
  obtain ⟨phase, holds⟩ : p.phase = .subscribing ∧ p.handle = some ⟨1⟩ := by simpa using facts
  have once (history : List (Happening SimulatedRadio)) (calm : ∀ change, .radioChanges change ∉ history) :
      (outcome SimulatedRadio.radio Encounter.settings {} history).radio.log.issued.count ⟨1⟩ ≤ 1 :=
    List.nodup_iff_count_le_one.1 (issued_nodup SimulatedRadio.numbers Encounter.settings {} history
      fun change mem => absurd mem (calm change)) ⟨1⟩
  refine ⟨differs, told, registration_leaves_links SimulatedRadio.radio Encounter.settings {}
    (Encounter.history.take 5) Encounter.joined Encounter.extra.uuid ⟨"a"⟩ ⟨1⟩ p (SimulatedRadio.isolates ⟨1⟩)
    (by simp [Encounter.joined]) here holds (by rw [phase]; decide) ?_
    (once _ (by simp [Encounter.history, Encounter.joined]))
    (once _ (by simp [Encounter.history, Encounter.joined]))⟩
  intro front x rest split
  have early : front.length ∈ List.range 9 := by
    have length := congrArg List.length split
    simp only [List.length_append, List.length_cons] at length
    rw [List.mem_range]
    exact Nat.lt_of_lt_of_eq (by omega) length.symm
  have taken : front = Encounter.joined.take front.length := by rw [split, List.take_left]
  rw [taken]
  exact List.all_eq_true.1 there front.length early

end World

end RadioCentral
