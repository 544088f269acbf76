import RadioCentral.Proofs.Stopping

/-!
How a central at rest runs empty. The last peer is reported gone after it was taken out: whoever waits
for reports and looks at the registry at each of them finds it empty at the latest then.
-/
namespace RadioCentral

variable {σ : Type}

/-- What is reported of an address is its status. -/
theorem Report.eq_of_about {a : Address} {r : Report} (about : r.about a = true) :
    (∃ size, r = .connected a size) ∨ r = .disconnected a := by
  simp only [Report.about, Bool.and_eq_true, decide_eq_true_eq] at about
  obtain ⟨status, rfl⟩ := about
  cases r with
  | connected b size => exact Or.inl ⟨size, rfl⟩
  | disconnected b => exact Or.inr rfl
  | dataReceived | dataSent => cases status

theorem Registry.isEmpty_iff {r : Registry} : r.isEmpty = true ↔ ∀ a, r.contains a = false := by
  rw [isEmpty, List.isEmpty_iff]
  constructor
  · intro none a
    simp [contains, get?, none]
  · intro none
    rw [List.eq_nil_iff_forall_not_mem]
    intro p mem
    have known := mem_known.1 (List.mem_map_of_mem (f := Peer.address) mem)
    rw [none] at known
    cases known

/-- Without peers an orderly registry is as it was in the beginning. -/
theorem Registry.Orderly.eq_empty {r : Registry} (orderly : r.Orderly) (none : r.isEmpty = true) : r = {} := by
  have unknown : ∀ a, r.get? a = Option.none := fun a => by
    simpa [contains] using isEmpty_iff.1 none a
  have peers : r.peers = [] := by simpa [isEmpty] using none
  have connecting : r.connecting = [] := List.eq_nil_iff_forall_not_mem.2 fun a mem => by
    obtain ⟨p, here, -⟩ := orderly.peer_of_attempt mem
    rw [unknown] at here
    cases here
  have index : r.index = [] := List.eq_nil_iff_forall_not_mem.2 fun entry mem => by
    cases found : r.addressFor? entry.1 with
    | none =>
      rw [addressFor?, List.lookup_eq_none_iff] at found
      simpa using found entry mem
    | some a =>
      obtain ⟨p, here, -⟩ := orderly.indexed _ a found
      rw [unknown] at here
      cases here
  obtain ⟨_, _, _⟩ := r
  simp only at peers connecting index
  subst peers connecting index
  rfl

namespace Change

structure Dwindles (c : Change σ) : Prop where
  known : ∀ a, c.after.central.registry.contains a = true → c.before.central.registry.contains a = true
  silent : ∀ a, c.before.central.registry.contains a = true → c.after.statuses a = c.before.statuses a

/-- Where nothing begins and all that is said is so, what is newly said of an address is that it is
gone, which it was. -/
theorem said_gone {c : Change (Recorded σ)} {a : Address} (rests : c.before.Rests c.after)
    (truthful : c.Truthful a) :
    ∃ reports said, c.after.central.reports = c.before.central.reports ++ reports ∧
      c.after.statuses a = c.before.statuses a ++ said ∧
      ∀ r ∈ said, r = .disconnected a ∧ r ∈ reports ∧ c.before.central.registry.contains a = false := by
  obtain ⟨reports, grown, unconnected⟩ := rests.said
  obtain ⟨said, told, holds⟩ := truthful
  refine ⟨reports, said, grown, told, fun r hr => ?_⟩
  have same : said = reports.filter (·.about a) := by
    unfold World.statuses at told
    rw [grown, List.filter_append] at told
    exact (List.append_cancel_left told).symm
  obtain ⟨new, about⟩ := List.mem_filter.1 (same ▸ hr)
  rcases Report.eq_of_about about with ⟨size, rfl⟩ | rfl
  · exact absurd new (unconnected a size)
  · exact ⟨rfl, new, (holds _ hr).1⟩

theorem dwindles {c : Change (Recorded σ)} (rests : c.before.Rests c.after) (truthful : ∀ a, c.Truthful a) :
    c.Dwindles := by
  refine ⟨rests.known, fun a known => ?_⟩
  obtain ⟨_, said, -, told, gone⟩ := said_gone rests (truthful a)
  cases said with
  | nil => rw [told, List.append_nil]
  | cons r said =>
    have unknown := (gone r List.mem_cons_self).2.2
    rw [known] at unknown
    cases unknown

end Change

namespace Path

variable {w v : World σ} {changes : List (Change σ)} {a : Address}

/-- A peer that is gone in the end is taken out in one of the changes. -/
theorem loses (path : Path w changes v) (known : w.central.registry.contains a = true)
    (gone : v.central.registry.contains a = false) : ∃ c ∈ changes, c.Loses a := by
  induction path with
  | stay w =>
    rw [known] at gone
    cases gone
  | @go w v u changes _ ih =>
    cases still : v.central.registry.contains a with
    | true =>
      obtain ⟨c, mem, loses⟩ := ih still gone
      exact ⟨c, List.mem_cons_of_mem _ mem, loses⟩
    | false => exact ⟨_, List.mem_cons_self, known, still⟩

def SaysWhenEmpty (a : Address) (changes : List (Change σ)) : Prop :=
  ∃ c ∈ changes, c.before.central.registry.isEmpty = true ∧ c.after.statuses a ≠ c.before.statuses a

theorem SaysWhenEmpty.cons (c : Change σ) (told : SaysWhenEmpty a changes) :
    SaysWhenEmpty a (c :: changes) := by
  obtain ⟨c', mem, told⟩ := told
  exact ⟨c', List.mem_cons_of_mem _ mem, told⟩

theorem says_of_empty (path : Path w changes v) (dwindles : ∀ c ∈ changes, c.Dwindles)
    (none : w.central.registry.isEmpty = true) (a : Address) :
    v.statuses a = w.statuses a ∨ SaysWhenEmpty a changes := by
  induction path with
  | stay => exact Or.inl rfl
  | @go w v u changes _ ih =>
    obtain ⟨first, rest⟩ := List.forall_mem_cons.1 dwindles
    by_cases silent : v.statuses a = w.statuses a
    · have still : v.central.registry.isEmpty = true := by
        rw [Registry.isEmpty_iff] at none ⊢
        intro b
        rw [Bool.eq_false_iff]
        intro there
        exact Bool.false_ne_true ((none b).symm.trans (first.known b there))
      exact (ih rest still).imp (·.trans silent) (SaysWhenEmpty.cons _)
    · exact Or.inr ⟨_, List.mem_cons_self, none, silent⟩

/-- When everybody goes, there is one of whom anything is reported only after everybody has gone. -/
theorem last_gone (path : Path w changes v) (dwindles : ∀ c ∈ changes, c.Dwindles)
    (some : w.central.registry.isEmpty = false) (none : v.central.registry.isEmpty = true) :
    ∃ a, w.central.registry.contains a = true ∧
      (v.statuses a = w.statuses a ∨ SaysWhenEmpty a changes) := by
  induction path with
  | stay =>
    rw [none] at some
    cases some
  | @go w v u changes rest ih =>
    obtain ⟨first, later⟩ := List.forall_mem_cons.1 dwindles
    cases still : v.central.registry.isEmpty with
    | false =>
      obtain ⟨a, known, told⟩ := ih later still none
      have before := first.known a known
      exact ⟨a, before, told.imp (·.trans (first.silent a before)) (SaysWhenEmpty.cons _)⟩
    | true =>
      obtain ⟨a, known⟩ : ∃ a, w.central.registry.contains a = true := by
        by_contra unknown
        rw [not_exists] at unknown
        have empty := Registry.isEmpty_iff.2 fun a => Bool.eq_false_iff.2 (unknown a)
        rw [some] at empty
        cases empty
      exact ⟨a, known, (rest.says_of_empty later still a).imp (·.trans (first.silent a known))
        (SaysWhenEmpty.cons _)⟩

end Path

namespace World

/-- The end of the last peer is reported after it. -/
def ReportedEmpty (changes : List (Change (Recorded σ))) : Prop :=
  ∃ c ∈ changes, c.before.central.registry.isEmpty = true ∧ ∃ a reports,
    c.after.central.reports = c.before.central.reports ++ reports ∧ .disconnected a ∈ reports

theorem AtRest.reportedEmpty {w : World (Recorded σ)} (rest : w.AtRest) (R : Radio σ) {x : Happening σ}
    (unstarted : x ≠ .operation .start) (kept : ¬ x.Resets)
    (some : w.central.registry.isEmpty = false)
    (none : (w.happen R x).central.registry.isEmpty = true) : ReportedEmpty (w.changes R x) := by
  have rests := (rest.changes R unstarted).1
  have truthful := truthful_changes R w x
  have path := path_changes R w x
  obtain ⟨a, known, told⟩ := path.last_gone
    (fun c hc => Change.dwindles (rests c hc) fun a => truthful a c hc) some none
  rcases told with same | ⟨c, made, empty, new⟩
  · obtain ⟨c, made, lost⟩ := path.loses known (Registry.isEmpty_iff.1 none a)
    have due : .disconnected a ∈ (w.changes R x).flatMap (Change.due x.ending a) :=
      List.mem_flatMap.2 ⟨c, made, Change.mem_due.2 (Or.inr ⟨lost, Happening.ending_eq kept, rfl⟩)⟩
    rw [statuses_happen, List.append_right_eq_self] at same
    rw [same] at due
    cases due
  · obtain ⟨reports, said, grown, told, gone⟩ := Change.said_gone (rests c made) (truthful a c made)
    cases said with
    | nil => exact absurd (told.trans (List.append_nil _)) new
    | cons r said =>
      obtain ⟨rfl, new, -⟩ := gone r List.mem_cons_self
      exact ⟨c, made, empty, a, reports, grown, new⟩

theorem reports_path {w v : World (Recorded σ)} {changes : List (Change (Recorded σ))}
    (path : Path w changes v) (rests : ∀ c ∈ changes, c.before.Rests c.after) :
    ∀ c ∈ changes, c.after.central.reports <+: v.central.reports := by
  induction path with
  | stay => simp
  | go rest ih =>
    obtain ⟨-, later⟩ := List.forall_mem_cons.1 rests
    refine List.forall_mem_cons.2 ⟨?_, ih later⟩
    obtain ⟨reports, grown, -⟩ := (Rests.path rest later).said
    exact ⟨reports, grown.symm⟩

/-- Whoever waits for reports does not miss that a central at rest is empty: there is a report to be
read, if there was one in case it was empty before. -/
theorem AtRest.report_of_empty {w : World (Recorded σ)} (rest : w.AtRest) (R : Radio σ) {x : Happening σ}
    (unstarted : x ≠ .operation .start) (kept : ¬ x.Resets)
    (none : (w.happen R x).central.registry.isEmpty = true)
    (before : w.central.registry.isEmpty = true → w.central.reports ≠ []) :
    (w.happen R x).central.reports ≠ [] := by
  have rests := (rest.changes R unstarted).1
  have path := path_changes R w x
  cases some : w.central.registry.isEmpty with
  | true =>
    obtain ⟨reports, grown, -⟩ := (Rests.path path rests).said
    rw [grown]
    exact List.append_ne_nil_of_left_ne_nil (before some) _
  | false =>
    obtain ⟨c, made, -, a, reports, grown, mem⟩ := rest.reportedEmpty R unstarted kept some none
    obtain ⟨more, whole⟩ := reports_path path rests c made
    rw [← whole, grown]
    exact List.ne_nil_of_mem (List.mem_append_left _ (List.mem_append_right _ mem))

end World

end RadioCentral
