import RadioCentral.Proofs.Run.Changes

/-!
The lives of the peers of one address. A peer comes, may get ready, and is taken out or forgotten; the
changes of a run, read in order, are written into the life they belong to.
-/
namespace RadioCentral

variable {σ : Type}

inductive Ending where
  | removed
  /-- All peers were forgotten at once. -/
  | forgotten
  deriving DecidableEq, Repr

def Happening.ending : Happening σ → Ending
  | .operation (.reset _) => .forgotten
  | _ => .removed

theorem Happening.ending_eq {x : Happening σ} (other : ¬ x.Resets) : x.ending = .removed := by
  unfold ending
  split
  · exact absurd ⟨_, rfl⟩ other
  · rfl

structure Life where
  /-- The unit sizes the peer had as it got ready, one for each time it did. -/
  ready : List (Option UInt16) := []
  ended : Option Ending := none
  deriving DecidableEq, Repr

/-- What is to be reported of a life: that the peer is connected when it gets ready, and that it is
not when it is taken out. -/
def Life.statuses (a : Address) (life : Life) : List Report :=
  life.ready.map (.connected a) ++ if life.ended = some .removed then [.disconnected a] else []

namespace Change

def due (ending : Ending) (a : Address) (c : Change σ) : List Report :=
  match c.after.central.registry.get? a with
  | some q =>
    if q.phase = .ready ∧ c.before.central.registry.isReady a = false then [.connected a q.unitSize]
    else []
  | none =>
    if c.before.central.registry.contains a = true ∧ ending = .removed then [.disconnected a] else []

/-- The lives of an address, the latest first, after one more change. -/
def note (ending : Ending) (a : Address) (c : Change σ) (lives : List Life) : List Life :=
  match c.before.central.registry.get? a, c.after.central.registry.get? a, lives with
  | none, some _, lives => {} :: lives
  | some p, some q, life :: earlier =>
    if p.phase ≠ .ready ∧ q.phase = .ready then
      { life with ready := life.ready ++ [q.unitSize] } :: earlier
    else life :: earlier
  | some _, none, life :: earlier => { life with ended := some ending } :: earlier
  | _, _, lives => lives

/-- A peer is not ready as it comes, and is never led back. -/
def Onward (a : Address) (c : Change σ) : Prop :=
  ∀ q, c.after.central.registry.get? a = some q →
    (c.before.central.registry.get? a = none → q.phase ≠ .ready) ∧
      ∀ p, c.before.central.registry.get? a = some p → p.phase.rank ≤ q.phase.rank

section

variable {a : Address} {ending : Ending} {w v : World σ}

/-- A peer that gets ready is to be reported, and one that is taken out, unless all were forgotten. -/
theorem mem_due {c : Change σ} {r : Report} :
    r ∈ c.due ending a ↔ (∃ size, c.GetsReady a size ∧ r = .connected a size) ∨
      (c.Loses a ∧ ending = .removed ∧ r = .disconnected a) := by
  unfold due GetsReady Loses
  cases there : c.after.central.registry.get? a with
  | none =>
    by_cases lost : c.before.central.registry.contains a = true ∧ ending = .removed
    · simp [lost, Registry.contains, there]
    · simp only [if_neg lost, List.not_mem_nil, false_iff]
      rintro (⟨size, ⟨-, p, none, -⟩, -⟩ | ⟨⟨was, -⟩, removed, -⟩)
      · cases none
      · exact lost ⟨was, removed⟩
  | some q =>
    by_cases gets : q.phase = .ready ∧ c.before.central.registry.isReady a = false
    · simp [gets, Registry.contains, there]
    · simp only [if_neg gets, List.not_mem_nil, false_iff]
      rintro (⟨size, ⟨unready, p, same, ready, -⟩, -⟩ | ⟨⟨-, gone⟩, -⟩)
      · obtain rfl := Option.some.inj same
        exact gets ⟨ready, unready⟩
      · simp [Registry.contains, there] at gone

theorem due_of_same (same : v.central.registry.get? a = w.central.registry.get? a) :
    due ending a ⟨w, v⟩ = [] := by
  unfold due
  cases here : w.central.registry.get? a with
  | none => simp [same, here, Registry.contains]
  | some p =>
    simp only [same, here, Registry.isReady, Option.map_some, Option.getD_some, Peer.isReady]
    rw [if_neg]
    simp

theorem onward_of_same (same : v.central.registry.get? a = w.central.registry.get? a) :
    Onward a ⟨w, v⟩ := by
  intro q there
  have here : w.central.registry.get? a = some q := same.symm.trans there
  refine ⟨fun none => ?_, fun p was => ?_⟩
  · simp [here] at none
  · obtain rfl : q = p := Option.some.inj (here.symm.trans was)
    exact Nat.le_refl _

end

end Change

namespace World

section

variable (R : Radio σ) (a b : Address)

theorem onward_transition (event : PeerEvent) (w : World σ) :
    Change.Onward b ⟨w, (w.transition R a event).2⟩ := by
  by_cases other : b ≠ a
  · exact Change.onward_of_same (Registry.get?_advance_ne other)
  obtain rfl : b = a := not_not.1 other
  have spec := w.central.registry.advance_spec (w.policy R) b event
  show ∀ q, (w.central.registry.advance (w.policy R) b event).2.get? b = some q → _
  generalize (w.central.registry.advance (w.policy R) b event).1 = steps at spec
  generalize (w.central.registry.advance (w.policy R) b event).2 = after at spec
  cases spec with
  | ignored => exact Change.onward_of_same (v := w) rfl
  | @kept p q actions here moved =>
    intro s there
    have view := Registry.get?_putBack here moved b
    rw [if_pos rfl] at view
    obtain rfl : q = s := Option.some.inj (view.symm.trans there)
    refine ⟨fun none => ?_, fun r was => ?_⟩
    · simp [here] at none
    · obtain rfl : p = r := Option.some.inj (here.symm.trans was)
      exact moved.rank
  | ended =>
    intro s there
    simp [Registry.get?_remove_self] at there

theorem onward_settling (steps : List Registry.Step) (events : List PeerEvent) (w : World σ) :
    ∀ c ∈ w.settling R a steps events, c.Onward b := by
  refine (settling_induction (Q := fun w v => Change.Onward b ⟨w, v⟩) (I := fun _ _ _ => True)
    (fun step _ _ v _ => ⟨?_, trivial⟩) (fun event _ v _ => ⟨?_, trivial⟩) trivial).1
  · exact Change.onward_of_same (by rw [registry_execute])
  · exact onward_transition R a b event v

theorem onward_changes (w : World (Recorded σ)) (x : Happening σ) : ∀ c ∈ w.changes R x, c.Onward b := by
  refine List.forall_mem_cons.2 ⟨?_, ?_⟩
  · rcases opening_fresh R w x with ⟨-, gone⟩ | ⟨-, fresh⟩
    · intro q there
      simp only [gone] at there
      cases there
    · rcases fresh b with same | ⟨q, begun, phase, was⟩
      · exact Change.onward_of_same same
      · intro s there
        obtain rfl : q = s := Option.some.inj (begun.symm.trans there)
        refine ⟨fun _ => by simp [phase], fun p here => ?_⟩
        exact Nat.le_of_eq (by rw [phase, was p here])
  · exact (journey_induction (Q := fun w v => Change.Onward b ⟨w, v⟩) (P := fun _ => True)
      (fun d _ v _ => ⟨onward_settling R.recorded d.address b d.steps d.events v, trivial⟩) trivial).1

end

end World

/-- Lives that go with the peer an address now has. Only the latest can still go on, and a peer that
has not come far enough has not been ready. -/
structure Chronicle (here : Option Peer) (lives : List Life) : Prop where
  once : ∀ life ∈ lives, life.ready.length ≤ 1
  past : ∀ life ∈ lives.tail, life.ended.isSome
  closed : here = none → ∀ life ∈ lives, life.ended.isSome
  going : ∀ p, here = some p → ∃ life earlier, lives = life :: earlier ∧ life.ended = none ∧
    (p.phase.rank < Phase.ready.rank → life.ready = []) ∧ (p.phase = .ready → life.ready ≠ [])

namespace Chronicle

variable {a : Address} {lives : List Life} {c : Change σ}

theorem empty : Chronicle none [] where
  once := by simp
  past := by simp
  closed := by simp
  going := by simp

theorem mk_going {p : Peer} {life : Life} {earlier : List Life} (once : ∀ l ∈ earlier, l.ready.length ≤ 1)
    (past : ∀ l ∈ earlier, l.ended.isSome) (open' : life.ended = none) (single : life.ready.length ≤ 1)
    (unready : p.phase.rank < Phase.ready.rank → life.ready = [])
    (ready : p.phase = .ready → life.ready ≠ []) : Chronicle (some p) (life :: earlier) where
  once := List.forall_mem_cons.2 ⟨single, once⟩
  past := past
  closed := by simp
  going := by
    intro q same
    obtain rfl := Option.some.inj same
    exact ⟨life, earlier, rfl, open', unready, ready⟩

theorem going_iff {here : Option Peer} (h : Chronicle here lives) :
    here.isSome = true ↔ ∃ life ∈ lives.head?, life.ended = none := by
  cases here with
  | none =>
    refine ⟨fun some => absurd some (by decide), ?_⟩
    rintro ⟨life, latest, open'⟩
    have ended := h.closed rfl life (List.mem_of_mem_head? latest)
    simp [open'] at ended
  | some p =>
    obtain ⟨life, earlier, rfl, open', -⟩ := h.going p rfl
    exact ⟨fun _ => ⟨life, rfl, open'⟩, fun _ => rfl⟩

/-- One more change is written into the life it belongs to, and adds what is to be reported of it. -/
theorem note (ending : Ending) (h : Chronicle (c.before.central.registry.get? a) lives)
    (onward : c.Onward a) :
    Chronicle (c.after.central.registry.get? a) (c.note ending a lives) ∧
      (c.note ending a lives).reverse.flatMap (Life.statuses a) =
        lives.reverse.flatMap (Life.statuses a) ++ c.due ending a := by
  unfold Change.note Change.due
  cases was : c.before.central.registry.get? a with
  | none =>
    rw [was] at h
    cases now : c.after.central.registry.get? a with
    | none => simpa [Registry.contains, was] using h
    | some q =>
      have unready := (onward q now).1 was
      refine ⟨mk_going h.once (h.closed rfl) rfl (by simp) (by simp) (fun ready => absurd ready unready), ?_⟩
      simp [unready, Life.statuses]
  | some p =>
    rw [was] at h
    obtain ⟨life, earlier, rfl, open', unready, ready⟩ := h.going p rfl
    have single := h.once life List.mem_cons_self
    have once : ∀ l ∈ earlier, l.ready.length ≤ 1 := fun l hl => h.once l (List.mem_cons_of_mem _ hl)
    cases now : c.after.central.registry.get? a with
    | none =>
      refine ⟨⟨List.forall_mem_cons.2 ⟨single, once⟩, h.past, fun _ => ?_, by simp⟩, ?_⟩
      · exact List.forall_mem_cons.2 ⟨rfl, h.past⟩
      · simp [Registry.contains, was, Life.statuses, open']
    | some q =>
      have rank := (onward q now).2 p was
      have isReady : c.before.central.registry.isReady a = decide (p.phase = .ready) := by
        simp [Registry.isReady, was, Peer.isReady]
      by_cases gets : p.phase ≠ .ready ∧ q.phase = .ready
      · obtain ⟨before, after⟩ := gets
        have early : p.phase.rank < Phase.ready.rank := by
          rw [after] at rank
          cases phase : p.phase <;> simp_all [Phase.rank]
        have bare := unready early
        simp only [before, after, isReady, ne_eq, not_false_eq_true, and_self, ↓reduceIte, decide_false]
        refine ⟨mk_going once h.past open' (by simp [bare]) (by simp [after]) (by simp), ?_⟩
        simp [Life.statuses, open', bare]
      · have silent : ¬ (q.phase = .ready ∧ c.before.central.registry.isReady a = false) := by
          rw [isReady]
          simpa [and_comm] using gets
        simp only [gets, silent, ↓reduceIte, List.append_nil, and_true]
        refine mk_going once h.past open' single (fun early => unready (Nat.lt_of_le_of_lt rank early))
          fun after => ?_
        exact ready (by_contra fun before => gets ⟨before, after⟩)

/-- After a last life that ended by itself, the peer was last said to be disconnected. -/
theorem latest_of_gone (h : Chronicle none lives) (removed : ∀ life ∈ lives, life.ended ≠ some .forgotten)
    (size : Option UInt16) :
    (lives.reverse.flatMap (Life.statuses a)).getLast? ≠ some (.connected a size) := by
  cases lives with
  | nil => simp
  | cons life earlier =>
    obtain ⟨ending, ended⟩ := Option.isSome_iff_exists.1 (h.closed rfl life List.mem_cons_self)
    have other := removed life List.mem_cons_self
    cases ending with
    | forgotten => exact absurd ended other
    | removed => simp [Life.statuses, ended]

theorem latest_of_ready {p : Peer} (h : Chronicle (some p) lives) (ready : p.phase = .ready) :
    ∃ size, (lives.reverse.flatMap (Life.statuses a)).getLast? = some (.connected a size) := by
  obtain ⟨life, earlier, rfl, open', -, some⟩ := h.going p rfl
  obtain ⟨sizes, size, split⟩ := List.eq_nil_or_concat life.ready |>.resolve_left (some ready)
  refine ⟨size, ?_⟩
  simp [Life.statuses, open', split]

end Chronicle

theorem Change.unforgotten_note {a : Address} {c : Change σ} {lives : List Life}
    (removed : ∀ life ∈ lives, life.ended ≠ some .forgotten) :
    ∀ life ∈ c.note .removed a lives, life.ended ≠ some .forgotten := by
  unfold note
  split
  · exact List.forall_mem_cons.2 ⟨by simp, removed⟩
  · obtain ⟨first, rest⟩ := List.forall_mem_cons.1 removed
    split
    · exact List.forall_mem_cons.2 ⟨first, rest⟩
    · exact removed
  · exact List.forall_mem_cons.2 ⟨by simp, (List.forall_mem_cons.1 removed).2⟩
  · exact removed

def Life.noteAll (ending : Ending) (a : Address) (changes : List (Change σ)) (lives : List Life) :
    List Life :=
  changes.foldl (fun lives c => c.note ending a lives) lives

theorem Path.chronicle {w v : World σ} {a : Address} {ending : Ending} {changes : List (Change σ)}
    {lives : List Life} (path : Path w changes v) (onward : ∀ c ∈ changes, c.Onward a)
    (h : Chronicle (w.central.registry.get? a) lives) :
    Chronicle (v.central.registry.get? a) (Life.noteAll ending a changes lives) ∧
      (Life.noteAll ending a changes lives).reverse.flatMap (Life.statuses a) =
        lives.reverse.flatMap (Life.statuses a) ++ changes.flatMap (Change.due ending a) := by
  induction path generalizing lives with
  | stay => exact ⟨h, by simp [Life.noteAll]⟩
  | @go w v u changes rest ih =>
    obtain ⟨first, later⟩ := List.forall_mem_cons.1 onward
    obtain ⟨next, added⟩ := Chronicle.note ending (c := ⟨w, v⟩) h first
    obtain ⟨last, more⟩ := ih later next
    refine ⟨last, more.trans ?_⟩
    rw [added, List.flatMap_cons, List.append_assoc]

namespace World

def chronicled (R : Radio σ) (a : Address) (r : World (Recorded σ) × List Life) (x : Happening σ) :
    World (Recorded σ) × List Life :=
  (r.1.happen R x, Life.noteAll x.ending a (r.1.changes R x) r.2)

def lives (R : Radio σ) (settings : Settings) (s : σ) (a : Address) (history : List (Happening σ)) :
    List Life :=
  (history.foldl (chronicled R a) (fresh settings s, [])).2

section

variable (R : Radio σ) (settings : Settings) (s : σ) (a : Address) (history : List (Happening σ))

theorem fst_chronicled (r : World (Recorded σ) × List Life) :
    (history.foldl (chronicled R a) r).1 = history.foldl (happen R) r.1 := by
  induction history generalizing r with
  | nil => rfl
  | cons x history ih => exact ih (chronicled R a r x)

@[simp] theorem lives_concat (x : Happening σ) :
    lives R settings s a (history ++ [x]) =
      Life.noteAll x.ending a ((outcome R settings s history).changes R x)
        (lives R settings s a history) := by
  unfold lives
  rw [List.foldl_append, List.foldl_cons, List.foldl_nil, chronicled, fst_chronicled]
  rfl

theorem chronicle_outcome :
    Chronicle ((outcome R settings s history).central.registry.get? a) (lives R settings s a history) := by
  induction history using List.reverseRecOn with
  | nil => exact Chronicle.empty
  | append_singleton history x ih =>
    rw [outcome_concat, lives_concat]
    exact ((path_changes R _ x).chronicle (onward_changes R a _ x) ih).1

/-- Only by forgetting all peers a life ends without a report. -/
theorem unforgotten_outcome (kept : ∀ x ∈ history, ¬ x.Resets) :
    ∀ life ∈ lives R settings s a history, life.ended ≠ some .forgotten := by
  induction history using List.reverseRecOn with
  | nil => simp [lives]
  | append_singleton history x ih =>
    obtain ⟨before, last⟩ := List.forall_mem_append.1 kept
    have removed : x.ending = .removed := Happening.ending_eq (last x (List.mem_singleton.2 rfl))
    rw [lives_concat, removed]
    generalize (outcome R settings s history).changes R x = changes
    have now := ih before
    generalize lives R settings s a history = lives at now ⊢
    induction changes generalizing lives with
    | nil => exact now
    | cons c changes more => exact more _ (Change.unforgotten_note now)

/-- A happening adds to the lives what is to be reported of its changes. -/
theorem statuses_lives_concat (x : Happening σ) :
    (lives R settings s a (history ++ [x])).reverse.flatMap (Life.statuses a) =
      (lives R settings s a history).reverse.flatMap (Life.statuses a) ++
        ((outcome R settings s history).changes R x).flatMap (Change.due x.ending a) := by
  rw [lives_concat]
  have now := chronicle_outcome R settings s a history
  exact ((path_changes R _ x).chronicle (onward_changes R a _ x) now).2

end

end World

end RadioCentral
