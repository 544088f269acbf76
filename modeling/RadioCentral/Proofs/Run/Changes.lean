import RadioCentral.Proofs.Run.Opening

/-!
The single changes a run is made of: the opening of a happening, an action carried out, an event
applied to a peer. What holds between operations only, or is made and undone within one operation, is
seen here.
-/
namespace RadioCentral

open Registry (Step)

variable {σ : Type}

structure Change (σ : Type) where
  before : World σ
  after : World σ

namespace Change

/-- The peer of an address gets ready, with the unit size it then has. -/
def GetsReady (a : Address) (size : Option UInt16) (c : Change σ) : Prop :=
  c.before.central.registry.isReady a = false ∧
    ∃ p, c.after.central.registry.get? a = some p ∧ p.phase = .ready ∧ p.unitSize = size

theorem not_getsReady {a : Address} {size : Option UInt16} {w v : World σ}
    (same : v.central.registry.get? a = w.central.registry.get? a) :
    ¬ GetsReady a size ⟨w, v⟩ := by
  rintro ⟨unready, p, there, ready, -⟩
  have here : w.central.registry.get? a = some p := same.symm.trans there
  simp [Registry.isReady, here, Peer.isReady, ready] at unready

def Loses (a : Address) (c : Change σ) : Prop :=
  c.before.central.registry.contains a = true ∧ c.after.central.registry.contains a = false

end Change

inductive Path : World σ → List (Change σ) → World σ → Prop where
  | stay (w : World σ) : Path w [] w
  | go {w v u : World σ} {changes : List (Change σ)} (rest : Path v changes u) :
      Path w (⟨w, v⟩ :: changes) u

theorem Path.append {w v u : World σ} {first second : List (Change σ)} (begun : Path w first v)
    (rest : Path v second u) : Path w (first ++ second) u := by
  induction begun with
  | stay => exact rest
  | go _ ih => exact .go (ih rest)

namespace World

def settling (R : Radio σ) (a : Address) (steps : List Step) (events : List PeerEvent) (w : World σ) :
    List (Change σ) :=
  match steps with
  | step :: steps =>
    let r := w.execute R a step
    ⟨w, r.2⟩ :: settling R a steps (events ++ r.1.toList) r.2
  | [] =>
    match events with
    | event :: events =>
      let r := w.transition R a event
      ⟨w, r.2⟩ :: settling R a r.1 events r.2
    | [] => []
termination_by (w.central.registry.distance a, 2 * steps.length + events.length)
decreasing_by
  · rw [registry_execute]
    apply Prod.Lex.right
    have : (w.execute R a step).1.toList.length ≤ 1 := by cases (w.execute R a step).1 <;> simp
    simp only [List.length_append, List.length_cons]
    omega
  · rcases Registry.distance_advance (w.policy R) a event w.central.registry with less | ⟨idle, same⟩
    · exact Prod.Lex.left _ _ less
    · show Prod.Lex _ _ (((w.central.registry.advance (w.policy R) a event).2.distance a), _) _
      rw [same]
      apply Prod.Lex.right
      have : (w.transition R a event).1 = [] := idle
      simp only [this, List.length_nil, List.length_cons]
      omega

theorem path_settling (R : Radio σ) (a : Address) (steps : List Step) (events : List PeerEvent)
    (w : World σ) : Path w (w.settling R a steps events) (w.settle R a steps events) := by
  fun_induction settle R a steps events w with
  | case1 events w step steps r ih =>
    unfold settling
    exact .go ih
  | case2 w event events r ih =>
    unfold settling
    exact .go ih
  | case3 w =>
    unfold settling
    exact .stay w

/-- A step that an invariant allows for makes a change of a given kind. -/
theorem settling_induction {R : Radio σ} {a : Address} {Q : World σ → World σ → Prop}
    {I : List Step → List PeerEvent → World σ → Prop}
    (execute : ∀ step steps events w, I (step :: steps) events w → Q w (w.execute R a step).2 ∧
      I steps (events ++ (w.execute R a step).1.toList) (w.execute R a step).2)
    (transition : ∀ event events w, I [] (event :: events) w → Q w (w.transition R a event).2 ∧
      I (w.transition R a event).1 events (w.transition R a event).2)
    {steps : List Step} {events : List PeerEvent} {w : World σ} (h : I steps events w) :
    (∀ c ∈ w.settling R a steps events, Q c.before c.after) ∧ I [] [] (w.settle R a steps events) := by
  fun_induction settle R a steps events w with
  | case1 events w step steps r ih =>
    obtain ⟨made, next⟩ := execute step steps events w h
    unfold settling
    exact ⟨List.forall_mem_cons.2 ⟨made, (ih next).1⟩, (ih next).2⟩
  | case2 w event events r ih =>
    obtain ⟨made, next⟩ := transition event events w h
    unfold settling
    exact ⟨List.forall_mem_cons.2 ⟨made, (ih next).1⟩, (ih next).2⟩
  | case3 w =>
    unfold settling
    exact ⟨by simp, h⟩

theorem settling_drive (R : Radio σ) (a : Address) (event : PeerEvent) (w : World σ) :
    w.settling R a [] [event] = ⟨w, (w.transition R a event).2⟩ ::
      (w.transition R a event).2.settling R a (w.transition R a event).1 [] := by
  rw [settling]

def journey (R : Radio σ) (w : World σ) : List Duty → List (Change σ)
  | [] => []
  | e :: duties =>
    w.settling R e.address e.steps e.events ++ journey R (e.run R w) duties

theorem journey_single (R : Radio σ) (w : World σ) (d : Duty) :
    w.journey R [d] = w.settling R d.address d.steps d.events := List.append_nil _

theorem path_journey (R : Radio σ) (w : World σ) (duties : List Duty) :
    Path w (w.journey R duties) (w.runAll R duties) := by
  induction duties generalizing w with
  | nil => exact .stay w
  | cons e duties ih => exact (path_settling R e.address e.steps e.events w).append (ih (e.run R w))

theorem journey_induction {R : Radio σ} {Q : World σ → World σ → Prop} {P : World σ → Prop}
    {duties : List Duty}
    (run : ∀ e ∈ duties, ∀ v, P v →
      (∀ c ∈ v.settling R e.address e.steps e.events, Q c.before c.after) ∧ P (e.run R v))
    {w : World σ} (h : P w) :
    (∀ c ∈ w.journey R duties, Q c.before c.after) ∧ P (w.runAll R duties) := by
  induction duties generalizing w with
  | nil => exact ⟨by simp [journey], h⟩
  | cons e duties ih =>
    obtain ⟨made, next⟩ := run e List.mem_cons_self w h
    obtain ⟨rest, last⟩ := ih (fun e' he' => run e' (List.mem_cons_of_mem _ he')) next
    exact ⟨List.forall_mem_append.2 ⟨made, rest⟩, last⟩

def changes (R : Radio σ) (w : World (Recorded σ)) (x : Happening σ) : List (Change (Recorded σ)) :=
  ⟨w, (w.opening R x).1⟩ :: (w.opening R x).1.journey R.recorded (w.opening R x).2

def Fresh (w v : World σ) (a : Address) : Prop :=
  v.central.registry.get? a = w.central.registry.get? a ∨
    ∃ q, v.central.registry.get? a = some q ∧ q.phase = .connecting ∧
      ∀ p, w.central.registry.get? a = some p → p.phase = .connecting

/-- The opening of a happening forgets every peer or moves none. -/
theorem opening_fresh (R : Radio σ) (w : World (Recorded σ)) (x : Happening σ) :
    (x.Resets ∧ (w.opening R x).1.central.registry = {}) ∨
      (¬ x.Resets ∧ ∀ a, w.Fresh (w.opening R x).1 a) := by
  by_cases reset : x.Resets
  · refine Or.inl ⟨reset, ?_⟩
    obtain ⟨order, rfl⟩ := reset
    simp only [opening, Operation.event?, hear_none, openStep, step]
    exact registry_reset R w order
  · refine Or.inr ⟨reset, fun a => ?_⟩
    have opened := opened_opening R w x
    generalize (w.opening R x).1 = v at opened ⊢
    generalize (w.opening R x).2 = duties at opened
    cases opened with
    | started | stopped | sentAway | reached => exact Or.inl rfl
    | reset order => exact absurd ⟨order, rfl⟩ reset
    | failed _ _ registry | aside _ registry =>
      left
      rw [registry]
    | @admitted b data admits =>
      have unknown := unknown_of_admits admits
      have view := Registry.get?_enroll unknown a
      by_cases same : a = b
      · subst same
        rw [if_pos rfl] at view
        refine Or.inr ⟨_, view, rfl, fun p here => ?_⟩
        rw [Registry.contains, here] at unknown
        cases unknown
      · rw [if_neg same] at view
        exact Or.inl view
    | @attached _ _ b p h _ _ here phase bare registry =>
      have view := Registry.get?_attach (h := h) here bare phase a
      rw [← registry] at view
      by_cases same : a = b
      · subst same
        rw [if_pos rfl] at view
        refine Or.inr ⟨_, view, phase, fun q there => ?_⟩
        obtain rfl : p = q := Option.some.inj (here.symm.trans there)
        exact phase
      · rw [if_neg same] at view
        exact Or.inl view

theorem opening_unready (R : Radio σ) (w : World (Recorded σ)) (x : Happening σ) (a : Address)
    (size : Option UInt16) : ¬ Change.GetsReady a size ⟨w, (w.opening R x).1⟩ := by
  rcases opening_fresh R w x with ⟨-, gone⟩ | ⟨-, fresh⟩
  · rintro ⟨-, p, there, -⟩
    simp only [gone] at there
    cases there
  · rcases fresh a with same | ⟨q, begun, phase, -⟩
    · exact Change.not_getsReady same
    · rintro ⟨-, p, there, ready, -⟩
      obtain rfl : q = p := Option.some.inj (begun.symm.trans there)
      rw [phase] at ready
      cases ready

theorem path_changes (R : Radio σ) (w : World (Recorded σ)) (x : Happening σ) :
    Path w (w.changes R x) (w.happen R x) := by
  rw [happen_eq]
  exact .go (path_journey R.recorded _ _)

end World

end RadioCentral
