import RadioCentral.Proofs.HandleConservation

/-!
Connecting by one of several routes. They are asked in order until one accepts. What is asked is the
shortest part of the list that ends in an accepted route, or all of it; the last answer is the result,
and no handle is given out but the one that is returned.
-/
namespace RadioCentral

variable {σ : Type}

namespace Radio

def askRoutes (R : Radio σ) (a : Address) : List Route → σ → List (Except RadioError Handle) × σ
  | [], s => ([], s)
  | route :: routes, s =>
    let (answer, s) := R.connect a route s
    let (answers, s) := R.askRoutes a routes s
    (answer :: answers, s)

/-- Of the routes asked in order the last is accepted. -/
def EndsAccepted (R : Radio σ) (a : Address) (s : σ) (routes : List Route) : Prop :=
  ∃ h, (R.askRoutes a routes s).1.getLast? = some (.ok h)

def attempts (a : Address) (routes : List Route) (answers : List (Except RadioError Handle)) : Log :=
  List.zipWith (fun route answer => .dialed a route answer.toOption) routes answers

section

variable {R : Radio σ} {a : Address} {s t : σ} {route : Route} {routes : List Route}

theorem not_endsAccepted_nil : ¬ R.EndsAccepted a s [] := by
  rintro ⟨h, last⟩
  cases last

theorem endsAccepted_singleton {h : Handle} (accepted : R.connect a route s = (.ok h, t)) :
    R.EndsAccepted a s [route] :=
  ⟨h, by simp [askRoutes, accepted]⟩

/-- After a refusal it depends on the routes that are left. -/
theorem endsAccepted_refused {e : RadioError} (refused : R.connect a route s = (.error e, t)) :
    R.EndsAccepted a s (route :: routes) ↔ R.EndsAccepted a t routes := by
  simp only [EndsAccepted, askRoutes, refused, List.getLast?_cons, Option.some.injEq]
  cases (R.askRoutes a routes t).1.getLast? with
  | none => simp
  | some answer => simp

/-- What is asked of some routes: no less than the first accepted one takes, and no more. -/
def Shortest (R : Radio σ) (a : Address) (s : σ) (routes asked : List Route) : Prop :=
  asked <+: routes ∧
    (R.EndsAccepted a s asked ∧ (∀ p, p <+: routes → R.EndsAccepted a s p → asked <+: p) ∨
      asked = routes ∧ ∀ p, p <+: routes → ¬ R.EndsAccepted a s p)

theorem shortest_nil : R.Shortest a s [] [] := by
  refine ⟨List.prefix_rfl, Or.inr ⟨rfl, fun p part => ?_⟩⟩
  rw [List.prefix_nil.1 part]
  exact not_endsAccepted_nil

theorem shortest_accepted {h : Handle} (accepted : R.connect a route s = (.ok h, t)) :
    R.Shortest a s (route :: routes) [route] := by
  refine ⟨by simp, Or.inl ⟨endsAccepted_singleton accepted, fun p part ends => ?_⟩⟩
  rcases List.prefix_cons_iff.1 part with rfl | ⟨q, rfl, -⟩
  · exact absurd ends not_endsAccepted_nil
  · simp

theorem Shortest.refused {e : RadioError} {asked : List Route} (shortest : R.Shortest a t routes asked)
    (refused : R.connect a route s = (.error e, t)) :
    R.Shortest a s (route :: routes) (route :: asked) := by
  obtain ⟨part, ends⟩ := shortest
  refine ⟨(List.prefix_cons_inj route).2 part, ?_⟩
  rcases ends with ⟨ends, least⟩ | ⟨rfl, never⟩
  · refine Or.inl ⟨(endsAccepted_refused refused).2 ends, fun p here accepted => ?_⟩
    rcases List.prefix_cons_iff.1 here with rfl | ⟨q, rfl, there⟩
    · exact absurd accepted not_endsAccepted_nil
    · exact (List.prefix_cons_inj route).2 (least q there ((endsAccepted_refused refused).1 accepted))
  · refine Or.inr ⟨rfl, fun p here accepted => ?_⟩
    rcases List.prefix_cons_iff.1 here with rfl | ⟨q, rfl, there⟩
    · exact not_endsAccepted_nil accepted
    · exact never q there ((endsAccepted_refused refused).1 accepted)

end

/-- Trying routes with an error to fall back on asks the shortest part and gives its last answer. -/
theorem dialFrom_shortest (R : Radio σ) (a : Address) (error : RadioError) (routes : List Route)
    (r : Recorded σ) :
    ∃ asked answers s, R.Shortest a r.state routes asked ∧ R.askRoutes a asked r.state = (answers, s) ∧
      R.recorded.dialFrom a error routes r =
        (answers.getLast?.getD (.error error), ⟨s, r.log ++ attempts a asked answers⟩) := by
  induction routes generalizing error r with
  | nil => exact ⟨[], [], r.state, shortest_nil, rfl, by simp [dialFrom, attempts]⟩
  | cons route routes ih =>
    rcases answered : R.connect a route r.state with ⟨answer, t⟩
    have asks : R.recorded.connect a route r =
        (answer, ⟨t, r.log ++ [.dialed a route answer.toOption]⟩) := by simp [recorded, answered]
    cases answer with
    | ok h =>
      refine ⟨[route], [.ok h], t, shortest_accepted answered, by simp [askRoutes, answered], ?_⟩
      simp [dialFrom, asks, attempts]
    | error e =>
      obtain ⟨asked, answers, s, shortest, given, dialed⟩ := ih e ⟨t, r.log ++ [.dialed a route none]⟩
      refine ⟨route :: asked, .error e :: answers, s, shortest.refused answered, ?_, ?_⟩
      · simp [askRoutes, answered, given]
      · simp only [dialFrom, asks, Except.toOption, dialed, List.getLast?_cons, Option.getD_some]
        simp [attempts, Except.toOption]

/-- Connecting asks the routes in order for no longer than it takes. The requests made are those for the
shortest part of the routes that ends in an accepted one, or for all of them if none is accepted; the
result is the last answer, and without routes connecting is not supported. A handle is given out only if
it is the result. -/
theorem dial_shortest (R : Radio σ) (routes : List Route) (a : Address) (r : Recorded σ) :
    ∃ asked answers s, R.Shortest a r.state routes asked ∧ R.askRoutes a asked r.state = (answers, s) ∧
      R.recorded.dial routes a r =
        (answers.getLast?.getD (.error (.unsupported "connect")), ⟨s, r.log ++ attempts a asked answers⟩) ∧
      (attempts a asked answers).issued = (R.recorded.dial routes a r).1.toOption.toList := by
  obtain ⟨asked, answers, s, shortest, given, dialed⟩ :=
    dialFrom_shortest R a (.unsupported "connect") routes r
  obtain ⟨log, grown, dials⟩ := World.dials_dialFrom R routes a (.unsupported "connect") r
  have same : attempts a asked answers = log := by
    rw [dialed] at grown
    exact List.append_cancel_left grown
  exact ⟨asked, answers, s, shortest, given, dialed, same ▸ dials.issued_eq⟩

end Radio

namespace SimulatedRadio

/-- A radio that numbers its handles goes on by one number exactly if connecting gave a handle. -/
theorem nextHandle_dialFrom (a : Address) (error : RadioError) (routes : List Route) (s : SimulatedRadio) :
    let (answer, t) := radio.dialFrom a error routes s
    (∃ e, answer = .error e ∧ t.nextHandle = s.nextHandle) ∨
      answer = .ok ⟨s.nextHandle⟩ ∧ t.nextHandle = s.nextHandle + 1 := by
  induction routes generalizing error s with
  | nil => exact Or.inl ⟨error, rfl, rfl⟩
  | cons route routes ih =>
    by_cases accepted : accepts s.flags route = true
    · have given : radio.connect a route s =
          (.ok ⟨s.nextHandle⟩, { s.record (.connect a route) with nextHandle := s.nextHandle + 1 }) :=
        if_pos accepted
      exact Or.inr (by simp [given])
    · have refused : radio.connect a route s =
          (.error (.backend ("simulated connect to " ++ a.text ++ " refused")), s.record (.connect a route)) :=
        if_neg accepted
      simp only [Radio.dialFrom, refused]
      exact ih _ _

/-- The standard route is tried once the low-energy one is refused, and no further route after it. -/
example :
    let s : SimulatedRadio := { flags := { lowEnergy := false } }
    let (answer, t) := radio.dial [.lowEnergy, .standard, .standard] ⟨"a"⟩ s
    answer = .ok ⟨1⟩ ∧ t.connectAttempts = [(⟨"a"⟩, .lowEnergy), (⟨"a"⟩, .standard)] := by decide

end SimulatedRadio

end RadioCentral
