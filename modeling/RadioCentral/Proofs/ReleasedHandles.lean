import RadioCentral.Proofs.CentralCoherence

/-!
A connection that was given back is over for good. The index leads from a handle to its holder only,
so an event that names another handle finds nobody; and a handle that is given out once does not come
back, whatever becomes of the address it belonged to.
-/
namespace RadioCentral

variable {σ : Type}

theorem Registry.Orderly.addressFor?_eq_none {r : Registry} (orderly : r.Orderly) {h : Handle}
    (free : h ∉ r.held) : r.addressFor? h = none := by
  cases known : r.addressFor? h with
  | none => rfl
  | some a =>
    obtain ⟨p, here, holds⟩ := orderly.indexed h a known
    exact absurd (List.mem_filterMap.2 ⟨p, List.mem_of_find?_eq_some here, holds⟩) free

namespace Conserved

variable {r r' : Registry} {log log' : Log} {h : Handle}

theorem issued_of_held (conserved : Conserved r log []) (held : h ∈ r.held) : h ∈ log.issued :=
  conserved.balance.symm.subset (List.mem_append_left _ held)

/-- A handle that was given out only once is not held after it was given back. -/
theorem not_held (conserved : Conserved r log []) (distinct : log.issued.Nodup)
    (back : h ∈ log.released) : h ∉ r.held := by
  intro held
  have apart := (List.nodup_append.1 (conserved.balance.nodup_iff.1 distinct)).2.2
  exact apart h held h back rfl

theorem not_held_iff (conserved : Conserved r log []) (distinct : log.issued.Nodup) :
    h ∉ r.held ↔ h ∉ log.issued ∨ h ∈ log.released := by
  constructor
  · intro free
    by_cases given : h ∈ log.issued
    · exact Or.inr ((List.mem_append.1 (conserved.balance.subset given)).resolve_left free)
    · exact Or.inl given
  · rintro (never | back)
    · exact fun held => never (conserved.issued_of_held held)
    · exact conserved.not_held distinct back

/-- What is over stays over while the record grows and no handle is given out twice. -/
theorem stays_free (conserved : Conserved r' log' []) (grown : log <+: log')
    (distinct : log'.issued.Nodup) (past : h ∈ log.released ∨ h ∉ log'.issued) : h ∉ r'.held := by
  rcases past with back | never
  · obtain ⟨more, rfl⟩ := grown
    exact conserved.not_held distinct (by simp [back])
  · exact fun held => never (conserved.issued_of_held held)

end Conserved

namespace World

/-- Events that name a handle are written down, and nothing else comes of them. -/
def Ignores (R : Radio σ) (h : Handle) (w : World (Recorded σ)) : Prop :=
  ∀ event : RadioEvent, event.handle? = some h →
    let w' := w.happen R (.operation (.radioEvent event))
    w'.central = w.central ∧ w'.radio.state = w.radio.state ∧
      w'.radio.log = w.radio.log ++ [.told event]

theorem onHandle_unknown (R : Radio σ) {h : Handle} {w : World σ}
    (unknown : w.central.registry.addressFor? h = none) (event : PeerEvent) :
    w.onHandle R h event = w := by
  simp only [onHandle, unknown]

/-- Every kind of event asks the index first. -/
theorem onRadioEvent_unknown (R : Radio σ) {event : RadioEvent} {h : Handle} {w : World σ}
    (names : event.handle? = some h) (unknown : w.central.registry.addressFor? h = none) :
    w.onRadioEvent R event = w := by
  cases event with
  | advertisement a data => cases names
  | connected k | disconnected k | servicesDiscovered k services | unitSizeChanged k size success =>
    obtain rfl := Option.some.inj names
    exact onHandle_unknown R unknown _
  | descriptorWritten k c value success =>
    obtain rfl := Option.some.inj names
    simp only [onRadioEvent]
    split
    · exact onHandle_unknown R unknown _
    · rfl
  | characteristicChanged k c value =>
    obtain rfl := Option.some.inj names
    simp only [onRadioEvent, onValue, unknown]
  | characteristicWritten k c value status =>
    obtain rfl := Option.some.inj names
    simp only [onRadioEvent, onWritten, unknown]

theorem ignores_of_free (R : Radio σ) {h : Handle} {w : World (Recorded σ)}
    (orderly : w.central.registry.Orderly) (free : h ∉ w.central.registry.held) : w.Ignores R h := by
  intro event names w'
  have unknown : (w.hear (some event)).central.registry.addressFor? h = none :=
    orderly.addressFor?_eq_none free
  have heard : w' = w.hear (some event) := onRadioEvent_unknown R.recorded names unknown
  rw [heard]
  exact ⟨rfl, rfl, rfl⟩

/-- Released connections are inert. Wherever a run leads, an event that names a handle no peer holds
is only written down. If the radio never gives out a handle twice, these are the handles that were
never given out and those that were given back; and once a handle was given back no peer ever holds
it again, so that it stays without effect however the run goes on. -/
theorem released_handles_inert (R : Radio σ) (settings : Settings) (s : σ)
    (history : List (Happening σ)) (h : Handle) :
    let w := outcome R settings s history
    (h ∉ w.central.registry.held → w.Ignores R h) ∧
    (w.radio.log.issued.Nodup →
      (h ∉ w.central.registry.held ↔ h ∉ w.radio.log.issued ∨ h ∈ w.radio.log.released)) ∧
    ∀ more,
      let w' := outcome R settings s (history ++ more)
      w'.radio.log.issued.Nodup → h ∈ w.radio.log.released ∨ h ∉ w'.radio.log.issued →
        h ∉ w'.central.registry.held ∧ w'.Ignores R h := by
  intro w
  refine ⟨ignores_of_free R (orderly_outcome R settings s history),
    (conserved_outcome R settings s history).not_held_iff, ?_⟩
  intro more w' distinct past
  have free : h ∉ w'.central.registry.held :=
    (conserved_outcome R settings s (history ++ more)).stays_free
      (prefix_log R settings s history more) distinct past
  exact ⟨free, ignores_of_free R (orderly_outcome R settings s (history ++ more)) free⟩

end World

namespace Encounter

def meeting : List (Happening SimulatedRadio) :=
  [.operation (.radioEvent (.advertisement ⟨"a"⟩ invitation)), .operation .dispatchNext]

def parting : List (Happening SimulatedRadio) :=
  .operation .start :: meeting ++ [.operation (.disconnect ⟨"a"⟩)]

end Encounter

namespace World

open Encounter

/-- A peer that was sent away is met again: its first handle is without effect on the second. -/
theorem released_handle_of_reunion :
    let v := outcome SimulatedRadio.radio settings {} parting
    let w := outcome SimulatedRadio.radio settings {} (parting ++ meeting)
    v.radio.log.released = [⟨1⟩] ∧ w.radio.log.issued = [⟨1⟩, ⟨2⟩] ∧
      w.central.registry.held = [⟨2⟩] ∧ w.Ignores SimulatedRadio.radio ⟨1⟩ := by
  have released : (outcome SimulatedRadio.radio settings {} parting).radio.log.released = [⟨1⟩] := by cbv
  have issued : (outcome SimulatedRadio.radio settings {} (parting ++ meeting)).radio.log.issued =
      [⟨1⟩, ⟨2⟩] := by cbv
  have held : (outcome SimulatedRadio.radio settings {} (parting ++ meeting)).central.registry.held =
      [⟨2⟩] := by cbv
  obtain ⟨-, -, later⟩ := released_handles_inert SimulatedRadio.radio settings {} parting ⟨1⟩
  have distinct : [(⟨1⟩ : Handle), ⟨2⟩].Nodup := by decide
  have back : (⟨1⟩ : Handle) ∈ [(⟨1⟩ : Handle)] := by decide
  obtain ⟨-, ignored⟩ := later meeting (issued ▸ distinct) (Or.inl (released ▸ back))
  exact ⟨released, issued, held, ignored⟩

end World

end RadioCentral
