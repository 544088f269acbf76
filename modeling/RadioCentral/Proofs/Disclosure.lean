import RadioCentral.Proofs.LinkProtocol

/-!
Where the requests on characteristics come from. What a peer has discovered was told of on its handle. A
write names a characteristic that was told of on the handle of the write, and a descriptor that is written
to is that of one.
-/
namespace RadioCentral

open Registry (Step)

variable {σ : Type}

/-- The services of a peer were told of on a handle, and the wanted one has the characteristics `cs`. -/
def Told (service : Uuid) (history : List (Happening σ)) (h : Handle) (cs : List Characteristic) : Prop :=
  ∃ services, .operation (.radioEvent (.servicesDiscovered h services)) ∈ history ∧
    World.wantedCharacteristics service services = some cs

theorem Told.later {service : Uuid} {history : List (Happening σ)} {h : Handle} {cs : List Characteristic}
    (told : Told service history h cs) (more : List (Happening σ)) : Told service (history ++ more) h cs :=
  told.imp fun _ known => ⟨List.mem_append_left more known.1, known.2⟩

theorem Peer.Proceeds.discovered {policy : LinkPolicy} {p q : Peer} {event : PeerEvent} {actions : List Action}
    (moved : p.Proceeds policy event q actions) :
    q.discovered = p.discovered ∨ ∃ cs, event = .servicesDiscovered (some cs) ∧ q.discovered = some cs := by
  cases moved with
  | subscribe => exact .inr ⟨_, rfl, rfl⟩
  | negotiate done | ready done =>
    cases done with
    | nothingWanted => exact .inr ⟨_, rfl, rfl⟩
    | lastEnabled => exact .inl rfl
  | request | linkUp | reject | negotiated | unnegotiated | leave | note | enabled | settled | late =>
    exact .inl rfl

/-- Steps write to no characteristic. -/
theorem Registry.write_notMem_owed {h k : Handle} {u : Uuid} {data : Bytes} {mode : WriteMode} {steps : List Step} :
    .write k u data mode ∉ owed h steps := by
  intro mem
  obtain ⟨step, -, its⟩ := List.mem_flatMap.1 (List.mem_filter.1 mem).1
  cases step with
  | release => simp [Step.requests] at its
  | run action handle =>
    cases handle with
    | none => cases its
    | some => cases action <;> simp [Step.requests, Action.requests, switching] at its

section

variable (told : Handle → List Characteristic → Prop)

def Registry.Discloses (r : Registry) : Prop :=
  ∀ a p cs, r.get? a = some p → p.discovered = some cs → ∃ h, p.handle = some h ∧ told h cs

def Log.Discloses (log : Log) : Prop :=
  ∀ h u data mode, .write h u data mode ∈ log.requestsOn h →
    ∃ cs c, told h cs ∧ cs.find? (fun c => c.uuid = u) = some c ∧ c.isWritable = true

structure World.Discloses (w : World (Recorded σ)) : Prop where
  peers : w.central.registry.Discloses told
  writes : w.radio.log.Discloses told

end

variable {told told' : Handle → List Characteristic → Prop}

section

variable {r : Registry} {log more : Log} {a : Address} {policy : LinkPolicy} {event : PeerEvent}

theorem Registry.Discloses.advance (discloses : r.Discloses told)
    (means : ∀ cs, event = .servicesDiscovered (some cs) →
      ∀ p, r.get? a = some p → ∃ h, p.handle = some h ∧ told h cs) :
    (r.advance policy a event).2.Discloses told := by
  intro b q cs there known
  have spec := r.advance_spec policy a event
  generalize (r.advance policy a event).1 = steps at spec
  generalize (r.advance policy a event).2 = after at spec there
  cases spec with
  | ignored => exact discloses b q cs there known
  | @kept p _ actions here moved =>
    rw [get?_putBack here moved] at there
    split at there
    case isTrue =>
      cases there
      rw [moved.handle_eq]
      rcases moved.discovered with same | ⟨_, tells, new⟩
      · exact discloses a p cs here (same ▸ known)
      · obtain rfl := Option.some.inj (new.symm.trans known)
        exact means _ tells p here
    case isFalse => exact discloses b q cs there known
  | ended =>
    rw [get?_remove] at there
    split at there
    · cases there
    · exact discloses b q cs there known

theorem Registry.Discloses.enroll (discloses : r.Discloses told) (unknown : r.contains a = false) :
    (r.enroll a).Discloses told := by
  intro b p cs here known
  rw [get?_enroll unknown] at here
  split at here
  · cases here
    cases known
  · exact discloses b p cs here known

/-- Who has no handle yet has discovered nothing. -/
theorem Registry.Discloses.attach {p : Peer} {h : Handle} (discloses : r.Discloses told)
    (here : r.get? a = some p) (bare : p.handle = none) (phase : p.phase = .connecting) :
    (r.attach a h).2.Discloses told := by
  intro b q cs there known
  rw [get?_attach here bare phase] at there
  split at there
  · cases there
    obtain ⟨k, holds, -⟩ := discloses a p cs here known
    rw [bare] at holds
    cases holds
  · exact discloses b q cs there known

theorem Log.Discloses.append (discloses : log.Discloses told)
    (silent : ∀ h u data mode, .write h u data mode ∉ more.requestsOn h) : (log ++ more).Discloses told := by
  intro h u data mode asked
  rw [requestsOn_append] at asked
  exact discloses h u data mode ((List.mem_append.1 asked).resolve_right (silent h u data mode))

theorem Log.Discloses.dials {answer : Option Handle} (discloses : log.Discloses told) (dials : Dials a more answer) :
    (log ++ more).Discloses told :=
  discloses.append fun h _ _ _ asked => by simp [dials.requestsOn_eq h] at asked

end

namespace World

/-- Services that a peer is told of were told of on its handle. -/
theorem Reaches.tells {w : World σ} {event : RadioEvent} {a : Address} {cs : List Characteristic}
    (reaches : w.Reaches event a (.servicesDiscovered (some cs))) (orderly : w.central.registry.Orderly) :
    ∃ k p services, event = .servicesDiscovered k services ∧
      wantedCharacteristics w.central.settings.service services = some cs ∧
      w.central.registry.get? a = some p ∧ p.handle = some k := by
  obtain ⟨k, p, means, -, here, holds⟩ := reaches.holds orderly
  cases event with
  | servicesDiscovered k services =>
    simp only [RadioEvent.peerEvent?, Option.some.injEq, Prod.mk.injEq, PeerEvent.servicesDiscovered.injEq] at means
    obtain ⟨rfl, found⟩ := means
    exact ⟨k, p, services, rfl, found, here, holds⟩
  | descriptorWritten k c value success =>
    simp only [RadioEvent.peerEvent?, Option.map_eq_some_iff, Prod.mk.injEq] at means
    obtain ⟨_, stands, -, rfl⟩ := means
    unfold Subscription.resultEvent? at stands
    (repeat' split at stands) <;> cases stands
  | connected | disconnected | unitSizeChanged | advertisement | characteristicChanged | characteristicWritten =>
    cases means

namespace Discloses

variable {R : Radio σ} {a : Address} {event : PeerEvent} {w w' : World (Recorded σ)}

theorem mono (discloses : w.Discloses told) (wider : ∀ h cs, told h cs → told' h cs) : w.Discloses told' where
  peers a p cs here known := (discloses.peers a p cs here known).imp fun h => And.imp_right (wider h cs)
  writes h u data mode asked := by
    obtain ⟨cs, c, known, found⟩ := discloses.writes h u data mode asked
    exact ⟨cs, c, wider h cs known, found⟩

theorem settle {steps : List Step} (discloses : w.Discloses told) :
    (w.settle R.recorded a steps []).Discloses told := by
  refine settle_recorded (I := fun _ _ w => w.Discloses told) ?execute ?transition discloses
  case execute =>
    intro step steps events w log event now grown carried _
    refine ⟨(registry_execute ..).symm ▸ now.peers, grown.symm ▸ now.writes.append fun h u data mode asked => ?_⟩
    rw [carried.requestsOn h] at asked
    exact Registry.write_notMem_owed asked
  case transition =>
    intro event events w followUp now
    refine ⟨now.peers.advance fun cs same => ?_, now.writes⟩
    rw [same] at followUp
    cases followUp

theorem drive (discloses : w.Discloses told)
    (means : ∀ cs, event = .servicesDiscovered (some cs) →
      ∀ p, w.central.registry.get? a = some p → ∃ h, p.handle = some h ∧ told h cs) :
    (w.drive R.recorded a event).Discloses told := by
  rw [drive_eq]
  exact settle ⟨discloses.peers.advance means, discloses.writes⟩

theorem hear (event : RadioEvent) (discloses : w.Discloses told) : (w.hear (some event)).Discloses told :=
  ⟨discloses.peers, discloses.writes.append (by simp [Log.requestsOn_told])⟩

/-- One turn keeps to what was told of, and may be the one that tells. -/
theorem turn {x : Happening σ} (discloses : w.Discloses told) (turn : Turn R x w w')
    (orderly : w.central.registry.Orderly)
    (tells : ∀ h cs services, x = .operation (.radioEvent (.servicesDiscovered h services)) →
      wantedCharacteristics w.central.settings.service services = some cs → told h cs) :
    w'.Discloses told := by
  cases turn with
  | quiet registry _ grown idle =>
    refine ⟨registry ▸ discloses.peers, grown ▸ discloses.writes.append fun h u data mode asked => ?_⟩
    obtain ⟨e, mem, its⟩ := List.mem_filterMap.1 (List.mem_filter.1 asked).1
    rcases idle e mem with ⟨request, answer, rfl, free⟩ | ⟨event, rfl, -⟩
    · cases its
      cases free
    · cases its
  | @reached _ event a told reaches =>
    refine (discloses.hear event).drive fun cs same p here => ?_
    subst same
    obtain ⟨k, q, services, rfl, found, there, holds⟩ := reaches.tells orderly
    obtain rfl : p = q := Option.some.inj (here.symm.trans there)
    exact ⟨k, holds, tells k cs services rfl found⟩
  | disconnected => exact discloses.drive nofun
  | @admitted _ _ a data unknown =>
    exact settle ⟨discloses.peers.enroll unknown, (discloses.hear (.advertisement a data)).writes⟩
  | passed _ registry log | dropped registry log => exact ⟨registry ▸ discloses.peers, log ▸ discloses.writes⟩
  | attached here phase bare registry grown dials =>
    exact ⟨registry ▸ discloses.peers.attach here bare phase, grown ▸ discloses.writes.dials dials⟩
  | failed _ registry grown dials =>
    exact drive ⟨registry ▸ discloses.peers, grown ▸ discloses.writes.dials dials⟩ nofun
  | @written _ _ _ a p k u data answer here ready holds registry _ grown offered =>
    refine ⟨registry ▸ discloses.peers, fun h v value mode asked => ?_⟩
    rw [grown, Log.requestsOn_append, Log.requestsOn_asked] at asked
    rcases List.mem_append.1 asked with old | new
    · exact discloses.writes h v value mode old
    · split at new
      case isFalse => cases new
      case isTrue =>
        obtain ⟨rfl, rfl, -, -⟩ : h = k ∧ v = u ∧ value = data ∧ mode = .withResponse := by simpa using new
        obtain ⟨t, found, writable⟩ := offered
        obtain ⟨cs, known, among⟩ := Option.bind_eq_some_iff.1 found
        obtain ⟨k, linked, known⟩ := discloses.peers a p cs here known
        obtain rfl := Option.some.inj (holds.symm.trans linked)
        exact ⟨cs, t, known, among, writable⟩
  | reset order =>
    obtain ⟨more, grown, -, requests⟩ := log_reset R w order
    refine ⟨?_, grown ▸ discloses.writes.append fun h u data mode asked => ?_⟩
    · rw [registry_reset]
      exact fun a p cs here => by cases here
    · have mem := (List.mem_filter.1 asked).1
      simp [requests] at mem

end Discloses

theorem discloses_outcome (R : Radio σ) (settings : Settings) (s : σ) (history : List (Happening σ)) :
    (outcome R settings s history).Discloses (Told settings.service history) := by
  have all := history_induction R settings s
    (P := fun history w => w.central.registry.Orderly ∧ w.Discloses (Told settings.service history))
    ?start ?grow ?turn history
  case start =>
    refine ⟨Registry.orderly_empty, fun a p cs here => ?_, fun h u data mode asked => ?_⟩
    · cases here
    · cases asked
  case grow =>
    exact fun history x now => ⟨now.1, now.2.mono fun h cs told => told.later [x]⟩
  case turn =>
    rintro history x w w' - same - turn ⟨orderly, discloses⟩
    refine ⟨orderly_turn turn orderly, discloses.turn turn orderly fun h cs services tells found => ?_⟩
    exact ⟨services, by simp [tells], same ▸ found⟩
  exact all.2

end World

/-- Whatever is asked for on a handle is part of a conversation, or the release. -/
theorem Spoken.conversed {size : UInt16} {found : List Characteristic → List Characteristic → Prop} {wiped : Prop}
    {h : Handle} {r : Registry} {log : Log} {request : Request} (spoken : Spoken size found wiped h r log [])
    (asked : request ∈ log.requestsOn h) :
    request = .release h ∨ ∃ all, Conversation size found log h all ∧ request ∈ all := by
  have whole : log.requestsOn h ++ Registry.owed h [] = log.requestsOn h := List.append_nil _
  by_cases issued : h ∈ log.issued
  · by_cases held : ∃ a p, r.get? a = some p ∧ p.handle = some h
    · obtain ⟨a, p, here, holds⟩ := held
      obtain ⟨all, conversation, begun⟩ := (spoken.holding a p here holds).2.beginning
      exact .inr ⟨all, conversation, begun.subset (whole.symm ▸ asked)⟩
    · obtain ⟨all, before, conversation, ended, said⟩ :=
        spoken.gone (fun a p here holds => held ⟨a, p, here, holds⟩) issued
      rw [whole] at said
      rw [said] at asked
      rcases List.mem_append.1 asked with mem | last
      · rcases ended with rfl | ⟨-, begun⟩
        · exact .inr ⟨_, conversation, mem⟩
        · exact .inr ⟨_, conversation, begun.subset mem⟩
      · exact .inl (List.mem_singleton.1 last)
  · have nothing := spoken.unissued issued
    rw [whole] at nothing
    rw [nothing] at asked
    cases asked

/-- A descriptor that is written to in a conversation is the configuration of a target. -/
theorem Conversation.configures {size : UInt16} {found : List Characteristic → List Characteristic → Prop}
    {log : Log} {h k : Handle} {said : List Request} {d : Descriptor} {value : Bytes}
    (all : Conversation size found log h said) (asked : .writeDescriptor k d value ∈ said) :
    ∃ cs targets c, found cs targets ∧ c ∈ targets ∧ c.clientConfiguration? = some d := by
  have switches {cs targets : List Characteristic} {enable : Bool} (services : found cs targets)
      (mem : .writeDescriptor k d value ∈ targets.flatMap (switching h enable)) :
      ∃ cs targets c, found cs targets ∧ c ∈ targets ∧ c.clientConfiguration? = some d := by
    obtain ⟨c, target, its⟩ := List.mem_flatMap.1 mem
    refine ⟨cs, targets, c, services, target, ?_⟩
    simp only [switching, List.mem_cons, reduceCtorEq, List.mem_map, Option.mem_toList, false_or] at its
    obtain ⟨e, config, same⟩ := its
    cases same
    exact config
  cases all with
  | unused | discovered | undiscovered | unsuited => simp at asked
  | served services _ negotiated written =>
    simp only [List.mem_cons, reduceCtorEq, List.mem_append, false_or] at asked
    rcases asked with ((on | negotiation) | writes) | off
    · exact switches services on
    · rcases negotiated with rfl | rfl <;> simp at negotiation
    · obtain ⟨_, _, same⟩ := written _ writes
      cases same
    · exact switches services off
  | unsubscribed services =>
    simp only [List.mem_cons, reduceCtorEq, List.mem_append, false_or, List.not_mem_nil, or_false] at asked
    exact asked.elim (switches services) (switches services)

namespace World

/-- On a handle that stands for one connection, the descriptors that are written to are configurations of
characteristics that were told of on it. -/
theorem configures_outcome {R : Radio σ} {settings : Settings} {s : σ} {history : List (Happening σ)}
    {h : Handle} {d : Descriptor} {value : Bytes}
    (single : (outcome R settings s history).radio.log.issued.count h ≤ 1)
    (asked : .writeDescriptor h d value ∈ (outcome R settings s history).radio.log.requestsOn h) :
    ∃ cs c, Told settings.service history h cs ∧ c ∈ cs ∧ c.clientConfiguration? = some d := by
  obtain same | ⟨all, conversation, mem⟩ := (spoken_outcome R settings s h history single).conversed asked
  · cases same
  · obtain ⟨cs, targets, c, ⟨before, services, after, rfl, -, finds⟩, target, config⟩ := conversation.configures mem
    simp only [World.finds, settings_outcome, Prod.mk.injEq] at finds
    obtain ⟨rfl, rfl⟩ := finds
    cases wanted : wantedCharacteristics settings.service services with
    | none => simp [wanted] at target
    | some cs =>
      refine ⟨cs, c, ⟨services, by simp, wanted⟩, ?_, config⟩
      simpa [wanted] using (List.mem_filter.1 target).1

end World

end RadioCentral
