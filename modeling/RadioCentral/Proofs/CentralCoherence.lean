import RadioCentral.Proofs.HandleConservation

/-!
Between operations the peers, the index of handles and the open attempts agree, and an attempt is open
exactly until its peer is ready for the first time.
-/
namespace RadioCentral

open Registry (Step)

variable {σ : Type}

namespace Peer

/-- A ready peer has no use for follow-ups. -/
theorem react_of_ready {p : Peer} {policy : LinkPolicy} {event : PeerEvent} (ready : p.phase = .ready)
    (followUp : event.isFollowUp = true) : p.react policy event = .refused p := by
  cases event with
  | connectRequested | linkUp | linkDown | servicesDiscovered | unitSizeReported
  | disconnectRequested => cases followUp
  | connectFailed | discoveryRefused | enabled | enableFailed | negotiationUnavailable
  | disableSettled | disableRefused => simp [react, during, ready]

/-- A connection that is over, or has never begun, is not taken up again by a follow-up. -/
theorem Proceeds.away {p q : Peer} {policy : LinkPolicy} {event : PeerEvent} {actions : List Action}
    (h : p.Proceeds policy event q actions) (followUp : event.isFollowUp = true)
    (away : p.phase.isEstablishing = false ∧ p.phase ≠ .ready) :
    q.phase.isEstablishing = false ∧ q.phase ≠ .ready := by
  obtain ⟨early, done⟩ := away
  cases h with
  | settled | late => exact ⟨early, done⟩
  | leave => exact ⟨rfl, by simp [leaving]⟩
  | reject => exact ⟨rfl, by simp⟩
  | request | linkUp | note | negotiated | subscribe => cases followUp
  | unnegotiated phase | enabled phase => simp [phase, Phase.isEstablishing] at early
  | negotiate done | ready done =>
    cases done with
    | nothingWanted => cases followUp
    | lastEnabled phase => simp [phase, Phase.isEstablishing] at early

theorem Proceeds.phase_of_disconnectRequested {p q : Peer} {policy : LinkPolicy}
    {actions : List Action} (h : p.Proceeds policy .disconnectRequested q actions) :
    q.phase = .disconnecting := by
  cases h with
  | leave => rfl
  | late phase => exact phase
  | negotiate done | ready done => cases done

end Peer

namespace Registry

structure Narrows (a : Address) (r r' : Registry) : Prop where
  known : ∀ b, r'.contains b = true → r.contains b = true
  opened : ∀ b ∈ r'.connecting, b ∈ r.connecting
  kept : ∀ b ∈ r.connecting, r'.contains b = true →
    b ∈ r'.connecting ∨ (b = a ∧ r'.isReady a = true)

theorem Narrows.refl (a : Address) (r : Registry) : r.Narrows a r :=
  ⟨fun _ h => h, fun _ h => h, fun _ h _ => Or.inl h⟩

theorem Narrows.trans {a : Address} {r r' r'' : Registry} (first : r.Narrows a r')
    (second : r'.Narrows a r'') (still : r'.isReady a = true → r''.isReady a = true) :
    r.Narrows a r'' := by
  refine ⟨fun b hb => first.known b (second.known b hb),
    fun b hb => first.opened b (second.opened b hb), fun b hb there => ?_⟩
  rcases first.kept b hb (second.known b there) with open' | ⟨rfl, ready⟩
  · exact second.kept b open' there
  · exact Or.inr ⟨rfl, still ready⟩

theorem isReady_iff {r : Registry} {a : Address} :
    r.isReady a = true ↔ ∃ p, r.get? a = some p ∧ p.phase = .ready := by
  cases here : r.get? a <;> simp [isReady, here, Peer.isReady]

theorem contains_of_isReady {r : Registry} {a : Address} (ready : r.isReady a = true) :
    r.contains a = true := by
  obtain ⟨p, here, -⟩ := isReady_iff.1 ready
  exact contains_iff.2 ⟨p, here⟩

theorem narrows_advance (policy : LinkPolicy) (a : Address) (event : PeerEvent) (r : Registry) :
    r.Narrows a (r.advance policy a event).2 := by
  have spec := r.advance_spec policy a event
  generalize (r.advance policy a event).1 = steps at spec
  generalize (r.advance policy a event).2 = after at spec ⊢
  cases spec with
  | ignored => exact Narrows.refl a r
  | @kept p q actions here moved =>
    constructor
    case known =>
      intro b hb
      rw [← mem_known, known_putBack, mem_known] at hb
      exact hb
    case opened => exact fun b hb => (mem_connecting_putBack.1 hb).1
    case kept =>
      intro b hb _
      by_cases done : q.phase = .ready ∧ b = a
      · have there : (r.putBack a q).get? a = some q := by rw [get?_putBack here moved, if_pos rfl]
        exact Or.inr ⟨done.2, isReady_iff.2 ⟨q, there, done.1⟩⟩
      · exact Or.inl (mem_connecting_putBack.2 ⟨hb, fun ready same => done ⟨ready, same⟩⟩)
  | @ended p before here ended =>
    have attempts : ∀ b, b ∈ (r.remove a).2.connecting ↔ b ∈ r.connecting ∧ b ≠ a := by
      simp [remove, here]
    constructor
    case known =>
      intro b hb
      rw [← mem_known] at hb ⊢
      exact (known_remove_sublist r a).subset hb
    case opened => exact fun b hb => ((attempts b).1 hb).1
    case kept =>
      intro b hb there
      refine Or.inl ((attempts b).2 ⟨hb, ?_⟩)
      rintro rfl
      rw [contains, get?_remove_self] at there
      cases there

theorem isReady_advance {policy : LinkPolicy} {a : Address} {event : PeerEvent} {r : Registry}
    (followUp : event.isFollowUp = true) (ready : r.isReady a = true) :
    (r.advance policy a event).2.isReady a = true := by
  obtain ⟨p, here, phase⟩ := isReady_iff.1 ready
  have refused : p.react policy event = .refused p := Peer.react_of_ready phase followUp
  rw [advance_of_refused fun q there => Option.some.inj (here.symm.trans there) ▸ refused]
  exact ready

def Away (r : Registry) (a : Address) : Prop :=
  ∀ p, r.get? a = some p → p.phase.isEstablishing = false ∧ p.phase ≠ .ready

theorem Away.not_ready {r : Registry} {a : Address} (h : r.Away a) : r.isReady a ≠ true := by
  intro ready
  obtain ⟨p, here, phase⟩ := isReady_iff.1 ready
  exact (h p here).2 phase

theorem away_of_advance {policy : LinkPolicy} {a : Address} {event : PeerEvent} {r : Registry}
    (refused : ∀ p, r.get? a = some p → p.react policy event = .refused p →
      p.phase.isEstablishing = false ∧ p.phase ≠ .ready)
    (moved : ∀ p q actions, r.get? a = some p → p.Proceeds policy event q actions →
      q.phase.isEstablishing = false ∧ q.phase ≠ .ready) : (r.advance policy a event).2.Away a := by
  have spec := r.advance_spec policy a event
  generalize (r.advance policy a event).1 = steps at spec
  generalize (r.advance policy a event).2 = after at spec ⊢
  intro s hs
  cases spec with
  | ignored why => exact refused s hs (why s hs)
  | @kept p q actions here proceeds =>
    rw [get?_putBack here proceeds, if_pos rfl] at hs
    obtain rfl : q = s := by simpa using hs
    exact moved p q actions here proceeds
  | ended => simp [get?_remove_self] at hs

theorem away_disconnectRequested (policy : LinkPolicy) (a : Address) (r : Registry) :
    (r.advance policy a .disconnectRequested).2.Away a := by
  refine away_of_advance (fun p _ refused => ?_) fun p q actions _ proceeds => ?_
  · simp only [Peer.react, Peer.leave] at refused
    split at refused
    · cases refused
    · revert refused
      cases p.phase <;> simp [Phase.isEstablishing]
  · simp [proceeds.phase_of_disconnectRequested, Phase.isEstablishing]

theorem Away.advance {policy : LinkPolicy} {a : Address} {event : PeerEvent} {r : Registry}
    (h : r.Away a) (followUp : event.isFollowUp = true) : (r.advance policy a event).2.Away a :=
  away_of_advance (fun p here _ => h p here) fun p _ _ here proceeds =>
    proceeds.away followUp (h p here)

end Registry

namespace World

/-- A property of registries that every follow-up keeps. -/
theorem settle_keeps {P : Registry → Prop} {R : Radio σ} {a : Address} {steps : List Step}
    {w : World (Recorded σ)} (h : P w.central.registry)
    (advance : ∀ r policy event, event.isFollowUp = true → P r → P (r.advance policy a event).2) :
    P (w.settle R.recorded a steps []).central.registry := by
  refine settle_recorded (I := fun _ _ w => P w.central.registry) ?_ ?_ h
  · intro step steps events w log event now _ _ _
    rw [registry_execute]
    exact now
  · exact fun event events w followUp now => advance _ _ event followUp now

theorem orderly_settle {R : Radio σ} {a : Address} {steps : List Step} {w : World (Recorded σ)}
    (h : w.central.registry.Orderly) :
    (w.settle R.recorded a steps []).central.registry.Orderly := by
  refine settle_keeps h fun r policy event followUp now => now.advance policy a event fun up => ?_
  rw [up] at followUp
  cases followUp

theorem orderly_drive {R : Radio σ} {a : Address} {event : PeerEvent} {w : World (Recorded σ)}
    (h : w.central.registry.Orderly)
    (linked : event = .linkUp → ∀ p, w.central.registry.get? a = some p → p.handle.isSome) :
    (w.drive R.recorded a event).central.registry.Orderly := by
  rw [drive_eq]
  exact orderly_settle (h.advance _ a event linked)

/-- An event of the radio reaches a peer that holds the handle it names. -/
theorem Reaches.holds {w : World σ} {event : RadioEvent} {a : Address} {told : PeerEvent}
    (h : w.Reaches event a told) (orderly : w.central.registry.Orderly) :
    ∃ k p, event.peerEvent? w.central.settings.service = some (k, told) ∧
      w.central.registry.addressFor? k = some a ∧ w.central.registry.get? a = some p ∧
      p.handle = some k := by
  obtain ⟨k, means, known⟩ := h
  obtain ⟨p, here, holds⟩ := orderly.indexed k a known
  exact ⟨k, p, means, known, here, holds⟩

/-- The link that comes up is the one of the peer that is told so. -/
theorem Reaches.linked {w : World σ} {event : RadioEvent} {a : Address} {told : PeerEvent}
    (h : w.Reaches event a told) (orderly : w.central.registry.Orderly) :
    told = .linkUp → ∀ p, w.central.registry.get? a = some p → p.handle.isSome := by
  intro _ p here
  obtain ⟨k, q, -, -, there, holds⟩ := h.holds orderly
  obtain rfl : q = p := Option.some.inj (there.symm.trans here)
  simp [holds]

theorem orderly_turn {R : Radio σ} {x : Happening σ} {w w' : World (Recorded σ)}
    (turn : Turn R x w w') (h : w.central.registry.Orderly) : w'.central.registry.Orderly := by
  cases turn with
  | quiet registry | passed _ registry | written _ _ _ registry | dropped registry =>
    rw [registry]
    exact h
  | reached reaches => exact orderly_drive h (reaches.linked h)
  | disconnected => exact orderly_drive h fun up => by cases up
  | admitted unknown => exact orderly_settle (h.enroll unknown)
  | attached here phase bare registry =>
    rw [registry]
    exact h.attach here bare phase
  | failed _ registry =>
    refine orderly_drive ?_ fun up => by cases up
    rw [registry]
    exact h
  | reset =>
    rw [registry_reset]
    exact Registry.orderly_empty

theorem orderly_outcome (R : Radio σ) (settings : Settings) (s : σ) (history : List (Happening σ)) :
    (outcome R settings s history).central.registry.Orderly :=
  outcome_induction R settings s (P := fun w => w.central.registry.Orderly) Registry.orderly_empty
    (fun _ _ _ turn h => orderly_turn turn h) history

theorem leads_settle {R : Radio σ} {a : Address} {h : Handle} {steps : List Step}
    {w : World (Recorded σ)} (leads : w.central.registry.Leads h) :
    (w.settle R.recorded a steps []).central.registry.Leads h :=
  settle_keeps leads fun _ policy event _ now => now.advance policy a event

theorem leads_drive {R : Radio σ} {a : Address} {h : Handle} {event : PeerEvent}
    {w : World (Recorded σ)} (leads : w.central.registry.Leads h) :
    (w.drive R.recorded a event).central.registry.Leads h := by
  rw [drive_eq]
  exact leads_settle (leads.advance _ a event)

theorem traced_drive {R : Radio σ} {a : Address} {event : PeerEvent} {w : World (Recorded σ)}
    (h : w.central.registry.Traced) : (w.drive R.recorded a event).central.registry.Traced :=
  fun b p k => leads_drive (h.leads k) b p

/-- A handle that is given out once leads to its holder after every turn. -/
theorem leads_turn {R : Radio σ} {x : Happening σ} {w w' : World (Recorded σ)} {h : Handle}
    (turn : Turn R x w w') (conserved : Conserved w.central.registry w.radio.log [])
    (single : w'.radio.log.issued.count h ≤ 1) (leads : w.central.registry.Leads h) :
    w'.central.registry.Leads h := by
  cases turn with
  | quiet registry | passed _ registry | written _ _ _ registry | dropped registry =>
    rw [registry]
    exact leads
  | reached | disconnected => exact leads_drive leads
  | admitted unknown => exact leads_settle (leads.enroll unknown)
  | @attached _ _ _ _ _ new _ here phase bare registry grown dials =>
    rw [registry]
    refine leads.attach here bare phase fun same => Registry.unshared_of_not_held fun held => ?_
    subst same
    have old := conserved.balance.symm.subset (List.mem_append_left _ held)
    have some := List.count_pos_iff.2 old
    simp only [grown, Log.issued_append, dials.issued_eq, List.count_append, Option.toList_some,
      List.count_singleton_self] at single
    omega
  | failed _ registry =>
    refine leads_drive ?_
    rw [registry]
    exact leads
  | reset =>
    rw [registry_reset]
    exact fun a p here => Registry.traced_empty a p h here

theorem traced_turn {R : Radio σ} {x : Happening σ} {w w' : World (Recorded σ)}
    (turn : Turn R x w w') (conserved : Conserved w.central.registry w.radio.log [])
    (distinct : w'.radio.log.issued.Nodup) (h : w.central.registry.Traced) :
    w'.central.registry.Traced := fun b p k =>
  leads_turn turn conserved (List.nodup_iff_count_le_one.1 distinct k) (h.leads k) b p

/-- A handle that is held leads to its holder if it was given out once. -/
theorem leads_outcome (R : Radio σ) (settings : Settings) (s : σ) (history : List (Happening σ))
    {h : Handle} (single : (outcome R settings s history).radio.log.issued.count h ≤ 1) :
    (outcome R settings s history).central.registry.Leads h := by
  have both := outcome_induction R settings s
    (P := fun w => Conserved w.central.registry w.radio.log [] ∧
      (w.radio.log.issued.count h ≤ 1 → w.central.registry.Leads h))
    ?start ?turn history
  case start => exact ⟨conserved_empty, fun _ a p here => Registry.traced_empty a p h here⟩
  case turn =>
    rintro x w w' turn ⟨conserved, leads⟩
    refine ⟨conserved_turn turn conserved, fun single => ?_⟩
    have before := (issued_turn R turn).count_le h
    exact leads_turn turn conserved single (leads (Nat.le_trans before single))
  exact both.2 single

/-- Every handle that is held leads to its holder if no handle was given out twice. -/
theorem traced_outcome (R : Radio σ) (settings : Settings) (s : σ) (history : List (Happening σ))
    (distinct : (outcome R settings s history).radio.log.issued.Nodup) :
    (outcome R settings s history).central.registry.Traced := fun a p k =>
  leads_outcome R settings s history (List.nodup_iff_count_le_one.1 distinct k) a p

theorem narrows_settle {R : Radio σ} {a : Address} {steps : List Step} {r : Registry}
    {w : World (Recorded σ)} (h : r.Narrows a w.central.registry) :
    r.Narrows a (w.settle R.recorded a steps []).central.registry :=
  settle_keeps h fun _ policy event followUp now =>
    now.trans (Registry.narrows_advance policy a event _) (Registry.isReady_advance followUp)

theorem narrows_drive (R : Radio σ) (a : Address) (event : PeerEvent) (w : World (Recorded σ)) :
    w.central.registry.Narrows a (w.drive R.recorded a event).central.registry := by
  rw [drive_eq]
  exact narrows_settle (Registry.narrows_advance _ a event _)

/-- A peer that is asked to go does not get ready. -/
theorem away_disconnect (R : Radio σ) (a : Address) (w : World (Recorded σ)) :
    (w.disconnect R.recorded a).central.registry.Away a := by
  rw [disconnect, drive_eq]
  exact settle_keeps (P := fun r => r.Away a) (Registry.away_disconnectRequested _ a _)
    fun _ _ _ followUp now => now.advance followUp

end World

namespace Registry

/-- What one operation may do to who is known and to which attempts are open: an attempt is open
afterwards if it was before or its peer is new, and has not come to anything. -/
structure Evolves (r r' : Registry) : Prop where
  opened : ∀ b ∈ r'.connecting, r.contains b = true → b ∈ r.connecting
  kept : ∀ b, r'.contains b = true → (r.contains b = true → b ∈ r.connecting) →
    b ∈ r'.connecting ∨ r'.isReady b = true

theorem Narrows.evolves {a : Address} {r r' : Registry} (h : r.Narrows a r') : r.Evolves r' := by
  refine ⟨fun b hb _ => h.opened b hb, fun b there before => ?_⟩
  rcases h.kept b (before (h.known b there)) there with open' | ⟨rfl, ready⟩
  · exact Or.inl open'
  · exact Or.inr ready

theorem Narrows.evolves_enroll {a : Address} {r r' : Registry} (unknown : r.contains a = false)
    (h : (r.enroll a).Narrows a r') : r.Evolves r' := by
  have attempts : ∀ b, b ∈ (r.enroll a).connecting ↔ b ∈ r.connecting ∨ b = a := by
    simp [enroll, lodge]
  have there : ∀ b, (r.enroll a).contains b = true → r.contains b = true ∨ b = a := fun b hb => by
    by_cases same : b = a
    · exact Or.inr same
    · rw [contains, get?_enroll unknown, if_neg same] at hb
      exact Or.inl hb
  refine ⟨fun b hb known => ?_, fun b known before => ?_⟩
  · refine ((attempts b).1 (h.opened b hb)).resolve_right ?_
    rintro rfl
    rw [unknown] at known
    cases known
  · have opened : b ∈ (r.enroll a).connecting :=
      (attempts b).2 ((there b (h.known b known)).imp_left before)
    rcases h.kept b opened known with open' | ⟨rfl, ready⟩
    · exact Or.inl open'
    · exact Or.inr ready

theorem Evolves.refl (r : Registry) : r.Evolves r :=
  (Narrows.refl default r).evolves

theorem evolves_attach {r : Registry} {a : Address} {p : Peer} {h : Handle} (here : r.get? a = some p)
    (bare : p.handle = none) (phase : p.phase = .connecting) : r.Evolves (r.attach a h).2 := by
  rw [attach_eq here bare phase]
  refine ⟨fun b hb _ => hb, fun b there before => Or.inl (before ?_)⟩
  have same := known_replace r { p with handle := some h }
  rw [← mem_known] at there ⊢
  rw [← same]
  exact there

structure Wanes (r r' : Registry) : Prop where
  known : ∀ b, r'.contains b = true → r.contains b = true
  opened : ∀ b ∈ r'.connecting, b ∈ r.connecting
  kept : ∀ b ∈ r.connecting, r'.contains b = true → b ∈ r'.connecting

theorem Wanes.trans {r r' r'' : Registry} (first : r.Wanes r') (second : r'.Wanes r'') :
    r.Wanes r'' :=
  ⟨fun b hb => first.known b (second.known b hb), fun b hb => first.opened b (second.opened b hb),
    fun b hb there => second.kept b (first.kept b hb (second.known b there)) there⟩

theorem Narrows.wanes {a : Address} {r r' : Registry} (h : r.Narrows a r') (away : r'.Away a) :
    r.Wanes r' :=
  ⟨h.known, h.opened, fun b hb there =>
    (h.kept b hb there).resolve_right fun ready => away.not_ready ready.2⟩

theorem Wanes.evolves {r r' : Registry} (h : r.Wanes r') : r.Evolves r' :=
  ⟨fun b hb _ => h.opened b hb, fun b there before => Or.inl (h.kept b (before (h.known b there)) there)⟩

end Registry

namespace World

theorem evolves_turn {R : Radio σ} {x : Happening σ} {w w' : World (Recorded σ)}
    (turn : Turn R x w w') : w.central.registry.Evolves w'.central.registry := by
  cases turn with
  | quiet registry | passed _ registry | written _ _ _ registry | dropped registry =>
    rw [registry]
    exact Registry.Evolves.refl _
  | @reached _ event _ _ => exact (narrows_drive R _ _ (w.hear (some event))).evolves
  | disconnected => exact (narrows_drive R _ _ w).evolves
  | @admitted _ _ a data unknown =>
    have start := Registry.Narrows.refl a
      ((w.hear (some (.advertisement a data))).enter a).central.registry
    exact (narrows_settle start).evolves_enroll unknown
  | attached here phase bare registry =>
    rw [registry]
    exact Registry.evolves_attach here bare phase
  | failed _ registry =>
    rw [← registry]
    exact (narrows_drive R _ _ _).evolves
  | reset =>
    rw [registry_reset]
    exact ⟨fun b hb => absurd hb List.not_mem_nil, fun b hb => by simp [Registry.contains, Registry.get?] at hb⟩

/-- Stopping opens no attempt, and no peer gets ready by it. -/
theorem evolves_stop (R : Radio σ) (order : Registry.Order) (w : World (Recorded σ)) :
    w.central.registry.Evolves (w.happen R (.operation (.stop order))).central.registry := by
  simp only [happen, Operation.event?, hear_none, step, stop]
  have first : w.central.registry.Wanes (w.scan (Scanner.stop R.recorded)).central.registry :=
    ⟨fun _ h => h, fun _ h => h, fun _ h _ => h⟩
  generalize (w.scan (Scanner.stop R.recorded)).central.registry.addresses order = addresses
  generalize w.scan (Scanner.stop R.recorded) = w' at first ⊢
  induction addresses generalizing w' with
  | nil => exact first.evolves
  | cons a addresses ih =>
    refine ih (w'.disconnect R.recorded a) (first.trans ?_)
    exact (narrows_drive R a .disconnectRequested w').wanes (away_disconnect R a w')

theorem evolves_happen (R : Radio σ) (w : World (Recorded σ)) (x : Happening σ) :
    w.central.registry.Evolves (w.happen R x).central.registry := by
  by_cases stops : x.Stops
  · obtain ⟨order, rfl⟩ := stops
    exact evolves_stop R order w
  · exact evolves_turn (turn_happen R w x stops)

/-- At some time of a run the peer of an address was ready, and it has been there ever since. -/
def ReadySince (R : Radio σ) (settings : Settings) (s : σ) (history : List (Happening σ))
    (a : Address) : Prop :=
  ∃ before after, history = before ++ after ∧
    (outcome R settings s before).central.registry.isReady a = true ∧
    ∀ more, more <+: after → (outcome R settings s (before ++ more)).central.registry.contains a = true

section Since

variable {R : Radio σ} {settings : Settings} {s : σ} {history : List (Happening σ)} {a : Address}

theorem ReadySince.contains (h : ReadySince R settings s history a) :
    (outcome R settings s history).central.registry.contains a = true := by
  obtain ⟨before, after, rfl, -, there⟩ := h
  exact there after (List.prefix_refl after)

theorem readySince_concat {x : Happening σ} :
    ReadySince R settings s (history ++ [x]) a ↔
      (outcome R settings s (history ++ [x])).central.registry.isReady a = true ∨
        ReadySince R settings s history a ∧
          (outcome R settings s (history ++ [x])).central.registry.contains a = true := by
  constructor
  · rintro ⟨before, after, split, ready, there⟩
    rcases List.eq_nil_or_concat after with rfl | ⟨after', y, rfl⟩
    · rw [List.append_nil] at split
      exact Or.inl (split ▸ ready)
    · rw [List.concat_eq_append] at split there
      rw [← List.append_assoc] at split
      obtain ⟨rfl, same⟩ := List.append_inj' split rfl
      refine Or.inr ⟨⟨before, after', rfl, ready, fun more hm => ?_⟩, ?_⟩
      · exact there more (hm.trans (List.prefix_append after' [y]))
      · rw [split, List.append_assoc]
        exact there (after' ++ [y]) (List.prefix_refl _)
  · rintro (ready | ⟨⟨before, after, rfl, ready, there⟩, still⟩)
    · refine ⟨history ++ [x], [], (List.append_nil _).symm, ready, fun more hm => ?_⟩
      rw [List.prefix_nil.1 hm, List.append_nil]
      exact Registry.contains_of_isReady ready
    · refine ⟨before, after ++ [x], List.append_assoc before after [x], ready, fun more hm => ?_⟩
      rcases List.prefix_concat_iff.1 hm with rfl | hm
      · rw [← List.append_assoc]
        exact still
      · exact there more hm

/-- An attempt is open until its peer is ready for the first time. -/
theorem mem_connecting_outcome :
    a ∈ (outcome R settings s history).central.registry.connecting ↔
      (outcome R settings s history).central.registry.contains a = true ∧
        ¬ ReadySince R settings s history a := by
  induction history using List.reverseRecOn with
  | nil =>
    simp [outcome_nil, fresh, Central.ofSettings, Registry.contains, Registry.get?]
  | append_singleton history x ih =>
    have orderly := orderly_outcome R settings s (history ++ [x])
    have evolves := evolves_happen R (outcome R settings s history) x
    rw [← outcome_concat] at evolves
    rw [readySince_concat, not_or, not_and_or]
    constructor
    · intro open'
      obtain ⟨p, here, other⟩ := orderly.peer_of_attempt open'
      refine ⟨Registry.contains_iff.2 ⟨p, here⟩, fun ready => ?_, Or.inl fun since => ?_⟩
      · obtain ⟨q, there, ready⟩ := Registry.isReady_iff.1 ready
        obtain rfl : p = q := Option.some.inj (here.symm.trans there)
        exact other ready
      · exact (ih.1 (evolves.opened a open' since.contains)).2 since
    · rintro ⟨there, unready, since⟩
      refine (evolves.kept a there fun known => ih.2 ⟨known, ?_⟩).resolve_right unready
      exact since.resolve_right fun gone => gone there

end Since

/-- Coherence of the central. If the radio never gives out a handle twice, then wherever a run leads
every peer is found under its own address; it is neither idle nor disconnected and has a handle
unless it is connecting; the index leads from a handle to the peer that holds it; and an attempt is
open exactly while its peer has not been ready, so that no address is connecting and connected. -/
theorem central_coherent (R : Radio σ) (settings : Settings) (s : σ) (history : List (Happening σ))
    (distinct : (outcome R settings s history).radio.log.issued.Nodup) :
    let c := (outcome R settings s history).central
    (∀ p ∈ c.registry.peers, c.registry.get? p.address = some p ∧ p.phase ≠ .idle ∧
      p.phase ≠ .disconnected ∧ (p.phase ≠ .connecting → p.handle.isSome)) ∧
    (∀ h a, c.registry.addressFor? h = some a ↔
      ∃ p, c.registry.get? a = some p ∧ p.handle = some h) ∧
    (∀ a, a ∈ c.registry.connecting ↔
      c.registry.contains a = true ∧ ¬ ReadySince R settings s history a) ∧
    (∀ p ∈ c.registry.peers, p.phase.isEstablishing = true → c.isConnecting p.address = true) ∧
    (∀ a, ¬ (c.isConnecting a = true ∧ c.isConnectedTo a = true)) := by
  intro c
  have orderly := orderly_outcome R settings s history
  have found : ∀ p ∈ c.registry.peers, c.registry.get? p.address = some p := fun p hp =>
    Registry.get?_of_mem orderly.unique hp
  refine ⟨fun p hp => ?_, fun h a => ⟨orderly.indexed h a, ?_⟩, fun a => mem_connecting_outcome,
    fun p hp early => ?_, fun a both => ?_⟩
  · have live := orderly.live _ p (found p hp)
    exact ⟨found p hp, live.begun, live.there, live.holding⟩
  · rintro ⟨p, here, holds⟩
    exact traced_outcome R settings s history distinct a p h here holds
  · exact decide_eq_true (orderly.underway _ p (found p hp) early)
  · obtain ⟨connecting, connected⟩ := both
    obtain ⟨p, here, other⟩ := orderly.peer_of_attempt (of_decide_eq_true connecting)
    obtain ⟨q, there, ready⟩ := Registry.isReady_iff.1 connected
    obtain rfl : p = q := Option.some.inj (here.symm.trans there)
    exact other ready

theorem central_coherent_encounter :
    let w := outcome SimulatedRadio.radio Encounter.settings {} Encounter.history
    w.radio.log.issued.Nodup ∧ (∀ p ∈ w.central.registry.peers,
        w.central.registry.get? p.address = some p ∧ p.phase ≠ .idle ∧ p.phase ≠ .disconnected ∧
          (p.phase ≠ .connecting → p.handle.isSome)) ∧
      w.central.isConnectedTo ⟨"a"⟩ = true ∧ w.central.isConnecting ⟨"a"⟩ = false := by
  have distinct := issued_nodup SimulatedRadio.numbers Encounter.settings {} Encounter.history
    (by simp [Encounter.history])
  obtain ⟨peers, -, -, -, exclusive⟩ := central_coherent SimulatedRadio.radio Encounter.settings {}
    Encounter.history distinct
  have connected : (outcome SimulatedRadio.radio Encounter.settings {}
      Encounter.history).central.isConnectedTo ⟨"a"⟩ = true := by cbv
  refine ⟨distinct, peers, connected, ?_⟩
  simpa [connected] using exclusive ⟨"a"⟩

end World

end RadioCentral
