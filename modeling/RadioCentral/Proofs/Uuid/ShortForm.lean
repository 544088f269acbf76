import RadioCentral.Proofs.Advert.Sighting

/-!
Short and long forms of an identifier. A short form takes 16 bits of the first word and leaves all others
to the base, so it is found again, and an identifier that differs from the base in any other bit has none.
The services of a sighting are told apart accordingly, each one to be written in one of the two forms.
-/
namespace RadioCentral

namespace Uuid

def assigned (number : UInt32) : Uuid := ofNat (base + (number.toNat <<< 96))

theorem expand_eq_assigned (short : UInt16) : expand short = assigned short.toUInt32 := by
  rw [expand, assigned, UInt16.toNat_toUInt32]

theorem toNat_assigned (number : UInt32) : (assigned number).toNat = base + number.toNat <<< 96 := by
  have small : base + number.toNat <<< 96 < 1 <<< 128 := by
    have := number.toNat_lt
    simp only [base, Nat.shiftLeft_eq]
    omega
  rw [assigned, toNat_ofNat, Nat.mod_eq_of_lt small]

theorem toNat_assigned_shiftRight (number : UInt32) : (assigned number).toNat >>> 96 = number.toNat := by
  rw [toNat_assigned, base, Nat.shiftRight_eq_div_pow, Nat.shiftLeft_eq]
  omega

/-- Of the 32-bit assigned numbers those of 16 bits have a short form. -/
theorem shorten_assigned (number : UInt32) :
    (assigned number).shorten = if number ≤ 0xffff then some number.toUInt16 else none := by
  have low : (assigned number).toNat % (1 <<< 96) = base := by
    rw [toNat_assigned, base]
    simp only [Nat.shiftLeft_eq]
    omega
  have fits : number.toNat < 0x10000 ↔ number ≤ 0xffff := by
    rw [UInt32.le_iff_toNat_le]
    exact Nat.lt_succ_iff
  simp only [shorten, low, toNat_assigned_shiftRight, fits, true_and]
  rfl

theorem toUInt32_le (short : UInt16) : short.toUInt32 ≤ 0xffff := by
  rw [UInt32.le_iff_toNat_le, UInt16.toNat_toUInt32]
  exact Nat.le_of_lt_succ short.toNat_lt

theorem shorten_expand (short : UInt16) : (expand short).shorten = some short := by
  rw [expand_eq_assigned, shorten_assigned, if_pos (toUInt32_le short), UInt16.toUInt16_toUInt32]

theorem shorten_eq_some_iff {u : Uuid} {short : UInt16} : u.shorten = some short ↔ u = expand short := by
  constructor
  · intro has
    exact (expand_of_shorten has).symm
  · rintro rfl
    exact shorten_expand short

theorem shorten_eq_none_iff {u : Uuid} : u.shorten = none ↔ ∀ short, u ≠ expand short := by
  rw [Option.eq_none_iff_forall_ne_some]
  exact forall_congr' fun short => not_congr shorten_eq_some_iff

theorem expand_inj {short short' : UInt16} : expand short = expand short' ↔ short = short' := by
  rw [← shorten_eq_some_iff, shorten_expand, Option.some_inj]

/-! ### Bit by bit -/

def baseBits : BitVec 128 := BitVec.ofNat 128 base

theorem getLsbD_baseBits {i : Nat} (high : 96 ≤ i) : baseBits.getLsbD i = false := by
  have small : base < Nat.pow 2 i := Nat.lt_of_lt_of_le (by decide) (Nat.pow_le_pow_right Nat.two_pos high)
  rw [baseBits, BitVec.getLsbD_ofNat, Nat.testBit_lt_two_pow small, Bool.and_false]

/-- The identifier of a short form whose bits are laid over those of the base. -/
def overlay (short : UInt16) : Uuid := ⟨baseBits ||| short.toBitVec.setWidth 128 <<< 96⟩

theorem overlay_eq_expand (short : UInt16) : overlay short = expand short := by
  have laid : BitVec.ofNat 128 (short.toNat <<< 96) = short.toBitVec.setWidth 128 <<< 96 := by
    apply BitVec.eq_of_toNat_eq
    simp [Nat.shiftLeft_eq]
  rw [expand_eq_or, ofNat, BitVec.ofNat_or, laid]
  rfl

theorem getLsbD_expand (short : UInt16) {i : Nat} (inside : i < 128) :
    (expand short).bits.getLsbD i =
      if 96 ≤ i ∧ i < 112 then short.toBitVec.getLsbD (i - 96) else baseBits.getLsbD i := by
  rw [← overlay_eq_expand, overlay, BitVec.getLsbD_or, BitVec.getLsbD_shiftLeft, BitVec.getLsbD_setWidth]
  by_cases low : i < 96
  · rw [if_neg (by omega)]
    simp [low]
  · by_cases carried : i < 112
    · rw [if_pos ⟨Nat.not_lt.1 low, carried⟩, getLsbD_baseBits (Nat.not_lt.1 low)]
      simp [inside, low, Nat.sub_lt_of_lt inside]
    · rw [if_neg (by omega), BitVec.getLsbD_of_ge short.toBitVec (i - 96) (by omega), Bool.and_false,
        Bool.and_false, Bool.or_false]

def Based (u : Uuid) : Prop := ∀ i < 128, i < 96 ∨ 112 ≤ i → u.bits.getLsbD i = baseBits.getLsbD i

theorem based_iff {u : Uuid} : u.Based ↔ ∃ short, u = expand short := by
  constructor
  · intro based
    let short : UInt16 := ⟨(u.bits >>> 96).setWidth 16⟩
    have same (i : Nat) (inside : i < 128) : u.bits.getLsbD i = (expand short).bits.getLsbD i := by
      rw [getLsbD_expand short inside]
      split
      · rename_i taken
        simp only [short, BitVec.getLsbD_setWidth, BitVec.getLsbD_ushiftRight, Nat.add_sub_cancel' taken.1]
        rw [decide_eq_true (by omega), Bool.true_and]
      · exact based i inside (by omega)
    exact ⟨short, congrArg Uuid.mk (BitVec.eq_of_getLsbD_eq same)⟩
  · rintro ⟨short, rfl⟩ i inside other
    rw [getLsbD_expand short inside, if_neg (by omega)]

theorem shorten_eq_none_iff_bit {u : Uuid} : u.shorten = none ↔
    ∃ i < 128, (i < 96 ∨ 112 ≤ i) ∧ u.bits.getLsbD i ≠ baseBits.getLsbD i := by
  have none : u.shorten = none ↔ ¬ u.Based := by
    rw [shorten_eq_none_iff, based_iff, not_exists]
  rw [none]
  simp only [Based, not_forall, exists_prop]

/-! ### Recovery by masks -/

def firstWord (u : Uuid) : UInt32 := ⟨(u.bits >>> 96).setWidth 32⟩

def shortMask : BitVec 128 := 0xffff#128 <<< 96

/-- The short form, looked for by masks: the first word has to fit, and what is left of the identifier
without the 16 bits has to be the base. -/
def unmask? (u : Uuid) : Option UInt16 :=
  if u.firstWord ≤ 0xffff ∧ u.bits &&& ~~~shortMask = baseBits then some u.firstWord.toUInt16 else none

theorem firstWord_expand (short : UInt16) : (expand short).firstWord = short.toUInt32 := by
  have word : ((expand short).bits >>> 96).toNat = short.toUInt32.toNat := by
    rw [BitVec.toNat_ushiftRight, expand_eq_assigned]
    exact toNat_assigned_shiftRight short.toUInt32
  rw [firstWord, ← UInt32.toBitVec_inj, ← BitVec.toNat_inj, BitVec.toNat_setWidth, word]
  exact Nat.mod_eq_of_lt short.toUInt32.toNat_lt

theorem getLsbD_not_shortMask {i : Nat} (inside : i < 128) :
    (~~~shortMask).getLsbD i = true ↔ i < 96 ∨ 112 ≤ i := by
  have ones : (0xffff#128).getLsbD (i - 96) = decide (i - 96 < 16) := by
    rw [BitVec.getLsbD_ofNat, show 0xffff = 2 ^ 16 - 1 from rfl, Nat.testBit_two_pow_sub_one,
      decide_eq_true (Nat.sub_lt_of_lt inside), Bool.true_and]
  simp only [shortMask, BitVec.getLsbD_not, BitVec.getLsbD_shiftLeft, ones, inside, decide_true,
    Bool.true_and, Bool.not_eq_true', Bool.and_eq_false_imp, decide_eq_false_iff_not]
  omega

theorem masked_eq_iff {u : Uuid} : u.bits &&& ~~~shortMask = baseBits ↔ u.Based := by
  constructor
  · intro masked i inside other
    rw [← masked, BitVec.getLsbD_and, (getLsbD_not_shortMask inside).2 other, Bool.and_true]
  · intro based
    refine BitVec.eq_of_getLsbD_eq fun i inside => ?_
    rw [BitVec.getLsbD_and]
    by_cases other : i < 96 ∨ 112 ≤ i
    · rw [(getLsbD_not_shortMask inside).2 other, Bool.and_true, based i inside other]
    · have taken : (~~~shortMask).getLsbD i = false :=
        Bool.eq_false_iff.2 (mt (getLsbD_not_shortMask inside).1 other)
      rw [taken, Bool.and_false, getLsbD_baseBits (by omega)]

theorem unmask?_eq_shorten (u : Uuid) : u.unmask? = u.shorten := by
  by_cases based : u.Based
  · obtain ⟨short, rfl⟩ := based_iff.1 based
    have fits : (expand short).firstWord ≤ 0xffff := by
      rw [firstWord_expand]
      exact toUInt32_le short
    rw [unmask?, if_pos ⟨fits, masked_eq_iff.2 based⟩, firstWord_expand, UInt16.toUInt16_toUInt32,
      shorten_expand]
  · have none : u.shorten = none := shorten_eq_none_iff.2 fun short same => based (based_iff.2 ⟨short, same⟩)
    rw [unmask?, if_neg fun fits => based (masked_eq_iff.1 fits.2), none]

end Uuid

namespace Sighting

/-- Services told apart, in order: a short form stands for the service it expands to, and a service to
which none expands stays as it is. -/
inductive Divided : List Uuid → List UInt16 → List Uuid → Prop where
  | nil : Divided [] [] []
  | short {services longs : List Uuid} {shorts : List UInt16} (short : UInt16)
      (others : Divided services shorts longs) :
      Divided (Uuid.expand short :: services) (short :: shorts) longs
  | long {services longs : List Uuid} {shorts : List UInt16} {u : Uuid}
      (none : ∀ short, u ≠ Uuid.expand short) (others : Divided services shorts longs) :
      Divided (u :: services) shorts (u :: longs)

theorem divided_iff {services longs : List Uuid} {shorts : List UInt16} :
    Divided services shorts longs ↔
      shorts = services.filterMap Uuid.shorten ∧ longs = services.filter fun u => u.shorten.isNone := by
  constructor
  · intro divided
    induction divided with
    | nil => exact ⟨rfl, rfl⟩
    | short short others ih => simp [Uuid.shorten_expand, ih.1, ih.2]
    | long none others ih => simp [Uuid.shorten_eq_none_iff.2 none, ih.1, ih.2]
  · rintro ⟨rfl, rfl⟩
    induction services with
    | nil => exact .nil
    | cons u services ih =>
      cases has : u.shorten with
      | none =>
        rw [List.filterMap_cons_none has, List.filter_cons_of_pos (by simp [has])]
        exact .long (Uuid.shorten_eq_none_iff.1 has) ih
      | some short =>
        obtain rfl := Uuid.shorten_eq_some_iff.1 has
        rw [List.filterMap_cons_some has, List.filter_cons_of_neg (by simp [has])]
        exact .short short ih

theorem mem_services_iff {s : Sighting} {u : Uuid} :
    u ∈ s.services ↔ Xor (∃ short ∈ s.shortServices, u = Uuid.expand short) (u ∈ s.longServices) := by
  have shorts : (∃ short ∈ s.shortServices, u = Uuid.expand short) ↔ u ∈ s.services ∧ u.shorten.isSome := by
    have expanded := List.mem_map (f := Uuid.expand) (l := s.shortServices) (b := u)
    rw [expand_shortServices, List.mem_filter] at expanded
    exact (expanded.trans (exists_congr fun short => and_congr_right fun _ => eq_comm)).symm
  rw [shorts, longServices, List.mem_filter]
  cases u.shorten <;> simp [Xor]

end Sighting

namespace Uuid

/-- Short and long forms are inverse to each other. An identifier has a short form exactly if it is what
that form expands to, and looking for it by masks finds the same; different short forms expand to
different identifiers. There is none for a 32-bit assigned number that takes more than 16 bits, nor for an
identifier that differs from the base in a bit that no short form takes, and for no other. Every service
of a sighting is put on one of two sides, in order, and the short form that stands for it expands to it. -/
theorem shorten_inverts_expand :
    (∀ (u : Uuid) (short : UInt16), u.shorten = some short ↔ u = expand short) ∧
    (∀ short, overlay short = expand short) ∧
    (∀ u : Uuid, u.unmask? = u.shorten) ∧
    (∀ short short', expand short = expand short' ↔ short = short') ∧
    (∀ number, (assigned number).shorten = if number ≤ 0xffff then some number.toUInt16 else none) ∧
    (∀ u : Uuid, u.shorten = none ↔
      ∃ i < 128, (i < 96 ∨ 112 ≤ i) ∧ u.bits.getLsbD i ≠ baseBits.getLsbD i) ∧
    ∀ s : Sighting,
      (∀ shorts longs, Sighting.Divided s.services shorts longs ↔
        shorts = s.shortServices ∧ longs = s.longServices) ∧
      ∀ u, u ∈ s.services ↔ Xor (∃ short ∈ s.shortServices, u = expand short) (u ∈ s.longServices) :=
  ⟨fun _ _ => shorten_eq_some_iff, overlay_eq_expand, unmask?_eq_shorten, fun _ _ => expand_inj,
    shorten_assigned, fun _ => shorten_eq_none_iff_bit,
    fun _ => ⟨fun _ _ => Sighting.divided_iff, fun _ => Sighting.mem_services_iff⟩⟩

example : (assigned 0x10000).shorten = none ∧ (ofNat (base ^^^ 1)).shorten = none ∧
    (assigned 0xffff).shorten = some 0xffff := by decide

end Uuid

end RadioCentral
