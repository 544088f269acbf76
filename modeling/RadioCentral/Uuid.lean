/-!
Identifiers of 128 bits and their short forms. A 16-bit number stands for the identifier that carries
it in the upper half of the first word of the Bluetooth base; `shorten` finds that number again.
-/
namespace RadioCentral

structure Uuid where
  bits : BitVec 128
  deriving DecidableEq, Repr, Inhabited

namespace Uuid

def toNat (u : Uuid) : Nat := u.bits.toNat

/-- The identifier of a number, by its 128 lowest bits. -/
def ofNat (n : Nat) : Uuid := ⟨BitVec.ofNat 128 n⟩

instance : LT Uuid := ⟨fun u v => u.toNat < v.toNat⟩

instance (u v : Uuid) : Decidable (u < v) := inferInstanceAs (Decidable (u.toNat < v.toNat))

@[simp] theorem toNat_ofNat (n : Nat) : (ofNat n).toNat = n % (1 <<< 128) := by
  simp [ofNat, toNat]

theorem toNat_lt (u : Uuid) : u.toNat < 1 <<< 128 := u.bits.isLt

theorem toNat_inj {u v : Uuid} : u.toNat = v.toNat ↔ u = v := by
  cases u; cases v; simp [toNat, BitVec.toNat_inj]

theorem lt_irrefl (u : Uuid) : ¬ u < u := Nat.lt_irrefl u.toNat

theorem lt_trans {u v w : Uuid} (h : u < v) (h' : v < w) : u < w :=
  Nat.lt_trans (show u.toNat < v.toNat from h) h'

theorem lt_of_not_lt_of_ne {u v : Uuid} (h : ¬ u < v) (ne : u ≠ v) : v < u := by
  have : u.toNat ≠ v.toNat := fun e => ne (toNat_inj.1 e)
  have : ¬ u.toNat < v.toNat := h
  show v.toNat < u.toNat
  omega

/-- The Bluetooth base, whose first word is zero. -/
def base : Nat := 0x00000000_0000_1000_8000_00805f9b34fb

/-- The identifier a 16-bit assigned number stands for. -/
def expand (short : UInt16) : Uuid := ofNat (base + (short.toNat <<< 96))

/-- The 16-bit assigned number of an identifier that has one. -/
def shorten (u : Uuid) : Option UInt16 :=
  if u.toNat % (1 <<< 96) = base ∧ u.toNat >>> 96 < 0x10000 then
    some (UInt16.ofNat (u.toNat >>> 96))
  else none

/-- The service every peer of the mesh advertises and exposes. -/
def meshService : Uuid := ofNat 0x72a83fec_0e1d_4f0b_9a6f_8d3c0b5e1a20

/-- The descriptor through which a client switches notifications on and off. -/
def clientConfiguration : Uuid := expand 0x2902

end Uuid

end RadioCentral
