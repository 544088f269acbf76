import RadioCentral.Bytes

/-!
The record structure of an advertisement: a length byte, a type byte and a payload one byte shorter
than the length says. Reading stops at a length of zero or one that runs past the end; what is left
there belongs to no record.
-/
namespace RadioCentral.Advert

structure Record where
  kind : UInt8
  payload : Bytes
  deriving DecidableEq, Repr

namespace Record

/-- The longest payload a length byte can announce. -/
def maxPayload : Nat := 254

/-- The bytes of a record; a payload that is too long loses its tail. -/
def encode (r : Record) : Bytes :=
  let payload := r.payload.take maxPayload
  UInt8.ofNat (payload.length + 1) :: r.kind :: payload

/-- The first record and the bytes after it. -/
def next? : Bytes → Option (Record × Bytes)
  | length :: kind :: rest =>
    if length.toNat = 0 ∨ length.toNat - 1 > rest.length then none
    else some (⟨kind, rest.take (length.toNat - 1)⟩, rest.drop (length.toNat - 1))
  | _ => none

theorem length_of_next? {bytes rest : Bytes} {r : Record} (h : next? bytes = some (r, rest)) :
    rest.length < bytes.length := by
  match bytes, h with
  | length :: kind :: tail, h =>
    simp only [next?] at h
    split at h
    · cases h
    · cases h
      simp only [List.length_drop, List.length_cons]
      omega

def split (bytes : Bytes) : List Record :=
  match _h : next? bytes with
  | none => []
  | some (r, rest) => r :: split rest
termination_by bytes.length
decreasing_by exact length_of_next? _h

end Record

end RadioCentral.Advert
