import RadioCentral.Radio

/-!
Asking a radio by hand. The console holds the handles it was given; a handle is released at most once.
-/
namespace RadioCentral

structure Console (σ : Type) where
  radio : σ
  /-- The handles given and not yet released. -/
  held : List Handle := []

namespace Console

variable {σ : Type}

def connect (R : Radio σ) (a : Address) (route : Route) (c : Console σ) :
    Except RadioError Handle × Console σ :=
  match R.connect a route c.radio with
  | (.ok h, radio) => (.ok h, { radio, held := c.held ++ [h] })
  | (.error e, radio) => (.error e, { c with radio })

def ask (R : Radio σ) (request : Request) (c : Console σ) : Bool × Console σ :=
  let (answer, radio) := R.ask request c.radio
  (answer, { c with radio })

/-- Releases a handle that is held; any other is left alone. -/
def release (R : Radio σ) (h : Handle) (c : Console σ) : Bool × Console σ :=
  if h ∈ c.held then
    let radio := (R.ask (.release h) c.radio).2
    (true, { radio, held := c.held.erase h })
  else (false, c)

end Console

end RadioCentral
