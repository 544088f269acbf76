import RadioCentral.Radio

/-!
Scanning as it was requested and as it is going on. A connection attempt halts the radio and leaves the
request standing, so that scanning comes back by itself.
-/
namespace RadioCentral

structure Scanner where
  mode : ScanMode
  service : Uuid
  requested : Bool := false
  /-- The radio was told to scan and has not been told to stop. -/
  active : Bool := false
  deriving DecidableEq, Repr

namespace Scanner

variable {σ : Type}

/-- Starts the radio unless it is scanning; a refusal leaves the scan inactive. -/
def activate (R : Radio σ) (c : Scanner) (s : σ) : Scanner × σ :=
  if c.active then (c, s)
  else
    let (accepted, s) := R.ask (.startScan c.mode c.service) s
    ({ c with active := accepted }, s)

def halt (R : Radio σ) (c : Scanner) (s : σ) : Scanner × σ :=
  if c.active then ({ c with active := false }, (R.ask .stopScan s).2) else (c, s)

def start (R : Radio σ) (c : Scanner) (s : σ) : Scanner × σ := activate R { c with requested := true } s

def stop (R : Radio σ) (c : Scanner) (s : σ) : Scanner × σ := halt R { c with requested := false } s

def pause (R : Radio σ) (c : Scanner) (s : σ) : Scanner × σ := halt R c s

def resume (R : Radio σ) (c : Scanner) (s : σ) : Scanner × σ :=
  if c.requested then activate R c s else (c, s)

/-- Forgets request and scan without telling the radio. -/
def reset (c : Scanner) : Scanner := { c with requested := false, active := false }

end Scanner

end RadioCentral
