import Tftp.Net.Link

namespace Tftp

/-- The state after a step, and the packets sent in it, in order. -/
structure Move (σ : Type) where
  state : σ
  sent : List Transmission := []
deriving DecidableEq, Repr

namespace Move

variable {σ τ : Type}

def map (f : σ → τ) (move : Move σ) : Move τ :=
  ⟨f move.state, move.sent⟩

def andThen (move : Move σ) (next : σ → Move τ) : Move τ :=
  let later := next move.state
  ⟨later.state, move.sent ++ later.sent⟩

end Move

end Tftp
