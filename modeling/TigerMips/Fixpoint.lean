/-! Sweeps over a table until one of them changes nothing. -/

namespace TigerMips

/-- The state after the first sweep that changes nothing, and the number of sweeps, that one
included. At most `limit` sweeps are made. -/
def sweepUntilStable {σ : Type} (sweep : σ → σ × Bool) : Nat → σ → σ × Nat
  | 0, state => (state, 0)
  | limit + 1, state =>
    if (sweep state).2 then
      let rest := sweepUntilStable sweep limit (sweep state).1
      (rest.1, rest.2 + 1)
    else ((sweep state).1, 1)

end TigerMips
