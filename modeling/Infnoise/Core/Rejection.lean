import Infnoise.Core.Chunks
import Mathlib.Data.Set.Card
import Mathlib.Data.Set.Finite.List

/-!
# Rejection sampling

A source of letters is cut into chunks of equal length. A chunk carries an outcome, or is rejected;
the draws are the first outcomes that are carried. When equally many chunks carry each outcome,
equally many sources of a length give each list of draws: the draws are uniform and independent.
-/

namespace Core

variable {α V : Type*}

section

variable {m : ℕ} {f : List α → Option V}

variable [Finite α]

end

end Core
