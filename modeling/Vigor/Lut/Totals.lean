import Vigor.Lut.Table

/-!
# The largest total

Balancing never lifts a core above the average, so it never makes the largest
total larger.  The part between the two rounds of balancing gives each
underloaded core a bucket without a check.  If the counters are such that this
cannot lift a core above the largest total of the initial table, then the result
is no worse than the initial table.  Otherwise the last round may not be able to
undo it.
-/

namespace Vigor
namespace Lut

open Failing (Gives)

section Totals

variable
  {lutCounters : List ℚ}
  {count : ℕ}
  {cores : List CoreStats}
  {balancedLut : List ℤ}

end Totals

/-! ## The initial table -/

section Initial

variable
  {cores : ℕ}
  {lutCounters : List ℚ}
  (positive : 0 < cores)
  (le : cores ≤ lutSize)
  (length_eq : lutCounters.length = lutSize)

include positive le length_eq

end Initial

/-! ## The balanced table -/

section Balanced

variable
  {cores : ℕ}
  {lutCounters : List ℚ}

namespace Numbered

variable
  {groups : Groups}
  {balancedLut : List ℤ}
  {numbered : List CoreStats}
  (isNumbered : Numbered lutCounters cores groups balancedLut numbered)
  (length_eq : lutCounters.length = lutSize)

include isNumbered length_eq

end Numbered

variable
  (positive : 0 < cores)
  (le : cores ≤ lutSize)
  (length_eq : lutCounters.length = lutSize)
  (nonneg : ∀ counter ∈ lutCounters, 0 ≤ counter)

include positive le length_eq nonneg

end Balanced

/-! ## Two cores -/

end Lut
end Vigor
