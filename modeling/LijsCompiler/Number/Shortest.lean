import LijsCompiler.Number.Binary64

/-!
# The shortest decimal of a double

Among the decimals that read back as a given double, the one with the fewest digits is taken, and
of those the one nearest to the double.  The search goes from coarse decimal grids to finer ones and
looks at the two neighbours of the double on each.
-/

namespace LijsCompiler.Shortest

/-- The positive double `mantissa · 2 ^ exponent`, for which decimals `c · 10 ^ place` are sought. -/
structure Target where
  mantissa : Nat
  exponent : Int

namespace Target

variable (t : Target)

/-- A value of `quarters` quarters of the target's last binary place, on the scale of `ofGrid`. -/
def ofQuarters (place : Int) (quarters : Nat) : Nat :=
  quarters * Nat.pow 2 t.exponent.toNat * Nat.pow 10 (-place).toNat

/-- The decimal `c · 10 ^ place`, on the scale of `ofQuarters`. -/
def ofGrid (place : Int) (c : Nat) : Nat :=
  4 * c * Nat.pow 2 (-t.exponent).toNat * Nat.pow 10 place.toNat

/-- The quarters from the target down to the least value that rounds to it.  Below a power of two
the doubles lie closer. -/
def below : Nat :=
  if t.mantissa == Nat.pow 2 52 && t.exponent != Binary64.leastExponent then 1 else 2

/-- Whether the decimal `c · 10 ^ place` is read back as the target. -/
def contains (place : Int) (c : Nat) : Bool :=
  let x := t.ofGrid place c
  let low := t.ofQuarters place (4 * t.mantissa - t.below)
  let high := t.ofQuarters place (4 * t.mantissa + 2)
  if t.mantissa % 2 == 0 then low ≤ x && x ≤ high else low < x && x < high

/-- The neighbour of the target on a grid that reads back as it: the nearer of two, and of two
equally near ones the even one. -/
def onGrid? (place : Int) : Option Nat :=
  let value := t.ofQuarters place (4 * t.mantissa)
  let down := value / t.ofGrid place 1
  let up := down + 1
  match t.contains place down && down != 0, t.contains place up with
  | true, true =>
    let toDown := value - t.ofGrid place down
    let toUp := t.ofGrid place up - value
    if toDown < toUp then some down
    else if toUp < toDown then some up
    else if down % 2 == 0 then some down
    else some up
  | true, false => some down
  | false, true => some up
  | false, false => none

/-- The first hit on the grids `place`, `place - 1`, …, of which `fuel + 1` are tried. -/
def search (place : Int) : Nat → Nat × Int
  | 0 => ((t.onGrid? place).getD 0, place)
  | fuel + 1 =>
    match t.onGrid? place with
    | some c => (c, place)
    | none => search (place - 1) fuel

end Target

/-- The shortest decimal `c · 10 ^ place` of the positive double `mantissa · 2 ^ exponent`.  The
first grid tried is coarser than the double is large, the last one has 17 digits. -/
def digits (mantissa : Nat) (exponent : Int) : Nat × Int :=
  let binary : Int := exponent + mantissa.log2
  Target.search ⟨mantissa, exponent⟩ (binary * 30103 / 100000 + 2) 21

end LijsCompiler.Shortest
