/-!
Percentages. The quotient is rounded to a binary fraction of 53 digits before its fraction is cut
off, so a value that lies within that rounding below a whole number counts as the whole number.
-/

namespace Recast.Percent

/-- A quotient rounded to the nearest whole number, a tie going to the even one. -/
def nearest (a b : Nat) : Nat :=
  let q := a / b
  let twice := 2 * (a % b)
  if twice < b || (twice = b && q % 2 = 0) then q else q + 1

/-- The whole part of a quotient after rounding. -/
def wholePart (a b : Nat) : Nat :=
  if b ≤ a then
    let e := Nat.log2 (a / b)
    if 52 ≤ e then nearest a (b * Nat.pow 2 (e - 52)) * Nat.pow 2 (e - 52)
    else nearest (a * Nat.pow 2 (52 - e)) b / Nat.pow 2 (52 - e)
  else if (b - a) * Nat.pow 2 54 ≤ b then 1 else 0

/-- How much of a total is done, at most a hundred; nothing where there is no total. -/
def of (done total : Int) : Int :=
  if total ≤ 0 then 0
  else
    let part := wholePart (done.natAbs * 100) total.toNat
    if done < 0 then -part else min 100 part

end Recast.Percent
