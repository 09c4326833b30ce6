/-!
# Exact rounding

A finite binary64 number is a natural number times a power of two, up to its sign. Rounding it to
a number of decimal places is therefore a division of natural numbers, and `roundDiv` does it
without error: to the nearest quotient, and halfway cases to the even one.
-/

namespace PullIngest.Rounding

/-- The quotient nearest to `n / d`; of two, the even one. -/
def roundDiv (n d : Nat) : Nat :=
  let q := n / d
  let r := n % d
  if 2 * r < d then q
  else if d < 2 * r then q + 1
  else q + q % 2

/-- The size of a finite number as a fraction. -/
def fraction (x : Float) : Nat × Nat :=
  let bits := x.toBits.toNat % Nat.pow 2 63
  let exponent := bits / Nat.pow 2 52
  let significand := bits % Nat.pow 2 52
  if exponent = 0 then (significand, Nat.pow 2 1074)
  else if 1075 ≤ exponent then ((Nat.pow 2 52 + significand) * Nat.pow 2 (exponent - 1075), 1)
  else (Nat.pow 2 52 + significand, Nat.pow 2 (1075 - exponent))

/-- A number in units of `1 / scale`, rounded. -/
def scaled (x : Float) (scale : Nat) : Nat :=
  let (n, d) := fraction x
  roundDiv (n * scale) d

/-- A number that is not negative with one decimal place. -/
def oneDecimal (x : Float) : String :=
  let tenths := scaled x 10
  toString (tenths / 10) ++ "." ++ toString (tenths % 10)

theorem roundDiv_mul (q d : Nat) (h : 0 < d) : roundDiv (q * d) d = q := by
  simp [roundDiv, Nat.mul_div_cancel _ h, h]

/-- A rounded quotient is off by half a unit at most. -/
theorem roundDiv_near (n d : Nat) (h : 0 < d) :
    2 * (roundDiv n d * d) ≤ 2 * n + d ∧ 2 * n ≤ 2 * (roundDiv n d * d) + d := by
  have e := Nat.div_add_mod n d
  have l := Nat.mod_lt n h
  have c : n / d * d = d * (n / d) := Nat.mul_comm _ _
  unfold roundDiv
  simp only
  split
  · omega
  · split
    · have : (n / d + 1) * d = n / d * d + d := Nat.succ_mul _ _
      omega
    · rcases Nat.mod_two_eq_zero_or_one (n / d) with m | m <;> rw [m]
      · simp only [Nat.add_zero]; omega
      · have : (n / d + 1) * d = n / d * d + d := Nat.succ_mul _ _
        omega

end PullIngest.Rounding
