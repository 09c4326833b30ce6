/-!
# Hexadecimal

Digits of either case, the digits of a natural number, and the two digits of each byte.
Written digits are lowercase.
-/

namespace PullIngest.Hex

/-- The value of a digit of either case. -/
def value? (c : Char) : Option Nat :=
  if '0' ≤ c ∧ c ≤ '9' then some (c.toNat - 48)
  else if 'a' ≤ c ∧ c ≤ 'f' then some (c.toNat - 87)
  else if 'A' ≤ c ∧ c ≤ 'F' then some (c.toNat - 55)
  else none

/-- The shortest lowercase digits of a number; zero has one digit. -/
def ofNat (n : Nat) : List Char := Nat.toDigits 16 n

/-- Read digits after those already worth `n`. -/
def extend? (n : Nat) : List Char → Option Nat
  | [] => some n
  | c :: r => (value? c).bind fun d => extend? (16 * n + d) r

/-- The number written by one or more digits. -/
def toNat? : List Char → Option Nat
  | [] => none
  | cs => extend? 0 cs

/-- The two digits of a byte. -/
def ofByte (b : UInt8) : List Char :=
  [Nat.digitChar (b.toNat / 16), Nat.digitChar (b.toNat % 16)]

/-- Two digits for each byte. -/
def ofBytes (bs : List UInt8) : List Char := bs.flatMap ofByte

@[simp] theorem extend?_nil (n : Nat) : extend? n [] = some n := rfl

theorem extend?_cons (n : Nat) (c : Char) (r : List Char) :
    extend? n (c :: r) = (value? c).bind fun d => extend? (16 * n + d) r := rfl

theorem extend?_append (n : Nat) (a b : List Char) :
    extend? n (a ++ b) = (extend? n a).bind fun m => extend? m b := by
  induction a generalizing n with
  | nil => rfl
  | cons c a ih => cases h : value? c <;> simp [extend?_cons, h, ih]

end PullIngest.Hex
