/-!
# Durations

Spans of time in whole milliseconds, and their shortest text.
-/

namespace PullIngest

/-- A span of time. -/
structure Duration where
  millis : Nat
  deriving DecidableEq, Repr

namespace Duration

/-- A number of seconds. -/
def ofSeconds (n : Nat) : Duration := ⟨1000 * n⟩

/-- The digits of a fraction in thousandths, without zeros at the end. -/
def thousandths (n : Nat) : List Char :=
  let digits := [n / 100, n / 10 % 10, n % 10].map Nat.digitChar
  (digits.reverse.dropWhile (· = '0')).reverse

/-- The text of a span: seconds from one second on, and milliseconds below. -/
def text (d : Duration) : String :=
  if d.millis = 0 then "0ns"
  else if d.millis < 1000 then toString d.millis ++ "ms"
  else
    let whole := toString (d.millis / 1000)
    match thousandths (d.millis % 1000) with
    | [] => whole ++ "s"
    | digits => whole ++ "." ++ String.ofList digits ++ "s"

end Duration

end PullIngest
