import PullIngest.Rounding

/-!
# Throughput

An estimate of the speed of an upload from its latest samples. Samples leave the window when they
are too old or too many.
-/

namespace PullIngest

/-- So many bytes were sent at a time in microseconds. -/
structure Sample where
  time : Nat
  bytes : UInt64
  deriving DecidableEq, Repr

/-- The latest samples, oldest first. -/
structure Throughput where
  window : Nat := 5000000
  maxSamples : Nat := 100
  samples : List Sample := []
  deriving DecidableEq, Repr

namespace Throughput

/-- Whether the oldest sample must leave when the latest one is of time `now`: it is older than
the window allows, or there are too many. The latest sample always stays. -/
def mustEvict (t : Throughput) (now : Nat) (oldest : Sample) (count : Nat) : Bool :=
  t.window < now - oldest.time || max t.maxSamples 1 < count

/-- Drop old samples from the front until none must leave. -/
def evict (t : Throughput) (now : Nat) : List Sample → List Sample
  | [] => []
  | s :: r => if t.mustEvict now s (r.length + 1) then evict t now r else s :: r

/-- Add a sample. -/
def record (t : Throughput) (s : Sample) : Throughput :=
  { t with samples := t.evict s.time (t.samples ++ [s]) }

/-- The time between the first and the last sample. -/
def elapsed (t : Throughput) : Nat :=
  match t.samples.head?, t.samples.getLast? with
  | some first, some last => last.time - first.time
  | _, _ => 0

/-- A number of microseconds in seconds: the whole seconds plus the rest. -/
def seconds (micros : Nat) : Float :=
  (UInt64.ofNat (micros / 1000000)).toFloat
    + (UInt64.ofNat (micros % 1000000 * 1000)).toFloat / 1000000000.0

/-- The bytes of all samples. -/
def total (t : Throughput) : UInt64 := t.samples.foldl (fun n s => n + s.bytes) 0

/-- Bytes per second over the samples; zero until two samples of different times are there. -/
def bytesPerSecond (t : Throughput) : Float :=
  if t.elapsed = 0 then 0.0 else t.total.toFloat / seconds t.elapsed

/-- How long something takes. -/
inductive Estimate where
  /-- Nothing moves, so there is no telling. -/
  | unknown
  /-- Longer than a clock can tell. -/
  | tooLong
  | nanoseconds (n : Nat)
  deriving DecidableEq, Repr

/-- The time for the remaining bytes at the present speed. -/
def timeLeft (t : Throughput) (remaining : UInt64) : Estimate :=
  let speed := t.bytesPerSecond
  if 0.0 < speed then
    let time := remaining.toFloat / speed
    if 18446744073709551616.0 ≤ time then .tooLong
    else .nanoseconds (Rounding.scaled time 1000000000)
  else .unknown

end Throughput

end PullIngest
