import Mathlib.Tactic.Common
import PullIngest.Text.Hex

/-!
# Hexadecimal digits that are written are read back

* `value?_digitChar`: the value of a written digit;
* `extend?_ofNat`, `toNat?_ofNat`: the number of written digits;
* `ne_of_mem_ofNat`: signs and marks are no digits.
-/

namespace PullIngest.Hex

theorem value?_digitChar {d : ℕ} (h : d < 16) : value? (Nat.digitChar d) = some d := by
  have key : ∀ d : Fin 16, value? (Nat.digitChar d) = some d.val := by decide
  exact key ⟨d, h⟩

/-- Digits behind a number. -/
theorem extend?_ofNat (n : ℕ) : extend? 0 (ofNat n) = some n := by
  unfold ofNat
  induction n using Nat.base_induction 16 (by decide) with
  | single m hm => simp [Nat.toDigits_of_lt_base hm, extend?_cons, value?_digitChar hm]
  | digit m k hk hm ih =>
    rw [← Nat.toDigits_append_toDigits (by decide) hm hk, extend?_append, ih,
      Nat.toDigits_of_lt_base hk]
    simp [extend?_cons, value?_digitChar hk]

/-- Zeros in front change nothing. -/
theorem extend?_zeros (k : ℕ) (cs : List Char) :
    extend? 0 (List.replicate k '0' ++ cs) = extend? 0 cs := by
  induction k with
  | zero => rfl
  | succ k ih =>
    rw [List.replicate_succ, List.cons_append, extend?_cons, ← ih]
    rfl

/-- The digits of a number are read as that number. -/
theorem toNat?_ofNat (n : ℕ) : toNat? (ofNat n) = some n := by
  have hne : ofNat n ≠ [] := Nat.toDigits_ne_nil
  unfold toNat?
  split
  · next h => exact absurd h hne
  · exact extend?_ofNat n

/-- Every written character is one of the sixteen digits. -/
theorem exists_digit_of_mem {n : ℕ} {c : Char} (h : c ∈ ofNat n) :
    ∃ d, d < 16 ∧ c = Nat.digitChar d := by
  unfold ofNat at h
  induction n using Nat.base_induction 16 (by decide) with
  | single m hm =>
    rw [Nat.toDigits_of_lt_base hm, List.mem_singleton] at h
    exact ⟨m, hm, h⟩
  | digit m k hk hm ih =>
    rw [← Nat.toDigits_append_toDigits (by decide) hm hk, Nat.toDigits_of_lt_base hk,
      List.mem_append, List.mem_singleton] at h
    rcases h with h | h
    · exact ih h
    · exact ⟨k, hk, h⟩

/-- What is no digit does not occur. -/
theorem ne_of_mem_ofNat {n : ℕ} {c c' : Char} (h : c ∈ ofNat n) (hc : value? c' = none) :
    c ≠ c' := by
  obtain ⟨d, hd, rfl⟩ := exists_digit_of_mem h
  rintro rfl
  rw [value?_digitChar hd] at hc
  cases hc

end PullIngest.Hex
