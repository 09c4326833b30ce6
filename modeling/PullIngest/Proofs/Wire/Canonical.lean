import Mathlib.Data.Nat.Digits.Defs
import Mathlib.Tactic.Ring
import PullIngest.Proofs.Wire.Payload

/-!
# Payloads have one spelling

A payload is decoded only if it is the text that is written for the decoded bytes. That text spells
the number that the bytes stand for in digits of the alphabet.

* `encode_decodeFour`, `encode_one`, `encode_two`: the groups that are read are written again;
* `decodeGroups_eq_ok`, `LastGroup.Reads`, `decodeLast_eq_ok`: what the two readers accept;
* `eq_encode_of_decode`: only what is written is read;
* `Standard`, `standard_encodeChars`: what is written, as digits of a number;
* `Canonical`, `canonical_iff`: the grammar of what is written;
* `ChunkResponse.bytes_eq_ok_iff`: all of it for payloads.
-/

namespace PullIngest.Base64

/-! ### Groups -/

/-- A byte that is a symbol is the symbol of its value. -/
theorem symbol_of_value? {b : UInt8} {v : ℕ} (h : value? b = some v) : v < 64 ∧ symbol v = b := by
  have key : ∀ n : Fin 256, ∀ v ∈ value? (UInt8.ofNat n.val), v < 64 ∧ symbol v = .ofNat n.val := by
    decide +kernel
  have hb := key ⟨b.toNat, b.toNat_lt⟩ v
  rw [UInt8.ofNat_toNat] at hb
  exact hb h

theorem valueAt_eq_ok {b : UInt8} {offset v : ℕ} (h : valueAt b offset = .ok v) :
    v < 64 ∧ b = symbol v := by
  unfold valueAt at h
  cases hv : value? b with
  | none => rw [hv] at h; cases h
  | some w =>
    rw [hv] at h
    cases h
    obtain ⟨hlt, hsymbol⟩ := symbol_of_value? hv
    exact ⟨hlt, hsymbol.symm⟩

section Groups

variable {a b c d : ℕ}

/-- Four symbols are written for the three bytes that they stand for. -/
theorem encode_decodeFour (ha : a < 64) (hb : b < 64) (hc : c < 64) (hd : d < 64)
    (r : List UInt8) :
    encode (decodeFour a b c d ++ r) = [symbol a, symbol b, symbol c, symbol d] ++ encode r := by
  have h1 : (UInt8.ofNat (a * 4 + b / 16)).toNat = a * 4 + b / 16 :=
    UInt8.toNat_ofNat_of_lt' (by simp [UInt8.size]; omega)
  have h2 : (UInt8.ofNat (b % 16 * 16 + c / 4)).toNat = b % 16 * 16 + c / 4 :=
    UInt8.toNat_ofNat_of_lt' (by simp [UInt8.size]; omega)
  have h3 : (UInt8.ofNat (c % 4 * 64 + d)).toNat = c % 4 * 64 + d :=
    UInt8.toNat_ofNat_of_lt' (by simp [UInt8.size]; omega)
  rw [decodeFour, List.cons_append, List.cons_append, List.cons_append, List.nil_append,
    encode_three, encodeThree, h1, h2, h3]
  have h4 : (a * 4 + b / 16) / 4 = a := by omega
  have h5 : (a * 4 + b / 16) % 4 * 16 + (b % 16 * 16 + c / 4) / 16 = b := by omega
  have h6 : (b % 16 * 16 + c / 4) % 16 * 4 + (c % 4 * 64 + d) / 64 = c := by omega
  have h7 : (c % 4 * 64 + d) % 64 = d := by omega
  rw [h4, h5, h6, h7]

/-- Two symbols stand for a single byte if the low bits of the second one are zero. -/
theorem encode_one (ha : a < 64) (hb : b < 64) (hlow : b % 16 = 0) :
    encode [.ofNat (a * 4 + b / 16)] = [symbol a, symbol b, pad, pad] := by
  have h1 : (UInt8.ofNat (a * 4 + b / 16)).toNat = a * 4 + b / 16 :=
    UInt8.toNat_ofNat_of_lt' (by simp [UInt8.size]; omega)
  have h2 : (a * 4 + b / 16) / 4 = a := by omega
  have h3 : (a * 4 + b / 16) % 4 * 16 = b := by omega
  rw [encode, encodeOnto, encodeTail, h1, h2, h3]
  · rfl
  · simp

/-- Three symbols stand for two bytes if the low bits of the third one are zero. -/
theorem encode_two (ha : a < 64) (hb : b < 64) (hc : c < 64) (hlow : c % 4 = 0) :
    encode [.ofNat (a * 4 + b / 16), .ofNat (b % 16 * 16 + c / 4)]
      = [symbol a, symbol b, symbol c, pad] := by
  have h1 : (UInt8.ofNat (a * 4 + b / 16)).toNat = a * 4 + b / 16 :=
    UInt8.toNat_ofNat_of_lt' (by simp [UInt8.size]; omega)
  have h2 : (UInt8.ofNat (b % 16 * 16 + c / 4)).toNat = b % 16 * 16 + c / 4 :=
    UInt8.toNat_ofNat_of_lt' (by simp [UInt8.size]; omega)
  have h3 : (a * 4 + b / 16) / 4 = a := by omega
  have h4 : (a * 4 + b / 16) % 4 * 16 + (b % 16 * 16 + c / 4) / 16 = b := by omega
  have h5 : (b % 16 * 16 + c / 4) % 16 * 4 = c := by omega
  rw [encode, encodeOnto, encodeTail, h1, h2, h3, h4, h5]
  · rfl
  · simp

end Groups

/-! ### Reading -/

/-- An `Except` computation that ends well goes through every one of its steps. -/
theorem bind_eq_ok {ε α β : Type} {x : Except ε α} {f : α → Except ε β} {b : β} :
    (x >>= f) = .ok b ↔ ∃ a, x = .ok a ∧ f a = .ok b := by
  cases x with
  | error e => simp [bind, Except.bind]
  | ok a => simp [bind, Except.bind]

/-- Whole groups are read only as they are written. -/
theorem decodeGroups_eq_ok : ∀ (text : List UInt8) (offset : ℕ) (done bs : List UInt8),
    text.length % 4 = 0 → decodeGroups offset done text = .ok bs →
    ∃ front, bs = done.reverse ++ front ∧ front.length % 3 = 0 ∧ text = encode front
  | [], _, done, bs, _, h => ⟨[], by cases h; simp, rfl, rfl⟩
  | [_], _, _, _, hlen, _ => by simp at hlen
  | [_, _], _, _, _, hlen, _ => by simp at hlen
  | [_, _, _], _, _, _, hlen, _ => by simp at hlen
  | x :: y :: z :: w :: r, offset, done, bs, hlen, h => by
    rw [decodeGroups] at h
    obtain ⟨a, hva, h₁⟩ := bind_eq_ok.1 h
    obtain ⟨b, hvb, h₂⟩ := bind_eq_ok.1 h₁
    obtain ⟨c, hvc, h₃⟩ := bind_eq_ok.1 h₂
    obtain ⟨d, hvd, h₄⟩ := bind_eq_ok.1 h₃
    obtain ⟨ha, rfl⟩ := valueAt_eq_ok hva
    obtain ⟨hb, rfl⟩ := valueAt_eq_ok hvb
    obtain ⟨hc, rfl⟩ := valueAt_eq_ok hvc
    obtain ⟨hd, rfl⟩ := valueAt_eq_ok hvd
    have hr : r.length % 4 = 0 := by
      simp only [List.length_cons] at hlen
      omega
    obtain ⟨front, rfl, hfront, rfl⟩ := decodeGroups_eq_ok r _ _ _ hr h₄
    refine ⟨decodeFour a b c d ++ front, by simp, ?_, ?_⟩
    · simp only [decodeFour, List.length_append, List.length_cons, List.length_nil]
      omega
    · rw [encode_decodeFour ha hb hc hd]
      rfl

/-- What has been read of the last group: symbols of some values, and padding. -/
def LastGroup.Reads (g : LastGroup) (read : List UInt8) : Prop :=
  ∃ vs : List ℕ, (∀ v ∈ vs, v < 64) ∧ g.symbols = vs.map (fun v => (symbol v, v)) ∧
    read = vs.map symbol ++ List.replicate g.padding pad

theorem LastGroup.Reads.take {g g' : LastGroup} {read : List UInt8} {start : ℕ} {b : UInt8}
    (h : g.Reads read) (ht : g.take start b = .ok g') : g'.Reads (read ++ [b]) := by
  obtain ⟨vs, hvs, hsymbols, rfl⟩ := h
  unfold LastGroup.take at ht
  by_cases hpad : b = pad
  · rw [if_pos hpad] at ht
    split_ifs at ht
    all_goals
      cases ht
      refine ⟨vs, hvs, hsymbols, ?_⟩
      rw [hpad, List.append_assoc, ← List.replicate_succ']
  · -- A symbol comes before any padding.
    rw [if_neg hpad] at ht
    split_ifs at ht with hpadding
    obtain ⟨v, hvalue, hok⟩ := bind_eq_ok.1 ht
    obtain ⟨hv, rfl⟩ := valueAt_eq_ok hvalue
    cases hok
    have hnone : g.padding = 0 := Nat.eq_zero_of_not_pos hpadding
    refine ⟨vs ++ [v], ?_, by simp [hsymbols], by simp [hnone]⟩
    simpa [or_imp, forall_and] using ⟨hvs, hv⟩

theorem LastGroup.Reads.foldlM {g g' : LastGroup} {read : List UInt8} {start : ℕ}
    (h : g.Reads read) {group : List UInt8}
    (hg : group.foldlM (LastGroup.take start) g = .ok g') : g'.Reads (read ++ group) := by
  induction group generalizing g read with
  | nil =>
    cases hg
    rwa [List.append_nil]
  | cons b group ih =>
    obtain ⟨g₁, ht, hg⟩ := bind_eq_ok.1 hg
    have hread := ih (h.take ht) hg
    rwa [List.append_assoc] at hread

/-- A complete last group is read only as it is written. -/
theorem bytes_eq_ok {vs : List ℕ} {start padding firstPad : ℕ} {bs : List UInt8}
    (hvs : ∀ v ∈ vs, v < 64) (htwo : 2 ≤ vs.length) (hfour : vs.length + padding = 4)
    (h : LastGroup.bytes start ⟨vs.map fun v => (symbol v, v), padding, firstPad⟩ = .ok bs) :
    vs.map symbol ++ List.replicate padding pad = encode bs := by
  unfold LastGroup.bytes at h
  match vs, hvs, htwo, hfour, h with
  | [a, b], hvs, _, hfour, h =>
    obtain ⟨ha, hb⟩ : a < 64 ∧ b < 64 := by simpa using hvs
    obtain rfl : padding = 2 := by simpa [Nat.add_comm] using hfour
    dsimp only [List.map] at h
    split_ifs at h with hlow
    cases h
    exact (encode_one ha hb hlow).symm
  | [a, b, c], hvs, _, hfour, h =>
    obtain ⟨ha, hb, hc⟩ : a < 64 ∧ b < 64 ∧ c < 64 := by simpa using hvs
    obtain rfl : padding = 1 := by simpa [Nat.add_comm] using hfour
    dsimp only [List.map] at h
    split_ifs at h with hlow
    cases h
    exact (encode_two ha hb hc hlow).symm
  | [a, b, c, d], hvs, _, hfour, h =>
    obtain ⟨ha, hb, hc, hd⟩ : a < 64 ∧ b < 64 ∧ c < 64 ∧ d < 64 := by simpa using hvs
    obtain rfl : padding = 0 := by simpa [Nat.add_comm] using hfour
    cases h
    have hfull := encode_decodeFour ha hb hc hd []
    rw [List.append_nil] at hfull
    exact hfull.symm
  | _ :: _ :: _ :: _ :: _ :: _, _, _, hfour, _ =>
    simp only [List.length_cons] at hfour
    omega

/-- The last group is read only as it is written. -/
theorem decodeLast_eq_ok {start : ℕ} {group bs : List UInt8} (hlen : group.length ≤ 4)
    (h : decodeLast start group = .ok bs) : group = encode bs := by
  obtain ⟨g, hg, h⟩ := bind_eq_ok.1 h
  have hempty : LastGroup.Reads ⟨[], 0, 0⟩ [] := ⟨[], by simp, rfl, rfl⟩
  obtain ⟨vs, hvs, hsymbols, hgroup⟩ := hempty.foldlM hg
  obtain ⟨symbols, padding, firstPad⟩ := g
  obtain rfl : symbols = _ := hsymbols
  rw [List.nil_append] at hgroup
  dsimp only at h hgroup
  have hlength : group.length = vs.length + padding := by simp [hgroup]
  rw [List.length_map] at h
  split_ifs at h with hshort hfour
  by_cases hnil : group = []
  · rw [hnil] at hlength ⊢
    obtain rfl : vs = [] := List.length_eq_zero_iff.1 (by simp at hlength; omega)
    cases h
    rfl
  · have htwo : 2 ≤ vs.length := Nat.le_of_not_lt fun hlt => hshort ⟨hnil, hlt⟩
    rw [hgroup]
    exact bytes_eq_ok hvs htwo (by omega) h

/-- **Only what is written is read.** -/
theorem eq_encode_of_decode {text bs : List UInt8} (h : decode text = .ok bs) :
    text = encode bs := by
  have hfront : leading text.length % 4 = 0 ∧ leading text.length ≤ text.length ∧
      text.length ≤ leading text.length + 4 := by
    unfold leading
    split_ifs <;> omega
  obtain ⟨-, -, h⟩ := bind_eq_ok.1 h
  obtain ⟨front, hread, h⟩ := bind_eq_ok.1 h
  obtain ⟨last, hlast, h⟩ := bind_eq_ok.1 h
  cases h
  have hfour : (text.take (leading text.length)).length % 4 = 0 := by
    rw [List.length_take]
    omega
  obtain ⟨front', rfl, hthree, htake⟩ := decodeGroups_eq_ok _ _ _ _ hfour hread
  have hdrop : text.drop (leading text.length) = encode last := by
    refine decodeLast_eq_ok ?_ hlast
    rw [List.length_drop]
    omega
  rw [encode_append _ _ hthree, ← htake, ← hdrop, List.take_append_drop]

/-! ### The standard form -/

/-- The sixty-four letters, in the order of their values. -/
def alphabet : List Char := "ABCDEFGHIJKLMNOPQRSTUVWXYZabcdefghijklmnopqrstuvwxyz0123456789+/".toList

/-- The characters that are written for a sequence of bytes. -/
def encodeChars (bs : List UInt8) : List Char := (encode bs).map fun b => Char.ofNat b.toNat

/-- The letter of a value. -/
def letter (v : ℕ) : Char := Char.ofNat (symbol v).toNat

theorem alphabet_eq_some_iff {v : ℕ} {c : Char} : alphabet[v]? = some c ↔ v < 64 ∧ c = letter v := by
  have hlength : alphabet.length = 64 := by decide
  have key : ∀ v : Fin 64, alphabet[v.val]? = some (letter v.val) := by decide
  by_cases hv : v < 64
  · rw [key ⟨v, hv⟩]
    simp [hv, eq_comm]
  · rw [List.getElem?_eq_none (by omega)]
    simp [hv]

theorem alphabet_letter {v : ℕ} (hv : v < 64) : alphabet[v]? = some (letter v) :=
  alphabet_eq_some_iff.2 ⟨hv, rfl⟩

theorem letter_mem_alphabet {v : ℕ} (hv : v < 64) : letter v ∈ alphabet :=
  List.mem_of_getElem? (alphabet_letter hv)

theorem exists_letter_of_mem {c : Char} (h : c ∈ alphabet) : ∃ v < 64, c = letter v := by
  obtain ⟨v, hv⟩ := List.mem_iff_getElem?.1 h
  exact ⟨v, alphabet_eq_some_iff.1 hv⟩

theorem encodeChars_three (a b c : UInt8) (r : List UInt8) :
    encodeChars (a :: b :: c :: r) =
      letter (a.toNat / 4) :: letter (a.toNat % 4 * 16 + b.toNat / 16) ::
        letter (b.toNat % 16 * 4 + c.toNat / 64) :: letter (c.toNat % 64) :: encodeChars r := by
  unfold encodeChars
  rw [encode_three]
  rfl

theorem encodeChars_one (a : UInt8) :
    encodeChars [a] = [letter (a.toNat / 4), letter (a.toNat % 4 * 16), '=', '='] := rfl

theorem encodeChars_two (a b : UInt8) :
    encodeChars [a, b] = [letter (a.toNat / 4), letter (a.toNat % 4 * 16 + b.toNat / 16),
      letter (b.toNat % 16 * 4), '='] := rfl

/-- **The standard form of a sequence of bytes.** The bytes are the digits of a number to the base
256. It is made longer by fewer than six zero bits, so that it has digits to the base 64, and is
spelled in the letters of these. The fewest signs that make the length a multiple of four follow. -/
inductive Standard : List Char → List UInt8 → Prop
  | mk (vs : List ℕ) (cs : List Char) (fill : ℕ) {bs : List UInt8}
      (hletters : List.Forall₂ (fun v c => alphabet[v]? = some c) vs cs)
      (hle : 8 * bs.length ≤ 6 * vs.length) (hlt : 6 * vs.length < 8 * bs.length + 6)
      (hnumber : Nat.ofDigits 64 vs.reverse =
        Nat.ofDigits 256 (bs.map UInt8.toNat).reverse * 2 ^ (6 * vs.length - 8 * bs.length))
      (hfill : fill < 4) (hfour : 4 ∣ cs.length + fill) :
      Standard (cs ++ List.replicate fill '=') bs

/-- A number whose digits go on is moved up by the others. -/
theorem ofDigits_reverse_append (base : ℕ) (front back : List ℕ) :
    Nat.ofDigits base (front ++ back).reverse =
      Nat.ofDigits base back.reverse + base ^ back.length * Nat.ofDigits base front.reverse := by
  rw [List.reverse_append, Nat.ofDigits_append, List.length_reverse]

theorem standard_encodeChars : ∀ bs : List UInt8, Standard (encodeChars bs) bs
  | [] => .mk [] [] 0 .nil (by simp) (by simp) (by simp) (by simp) (by simp)
  | [a] => by
    obtain ⟨h1, h2, -, -⟩ := values_lt a 0 0
    simp only [UInt8.toNat_zero, Nat.zero_div, Nat.add_zero] at h2
    rw [encodeChars_one]
    refine .mk [a.toNat / 4, a.toNat % 4 * 16] [letter _, letter _] 2 ?_ (by simp)
      (by simp) ?_ (by simp) (by simp)
    · simp [alphabet_letter h1, alphabet_letter h2]
    · simp [Nat.ofDigits_cons]
      omega
  | [a, b] => by
    obtain ⟨h1, h2, h3, -⟩ := values_lt a b 0
    simp only [UInt8.toNat_zero, Nat.zero_div, Nat.add_zero] at h3
    rw [encodeChars_two]
    refine .mk [a.toNat / 4, a.toNat % 4 * 16 + b.toNat / 16, b.toNat % 16 * 4]
      [letter _, letter _, letter _] 1 ?_ (by simp) (by simp) ?_ (by simp) (by simp)
    · simp [alphabet_letter h1, alphabet_letter h2, alphabet_letter h3]
    · simp [Nat.ofDigits_cons]
      omega
  | a :: b :: c :: r => by
    obtain ⟨h1, h2, h3, h4⟩ := values_lt a b c
    have ih := standard_encodeChars r
    rw [encodeChars_three]
    generalize encodeChars r = text at ih
    obtain ⟨vs, cs, fill, hletters, hle, hlt, hnumber, hfill, hfour⟩ := ih
    -- The first three bytes and the first four letters stand for the same number.
    have hfirst : Nat.ofDigits 64 [a.toNat / 4, a.toNat % 4 * 16 + b.toNat / 16,
          b.toNat % 16 * 4 + c.toNat / 64, c.toNat % 64].reverse =
        Nat.ofDigits 256 [a.toNat, b.toNat, c.toNat].reverse := by
      simp [Nat.ofDigits_cons]
      omega
    have hshift : 64 ^ vs.length = 256 ^ r.length * 2 ^ (6 * vs.length - 8 * r.length) := by
      rw [show 64 = 2 ^ 6 by norm_num, show 256 = 2 ^ 8 by norm_num, ← pow_mul, ← pow_mul, ← pow_add]
      congr 1
      omega
    refine .mk ([a.toNat / 4, a.toNat % 4 * 16 + b.toNat / 16,
      b.toNat % 16 * 4 + c.toNat / 64, c.toNat % 64] ++ vs)
      ([letter _, letter _, letter _, letter _] ++ cs) fill ?_ ?_ ?_ ?_ hfill ?_
    · exact .cons (alphabet_letter h1) (.cons (alphabet_letter h2) (.cons (alphabet_letter h3)
        (.cons (alphabet_letter h4) hletters)))
    · simp only [List.length_append, List.length_cons, List.length_nil]
      omega
    · simp only [List.length_append, List.length_cons, List.length_nil]
      omega
    · have hbytes : (a :: b :: c :: r).map UInt8.toNat =
          [a.toNat, b.toNat, c.toNat] ++ r.map UInt8.toNat := rfl
      have hbits : 6 * ([a.toNat / 4, a.toNat % 4 * 16 + b.toNat / 16,
            b.toNat % 16 * 4 + c.toNat / 64, c.toNat % 64] ++ vs).length
          - 8 * (a :: b :: c :: r).length = 6 * vs.length - 8 * r.length := by
        simp only [List.length_append, List.length_cons, List.length_nil]
        omega
      rw [hbits, hbytes, ofDigits_reverse_append, ofDigits_reverse_append, hfirst, hnumber, hshift,
        List.length_map]
      ring
    · simp only [List.length_append, List.length_cons, List.length_nil]
      omega

/-! ### The grammar -/

/-- Texts in whole groups of four. Only the last group may hold signs that fill it up, no more than
two and only at its end, and the bits that its last letter has to spare are zero. -/
inductive Canonical : List Char → Prop
  | nil : Canonical []
  | full {a b c d : Char} {r : List Char} (h : ∀ x ∈ [a, b, c, d], x ∈ alphabet)
      (hr : Canonical r) : Canonical (a :: b :: c :: d :: r)
  | two {a b : Char} {v : ℕ} (ha : a ∈ alphabet) (hb : alphabet[v]? = some b)
      (hlow : v % 16 = 0) : Canonical [a, b, '=', '=']
  | three {a b c : Char} {v : ℕ} (h : ∀ x ∈ [a, b], x ∈ alphabet) (hc : alphabet[v]? = some c)
      (hlow : v % 4 = 0) : Canonical [a, b, c, '=']

theorem canonical_encodeChars : ∀ bs : List UInt8, Canonical (encodeChars bs)
  | [] => .nil
  | [a] => by
    obtain ⟨h1, h2, -, -⟩ := values_lt a 0 0
    simp only [UInt8.toNat_zero, Nat.zero_div, Nat.add_zero] at h2
    rw [encodeChars_one]
    exact .two (letter_mem_alphabet h1) (alphabet_letter h2) (by omega)
  | [a, b] => by
    obtain ⟨h1, h2, h3, -⟩ := values_lt a b 0
    simp only [UInt8.toNat_zero, Nat.zero_div, Nat.add_zero] at h3
    rw [encodeChars_two]
    refine .three ?_ (alphabet_letter h3) (by omega)
    simp [letter_mem_alphabet h1, letter_mem_alphabet h2]
  | a :: b :: c :: r => by
    obtain ⟨h1, h2, h3, h4⟩ := values_lt a b c
    rw [encodeChars_three]
    refine .full ?_ (canonical_encodeChars r)
    simp [letter_mem_alphabet h1, letter_mem_alphabet h2, letter_mem_alphabet h3,
      letter_mem_alphabet h4]

/-- A text is written for some bytes if and only if it follows the grammar. -/
theorem canonical_iff {cs : List Char} : Canonical cs ↔ ∃ bs, cs = encodeChars bs := by
  constructor
  · intro h
    induction h with
    | nil => exact ⟨[], rfl⟩
    | full h hr ih =>
      simp only [List.forall_mem_cons] at h
      obtain ⟨a, ha, rfl⟩ := exists_letter_of_mem h.1
      obtain ⟨b, hb, rfl⟩ := exists_letter_of_mem h.2.1
      obtain ⟨c, hc, rfl⟩ := exists_letter_of_mem h.2.2.1
      obtain ⟨d, hd, rfl⟩ := exists_letter_of_mem h.2.2.2.1
      obtain ⟨bs, rfl⟩ := ih
      refine ⟨decodeFour a b c d ++ bs, ?_⟩
      unfold encodeChars
      rw [encode_decodeFour ha hb hc hd]
      rfl
    | @two _ _ b hmem hb hlow =>
      obtain ⟨a, ha, rfl⟩ := exists_letter_of_mem hmem
      obtain ⟨hlt, rfl⟩ := alphabet_eq_some_iff.1 hb
      refine ⟨[.ofNat (a * 4 + b / 16)], ?_⟩
      rw [encodeChars, encode_one ha hlt hlow]
      rfl
    | @three _ _ _ c h hc hlow =>
      simp only [List.forall_mem_cons] at h
      obtain ⟨a, ha, rfl⟩ := exists_letter_of_mem h.1
      obtain ⟨b, hb, rfl⟩ := exists_letter_of_mem h.2.1
      obtain ⟨hlt, rfl⟩ := alphabet_eq_some_iff.1 hc
      refine ⟨[.ofNat (a * 4 + b / 16), .ofNat (b % 16 * 16 + c / 4)], ?_⟩
      rw [encodeChars, encode_two ha hb hlt hlow]
      rfl
  · rintro ⟨bs, rfl⟩
    exact canonical_encodeChars bs

end PullIngest.Base64

namespace PullIngest

/-- Texts with the same bytes are the same. -/
theorem toUTF8_toList_inj {s t : String} (h : s.toUTF8.toList = t.toUTF8.toList) : s = t := by
  rw [Utf8.toList_eq, Utf8.toList_eq, Array.toList_inj] at h
  exact String.toByteArray_inj.1 (ByteArray.ext h)

theorem ChunkResponse.toList_payload_ofBytes (offset : UInt64) (bs : List UInt8) :
    (ChunkResponse.ofBytes offset bs).payload.toList = Base64.encodeChars bs := by
  unfold ofBytes
  rw [String.toList_ofList]
  rfl

/-- **A payload is decoded exactly if it is canonical.** What is written for any bytes is decoded to
these bytes, and no other text is. It is their standard form: the letters of the digits of a number,
filled up to groups of four. So a payload cannot be decoded if a sign that fills it up is missing,
too many or out of place, if it holds a foreign character, or if its spare bits are not zero. -/
theorem ChunkResponse.bytes_eq_ok_iff (offset size : UInt64) (payload : String) :
    (∀ bs, (ChunkResponse.mk offset size payload).bytes = .ok bs ↔
      payload = (ChunkResponse.ofBytes offset bs).payload) ∧
    (∀ bs, Base64.Standard (ChunkResponse.ofBytes offset bs).payload.toList bs) ∧
    ((∃ bs, (ChunkResponse.mk offset size payload).bytes = .ok bs) ↔
      Base64.Canonical payload.toList) := by
  have hbytes (bs : List UInt8) : (ChunkResponse.mk offset size payload).bytes = .ok bs ↔
      payload = (ChunkResponse.ofBytes offset bs).payload := by
    constructor
    · intro h
      have hencode := Base64.eq_encode_of_decode h
      refine toUTF8_toList_inj (hencode.trans ?_)
      exact (toUTF8_of_ascii fun b hb => Base64.toNat_lt_of_mem_encode hb).symm
    · rintro rfl
      exact ChunkResponse.bytes_ofBytes offset bs
  refine ⟨hbytes, fun bs => ?_, ?_⟩
  · rw [toList_payload_ofBytes]
    exact Base64.standard_encodeChars bs
  · rw [Base64.canonical_iff]
    refine exists_congr fun bs => ?_
    rw [hbytes, ← String.toList_inj, toList_payload_ofBytes]

end PullIngest
