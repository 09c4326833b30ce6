import Mathlib.Tactic.Common
import PullIngest.Text.Base64

/-!
# Base64 texts that are written are read back

A sequence of bytes is split behind all of its groups of three but the last one, which may be
shorter. The front is read by `decodeGroups` and the last group by `decodeLast`.

* `encode_append`: a text is written group by group;
* `decodeGroups_encode`, `decodeLast_encode`: what the two readers do with written groups;
* `decode_encode`: every sequence of bytes is read back.
-/

namespace PullIngest.Base64

/-! ### Symbols -/

theorem value?_symbol {v : ℕ} (h : v < 64) : value? (symbol v) = some v := by
  have key : ∀ v : Fin 64, value? (symbol v) = some v.val := by decide
  exact key ⟨v, h⟩

theorem value?_pad : value? pad = none := by decide

theorem symbol_ne_pad {v : ℕ} (h : v < 64) : symbol v ≠ pad := by
  intro e
  have := value?_symbol h
  rw [e, value?_pad] at this
  cases this

theorem valueAt_symbol {v : ℕ} (h : v < 64) (offset : ℕ) : valueAt (symbol v) offset = .ok v := by
  simp [valueAt, value?_symbol h]

/-- A symbol is an ASCII character. -/
theorem toNat_symbol_lt (v : ℕ) : (symbol v).toNat < 128 := by
  unfold symbol
  split_ifs <;> simp [UInt8.toNat_ofNat'] <;> omega

/-! ### Writing -/

/-- What is written already stays in front. -/
theorem encodeOnto_append (done before bs : List UInt8) :
    encodeOnto (done ++ before) bs = before.reverse ++ encodeOnto done bs := by
  fun_induction encodeOnto done bs with
  | case1 done a b c r ih =>
    rw [encodeOnto, ← List.append_assoc, ih]
  | case2 done r hr =>
    rw [encodeOnto, List.reverse_append, List.append_assoc]
    exact hr

theorem encode_three (a b c : UInt8) (r : List UInt8) :
    encode (a :: b :: c :: r) = encodeThree a b c ++ encode r := by
  have h := encodeOnto_append [] (encodeThree a b c).reverse r
  rw [List.nil_append, List.reverse_reverse] at h
  show encodeOnto ((encodeThree a b c).reverse ++ []) r = encodeThree a b c ++ encodeOnto [] r
  rw [List.append_nil, h]

/-- Whole groups are written one after the other. -/
theorem encode_append : ∀ (xs ys : List UInt8), xs.length % 3 = 0 →
    encode (xs ++ ys) = encode xs ++ encode ys
  | [], _, _ => rfl
  | [_], _, h => by simp at h
  | [_, _], _, h => by simp at h
  | a :: b :: c :: r, ys, h => by
    have hr : r.length % 3 = 0 := by
      simp only [List.length_cons] at h
      omega
    rw [encode_three, List.append_assoc, ← encode_append r ys hr, List.cons_append,
      List.cons_append, List.cons_append, encode_three]

/-- Three bytes become four symbols. -/
theorem length_encode : ∀ bs : List UInt8, (encode bs).length = 4 * ((bs.length + 2) / 3)
  | [] => rfl
  | [a] => by simp [encode, encodeOnto, encodeTail]
  | [a, b] => by simp [encode, encodeOnto, encodeTail]
  | a :: b :: c :: r => by
    rw [encode_three, List.length_append, length_encode r]
    simp only [encodeThree, List.length_cons, List.length_nil]
    omega

/-- A text is written in ASCII. -/
theorem toNat_lt_of_mem_encode {b : UInt8} : ∀ {bs : List UInt8}, b ∈ encode bs → b.toNat < 128
  | [], h => by cases h
  | [_], h => by
    simp only [encode, encodeOnto, encodeTail, List.reverse_nil, List.nil_append, List.mem_cons,
      List.not_mem_nil, or_false] at h
    rcases h with rfl | rfl | rfl | rfl <;> first | exact toNat_symbol_lt _ | decide
  | [_, _], h => by
    simp only [encode, encodeOnto, encodeTail, List.reverse_nil, List.nil_append, List.mem_cons,
      List.not_mem_nil, or_false] at h
    rcases h with rfl | rfl | rfl | rfl <;> first | exact toNat_symbol_lt _ | decide
  | a :: b' :: c :: r, h => by
    rw [encode_three] at h
    rcases List.mem_append.1 h with h | h
    · simp only [encodeThree, List.mem_cons, List.not_mem_nil, or_false] at h
      rcases h with rfl | rfl | rfl | rfl <;> exact toNat_symbol_lt _
    · exact toNat_lt_of_mem_encode h

/-! ### Reading -/

/-- The bytes of a group, put together from the values of its symbols. -/
theorem decodeFour_of_bytes (a b c : UInt8) :
    decodeFour (a.toNat / 4) (a.toNat % 4 * 16 + b.toNat / 16) (b.toNat % 16 * 4 + c.toNat / 64)
      (c.toNat % 64) = [a, b, c] := by
  have ha := a.toNat_lt
  have hb := b.toNat_lt
  have hc := c.toNat_lt
  have h1 : a.toNat / 4 * 4 + (a.toNat % 4 * 16 + b.toNat / 16) / 16 = a.toNat := by omega
  have h2 : (a.toNat % 4 * 16 + b.toNat / 16) % 16 * 16
      + (b.toNat % 16 * 4 + c.toNat / 64) / 4 = b.toNat := by omega
  have h3 : (b.toNat % 16 * 4 + c.toNat / 64) % 4 * 64 + c.toNat % 64 = c.toNat := by omega
  simp only [decodeFour, h1, h2, h3, UInt8.ofNat_toNat]

/-- The values of the four symbols of a group are six bits long. -/
theorem values_lt (a b c : UInt8) :
    a.toNat / 4 < 64 ∧ a.toNat % 4 * 16 + b.toNat / 16 < 64 ∧
      b.toNat % 16 * 4 + c.toNat / 64 < 64 ∧ c.toNat % 64 < 64 := by
  have ha := a.toNat_lt
  have hb := b.toNat_lt
  have hc := c.toNat_lt
  omega

theorem decodeGroups_encodeThree (offset : ℕ) (done : List UInt8) (a b c : UInt8)
    (r : List UInt8) :
    decodeGroups offset done (encodeThree a b c ++ r)
      = decodeGroups (offset + 4) (c :: b :: a :: done) r := by
  obtain ⟨h1, h2, h3, h4⟩ := values_lt a b c
  simp only [encodeThree, List.cons_append, List.nil_append]
  rw [decodeGroups, valueAt_symbol h1, valueAt_symbol h2, valueAt_symbol h3, valueAt_symbol h4]
  show decodeGroups (offset + 4) ((decodeFour _ _ _ _).reverse ++ done) r = _
  rw [decodeFour_of_bytes]
  rfl

/-- Whole groups are read one after the other. -/
theorem decodeGroups_encode : ∀ (bs : List UInt8) (offset : ℕ) (done : List UInt8),
    bs.length % 3 = 0 → decodeGroups offset done (encode bs) = .ok (done.reverse ++ bs)
  | [], offset, done, _ => by simp [encode, encodeOnto, encodeTail, decodeGroups]
  | [_], _, _, h => by simp at h
  | [_, _], _, _, h => by simp at h
  | a :: b :: c :: r, offset, done, h => by
    have hr : r.length % 3 = 0 := by
      simp only [List.length_cons] at h
      omega
    rw [encode_three, decodeGroups_encodeThree, decodeGroups_encode r _ _ hr]
    simp

section LastGroup

variable {start v : ℕ} {g : LastGroup}

theorem take_symbol (h : v < 64) (hg : g.padding = 0) :
    g.take start (symbol v) = .ok { g with symbols := g.symbols ++ [(symbol v, v)] } := by
  unfold LastGroup.take
  rw [if_neg (symbol_ne_pad h), if_neg (by omega), valueAt_symbol h]
  rfl

theorem take_pad (h : 2 ≤ g.symbols.length + g.padding) :
    g.take start pad = .ok { g with
      padding := g.padding + 1
      firstPad := if g.padding = 0 then start + (g.symbols.length + g.padding) else g.firstPad } := by
  simp [LastGroup.take, Nat.not_lt.2 h]

theorem decodeLast_of_fold {group : List UInt8}
    (hg : group.foldlM (LastGroup.take start) ⟨[], 0, 0⟩ = .ok g) (h2 : 2 ≤ g.symbols.length)
    (h4 : (g.padding + g.symbols.length) % 4 = 0) :
    decodeLast start group = g.bytes start := by
  unfold decodeLast
  rw [hg]
  show (if group ≠ [] ∧ g.symbols.length < 2 then _ else _) = _
  rw [if_neg (by omega), if_neg (by omega)]

end LastGroup

/-- The last group may have one to three bytes. -/
theorem decodeLast_encode (start : ℕ) : ∀ bs : List UInt8, bs.length ≤ 3 →
    decodeLast start (encode bs) = .ok bs
  | [], _ => rfl
  | [a], _ => by
    obtain ⟨h1, h2, -, -⟩ := values_lt a 0 0
    -- The low bits of the last symbol are zero, so the reader does not object to them.
    have hlow : a.toNat % 4 * 16 % 16 = 0 := by omega
    have ha : a.toNat / 4 * 4 + a.toNat % 4 * 16 / 16 = a.toNat := by omega
    simp only [UInt8.toNat_zero, Nat.zero_div, Nat.add_zero] at h2
    have hg : (encode [a]).foldlM (LastGroup.take start) ⟨[], 0, 0⟩
        = .ok ⟨[(symbol (a.toNat / 4), a.toNat / 4),
          (symbol (a.toNat % 4 * 16), a.toNat % 4 * 16)], 2, start + 2⟩ := by
      simp [encode, encodeOnto, encodeTail, take_symbol h1, take_symbol h2, take_pad, bind,
        Except.bind, pure, Except.pure]
    rw [decodeLast_of_fold hg (by simp) (by simp)]
    simp only [LastGroup.bytes]
    rw [if_pos hlow, ha, UInt8.ofNat_toNat]
  | [a, b], _ => by
    obtain ⟨h1, h2, h3, -⟩ := values_lt a b 0
    have hbyte := b.toNat_lt
    have hlow : b.toNat % 16 * 4 % 4 = 0 := by omega
    have ha : a.toNat / 4 * 4 + (a.toNat % 4 * 16 + b.toNat / 16) / 16 = a.toNat := by omega
    have hb : (a.toNat % 4 * 16 + b.toNat / 16) % 16 * 16 + b.toNat % 16 * 4 / 4 = b.toNat := by
      omega
    simp only [UInt8.toNat_zero, Nat.zero_div, Nat.add_zero] at h3
    have hg : (encode [a, b]).foldlM (LastGroup.take start) ⟨[], 0, 0⟩
        = .ok ⟨[(symbol (a.toNat / 4), a.toNat / 4),
          (symbol (a.toNat % 4 * 16 + b.toNat / 16), a.toNat % 4 * 16 + b.toNat / 16),
          (symbol (b.toNat % 16 * 4), b.toNat % 16 * 4)], 1, start + 3⟩ := by
      simp [encode, encodeOnto, encodeTail, take_symbol h1, take_symbol h2, take_symbol h3,
        take_pad, bind, Except.bind, pure, Except.pure]
    rw [decodeLast_of_fold hg (by simp) (by simp)]
    simp only [LastGroup.bytes]
    rw [if_pos hlow, ha, hb, UInt8.ofNat_toNat, UInt8.ofNat_toNat]
  | [a, b, c], _ => by
    obtain ⟨h1, h2, h3, h4⟩ := values_lt a b c
    have hg : (encode [a, b, c]).foldlM (LastGroup.take start) ⟨[], 0, 0⟩
        = .ok ⟨[(symbol (a.toNat / 4), a.toNat / 4),
          (symbol (a.toNat % 4 * 16 + b.toNat / 16), a.toNat % 4 * 16 + b.toNat / 16),
          (symbol (b.toNat % 16 * 4 + c.toNat / 64), b.toNat % 16 * 4 + c.toNat / 64),
          (symbol (c.toNat % 64), c.toNat % 64)], 0, 0⟩ := by
      simp [encode, encodeOnto, encodeTail, encodeThree, take_symbol h1, take_symbol h2,
        take_symbol h3, take_symbol h4, bind, Except.bind, pure, Except.pure]
    rw [decodeLast_of_fold hg (by simp) (by simp)]
    simp only [LastGroup.bytes]
    rw [decodeFour_of_bytes]
  | _ :: _ :: _ :: _ :: _, h => by
    simp only [List.length_cons] at h
    omega

/-- **What is written is read back.** -/
theorem decode_encode (bs : List UInt8) : decode (encode bs) = .ok bs := by
  have hlen := length_encode bs
  -- All groups of three but the last one, which is not empty unless there are no bytes.
  let m := 3 * ((bs.length - 1) / 3)
  have hfront : (bs.take m).length % 3 = 0 := by
    rw [List.length_take]
    omega
  have hlast : (bs.drop m).length ≤ 3 := by
    rw [List.length_drop]
    omega
  have hsplit : encode bs = encode (bs.take m) ++ encode (bs.drop m) := by
    rw [← encode_append _ _ hfront, List.take_append_drop]
  have hleading : leading (encode bs).length = (encode (bs.take m)).length := by
    rw [length_encode (bs.take m), List.length_take, hlen]
    unfold leading
    rw [if_pos (by omega)]
    omega
  -- A single symbol is never left over.
  have hstray : checkStray (encode bs) = .ok () := by
    unfold checkStray
    split
    · rw [if_neg (by omega)]
    · rfl
  unfold decode
  rw [hstray, hleading]
  show (do
    let front ← decodeGroups 0 [] ((encode bs).take (encode (bs.take m)).length)
    let last ← decodeLast (encode (bs.take m)).length
      ((encode bs).drop (encode (bs.take m)).length)
    Except.ok (front ++ last)) = Except.ok bs
  rw [hsplit, List.take_left, List.drop_left, decodeGroups_encode _ _ _ hfront,
    decodeLast_encode _ _ hlast]
  show Except.ok ([].reverse ++ bs.take m ++ bs.drop m) = Except.ok bs
  simp

end PullIngest.Base64
