import Mathlib.Tactic.Common
import PullIngest.Text.Utf8

/-!
# Text that is written as bytes is read back

* `foldl_step_encodeChar`: the bytes of a character are read as that character;
* `encode_ofList`: the bytes of a text, one character after the other;
* `decode?_encode`: the bytes of a text are read as the text.
-/

namespace PullIngest.Utf8

variable {done : List (Option Char)} {low high b : UInt8} {value k n : ℕ}

theorem within (hb : b.toNat = k + 0x80) (hlow : low.toNat ≤ k + 0x80)
    (hhigh : k + 0x80 ≤ high.toNat) : ¬(b < low ∨ high < b) := by
  rw [UInt8.lt_iff_toNat_lt, UInt8.lt_iff_toNat_lt]
  omega

/-- A byte that continues a character. -/
theorem step_more (missing : ℕ) (hb : b.toNat = k + 0x80) (hlow : low.toNat ≤ k + 0x80)
    (hhigh : k + 0x80 ≤ high.toNat) :
    Reading.step ⟨done, some ⟨missing + 2, low, high, value⟩⟩ b =
      ⟨done, some ⟨missing + 1, 0x80, 0xBF, value * 64 + k⟩⟩ := by
  unfold Reading.step
  dsimp only
  rw [if_neg (within hb hlow hhigh), if_neg (by omega), hb, Nat.add_sub_cancel]
  rfl

/-- The last byte of a character. -/
theorem step_last (hb : b.toNat = k + 0x80) (hlow : low.toNat ≤ k + 0x80)
    (hhigh : k + 0x80 ≤ high.toNat) :
    Reading.step ⟨done, some ⟨1, low, high, value⟩⟩ b =
      ⟨some (Char.ofNat (value * 64 + k)) :: done, none⟩ := by
  unfold Reading.step
  dsimp only
  rw [if_neg (within hb hlow hhigh), if_pos (Nat.le_refl 1), hb, Nat.add_sub_cancel]

/-- The first byte of three: two narrower ranges leave out what is written shorter, and what is no
character. -/
theorem begin_three (done : List (Option Char)) (hn : b.toNat = n + 0xE0) (hlt : n < 16) :
    ∃ low high : UInt8, Reading.begin done b = ⟨done, some ⟨2, low, high, n⟩⟩ ∧
      low.toNat = (if n = 0 then 0xA0 else 0x80) ∧ high.toNat = if n = 0xD then 0x9F else 0xBF := by
  unfold Reading.begin
  dsimp only
  rw [hn]
  by_cases h0 : n = 0
  · subst h0
    exact ⟨0xA0, 0xBF, by simp, rfl, rfl⟩
  by_cases hd : n = 0xD
  · subst hd
    exact ⟨0x80, 0x9F, by simp, rfl, rfl⟩
  rw [if_neg (by omega), if_neg (by omega), if_neg (by omega), if_neg (by omega),
    if_pos (by omega), if_neg h0, if_neg hd, Nat.add_sub_cancel]
  exact ⟨0x80, 0xBF, rfl, rfl, rfl⟩

/-- The first byte of four. -/
theorem begin_four (done : List (Option Char)) (hn : b.toNat = n + 0xF0) (hlt : n < 5) :
    ∃ low high : UInt8, Reading.begin done b = ⟨done, some ⟨3, low, high, n⟩⟩ ∧
      low.toNat = (if n = 0 then 0x90 else 0x80) ∧ high.toNat = if n = 4 then 0x8F else 0xBF := by
  unfold Reading.begin
  dsimp only
  rw [hn]
  by_cases h0 : n = 0
  · subst h0
    exact ⟨0x90, 0xBF, by simp, rfl, rfl⟩
  by_cases h4 : n = 4
  · subst h4
    exact ⟨0x80, 0x8F, by simp, rfl, rfl⟩
  rw [if_neg (by omega), if_neg (by omega), if_neg (by omega), if_neg (by omega),
    if_neg (by omega), if_neg (by omega), if_pos (by omega), if_neg h0, if_neg h4,
    Nat.add_sub_cancel]
  exact ⟨0x80, 0xBF, rfl, rfl, rfl⟩

theorem begin_one (hn : b.toNat = n) (hlt : n < 0x80) :
    Reading.begin done b = ⟨some (Char.ofNat n) :: done, none⟩ := by
  unfold Reading.begin
  dsimp only
  rw [hn, if_pos hlt]

theorem begin_two (done : List (Option Char)) (hn : b.toNat = n + 0xC0) (hle : 2 ≤ n) (hlt : n < 32) :
    Reading.begin done b = ⟨done, some ⟨1, 0x80, 0xBF, n⟩⟩ := by
  unfold Reading.begin
  dsimp only
  rw [hn, if_neg (by omega), if_pos (by omega), Nat.add_sub_cancel]

/-- The bytes of a character are read as that character. -/
theorem foldl_step_encodeChar (c : Char) (done : List (Option Char)) :
    (String.utf8EncodeChar c).foldl Reading.step ⟨done, none⟩ = ⟨some c :: done, none⟩ := by
  have hvalid : c.val.toNat < 0xD800 ∨ 0xDFFF < c.val.toNat ∧ c.val.toNat < 0x110000 := c.valid
  have hchar : Char.ofNat c.val.toNat = c := Char.ofNat_toNat c
  have hbyte : ∀ m, m < 256 → (UInt8.ofNat m).toNat = m := fun m hm => UInt8.toNat_ofNat_of_lt' hm
  have hmore : (0x80 : UInt8).toNat = 0x80 ∧ (0xBF : UInt8).toNat = 0xBF := ⟨rfl, rfl⟩
  unfold String.utf8EncodeChar
  generalize c.val.toNat = v at hvalid hchar
  dsimp only
  have hlast := hbyte (v % 64 + 0x80) (by omega)
  have hmiddle := hbyte (v / 64 % 64 + 0x80) (by omega)
  split_ifs with h1 h2 h3
  · show Reading.begin done _ = _
    rw [begin_one (hbyte v (by omega)) (by omega), hchar]
  · have hbegin := begin_two done (hbyte (v / 64 % 32 + 0xC0) (by omega))
    have hvalue : v / 64 % 32 * 64 + v % 64 = v := by omega
    show Reading.step (Reading.begin done _) _ = _
    rw [hbegin (by omega) (by omega), step_last hlast (by omega) (by omega), hvalue, hchar]
  · obtain ⟨low, high, hbegin, hlow, hhigh⟩ :=
      begin_three done (hbyte (v / 4096 % 16 + 0xE0) (by omega)) (by omega)
    have hvalue : (v / 4096 % 16 * 64 + v / 64 % 64) * 64 + v % 64 = v := by omega
    have hlow' : low.toNat ≤ v / 64 % 64 + 0x80 := by
      rw [hlow]
      split_ifs <;> omega
    have hhigh' : v / 64 % 64 + 0x80 ≤ high.toNat := by
      rw [hhigh]
      split_ifs <;> omega
    show Reading.step (Reading.step (Reading.begin done _) _) _ = _
    rw [hbegin, step_more 0 hmiddle hlow' hhigh',
      step_last hlast (by omega) (by omega), hvalue, hchar]
  · obtain ⟨low, high, hbegin, hlow, hhigh⟩ :=
      begin_four done (hbyte (v / 262144 % 8 + 0xF0) (by omega)) (by omega)
    have hsecond := hbyte (v / 4096 % 64 + 0x80) (by omega)
    have hvalue : ((v / 262144 % 8 * 64 + v / 4096 % 64) * 64 + v / 64 % 64) * 64 + v % 64 = v := by
      omega
    have hlow' : low.toNat ≤ v / 4096 % 64 + 0x80 := by
      rw [hlow]
      split_ifs <;> omega
    have hhigh' : v / 4096 % 64 + 0x80 ≤ high.toNat := by
      rw [hhigh]
      split_ifs <;> omega
    show Reading.step (Reading.step (Reading.step (Reading.begin done _) _) _) _ = _
    rw [hbegin, step_more 1 hsecond hlow' hhigh',
      step_more 0 hmiddle (by omega) (by omega),
      step_last hlast (by omega) (by omega), hvalue, hchar]

theorem foldl_step_encode (cs : List Char) (done : List (Option Char)) :
    (cs.flatMap String.utf8EncodeChar).foldl Reading.step ⟨done, none⟩ =
      ⟨(cs.map some).reverse ++ done, none⟩ := by
  induction cs generalizing done with
  | nil => rfl
  | cons c cs ih =>
    rw [List.flatMap_cons, List.foldl_append, foldl_step_encodeChar, ih]
    simp

theorem toList_loop (bs : ByteArray) (i : ℕ) (r : List UInt8) :
    ByteArray.toList.loop bs i r = r.reverse ++ bs.data.toList.drop i := by
  unfold ByteArray.toList.loop
  split_ifs with h
  · have hi : i < bs.data.toList.length := h
    have hget : bs.get! i = bs.data.toList[i] := getElem!_pos bs.data i h
    rw [toList_loop bs (i + 1), List.drop_eq_getElem_cons hi, hget, List.reverse_cons,
      List.append_assoc, List.singleton_append]
  · have hi : bs.data.toList.length ≤ i := Nat.le_of_not_lt h
    rw [List.drop_of_length_le hi, List.append_nil]
termination_by bs.size - i

/-- The bytes of an array, one after the other. -/
theorem toList_eq (bs : ByteArray) : bs.toList = bs.data.toList := by
  rw [ByteArray.toList, toList_loop, List.reverse_nil, List.nil_append, List.drop_zero]

/-- The bytes of a text are those of its characters. -/
theorem encode_ofList (cs : List Char) :
    encode (String.ofList cs) = cs.flatMap String.utf8EncodeChar := by
  rw [encode, toList_eq]
  show (List.flatMap String.utf8EncodeChar _).toByteArray.data.toList = _
  rw [List.toList_data_toByteArray]

/-- The bytes of a text are read as the text. -/
theorem decode?_encode (s : String) : decode? (encode s) = some s := by
  have hchars : chars (encode s) = s.toList.map some := by
    rw [← String.ofList_toList (s := s), encode_ofList, String.toList_ofList, chars,
      foldl_step_encode]
    simp
  unfold decode?
  rw [hchars]
  simp [List.filterMap_map, Function.comp_def]

end PullIngest.Utf8
