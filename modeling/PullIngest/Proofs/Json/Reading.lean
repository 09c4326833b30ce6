import PullIngest.Json.Record
import PullIngest.Proofs.Text.Hex

/-!
# Records that are written are read back

* `unescape?_escape`: string bodies, character by character (`foldlM_escapeChar`);
* `string?_ofString`, `uint64?_ofNat`: single values;
* `members?_ofMembers`, `fields?_ofMembers`: the members of a record, and looking fields up in it.
-/

namespace PullIngest.Json

/-! ### String bodies -/

/-- A written character is read as itself. -/
theorem foldlM_escapeChar (c : Char) (done : List Char) :
    (escapeChar c).foldlM Reading.step ⟨done, none, .plain⟩
      = some ⟨c :: done, none, .plain⟩ := by
  unfold escapeChar
  split_ifs with h1 h2 h3 h4 h5 h6 h7 h8
  · subst h1; rfl
  · subst h2; rfl
  · subst h3; rfl
  · subst h4; rfl
  · subst h5; rfl
  · subst h6; rfl
  · subst h7; rfl
  · have hbyte : (UInt8.ofNat c.toNat).toNat = c.toNat := by
      rw [UInt8.toNat_ofNat']
      omega
    have hhigh := Hex.value?_digitChar (d := c.toNat / 16) (by omega)
    have hlow := Hex.value?_digitChar (d := c.toNat % 16) (by omega)
    have hunit : 16 * (c.toNat / 16) + c.toNat % 16 = c.toNat := by omega
    have hzero : Hex.value? '0' = some 0 := by decide
    simp only [Hex.ofByte, hbyte, List.cons_append, List.nil_append]
    simp [List.foldlM_cons, Reading.step, hzero, hhigh, hlow, hunit, Reading.pushUnit]
    rw [if_neg (by omega), if_neg (by omega)]
  · simp [List.foldlM_cons, Reading.step, h2, Reading.push]

theorem foldlM_escape (cs done : List Char) :
    (escape cs).foldlM Reading.step ⟨done, none, .plain⟩
      = some ⟨cs.reverse ++ done, none, .plain⟩ := by
  induction cs generalizing done with
  | nil => rfl
  | cons c cs ih =>
    rw [escape, List.flatMap_cons, List.foldlM_append, foldlM_escapeChar]
    show (escape cs).foldlM Reading.step ⟨c :: done, none, .plain⟩ = _
    rw [ih]
    simp

/-- A written body is read back. -/
theorem unescape?_escape (cs : List Char) : unescape? (escape cs) = some cs := by
  rw [unescape?, foldlM_escape]
  simp [Reading.finish]

/-- A body without backslashes is read as it is. -/
theorem unescape?_of_plain {cs : List Char} (h : '\\' ∉ cs) : unescape? cs = some cs := by
  -- The reader carries what it has read, so the induction is for any of that.
  have key : ∀ done, cs.foldlM Reading.step ⟨done, none, .plain⟩
      = some ⟨cs.reverse ++ done, none, .plain⟩ := by
    induction cs with
    | nil => intro done; rfl
    | cons c cs ih =>
      intro done
      have hc : c ≠ '\\' := fun e => h (by simp [e])
      have hcs : '\\' ∉ cs := fun e => h (by simp [e])
      rw [List.foldlM_cons]
      show ((if c = '\\' then _ else _) >>= _) = _
      rw [if_neg hc]
      show cs.foldlM Reading.step ⟨c :: done, none, .plain⟩ = _
      rw [ih hcs]
      simp
  rw [unescape?, key]
  simp [Reading.finish]

/-! ### Single values -/

@[simp] theorem string?_ofString (s : String) : (Value.ofString s).string? = some s := by
  simp [Value.string?, Value.chars?, Value.ofString, unescape?_escape]

theorem decimal_toDigits (n : ℕ) : decimal (Nat.toDigits 10 n) = n := Nat.ofDigitChars_ten_toDigits

theorem natural?_ofNat (n : ℕ) : (Value.ofNat n).natural? = some n := by
  have hall : (Nat.toDigits 10 n).all Char.isDigit = true :=
    List.all_eq_true.2 fun c hc => Nat.isDigit_of_mem_toDigits (by decide) (by decide) hc
  simp [Value.natural?, Value.ofNat, hall, decimal_toDigits]

@[simp] theorem uint64?_ofNat (n : UInt64) : (Value.ofNat n.toNat).uint64? = some n := by
  rw [Value.uint64?, natural?_ofNat]
  show (if n.toNat < UInt64.size then some (UInt64.ofNat n.toNat) else none) = some n
  rw [if_pos n.toNat_lt, UInt64.ofNat_toNat]

/-! ### Records -/

/-- The members of a written record. -/
theorem members?_ofMembers (ms : List (String × Value)) :
    (Value.ofMembers ms).members? = some (ms.map fun m => (m.1.toList, m.2)) := by
  have key : ∀ ms : List (String × Value),
      (ms.map Member.compact).mapM (fun m => (unescape? m.key).map (·, m.value))
        = some (ms.map fun m => (m.1.toList, m.2)) := by
    intro ms
    induction ms with
    | nil => rfl
    | cons m ms ih =>
      rw [List.map_cons, List.mapM_cons, ih]
      simp [Member.compact, unescape?_escape]
  cases ms with
  | nil => rfl
  | cons m ms => exact key (m :: ms)

/-- The fields of a written record are looked up among its members. -/
theorem fields?_ofMembers (fields : List Field) (ms : List (String × Value)) :
    (Value.ofMembers ms).fields? fields
      = fields.mapM fun f => f.find? (ms.map fun m => (m.1.toList, m.2)) := by
  rw [Value.fields?, members?_ofMembers]

end PullIngest.Json
