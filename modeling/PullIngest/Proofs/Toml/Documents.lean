import PullIngest.Proofs.Json.Documents
import PullIngest.Proofs.Toml.Strings
import PullIngest.Toml.Parser

/-!
# Flat documents are read back

A document with one assignment on each line, whose keys need no quotes and whose values are strings,
integers and truth values.

* `scanScalar_text`: a value is found, whatever comes on the next line;
* `scanStatement_line`: a line is read as an assignment;
* `parse?_lines`: a document of such lines holds just what they say.
-/

namespace PullIngest.Toml

/-! ### Integers -/

theorem extendDigits?_cons {c : Char} (hc : c ≠ '_') (base n : ℕ) (r : List Char) :
    extendDigits? base n (c :: r) =
      (digit? base c).bind fun d => extendDigits? base (base * n + d) r := by
  cases r <;> simp [extendDigits?, hc]

theorem digitChar_ne {d : ℕ} (hd : d < 10) : Nat.digitChar d ≠ '_' := by
  have key : ∀ d : Fin 10, Nat.digitChar d.val ≠ '_' := by decide
  exact key ⟨d, hd⟩

theorem digit?_digitChar {d : ℕ} (hd : d < 10) : digit? 10 (Nat.digitChar d) = some d := by
  rw [digit?, Hex.value?_digitChar (by omega)]
  simp [hd]

/-- One more digit. -/
theorem extendDigits?_append {ds : List Char} (hds : '_' ∉ ds) {d : ℕ} (hd : d < 10) (n : ℕ) :
    extendDigits? 10 n (ds ++ [Nat.digitChar d]) =
      (extendDigits? 10 n ds).map fun m => 10 * m + d := by
  induction ds generalizing n with
  | nil =>
    rw [List.nil_append, extendDigits?_cons (digitChar_ne hd), digit?_digitChar hd]
    rfl
  | cons c ds ih =>
    obtain ⟨hc, hds⟩ : '_' ≠ c ∧ '_' ∉ ds := by simpa using hds
    rw [List.cons_append, extendDigits?_cons hc.symm, extendDigits?_cons hc.symm]
    cases digit? 10 c with
    | none => rfl
    | some e => exact ih hds (10 * n + e)

theorem underscore_notMem_toDigits (n : ℕ) : '_' ∉ Nat.toDigits 10 n := fun h =>
  absurd (Nat.isDigit_of_mem_toDigits (by decide) (by decide) h) (by decide)

theorem extendDigits?_toDigits (n : ℕ) : extendDigits? 10 0 (Nat.toDigits 10 n) = some n := by
  induction n using Nat.base_induction 10 (by decide) with
  | single m hm =>
    rw [Nat.toDigits_of_lt_base hm, ← List.nil_append [_],
      extendDigits?_append List.not_mem_nil hm]
    simp [extendDigits?]
  | digit m k hk hm ih =>
    rw [← Nat.toDigits_append_toDigits (by decide) hm hk, Nat.toDigits_of_lt_base hk,
      extendDigits?_append (underscore_notMem_toDigits m) hk, ih]
    rfl

/-- Decimal digits are read as their number. -/
theorem digits?_toDigits (n : ℕ) : digits? 10 (Nat.toDigits 10 n) = some n := by
  have hextend := extendDigits?_toDigits n
  have hunderscore := underscore_notMem_toDigits n
  cases hds : Nat.toDigits 10 n with
  | nil => exact absurd hds Nat.toDigits_ne_nil
  | cons c r =>
    rw [hds] at hextend hunderscore
    have hc : c ≠ '_' := fun h => hunderscore (by simp [h])
    simpa [extendDigits?_cons hc, digits?] using hextend

/-- Decimal digits without a sign are an integer. -/
theorem integer?_toDigits (n : ℕ) : integer? (Nat.toDigits 10 n) = some (n : ℤ) := by
  obtain ⟨⟨-, hdigits⟩, hzero⟩ := Json.whole_toDigits n
  have hread := digits?_toDigits n
  -- A zero that leads would have to be alone.
  have hlead : ∀ c r, Nat.toDigits 10 n ≠ '0' :: c :: r := by
    intro c r h
    have halone := hzero (by rw [h]; rfl)
    rw [h] at halone
    cases halone
  have hdecimal : decimal? (Nat.toDigits 10 n) = some n := by
    unfold decimal?
    split
    · next h => exact absurd h (hlead _ _)
    · exact hread
  have hsign : scanSign (Nat.toDigits 10 n) = (none, Nat.toDigits 10 n) := by
    unfold scanSign
    split
    · next h => exact absurd (hdigits '+' (by simp [h])) (by decide)
    · next h => exact absurd (hdigits '-' (by simp [h])) (by decide)
    · rfl
  unfold integer?
  split
  · next h => exact absurd h (hlead _ _)
  · next h => exact absurd h (hlead _ _)
  · next h => exact absurd h (hlead _ _)
  · rw [hsign]
    dsimp only
    rw [hdecimal]
    rfl

/-! ### Characters of keys -/

theorem isBareChar_of_isDigit {c : Char} (h : c.isDigit = true) : isBareChar c = true := by
  simp [isBareChar, Char.isAlphanum, h]

theorem isBlank_of_isBareChar {c : Char} (h : isBareChar c = true) : isBlank c = false := by
  by_contra hno
  simp only [isBlank, Bool.not_eq_false, Bool.or_eq_true, decide_eq_true_eq] at hno
  rcases hno with rfl | rfl <;> cases h

theorem isPlain_of_isBareChar {c : Char} (h : isBareChar c = true) : isPlain c = true := by
  have key : ∀ n : Fin 128, isBareChar (Char.ofNat n.val) = true →
      isPlain (Char.ofNat n.val) = true := by decide
  by_cases hlt : c.toNat < 128
  · simpa using key ⟨c.toNat, hlt⟩ (by simpa using h)
  · have hwide : 32 ≤ c.toNat ∧ c.toNat ≠ 127 := by omega
    simp [isPlain, hwide]

/-! ### Values -/

/-- A value that is written in a way of its own. -/
inductive Flat : Scalar → Prop
  | string (cs : List Char) : Flat (.string cs)
  | natural (n : ℕ) : Flat (.integer n)
  | boolean (b : Bool) : Flat (.boolean b)

/-- The text of a natural number of 63 bits is its digits. -/
theorem text?_natural {n : ℕ} {text : List Char}
    (h : (Scalar.integer n).text? = some text) :
    text = Nat.toDigits 10 n ∧ isInteger64 n = true := by
  dsimp only [Scalar.text?] at h
  split_ifs at h with hn
  refine ⟨?_, hn⟩
  rw [← Option.some.inj h]
  exact String.toList_ofList

theorem scanToken_line {token : List Char} (h : ∀ c ∈ token, isTokenChar c = true)
    (rest : List Char) : scanToken (token ++ '\n' :: rest) = (token, '\n' :: rest) := by
  unfold scanToken
  rw [Json.span_append h (by simp; rfl)]
  rfl

theorem scanScalar_token {token : List Char} {v : Scalar} {c : Char} {r rest : List Char}
    (hcons : token = c :: r) (htoken : ∀ c ∈ token, isTokenChar c = true)
    (hv : Scalar.ofToken? token = some v) :
    scanScalar (token ++ '\n' :: rest) = some (v, '\n' :: rest) := by
  have hc : isTokenChar c = true := htoken c (by simp [hcons])
  have hscan := scanToken_line htoken rest
  unfold scanScalar
  split
  · next h =>
    rw [hcons] at h
    rw [(List.cons.inj h).1] at hc
    cases hc
  · next h =>
    rw [hcons] at h
    rw [(List.cons.inj h).1] at hc
    cases hc
  · rw [hscan]
    simp [hv]

theorem isTokenChar_of_isDigit {c : Char} (h : c.isDigit = true) : isTokenChar c = true := by
  simp [isTokenChar, Char.isAlphanum, h]

theorem ofToken?_toDigits {n : ℕ} (h : isInteger64 n = true) :
    Scalar.ofToken? (Nat.toDigits 10 n) = some (.integer n) := by
  have hdigits := (Json.whole_toDigits n).1.2
  have hne : ∀ c r, c.isDigit = false → Nat.toDigits 10 n ≠ c :: r := by
    intro c r hc heq
    rw [hdigits c (by simp [heq])] at hc
    cases hc
  have htrue : Nat.toDigits 10 n ≠ "true".toList := hne 't' ['r', 'u', 'e'] rfl
  have hfalse : Nat.toDigits 10 n ≠ "false".toList := hne 'f' ['a', 'l', 's', 'e'] rfl
  unfold Scalar.ofToken?
  rw [if_neg htrue, if_neg hfalse, integer?_toDigits]
  simp [h]

/-- A value is found at the end of its line. -/
theorem scanScalar_text {v : Scalar} (hv : Flat v) {text : List Char} (ht : v.text? = some text)
    (rest : List Char) : scanScalar (text ++ '\n' :: rest) = some (v, '\n' :: rest) := by
  cases hv with
  | string cs =>
    obtain rfl : (Style.best cs).encode cs = text := Option.some.inj ht
    have hscan : scanString ((Style.best cs).encode cs ++ '\n' :: rest) = some (cs, '\n' :: rest) :=
      scanString_encode_best cs (by simp)
    have hhead := head?_encode_best cs
    unfold scanScalar
    split
    · rw [hscan]; rfl
    · rw [hscan]; rfl
    · next h1 h2 =>
      cases htext : (Style.best cs).encode cs with
      | nil => simp [htext] at hhead
      | cons c r =>
        rw [htext] at hhead h1 h2
        rcases hhead with h | h
        · obtain rfl : c = '"' := Option.some.inj h
          exact absurd rfl (h1 _)
        · obtain rfl : c = '\'' := Option.some.inj h
          exact absurd rfl (h2 _)
  | natural n =>
    obtain ⟨rfl, hn⟩ := text?_natural ht
    obtain ⟨c, r, hcons⟩ := List.exists_cons_of_ne_nil (Nat.toDigits_ne_nil (b := 10) (n := n))
    have hdigits := (Json.whole_toDigits n).1.2
    exact scanScalar_token hcons (fun c hc => isTokenChar_of_isDigit (hdigits c hc))
      (ofToken?_toDigits hn)
  | boolean b =>
    obtain rfl : (toString b).toList = text := Option.some.inj ht
    cases b
    · exact scanScalar_token rfl (List.all_eq_true.1 rfl) rfl
    · exact scanScalar_token rfl (List.all_eq_true.1 rfl) rfl

/-- The text of a value begins with a quote, a digit or a letter. -/
theorem exists_cons_text {v : Scalar} (hv : Flat v) {text : List Char} (ht : v.text? = some text) :
    ∃ c r, text = c :: r ∧ c ≠ '[' ∧ c ≠ '\x7b' ∧ isBlank c = false := by
  cases hv with
  | string cs =>
    obtain rfl : (Style.best cs).encode cs = text := Option.some.inj ht
    have hhead := head?_encode_best cs
    cases htext : (Style.best cs).encode cs with
    | nil => simp [htext] at hhead
    | cons c r =>
      rw [htext] at hhead
      refine ⟨c, r, rfl, ?_⟩
      rcases hhead with h | h
      · obtain rfl : c = '"' := Option.some.inj h
        decide
      · obtain rfl : c = '\'' := Option.some.inj h
        decide
  | natural n =>
    obtain ⟨rfl, -⟩ := text?_natural ht
    obtain ⟨c, r, hcons⟩ := List.exists_cons_of_ne_nil (Nat.toDigits_ne_nil (b := 10) (n := n))
    have hbare : isBareChar c = true :=
      isBareChar_of_isDigit ((Json.whole_toDigits n).1.2 c (by simp [hcons]))
    refine ⟨c, r, hcons, ?_, ?_, isBlank_of_isBareChar hbare⟩
    all_goals
      rintro rfl
      cases hbare
  | boolean b =>
    obtain rfl : (toString b).toList = text := Option.some.inj ht
    cases b
    · exact ⟨'f', ['a', 'l', 's', 'e'], rfl, by decide⟩
    · exact ⟨'t', ['r', 'u', 'e'], rfl, by decide⟩

/-- No control character stands in the text of a value, except in strings that have lines. -/
theorem isPlain_text {v : Scalar} (hv : Flat v) {text : List Char} (ht : v.text? = some text)
    {a : Char} (ha : a ∈ text) : isPlain a = true ∨ a = '\n' := by
  cases hv with
  | string cs =>
    obtain rfl : (Style.best cs).encode cs = text := Option.some.inj ht
    exact isPlain_encode_best ha
  | natural n =>
    obtain ⟨rfl, -⟩ := text?_natural ht
    exact .inl (isPlain_of_isBareChar (isBareChar_of_isDigit ((Json.whole_toDigits n).1.2 a ha)))
  | boolean b =>
    obtain rfl : (toString b).toList = text := Option.some.inj ht
    have key : ∀ b : Bool, (toString b).toList.all isPlain = true := by decide
    exact .inl (List.all_eq_true.1 (key b) a ha)

/-! ### Lines -/

/-- A key that needs no quotes. -/
def Bare (k : Key) : Prop := k ≠ [] ∧ ∀ c ∈ k, isBareChar c = true

instance (k : Key) : Decidable (Bare k) :=
  decidable_of_iff (k ≠ [] ∧ k.all isBareChar = true) (by simp [Bare])

/-- The text with one assignment on each line. -/
inductive Lines : List (Key × Scalar) → List Char → Prop
  | nil : Lines [] []
  | cons {k : Key} {v : Scalar} {es : List (Key × Scalar)} {text rest : List Char} (hk : Bare k)
      (hv : Flat v) (ht : v.text? = some text) (h : Lines es rest) :
      Lines ((k, v) :: es) (k ++ ' ' :: '=' :: ' ' :: (text ++ '\n' :: rest))

theorem Bare.exists_cons {k : Key} (hk : Bare k) :
    ∃ c r, k = c :: r ∧ isBareChar c = true := by
  obtain ⟨c, r, rfl⟩ := List.exists_cons_of_ne_nil hk.1
  exact ⟨c, r, rfl, hk.2 c (by simp)⟩

theorem skipBlanks_of_head {c : Char} {r : List Char} (h : isBlank c = false) :
    skipBlanks (c :: r) = c :: r := by
  simp [skipBlanks, h]

theorem scanKeySign_line {k : Key} (hk : Bare k) {c : Char} (hc : isBlank c = false)
    (r : List Char) :
    scanKeySign (k ++ ' ' :: '=' :: ' ' :: c :: r) = some (⟨[], k⟩, c :: r) := by
  obtain ⟨a, k', rfl, ha⟩ := hk.exists_cons
  have hspan : (a :: k' ++ ' ' :: '=' :: ' ' :: c :: r).span isBareChar =
      (a :: k', ' ' :: '=' :: ' ' :: c :: r) := Json.span_append hk.2 (by simp; rfl)
  have hpart : scanKeyPart (a :: k' ++ ' ' :: '=' :: ' ' :: c :: r) =
      some (a :: k', ' ' :: '=' :: ' ' :: c :: r) := by
    unfold scanKeyPart
    rw [hspan]
  have hskip : skipBlanks (a :: k' ++ ' ' :: '=' :: ' ' :: c :: r) =
      a :: k' ++ ' ' :: '=' :: ' ' :: c :: r := skipBlanks_of_head (isBlank_of_isBareChar ha)
  have hsign : skipBlanks (' ' :: '=' :: ' ' :: c :: r) = '=' :: ' ' :: c :: r := rfl
  have hkey : scanKey maxDepth (a :: k' ++ ' ' :: '=' :: ' ' :: c :: r) =
      some (⟨[], a :: k'⟩, '=' :: ' ' :: c :: r) := by
    unfold maxDepth scanKey
    rw [hskip, hpart]
    rfl
  unfold scanKeySign
  rw [hkey]
  show some (_, skipBlanks (' ' :: c :: r)) = _
  have hvalue : skipBlanks (' ' :: c :: r) = skipBlanks (c :: r) := rfl
  rw [hvalue, skipBlanks_of_head hc]

theorem scanValue_text {v : Scalar} (hv : Flat v) {text : List Char} (ht : v.text? = some text)
    (fuel room : ℕ) (rest : List Char) :
    scanValue (fuel + 1) room (text ++ '\n' :: rest) = some (.scalar v, '\n' :: rest) := by
  obtain ⟨c, r, rfl, hbracket, hbrace, -⟩ := exists_cons_text hv ht
  have hscan := scanScalar_text hv ht rest
  unfold scanValue
  split
  · next h => exact absurd (List.cons.inj h).1 hbracket
  · next h => exact absurd (List.cons.inj h).1 hbracket
  · next h => exact absurd (List.cons.inj h).1 hbrace
  · next h => exact absurd (List.cons.inj h).1 hbrace
  · rw [hscan]
    rfl

theorem scanStatement_line {k : Key} (hk : Bare k) {v : Scalar} (hv : Flat v) {text : List Char}
    (ht : v.text? = some text) (fuel : ℕ) (rest : List Char) :
    scanStatement (fuel + 1) (k ++ ' ' :: '=' :: ' ' :: (text ++ '\n' :: rest)) =
      some (.assign ⟨[], k⟩ (.scalar v), '\n' :: rest) := by
  have hvalue := scanValue_text hv ht fuel maxDepth rest
  obtain ⟨c, r, htext, -, -, hblank⟩ := exists_cons_text hv ht
  have hsign : scanKeySign (k ++ ' ' :: '=' :: ' ' :: (text ++ '\n' :: rest)) =
      some (⟨[], k⟩, text ++ '\n' :: rest) := by
    rw [htext]
    exact scanKeySign_line hk hblank (r ++ '\n' :: rest)
  obtain ⟨a, k', rfl, ha⟩ := hk.exists_cons
  have hbracket : a ≠ '[' := by
    rintro rfl
    cases ha
  unfold scanStatement
  split
  · next h => exact absurd (List.cons.inj h).1 hbracket
  · next h => exact absurd (List.cons.inj h).1 hbracket
  · rw [hsign]
    show (scanValue (fuel + 1) maxDepth (text ++ '\n' :: rest)).bind _ = _
    rw [hvalue]
    rfl

/-! ### Documents -/

/-- A table with more entries. -/
def Entries.added (t : Entries) (es : List (Key × Scalar)) : Entries :=
  es.foldl (fun t e => t.set e.1 (.scalar e.2)) t

theorem Entries.get?_added_of_notMem (t : Entries) {es : List (Key × Scalar)} {k : Key}
    (hk : k ∉ es.map Prod.fst) : (t.added es).get? k = t.get? k := by
  induction es generalizing t with
  | nil => rfl
  | cons e es ih =>
    obtain ⟨hne, hk⟩ : k ≠ e.1 ∧ k ∉ es.map Prod.fst := by simpa using hk
    show (Entries.added (t.set e.1 (.scalar e.2)) es).get? k = _
    rw [ih _ hk, Table.get?_set_ne _ hne.symm]

/-- Keys that differ keep their values. -/
theorem Entries.get?_added_of_mem (t : Entries) {es : List (Key × Scalar)}
    (hn : (es.map Prod.fst).Nodup) {k : Key} {v : Scalar} (h : (k, v) ∈ es) :
    (t.added es).get? k = some (.scalar v) := by
  induction es generalizing t with
  | nil => cases h
  | cons e es ih =>
    obtain ⟨hnew, hn⟩ := List.nodup_cons.1 hn
    rcases List.mem_cons.1 h with rfl | h
    · exact (get?_added_of_notMem _ hnew).trans (Table.get?_set_self _ _ _)
    · exact ih _ hn h

theorem skipLines_of_bare {c : Char} (h : isBareChar c = true) (r : List Char) :
    skipLines false (c :: r) = c :: r := by
  have hne : c ≠ '\n' ∧ c ≠ '#' := by
    constructor
    all_goals
      rintro rfl
      cases h
  simp [skipLines, hne, isBlank_of_isBareChar h]

/-- The lines of a document are added one by one. -/
theorem addLines_lines {es : List (Key × Scalar)} {text : List Char} (h : Lines es text)
    (hn : (es.map Prod.fst).Nodup) (t : Entries) (ht : ∀ e ∈ es, t.get? e.1 = none) {fuel : ℕ}
    (hfuel : text.length < fuel) : addLines fuel ⟨t, []⟩ text = some ⟨t.added es, []⟩ := by
  induction h generalizing t fuel with
  | nil =>
    obtain ⟨fuel, rfl⟩ := Nat.exists_eq_succ_of_ne_zero (by omega : fuel ≠ 0)
    rfl
  | @cons k v es text rest hk hv hscalar _ ih =>
    obtain ⟨fuel, rfl⟩ := Nat.exists_eq_succ_of_ne_zero (by omega : fuel ≠ 0)
    obtain ⟨hnew, hn⟩ := List.nodup_cons.1 hn
    have hline := scanStatement_line hk hv hscalar
      (k ++ ' ' :: '=' :: ' ' :: (text ++ '\n' :: rest)).length rest
    have hassign : Document.add? ⟨t, []⟩ (.assign ⟨[], k⟩ (.scalar v)) =
        some ⟨t.set k (.scalar v), []⟩ := by
      have hfree : t.has k = false := by simp [Table.has, ht (k, v) (by simp)]
      simp [Document.add?, Entries.below, Entries.assign, Entries.assignKey, hfree]
    have hskip : skipLines false (k ++ ' ' :: '=' :: ' ' :: (text ++ '\n' :: rest)) =
        k ++ ' ' :: '=' :: ' ' :: (text ++ '\n' :: rest) := by
      obtain ⟨c, k', rfl, hc⟩ := hk.exists_cons
      exact skipLines_of_bare hc _
    have hrest : addLines fuel ⟨t.set k (.scalar v), []⟩ rest =
        some ⟨Entries.added (t.set k (.scalar v)) es, []⟩ := by
      refine ih hn _ (fun e he => ?_) ?_
      · have hne : k ≠ e.1 := by
          rintro rfl
          exact hnew (List.mem_map.2 ⟨e, he, rfl⟩)
        rw [Table.get?_set_ne _ hne]
        exact ht e (by simp [he])
      · simp only [List.length_append, List.length_cons] at hfuel
        omega
    unfold addLines
    rw [hskip]
    split
    · next hnil => simp at hnil
    · rw [hline]
      show (Document.add? ⟨t, []⟩ (.assign ⟨[], k⟩ (.scalar v))).bind _ = _
      rw [hassign]
      exact hrest

theorem joinLineEnds_eq_self {s : List Char} (h : '\r' ∉ s) : joinLineEnds s = s := by
  induction s with
  | nil => rfl
  | cons c r ih =>
    obtain ⟨hc, hr⟩ : '\r' ≠ c ∧ '\r' ∉ r := by simpa using h
    unfold joinLineEnds
    split
    · next heq => exact absurd (List.cons.inj heq).1.symm hc
    · next heq =>
      obtain ⟨rfl, rfl⟩ := List.cons.inj heq
      rw [ih hr]
    · next heq => cases heq

theorem Lines.isPlain {es : List (Key × Scalar)} {text : List Char} (h : Lines es text) {a : Char}
    (ha : a ∈ text) : isPlain a = true ∨ a = '\n' := by
  induction h with
  | nil => cases ha
  | @cons k v es text rest hk hv ht _ ih =>
    simp only [List.mem_append, List.mem_cons] at ha
    rcases ha with ha | rfl | rfl | rfl | ha | rfl | ha
    · exact .inl (isPlain_of_isBareChar (hk.2 a ha))
    · exact .inl rfl
    · exact .inl rfl
    · exact .inl rfl
    · exact isPlain_text hv ht ha
    · exact .inr rfl
    · exact ih ha

/-- A document of lines holds just what they say. -/
theorem parse?_lines {es : List (Key × Scalar)} {text : List Char} (h : Lines es text)
    (hn : (es.map Prod.fst).Nodup) :
    ∃ t, parse? text = some t ∧ ∀ e ∈ es, t.get? e.1 = some (.scalar e.2) := by
  refine ⟨Entries.added ∅ es, ?_, fun e he => Entries.get?_added_of_mem ∅ hn he⟩
  have hreturn : '\r' ∉ text := by
    intro ha
    rcases h.isPlain ha with h | h <;> cases h
  have hmark : dropMark text = text := by
    cases h with
    | nil => rfl
    | cons hk =>
      obtain ⟨c, k', rfl, hc⟩ := hk.exists_cons
      unfold dropMark
      split
      · next heq =>
        obtain rfl := (List.cons.inj heq).1
        cases hc
      · rfl
  unfold parse?
  rw [hmark, joinLineEnds_eq_self hreturn]
  show (addLines (text.length + 1) ⟨∅, []⟩ text).map Document.root = _
  rw [addLines_lines h hn ∅ (fun _ _ => rfl) (Nat.lt_succ_self _)]
  rfl

end PullIngest.Toml
