import Mathlib.Data.List.TakeDrop
import PullIngest.Json.Parser
import PullIngest.Proofs.Json.Reading

/-!
# Documents are read back

The grammar of documents, and the parser on texts that follow it. A document keeps its literals,
string bodies and blanks, so what the parser finds is the document itself and not only its meaning.

* `Body`, `Number`, `Blank`, `Value.Proper`: the grammar;
* `scanString_body`, `scanNumber_number`, `scanBlanks_blank`: its parts are found;
* `scanValue_text`: a document is found, whatever comes behind it (`Ends`);
* `ofText?_text`: a text that holds nothing else;
* `proper_ofString`, `proper_ofNat`, `proper_ofInt`, `proper_ofMembers`: what is written follows
  the grammar.
-/

namespace PullIngest.Json

/-! ### The grammar -/

/-- What may stand between the quotes of a string. -/
inductive Body : List Char → Prop
  | nil : Body []
  | plain {c : Char} {cs : List Char} (hq : c ≠ '"') (hb : c ≠ '\\') (hc : 32 ≤ c.toNat)
      (h : Body cs) : Body (c :: cs)
  | letter {c : Char} {cs : List Char} (hc : c ∈ ['"', '\\', '/', 'b', 'f', 'n', 'r', 't'])
      (h : Body cs) : Body ('\\' :: c :: cs)
  | unicode {d₁ d₂ d₃ d₄ : Char} {cs : List Char}
      (hd : ∀ d ∈ [d₁, d₂, d₃, d₄], (Hex.value? d).isSome = true) (h : Body cs) :
      Body ('\\' :: 'u' :: d₁ :: d₂ :: d₃ :: d₄ :: cs)

/-- One or more digits. -/
def Digits (ds : List Char) : Prop := ds ≠ [] ∧ ∀ d ∈ ds, d.isDigit = true

/-- The digits before the point. -/
def Whole (ds : List Char) : Prop := Digits ds ∧ (ds.head? = some '0' → ds = ['0'])

/-- The point and the digits behind it. -/
inductive Fraction : List Char → Prop
  | none : Fraction []
  | some {ds : List Char} (h : Digits ds) : Fraction ('.' :: ds)

/-- The exponent with its sign. -/
inductive Exponent : List Char → Prop
  | none : Exponent []
  | some {e : Char} {sign ds : List Char} (he : e = 'e' ∨ e = 'E')
      (hs : sign ∈ [[], ['+'], ['-']]) (h : Digits ds) : Exponent (e :: (sign ++ ds))

/-- A number. -/
inductive Number : List Char → Prop
  | mk {sign whole fraction exponent : List Char} (hs : sign ∈ [[], ['-']]) (hw : Whole whole)
      (hf : Fraction fraction) (he : Exponent exponent) :
      Number (sign ++ (whole ++ (fraction ++ exponent)))

/-- What may stand between the parts of a document. -/
def Blank (gap : List Char) : Prop := ∀ c ∈ gap, isBlank c = true

mutual

/-- The document follows the grammar. -/
def Value.Proper : Value → Prop
  | .null => True
  | .bool _ => True
  | .number literal => Number literal
  | .string body => Body body
  | .emptyArray gap => Blank gap
  | .array ⟨b, v, a⟩ rest => Blank b ∧ v.Proper ∧ Blank a ∧ ProperItems rest
  | .emptyObject gap => Blank gap
  | .object ⟨b, k, ak, bv, v, a⟩ rest =>
    (Blank b ∧ Body k ∧ Blank ak ∧ Blank bv) ∧ v.Proper ∧ Blank a ∧ ProperMembers rest

/-- Further elements follow the grammar. -/
def ProperItems : List (Item Value) → Prop
  | [] => True
  | ⟨b, v, a⟩ :: rest => Blank b ∧ v.Proper ∧ Blank a ∧ ProperItems rest

/-- Further members follow the grammar. -/
def ProperMembers : List (Member Value) → Prop
  | [] => True
  | ⟨b, k, ak, bv, v, a⟩ :: rest =>
    (Blank b ∧ Body k ∧ Blank ak ∧ Blank bv) ∧ v.Proper ∧ Blank a ∧ ProperMembers rest

end

/-! ### Strings -/

theorem isSome_escapeLetter? {c : Char} (hc : c ∈ ['"', '\\', '/', 'b', 'f', 'n', 'r', 't']) :
    (escapeLetter? c).isSome = true ∧ c ≠ 'u' := by
  simp only [List.mem_cons, List.not_mem_nil, or_false] at hc
  rcases hc with rfl | rfl | rfl | rfl | rfl | rfl | rfl | rfl <;> decide

/-- A string ends at the first quote that is not escaped. -/
theorem scanString_body {body : List Char} (h : Body body) (done rest : List Char) :
    scanString .plain done (body ++ '"' :: rest) = some (done.reverse ++ body, rest) := by
  induction h generalizing done with
  | nil => simp [scanString]
  | @plain c cs hq hb hc h ih =>
    rw [List.cons_append, scanString, if_neg hq, if_neg hb, if_neg (by omega), ih]
    simp
  | @letter c cs hc h ih =>
    obtain ⟨hletter, hu⟩ := isSome_escapeLetter? hc
    simp [scanString, hletter, hu, ih]
  | unicode hd h ih =>
    simp only [List.mem_cons, List.not_mem_nil, or_false, forall_eq_or_imp, forall_eq] at hd
    obtain ⟨h1, h2, h3, h4⟩ := hd
    simp [scanString, h1, h2, h3, h4, ih]

/-! ### Numbers -/

/-- What comes behind a document does not go on with a number. -/
def Ends (rest : List Char) : Prop :=
  ∀ c ∈ rest.head?, c.isDigit = false ∧ c ≠ '.' ∧ c ≠ 'e' ∧ c ≠ 'E'

theorem span_append {p : Char → Bool} {ds rest : List Char} (hds : ∀ d ∈ ds, p d = true)
    (hrest : ∀ c ∈ rest.head?, p c = false) : (ds ++ rest).span p = (ds, rest) := by
  rw [List.span_eq_takeWhile_dropWhile, List.takeWhile_append_of_pos hds,
    List.dropWhile_append_of_pos hds]
  cases rest with
  | nil => simp
  | cons c rest =>
    have hc : p c = false := hrest c rfl
    simp [hc]

theorem Digits.cons {ds : List Char} (h : Digits ds) : ∃ d r, ds = d :: r ∧ d.isDigit = true := by
  obtain ⟨hne, hall⟩ := h
  cases ds with
  | nil => exact absurd rfl hne
  | cons d r => exact ⟨d, r, rfl, hall d (by simp)⟩

/-- A digit is no letter and no sign. -/
theorem ne_of_isDigit {d c : Char} (hd : d.isDigit = true) (hc : c.isDigit = false) : d ≠ c := by
  rintro rfl
  rw [hd] at hc
  cases hc

theorem scanWhole_whole {ds rest : List Char} (h : Whole ds)
    (hrest : ∀ c ∈ rest.head?, c.isDigit = false) : scanWhole (ds ++ rest) = some (ds, rest) := by
  obtain ⟨⟨hne, hall⟩, hzero⟩ := h
  unfold scanWhole
  rw [span_append hall hrest]
  split
  · next heq => exact absurd (Prod.mk.inj heq).1 hne
  · next heq =>
    obtain ⟨rfl, -⟩ := Prod.mk.inj heq
    have h := hzero rfl
    simp at h
  · next heq =>
    obtain ⟨rfl, rfl⟩ := Prod.mk.inj heq
    rfl

theorem scanFraction_fraction {f rest : List Char} (h : Fraction f)
    (hrest : ∀ c ∈ rest.head?, c.isDigit = false ∧ c ≠ '.') :
    scanFraction (f ++ rest) = some (f, rest) := by
  cases h with
  | none =>
    rw [List.nil_append]
    unfold scanFraction
    split
    · exact absurd rfl (hrest '.' rfl).2
    · rfl
  | @some ds hds =>
    rw [List.cons_append, scanFraction, span_append hds.2 fun c hc => (hrest c hc).1]
    split
    · next heq => exact absurd (Prod.mk.inj heq).1 hds.1
    · next heq =>
      obtain ⟨rfl, rfl⟩ := Prod.mk.inj heq
      rfl

theorem scanExponentSign_sign {sign ds : List Char} (hs : sign ∈ [[], ['+'], ['-']])
    (h : Digits ds) (rest : List Char) :
    scanExponentSign (sign ++ (ds ++ rest)) = (sign, ds ++ rest) := by
  obtain ⟨d, r, rfl, hd⟩ := h.cons
  have hplus : d ≠ '+' := ne_of_isDigit hd (by decide)
  have hminus : d ≠ '-' := ne_of_isDigit hd (by decide)
  simp only [List.mem_cons, List.not_mem_nil, or_false] at hs
  rcases hs with rfl | rfl | rfl
  · simp only [List.nil_append, List.cons_append]
    unfold scanExponentSign
    split
    · next heq => exact absurd (List.cons.inj heq).1 hplus
    · unfold scanSign
      split
      · next heq => exact absurd (List.cons.inj heq).1 hminus
      · rfl
  · rfl
  · rfl

theorem scanExponent_exponent {e rest : List Char} (h : Exponent e) (hrest : Ends rest) :
    scanExponent (e ++ rest) = some (e, rest) := by
  cases h with
  | none =>
    cases rest with
    | nil => rfl
    | cons c rest =>
      obtain ⟨-, -, he, hE⟩ := hrest c rfl
      rw [List.nil_append]
      unfold scanExponent
      dsimp only
      rw [if_neg (by simp [he, hE])]
  | @some e sign ds he hs hds =>
    rw [List.cons_append, List.append_assoc]
    unfold scanExponent
    dsimp only
    rw [if_pos he, scanExponentSign_sign hs hds]
    dsimp only
    rw [span_append hds.2 fun c hc => (hrest c hc).1]
    split
    · next heq => exact absurd (Prod.mk.inj heq).1 hds.1
    · next heq =>
      obtain ⟨rfl, rfl⟩ := Prod.mk.inj heq
      rfl

theorem Exponent.head {e rest : List Char} (h : Exponent e) (hrest : Ends rest) :
    ∀ c ∈ (e ++ rest).head?, c.isDigit = false ∧ c ≠ '.' := by
  cases h with
  | none => exact fun c hc => ⟨(hrest c hc).1, (hrest c hc).2.1⟩
  | some he hs hds =>
    intro c hc
    obtain rfl : _ = c := Option.some.inj hc
    rcases he with rfl | rfl <;> decide

theorem Fraction.head {f rest : List Char} (h : Fraction f)
    (hrest : ∀ c ∈ rest.head?, c.isDigit = false ∧ c ≠ '.') :
    ∀ c ∈ (f ++ rest).head?, c.isDigit = false := by
  cases h with
  | none => exact fun c hc => (hrest c hc).1
  | some hds =>
    intro c hc
    obtain rfl : _ = c := Option.some.inj hc
    decide

theorem scanSign_sign {sign ds : List Char} (hs : sign ∈ [[], ['-']]) (h : Digits ds)
    (rest : List Char) : scanSign (sign ++ (ds ++ rest)) = (sign, ds ++ rest) := by
  obtain ⟨d, r, rfl, hd⟩ := h.cons
  have hminus : d ≠ '-' := ne_of_isDigit hd (by decide)
  simp only [List.mem_cons, List.not_mem_nil, or_false] at hs
  rcases hs with rfl | rfl
  · simp only [List.nil_append, List.cons_append]
    unfold scanSign
    split
    · next heq => exact absurd (List.cons.inj heq).1 hminus
    · rfl
  · rfl

/-- A number ends where nothing more can belong to it. -/
theorem scanNumber_number {literal rest : List Char} (h : Number literal) (hrest : Ends rest) :
    scanNumber (literal ++ rest) = some (literal, rest) := by
  cases h with
  | mk hs hw hf he =>
    have htail := he.head hrest
    unfold scanNumber
    simp only [List.append_assoc]
    rw [scanSign_sign hs hw.1]
    dsimp only
    rw [scanWhole_whole hw (hf.head htail)]
    dsimp only [Option.bind_eq_bind, Option.bind_some]
    rw [scanFraction_fraction hf htail]
    dsimp only [Option.bind_some]
    rw [scanExponent_exponent he hrest]
    rfl

theorem Number.head {literal : List Char} (h : Number literal) :
    ∃ c r, literal = c :: r ∧ (c = '-' ∨ c.isDigit = true) := by
  cases h with
  | mk hs hw hf he =>
    obtain ⟨d, r, rfl, hd⟩ := hw.1.cons
    simp only [List.mem_cons, List.not_mem_nil, or_false] at hs
    rcases hs with rfl | rfl
    · exact ⟨d, _, rfl, .inr hd⟩
    · exact ⟨'-', _, rfl, .inl rfl⟩

/-! ### Documents -/

theorem blank_nil : Blank [] := fun _ h => by cases h

theorem scanBlanks_blank {gap rest : List Char} (h : Blank gap)
    (hrest : ∀ c ∈ rest.head?, isBlank c = false) : scanBlanks (gap ++ rest) = (gap, rest) :=
  span_append h hrest

theorem forall_head_cons {c : Char} {r : List Char} {P : Char → Prop} (hc : P c) :
    ∀ d ∈ (c :: r).head?, P d := by
  intro d hd
  obtain rfl : c = d := Option.some.inj hd
  exact hc

/-- No document begins with a blank, or with what closes an array. -/
theorem Value.text_head {v : Value} (h : v.Proper) :
    ∃ c r, v.text = c :: r ∧ isBlank c = false ∧ c ≠ ']' := by
  cases v with
  | null => exact ⟨'n', _, rfl, by decide, by decide⟩
  | bool b => cases b
              · exact ⟨'f', _, rfl, by decide, by decide⟩
              · exact ⟨'t', _, rfl, by decide, by decide⟩
  | number literal =>
    obtain ⟨c, r, rfl, hc⟩ := Number.head h
    refine ⟨c, r, by rw [Value.text], ?_⟩
    rcases hc with rfl | hc
    · decide
    · refine ⟨?_, ne_of_isDigit hc (by decide)⟩
      have hspace : c ≠ ' ' := ne_of_isDigit hc (by decide)
      have htab : c ≠ '\t' := ne_of_isDigit hc (by decide)
      have hfeed : c ≠ '\n' := ne_of_isDigit hc (by decide)
      have hreturn : c ≠ '\r' := ne_of_isDigit hc (by decide)
      simp [isBlank, hspace, htab, hfeed, hreturn]
  | string body => exact ⟨'"', body ++ ['"'], by rw [Value.text]; rfl, by decide, by decide⟩
  | emptyArray gap => exact ⟨'[', _, by rw [Value.text], by decide, by decide⟩
  | array first rest =>
    obtain ⟨b, v, a⟩ := first
    exact ⟨'[', _, by rw [Value.text], by decide, by decide⟩
  | emptyObject gap => exact ⟨'\x7b', _, by rw [Value.text], by decide, by decide⟩
  | object first rest =>
    obtain ⟨b, k, ak, bv, v, a⟩ := first
    exact ⟨'\x7b', _, by rw [Value.text], by decide, by decide⟩

theorem ends_cons_of_isBlank {c : Char} (h : isBlank c = true) (r : List Char) : Ends (c :: r) := by
  refine forall_head_cons ?_
  simp only [isBlank, Bool.or_eq_true, decide_eq_true_eq] at h
  rcases h with ((rfl | rfl) | rfl) | rfl <;> decide

/-- Blanks and what parts or closes the elements of a document do not go on with a number. -/
theorem ends_blank {gap r : List Char} {c : Char} (h : Blank gap) (hc : c ∈ [',', ']', '\x7d']) :
    Ends (gap ++ c :: r) := by
  cases gap with
  | nil =>
    refine forall_head_cons ?_
    simp only [List.mem_cons, List.not_mem_nil, or_false] at hc
    rcases hc with rfl | rfl | rfl <;> decide
  | cons d gap => exact ends_cons_of_isBlank (h d (by simp)) _

theorem isBlank_eq_false {c : Char} (hc : c ∈ [',', ']', '\x7d']) : isBlank c = false := by
  simp only [List.mem_cons, List.not_mem_nil, or_false] at hc
  rcases hc with rfl | rfl | rfl <;> decide

theorem itemsText_head (is : List (Item Value)) (r : List Char) :
    ∃ c t, itemsText is ++ ']' :: r = c :: t ∧ c ∈ [',', ']', '\x7d'] := by
  cases is with
  | nil => exact ⟨']', r, by rw [itemsText]; rfl, by simp⟩
  | cons i is =>
    obtain ⟨b, v, a⟩ := i
    exact ⟨',', _, by rw [itemsText, List.cons_append], by simp⟩

theorem membersText_head (ms : List (Member Value)) (r : List Char) :
    ∃ c t, membersText ms ++ '\x7d' :: r = c :: t ∧ c ∈ [',', ']', '\x7d'] := by
  cases ms with
  | nil => exact ⟨'\x7d', r, by rw [membersText]; rfl, by simp⟩
  | cons m ms =>
    obtain ⟨b, k, ak, bv, v, a⟩ := m
    exact ⟨',', _, by rw [membersText, List.cons_append], by simp⟩

theorem quoted_head (k rest : List Char) :
    ∀ c ∈ (quoted k ++ rest).head?, isBlank c = false ∧ c ≠ '\x7d' := by
  unfold quoted
  rw [List.cons_append, List.cons_append]
  exact forall_head_cons (by decide)

theorem scanKey_key {k ak bv rest : List Char} (hk : Body k) (hak : Blank ak) (hbv : Blank bv)
    (hrest : ∀ c ∈ rest.head?, isBlank c = false) (before : List Char) :
    scanKey before (quoted k ++ (ak ++ ':' :: (bv ++ rest))) =
      some (fun v after => ⟨before, k, ak, bv, v, after⟩, rest) := by
  have hquoted : scanQuoted (quoted k ++ (ak ++ ':' :: (bv ++ rest))) =
      some (k, ak ++ ':' :: (bv ++ rest)) := by
    unfold quoted
    simp only [List.cons_append, List.append_assoc, List.nil_append]
    rw [scanQuoted, scanString_body hk]
    rfl
  unfold scanKey
  simp only [hquoted, Option.bind_eq_bind, Option.bind_some]
  rw [scanBlanks_blank hak (forall_head_cons (by decide))]
  simp only [scanBlanks_blank hbv hrest]

/-- With so much fuel the parser finds whatever is shorter. -/
structure Finds (fuel : ℕ) : Prop where
  value : ∀ (v : Value) (rest : List Char), v.Proper → Ends rest → v.text.length < fuel →
    scanValue fuel (v.text ++ rest) = some (v, rest)
  items : ∀ (is done : List (Item Value)) (rest : List Char), ProperItems is →
    (itemsText is).length < fuel →
    scanItems fuel done (itemsText is ++ ']' :: rest) = some (done.reverse ++ is, rest)
  members : ∀ (ms done : List (Member Value)) (rest : List Char), ProperMembers ms →
    (membersText ms).length < fuel →
    scanMembers fuel done (membersText ms ++ '\x7d' :: rest) = some (done.reverse ++ ms, rest)

/-- A value is found among what comes before and behind it. -/
theorem Finds.between {fuel : ℕ} (h : Finds fuel) {v : Value} (hv : v.Proper)
    (hlen : v.text.length < fuel) {a r tail : List Char} {c : Char} (ha : Blank a)
    (htail : tail = c :: r) (hc : c ∈ [',', ']', '\x7d']) :
    scanValue fuel (v.text ++ (a ++ tail)) = some (v, a ++ tail) ∧
      scanBlanks (a ++ tail) = (a, tail) := by
  subst htail
  exact ⟨h.value v _ hv (ends_blank ha hc) hlen,
    scanBlanks_blank ha (forall_head_cons (isBlank_eq_false hc))⟩

theorem Value.head_text_append {v : Value} (h : v.Proper) (rest : List Char) :
    ∀ c ∈ (v.text ++ rest).head?, isBlank c = false := by
  obtain ⟨c, r, htext, hc, -⟩ := Value.text_head h
  rw [htext]
  exact forall_head_cons hc

theorem Finds.scanValue {fuel : ℕ} (h : Finds fuel) (v : Value) (rest : List Char)
    (hv : v.Proper) (hrest : Ends rest) (hlen : v.text.length < fuel + 1) :
    scanValue (fuel + 1) (v.text ++ rest) = some (v, rest) := by
  cases v with
  | null => rw [Value.text]; rfl
  | bool b => cases b <;> rw [Value.text] <;> rfl
  | number literal =>
    rw [Value.text]
    have hnumber : Number literal := hv
    have hscan := scanNumber_number hnumber hrest
    obtain ⟨c, r, hliteral, hc⟩ := hnumber.head
    have hne : ∀ d, d ≠ '-' → d.isDigit = false → c ≠ d := by
      rintro d hd hdigit rfl
      rcases hc with rfl | hc
      · exact hd rfl
      · rw [hdigit] at hc
        cases hc
    rw [hliteral, List.cons_append] at hscan ⊢
    unfold Json.scanValue
    split
    · next heq => exact absurd (List.cons.inj heq).1 (hne 'n' (by decide) (by decide))
    · next heq => exact absurd (List.cons.inj heq).1 (hne 't' (by decide) (by decide))
    · next heq => exact absurd (List.cons.inj heq).1 (hne 'f' (by decide) (by decide))
    · next heq => exact absurd (List.cons.inj heq).1 (hne '"' (by decide) (by decide))
    · next heq => exact absurd (List.cons.inj heq).1 (hne '[' (by decide) (by decide))
    · next heq => exact absurd (List.cons.inj heq).1 (hne '\x7b' (by decide) (by decide))
    · rw [hscan]
      rfl
  | string body =>
    have hbody : Body body := hv
    rw [Value.text, quoted]
    simp only [List.cons_append, List.append_assoc, List.nil_append]
    rw [Json.scanValue, scanString_body hbody]
    rfl
  | emptyArray gap =>
    have hgap : Blank gap := hv
    rw [Value.text]
    simp only [List.cons_append, List.append_assoc, List.nil_append]
    rw [Json.scanValue, scanBlanks_blank hgap (forall_head_cons (by decide))]
    rfl
  | array first is =>
    obtain ⟨b, v, a⟩ := first
    obtain ⟨hb, hv, ha, his⟩ := hv
    rw [Value.text] at hlen ⊢
    simp only [List.cons_append, List.append_assoc, List.nil_append, List.length_cons,
      List.length_append] at hlen ⊢
    obtain ⟨c, r, htail, hc⟩ := itemsText_head is rest
    obtain ⟨hvalue, hblanks⟩ := h.between hv (by omega) ha htail hc
    have hitems := h.items is [] rest his (by omega)
    rw [Json.scanValue, scanBlanks_blank hb (v.head_text_append hv _)]
    dsimp only
    split
    · next r' heq =>
      -- The first element does not begin with what closes the array.
      obtain ⟨d, t, htext, -, hd⟩ := Value.text_head hv
      rw [htext] at heq
      exact absurd (List.cons.inj heq).1 hd
    · simp only [hvalue, hblanks, hitems, Option.bind_eq_bind, Option.bind_some]
      rfl
  | emptyObject gap =>
    have hgap : Blank gap := hv
    rw [Value.text]
    simp only [List.cons_append, List.append_assoc, List.nil_append]
    rw [Json.scanValue, scanBlanks_blank hgap (forall_head_cons (by decide))]
    rfl
  | object first ms =>
    obtain ⟨b, k, ak, bv, v, a⟩ := first
    obtain ⟨⟨hb, hk, hak, hbv⟩, hv, ha, hms⟩ := hv
    rw [Value.text] at hlen ⊢
    simp only [List.cons_append, List.append_assoc, List.nil_append, List.length_cons,
      List.length_append] at hlen ⊢
    obtain ⟨c, r, htail, hc⟩ := membersText_head ms rest
    obtain ⟨hvalue, hblanks⟩ := h.between hv (by omega) ha htail hc
    have hmembers := h.members ms [] rest hms (by omega)
    have hkey := scanKey_key hk hak hbv (v.head_text_append hv (a ++ (membersText ms ++ '\x7d' :: rest))) b
    rw [Json.scanValue, scanBlanks_blank hb fun c hc => (quoted_head k _ c hc).1]
    dsimp only
    split
    · next heq => exact absurd rfl (quoted_head k _ '\x7d' (by rw [heq]; rfl)).2
    · simp only [hkey, hvalue, hblanks, hmembers, Option.bind_eq_bind, Option.bind_some]
      rfl

theorem Finds.scanItems {fuel : ℕ} (h : Finds fuel) (is done : List (Item Value))
    (rest : List Char) (his : ProperItems is) (hlen : (itemsText is).length < fuel + 1) :
    scanItems (fuel + 1) done (itemsText is ++ ']' :: rest) = some (done.reverse ++ is, rest) := by
  cases is with
  | nil =>
    rw [itemsText, List.append_nil]
    rfl
  | cons i is =>
    obtain ⟨b, v, a⟩ := i
    obtain ⟨hb, hv, ha, his⟩ := his
    rw [itemsText] at hlen ⊢
    simp only [List.cons_append, List.append_assoc, List.length_cons, List.length_append] at hlen ⊢
    obtain ⟨c, r, htail, hc⟩ := itemsText_head is rest
    obtain ⟨hvalue, hblanks⟩ := h.between hv (by omega) ha htail hc
    rw [Json.scanItems, scanBlanks_blank hb (v.head_text_append hv _)]
    simp only [hvalue, hblanks, Option.bind_eq_bind, Option.bind_some]
    rw [h.items is _ rest his (by omega)]
    simp

theorem Finds.scanMembers {fuel : ℕ} (h : Finds fuel) (ms done : List (Member Value))
    (rest : List Char) (hms : ProperMembers ms) (hlen : (membersText ms).length < fuel + 1) :
    scanMembers (fuel + 1) done (membersText ms ++ '\x7d' :: rest) =
      some (done.reverse ++ ms, rest) := by
  cases ms with
  | nil =>
    rw [membersText, List.append_nil]
    rfl
  | cons m ms =>
    obtain ⟨b, k, ak, bv, v, a⟩ := m
    obtain ⟨⟨hb, hk, hak, hbv⟩, hv, ha, hms⟩ := hms
    rw [membersText] at hlen ⊢
    simp only [List.cons_append, List.append_assoc, List.length_cons, List.length_append] at hlen ⊢
    obtain ⟨c, r, htail, hc⟩ := membersText_head ms rest
    obtain ⟨hvalue, hblanks⟩ := h.between hv (by omega) ha htail hc
    have hkey := scanKey_key hk hak hbv (v.head_text_append hv (a ++ (membersText ms ++ '\x7d' :: rest))) b
    rw [Json.scanMembers, scanBlanks_blank hb fun c hc => (quoted_head k _ c hc).1]
    simp only [hkey, hvalue, hblanks, Option.bind_eq_bind, Option.bind_some]
    rw [h.members ms _ rest hms (by omega)]
    simp

theorem finds (fuel : ℕ) : Finds fuel := by
  induction fuel with
  | zero => exact ⟨fun _ _ _ _ h => absurd h (Nat.not_lt_zero _),
      fun _ _ _ _ h => absurd h (Nat.not_lt_zero _), fun _ _ _ _ h => absurd h (Nat.not_lt_zero _)⟩
  | succ fuel ih => exact ⟨ih.scanValue, ih.scanItems, ih.scanMembers⟩

/-- A text that follows the grammar is read as the document that it is the text of. -/
theorem ofText?_text {v : Value} (h : v.Proper) : Value.ofText? v.text = some v := by
  have hblanks : scanBlanks v.text = ([], v.text) := by
    obtain ⟨c, r, htext, hc, -⟩ := Value.text_head h
    rw [htext]
    exact scanBlanks_blank blank_nil (forall_head_cons hc)
  have hfound : scanValue (v.text.length + 1) v.text = some (v, []) := by
    have hvalue := (finds (v.text.length + 1)).value v [] h (fun _ h => by cases h)
      (Nat.lt_succ_self _)
    rwa [List.append_nil] at hvalue
  unfold Value.ofText?
  rw [hblanks]
  dsimp only
  rw [hfound]
  rfl

/-! ### What is written -/

theorem body_escapeChar (c : Char) {cs : List Char} (h : Body cs) : Body (escapeChar c ++ cs) := by
  unfold escapeChar
  split_ifs with h1 h2 h3 h4 h5 h6 h7 h8
  · exact .letter (by decide) h
  · exact .letter (by decide) h
  · exact .letter (by decide) h
  · exact .letter (by decide) h
  · exact .letter (by decide) h
  · exact .letter (by decide) h
  · exact .letter (by decide) h
  · have hbyte : (UInt8.ofNat c.toNat).toNat = c.toNat := by
      rw [UInt8.toNat_ofNat']
      omega
    have hhigh := Hex.value?_digitChar (d := c.toNat / 16) (by omega)
    have hlow := Hex.value?_digitChar (d := c.toNat % 16) (by omega)
    have hzero : Hex.value? '0' = some 0 := by decide
    simp only [Hex.ofByte, hbyte, List.cons_append, List.nil_append]
    refine .unicode ?_ h
    intro d hd
    simp only [List.mem_cons, List.not_mem_nil, or_false] at hd
    rcases hd with rfl | rfl | rfl | rfl <;> simp [hzero, hhigh, hlow]
  · exact .plain h1 h2 (Nat.le_of_not_lt h8) h

theorem body_escape (cs : List Char) : Body (escape cs) := by
  induction cs with
  | nil => exact .nil
  | cons c cs ih => exact body_escapeChar c ih

/-- The digits of a positive number do not begin with a zero. -/
theorem head?_toDigits_ne {n : ℕ} (hn : 0 < n) : (Nat.toDigits 10 n).head? ≠ some '0' := by
  induction n using Nat.base_induction 10 (by decide) with
  | single m hm =>
    have key : ∀ m : Fin 10, 0 < m.val → Nat.digitChar m.val ≠ '0' := by decide
    rw [Nat.toDigits_of_lt_base hm, List.head?_cons]
    exact fun h => key ⟨m, hm⟩ hn (Option.some.inj h)
  | digit m k hk hm ih =>
    obtain ⟨d, ds, hds⟩ := List.exists_cons_of_ne_nil (Nat.toDigits_ne_nil (n := m) (b := 10))
    have hhead := ih hm
    rw [← Nat.toDigits_append_toDigits (by decide) hm hk, hds, List.cons_append, List.head?_cons]
    rwa [hds, List.head?_cons] at hhead

theorem whole_toDigits (n : ℕ) : Whole (Nat.toDigits 10 n) := by
  refine ⟨⟨Nat.toDigits_ne_nil, fun d hd => ?_⟩, fun h => ?_⟩
  · exact Nat.isDigit_of_mem_toDigits (by decide) (by decide) hd
  · by_cases hn : 0 < n
    · exact absurd h (head?_toDigits_ne hn)
    · obtain rfl : n = 0 := by omega
      rfl

/-- An integer needs no point and no exponent. -/
theorem number_of_whole {ds : List Char} (sign : List Char) (hs : sign ∈ [[], ['-']])
    (h : Whole ds) : Number (sign ++ ds) := by
  have hnumber := Number.mk hs h .none .none
  rwa [List.append_nil, List.append_nil] at hnumber

theorem proper_ofString (s : String) : (Value.ofString s).Proper := body_escape s.toList

theorem proper_ofNat (n : ℕ) : (Value.ofNat n).Proper :=
  number_of_whole [] (by decide) (whole_toDigits n)

theorem proper_ofInt (i : Int) : (Value.ofInt i).Proper := by
  unfold Value.ofInt
  split_ifs
  · exact number_of_whole ['-'] (by decide) (whole_toDigits i.natAbs)
  · exact proper_ofNat i.toNat

/-- A written record follows the grammar if what is in it does. -/
theorem proper_ofMembers {ms : List (String × Value)} (h : ∀ m ∈ ms, m.2.Proper) :
    (Value.ofMembers ms).Proper := by
  have hcompact : ∀ m : String × Value, Blank [] ∧ Body (escape m.1.toList) ∧ Blank [] ∧ Blank [] :=
    fun m => ⟨blank_nil, body_escape _, blank_nil, blank_nil⟩
  have hrest : ∀ ms : List (String × Value), (∀ m ∈ ms, m.2.Proper) →
      ProperMembers (ms.map Member.compact) := by
    intro ms h
    induction ms with
    | nil => trivial
    | cons m ms ih =>
      exact ⟨hcompact m, h m (by simp), blank_nil, ih fun m' hm' => h m' (by simp [hm'])⟩
  cases ms with
  | nil => exact blank_nil
  | cons m ms =>
    exact ⟨hcompact m, h m (by simp), blank_nil, hrest ms fun m' hm' => h m' (by simp [hm'])⟩

end PullIngest.Json
