import Mathlib.Data.Nat.Digits.Lemmas
import PullIngest.Proofs.Wire.Objects

/-!
# How offsets are read and written

An offset is an integer, or the hexadecimal digits of one behind an optional mark and an optional
plus sign. Digits are read in either case and with any number of zeros in front; the shortest
lowercase ones are written.

* `Hex.Digit`, `Hex.Numeral`: digits and what they denote; `Hex.toNat?_eq_some_iff`;
* `Offset.Denotes`: the values that stand for a number; `Offset.decode?_eq_some_iff`;
* `Hex.Shortest`: the digits that are written; `Hex.shortest_ofNat`;
* `offsets_read_exactly`: the offsets of requests and responses.
-/

namespace PullIngest

open Json

/-! ### Hexadecimal numerals -/

/-- The character is a digit, of either case. -/
def Hex.Digit (c : Char) (d : ℕ) : Prop :=
  d < 16 ∧ (c = Nat.digitChar d ∨ c = (Nat.digitChar d).toUpper)

/-- One or more digits, which denote a number with the base sixteen. -/
def Hex.Numeral (cs : List Char) (n : ℕ) : Prop :=
  cs ≠ [] ∧ ∃ ds, List.Forall₂ Digit cs ds ∧ n = Nat.ofDigits 16 ds.reverse

theorem Hex.value?_eq_some_iff {c : Char} {d : ℕ} : value? c = some d ↔ Digit c d := by
  constructor
  · intro h
    have hc : c.toNat < 128 := by
      unfold value? at h
      split_ifs at h with h₁ h₂ h₃
      · exact lt_of_le_of_lt h₁.2 (by decide)
      · exact lt_of_le_of_lt h₂.2 (by decide)
      · exact lt_of_le_of_lt h₃.2 (by decide)
    have key : ∀ n : Fin 128, ∀ d ∈ value? (Char.ofNat n.val),
        d < 16 ∧ (Char.ofNat n.val = Nat.digitChar d ∨
          Char.ofNat n.val = (Nat.digitChar d).toUpper) := by decide
    have hdigit := key ⟨c.toNat, hc⟩ d
    rw [Char.ofNat_toNat] at hdigit
    exact hdigit h
  · rintro ⟨hd, h⟩
    have key : ∀ d : Fin 16, value? (Nat.digitChar d.val) = some d.val ∧
        value? (Nat.digitChar d.val).toUpper = some d.val := by decide
    rcases h with rfl | rfl
    · exact (key ⟨d, hd⟩).1
    · exact (key ⟨d, hd⟩).2

/-- Reading digits goes on from the number that was read before them. -/
theorem Hex.extend?_eq_some_iff {n m : ℕ} {cs : List Char} :
    extend? n cs = some m ↔
      ∃ ds, List.Forall₂ Digit cs ds ∧ m = 16 ^ cs.length * n + Nat.ofDigits 16 ds.reverse := by
  induction cs generalizing n with
  | nil => simp [eq_comm]
  | cons c cs ih =>
    have hvalue : ∀ (d : ℕ) (ds : List ℕ), List.Forall₂ Digit cs ds →
        16 ^ cs.length * (16 * n + d) + Nat.ofDigits 16 ds.reverse =
          16 ^ (c :: cs).length * n + Nat.ofDigits 16 (d :: ds).reverse := by
      intro d ds hds
      rw [List.reverse_cons, Nat.ofDigits_append, Nat.ofDigits_singleton, List.length_reverse,
        ← hds.length_eq, List.length_cons, pow_succ]
      ring
    rw [extend?_cons, Option.bind_eq_some_iff]
    simp only [value?_eq_some_iff, ih]
    constructor
    · rintro ⟨d, hd, ds, hds, rfl⟩
      exact ⟨d :: ds, .cons hd hds, hvalue d ds hds⟩
    · rintro ⟨_, hall, rfl⟩
      obtain ⟨d, ds, hd, hds, rfl⟩ := List.forall₂_cons_left_iff.1 hall
      exact ⟨d, hd, ds, hds, (hvalue d ds hds).symm⟩

/-- Numerals and nothing else are read. -/
theorem Hex.toNat?_eq_some_iff {cs : List Char} {n : ℕ} : toNat? cs = some n ↔ Numeral cs n := by
  cases cs with
  | nil => simp [toNat?, Numeral]
  | cons c cs => simp [toNat?, Numeral, extend?_eq_some_iff]

theorem Hex.Numeral.digit_of_mem {cs : List Char} {n : ℕ} (h : Numeral cs n) {c : Char}
    (hc : c ∈ cs) : (value? c).isSome = true := by
  obtain ⟨-, ds, hds, -⟩ := h
  clear n
  induction hds with
  | nil => cases hc
  | @cons c' d cs ds hd _ ih =>
    rcases List.mem_cons.1 hc with rfl | hc
    · rw [value?_eq_some_iff.2 hd]
      rfl
    · exact ih hc

theorem Hex.Numeral.lt {cs : List Char} {n : ℕ} (h : Numeral cs n) : n < 16 ^ cs.length := by
  obtain ⟨-, ds, hds, rfl⟩ := h
  have hlt : ∀ d ∈ ds, d < 16 := by
    induction hds with
    | nil => exact fun _ h => by cases h
    | cons hd _ ih => exact List.forall_mem_cons.2 ⟨hd.1, ih⟩
  have hofDigits := Nat.ofDigits_lt_base_pow_length (by decide)
    fun d hd => hlt d (List.mem_reverse.1 hd)
  rwa [List.length_reverse, ← hds.length_eq] at hofDigits

/-- The digits of a number that are written: lowercase, and no others are fewer. -/
structure Hex.Shortest (cs : List Char) (n : ℕ) : Prop where
  numeral : Numeral cs n
  lowercase : ∀ c ∈ cs, ∃ d, d < 16 ∧ c = Nat.digitChar d
  length_le : ∀ cs', Numeral cs' n → cs.length ≤ cs'.length

theorem Hex.shortest_ofNat (n : ℕ) : Shortest (ofNat n) n where
  numeral := toNat?_eq_some_iff.1 (toNat?_ofNat n)
  lowercase _ := exists_digit_of_mem
  length_le cs' h :=
    (Nat.length_toDigits_le_iff (by decide) (List.length_pos_of_ne_nil h.1)).2 h.lt

/-! ### Decimal numerals -/

theorem Json.exists_digitChar {c : Char} (h : c.isDigit = true) :
    ∃ d, d < 10 ∧ c = Nat.digitChar d := by
  have hc : c.toNat < 128 := by
    simp only [Char.isDigit, Bool.and_eq_true, decide_eq_true_eq] at h
    exact lt_of_le_of_lt h.2 (by decide)
  have key : ∀ n : Fin 128, (Char.ofNat n.val).isDigit = true →
      ∃ d : Fin 10, Char.ofNat n.val = Nat.digitChar d.val := by decide
  obtain ⟨d, hd⟩ := key ⟨c.toNat, hc⟩ (by rwa [Char.ofNat_toNat])
  rw [Char.ofNat_toNat] at hd
  exact ⟨d, d.isLt, hd⟩

theorem Json.decimal_append {ds : List Char} {d : ℕ} (hd : d < 10) :
    decimal (ds ++ [Nat.digitChar d]) = 10 * decimal ds + d := by
  have key : ∀ d : Fin 10, (Nat.digitChar d.val).toNat - 48 = d.val := by decide
  simp [decimal, key ⟨d, hd⟩]

/-- A number that is written with digits alone is written with its digits. -/
theorem Json.toDigits_decimal {ds : List Char} (h : Whole ds) : Nat.toDigits 10 (decimal ds) = ds := by
  induction ds using List.reverseRecOn with
  | nil => exact absurd rfl h.1.1
  | append_singleton ds c ih =>
    obtain ⟨⟨-, hdigits⟩, hzero⟩ := h
    obtain ⟨d, hd, rfl⟩ := exists_digitChar (hdigits c (by simp))
    rw [decimal_append hd]
    by_cases hds : ds = []
    · subst hds
      have hone : 10 * decimal [] + d = d := by simp [decimal]
      rw [hone, Nat.toDigits_of_lt_base hd]
      rfl
    · have hhead : ds.head? ≠ some '0' := by
        intro hhead
        have hone := congrArg List.length (hzero (by rw [List.head?_append, hhead]; rfl))
        exact hds (by simpa using hone)
      have hdigits' : Nat.toDigits 10 (decimal ds) = ds :=
        ih ⟨⟨hds, fun c hc => hdigits c (by simp [hc])⟩, fun h => absurd h hhead⟩
      have hpos : 0 < decimal ds := by
        refine Nat.pos_of_ne_zero fun hzero => hhead ?_
        rw [← hdigits', hzero]
        rfl
      rw [← Nat.toDigits_append_toDigits (by decide) hpos hd, hdigits', Nat.toDigits_of_lt_base hd]

/-- An integer literal is digits without a needless zero, and needs no sign. -/
theorem Json.whole_of_number {literal : List Char} (h : Number literal)
    (hdigits : literal.all Char.isDigit = true) : Whole literal := by
  rw [List.all_eq_true] at hdigits
  cases h with
  | @mk sign whole fraction exponent hs hw hf he =>
    have hsign : sign = [] := by
      simp only [List.mem_cons, List.not_mem_nil, or_false] at hs
      rcases hs with rfl | rfl
      · rfl
      · exact absurd (hdigits '-' (by simp)) (by decide)
    have hfraction : fraction = [] := by
      cases hf with
      | none => rfl
      | some h => exact absurd (hdigits '.' (by simp)) (by decide)
    have hexponent : exponent = [] := by
      cases he with
      | none => rfl
      | @some e sign ds he hs h =>
        have hedigit := hdigits e (by simp)
        rcases he with rfl | rfl <;> exact absurd hedigit (by decide)
    rw [hsign, hfraction, hexponent, List.nil_append, List.append_nil, List.append_nil]
    exact hw

theorem Json.natural?_eq_some_iff {literal : List Char} (h : Number literal) {n : ℕ} :
    (Value.number literal).natural? = some n ↔ literal = Nat.toDigits 10 n := by
  unfold Value.natural?
  constructor
  · intro hread
    dsimp only at hread
    split_ifs at hread with hdigits
    obtain rfl := Option.some.inj hread
    exact (toDigits_decimal (whole_of_number h hdigits)).symm
  · rintro rfl
    exact natural?_ofNat n

/-- A number that fits into 64 bits is neither wrapped nor cut, and no other is taken. -/
theorem bind_ofNat_eq_some_iff {x : Option ℕ} {n : UInt64} :
    (x.bind fun m => if m < UInt64.size then some (UInt64.ofNat m) else none) = some n ↔
      x = some n.toNat := by
  rw [Option.bind_eq_some_iff]
  constructor
  · rintro ⟨m, hm, hread⟩
    split_ifs at hread with hlt
    obtain rfl := Option.some.inj hread
    rw [hm, UInt64.toNat_ofNat_of_lt' hlt]
  · intro h
    exact ⟨n.toNat, h, by rw [if_pos n.toNat_lt, UInt64.ofNat_toNat]⟩

theorem Json.uint64?_eq_some_iff {v : Value} {n : UInt64} :
    v.uint64? = some n ↔ v.natural? = some n.toNat := bind_ofNat_eq_some_iff

/-! ### Offsets -/

/-- The value of an offset field stands for a number: an integer for itself, and a string for what
is left of it without a mark and then without a plus sign, if these are digits. -/
inductive Offset.Denotes : Value → ℕ → Prop
  | integer (n : ℕ) : Denotes (.number (Nat.toDigits 10 n)) n
  | string {body mark plus digits : List Char} {n : ℕ}
      (hbody : unescape? body = some (mark ++ (plus ++ digits)))
      (hmark : mark ∈ [[], ['0', 'x'], ['0', 'X']]) (hplus : plus ∈ [[], ['+']])
      (hdigits : Hex.Numeral digits n) : Denotes (.string body) n

theorem Offset.dropMark_eq (s : List Char) :
    ∃ mark, mark ∈ [[], ['0', 'x'], ['0', 'X']] ∧ s = mark ++ dropMark s := by
  unfold dropMark
  split
  · exact ⟨['0', 'x'], by decide, rfl⟩
  · exact ⟨['0', 'X'], by decide, rfl⟩
  · exact ⟨[], by decide, rfl⟩

theorem Offset.dropPlus_eq (s : List Char) :
    ∃ plus, plus ∈ [[], ['+']] ∧ s = plus ++ dropPlus s := by
  unfold dropPlus
  split
  · exact ⟨['+'], by decide, rfl⟩
  · exact ⟨[], by decide, rfl⟩

theorem Offset.dropMark_append {mark r : List Char} (hmark : mark ∈ [[], ['0', 'x'], ['0', 'X']])
    (hr : 'x' ∉ r ∧ 'X' ∉ r) : dropMark (mark ++ r) = r := by
  simp only [List.mem_cons, List.not_mem_nil, or_false] at hmark
  rcases hmark with rfl | rfl | rfl
  · rw [List.nil_append]
    unfold dropMark
    split
    · exact absurd (by simp) hr.1
    · exact absurd (by simp) hr.2
    · rfl
  · rfl
  · rfl

theorem Offset.dropPlus_append {plus r : List Char} (hplus : plus ∈ [[], ['+']]) (hr : '+' ∉ r) :
    dropPlus (plus ++ r) = r := by
  simp only [List.mem_cons, List.not_mem_nil, or_false] at hplus
  rcases hplus with rfl | rfl
  · rw [List.nil_append]
    unfold dropPlus
    split
    · exact absurd (by simp) hr
    · rfl
  · rfl

theorem Offset.ofChars?_eq_some_iff {s : List Char} {n : UInt64} :
    ofChars? s = some n ↔ Hex.Numeral (dropPlus (dropMark s)) n.toNat :=
  bind_ofNat_eq_some_iff.trans Hex.toNat?_eq_some_iff

/-- Marks and signs are no digits, so that what comes before the digits is dropped. -/
theorem Offset.drop_append {mark plus digits : List Char} {n : ℕ}
    (hmark : mark ∈ [[], ['0', 'x'], ['0', 'X']]) (hplus : plus ∈ [[], ['+']])
    (hdigits : Hex.Numeral digits n) : dropPlus (dropMark (mark ++ (plus ++ digits))) = digits := by
  have hnot : ∀ c, Hex.value? c = none → c ∉ digits := by
    intro c hc hmem
    have hdigit := hdigits.digit_of_mem hmem
    rw [hc] at hdigit
    cases hdigit
  have hmarks : ∀ c, c ≠ '+' → Hex.value? c = none → c ∉ plus ++ digits := by
    intro c hplus' hc hmem
    rcases List.mem_append.1 hmem with hmem | hmem
    · simp only [List.mem_cons, List.not_mem_nil, or_false] at hplus
      rcases hplus with rfl | rfl
      · cases hmem
      · exact hplus' (List.mem_singleton.1 hmem)
    · exact hnot c hc hmem
  rw [dropMark_append hmark ⟨hmarks 'x' (by decide) (by decide), hmarks 'X' (by decide) (by decide)⟩,
    dropPlus_append hplus (hnot '+' (by decide))]

/-- **Offsets are read as what they denote**, if that is below `2 ^ 64`. -/
theorem Offset.decode?_eq_some_iff {v : Value} (h : v.Proper) {n : UInt64} :
    decode? v = some n ↔ Denotes v n.toNat := by
  constructor
  · intro hread
    cases v with
    | number literal =>
      rw [(natural?_eq_some_iff h).1 (uint64?_eq_some_iff.1 hread)]
      exact .integer n.toNat
    | string body =>
      obtain ⟨s, hbody, hs⟩ := Option.bind_eq_some_iff.1 hread
      obtain ⟨mark, hmark, heq⟩ := dropMark_eq s
      obtain ⟨plus, hplus, heq'⟩ := dropPlus_eq (dropMark s)
      refine .string (hbody.trans (congrArg some ?_)) hmark hplus (ofChars?_eq_some_iff.1 hs)
      rw [← heq', ← heq]
    | _ => cases hread
  · intro hdenotes
    generalize hm : n.toNat = m at hdenotes
    cases hdenotes with
    | integer m => exact uint64?_eq_some_iff.2 (hm ▸ natural?_ofNat m)
    | string hbody hmark hplus hdigits =>
      refine Option.bind_eq_some_iff.2 ⟨_, hbody, ofChars?_eq_some_iff.2 ?_⟩
      rw [drop_append hmark hplus hdigits, hm]
      exact hdigits

/-- A value stands for one number at most. -/
theorem Offset.Denotes.unique {v : Value} {m n : ℕ} (hm : Denotes v m) (hn : Denotes v n) :
    m = n := by
  cases hm with
  | integer m =>
    generalize hliteral : Nat.toDigits 10 m = literal at hn
    cases hn with
    | integer n => rw [← decimal_toDigits m, hliteral, decimal_toDigits]
  | string hbody hmark hplus hdigits =>
    cases hn with
    | string hbody' hmark' hplus' hdigits' =>
      have hsame := Option.some.inj (hbody.symm.trans hbody')
      have hdrop := drop_append hmark hplus hdigits
      rw [hsame, drop_append hmark' hplus' hdigits'] at hdrop
      have hread := Hex.toNat?_eq_some_iff.2 hdigits
      rw [← hdrop, Hex.toNat?_eq_some_iff.2 hdigits'] at hread
      exact (Option.some.inj hread).symm

/-! ### Values of fields -/

theorem Json.proper_of_mem_members? {w : Value} (h : w.Proper) {ps : List (List Char × Value)}
    (hps : w.members? = some ps) : ∀ p ∈ ps, p.2.Proper := by
  have key : ∀ ms : List (Member Value), ProperMembers ms → ∀ m ∈ ms, m.value.Proper := by
    intro ms hms
    induction ms with
    | nil => exact fun _ hm => by cases hm
    | cons m ms ih =>
      obtain ⟨-, hv, -, hms⟩ := hms
      exact List.forall_mem_cons.2 ⟨hv, ih hms⟩
  have hread : ∀ ms : List (Member Value), ProperMembers ms → ms.mapM Member.named? = some ps →
      ∀ p ∈ ps, p.2.Proper := by
    intro ms hms hread p hp
    obtain ⟨m, hm, hnamed⟩ := exists_of_mem_mapM hread hp
    obtain ⟨name, -, rfl⟩ := Option.map_eq_some_iff.1 hnamed
    exact key ms hms m hm
  cases w with
  | object first rest => exact hread (first :: rest) h hps
  | emptyObject gap => exact hread [] trivial hps
  | _ => cases hps

theorem Json.proper_of_mem_items? {w : Value} (h : w.Proper) {vs : List Value}
    (hvs : w.items? = some vs) : ∀ v ∈ vs, v.Proper := by
  have key : ∀ is : List (Item Value), ProperItems is → ∀ v ∈ is.map Item.value, v.Proper := by
    intro is his
    induction is with
    | nil => exact fun _ hv => by cases hv
    | cons i is ih =>
      obtain ⟨-, hv, -, his⟩ := his
      exact List.forall_mem_cons.2 ⟨hv, ih his⟩
  cases w with
  | array first rest =>
    obtain rfl := Option.some.inj hvs
    exact key (first :: rest) h
  | emptyArray gap =>
    obtain rfl := Option.some.inj hvs
    exact key [] trivial
  | _ => cases hvs

theorem Json.mem_of_find? {f : Field} {ps : List (List Char × Value)} {v : Value}
    (h : f.find? ps = some (some v)) : ∃ p ∈ ps, p.2 = v := by
  have hmem : v ∈ f.values ps := by
    rw [find?_eq] at h
    generalize f.values ps = vs at h ⊢
    rcases vs with _ | ⟨w, _ | _⟩
    · dsimp only at h
      split_ifs at h
      cases h
    · cases h
      exact List.mem_singleton_self v
    · cases h
  obtain ⟨p, hp, rfl⟩ := List.mem_map.1 hmem
  exact ⟨p, (List.mem_filter.1 hp).1, rfl⟩

theorem Json.mem_of_positional? {fs : List Field} {vs : List Value} {xs : List (Option Value)}
    (h : positional? fs vs = some xs) {v : Value} (hv : some v ∈ xs) : v ∈ vs := by
  induction fs generalizing vs xs with
  | nil =>
    cases vs with
    | nil => cases h; cases hv
    | cons => cases h
  | cons f fs ih =>
    cases vs with
    | nil =>
      rw [positional?] at h
      split_ifs at h
      obtain ⟨ys, hys, rfl⟩ := Option.map_eq_some_iff.1 h
      exact ih hys (by simpa using hv)
    | cons w vs =>
      obtain ⟨ys, hys, rfl⟩ := Option.map_eq_some_iff.1 h
      rcases List.mem_cons.1 hv with heq | hv
      · exact Option.some.inj heq ▸ List.mem_cons_self
      · exact List.mem_cons_of_mem w (ih hys hv)

/-- The values of the fields of a document that follows the grammar follow it. -/
theorem Json.proper_of_fields? {w : Value} (h : w.Proper) {fs : List Field}
    {xs : List (Option Value)} (hxs : w.fields? fs = some xs) {v : Value} (hv : some v ∈ xs) :
    v.Proper := by
  unfold Value.fields? at hxs
  cases hps : w.members? with
  | some ps =>
    rw [hps] at hxs
    dsimp only at hxs
    obtain ⟨f, -, hfind⟩ := exists_of_mem_mapM hxs hv
    obtain ⟨p, hp, rfl⟩ := mem_of_find? hfind
    exact proper_of_mem_members? h hps p hp
  | none =>
    rw [hps] at hxs
    cases hvs : w.items? with
    | some vs =>
      rw [hvs] at hxs
      exact proper_of_mem_items? h hvs v (mem_of_positional? hxs hv)
    | none =>
      rw [hvs] at hxs
      cases hxs

/-! ### Requests and responses -/

theorem ChunkRequest.ofText?_eq_some_iff {s : String} {w v size : Value} (h : Spells s.toList w)
    (hfields : w.fields? (Record.fields ChunkRequest) = some [some v, some size])
    {r : ChunkRequest} : Wire.ofText? s = some r ↔
      Offset.Denotes v r.offset.toNat ∧ size.uint64? = some r.size := by
  have hv : v.Proper := proper_of_fields? h.proper hfields (by simp)
  have hread : (Wire.decode? w : Option ChunkRequest) =
      (Offset.decode? v).bind fun offset => size.uint64?.bind fun size => some ⟨offset, size⟩ := by
    show (w.fields? (Record.fields ChunkRequest)).bind _ = _
    rw [hfields]
    rfl
  rw [Wire.ofText?_of_spells h, hread, ← Offset.decode?_eq_some_iff hv]
  obtain ⟨offset, size'⟩ := r
  simp [Option.bind_eq_some_iff]

theorem ChunkResponse.ofText?_eq_some_iff {s : String} {w v size payload : Value}
    (h : Spells s.toList w)
    (hfields : w.fields? (Record.fields ChunkResponse) = some [some v, some size, some payload])
    {r : ChunkResponse} : Wire.ofText? s = some r ↔
      Offset.Denotes v r.offset.toNat ∧ size.uint64? = some r.size ∧
        payload.string? = some r.payload := by
  have hv : v.Proper := proper_of_fields? h.proper hfields (by simp)
  have hread : (Wire.decode? w : Option ChunkResponse) =
      (Offset.decode? v).bind fun offset => size.uint64?.bind fun size =>
        payload.string?.bind fun payload => some ⟨offset, size, payload⟩ := by
    show (w.fields? (Record.fields ChunkResponse)).bind _ = _
    rw [hfields]
    rfl
  rw [Wire.ofText?_of_spells h, hread, ← Offset.decode?_eq_some_iff hv]
  obtain ⟨offset, size', payload'⟩ := r
  simp [Option.bind_eq_some_iff]

theorem ChunkRequest.fields?_encode (r : ChunkRequest) :
    (Wire.encode r).fields? (Record.fields ChunkRequest) =
      some [some (Offset.encode r.offset), some (.ofNat r.size.toNat)] := by
  simp [Record.fields, Wire.encode, fields?_ofMembers, Field.find?, Field.named]

theorem ChunkResponse.fields?_encode (r : ChunkResponse) :
    (Wire.encode r).fields? (Record.fields ChunkResponse) =
      some [some (Offset.encode r.offset), some (.ofNat r.size.toNat),
        some (.ofString r.payload)] := by
  simp [Record.fields, Wire.encode, fields?_ofMembers, Field.find?, Field.named]

/-- **Offsets are read as what they denote, and as nothing else.** A request or a response is read
if and only if its offset field denotes a number below `2 ^ 64` and its other fields are right, and
then the number is its offset; there is no reading of a greater number. An offset is written as its
shortest lowercase digits in a string, which are read back. -/
theorem offsets_read_exactly :
    (∀ (s : String) (w v size : Value), Spells s.toList w →
      w.fields? (Record.fields ChunkRequest) = some [some v, some size] →
      (∀ r : ChunkRequest, Wire.ofText? s = some r ↔
        Offset.Denotes v r.offset.toNat ∧ size.uint64? = some r.size) ∧
      ∀ n, Offset.Denotes v n → 2 ^ 64 ≤ n → (Wire.ofText? s : Option ChunkRequest) = none) ∧
    (∀ (s : String) (w v size payload : Value), Spells s.toList w →
      w.fields? (Record.fields ChunkResponse) = some [some v, some size, some payload] →
      (∀ r : ChunkResponse, Wire.ofText? s = some r ↔
        Offset.Denotes v r.offset.toNat ∧ size.uint64? = some r.size ∧
          payload.string? = some r.payload) ∧
      ∀ n, Offset.Denotes v n → 2 ^ 64 ≤ n → (Wire.ofText? s : Option ChunkResponse) = none) ∧
    (∀ r : ChunkRequest, ∃ digits, Hex.Shortest digits r.offset.toNat ∧
      (Wire.encode r).fields? (Record.fields ChunkRequest) =
        some [some (.string digits), some (.ofNat r.size.toNat)] ∧
      Wire.ofText? (Wire.text r) = some r) ∧
    ∀ r : ChunkResponse, ∃ digits, Hex.Shortest digits r.offset.toNat ∧
      (Wire.encode r).fields? (Record.fields ChunkResponse) =
        some [some (.string digits), some (.ofNat r.size.toNat), some (.ofString r.payload)] ∧
      Wire.ofText? (Wire.text r) = some r := by
  have hlarge : ∀ {v : Value} {n : ℕ} {offset : UInt64}, Offset.Denotes v n → 2 ^ 64 ≤ n →
      ¬Offset.Denotes v offset.toNat := by
    intro v n offset hn hlarge hdenotes
    have hlt := offset.toNat_lt
    rw [hdenotes.unique hn] at hlt
    omega
  refine ⟨fun s w v size hs hfields => ⟨fun r => ChunkRequest.ofText?_eq_some_iff hs hfields, ?_⟩,
    fun s w v size payload hs hfields =>
      ⟨fun r => ChunkResponse.ofText?_eq_some_iff hs hfields, ?_⟩,
    fun r => ⟨_, Hex.shortest_ofNat _, r.fields?_encode, Wire.ofText?_text r⟩,
    fun r => ⟨_, Hex.shortest_ofNat _, r.fields?_encode, Wire.ofText?_text r⟩⟩
  · intro n hn hle
    refine Option.eq_none_iff_forall_ne_some.2 fun r hr => ?_
    exact hlarge hn hle ((ChunkRequest.ofText?_eq_some_iff hs hfields).1 hr).1
  · intro n hn hle
    refine Option.eq_none_iff_forall_ne_some.2 fun r hr => ?_
    exact hlarge hn hle ((ChunkResponse.ofText?_eq_some_iff hs hfields).1 hr).1

/-- The number `100` and the string `"100"` are different offsets; digits of either case may stand
behind a mark, a plus sign and zeros; and `2 ^ 64` is no offset. -/
theorem offset_spellings_read :
    Wire.ofText? "\x7b\"offset\":100,\"size\":1\x7d" = some (⟨100, 1⟩ : ChunkRequest) ∧
    Wire.ofText? "\x7b\"offset\":\"100\",\"size\":1\x7d" = some (⟨256, 1⟩ : ChunkRequest) ∧
    Wire.ofText? "\x7b\"offset\":\"0X+00fF\",\"size\":1\x7d" = some (⟨255, 1⟩ : ChunkRequest) ∧
    (Wire.ofText? "\x7b\"offset\":\"10000000000000000\",\"size\":1\x7d" : Option ChunkRequest) =
      none := by
  obtain ⟨hread, -⟩ := offsets_read_exactly
  have hspells : ∀ (s : String) (v : Value),
      Value.ofText? s.toList = some (.ofMembers [("offset", v), ("size", .ofNat 1)]) →
        Spells s.toList (.ofMembers [("offset", v), ("size", .ofNat 1)]) :=
    fun s v => ofText?_eq_some_iff_spells.1
  have hfields : ∀ v : Value, (Value.ofMembers [("offset", v), ("size", .ofNat 1)]).fields?
      (Record.fields ChunkRequest) = some [some v, some (.ofNat 1)] := by
    intro v
    simp [Record.fields, fields?_ofMembers, Field.find?, Field.named]
  refine ⟨?_, ?_, ?_, ?_⟩
  · refine ((hread _ _ _ _ (hspells _ (.number ['1', '0', '0']) (by rfl)) (hfields _)).1 _).2 ⟨?_, rfl⟩
    exact .integer 100
  · refine ((hread _ _ _ _ (hspells _ (.string ['1', '0', '0']) (by rfl)) (hfields _)).1 _).2 ⟨?_, rfl⟩
    exact .string (show _ = some ([] ++ ([] ++ ['1', '0', '0'])) by rfl) (by decide) (by decide)
      (Hex.toNat?_eq_some_iff.1 (by decide))
  · refine ((hread _ _ _ _ (hspells _ (.string "0X+00fF".toList) (by rfl)) (hfields _)).1 _).2 ⟨?_, rfl⟩
    exact .string (show _ = some (['0', 'X'] ++ (['+'] ++ "00fF".toList)) by rfl) (by decide)
      (by decide) (Hex.toNat?_eq_some_iff.1 (by decide))
  · refine (hread _ _ _ _ (hspells _ (.string "10000000000000000".toList) (by rfl)) (hfields _)).2
      (2 ^ 64) ?_ (le_refl _)
    exact .string (show _ = some ([] ++ ([] ++ "10000000000000000".toList)) by rfl) (by decide)
      (by decide) (Hex.toNat?_eq_some_iff.1 (by decide))

end PullIngest
