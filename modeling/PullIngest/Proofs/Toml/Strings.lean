import Mathlib.Data.List.TakeWhile
import PullIngest.Proofs.Text.Hex
import PullIngest.Toml.Style

/-!
# Strings of every style are read back

`Style.best` picks one of four styles for a text. What each of them writes between its quotes follows
one grammar, `Body`: single characters with their spellings, and raw quotes of which no more than two
stand in a row. Whatever follows that grammar is read back (`Body.scan`).

* `Reads`, `Body`: how a style spells a character, and a text;
* `scan_plain`, `scan_letter`, `scan_unicode`: what the reader does at one character, in each mode;
* `Body.scan`: the reader finds the text and stops behind the closing quotes;
* `body_escape`, `body_raw`: what is written follows the grammar;
* `scanString_encode_best`: a text in its own style is read back, whatever comes behind it;
* `plain_encode_best`: it is written without control characters.
-/

namespace PullIngest.Toml

namespace Style

variable {t : Style} {m : Bool} {c : Char} {run : ℕ} {cs p b rest : List Char}

/-! ### The grammar -/

/-- A spelling of a character, which the reader takes for the character wherever it stands. It does
not begin with a quote that could belong to the closing ones. -/
structure Reads (t : Style) (c : Char) (p : List Char) : Prop where
  ne_nil : p ≠ []
  head_ne : ∀ a ∈ p.head?, a ≠ t.quote
  scan_eq : ∀ done r, scan t .plain done (p ++ r) = scan t .plain (c :: done) r

/-- What a style writes for a text behind `run` raw quotes. -/
inductive Body (t : Style) : (run : ℕ) → (cs b : List Char) → Prop
  | nil {run : ℕ} : Body t run [] []
  /-- A raw quote. A third one in a row would close the string. -/
  | quote {run : ℕ} {cs b : List Char} (hm : t.multiline = true) (hrun : run < 2)
      (h : Body t (run + 1) cs b) : Body t run (t.quote :: cs) (t.quote :: b)
  | spelled {run : ℕ} {c : Char} {cs p b : List Char} (hp : Reads t c p) (h : Body t 0 cs b) :
      Body t run (c :: cs) (p ++ b)

/-! ### Reading -/

/-- A character that is not behind a backslash. -/
theorem scan_plain (t : Style) (done : List Char) (c : Char) (r : List Char) :
    scan t .plain done (c :: r) =
      if c = t.quote then
        if t.multiline then
          match (r.takeWhile (· = t.quote)).length with
          | n + 2 => some ((List.replicate (min n 2) c ++ done).reverse, r.drop (min (n + 2) 4))
          | _ => scan t .plain (c :: done) r
        else some (done.reverse, r)
      else if t.escapes ∧ c = '\\' then scan t .escaped done r
      else if isPlain c || t.multiline && c = '\n' then scan t .plain (c :: done) r
      else none :=
  rfl

theorem scan_backslash (m : Bool) (done r : List Char) :
    scan ⟨true, m⟩ .plain done ('\\' :: r) = scan ⟨true, m⟩ .escaped done r :=
  rfl

theorem scan_letter {a : Char} (ha : escapeLetter? a = some c) (done r : List Char) :
    scan ⟨true, m⟩ .escaped done (a :: r) = scan ⟨true, m⟩ .plain (c :: done) r := by
  unfold escapeLetter? at ha
  split at ha
  case h_8 => cases ha
  all_goals
    cases ha
    cases m <;> rfl

theorem scan_u (m : Bool) (done r : List Char) :
    scan ⟨true, m⟩ .escaped done ('u' :: r) = scan ⟨true, m⟩ (.unicode 4 0) done r :=
  rfl

/-- A character in a number. -/
theorem scan_unicode (t : Style) (missing value : ℕ) (done : List Char) (c : Char) (r : List Char) :
    scan t (.unicode missing value) done (c :: r) =
      match Hex.value? c with
      | some digit =>
        if 1 < missing then scan t (.unicode (missing - 1) (16 * value + digit)) done r
        else if (16 * value + digit).isValidChar then
          scan t .plain (Char.ofNat (16 * value + digit) :: done) r
        else none
      | none => none :=
  rfl

theorem scan_digit {d : ℕ} (hd : Hex.value? c = some d) (missing value : ℕ) (done r : List Char) :
    scan t (.unicode (missing + 2) value) done (c :: r) =
      scan t (.unicode (missing + 1) (16 * value + d)) done r := by
  rw [scan_unicode, hd]
  exact if_pos (by omega)

theorem scan_last_digit {d value : ℕ} (hd : Hex.value? c = some d)
    (hvalid : (16 * value + d).isValidChar) (done r : List Char) :
    scan t (.unicode 1 value) done (c :: r) =
      scan t .plain (Char.ofNat (16 * value + d) :: done) r := by
  rw [scan_unicode, hd]
  exact (if_neg (lt_irrefl 1)).trans (if_pos hvalid)

/-- Nothing behind the closing quotes could belong to them. -/
def Ends (t : Style) (rest : List Char) : Prop := ∀ a ∈ rest.head?, a ≠ t.quote

theorem takeWhile_of_ends (h : t.Ends rest) : rest.takeWhile (· = t.quote) = [] := by
  cases rest with
  | nil => rfl
  | cons a r => simp [h a rfl]

theorem takeWhile_replicate (n : ℕ) (h : t.Ends rest) :
    (List.replicate n t.quote ++ rest).takeWhile (· = t.quote) = List.replicate n t.quote := by
  rw [List.takeWhile_append_of_pos fun a ha => by simp [List.eq_of_mem_replicate ha],
    takeWhile_of_ends h, List.append_nil]

/-- Behind the first quote of a row the reader looks ahead for the closing ones. Either the text ends
with this row, or the row ends with the text still going on. -/
theorem Body.row (h : Body t run cs b) (hrun : run ≤ 2) (rest : List Char) :
    (∃ n, n + run ≤ 2 ∧ cs = List.replicate n t.quote ∧ b = List.replicate n t.quote) ∨
      ((b ++ rest).takeWhile (· = t.quote)).length + run ≤ 2 := by
  induction h with
  | nil => exact .inl ⟨0, by omega, rfl, rfl⟩
  | quote hm hlt _ ih =>
    rcases ih (by omega) with ⟨n, hn, rfl, rfl⟩ | hle
    · exact .inl ⟨n + 1, by omega, rfl, rfl⟩
    · refine .inr ?_
      rw [List.cons_append, List.takeWhile_cons_of_pos (by simp), List.length_cons]
      omega
  | @spelled run c cs p b hp _ _ =>
    obtain ⟨a, p', rfl⟩ := List.exists_cons_of_ne_nil hp.ne_nil
    refine .inr ?_
    rw [List.cons_append, List.cons_append,
      List.takeWhile_cons_of_neg (by simpa using hp.head_ne a rfl)]
    simpa using hrun

theorem scan_line_end (ht : t.multiline = false) (done rest : List Char) :
    scan t .plain done (t.quote :: rest) = some (done.reverse, rest) := by
  rw [scan_plain, if_pos rfl, ht]
  rfl

/-- The last quotes of a text stand right before the closing ones. -/
theorem scan_lines_end (ht : t.multiline = true) {n : ℕ} (hn : n ≤ 2) (done : List Char)
    (hrest : t.Ends rest) :
    scan t .plain done (List.replicate (n + 3) t.quote ++ rest) =
      some ((List.replicate n t.quote ++ done).reverse, rest) := by
  have hlook := takeWhile_replicate (n + 2) hrest
  have hdrop : (List.replicate (n + 2) t.quote ++ rest).drop (n + 2) = rest :=
    List.drop_left' List.length_replicate
  rw [List.replicate_succ, List.cons_append, scan_plain]
  simp only [reduceIte, ht, hlook, List.length_replicate, Nat.min_eq_left hn,
    Nat.min_eq_left (show n + 2 ≤ 4 by omega), hdrop]

/-- A raw quote that is not near the end is text. -/
theorem scan_raw_quote (ht : t.multiline = true) (done : List Char) {r : List Char}
    (hr : (r.takeWhile (· = t.quote)).length ≤ 1) :
    scan t .plain done (t.quote :: r) = scan t .plain (t.quote :: done) r := by
  have hlen : (r.takeWhile (· = t.quote)).length = 0 ∨ (r.takeWhile (· = t.quote)).length = 1 := by
    omega
  rw [scan_plain, if_pos rfl, if_pos ht]
  rcases hlen with hlen | hlen <;> rw [hlen]

/-- What is written for a text is read as the text. -/
theorem Body.scan (h : Body t run cs b) (hrun : run ≤ 2) (hrest : t.Ends rest)
    (done : List Char) :
    Style.scan t .plain done (b ++ (t.delimiter ++ rest)) = some (done.reverse ++ cs, rest) := by
  induction h generalizing done with
  | nil =>
    unfold delimiter
    cases ht : t.multiline with
    | false => simpa using scan_line_end ht done rest
    | true => simpa using scan_lines_end ht (Nat.zero_le 2) done hrest
  | @quote run cs b hm hlt hb ih =>
    have hclose : t.delimiter = List.replicate 3 t.quote := by
      unfold delimiter
      rw [hm, if_pos rfl]
    rcases hb.row (by omega) (t.delimiter ++ rest) with ⟨n, hn, rfl, rfl⟩ | hle
    · -- Only quotes are left, and they close the string together with the last three.
      have hjoin : t.quote :: (List.replicate n t.quote ++ (List.replicate 3 t.quote ++ rest)) =
          List.replicate (n + 1 + 3) t.quote ++ rest := by
        rw [← List.append_assoc, List.replicate_append_replicate, ← List.cons_append,
          ← List.replicate_succ, show n + 3 + 1 = n + 1 + 3 by omega]
      rw [hclose, List.cons_append, hjoin, scan_lines_end hm (by omega) done hrest,
        List.replicate_succ']
      simp [← List.replicate_succ]
    · rw [List.cons_append, scan_raw_quote hm done (by omega), ih (by omega)]
      simp
  | spelled hp _ ih =>
    rw [List.append_assoc, hp.scan_eq, ih (by omega)]
    simp

/-- On one line no raw quote stands in a text. -/
theorem Body.ends (h : Body t run cs b) (ht : t.multiline = false) : t.Ends b := by
  cases h with
  | nil => exact nofun
  | quote hm _ _ => rw [ht] at hm; cases hm
  | @spelled _ c cs p b hp _ =>
    obtain ⟨a, p', rfl⟩ := List.exists_cons_of_ne_nil hp.ne_nil
    exact hp.head_ne

/-! ### Writing with escapes -/

/-- A character that is written as it is. -/
theorem reads_raw (hq : c ≠ t.quote) (hb : t.escapes = true → c ≠ '\\')
    (hc : isPlain c = true ∨ t.multiline = true ∧ c = '\n') : Reads t c [c] where
  ne_nil := by simp
  head_ne a ha := by
    obtain rfl : c = a := by simpa using ha
    exact hq
  scan_eq done r := by
    have hescape : ¬(t.escapes = true ∧ c = '\\') := fun ⟨he, h⟩ => hb he h
    have hplain : (isPlain c || t.multiline && decide (c = '\n')) = true := by simpa using hc
    rw [List.singleton_append, scan_plain, if_neg hq, if_neg hescape, if_pos hplain]

/-- An escape of one letter. -/
theorem reads_letter {a : Char} (ha : escapeLetter? a = some c) : Reads ⟨true, m⟩ c ['\\', a] where
  ne_nil := by simp
  head_ne b hb := by
    obtain rfl : '\\' = b := by simpa using hb
    simp [quote]
  scan_eq done r := (scan_backslash m done (a :: r)).trans (scan_letter ha done r)

/-- An escape of four digits for a control character. -/
theorem reads_control (hc : isPlain c = false) :
    Reads ⟨true, m⟩ c
      (['\\', 'u', '0', '0'] ++ (Hex.ofByte (.ofNat c.toNat)).map Char.toUpper) where
  ne_nil := by simp
  head_ne b hb := by
    obtain rfl : '\\' = b := by simpa using hb
    simp [quote]
  scan_eq done r := by
    have hlt : c.toNat < 128 := by
      simp only [isPlain, Bool.or_eq_false_iff, Bool.and_eq_false_iff, decide_eq_false_iff_not] at hc
      omega
    -- There are few enough control characters to try them all.
    have key : ∀ n : Fin 128, Hex.value? (Nat.digitChar (n.val / 16)).toUpper = some (n.val / 16) ∧
        Hex.value? (Nat.digitChar (n.val % 16)).toUpper = some (n.val % 16) := by decide
    obtain ⟨hhigh, hlow⟩ : Hex.value? (Nat.digitChar (c.toNat / 16)).toUpper = some (c.toNat / 16) ∧
        Hex.value? (Nat.digitChar (c.toNat % 16)).toUpper = some (c.toNat % 16) := key ⟨c.toNat, hlt⟩
    have hbyte : (UInt8.ofNat c.toNat).toNat = c.toNat := Nat.mod_eq_of_lt (by omega)
    have hzero : Hex.value? '0' = some 0 := rfl
    have hvalue : 16 * (c.toNat / 16) + c.toNat % 16 = c.toNat := Nat.div_add_mod ..
    have hvalid : c.toNat.isValidChar := c.valid
    rw [Hex.ofByte, hbyte]
    simp only [List.map_cons, List.map_nil, List.cons_append, List.nil_append]
    rw [scan_backslash, scan_u, scan_digit hzero, scan_digit hzero, scan_digit hhigh]
    simp only [Nat.mul_zero, Nat.zero_add]
    rw [scan_last_digit hlow (hvalue.symm ▸ hvalid), hvalue, Char.ofNat_toNat]

theorem reads_escapeChar (hc : c ≠ '"') : Reads ⟨true, m⟩ c (escapeChar m c) := by
  have hraw : isPlain c = true ∨ m = true ∧ c = '\n' → c ≠ '\\' → Reads ⟨true, m⟩ c [c] :=
    fun hp hb => reads_raw (by simpa [quote] using hc) (fun _ => hb) hp
  unfold escapeChar
  split_ifs with h1 h2 h3 h4 h5 h6 h7 h8
  all_goals try subst h1
  · exact reads_letter rfl
  · subst h2; exact reads_letter rfl
  · subst h3; exact reads_letter rfl
  · subst h4; exact reads_letter rfl
  · subst h5; exact reads_letter rfl
  · subst h6; exact hraw (.inr ⟨h7, rfl⟩) (by decide)
  · subst h6; exact reads_letter rfl
  · exact hraw (.inl h8) h1
  · exact reads_control (by simpa using h8)

/-- What is written with escapes. -/
theorem body_escape (m : Bool) (run : ℕ) (cs : List Char) :
    Body ⟨true, m⟩ run cs (escape m run cs) := by
  induction cs generalizing run with
  | nil => exact .nil
  | cons c r ih =>
    unfold escape
    split_ifs with hc hrun
    · subst hc
      exact .quote hrun.1 hrun.2 (ih _)
    · subst hc
      exact .spelled (p := ['\\', '"']) (reads_letter rfl) (ih 0)
    · exact .spelled (reads_escapeChar hc) (ih 0)

/-! ### Writing without escapes -/

/-- Whether no more than two quotes stand in a row, when `run` of them stand right before. -/
def shortRows (q : Char) (run : ℕ) : List Char → Bool
  | [] => true
  | c :: r => if c = q then run < 2 && shortRows q (run + 1) r else shortRows q 0 r

theorem foldl_longest_le_two_iff (q : Char) (cs : List Char) (run longest : ℕ) :
    (cs.foldl (fun (run, longest) c =>
      if c = q then (run + 1, max longest (run + 1)) else (0, longest)) (run, longest)).2 ≤ 2 ↔
      longest ≤ 2 ∧ shortRows q run cs = true := by
  induction cs generalizing run longest with
  | nil => simp [shortRows]
  | cons c cs ih =>
    rw [List.foldl_cons]
    unfold shortRows
    split_ifs with hc
    · rw [ih, Bool.and_eq_true, decide_eq_true_eq, Nat.max_le, Nat.succ_le_iff, and_assoc]
    · rw [ih]

theorem longestRun_le_two_iff (q : Char) (cs : List Char) :
    longestRun q cs ≤ 2 ↔ shortRows q 0 cs = true :=
  (foldl_longest_le_two_iff q cs 0 0).trans (and_iff_right (Nat.zero_le 2))

/-- What is written as it is. -/
theorem body_raw (hplain : ∀ c ∈ cs, isPlain c = true ∨ m = true ∧ c = '\n')
    (hrows : if m = true then shortRows '\'' run cs = true else '\'' ∉ cs) :
    Body ⟨false, m⟩ run cs cs := by
  induction cs generalizing run with
  | nil => exact .nil
  | cons c r ih =>
    by_cases hc : c = '\''
    · subst hc
      cases m with
      | false => simp at hrows
      | true =>
        simp only [shortRows, reduceIte, Bool.and_eq_true, decide_eq_true_eq] at hrows
        exact .quote rfl hrows.1 (ih (fun c hc => hplain c (by simp [hc])) (by simpa using hrows.2))
    · refine .spelled (p := [c]) (reads_raw (by simpa [quote] using hc) (by simp) ?_) (ih ?_ ?_)
      · exact hplain c (by simp)
      · exact fun c hc => hplain c (by simp [hc])
      · cases m with
        | false => simpa using (by simpa using hrows : _ ∧ _).2
        | true => simpa [shortRows, hc] using hrows

/-! ### The style of a text -/

/-- A style can hold a text: without escapes there is nothing to escape, and on one line there are no
line ends. -/
structure Holds (t : Style) (cs : List Char) : Prop where
  lines : '\n' ∈ cs → t.multiline = true
  plain : t.escapes = false → ∀ c ∈ cs, isPlain c = true ∨ c = '\n'
  rows : t.escapes = false →
    if t.multiline = true then shortRows '\'' 0 cs = true else '\'' ∉ cs

theorem holds_best (cs : List Char) : (best cs).Holds cs := by
  unfold best
  dsimp only
  have hescaped (m : Bool) (hm : '\n' ∈ cs → m = true) : Holds ⟨true, m⟩ cs := ⟨hm, nofun, nofun⟩
  by_cases h : (cs.any fun c => c ≠ '\n' && !isPlain c) = true
  · rw [if_pos h]
    exact hescaped _ (by simp)
  rw [if_neg h]
  have hplain : ∀ c ∈ cs, isPlain c = true ∨ c = '\n' := by
    intro c hc
    by_contra hno
    obtain ⟨hnot, hne⟩ := not_or.1 hno
    exact h (List.any_eq_true.2 ⟨c, hc, by simpa [hne] using hnot⟩)
  split_ifs with h1 h2 h3 h4
  · exact hescaped _ (by simp_all)
  · simp only [Bool.and_eq_true, Bool.not_eq_true', List.contains_eq_mem,
      decide_eq_false_iff_not] at h2
    exact ⟨fun hn => absurd hn h2.1, fun _ => hplain, fun _ => h2.2⟩
  · exact hescaped _ fun _ => rfl
  · exact ⟨fun _ => rfl, fun _ => hplain, fun _ => (longestRun_le_two_iff _ _).1 h4⟩
  · exact hescaped _ (by simp)

/-- What a style writes between the quotes. -/
def content (t : Style) (cs : List Char) : List Char :=
  if t.escapes then escape t.multiline 0 cs else cs

theorem Holds.body (h : t.Holds cs) : Body t 0 cs (t.content cs) := by
  unfold content
  obtain ⟨escapes, m⟩ := t
  cases escapes with
  | true => exact body_escape m 0 cs
  | false =>
    refine body_raw (fun c hc => ?_) (h.rows rfl)
    refine (h.plain rfl c hc).imp id fun hn => ?_
    subst hn
    exact ⟨h.lines hc, rfl⟩

theorem isPlain_escapeChar {a : Char} (ha : a ∈ escapeChar m c) :
    isPlain a = true ∨ a = '\n' ∧ c = '\n' := by
  unfold escapeChar at ha
  split_ifs at ha with h1 h2 h3 h4 h5 h6 h7 h8
  all_goals try simp only [List.mem_cons, List.not_mem_nil, or_false] at ha
  · rcases ha with rfl | rfl <;> exact .inl rfl
  · rcases ha with rfl | rfl <;> exact .inl rfl
  · rcases ha with rfl | rfl <;> exact .inl rfl
  · rcases ha with rfl | rfl <;> exact .inl rfl
  · rcases ha with rfl | rfl <;> exact .inl rfl
  · exact .inr ⟨ha, h6⟩
  · rcases ha with rfl | rfl <;> exact .inl rfl
  · exact .inl (ha ▸ h8)
  · have key : ∀ d : Fin 16, isPlain (Nat.digitChar d.val).toUpper = true := by decide
    have hlt := (UInt8.ofNat c.toNat).toNat_lt
    simp only [Hex.ofByte, List.map_cons, List.map_nil, List.cons_append, List.nil_append,
      List.mem_cons, List.not_mem_nil, or_false] at ha
    rcases ha with rfl | rfl | rfl | rfl | rfl | rfl
    · exact .inl rfl
    · exact .inl rfl
    · exact .inl rfl
    · exact .inl rfl
    · exact .inl (key ⟨(UInt8.ofNat c.toNat).toNat / 16, by omega⟩)
    · exact .inl (key ⟨(UInt8.ofNat c.toNat).toNat % 16, by omega⟩)

theorem isPlain_escape {a : Char} (ha : a ∈ escape m run cs) :
    isPlain a = true ∨ a = '\n' ∧ '\n' ∈ cs := by
  induction cs generalizing run with
  | nil => cases ha
  | cons c r ih =>
    have htail {run : ℕ} (ha : a ∈ escape m run r) : isPlain a = true ∨ a = '\n' ∧ '\n' ∈ c :: r :=
      (ih ha).imp id fun h => ⟨h.1, List.mem_cons_of_mem _ h.2⟩
    unfold escape at ha
    split_ifs at ha with hc hrun
    · rcases List.mem_cons.1 ha with rfl | ha
      · exact .inl rfl
      · exact htail ha
    · rcases List.mem_cons.1 ha with rfl | ha
      · exact .inl rfl
      · rcases List.mem_cons.1 ha with rfl | ha
        · exact .inl rfl
        · exact htail ha
    · rcases List.mem_append.1 ha with ha | ha
      · rcases isPlain_escapeChar ha with hplain | ⟨rfl, rfl⟩
        · exact .inl hplain
        · exact .inr ⟨rfl, List.mem_cons_self⟩
      · exact htail ha

/-- No control character stands in a string, unless the text has lines. -/
theorem Holds.isPlain_content (h : t.Holds cs) {a : Char} (ha : a ∈ t.content cs) :
    isPlain a = true ∨ a = '\n' ∧ '\n' ∈ cs := by
  unfold content at ha
  split_ifs at ha with ht
  · exact isPlain_escape ha
  · exact (h.plain (by simpa using ht) a ha).imp id fun hn => ⟨hn, hn ▸ ha⟩

theorem encode_eq (t : Style) (cs : List Char) :
    t.encode cs = t.delimiter ++ ((if t.multiline && cs.contains '\n' then ['\n'] else []) ++
      (t.content cs ++ t.delimiter)) := by
  simp [encode, content]

end Style

/-- The first character behind the opening quotes is no line end, unless one was put there. -/
theorem dropLineEnd_content {t : Style} {cs : List Char} (h : t.Holds cs) (ht : t.multiline = true)
    (rest : List Char) :
    dropLineEnd ((if t.multiline && cs.contains '\n' then ['\n'] else []) ++
      (t.content cs ++ (t.delimiter ++ rest))) = t.content cs ++ (t.delimiter ++ rest) := by
  by_cases hlines : '\n' ∈ cs
  · simp [ht, hlines, dropLineEnd]
  · rw [if_neg (by simp [hlines]), List.nil_append]
    cases hcontent : t.content cs with
    | nil =>
      unfold Style.delimiter Style.quote
      rw [ht]
      cases t.escapes <;> rfl
    | cons a r =>
      have ha := h.isPlain_content (a := a) (by simp [hcontent])
      have hne : a ≠ '\n' := by
        rintro rfl
        rcases ha with ha | ha
        · cases ha
        · exact hlines ha.2
      simp [dropLineEnd, hne]

theorem scanString_lines {t : Style} (ht : t.multiline = true) (s : List Char) :
    scanString (t.delimiter ++ s) = t.scan .plain [] (dropLineEnd s) := by
  obtain ⟨escapes, m⟩ := t
  obtain rfl : m = true := ht
  cases escapes <;> rfl

theorem scanString_line {t : Style} (ht : t.multiline = false) {s : List Char}
    (hs : ∀ r, s ≠ t.quote :: t.quote :: r) : scanString (t.delimiter ++ s) = t.scan .plain [] s := by
  have hline : scanString (t.delimiter ++ s) = scanLineString (t.delimiter ++ s) := by
    obtain ⟨escapes, m⟩ := t
    obtain rfl : m = false := ht
    unfold scanString
    split
    · next r heq =>
      cases escapes
      · cases heq
      · exact absurd (List.cons.inj heq).2 (hs r)
    · next r heq =>
      cases escapes
      · exact absurd (List.cons.inj heq).2 (hs r)
      · cases heq
    · rfl
  rw [hline]
  obtain ⟨escapes, m⟩ := t
  obtain rfl : m = false := ht
  cases escapes <;> rfl

/-- A string is found in every style that can hold its text, whatever comes behind it. -/
theorem scanString_encode {t : Style} {cs rest : List Char} (h : t.Holds cs) (hrest : t.Ends rest) :
    scanString (t.encode cs ++ rest) = some (cs, rest) := by
  have hscan := h.body.scan (Nat.zero_le 2) hrest []
  cases ht : t.multiline with
  | true =>
    rw [Style.encode_eq, List.append_assoc, scanString_lines ht]
    simp only [List.append_assoc]
    rw [dropLineEnd_content h ht]
    exact hscan
  | false =>
    have hclose : t.delimiter = [t.quote] := by simp [Style.delimiter, ht]
    rw [Style.encode_eq, List.append_assoc, scanString_line ht]
    · simpa [ht] using hscan
    · -- Three quotes in a row would mean that the text or the rest begins with one.
      intro r hr
      have hends := h.body.ends ht
      rw [hclose, ht, Bool.false_and, if_neg Bool.false_ne_true, List.nil_append] at hr
      cases hcontent : t.content cs with
      | nil =>
        rw [hcontent] at hr
        obtain rfl : rest = t.quote :: r := (List.cons.inj hr).2
        exact hrest t.quote rfl rfl
      | cons a b =>
        rw [hcontent] at hr hends
        exact hends a rfl (List.cons.inj hr).1

/-- A text in its own style is read back. -/
theorem scanString_encode_best (cs : List Char) {rest : List Char}
    (hrest : ∀ a ∈ rest.head?, a ≠ '"' ∧ a ≠ '\'') :
    scanString ((Style.best cs).encode cs ++ rest) = some (cs, rest) := by
  refine scanString_encode (Style.holds_best cs) fun a ha => ?_
  unfold Style.quote
  split_ifs
  · exact (hrest a ha).1
  · exact (hrest a ha).2

/-- A string holds no control characters but tabs and line ends. -/
theorem isPlain_encode_best {cs : List Char} {a : Char} (ha : a ∈ (Style.best cs).encode cs) :
    isPlain a = true ∨ a = '\n' := by
  have hquote : ∀ b ∈ (Style.best cs).delimiter, isPlain b = true := by
    intro b hb
    rw [List.eq_of_mem_replicate hb]
    unfold Style.quote
    split_ifs <;> rfl
  rw [Style.encode_eq, List.mem_append, List.mem_append, List.mem_append] at ha
  rcases ha with ha | ha | ha | ha
  · exact .inl (hquote a ha)
  · split_ifs at ha
    · exact .inr (List.mem_singleton.1 ha)
    · cases ha
  · exact ((Style.holds_best cs).isPlain_content ha).imp id And.left
  · exact .inl (hquote a ha)

theorem head?_encode_best (cs : List Char) :
    ((Style.best cs).encode cs).head? = some '"' ∨ ((Style.best cs).encode cs).head? = some '\'' := by
  rw [Style.encode_eq]
  unfold Style.delimiter Style.quote
  cases (Style.best cs).escapes <;> cases (Style.best cs).multiline <;> simp

end PullIngest.Toml
