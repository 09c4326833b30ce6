import Mathlib.Data.List.TakeWhile
import PullIngest.Proofs.Json.Documents

/-!
# The parser reads documents and nothing else

What the parser finds in a text follows the grammar, and its text is what the parser has read, to
the character. A text is read as a document if and only if it is that document between blanks.

* `scanString_eq_some`, `scanNumber_eq_some`, `exists_scanBlanks`, `scanKey_eq_some`: the parts;
* `Consumes`, `consumes`: values, elements and members, for any fuel;
* `Spells`, `ofText?_eq_some_iff_spells`: texts.
-/

namespace PullIngest.Json

/-! ### Strings -/

/-- What may come up to the closing quote when a reader stands inside a string body. -/
def Remainder : Mode → List Char → Prop
  | .plain, cs => Body cs
  | .escaped, cs => Body ('\\' :: cs)
  | .unicode missing _, cs => ∃ ds r, cs = ds ++ r ∧ ds.length = max missing 1 ∧
      (∀ d ∈ ds, (Hex.value? d).isSome = true) ∧ Body r

theorem mem_of_isSome_escapeLetter? {c : Char} (h : (escapeLetter? c).isSome = true) :
    c ∈ ['"', '\\', '/', 'b', 'f', 'n', 'r', 't'] := by
  unfold escapeLetter? at h
  split at h <;> simp at h ⊢

/-- A string is read up to the quote that closes it. -/
theorem scanString_eq_some {mode : Mode} {done s body r : List Char}
    (h : scanString mode done s = some (body, r)) :
    ∃ cs, body = done.reverse ++ cs ∧ s = cs ++ '"' :: r ∧ Remainder mode cs := by
  induction s generalizing mode done with
  | nil => cases h
  | cons c s ih =>
    cases mode with
    | plain =>
      rw [scanString] at h
      split_ifs at h with hquote hslash hcontrol
      · obtain ⟨rfl, rfl⟩ : done.reverse = body ∧ s = r := by simpa using h
        exact ⟨[], by simp, by simp [hquote], .nil⟩
      · obtain ⟨cs, rfl, rfl, hcs⟩ := ih h
        exact ⟨c :: cs, by simp, by simp, hslash ▸ hcs⟩
      · obtain ⟨cs, rfl, rfl, hcs⟩ := ih h
        exact ⟨c :: cs, by simp, by simp, .plain hquote hslash (Nat.le_of_not_lt hcontrol) hcs⟩
    | escaped =>
      rw [scanString] at h
      split_ifs at h with hu hletter
      · obtain ⟨cs, rfl, rfl, ds, t, rfl, hlen, hds, ht⟩ := ih h
        refine ⟨c :: (ds ++ t), by simp, by simp, ?_⟩
        obtain ⟨d₁, d₂, d₃, d₄, rfl⟩ : ∃ d₁ d₂ d₃ d₄, ds = [d₁, d₂, d₃, d₄] := by
          rcases ds with _ | ⟨d₁, _ | ⟨d₂, _ | ⟨d₃, _ | ⟨d₄, _ | _⟩⟩⟩⟩ <;> simp at hlen ⊢
        exact hu ▸ .unicode hds ht
      · obtain ⟨cs, rfl, rfl, hcs⟩ := ih h
        exact ⟨c :: cs, by simp, by simp, .letter (mem_of_isSome_escapeLetter? hletter) hcs⟩
    | unicode missing value =>
      rw [scanString] at h
      split_ifs at h with hdigit hlast
      · obtain ⟨cs, rfl, rfl, hcs⟩ := ih h
        refine ⟨c :: cs, by simp, by simp, [c], cs, rfl, ?_, by simpa using hdigit, hcs⟩
        rw [List.length_singleton]
        omega
      · obtain ⟨cs, rfl, rfl, ds, t, rfl, hlen, hds, ht⟩ := ih h
        refine ⟨c :: (ds ++ t), by simp, by simp, c :: ds, t, rfl, ?_, ?_, ht⟩
        · rw [List.length_cons]
          omega
        · rw [List.forall_mem_cons]
          exact ⟨hdigit, hds⟩

/-! ### Numbers -/

theorem span_eq {p : Char → Bool} {s ds r : List Char} (h : s.span p = (ds, r)) :
    s = ds ++ r ∧ ∀ d ∈ ds, p d = true := by
  rw [List.span_eq_takeWhile_dropWhile] at h
  obtain ⟨rfl, rfl⟩ : s.takeWhile p = ds ∧ s.dropWhile p = r := by simpa using h
  exact ⟨List.takeWhile_append_dropWhile.symm, fun d hd => List.mem_takeWhile_imp hd⟩

theorem scanSign_eq {s sign r : List Char} (h : scanSign s = (sign, r)) :
    s = sign ++ r ∧ sign ∈ [[], ['-']] := by
  unfold scanSign at h
  split at h <;> cases h <;> simp

theorem scanWhole_eq_some {s ds r : List Char} (h : scanWhole s = some (ds, r)) :
    s = ds ++ r ∧ Whole ds := by
  unfold scanWhole at h
  split at h
  · cases h
  · cases h
  · next ds' r' hne hzero hspan =>
    obtain ⟨rfl, rfl⟩ : ds' = ds ∧ r' = r := by simpa using h
    obtain ⟨hs, hds⟩ := span_eq hspan
    refine ⟨hs, ⟨hne, hds⟩, fun hhead => ?_⟩
    obtain ⟨t, rfl⟩ := List.head?_eq_some_iff.1 hhead
    cases t with
    | nil => rfl
    | cons d t => exact (hzero d t rfl).elim

theorem scanFraction_eq_some {s f r : List Char} (h : scanFraction s = some (f, r)) :
    s = f ++ r ∧ Fraction f := by
  unfold scanFraction at h
  split at h
  · split at h
    · cases h
    · next hne hspan =>
      obtain ⟨hs, hds⟩ := span_eq hspan
      cases h
      exact ⟨by rw [hs]; rfl, .some ⟨hne, hds⟩⟩
  · cases h
    exact ⟨rfl, .none⟩

theorem scanExponentSign_eq {s sign r : List Char} (h : scanExponentSign s = (sign, r)) :
    s = sign ++ r ∧ sign ∈ [[], ['+'], ['-']] := by
  unfold scanExponentSign at h
  split at h
  · cases h
    simp
  · obtain ⟨hs, hsign⟩ := scanSign_eq h
    refine ⟨hs, ?_⟩
    simp only [List.mem_cons, List.not_mem_nil, or_false] at hsign ⊢
    tauto

theorem scanExponent_eq_some {s e r : List Char} (h : scanExponent s = some (e, r)) :
    s = e ++ r ∧ Exponent e := by
  unfold scanExponent at h
  split at h
  · next c t =>
    split_ifs at h with he
    · cases hscan : scanExponentSign t with
      | mk sign t' =>
        obtain ⟨rfl, hsign⟩ := scanExponentSign_eq hscan
        rw [hscan] at h
        dsimp only at h
        split at h
        · cases h
        · next hne hspan =>
          obtain ⟨rfl, hds⟩ := span_eq hspan
          cases h
          exact ⟨by simp, .some he hsign ⟨hne, hds⟩⟩
    · cases h
      exact ⟨rfl, .none⟩
  · cases h
    exact ⟨rfl, .none⟩

/-- A number is read to its end. -/
theorem scanNumber_eq_some {s literal r : List Char} (h : scanNumber s = some (literal, r)) :
    s = literal ++ r ∧ Number literal := by
  unfold scanNumber at h
  cases hscan : scanSign s with
  | mk sign r₀ =>
    rw [hscan] at h
    obtain ⟨⟨whole, r₁⟩, hwhole, h₁⟩ := Option.bind_eq_some_iff.1 h
    obtain ⟨⟨fraction, r₂⟩, hfraction, h₂⟩ := Option.bind_eq_some_iff.1 h₁
    obtain ⟨⟨exponent, r₃⟩, hexponent, h₃⟩ := Option.bind_eq_some_iff.1 h₂
    cases h₃
    obtain ⟨rfl, hs⟩ := scanSign_eq hscan
    obtain ⟨rfl, hw⟩ := scanWhole_eq_some hwhole
    obtain ⟨rfl, hf⟩ := scanFraction_eq_some hfraction
    obtain ⟨rfl, he⟩ := scanExponent_eq_some hexponent
    have hnumber := Number.mk hs hw hf he
    exact ⟨by simp, by simpa using hnumber⟩

/-! ### Blanks and keys -/

theorem exists_scanBlanks (s : List Char) :
    ∃ gap r, scanBlanks s = (gap, r) ∧ Blank gap ∧ s = gap ++ r := by
  cases h : scanBlanks s with
  | mk gap r =>
    obtain ⟨hs, hgap⟩ := span_eq h
    exact ⟨gap, r, rfl, hgap, hs⟩

theorem scanQuoted_eq_some {s body r : List Char} (h : scanQuoted s = some (body, r)) :
    s = quoted body ++ r ∧ Body body := by
  unfold scanQuoted at h
  split at h
  · obtain ⟨cs, rfl, rfl, hcs⟩ := scanString_eq_some h
    exact ⟨by simp [quoted], hcs⟩
  · cases h

/-- A key is read up to what comes behind its colon. -/
theorem scanKey_eq_some {before s r : List Char} {member : Value → List Char → Member Value}
    (h : scanKey before s = some (member, r)) :
    ∃ k ak bv, Body k ∧ Blank ak ∧ Blank bv ∧ s = quoted k ++ (ak ++ ':' :: (bv ++ r)) ∧
      member = fun v after => ⟨before, k, ak, bv, v, after⟩ := by
  unfold scanKey at h
  obtain ⟨⟨k, r₁⟩, hquoted, h₁⟩ := Option.bind_eq_some_iff.1 h
  obtain ⟨rfl, hk⟩ := scanQuoted_eq_some hquoted
  obtain ⟨ak, r₂, hblanks, hak, rfl⟩ := exists_scanBlanks r₁
  dsimp only at h₁
  rw [hblanks] at h₁
  dsimp only at h₁
  split at h₁
  · next r₃ =>
    obtain ⟨bv, r₄, hblanks', hbv, rfl⟩ := exists_scanBlanks r₃
    rw [hblanks'] at h₁
    cases h₁
    exact ⟨k, ak, bv, hk, hak, hbv, rfl, rfl⟩
  · cases h₁

/-! ### Documents -/

/-- With so much fuel the parser reads only what follows the grammar. -/
structure Consumes (fuel : ℕ) : Prop where
  value : ∀ (s : List Char) (v : Value) (r : List Char), scanValue fuel s = some (v, r) →
    v.Proper ∧ s = v.text ++ r
  items : ∀ (done : List (Item Value)) (s : List Char) (is : List (Item Value)) (r : List Char),
    scanItems fuel done s = some (is, r) →
    ∃ js, is = done.reverse ++ js ∧ ProperItems js ∧ s = itemsText js ++ ']' :: r
  members : ∀ (done : List (Member Value)) (s : List Char) (ms : List (Member Value))
    (r : List Char), scanMembers fuel done s = some (ms, r) →
    ∃ js, ms = done.reverse ++ js ∧ ProperMembers js ∧ s = membersText js ++ '\x7d' :: r

theorem Consumes.scanItems {fuel : ℕ} (h : Consumes fuel) {done : List (Item Value)}
    {s : List Char} {is : List (Item Value)} {r : List Char}
    (hscan : scanItems (fuel + 1) done s = some (is, r)) :
    ∃ js, is = done.reverse ++ js ∧ ProperItems js ∧ s = itemsText js ++ ']' :: r := by
  unfold Json.scanItems at hscan
  split at hscan
  · cases hscan
    exact ⟨[], by simp, trivial, by rw [itemsText]; rfl⟩
  · next r₀ =>
    obtain ⟨before, r₁, hblanks, hb, rfl⟩ := exists_scanBlanks r₀
    rw [hblanks] at hscan
    obtain ⟨⟨v, r₂⟩, hvalue, hscan₁⟩ := Option.bind_eq_some_iff.1 hscan
    obtain ⟨after, r₃, hblanks', ha, rfl⟩ := exists_scanBlanks r₂
    dsimp only at hscan₁
    rw [hblanks'] at hscan₁
    obtain ⟨hv, rfl⟩ := h.value _ _ _ hvalue
    obtain ⟨js, rfl, hjs, rfl⟩ := h.items _ _ _ _ hscan₁
    refine ⟨⟨before, v, after⟩ :: js, by simp, ⟨hb, hv, ha, hjs⟩, ?_⟩
    rw [itemsText]
    simp
  · cases hscan

theorem Consumes.scanMembers {fuel : ℕ} (h : Consumes fuel) {done : List (Member Value)}
    {s : List Char} {ms : List (Member Value)} {r : List Char}
    (hscan : scanMembers (fuel + 1) done s = some (ms, r)) :
    ∃ js, ms = done.reverse ++ js ∧ ProperMembers js ∧ s = membersText js ++ '\x7d' :: r := by
  unfold Json.scanMembers at hscan
  split at hscan
  · cases hscan
    exact ⟨[], by simp, trivial, by rw [membersText]; rfl⟩
  · next r₀ =>
    obtain ⟨before, r₁, hblanks, hb, rfl⟩ := exists_scanBlanks r₀
    rw [hblanks] at hscan
    obtain ⟨⟨member, r₂⟩, hkey, hscan₁⟩ := Option.bind_eq_some_iff.1 hscan
    obtain ⟨⟨v, r₃⟩, hvalue, hscan₂⟩ := Option.bind_eq_some_iff.1 hscan₁
    obtain ⟨after, r₄, hblanks', ha, rfl⟩ := exists_scanBlanks r₃
    dsimp only at hscan₂
    rw [hblanks'] at hscan₂
    obtain ⟨k, ak, bv, hk, hak, hbv, rfl, rfl⟩ := scanKey_eq_some hkey
    obtain ⟨hv, rfl⟩ := h.value _ _ _ hvalue
    obtain ⟨js, rfl, hjs, rfl⟩ := h.members _ _ _ _ hscan₂
    refine ⟨⟨before, k, ak, bv, v, after⟩ :: js, by simp,
      ⟨⟨hb, hk, hak, hbv⟩, hv, ha, hjs⟩, ?_⟩
    rw [membersText]
    simp
  · cases hscan

theorem Consumes.scanValue {fuel : ℕ} (h : Consumes fuel) {s : List Char} {v : Value}
    {r : List Char} (hscan : scanValue (fuel + 1) s = some (v, r)) :
    v.Proper ∧ s = v.text ++ r := by
  unfold Json.scanValue at hscan
  split at hscan
  · cases hscan
    exact ⟨trivial, by rw [Value.text]; rfl⟩
  · cases hscan
    exact ⟨trivial, by rw [Value.text]; rfl⟩
  · cases hscan
    exact ⟨trivial, by rw [Value.text]; rfl⟩
  · obtain ⟨⟨body, r₁⟩, hstring, hvalue⟩ := Option.map_eq_some_iff.1 hscan
    cases hvalue
    obtain ⟨cs, rfl, rfl, hcs⟩ := scanString_eq_some hstring
    exact ⟨hcs, by rw [Value.text, quoted]; simp⟩
  · next r₀ =>
    obtain ⟨gap, r₁, hblanks, hgap, rfl⟩ := exists_scanBlanks r₀
    rw [hblanks] at hscan
    dsimp only at hscan
    split at hscan
    · cases hscan
      exact ⟨hgap, by rw [Value.text]; simp⟩
    · obtain ⟨⟨v₁, r₂⟩, hvalue, hscan₁⟩ := Option.bind_eq_some_iff.1 hscan
      obtain ⟨after, r₃, hblanks', ha, rfl⟩ := exists_scanBlanks r₂
      dsimp only at hscan₁
      rw [hblanks'] at hscan₁
      obtain ⟨⟨rest, r₄⟩, hitems, hscan₂⟩ := Option.bind_eq_some_iff.1 hscan₁
      cases hscan₂
      obtain ⟨hv, rfl⟩ := h.value _ _ _ hvalue
      obtain ⟨js, rfl, hjs, rfl⟩ := h.items _ _ _ _ hitems
      refine ⟨⟨hgap, hv, ha, hjs⟩, ?_⟩
      rw [Value.text]
      simp
  · next r₀ =>
    obtain ⟨gap, r₁, hblanks, hgap, rfl⟩ := exists_scanBlanks r₀
    rw [hblanks] at hscan
    dsimp only at hscan
    split at hscan
    · cases hscan
      exact ⟨hgap, by rw [Value.text]; simp⟩
    · obtain ⟨⟨member, r₂⟩, hkey, hscan₁⟩ := Option.bind_eq_some_iff.1 hscan
      obtain ⟨⟨v₁, r₃⟩, hvalue, hscan₂⟩ := Option.bind_eq_some_iff.1 hscan₁
      obtain ⟨after, r₄, hblanks', ha, rfl⟩ := exists_scanBlanks r₃
      dsimp only at hscan₂
      rw [hblanks'] at hscan₂
      obtain ⟨⟨rest, r₅⟩, hmembers, hscan₃⟩ := Option.bind_eq_some_iff.1 hscan₂
      cases hscan₃
      obtain ⟨k, ak, bv, hk, hak, hbv, rfl, rfl⟩ := scanKey_eq_some hkey
      obtain ⟨hv, rfl⟩ := h.value _ _ _ hvalue
      obtain ⟨js, rfl, hjs, rfl⟩ := h.members _ _ _ _ hmembers
      refine ⟨⟨⟨hgap, hk, hak, hbv⟩, hv, ha, hjs⟩, ?_⟩
      rw [Value.text]
      simp
  · obtain ⟨⟨literal, r₁⟩, hnumber, hvalue⟩ := Option.map_eq_some_iff.1 hscan
    cases hvalue
    obtain ⟨rfl, hliteral⟩ := scanNumber_eq_some hnumber
    exact ⟨hliteral, by rw [Value.text]⟩

theorem consumes (fuel : ℕ) : Consumes fuel := by
  induction fuel with
  | zero => exact ⟨fun _ _ _ h => by simp [scanValue] at h, fun _ _ _ _ h => by simp [scanItems] at h,
      fun _ _ _ _ h => by simp [scanMembers] at h⟩
  | succ fuel ih => exact ⟨fun _ _ _ => ih.scanValue, fun _ _ _ _ => ih.scanItems,
      fun _ _ _ _ => ih.scanMembers⟩

/-! ### Texts -/

/-- A text is the given document, with blanks around it. -/
structure Spells (s : List Char) (v : Value) : Prop where
  proper : v.Proper
  around : ∃ gap gap', Blank gap ∧ Blank gap' ∧ s = gap ++ (v.text ++ gap')

theorem ends_of_blank {gap : List Char} (h : Blank gap) : Ends gap := by
  cases gap with
  | nil => exact fun _ hc => by cases hc
  | cons c gap => exact ends_cons_of_isBlank (h c List.mem_cons_self) gap

/-- **A text is read as a document if and only if it spells the document.** -/
theorem ofText?_eq_some_iff_spells {s : List Char} {v : Value} :
    Value.ofText? s = some v ↔ Spells s v := by
  constructor
  · intro h
    obtain ⟨gap, r, hblanks, hgap, rfl⟩ := exists_scanBlanks s
    unfold Value.ofText? at h
    rw [hblanks] at h
    dsimp only at h
    split at h
    · next v' gap' hvalue =>
      obtain ⟨hv, rfl⟩ := (consumes _).value _ _ _ hvalue
      split_ifs at h with hgap'
      cases h
      exact ⟨hv, gap, gap', hgap, List.all_eq_true.1 hgap', rfl⟩
    · cases h
  · rintro ⟨hv, gap, gap', hgap, hgap', rfl⟩
    have hvalue := (finds ((gap ++ (v.text ++ gap')).length + 1)).value v gap' hv
      (ends_of_blank hgap') (by simp only [List.length_append]; omega)
    unfold Value.ofText?
    rw [scanBlanks_blank hgap (v.head_text_append hv gap')]
    dsimp only
    rw [hvalue]
    dsimp only
    rw [if_pos (List.all_eq_true.2 hgap')]

end PullIngest.Json
