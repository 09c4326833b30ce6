import Mathlib.Data.List.Perm.Basic
import Mathlib.Logic.Relation
import PullIngest.Json.Record

/-!
# What the reader of a record does not see

Blanks, the order of members, members that no field goes by, and which of its names a field goes
by.

* `Value.squeeze`, `Respaced`: documents that differ in their blanks, and what every reader of
  single values makes of them;
* `Edit`, `Reworded`: changes to the members of an object;
* `fields?_perm`, `fields?_insert`, `fields?_rename`: the fields that are found are the same;
* `find?_alike`, `fields?_respaced`: fields when values are replaced;
* `fields?_doubled`: a field that is there twice is refused.
-/

namespace PullIngest.Json

/-! ### Blanks -/

mutual

/-- The document without its blanks. -/
def Value.squeeze : Value → Value
  | .null => .null
  | .bool b => .bool b
  | .number literal => .number literal
  | .string body => .string body
  | .emptyArray _ => .emptyArray []
  | .array ⟨_, v, _⟩ rest => .array ⟨[], v.squeeze, []⟩ (squeezeItems rest)
  | .emptyObject _ => .emptyObject []
  | .object ⟨_, k, _, _, v, _⟩ rest => .object ⟨[], k, [], [], v.squeeze, []⟩ (squeezeMembers rest)

/-- Elements without their blanks. -/
def squeezeItems : List (Item Value) → List (Item Value)
  | [] => []
  | ⟨_, v, _⟩ :: rest => ⟨[], v.squeeze, []⟩ :: squeezeItems rest

/-- Members without their blanks. -/
def squeezeMembers : List (Member Value) → List (Member Value)
  | [] => []
  | ⟨_, k, _, _, v, _⟩ :: rest => ⟨[], k, [], [], v.squeeze, []⟩ :: squeezeMembers rest

end

/-- The documents differ in their blanks alone. -/
def Respaced (v v' : Value) : Prop := v.squeeze = v'.squeeze

theorem squeezeItems_eq_map (is : List (Item Value)) :
    squeezeItems is = is.map fun i => ⟨[], i.value.squeeze, []⟩ := by
  induction is with
  | nil => rfl
  | cons i is ih =>
    obtain ⟨b, v, a⟩ := i
    rw [squeezeItems, ih, List.map_cons]

/-! ### Single values -/

@[simp] theorem squeeze_eq_null {v : Value} : v.squeeze = .null ↔ v = .null := by
  cases v with
  | null => exact Iff.rfl
  | _ => exact ⟨nofun, nofun⟩

@[simp] theorem chars?_squeeze (v : Value) : v.squeeze.chars? = v.chars? := by
  cases v <;> rfl

@[simp] theorem string?_squeeze (v : Value) : v.squeeze.string? = v.string? := by
  simp [Value.string?]

@[simp] theorem natural?_squeeze (v : Value) : v.squeeze.natural? = v.natural? := by
  cases v <;> rfl

@[simp] theorem uint64?_squeeze (v : Value) : v.squeeze.uint64? = v.uint64? := by
  simp [Value.uint64?]

@[simp] theorem int32?_squeeze (v : Value) : v.squeeze.int32? = v.int32? := by
  cases v <;> rfl

@[simp] theorem bool?_squeeze (v : Value) : v.squeeze.bool? = v.bool? := by
  cases v <;> rfl

@[simp] theorem variant?_squeeze (v : Value) : v.squeeze.variant? = v.variant? := by
  cases v with
  | object first rest =>
    obtain ⟨b, k, ak, bv, w, a⟩ := first
    cases rest <;> cases w <;> rfl
  | _ => rfl

/-! ### Members -/

/-- A member as a record's reader sees it. -/
def Member.named? (m : Member Value) : Option (List Char × Value) :=
  (unescape? m.key).map (·, m.value)

theorem members?_squeeze (v : Value) :
    v.squeeze.members? = v.members?.map (List.map (Prod.map id Value.squeeze)) := by
  have key : ∀ ms : List (Member Value),
      (squeezeMembers ms).mapM Member.named? =
        (ms.mapM Member.named?).map (List.map (Prod.map id Value.squeeze)) := by
    intro ms
    induction ms with
    | nil => rfl
    | cons m ms ih =>
      obtain ⟨b, k, ak, bv, v, a⟩ := m
      rw [squeezeMembers, List.mapM_cons, List.mapM_cons, ih]
      cases hk : unescape? k <;> cases hms : ms.mapM Member.named? <;> simp [Member.named?, hk]
  cases v with
  | object first rest =>
    obtain ⟨b, k, ak, bv, v, a⟩ := first
    exact key (⟨b, k, ak, bv, v, a⟩ :: rest)
  | _ => rfl

theorem items?_squeeze (v : Value) :
    v.squeeze.items? = v.items?.map (List.map Value.squeeze) := by
  cases v with
  | array first rest =>
    obtain ⟨b, w, a⟩ := first
    change some (w.squeeze :: (squeezeItems rest).map Item.value) =
      some (w.squeeze :: (rest.map Item.value).map Value.squeeze)
    rw [squeezeItems_eq_map, List.map_map, List.map_map]
    rfl
  | _ => rfl

/-- What stands under the names of a field. -/
def Field.values (f : Field) (ms : List (List Char × Value)) : List Value :=
  (ms.filter fun m => f.named m.1).map Prod.snd

/-- A field is found by what stands under its names. -/
theorem find?_eq (f : Field) (ms : List (List Char × Value)) :
    f.find? ms =
      match f.values ms with
      | [] => if f.presence = .required then none else some none
      | [v] => some (some v)
      | _ => none := by
  unfold Field.find? Field.values
  generalize ms.filter (fun m => f.named m.1) = found
  rcases found with _ | ⟨m, _ | ⟨m', found⟩⟩ <;> rfl

theorem find?_congr {f : Field} {ms ms' : List (List Char × Value)}
    (h : f.values ms = f.values ms') : f.find? ms = f.find? ms' := by
  rw [find?_eq, find?_eq, h]

theorem values_map (f : Field) (g : Value → Value) (ms : List (List Char × Value)) :
    f.values (ms.map (Prod.map id g)) = (f.values ms).map g := by
  unfold Field.values
  rw [List.filter_map, List.map_map, List.map_map]
  rfl

theorem find?_map (f : Field) (g : Value → Value) (ms : List (List Char × Value)) :
    f.find? (ms.map (Prod.map id g)) = (f.find? ms).map (Option.map g) := by
  rw [find?_eq, find?_eq, values_map]
  rcases f.values ms with _ | ⟨v, _ | ⟨v', vs⟩⟩
  · dsimp only [List.map_nil]
    split_ifs <;> rfl
  · rfl
  · rfl

theorem positional?_map (g : Value → Value) (fs : List Field) (vs : List Value) :
    positional? fs (vs.map g) = (positional? fs vs).map (List.map (Option.map g)) := by
  induction fs generalizing vs with
  | nil => cases vs <;> rfl
  | cons f fs ih =>
    cases vs with
    | nil =>
      have hnil : positional? fs [] = (positional? fs []).map (List.map (Option.map g)) := ih []
      simp only [List.map_nil, positional?]
      split_ifs
      · conv_lhs => rw [hnil]
        cases positional? fs [] <;> rfl
      · rfl
    | cons v vs =>
      simp only [List.map_cons, positional?, ih]
      cases positional? fs vs <;> rfl

theorem mapM_find?_map (g : Value → Value) (fs : List Field) (ms : List (List Char × Value)) :
    (fs.mapM fun f : Field => f.find? (ms.map (Prod.map id g))) =
      (fs.mapM fun f : Field => f.find? ms).map (List.map (Option.map g)) := by
  induction fs with
  | nil => rfl
  | cons f fs ih =>
    rw [List.mapM_cons, List.mapM_cons, ih, find?_map]
    cases f.find? ms <;> cases fs.mapM fun f : Field => f.find? ms <;> rfl

/-- The fields of a record without blanks are its fields without their blanks. -/
theorem fields?_squeeze (fs : List Field) (v : Value) :
    v.squeeze.fields? fs = (v.fields? fs).map (List.map (Option.map Value.squeeze)) := by
  unfold Value.fields?
  rw [members?_squeeze, items?_squeeze]
  cases v.members? with
  | some ms => exact mapM_find?_map Value.squeeze fs ms
  | none =>
    cases v.items? with
    | some vs => exact positional?_map Value.squeeze fs vs
    | none => rfl

/-! ### Objects -/

/-- The object with the given members. The blank is its inside when it has none. -/
def Value.braces (gap : List Char) : List (Member Value) → Value
  | [] => .emptyObject gap
  | m :: ms => .object m ms

theorem members?_braces (gap : List Char) (ms : List (Member Value)) :
    (Value.braces gap ms).members? = ms.mapM Member.named? := by
  cases ms <;> rfl

/-- The fields of an object are looked up among its members. -/
theorem fields?_braces (fs : List Field) (gap : List Char) (ms : List (Member Value)) :
    (Value.braces gap ms).fields? fs =
      (ms.mapM Member.named?).bind fun ms => fs.mapM fun f => f.find? ms := by
  unfold Value.fields?
  rw [members?_braces]
  cases ms.mapM Member.named? with
  | some ms => rfl
  | none => cases ms <;> rfl

/-- A member whose value is one that the name allows in place of the other's. -/
structure Member.Alike (alike : List Char → Value → Value → Prop) (m m' : Member Value) :
    Prop where
  key : m'.key = m.key
  value : ∀ name, unescape? m.key = some name → alike name m.value m'.value

/-- A change to the members of an object that must not change what is read from it: `fields` are
what the reader looks for, and `alike` says for each name which values may replace one another. -/
inductive Edit (fields : List Field) (alike : List Char → Value → Value → Prop) :
    Value → Value → Prop
  /-- The members change places. -/
  | permute {gap : List Char} {ms ms' : List (Member Value)} (h : ms.Perm ms') :
      Edit fields alike (.braces gap ms) (.braces gap ms')
  /-- A member that no field goes by comes in anywhere, with any value. -/
  | insert {gap : List Char} {before after : List (Member Value)} {m : Member Value}
      {name : List Char} (hname : unescape? m.key = some name)
      (hunknown : ∀ f ∈ fields, f.named name = false) :
      Edit fields alike (.braces gap (before ++ after)) (.braces gap (before ++ m :: after))
  /-- A member takes another name of its field. -/
  | rename {gap : List Char} {before after : List (Member Value)} {m : Member Value}
      {key name name' : List Char} (hname : unescape? m.key = some name)
      (hname' : unescape? key = some name') (hsame : ∀ f ∈ fields, f.named name' = f.named name) :
      Edit fields alike (.braces gap (before ++ m :: after))
        (.braces gap (before ++ { m with key } :: after))
  /-- The blanks change, and values as far as their names allow. -/
  | respace {gap gap' : List Char} {ms ms' : List (Member Value)}
      (h : List.Forall₂ (Member.Alike alike) ms ms') :
      Edit fields alike (.braces gap ms) (.braces gap' ms')

/-- Any number of changes, one after the other. -/
def Reworded (fields : List Field) (alike : List Char → Value → Value → Prop) :
    Value → Value → Prop := Relation.ReflTransGen (Edit fields alike)

/-! ### Changes that are not seen -/

theorem mapM_find?_congr {fs : List Field} {ps ps' : List (List Char × Value)}
    (h : ∀ f ∈ fs, f.find? ps = f.find? ps') :
    (fs.mapM fun f : Field => f.find? ps) = fs.mapM fun f : Field => f.find? ps' := by
  induction fs with
  | nil => rfl
  | cons f fs ih =>
    rw [List.mapM_cons, List.mapM_cons, h f (by simp), ih fun f' hf' => h f' (by simp [hf'])]

theorem find?_perm (f : Field) {ps ps' : List (List Char × Value)} (h : ps.Perm ps') :
    f.find? ps = f.find? ps' := by
  have hvalues : (f.values ps).Perm (f.values ps') := (h.filter _).map _
  rw [find?_eq, find?_eq]
  generalize f.values ps = vs at hvalues
  generalize f.values ps' = vs' at hvalues
  rcases vs with _ | ⟨v, _ | ⟨w, vs⟩⟩
  · rw [hvalues.nil_eq]
  · rw [List.singleton_perm.1 hvalues]
  · have hlength := hvalues.length_eq
    rcases vs' with _ | ⟨v', _ | ⟨w', vs'⟩⟩ <;> simp at hlength ⊢

theorem values_append (f : Field) (ps ps' : List (List Char × Value)) :
    f.values (ps ++ ps') = f.values ps ++ f.values ps' := by
  simp [Field.values]

theorem values_cons (f : Field) (p : List Char × Value) (ps : List (List Char × Value)) :
    f.values (p :: ps) = if f.named p.1 then p.2 :: f.values ps else f.values ps := by
  unfold Field.values
  rw [List.filter_cons]
  split_ifs <;> rfl

/-- All elements of a list are read, each by itself. -/
theorem mapM_eq_some_iff {α β : Type} {f : α → Option β} {xs : List α} {ys : List β} :
    xs.mapM f = some ys ↔ List.Forall₂ (fun x y => f x = some y) xs ys := by
  induction xs generalizing ys with
  | nil => simp [eq_comm]
  | cons x xs ih =>
    rw [List.mapM_cons, List.forall₂_cons_left_iff]
    constructor
    · intro h
      obtain ⟨y, hy, h₁⟩ := Option.bind_eq_some_iff.1 h
      obtain ⟨ys, hys, h₂⟩ := Option.bind_eq_some_iff.1 h₁
      cases h₂
      exact ⟨y, ys, hy, ih.1 hys, rfl⟩
    · rintro ⟨y, ys, hy, hys, rfl⟩
      rw [hy, ih.2 hys]
      rfl

theorem mem_of_mapM {α β : Type} {f : α → Option β} {xs : List α} {ys : List β}
    (h : xs.mapM f = some ys) {x : α} (hx : x ∈ xs) {y : β} (hy : f x = some y) : y ∈ ys := by
  have hall := mapM_eq_some_iff.1 h
  clear h
  induction hall with
  | nil => cases hx
  | @cons x' y' xs ys hxy _ ih =>
    rcases List.mem_cons.1 hx with rfl | hx
    · rw [hy] at hxy
      exact Option.some.inj hxy ▸ List.mem_cons_self
    · exact List.mem_cons_of_mem y' (ih hx)

theorem exists_of_mem_mapM {α β : Type} {f : α → Option β} {xs : List α} {ys : List β}
    (h : xs.mapM f = some ys) {y : β} (hy : y ∈ ys) : ∃ x ∈ xs, f x = some y := by
  have hall := mapM_eq_some_iff.1 h
  clear h
  induction hall with
  | nil => cases hy
  | @cons x y' xs ys hxy _ ih =>
    rcases List.mem_cons.1 hy with rfl | hy
    · exact ⟨x, List.mem_cons_self, hxy⟩
    · obtain ⟨x', hx', hread⟩ := ih hy
      exact ⟨x', List.mem_cons_of_mem x hx', hread⟩

/-- Two objects have the same fields if what is read of their members finds the same. -/
theorem fields?_braces_congr {fs : List Field} {gap gap' : List Char} {ms ms' : List (Member Value)}
    (h : ∀ ps, ms.mapM Member.named? = some ps →
      ∃ ps', ms'.mapM Member.named? = some ps' ∧ ∀ f ∈ fs, f.find? ps = f.find? ps')
    (h' : ∀ ps', ms'.mapM Member.named? = some ps' → ∃ ps, ms.mapM Member.named? = some ps) :
    (Value.braces gap ms).fields? fs = (Value.braces gap' ms').fields? fs := by
  rw [fields?_braces, fields?_braces]
  cases hms : ms.mapM Member.named? with
  | some ps =>
    obtain ⟨ps', hms', hfind⟩ := h ps hms
    rw [hms']
    exact mapM_find?_congr hfind
  | none =>
    cases hms' : ms'.mapM Member.named? with
    | some ps' =>
      obtain ⟨ps, hps⟩ := h' ps' hms'
      rw [hms] at hps
      cases hps
    | none => rfl

theorem fields?_perm (fs : List Field) (gap : List Char) {ms ms' : List (Member Value)}
    (h : ms.Perm ms') : (Value.braces gap ms).fields? fs = (Value.braces gap ms').fields? fs := by
  have key : ∀ {ms ms' : List (Member Value)}, ms.Perm ms' → ∀ ps, ms.mapM Member.named? = some ps →
      ∃ ps', ms'.mapM Member.named? = some ps' ∧ ps.Perm ps' := by
    intro ms ms' h ps hps
    obtain ⟨ps', hps', hperm⟩ := List.perm_comp_forall₂ h.symm (mapM_eq_some_iff.1 hps)
    exact ⟨ps', mapM_eq_some_iff.2 hps', hperm.symm⟩
  refine fields?_braces_congr (fun ps hps => ?_) fun ps' hps' => ?_
  · obtain ⟨ps', hps', hperm⟩ := key h ps hps
    exact ⟨ps', hps', fun f _ => find?_perm f hperm⟩
  · obtain ⟨ps, hps, -⟩ := key h.symm ps' hps'
    exact ⟨ps, hps⟩

theorem mapM_named?_append {before after : List (Member Value)} :
    (before ++ after).mapM Member.named? =
      (before.mapM Member.named?).bind fun bs =>
        (after.mapM Member.named?).bind fun as => some (bs ++ as) := by
  rw [List.mapM_append]
  rfl

theorem mapM_named?_middle {before after : List (Member Value)} {m : Member Value}
    {name : List Char} (hname : unescape? m.key = some name) :
    (before ++ m :: after).mapM Member.named? =
      (before.mapM Member.named?).bind fun bs =>
        (after.mapM Member.named?).bind fun as => some (bs ++ (name, m.value) :: as) := by
  have hm : m.named? = some (name, m.value) := by rw [Member.named?, hname]; rfl
  rw [mapM_named?_append, List.mapM_cons, hm]
  cases before.mapM Member.named? <;> cases after.mapM Member.named? <;> rfl

theorem fields?_insert {fs : List Field} (gap : List Char) {before after : List (Member Value)}
    {m : Member Value} {name : List Char} (hname : unescape? m.key = some name)
    (hunknown : ∀ f ∈ fs, f.named name = false) :
    (Value.braces gap (before ++ after)).fields? fs =
      (Value.braces gap (before ++ m :: after)).fields? fs := by
  rw [fields?_braces, fields?_braces, mapM_named?_append, mapM_named?_middle hname]
  cases before.mapM Member.named? with
  | none => rfl
  | some bs =>
    cases after.mapM Member.named? with
    | none => rfl
    | some as =>
      refine mapM_find?_congr fun f hf => find?_congr ?_
      rw [values_append, values_append, values_cons, hunknown f hf]
      simp

theorem fields?_rename {fs : List Field} (gap : List Char) {before after : List (Member Value)}
    {m : Member Value} {key name name' : List Char} (hname : unescape? m.key = some name)
    (hname' : unescape? key = some name') (hsame : ∀ f ∈ fs, f.named name' = f.named name) :
    (Value.braces gap (before ++ m :: after)).fields? fs =
      (Value.braces gap (before ++ { m with key } :: after)).fields? fs := by
  rw [fields?_braces, fields?_braces, mapM_named?_middle hname, mapM_named?_middle hname']
  cases before.mapM Member.named? with
  | none => rfl
  | some bs =>
    cases after.mapM Member.named? with
    | none => rfl
    | some as =>
      refine mapM_find?_congr fun f hf => find?_congr ?_
      rw [values_append, values_append, values_cons, values_cons, hsame f hf]

/-! ### Values that replace one another -/

/-- Where one object has a field, the other has it with a value that is allowed in its place. -/
theorem find?_alike {alike : List Char → Value → Value → Prop} {ps ps' : List (List Char × Value)}
    (h : List.Forall₂ (fun p p' => p'.1 = p.1 ∧ alike p.1 p.2 p'.2) ps ps') (f : Field) :
    Option.Rel (Option.Rel fun v v' => ∃ name, f.named name = true ∧ alike name v v')
      (f.find? ps) (f.find? ps') := by
  have hvalues : List.Forall₂ (fun v v' => ∃ name, f.named name = true ∧ alike name v v')
      (f.values ps) (f.values ps') := by
    induction h with
    | nil => exact .nil
    | @cons p p' ps ps' hp h ih =>
      obtain ⟨hname, halike⟩ := hp
      rw [values_cons, values_cons, hname]
      split_ifs with hnamed
      · exact .cons ⟨p.1, hnamed, halike⟩ ih
      · exact ih
  rw [find?_eq, find?_eq]
  generalize f.values ps = vs at hvalues
  generalize f.values ps' = vs' at hvalues
  rcases hvalues with _ | ⟨hv, _ | _⟩
  · dsimp only
    split_ifs
    · exact .none
    · exact .some .none
  · exact .some (.some hv)
  · exact .none

/-- The members of objects whose members are alike. -/
theorem mapM_named?_alike {alike : List Char → Value → Value → Prop} {ms ms' : List (Member Value)}
    (h : List.Forall₂ (Member.Alike alike) ms ms') :
    Option.Rel (List.Forall₂ fun p p' => p'.1 = p.1 ∧ alike p.1 p.2 p'.2)
      (ms.mapM Member.named?) (ms'.mapM Member.named?) := by
  induction h with
  | nil => exact .some .nil
  | @cons m m' ms ms' hm h ih =>
    rw [List.mapM_cons, List.mapM_cons, Member.named?, Member.named?, hm.key]
    cases hname : unescape? m.key with
    | none => exact .none
    | some name =>
      generalize ms.mapM Member.named? = read at ih
      generalize ms'.mapM Member.named? = read' at ih
      cases ih with
      | none => exact .none
      | some hps => exact .some (.cons ⟨rfl, hm.value name hname⟩ hps)

/-- Values found for the same fields, of which those in the one list may replace those in the other. -/
inductive FoundAlike (alike : List Char → Value → Value → Prop) :
    List Field → List (Option Value) → List (Option Value) → Prop
  | nil : FoundAlike alike [] [] []
  | cons {f : Field} {fs : List Field} {x x' : Option Value} {xs xs' : List (Option Value)}
      (h : Option.Rel (fun v v' => ∃ name, f.named name = true ∧ alike name v v') x x')
      (hs : FoundAlike alike fs xs xs') : FoundAlike alike (f :: fs) (x :: xs) (x' :: xs')

theorem mapM_find?_alike {alike : List Char → Value → Value → Prop}
    {ps ps' : List (List Char × Value)}
    (h : List.Forall₂ (fun p p' => p'.1 = p.1 ∧ alike p.1 p.2 p'.2) ps ps') (fs : List Field) :
    Option.Rel (FoundAlike alike fs) (fs.mapM fun f : Field => f.find? ps)
      (fs.mapM fun f : Field => f.find? ps') := by
  induction fs with
  | nil => exact .some .nil
  | cons f fs ih =>
    rw [List.mapM_cons, List.mapM_cons]
    have hf := find?_alike h f
    generalize f.find? ps = x at hf
    generalize f.find? ps' = x' at hf
    generalize (fs.mapM fun f : Field => f.find? ps) = xs at ih
    generalize (fs.mapM fun f : Field => f.find? ps') = xs' at ih
    cases hf with
    | none => exact .none
    | some hf =>
      cases ih with
      | none => exact .none
      | some hs => exact .some (.cons hf hs)

/-- The fields of objects whose members are alike. -/
theorem fields?_alike {alike : List Char → Value → Value → Prop} (fs : List Field)
    (gap gap' : List Char) {ms ms' : List (Member Value)}
    (h : List.Forall₂ (Member.Alike alike) ms ms') :
    Option.Rel (FoundAlike alike fs) ((Value.braces gap ms).fields? fs)
      ((Value.braces gap' ms').fields? fs) := by
  rw [fields?_braces, fields?_braces]
  have hread := mapM_named?_alike h
  generalize ms.mapM Member.named? = read at hread
  generalize ms'.mapM Member.named? = read' at hread
  cases hread with
  | none => exact .none
  | some hps => exact mapM_find?_alike hps fs

/-- When only blanks may change, the fields are the same but for their blanks. -/
theorem fields?_respaced (fs : List Field) (gap gap' : List Char) {ms ms' : List (Member Value)}
    (h : List.Forall₂ (Member.Alike fun _ => Respaced) ms ms') :
    ((Value.braces gap ms).fields? fs).map (List.map (Option.map Value.squeeze)) =
      ((Value.braces gap' ms').fields? fs).map (List.map (Option.map Value.squeeze)) := by
  have hfields := fields?_alike fs gap gap' h
  generalize (Value.braces gap ms).fields? fs = found at hfields
  generalize (Value.braces gap' ms').fields? fs = found' at hfields
  cases hfields with
  | none => rfl
  | some hfound =>
    refine congrArg some ?_
    induction hfound with
    | nil => rfl
    | cons hx _ ih =>
      rw [List.map_cons, List.map_cons, ih]
      cases hx with
      | none => rfl
      | some hv =>
        obtain ⟨_, -, hv⟩ := hv
        rw [Option.map_some, hv, Option.map_some]

/-! ### Fields that are there twice -/

/-- A field with a second value among the members is refused. -/
theorem find?_doubled {f : Field} {before after : List (List Char × Value)} {p q : List Char × Value}
    (hp : f.named p.1 = true) (hq : q ∈ before ++ after) (hnamed : f.named q.1 = true) :
    f.find? (before ++ p :: after) = none := by
  have hmem : q.2 ∈ f.values before ++ f.values after := by
    rw [← values_append, Field.values]
    exact List.mem_map_of_mem (List.mem_filter.2 ⟨hq, by simpa using hnamed⟩)
  rw [find?_eq, values_append, values_cons, if_pos hp]
  generalize f.values before = vs at hmem
  generalize f.values after = ws at hmem
  rcases vs with _ | ⟨v, _ | ⟨v', vs⟩⟩
  · rcases ws with _ | ⟨w, ws⟩
    · cases hmem
    · rfl
  · rfl
  · rfl

theorem mapM_find?_eq_none {fs : List Field} {f : Field} (hf : f ∈ fs)
    {ps : List (List Char × Value)} (h : f.find? ps = none) :
    (fs.mapM fun f : Field => f.find? ps) = none := by
  induction fs with
  | nil => cases hf
  | cons g fs ih =>
    rw [List.mapM_cons]
    rcases List.mem_cons.1 hf with rfl | hf
    · rw [h]
      rfl
    · rw [ih hf]
      cases g.find? ps <;> rfl

/-- An object in which two members go by names of one field is no record. -/
theorem fields?_doubled {fs : List Field} {f : Field} (hf : f ∈ fs) (gap : List Char)
    {before after : List (Member Value)} {m m' : Member Value} {name name' : List Char}
    (hm : m ∈ before ++ after) (hname : unescape? m.key = some name)
    (hname' : unescape? m'.key = some name') (hnamed : f.named name = true)
    (hnamed' : f.named name' = true) :
    (Value.braces gap (before ++ m' :: after)).fields? fs = none := by
  rw [fields?_braces, mapM_named?_middle hname']
  cases hbefore : before.mapM Member.named? with
  | none => rfl
  | some bs =>
    cases hafter : after.mapM Member.named? with
    | none => rfl
    | some as =>
      have hread : m.named? = some (name, m.value) := by rw [Member.named?, hname]; rfl
      have hmem : (name, m.value) ∈ bs ++ as := by
        rw [List.mem_append] at hm ⊢
        exact hm.imp (mem_of_mapM hbefore · hread) (mem_of_mapM hafter · hread)
      exact mapM_find?_eq_none hf (find?_doubled hnamed' hmem hnamed)

end PullIngest.Json
