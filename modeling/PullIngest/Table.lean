/-!
# Tables

Association lists with at most one value for a key. A value that is set under a new key comes
last; one set under a known key keeps its place.
-/

namespace PullIngest

/-- Keys with their values, in the order in which the keys came. -/
structure Table (α β : Type) where
  pairs : List (α × β) := []

namespace Table

variable {α β : Type} [DecidableEq α]

/-- The table without keys. -/
def empty : Table α β := ⟨[]⟩

instance : Inhabited (Table α β) := ⟨empty⟩
instance : EmptyCollection (Table α β) := ⟨empty⟩

/-- The value of a key. -/
def get? (t : Table α β) (k : α) : Option β := (t.pairs.find? fun p => p.1 = k).map Prod.snd

/-- Whether a key has a value. -/
def has (t : Table α β) (k : α) : Bool := (t.get? k).isSome

/-- Give a key a value. -/
def set (t : Table α β) (k : α) (v : β) : Table α β :=
  ⟨if t.has k then t.pairs.map fun p => if p.1 = k then (k, v) else p else t.pairs ++ [(k, v)]⟩

/-- Take a key away. -/
def erase (t : Table α β) (k : α) : Table α β := ⟨t.pairs.filter fun p => p.1 ≠ k⟩

/-- Change the value of a key, if it has one. -/
def modify (t : Table α β) (k : α) (f : β → β) : Table α β :=
  match t.get? k with
  | some v => t.set k (f v)
  | none => t

/-- The keys in their order. -/
def keys (t : Table α β) : List α := t.pairs.map Prod.fst

/-- The values in the order of their keys. -/
def values (t : Table α β) : List β := t.pairs.map Prod.snd

/-- The number of keys. -/
def size (t : Table α β) : Nat := t.pairs.length

@[simp] theorem get?_empty (k : α) : (∅ : Table α β).get? k = none := rfl

theorem find?_map_replace (ps : List (α × β)) (k j : α) (v : β) :
    (ps.map fun p => if p.1 = k then (k, v) else p).find? (fun p => p.1 = j) =
      (ps.find? fun p => p.1 = j).map fun p => if p.1 = k then (k, v) else p := by
  induction ps with
  | nil => rfl
  | cons p ps ih =>
    by_cases hk : p.1 = k
    · by_cases hj : k = j
      · simp [hk, hj]
      · simpa [hk, hj] using ih
    · by_cases hj : p.1 = j
      · have : ¬ j = k := fun e => hk (hj.trans e)
        simp [hj, this]
      · simpa [hk, hj] using ih

theorem get?_set (t : Table α β) (k j : α) (v : β) :
    (t.set k v).get? j = if k = j then some v else t.get? j := by
  unfold set
  split
  · next h =>
    obtain ⟨w, hw⟩ := Option.isSome_iff_exists.1 h
    simp only [get?, find?_map_replace, Option.map_map] at hw ⊢
    obtain ⟨p, hp, _⟩ := Option.map_eq_some_iff.1 hw
    split
    · next e =>
      subst e
      have := List.find?_some hp
      simp [hp, of_decide_eq_true this]
    · next e =>
      cases hf : t.pairs.find? fun p => p.1 = j with
      | none => simp
      | some q =>
        have hq : q.1 = j := by simpa using List.find?_some hf
        have : ¬ q.1 = k := fun e' => e (e'.symm.trans hq)
        simp [this]
  · next h =>
    have hn : t.get? k = none := by simpa [has] using h
    have hn' : t.pairs.find? (fun p => p.1 = k) = none := by simpa [get?] using hn
    simp only [get?, List.find?_append]
    split
    · next e => subst e; simp [hn']
    · next e =>
      cases hf : t.pairs.find? fun p => p.1 = j <;> simp [e]

@[simp] theorem get?_set_self (t : Table α β) (k : α) (v : β) : (t.set k v).get? k = some v := by
  simp [get?_set]

theorem get?_set_ne (t : Table α β) {k j : α} (h : k ≠ j) (v : β) :
    (t.set k v).get? j = t.get? j := by
  simp [get?_set, h]

/-- A key that was not there is given a value and taken away again. -/
theorem erase_set {t : Table α β} {k : α} {v : β} (h : t.has k = false) :
    (t.set k v).erase k = t := by
  have hn : ∀ p ∈ t.pairs, p.1 ≠ k := by simpa [has, get?] using h
  have hkept : t.pairs.filter (fun p => p.1 ≠ k) = t.pairs :=
    List.filter_eq_self.2 fun p hp => decide_eq_true (hn p hp)
  unfold set erase
  rw [h, if_neg Bool.false_ne_true, List.filter_append, hkept]
  simp

theorem get?_erase (t : Table α β) (k j : α) :
    (t.erase k).get? j = if k = j then none else t.get? j := by
  simp only [get?, erase, List.find?_filter]
  split
  · next e => subst e; simp [List.find?_eq_none]
  · next e =>
    congr 2
    funext p
    by_cases hj : p.1 = j
    · have : ¬ j = k := fun e' => e e'.symm
      simp [hj, this]
    · simp [hj]

end Table

end PullIngest
