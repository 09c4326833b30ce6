import Mathlib.Data.List.Basic
import PullIngest.Path

/-!
# Segments and steps of joined paths

A name without slashes that is joined to a base is the last segment of the path
(`segments_join_of_no_slash`), and the last step of any name is that of the path
(`fileName?_join`). Slashes that are doubled and dots between slashes lead nowhere, also
below a base (`components_join_double`, `components_join_dot`). The steps of any name come behind
those of the base (`components_join`), and a path that is written with given steps has these steps
(`components_ofComponents`), so that its parent has all of them but the last (`parent?_eq_some`).
-/

namespace PullIngest.Path

theorem segments_ne_nil (path : List Char) : segments path ≠ [] := by
  cases path with
  | nil => simp [segments]
  | cons c path =>
    unfold segments
    split_ifs
    · simp
    · split <;> simp

theorem segments_cons_of_ne {c : Char} (hc : c ≠ '/') (path : List Char) {s : List Char}
    {ss : List (List Char)} (h : segments path = s :: ss) :
    segments (c :: path) = (c :: s) :: ss := by
  unfold segments
  rw [if_neg hc, h]

/-- A slash ends a segment and begins the next one. -/
theorem segments_append_slash (before after : List Char) :
    segments (before ++ '/' :: after) = segments before ++ segments after := by
  induction before with
  | nil => simp [segments]
  | cons c before ih =>
    by_cases hc : c = '/'
    · subst hc
      simp [segments, ih]
    · obtain ⟨s, ss, hs⟩ := List.exists_cons_of_ne_nil (segments_ne_nil before)
      rw [segments_cons_of_ne hc before hs, List.cons_append, List.cons_append]
      exact segments_cons_of_ne hc _ (by rw [ih, hs, List.cons_append])

/-- A text without slashes is a single segment. -/
theorem segments_of_no_slash {name : List Char} (h : '/' ∉ name) : segments name = [name] := by
  induction name with
  | nil => rfl
  | cons c name ih =>
    simp only [List.mem_cons, not_or] at h
    exact segments_cons_of_ne (Ne.symm h.1) name (ih h.2)

/-- A text without slashes goes on with the last segment. -/
theorem segments_append_of_no_slash (path : List Char) {text : List Char} (h : '/' ∉ text) :
    ∃ before s, segments (path ++ text) = before ++ [s ++ text] := by
  induction path with
  | nil => exact ⟨[], [], segments_of_no_slash h⟩
  | cons c path ih =>
    obtain ⟨before, s, hseg⟩ := ih
    by_cases hc : c = '/'
    · subst hc
      exact ⟨[] :: before, s, by simp [segments, hseg]⟩
    · cases before with
      | nil => exact ⟨[], c :: s, segments_cons_of_ne hc _ hseg⟩
      | cons b before => exact ⟨(c :: b) :: before, s, segments_cons_of_ne hc _ hseg⟩

/-- The segments of a name are the last ones of the path below a base. -/
theorem segments_join (base : List Char) {name : List Char} (h : name.head? ≠ some '/') :
    ∃ before, segments (join base name) = before ++ segments name := by
  unfold join
  rw [if_neg h]
  split_ifs with hbase
  · -- The base is empty, or a slash ends it already.
    rcases List.eq_nil_or_concat base with rfl | ⟨before, c, rfl⟩
    · exact ⟨[], rfl⟩
    · obtain rfl : c = '/' := by simpa using hbase
      refine ⟨segments before, ?_⟩
      rw [List.concat_eq_append, List.append_assoc, List.singleton_append, segments_append_slash]
  · exact ⟨segments base, segments_append_slash base name⟩

/-- A name without slashes is the last segment of the path below a base. -/
theorem segments_join_of_no_slash (base : List Char) {name : List Char} (h : '/' ∉ name) :
    ∃ before, segments (join base name) = before ++ [name] := by
  have hhead : name.head? ≠ some '/' := fun he => h (List.mem_of_mem_head? he)
  obtain ⟨before, hseg⟩ := segments_join base hhead
  exact ⟨before, by rw [hseg, segments_of_no_slash h]⟩

/-! ### The last step -/

theorem normal_not_mem_start (path s : List Char) : Component.normal s ∉ start path := by
  unfold start
  split
  · split_ifs <;> simp
  · simp

/-- The last step of a path is that of the last segment that is a step. -/
theorem fileName?_eq_some {path s : List Char} :
    fileName? path = some s ↔ ((segments path).filterMap step?).getLast? = some (.normal s) := by
  have hlast : (components path).getLast? = some (.normal s) ↔
      ((segments path).filterMap step?).getLast? = some (.normal s) := by
    unfold components
    rw [List.getLast?_append]
    cases h : ((segments path).filterMap step?).getLast? with
    | some c => simp
    | none =>
      refine ⟨fun hs => absurd (List.mem_of_getLast? (by simpa using hs)) ?_, nofun⟩
      exact normal_not_mem_start path s
  rw [← hlast]
  unfold fileName?
  cases (components path).getLast? with
  | none => simp
  | some c => cases c <;> simp

/-- A path below a base has the last step of the name. -/
theorem fileName?_join (base : List Char) {name s : List Char} (h : fileName? name = some s) :
    fileName? (join base name) = some s := by
  by_cases hroot : name.head? = some '/'
  · unfold join
    rw [if_pos hroot]
    exact h
  · obtain ⟨before, hseg⟩ := segments_join base hroot
    rw [fileName?_eq_some] at h ⊢
    rw [hseg, List.filterMap_append, List.getLast?_append, h]
    rfl

/-- A last segment that is not empty and no dots is the last step. -/
theorem fileName?_of_segments {path s : List Char} {before : List (List Char)}
    (h : segments path = before ++ [s]) (hne : s ≠ []) (hdot : s ≠ dot) (hdots : s ≠ dotDot) :
    fileName? path = some s := by
  rw [fileName?_eq_some, h, List.filterMap_append, List.getLast?_append]
  simp [step?, hne, hdot, hdots]

/-! ### Spellings of one place -/

/-- The steps do not change when the segments behind a slash lead to the same steps. -/
theorem components_congr (before : List Char) {after after' : List Char}
    (h : (segments after).filterMap step? = (segments after').filterMap step?) :
    components (before ++ '/' :: after) = components (before ++ '/' :: after') := by
  have hstart : start (before ++ '/' :: after) = start (before ++ '/' :: after') := by
    obtain ⟨s, ss, hs⟩ := List.exists_cons_of_ne_nil (segments_ne_nil before)
    have hhead : (before ++ '/' :: after).head? = (before ++ '/' :: after').head? := by
      cases before <;> rfl
    unfold start
    rw [segments_append_slash, segments_append_slash, hs, List.cons_append, List.cons_append, hhead]
  unfold components
  rw [hstart, segments_append_slash, segments_append_slash, List.filterMap_append,
    List.filterMap_append, h]

/-- What stands before a slash in a name stands before it in the path as well. -/
theorem join_append (base before : List Char) :
    ∃ before', ∀ after, join base (before ++ '/' :: after) = before' ++ '/' :: after := by
  have hhead : ∀ after, (before ++ '/' :: after).head? = (before ++ ['/']).head? := by
    intro after
    cases before <;> rfl
  by_cases hroot : (before ++ ['/']).head? = some '/'
  · refine ⟨before, fun after => ?_⟩
    unfold join
    rw [hhead, if_pos hroot]
  · by_cases hbase : base = [] ∨ base.getLast? = some '/'
    · refine ⟨base ++ before, fun after => ?_⟩
      unfold join
      rw [hhead, if_neg hroot, if_pos hbase, List.append_assoc]
    · refine ⟨base ++ '/' :: before, fun after => ?_⟩
      unfold join
      rw [hhead, if_neg hroot, if_neg hbase, List.append_assoc, List.cons_append]

theorem components_join_double (base before after : List Char) :
    components (join base (before ++ '/' :: '/' :: after)) =
      components (join base (before ++ '/' :: after)) := by
  obtain ⟨before', h⟩ := join_append base before
  rw [h, h]
  exact components_congr before' (by simp [segments, step?])

theorem components_join_dot (base before after : List Char) :
    components (join base (before ++ '/' :: '.' :: '/' :: after)) =
      components (join base (before ++ '/' :: after)) := by
  obtain ⟨before', h⟩ := join_append base before
  rw [h, h]
  exact components_congr before' (by simp [segments, step?, dot])

/-! ### Splitting at slashes -/

/-- The segments of a path are its parts between slashes. -/
theorem segments_eq_splitOn (path : List Char) : segments path = path.splitOn '/' := by
  induction path with
  | nil => rfl
  | cons c path ih =>
    rw [List.splitOn_eq_splitOnP, List.splitOnP_cons_eq_if_modifyHead, ← List.splitOn_eq_splitOnP,
      ← ih]
    obtain ⟨s, ss, hs⟩ := List.exists_cons_of_ne_nil (segments_ne_nil path)
    by_cases hc : c = '/'
    · subst hc
      simp [segments]
    · rw [segments_cons_of_ne hc path hs, hs]
      simp [hc]

/-- No segment holds a slash. -/
theorem slash_notMem_of_mem_segments {path s : List Char} (h : s ∈ segments path) : '/' ∉ s := by
  induction path generalizing s with
  | nil =>
    obtain rfl : s = [] := by simpa [segments] using h
    simp
  | cons c path ih =>
    obtain ⟨t, ts, ht⟩ := List.exists_cons_of_ne_nil (segments_ne_nil path)
    by_cases hc : c = '/'
    · subst hc
      rcases List.mem_cons.1 (by simpa [segments] using h) with rfl | h
      · simp
      · exact ih h
    · rw [segments_cons_of_ne hc path ht] at h
      rcases List.mem_cons.1 h with rfl | h
      · simp [Ne.symm hc, ih (s := t) (by simp [ht])]
      · exact ih (by simp [ht, h])

/-- The segments of a path that is put together of texts without slashes are these texts. -/
theorem segments_intercalate {parts : List (List Char)} (hne : parts ≠ [])
    (h : ∀ s ∈ parts, '/' ∉ s) : segments (['/'].intercalate parts) = parts := by
  rw [segments_eq_splitOn]
  exact List.splitOn_intercalate '/' h hne

/-! ### Ordinary names -/

/-- A text that is an ordinary step of a path. -/
structure Ordinary (name : List Char) : Prop where
  ne_nil : name ≠ []
  ne_dot : name ≠ dot
  ne_dotDot : name ≠ dotDot
  no_slash : '/' ∉ name

/-- A step that is not the first of a path. -/
def Component.Later : Component → Prop
  | .up => True
  | .normal name => Ordinary name
  | _ => False

theorem later_of_step? {s : List Char} {c : Component} (hs : '/' ∉ s) (h : step? s = some c) :
    c.Later := by
  unfold step? at h
  split_ifs at h with h1 h2 <;> cases h
  · trivial
  · rw [not_or] at h1
    exact ⟨h1.1, h1.2, h2, hs⟩

theorem step?_text {c : Component} (h : c.Later) : step? c.text = some c := by
  cases c with
  | root => exact h.elim
  | current => exact h.elim
  | up => rfl
  | normal name =>
    have hname : Ordinary name := h
    show step? name = _
    unfold step?
    rw [if_neg (by simp [hname.ne_nil, hname.ne_dot]), if_neg hname.ne_dotDot]

theorem Component.Later.text_ne_nil {c : Component} (h : c.Later) : c.text ≠ [] := by
  cases c with
  | normal name => exact Ordinary.ne_nil h
  | up => decide
  | _ => exact h.elim

theorem Component.Later.text_ne_dot {c : Component} (h : c.Later) : c.text ≠ dot := by
  cases c with
  | normal name => exact Ordinary.ne_dot h
  | up => decide
  | _ => exact h.elim

theorem Component.Later.slash_notMem {c : Component} (h : c.Later) : '/' ∉ c.text := by
  cases c with
  | normal name => exact Ordinary.no_slash h
  | up => decide
  | _ => exact h.elim

theorem filterMap_step?_text {steps : List Component} (h : ∀ c ∈ steps, c.Later) :
    (steps.map Component.text).filterMap step? = steps := by
  induction steps with
  | nil => rfl
  | cons c steps ih =>
    rw [List.forall_mem_cons] at h
    rw [List.map_cons, List.filterMap_cons, step?_text h.1, ih h.2]

/-- Steps that a path can have: only the first may be the root or the current directory. -/
def Proper : List Component → Prop
  | [] => True
  | c :: cs => (c = .root ∨ c = .current ∨ c.Later) ∧ ∀ c' ∈ cs, c'.Later

theorem proper_of_later {cs : List Component} (h : ∀ c ∈ cs, c.Later) : Proper cs := by
  cases cs with
  | nil => trivial
  | cons c cs =>
    rw [List.forall_mem_cons] at h
    exact ⟨.inr (.inr h.1), h.2⟩

theorem proper_components (path : List Char) : Proper (components path) := by
  have hlater : ∀ c ∈ (segments path).filterMap step?, c.Later := by
    intro c hc
    obtain ⟨s, hs, hstep⟩ := List.mem_filterMap.1 hc
    exact later_of_step? (slash_notMem_of_mem_segments hs) hstep
  unfold components start
  split
  · split_ifs
    · exact ⟨.inl rfl, hlater⟩
    · exact ⟨.inr (.inl rfl), hlater⟩
    · exact proper_of_later hlater
  · exact proper_of_later hlater

theorem Proper.initial {cs cs' : List Component} (h : Proper cs) (hp : cs' <+: cs) :
    Proper cs' := by
  cases cs' with
  | nil => trivial
  | cons c' cs' =>
    obtain ⟨rest, rfl⟩ := hp
    exact ⟨h.1, fun c hc => h.2 c (List.mem_append_left _ hc)⟩

/-- What the first segment says about the beginning of a path. -/
theorem start_eq {path s : List Char} {ss : List (List Char)} (h : segments path = s :: ss) :
    start path = if s = [] ∧ ss ≠ [] then [.root] else if s = dot then [.current] else [] := by
  have hhead : path.head? = some '/' ↔ s = [] ∧ ss ≠ [] := by
    cases path with
    | nil =>
      obtain ⟨rfl, rfl⟩ : [] = s ∧ [] = ss := by simpa [segments] using h
      simp
    | cons c path =>
      by_cases hc : c = '/'
      · subst hc
        obtain ⟨rfl, rfl⟩ : [] = s ∧ segments path = ss := by simpa [segments] using h
        simp [segments_ne_nil path]
      · obtain ⟨t, ts, ht⟩ := List.exists_cons_of_ne_nil (segments_ne_nil path)
        rw [segments_cons_of_ne hc path ht] at h
        obtain ⟨rfl, rfl⟩ : c :: t = s ∧ ts = ss := by simpa using h
        simp [hc]
  unfold start
  rw [h]
  simp only [hhead]

/-- A path that is written with given steps has these steps. -/
theorem components_ofComponents {cs : List Component} (h : Proper cs) :
    components (ofComponents cs) = cs := by
  cases cs with
  | nil => rfl
  | cons c cs =>
    obtain ⟨hfirst, hlater⟩ := h
    by_cases hroot : c = .root ∧ cs = []
    · obtain ⟨rfl, rfl⟩ := hroot
      rfl
    · have hwritten : ofComponents (c :: cs)
          = ['/'].intercalate (c.text :: cs.map Component.text) := by
        unfold ofComponents
        split
        · next he =>
          cases he
          exact absurd ⟨rfl, rfl⟩ hroot
        · rfl
      have hseg : segments (ofComponents (c :: cs)) = c.text :: cs.map Component.text := by
        rw [hwritten]
        refine segments_intercalate (by simp) ?_
        rw [List.forall_mem_cons]
        refine ⟨?_, fun s hs => ?_⟩
        · rcases hfirst with rfl | rfl | hc
          · decide
          · decide
          · exact hc.slash_notMem
        · obtain ⟨c', hc', rfl⟩ := List.mem_map.1 hs
          exact (hlater c' hc').slash_notMem
      unfold components
      rw [start_eq hseg, hseg, List.filterMap_cons, filterMap_step?_text hlater]
      rcases hfirst with rfl | rfl | hc
      · -- The root is the empty text before the first slash.
        have hne : cs ≠ [] := fun e => hroot ⟨rfl, e⟩
        simp [Component.text, step?, hne]
      · simp [Component.text, step?, dot]
      · simp [hc.text_ne_nil, hc.text_ne_dot, step?_text hc]

/-! ### Paths below a base -/

/-- An empty first segment is all of the path, or a slash follows it. -/
theorem tail_ne_nil {path : List Char} {ss : List (List Char)} (h : path ≠ [])
    (hs : segments path = [] :: ss) : ss ≠ [] := by
  rintro rfl
  have hwritten : List.intercalate ['/'] (path.splitOn '/') = path := List.intercalate_splitOn '/'
  rw [← segments_eq_splitOn, hs] at hwritten
  exact h hwritten.symm

/-- What stands behind a slash only adds steps. -/
theorem components_append_slash (before after : List Char) :
    components (before ++ '/' :: after)
      = components (before ++ ['/']) ++ (segments after).filterMap step? := by
  obtain ⟨s, ss, hs⟩ := List.exists_cons_of_ne_nil (segments_ne_nil before)
  have hseg (text : List Char) : segments (before ++ '/' :: text) = s :: (ss ++ segments text) := by
    rw [segments_append_slash, hs, List.cons_append]
  unfold components
  rw [start_eq (hseg after), start_eq (hseg []), hseg, hseg, ← List.cons_append, ← List.cons_append,
    List.filterMap_append, List.filterMap_append]
  simp [segments_ne_nil, segments, step?]

/-- A slash at the end of a path leads nowhere. -/
theorem components_append_slash_nil {path : List Char} (h : path ≠ []) :
    components (path ++ ['/']) = components path := by
  obtain ⟨s, ss, hs⟩ := List.exists_cons_of_ne_nil (segments_ne_nil path)
  have hseg : segments (path ++ ['/']) = s :: (ss ++ [[]]) := by
    rw [segments_append_slash, hs]
    rfl
  have hroot : s = [] ∧ ss ++ [[]] ≠ [] ↔ s = [] ∧ ss ≠ [] := by
    refine and_congr_right fun he => ?_
    subst he
    simp [tail_ne_nil h hs]
  unfold components
  rw [start_eq hseg, start_eq hs, hseg, hs, ← List.cons_append, List.filterMap_append]
  simp only [hroot]
  simp [step?]

/-- The steps of a name that is joined to a base come behind those of the base. -/
theorem components_join {base name : List Char} (hbase : base ≠ [])
    (hname : name.head? ≠ some '/') :
    components (join base name) = components base ++ (segments name).filterMap step? := by
  unfold join
  rw [if_neg hname]
  split_ifs with hslash
  · -- The base ends in a slash already.
    rcases List.eq_nil_or_concat base with rfl | ⟨before, c, rfl⟩
    · exact absurd rfl hbase
    · obtain rfl : c = '/' := by simpa using hslash
      rw [List.concat_eq_append, List.append_assoc, List.singleton_append]
      exact components_append_slash before name
  · rw [components_append_slash, components_append_slash_nil hbase]

/-- The parent of a path that ends in an ordinary step has the steps before it. -/
theorem parent?_eq_some {path name : List Char} {cs : List Component}
    (h : components path = cs ++ [.normal name]) :
    ∃ parent, parent? path = some parent ∧ components parent = cs := by
  have hproper : Proper cs := (proper_components path).initial ⟨[.normal name], h.symm⟩
  refine ⟨ofComponents cs, ?_, components_ofComponents hproper⟩
  unfold parent?
  rw [h, List.reverse_append]
  show some (ofComponents cs.reverse.reverse) = _
  rw [List.reverse_reverse]

/-! ### Which segments are steps -/

theorem up_mem_components {path : List Char} : .up ∈ components path ↔ dotDot ∈ segments path := by
  have hstart : Component.up ∉ start path := by
    unfold start
    split
    · split_ifs <;> simp
    · simp
  unfold components
  rw [List.mem_append, List.mem_filterMap]
  constructor
  · rintro (h | ⟨s, hs, hstep⟩)
    · exact absurd h hstart
    · unfold step? at hstep
      split_ifs at hstep with h1 h2 <;> cases hstep
      exact h2 ▸ hs
  · intro h
    exact .inr ⟨dotDot, h, rfl⟩

theorem normal_mem_components {path name : List Char} :
    .normal name ∈ components path ↔ name ∈ segments path ∧ Ordinary name := by
  unfold components
  rw [List.mem_append, List.mem_filterMap]
  constructor
  · rintro (h | ⟨s, hs, hstep⟩)
    · exact absurd h (normal_not_mem_start path name)
    · have hlater := later_of_step? (slash_notMem_of_mem_segments hs) hstep
      unfold step? at hstep
      split_ifs at hstep <;> cases hstep
      exact ⟨hs, hlater⟩
  · rintro ⟨hs, h⟩
    exact .inr ⟨name, hs, step?_text (c := .normal name) h⟩

end PullIngest.Path
