import PullIngest.Proofs.Json.Parsing
import PullIngest.Proofs.Json.Rewording
import PullIngest.Proofs.Wire.Text

/-!
# Objects are read whatever their order

A record is read from an object by the names of its members. Their order, members with other names,
blanks, and which of its names a field goes by make no difference; a field that is there twice is
refused.

* `BlankWire`: values that are read alike from documents that differ in their blanks;
* `Record`: types that look for fields, with one instance for each; the payload of a message is
  kept as it is written (`Message.alike`);
* `Record.decode?_edit`, `Record.decode?_reworded`: one change, and any number of them;
* `Rewording`, `Doubling`, `ReadsObjects`: the same on texts.
-/

namespace PullIngest

open Json

/-! ### Blanks -/

/-- What is read from a document does not depend on its blanks. -/
class BlankWire (α : Type) [Wire α] : Prop where
  decode?_squeeze : ∀ v : Value, (Wire.decode? v.squeeze : Option α) = Wire.decode? v

@[simp] theorem Offset.decode?_squeeze (v : Value) : decode? v.squeeze = decode? v := by
  cases v <;> rfl

instance : BlankWire CreateSession where
  decode?_squeeze v := by
    simp only [Wire.decode?, fields?_squeeze]
    rcases v.fields? _ with _ | _ | ⟨_ | name, _ | ⟨_ | size, _ | _⟩⟩ <;> simp

instance : BlankWire ChunkRequest where
  decode?_squeeze v := by
    simp only [Wire.decode?, fields?_squeeze]
    rcases v.fields? _ with _ | _ | ⟨_ | offset, _ | ⟨_ | size, _ | _⟩⟩ <;> simp

instance : BlankWire ChunkResponse where
  decode?_squeeze v := by
    simp only [Wire.decode?, fields?_squeeze]
    rcases v.fields? _ with _ | _ | ⟨_ | offset, _ | ⟨_ | size, _ | ⟨_ | payload, _ | _⟩⟩⟩ <;> simp

instance : BlankWire Cancel where
  decode?_squeeze v := by
    simp only [Wire.decode?, fields?_squeeze]
    rcases v.fields? _ with _ | _ | ⟨_ | reason, _ | _⟩ <;> simp [readDefault]

instance : BlankWire SessionCreated where
  decode?_squeeze v := by
    simp only [Wire.decode?, fields?_squeeze]
    rcases v.fields? _ with _ | _ | ⟨_ | id, _ | _⟩ <;> simp

instance : BlankWire Done where
  decode?_squeeze v := by
    simp only [Wire.decode?, fields?_squeeze]
    rcases v.fields? _ with _ | _ | ⟨_ | success, _ | _⟩ <;> simp

instance : BlankWire Outcome where
  decode?_squeeze v := by
    simp only [Wire.decode?, variant?_squeeze]

instance : BlankWire Phase where
  decode?_squeeze v := by
    have houtcome : ∀ v : Value, (Wire.decode? v.squeeze : Option Outcome) = Wire.decode? v :=
      BlankWire.decode?_squeeze
    unfold instWirePhase
    dsimp only
    rw [variant?_squeeze, members?_squeeze]
    cases v.variant? with
    | some name => rfl
    | none =>
      rcases v.members? with _ | _ | ⟨⟨key, outcome⟩, _ | _⟩ <;> simp [houtcome]

instance : BlankWire Progress where
  decode?_squeeze v := by
    have hphase : ∀ v : Value, (Wire.decode? v.squeeze : Option Phase) = Wire.decode? v :=
      BlankWire.decode?_squeeze
    unfold instWireProgress
    dsimp only
    rw [fields?_squeeze]
    rcases v.fields? _ with _ | _ | ⟨_ | sessionId, _ | ⟨_ | name, _ | ⟨_ | phase, _ |
      ⟨_ | declaredSize, _ | ⟨_ | bytesDelivered, _ | ⟨_ | createdAt, _ | _⟩⟩⟩⟩⟩⟩
    -- Only lists of six values with the first five in place are read any further.
    any_goals rfl
    all_goals simp [hphase, readDefault]

instance : BlankWire MessageType where
  decode?_squeeze v := by
    simp only [Wire.decode?, variant?_squeeze]

instance : BlankWire ErrorDetail where
  decode?_squeeze v := by
    simp only [Wire.decode?, fields?_squeeze]
    rcases v.fields? _ with _ | _ | ⟨_ | code, _ | ⟨_ | message, _ | _⟩⟩ <;> simp

/-! ### Records -/

/-- A type that looks for fields in a document, and reads their values. -/
class Record (α : Type) [Wire α] where
  /-- What it looks for. -/
  fields : List Field
  /-- The values that may replace one another under a name. -/
  alike : List Char → Value → Value → Prop
  /-- Nothing but the values of the fields is looked at. -/
  decode?_eq : ∃ build : List (Option Value) → Option α,
    ∀ v : Value, Wire.decode? v = (v.fields? fields).bind build
  /-- Values that may replace one another are read alike. -/
  decode?_alike : ∀ {gap gap' : List Char} {ms ms' : List (Member Value)},
    List.Forall₂ (Member.Alike alike) ms ms' →
      (Wire.decode? (Value.braces gap ms) : Option α) = Wire.decode? (Value.braces gap' ms')

/-- Where blanks make no difference, they make none in the values of fields. -/
@[reducible] def Record.ofFields {α : Type} [Wire α] [BlankWire α] (fields : List Field)
    (h : ∃ build : List (Option Value) → Option α,
      ∀ v : Value, Wire.decode? v = (v.fields? fields).bind build) : Record α where
  fields
  alike _ := Respaced
  decode?_eq := h
  decode?_alike {gap gap' ms ms'} hms := by
    obtain ⟨build, hbuild⟩ := h
    rw [← BlankWire.decode?_squeeze (Value.braces gap ms),
      ← BlankWire.decode?_squeeze (Value.braces gap' ms'), hbuild, hbuild, fields?_squeeze,
      fields?_squeeze, fields?_respaced fields gap gap' hms]

instance : Record CreateSession :=
  .ofFields [⟨["name"], .required⟩, ⟨["size"], .required⟩] ⟨_, fun _ => rfl⟩

instance : Record ChunkRequest :=
  .ofFields [⟨["offset"], .required⟩, ⟨["size"], .required⟩] ⟨_, fun _ => rfl⟩

instance : Record ChunkResponse :=
  .ofFields [⟨["offset"], .required⟩, ⟨["size"], .required⟩, ⟨["payload", "buffer"], .required⟩]
    ⟨_, fun _ => rfl⟩

instance : Record Cancel := .ofFields [⟨["reason"], .defaulted⟩] ⟨_, fun _ => rfl⟩

instance : Record SessionCreated := .ofFields [⟨["id"], .required⟩] ⟨_, fun _ => rfl⟩

instance : Record Done := .ofFields [⟨["success"], .required⟩] ⟨_, fun _ => rfl⟩

instance : Record Progress :=
  .ofFields
    [⟨["sessionId"], .required⟩, ⟨["name"], .required⟩, ⟨["phase"], .required⟩,
      ⟨["declaredSize"], .required⟩, ⟨["bytesDelivered"], .required⟩, ⟨["createdAt"], .defaulted⟩]
    ⟨_, fun _ => rfl⟩

instance : Record ErrorDetail :=
  .ofFields [⟨["code"], .required⟩, ⟨["message"], .required⟩] ⟨_, fun _ => rfl⟩

section Rewording

variable {α : Type} [Wire α] [r : Record α]

/-- A change that is not to be seen is not seen. -/
theorem Record.decode?_edit {v v' : Value} (h : Edit (Record.fields α) (Record.alike α) v v') :
    (Wire.decode? v : Option α) = Wire.decode? v' := by
  obtain ⟨build, hbuild⟩ := r.decode?_eq
  cases h with
  | permute h => rw [hbuild, hbuild, fields?_perm _ _ h]
  | insert hname hunknown => rw [hbuild, hbuild, fields?_insert _ hname hunknown]
  | rename hname hname' hsame => rw [hbuild, hbuild, fields?_rename _ hname hname' hsame]
  | respace h => exact r.decode?_alike h

theorem Record.decode?_reworded {v v' : Value}
    (h : Reworded (Record.fields α) (Record.alike α) v v') :
    (Wire.decode? v : Option α) = Wire.decode? v' := by
  induction h with
  | refl => rfl
  | tail _ hedit ih => rw [ih, Record.decode?_edit hedit]

end Rewording

/-! ### Messages -/

/-- The values that may replace one another in a message: the payload is kept as it is written, and
the error is an object by itself. -/
def Message.alike (name : List Char) (v v' : Value) : Prop :=
  if name = "payload".toList then v = v'
  else if name = "error".toList then
    Respaced v v' ∨ Reworded (Record.fields ErrorDetail) (Record.alike ErrorDetail) v v'
  else Respaced v v'

theorem Json.Edit.ne_null {fields : List Field} {alike : List Char → Value → Value → Prop}
    {v v' : Value} (h : Edit fields alike v v') : v ≠ .null ∧ v' ≠ .null := by
  have key : ∀ gap ms, Value.braces gap ms ≠ .null := by
    intro gap ms
    cases ms <;> exact Value.noConfusion
  cases h <;> exact ⟨key _ _, key _ _⟩

theorem Json.readOption_congr {α : Type} {read : Value → Option α} {v v' : Value}
    (hnull : v = .null ↔ v' = .null) (h : read v = read v') :
    readOption read (some v) = readOption read (some v') := by
  by_cases hv : v = .null
  · rw [hv, hnull.1 hv]
  · rw [readOption_of_ne_null read hv, readOption_of_ne_null read fun hv' => hv (hnull.2 hv'), h]

theorem Json.string?_respaced {v v' : Value} (h : Respaced v v') : v.string? = v'.string? := by
  rw [← string?_squeeze v, h, string?_squeeze]

theorem BlankWire.decode?_respaced {α : Type} [Wire α] [BlankWire α] {v v' : Value}
    (h : Respaced v v') : (Wire.decode? v : Option α) = Wire.decode? v' := by
  rw [← decode?_squeeze v, h, decode?_squeeze]

/-- What may be done to the error of a message does not make it `null`. -/
theorem Message.null_iff {v v' : Value}
    (h : Respaced v v' ∨ Reworded (Record.fields ErrorDetail) (Record.alike ErrorDetail) v v') :
    v = .null ↔ v' = .null := by
  rcases h with h | h
  · rw [← squeeze_eq_null, h, squeeze_eq_null]
  · induction h with
    | refl => rfl
    | tail _ hedit ih =>
      obtain ⟨hne, hne'⟩ := hedit.ne_null
      exact ih.trans (iff_of_false hne hne')

section Fields

variable {x x' : Option Value}

theorem Json.alike_of_named {alike : List Char → Value → Value → Prop} {s : String}
    {presence : Presence} {v v' : Value}
    (h : ∃ name, Field.named ⟨[s], presence⟩ name = true ∧ alike name v v') :
    alike s.toList v v' := by
  obtain ⟨name, hnamed, halike⟩ := h
  obtain rfl : s.toList = name := by simpa [Field.named] using hnamed
  exact halike

theorem Message.respaced_of_alike {name : List Char} {v v' : Value} (h : alike name v v')
    (hpayload : name ≠ "payload".toList) (herror : name ≠ "error".toList) : Respaced v v' := by
  unfold alike at h
  rwa [if_neg hpayload, if_neg herror] at h

theorem Message.payload_eq (h : Option.Rel
    (fun v v' => ∃ name, Field.named ⟨["payload"], .optional⟩ name = true ∧ alike name v v') x x') :
    x = x' := by
  cases h with
  | none => rfl
  | some h =>
    have halike := alike_of_named h
    unfold alike at halike
    rw [if_pos rfl] at halike
    rw [halike]

theorem Message.error_eq (h : Option.Rel
    (fun v v' => ∃ name, Field.named ⟨["error"], .optional⟩ name = true ∧ alike name v v') x x') :
    readOption (Wire.decode? : Value → Option ErrorDetail) x = readOption Wire.decode? x' := by
  cases h with
  | none => rfl
  | some h =>
    have halike := alike_of_named h
    unfold alike at halike
    rw [if_neg (by decide), if_pos rfl] at halike
    exact readOption_congr (Message.null_iff halike)
      (halike.elim BlankWire.decode?_respaced Record.decode?_reworded)

end Fields

instance : Record Message where
  fields := [⟨["id"], .required⟩, ⟨["type"], .required⟩, ⟨["payload"], .optional⟩,
    ⟨["error"], .optional⟩]
  alike := Message.alike
  decode?_eq := ⟨_, fun _ => rfl⟩
  decode?_alike {gap gap' ms ms'} h := by
    unfold instWireMessage
    dsimp only
    have hfields := fields?_alike [⟨["id"], .required⟩, ⟨["type"], .required⟩,
      ⟨["payload"], .optional⟩, ⟨["error"], .optional⟩] gap gap' h
    generalize (Value.braces gap ms).fields? _ = found at hfields ⊢
    generalize (Value.braces gap' ms').fields? _ = found' at hfields ⊢
    cases hfields with
    | none => rfl
    | some hfound =>
      obtain _ | ⟨hid, _ | ⟨htype, _ | ⟨hpayload, _ | ⟨herror, _ | _⟩⟩⟩⟩ := hfound
      -- The id and the type are on both sides or on neither.
      cases hid with
      | none => rfl
      | some hid =>
        cases htype with
        | none => rfl
        | some htype =>
          have hid := string?_respaced
            (Message.respaced_of_alike (alike_of_named hid) (by decide) (by decide))
          have htype : (Wire.decode? _ : Option MessageType) = Wire.decode? _ :=
            BlankWire.decode?_respaced
              (Message.respaced_of_alike (alike_of_named htype) (by decide) (by decide))
          simp only [Option.bind_eq_bind, Option.bind_some]
          rw [hid, htype, Message.payload_eq hpayload, Message.error_eq herror]

/-! ### Texts -/

theorem Wire.ofText?_of_spells {α : Type} [Wire α] {s : String} {v : Value}
    (h : Spells s.toList v) : (Wire.ofText? s : Option α) = Wire.decode? v := by
  rw [Wire.ofText?, ofText?_eq_some_iff_spells.2 h, Option.bind_some]

theorem Wire.ofText?_eq_some_iff {α : Type} [Wire α] {s : String} {a : α} :
    Wire.ofText? s = some a ↔ ∃ v, Spells s.toList v ∧ Wire.decode? v = some a := by
  rw [Wire.ofText?, Option.bind_eq_some_iff]
  simp only [ofText?_eq_some_iff_spells]

section Texts

variable (α : Type) [Wire α] [Record α]

/-- The texts spell objects of which the second is the first reworded. -/
def Rewording (s s' : String) : Prop :=
  ∃ v v' : Value, Spells s.toList v ∧ Spells s'.toList v' ∧
    Reworded (Record.fields α) (Record.alike α) v v'

/-- The text spells an object to which a member has been added, anywhere and with any value, that
goes by a name of a field that the object has already. -/
def Doubling (s : String) : Prop :=
  ∃ f ∈ Record.fields α, ∃ (gap : List Char) (before after : List (Member Value))
    (m m' : Member Value) (name name' : List Char),
    m ∈ before ++ after ∧ unescape? m.key = some name ∧ unescape? m'.key = some name' ∧
      f.named name = true ∧ f.named name' = true ∧
      Spells s.toList (.braces gap (before ++ m' :: after))

/-- How a type is read from texts. -/
structure ReadsObjects : Prop where
  /-- A value is read from what spells a document for it. -/
  spelled : ∀ (s : String) (a : α), Wire.ofText? s = some a ↔
    ∃ v, Spells s.toList v ∧ Wire.decode? v = some a
  /-- It is read from every rewording of a text that it is read from. -/
  reworded : ∀ (s s' : String) (a : α), Rewording α s s' → Wire.ofText? s = some a →
    Wire.ofText? s' = some a
  /-- No value has a field twice. -/
  doubled : ∀ s : String, Doubling α s → (Wire.ofText? s : Option α) = none

end Texts

theorem Record.readsObjects {α : Type} [Wire α] [r : Record α] : ReadsObjects α where
  spelled _ _ := Wire.ofText?_eq_some_iff
  reworded s s' a h hs := by
    obtain ⟨v, v', hv, hv', hreworded⟩ := h
    rw [Wire.ofText?_of_spells hv, Record.decode?_reworded hreworded] at hs
    rw [Wire.ofText?_of_spells hv', hs]
  doubled s h := by
    obtain ⟨f, hf, gap, before, after, m, m', name, name', hm, hname, hname', hnamed, hnamed', hs⟩ := h
    obtain ⟨build, hbuild⟩ := r.decode?_eq
    rw [Wire.ofText?_of_spells hs, hbuild,
      fields?_doubled hf gap hm hname hname' hnamed hnamed', Option.bind_none]

/-- **Objects are read by the names of their members.** Whoever permutes the members of an object,
puts in members that no field goes by, with any values, changes blanks outside the payload of a
message, or calls the payload of a response by its other name, changes nothing that is read; and
whoever adds a field that is there already, by whichever name, leaves nothing to be read. -/
theorem objects_read_by_name :
    ReadsObjects CreateSession ∧ ReadsObjects ChunkRequest ∧ ReadsObjects ChunkResponse ∧
    ReadsObjects Cancel ∧ ReadsObjects SessionCreated ∧ ReadsObjects Done ∧
    ReadsObjects Progress ∧ ReadsObjects ErrorDetail ∧ ReadsObjects Message :=
  ⟨Record.readsObjects, Record.readsObjects, Record.readsObjects, Record.readsObjects,
    Record.readsObjects, Record.readsObjects, Record.readsObjects, Record.readsObjects,
    Record.readsObjects⟩

/-- A response as it is written, and the same backwards, with something else in front and under the
older name of its payload, are read alike. With the payload under both names there is no response. -/
theorem older_response_read :
    Wire.ofText? "\x7b \"x\":[\"\x7d\",2],\"buffer\":\"aGk=\", \"size\":2,\"offset\":\"a\"\x7d" =
        some (⟨10, 2, "aGk="⟩ : ChunkResponse) ∧
      (Wire.ofText? "\x7b\"offset\":\"a\",\"buffer\":null,\"size\":2,\"payload\":\"aGk=\"\x7d" :
        Option ChunkResponse) = none := by
  obtain ⟨-, -, hresponse, -⟩ := objects_read_by_name
  have hwritten : Spells (Wire.text (⟨10, 2, "aGk="⟩ : ChunkResponse)).toList
      (.braces [] [.compact ("offset", Offset.encode 10), .compact ("size", .ofNat 2),
        .compact ("payload", .ofString "aGk=")]) :=
    ofText?_eq_some_iff_spells.1 (by rfl)
  have hread : Spells
      "\x7b \"x\":[\"\x7d\",2],\"buffer\":\"aGk=\", \"size\":2,\"offset\":\"a\"\x7d".toList
      (.braces [] [⟨[' '], ['x'], [], [],
          .array ⟨[], .string ['\x7d'], []⟩ [⟨[], .number ['2'], []⟩], []⟩,
        .compact ("buffer", .ofString "aGk="), ⟨[' '], "size".toList, [], [], .ofNat 2, []⟩,
        .compact ("offset", Offset.encode 10)]) :=
    ofText?_eq_some_iff_spells.1 (by rfl)
  have hdoubled : Spells
      "\x7b\"offset\":\"a\",\"buffer\":null,\"size\":2,\"payload\":\"aGk=\"\x7d".toList
      (.braces [] ([.compact ("offset", Offset.encode 10)] ++ .compact ("buffer", .null) ::
        [.compact ("size", .ofNat 2), .compact ("payload", .ofString "aGk=")])) :=
    ofText?_eq_some_iff_spells.1 (by rfl)
  refine ⟨hresponse.reworded _ _ _ ⟨_, _, hwritten, hread, ?_⟩ (Wire.ofText?_text _),
    hresponse.doubled _ ⟨⟨["payload", "buffer"], .required⟩, by simp [Record.fields], _, _, _,
      .compact ("payload", .ofString "aGk="), _, "payload".toList, "buffer".toList, by simp, by rfl,
      by rfl, by rfl, by rfl, hdoubled⟩⟩
  have hpermuted : Edit (Record.fields ChunkResponse) (Record.alike ChunkResponse)
      (.braces [] [.compact ("offset", Offset.encode 10), .compact ("size", .ofNat 2),
        .compact ("payload", .ofString "aGk=")])
      (.braces [] [.compact ("payload", .ofString "aGk="), .compact ("size", .ofNat 2),
        .compact ("offset", Offset.encode 10)]) :=
    .permute (List.reverse_perm _).symm
  have hrenamed : Edit (Record.fields ChunkResponse) (Record.alike ChunkResponse)
      (.braces [] ([] ++ .compact ("payload", .ofString "aGk=") ::
        [.compact ("size", .ofNat 2), .compact ("offset", Offset.encode 10)]))
      (.braces [] ([] ++ .compact ("buffer", .ofString "aGk=") ::
        [.compact ("size", .ofNat 2), .compact ("offset", Offset.encode 10)])) :=
    .rename (show _ = some "payload".toList by rfl) (show _ = some "buffer".toList by rfl) (by decide)
  have hinserted : Edit (Record.fields ChunkResponse) (Record.alike ChunkResponse)
      (.braces [] ([] ++ [.compact ("buffer", .ofString "aGk="), .compact ("size", .ofNat 2),
        .compact ("offset", Offset.encode 10)]))
      (.braces [] ([] ++
        .compact ("x", .array ⟨[], .string ['\x7d'], []⟩ [⟨[], .number ['2'], []⟩]) ::
        [.compact ("buffer", .ofString "aGk="), .compact ("size", .ofNat 2),
          .compact ("offset", Offset.encode 10)])) :=
    .insert (show _ = some "x".toList by rfl) (by decide)
  refine (((Relation.ReflTransGen.single hpermuted).tail hrenamed).tail hinserted).tail ?_
  exact .respace (.cons ⟨rfl, fun _ _ => rfl⟩ (.cons ⟨rfl, fun _ _ => rfl⟩
    (.cons ⟨rfl, fun _ _ => rfl⟩ (.cons ⟨rfl, fun _ _ => rfl⟩ .nil))))

end PullIngest
