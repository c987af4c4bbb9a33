import Protoscript.Proofs.Numbering
import Mathlib.Data.List.Induction

/-!
# What builders assemble

A builder of messages learns the full name of its message only when it builds, and it hands out the
positions of oneofs while it is still adding some. Nothing is lost by that: what is built has a field for
each call that declares one, a map field goes with an entry type of its own message, and a member of a oneof
with the name of its group, however the calls follow each other and however deep they are nested.

* `MessageCall`, `MessageBuilder.ofCalls`, `FileCall`, `FileBuilder.ofCalls` — the calls of builders, and
  what they make;
* `FieldDecl.Meets`, `MessageDecl.Meets`, `MessageDecl.Assembled` — what the calls ask for;
* `MessageBuilder.Records` — what a builder has of the calls so far;
* `MessageBuilder.Records.after` — a call keeps what the builder has;
* `FileBuilder.build_assembled` — what is built is what the calls ask for.
-/

namespace Protoscript

/-! ## Calls -/

/-- A call of a message builder; a nested message or enum comes with the calls that make it. -/
inductive MessageCall where
  /-- declares a singular field -/
  | field (name : String) (number : Int32) (type : FieldType)
  /-- declares a singular field with a default -/
  | fieldWithDefault (name : String) (number : Int32) (type : FieldType) (text : String)
  /-- declares a repeated field -/
  | repeated (name : String) (number : Int32) (type : FieldType)
  /-- declares a map field -/
  | map (name : String) (number : Int32) (key value : FieldType)
  /-- declares a member of a oneof -/
  | oneofField (group name : String) (number : Int32) (type : FieldType)
  /-- nests a message -/
  | message (name : String) (calls : List MessageCall)
  /-- nests an enum -/
  | enumeration (name : String) (calls : List EnumCall)

namespace MessageCall

/-- The name, the number and the label of the field that a call declares. -/
def declared? : MessageCall → Option (String × Int × Label)
  | field name number _ | fieldWithDefault name number _ _ | oneofField _ name number _ =>
    some (name, number.toInt, .optional)
  | repeated name number _ | map name number _ _ => some (name, number.toInt, .repeated)
  | message _ _ | enumeration _ _ => none

/-- The type of the field that a call declares, if it is not a map. -/
def type? : MessageCall → Option FieldType
  | field _ _ type | fieldWithDefault _ _ type _ | repeated _ _ type | oneofField _ _ _ type => some type
  | map _ _ _ _ | message _ _ | enumeration _ _ => none

/-- The types of the keys and the values of the map field that a call declares. -/
def entry? : MessageCall → Option (FieldType × FieldType)
  | map _ _ key value => some (key, value)
  | _ => none

/-- The oneof that a call declares a member of. -/
def group? : MessageCall → Option String
  | oneofField group _ _ _ => some group
  | _ => none

/-- The default that a call declares. -/
def default? : MessageCall → Option String
  | fieldWithDefault _ _ _ text => some text
  | _ => none

/-- The enum that a call nests. -/
def enum? : MessageCall → Option EnumBuilder
  | enumeration name calls => some (.ofCalls name calls)
  | _ => none

end MessageCall

namespace MessageBuilder

mutual

/-- What a call makes of a builder. -/
def after (b : MessageBuilder) : MessageCall → MessageBuilder
  | .field name number type => b.field name number type
  | .fieldWithDefault name number type text => b.fieldWithDefault name number type text
  | .repeated name number type => b.repeated name number type
  | .map name number key value => b.map name number key value
  | .oneofField group name number type => b.oneofField group name number type
  | .message name calls => b.message (afterAll { name := name } calls)
  | .enumeration name calls => b.enumeration (.ofCalls name calls)

/-- What calls make of a builder, one after the other. -/
def afterAll (b : MessageBuilder) : List MessageCall → MessageBuilder
  | [] => b
  | call :: rest => afterAll (after b call) rest

end

/-- What calls make of an empty builder. -/
def ofCalls (name : String) (calls : List MessageCall) : MessageBuilder := afterAll { name := name } calls

end MessageBuilder

/-- The builder that a call nests. -/
def MessageCall.nested? : MessageCall → Option MessageBuilder
  | .map name _ key value => some (.mapEntry (mapEntryName name) key value)
  | .message name calls => some (.ofCalls name calls)
  | _ => none

/-- A call of a file builder. -/
inductive FileCall where
  /-- imports a file -/
  | dependency (path : String)
  /-- adds a message -/
  | message (name : String) (calls : List MessageCall)
  /-- adds an enum -/
  | enumeration (name : String) (calls : List EnumCall)

namespace FileCall

/-- The path of the file that a call imports. -/
def path? : FileCall → Option String
  | dependency path => some path
  | _ => none

/-- The call by which a message builder would nest the message that a call adds. -/
def message? : FileCall → Option MessageCall
  | message name calls => some (.message name calls)
  | _ => none

/-- The enum that a call adds. -/
def enum? : FileCall → Option EnumBuilder
  | enumeration name calls => some (.ofCalls name calls)
  | _ => none

end FileCall

namespace FileBuilder

/-- What a call makes of a builder. -/
def after (b : FileBuilder) : FileCall → FileBuilder
  | .dependency path => b.dependency path
  | .message name calls => b.message (.ofCalls name calls)
  | .enumeration name calls => b.enumeration (.ofCalls name calls)

/-- What calls make of an empty builder, one after the other. -/
def ofCalls (edition : Edition) (name package : String) (calls : List FileCall) : FileBuilder :=
  calls.foldl after { name := name, package := package, edition := edition }

end FileBuilder

/-! ## What calls ask for -/

/-- A message is the entry type of a map: it has a key with number 1, a value with number 2 and nothing
else. -/
structure MessageDecl.IsEntryOf (key value : FieldType) (d : MessageDecl) : Prop where
  isMapEntry : d.isMapEntry = true
  names : d.fields.map (fun f => (f.name, f.number, f.label)) = [("key", 1, .optional), ("value", 2, .optional)]
  types : d.fields.map (fun f => (f.type, f.typeName)) =
    [(some key.code, key.typeName?), (some value.code, value.typeName?)]
  plain : ∀ f ∈ d.fields, f.oneofIndex = none
  nested : d.nested = []
  enums : d.enums = []
  oneofs : d.oneofs = []

/-- A field of the message `d` with the name `fullName` is what a call asks for. -/
structure FieldDecl.Meets (fullName : String) (d : MessageDecl) (call : MessageCall) (f : FieldDecl) : Prop where
  /-- it has the name, the number and the label given -/
  declared : call.declared? = some (f.name, f.number, f.label)
  /-- it has the type given, if it is not a map -/
  type : ∀ type, call.type? = some type → f.type = some type.code ∧ f.typeName = type.typeName?
  /-- a map has messages of an entry type, which is one of those nested in its own message -/
  map : ∀ key value, call.entry? = some (key, value) → f.type = some .message ∧
    ∃ entry ∈ d.nested, f.typeName = some (absoluteName (joinName fullName entry.name)) ∧
      entry.IsEntryOf key value
  /-- a member of a oneof has the position of its group -/
  member : ∀ group, call.group? = some group → ∃ i, f.oneofIndex = some i ∧ d.oneofs[i]? = some group
  /-- no other field has a position -/
  plain : call.group? = none → f.oneofIndex = none
  /-- it has the default given -/
  defaultText : f.defaultText = call.default?

/-- A message is what calls ask for, what is nested in it apart. -/
structure MessageDecl.Meets (fullName name : String) (calls : List MessageCall) (d : MessageDecl) : Prop where
  name : d.name = name
  isMapEntry : d.isMapEntry = false
  /-- the fields are those of the calls, in their order -/
  fields : List.Forall₂ (FieldDecl.Meets fullName d) (calls.filter (·.declared?.isSome)) d.fields
  /-- the oneofs are in order of first use -/
  oneofs : d.oneofs = (calls.filterMap MessageCall.group?).eraseDups
  nodup_oneofs : d.oneofs.Nodup
  /-- the enums are those of the calls, in their order -/
  enums : d.enums = calls.filterMap fun call => call.enum?.map EnumBuilder.build

/-- The messages nested in `scope` are what calls ask for, at any depth: one for each message that is
nested and one for each map, in the order of the calls. -/
inductive MessageDecl.Assembled : (scope : String) → List MessageCall → List MessageDecl → Prop
  /-- no calls are left -/
  | nil {scope : String} : Assembled scope [] []
  /-- a message is nested -/
  | message {scope name : String} {inner rest : List MessageCall} {d : MessageDecl} {ds : List MessageDecl}
      (hmeets : d.Meets (joinName scope name) name inner)
      (hnested : Assembled (joinName scope name) inner d.nested)
      (hrest : Assembled scope rest ds) : Assembled scope (.message name inner :: rest) (d :: ds)
  /-- a map field is declared -/
  | map {scope name : String} {number : Int32} {key value : FieldType} {rest : List MessageCall}
      {d : MessageDecl} {ds : List MessageDecl} (hentry : d.IsEntryOf key value)
      (hrest : Assembled scope rest ds) : Assembled scope (.map name number key value :: rest) (d :: ds)
  /-- nothing is nested, or an enum -/
  | other {scope : String} {call : MessageCall} {rest : List MessageCall} {ds : List MessageDecl}
      (hcall : call.nested? = none) (hrest : Assembled scope rest ds) : Assembled scope (call :: rest) ds

/-! ## What builders have -/

/-- A field that the builder `b` remembers is what a call asks for. -/
structure MessageCall.Leaves (b : MessageBuilder) (call : MessageCall) (p : PendingField) : Prop where
  declared : call.declared? = some (p.decl.name, p.decl.number, p.decl.label)
  type : ∀ type, call.type? = some type →
    p.decl.type = some type.code ∧ p.decl.typeName = type.typeName? ∧ p.mapEntry = none
  map : ∀ key value, call.entry? = some (key, value) → p.decl.type = some .message ∧
    ∃ name, p.mapEntry = some name ∧ .mapEntry name key value ∈ b.nested
  member : ∀ group, call.group? = some group → ∃ i, p.decl.oneofIndex = some i ∧ b.oneofs[i]? = some group
  plain : call.group? = none → p.decl.oneofIndex = none
  defaultText : p.decl.defaultText = call.default?

namespace MessageBuilder

/-- What a builder has of the calls so far. -/
structure Records (calls : List MessageCall) (b : MessageBuilder) : Prop where
  fields : List.Forall₂ (MessageCall.Leaves b) (calls.filter (·.declared?.isSome)) b.fields
  oneofs : b.oneofs = (calls.filterMap MessageCall.group?).eraseDups
  nested : b.nested = calls.filterMap MessageCall.nested?
  enums : b.enums = calls.filterMap MessageCall.enum?

variable {calls : List MessageCall} {b : MessageBuilder}

theorem records_empty (name : String) : Records [] { name := name } :=
  ⟨.nil, rfl, rfl, rfl⟩

/-! ### What a call adds -/

theorem keeps_after (b : MessageBuilder) (call : MessageCall) :
    (b.after call).name = b.name ∧ (b.after call).isMapEntry = b.isMapEntry := by
  cases call with
  | oneofField =>
    rw [after, oneofField]
    split <;> exact ⟨rfl, rfl⟩
  | _ => exact ⟨rfl, rfl⟩

theorem nested_after (b : MessageBuilder) (call : MessageCall) :
    (b.after call).nested = b.nested ++ [call].filterMap MessageCall.nested? := by
  cases call with
  | map | message => rfl
  | oneofField =>
    rw [after, oneofField]
    split <;> exact (List.append_nil _).symm
  | _ => exact (List.append_nil _).symm

theorem enums_after (b : MessageBuilder) (call : MessageCall) :
    (b.after call).enums = b.enums ++ [call].filterMap MessageCall.enum? := by
  cases call with
  | enumeration => rfl
  | oneofField =>
    rw [after, oneofField]
    split <;> exact (List.append_nil _).symm
  | _ => exact (List.append_nil _).symm

theorem oneofs_after_of_none {call : MessageCall} (h : call.group? = none) (b : MessageBuilder) :
    (b.after call).oneofs = b.oneofs := by
  cases call with
  | oneofField => cases h
  | _ => rfl

theorem oneofs_after_of_some {call : MessageCall} {group : String} (h : call.group? = some group)
    (b : MessageBuilder) :
    (b.after call).oneofs = if group ∈ b.oneofs then b.oneofs else b.oneofs ++ [group] := by
  cases call with
  | oneofField =>
    cases h
    rw [after, oneofField]
    split
    · rename_i i hi
      rw [if_pos (List.isSome_idxOf?.1 (Option.isSome_of_eq_some hi))]
      rfl
    · rename_i hi
      rw [if_neg (List.idxOf?_eq_none_iff.1 hi)]
      rfl
  | _ => cases h

/-- Groups keep their positions. -/
theorem getElem?_oneofs_after {i : Nat} {group : String} (h : b.oneofs[i]? = some group) (call : MessageCall) :
    (b.after call).oneofs[i]? = some group := by
  cases hgroup : call.group? with
  | none => rwa [oneofs_after_of_none hgroup]
  | some other =>
    rw [oneofs_after_of_some hgroup]
    split
    · exact h
    · rwa [List.getElem?_append_left (List.getElem?_eq_some_iff.1 h).1]

/-- A field stays what was asked for. -/
theorem leaves_after {earlier : MessageCall} {p : PendingField} (h : earlier.Leaves b p) (call : MessageCall) :
    earlier.Leaves (b.after call) p where
  declared := h.declared
  type := h.type
  map key value hentry := by
    obtain ⟨htype, name, hname, hmem⟩ := h.map key value hentry
    exact ⟨htype, name, hname, nested_after b call ▸ List.mem_append_left _ hmem⟩
  member group hgroup := by
    obtain ⟨i, hi, hget⟩ := h.member group hgroup
    exact ⟨i, hi, getElem?_oneofs_after hget call⟩
  plain := h.plain
  defaultText := h.defaultText

/-- A call leaves the field that it declares after those so far. -/
theorem fields_after (b : MessageBuilder) (call : MessageCall) : ∃ added,
    (b.after call).fields = b.fields ++ added ∧
      List.Forall₂ (MessageCall.Leaves (b.after call)) ([call].filter (·.declared?.isSome)) added := by
  have hone {b : MessageBuilder} {call : MessageCall} {p : PendingField} (hsome : call.declared?.isSome)
      (h : call.Leaves b p) :
      List.Forall₂ (MessageCall.Leaves b) ([call].filter (·.declared?.isSome)) [p] := by
    rw [List.filter_singleton, hsome]
    exact .cons h .nil
  cases call with
  | message | enumeration => exact ⟨[], (List.append_nil _).symm, .nil⟩
  | field | fieldWithDefault | repeated =>
    refine ⟨_, rfl, hone rfl ⟨rfl, ?_, nofun, nofun, fun _ => rfl, rfl⟩⟩
    rintro _ ⟨⟩
    exact ⟨rfl, rfl, rfl⟩
  | map =>
    refine ⟨_, rfl, hone rfl ⟨rfl, nofun, ?_, nofun, fun _ => rfl, rfl⟩⟩
    rintro _ _ ⟨⟩
    exact ⟨rfl, _, rfl, List.mem_append_right _ List.mem_cons_self⟩
  | oneofField group name number type =>
    rw [after, oneofField]
    split
    · rename_i i hi
      refine ⟨_, rfl, hone rfl ⟨rfl, ?_, nofun, ?_, nofun, rfl⟩⟩
      · rintro _ ⟨⟩
        exact ⟨rfl, rfl, rfl⟩
      · rintro _ ⟨⟩
        obtain ⟨hlt, hget, -⟩ := List.idxOf?_eq_some_iff.1 hi
        exact ⟨i, rfl, List.getElem?_eq_some_iff.2 ⟨hlt, hget⟩⟩
    · refine ⟨_, rfl, hone rfl ⟨rfl, ?_, nofun, ?_, nofun, rfl⟩⟩
      · rintro _ ⟨⟩
        exact ⟨rfl, rfl, rfl⟩
      · rintro _ ⟨⟩
        exact ⟨_, rfl, List.getElem?_concat_length⟩

theorem eraseDups_concat (names : List String) (name : String) :
    (names ++ [name]).eraseDups =
      if name ∈ names.eraseDups then names.eraseDups else names.eraseDups ++ [name] := by
  rw [List.eraseDups_append, List.cons_removeAll, List.nil_removeAll]
  by_cases h : name ∈ names
  · rw [if_neg (by simpa using h), if_pos (List.mem_eraseDups.2 h)]
    exact List.append_nil _
  · rw [if_pos (by simpa using h), if_neg (mt List.mem_eraseDups.1 h)]
    rfl

theorem nodup_eraseDups (names : List String) : names.eraseDups.Nodup := by
  induction names using List.reverseRecOn with
  | nil => exact .nil
  | append_singleton names name ih =>
    rw [eraseDups_concat]
    split
    · exact ih
    · rename_i hnew
      exact List.nodup_append.2 ⟨ih, List.pairwise_singleton _ _, by grind⟩

/-- **A call keeps what the builder has**, and adds what is its own. -/
theorem Records.after (h : b.Records calls) (call : MessageCall) : (b.after call).Records (calls ++ [call]) := by
  obtain ⟨added, hadded, hleaves⟩ := fields_after b call
  refine ⟨?_, ?_, ?_, ?_⟩
  · rw [hadded, List.filter_append]
    exact List.rel_append (h.fields.imp fun _ _ hp => leaves_after hp call) hleaves
  · rw [List.filterMap_append]
    cases hgroup : call.group? with
    | none =>
      rw [oneofs_after_of_none hgroup, h.oneofs, List.filterMap_cons_none hgroup]
      exact congrArg _ (List.append_nil _).symm
    | some group =>
      rw [oneofs_after_of_some hgroup, h.oneofs, List.filterMap_cons_some hgroup]
      exact (eraseDups_concat _ group).symm
  · rw [nested_after, h.nested, List.filterMap_append]
  · rw [enums_after, h.enums, List.filterMap_append]

theorem afterAll_concat (b : MessageBuilder) (calls : List MessageCall) (call : MessageCall) :
    b.afterAll (calls ++ [call]) = (b.afterAll calls).after call := by
  induction calls generalizing b with
  | nil => rfl
  | cons first rest ih => exact ih _

/-- **A builder has what was called for.** -/
theorem records_ofCalls (name : String) (calls : List MessageCall) : (ofCalls name calls).Records calls := by
  induction calls using List.reverseRecOn with
  | nil => exact records_empty name
  | append_singleton calls call ih =>
    rw [ofCalls, afterAll_concat]
    exact ih.after call

theorem keeps_ofCalls (name : String) (calls : List MessageCall) :
    (ofCalls name calls).name = name ∧ (ofCalls name calls).isMapEntry = false := by
  induction calls using List.reverseRecOn with
  | nil => exact ⟨rfl, rfl⟩
  | append_singleton calls call ih =>
    rw [ofCalls, afterAll_concat, (keeps_after _ call).1, (keeps_after _ call).2]
    exact ih

/-! ### What is built -/

theorem buildAll_eq_map (scope : String) (bs : List MessageBuilder) :
    build.buildAll scope bs = bs.map (build scope) := by
  induction bs with
  | nil => rw [build.buildAll, List.map_nil]
  | cons b rest ih => rw [build.buildAll, ih, List.map_cons]

theorem build_eq (scope : String) (b : MessageBuilder) :
    b.build scope = {
      name := b.name
      fields := b.fields.map (buildField (joinName scope b.name))
      nested := b.nested.map (build (joinName scope b.name))
      enums := b.enums.map EnumBuilder.build
      oneofs := b.oneofs
      isMapEntry := b.isMapEntry } := by
  cases b
  rw [build, buildAll_eq_map]

theorem isEntryOf_mapEntry (scope name : String) (key value : FieldType) :
    ((mapEntry name key value).build scope).IsEntryOf key value := by
  rw [build_eq]
  exact ⟨rfl, rfl, rfl, List.forall_mem_cons.2 ⟨rfl, List.forall_mem_singleton.2 rfl⟩, rfl, rfl, rfl⟩

/-- What is built of a field is what was asked for. -/
theorem meets_buildField {call : MessageCall} {p : PendingField} (h : call.Leaves b p) (scope : String) :
    (buildField (joinName scope b.name) p).Meets (joinName scope b.name) (b.build scope) call := by
  have hkeeps : (buildField (joinName scope b.name) p).name = p.decl.name ∧
      (buildField (joinName scope b.name) p).number = p.decl.number ∧
      (buildField (joinName scope b.name) p).label = p.decl.label ∧
      (buildField (joinName scope b.name) p).type = p.decl.type ∧
      (buildField (joinName scope b.name) p).oneofIndex = p.decl.oneofIndex ∧
      (buildField (joinName scope b.name) p).defaultText = p.decl.defaultText := by
    unfold buildField
    split <;> exact ⟨rfl, rfl, rfl, rfl, rfl, rfl⟩
  obtain ⟨hname, hnumber, hlabel, htype, hindex, hdefault⟩ := hkeeps
  constructor
  · rw [hname, hnumber, hlabel]
    exact h.declared
  · intro type hsome
    obtain ⟨hcode, htypeName, hnone⟩ := h.type type hsome
    rw [htype, buildField, hnone]
    exact ⟨hcode, htypeName⟩
  · intro key value hsome
    obtain ⟨hmessage, name, hentry, hmem⟩ := h.map key value hsome
    refine ⟨htype.trans hmessage, (mapEntry name key value).build (joinName scope b.name), ?_, ?_,
      isEntryOf_mapEntry _ _ _ _⟩
    · rw [build_eq scope b]
      exact List.mem_map_of_mem hmem
    · rw [buildField, hentry, build_eq]
      rfl
  · intro group hsome
    obtain ⟨i, hi, hget⟩ := h.member group hsome
    rw [build_eq scope b]
    exact ⟨i, hindex.trans hi, hget⟩
  · exact fun hnone => hindex.trans (h.plain hnone)
  · exact hdefault.trans h.defaultText

theorem meets_build (scope name : String) (calls : List MessageCall) :
    ((ofCalls name calls).build scope).Meets (joinName scope name) name calls := by
  have h := records_ofCalls name calls
  obtain ⟨hname, hentry⟩ := keeps_ofCalls name calls
  generalize ofCalls name calls = b at *
  subst hname
  have hfields := h.fields
  constructor
  · rw [build_eq]
  · rw [build_eq]
    exact hentry
  · rw [show (b.build scope).fields = b.fields.map (buildField (joinName scope b.name)) by rw [build_eq]]
    exact List.forall₂_map_right_iff.2 (hfields.imp fun _ _ hp => meets_buildField hp scope)
  · rw [build_eq]
    exact h.oneofs
  · rw [build_eq, h.oneofs]
    exact nodup_eraseDups _
  · rw [build_eq, h.enums, List.map_filterMap]

/-- **What is nested is what the calls ask for.** -/
theorem assembled_build (scope : String) : (calls : List MessageCall) →
    MessageDecl.Assembled scope calls ((calls.filterMap MessageCall.nested?).map (build scope))
  | [] => .nil
  | .message name inner :: rest => by
    refine .message (meets_build scope name inner) ?_ (assembled_build scope rest)
    rw [build_eq, (keeps_ofCalls name inner).1, (records_ofCalls name inner).nested]
    exact assembled_build (joinName scope name) inner
  | .map _ _ _ _ :: rest => .map (isEntryOf_mapEntry scope _ _ _) (assembled_build scope rest)
  | .field _ _ _ :: rest | .fieldWithDefault _ _ _ _ :: rest | .repeated _ _ _ :: rest
  | .oneofField _ _ _ _ :: rest | .enumeration _ _ :: rest => .other rfl (assembled_build scope rest)

end MessageBuilder

namespace FileBuilder

theorem foldl_after (b : FileBuilder) (calls : List FileCall) :
    calls.foldl after b = { b with
      dependencies := b.dependencies ++ calls.filterMap FileCall.path?
      messages := b.messages ++ (calls.filterMap FileCall.message?).filterMap MessageCall.nested?
      enums := b.enums ++ calls.filterMap FileCall.enum? } := by
  induction calls generalizing b with
  | nil => simp
  | cons call rest ih =>
    rw [List.foldl_cons, ih]
    cases call <;> simp [after, dependency, message, enumeration, List.filterMap_cons, FileCall.path?,
      FileCall.message?, FileCall.enum?, MessageCall.nested?]

/-- **What is built is what the calls ask for**, at any depth. Each message has the fields that its calls
declare, in their order. A map field is repeated and has the absolute name of a message nested in its own,
which is a map entry with a key and a value of the types given. A member of a oneof has the position of its
group among those of its own message, which are in order of first use; no other field has a position. And
no message but those made for maps is a map entry. -/
theorem build_assembled (edition : Edition) (name package : String) (calls : List FileCall) :
    let file := (ofCalls edition name package calls).build
    file.name = name ∧ file.package = package ∧ file.edition = edition ∧
    file.dependencies = calls.filterMap FileCall.path? ∧
    file.enums = calls.filterMap (fun call => call.enum?.map EnumBuilder.build) ∧
    MessageDecl.Assembled package (calls.filterMap FileCall.message?) file.messages := by
  rw [ofCalls, foldl_after]
  exact ⟨rfl, rfl, rfl, rfl, List.map_filterMap, MessageBuilder.assembled_build package _⟩

end FileBuilder

end Protoscript
