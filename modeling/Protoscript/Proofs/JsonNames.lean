import Protoscript.Proofs.JsonScalars
import Protoscript.Proofs.Presence

/-!
# Names in JSON

Members are written under the names of fields, and found by JSON name first. In pools that were made with
builders the JSON name of a field is its name in lower camel case, so that a name is the JSON name of no
other field, and every member is found again.

* `MessageBuilder.Made`, `Pool.Built` — what the calls of builders make, and the pools of such files;
* `underscore_not_mem_lowerCamel` — lower camel case has no underscores;
* `Pool.NamesJson` — pools whose fields and enum values are told apart by their names in JSON;
* `Pool.Built.namesJson` — pools made with builders are;
* `Pool.NamesJson.memberField?_name` — a member is found by the name of its field.
-/

namespace Protoscript

/-! ## Lower camel case -/

theorem Char.eq_of_ofNat {n : Nat} {c : Char} (hc : c.toNat ≠ 0) (h : Char.ofNat n = c) :
    n = c.toNat := by
  subst h
  by_cases hvalid : n.isValidChar
  · rw [Char.ofNat, dif_pos hvalid]
    rfl
  · rw [Char.ofNat, dif_neg hvalid] at hc
    exact absurd rfl hc

/-- Upper case has an underscore for an underscore only. -/
theorem underscore_not_mem_uppercase {c : Char} (hc : c ≠ '_') : '_' ∉ uppercase c := by
  have hascii : ∀ n < 0x80, Char.ofNat n ≠ '_' → (Char.ofNat n).toUpper ≠ '_' := by decide
  have hexpansions : ∀ e ∈ caseExpansions, '_' ∉ e.2.map Char.ofNat := by decide
  have hruns : ∀ r ∈ caseRuns, (95 : Int) < r.first + r.shift ∨ (r.last : Int) + r.shift < 95 := by
    decide +kernel
  dsimp only [uppercase]
  split
  · rename_i hcode
    have hupper := hascii c.toNat hcode
    rw [Char.ofNat_toNat] at hupper
    exact fun hmem => hupper hc (List.mem_singleton.1 hmem).symm
  split
  · rename_i e he
    exact hexpansions e (List.mem_of_find?_eq_some he)
  split
  · rename_i r hr
    have hrun := hruns r (List.mem_of_find?_eq_some hr)
    have hwithin := List.find?_some hr
    simp only [Bool.and_eq_true, decide_eq_true_eq] at hwithin
    intro hmem
    have hcode := Char.eq_of_ofNat (c := '_') (by decide) (List.mem_singleton.1 hmem).symm
    have hunderscore : '_'.toNat = 95 := rfl
    omega
  · exact fun hmem => hc (List.mem_singleton.1 hmem).symm

theorem underscore_not_mem_lowerCamelChars (raised : Bool) (cs : List Char) :
    '_' ∉ lowerCamelChars raised cs := by
  induction cs generalizing raised with
  | nil => exact List.not_mem_nil
  | cons c rest ih =>
    rw [lowerCamelChars]
    split
    · exact ih true
    rename_i hc
    have hc : c ≠ '_' := by simpa using hc
    split
    · exact fun hmem => (List.mem_append.1 hmem).elim (underscore_not_mem_uppercase hc) (ih false)
    · exact fun hmem => (List.mem_cons.1 hmem).elim (fun h => hc h.symm) (ih false)

/-- **There is no underscore in lower camel case.** -/
theorem underscore_not_mem_lowerCamel (name : String) : '_' ∉ (lowerCamel name).toList := by
  rw [lowerCamel, String.toList_ofList]
  exact underscore_not_mem_lowerCamelChars false name.toList

theorem lowerCamelChars_eq_self {cs : List Char} (h : '_' ∉ cs) : lowerCamelChars false cs = cs := by
  induction cs with
  | nil => rfl
  | cons c rest ih =>
    obtain ⟨hc, hrest⟩ := not_or.1 (List.mem_cons.not.1 h)
    rw [lowerCamelChars, if_neg (by simpa using Ne.symm hc), if_neg Bool.false_ne_true, ih hrest]

/-- A name without underscores is in lower camel case. -/
theorem lowerCamel_eq_self {name : String} (h : '_' ∉ name.toList) : lowerCamel name = name := by
  rw [lowerCamel, lowerCamelChars_eq_self h, String.ofList_toList]

/-! ## What builders make -/

/-- Whether a message builder is what calls make of an empty one. -/
inductive MessageBuilder.Made : MessageBuilder → Prop
  | start {name : String} : Made { name := name }
  | field {b : MessageBuilder} (hb : b.Made) {name : String} {number : Int32} {type : FieldType} :
    Made (b.field name number type)
  | fieldWithDefault {b : MessageBuilder} (hb : b.Made) {name : String} {number : Int32}
    {type : FieldType} {text : String} : Made (b.fieldWithDefault name number type text)
  | repeated {b : MessageBuilder} (hb : b.Made) {name : String} {number : Int32} {type : FieldType} :
    Made (b.repeated name number type)
  | map {b : MessageBuilder} (hb : b.Made) {name : String} {number : Int32} {key value : FieldType} :
    Made (b.map name number key value)
  | oneofField {b : MessageBuilder} (hb : b.Made) {group name : String} {number : Int32}
    {type : FieldType} : Made (b.oneofField group name number type)
  | message {b : MessageBuilder} (hb : b.Made) {nested : MessageBuilder} (hnested : nested.Made) :
    Made (b.message nested)
  | enumeration {b : MessageBuilder} (hb : b.Made) {nested : EnumBuilder} : Made (b.enumeration nested)

/-- Whether the messages of a file builder are. -/
def FileBuilder.Made (b : FileBuilder) : Prop := ∀ m ∈ b.messages, m.Made

/-- Whether a pool was made with builders. -/
def Pool.Built (p : Pool) : Prop :=
  ∃ (id : Nat) (builders : List FileBuilder), (∀ b ∈ builders, b.Made) ∧
    Pool.ofFiles id (builders.map FileBuilder.build) = .ok p

/-- Whether the JSON name that a field was declared with is its name in lower camel case. -/
def FieldDecl.Camel (f : FieldDecl) : Prop := f.jsonName = some (lowerCamel f.name)

/-- Whether the JSON names in the declarations of a builder are in lower camel case. -/
inductive MessageBuilder.Camel : MessageBuilder → Prop
  | mk {b : MessageBuilder} (fields : ∀ f ∈ b.fields, f.decl.Camel) (nested : ∀ n ∈ b.nested, n.Camel) :
    b.Camel

/-- Whether the JSON names in a declaration are in lower camel case. -/
inductive MessageDecl.Camel : MessageDecl → Prop
  | mk {m : MessageDecl} (fields : ∀ f ∈ m.fields, f.Camel) (nested : ∀ n ∈ m.nested, n.Camel) : m.Camel

namespace MessageBuilder

variable {b : MessageBuilder}

theorem Camel.congr (hb : b.Camel) {c : MessageBuilder} (hfields : c.fields = b.fields)
    (hnested : c.nested = b.nested) : c.Camel := by
  obtain ⟨fields, nested⟩ := hb
  exact .mk (hfields ▸ fields) (hnested ▸ nested)

theorem Camel.push (hb : b.Camel) {f : PendingField} (hf : f.decl.Camel) : (b.push f).Camel := by
  obtain ⟨hfields, hnested⟩ := hb
  refine .mk (fun g hg => ?_) hnested
  rcases List.mem_append.1 hg with hg | hg
  · exact hfields g hg
  · exact List.mem_singleton.1 hg ▸ hf

theorem Camel.message (hb : b.Camel) {n : MessageBuilder} (hn : n.Camel) : (b.message n).Camel := by
  obtain ⟨hfields, hnested⟩ := hb
  refine .mk hfields fun m hm => ?_
  rcases List.mem_append.1 hm with hm | hm
  · exact hnested m hm
  · exact List.mem_singleton.1 hm ▸ hn

theorem camel_mapEntry (name : String) (key value : FieldType) : (mapEntry name key value).Camel := by
  refine .mk (fun f hf => ?_) (List.forall_mem_nil _)
  have hf : f ∈ [⟨declare "key" 1 key .optional, none⟩, ⟨declare "value" 2 value .optional, none⟩] := hf
  rcases List.mem_pair.1 hf with rfl | rfl
  · rfl
  · rfl

/-- What the calls make declares JSON names in lower camel case. -/
theorem Made.camel (h : b.Made) : b.Camel := by
  induction h with
  | start => exact .mk (List.forall_mem_nil _) (List.forall_mem_nil _)
  | field _ ih => exact ih.push rfl
  | fieldWithDefault _ ih => exact ih.push rfl
  | repeated _ ih => exact ih.push rfl
  | map _ ih => exact (ih.message (camel_mapEntry _ _ _)).push rfl
  | oneofField _ ih =>
    unfold MessageBuilder.oneofField
    dsimp only
    split
    · exact ih.push rfl
    · refine Camel.push (ih.congr ?_ ?_) ?_ <;> rfl
  | message _ _ ih ihn => exact ih.message ihn
  | enumeration _ ih => exact ih.congr rfl rfl

theorem camel_buildField {f : PendingField} (hf : f.decl.Camel) (fullName : String) :
    (buildField fullName f).Camel := by
  unfold buildField
  split
  · exact hf
  · exact hf

mutual

theorem Camel.build : {b : MessageBuilder} → (hb : b.Camel) → (scope : String) → (b.build scope).Camel
  | ⟨name, fields, oneofs, nested, enums, isMapEntry⟩, hb, scope => by
    obtain ⟨hfields, hnested⟩ := hb
    rw [MessageBuilder.build]
    refine .mk (fun f hf => ?_) (Camel.buildAll hnested _)
    obtain ⟨g, hg, rfl⟩ := List.mem_map.1 hf
    exact camel_buildField (hfields g hg) _

theorem Camel.buildAll : {bs : List MessageBuilder} → (hbs : ∀ b ∈ bs, b.Camel) → (scope : String) →
    ∀ m ∈ build.buildAll scope bs, m.Camel
  | [], _, _ => by
    rw [build.buildAll]
    exact List.forall_mem_nil _
  | b :: rest, hbs, scope => by
    rw [build.buildAll]
    refine List.forall_mem_cons.2 ⟨Camel.build (hbs b List.mem_cons_self) scope, ?_⟩
    exact Camel.buildAll (fun c hc => hbs c (List.mem_cons_of_mem _ hc)) scope

end

end MessageBuilder

/-! ## The messages of files -/

mutual

theorem MessageDecl.Camel.flatten {m : MessageDecl} (hm : m.Camel) (file : Nat) (scope : String)
    (parent : Option Nat) (place : Nat) :
    ∀ site ∈ MessageSite.flatten file scope parent place m, ∀ f ∈ site.decl.fields, f.Camel := by
  obtain ⟨name, fields, nested, enums, oneofs, isMapEntry⟩ := m
  obtain ⟨hfields, hnested⟩ := hm
  intro site hsite
  rw [MessageSite.flatten] at hsite
  rcases List.mem_cons.1 hsite with rfl | hsite
  · exact hfields
  · exact MessageDecl.camel_flattenAll hnested _ _ _ _ site hsite

theorem MessageDecl.camel_flattenAll {ms : List MessageDecl} (hms : ∀ m ∈ ms, m.Camel) (file : Nat)
    (scope : String) (parent : Option Nat) (place : Nat) :
    ∀ site ∈ MessageSite.flatten.flattenAll file scope parent place ms,
      ∀ f ∈ site.decl.fields, f.Camel := by
  intro site hsite
  cases ms with
  | nil => cases hsite
  | cons m rest =>
    rw [MessageSite.flatten.flattenAll] at hsite
    rcases List.mem_append.1 hsite with hsite | hsite
    · exact (hms m List.mem_cons_self).flatten _ _ _ _ site hsite
    · exact MessageDecl.camel_flattenAll (fun n hn => hms n (List.mem_cons_of_mem _ hn)) _ _ _ _ site hsite

end

/-- The fields in files made with builders have JSON names in lower camel case. -/
theorem camel_messageSites {builders : List FileBuilder} (hmade : ∀ b ∈ builders, b.Made) :
    ∀ site ∈ messageSites (builders.map FileBuilder.build), ∀ f ∈ site.decl.fields, f.Camel := by
  intro site hsite
  obtain ⟨file, place, hfile, hmem⟩ := exists_of_mem_messageSites hsite
  obtain ⟨b, hb, rfl⟩ := List.mem_map.1 (List.mem_of_getElem? hfile)
  refine MessageDecl.camel_flattenAll (fun m hm => ?_) _ _ _ _ site hmem
  obtain ⟨c, hc, rfl⟩ := List.mem_map.1 hm
  exact (hmade b hb c hc).camel.build _

/-! ## Resolved fields -/

/-- A field that was resolved has the names that it was declared with. -/
theorem Scope.names_of_field {s : Scope} {site : MessageSite} {decl : FieldDecl} {f : FieldInfo}
    (h : s.field site decl = .ok f) :
    f.name = decl.name ∧ f.jsonName = decl.jsonName.getD (lowerCamel decl.name) := by
  unfold Scope.field at h
  extract_lets isRepeated edition withKind withNumber at h
  split at h
  · cases h
  have hkind {kind : KindRef} (h : withKind kind = .ok f) :
      f.name = decl.name ∧ f.jsonName = decl.jsonName.getD (lowerCamel decl.name) := by
    dsimp only [withKind] at h
    split at h
    · cases h
      exact ⟨rfl, rfl⟩
    · split at h
      · cases h
        exact ⟨rfl, rfl⟩
      · cases h
  dsimp only [withNumber] at h
  split at h
  · exact hkind h
  · obtain ⟨symbol, -, h⟩ := Except.bind_ok.1 h
    cases symbol <;> exact hkind h
  · obtain ⟨symbol, -, h⟩ := Except.bind_ok.1 h
    cases symbol <;> exact hkind h
  · split at h
    · cases h
    · obtain ⟨symbol, -, h⟩ := Except.bind_ok.1 h
      cases symbol <;> exact hkind h

/-- The JSON names of a message that was resolved are distinct, and those that its fields were declared
with. -/
theorem Scope.jsonNames_of_message {s : Scope} {site : MessageSite} {m : MessageInfo}
    (h : s.message site = .ok m) (hcamel : ∀ f ∈ site.decl.fields, f.Camel) :
    (m.fields.map (·.jsonName)).Nodup ∧ ∀ f ∈ m.fields, f.jsonName = lowerCamel f.name := by
  unfold Scope.message at h
  obtain ⟨fields, hfields, h⟩ := Except.bind_ok.1 h
  obtain ⟨numbers, -, h⟩ := Except.bind_ok.1 h
  obtain ⟨jsonNames, -, h⟩ := Except.bind_ok.1 h
  obtain ⟨names, -, h⟩ := Except.bind_ok.1 h
  cases h
  refine ⟨((List.mergeSort_perm fields _).map _).nodup_iff.2 jsonNames.down, fun f hf => ?_⟩
  obtain ⟨decl, hmem, hdecl⟩ := exists_of_forall₂ (Except.mapM_ok.1 hfields) (List.mem_mergeSort.1 hf)
  obtain ⟨hname, hjson⟩ := names_of_field hdecl
  rw [hjson, hcamel decl hmem, hname]
  rfl

/-! ## Pools -/

/-- Whether the fields of a message, and the values of an enum, are told apart by their names in JSON. -/
structure Pool.NamesJson (p : Pool) : Prop where
  distinct : ∀ m ∈ p.messages, (m.fields.map (·.jsonName)).Nodup
  camel : ∀ m ∈ p.messages, ∀ f ∈ m.fields, f.jsonName = lowerCamel f.name
  values : ∀ e ∈ p.enums, (e.values.map (·.1)).Nodup

/-- The names of the values of an enum in a file are distinct. -/
theorem EnumSite.nodup_values {site : EnumSite} (h : site.names.Nodup) :
    (site.decl.values.map (·.1)).Nodup := by
  have hvalues : (site.decl.values.map fun v => joinName site.scope v.1).Nodup := (List.nodup_cons.1 h).2
  rw [← Function.comp_def (joinName site.scope) Prod.fst, ← List.map_map] at hvalues
  exact hvalues.of_map

/-- The values of the enums of a pool that was made from files are told apart by their names. -/
theorem Pool.nodup_values_ofFiles {p : Pool} {id : Nat} {files : List FileDecl}
    (h : Pool.ofFiles id files = .ok p) : ∀ e ∈ p.enums, (e.values.map (·.1)).Nodup := by
  intro e he
  obtain ⟨s, -, -, -, hnames, -, henums⟩ := resolved_ofFiles h
  obtain ⟨site, hmem, hsite⟩ := exists_of_forall₂ henums he
  have hsites := (List.nodup_flatMap.1 (List.nodup_append.1 hnames).2.1).1 site hmem
  rw [(Scope.place_of_enumeration hsite).2.2.2.2]
  exact EnumSite.nodup_values hsites

/-- **In pools made with builders, fields and enum values are told apart by their names in JSON.** -/
theorem Pool.Built.namesJson {p : Pool} (h : p.Built) : p.NamesJson := by
  obtain ⟨id, builders, hmade, hfiles⟩ := h
  have hmessage (m : MessageInfo) (hm : m ∈ p.messages) :
      (m.fields.map (·.jsonName)).Nodup ∧ ∀ f ∈ m.fields, f.jsonName = lowerCamel f.name := by
    obtain ⟨s, site, hmem, -, hsite⟩ := messages_ofFiles hfiles m hm
    exact Scope.jsonNames_of_message hsite (camel_messageSites hmade site hmem)
  exact ⟨fun m hm => (hmessage m hm).1, fun m hm => (hmessage m hm).2, nodup_values_ofFiles hfiles⟩

namespace Pool.NamesJson

variable {p : Pool} (hp : p.NamesJson)

include hp

/-- **A member is found by the name of its field.** A field whose JSON name is that name has a name
without underscores, so it is the field itself. -/
theorem memberField?_name {f : FieldDescriptor} (hf : f.Of p) :
    f.message.memberField? f.name = some f := by
  obtain ⟨-, hinfo⟩ := MessageDescriptor.mem_fields.1 hf.declared
  have hmem := hf.info_mem
  unfold MessageDescriptor.memberField?
  rcases hjson : f.message.jsonField? f.name with _ | g
  · exact MessageDescriptor.field?_eq_some.2 ⟨hf.declared, rfl⟩
  · obtain ⟨info, hfind, rfl⟩ := Option.map_eq_some_iff.1 hjson
    have hinfo' := List.mem_of_find?_eq_some hfind
    have hname : info.jsonName = f.name := by simpa using List.find?_some hfind
    have hcamel := hp.camel _ hmem info hinfo'
    -- the name is a JSON name, so it has no underscore
    have hplain : '_' ∉ f.name.toList := by
      rw [← hname, hcamel]
      exact underscore_not_mem_lowerCamel info.name
    have hself : f.info.jsonName = f.name :=
      (hp.camel _ hmem f.info hinfo).trans (lowerCamel_eq_self hplain)
    have hsame : info = f.info :=
      List.inj_on_of_nodup_map (hp.distinct _ hmem) hinfo' hinfo (hname.trans hself.symm)
    rw [hsame]

/-- The values of an enum that a field holds are told apart by their names. -/
theorem namesApart {f : FieldDescriptor} (hf : f.Of p) : f.kind.NamesApart := by
  obtain rfl := hf.pool
  unfold FieldDescriptor.kind
  split
  · trivial
  · trivial
  · rename_i i _
    dsimp only [Kind.NamesApart, EnumDescriptor.NamesApart, EnumDescriptor.values, EnumDescriptor.info]
    by_cases hi : i < f.message.pool.enums.length
    · rw [List.getD_eq_getElem _ _ hi]
      exact hp.values _ (List.getElem_mem hi)
    · rw [List.getD_eq_default _ _ (Nat.le_of_not_lt hi)]
      exact .nil

/-- So are those of an enum that a map holds. -/
theorem namesApart_valueKind {f : FieldDescriptor} (hf : f.Of p) : f.valueKind.NamesApart := by
  unfold FieldDescriptor.valueKind
  split
  · rename_i entry hentry
    unfold FieldDescriptor.entryValue
    rcases hnumber : entry.numbered? 2 with _ | g
    · trivial
    · exact hp.namesApart (FieldDescriptor.of_mem (hf.kind entry hentry)
        (MessageDescriptor.numbered?_mem hnumber))
  · exact hp.namesApart hf

end Pool.NamesJson

end Protoscript
