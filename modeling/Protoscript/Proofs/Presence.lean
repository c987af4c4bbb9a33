import Protoscript.Schema.Resolve
import Protoscript.Proofs.Reading

/-!
# Fields with presence

The language of schemas gives presence to the members of oneofs, to single messages, and in proto2 to
every single value. In pools that were made from files it is so.

* `Pool.TracksPresence` — whether the fields with presence are these;
* `Pool.tracksPresence_ofFiles` — they are, if the pool was made from files;
* `Pool.edition_ofFiles` — the messages of such a pool have the editions of their files.
-/

namespace Protoscript

/-- Whether values of a type are messages. -/
def KindRef.isMessage : KindRef → Bool
  | message _ => true
  | scalar _ | enum _ => false

/-- Whether the language of schemas gives presence to a field of a file of an edition. -/
def FieldInfo.tracksPresence (f : FieldInfo) (edition : Edition) : Bool :=
  f.oneof.isSome || (!f.isRepeated && (f.kind.isMessage || edition == .proto2))

/-- Whether the fields of a pool have presence where the language of schemas gives it to them. -/
def Pool.TracksPresence (p : Pool) : Prop :=
  ∀ m ∈ p.messages, ∀ f ∈ m.fields, f.hasPresence = f.tracksPresence m.edition

instance (p : Pool) : Decidable p.TracksPresence :=
  inferInstanceAs
    (Decidable (∀ m ∈ p.messages, ∀ f ∈ m.fields, f.hasPresence = f.tracksPresence m.edition))

variable {p : Pool}

namespace FieldDescriptor.Of

variable {f : FieldDescriptor}

theorem hasPresence_eq (hf : f.Of p) (hp : p.TracksPresence) :
    f.hasPresence = f.info.tracksPresence f.message.info.edition :=
  hp _ hf.info_mem f.info (MessageDescriptor.mem_fields.1 hf.declared).2

/-- A field without presence reads as an empty list or map or as a scalar while it is unset. -/
theorem default_of_no_presence (hf : f.Of p) (hp : p.TracksPresence) (hno : f.hasPresence = false) :
    .defaultOf f = Stored.map [] ∨ .defaultOf f = Stored.list [] ∨
      ∃ s, .defaultOf f = Stored.scalar s := by
  rw [hf.hasPresence_eq hp] at hno
  simp only [FieldInfo.tracksPresence, Bool.or_eq_false_iff, Bool.and_eq_false_iff,
    Bool.not_eq_false'] at hno
  unfold Stored.defaultOf
  split
  · exact .inl rfl
  · rename_i hmap
    split
    · exact .inr (.inl rfl)
    · rename_i hlist
      refine .inr (.inr ?_)
      have hsingle : f.info.isRepeated = false := by
        unfold isList at hlist
        simpa [hmap] using hlist
      have hkind : f.info.kind.isMessage = false := by
        rcases hno.2 with h | h
        · rw [hsingle] at h
          cases h
        · exact h.1
      unfold Stored.singleDefault
      rcases hdefault : f.defaultScalar? with _ | s
      · unfold defaultScalar? FieldDescriptor.kind at hdefault
        rcases hdeclared : f.info.declaredDefault with _ | s <;> rw [hdeclared] at hdefault
        · rcases hinfo : f.info.kind with t | i | i <;> rw [hinfo] at hdefault hkind
          · cases hdefault
          · cases hkind
          · cases hdefault
        · cases hdefault
      · exact ⟨s, rfl⟩

end FieldDescriptor.Of

/-! ## Pools of files -/

/-- What is so for a field that was resolved: its number may be used, and it has presence where the
language of schemas gives it to it. -/
theorem Scope.of_field {s : Scope} {site : MessageSite} {decl : FieldDecl} {f : FieldInfo}
    (h : s.field site decl = .ok f) : isFieldNumber f.number = true ∧
      f.hasPresence = f.tracksPresence (s.files.getD site.file default).edition := by
  unfold Scope.field at h
  extract_lets isRepeated edition withKind withNumber at h
  split at h
  · cases h
  rename_i hnumber
  have hnumber : isFieldNumber decl.number = true := by simpa using hnumber
  have hnumber : isFieldNumber decl.number.toNat = true := by
    have hpositive : 1 ≤ decl.number := by
      simp only [isFieldNumber, Bool.and_eq_true, decide_eq_true_eq] at hnumber
      exact hnumber.1.1
    rwa [Int.toNat_of_nonneg (by omega)]
  -- whatever the kind, presence is decided when the field is made
  have hkind {kind : KindRef} (h : withKind kind = .ok f) :
      isFieldNumber f.number = true ∧ f.hasPresence = f.tracksPresence edition := by
    dsimp only [withKind] at h
    split at h
    · cases h
      exact ⟨hnumber, by cases kind <;> rfl⟩
    · split at h
      · cases h
        exact ⟨hnumber, by cases kind <;> rfl⟩
      · cases h
  dsimp only [withNumber] at h
  split at h
  · exact hkind h
  · obtain ⟨symbol, -, h⟩ := Except.bind_ok.1 h
    cases symbol <;> exact hkind h
  · obtain ⟨symbol, -, h⟩ := Except.bind_ok.1 h
    cases symbol <;> exact hkind h
  · split at h
    · cases h
    · obtain ⟨symbol, -, h⟩ := Except.bind_ok.1 h
      cases symbol <;> exact hkind h

/-- The fields of a message were resolved in the edition of its file. -/
theorem Scope.of_message {s : Scope} {site : MessageSite} {m : MessageInfo} (h : s.message site = .ok m)
    {f : FieldInfo} (hf : f ∈ m.fields) :
    isFieldNumber f.number = true ∧ f.hasPresence = f.tracksPresence m.edition := by
  unfold Scope.message at h
  obtain ⟨fields, hfields, h⟩ := Except.bind_ok.1 h
  obtain ⟨numbers, -, h⟩ := Except.bind_ok.1 h
  obtain ⟨-, -, h⟩ := Except.bind_ok.1 h
  obtain ⟨names, -, h⟩ := Except.bind_ok.1 h
  cases h
  obtain ⟨decl, -, hdecl⟩ := exists_of_forall₂ (Except.mapM_ok.1 hfields) (List.mem_mergeSort.1 hf)
  exact of_field hdecl

/-- What a message is called, and where it is. -/
theorem Scope.place_of_message {s : Scope} {site : MessageSite} {m : MessageInfo} (h : s.message site = .ok m) :
    m.name = site.decl.name ∧ m.fullName = site.fullName ∧ m.parent = site.parent ∧
      m.package = (s.files.getD site.file default).package ∧
      m.edition = (s.files.getD site.file default).edition := by
  unfold Scope.message at h
  obtain ⟨fields, -, h⟩ := Except.bind_ok.1 h
  obtain ⟨numbers, -, h⟩ := Except.bind_ok.1 h
  obtain ⟨-, -, h⟩ := Except.bind_ok.1 h
  obtain ⟨names, -, h⟩ := Except.bind_ok.1 h
  cases h
  exact ⟨rfl, rfl, rfl, rfl, rfl⟩

/-- What an enum is called, and where it is. -/
theorem Scope.place_of_enumeration {s : Scope} {site : EnumSite} {e : EnumInfo}
    (h : s.enumeration site = .ok e) :
    e.name = site.decl.name ∧ e.fullName = site.fullName ∧ e.parent = site.parent ∧
      e.package = (s.files.getD site.file default).package ∧ e.values = site.decl.values := by
  unfold Scope.enumeration at h
  dsimp only at h
  split at h
  · cases h
  · split at h
    · cases h
    · obtain ⟨-, -, h⟩ := Except.bind_ok.1 h
      cases h
      exact ⟨rfl, rfl, rfl, rfl, rfl⟩

/-- **A pool that was made from files** has the messages and the enums that the files declare, resolved one by
one, and no name is defined twice. -/
theorem Pool.resolved_ofFiles {id : Nat} {files : List FileDecl} (h : Pool.ofFiles id files = .ok p) :
    ∃ s : Scope, s.files = files ∧ s.messages = messageSites files ∧ s.enums = enumSites files s.messages ∧
      (s.messages.flatMap MessageSite.names ++ s.enums.flatMap EnumSite.names).Nodup ∧
      List.Forall₂ (fun site m => s.message site = .ok m) s.messages p.messages ∧
      List.Forall₂ (fun site e => s.enumeration site = .ok e) s.enums p.enums := by
  unfold Pool.ofFiles at h
  obtain ⟨-, -, h⟩ := Except.bind_ok.1 h
  obtain ⟨-, -, h⟩ := Except.bind_ok.1 h
  extract_lets sites enumSites names packages scope resolved at h
  obtain ⟨hnames, -, h⟩ := Except.bind_ok.1 h
  split at h
  · cases h
  dsimp only [resolved] at h
  obtain ⟨messages, hmessages, h⟩ := Except.bind_ok.1 h
  obtain ⟨enums, henums, h⟩ := Except.bind_ok.1 h
  obtain ⟨distinct, -, h⟩ := Except.bind_ok.1 h
  obtain ⟨within, -, h⟩ := Except.bind_ok.1 h
  cases h
  exact ⟨scope, rfl, rfl, rfl, hnames.down, Except.mapM_ok.1 hmessages, Except.mapM_ok.1 henums⟩

/-- **The messages of a pool that was made from files** are those that the files declare, resolved. -/
theorem Pool.messages_ofFiles {id : Nat} {files : List FileDecl} (h : Pool.ofFiles id files = .ok p) :
    ∀ m ∈ p.messages, ∃ s : Scope, ∃ site ∈ messageSites files, s.files = files ∧ s.message site = .ok m := by
  intro m hm
  obtain ⟨s, hfiles, hsites, -, -, hmessages, -⟩ := resolved_ofFiles h
  obtain ⟨site, hmem, hsite⟩ := exists_of_forall₂ hmessages hm
  exact ⟨s, site, hsites ▸ hmem, hfiles, hsite⟩

theorem Pool.of_files {id : Nat} {files : List FileDecl} (h : Pool.ofFiles id files = .ok p) :
    ∀ m ∈ p.messages, ∀ f ∈ m.fields,
      isFieldNumber f.number = true ∧ f.hasPresence = f.tracksPresence m.edition := by
  intro m hm f hf
  obtain ⟨s, site, -, -, hsite⟩ := messages_ofFiles h m hm
  exact Scope.of_message hsite hf

/-- **In a pool that was made from files, presence is where the language of schemas gives it.** -/
theorem Pool.tracksPresence_ofFiles {id : Nat} {files : List FileDecl}
    (h : Pool.ofFiles id files = .ok p) : p.TracksPresence :=
  fun m hm f hf => (of_files h m hm f hf).2

/-! ## Editions -/

mutual

theorem MessageSite.file_flatten {file place : Nat} {scope : String} {parent : Option Nat}
    (m : MessageDecl) : ∀ site ∈ MessageSite.flatten file scope parent place m, site.file = file := by
  obtain ⟨name, fields, nested, enums, oneofs, isMapEntry⟩ := m
  intro site hsite
  rw [flatten] at hsite
  rcases List.mem_cons.1 hsite with rfl | hsite
  · rfl
  · exact file_flattenAll nested site hsite

theorem MessageSite.file_flattenAll {file place : Nat} {scope : String} {parent : Option Nat}
    (ms : List MessageDecl) :
    ∀ site ∈ MessageSite.flatten.flattenAll file scope parent place ms, site.file = file := by
  intro site hsite
  cases ms with
  | nil => cases hsite
  | cons m rest =>
    rw [flatten.flattenAll] at hsite
    rcases List.mem_append.1 hsite with hsite | hsite
    · exact file_flatten m site hsite
    · exact file_flattenAll rest site hsite

end

/-- Every message is declared in one of the files. -/
theorem exists_of_mem_messageSites {files : List FileDecl} {site : MessageSite}
    (h : site ∈ messageSites files) : ∃ file place, files[site.file]? = some file ∧
      site ∈ MessageSite.flatten.flattenAll site.file file.package none place file.messages := by
  -- the sites are collected file by file
  have step (rest : List (FileDecl × Nat)) (acc : List MessageSite)
      (hmem : site ∈ rest.foldl (fun acc f =>
        acc ++ MessageSite.flatten.flattenAll f.2 f.1.package none acc.length f.1.messages) acc) :
      site ∈ acc ∨ ∃ f ∈ rest, ∃ place,
        site ∈ MessageSite.flatten.flattenAll f.2 f.1.package none place f.1.messages := by
    induction rest generalizing acc with
    | nil => exact .inl hmem
    | cons f rest ih =>
      rcases ih _ hmem with hmem | ⟨g, hg, hmem⟩
      · rcases List.mem_append.1 hmem with hmem | hmem
        · exact .inl hmem
        · exact .inr ⟨f, List.mem_cons_self, _, hmem⟩
      · exact .inr ⟨g, List.mem_cons_of_mem _ hg, hmem⟩
  rcases step files.zipIdx [] h with hmem | ⟨f, hf, place, hmem⟩
  · cases hmem
  · have hfile := MessageSite.file_flattenAll _ site hmem
    exact ⟨f.1, place, hfile ▸ List.mem_zipIdx_iff_getElem?.1 hf, hfile ▸ hmem⟩

/-- **A message of a pool has the edition of its file.** -/
theorem Pool.edition_ofFiles {id : Nat} {files : List FileDecl} (h : Pool.ofFiles id files = .ok p) :
    ∀ m ∈ p.messages, ∃ file ∈ files, m.edition = file.edition := by
  intro m hm
  obtain ⟨s, site, hmem, rfl, hsite⟩ := messages_ofFiles h m hm
  obtain ⟨file, -, hfile, -⟩ := exists_of_mem_messageSites hmem
  refine ⟨file, List.mem_of_getElem? hfile, ?_⟩
  rw [(Scope.place_of_message hsite).2.2.2.2, List.getD_eq_getElem?_getD, hfile, Option.getD_some]

end Protoscript
