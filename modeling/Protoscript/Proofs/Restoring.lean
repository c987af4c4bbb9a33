import Protoscript.Proofs.InStep
import Protoscript.Proofs.NanFree

/-!
# Storing what was read

What storage holds becomes a value when it is read, and is stored as it was when the value is written
back: nothing is lost, doubled or put in another order. This holds of all values but NaN, which a
single-precision field may store with another payload.

* `Heap.Restores` — a value is stored as the data that it was made from, also after cells were added;
* `Heap.adopt_restores`, `Heap.adoptItems_restores`, `Heap.adoptEntries_restores` — what reading makes;
* `Heap.restored` — single values, keys, lists and maps.
-/

namespace Protoscript

/-- Whether a stored value holds no NaN, apart from what messages in it hold. -/
def Stored.WithoutNaN : Stored → Prop
  | .scalar s => s.isNaN = false
  | .message _ => True
  | .list items => ∀ s ∈ items, ∀ x, s = .scalar x → x.isNaN = false
  | .map entries => ∀ e ∈ entries, ∀ x, e.2 = .scalar x → x.isNaN = false

/-- A scalar that is no NaN is told by its canonical form. -/
theorem Scalar.eq_of_canonical {s t : Scalar} (hs : s.isNaN = false) (h : t.canonical = s.canonical) :
    t = s := by
  cases s with
  | f32 x =>
    have hx : x.isNaN = false := hs
    rw [canonical_f32 x, hx] at h
    cases t with
    | f32 y =>
      rw [canonical_f32 y] at h
      have hxy : (if y.isNaN = true then _ else y) = x := Scalar.f32.inj h
      split at hxy
      · rw [← hxy, Single.isNaN_canonicalNaN] at hx
        cases hx
      · rw [hxy]
    | _ => cases h
  | _ => cases t <;> first | exact h | cases h

/-- A scalar that was read is stored as it was. -/
theorem Kind.toStored_toValue {h : Heap} {flush : Ref .message → Except Error Message} {kind : Kind}
    {config : Config} {s : Scalar} (hs : kind.HoldsScalar s) (hnan : s.isNaN = false) :
    kind.toStored h flush (s.toValue kind) config = .ok (.scalar s) := by
  obtain ⟨t, ht, hcanonical⟩ := Kind.scalarToStored_toValue hs
  obtain rfl := Scalar.eq_of_canonical hnan hcanonical
  exact Kind.toStored_of_scalarToStored ht

namespace Heap

variable {h g : Heap} {kind : Kind} {config : Config} {f : FieldDescriptor}

/-- Whether a value is stored as the given data, in this heap and in those with more cells. -/
def Restores (h : Heap) (kind : Kind) (v : Value) (s : Stored) : Prop :=
  ∀ g config, h.Grows g → kind.toStored g g.contents v config = .ok s

theorem Restores.grow {v : Value} {s : Stored} (hv : h.Restores kind v s) (hg : h.Grows g) :
    g.Restores kind v s :=
  fun g' config hg' => hv g' config (hg.trans hg')

/-- What was made from stored data is stored as that data. -/
theorem Shows.restores {v : Value} {s : Stored} (hs : kind.Holds s)
    (hnan : ∀ x, s = .scalar x → x.isNaN = false) (hv : h.Shows kind config s v) :
    h.Restores kind v s := by
  intro g config' hg
  cases hs with
  | @scalar kind x hx =>
    obtain rfl : v = x.toValue kind := hv
    exact Kind.toStored_toValue hx (hnan x rfl)
  | @message d m hd _ =>
    obtain ⟨q, rfl, hq, hcontent, hviews, -⟩ := hv
    have hcell : g.cell q = h.cell q := hg.cell hq
    refine toStored_message ?_ ?_ hd
    · rw [hcell, hcontent]
      exact hd
    · rw [contents_of_views_eq_nil (by rw [hcell, hviews]), hcell, hcontent]

/-- **A single value that is read is stored as it was.** -/
theorem adopt_restores (h : Heap) (config : Config) {s : Stored} (hs : kind.Holds s)
    (hnan : ∀ x, s = .scalar x → x.isNaN = false) :
    h.Grows (h.adopt kind config s).2 ∧
      (h.adopt kind config s).2.Restores kind (h.adopt kind config s).1 s := by
  obtain ⟨hg, hshows⟩ := h.shows_adopt config hs
  exact ⟨hg, hshows.restores hs hnan⟩

/-- So is each of the items of a list. -/
theorem adoptItems_restores (config : Config) {items : List Stored} (h : Heap)
    (hs : ∀ s ∈ items, kind.Holds s) (hnan : ∀ s ∈ items, ∀ x, s = .scalar x → x.isNaN = false) :
    h.Grows (h.adoptItems kind config items).2 ∧
      List.Forall₂ ((h.adoptItems kind config items).2.Restores kind)
        (h.adoptItems kind config items).1 items := by
  induction items generalizing h with
  | nil =>
    rw [adoptItems]
    exact ⟨.refl ∅ h, .nil⟩
  | cons s rest ih =>
    rw [adoptItems]
    obtain ⟨hg, hfirst⟩ := h.adopt_restores config (hs s (.head _)) (hnan s (.head _))
    obtain ⟨hg', hrest⟩ := ih (h.adopt kind config s).2 (fun t ht => hs t (.tail _ ht))
      fun t ht => hnan t (.tail _ ht)
    exact ⟨hg.trans hg', .cons (hfirst.grow hg') hrest⟩

/-- So are the entries of a map, whose keys are read as values that are stored as those keys. -/
theorem adoptEntries_restores (config : Config) {entries : List (MapKey × Stored)} (h : Heap)
    (hs : ∀ e ∈ entries, kind.Holds e.2) (hnan : ∀ e ∈ entries, ∀ x, e.2 = .scalar x → x.isNaN = false) :
    h.Grows (h.adoptEntries kind config entries).2 ∧
      List.Forall₂ (fun e stored => e.1 = stored.1.toValue ∧
          (h.adoptEntries kind config entries).2.Restores kind e.2 stored.2)
        (h.adoptEntries kind config entries).1 entries := by
  induction entries generalizing h with
  | nil =>
    rw [adoptEntries]
    exact ⟨.refl ∅ h, .nil⟩
  | cons e rest ih =>
    obtain ⟨key, s⟩ := e
    rw [adoptEntries]
    obtain ⟨hg, hfirst⟩ := h.adopt_restores config (hs _ (.head _)) (hnan _ (.head _))
    obtain ⟨hg', hrest⟩ := ih (h.adopt kind config s).2 (fun t ht => hs t (.tail _ ht))
      fun t ht => hnan t (.tail _ ht)
    exact ⟨hg.trans hg', .cons ⟨rfl, hfirst.grow hg'⟩ hrest⟩

/-- A view of a list is stored as the list that it was made from. -/
theorem repeatedContents_adoptItems (h : Heap) (config config' : Config) {items : List Stored}
    (hs : ∀ s ∈ items, f.kind.Holds s) (hnan : ∀ s ∈ items, ∀ x, s = .scalar x → x.isNaN = false) :
    let read := h.adoptItems f.kind config items
    (read.2.alloc .repeated { field := f, items := read.1, config := config' }).repeatedContents
      (read.2.fresh .repeated) = .ok (.list items) := by
  intro read
  obtain ⟨-, hread⟩ := adoptItems_restores config h hs hnan
  unfold repeatedContents
  rw [cell_alloc_self]
  have hall : List.Forall₂ (fun v s => f.kind.toStored
      (read.2.alloc .repeated { field := f, items := read.1, config := config' })
      (read.2.alloc .repeated { field := f, items := read.1, config := config' }).contents v config' = .ok s)
      read.1 items :=
    hread.imp fun v s hv => hv _ config' (grows_alloc read.2 (by decide) _)
  exact congrArg (Except.map Stored.list) (Except.mapM_ok.2 hall)

/-- A view of a map is stored as the map that it was made from. -/
theorem mapContents_adoptEntries (h : Heap) (config config' : Config)
    {entries : List (MapKey × Stored)} (hkeys : ∀ e ∈ entries, f.keyKind.HoldsKey e.1)
    (hs : ∀ e ∈ entries, f.valueKind.Holds e.2) (hsorted : (entries.map (·.1)).Pairwise MapKey.Before)
    (hnan : ∀ e ∈ entries, ∀ x, e.2 = .scalar x → x.isNaN = false) :
    let read := h.adoptEntries f.valueKind config entries
    (read.2.alloc .map { field := f, entries := read.1, config := config' }).mapContents
      (read.2.fresh .map) = .ok (.map entries) := by
  intro read
  obtain ⟨-, hread⟩ := adoptEntries_restores config h hs hnan
  let g := read.2.alloc .map { field := f, entries := read.1, config := config' }
  have hg : read.2.Grows g := grows_alloc read.2 (by decide) _
  have hall : List.Forall₂ (fun e stored => (MapCell.storedEntry g g.contents
      { field := f, entries := read.1, config := config' } e) = .ok stored) read.1 entries := by
    refine List.forall₂_iff_zip.2 ⟨hread.length_eq, fun {e stored} he => ?_⟩
    obtain ⟨hkey, hvalue⟩ := (List.forall₂_iff_zip.1 hread).2 he
    have hmem := (List.of_mem_zip he).2
    refine MapCell.storedEntry_ok.2 ⟨?_, hvalue g config' hg⟩
    rw [hkey]
    exact Kind.toMapKey_toValue (hkeys stored hmem)
  unfold mapContents
  rw [cell_alloc_self, MapCell.toStored_eq, Except.mapM_ok.2 hall]
  exact congrArg (fun es => Except.ok (Stored.map es)) (mapOfEntries_of_sorted hsorted)

end Heap

namespace Script

variable {h : Heap} {m : Message} {f : FieldDescriptor} {config : Config}

/-- A list field is read as a view of the list that is stored. -/
theorem readField_list (hlist : f.isList = true) {items : List Stored} (hget : m.get f = .list items) :
    let read := h.adoptItems f.kind config items
    (readField m f config).run h = (.ok (.repeated (read.2.fresh .repeated)),
      read.2.alloc .repeated { field := f, items := read.1, config := config }) := by
  unfold readField
  rw [FieldDescriptor.isMap_of_isList hlist, if_neg (by decide), if_pos hlist]
  simp only [hget]
  rfl

/-- A map field is read as a view of the map that is stored. -/
theorem readField_map (hmap : f.isMap = true) {entries : List (MapKey × Stored)}
    (hget : m.get f = .map entries) :
    let read := h.adoptEntries f.valueKind config entries
    (readField m f config).run h = (.ok (.map (read.2.fresh .map)),
      read.2.alloc .map { field := f, entries := read.1, config := config }) := by
  unfold readField
  rw [if_pos hmap]
  simp only [hget]
  rfl

end Script

/-- **What is read is stored as it was.** A single value of any type, a key, and the view of a list or
map field, made from what storage holds, are turned back into just that. -/
theorem Heap.restored (h : Heap) :
    (∀ (kind : Kind) (config config' : Config) (s : Stored), kind.Holds s → s.WithoutNaN →
      let read := h.adopt kind config s
      read.2.toStored kind read.1 config' = .ok s) ∧
    (∀ (kind : Kind) (config : Config) (key : MapKey), kind.HoldsKey key →
      h.toMapKey kind key.toValue config = .ok key) ∧
    ∀ (m : Message) (f : FieldDescriptor) (config : Config) (s : Stored),
      f.isMap = true ∨ f.isList = true → m.get f = s → f.Holds s → s.WithoutNaN →
      ∃ view h', (Script.readField m f config).run h = (.ok view, h') ∧
        h'.viewContents h'.contents view = .ok (some s) := by
  refine ⟨fun kind config config' s hs hnan => ?_, fun kind config key hkey => Kind.toMapKey_toValue hkey,
    fun m f config s hshape hget hs hnan => ?_⟩
  · obtain ⟨-, hread⟩ := h.adopt_restores config hs fun x hx => by rw [hx] at hnan; exact hnan
    exact hread _ config' (.refl ∅ _)
  · rcases hshape with hmap | hlist
    · obtain ⟨entries, rfl, hkeys, hvalues, hsorted⟩ := hs.entries hmap
      refine ⟨_, _, Script.readField_map hmap hget, ?_⟩
      exact congrArg (Except.map some) (mapContents_adoptEntries h config config hkeys hvalues hsorted hnan)
    · obtain ⟨items, rfl, hitems⟩ := hs.items hlist
      refine ⟨_, _, Script.readField_list hlist hget, ?_⟩
      exact congrArg (Except.map some) (repeatedContents_adoptItems h config config hitems hnan)

namespace Sample

/-- Bytes that are no text, a negative key, and a map of messages. -/
theorem rows_restored :
    (Kind.scalar .bytes).HoldsScalar (.bytes [255]) ∧
      (let read := tabled.adopt (.scalar .bytes) {} (.scalar (.bytes [255]))
      read.2.toStored (.scalar .bytes) read.1 {} = .ok (.scalar (.bytes [255]))) ∧
    (Kind.scalar .sint64).HoldsKey (.i64 (-3)) ∧
      tabled.toMapKey (.scalar .sint64) (.int (-3)) {} = .ok (.i64 (-3)) ∧
    rowsField.isMap = true ∧ rowsField.Holds (.map [(.text "a", .message (.empty table))]) ∧
      ∃ view h', (Script.readField oneRow rowsField {}).run tabled = (.ok view, h') ∧
        h'.viewContents h'.contents view =
          .ok (some (.map [(.text "a", .message (.empty table))])) := by
  have hmap : rowsField.isMap = true := by decide
  have hrows : rowsField.Holds (.map [(.text "a", .message (.empty table))]) := by
    cases conforms_oneRow with
    | mk _ _ held _ _ => exact held rowsField (.head _) _ rfl
  obtain ⟨hsingle, hkey, hview⟩ := Heap.restored tabled
  refine ⟨rfl, ?_, rfl, ?_, hmap, hrows, ?_⟩
  · exact hsingle (.scalar .bytes) {} {} _ (.scalar rfl) rfl
  · exact hkey (.scalar .sint64) {} (.i64 (-3)) rfl
  · refine hview oneRow rowsField {} _ (.inl hmap) rfl hrows fun e he x hx => ?_
    rw [List.mem_singleton.1 he] at hx
    cases hx

end Sample

end Protoscript
