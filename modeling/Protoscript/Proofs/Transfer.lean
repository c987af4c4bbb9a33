import Protoscript.Proofs.Exchange

/-!
# Writes of what stands for other values

Assignments and the methods of views do with a value, and with what stands for it, the same: what is stored
is alike, and so are the heaps afterwards.

* `Heap.keysEqual_congr`, `Heap.UpdateIn.commit_eq` — the same keys are equal on both heaps;
* `Script.storedFor_forks`, `Script.setField_forks` — assignments;
* `Script.append_forks`, `Script.insert_forks`, `Script.setAt_forks`, `Script.extend_forks` — list views;
* `Script.mapSet_forks`, `Script.mapSetDefault_forks`, `Script.mapUpdate_forks` — map views.
-/

namespace Protoscript

variable {p q : Pool}

namespace Heap

variable {b g₁ g₂ : Heap} {S : Set Place} {v w : Value} {kind kind' : Kind}

/-! ## Keys -/

/-- A value that a view may hold is compared at once. -/
theorem Fits.equals_eq (hv : g₁.Fits kind v) (h : Heap) (w : Value) : h.equals v w = h.flatEquals v w := by
  cases hv with
  | @scalar s => exact s.equals_toValue h kind w
  | message =>
    rw [equals, equalsWithin]
    · simp [sequenceItems?, mappingEntries?]
    · simp

/-- Values one of which leads nowhere are equal on all heaps or on none. -/
theorem flatEquals_of_ref?_eq_none (h h' : Heap) (hv : v.ref? = none ∨ w.ref? = none) :
    h'.flatEquals v w = h.flatEquals v w := by
  cases v <;> cases w <;> first | rfl | simp [Value.ref?] at hv

/-- **Whether keys are equal** is the same on heaps that have grown from one. -/
theorem keysEqual_congr (hb : b.Closed) (hg₁ : b.Grows g₁) (hg₂ : b.Grows g₂) (hv : g₁.Fits kind v)
    (hw : g₁.Fits kind' w) (hkv : KeepsKey b g₁ g₂ v) (hkw : KeepsKey b g₁ g₂ w) :
    g₂.keysEqual v w = g₁.keysEqual v w := by
  have held {r : Ref .message} (hr : KeepsKey b g₁ g₂ (.message r)) :
      g₂.fullName r = g₁.fullName r ∧ g₂.contents r = g₁.contents r := by
    rcases hr r rfl with hhas | ⟨-, -, hcell, hviews⟩
    · have hcell : g₂.cell r = g₁.cell r := by rw [hg₁.cell hhas, hg₂.cell hhas]
      exact ⟨congrArg (fun c : MessageCell => c.content.fullName) hcell,
        by rw [hg₁.contents hb hhas, hg₂.contents hb hhas]⟩
    · refine ⟨congrArg (fun c : MessageCell => c.content.fullName) hcell, ?_⟩
      rw [contents_of_views_eq_nil hviews, contents_of_views_eq_nil (by rw [hcell, hviews]), hcell]
  unfold keysEqual
  rw [hv.equals_eq, hv.equals_eq]
  cases hv with
  | @scalar s => rw [flatEquals_of_ref?_eq_none g₁ g₂ (.inl (s.ref?_toValue kind))]
  | message =>
    cases hw with
    | @scalar s => rw [flatEquals_of_ref?_eq_none g₁ g₂ (.inr (s.ref?_toValue kind'))]
    | message =>
      simp only [flatEquals, (held hkv).1, (held hkv).2, (held hkw).1, (held hkw).2]

/-- **Updates of a mapping** leave the same on two heaps where the same keys are equal. -/
theorem commit_congr {P : Value → Prop} (hP : ∀ {v w}, P v → P w → g₂.keysEqual v w = g₁.keysEqual v w)
    {entries : List (Value × Value)} {updates : List (Value × Option Value)}
    (hentries : ∀ e ∈ entries, P e.1) (hupdates : ∀ u ∈ updates, P u.1) :
    g₂.commit entries updates = g₁.commit entries updates := by
  induction updates generalizing entries with
  | nil => rfl
  | cons u rest ih =>
    obtain ⟨key, value⟩ := u
    obtain ⟨hkey, hrest⟩ := List.forall_mem_cons.1 hupdates
    -- both heaps find the same key
    have hfind : g₂.findKey? key entries = g₁.findKey? key entries := by
      unfold findKey?
      clear ih
      induction entries with
      | nil => rfl
      | cons e entries ih =>
        rw [List.findIdx?_cons, List.findIdx?_cons, hP (hentries e List.mem_cons_self) hkey,
          ih fun e he => hentries e (List.mem_cons_of_mem _ he)]
    unfold commit
    rw [hfind]
    refine ih (fun e he => ?_) hrest
    split at he
    · rcases Script.mem_setValueAt he with he | ⟨e', he', rfl⟩
      · exact hentries e he
      · exact hentries e' he'
    · rcases List.mem_append.1 he with he | he
      · exact hentries e he
      · rw [List.mem_singleton.1 he]
        exact hkey
    · exact hentries e (List.mem_of_mem_eraseIdx he)
    · exact hentries e he

section

variable {f : FieldDescriptor} {entries : List (Value × Value)} {updates : List (Value × Option Value)}
  (hentries : ∀ e ∈ entries, UpdateIn b S g₁ g₂ f (e.1, some e.2))
  (hupdates : ∀ u ∈ updates, UpdateIn b S g₁ g₂ f u)

include hentries hupdates

theorem UpdateIn.commit_eq (hb : b.Closed) (hg₁ : b.Grows g₁) (hg₂ : b.Grows g₂) :
    g₂.commit entries updates = g₁.commit entries updates :=
  commit_congr (P := fun v => g₁.Fits f.keyKind v ∧ KeepsKey b g₁ g₂ v)
    (fun hv hw => keysEqual_congr hb hg₁ hg₂ hv.1 hw.1 hv.2 hw.2)
    (fun e he => ⟨(hentries e he).key.fits, (hentries e he).kept⟩)
    fun u hu => ⟨(hupdates u hu).key.fits, (hupdates u hu).kept⟩

/-- Updates leave keys and values of the types of the field. -/
theorem UpdateIn.of_mem_commit {e : Value × Value} (he : e ∈ g₁.commit entries updates) :
    g₁.FitsIn S f.keyKind e.1 ∧ g₁.FitsIn S f.valueKind e.2 := by
  constructor
  · rcases Script.mem_keys_commit g₁ (List.mem_map.2 ⟨e, he, rfl⟩) with hold | hnew
    · obtain ⟨e', he', hkey⟩ := List.mem_map.1 hold
      exact hkey ▸ (hentries e' he').key
    · obtain ⟨u, hu, hkey⟩ := List.mem_map.1 hnew
      exact hkey ▸ (hupdates u hu).key
  · have hmem := (Script.subperm_values_commit g₁ entries updates).subset (List.mem_map.2 ⟨e, he, rfl⟩)
    rcases List.mem_append.1 hmem with hold | hnew
    · obtain ⟨e', he', hvalue⟩ := List.mem_map.1 hold
      exact hvalue ▸ (hentries e' he').value e'.2 rfl
    · obtain ⟨u, hu, hvalue⟩ := List.mem_filterMap.1 hnew
      exact (hupdates u hu).value e.2 hvalue

end

/-! ## Views that are overwritten -/

theorem TypedOn.fitsIn_items {h : Heap} (hS : h.TypedOn p S) {r : Ref .repeated} (hr : ⟨.repeated, r⟩ ∈ S) :
    ∀ v ∈ (h.cell r).items, h.FitsIn S (h.cell r).kind v :=
  fun v hv => ⟨(hS.repeated hr).items v hv, fun ha => hS.closed hr hv ha⟩

theorem TypedOn.updateIn_entries {h : Heap} (hS : h.TypedOn p S) {r : Ref .map} (hr : ⟨.map, r⟩ ∈ S) :
    ∀ e ∈ (h.cell r).entries, UpdateIn h S h h (h.cell r).field (e.1, some e.2) := by
  intro e he
  have mem {v : Value} (hv : v ∈ [e.1, e.2]) {a : Place} (ha : v.ref? = some a) : a ∈ S :=
    hS.closed hr (List.mem_flatMap.2 ⟨e, he, hv⟩) ha
  obtain ⟨hkey, hvalue⟩ := (hS.map hr).entries e he
  refine ⟨⟨hkey, fun ha => mem (.head _) ha⟩, fun q hq => .inl ?_, fun v hv => ?_⟩
  · exact hS.has (mem (.head _) (hq ▸ rfl))
  · cases hv
    exact ⟨hvalue, fun ha => mem (.tail _ (.head _)) ha⟩

section

variable (hk : g₁.Forked p S g₂)

include hk

/-- **A view of a list field gets other items** in both heaps. -/
theorem Forked.putRepeated {r : Ref .repeated} (hr : ⟨.repeated, r⟩ ∈ S) {c : RepeatedCell}
    (hc : c.field = (g₁.cell r).field) (hitems : ∀ v ∈ c.items, g₁.FitsIn S c.kind v) :
    (g₁.put r c).Forked p S (g₂.put r c) := by
  have hf : c.field.Of p := hc ▸ (hk.left.repeated hr).field
  exact hk.put (s := .repeated) hr hc (.refl (s := .repeated) c) ⟨hf, fun v hv => (hitems v hv).fits⟩
    ⟨hf, fun v hv => (hitems v hv).fits.keep hk.keepsTypes⟩ fun v hv a ha => (hitems v hv).mem ha

/-- **A view of a map field gets other entries** in both heaps. -/
theorem Forked.putMap {r : Ref .map} (hr : ⟨.map, r⟩ ∈ S) {c : MapCell}
    (hc : c.field = (g₁.cell r).field)
    (hentries : ∀ e ∈ c.entries, g₁.FitsIn S c.field.keyKind e.1 ∧ g₁.FitsIn S c.field.valueKind e.2) :
    (g₁.put r c).Forked p S (g₂.put r c) := by
  have hf : c.field.Of p := hc ▸ (hk.left.map hr).field
  refine hk.put (s := .map) hr hc (.refl (s := .map) c)
    ⟨hf, fun e he => ⟨(hentries e he).1.fits, (hentries e he).2.fits⟩⟩
    ⟨hf, fun e he => ⟨(hentries e he).1.fits.keep hk.keepsTypes, (hentries e he).2.fits.keep hk.keepsTypes⟩⟩
    fun v hv a ha => ?_
  obtain ⟨e, he, hv⟩ := List.mem_flatMap.1 hv
  rcases List.mem_pair.1 hv with rfl | rfl
  · exact (hentries e he).1.mem ha
  · exact (hentries e he).2.mem ha

end

/-! ## Containers -/

theorem Grows.iterate (hg : b.Grows g₁) (hv : v.Within b) {items : List Value}
    (hi : b.iterate v = .ok items) : g₁.iterate v = .ok items := by
  rw [← hi]
  cases v <;> try cases hi
  case tuple => rfl
  case list r => exact congrArg (fun c : ListCell => Except.ok c.items) (hg.cell (hv.has (p := ⟨.list, r⟩) rfl))
  case dict r =>
    exact congrArg (fun c : DictCell => Except.ok (c.entries.map (·.1)))
      (hg.cell (hv.has (p := ⟨.dict, r⟩) rfl))
  case «repeated» r =>
    exact congrArg (fun c : RepeatedCell => Except.ok c.items) (hg.cell (hv.has (p := ⟨.repeated, r⟩) rfl))
  case map r =>
    exact congrArg (fun c : MapCell => Except.ok (c.entries.map (·.1)))
      (hg.cell (hv.has (p := ⟨.map, r⟩) rfl))

theorem Grows.mappingEntries? (hg : b.Grows g₁) (hv : v.Within b) :
    g₁.mappingEntries? v = b.mappingEntries? v := by
  cases v <;> try rfl
  case dict r => exact congrArg (fun c : DictCell => some c.entries) (hg.cell (hv.has (p := ⟨.dict, r⟩) rfl))
  case map r => exact congrArg (fun c : MapCell => some c.entries) (hg.cell (hv.has (p := ⟨.map, r⟩) rfl))

/-! ## New views -/

section

variable (hk : g₁.Forked p S g₂)

include hk

/-- **A view of a list field that is made** in both heaps would store what is alike. -/
theorem Forked.newRepeated {c : RepeatedCell} (hf : c.field.Of p) (hlist : c.field.isList = true)
    (hitems : ∀ v ∈ c.items, g₁.FitsIn S c.kind v) :
    (g₁.alloc .repeated c).Forked p (insert ⟨.repeated, g₁.fresh .repeated⟩ S) (g₂.alloc .repeated c) ∧
      ∀ s, (g₁.alloc .repeated c).repeatedContents (g₁.fresh .repeated) = .ok s →
        c.field.Holds s ∧ ∃ t, (g₂.alloc .repeated c).repeatedContents (g₂.fresh .repeated) = .ok t ∧
          c.field.Holds t ∧ s.Alike False t := by
  have hnew := hk.alloc (Cell.Forked.refl (s := .repeated) c) ⟨hf, fun v hv => (hitems v hv).fits⟩
    ⟨hf, fun v hv => (hitems v hv).fits.keep hk.keepsTypes⟩ fun v hv r hr => (hitems v hv).mem hr
  have hself : (⟨.repeated, g₁.fresh .repeated⟩ : Place) ∈ insert ⟨.repeated, g₁.fresh .repeated⟩ S :=
    Set.mem_insert _ _
  refine ⟨hnew, fun s hs => ?_⟩
  have hcell : (g₁.alloc .repeated c).cell (g₁.fresh .repeated) = c := cell_alloc_self g₁ (s := .repeated) c
  have hcell' : (g₂.alloc .repeated c).cell (g₁.fresh .repeated) = c :=
    (hnew.cell_eq (by decide) (hnew.left.has hself)).trans hcell
  have halike := hnew.matches.repeatedContents hself
  rw [hs] at halike
  rcases ht : (g₂.alloc .repeated c).repeatedContents (g₁.fresh .repeated) with e | t <;> rw [ht] at halike
  · cases halike
  have hholds := hnew.left.repeatedContents hself (by rw [hcell]; exact hlist) hs
  have hholds' := hnew.right.repeatedContents hself (by rw [hcell']; exact hlist) ht
  rw [hcell] at hholds
  rw [hcell'] at hholds'
  rw [hk.fresh_eq, ht]
  cases halike with
  | ok halike => exact ⟨hholds, t, rfl, hholds', halike⟩

/-- **A view of a map field that is made** in both heaps would store what is alike. -/
theorem Forked.newMap {c : MapCell} (hf : c.field.Of p) (hmap : c.field.isMap = true)
    (hkeys : ∀ e ∈ c.entries, g₁.FitsIn S c.field.keyKind e.1)
    (hvalues : ∀ e ∈ c.entries, g₁.FitsIn S c.field.valueKind e.2) :
    (g₁.alloc .map c).Forked p (insert ⟨.map, g₁.fresh .map⟩ S) (g₂.alloc .map c) ∧
      ∀ s, (g₁.alloc .map c).mapContents (g₁.fresh .map) = .ok s →
        c.field.Holds s ∧ ∃ t, (g₂.alloc .map c).mapContents (g₂.fresh .map) = .ok t ∧
          c.field.Holds t ∧ s.Alike False t := by
  have hnew := hk.alloc (Cell.Forked.refl (s := .map) c)
    ⟨hf, fun e he => ⟨(hkeys e he).fits, (hvalues e he).fits⟩⟩
    ⟨hf, fun e he => ⟨(hkeys e he).fits.keep hk.keepsTypes, (hvalues e he).fits.keep hk.keepsTypes⟩⟩
    fun v hv r hr => by
      obtain ⟨e, he, hv⟩ := List.mem_flatMap.1 hv
      rcases List.mem_pair.1 hv with rfl | rfl
      · exact (hkeys e he).mem hr
      · exact (hvalues e he).mem hr
  have hself : (⟨.map, g₁.fresh .map⟩ : Place) ∈ insert ⟨.map, g₁.fresh .map⟩ S := Set.mem_insert _ _
  refine ⟨hnew, fun s hs => ?_⟩
  have hcell : (g₁.alloc .map c).cell (g₁.fresh .map) = c := cell_alloc_self g₁ (s := .map) c
  have hcell' : (g₂.alloc .map c).cell (g₁.fresh .map) = c :=
    (hnew.cell_eq (by decide) (hnew.left.has hself)).trans hcell
  have halike := hnew.matches.mapContents hself
  rw [hs] at halike
  rcases ht : (g₂.alloc .map c).mapContents (g₁.fresh .map) with e | t <;> rw [ht] at halike
  · cases halike
  have hholds := hnew.left.mapContents hself (by rw [hcell]; exact hmap) hs
  have hholds' := hnew.right.mapContents hself (by rw [hcell']; exact hmap) ht
  rw [hcell] at hholds
  rw [hcell'] at hholds'
  rw [hk.fresh_eq, ht]
  cases halike with
  | ok halike => exact ⟨hholds, t, rfl, hholds', halike⟩

end

end Heap

/-- Whether a field may hold each of two values, which are alike; or it is to be unset. -/
inductive FieldDescriptor.StoredAlike (f : FieldDescriptor) : Option Stored → Option Stored → Prop
  | none : f.StoredAlike none none
  | some {s t : Stored} (hs : f.Holds s) (ht : f.Holds t) (hst : s.Alike False t) :
    f.StoredAlike (some s) (some t)

namespace Script

/-! ## Assignments -/

variable {h h' : Heap} {f : FieldDescriptor} {v w : Value} {config : Config} {stored : Option Stored}

theorem isMapping_of_storedFor (hmap : f.isMap = true)
    (hrun : (storedFor f v config).run h = (.ok stored, h')) : v.isMapping = true := by
  rw [storedFor_of_isMap hmap] at hrun
  obtain ⟨_, _, hview, -⟩ := bind_ok.1 hrun
  rcases hentries : h.mappingEntries? v with _ | entries
  · rw [mapOf_of_none hmap hentries] at hview
    cases hview
  · exact Heap.isMapping_of_mappingEntries? hentries

theorem isSequence_of_storedFor (hlist : f.isList = true)
    (hrun : (storedFor f v config).run h = (.ok stored, h')) : v.isSequence = true := by
  rw [storedFor_of_isList hlist] at hrun
  obtain ⟨_, _, hview, -⟩ := bind_ok.1 hrun
  cases v <;> first | rfl | cases hview

/-- A container is stored in no single field. -/
theorem not_container_of_scalarFor (hrun : (scalarFor f v config).run h = (.ok stored, h')) :
    v.isSequence = false ∧ v.isMapping = false := by
  by_cases habsent : v = .absent
  · subst habsent
    exact ⟨rfl, rfl⟩
  rw [scalarFor_of_ne habsent] at hrun
  obtain ⟨s, _, hreading, -⟩ := bind_ok.1 hrun
  rcases plain_of_toStored (reading_ok.1 hreading).1 with ⟨r, rfl⟩ | ⟨-, htuple, href⟩
  · exact ⟨rfl, rfl⟩
  · cases v with
    | tuple items => exact absurd rfl (htuple items)
    | list | dict | «repeated» | map => cases href
    | _ => exact ⟨rfl, rfl⟩

section

variable {b g₁ g₂ : Heap} {S : Set Place} (hpq : p.Receives q) (hb : b.Closed)

include hpq hb

/-- **What is stored in a single field** for a value and for one that stands for it. -/
theorem scalarFor_forks (hg₁ : b.Grows g₁) (hg₂ : b.Grows g₂) (hk : g₁.Forked p S g₂) (hf : f.Of p)
    (hmap : f.isMap = false) (hlist : f.isList = false) (he : b.Exchange p q v w) :
    Forks p S g₁ g₂ (scalarFor f v config) (scalarFor f w config) fun _ k₁ k₂ s t =>
      g₁.Grows k₁ ∧ g₂.Grows k₂ ∧ f.StoredAlike s t := by
  by_cases habsent : v = .absent
  · obtain rfl := (Heap.ExchangeIn.single he).absent_iff.2 habsent
    subst habsent
    unfold scalarFor
    dsimp only
    split
    · exact .pure hk ⟨.refl ∅ g₁, .refl ∅ g₂, .none⟩
    · exact .throw
  · rw [scalarFor_of_ne habsent, scalarFor_of_ne (mt (Heap.ExchangeIn.single he).absent_iff.1 habsent)]
    intro o k₁ hrun
    obtain ⟨s, _, hreading, hrun⟩ := bind_ok.1 hrun
    obtain ⟨hs, rfl⟩ := reading_ok.1 hreading
    cases hrun
    rw [hg₁.toStored hb he.within.1] at hs
    obtain ⟨hholds, t, ht, htholds, hst⟩ := he.toStored hpq hf.kind hs
    rw [← hg₂.toStored hb he.within.2] at ht
    refine ⟨some t, g₂, S, bind_ok.2 ⟨t, g₂, reading_ok.2 ⟨ht, rfl⟩, rfl⟩, subset_rfl, fun _ ha => .inl ha, hk,
      .refl ∅ g₁, .refl ∅ g₂, .some (.single hmap hlist hholds) (.single hmap hlist htholds) hst.alike⟩

/-- **What is stored in a list field** for a sequence. -/
theorem storedFor_sequence_forks (hg₁ : b.Grows g₁) (hg₂ : b.Grows g₂) (hk : g₁.Forked p S g₂) (hf : f.Of p)
    (hlist : f.isList = true) (hv : v.isSequence = true) (hw : w.isSequence = true) {xs ys : List Value}
    (hxs : g₁.iterate v = .ok xs) (hys : g₂.iterate w = .ok ys) (he : List.Forall₂ (b.Exchange p q) xs ys) :
    Forks p S g₁ g₂ (storedFor f v config) (storedFor f w config) fun _ k₁ k₂ s t =>
      g₁.Grows k₁ ∧ g₂.Grows k₂ ∧ f.StoredAlike s t := by
  intro o k₁ hrun
  obtain ⟨items, _, mid, s, hi, hchecked, rfl, hs, rfl⟩ := (storedFor_list hlist hv).1 hrun
  obtain rfl := Except.ok.inj (hxs.symm.trans hi)
  obtain ⟨checked, mid', T, hchecked', hST, hnew, hmid, rfl, hm₁, hm₂, hin⟩ :=
    normalizeAll_checks hpq hb hg₁ hg₂ hk hf.kind he hchecked
  let c : RepeatedCell := { field := f, items := checked, config := config }
  obtain ⟨hfork, hstored⟩ := hmid.newRepeated (c := c) hf hlist hin
  obtain ⟨hholds, t, ht, hholds', halike⟩ := hstored s hs
  refine ⟨some t, _, _, (storedFor_list hlist hw).2 ⟨ys, checked, mid', t, hys, hchecked', rfl, ht, rfl⟩,
    hST.trans (Set.subset_insert _ _), fun a ha => ?_, hfork,
    hm₁.trans (mid.grows_alloc (s := .repeated) (by decide) c),
    hm₂.trans (mid'.grows_alloc (s := .repeated) (by decide) c), .some hholds hholds' halike⟩
  rcases Heap.has_alloc (s := .repeated) ha with rfl | hold
  · exact .inr (Set.mem_insert _ _)
  · exact (hnew a hold).imp_right fun hmem => .inr hmem

/-- **What is stored in a map field** for a mapping. -/
theorem storedFor_mapping_forks (hg₁ : b.Grows g₁) (hg₂ : b.Grows g₂) (hk : g₁.Forked p S g₂) (hf : f.Of p)
    (hmap : f.isMap = true) (hv : v.isMapping = true) (hw : w.isMapping = true)
    {xs ys : List (Value × Value)} (hxs : g₁.mappingEntries? v = some xs)
    (hys : g₂.mappingEntries? w = some ys) (he : List.Forall₂ (b.ExchangeEntry p q) xs ys) :
    Forks p S g₁ g₂ (storedFor f v config) (storedFor f w config) fun _ k₁ k₂ s t =>
      g₁.Grows k₁ ∧ g₂.Grows k₂ ∧ f.StoredAlike s t := by
  intro o k₁ hrun
  obtain ⟨entries, _, mid, s, hi, hchecked, rfl, hs, rfl⟩ := (storedFor_map hmap hv).1 hrun
  obtain rfl := Option.some.inj (hxs.symm.trans hi)
  obtain ⟨updates, mid', T, hchecked', hST, hnew, hmid, rfl, hm₁, hm₂, hin⟩ :=
    checkPairs_checks hpq hb (c := { field := f, config := config }) hf hg₁ hg₂ hk he hchecked
  have hcommit : mid'.commit [] updates = mid.commit [] updates :=
    Heap.UpdateIn.commit_eq (List.forall_mem_nil _) hin hb (hg₁.trans hm₁) (hg₂.trans hm₂)
  let c : MapCell := { field := f, entries := mid.commit [] updates, config := config }
  obtain ⟨hfork, hstored⟩ := hmid.newMap (c := c) hf hmap
    (fun e he => (Heap.UpdateIn.of_mem_commit (List.forall_mem_nil _) hin he).1)
    fun e he => (Heap.UpdateIn.of_mem_commit (List.forall_mem_nil _) hin he).2
  obtain ⟨hholds, t, ht, hholds', halike⟩ := hstored s hs
  have hsecond : (storedFor f w config).run g₂ = (.ok (some t), mid'.alloc .map c) :=
    (storedFor_map hmap hw).2 ⟨ys, updates, mid', t, hys, hchecked', by rw [hcommit], ht, rfl⟩
  refine ⟨some t, _, _, hsecond, hST.trans (Set.subset_insert _ _), fun a ha => ?_, hfork,
    hm₁.trans (mid.grows_alloc (s := .map) (by decide) c),
    hm₂.trans (mid'.grows_alloc (s := .map) (by decide) c), .some hholds hholds' halike⟩
  rcases Heap.has_alloc (s := .map) ha with rfl | hold
  · exact .inr (Set.mem_insert _ _)
  · exact (hnew a hold).imp_right fun hmem => .inr hmem

/-- **What is stored in any field** for a value and for one that stands for it. -/
theorem storedFor_forks (hg₁ : b.Grows g₁) (hg₂ : b.Grows g₂) (hk : g₁.Forked p S g₂) (hf : f.Of p)
    (he : b.ExchangeIn p q v w) :
    Forks p S g₁ g₂ (storedFor f v config) (storedFor f w config) fun _ k₁ k₂ s t =>
      g₁.Grows k₁ ∧ g₂.Grows k₂ ∧ f.StoredAlike s t := by
  intro o k₁ hrun
  by_cases hmap : f.isMap = true
  · have hmapping := isMapping_of_storedFor hmap hrun
    cases he with
    | single he => exact absurd (he.plain.2.symm.trans hmapping) (by simp)
    | sequence _ _ hvs => exact absurd ((Value.isSequence_eq_false hmapping).symm.trans hvs) (by simp)
    | mapping hv hw hxs hys he =>
      exact storedFor_mapping_forks hpq hb hg₁ hg₂ hk hf hmap hmapping
        (Heap.isMapping_of_mappingEntries? hys) ((hg₁.mappingEntries? hv).trans hxs)
        ((hg₂.mappingEntries? hw).trans hys) he hrun
  by_cases hlist : f.isList = true
  · have hsequence := isSequence_of_storedFor hlist hrun
    cases he with
    | single he => exact absurd (he.plain.1.symm.trans hsequence) (by simp)
    | sequence hv hw _ hws hxs hys he =>
      exact storedFor_sequence_forks hpq hb hg₁ hg₂ hk hf hlist hsequence hws (hg₁.iterate hv hxs)
        (hg₂.iterate hw hys) he hrun
    | mapping _ _ hxs =>
      have hmapping := Heap.isMapping_of_mappingEntries? hxs
      exact absurd ((Value.isSequence_eq_false hmapping).symm.trans hsequence) (by simp)
  have hmap : f.isMap = false := by simpa using hmap
  have hlist : f.isList = false := by simpa using hlist
  rw [storedFor_single hmap hlist] at hrun ⊢
  obtain ⟨hsequence, hmapping⟩ := not_container_of_scalarFor hrun
  cases he with
  | single he => exact scalarFor_forks hpq hb hg₁ hg₂ hk hf hmap hlist he hrun
  | sequence _ _ hvs => exact absurd (hsequence.symm.trans hvs) (by simp)
  | mapping _ _ hxs =>
    exact absurd (hmapping.symm.trans (Heap.isMapping_of_mappingEntries? hxs)) (by simp)

/-- **Assigning** a value, and one that stands for it. -/
theorem setField_forks (hg₁ : b.Grows g₁) (hg₂ : b.Grows g₂) (hk : g₁.Forked p S g₂) {r : Ref .message}
    {name : String} (hr : ⟨.message, r⟩ ∈ S) (he : b.ExchangeIn p q v w) :
    Forks p S g₁ g₂ (setField r name v) (setField r name w) fun _ k₁ k₂ _ _ =>
      g₁.Alters {⟨.message, r⟩} k₁ ∧ g₂.Alters {⟨.message, r⟩} k₂ ∧
        ((g₁.cell r).views = [] → (k₁.cell r).views = [] ∧ (k₂.cell r).views = []) := by
  intro u k₁ hrun
  obtain ⟨hthawed, f, hfield⟩ := field_of_setField hrun
  obtain ⟨stored, mid, hstored, rfl⟩ := (setField_ok hfield hthawed).1 hrun
  obtain ⟨m, hm, hcell⟩ := hk.cell (hk.left.has hr)
  have hcell : g₂.cell r = { g₁.cell r with content := m } := hcell
  have hfield' : (g₂.cell r).content.descriptor.field? name = some f := by
    rw [hcell, hm.descriptor_eq]
    exact hfield
  have hmem := (MessageDescriptor.field?_eq_some.1 hfield).1
  have hf : f.Of p := FieldDescriptor.of_mem (hk.left.message hr).among hmem
  obtain ⟨stored', mid', T, hstored', hST, hnew, hmid, hm₁, hm₂, halike⟩ :=
    storedFor_forks hpq hb hg₁ hg₂ hk hf he hstored
  have hsecond := (setField_ok (h := g₂) (v := w) (r := r) hfield' (by rw [hcell]; exact hthawed)).2
    ⟨stored', mid', by rw [hcell]; exact hstored', rfl⟩
  have hold : mid.cell r = g₁.cell r := hm₁.cell (hk.left.has hr)
  have hold' : mid'.cell r = g₂.cell r := hm₂.cell (hk.right.has hr)
  have htyped := hmid.left.message (hST hr)
  have htyped' := hmid.right.message (hST hr)
  rw [hold] at htyped
  rw [hold'] at htyped'
  have hmem' : f ∈ (g₂.cell r).content.descriptor.fields := by
    rw [hcell, hm.descriptor_eq]
    exact hmem
  refine ⟨(), _, T, hsecond, hST, fun a ha => hnew a (Heap.has_put.1 ha),
    hmid.put (s := .message) (hST hr) ?_ ?_ (htyped.assign hmem fun s hs => ?_)
      (htyped'.assign hmem' fun s hs => ?_) ?_,
    hm₁.alters (mid.alters_put r _) (by simpa using hk.left.has hr),
    hm₂.alters (mid'.alters_put r _) (by simpa using hk.right.has hr), fun hviews => ?_⟩
  · rw [hold]
    cases halike with
    | none => exact rfl
    | some => exact Message.descriptor_set _ _ _
  · refine ⟨stored'.elim (m.clear f) (m.set f), ?_, ?_⟩
    · cases halike with
      | none => exact hm.clear f
      | some _ _ hst => exact hm.write f hst
    · rw [hcell]
  · cases halike with
    | none => cases hs
    | some hs' =>
      cases hs
      exact hs'
  · cases halike with
    | none => cases hs
    | some _ ht' =>
      cases hs
      exact ht'
  · intro v hv a ha
    obtain ⟨view, hview, rfl⟩ := List.mem_map.1 hv
    have hview : view ∈ (mid.cell r).views := hold ▸ (List.mem_filter.1 hview).1
    exact hmid.left.closed (hST hr) (List.mem_map.2 ⟨view, hview, rfl⟩) ha
  · have hviews' : (g₂.cell r).views = [] := by
      rw [hcell]
      exact hviews
    constructor
    · rw [Heap.cell_put_self mid (s := .message) r _ (hm₁.has (hk.left.has hr)), hviews]
      rfl
    · rw [Heap.cell_put_self mid' (s := .message) r _ (hm₂.has (hk.right.has hr)), hviews']
      rfl

end

/-! ## Lists -/

section

variable {S : Set Place} (hpq : p.Receives q) (hc : h.Closed) (hS : h.TypedOn p S) {r : Ref .repeated}
  (hr : ⟨.repeated, r⟩ ∈ S)

include hpq hc hS hr

omit hpq hc in
/-- The view gets items that it had, or that were checked. -/
theorem putItems_forks {T : Set Place} {k₁ k₂ : Heap} (hST : S ⊆ T) (hg₁ : h.Grows k₁)
    (hk : k₁.Forked p T k₂) {items : List Value}
    (hitems : ∀ v ∈ items, v ∈ (h.cell r).items ∨ k₁.FitsIn T (h.cell r).kind v) :
    Forks p T k₁ k₂ (put r { h.cell r with items := items }) (put r { h.cell r with items := items })
      fun _ _ _ _ _ => True := by
  refine .put (hk.putRepeated (hST hr) ?_ fun v hv => ?_) trivial
  · have hcell : k₁.cell r = h.cell r := hg₁.cell (hS.has hr)
    rw [hcell]
  · rcases hitems v hv with hold | hnew
    · exact (hS.fitsIn_items hr v hold).keep hST hg₁.lasts.keepsTypes
    · exact hnew

theorem append_forks (he : h.ExchangeIn p q v w) :
    Forks p S h h (append r v) (append r w) fun _ _ _ _ _ => True := by
  refine .cell rfl (.checkMutable (Forks.bind (normalize_checks hpq hc (.refl ∅ h) (.refl ∅ h) hS.forked
    (hS.repeated hr).field.kind he) ?_))
  rintro T k₁ k₂ _ a hST hk ⟨rfl, hg₁, -, ha, -⟩
  refine putItems_forks hS hr hST hg₁ hk fun x hx => ?_
  rcases List.mem_append.1 hx with hold | hnew
  · exact .inl hold
  · exact .inr (List.mem_singleton.1 hnew ▸ ha)

theorem insert_forks {index : Int} (he : h.ExchangeIn p q v w) :
    Forks p S h h (insert r index v) (insert r index w) fun _ _ _ _ _ => True := by
  refine .cell rfl (.checkMutable (Forks.bind (normalize_checks hpq hc (.refl ∅ h) (.refl ∅ h) hS.forked
    (hS.repeated hr).field.kind he) ?_))
  rintro T k₁ k₂ _ a hST hk ⟨rfl, hg₁, -, ha, -⟩
  refine putItems_forks hS hr hST hg₁ hk fun x hx => ?_
  rcases List.mem_append.1 hx with hold | hnew
  · exact .inl (List.mem_of_mem_take hold)
  · rcases List.mem_cons.1 hnew with rfl | hold
    · exact .inr ha
    · exact .inl (List.mem_of_mem_drop hold)

theorem setAt_forks {index : Int} (he : h.ExchangeIn p q v w) :
    Forks p S h h (setAt r index v) (setAt r index w) fun _ _ _ _ _ => True := by
  refine .cell rfl (.checkMutable (Forks.bind (normalize_checks hpq hc (.refl ∅ h) (.refl ∅ h) hS.forked
    (hS.repeated hr).field.kind he) ?_))
  rintro T k₁ k₂ _ a hST hk ⟨rfl, hg₁, -, ha, -⟩
  refine .step (fun hrun => ?_) fun position _ => ?_
  · obtain ⟨hposition, rfl⟩ := Prod.mk.inj hrun
    exact ⟨rfl, Prod.ext hposition rfl⟩
  refine putItems_forks hS hr hST hg₁ hk fun x hx => ?_
  rcases List.mem_or_eq_of_mem_set hx with hold | rfl
  · exact .inl hold
  · exact .inr ha

theorem extend_forks (he : h.ExchangeIn p q v w) :
    Forks p S h h (extend r v) (extend r w) fun _ _ _ _ _ => True := by
  refine .cell rfl (.checkMutable (.reading fun xs hxs => ?_))
  obtain ⟨ys, hys, hitems⟩ := he.iterate hxs
  refine ⟨ys, hys, Forks.bind (normalizeAll_checks hpq hc (.refl ∅ _) (.refl ∅ _) hS.forked
    (hS.repeated hr).field.kind hitems) ?_⟩
  rintro T k₁ k₂ _ as hST hk ⟨rfl, hg₁, -, has⟩
  refine putItems_forks hS hr hST hg₁ hk fun x hx => ?_
  exact (List.mem_append.1 hx).imp_right (has x)

end

/-! ## Maps -/

section

variable {S : Set Place} (hpq : p.Receives q) (hc : h.Closed) (hS : h.TypedOn p S) {r : Ref .map}
  (hr : ⟨.map, r⟩ ∈ S)

include hc hS hr

/-- The view gets updates that were checked. -/
theorem commit_forks {T : Set Place} {k₁ k₂ : Heap} (hST : S ⊆ T) (hg₁ : h.Grows k₁) (hg₂ : h.Grows k₂)
    (hk : k₁.Forked p T k₂) {updates : List (Value × Option Value)}
    (hupdates : ∀ u ∈ updates, Heap.UpdateIn h T k₁ k₂ (h.cell r).field u) :
    Forks p T k₁ k₂ (commit r updates) (commit r updates) fun _ _ _ _ _ => True := by
  have hcell : k₁.cell r = h.cell r := hg₁.cell (hS.has hr)
  have hcell' : k₂.cell r = h.cell r := hg₂.cell (hS.has hr)
  have hentries : ∀ e ∈ (h.cell r).entries, Heap.UpdateIn h T k₁ k₂ (h.cell r).field (e.1, some e.2) :=
    fun e he => (hS.updateIn_entries hr e he).keep hST hg₁ hg₂
  have hput := hk.putMap (hST hr) (c := { h.cell r with entries := k₁.commit (h.cell r).entries updates })
    (by rw [hcell]) fun e he => Heap.UpdateIn.of_mem_commit hentries hupdates he
  have hsecond : (commit r updates).run k₂ =
      (.ok (), k₂.put r { h.cell r with entries := k₁.commit (h.cell r).entries updates }) := by
    rw [← Heap.UpdateIn.commit_eq hentries hupdates hc hg₁ hg₂, ← hcell']
    rfl
  intro u l hrun
  cases hrun
  rw [hcell]
  exact ⟨(), _, T, hsecond, subset_rfl, fun _ ha => .inl (Heap.has_put.1 ha), hput, trivial⟩

include hpq

theorem mapSet_forks {key : Value} (hkey : h.Exchange p q key key) (he : h.ExchangeIn p q v w) :
    Forks p S h h (mapSet r key v) (mapSet r key w) fun _ _ _ _ _ => True := by
  refine .cell rfl (.checkMutable (Forks.bind (checkPair_checks hpq hc (hS.map hr).field (.refl ∅ h)
    (.refl ∅ h) hS.forked hkey he) ?_))
  rintro T k₁ k₂ _ u hST hk ⟨rfl, hg₁, hg₂, hu⟩
  exact commit_forks hc hS hr hST hg₁ hg₂ hk (List.forall_mem_singleton.2 hu)

theorem mapSetDefault_forks {key : Value} (hkey : h.Exchange p q key key) (he : h.ExchangeIn p q v w) :
    Forks p S h h (mapSetDefault r key v) (mapSetDefault r key w) fun _ _ _ a₁ a₂ => a₂ = a₁ := by
  refine .cell rfl (.checkMutable (.given rfl rfl ?_))
  split
  · exact .pure hS.forked rfl
  refine Forks.bind (checkPair_checks hpq hc (hS.map hr).field (.refl ∅ h) (.refl ∅ h) hS.forked hkey he) ?_
  rintro T k₁ k₂ _ u hST hk ⟨rfl, hg₁, hg₂, hu⟩
  split
  · exact Forks.bind (commit_forks hc hS hr hST hg₁ hg₂ hk (List.forall_mem_singleton.2 hu))
      fun _ _ _ _ _ _ hl _ => .pure hl rfl
  · exact .pure hk rfl

theorem mapUpdate_forks {source source' : Option Value} (he : h.ExchangePairs p q source source')
    {keywords keywords' : Keywords}
    (hkeywords : List.Forall₂ (fun k l => l.1 = k.1 ∧ h.Exchange p q k.2 l.2) keywords keywords') :
    Forks p S h h (mapUpdate r source keywords) (mapUpdate r source' keywords') fun _ _ _ _ _ => True := by
  have hnamed : List.Forall₂ (h.ExchangeEntry p q) (keywords.map fun k => (.text k.1, k.2))
      (keywords'.map fun k => (.text k.1, k.2)) := by
    rw [List.forall₂_map_left_iff, List.forall₂_map_right_iff]
    refine hkeywords.imp fun k l ⟨hname, he⟩ => ⟨congrArg Value.text hname, .text p q h k.1, he⟩
  refine .cell rfl (.checkMutable ?_)
  have hcheck {xs ys : List (Value × Value)} (hpairs : List.Forall₂ (h.ExchangeEntry p q) xs ys) :=
    checkPairs_checks (c := h.cell r) hpq hc (hS.map hr).field (.refl ∅ h) (.refl ∅ h) hS.forked
      (List.rel_append hpairs hnamed)
  cases he with
  | none =>
    refine .given rfl rfl (Forks.bind (hcheck .nil) ?_)
    rintro T k₁ k₂ _ us hST hk ⟨rfl, hg₁, hg₂, hus⟩
    exact commit_forks hc hS hr hST hg₁ hg₂ hk hus
  | some hxs hys he =>
    refine .given (reading_ok.2 ⟨hxs, rfl⟩) (reading_ok.2 ⟨hys, rfl⟩) (Forks.bind (hcheck he) ?_)
    rintro T k₁ k₂ _ us hST hk ⟨rfl, hg₁, hg₂, hus⟩
    exact commit_forks hc hS hr hST hg₁ hg₂ hk hus

end

end Script

end Protoscript
