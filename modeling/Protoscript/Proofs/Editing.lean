import Protoscript.Proofs.Branches
import Protoscript.Proofs.Keys
import Protoscript.Proofs.Parts

/-!
# Edits in place

What is written through a view, however deep it was read from a message, is in what the message is
flushed to, at the place that the view was read from, and nothing else there is different.

* `Heap.Gives`, `Heap.Obtains` — what reading a part of a value gives now, and reading along a path;
* `Heap.Edit` — two heaps of a run that differ at one place;
* `Heap.Edit.message`, `Heap.Edit.repeated`, `Heap.Edit.map` — if the edit was below one view or element
  of a message or view, what this one stores has changed there only;
* `Heap.Reachable.edit_contents` — so it is at the end of every path.
-/

namespace Protoscript

variable {p : Pool}

/-- A position that an index names is one of the sequence. -/
theorem lt_of_resolveIndex {n : Int} {length i : Nat} (hi : resolveIndex n length = .ok i) :
    i < length := by
  unfold resolveIndex at hi
  by_cases hout : (if n < 0 then n + length else n) < 0 ∨
      (length : Int) ≤ (if n < 0 then n + length else n)
  · rw [if_pos hout] at hi
    cases hi
  · rw [if_neg hout] at hi
    rw [← Except.ok.inj hi]
    omega

namespace Heap

variable {h h' : Heap}

/-! ## Reading again -/

/-- Whether reading a part of a value now gives another one, and changes nothing: an attribute of a
message, an item of a list, or the value of a key. The key is told by what it is stored as. -/
inductive Gives (h : Heap) : Value → Part → Value → Prop
  | attr {r : Ref .message} {name : String} {f : FieldDescriptor} {v : Value}
    (hf : (h.cell r).content.descriptor.field? name = some f)
    (hrun : (Operation.attr (.message r) name).run h = (.ok (some v), h)) :
    Gives h (.message r) (.field f.number) v
  | item {r : Ref .repeated} {n : Int} {i : Nat} {v : Value}
    (hi : resolveIndex n (h.cell r).items.length = .ok i)
    (hrun : (Operation.index (.repeated r) (.int n)).run h = (.ok v, h)) :
    Gives h (.repeated r) (.item i) v
  | entry {r : Ref .map} {key : Value} {i : Nat} {e : Value × Value} {stored : MapKey}
    (hi : h.findKey? key (h.cell r).entries = some i) (he : (h.cell r).entries[i]? = some e)
    (hkey : h.toMapKey (h.cell r).field.keyKind e.1 (h.cell r).config = .ok stored)
    (hrun : (Operation.index (.map r) key).run h = (.ok e.2, h)) :
    Gives h (.map r) (.entry stored) e.2

/-- Whether reading along a path now gives a value. -/
inductive Obtains (h : Heap) : Value → List Part → Value → Prop
  | here (v : Value) : Obtains h v [] v
  | step {v u w : Value} {part : Part} {path : List Part} (hu : h.Gives v part u)
    (hw : h.Obtains u path w) : Obtains h v (part :: path) w

/-- What a message gives, it keeps as a view. -/
theorem mem_views_of_run (hc : h.Closed) {r : Ref .message} {name : String} {v : Value}
    (hr : h.Has ⟨.message, r⟩)
    (hrun : (Operation.attr (.message r) name).run h = (.ok (some v), h)) :
    (name, v) ∈ (h.cell r).views := by
  have hruns : Script.Runs ∅ {⟨.message, r⟩} h (Script.messageAttr r name) _ :=
    Script.messageAttr_runs hc hr
  exact (hruns.ok hrun).2.1 v rfl

/-- What a list gives is its item. -/
theorem getElem?_of_run {r : Ref .repeated} {n : Int} {i : Nat} {v : Value}
    (hi : resolveIndex n (h.cell r).items.length = .ok i)
    (hrun : (Operation.index (.repeated r) (.int n)).run h = (.ok v, h)) :
    (h.cell r).items[i]? = some v := by
  have hlt := lt_of_resolveIndex hi
  have hitem : (Operation.index (.repeated r) (.int n)).run h =
      (.ok ((h.cell r).items.getD i .absent), h) := by
    have hat : (Operation.index (.repeated r) (.int n)).run h =
        (Script.itemAt (.repeated r) (.int n) (h.cell r).items).run h := rfl
    simp only [hat, Script.itemAt, Script.indexOperand, Script.run_bind, Script.run_pure,
      Script.run_ofExcept, hi]
  have hv : (h.cell r).items.getD i .absent = v :=
    Except.ok.inj (congrArg Prod.fst (hitem.symm.trans hrun))
  rw [← hv, List.getD_eq_getElem _ _ hlt, List.getElem?_eq_getElem hlt]

/-! ## One place that has changed -/

/-- Whether two heaps of runs differ at one place, apart from what is new on the second. -/
structure Edit (p : Pool) (q : Place) (h h' : Heap) : Prop where
  before : Reachable {p} h
  after : Reachable {p} h'
  alters : h.Alters {q} h'
  types : h.KeepsTypes h'

/-- An operation that writes to one place, whether it succeeds or fails. -/
theorem Edit.of_operation {α : Type} {op : Operation α} {q : Place} (hh : Reachable {p} h)
    (hop : op.Within {p} h) (hwrites : op.writes ⊆ {q}) : Edit p q h (op.run h).2 := by
  have hafter : Reachable {p} (op.run h).2 := hh.tail (.operation op hop)
  have hruns := op.runs hh.closed hop
  refine ⟨hh, hafter, ?_, (Changes.typed hruns.changes hh.typed hh.closed).1⟩
  rcases hrun : op.run h with ⟨e | a, mid⟩
  · exact Alters.mono (hruns.error hrun) (Set.empty_subset _)
  · exact Alters.mono (hruns.ok hrun).1 hwrites

section

variable {a c q : Place} (he : Edit p q h h')

include he

/-- What holds something above the place is as it was. -/
theorem Edit.cell_eq (ha : h.Holds c a) (hq : h.Below a q) : h'.cell c.2 = h.cell c.2 := by
  refine he.alters.cell ha.has_holder fun hmem => ?_
  obtain rfl : c = q := hmem
  exact he.before.forest.not_below_self he.before.flat c (Relation.TransGen.head' ha hq)

/-- So is what it holds besides. -/
theorem Edit.spared (hc : h.Settled c) (ha : h.Holds c a) (hq : h.Below a q) {v : Value}
    (hv : ∀ b, v.ref? = some b → h.Holds c b ∧ b ≠ a) : h.Spared {q} v := by
  intro b hb
  obtain ⟨hcb, hne⟩ := hv b hb
  refine ⟨⟨c, hcb⟩, fun q' hq' hbelow => hne ?_⟩
  obtain rfl : q' = q := hq'
  exact he.before.forest.below_unique he.before.flat hc hcb ha hbelow hq

end

/-- A view that is kept holds a reference at one position. -/
theorem Settled.position_unique {c a : Place} {v w : Value} {i j : Nat} (hc : h.Settled c)
    (hf : h.Forest) (view : Value) (hview : view.ref? = some c) (hi : (h.elements view)[i]? = some v)
    (hj : (h.elements view)[j]? = some w) (hv : v.ref? = some a) (hw : w.ref? = some a) : i = j := by
  have hshelf : c.1 = .repeated ∨ c.1 = .map := by
    by_contra hno
    rw [elements_of_shelf hview (not_or.1 hno)] at hi
    cases hi
  obtain ⟨r, hr⟩ := hc hshelf
  cases hr with
  | view hmem hq =>
    obtain rfl := Value.eq_of_ref? hview hq
    obtain rfl := Value.eq_of_ref? hv hw
    exact Protoscript.position_unique (hf.nodup_elements hmem) hi hj (hv ▸ rfl)
  | element hr hw =>
    rw [elements_of_shelf hr (by decide)] at hw
    cases hw

/-- The other elements of a view are spared, where an edit is below one of them. -/
theorem Edit.spared_element {a c q : Place} {u v : Value} {i j : Nat} (he : Edit p q h h')
    (view : Value) (hview : view.ref? = some c) (hc : h.Settled c) (hi : (h.elements view)[i]? = some u)
    (ha : u.ref? = some a) (hq : h.Below a q) (hj : (h.elements view)[j]? = some v) (hne : j ≠ i) :
    h.Spared {q} v := by
  have holds {k : Nat} {w : Value} {b : Place} (hk : (h.elements view)[k]? = some w)
      (hb : w.ref? = some b) : h.Holds c b := .element hview (List.mem_of_getElem? hk) hb
  refine he.spared hc (holds hi ha) hq fun b hb => ⟨holds hj hb, ?_⟩
  rintro rfl
  exact hne (hc.position_unique he.before.forest view hview hj hi hb ha)

/-- Messages can be flushed, to messages of their types. -/
theorem Reachable.exists_contents (hkeys : p.PlainKeys) (hh : Reachable {p} h) {r : Ref .message}
    (hr : h.Has ⟨.message, r⟩) :
    ∃ m, h.contents r = .ok m ∧ m.descriptor = (h.cell r).content.descriptor := by
  obtain ⟨m, hm⟩ := hh.typed.contents_ok hh.closed hh.forest hkeys hr
  exact ⟨m, hm, (hh.typed.contents hh.closed hr hm).descriptor⟩

/-- So can views of list fields. -/
theorem Reachable.exists_repeated (hkeys : p.PlainKeys) (hh : Reachable {p} h) {r : Ref .repeated}
    (hr : h.Has ⟨.repeated, r⟩) : ∃ s, (h.cell r).toStored h h.contents = .ok s :=
  (hh.typed.repeated hr).toStored fun _ hm =>
    hh.exists_contents hkeys ((hh.closed.repeatedItems hr _ hm).has rfl)

/-- And views of map fields. -/
theorem Reachable.exists_map (hkeys : p.PlainKeys) (hh : Reachable {p} h) {r : Ref .map}
    (hr : h.Has ⟨.map, r⟩) (hmap : (h.cell r).field.isMap = true) :
    ∃ s, (h.cell r).toStored h h.contents = .ok s := by
  have hcell := hh.typed.map hr
  refine hcell.toStored (hcell.field.isKey hkeys hmap) fun m hm => ?_
  obtain ⟨e, he, heq⟩ := List.mem_map.1 hm
  have hwithin : (Value.message m).Within h := heq ▸ (hh.closed.mapEntries hr e he).2
  exact hh.exists_contents hkeys (hwithin.has rfl)

/-- A message in a view is stored as what it is flushed to. -/
theorem Fits.toStored_of_viewContents {kind : Kind} {v : Value} {config : Config} {s : Stored}
    (hv : h.Fits kind v) (hh : Reachable {p} h) (hs : h.viewContents h.contents v = .ok (some s)) :
    kind.toStored h h.contents v config = .ok s := by
  cases hv with
  | scalar hv =>
    rw [viewContents_of_ref?_eq_none (Scalar.ref?_toValue _ _)] at hs
    cases hs
  | @message d r hk hr hd =>
    obtain ⟨m, hm, hms⟩ := Except.map_ok.1 hs
    cases hms
    have hmd := (hh.typed.contents hh.closed hr hm).descriptor.trans hd
    exact hk ▸ toStored_message hd hm hmd

section

variable {a q : Place} {u : Value} {s : Stored} {g : Stored → Stored} (hkeys : p.PlainKeys)
  (he : Edit p q h h') (ha : u.ref? = some a) (hq : h.Below a q)
  (hs : h.viewContents h.contents u = .ok (some s))
  (hs' : h'.viewContents h'.contents u = .ok (some (g s)))

include hkeys he ha hq hs hs'

/-- **An edit below an item of a list** changes the item in what the list stores. -/
theorem Edit.repeated {r : Ref .repeated} {i : Nat} (hr : h.Settled ⟨.repeated, r⟩)
    (hi : (h.cell r).items[i]? = some u) : ∃ items,
      h.viewContents h.contents (.repeated r) = .ok (some (.list items)) ∧ items[i]? = some s ∧
      h'.viewContents h'.contents (.repeated r) = .ok (some (.list (items.modify i g))) := by
  have hh := he.before
  have ht := hh.typed
  have holds : h.Holds ⟨.repeated, r⟩ a :=
    .element (v := .repeated r) rfl (List.mem_of_getElem? hi) ha
  have hhas : h.Has ⟨.repeated, r⟩ := holds.has_holder
  have hcell : h'.cell r = h.cell r := he.cell_eq holds hq
  have hfits (v : Value) (hv : v ∈ (h.cell r).items) : h.Fits (h.cell r).kind v :=
    (ht.repeated hhas).items v hv
  obtain ⟨t, hstored⟩ := hh.exists_repeated hkeys hhas
  obtain ⟨items, hitems, rfl⟩ := Except.map_ok.1 hstored
  have hfitsu := hfits u (List.mem_of_getElem? hi)
  have hold : (h.cell r).kind.toStored h h.contents u (h.cell r).config = .ok s :=
    hfitsu.toStored_of_viewContents hh hs
  have hnew : (h.cell r).kind.toStored h' h'.contents u (h.cell r).config = .ok (g s) :=
    (hfitsu.keep he.types).toStored_of_viewContents he.after hs'
  obtain ⟨hchanged, hget⟩ := Except.mapM_modify hitems hi hold hnew fun j v hj hne =>
    have hspared : h.Spared {q} v := he.spared_element (.repeated r) rfl hr hi ha hq hj hne
    hspared.toStored hkeys hh he.alters he.types
  refine ⟨items, congrArg (Except.map some) hstored, hget, ?_⟩
  have hviewed : h'.viewContents h'.contents (.repeated r) =
      ((h.cell r).toStored h' h'.contents).map some := by
    rw [← hcell]
    rfl
  rw [hviewed]
  exact congrArg (fun x => Except.map some (Except.map Stored.list x)) hchanged

/-- **An edit below a value of a map** changes the value of its key in what the map stores. -/
theorem Edit.map {r : Ref .map} {i : Nat} {e : Value × Value} {key : MapKey}
    (hr : h.Settled ⟨.map, r⟩) (hi : (h.cell r).entries[i]? = some e) (hu : e.2 = u)
    (hkey : h.toMapKey (h.cell r).field.keyKind e.1 (h.cell r).config = .ok key) : ∃ entries,
      h.viewContents h.contents (.map r) = .ok (some (.map entries)) ∧
      lookupKey key entries = some s ∧
      h'.viewContents h'.contents (.map r) = .ok (some (.map (editKey key g entries))) := by
  subst hu
  have hh := he.before
  have ht := hh.typed
  have element {j : Nat} {d : Value × Value} (hj : (h.cell r).entries[j]? = some d) :
      (h.elements (.map r))[j]? = some d.2 := by
    have hvalues : h.elements (.map r) = (h.cell r).entries.map (·.2) := rfl
    rw [hvalues, List.getElem?_map, hj]
    rfl
  have holds : h.Holds ⟨.map, r⟩ a :=
    .element (v := .map r) rfl (List.mem_of_getElem? (element hi)) ha
  have hhas : h.Has ⟨.map, r⟩ := holds.has_holder
  have hcell : h'.cell r = h.cell r := he.cell_eq holds hq
  have hmap := ht.isMap_of_settled hr
  have hplain := (ht.map hhas).field.isKey hkeys hmap
  have hfits := (ht.map hhas).entries
  obtain ⟨t, hstored⟩ := hh.exists_map hkeys hhas hmap
  rw [MapCell.toStored_eq] at hstored
  obtain ⟨entries, hentries, rfl⟩ := Except.map_ok.1 hstored
  -- keys are stored as before
  have hsame {d : Value × Value} (hd : d ∈ (h.cell r).entries) :
      (h.cell r).field.keyKind.toMapKey h' h'.contents d.1 (h.cell r).config =
        (h.cell r).field.keyKind.toMapKey h h.contents d.1 (h.cell r).config := by
    obtain ⟨k, hk, hvalue⟩ := (hfits d hd).1.exists_key hplain
    rw [hvalue, Kind.toMapKey_toValue hk, Kind.toMapKey_toValue hk]
  have hmem := List.mem_of_getElem? hi
  have hold : (h.cell r).storedEntry h h.contents e = .ok (key, s) :=
    MapCell.storedEntry_ok.2 ⟨hkey, (hfits e hmem).2.toStored_of_viewContents hh hs⟩
  have hnew : (h.cell r).storedEntry h' h'.contents e = .ok (key, g s) :=
    MapCell.storedEntry_ok.2 ⟨(hsame hmem).trans hkey,
      ((hfits e hmem).2.keep he.types).toStored_of_viewContents he.after hs'⟩
  have hothers (j : Nat) (d : Value × Value) (hj : (h.cell r).entries[j]? = some d) (hne : j ≠ i) :
      (h.cell r).storedEntry h' h'.contents d = (h.cell r).storedEntry h h.contents d := by
    have hspared : h.Spared {q} d.2 :=
      he.spared_element (.map r) rfl hr (element hi) ha hq (element hj) hne
    unfold MapCell.storedEntry
    rw [hsame (List.mem_of_getElem? hj), hspared.toStored hkeys hh he.alters he.types]
  obtain ⟨hchanged, hget⟩ :=
    Except.mapM_modify (g := fun y : MapKey × Stored => (y.1, g y.2)) hentries hi hold hnew hothers
  have hnodup : (entries.map (·.1)).Nodup :=
    MapCell.nodup_storedEntries (hh.distinctKeys r hplain) hplain (fun d hd => (hfits d hd).1) hentries
  have hstored' : (h'.cell r).toStored h' h'.contents =
      .ok (.map (editKey key g (mapOfEntries entries))) := by
    rw [hcell, MapCell.toStored_eq, hchanged, modify_eq_editKey hnodup hget, ← editKey_mapOfEntries]
    rfl
  rw [← MapCell.toStored_eq] at hstored
  exact ⟨mapOfEntries entries, congrArg (Except.map some) hstored,
    lookupKey_mapOfEntries hnodup (List.mem_of_getElem? hget), congrArg (Except.map some) hstored'⟩

/-- **An edit below a view of a message** changes the field of the view in what the message is flushed
to. -/
theorem Edit.message (hlaw : p.Lawful) {r : Ref .message} {name : String} {f : FieldDescriptor}
    (hf : (h.cell r).content.descriptor.field? name = some f) (hu : (name, u) ∈ (h.cell r).views) :
    ∃ m, h.contents r = .ok m ∧ m.stored? f = some s ∧
      h'.contents r = .ok (m.editField f.number g) := by
  have hh := he.before
  have ht := hh.typed
  have hhas : h.Has ⟨.message, r⟩ := has_of_views hu
  have holds : h.Holds ⟨.message, r⟩ a := .view hu ha
  have hcell : h'.cell r = h.cell r := he.cell_eq holds hq
  obtain ⟨hmem, hname⟩ := MessageDescriptor.field?_eq_some.1 hf
  obtain ⟨m, hm, -⟩ := hh.exists_contents hkeys hhas
  rw [contents_eq] at hm
  obtain ⟨ws, hws, rfl⟩ := Except.map_ok.1 hm
  obtain ⟨i, hi⟩ := List.getElem?_of_mem hu
  -- what the views write back, before and after
  have hold : h.write r (name, u) = .ok (some (f, s)) := by
    rw [write_of_field hf, hh.viewContents_follow hkeys hu, hs]
    rfl
  have hnew : h'.write r (name, u) = .ok (some (f, g s)) := by
    rw [write_of_field (hcell.symm ▸ hf), he.after.viewContents_follow hkeys (hcell ▸ hu), hs']
    rfl
  have hothers (j : Nat) (view : String × Value) (hj : (h.cell r).views[j]? = some view) (hne : j ≠ i) :
      h'.write r view = h.write r view := by
    obtain ⟨name', v⟩ := view
    have hview : (name', v) ∈ (h.cell r).views := List.mem_of_getElem? hj
    have hspared : h.Spared {q} v := he.spared (settled_message h r) holds hq fun b hb => by
      refine ⟨.view hview hb, ?_⟩
      rintro rfl
      obtain rfl : v = u := Value.eq_of_ref? hb ha
      have hslot := hh.forest.unique (a := ⟨r, name', none⟩) (b := ⟨r, name, none⟩) hview hu (ha ▸ rfl)
      cases hslot
      exact hne (index_unique (hh.forest.distinct r) hj hi rfl)
    unfold write
    rw [hcell, he.after.viewContents_follow hkeys (hcell ▸ hview),
      hspared.viewContents hkeys hh he.alters he.types, hh.viewContents_follow hkeys hview]
  obtain ⟨hchanged, hget⟩ := Except.mapM_modify
    (g := Option.map fun w : FieldDescriptor × Stored => (w.1, g w.2)) hws hi hold hnew hothers
  -- no other view decides what the field holds
  have hset : (f.isMap = true ∨ f.isList = true) ∨ ((h.cell r).content.stored? f).isSome := by
    obtain ⟨f', hf', hviews⟩ := (ht.message hhas).views _ hu
    obtain rfl := Option.some.inj (hf.symm.trans hf')
    cases hviews with
    | map hmap => exact .inl (.inl hmap)
    | list hlist => exact .inl (.inr hlist)
    | message _ _ _ _ _ hset => exact .inr hset
    | plain _ _ hv => cases hv.symm.trans ha
  have hdecides (j : Nat) (f' : FieldDescriptor) (s' : Stored) (hj : ws[j]? = some (some (f', s')))
      (hne : j ≠ i) : f ∈ f'.message.fields ∧ ¬ f'.Decides f := by
    obtain ⟨view, hview, hwrite⟩ := Except.getElem?_mapM hws hj
    refine ht.not_decides hlaw hhas hmem hset (List.mem_of_getElem? hview) (fun he => hne ?_) hwrite
    exact index_unique (hh.forest.distinct r) hview hi (he.trans hname)
  have hheld (f' : FieldDescriptor) (s' : Stored) (hw : some (f', s') ∈ ws) :
      f' ∈ (h.cell r).content.descriptor.fields ∧ f'.Holds s' := by
    obtain ⟨view, hview, hwrite⟩ := exists_of_forall₂ (Except.mapM_ok.1 hws) hw
    exact ht.holds_write hh.closed hhas (ht.follows hh.closed r) hview hwrite
  refine ⟨_, by rw [contents_eq, hws]; rfl, Message.stored?_writeAll_of_getElem? hget hdecides, ?_⟩
  rw [contents_eq, hcell, hchanged]
  refine congrArg Except.ok ((ht.takes hhas).writeAll_modify hheld hget fun j f' s' hj hne he => ?_)
  exact (hdecides j f' s' hj hne).2 (.inl he.symm)

end

/-! ## Paths -/

/-- What a value gives as a part it holds. -/
theorem Gives.holds {v u : Value} {part : Part} {a c : Place} (hg : h.Gives v part u) (hc : h.Closed)
    (hv : v.ref? = some c) (hhas : h.Has c) (hu : u.ref? = some a) : h.Holds c a := by
  cases hg with
  | attr _ hrun =>
    cases hv
    exact .view (mem_views_of_run hc hhas hrun) hu
  | item hi hrun => exact .element hv (List.mem_of_getElem? (getElem?_of_run hi hrun)) hu
  | @entry _ _ _ e _ _ he =>
    exact .element hv (List.mem_map.2 ⟨e, List.mem_of_getElem? he, rfl⟩) hu

/-- What has parts is a reference. -/
theorem Gives.ref?_isSome {v u : Value} {part : Part} (hg : h.Gives v part u) :
    ∃ c, v.ref? = some c := by
  cases hg <;> exact ⟨_, rfl⟩

/-- What is read along a path is below where the path starts. -/
theorem Obtains.leads_below {v w : Value} {path : List Part} {c q : Place} (ho : h.Obtains v path w)
    (hc : h.Closed) (hv : v.ref? = some c) (hhas : h.Has c) (hw : w.ref? = some q) :
    h.Below c q := by
  induction ho generalizing c with
  | here =>
    cases hv.symm.trans hw
    exact .refl
  | step hu hrest ih =>
    obtain ⟨a, ha⟩ : ∃ a, _ = some a := by
      cases hrest with
      | here => exact ⟨q, hw⟩
      | step hu' => exact hu'.ref?_isSome
    have hholds := hu.holds hc hv hhas ha
    exact .head hholds (ih ha (hholds.has hc) hw)

/-- **An edit at the end of a path** changes the part there of what the start of the path stores, and
that part only. -/
theorem Edit.obtains (hkeys : p.PlainKeys) (hlaw : p.Lawful) {v w : Value} {path : List Part}
    {c q : Place} {s s' : Stored} (he : Edit p q h h') (ho : h.Obtains v path w)
    (hv : v.ref? = some c) (hhas : h.Has c) (hsettled : h.Settled c) (hw : w.ref? = some q)
    (hs : h.viewContents h.contents w = .ok (some s))
    (hs' : h'.viewContents h'.contents w = .ok (some s')) :
    ∃ t, h.viewContents h.contents v = .ok (some t) ∧ t.part? path = some s ∧
      h'.viewContents h'.contents v = .ok (some (t.edit (fun _ => s') path)) := by
  have hc := he.before.closed
  -- on the path: what is obtained later is edited inside what is obtained before
  induction ho generalizing c with
  | here => exact ⟨s, hs, rfl, hs'⟩
  | @step v u w part path hu hrest ih =>
    obtain ⟨a, ha⟩ : ∃ a, u.ref? = some a := by
      cases hrest with
      | here => exact ⟨q, hw⟩
      | step hu' => exact hu'.ref?_isSome
    have hholds := hu.holds hc hv hhas ha
    have hbelow := hrest.leads_below hc ha (hholds.has hc) hw
    obtain ⟨t, ht, hpart, ht'⟩ := ih ha (hholds.has hc) (hholds.settled he.before.flat) hw hs hs'
    cases hu with
    | attr hf hrun =>
      cases hv
      obtain ⟨m, hm, hstored, hm'⟩ :=
        he.message hkeys ha hbelow ht ht' hlaw hf (mem_views_of_run hc hhas hrun)
      refine ⟨.message m, congrArg (Except.map _) hm, ?_, congrArg (Except.map _) hm'⟩
      exact Option.bind_eq_some_iff.2 ⟨t, hstored, hpart⟩
    | item hi hrun =>
      cases hv
      obtain ⟨items, hitems, hitem, hitems'⟩ :=
        he.repeated hkeys ha hbelow ht ht' hsettled (getElem?_of_run hi hrun)
      exact ⟨.list items, hitems, Option.bind_eq_some_iff.2 ⟨t, hitem, hpart⟩, hitems'⟩
    | entry hi hentry hkey =>
      cases hv
      obtain ⟨entries, hentries, hvalue, hentries'⟩ :=
        he.map hkeys ha hbelow ht ht' hsettled hentry rfl hkey
      exact ⟨.map entries, hentries, Option.bind_eq_some_iff.2 ⟨t, hvalue, hpart⟩, hentries'⟩

/-- What messages and views that are kept would store is there. -/
theorem Reachable.exists_viewContents (hkeys : p.PlainKeys) (hh : Reachable {p} h) {v : Value}
    {q : Place} (hv : v.ref? = some q) (hhas : h.Has q)
    (hshelf : q.1 = .message ∨ q.1 = .repeated ∨ q.1 = .map)
    (hmap : ∀ r : Ref .map, q = ⟨.map, r⟩ → (h.cell r).field.isMap = true) :
    ∃ s, h.viewContents h.contents v = .ok (some s) := by
  cases v <;> cases hv <;> simp at hshelf
  · obtain ⟨m, hm, -⟩ := hh.exists_contents hkeys hhas
    exact ⟨.message m, congrArg (Except.map _) hm⟩
  · obtain ⟨s, hs⟩ := hh.exists_repeated hkeys hhas
    exact ⟨s, congrArg (Except.map some) hs⟩
  · obtain ⟨s, hs⟩ := hh.exists_map hkeys hhas (hmap _ rfl)
    exact ⟨s, congrArg (Except.map some) hs⟩

/-- **Edits in place are never lost and never spill over**, if no list or map belongs to a oneof and
map keys are integers, booleans or texts. A view was read from a message along a path, and is what the
path still gives; an operation writes to the view, if to anything. Then what the message is flushed to
is what it was before, with what the view stores now in place of what it stored. -/
theorem Reachable.edit_contents {α : Type} (hlaw : p.Lawful) (hkeys : p.PlainKeys)
    (hh : Reachable {p} h) {r : Ref .message} (hr : h.Has ⟨.message, r⟩) {path : List Part} {w : Value}
    {q : Place} (hpath : h.Obtains (.message r) path w) (hw : w.ref? = some q) {op : Operation α}
    (hop : op.Within {p} h) (hwrites : op.writes ⊆ {q}) {result : Except Error α}
    (hrun : op.run h = (result, h')) :
    ∃ m m' s s', h.contents r = .ok m ∧ h'.contents r = .ok m' ∧
      h.viewContents h.contents w = .ok (some s) ∧ h'.viewContents h'.contents w = .ok (some s') ∧
      (Stored.message m).part? path = some s ∧ (Stored.message m').part? path = some s' ∧
      Stored.message m' = (Stored.message m).edit (fun _ => s') path := by
  have he : Edit p q h h' := by
    have hedit := Edit.of_operation hh hop hwrites
    rw [hrun] at hedit
    exact hedit
  have hc := hh.closed
  have hbelow := hpath.leads_below hc rfl hr hw
  -- what is edited is the message itself, or is held by a message or view inside it
  have hheld : h.Has q ∧ h.Settled q ∧ (q.1 = .message ∨ q.1 = .repeated ∨ q.1 = .map) := by
    cases hbelow with
    | refl => exact ⟨hr, settled_message h r, .inl rfl⟩
    | tail _ hlast => exact ⟨hlast.has hc, hlast.settled hh.flat, hh.typed.shelf_of_held hlast⟩
  obtain ⟨hhas, hsettled, hshelf⟩ := hheld
  have hmap (r : Ref .map) (hqr : q = ⟨.map, r⟩) : (h.cell r).field.isMap = true :=
    hh.typed.isMap_of_settled (hqr ▸ hsettled)
  have hmap' (r : Ref .map) (hqr : q = ⟨.map, r⟩) : (h'.cell r).field.isMap = true := by
    rw [he.types.map (hqr ▸ hhas)]
    exact hmap r hqr
  obtain ⟨s, hs⟩ := hh.exists_viewContents hkeys hw hhas hshelf hmap
  obtain ⟨s', hs'⟩ := he.after.exists_viewContents hkeys hw (he.types q hhas).1 hshelf hmap'
  obtain ⟨t, ht, hpart, ht'⟩ :=
    he.obtains hkeys hlaw hpath rfl hr (settled_message h r) hw hs hs'
  obtain ⟨m, hm, hmt⟩ := Except.map_ok.1 ht
  obtain ⟨m', hm', hmt'⟩ := Except.map_ok.1 ht'
  cases hmt
  have hedit : Stored.message m' = (Stored.message m).edit (fun _ => s') path :=
    Option.some.inj hmt'
  exact ⟨m, m', s, s', hm, hm', hs, hs', hpart, hedit ▸ Stored.part?_edit hpart, hedit⟩

end Heap

/-! ### A row of a table -/

namespace Sample

/-- Reading the row of a key from a table. -/
theorem obtains_row : opened.Obtains (.message root) [.field 1, .entry (.text "a")] (.message right) := by
  have hkey : opened.keysEqual (.text "a") (.text "a") = true :=
    MapKey.keysEqual_toValue opened (.text "a")
  have hentries : (opened.cell (s := .map) ⟨0⟩).entries = [(.text "a", .message right)] := rfl
  have hfind : opened.findKey? (.text "a") (opened.cell (s := .map) ⟨0⟩).entries = some 0 := by
    rw [hentries, Heap.findKey?, List.findIdx?_cons, hkey]
    rfl
  have hlookup : opened.lookup? (.text "a") (opened.cell (s := .map) ⟨0⟩).entries =
      some (.message right) := by
    rw [hentries, Heap.lookup?, List.find?_cons, hkey]
    rfl
  have hrun : (Operation.index (.map ⟨0⟩) (.text "a")).run opened =
      (.ok (.message right), opened) := by
    refine Script.bind_ok.2 ⟨opened, opened, rfl, ?_⟩
    rw [hlookup]
    rfl
  have hfield : (opened.cell root).content.descriptor.field? "rows" = some rowsField := rfl
  refine .step (.attr hfield rfl) (.step ?_ (.here _))
  exact .entry (e := (.text "a", .message right)) hfind rfl rfl hrun

theorem row_edited : tables.Lawful ∧ tables.PlainKeys ∧ Heap.Reachable {tables} opened ∧
    ∃ h' m m' s s', (Operation.assign (.message right) "depth" (.int 5)).run opened = (.ok (), h') ∧
      opened.contents root = .ok m ∧ h'.contents root = .ok m' ∧
      opened.viewContents opened.contents (.message right) = .ok (some s) ∧
      h'.viewContents h'.contents (.message right) = .ok (some s') ∧
      (Stored.message m).part? [.field 1, .entry (.text "a")] = some s ∧
      (Stored.message m').part? [.field 1, .entry (.text "a")] = some s' ∧
      Stored.message m' = (Stored.message m).edit (fun _ => s') [.field 1, .entry (.text "a")] := by
  have hlaw : tables.Lawful := by decide
  have hkeys : tables.PlainKeys := by decide
  have hroot : opened.Has ⟨.message, root⟩ := (by decide : 0 < 2)
  have hop : (Operation.assign (.message right) "depth" (.int 5)).Within {tables} opened := by
    have hright := given_message {tables} (by decide : right.index < opened.messages.size)
    have hfive := given {tables} opened (.int 5) nofun nofun rfl nofun
    exact within_of_given (List.forall_mem_cons.2 ⟨hright, List.forall_mem_singleton.2 hfive⟩) trivial
  have hwrites : (Operation.assign (.message right) "depth" (.int 5)).writes ⊆ {⟨.message, right⟩} := by
    rintro q (hfreezes | ⟨v, hv, hq⟩)
    · cases hfreezes
    · cases hv
      exact (Option.some.inj hq).symm
  have hedit := Heap.Reachable.edit_contents hlaw hkeys reachable_opened hroot obtains_row rfl hop hwrites
    rfl
  obtain ⟨m, m', s, s', hrest⟩ := hedit
  exact ⟨hlaw, hkeys, reachable_opened, _, m, m', s, s', rfl, hrest⟩

/-! ### Two lists in a oneof -/

/-- A pool whose message type has a oneof of two lists. -/
def pairs : Pool where
  id := 6
  messages := [{
    name := "Pair"
    fullName := "Pair"
    package := ""
    edition := .proto3
    parent := none
    isMapEntry := false
    fields := [field "first" 1 (.scalar .int32) true (some 0),
      field "second" 2 (.scalar .int32) true (some 0)]
    nodup_numbers := by decide
    nodup_names := by decide }]
  enums := []
  nodup_names := by decide
  kinds_within := by decide

def pair : MessageDescriptor := ⟨pairs, 0⟩

def firstField : FieldDescriptor := ⟨pair, field "first" 1 (.scalar .int32) true (some 0)⟩

def secondField : FieldDescriptor := ⟨pair, field "second" 2 (.scalar .int32) true (some 0)⟩

def paired : Heap where
  messages := #[{ content := .empty pair, config := {} }]

/-- After the first list was read. -/
def firstRead : Heap where
  messages := #[{ content := .empty pair, views := [("first", .repeated ⟨0⟩)], config := {} }]
  repeateds := #[{ field := firstField, config := {} }]

/-- After both lists were read. -/
def bothRead : Heap where
  messages := #[{
    content := .empty pair
    views := [("first", .repeated ⟨0⟩), ("second", .repeated ⟨1⟩)]
    config := {} }]
  repeateds := #[{ field := firstField, config := {} }, { field := secondField, config := {} }]

/-- Appending an item to the first list. -/
def appendOne : Operation Value :=
  .call (.callable (.repeated 0 "list<int32>" ⟨0⟩ .append)) [.int 1] []

theorem reachable_bothRead : Heap.Reachable {pairs} bothRead := by
  have hwrap : ((Operation.wrap ⟨pairs, {}⟩ (.empty pair)).run {}).2 = paired := rfl
  have hfirst : ((Operation.attr (.message root) "first").run paired).2 = firstRead := rfl
  have hsecond : ((Operation.attr (.message root) "second").run firstRead).2 = bothRead := rfl
  have hpaired : Heap.Reachable {pairs} paired := by
    rw [← hwrap]
    exact .single (.operation _ ⟨nofun, nofun, ⟨Set.mem_singleton _, by decide⟩, .empty pair⟩)
  have hfirstRead : Heap.Reachable {pairs} firstRead := by
    rw [← hfirst]
    exact hpaired.tail (.operation _ (within_of_message {pairs} paired rfl (by decide) trivial))
  rw [← hsecond]
  exact hfirstRead.tail (.operation _ (within_of_message {pairs} firstRead rfl (by decide) trivial))

/-- **Where two lists belong to a oneof**, an edit can be lost: both lists were read, and an item is
appended to the first one. Both views are written back, and writing the second list unsets the first
one. -/
theorem first_list_loses_item :
    ¬ pairs.Lawful ∧ pairs.PlainKeys ∧ Heap.Reachable {pairs} bothRead ∧
      bothRead.Obtains (.message root) [.field 1] (.repeated ⟨0⟩) ∧ appendOne.Within {pairs} bothRead ∧
      appendOne.writes ⊆ {⟨.repeated, ⟨0⟩⟩} ∧
      ∃ h' m', appendOne.run bothRead = (.ok .absent, h') ∧ h'.contents root = .ok m' ∧
        h'.viewContents h'.contents (.repeated ⟨0⟩) = .ok (some (.list [.scalar (.i32 1)])) ∧
        (Stored.message m').part? [.field 1] = none := by
  have hone := given {pairs} bothRead (.int 1) nofun nofun rfl nofun
  have happend := given {pairs} bothRead (.callable (.repeated 0 "list<int32>" ⟨0⟩ .append)) nofun
    (fun p hp => by cases hp; exact (by decide : 0 < bothRead.repeateds.size)) rfl nofun
  have hop : appendOne.Within {pairs} bothRead :=
    within_of_given (List.forall_mem_cons.2 ⟨happend, List.forall_mem_singleton.2 hone⟩) trivial
  have hwrites : appendOne.writes ⊆ {⟨.repeated, ⟨0⟩⟩} := by
    rintro q (hfreezes | ⟨v, hv, hq⟩)
    · cases hfreezes
    · cases hv
      exact (Option.some.inj hq).symm
  have hfield : (bothRead.cell root).content.descriptor.field? "first" = some firstField := rfl
  have hpath : bothRead.Obtains (.message root) [.field 1] (.repeated ⟨0⟩) :=
    .step (.attr hfield rfl) (.here _)
  have hcontents : (appendOne.run bothRead).2.contents root =
      .ok (.mk pair [(2, .list [])] []) := by
    rw [Heap.contents_eq]
    rfl
  exact ⟨by decide, by decide, reachable_bothRead, hpath, hop, hwrites, _, _, rfl, hcontents, rfl, rfl⟩

end Sample

end Protoscript
