import Protoscript.Proofs.InStep

/-!
# Filling a cleared view

A value that is assigned to a list or map field is checked, and what passes the checks is stored. A
view that was cleared and is filled from the value makes the same checks, and stores the same.

* `Value.isSequence`, `Value.isMapping` — what list and map fields are assigned from;
* `Script.storedFor_list`, `Script.extend_ok`, … — the two ways, taken apart;
* `Script.Refills` — whether filling a view does what an assignment does;
* `Script.refills_extend`, `Script.refills_update` — it does, for lists and for maps.
-/

namespace Protoscript

variable {p : Pool}

/-- Whether a value is a list, a tuple or a view of a repeated field. -/
def Value.isSequence : Value → Bool
  | .list _ | .tuple _ | .repeated _ => true
  | _ => false

/-- Whether a value is a dict or a view of a map field. -/
def Value.isMapping : Value → Bool
  | .dict _ | .map _ => true
  | _ => false

theorem Value.isSequence_eq_false {v : Value} (hv : v.isMapping = true) : v.isSequence = false := by
  cases v <;> first | rfl | cases hv

theorem Heap.isMapping_of_mappingEntries? {h : Heap} {v : Value} {entries : List (Value × Value)}
    (he : h.mappingEntries? v = some entries) : v.isMapping = true := by
  cases v <;> first | rfl | cases he

namespace Heap

variable {h g : Heap} {v w : Value}

section

variable (hsame : ∀ q, h.Leads v q → g.cell q.2 = h.cell q.2)

include hsame

theorem iterate_of_leads (hv : v.isSequence = true) : g.iterate v = h.iterate v := by
  cases v <;> cases hv
  case tuple.refl => rfl
  case list.refl r => exact congrArg (fun c : ListCell => Except.ok c.items) (hsame ⟨.list, r⟩ (.here rfl))
  case repeated.refl r =>
    exact congrArg (fun c : RepeatedCell => Except.ok c.items) (hsame ⟨.repeated, r⟩ (.here rfl))

theorem mappingEntries?_of_leads (hv : v.isMapping = true) :
    g.mappingEntries? v = h.mappingEntries? v := by
  cases v <;> cases hv
  case dict.refl r => exact congrArg (fun c : DictCell => some c.entries) (hsame ⟨.dict, r⟩ (.here rfl))
  case map.refl r => exact congrArg (fun c : MapCell => some c.entries) (hsame ⟨.map, r⟩ (.here rfl))

variable (hc : h.Closed) (hwithin : v.Within h) (hkeeps : h.KeepsTypes g)

include hc hwithin hkeeps

/-- The elements of a sequence are stored alike, if all that it leads to is as it was. -/
theorem storedAlike_of_iterate (hv : v.isSequence = true) {items : List Value}
    (hi : h.iterate v = .ok items) (hw : w ∈ items) : h.StoredAlike g w := by
  refine .of_leads hc (hc.iterate hwithin hi w hw) hkeeps fun q hq => hsame q ?_
  cases v <;> cases hv <;> cases hi
  case tuple.refl.refl => exact .part hw hq
  case list.refl.refl r => exact .through (q := ⟨.list, r⟩) rfl hw hq
  case repeated.refl.refl r => exact .through (q := ⟨.repeated, r⟩) rfl hw hq

/-- So are the keys and values of a mapping. -/
theorem storedAlike_of_mappingEntries {entries : List (Value × Value)} {e : Value × Value}
    (hi : h.mappingEntries? v = some entries) (he : e ∈ entries) :
    h.StoredAlike g e.1 ∧ h.StoredAlike g e.2 := by
  obtain ⟨hkey, hvalue⟩ := hc.mappingEntries hwithin hi e he
  have leads {w : Value} (hw : w ∈ [e.1, e.2]) {q : Place} (hq : h.Leads w q) : h.Leads v q := by
    have hmem : w ∈ entries.flatMap fun e => [e.1, e.2] := List.mem_flatMap.2 ⟨e, he, hw⟩
    cases v <;> cases hi
    case dict.refl r => exact .through (q := ⟨.dict, r⟩) rfl hmem hq
    case map.refl r => exact .through (q := ⟨.map, r⟩) rfl hmem hq
  exact ⟨.of_leads hc hkey hkeeps fun q hq => hsame q (leads (.head _) hq),
    .of_leads hc hvalue hkeeps fun q hq => hsame q (leads (.tail _ (.head _)) hq)⟩

end

end Heap

namespace Script

variable {h h' g : Heap} {f : FieldDescriptor} {v : Value} {config : Config}

/-! ## Runs taken apart -/

/-- A view made from a sequence. -/
theorem repeatedOf_of_isSequence (hv : v.isSequence = true) : repeatedOf f v config = (do
    let items ← reading (·.iterate v)
    let checked ← normalizeAll f.kind items config
    newRepeated { field := f, items := checked, config := config }) := by
  unfold repeatedOf
  cases v <;> cases hv <;> rfl

/-- Assigning a sequence to a list field. -/
theorem storedFor_list (hlist : f.isList = true) (hv : v.isSequence = true) {stored : Option Stored} :
    (storedFor f v config).run h = (.ok stored, h') ↔ ∃ items checked mid s,
      h.iterate v = .ok items ∧ (normalizeAll f.kind items config).run h = (.ok checked, mid) ∧
      h' = mid.alloc .repeated { field := f, items := checked, config := config } ∧
      h'.repeatedContents (mid.fresh .repeated) = .ok s ∧ stored = some s := by
  rw [storedFor_of_isList hlist, repeatedOf_of_isSequence hv]
  simp only [bind_assoc]
  constructor
  · intro hok
    obtain ⟨items, _, hreading, hok⟩ := bind_ok.1 hok
    obtain ⟨hitems, rfl⟩ := reading_ok.1 hreading
    obtain ⟨checked, mid, hchecked, hok⟩ := bind_ok.1 hok
    obtain ⟨view, _, hview, hok⟩ := bind_ok.1 hok
    cases hview
    obtain ⟨s, _, hreading, hok⟩ := bind_ok.1 hok
    obtain ⟨hs, rfl⟩ := reading_ok.1 hreading
    cases hok
    exact ⟨items, checked, mid, s, hitems, hchecked, rfl, hs, rfl⟩
  · rintro ⟨items, checked, mid, s, hitems, hchecked, rfl, hs, rfl⟩
    refine bind_ok.2 ⟨items, h, reading_ok.2 ⟨hitems, rfl⟩, bind_ok.2 ⟨checked, mid, hchecked, ?_⟩⟩
    exact bind_ok.2 ⟨_, _, rfl, bind_ok.2 ⟨s, _, reading_ok.2 ⟨hs, rfl⟩, rfl⟩⟩

/-- Extending a view that was cleared. -/
theorem extend_ok {q : Ref .repeated} (hcell : h.cell q = { field := f, config := config }) :
    (extend q v).run h = (.ok (), h') ↔ ∃ items checked mid,
      h.iterate v = .ok items ∧ (normalizeAll f.kind items config).run h = (.ok checked, mid) ∧
      h' = mid.put q { field := f, items := checked, config := config } := by
  unfold extend
  constructor
  · intro hok
    obtain ⟨c, _, hc, hok⟩ := bind_ok.1 hok
    cases hc
    rw [hcell] at hok
    obtain ⟨_, _, hmutable, hok⟩ := bind_ok.1 hok
    obtain ⟨-, rfl⟩ := checkMutable_ok.1 hmutable
    obtain ⟨items, _, hreading, hok⟩ := bind_ok.1 hok
    obtain ⟨hitems, rfl⟩ := reading_ok.1 hreading
    obtain ⟨checked, mid, hchecked, hok⟩ := bind_ok.1 hok
    cases hok
    exact ⟨items, checked, mid, hitems, hchecked, rfl⟩
  · rintro ⟨items, checked, mid, hitems, hchecked, rfl⟩
    refine bind_ok.2 ⟨_, _, rfl, ?_⟩
    rw [hcell]
    refine bind_ok.2 ⟨(), _, checkMutable_ok.2 ⟨rfl, rfl⟩, ?_⟩
    exact bind_ok.2 ⟨items, _, reading_ok.2 ⟨hitems, rfl⟩, bind_ok.2 ⟨checked, mid, hchecked, rfl⟩⟩

/-- Assigning a mapping to a map field. -/
theorem storedFor_map (hmap : f.isMap = true) (hv : v.isMapping = true) {stored : Option Stored} :
    (storedFor f v config).run h = (.ok stored, h') ↔ ∃ entries updates mid s,
      h.mappingEntries? v = some entries ∧
      (checkPairs { field := f, config := config } entries).run h = (.ok updates, mid) ∧
      h' = mid.alloc .map { field := f, entries := mid.commit [] updates, config := config } ∧
      h'.mapContents (mid.fresh .map) = .ok s ∧ stored = some s := by
  obtain ⟨entries, hentries⟩ : ∃ entries, h.mappingEntries? v = some entries := by
    cases v <;> cases hv <;> exact ⟨_, rfl⟩
  rw [storedFor_of_isMap hmap, bind_ok]
  simp only [mapOf_of_some hmap hentries]
  constructor
  · rintro ⟨view, _, hview, hok⟩
    obtain ⟨updates, mid, hupdates, hview⟩ := bind_ok.1 hview
    obtain ⟨_, _, hget, hview⟩ := bind_ok.1 hview
    cases hget
    cases hview
    obtain ⟨s, _, hreading, hok⟩ := bind_ok.1 hok
    obtain ⟨hs, rfl⟩ := reading_ok.1 hreading
    cases hok
    exact ⟨entries, updates, mid, s, hentries, hupdates, rfl, hs, rfl⟩
  · rintro ⟨entries', updates, mid, s, hentries', hupdates, rfl, hs, rfl⟩
    obtain rfl := Option.some.inj (hentries.symm.trans hentries')
    refine ⟨_, _, bind_ok.2 ⟨updates, mid, hupdates, bind_ok.2 ⟨_, _, rfl, rfl⟩⟩, ?_⟩
    exact bind_ok.2 ⟨s, _, reading_ok.2 ⟨hs, rfl⟩, rfl⟩

/-- Updating a view that was cleared. -/
theorem mapUpdate_ok {q : Ref .map} (hcell : h.cell q = { field := f, config := config })
    (hv : v.isMapping = true) :
    (mapUpdate q (some v) []).run h = (.ok (), h') ↔ ∃ entries updates mid,
      h.mappingEntries? v = some entries ∧
      (checkPairs { field := f, config := config } entries).run h = (.ok updates, mid) ∧
      h' = mid.put q { mid.cell q with entries := mid.commit (mid.cell q).entries updates } := by
  obtain ⟨entries, hentries⟩ : ∃ entries, h.mappingEntries? v = some entries := by
    cases v <;> cases hv <;> exact ⟨_, rfl⟩
  have hpairs : h.pairsOf v = .ok entries := by
    unfold Heap.pairsOf
    rw [hentries]
  unfold mapUpdate
  constructor
  · intro hok
    obtain ⟨c, _, hc, hok⟩ := bind_ok.1 hok
    cases hc
    rw [hcell] at hok
    obtain ⟨_, _, hmutable, hok⟩ := bind_ok.1 hok
    obtain ⟨-, rfl⟩ := checkMutable_ok.1 hmutable
    obtain ⟨pairs, _, hreading, hok⟩ := bind_ok.1 hok
    obtain ⟨hp, rfl⟩ := reading_ok.1 hreading
    obtain rfl := Except.ok.inj (hpairs.symm.trans hp)
    obtain ⟨updates, mid, hupdates, hok⟩ := bind_ok.1 hok
    rw [List.map_nil, List.append_nil] at hupdates
    cases hok
    exact ⟨entries, updates, mid, hentries, hupdates, rfl⟩
  · rintro ⟨entries', updates, mid, hentries', hupdates, rfl⟩
    obtain rfl := Option.some.inj (hentries.symm.trans hentries')
    refine bind_ok.2 ⟨_, _, rfl, ?_⟩
    rw [hcell]
    refine bind_ok.2 ⟨(), _, checkMutable_ok.2 ⟨rfl, rfl⟩, ?_⟩
    refine bind_ok.2 ⟨entries, _, reading_ok.2 ⟨hpairs, rfl⟩, bind_ok.2 ⟨updates, mid, ?_, rfl⟩⟩
    rwa [List.map_nil, List.append_nil]

/-! ## Filling a view -/

/-- Whether filling a view on one heap does what converting a value for a field does on another one:
it succeeds just as well, and the view then stores what the value is converted to. -/
structure Refills (h g : Heap) (f : FieldDescriptor) (v : Value) (config : Config) (fill : Script Unit)
    (view : Value) : Prop where
  iff : (∃ stored h', (storedFor f v config).run h = (.ok stored, h')) ↔
    ∃ g', fill.run g = (.ok (), g')
  same {stored : Option Stored} {h' g' : Heap} (hstored : (storedFor f v config).run h = (.ok stored, h'))
    (hfill : fill.run g = (.ok (), g')) :
    ∃ s, stored = some s ∧ g'.viewContents g'.contents view = .ok (some s)

section

variable (hh : Heap.Reachable {p} h) (hg : Heap.Reachable {p} g) (hf : f.Of p)

include hh hg hf

/-- **Extending a cleared view** by a sequence does what assigning it does. -/
theorem refills_extend (hlist : f.isList = true) (hv : v.isSequence = true) {q : Ref .repeated}
    (hq : g.Has ⟨.repeated, q⟩) (hcell : g.cell q = { field := f, config := config })
    (hiterate : g.iterate v = h.iterate v)
    (hitems : ∀ items, h.iterate v = .ok items → ∀ w ∈ items, h.StoredAlike g w) :
    Refills h g f v config (extend q v) (.repeated q) := by
  -- what was checked is stored alike from a new view and from the one that was cleared
  have stored {items checked checked' : List Value} {mid mid' : Heap} (hi : h.iterate v = .ok items)
      (hchecked : (normalizeAll f.kind items config).run h = (.ok checked, mid))
      (hchecked' : (normalizeAll f.kind items config).run g = (.ok checked', mid')) : ∃ s,
        (mid.alloc .repeated { field := f, items := checked, config := config }).repeatedContents
          (mid.fresh .repeated) = .ok s ∧
        (mid'.put q { field := f, items := checked', config := config }).repeatedContents q = .ok s := by
    obtain ⟨_, _, hrun, -, hgrows, hagree⟩ :=
      normalizeAll_inStep hh hg.closed hf.kind (hitems items hi) hchecked
    obtain ⟨he, rfl⟩ := Prod.mk.inj (hchecked'.symm.trans hrun)
    obtain rfl := Except.ok.inj he
    have hkeep := (mid.grows_alloc (s := .repeated) (by decide)
      { field := f, items := checked, config := config }).keepsMessages
    have hkeep' := mid'.keepsMessages_put (s := .repeated) (by decide) q
      { field := f, items := checked', config := config }
    unfold Heap.repeatedContents
    rw [Heap.cell_alloc_self, Heap.cell_put_self mid' q _ (hgrows.has hq)]
    exact Heap.repeatedToStored_related rfl (hagree.imp fun _ _ ha => ha.keep hkeep hkeep')
  refine ⟨⟨?_, ?_⟩, fun {o h' g'} hstored hfill => ?_⟩
  · rintro ⟨o, h', hok⟩
    obtain ⟨items, checked, mid, s, hi, hchecked, -⟩ := (storedFor_list hlist hv).1 hok
    obtain ⟨checked', mid', hrun, -⟩ :=
      normalizeAll_inStep hh hg.closed hf.kind (hitems items hi) hchecked
    exact ⟨_, (extend_ok hcell).2 ⟨items, checked', mid', hiterate.trans hi, hrun, rfl⟩⟩
  · rintro ⟨g', hok⟩
    obtain ⟨items, checked', mid', hi, hchecked', -⟩ := (extend_ok hcell).1 hok
    have hi := hiterate.symm.trans hi
    obtain ⟨checked, mid, hrun, -⟩ := normalizeAll_inStep hg hh.closed hf.kind
      (fun w hw => (hitems items hi w hw).symm) hchecked'
    obtain ⟨s, hs, -⟩ := stored hi hrun hchecked'
    exact ⟨some s, _, (storedFor_list hlist hv).2 ⟨items, checked, mid, s, hi, hrun, rfl, hs, rfl⟩⟩
  · obtain ⟨items, checked, mid, s, hi, hchecked, rfl, hs, rfl⟩ := (storedFor_list hlist hv).1 hstored
    obtain ⟨items', checked', mid', hi', hchecked', rfl⟩ := (extend_ok hcell).1 hfill
    obtain rfl := Except.ok.inj (hi.symm.trans (hiterate.symm.trans hi'))
    obtain ⟨t, ht, ht'⟩ := stored hi hchecked hchecked'
    obtain rfl := Except.ok.inj (hs.symm.trans ht)
    exact ⟨s, rfl, congrArg (Except.map some) ht'⟩

/-- **Updating a cleared view** by a mapping does what assigning it does. -/
theorem refills_update (hmap : f.isMap = true) (hkey : f.keyKind.isKey = true) (hv : v.isMapping = true)
    {q : Ref .map} (hq : g.Has ⟨.map, q⟩) (hcell : g.cell q = { field := f, config := config })
    (hmapping : g.mappingEntries? v = h.mappingEntries? v)
    (hentries : ∀ entries, h.mappingEntries? v = some entries →
      ∀ e ∈ entries, h.StoredAlike g e.1 ∧ h.StoredAlike g e.2) :
    Refills h g f v config (mapUpdate q (some v) []) (.map q) := by
  -- a new map and the view store the same, if the entries are checked
  have stored {entries : List (Value × Value)} {updates updates' : List (Value × Option Value)}
      {mid mid' : Heap} (hi : h.mappingEntries? v = some entries)
      (hupdates : (checkPairs { field := f, config := config } entries).run h = (.ok updates, mid))
      (hupdates' : (checkPairs { field := f, config := config } entries).run g = (.ok updates', mid')) :
      ∃ s, (mid.alloc .map { field := f, entries := mid.commit [] updates, config := config }).mapContents
          (mid.fresh .map) = .ok s ∧
        (mid'.put q { mid'.cell q with
          entries := mid'.commit (mid'.cell q).entries updates' }).mapContents q = .ok s := by
    obtain ⟨_, _, hrun, -, hgrows, hagree⟩ :=
      checkPairs_inStep hh hg.closed (c := { field := f, config := config }) hf (hentries entries hi)
        hupdates
    obtain ⟨he, rfl⟩ := Prod.mk.inj (hupdates'.symm.trans hrun)
    obtain rfl := Except.ok.inj he
    have hcell' : mid'.cell q = { field := f, config := config } := (hgrows.cell hq).trans hcell
    rw [hcell']
    have hcommit := Heap.commit_related hkey .nil hagree
    let c : MapCell := { field := f, entries := mid.commit [] updates, config := config }
    let c' : MapCell := { field := f, entries := mid'.commit [] updates', config := config }
    have hkeep := (mid.grows_alloc (s := .map) (by decide) c).keepsMessages
    have hkeep' := mid'.keepsMessages_put (s := .map) (by decide) q c'
    unfold Heap.mapContents
    rw [Heap.cell_alloc_self, Heap.cell_put_self mid' q _ (hgrows.has hq)]
    have hentries' : List.Forall₂ (Heap.EntriesAgree _ _ c.field config) c.entries c'.entries :=
      hcommit.imp fun _ _ ha => ⟨ha.key.keep hkeep hkeep', ha.value.keep hkeep hkeep'⟩
    exact Heap.mapToStored_related hkey rfl hentries'
  refine ⟨⟨?_, ?_⟩, fun {o h' g'} hstored hfill => ?_⟩
  · rintro ⟨o, h', hok⟩
    obtain ⟨entries, updates, mid, s, hi, hupdates, -⟩ := (storedFor_map hmap hv).1 hok
    obtain ⟨updates', mid', hrun, -⟩ := checkPairs_inStep hh hg.closed hf (hentries entries hi) hupdates
    exact ⟨_, (mapUpdate_ok hcell hv).2 ⟨entries, updates', mid', hmapping.trans hi, hrun, rfl⟩⟩
  · rintro ⟨g', hok⟩
    obtain ⟨entries, updates', mid', hi, hupdates', -⟩ := (mapUpdate_ok hcell hv).1 hok
    have hi := hmapping.symm.trans hi
    obtain ⟨updates, mid, hrun, -⟩ := checkPairs_inStep hg hh.closed hf
      (fun e he => ⟨(hentries entries hi e he).1.symm, (hentries entries hi e he).2.symm⟩) hupdates'
    obtain ⟨s, hs, -⟩ := stored hi hrun hupdates'
    exact ⟨some s, _, (storedFor_map hmap hv).2 ⟨entries, updates, mid, s, hi, hrun, rfl, hs, rfl⟩⟩
  · obtain ⟨entries, updates, mid, s, hi, hupdates, rfl, hs, rfl⟩ := (storedFor_map hmap hv).1 hstored
    obtain ⟨entries', updates', mid', hi', hupdates', rfl⟩ := (mapUpdate_ok hcell hv).1 hfill
    obtain rfl := Option.some.inj (hi.symm.trans (hmapping.symm.trans hi'))
    obtain ⟨t, ht, ht'⟩ := stored hi hupdates hupdates'
    obtain rfl := Except.ok.inj (hs.symm.trans ht)
    exact ⟨s, rfl, congrArg (Except.map some) ht'⟩

end

end Script

end Protoscript
