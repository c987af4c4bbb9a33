import Protoscript.Proofs.Checking
import Protoscript.Proofs.Dictionary
import Protoscript.Proofs.Editing
import Protoscript.Proofs.Refilling
import Protoscript.Proofs.Standing

/-!
# Edits of views of map fields

A view of a map field whose keys are integers, booleans or texts behaves as a dictionary: each edit of
the view is an edit of the dictionary, with values in the form that the field's types read back as, or
it fails and changes nothing.

* `MapEdit` — the edits of a view; `MapEdit.Does` — what each does to a dictionary, and what it gives;
* `Heap.Tabulates` — whether a view is a dictionary; `Heap.Reachable.exists_tabulates`,
  `Heap.Tabulates.contents` — views are, and what they store;
* `MapEdit.does` — one edit; `Heap.Reachable.map_dictionary` — any number of them.
-/

namespace Protoscript

variable {p : Pool}

/-! ## Keys -/

/-- A scalar type whose values can be keys stores a value as what is read as the value. -/
theorem ScalarType.toValue_of_toStored {t : ScalarType} {v : Value} {s : Scalar}
    (hkey : (Kind.scalar t).isKey = true) (hs : t.toStored v = .ok s) : s.toValue (.scalar t) = v := by
  have integer {α : Type} {convert : Int → Option α} {wrap : α → Scalar}
      (hv : intInRange (.scalar t) v (fun n => (convert n).map wrap) = .ok s)
      (hconvert : ∀ n x, convert n = some x → (wrap x).toValue (.scalar t) = .int n) :
      s.toValue (.scalar t) = v := by
    obtain ⟨n, rfl, hn⟩ := exists_of_intInRange hv
    obtain ⟨x, hx, rfl⟩ := Option.map_eq_some_iff.1 hn
    exact hconvert n x hx
  cases t <;> first
    | (cases hkey; done)
    | exact integer hs fun n x hx => congrArg Value.int (toInt_of_int32Of? hx)
    | exact integer hs fun n x hx => congrArg Value.int (toInt_of_int64Of? hx)
    | exact integer hs fun n x hx => congrArg Value.int (toNat_of_uint32Of? hx)
    | exact integer hs fun n x hx => congrArg Value.int (toNat_of_uint64Of? hx)
    | (cases v <;> cases hs; rfl)

namespace Heap

variable {h g : Heap} {kind : Kind} {f : FieldDescriptor} {config : Config} {v : Value} {r : Ref .map}

/-- A key that is found good is in the form that its type reads back as already. -/
theorem check_key (hkey : kind.isKey = true) {s : Stored} :
    h.check kind config v = .ok s ↔
      ∃ key : kind.Key, v = key.1.toValue ∧ s = .scalar key.1.toScalar := by
  have canonical {v : Value} {s : Stored} (hs : h.check kind config v = .ok s) :
      ∃ key : kind.Key, v = key.1.toValue ∧ s = .scalar key.1.toScalar := by
    rw [check_ok] at hs
    cases kind with
    | message d => cases hkey
    | enum d => cases hkey
    | scalar t =>
      obtain ⟨x, hx, rfl⟩ := Except.map_ok.1 hs
      have hholds : (Kind.scalar t).HoldsScalar x := Kind.holds_scalarToStored hx
      obtain ⟨key, rfl⟩ := hholds.exists_key hkey
      refine ⟨⟨key, hholds⟩, ?_, rfl⟩
      rw [MapKey.toValue_eq (.scalar t)]
      exact (ScalarType.toValue_of_toStored hkey hx).symm
  refine ⟨canonical, ?_⟩
  rintro ⟨key, rfl, rfl⟩
  have hfits : h.Fits kind (key.1.toScalar.toValue kind) := .scalar key.2
  obtain ⟨s, hs⟩ : ∃ s, h.toStored kind (key.1.toScalar.toValue kind) config = .ok s :=
    hfits.toStored fun q hq => by cases (Scalar.ref?_toValue ..).symm.trans (congrArg Value.ref? hq)
  rw [← MapKey.toValue_eq] at hs
  obtain ⟨key', hvalue, rfl⟩ := canonical (check_ok.2 hs)
  rw [key.2.toValue_inj key'.2 hvalue] at hs ⊢
  exact check_ok.2 hs

/-- Whether a view of a map field that is not frozen is a dictionary. -/
def Tabulates (h : Heap) (r : Ref .map) (f : FieldDescriptor) (config : Config)
    (d : Dictionary f.keyKind.Key Value) : Prop :=
  h.cell r = { field := f, entries := d.rows, config := config }

/-- **Views are dictionaries.** Their keys are in the form that their type reads back as. -/
theorem Reachable.exists_tabulates (hh : Reachable {p} h) (hr : h.Has ⟨.map, r⟩)
    (hkey : (h.cell r).field.keyKind.isKey = true) (hthawed : (h.cell r).frozen = false) :
    ∃ d, h.Tabulates r (h.cell r).field (h.cell r).config d := by
  have hrows : (h.cell r).entries ∈ Set.range
      (List.map fun e : (h.cell r).field.keyKind.Key × Value => (e.1.1.toValue, e.2)) := by
    rw [Set.range_list_map]
    intro e he
    obtain ⟨key, hholds, hkey⟩ := ((hh.typed.map hr).entries e he).1.exists_key hkey
    exact ⟨(⟨key, hholds⟩, e.2), Prod.ext hkey.symm rfl⟩
  obtain ⟨entries, hentries⟩ := hrows
  have hnodup : (entries.map (·.1)).Nodup := by
    have hdistinct := hh.distinctKeys r hkey
    rw [← hentries, List.map_map] at hdistinct
    have hmap : ((fun e : Value × Value => e.1) ∘ fun e : (h.cell r).field.keyKind.Key × Value =>
        (e.1.1.toValue, e.2)) = (fun key => key.1.toValue) ∘ (·.1) := rfl
    rw [hmap, ← List.map_map] at hdistinct
    exact hdistinct.of_map
  refine ⟨⟨entries, hnodup⟩, ?_⟩
  unfold Tabulates
  rw [← hthawed]
  exact congrArg (fun es => { h.cell r with entries := es }) hentries.symm

theorem Tabulates.grow {d : Dictionary f.keyKind.Key Value} (ht : h.Tabulates r f config d)
    (hg : h.Grows g) (hr : h.Has ⟨.map, r⟩) : g.Tabulates r f config d :=
  (hg.cell hr).trans ht

/-- A view that was overwritten. -/
theorem tabulates_put {d : Dictionary f.keyKind.Key Value} {entries : List (Value × Value)}
    (hr : h.Has ⟨.map, r⟩) (hrows : entries = d.rows) :
    (h.put r { field := f, entries := entries, config := config }).Tabulates r f config d := by
  unfold Tabulates
  rw [cell_put_self h r _ hr, hrows]

/-- The pairs of an update: those of a source, and then keyword arguments. -/
def updatePairs (h : Heap) (source : Option Value) (keywords : Keywords) :
    Except Error (List (Value × Value)) :=
  (source.elim (.ok []) h.pairsOf).map (· ++ keywords.map fun k => (.text k.1, k.2))

/-- A pair that is found good has a key of the type, and a value unless the legacy rules apply. -/
theorem checkUpdate_ok (hkey : f.keyKind.isKey = true) {key value : Value} {u : Stored × Option Stored}
    (hu : h.checkUpdate { field := f, config := config } (key, value) = .ok u) :
    ∃ k : f.keyKind.Key, key = k.1.toValue ∧ u.1 = .scalar k.1.toScalar ∧
      (value = .absent ∧ f.isLegacy config = true ∧ u.2 = none ∨
        ∃ s, h.check f.valueKind config value = .ok s ∧ u.2 = some s) := by
  by_cases habsent : value = .absent
  · subst habsent
    rw [checkUpdate_absent] at hu
    obtain ⟨t, ht, hu⟩ := Except.bind_ok.1 hu
    obtain ⟨k, rfl, rfl⟩ := (check_key hkey).1 ht
    by_cases hlegacy : f.isLegacy config = true
    · simp only [if_pos hlegacy] at hu
      cases hu
      exact ⟨k, rfl, rfl, .inl ⟨rfl, hlegacy, rfl⟩⟩
    · simp only [if_neg hlegacy] at hu
      cases hu
  · rw [checkUpdate_of_ne habsent] at hu
    obtain ⟨t, ht, hu⟩ := Except.bind_ok.1 hu
    obtain ⟨s, hs, hu⟩ := Except.bind_ok.1 hu
    obtain ⟨k, rfl, rfl⟩ := (check_key hkey).1 ht
    cases hu
    exact ⟨k, rfl, rfl, .inr ⟨s, hs, rfl⟩⟩

/-- What is made of a pair has the key that was checked. -/
theorem adoptUpdate_key (h : Heap) {c : MapCell} (key : c.field.keyKind.Key) (o : Option Stored) :
    h.adoptUpdate c (.scalar key.1.toScalar, o) =
      match o with
      | none => ((key.1.toValue, none), h)
      | some s => ((key.1.toValue, some (h.adopt c.field.valueKind c.config s).1),
          (h.adopt c.field.valueKind c.config s).2) := by
  have hkey : h.adopt c.field.keyKind c.config (.scalar key.1.toScalar) = (key.1.toValue, h) := by
    rw [adopt, ← MapKey.toValue_eq]
  cases o with
  | none => exact congrArg (fun made : Value × Heap => ((made.1, none), made.2)) hkey
  | some s => exact congrArg (fun made : Value × Heap =>
      ((made.1, some (made.2.adopt c.field.valueKind c.config s).1),
        (made.2.adopt c.field.valueKind c.config s).2)) hkey

/-- What is made of pairs are updates of a dictionary. -/
theorem exists_updates (g : Heap) {c : MapCell} {checked : List (Stored × Option Stored)}
    (hchecked : ∀ u ∈ checked, ∃ key : c.field.keyKind.Key, u.1 = .scalar key.1.toScalar) :
    ∃ updates : List (c.field.keyKind.Key × Option Value),
      (g.makeAll (·.adoptUpdate c) checked).1 = updates.map fun u => (u.1.1.toValue, u.2) := by
  induction checked generalizing g with
  | nil => exact ⟨[], rfl⟩
  | cons u rest ih =>
    obtain ⟨key, hkey⟩ := hchecked u (.head _)
    obtain ⟨updates, hupdates⟩ := ih (g.adoptUpdate c u).2 fun u hu => hchecked u (.tail _ hu)
    obtain ⟨s, o⟩ := u
    cases hkey
    refine ⟨(key, (g.adoptUpdate c (.scalar key.1.toScalar, o)).1.2) :: updates, ?_⟩
    rw [makeAll, List.map_cons, hupdates, adoptUpdate_key]
    cases o <;> rfl

theorem updatePairs_within (hc : h.Closed) {source : Option Value} {keywords : Keywords}
    (hsource : ∀ v ∈ source, v.Within h) (hkeywords : ∀ k ∈ keywords, k.2.Within h)
    {pairs : List (Value × Value)} (hpairs : h.updatePairs source keywords = .ok pairs) :
    ∀ e ∈ pairs, e.1.Within h ∧ e.2.Within h := by
  obtain ⟨given, hgiven, rfl⟩ := Except.map_ok.1 hpairs
  intro e he
  rcases List.mem_append.1 he with he | he
  · rcases source with _ | source
    · cases hgiven
      cases he
    · exact hc.pairsOf (hsource source rfl) hgiven e he
  · obtain ⟨k, hk, rfl⟩ := List.mem_map.1 he
    exact ⟨Value.within_of_place?_none (by simp) rfl, hkeywords k hk⟩

end Heap

/-! ## Edits -/

/-- An edit of a view of a map field. -/
inductive MapEdit where
  /-- sets the value of a key -/
  | set (key value : Value)
  /-- sets the value of a key that is missing -/
  | setDefault (key fallback : Value)
  /-- applies pairs and then keyword arguments -/
  | update (source : Option Value) (keywords : Keywords)
  /-- removes a key -/
  | pop (key : Value) (fallback : Option Value)
  /-- removes the first entry -/
  | popItem
  /-- removes all entries -/
  | clear

namespace MapEdit

/-- What a script does to edit a view. -/
def script (r : Ref .map) : MapEdit → Script Value
  | set key value => do
    Script.mapSet r key value
    return .absent
  | setDefault key fallback => Script.mapSetDefault r key fallback
  | update source keywords => do
    Script.mapUpdate r source keywords
    return .absent
  | pop key fallback => Script.mapPop r key fallback
  | popItem => Script.mapPopItem r
  | clear => do
    Script.clearMap r
    return .absent

/-- The values that are given to an edit. -/
def values : MapEdit → List Value
  | set key value => [key, value]
  | setDefault key fallback => [key, fallback]
  | update source keywords => source.toList ++ keywords.map (·.2)
  | pop key fallback => key :: fallback.toList
  | popItem => []
  | clear => []

/-- Whether the values that are given to an edit are of a heap and of its pools. -/
def Within (pools : Set Pool) (h : Heap) (edit : MapEdit) : Prop :=
  ∀ v ∈ edit.values, v.Within h ∧ v.From pools

/-- **What edits do to a dictionary**, and what they give. Values are checked, and are then in the form
that the field's types read back as; a key is found by equality of values. -/
inductive Does (h : Heap) (f : FieldDescriptor) (config : Config) (d : Dictionary f.keyKind.Key Value) :
    MapEdit → Except Error Value → Dictionary f.keyKind.Key Value → Prop
  | set {key : f.keyKind.Key} {v : Value} {s : Stored} (hv : h.check f.valueKind config v = .ok s) :
    Does h f config d (.set key.1.toValue v) (.ok .absent)
      (d.set key (h.adopt f.valueKind config s).1)
  | unset {key : f.keyKind.Key} (hlegacy : f.isLegacy config = true) :
    Does h f config d (.set key.1.toValue .absent) (.ok .absent) (d.erase key)
  | setRefused {key v : Value} {e : Error}
    (he : h.checkUpdate { field := f, config := config } (key, v) = .error e) :
    Does h f config d (.set key v) (.error e) d
  | defaultPresent {key v : Value} {e : f.keyKind.Key × Value}
    (hkey : (d.entries.find? fun e => h.keysEqual e.1.1.toValue key) = some e) :
    Does h f config d (.setDefault key v) (.ok e.2) d
  | defaultSet {key : f.keyKind.Key} {v : Value} {s : Stored} (hkey : d.get? key = none)
    (hv : h.check f.valueKind config v = .ok s) :
    Does h f config d (.setDefault key.1.toValue v) (.ok (h.adopt f.valueKind config s).1)
      (d.set key (h.adopt f.valueKind config s).1)
  | defaultUnset {key : f.keyKind.Key} (hkey : d.get? key = none)
    (hlegacy : f.isLegacy config = true) :
    Does h f config d (.setDefault key.1.toValue .absent) (.ok .absent) d
  | defaultRefused {key v : Value} {e : Error}
    (hkey : (d.entries.find? fun e => h.keysEqual e.1.1.toValue key) = none)
    (he : h.checkUpdate { field := f, config := config } (key, v) = .error e) :
    Does h f config d (.setDefault key v) (.error e) d
  | update {source : Option Value} {keywords : Keywords} {pairs : List (Value × Value)}
    {checked : List (Stored × Option Stored)} {updates : List (f.keyKind.Key × Option Value)}
    (hpairs : h.updatePairs source keywords = .ok pairs)
    (hchecked : pairs.mapM (h.checkUpdate { field := f, config := config }) = .ok checked)
    (hupdates : (h.makeAll (·.adoptUpdate { field := f, config := config }) checked).1 =
      updates.map fun u => (u.1.1.toValue, u.2)) :
    Does h f config d (.update source keywords) (.ok .absent) (updates.foldl .apply d)
  | updateUnread {source : Option Value} {keywords : Keywords} {e : Error}
    (he : h.updatePairs source keywords = .error e) :
    Does h f config d (.update source keywords) (.error e) d
  | updateRefused {source : Option Value} {keywords : Keywords} {pairs : List (Value × Value)}
    {e : Error} (hpairs : h.updatePairs source keywords = .ok pairs)
    (he : pairs.mapM (h.checkUpdate { field := f, config := config }) = .error e) :
    Does h f config d (.update source keywords) (.error e) d
  | pop {key : Value} {fallback : Option Value} {e : f.keyKind.Key × Value}
    (hkey : (d.entries.find? fun e => h.keysEqual e.1.1.toValue key) = some e) :
    Does h f config d (.pop key fallback) (.ok e.2) (d.erase e.1)
  | popFallback {key v : Value}
    (hkey : (d.entries.find? fun e => h.keysEqual e.1.1.toValue key) = none) :
    Does h f config d (.pop key (some v)) (.ok v) d
  | popMissing {key : Value}
    (hkey : (d.entries.find? fun e => h.keysEqual e.1.1.toValue key) = none) :
    Does h f config d (.pop key none) (.error (.keyNotFound key)) d
  | popItem {key : f.keyKind.Key} {v : Value} {rest : List (f.keyKind.Key × Value)}
    (hentries : d.entries = (key, v) :: rest) :
    Does h f config d .popItem (.ok (.tuple [key.1.toValue, v])) (d.erase key)
  | popEmpty (hentries : d.entries = []) : Does h f config d .popItem (.error .emptyMap) d
  | clear : Does h f config d .clear (.ok .absent) .empty

/-- Whether an edit does what it should, on one heap and to one view. -/
def Meets (edit : MapEdit) (h : Heap) (r : Ref .map) (f : FieldDescriptor) (config : Config)
    (d : Dictionary f.keyKind.Key Value) : Prop :=
  ∃ d', edit.Does h f config d ((edit.script r).run h).1 d' ∧
    ((edit.script r).run h).2.Tabulates r f config d'

section

open Script

variable {h : Heap} {r : Ref .map} {f : FieldDescriptor} {config : Config}
  {d : Dictionary f.keyKind.Key Value}

theorem Meets.of_run {edit : MapEdit} {out : Except Error Value} {g : Heap}
    {d' : Dictionary f.keyKind.Key Value} (hrun : (edit.script r).run h = (out, g))
    (hdoes : edit.Does h f config d out d') (ht : g.Tabulates r f config d') :
    edit.Meets h r f config d := by
  refine ⟨d', ?_, ?_⟩ <;> rw [hrun] <;> assumption

variable (hc : h.Closed) (hr : h.Has ⟨.map, r⟩) (ht : h.Tabulates r f config d)
  (hkey : f.keyKind.isKey = true)

include ht in
/-- What is done to a view that is not frozen. -/
theorem run_thawed {α : Type} (verb : String) (body : MapCell → Script α) :
    Script.run (do
      let c ← cell r
      checkMutable c.frozen verb "map"
      body c) h = (body { field := f, entries := d.rows, config := config }).run h := by
  rw [run_bind, run_cell]
  simp only [show h.cell r = { field := f, entries := d.rows, config := config } from ht]
  rfl

/-- Updates that were checked are applied. -/
theorem run_commit {mid : Heap} (ht : mid.Tabulates r f config d)
    (updates : List (f.keyKind.Key × Option Value)) :
    (commit r (updates.map fun u => (u.1.1.toValue, u.2))).run mid =
      (.ok (), mid.put r { field := f, entries := (updates.foldl .apply d).rows, config := config }) := by
  unfold commit
  rw [run_bind, run_get]
  simp only [show mid.cell r = { field := f, entries := d.rows, config := config } from ht, run_put,
    mid.commit_rows d updates]

include hc hkey in
/-- A pair that is found good gives an update of a dictionary. -/
theorem checkPair_ok {key value : Value} (hk : key.Within h) (hv : value.Within h)
    {u : Stored × Option Stored}
    (hu : h.checkUpdate { field := f, config := config } (key, value) = .ok u) :
    ∃ (k : f.keyKind.Key) (o : Option Value) (mid : Heap), key = k.1.toValue ∧ h.Grows mid ∧
      (checkPair { field := f, config := config } key value).run h = (.ok (k.1.toValue, o), mid) ∧
      (value = .absent ∧ f.isLegacy config = true ∧ o = none ∨
        ∃ s, h.check f.valueKind config value = .ok s ∧ o = some (h.adopt f.valueKind config s).1) := by
  have hpair : Performs h (checkPair { field := f, config := config } key value)
      (h.checkUpdate { field := f, config := config } (key, value))
      (·.adoptUpdate { field := f, config := config }) := checkPair_performs hc hk hv
  obtain ⟨hok, hg⟩ := hpair.ok (.refl ∅ h) hu
  obtain ⟨k, rfl, hku, hvalue⟩ := Heap.checkUpdate_ok hkey hu
  obtain ⟨t, o⟩ := u
  cases hku
  rw [Heap.adoptUpdate_key (c := { field := f, config := config })] at hok hg
  rcases hvalue with ⟨rfl, hlegacy, rfl⟩ | ⟨s, hs, rfl⟩
  · exact ⟨k, none, _, rfl, hg, hok, .inl ⟨rfl, hlegacy, rfl⟩⟩
  · exact ⟨k, some _, _, rfl, hg, hok, .inr ⟨s, hs, rfl⟩⟩

include hc hr ht

theorem meets_set (hkey : f.keyKind.isKey = true) {key value : Value} (hk : key.Within h)
    (hv : value.Within h) :
    (set key value).Meets h r f config d := by
  have hrun := run_thawed ht "set item of" fun c => do
    let update ← checkPair c key value
    commit r [update]
  rcases hu : h.checkUpdate { field := f, config := config } (key, value) with e | u
  · obtain ⟨g, hg, he⟩ :=
      (checkPair_performs (c := { field := f, config := config }) hc hk hv).error (.refl ∅ h) hu
    refine .of_run (g := g) (bind_error.2 (.inl (hrun.trans ?_))) (.setRefused hu) (ht.grow hg hr)
    exact bind_error.2 (.inl he)
  · obtain ⟨k, o, mid, rfl, hg, hok, hvalue⟩ := checkPair_ok hc hkey hk hv hu
    have hset : (mapSet r k.1.toValue value).run h = (.ok (), mid.put r
        { field := f, entries := (d.apply (k, o)).rows, config := config }) :=
      hrun.trans (bind_ok.2 ⟨_, mid, hok, run_commit (ht.grow hg hr) [(k, o)]⟩)
    refine .of_run (bind_ok.2 ⟨(), _, hset, rfl⟩) ?_ (Heap.tabulates_put (hg.has hr) rfl)
    rcases hvalue with ⟨rfl, hlegacy, rfl⟩ | ⟨s, hs, rfl⟩
    · exact .unset hlegacy
    · exact .set hs

theorem meets_setDefault (hkey : f.keyKind.isKey = true) {key value : Value} (hk : key.Within h)
    (hv : value.Within h) :
    (setDefault key value).Meets h r f config d := by
  have hrun : (mapSetDefault r key value).run h = _ := run_thawed ht "set item of" _
  rw [run_bind, run_get] at hrun
  simp only [h.lookup?_rows] at hrun
  rcases hfind : d.entries.find? fun e => h.keysEqual e.1.1.toValue key with _ | e
  · simp only [hfind, Option.map_none] at hrun
    rcases hu : h.checkUpdate { field := f, config := config } (key, value) with e | u
    · obtain ⟨g, hg, he⟩ :=
        (checkPair_performs (c := { field := f, config := config }) hc hk hv).error (.refl ∅ h) hu
      exact .of_run (g := g) (hrun.trans (bind_error.2 (.inl he))) (.defaultRefused hfind hu)
        (ht.grow hg hr)
    · obtain ⟨k, o, mid, rfl, hg, hok, hvalue⟩ := checkPair_ok hc hkey hk hv hu
      have hnone : d.get? k = none := by
        rw [Heap.keysEqual_key_eq] at hfind
        exact congrArg (Option.map (·.2)) hfind
      rcases hvalue with ⟨rfl, hlegacy, rfl⟩ | ⟨s, hs, rfl⟩
      · exact .of_run (hrun.trans (bind_ok.2 ⟨_, mid, hok, rfl⟩)) (.defaultUnset hnone hlegacy)
          (ht.grow hg hr)
      · have hcommit := run_commit (ht.grow hg hr) [(k, some (h.adopt f.valueKind config s).1)]
        exact .of_run (hrun.trans (bind_ok.2 ⟨_, mid, hok, bind_ok.2 ⟨_, _, hcommit, rfl⟩⟩))
          (.defaultSet hnone hs) (Heap.tabulates_put (hg.has hr) rfl)
  · simp only [hfind, Option.map_some] at hrun
    exact .of_run hrun (.defaultPresent hfind) ht

theorem meets_update (hkey : f.keyKind.isKey = true) {source : Option Value} {keywords : Keywords}
    (hsource : ∀ v ∈ source, v.Within h) (hkeywords : ∀ k ∈ keywords, k.2.Within h) :
    (update source keywords).Meets h r f config d := by
  have hrun : (mapUpdate r source keywords).run h = Script.run (do
      let pairs ← reading (·.updatePairs source keywords)
      let updates ← checkPairs { field := f, entries := d.rows, config := config } pairs
      commit r updates) h := by
    refine (run_thawed ht "update" _).trans ?_
    rcases source with _ | source
    · rfl
    · unfold Heap.updatePairs
      rw [run_bind, run_bind, run_reading, run_reading, Option.elim_some]
      rcases h.pairsOf source with e | pairs <;> rfl
  -- the source may give no pairs, and a pair may be refused
  rcases hpairs : h.updatePairs source keywords with e | pairs
  · refine .of_run (g := h) (bind_error.2 (.inl (hrun.trans ?_))) (.updateUnread hpairs) ht
    exact bind_error.2 (.inl (Prod.ext hpairs rfl))
  have hwithin := Heap.updatePairs_within hc hsource hkeywords hpairs
  have hperforms := checkPairs_performs (c := { field := f, config := config }) hc hwithin
  rcases hchecked : pairs.mapM (h.checkUpdate { field := f, config := config }) with e | checked
  · obtain ⟨g, hg, he⟩ := hperforms.error (.refl ∅ h) hchecked
    refine .of_run (g := g) (bind_error.2 (.inl (hrun.trans ?_))) (.updateRefused hpairs hchecked)
      (ht.grow hg hr)
    exact bind_error.2 (.inr ⟨pairs, h, reading_ok.2 ⟨hpairs, rfl⟩, bind_error.2 (.inl he)⟩)
  · obtain ⟨hok, hg⟩ := hperforms.ok (.refl ∅ h) hchecked
    have hkeys : ∀ u ∈ checked, ∃ k : f.keyKind.Key, u.1 = .scalar k.1.toScalar := fun u hu => by
      obtain ⟨e, he, hu⟩ := exists_of_forall₂ (Except.mapM_ok.1 hchecked) hu
      obtain ⟨k, -, hk, -⟩ := Heap.checkUpdate_ok hkey hu
      exact ⟨k, hk⟩
    obtain ⟨updates, hupdates⟩ := h.exists_updates (c := { field := f, config := config }) hkeys
    rw [hupdates] at hok
    have hcommit := run_commit (ht.grow hg hr) updates
    have hupdate : (mapUpdate r source keywords).run h = _ :=
      hrun.trans (bind_ok.2 ⟨pairs, h, reading_ok.2 ⟨hpairs, rfl⟩, bind_ok.2 ⟨_, _, hok, hcommit⟩⟩)
    exact .of_run (bind_ok.2 ⟨(), _, hupdate, rfl⟩) (.update hpairs hchecked hupdates)
      (Heap.tabulates_put (hg.has hr) rfl)

omit hc in
theorem meets_pop {key : Value} {fallback : Option Value} :
    (pop key fallback).Meets h r f config d := by
  have hrun : (mapPop r key fallback).run h = _ := run_thawed ht "pop from" _
  rw [run_bind, run_get] at hrun
  simp only [h.findKey?_rows] at hrun
  rcases hfind : d.entries.findIdx? fun e => h.keysEqual e.1.1.toValue key with _ | i
  · have hnone : (d.entries.find? fun e => h.keysEqual e.1.1.toValue key) = none :=
      List.find?_eq_none.2 fun e he => by simp [List.findIdx?_eq_none_iff.1 hfind e he]
    simp only [hfind] at hrun
    rcases fallback with _ | v
    · exact .of_run hrun (.popMissing hnone) ht
    · exact .of_run hrun (.popFallback hnone) ht
  · obtain ⟨e, he, hget⟩ : ∃ e, (d.entries.find? fun e => h.keysEqual e.1.1.toValue key) = some e ∧
        d.entries[i]? = some e := by
      obtain ⟨hi, hmatch, hbefore⟩ := List.findIdx?_eq_some_iff_getElem.1 hfind
      refine ⟨d.entries[i], ?_, List.getElem?_eq_getElem hi⟩
      exact List.find?_eq_some_iff_getElem.2 ⟨hmatch, i, hi, rfl, fun j hj => by simp [hbefore j hj]⟩
    simp only [hfind] at hrun
    have hrows : d.rows.eraseIdx i = (d.erase e.1).rows := by
      rw [Dictionary.rows_erase, ← eraseIdx_eq_eraseP d.nodup hget, ← List.eraseIdx_map]
      rfl
    have hvalue : ((d.rows[i]?).map (·.2)).getD .absent = e.2 := by
      simp [Dictionary.rows, hget]
    rw [hrows, hvalue] at hrun
    exact .of_run hrun (.pop he) (Heap.tabulates_put hr rfl)

omit hc in
theorem meets_popItem : popItem.Meets h r f config d := by
  have hrun : (mapPopItem r).run h = _ := run_thawed ht "pop from" _
  have hrows : d.rows = d.entries.map fun e => (e.1.1.toValue, e.2) := rfl
  rcases hentries : d.entries with _ | ⟨⟨key, v⟩, rest⟩
  · simp only [hrows, hentries, List.map_nil] at hrun
    exact .of_run hrun (.popEmpty hentries) ht
  · simp only [hrows, hentries, List.map_cons] at hrun
    refine .of_run hrun (.popItem hentries) (Heap.tabulates_put hr ?_)
    rw [Dictionary.rows_erase]
    simp [hentries]

omit hc in
theorem meets_clear : clear.Meets h r f config d := by
  have hrun : (clearMap r).run h =
      (.ok (), h.put r { field := f, entries := [], config := config }) := run_thawed ht "clear" _
  exact .of_run (bind_ok.2 ⟨(), _, hrun, rfl⟩) .clear (Heap.tabulates_put hr rfl)

end

section

variable {pools : Set Pool} {h : Heap} {r : Ref .map}

/-- **An edit does what it should.** -/
theorem meets {f : FieldDescriptor} {config : Config} {d : Dictionary f.keyKind.Key Value}
    (hc : h.Closed) (hr : h.Has ⟨.map, r⟩) (ht : h.Tabulates r f config d)
    (hkey : f.keyKind.isKey = true) {edit : MapEdit} (hedit : edit.Within pools h) :
    edit.Meets h r f config d := by
  cases edit with
  | set key value =>
    exact meets_set hc hr ht hkey (hedit key (.head _)).1 (hedit value (.tail _ (.head _))).1
  | setDefault key value =>
    exact meets_setDefault hc hr ht hkey (hedit key (.head _)).1 (hedit value (.tail _ (.head _))).1
  | update source keywords =>
    refine meets_update hc hr ht hkey (fun v hv => (hedit v ?_).1) fun k hk => (hedit k.2 ?_).1
    · exact List.mem_append_left _ (Option.mem_toList.2 hv)
    · exact List.mem_append_right _ (List.mem_map.2 ⟨k, hk, rfl⟩)
  | pop key fallback => exact meets_pop hr ht
  | popItem => exact meets_popItem hr ht
  | clear => exact meets_clear hr ht

open Sample (given within_of_given) in
/-- **An edit is a step of a run.** -/
theorem isStep (hr : h.Has ⟨.map, r⟩) {edit : MapEdit} (hedit : edit.Within pools h) :
    Heap.Step pools h ((edit.script r).run h).2 := by
  have call (m : MapMethod) (args : List Value) (keywords : Keywords)
      (hvalues : ∀ v ∈ args ++ keywords.map (·.2), v ∈ edit.values)
      (hrun : (Script.callMap r "" m args keywords).run h = (edit.script r).run h) :
      Heap.Step pools h ((edit.script r).run h).2 := by
    rw [← hrun]
    refine .operation (.call (.callable (.map 0 "" r m)) args keywords) (within_of_given ?_ trivial)
    have hview := given pools h (.callable (.map 0 "" r m)) nofun (fun q hq => by cases hq; exact hr) rfl nofun
    exact List.forall_mem_cons.2 ⟨hview, fun v hv => hedit v (hvalues v hv)⟩
  cases edit with
  | set key value =>
    have hrun : ((script r (.set key value)).run h).2 = ((Script.mapSet r key value).run h).2 := by
      unfold script
      rw [Script.run_bind]
      rcases (Script.mapSet r key value).run h with ⟨_ | _, _⟩ <;> rfl
    rw [hrun]
    refine .operation (.setIndex (.map r) key value) (within_of_given ?_ trivial)
    have hview := given pools h (.map r) nofun (fun q hq => by cases hq; exact hr) rfl nofun
    exact List.forall_mem_cons.2 ⟨hview, hedit⟩
  | setDefault key value =>
    exact call .setdefault [key, value] [] (by simp [values]) rfl
  | update source keywords =>
    refine call .update source.toList keywords (fun v hv => hv) ?_
    cases source <;> rfl
  | pop key fallback =>
    refine call .pop (key :: fallback.toList) [] (by simp [values]) ?_
    cases fallback <;> rfl
  | popItem => exact call .popitem [] [] (by simp) rfl
  | clear => exact call .clear [] [] (by simp) rfl

end

/-- Whether a heap comes from another one by edits of one view. -/
def Reaches (pools : Set Pool) (r : Ref .map) : Heap → Heap → Prop :=
  Relation.ReflTransGen fun h g => ∃ edit, edit.Within pools h ∧ g = ((script r edit).run h).2

end MapEdit

namespace Heap

variable {h g : Heap} {f : FieldDescriptor} {config : Config} {r : Ref .map}
  {d : Dictionary f.keyKind.Key Value}

/-- Looking a key up in a view is looking it up in the dictionary. -/
theorem Tabulates.lookup (ht : h.Tabulates r f config d) (key : f.keyKind.Key) :
    h.lookup? key.1.toValue (h.cell r).entries = d.get? key := by
  rw [show h.cell r = { field := f, entries := d.rows, config := config } from ht, lookup?_rows,
    keysEqual_key_eq]
  rfl

theorem Tabulates.keys (ht : h.Tabulates r f config d) :
    (h.cell r).entries.map (·.1) = d.keys.map fun key => key.1.toValue := by
  rw [show h.cell r = { field := f, entries := d.rows, config := config } from ht]
  simp [Dictionary.rows, Dictionary.keys]

/-- No two keys of a view are equal. -/
theorem Tabulates.keys_unequal (ht : h.Tabulates r f config d) :
    ((h.cell r).entries.map (·.1)).Pairwise fun a b => h.keysEqual a b = false := by
  rw [ht.keys, List.pairwise_map]
  exact d.nodup.imp fun hne => Bool.eq_false_iff.2 fun heq => hne (keysEqual_key.1 heq)

/-- **What a view stores has one entry for each of its entries**, if it can be flushed. -/
theorem Tabulates.contents (ht : h.Tabulates r f config d) {s : Stored} (hs : h.mapContents r = .ok s) :
    ∃ entries stored : List (MapKey × Stored), s = .map entries ∧ entries.Perm stored ∧
      List.Forall₂ (fun e t => t.1 = e.1.1 ∧ h.toStored f.valueKind e.2 config = .ok t.2)
        d.entries stored := by
  have hcell : h.cell r = { field := f, entries := d.rows, config := config } := ht
  unfold mapContents at hs
  rw [hcell, MapCell.toStored_eq] at hs
  obtain ⟨stored, hstored, rfl⟩ := Except.map_ok.1 hs
  have hentries : List.Forall₂ (fun e t => t.1 = e.1.1 ∧ h.toStored f.valueKind e.2 config = .ok t.2)
      d.entries stored := by
    refine (List.forall₂_map_left_iff.1 (Except.mapM_ok.1 hstored)).imp fun e t het => ?_
    obtain ⟨hkey, hvalue⟩ := MapCell.storedEntry_ok.1 het
    exact ⟨(Except.ok.inj ((Kind.toMapKey_toValue e.1.2).symm.trans hkey)).symm, hvalue⟩
  refine ⟨_, stored, rfl, perm_mapOfEntries ?_, hentries⟩
  have hkeys : stored.map (·.1) = d.keys.map Subtype.val := by
    unfold Dictionary.keys
    rw [List.map_map, ← List.forall₂_eq_eq_eq, List.forall₂_map_left_iff, List.forall₂_map_right_iff]
    exact hentries.flip.imp fun _ _ he => he.1
  rw [hkeys]
  exact d.nodup.map Subtype.val_injective

/-- A value that is set is there, other entries are as they were, and a new key comes last. -/
theorem Tabulates.set (ht : h.Tabulates r f config d) {key : f.keyKind.Key} {v : Value}
    (hg : g.Tabulates r f config (d.set key v)) :
    g.lookup? key.1.toValue (g.cell r).entries = some v ∧
      (∀ other : f.keyKind.Key, other ≠ key → g.lookup? other.1.toValue (g.cell r).entries =
        h.lookup? other.1.toValue (h.cell r).entries) ∧
      (g.cell r).entries.map (·.1) =
        if (h.lookup? key.1.toValue (h.cell r).entries).isSome then (h.cell r).entries.map (·.1)
        else (h.cell r).entries.map (·.1) ++ [key.1.toValue] := by
  refine ⟨?_, fun other hne => ?_, ?_⟩
  · rw [hg.lookup, Dictionary.get?_set, if_pos rfl]
  · rw [hg.lookup, ht.lookup, Dictionary.get?_set, if_neg hne.symm]
  · rw [hg.keys, ht.keys, ht.lookup, Dictionary.keys_set]
    by_cases hkey : key ∈ d.keys
    · rw [if_pos hkey, if_pos (Dictionary.isSome_get?.2 hkey)]
    · rw [if_neg hkey, if_neg fun hsome => hkey (Dictionary.isSome_get?.1 hsome), List.map_append]
      rfl

/-- Edits keep a view what it is. -/
theorem Reachable.of_edits {pools : Set Pool} (hh : Reachable pools h) (hr : h.Has ⟨.map, r⟩)
    (ht : h.Tabulates r f config d) (hkey : f.keyKind.isKey = true) (hg : MapEdit.Reaches pools r h g) :
    Reachable pools g ∧ g.Has ⟨.map, r⟩ ∧ ∃ d', g.Tabulates r f config d' := by
  induction hg with
  | refl => exact ⟨hh, hr, d, ht⟩
  | tail _ hstep ih =>
    obtain ⟨hmid, hmidr, d', ht'⟩ := ih
    obtain ⟨edit, hedit, rfl⟩ := hstep
    obtain ⟨d'', -, ht''⟩ := MapEdit.meets hmid.closed hmidr ht' hkey hedit
    have hstep := MapEdit.isStep hmidr hedit
    exact ⟨hmid.tail hstep, (hstep.changes hmid.closed).has hmidr, d'', ht''⟩

end Heap

namespace Sample

end Sample

end Protoscript
