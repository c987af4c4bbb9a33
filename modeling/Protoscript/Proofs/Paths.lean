import Protoscript.Proofs.Dictionary
import Protoscript.Proofs.InStep
import Protoscript.Proofs.KeyOrder
import Protoscript.Proofs.Nesting
import Protoscript.Proofs.Shown

/-!
# Messages that are read one out of the other

A message inside another one is reached by reading an attribute and, if that is a list or a map, an item
or the value of a key. What is reached holds what is stored there, be it a view that was kept or a new
one.

* `Hop` — a step from a message to one inside it; `Heap.Visits` — reading along it;
  `Heap.ReadsAlong` — reading along any number of steps;
* `Heap.Reachable.reads_first` — what a field gives that is read for the first time;
* `Heap.Visits.inside`, `Heap.ReadsAlong.inside` — what is reached holds what is stored there;
* `Heap.Pristine.visits`, `Heap.Pristine.readsAlong` — from a message that keeps no views, every message
  inside is reached.
-/

namespace Protoscript

variable {p : Pool}

/-- A step from a message to one inside it. -/
inductive Hop where
  /-- to the message that a field holds -/
  | field (number : Nat)
  /-- to an item of a list field -/
  | item (number position : Nat)
  /-- to the value of a key of a map field -/
  | entry (number : Nat) (key : MapKey)

/-- The same step, through stored values. -/
def Hop.parts : Hop → List Part
  | field number => [.field number]
  | item number position => [.field number, .item position]
  | entry number key => [.field number, .entry key]

/-! ## Items and entries that are stored -/

namespace Message

variable {m : Message} {f : FieldDescriptor}

/-- A default has no items. -/
theorem stored?_of_itemsOf (hne : m.itemsOf f ≠ []) : m.stored? f = some (.list (m.itemsOf f)) := by
  rcases hs : m.stored? f with _ | s
  · refine absurd ?_ hne
    unfold itemsOf get
    rw [hs, Option.getD_none]
    split
    · rename_i hdefault
      unfold Stored.defaultOf Stored.singleDefault at hdefault
      repeat' split at hdefault
      all_goals cases hdefault
      all_goals rfl
    · rfl
  · unfold itemsOf at hne ⊢
    rw [get_of_stored? rfl hs] at hne ⊢
    cases s <;> simp_all

/-- A default has no entries. -/
theorem stored?_of_entriesOf (hne : m.entriesOf f ≠ []) :
    m.stored? f = some (.map (m.entriesOf f)) := by
  rcases hs : m.stored? f with _ | s
  · refine absurd ?_ hne
    unfold entriesOf get
    rw [hs, Option.getD_none]
    split
    · rename_i hdefault
      unfold Stored.defaultOf Stored.singleDefault at hdefault
      repeat' split at hdefault
      all_goals cases hdefault
      all_goals rfl
    · rfl
  · unfold entriesOf at hne ⊢
    rw [get_of_stored? rfl hs] at hne ⊢
    cases s <;> simp_all

end Message

/-- What is at a path is at its second half, in what is at its first one. -/
theorem Stored.part?_append (xs ys : List Part) (s : Stored) :
    s.part? (xs ++ ys) = s.part? xs >>= part? ys := by
  induction xs generalizing s with
  | nil => rfl
  | cons step xs ih =>
    have deeper (o : Option Stored) : o.bind (part? (xs ++ ys)) = (o.bind (part? xs)).bind (part? ys) :=
      (congrArg o.bind (funext ih)).trans (Option.bind_assoc ..).symm
    cases step <;> cases s <;> first | rfl | exact deeper _

namespace Heap

variable {h h' mid : Heap}

/-- Whether reading along a step gives a message, on a heap that the reading leaves. -/
inductive Visits (h : Heap) (r : Ref .message) : Hop → Ref .message → Heap → Prop
  | field {name : String} {f : FieldDescriptor} {q : Ref .message} {h' : Heap}
    (hf : (h.cell r).content.descriptor.field? name = some f)
    (hrun : (Operation.attr (.message r) name).run h = (.ok (some (.message q)), h')) :
    Visits h r (.field f.number) q h'
  | item {name : String} {f : FieldDescriptor} {list : Ref .repeated} {i : Nat} {q : Ref .message}
    {mid h' : Heap} (hf : (h.cell r).content.descriptor.field? name = some f)
    (hrun : (Operation.attr (.message r) name).run h = (.ok (some (.repeated list)), mid))
    (hitem : (Operation.index (.repeated list) (.int i)).run mid = (.ok (.message q), h')) :
    Visits h r (.item f.number i) q h'
  | entry {name : String} {f : FieldDescriptor} {map : Ref .map} {key : MapKey} {q : Ref .message}
    {mid h' : Heap} (hf : (h.cell r).content.descriptor.field? name = some f)
    (hrun : (Operation.attr (.message r) name).run h = (.ok (some (.map map)), mid))
    (hkey : f.keyKind.HoldsKey key)
    (hvalue : (Operation.index (.map map) key.toValue).run mid = (.ok (.message q), h')) :
    Visits h r (.entry f.number key) q h'

/-- Whether reading along a path gives a message. -/
inductive ReadsAlong : Heap → Ref .message → List Hop → Ref .message → Heap → Prop
  | here (h : Heap) (r : Ref .message) : ReadsAlong h r [] r h
  | step {h mid h' : Heap} {r q q' : Ref .message} {hop : Hop} {path : List Hop}
    (hfirst : h.Visits r hop q mid) (hrest : ReadsAlong mid q path q' h') :
    ReadsAlong h r (hop :: path) q' h'

/-! ## Items and values of keys -/

/-- Reading an item changes nothing. -/
theorem run_index_repeated {q : Ref .repeated} {i : Nat} {v : Value} :
    (Operation.index (.repeated q) (.int i)).run h = (.ok v, h') ↔
      h' = h ∧ (h.cell q).items[i]? = some v := by
  have hrun : (Operation.index (.repeated q) (.int i)).run h =
      match resolveIndex i (h.cell q).items.length with
      | .ok position => (.ok ((h.cell q).items.getD position .absent), h)
      | .error e => (.error e, h) := by
    have hat : (Operation.index (.repeated q) (.int i)).run h =
        (Script.itemAt (.repeated q) (.int i) (h.cell q).items).run h := rfl
    simp only [hat, Script.itemAt, Script.indexOperand, Script.run_bind, Script.run_pure,
      Script.run_ofExcept]
    cases resolveIndex i (h.cell q).items.length <;> rfl
  rw [hrun]
  unfold resolveIndex
  by_cases hlt : i < (h.cell q).items.length
  · have hin : ¬ ((i : Int) < 0 ∨ ((h.cell q).items.length : Int) ≤ i) := by omega
    simp only [if_neg (show ¬ (i : Int) < 0 by omega), if_neg hin, Int.toNat_natCast,
      List.getD_eq_getElem _ _ hlt, List.getElem?_eq_getElem hlt, Prod.mk.injEq, Except.ok.injEq,
      Option.some.injEq]
    exact ⟨fun h => ⟨h.2.symm, h.1⟩, fun h => ⟨h.2, h.1.symm⟩⟩
  · have hout : (i : Int) < 0 ∨ ((h.cell q).items.length : Int) ≤ i := by omega
    have hnone : (h.cell q).items[i]? = none := List.getElem?_eq_none (by omega)
    simp only [if_neg (show ¬ (i : Int) < 0 by omega), if_pos hout, hnone]
    exact ⟨fun h => (by cases h), fun h => (by cases h.2)⟩

/-- The value of a key is that of the entry that has it, where every key is there once. -/
theorem lookup?_eq_some {key : MapKey} {entries : List (Value × Value)} {v : Value}
    (hentries : ∀ e ∈ entries, ∃ k : MapKey, e.1 = k.toValue) (hnodup : (entries.map (·.1)).Nodup) :
    h.lookup? key.toValue entries = some v ↔ (key.toValue, v) ∈ entries := by
  have same {e : Value × Value} (he : e ∈ entries) (hequal : h.keysEqual e.1 key.toValue = true) :
      e.1 = key.toValue := by
    obtain ⟨k, hk⟩ := hentries e he
    rw [hk] at hequal ⊢
    exact MapKey.toValue_eq_of_keysEqual hequal
  unfold lookup?
  rw [Option.map_eq_some_iff]
  constructor
  · rintro ⟨e, he, rfl⟩
    have hmem := List.mem_of_find?_eq_some he
    have hequal := List.find?_some he
    rw [← same hmem hequal]
    exact hmem
  · intro hmem
    have hsome : (entries.find? fun e => h.keysEqual e.1 key.toValue).isSome :=
      List.find?_isSome.2 ⟨_, hmem, key.keysEqual_toValue h⟩
    obtain ⟨e, he⟩ := Option.isSome_iff_exists.1 hsome
    have hin := List.mem_of_find?_eq_some he
    have hequal := List.find?_some he
    have hsame := List.inj_on_of_nodup_map hnodup hin hmem (same hin hequal)
    exact ⟨e, he, congrArg Prod.snd hsame⟩

/-- So it is in every view of a map field. -/
theorem Reachable.lookup?_eq_some (hkeys : p.PlainKeys) (hh : Reachable {p} h) {q : Ref .map}
    (hq : h.Has ⟨.map, q⟩) (hmap : (h.cell q).field.isMap = true) {key : MapKey} {v : Value} :
    h.lookup? key.toValue (h.cell q).entries = some v ↔ (key.toValue, v) ∈ (h.cell q).entries := by
  have ht := hh.typed.map hq
  have hplain := ht.field.isKey hkeys hmap
  refine Heap.lookup?_eq_some (fun e he => ?_) (hh.distinctKeys q hplain)
  obtain ⟨k, -, hk⟩ := (ht.entries e he).1.exists_key hplain
  exact ⟨k, hk⟩

/-- Reading the value of a key changes nothing. -/
theorem run_index_map {q : Ref .map} {key v : Value} :
    (Operation.index (.map q) key).run h = (.ok v, h') ↔
      h' = h ∧ h.lookup? key (h.cell q).entries = some v := by
  have hrun : (Operation.index (.map q) key).run h =
      (h.lookup? key (h.cell q).entries).elim (.error (.keyNotFound key), h) fun value => (.ok value, h) := by
    have hat : (Operation.index (.map q) key).run h = (Script.mapIndex q key).run h := rfl
    simp only [hat, Script.mapIndex, Script.run_bind, Script.run_get]
    cases h.lookup? key (h.cell q).entries <;> rfl
  rw [hrun]
  cases h.lookup? key (h.cell q).entries with
  | none => simp
  | some w =>
    simp only [Option.elim_some, Prod.mk.injEq, Except.ok.injEq, Option.some.injEq]
    exact ⟨fun h => ⟨h.2.symm, h.1⟩, fun h => ⟨h.2, h.1.symm⟩⟩

/-! ## Fields that are read for the first time -/

/-- What is shown by something else than a message is shown whatever is written to the message. -/
theorem Shows.put {kind : Kind} {config : Config} {s : Stored} {v : Value} {r : Ref .message}
    {c : MessageCell} (hv : h.Shows kind config s v) (hne : v ≠ .message r) :
    (h.put r c).Shows kind config s v := by
  cases s with
  | scalar => exact hv
  | message m =>
    obtain ⟨q, rfl, hq, hcell⟩ := hv
    have hqr : q ≠ r := fun he => hne (congrArg Value.message he)
    refine ⟨q, rfl, has_put.2 hq, ?_⟩
    rwa [cell_put_of_ne h hqr]
  | list items =>
    obtain ⟨q, rfl, hq⟩ := hv
    exact ⟨q, rfl, has_put.2 hq⟩
  | map entries =>
    obtain ⟨q, rfl, hq⟩ := hv
    exact ⟨q, rfl, has_put.2 hq⟩

/-- What a field was read as is still what it reads as after the message that keeps it was written. -/
theorem Reads.put {m : Message} {f : FieldDescriptor} {config : Config} {v : Value} {r : Ref .message}
    {c : MessageCell} (hv : h.Reads m f config v) (hne : ∀ w ∈ v :: h.elements v, w ≠ .message r) :
    (h.put r c).Reads m f config v := by
  cases hv with
  | @map q hq hc =>
    have hcell : (h.put r c).cell q = h.cell q := cell_put_of_shelf_ne h (by decide) r q c
    refine .map (has_put.2 hq) ?_
    rw [hcell]
    refine ⟨hc.isMap, hc.sameField, hc.sameConfig, ?_⟩
    refine List.forall₂_iff_zip.2 ⟨hc.entries.length_eq, fun {s e} hmem => ?_⟩
    obtain ⟨hkey, hvalue⟩ := (List.forall₂_iff_zip.1 hc.entries).2 hmem
    exact ⟨hkey, hvalue.put (hne _ (.tail _ (List.mem_map_of_mem (List.of_mem_zip hmem).2)))⟩
  | @list q hq hc =>
    have hcell : (h.put r c).cell q = h.cell q := cell_put_of_shelf_ne h (by decide) r q c
    refine .list (has_put.2 hq) ?_
    rw [hcell]
    refine ⟨hc.notMap, hc.isList, hc.sameField, hc.sameConfig, ?_⟩
    refine List.forall₂_iff_zip.2 ⟨hc.items.length_eq, fun {s v} hmem => ?_⟩
    exact ((List.forall₂_iff_zip.1 hc.items).2 hmem).put
      (hne _ (.tail _ (List.of_mem_zip hmem).2))
  | absent hmap hlist hunset hf => exact .absent hmap hlist hunset hf
  | single hmap hlist hset hv => exact .single hmap hlist hset (hv.put (hne _ (.head _)))

theorem Reachable.attr (hh : Reachable {p} h) {r : Ref .message} (hr : h.Has ⟨.message, r⟩)
    {name : String} {result : Except Error (Option Value)}
    (hrun : (Operation.attr (.message r) name).run h = (result, h')) : Reachable {p} h' := by
  have hop : (Operation.attr (.message r) name).Within {p} h :=
    Sample.within_of_message {p} h rfl hr trivial
  have hafter := hh.tail (.operation _ hop)
  rwa [hrun] at hafter

/-- What an attribute gives is kept. -/
theorem mem_views_of_attr (hc : h.Closed) {r : Ref .message} {name : String} {v : Value}
    (hr : h.Has ⟨.message, r⟩)
    (hrun : (Operation.attr (.message r) name).run h = (.ok (some v), h')) :
    (name, v) ∈ (h'.cell r).views := by
  have hruns : Script.Runs ∅ {⟨.message, r⟩} h (Script.messageAttr r name) _ :=
    Script.messageAttr_runs hc hr
  exact (hruns.ok hrun).2.1 v rfl

variable {r : Ref .message} {name : String} {f : FieldDescriptor}

/-- **A field that is read for the first time** is read out of the content. -/
theorem Reachable.reads_first (hh : Reachable {p} h) (hr : h.Has ⟨.message, r⟩)
    (hnone : lookupName name (h.cell r).views = none)
    (hf : (h.cell r).content.descriptor.field? name = some f) :
    ∃ v h', (Operation.attr (.message r) name).run h = (.ok (some v), h') ∧ Reachable {p} h' ∧
      h'.Reads (h.cell r).content f (h.cell r).config v := by
  obtain ⟨mid, v, h', -, hg, hkeeps, hrun⟩ := Script.messageAttr_first {p} hr hnone hf
  change (Operation.attr (.message r) name).run h = (.ok (some v), h') at hrun
  refine ⟨v, h', hrun, hh.attr hr hrun, ?_⟩
  have hreads := hkeeps.reads
  rw [hg.cell hr] at hreads
  rw [hkeeps.eq]
  refine hreads.put fun w hw he => ?_
  have hlt := hkeeps.after w hw r he
  exact absurd hlt (Nat.lt_irrefl _)

/-! ## What was read -/

section

variable {d : MessageDescriptor} {x m : Message} {config : Config} {v : Value} {q : Ref .message}

/-- A message that is stored is read as one. -/
theorem Reads.of_message (hx : d.Takes x) (hf : f ∈ d.fields) (hv : h.Reads x f config v)
    (hs : x.stored? f = some (.message m)) : ∃ q, v = .message q ∧ h.Pristine config q m := by
  obtain ⟨e, hkind, -⟩ := (hx.stored hf hs).messageType
  cases hx.stored hf hs with
  | single hmap hlist =>
    cases hv with
    | map _ hc => exact absurd hc.isMap (by simp [hmap])
    | list _ hc => exact absurd hc.isList (by simp [hlist])
    | absent _ _ hunset =>
      rw [Message.has_of_message hmap hlist hkind hs] at hunset
      cases hunset
    | single _ _ _ hv =>
      rw [Message.get_of_stored? rfl hs] at hv
      exact shows_message.1 hv

/-- What is read as a message is stored as one. -/
theorem Reads.message (hx : d.Takes x) (hf : f ∈ d.fields) (hv : h.Reads x f config (.message q)) :
    ∃ m, x.stored? f = some (.message m) ∧ h.Pristine config q m := by
  cases hv with
  | single hmap hlist hset hv =>
    obtain ⟨m, hget, hq⟩ := hv.exists_message
    have hholds := hx.get hf
    rw [hget] at hholds
    obtain ⟨e, hkind, -⟩ := hholds.messageType
    have hhas : x.has f = true := by
      simpa [hkind, Kind.isMessage] using hset
    obtain ⟨s, hs⟩ := Option.isSome_iff_exists.1 (Message.isSome_of_has hhas)
    rw [Message.get_of_stored? rfl hs] at hget
    exact ⟨m, hget ▸ hs, hq⟩

/-- Items that are stored are read as the items of a view. -/
theorem Reads.of_list {items : List Stored} (hx : d.Takes x) (hf : f ∈ d.fields)
    (hv : h.Reads x f config v) (hs : x.stored? f = some (.list items)) :
    ∃ list : Ref .repeated, v = .repeated list ∧
      List.Forall₂ (h.Shows f.kind config) items (h.cell list).items := by
  have hitems : x.itemsOf f = items := by rw [Message.itemsOf, Message.get_of_stored? rfl hs]
  cases hx.stored hf hs with
  | list hlist =>
    cases hv with
    | map _ hc => exact absurd hc.isMap (by simp [FieldDescriptor.isMap_of_isList hlist])
    | @list q _ hc => exact ⟨q, rfl, hitems ▸ hc.items⟩
    | absent _ hno => exact absurd hlist (by simp [hno])
    | single _ hno => exact absurd hlist (by simp [hno])
  | single _ _ hholds => exact absurd hholds Kind.Holds.not_list

/-- What is read as an item that is a message is stored as one. -/
theorem Reads.item {list : Ref .repeated} {i : Nat} (hv : h.Reads x f config (.repeated list))
    (hi : (h.cell list).items[i]? = some (.message q)) : ∃ items m,
      x.stored? f = some (.list items) ∧ items[i]? = some (.message m) ∧ h.Pristine config q m := by
  cases hv with
  | list _ hc =>
    obtain ⟨s, hs, hshows⟩ := getElem?_of_forall₂ hc.items hi
    obtain ⟨m, rfl, hq⟩ := hshows.exists_message
    have hne : x.itemsOf f ≠ [] := fun hnil => by simp [hnil] at hs
    exact ⟨_, m, Message.stored?_of_itemsOf hne, hs, hq⟩
  | single _ _ _ hv => exact absurd rfl (hv.shelf rfl).1

/-- Entries that are stored are read as the entries of a view. -/
theorem Reads.of_entries {entries : List (MapKey × Stored)} (hx : d.Takes x) (hf : f ∈ d.fields)
    (hv : h.Reads x f config v) (hs : x.stored? f = some (.map entries)) :
    ∃ map : Ref .map, v = .map map ∧ List.Forall₂
      (fun stored e => e.1 = stored.1.toValue ∧ h.Shows f.valueKind config stored.2 e.2)
      entries (h.cell map).entries := by
  have hentries : x.entriesOf f = entries := by rw [Message.entriesOf, Message.get_of_stored? rfl hs]
  cases hx.stored hf hs with
  | map hmap =>
    cases hv with
    | @map q _ hc => exact ⟨q, rfl, hentries ▸ hc.entries⟩
    | list _ hc => exact absurd hmap (by simp [hc.notMap])
    | absent hno => exact absurd hmap (by simp [hno])
    | single hno => exact absurd hmap (by simp [hno])
  | single _ _ hholds => exact absurd hholds Kind.Holds.not_map

/-- What is read as the value of a key that is a message is stored as one. -/
theorem Reads.entry {map : Ref .map} {key : MapKey} (hx : d.Takes x) (hf : f ∈ d.fields)
    (hv : h.Reads x f config (.map map)) (hkey : f.keyKind.HoldsKey key)
    (he : (key.toValue, .message q) ∈ (h.cell map).entries) : ∃ entries m,
      x.stored? f = some (.map entries) ∧ lookupKey key entries = some (.message m) ∧
        h.Pristine config q m := by
  obtain ⟨-, hc⟩ := hv.of_map
  obtain ⟨⟨k, s⟩, hmem, hsame, hshows⟩ := exists_of_forall₂ hc.entries he
  obtain ⟨m, rfl, hq⟩ := hshows.exists_message
  have hstored := Message.stored?_of_entriesOf (m := x) (f := f) (List.ne_nil_of_mem hmem)
  have hholds := hx.entriesOf hf hc.isMap
  have hk : k = key := (hholds.keys _ hmem).toValue_inj hkey hsame.symm
  exact ⟨_, m, hstored, lookupKey_of_mem (nodup_of_before hholds.sorted) (hk ▸ hmem), hq⟩

end

/-! ## One step -/

/-- An attribute that is kept is given as it is. -/
theorem run_attr_kept {v : Value} (hv : lookupName name (h.cell r).views = some v) :
    (Operation.attr (.message r) name).run h = (.ok (some v), h) := by
  have hrun : (Script.attrBy Script.readField r name).run h = (.ok (some v), h) := Script.attrBy_kept hv
  exact hrun

/-- A message that a view holds is stored as its contents. -/
theorem Reachable.exists_messageContents (hkeys : p.PlainKeys) (hh : Reachable {p} h) {q : Ref .message}
    (hq : h.Has ⟨.message, q⟩) : ∃ y, h.contents q = .ok y ∧
      h.viewContents h.contents (.message q) = .ok (some (.message y)) := by
  obtain ⟨y, hy, -⟩ := hh.exists_contents hkeys hq
  exact ⟨y, hy, congrArg (Except.map fun m => some (Stored.message m)) hy⟩

/-- Nothing is edited. -/
theorem Edit.refl {a : Place} (hh : Reachable {p} h) : Edit p a h h :=
  ⟨hh, hh, .refl _ _, fun _ hq => ⟨hq, .refl _⟩⟩

section

variable (hlaw : p.Lawful) (hh : Reachable {p} h) {x : Message}
  (hx : h.contents r = .ok x) {f : FieldDescriptor}
  (hf : (h.cell r).content.descriptor.field? name = some f)

include hlaw hh hx hf

/-- A view that was kept is written back to the field. -/
theorem Reachable.stored?_kept (hkeys : p.PlainKeys) {u : Value} {a : Place} {s : Stored}
    (hu : lookupName name (h.cell r).views = some u) (ha : u.ref? = some a)
    (hs : h.viewContents h.contents u = .ok (some s)) : lookupNumber f.number x.fields = some s :=
  hh.stored?_of_viewContents hkeys hlaw hf (Script.mem_of_lookupName hu) hx ha hs

variable (hr : h.Has ⟨.message, r⟩)

include hr

/-- A field that keeps no view holds what it is read out of. -/
theorem Reachable.stored?_first (hnone : lookupName name (h.cell r).views = none) {u : Value} {mid : Heap}
    (hrun : (Operation.attr (.message r) name).run h = (.ok (some u), mid)) :
    mid.Reads (h.cell r).content f (h.cell r).config u ∧
      lookupNumber f.number x.fields = (h.cell r).content.stored? f := by
  obtain ⟨v, mid', hrun', -, hreads⟩ := hh.reads_first hr hnone hf
  cases hrun'.symm.trans hrun
  refine ⟨hreads, hh.stored?_unviewed hlaw hr hf (fun v hv => ?_) hx⟩
  have hsome := lookupName_of_mem (hh.typed.message hr).distinct hv
  cases hnone.symm.trans hsome

variable (hkeys : p.PlainKeys)

include hkeys

theorem Reachable.field_inside {q : Ref .message}
    (hrun : (Operation.attr (.message r) name).run h = (.ok (some (.message q)), h')) :
    h'.Has ⟨.message, q⟩ ∧ ∃ y, h'.contents q = .ok y ∧
      (Stored.message x).part? [.field f.number] = some (.message y) := by
  rcases hu : lookupName name (h.cell r).views with _ | u
  · obtain ⟨hreads, hsame⟩ := hh.stored?_first hlaw hx hf hr hu hrun
    obtain ⟨m, hm, hq⟩ :=
      hreads.message (hh.typed.takes hr) (MessageDescriptor.field?_eq_some.1 hf).1
    exact ⟨hq.has, m, hq.contents, Option.bind_eq_some_iff.2 ⟨_, hsame.trans hm, rfl⟩⟩
  · cases (run_attr_kept hu).symm.trans hrun
    have hq : h.Has ⟨.message, q⟩ :=
      (hh.closed.views hr _ (Script.mem_of_lookupName hu)).has rfl
    obtain ⟨y, hy, hview⟩ := hh.exists_messageContents hkeys hq
    have hstored := hh.stored?_kept hlaw hx hf hkeys hu rfl hview
    exact ⟨hq, y, hy, Option.bind_eq_some_iff.2 ⟨_, hstored, rfl⟩⟩

theorem Reachable.item_inside {list : Ref .repeated} {i : Nat} {q : Ref .message}
    (hrun : (Operation.attr (.message r) name).run h = (.ok (some (.repeated list)), h'))
    (hget : (h'.cell list).items[i]? = some (.message q)) :
    h'.Has ⟨.message, q⟩ ∧ ∃ y, h'.contents q = .ok y ∧
      (Stored.message x).part? [.field f.number, .item i] = some (.message y) := by
  rcases hu : lookupName name (h.cell r).views with _ | u
  · obtain ⟨hreads, hsame⟩ := hh.stored?_first hlaw hx hf hr hu hrun
    obtain ⟨items, m, hstored, hitem, hq⟩ := hreads.item hget
    exact ⟨hq.has, m, hq.contents, Option.bind_eq_some_iff.2 ⟨_, hsame.trans hstored,
      Option.bind_eq_some_iff.2 ⟨_, hitem, rfl⟩⟩⟩
  · cases (run_attr_kept hu).symm.trans hrun
    have hlist : h.Holds ⟨.message, r⟩ ⟨.repeated, list⟩ := .view (Script.mem_of_lookupName hu) rfl
    have hq : h.Has ⟨.message, q⟩ :=
      (hh.closed.repeatedItems (hlist.has hh.closed) _ (List.mem_of_getElem? hget)).has rfl
    obtain ⟨y, hy, hview⟩ := hh.exists_messageContents hkeys hq
    obtain ⟨items, hitems, hitem, -⟩ := (Edit.refl hh).repeated (g := id) hkeys rfl .refl hview
      hview (hlist.settled hh.flat) hget
    have hstored := hh.stored?_kept hlaw hx hf hkeys hu rfl hitems
    exact ⟨hq, y, hy, Option.bind_eq_some_iff.2 ⟨_, hstored,
      Option.bind_eq_some_iff.2 ⟨_, hitem, rfl⟩⟩⟩

theorem Reachable.entry_inside {map : Ref .map} {key : MapKey} {q : Ref .message}
    (hrun : (Operation.attr (.message r) name).run h = (.ok (some (.map map)), h'))
    (hkey : f.keyKind.HoldsKey key)
    (hget : h'.lookup? key.toValue (h'.cell map).entries = some (.message q)) :
    h'.Has ⟨.message, q⟩ ∧ ∃ y, h'.contents q = .ok y ∧
      (Stored.message x).part? [.field f.number, .entry key] = some (.message y) := by
  have hh' := hh.attr hr hrun
  have hmap : h'.Holds ⟨.message, r⟩ ⟨.map, map⟩ := .view (mem_views_of_attr hh.closed hr hrun) rfl
  have hhas : h'.Has ⟨.map, map⟩ := hmap.has hh'.closed
  have hsettled := hmap.settled hh'.flat
  have he := (hh'.lookup?_eq_some hkeys hhas (hh'.typed.isMap_of_settled hsettled)).1 hget
  rcases hu : lookupName name (h.cell r).views with _ | u
  · obtain ⟨hreads, hsame⟩ := hh.stored?_first hlaw hx hf hr hu hrun
    obtain ⟨entries, m, hstored, hentry, hq⟩ := hreads.entry (hh.typed.takes hr)
      (MessageDescriptor.field?_eq_some.1 hf).1 hkey he
    exact ⟨hq.has, m, hq.contents, Option.bind_eq_some_iff.2 ⟨_, hsame.trans hstored,
      Option.bind_eq_some_iff.2 ⟨_, hentry, rfl⟩⟩⟩
  · cases (run_attr_kept hu).symm.trans hrun
    have hq : h.Has ⟨.message, q⟩ := (hh.closed.mapEntries hhas _ he).2.has rfl
    obtain ⟨y, hy, hview⟩ := hh.exists_messageContents hkeys hq
    obtain ⟨i, hi⟩ := List.getElem?_of_mem he
    have hfield : (h.cell map).field = f := by
      obtain ⟨f', hf', hviews⟩ := (hh.typed.message hr).views _ (Script.mem_of_lookupName hu)
      obtain rfl := Option.some.inj (hf.symm.trans hf')
      cases hviews with
      | map _ _ hfield => exact hfield
      | plain _ _ hnone => cases hnone
    obtain ⟨entries, hentries, hentry, -⟩ := (Edit.refl hh).map (g := id) hkeys rfl .refl hview
      hview hsettled hi rfl (Kind.toMapKey_toValue (hfield ▸ hkey))
    have hstored := hh.stored?_kept hlaw hx hf hkeys hu rfl hentries
    exact ⟨hq, y, hy, Option.bind_eq_some_iff.2 ⟨_, hstored,
      Option.bind_eq_some_iff.2 ⟨_, hentry, rfl⟩⟩⟩

end

/-- **What is reached in one step holds what is stored there**, pending changes included. -/
theorem Visits.inside (hkeys : p.PlainKeys) (hlaw : p.Lawful) (hh : Reachable {p} h)
    (hr : h.Has ⟨.message, r⟩) {x : Message} (hx : h.contents r = .ok x) {hop : Hop} {q : Ref .message}
    (hv : h.Visits r hop q h') :
    Reachable {p} h' ∧ h'.Has ⟨.message, q⟩ ∧
      ∃ y, h'.contents q = .ok y ∧ (Stored.message x).part? hop.parts = some (.message y) := by
  cases hv with
  | field hf hrun => exact ⟨hh.attr hr hrun, hh.field_inside hlaw hx hf hr hkeys hrun⟩
  | item hf hrun hitem =>
    obtain ⟨rfl, hget⟩ := run_index_repeated.1 hitem
    exact ⟨hh.attr hr hrun, hh.item_inside hlaw hx hf hr hkeys hrun hget⟩
  | entry hf hrun hkey hvalue =>
    obtain ⟨rfl, hget⟩ := run_index_map.1 hvalue
    exact ⟨hh.attr hr hrun, hh.entry_inside hlaw hx hf hr hkeys hrun hkey hget⟩

/-! ## Messages that keep no views -/

/-- **From a message that keeps no views, every message inside is reached**, and it keeps none. -/
theorem Pristine.visits (hkeys : p.PlainKeys) (hh : Reachable {p} h) {config : Config} {x y : Message}
    (hr : h.Pristine config r x) {hop : Hop}
    (hpart : (Stored.message x).part? hop.parts = some (.message y)) :
    ∃ q h', h.Visits r hop q h' ∧ Reachable {p} h' ∧ h'.Pristine config q y := by
  have htakes := hh.typed.takes hr.has
  rw [hr.content] at htakes
  have hnone (name : String) : lookupName name (h.cell r).views = none := by rw [hr.views]; rfl
  -- a field that is stored is read for the first time
  have first {number : Nat} {s : Stored} (hs : lookupNumber number x.fields = some s) :
      ∃ f ∈ x.descriptor.fields, f.number = number ∧ x.stored? f = some s ∧
        (h.cell r).content.descriptor.field? f.name = some f ∧ ∃ v h',
          (Operation.attr (.message r) f.name).run h = (.ok (some v), h') ∧ Reachable {p} h' ∧
            h'.Reads x f config v := by
    obtain ⟨f, hf, rfl⟩ : ∃ f ∈ x.descriptor.fields, f.number = number := by
      cases htakes.conforms with
      | mk _ declared => exact declared _ (lookupNumber_mem hs)
    have hfind : (h.cell r).content.descriptor.field? f.name = some f :=
      hr.content ▸ MessageDescriptor.field?_eq_some.2 ⟨hf, rfl⟩
    obtain ⟨v, h', hrun, hh', hreads⟩ := hh.reads_first hr.has (hnone f.name) hfind
    rw [hr.content, hr.config] at hreads
    exact ⟨f, hf, rfl, hs, hfind, v, h', hrun, hh', hreads⟩
  cases hop with
  | field number =>
    obtain ⟨s, hs, hpart⟩ := Option.bind_eq_some_iff.1 hpart
    obtain rfl := Option.some.inj hpart
    obtain ⟨f, hf, rfl, hstored, hfind, v, h', hrun, hh', hreads⟩ := first hs
    obtain ⟨q, rfl, hq⟩ := hreads.of_message htakes hf hstored
    exact ⟨q, h', .field hfind hrun, hh', hq⟩
  | item number i =>
    obtain ⟨s, hs, hpart⟩ := Option.bind_eq_some_iff.1 hpart
    cases s with
    | list items =>
      obtain ⟨t, ht, hpart⟩ := Option.bind_eq_some_iff.1 hpart
      obtain rfl := Option.some.inj hpart
      obtain ⟨f, hf, rfl, hstored, hfind, v, h', hrun, hh', hreads⟩ := first hs
      obtain ⟨list, rfl, hitems⟩ := hreads.of_list htakes hf hstored
      obtain ⟨w, hw, hshows⟩ := getElem?_of_forall₂ hitems.flip ht
      have hshown : h'.Shows f.kind config (.message y) w := hshows
      obtain ⟨q, rfl, hq⟩ := shows_message.1 hshown
      exact ⟨q, h', .item hfind hrun (run_index_repeated.2 ⟨rfl, hw⟩), hh', hq⟩
    | _ => cases hpart
  | entry number key =>
    obtain ⟨s, hs, hpart⟩ := Option.bind_eq_some_iff.1 hpart
    cases s with
    | map entries =>
      obtain ⟨t, ht, hpart⟩ := Option.bind_eq_some_iff.1 hpart
      obtain rfl := Option.some.inj hpart
      obtain ⟨f, hf, rfl, hstored, hfind, v, h', hrun, hh', hreads⟩ := first hs
      obtain ⟨map, rfl, hentries⟩ := hreads.of_entries htakes hf hstored
      obtain ⟨e, he, hkey, hshows⟩ := exists_of_forall₂ hentries.flip (lookupKey_mem ht)
      have hshown : h'.Shows f.valueKind config (.message y) e.2 := hshows
      obtain ⟨q, hvalue, hq⟩ := shows_message.1 hshown
      have hmap : h'.Holds ⟨.message, r⟩ ⟨.map, map⟩ :=
        .view (mem_views_of_attr hh.closed hr.has hrun) rfl
      have hismap := hh'.typed.isMap_of_settled (hmap.settled hh'.flat)
      have hin : (key.toValue, Value.message q) ∈ (h'.cell map).entries := by
        rw [← hvalue, ← show e.1 = key.toValue from hkey]
        exact he
      have hget := (hh'.lookup?_eq_some hkeys (hmap.has hh'.closed) hismap).2 hin
      have hholds := (htakes.stored hf hstored).holdsEntries.keys _ (lookupKey_mem ht)
      exact ⟨q, h', .entry hfind hrun hholds (run_index_map.2 ⟨rfl, hget⟩), hh', hq⟩
    | _ => cases hpart

/-! ## Any number of steps -/

/-- **What is reached along a path holds what is stored there**, pending changes included. The induction
is on the path. -/
theorem ReadsAlong.inside (hkeys : p.PlainKeys) (hlaw : p.Lawful) {q : Ref .message} {path : List Hop}
    (hpath : h.ReadsAlong r path q h') (hh : Reachable {p} h) (hr : h.Has ⟨.message, r⟩) {x : Message}
    (hx : h.contents r = .ok x) :
    Reachable {p} h' ∧ h'.Has ⟨.message, q⟩ ∧ ∃ y, h'.contents q = .ok y ∧
      (Stored.message x).part? (path.flatMap Hop.parts) = some (.message y) := by
  induction hpath generalizing x with
  | here => exact ⟨hh, hr, x, hx, rfl⟩
  | step hfirst _ ih =>
    obtain ⟨hmid, hq, y, hy, hpart⟩ := hfirst.inside hkeys hlaw hh hr hx
    obtain ⟨hh', hq', z, hz, hrest⟩ := ih hmid hq hy
    refine ⟨hh', hq', z, hz, ?_⟩
    rw [List.flatMap_cons, Stored.part?_append, hpart]
    exact hrest

/-- **From a message that keeps no views, every message inside is reached**, at any depth. -/
theorem Pristine.readsAlong (hkeys : p.PlainKeys) {config : Config} {path : List Hop} {x y : Message}
    (hh : Reachable {p} h) (hr : h.Pristine config r x)
    (hpart : (Stored.message x).part? (path.flatMap Hop.parts) = some (.message y)) :
    ∃ q h', h.ReadsAlong r path q h' ∧ Reachable {p} h' ∧ h'.Pristine config q y := by
  induction path generalizing h r x with
  | nil =>
    obtain rfl := Stored.message.inj (Option.some.inj hpart)
    exact ⟨r, h, .here h r, hh, hr⟩
  | cons hop path ih =>
    rw [List.flatMap_cons, Stored.part?_append] at hpart
    obtain ⟨s, hs, hrest⟩ := Option.bind_eq_some_iff.1 hpart
    cases s with
    | message z =>
      obtain ⟨q, mid, hvisits, hmid, hq⟩ := hr.visits hkeys hh hs
      obtain ⟨q', h', halong, hh', hq'⟩ := ih hmid hq hrest
      exact ⟨q', h', .step hvisits halong, hh', hq'⟩
    | scalar | list | map =>
      -- what is no message has no fields
      cases path with
      | nil => cases hrest
      | cons hop path => cases hop <;> cases hrest

end Heap

end Protoscript
