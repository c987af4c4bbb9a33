import Protoscript.Proofs.Acceptance
import Protoscript.Proofs.Keywords
import Protoscript.Proofs.Storing

/-!
# Bare scalars for wrapper messages

A bare scalar may stand for a wrapper message, which is a message with the scalar in its field `value`.
Storing the scalar comes to the same as making the wrapper of it, by its constructor, and storing that. Only a
default whose key is there differs: it is not looked at, but no wrapper can be made of what is no scalar of
the right type.

* `Script.construct_box` — the constructor makes what the bare scalar is taken for;
* `Heap.check_box`, `Heap.check_newMessage` — the bare scalar and the wrapper are found to be the same;
* `Heap.Reachable.boxes_alike` — they are stored alike.
-/

namespace Protoscript

variable {h : Heap} {d : MessageDescriptor} {f : FieldDescriptor} {c : Config} {v : Value} {m : Message}

/-! ## Wrappers -/

theorem MessageDescriptor.box_of_boxField? (hf : d.boxField? = some f) :
    d.box v = .ok m ↔ ∃ s, f.kind.scalarToStored v = .ok s ∧ m = (Message.empty d).set f (.scalar s) := by
  simp only [box_ok, hf, Option.some.injEq, exists_and_left, exists_eq_left']

/-- A field that is no message stores what is of its type. -/
theorem Kind.toStored_of_isMessage {kind : Kind} {flush : Ref .message → Except Error Message}
    (hkind : kind.isMessage = false) :
    kind.toStored h flush v c = (kind.scalarToStored v).map .scalar := by
  cases kind with
  | message => cases hkind
  | _ => rfl

/-- **The constructor of a wrapper** makes what a bare scalar is taken for, of the same scalars. -/
theorem Script.construct_box (hf : d.boxField? = some f) (habsent : v ≠ .absent) {w : Value} {g : Heap} :
    (construct ⟨d, c⟩ [] [("value", v)]).run h = (.ok w, g) ↔
      ∃ m, d.box v = .ok m ∧ (w, g) = h.newMessage m c := by
  obtain ⟨hfield, hlist, hmap, hkind⟩ := MessageDescriptor.field_of_boxField? hf
  let b := (h.newMessage (.empty d) c).2
  have hcell : b.cell (h.fresh .message) = { content := .empty d, config := c } :=
    Heap.cell_alloc_self h (s := .message) _
  -- the assignment overwrites the message that was just made, as if it had been made with the scalar
  have hassign {k : Heap} : (setField (h.fresh .message) "value" v).run b = (.ok (), k) ↔
      ∃ m, d.box v = .ok m ∧ k = (h.newMessage m c).2 := by
    rw [setField_ok (by rw [hcell]; exact hfield) (by rw [hcell]), hcell, storedFor_single hmap hlist,
      scalarFor_of_ne habsent]
    constructor
    · rintro ⟨stored, mid, hstored, rfl⟩
      obtain ⟨s, _, hreading, hpure⟩ := bind_ok.1 hstored
      cases hpure
      obtain ⟨x, hx, rfl⟩ :=
        Except.map_ok.1 ((Kind.toStored_of_isMessage hkind).symm.trans (reading_ok.1 hreading).1)
      obtain rfl := (reading_ok.1 hreading).2
      exact ⟨_, (MessageDescriptor.box_of_boxField? hf).2 ⟨x, hx, rfl⟩, Heap.put_alloc h .message _ _⟩
    · rintro ⟨m, hm, rfl⟩
      obtain ⟨x, hx, rfl⟩ := (MessageDescriptor.box_of_boxField? hf).1 hm
      refine ⟨some (.scalar x), b, bind_ok.2 ⟨_, b, reading_ok.2 ⟨?_, rfl⟩, rfl⟩,
        (Heap.put_alloc h .message _ _).symm⟩
      exact (Kind.toStored_of_isMessage hkind).trans (Except.map_ok.2 ⟨x, hx, rfl⟩)
  rw [construct_run (.cons hfield .nil), bind_ok]
  constructor
  · rintro ⟨_, k, hrun, hpure⟩
    cases hpure
    obtain ⟨_, k, hrun, hpure⟩ := bind_ok.1 hrun
    cases hpure
    obtain ⟨m, hm, rfl⟩ := hassign.1 hrun
    exact ⟨m, hm, rfl⟩
  · rintro ⟨m, hm, hmade⟩
    cases hmade
    exact ⟨(), _, bind_ok.2 ⟨(), _, hassign.2 ⟨m, hm, rfl⟩, rfl⟩, rfl⟩

namespace Heap

variable {config : Config}

/-- **A bare scalar** is found to be the wrapper that it is taken for. -/
theorem check_box (hwrapper : config.isScalarWrapper d.fullName = true) (habsent : v ≠ .absent)
    (hbare : ∀ q, v ≠ .message q) : h.check (.message d) config v = (d.box v).map .message := by
  rw [check_eq_toStored habsent]
  refine congrArg (Except.map Stored.message) ?_
  rw [MessageDescriptor.toStored_bare hbare, if_pos hwrapper]

/-- **A new message** of a type is found to be what it holds. -/
theorem check_newMessage (hm : m.descriptor = d) :
    (h.newMessage m c).2.check (.message d) config (h.newMessage m c).1 = .ok (.message m) := by
  have hcell : (h.newMessage m c).2.cell (h.fresh .message) = { content := m, config := c } :=
    cell_alloc_self h (s := .message) _
  refine check_ok.2 (toStored_message (by rw [hcell]; exact hm) ?_ hm)
  rw [contents_of_views_eq_nil (by rw [hcell]), hcell]

theorem Lends.newMessage (hc : h.Closed) (m : Message) (c : Config) :
    h.Lends (h.newMessage m c).2 (h.newMessage m c).1 := by
  refine ⟨h.grows_alloc_message rfl, hc.alloc (s := .message) nofun, ?_⟩
  refine (Value.all_iff fun _ he => by cases he).2 fun a ha => ?_
  cases ha
  exact has_fresh_alloc h .message _

/-- Whether two heaps hold the same in the messages and views of a first one. -/
structure SameContents (h k₁ k₂ : Heap) : Prop where
  message {r : Ref .message} {m : Message} (hr : h.Has ⟨.message, r⟩) :
    k₁.contents r = .ok m ↔ k₂.contents r = .ok m
  repeated {r : Ref .repeated} {s : Stored} (hr : h.Has ⟨.repeated, r⟩) :
    k₁.repeatedContents r = .ok s ↔ k₂.repeatedContents r = .ok s
  map {r : Ref .map} {s : Stored} (hr : h.Has ⟨.map, r⟩) :
    k₁.mapContents r = .ok s ↔ k₂.mapContents r = .ok s

/-- Heaps that are doubles of each other hold the same. -/
theorem Doubles.sameContents {n₁ n₂ l₁ l₂ : Nat} {k₁ k₂ : Heap} (hd : h.Doubles n₁ n₂ k₁ k₂)
    (hd' : h.Doubles l₁ l₂ k₂ k₁) : h.SameContents k₁ k₂ where
  message hr := ⟨hd.contents hr, hd'.contents hr⟩
  repeated hr := ⟨(hd.repeated hr).toStored hd.flushAlike, (hd'.repeated hr).toStored hd'.flushAlike⟩
  map hr := ⟨(hd.map hr).toStored hd.flushAlike, (hd'.map hr).toStored hd'.flushAlike⟩

end Heap

/-! ## Storing them -/

/-- What a script does to make a message of a value, which becomes its field `value`, and to store that. -/
def Storing.scriptOf (way : Storing) (t : MessageType) (v : Value) : Script Unit := do
  way.script (← Script.construct t [] [("value", v)])

/-- The wrapper is made, and then stored on the heap that has it. -/
theorem Storing.scriptOf_ok (hf : d.boxField? = some f) (habsent : v ≠ .absent) {way : Storing} {k : Heap} :
    (way.scriptOf ⟨d, c⟩ v).run h = (.ok (), k) ↔
      ∃ m, d.box v = .ok m ∧ (way.script (h.newMessage m c).1).run (h.newMessage m c).2 = (.ok (), k) := by
  unfold scriptOf
  rw [Script.bind_ok]
  constructor
  · rintro ⟨w, g, hmade, hrun⟩
    obtain ⟨m, hm, hmade⟩ := (Script.construct_box hf habsent).1 hmade
    cases hmade
    exact ⟨m, hm, hrun⟩
  · rintro ⟨m, hm, hrun⟩
    exact ⟨_, _, (Script.construct_box hf habsent).2 ⟨m, hm, rfl⟩, hrun⟩

namespace Heap

/-- Whether a bare value is stored as a message that is made of it is. -/
structure BoxesAlike (h : Heap) (way : Storing) (t : MessageType) (v : Value) : Prop where
  /-- the value can be stored if the message can be made and stored -/
  bare {k : Heap} (hrun : (way.scriptOf t v).run h = (.ok (), k)) : ∃ k', (way.script v).run h = (.ok (), k')
  /-- the message can be made and stored if the value is stored -/
  made (hstores : way.Stores h) {k : Heap} (hrun : (way.script v).run h = (.ok (), k)) :
    ∃ k', (way.scriptOf t v).run h = (.ok (), k')
  /-- both leave the same -/
  same {k₁ k₂ : Heap} (hrun₁ : (way.script v).run h = (.ok (), k₁))
    (hrun₂ : (way.scriptOf t v).run h = (.ok (), k₂)) : h.SameContents k₁ k₂
  /-- a default whose key is there leaves everything as it is, whatever it is -/
  kept (hstores : ¬ way.Stores h) {k : Heap} (hrun : (way.script v).run h = (.ok (), k)) :
    k = h ∧ ∀ w, (way.script w).run h = (.ok (), h)

/-- What goes by the check of the wrapper type does not tell the bare scalar from the wrapper. -/
theorem boxesAlike_of_storesBy (hc : h.Closed) (hf : d.boxField? = some f)
    (hwrapper : config.isScalarWrapper d.fullName = true) {way : Storing} (hstores : way.Stores h)
    (hby : Script.StoresBy h (.message d) config way.script) (hv : v.Within h) (habsent : v ≠ .absent)
    (hbare : ∀ q, v ≠ .message q) : h.BoxesAlike way ⟨d, c⟩ v := by
  have hlends : h.Lends h v := ⟨.refl ∅ h, hc, hv⟩
  have hchecked {m : Message} (hm : d.box v = .ok m) : h.check (.message d) config v = .ok (.message m) := by
    rw [check_box hwrapper habsent hbare, hm]
    rfl
  have hchecked' {m : Message} (hm : d.box v = .ok m) :
      (h.newMessage m c).2.check (.message d) config (h.newMessage m c).1 = .ok (.message m) :=
    check_newMessage (MessageDescriptor.descriptor_of_box hm)
  -- whichever of the two is stored, the check finds the message `m` that the scalar is boxed as
  have bare {k : Heap} (hrun : (way.scriptOf ⟨d, c⟩ v).run h = (.ok (), k)) :
      ∃ k' n₁ n₂, (way.script v).run h = (.ok (), k') ∧ h.Doubles n₁ n₂ k k' := by
    obtain ⟨m, hm, hrun⟩ := (Storing.scriptOf_ok hf habsent).1 hrun
    obtain ⟨t, ht, hothers⟩ := hby (.newMessage hc m c) nofun hrun
    exact hothers hlends ((hchecked hm).trans ((hchecked' hm).symm.trans ht))
  have made {k : Heap} (hrun : (way.script v).run h = (.ok (), k)) :
      ∃ k' n₁ n₂, (way.scriptOf ⟨d, c⟩ v).run h = (.ok (), k') ∧ h.Doubles n₁ n₂ k k' := by
    obtain ⟨t, ht, hothers⟩ := hby hlends habsent hrun
    obtain ⟨m, hm, rfl⟩ := Except.map_ok.1 ((check_box hwrapper habsent hbare).symm.trans ht)
    obtain ⟨k', n₁, n₂, hrun', hdoubles⟩ := hothers (.newMessage hc m c) (hchecked' hm)
    exact ⟨k', n₁, n₂, (Storing.scriptOf_ok hf habsent).2 ⟨m, hm, hrun'⟩, hdoubles⟩
  refine ⟨fun hrun => ?_, fun _ _ hrun => ?_, fun hrun₁ hrun₂ => ?_, absurd hstores⟩
  · obtain ⟨k', _, _, hrun', -⟩ := bare hrun
    exact ⟨k', hrun'⟩
  · obtain ⟨k', _, _, hrun', -⟩ := made hrun
    exact ⟨k', hrun'⟩
  · obtain ⟨_, _, _, hrun₁', hdoubles⟩ := bare hrun₂
    obtain ⟨_, _, _, hrun₂', hdoubles'⟩ := made hrun₁
    cases hrun₁'.symm.trans hrun₁
    cases hrun₂'.symm.trans hrun₂
    exact hdoubles'.sameContents hdoubles

variable {pools : Set Pool}

/-- A default whose key is there is not looked at, be it bare or a wrapper. -/
theorem boxesAlike_of_found (hh : Reachable pools h) (hf : d.boxField? = some f) (habsent : v ≠ .absent)
    {r : Ref .map} (hr : h.Has ⟨.map, r⟩) {key : Value} (hkey : key.Within h)
    (hfound : h.lookup? key (h.cell r).entries ≠ none) :
    h.BoxesAlike (.mapSetDefault r key) ⟨d, c⟩ v := by
  have kept {b k : Heap} (hb : h.Grows b) {w : Value} :=
    Script.mapSetDefault_found hh hr hkey hfound hb (k := k) (y := w)
  have made {k : Heap} (hrun : (Storing.scriptOf (.mapSetDefault r key) ⟨d, c⟩ v).run h = (.ok (), k)) :
      (h.cell r).frozen = false ∧ h.Grows k := by
    obtain ⟨m, -, hrun⟩ := (Storing.scriptOf_ok hf habsent).1 hrun
    have hgrown := (Lends.newMessage hh.closed m c).grown
    obtain ⟨hthawed, rfl⟩ := (kept hgrown).1 hrun
    exact ⟨hthawed, hgrown⟩
  refine ⟨fun hrun => ⟨h, (kept (.refl ∅ h)).2 ⟨(made hrun).1, rfl⟩⟩, fun hstores => absurd hstores hfound,
    fun hrun₁ hrun₂ => ?_, fun _ _ hrun => ?_⟩
  · obtain ⟨-, rfl⟩ := (kept (.refl ∅ h)).1 hrun₁
    have hgrows := (made hrun₂).2
    have hdoubles : Doubles _ 0 0 _ _ := hh.doubles (.refl ∅ _) hgrows
    have hdoubles' : Doubles _ 0 0 _ _ := hh.doubles hgrows (.refl ∅ _)
    exact hdoubles.sameContents hdoubles'
  · obtain ⟨hthawed, rfl⟩ := (kept (.refl ∅ h)).1 hrun
    exact ⟨rfl, fun w => (kept (.refl ∅ _)).2 ⟨hthawed, rfl⟩⟩

/-- **A bare scalar is stored as the wrapper is** that is made of it, in every way. -/
theorem Reachable.boxes_alike (hh : Reachable pools h) (hf : d.boxField? = some f) {way : Storing}
    (hwrapper : (way.config h).isScalarWrapper d.fullName = true) (hplace : h.Has way.place)
    (htakes : way.Takes h (.message d)) (hvalues : ∀ w ∈ way.values, w.Within h) (hv : v.Within h)
    (habsent : v ≠ .absent) (hbare : ∀ q, v ≠ .message q) (c : Config) : h.BoxesAlike way ⟨d, c⟩ v := by
  by_cases hstores : way.Stores h
  · exact boxesAlike_of_storesBy hh.closed hf hwrapper hstores
      (Storing.storesBy hh hplace htakes hstores hvalues) hv habsent hbare
  · cases way with
    | mapSetDefault r key =>
      exact boxesAlike_of_found hh hf habsent hplace (List.forall_mem_singleton.1 hvalues) hstores
    | _ => exact absurd trivial hstores

end Heap

/-! ## A drawer of counts -/

namespace Sample

/-- A pool with a message type that has a map of wrappers. -/
def drawers : Pool where
  id := 17
  messages := [
    { name := "Drawer"
      fullName := "Drawer"
      package := ""
      edition := .proto3
      parent := none
      isMapEntry := false
      fields := [field "totals" 1 (.message 1) true none]
      nodup_numbers := by decide
      nodup_names := by decide },
    { name := "TotalsEntry"
      fullName := "Drawer.TotalsEntry"
      package := ""
      edition := .proto3
      parent := some 0
      isMapEntry := true
      fields := [field "key" 1 (.scalar .string) false none, field "value" 2 (.message 2) false none]
      nodup_numbers := by decide
      nodup_names := by decide },
    { name := "Count"
      fullName := "Count"
      package := ""
      edition := .proto3
      parent := none
      isMapEntry := false
      fields := [field "value" 1 (.scalar .int32) false none]
      nodup_numbers := by decide
      nodup_names := by decide }]
  enums := []
  nodup_names := by decide
  kinds_within := by decide

def drawer : MessageDescriptor := ⟨drawers, 0⟩

def count : MessageDescriptor := ⟨drawers, 2⟩

def drawerTotals : FieldDescriptor := ⟨drawer, field "totals" 1 (.message 1) true none⟩

def countValue : FieldDescriptor := ⟨count, field "value" 1 (.scalar .int32) false none⟩

/-- A number may stand for a count. -/
def counting : Config := { scalarWrappers := ["Count"] }

/-- A drawer with a count of nothing in it. -/
def oneCount : Message := .mk drawer [(1, .map [(.text "a", .message (.empty count))])] []

def closedDrawer : Heap where
  messages := #[{ content := oneCount, config := counting }]

/-- After the totals were read. -/
def openDrawer : Heap where
  messages := #[{ content := oneCount, views := [("totals", .map ⟨0⟩)], config := counting },
    { content := .empty count, config := counting }]
  maps := #[{ field := drawerTotals, entries := [(.text "a", .message right)], config := counting }]

theorem conforms_oneCount : oneCount.Conforms := by
  refine (Message.Conforms.empty drawer).set (f := drawerTotals) (.head _)
    (.map rfl (fun e he => ?_) (fun e he => ?_) (List.pairwise_singleton _ _))
  · rw [List.mem_singleton.1 he]
    rfl
  · rw [List.mem_singleton.1 he]
    exact .message rfl (.empty count)

theorem reachable_openDrawer : Heap.Reachable {drawers} openDrawer := by
  have hwrap : ((Operation.wrap ⟨drawers, counting⟩ oneCount).run {}).2 = closedDrawer := rfl
  have hread : ((Operation.attr (.message root) "totals").run closedDrawer).2 = openDrawer := rfl
  have hclosed : Heap.Reachable {drawers} closedDrawer :=
    hwrap ▸ .single (.operation _ ⟨nofun, nofun, ⟨Set.mem_singleton _, by decide⟩, conforms_oneCount⟩)
  rw [← hread]
  exact hclosed.tail (.operation _ (within_of_message {drawers} closedDrawer rfl (by decide) trivial))

theorem lookup_count : openDrawer.lookup? (.text "a") (openDrawer.cell (s := .map) ⟨0⟩).entries =
    some (.message right) := by
  have hentries : (openDrawer.cell (s := .map) ⟨0⟩).entries = [(.text "a", .message right)] := rfl
  have hkey : openDrawer.keysEqual (.text "a") (.text "a") = true :=
    MapKey.keysEqual_toValue openDrawer (.text "a")
  rw [hentries, Heap.lookup?, List.find?_cons, hkey]
  rfl

/-- A number is stored under a new key as a count of it is. -/
theorem count_stored_bare : Heap.Reachable {drawers} openDrawer ∧ count.boxField? = some countValue ∧
    counting.isScalarWrapper count.fullName = true ∧
    (∃ k, ((Storing.mapSet ⟨0⟩ (.text "b")).script (.int 5)).run openDrawer = (.ok (), k)) ∧
    openDrawer.BoxesAlike (.mapSet ⟨0⟩ (.text "b")) ⟨count, {}⟩ (.int 5) := by
  let way : Storing := .mapSet ⟨0⟩ (.text "b")
  have hplace : openDrawer.Has way.place := (by decide : 0 < 1)
  have htakes : way.Takes openDrawer (.message count) := rfl
  have hvalues : ∀ w ∈ way.values, w.Within openDrawer :=
    List.forall_mem_singleton.2 (Value.within_of_place?_none nofun rfl)
  have hnumber : (Value.int 5).Within openDrawer := Value.within_of_place?_none nofun rfl
  exact ⟨reachable_openDrawer, rfl, rfl, ⟨_, rfl⟩, Heap.Reachable.boxes_alike reachable_openDrawer rfl
    rfl hplace htakes hvalues hnumber nofun nofun {}⟩

/-- A text is no count, but it may be given as a default where there is a count. -/
theorem count_not_made : Heap.Reachable {drawers} openDrawer ∧ count.boxField? = some countValue ∧
    counting.isScalarWrapper count.fullName = true ∧ openDrawer.Has ⟨.map, ⟨0⟩⟩ ∧
    (Storing.mapSetDefault ⟨0⟩ (.text "a")).Takes openDrawer (.message count) ∧
    ((Storing.mapSetDefault ⟨0⟩ (.text "a")).script (.text "x")).run openDrawer = (.ok (), openDrawer) ∧
    ¬ ∃ k, ((Storing.mapSetDefault ⟨0⟩ (.text "a")).scriptOf ⟨count, counting⟩ (.text "x")).run openDrawer =
      (.ok (), k) := by
  have hview : openDrawer.Has ⟨.map, ⟨0⟩⟩ := (by decide : 0 < 1)
  have hkey : (Value.text "a").Within openDrawer := Value.within_of_place?_none nofun rfl
  have hfound : openDrawer.lookup? (.text "a") (openDrawer.cell (s := .map) ⟨0⟩).entries ≠ none := by
    rw [lookup_count]
    nofun
  refine ⟨reachable_openDrawer, rfl, rfl, hview, rfl, (Script.mapSetDefault_found reachable_openDrawer hview
    hkey hfound (.refl ∅ _)).2 ⟨rfl, rfl⟩, ?_⟩
  rintro ⟨k, hrun⟩
  cases hrun

end Sample

end Protoscript
