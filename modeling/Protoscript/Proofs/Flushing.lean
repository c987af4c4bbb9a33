import Protoscript.Proofs.Forest
import Protoscript.Proofs.Reading

/-!
# Every message can be flushed

The contents of a message are what it stores, with what its views would store written over it. That
never fails on the heaps of a run with one pool, if the keys of maps are of types that are stored as
keys: the views hold values of the types of their fields, and messages younger than their own.

* `Kind.isKey`, `Pool.PlainKeys` — types whose values can be keys;
* `Heap.Fits.toStored`, `Heap.Fits.toMapKey` — what a view may hold can be stored;
* `Heap.TypedOn.contents_ok` — the contents of a message are there;
* `Heap.Reachable.storage_sound` — stored data, the elements of views, and contents.
-/

namespace Protoscript

variable {p : Pool}

/-! ## Keys -/

/-- Whether the values of a type can be keys: integers, booleans and texts. -/
def Kind.isKey : Kind → Bool
  | .scalar t =>
    match t.storage with
    | .bool | .text | .i32 | .i64 | .u32 | .u64 => true
    | .bytes | .f32 | .f64 => false
  | .enum _ | .message _ => false

/-- Whether the keys of all map fields of a pool are integers, booleans or texts. -/
def Pool.PlainKeys (p : Pool) : Prop :=
  ∀ d ∈ p.allMessages, ∀ f ∈ d.fields, f.isMap = true → f.keyKind.isKey = true

instance (p : Pool) : Decidable p.PlainKeys :=
  inferInstanceAs (Decidable (∀ d ∈ p.allMessages, ∀ f ∈ d.fields,
    f.isMap = true → f.keyKind.isKey = true))

/-- The keys of a map field of the pool can be keys. -/
theorem FieldDescriptor.Of.isKey {f : FieldDescriptor} (hf : f.Of p) (hkeys : p.PlainKeys)
    (hmap : f.isMap = true) : f.keyKind.isKey = true := by
  refine hkeys f.message ?_ f hf.declared hmap
  obtain rfl := hf.pool
  exact List.mem_map.2 ⟨f.message.index, List.mem_range.2 hf.message.declared, rfl⟩

/-- A scalar of a type whose values can be keys is a key. -/
theorem Kind.HoldsScalar.exists_key {kind : Kind} {s : Scalar} (hs : kind.HoldsScalar s)
    (hkey : kind.isKey = true) : ∃ key : MapKey, s = key.toScalar := by
  cases kind with
  | message d => cases hs
  | enum d => cases hkey
  | scalar t =>
    have hstorage : s.storage? = some t.storage := hs
    simp only [Kind.isKey] at hkey
    cases s with
    | bool b => exact ⟨.bool b, rfl⟩
    | i32 n => exact ⟨.i32 n, rfl⟩
    | i64 n => exact ⟨.i64 n, rfl⟩
    | u32 n => exact ⟨.u32 n, rfl⟩
    | u64 n => exact ⟨.u64 n, rfl⟩
    | text s => exact ⟨.text s, rfl⟩
    | f32 | f64 | bytes =>
      rw [← Option.some.inj hstorage] at hkey
      cases hkey
    | enumNumber => cases hstorage

/-! ## What views hold can be stored -/

/-- Results for all elements of a list. -/
theorem Except.mapM_isOk {ε α β : Type} {f : α → Except ε β} {xs : List α}
    (h : ∀ x ∈ xs, ∃ y, f x = .ok y) : ∃ ys, xs.mapM f = .ok ys := by
  induction xs with
  | nil => exact ⟨[], rfl⟩
  | cons x rest ih =>
    obtain ⟨y, hy⟩ := h x List.mem_cons_self
    obtain ⟨ys, hys⟩ := ih fun x hx => h x (List.mem_cons_of_mem _ hx)
    refine ⟨y :: ys, ?_⟩
    rw [List.mapM_cons, hy]
    change (rest.mapM f >>= fun ys => pure (y :: ys)) = _
    rw [hys]
    rfl

namespace Heap

variable {h : Heap} {flush : Ref .message → Except Error Message} {kind : Kind} {config : Config}
  {v : Value}

/-- **What a view may hold can be stored**, if a message is flushed to one of its type. -/
theorem Fits.toStored (hv : h.Fits kind v)
    (hflush : ∀ q, v = .message q → ∃ m, flush q = .ok m ∧
      m.descriptor = (h.cell q).content.descriptor) :
    ∃ s, kind.toStored h flush v config = .ok s := by
  cases hv with
  | scalar hs =>
    obtain ⟨t, ht, -⟩ := Kind.scalarToStored_toValue hs
    exact ⟨.scalar t, Kind.toStored_of_scalarToStored ht⟩
  | @message d q hk hq hd =>
    obtain ⟨m, hm, hmd⟩ := hflush q rfl
    exact ⟨.message m, hk ▸ toStored_message hd hm (hmd.trans hd)⟩

/-- What a view may hold as a key can be stored as a key. -/
theorem Fits.toMapKey (hv : h.Fits kind v) (hkey : kind.isKey = true) :
    ∃ key, kind.toMapKey h flush v config = .ok key := by
  cases hv with
  | scalar hs =>
    obtain ⟨key, rfl⟩ := hs.exists_key hkey
    rw [← MapKey.toValue_eq]
    exact ⟨key, Kind.toMapKey_toValue hs⟩
  | message hk =>
    rw [hk] at hkey
    cases hkey

end Heap

section

variable {h : Heap} {flush : Ref .message → Except Error Message}

/-- What a view of a list field holds can be stored. -/
theorem RepeatedCell.Typed.toStored {c : RepeatedCell} (hc : RepeatedCell.Typed p h c)
    (hflush : ∀ q, .message q ∈ c.items → ∃ m, flush q = .ok m ∧
      m.descriptor = (h.cell q).content.descriptor) :
    ∃ s, c.toStored h flush = .ok s := by
  have item (v : Value) (hv : v ∈ c.items) : ∃ s, c.kind.toStored h flush v c.config = .ok s :=
    (hc.items v hv).toStored fun q hq => hflush q (hq ▸ hv)
  obtain ⟨items, hitems⟩ := Except.mapM_isOk item
  exact ⟨.list items, congrArg (Except.map Stored.list) hitems⟩

/-- So can what a view of a map field holds. -/
theorem MapCell.Typed.toStored {c : MapCell} (hc : MapCell.Typed p h c)
    (hkey : c.field.keyKind.isKey = true)
    (hflush : ∀ q, .message q ∈ c.entries.map (·.2) → ∃ m, flush q = .ok m ∧
      m.descriptor = (h.cell q).content.descriptor) :
    ∃ s, c.toStored h flush = .ok s := by
  have entry (e : Value × Value) (he : e ∈ c.entries) : ∃ x, (do
      let key ← c.field.keyKind.toMapKey h flush e.1 c.config
      let value ← c.field.valueKind.toStored h flush e.2 c.config
      return (key, value)) = .ok x := by
    obtain ⟨key, hk⟩ : ∃ k, c.field.keyKind.toMapKey h flush e.1 c.config = .ok k :=
      (hc.entries e he).1.toMapKey hkey
    obtain ⟨value, hv⟩ : ∃ s, c.field.valueKind.toStored h flush e.2 c.config = .ok s :=
      (hc.entries e he).2.toStored fun q hq => hflush q (List.mem_map.2 ⟨e, he, hq⟩)
    exact ⟨(key, value), by rw [hk, hv]; rfl⟩
  obtain ⟨entries, hentries⟩ := Except.mapM_isOk entry
  exact ⟨.map (mapOfEntries entries), Except.bind_ok.2 ⟨entries, hentries, rfl⟩⟩

end

/-! ## Contents -/

namespace Heap

variable {h : Heap}

/-- **The contents of a message are there**, if what it leads to is of one pool. The induction is on how
many messages are younger: the views of a message are followed to younger ones only. -/
theorem TypedOn.contents_ok {S : Set Place} (hS : h.TypedOn p S) (hf : h.Forest) (hkeys : p.PlainKeys)
    {r : Ref .message} (hr : ⟨.message, r⟩ ∈ S) : ∃ m, h.contents r = .ok m := by
  induction hk : h.messages.size - r.index using Nat.strongRecOn generalizing r with
  | ind k ih =>
    have hsize : r.index < h.messages.size := hS.has hr
    -- what lies in a slot of the message is followed
    have followed {a : Slot} {q : Ref .message} (ha : h.Fills a (.message q)) (ho : a.owner = r)
        (hq : ⟨.message, q⟩ ∈ S) :
        ∃ m, h.follow r q = .ok m ∧ m.descriptor = (h.cell q).content.descriptor := by
      have hlt : r.index < q.index := ho ▸ hf.later ha
      have hqsize : q.index < h.messages.size := hS.has hq
      obtain ⟨m, hm⟩ := ih (h.messages.size - q.index) (by omega) hq rfl
      refine ⟨m, ?_, (hS.contents hq hm).descriptor⟩
      rw [follow_of_lt hsize hlt, hm]
    have written (view : String × Value) (hview : view ∈ (h.cell r).views) :
        ∃ w, h.write r view = .ok w := by
      obtain ⟨name, v⟩ := view
      obtain ⟨f, hfield, hviews⟩ := (hS.message hr).views _ hview
      have hplace {q : Place} (hq : v.ref? = some q) : q ∈ S :=
        hS.closed hr (List.mem_map.2 ⟨_, hview, rfl⟩) hq
      have wrote {s : Option Stored} (hs : h.viewContents (h.follow r) v = .ok s) :
          ∃ w, h.write r (name, v) = .ok w := by
        refine ⟨s.map (f, ·), ?_⟩
        rw [write_of_field hfield, hs]
        rfl
      cases hviews with
      | @map q hmap hq hqf =>
        have hcell := hS.map (hplace rfl)
        obtain ⟨s, hs⟩ := hcell.toStored (hcell.field.isKey hkeys (hqf ▸ hmap)) fun q' hq' => by
          obtain ⟨i, hi⟩ := List.getElem?_of_mem hq'
          obtain ⟨e, he, hvalue⟩ := List.mem_map.1 hq'
          exact followed (a := ⟨r, name, some i⟩) ⟨.map q, hview, hi⟩ rfl
            (hS.closed (hplace rfl) (List.mem_flatMap.2 ⟨e, he, .tail _ List.mem_cons_self⟩)
              (congrArg Value.ref? hvalue))
        exact wrote (congrArg (Except.map some) hs)
      | @list q hlist hq hqf =>
        obtain ⟨s, hs⟩ := (hS.repeated (hplace rfl)).toStored fun q' hq' => by
          obtain ⟨i, hi⟩ := List.getElem?_of_mem hq'
          exact followed (a := ⟨r, name, some i⟩) ⟨.repeated q, hview, hi⟩ rfl
            (hS.closed (hplace rfl) hq' rfl)
        exact wrote (congrArg (Except.map some) hs)
      | @message d q hmap hlist hkind hq hd hset =>
        obtain ⟨m, hm, -⟩ := followed (a := ⟨r, name, none⟩) hview rfl (hplace rfl)
        exact wrote (congrArg (Except.map fun m => some (Stored.message m)) hm)
      | plain hmap hlist hv => exact wrote (viewContents_of_ref?_eq_none hv)
    obtain ⟨ws, hws⟩ := Except.mapM_isOk written
    exact ⟨(h.cell r).content.writeAll ws, by rw [contents_eq, hws]; rfl⟩

theorem Typed.contents_ok (ht : h.Typed p) (hc : h.Closed) (hf : h.Forest) (hkeys : p.PlainKeys)
    {r : Ref .message} (hr : h.Has ⟨.message, r⟩) : ∃ m, h.contents r = .ok m :=
  (ht.typedOn hc).contents_ok hf hkeys hr

/-- **Stored data conforms and can always be flushed**, on the heaps of a run with one pool whose map
keys are integers, booleans or texts. What a message stores its fields may hold, at every depth, and
of a oneof at most one member is set; what views hold is in the form that their types read as; and
the contents of every message are there, and of its type. -/
theorem Reachable.storage_sound (hkeys : p.PlainKeys) (hh : Reachable {p} h) :
    (∀ r : Ref .message, h.Has ⟨.message, r⟩ →
      let m := (h.cell r).content
      (∀ f ∈ m.descriptor.fields, ∀ s, m.stored? f = some s → f.Holds s) ∧
        (∀ f ∈ m.descriptor.fields, (m.stored? f).isSome → ∀ g ∈ f.siblings, m.stored? g = none) ∧
        ∃ n, h.contents r = .ok n ∧ m.descriptor.Takes n) ∧
      (∀ r : Ref .repeated, h.Has ⟨.repeated, r⟩ →
        ∀ v ∈ (h.cell r).items, h.Fits (h.cell r).kind v) ∧
      ∀ r : Ref .map, h.Has ⟨.map, r⟩ → ∀ e ∈ (h.cell r).entries,
        h.Fits (h.cell r).field.keyKind e.1 ∧ h.Fits (h.cell r).field.valueKind e.2 := by
  have ht := hh.typed
  have hc := hh.closed
  refine ⟨fun r hr => ?_, fun r hr => (ht.repeated hr).items, fun r hr => (ht.map hr).entries⟩
  obtain ⟨n, hn⟩ := ht.contents_ok hc hh.forest hkeys hr
  have hconforms := (ht.message hr).conforms
  refine ⟨?_, ?_, n, hn, ht.contents hc hr hn⟩
  · cases hconforms with
    | mk _ _ held _ _ => exact held
  · cases hconforms with
    | mk _ _ _ single _ => exact single

end Heap

/-! ## A map of messages -/

namespace Sample

/-- A pool with a message type that has a map of messages of its own type. -/
def tables : Pool where
  id := 4
  messages := [
    { name := "Table"
      fullName := "Table"
      package := ""
      edition := .proto3
      parent := none
      isMapEntry := false
      fields := [field "rows" 1 (.message 1) true none, field "depth" 2 (.scalar .int32) false none]
      nodup_numbers := by decide
      nodup_names := by decide },
    { name := "RowsEntry"
      fullName := "Table.RowsEntry"
      package := ""
      edition := .proto3
      parent := some 0
      isMapEntry := true
      fields := [field "key" 1 (.scalar .string) false none, field "value" 2 (.message 0) false none]
      nodup_numbers := by decide
      nodup_names := by decide }]
  enums := []
  nodup_names := by decide
  kinds_within := by decide

def table : MessageDescriptor := ⟨tables, 0⟩

def rowsField : FieldDescriptor := ⟨table, field "rows" 1 (.message 1) true none⟩

/-- A table with an empty one in it. -/
def oneRow : Message := .mk table [(1, .map [(.text "a", .message (.empty table))])] []

def tabled : Heap where
  messages := #[{ content := oneRow, config := {} }]

/-- After the rows were read. -/
def opened : Heap where
  messages := #[{ content := oneRow, views := [("rows", .map ⟨0⟩)], config := {} },
    { content := .empty table, config := {} }]
  maps := #[{ field := rowsField, entries := [(.text "a", .message right)], config := {} }]

theorem conforms_oneRow : oneRow.Conforms := by
  refine (Message.Conforms.empty table).set (f := rowsField) (.head _)
    (.map rfl (fun e he => ?_) (fun e he => ?_) (List.pairwise_singleton _ _))
  · rw [List.mem_singleton.1 he]
    rfl
  · rw [List.mem_singleton.1 he]
    exact .message rfl (.empty table)

theorem reachable_tabled : Heap.Reachable {tables} tabled := by
  have hrun : ((Operation.wrap ⟨tables, {}⟩ oneRow).run {}).2 = tabled := rfl
  rw [← hrun]
  exact .single (.operation _ ⟨nofun, nofun, ⟨Set.mem_singleton _, by decide⟩, conforms_oneRow⟩)

theorem reachable_opened : Heap.Reachable {tables} opened := by
  have hrun : ((Operation.attr (.message root) "rows").run tabled).2 = opened := rfl
  rw [← hrun]
  exact reachable_tabled.tail (.operation _ (within_of_message {tables} tabled rfl (by decide) trivial))

/-- The table can be flushed after its rows were read, and the view of them holds what it should. -/
theorem opened_sound : tables.PlainKeys ∧ Heap.Reachable {tables} opened ∧
    (∃ n, opened.contents root = .ok n ∧ table.Takes n) ∧
    opened.Fits rowsField.keyKind (.text "a") ∧ opened.Fits rowsField.valueKind (.message right) := by
  have hkeys : tables.PlainKeys := by decide
  have hsound := Heap.Reachable.storage_sound hkeys reachable_opened
  have hroot : opened.Has ⟨.message, root⟩ := (by decide : 0 < 2)
  have hview : opened.Has ⟨.map, ⟨0⟩⟩ := (by decide : 0 < 1)
  exact ⟨hkeys, reachable_opened, (hsound.1 root hroot).2.2,
    hsound.2.2 ⟨0⟩ hview (.text "a", .message right) (.head _)⟩

end Sample

end Protoscript
