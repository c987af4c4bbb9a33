import Protoscript.Proofs.Contents
import Protoscript.Proofs.Decoding
import Protoscript.Proofs.Merging
import Protoscript.Proofs.Reachable
import Mathlib.Data.List.GetD

/-!
# Types of what is on the heap

On the heaps of a run with one pool, messages conform to their types, views hold values of the types
of their fields, and the views of a message are views of its fields.

* `Heap.Fits` — a value that a view may hold; `Heap.Views` — a value that a field may be read as;
* `Heap.Typed` — every cell is as its type asks for;
* `Heap.Typed.contents` — what a message holds, edits of its views included, conforms to its type;
* `Heap.Change.typed`, `Heap.Reachable.typed` — this is so on all heaps of a run.
-/

namespace Protoscript

variable {p : Pool}

/-! ## Types of one pool -/

namespace MessageDescriptor

variable {d e : MessageDescriptor}

theorem Among.pool_eq (hd : d.Among {p}) : d.pool = p := hd.pool

/-- Types of one pool are told apart by their places. -/
theorem eq_of_same (hd : d.Among {p}) (he : e.Among {p}) (h : d.same e = true) : d = e := by
  have hpool : d.pool = e.pool := hd.pool_eq.trans he.pool_eq.symm
  unfold same at h
  simp only [Bool.and_eq_true, beq_iff_eq] at h
  cases d
  cases e
  simp_all

/-- Types of one pool are told apart by their names. -/
theorem eq_of_fullName (hd : d.Among {p}) (he : e.Among {p}) (h : d.fullName = e.fullName) :
    d = e := by
  obtain ⟨pool, i⟩ := d
  obtain ⟨pool', j⟩ := e
  obtain rfl : pool = p := hd.pool_eq
  obtain rfl : pool' = pool := he.pool_eq
  have hname (k : Nat) : (pool'.messages.map (·.fullName)).getD k (default : MessageInfo).fullName =
      (⟨pool', k⟩ : MessageDescriptor).fullName := List.getD_map ..
  have hi : i < (pool'.messages.map (·.fullName)).length := by
    rw [List.length_map]
    exact hd.declared
  have hj : j < (pool'.messages.map (·.fullName)).length := by
    rw [List.length_map]
    exact he.declared
  rw [← hname, ← hname] at h
  rw [(List.getD_inj hi hj pool'.nodup_names).1 h]

/-- A message with fields is one of its pool. -/
theorem declared_of_mem {f : FieldDescriptor} (hf : f ∈ d.fields) :
    d.index < d.pool.messages.length := by
  refine Classical.not_not.1 fun hn => ?_
  have hinfo : d.info = default := by
    unfold info
    rw [List.getD_eq_default _ _ (Nat.le_of_not_lt hn)]
  have hmem := (mem_fields.1 hf).2
  rw [hinfo] at hmem
  cases hmem

end MessageDescriptor

/-- Whether a field is one of a message of the pool. -/
structure FieldDescriptor.Of (p : Pool) (f : FieldDescriptor) : Prop where
  pool : f.message.pool = p
  declared : f ∈ f.message.fields

/-- Whether the messages of a type are of a message type of the pool. -/
def Kind.Of (p : Pool) (kind : Kind) : Prop := ∀ d, kind = .message d → d.Among {p}

namespace FieldDescriptor

variable {f : FieldDescriptor}

theorem of_mem {d : MessageDescriptor} (hd : d.Among {p}) (hf : f ∈ d.fields) : f.Of p := by
  obtain ⟨rfl, -⟩ := MessageDescriptor.mem_fields.1 hf
  exact ⟨hd.pool_eq, hf⟩

theorem Of.message (hf : f.Of p) : f.message.Among {p} :=
  ⟨hf.pool, MessageDescriptor.declared_of_mem hf.declared⟩

theorem Of.kind (hf : f.Of p) : f.kind.Of p := by
  intro d hd
  unfold FieldDescriptor.kind at hd
  split at hd
  · cases hd
  · rename_i i hi
    cases hd
    have hinfo : f.message.info ∈ f.message.pool.messages := by
      unfold MessageDescriptor.info
      rw [List.getD_eq_getElem _ _ hf.message.declared]
      exact List.getElem_mem _
    have hwithin := f.message.pool.kinds_within _ hinfo f.info
      (MessageDescriptor.mem_fields.1 hf.declared).2
    rw [hi] at hwithin
    exact ⟨hf.pool, of_decide_eq_true hwithin⟩
  · cases hd

/-- The types of the parts of an entry. -/
theorem Of.part {entry : MessageDescriptor} (hf : f.Of p) (he : f.kind = .message entry)
    (number : Nat) : ((entry.numbered? number).getD default).kind.Of p := by
  rcases hnumber : entry.numbered? number with _ | g
  · intro d hd
    cases hd
  · exact (of_mem (hf.kind entry he) (MessageDescriptor.numbered?_mem hnumber)).kind

theorem Of.keyKind (hf : f.Of p) : f.keyKind.Of p := by
  unfold FieldDescriptor.keyKind
  split
  · rename_i entry he
    exact hf.part he 1
  · exact hf.kind

theorem Of.valueKind (hf : f.Of p) : f.valueKind.Of p := by
  unfold FieldDescriptor.valueKind
  split
  · rename_i entry he
    exact hf.part he 2
  · exact hf.kind

end FieldDescriptor

/-! ## Scalars -/

theorem intInRange_ok {kind : Kind} {v : Value} {convert : Int → Option Scalar} {s : Scalar}
    (h : intInRange kind v convert = .ok s) : ∃ n, convert n = some s := by
  unfold intInRange at h
  split at h
  · rename_i n
    rcases hn : convert n with _ | t <;> rw [hn] at h <;> cases h
    exact ⟨n, hn⟩
  · cases h

/-- A value is stored as a scalar of the type that it is stored for. -/
theorem ScalarType.storage?_toStored {t : ScalarType} {v : Value} {s : Scalar}
    (h : t.toStored v = .ok s) : s.storage? = some t.storage := by
  unfold toStored at h
  split at h
  case h_6 | h_7 | h_8 | h_9 =>
    rename_i hs
    obtain ⟨n, hn⟩ := intInRange_ok h
    obtain ⟨x, -, rfl⟩ := Option.map_eq_some_iff.1 hn
    rw [hs]
    rfl
  all_goals
    rename_i hs
    rw [hs]
    split at h <;> cases h <;> rfl

theorem Kind.holds_scalarToStored {kind : Kind} {v : Value} {s : Scalar}
    (h : kind.scalarToStored v = .ok s) : kind.HoldsScalar s := by
  cases kind with
  | scalar t => exact ScalarType.storage?_toStored h
  | enum d =>
    change d.toStored v = .ok s at h
    unfold EnumDescriptor.toStored at h
    split at h
    · split at h <;> cases h
      rfl
    · cases h
  | message d => cases h

/-- A bare scalar is stored as a message of the wrapper type. -/
theorem MessageDescriptor.takes_box {d : MessageDescriptor} {v : Value} {m : Message}
    (h : d.box v = .ok m) : d.Takes m := by
  obtain ⟨f, s, hf, hs, rfl⟩ := box_ok.1 h
  obtain ⟨hfield, hlist, hmap, -⟩ := field_of_boxField? hf
  exact (Takes.empty d).set (field?_eq_some.1 hfield).1
    (.single hmap hlist (.scalar (Kind.holds_scalarToStored hs)))

/-! ## Values -/

namespace Heap

/-- Whether a value is one that a view of a type's values may hold. -/
inductive Fits (h : Heap) (kind : Kind) : Value → Prop
  | scalar {s : Scalar} (hs : kind.HoldsScalar s) : Fits h kind (s.toValue kind)
  | message {d : MessageDescriptor} {q : Ref .message} (hk : kind = .message d)
    (hq : h.Has ⟨.message, q⟩) (hd : (h.cell q).content.descriptor = d) : Fits h kind (.message q)

/-- Whether a value is one that a field of a stored message may have been read as. A message is there
only if the field is set. -/
inductive Views (h : Heap) (m : Message) (f : FieldDescriptor) : Value → Prop
  | map {q : Ref .map} (hmap : f.isMap = true) (hq : h.Has ⟨.map, q⟩) (hf : (h.cell q).field = f) :
    Views h m f (.map q)
  | list {q : Ref .repeated} (hlist : f.isList = true) (hq : h.Has ⟨.repeated, q⟩)
    (hf : (h.cell q).field = f) : Views h m f (.repeated q)
  | message {d : MessageDescriptor} {q : Ref .message} (hmap : f.isMap = false)
    (hlist : f.isList = false) (hk : f.kind = .message d) (hq : h.Has ⟨.message, q⟩)
    (hd : (h.cell q).content.descriptor = d) (hset : (m.stored? f).isSome) : Views h m f (.message q)
  | plain {v : Value} (hmap : f.isMap = false) (hlist : f.isList = false) (hv : v.ref? = none) :
    Views h m f v

end Heap

/-! ## Cells -/

/-- Whether a message, as far as its cell goes, is as its type asks for. -/
structure MessageCell.Typed (p : Pool) (h : Heap) (c : MessageCell) : Prop where
  among : c.content.descriptor.Among {p}
  conforms : c.content.Conforms
  views : ∀ view ∈ c.views,
    ∃ f, c.content.descriptor.field? view.1 = some f ∧ h.Views c.content f view.2
  distinct : (c.views.map (·.1)).Nodup

/-- Whether a view of a repeated field is as the field asks for. -/
structure RepeatedCell.Typed (p : Pool) (h : Heap) (c : RepeatedCell) : Prop where
  field : c.field.Of p
  items : ∀ v ∈ c.items, h.Fits c.kind v

/-- Whether a view of a map field is as the field asks for. -/
structure MapCell.Typed (p : Pool) (h : Heap) (c : MapCell) : Prop where
  field : c.field.Of p
  entries : ∀ e ∈ c.entries, h.Fits c.field.keyKind e.1 ∧ h.Fits c.field.valueKind e.2

/-- Whether a cell is as its type asks for. -/
def Cell.Typed (p : Pool) (h : Heap) : {s : Shelf} → Cell s → Prop
  | .list, _ => True
  | .dict, _ => True
  | .message, c => MessageCell.Typed p h c
  | .repeated, c => RepeatedCell.Typed p h c
  | .map, c => MapCell.Typed p h c

namespace Heap

/-- Whether every cell is as its type asks for. -/
def Typed (p : Pool) (h : Heap) : Prop := ∀ q : Place, h.Has q → Cell.Typed p h (h.cell q.2)

section

variable {h : Heap} (ht : h.Typed p)

include ht

theorem Typed.message {r : Ref .message} (hr : h.Has ⟨.message, r⟩) :
    MessageCell.Typed p h (h.cell r) :=
  ht ⟨.message, r⟩ hr

theorem Typed.repeated {r : Ref .repeated} (hr : h.Has ⟨.repeated, r⟩) :
    RepeatedCell.Typed p h (h.cell r) :=
  ht ⟨.repeated, r⟩ hr

theorem Typed.map {r : Ref .map} (hr : h.Has ⟨.map, r⟩) : MapCell.Typed p h (h.cell r) :=
  ht ⟨.map, r⟩ hr

end

/-- Whether the cells at some places are as types of a pool ask for, and refer to each other only. Other
cells may be of other pools. -/
structure TypedOn (p : Pool) (S : Set Place) (h : Heap) : Prop where
  has {q : Place} (hq : q ∈ S) : h.Has q
  typed {q : Place} (hq : q ∈ S) : Cell.Typed p h (h.cell q.2)
  closed {q : Place} (hq : q ∈ S) {v : Value} (hv : v ∈ (h.cell q.2).values) {r : Place}
    (hr : v.ref? = some r) : r ∈ S

section

variable {h : Heap} {S : Set Place} (hS : h.TypedOn p S)

include hS

theorem TypedOn.message {r : Ref .message} (hr : ⟨.message, r⟩ ∈ S) : MessageCell.Typed p h (h.cell r) :=
  hS.typed hr

theorem TypedOn.repeated {r : Ref .repeated} (hr : ⟨.repeated, r⟩ ∈ S) :
    RepeatedCell.Typed p h (h.cell r) :=
  hS.typed hr

theorem TypedOn.map {r : Ref .map} (hr : ⟨.map, r⟩ ∈ S) : MapCell.Typed p h (h.cell r) :=
  hS.typed hr

end

theorem Typed.typedOn {h : Heap} (ht : h.Typed p) (hc : h.Closed) : h.TypedOn p {q | h.Has q} where
  has := id
  typed := ht _
  closed hq _ hv _ hr := (hc _ hq _ hv).has (Value.place?_of_ref? hr)

end Heap

/-! ## What is stored -/

/-- Whether the message that a value leads to, if it is one, is flushed to one of a pool that conforms to
its type. -/
def Value.Gives (p : Pool) (flush : Ref .message → Except Error Message) (v : Value) : Prop :=
  ∀ r m, v = .message r → flush r = .ok m → m.descriptor.Among {p} ∧ m.Conforms

/-- Whether messages are flushed to messages of their types. -/
def Heap.FlushesTyped (h : Heap) (flush : Ref .message → Except Error Message) : Prop :=
  ∀ q : Ref .message, h.Has ⟨.message, q⟩ → ∀ m, flush q = .ok m →
    (h.cell q).content.descriptor.Takes m

theorem MessageDescriptor.Takes.gives {d : MessageDescriptor} (hd : d.Among {p}) {m : Message}
    (hm : d.Takes m) : m.descriptor.Among {p} ∧ m.Conforms :=
  ⟨hm.descriptor ▸ hd, hm.conforms⟩

theorem Heap.Typed.gives {h : Heap} (ht : h.Typed p) {flush : Ref .message → Except Error Message}
    (hflush : h.FlushesTyped flush) {v : Value} (hv : v.Within h) : v.Gives p flush := by
  rintro r m rfl hm
  have hr : h.Has ⟨.message, r⟩ := hv.has rfl
  exact (hflush r hr m hm).gives (ht.message hr).among

section

variable {h : Heap} {flush : Ref .message → Except Error Message}

/-- A message that is taken over for a type of its pool is of that type. -/
theorem MessageDescriptor.takes_toStored {d : MessageDescriptor} {v : Value} {config : Config}
    {m : Message} (hd : d.Among {p}) (hv : v.Gives p flush)
    (hs : d.toStored h flush v config = .ok m) : d.Takes m := by
  rcases toStored_cases hs with ⟨r, n, rfl, -, hn, hadopt⟩ | ⟨-, -, hbox⟩
  · obtain ⟨hamong, hconforms⟩ := hv r n rfl hn
    rcases Message.adopt_ok.1 hadopt with ⟨hsame, rfl⟩ | ⟨-, hwire⟩
    · exact ⟨eq_of_same hamong hd hsame, hconforms⟩
    · exact Message.takes_ofWire? hwire
  · exact takes_box hbox

/-- What a value is stored as, a type holds. -/
theorem Kind.holds_toStored {kind : Kind} {v : Value} {config : Config} {s : Stored}
    (hk : kind.Of p) (hv : v.Gives p flush) (hs : kind.toStored h flush v config = .ok s) :
    kind.Holds s := by
  rcases Kind.toStored_ok hs with ⟨x, rfl, hx⟩ | ⟨d, m, rfl, rfl, hm⟩
  · exact .scalar (holds_scalarToStored hx)
  · exact (MessageDescriptor.takes_toStored (hk d rfl) hv hm).holds

/-- What a value is as a key, a type holds as a key. -/
theorem Kind.holdsKey_toMapKey {kind : Kind} {v : Value} {config : Config} {key : MapKey}
    (hk : kind.Of p) (hv : v.Gives p flush) (hs : kind.toMapKey h flush v config = .ok key) :
    kind.HoldsKey key := by
  unfold toMapKey at hs
  split at hs
  · cases hs
  · rename_i s hstored
    split at hs
    · rename_i k hkey
      cases hs
      exact (holds_toStored hk hv hstored).holdsScalar.key hkey
    · cases hs
  · cases hs

/-- What a view of a list field would store, the field may hold. -/
theorem RepeatedCell.holds_toStored {c : RepeatedCell} {s : Stored} (hf : c.field.Of p)
    (hv : ∀ v ∈ c.items, v.Gives p flush) (hs : c.toStored h flush = .ok s)
    (hlist : c.field.isList = true) : c.field.Holds s := by
  obtain ⟨items, hitems, rfl⟩ := Except.map_ok.1 hs
  refine .list hlist fun s hmem => ?_
  obtain ⟨v, hmem, hstored⟩ := exists_of_forall₂ (Except.mapM_ok.1 hitems) hmem
  exact Kind.holds_toStored hf.kind (hv v hmem) hstored

/-- What a view of a map field would store, the field may hold. -/
theorem MapCell.holds_toStored {c : MapCell} {s : Stored} (hf : c.field.Of p)
    (hv : ∀ e ∈ c.entries, e.1.Gives p flush ∧ e.2.Gives p flush) (hs : c.toStored h flush = .ok s)
    (hmap : c.field.isMap = true) : c.field.Holds s := by
  obtain ⟨entries, hentries, hs⟩ := Except.bind_ok.1 hs
  cases hs
  have both {e : MapKey × Stored} (he : e ∈ entries) :
      c.field.keyKind.HoldsKey e.1 ∧ c.field.valueKind.Holds e.2 := by
    obtain ⟨e', hmem, hstored⟩ := exists_of_forall₂ (Except.mapM_ok.1 hentries) he
    obtain ⟨key, hkey, hstored⟩ := Except.bind_ok.1 hstored
    obtain ⟨value, hvalue, hstored⟩ := Except.bind_ok.1 hstored
    cases hstored
    exact ⟨Kind.holdsKey_toMapKey hf.keyKind (hv e' hmem).1 hkey,
      Kind.holds_toStored hf.valueKind (hv e' hmem).2 hvalue⟩
  exact (FieldDescriptor.HoldsEntries.mapOfEntries (fun e he => (both he).1)
    fun e he => (both he).2).holds hmap

end

namespace MessageDescriptor.Takes

variable {d : MessageDescriptor} {m : Message}

/-- Writes of what the fields may hold. -/
theorem writeAll (hm : d.Takes m) {ws : List (Option (FieldDescriptor × Stored))}
    (hws : ∀ f s, some (f, s) ∈ ws → f ∈ d.fields ∧ f.Holds s) : d.Takes (m.writeAll ws) := by
  refine List.foldl_keeps (P := d.Takes) (fun m w hw hm => ?_) hm
  rcases w with _ | ⟨f, s⟩
  · exact hm
  · obtain ⟨hf, hs⟩ := hws f s hw
    exact hm.set hf hs

end MessageDescriptor.Takes

namespace Heap

/-- What is no view is not written back. -/
theorem viewContents_of_ref?_eq_none {h : Heap} {flush : Ref .message → Except Error Message}
    {v : Value} (hv : v.ref? = none) : h.viewContents flush v = .ok none := by
  cases v <;> first | rfl | cases hv

section

variable {h : Heap} {S : Set Place} (hS : h.TypedOn p S) {r : Ref .message} (hr : ⟨.message, r⟩ ∈ S)

include hS hr

/-- What a view of a message writes back, its field may hold. -/
theorem TypedOn.holds_write
    (hflush : ∀ q : Ref .message, ⟨.message, q⟩ ∈ S → ∀ m, h.follow r q = .ok m →
      (h.cell q).content.descriptor.Takes m)
    {view : String × Value} (hview : view ∈ (h.cell r).views) {f : FieldDescriptor} {s : Stored}
    (hw : h.write r view = .ok (some (f, s))) :
    f ∈ (h.cell r).content.descriptor.fields ∧ f.Holds s := by
  obtain ⟨name, v⟩ := view
  obtain ⟨g, hg, hviews⟩ := (hS.message hr).views _ hview
  have hf := field_of_write hw
  obtain rfl : g = f := Option.some.inj (hg.symm.trans hf)
  have hmem := (MessageDescriptor.field?_eq_some.1 hf).1
  refine ⟨hmem, ?_⟩
  have hplace {q : Place} (hq : v.ref? = some q) : q ∈ S := hS.closed hr (List.mem_map.2 ⟨_, hview, rfl⟩) hq
  have hgives {q : Place} (hq : q ∈ S) : ∀ w ∈ (h.cell q.2).values, w.Gives p (h.follow r) := by
    rintro w hw c m rfl hm
    have hc := hS.closed hq hw rfl
    exact (hflush c hc m hm).gives (hS.message hc).among
  rw [write_of_field hf] at hw
  obtain ⟨t, hcontents, hsome⟩ := Except.map_ok.1 hw
  obtain ⟨t, rfl, heq⟩ := Option.map_eq_some_iff.1 hsome
  cases heq
  cases hviews with
  | @map q hmap hq hfield =>
    obtain ⟨_, hstored, heq⟩ := Except.map_ok.1 hcontents
    cases heq
    rw [← hfield] at hmap ⊢
    refine MapCell.holds_toStored (hS.map (hplace rfl)).field (fun e he => ?_) hstored hmap
    exact ⟨hgives (hplace rfl) _ (List.mem_flatMap.2 ⟨e, he, List.mem_cons_self⟩),
      hgives (hplace rfl) _ (List.mem_flatMap.2 ⟨e, he, .tail _ List.mem_cons_self⟩)⟩
  | @list q hlist hq hfield =>
    obtain ⟨_, hstored, heq⟩ := Except.map_ok.1 hcontents
    cases heq
    rw [← hfield] at hlist ⊢
    exact RepeatedCell.holds_toStored (hS.repeated (hplace rfl)).field (hgives (hplace rfl)) hstored hlist
  | @message d q hmap hlist hk hq hd hset =>
    obtain ⟨m, hm, heq⟩ := Except.map_ok.1 hcontents
    cases heq
    have htakes := hflush q (hplace rfl) m hm
    rw [hd] at htakes
    exact .single hmap hlist (hk ▸ htakes.holds)
  | plain hmap hlist hv =>
    rw [viewContents_of_ref?_eq_none hv] at hcontents
    cases hcontents

/-- **What a message holds conforms to its type**, edits of its views included. -/
theorem TypedOn.contents {m : Message} (hm : h.contents r = .ok m) :
    (h.cell r).content.descriptor.Takes m := by
  -- the views of a message are followed to later messages only
  induction hk : h.messages.size - r.index using Nat.strongRecOn generalizing r m with
  | ind k ih =>
    have hhas : r.index < h.messages.size := hS.has hr
    have hflush (q : Ref .message) (hq : ⟨.message, q⟩ ∈ S) (n : Message) (hn : h.follow r q = .ok n) :
        (h.cell q).content.descriptor.Takes n := by
      obtain ⟨⟨hlt, -⟩, hn⟩ := follow_ok.1 hn
      exact ih (h.messages.size - q.index) (by omega) hq hn rfl
    rw [contents_eq, Except.map_ok] at hm
    obtain ⟨ws, hws, rfl⟩ := hm
    have hcontent : (h.cell r).content.descriptor.Takes (h.cell r).content :=
      ⟨rfl, (hS.message hr).conforms⟩
    refine hcontent.writeAll fun f s hmem => ?_
    obtain ⟨view, hview, hw⟩ := exists_of_forall₂ (Except.mapM_ok.1 hws) hmem
    exact hS.holds_write hr hflush hview hw

end

/-- A message that a view may hold is of the view's type. -/
theorem Fits.descriptor_eq {h : Heap} {kind : Kind} {d : MessageDescriptor} {v : Value} {q : Ref .message}
    (hv : h.Fits kind v) (hq : v = .message q) (hd : kind = .message d) :
    (h.cell q).content.descriptor = d := by
  cases hv with
  | @scalar s hs =>
    have hnone := s.ref?_toValue kind
    rw [hq] at hnone
    cases hnone
  | message hk _ he =>
    cases hq
    cases hk.symm.trans hd
    exact he

/-- Messages that are listed are of the type that they are listed for, so they are taken as they are. -/
theorem TypedOn.adopt_alike {h : Heap} {S : Set Place} (hS : h.TypedOn p S) {L : Likeness}
    {q : Ref .message} {d : MessageDescriptor} (hq : h.Lists S q d) {m m' : Message} (hm : L.message m m')
    (hok : h.contents q = .ok m) : Except.Alike L.message (m.adopt d) (m'.adopt d) := by
  obtain ⟨hmem, htype⟩ : ⟨.message, q⟩ ∈ S ∧ (h.cell q).content.descriptor = d := by
    cases hq with
    | «repeated» hr hmem hd =>
      exact ⟨hS.closed hr hmem rfl, ((hS.repeated hr).items _ hmem).descriptor_eq rfl hd⟩
    | key hr he hq hd =>
      exact ⟨hS.closed hr (List.mem_flatMap.2 ⟨_, he, List.mem_cons_self⟩) (by rw [hq]; rfl),
        ((hS.map hr).entries _ he).1.descriptor_eq hq hd⟩
    | value hr he hq hd =>
      exact ⟨hS.closed hr (List.mem_flatMap.2 ⟨_, he, .tail _ List.mem_cons_self⟩) (by rw [hq]; rfl),
        ((hS.map hr).entries _ he).2.descriptor_eq hq hd⟩
  have hmd : m.descriptor = d := (hS.contents hmem hok).descriptor.trans htype
  rw [Message.adopt_self hmd, Message.adopt_self ((L.descriptor hm).trans hmd)]
  exact .ok hm

section

variable {h : Heap} (ht : h.Typed p) (hc : h.Closed)

include ht hc

theorem Typed.holds_write {r : Ref .message} (hr : h.Has ⟨.message, r⟩)
    (hflush : h.FlushesTyped (h.follow r)) {view : String × Value} (hview : view ∈ (h.cell r).views)
    {f : FieldDescriptor} {s : Stored} (hw : h.write r view = .ok (some (f, s))) :
    f ∈ (h.cell r).content.descriptor.fields ∧ f.Holds s :=
  (ht.typedOn hc).holds_write hr hflush hview hw

theorem Typed.contents {r : Ref .message} (hr : h.Has ⟨.message, r⟩) {m : Message}
    (hm : h.contents r = .ok m) : (h.cell r).content.descriptor.Takes m :=
  (ht.typedOn hc).contents hr hm

theorem Typed.flushes : h.FlushesTyped h.contents := fun _ hq _ hm => ht.contents hc hq hm

end

end Heap

end Protoscript
