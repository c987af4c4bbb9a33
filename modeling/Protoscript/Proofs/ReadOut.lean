import Protoscript.Proofs.Failure
import Protoscript.Proofs.FrozenContents

/-!
# Values that are read out of frozen ones

A value that was frozen stays as it is, and so does everything it leads to. What is read out of it
later is frozen too, be it an attribute, an element, or an element of a new list that a slice or a
method gives; the new list itself is not frozen.

* `Heap.Leads` — the cells that a value leads to;
* `Heap.SameAt` — what a cell holds is the same on two heaps;
* `Operation.Gives` — what an operation reads out of a value; `Heap.ReadOut` — what a run does;
* `Heap.ReadOut.secured` — what is read out of a frozen value is frozen;
* `Heap.Reachable.freeze_sound` — freezing, over whole runs.
-/

namespace Protoscript

variable {pools : Set Pool} {h mid h' : Heap} {v w : Value}

namespace Heap

/-! ## What a value leads to -/

/-- Whether a value leads to a cell: it is a reference to it, a part of it leads there, or a value in
a cell that it leads to does. -/
inductive Leads (h : Heap) : Value → Place → Prop
  | here {v : Value} {q : Place} (hv : v.ref? = some q) : Leads h v q
  | part {items : List Value} {v : Value} {q : Place} (hv : v ∈ items) (hq : Leads h v q) :
    Leads h (.tuple items) q
  | through {v w : Value} {q q' : Place} (hv : v.ref? = some q) (hw : w ∈ (h.cell q.2).values)
    (hq : Leads h w q') : Leads h v q'

/-- Whether a cell holds the same on two heaps: lists, dicts and views the same values, views and
messages the same stored data up to the canonical form. -/
def SameAt (h h' : Heap) : Place → Prop
  | ⟨.list, r⟩ => (h'.cell r).items = (h.cell r).items
  | ⟨.dict, r⟩ => (h'.cell r).entries = (h.cell r).entries
  | ⟨.message, r⟩ => Except.Alike Likeness.canonical.message (h.contents r) (h'.contents r)
  | ⟨.repeated, r⟩ => (h'.cell r).items = (h.cell r).items ∧
      Except.Alike Likeness.canonical.stored (h.repeatedContents r) (h'.repeatedContents r)
  | ⟨.map, r⟩ => (h'.cell r).entries = (h.cell r).entries ∧
      Except.Alike Likeness.canonical.stored (h.mapContents r) (h'.mapContents r)

theorem Preserves.sameAt (hh : h.Preserves h') {q : Place} (hq : q ∈ h.frozenPlaces) :
    h.SameAt h' q := by
  obtain ⟨s, r⟩ := q
  cases s with
  | list => exact congrArg ListCell.items (hh.cell hq nofun)
  | dict => exact congrArg DictCell.entries (hh.cell hq nofun)
  | message => exact hh.contents hq
  | «repeated» => exact ⟨congrArg RepeatedCell.items (hh.cell hq nofun), hh.repeatedContents hq⟩
  | map => exact ⟨congrArg MapCell.entries (hh.cell hq nofun), hh.mapContents hq⟩

theorem Lasts.sameAt (hh : h.Lasts h') (hc : h.Closed) {q : Place} (hq : h.Has q) :
    h.SameAt h' q := by
  have hS := hh.matches hc
  obtain ⟨s, r⟩ := q
  have hcell := (hh ⟨s, r⟩ hq).2
  cases s with
  | list => exact (congrArg ListCell.items hcell :)
  | dict => exact (congrArg DictCell.entries hcell :)
  | message => exact .of_eq (fun _ _ => rfl) (hS.contents hq (Nat.zero_le _)).eq.symm
  | «repeated» =>
    exact ⟨(congrArg RepeatedCell.items hcell :),
      .of_eq (fun _ _ => rfl) (hS.repeatedContents hq).eq.symm⟩
  | map =>
    exact ⟨(congrArg MapCell.entries hcell :), .of_eq (fun _ _ => rfl) (hS.mapContents hq).eq.symm⟩

theorem SameAt.trans {q : Place} (hq : h.SameAt mid q) (hq' : mid.SameAt h' q) : h.SameAt h' q := by
  obtain ⟨s, r⟩ := q
  cases s with
  | list => exact Eq.trans hq' hq
  | dict => exact Eq.trans hq' hq
  | message => exact Except.Alike.trans (fun hab hbc => hbc.trans hab) hq hq'
  | «repeated» => exact ⟨hq'.1.trans hq.1, hq.2.trans (fun hab hbc => hbc.trans hab) hq'.2⟩
  | map => exact ⟨hq'.1.trans hq.1, hq.2.trans (fun hab hbc => hbc.trans hab) hq'.2⟩

/-- What a value leads to, it leads to later, if cells last. -/
theorem Leads.lasts {q : Place} (hq : h.Leads v q) (hh : h.Lasts h') (hc : h.Closed)
    (hv : v.Within h) : h'.Leads v q ∧ h.Has q := by
  induction hq with
  | here hv' => exact ⟨.here hv', hv.has (Value.place?_of_ref? hv')⟩
  | part hmem _ ih => exact (ih (Value.within_tuple.1 hv _ hmem)).imp_left (.part hmem)
  | through hv' hw _ ih =>
    have hhas := hv.has (Value.place?_of_ref? hv')
    refine (ih (hc _ hhas _ hw)).imp_left (.through hv' ?_)
    rwa [hh.values hhas]

/-! ## Frozen values of a heap -/

/-- Whether a value belongs to a heap and is frozen there. -/
def Secured (h : Heap) (v : Value) : Prop := v.Within h ∧ h.Frozen v

theorem secured_tuple {items : List Value} :
    h.Secured (.tuple items) ↔ ∀ v ∈ items, h.Secured v :=
  ⟨fun hv w hw => ⟨Value.within_tuple.1 hv.1 w hw, Value.all_tuple.1 hv.2 w hw⟩,
    fun hv => ⟨Value.within_tuple.2 fun w hw => (hv w hw).1, Value.all_tuple.2 fun w hw => (hv w hw).2⟩⟩

/-- A value that leads nowhere is not to be frozen. -/
theorem secured_of_place? (ht : ∀ items, v ≠ .tuple items) (hv : v.place? = none) :
    h.Secured v := by
  refine ⟨Value.within_of_place?_none ht hv, frozen_of_ref? ht fun q hq _ => ?_⟩
  rw [Value.place?_of_ref? hq] at hv
  cases hv

theorem secured_absent : h.Secured .absent := secured_of_place? (by simp) rfl

/-- A method that is bound to a view can be called, but not changed. -/
theorem secured_bound {c : Callable} {q : Place} (hq : (Value.callable c).place? = some q)
    (hhas : h.Has q) : h.Secured (.callable c) := by
  refine ⟨(Value.all_iff (by simp)).2 fun p hp => ?_, frozen_of_ref? (by simp) fun _ hp => by cases hp⟩
  rw [Option.some.inj (hp.symm.trans hq)]
  exact hhas

/-- What is frozen stays frozen. -/
theorem Secured.later (hv : h.Secured v) (hh : h.Changes pools h') : h'.Secured v :=
  ⟨hv.1.mono fun _ => hh.has, hv.2.mono hv.1 fun _ => hh.isFrozen⟩

/-- What a secured value refers to is a frozen cell. -/
theorem Secured.place (hv : h.Secured v) {q : Place} (hq : v.ref? = some q) : q ∈ h.frozenPlaces :=
  have hhas := hv.1.has (Value.place?_of_ref? hq)
  ⟨hhas, hv.2.isFrozen hq hhas⟩

section

variable (hc : h.Closed) (hd : h.FrozenDeep)

include hc hd

/-- What is in a frozen cell is frozen. -/
theorem FrozenDeep.secured {q : Place} (hq : q ∈ h.frozenPlaces) (hv : v ∈ (h.cell q.2).values) :
    h.Secured v :=
  ⟨hc q hq.1 v hv, hd q hq.1 hq.2 v hv⟩

theorem FrozenDeep.securedItem {r : Ref .list} (hr : ⟨.list, r⟩ ∈ h.frozenPlaces)
    (hv : v ∈ (h.cell r).items) : h.Secured v := hd.secured hc hr hv

theorem FrozenDeep.securedElement {r : Ref .repeated} (hr : ⟨.repeated, r⟩ ∈ h.frozenPlaces)
    (hv : v ∈ (h.cell r).items) : h.Secured v := hd.secured hc hr hv

theorem FrozenDeep.securedPair {r : Ref .dict} (hr : ⟨.dict, r⟩ ∈ h.frozenPlaces)
    {e : Value × Value} (he : e ∈ (h.cell r).entries) : h.Secured e.1 ∧ h.Secured e.2 :=
  have part {v : Value} (hv : v ∈ [e.1, e.2]) : h.Secured v :=
    hd.secured hc hr (List.mem_flatMap.2 ⟨e, he, hv⟩)
  ⟨part (.head _), part (.tail _ (.head _))⟩

theorem FrozenDeep.securedEntry {r : Ref .map} (hr : ⟨.map, r⟩ ∈ h.frozenPlaces)
    {e : Value × Value} (he : e ∈ (h.cell r).entries) : h.Secured e.1 ∧ h.Secured e.2 :=
  have part {v : Value} (hv : v ∈ [e.1, e.2]) : h.Secured v :=
    hd.secured hc hr (List.mem_flatMap.2 ⟨e, he, hv⟩)
  ⟨part (.head _), part (.tail _ (.head _))⟩

/-- What is iterated over in a frozen value is frozen. -/
theorem Secured.iterate (hv : h.Secured v) {items : List Value} (hi : h.iterate v = .ok items) :
    ∀ w ∈ items, h.Secured w := by
  unfold Heap.iterate at hi
  split at hi
  · cases hi
    exact secured_tuple.1 hv
  · cases hi
    exact fun w hw => hd.securedItem hc (hv.place rfl) hw
  · cases hi
    exact fun w hw => hd.securedElement hc (hv.place rfl) hw
  · cases hi
    intro w hw
    obtain ⟨e, he, rfl⟩ := List.mem_map.1 hw
    exact (hd.securedPair hc (hv.place rfl) he).1
  · cases hi
    intro w hw
    obtain ⟨e, he, rfl⟩ := List.mem_map.1 hw
    exact (hd.securedEntry hc (hv.place rfl) he).1
  · cases hi

/-- **What a frozen value leads to is frozen.** -/
theorem Leads.frozen {q : Place} (hq : h.Leads v q) (hv : h.Secured v) : q ∈ h.frozenPlaces := by
  induction hq with
  | here hv' => exact hv.place hv'
  | part hmem _ ih => exact ih (secured_tuple.1 hv _ hmem)
  | through hv' hw _ ih => exact ih (hd.secured hc (hv.place hv') hw)

end

end Heap

/-! ## What one operation reads out of a value -/

/-- Whether a value is what an operation gave, or an item of the new list that it gave. -/
def Heap.Unpacks (h h' : Heap) (result w : Value) : Prop :=
  w = result ∧ (∀ q, result = .list q → h.Has ⟨.list, q⟩) ∨
    ∃ q, result = .list q ∧ ¬ h.Has ⟨.list, q⟩ ∧ w ∈ (h'.cell q).items

namespace Operation

/-- Whether an operation that took `h` to `h'` with a result read a value out of another: as an
attribute or element, or as the result of a method bound to it, arguments apart. -/
def Gives (v : Value) (h h' : Heap) : {α : Type} → Operation α → α → Value → Prop
  | _, attr v' _, result, w => v' = v ∧ result = some w
  | _, index v' _, result, w => v' = v ∧ result = w
  | _, slice v' _ _, result, w => v' = v ∧ h.Unpacks h' result w
  | _, iterate v', result, w => v' = v ∧ w ∈ result
  | _, dictGet r _, result, w => v = .dict r ∧ result = some w
  | _, dictRemove r _, result, w => v = .dict r ∧ result = some w
  | _, call f args keywords, result, w =>
    (f.place?.isSome ∧ f.place? = v.ref?) ∧ result ∉ args ++ keywords.map (·.2) ∧
      h.Unpacks h' result w
  | _, _, _, _ => False

end Operation

namespace Heap

/-- Whether a value is frozen, or a new list of frozen values. -/
inductive Offers (h h' : Heap) : Value → Prop
  | old {v : Value} (hv : h.Secured v) : Offers h h' v
  | list {items : List Value} (hitems : ∀ v ∈ items, h.Secured v)
    (hh : h' = h.alloc .list { items := items }) : Offers h h' (.list (h.fresh .list))

/-- What is unpacked from such a value is frozen. -/
theorem Offers.secured {result : Value} (hr : h.Offers h' result) (hh : h.Changes pools h')
    (hw : h.Unpacks h' result w) : h'.Secured w := by
  cases hr with
  | old hv =>
    rcases hw with ⟨rfl, -⟩ | ⟨q, rfl, hno, -⟩
    · exact hv.later hh
    · exact absurd (hv.1.has rfl) hno
  | @list items hitems he =>
    rcases hw with ⟨-, hold⟩ | ⟨q, hq, -, hmem⟩
    · exact absurd (hold _ rfl) (Nat.lt_irrefl _)
    · cases hq
      rw [he, cell_alloc_self] at hmem
      exact (hitems w hmem).later hh

end Heap

namespace Script

/-! ## Results of computations -/

/-- Whether a computation gives results with a property only, where it succeeds. -/
def Yields {α : Type} (h : Heap) (s : Script α) (P : Heap → α → Prop) : Prop :=
  ∀ a h', s.run h = (.ok a, h') → P h' a

namespace Yields

variable {α β : Type} {P : Heap → β → Prop}

theorem pure {b : β} (hb : P h b) : Yields h (pure b) P := by
  intro a h' hrun
  cases hrun
  exact hb

theorem throw {e : Error} : Yields h (throw e) P := by
  intro a h' hrun
  cases hrun

theorem bind {s : Script α} {f : α → Script β}
    (hf : ∀ a mid, s.run h = (.ok a, mid) → Yields mid (f a) P) : Yields h (s >>= f) P := by
  intro b h' hrun
  obtain ⟨a, mid, ha, hb⟩ := bind_ok.1 hrun
  exact hf a mid ha b h' hb

theorem bind_cell {s : Shelf} {r : Ref s} {f : Cell s → Script β} (hf : Yields h (f (h.cell r)) P) :
    Yields h (cell r >>= f) P :=
  bind fun _ _ ha => by cases ha; exact hf

theorem bind_get {f : Heap → Script β} (hf : Yields h (f h) P) : Yields h (get >>= f) P :=
  bind fun _ _ ha => by cases ha; exact hf

theorem bind_ofExcept {x : Except Error α} {f : α → Script β}
    (hf : ∀ a, x = .ok a → Yields h (f a) P) : Yields h (ofExcept x >>= f) P :=
  bind fun a _ ha => by
    obtain ⟨hx, rfl⟩ := Prod.mk.inj ha
    exact hf a hx

/-- What must not be frozen does not succeed on what is. -/
theorem frozen {frozen : Bool} {verb target : String} {f : Unit → Script β} (hf : frozen = true) :
    Yields h (checkMutable frozen verb target >>= f) P :=
  bind fun _ _ ha => by
    rw [checkMutable_ok, hf] at ha
    cases ha.1

end Yields

/-! ## Attributes -/

/-- A field that was read is kept by its message. -/
theorem messageAttr_yields {r : Ref .message} {name : String} :
    Yields h (messageAttr r name) fun h' found =>
      h'.Has ⟨.message, r⟩ → ∀ w, found = some w → w ∈ (h'.cell r).values := by
  have kept (value : Value) : ∀ mid, Yields mid (do
      let c ← cell r
      put r { c with views := c.views ++ [(name, value)] }
      return some value) fun h' found =>
        h'.Has ⟨.message, r⟩ → ∀ w, found = some w → w ∈ (h'.cell r).values := by
    refine fun mid => .bind_cell (.bind fun _ h' hput => .pure fun hr w hw => ?_)
    cases hput
    cases hw
    rw [Heap.cell_put_self mid r _ (Heap.has_put.1 hr)]
    exact List.mem_map.2 ⟨_, List.mem_append_right _ (.head _), rfl⟩
  unfold messageAttr
  refine .bind_cell ?_
  split
  · rename_i value hvalue
    refine .pure fun _ w hw => ?_
    cases hw
    obtain ⟨view, hview, rfl⟩ := Option.map_eq_some_iff.1 hvalue
    exact List.mem_map.2 ⟨view, List.mem_of_find?_eq_some hview, rfl⟩
  · split
    · exact .pure fun _ w hw => by cases hw
    · refine .bind fun value mid _ => ?_
      dsimp only
      split
      · exact .bind fun _ mid' _ => kept value mid'
      · exact kept value mid

theorem itemAt_yields {key : Value} {items : List Value} (hitems : ∀ w ∈ items, mid.Secured w) :
    Yields h (itemAt v key items) fun _ w => mid.Secured w := by
  refine .bind fun n mid₁ _ => .bind_ofExcept fun position _ => .pure ?_
  rw [List.getD_eq_getElem?_getD]
  rcases hw : items[position]? with _ | w
  · exact Heap.secured_absent
  · exact hitems w (List.mem_of_getElem? hw)

/-- A type, a package and an enum value lead nowhere. -/
theorem secured_member {t : TypeHandle} : h.Secured t.toValue := by
  cases t <;> exact Heap.secured_of_place? (by simp [TypeHandle.toValue]) rfl

/-- The value of a key in entries that are all frozen. -/
theorem secured_of_lookup {entries : List (Value × Value)} {key : Value}
    (hv : mid.lookup? key entries = some v) (he : ∀ e ∈ entries, h.Secured e.1 ∧ h.Secured e.2) :
    h.Secured v := by
  obtain ⟨e, hfind, rfl⟩ := Option.map_eq_some_iff.1 hv
  exact (he e (List.mem_of_find?_eq_some hfind)).2

theorem intArgument_yields {callee param : String} :
    Yields h (intArgument callee param v) fun h' _ => h' = h := by
  unfold intArgument
  split
  · exact .pure rfl
  · exact .bind_get .throw

/-- A new list of frozen values. -/
theorem newList_yields {items : List Value} (hitems : ∀ v ∈ items, h.Secured v) :
    Yields h (newList items) fun h' result => h.Offers h' result := by
  intro result h' hrun
  cases hrun
  exact .list hitems rfl

/-! ## Elements and methods -/

/-- A method of a frozen list view gives an absent value or a number. -/
theorem callRepeated_yields {r : Ref .repeated} {receiver : String} {method : RepeatedMethod}
    {args : List Value} {keywords : Keywords} (hr : (⟨.repeated, r⟩ : Place) ∈ h.frozenPlaces) :
    Yields h (callRepeated r receiver method args keywords) fun _ w => h.Secured w := by
  unfold callRepeated
  cases method with
  | append | extend | clear | remove =>
    exact .bind fun _ _ _ => .bind fun _ _ _ => .pure Heap.secured_absent
  | index =>
    exact .bind fun _ _ _ => .bind fun _ _ _ => .bind fun _ _ _ =>
      .pure (Heap.secured_of_place? (by simp) rfl)
  | insert =>
    exact .bind fun _ _ _ => .bind fun _ _ _ => .bind fun _ _ _ => .pure Heap.secured_absent
  | pop =>
    have popped {position : Option Int} : Yields h (pop r position) fun _ w => h.Secured w :=
      .bind_cell (.frozen hr.2)
    refine .bind_ofExcept fun bound _ => ?_
    split
    · refine .bind fun n mid hn => ?_
      rw [intArgument_yields n mid hn]
      exact popped
    · exact popped

section

variable (hc : h.Closed) (hd : h.FrozenDeep)

include hc hd

theorem dictGet_yields {r : Ref .dict} {key : Value} (hr : (⟨.dict, r⟩ : Place) ∈ h.frozenPlaces) :
    Yields h (dictGet r key) fun _ found => ∀ w, found = some w → h.Secured w := by
  refine .bind fun _ mid hhash => .bind_get (.pure fun w hw => ?_)
  obtain ⟨-, rfl⟩ := Prod.mk.inj hhash
  exact secured_of_lookup hw fun e he => hd.securedPair hc hr he

/-- **An element of a frozen value is frozen.** -/
theorem index_yields {key : Value} (hv : h.Secured v) :
    Yields h (index v key) fun _ w => h.Secured w := by
  unfold index
  split
  · exact itemAt_yields (Heap.secured_tuple.1 hv)
  · exact .bind_cell (itemAt_yields fun w hw => hd.securedItem hc (hv.place rfl) hw)
  · exact .bind_cell (itemAt_yields fun w hw => hd.securedElement hc (hv.place rfl) hw)
  · refine .bind fun found mid hfound => ?_
    have hsecured := dictGet_yields hc hd (hv.place rfl) found mid hfound
    split
    · exact .pure (hsecured _ rfl)
    · exact .throw
  · refine .bind_get ?_
    split
    · rename_i r _ value hvalue
      exact .pure (secured_of_lookup hvalue fun e he => hd.securedEntry hc (hv.place rfl) he)
    · exact .throw
  · exact .bind_get .throw

/-- **A method of a frozen map view** gives an argument back, or a frozen value, or a new list of
frozen values. -/
theorem callMap_yields {r : Ref .map} {receiver : String} {method : MapMethod} {args : List Value}
    {keywords : Keywords} (hr : (⟨.map, r⟩ : Place) ∈ h.frozenPlaces) :
    Yields h (callMap r receiver method args keywords) fun h' result =>
      result ∈ args ++ keywords.map (·.2) ∨ h.Offers h' result := by
  have hentries {e : Value × Value} (he : e ∈ (h.cell r).entries) : h.Secured e.1 ∧ h.Secured e.2 :=
    hd.securedEntry hc hr he
  have absent {h' : Heap} : .absent ∈ args ++ keywords.map (·.2) ∨ h.Offers h' .absent :=
    .inr (.old Heap.secured_absent)
  have listed {items : List Value} (hitems : ∀ v ∈ items, h.Secured v) :
      Yields h (newList items) fun h' result =>
        result ∈ args ++ keywords.map (·.2) ∨ h.Offers h' result :=
    fun result h' hrun => .inr (newList_yields hitems result h' hrun)
  unfold callMap
  -- a frozen map is not changed: those methods fail
  cases method with
  | clear => exact .bind fun _ _ _ => .bind fun _ _ _ => .pure absent
  | get =>
    refine .bind_ofExcept fun bound hb => .bind_get ?_
    split
    · rename_i value hvalue
      exact .pure (.inr (.old (secured_of_lookup hvalue fun e he => hentries he)))
    · refine .pure ?_
      have hgiven := BoundArguments.value_of_given
        (P := fun v => v ∈ args ++ keywords.map (·.2) ∨ h.Secured v) hb
        (fun v hv => .inl (List.mem_append_left _ hv))
        (fun k hk => .inl (List.mem_append_right _ (List.mem_map_of_mem hk)))
        (.inr Heap.secured_absent) 1
      exact hgiven.imp_right .old
  | items =>
    refine .bind_ofExcept fun _ _ => .bind_cell (listed fun v hv => ?_)
    obtain ⟨e, he, rfl⟩ := List.mem_map.1 hv
    refine Heap.secured_tuple.2 fun v hv => ?_
    rcases List.mem_pair.1 hv with rfl | rfl
    · exact (hentries he).1
    · exact (hentries he).2
  | keys =>
    refine .bind_ofExcept fun _ _ => .bind_cell (listed fun v hv => ?_)
    obtain ⟨e, he, rfl⟩ := List.mem_map.1 hv
    exact (hentries he).1
  | values =>
    refine .bind_ofExcept fun _ _ => .bind_cell (listed fun v hv => ?_)
    obtain ⟨e, he, rfl⟩ := List.mem_map.1 hv
    exact (hentries he).2
  | pop | popitem | setdefault => exact .bind_ofExcept fun _ _ => .bind_cell (.frozen hr.2)
  | update =>
    dsimp only
    split
    · exact .throw
    · exact .bind fun _ _ _ => .pure absent

/-- A method that is bound to a frozen view, called. -/
theorem call_yields {f : Value} {args : List Value} {keywords : Keywords} (hv : h.Secured v)
    (hsome : f.place?.isSome) (hplace : f.place? = v.ref?) :
    Yields h (call f args keywords) fun h' result =>
      result ∈ args ++ keywords.map (·.2) ∨ h.Offers h' result := by
  unfold call
  split
  · cases hsome
  · exact fun result h' hrun =>
      .inr (.old (callRepeated_yields (hv.place hplace.symm) result h' hrun))
  · exact callMap_yields hc hd (hv.place hplace.symm)
  · cases hsome
  · exact .bind_get .throw

/-- A part of a frozen sequence. -/
theorem slice_yields {start stop : Option Int} (hv : h.Secured v) :
    Yields h (slice v start stop) fun h' result => h.Offers h' result := by
  have part {items : List Value} (hitems : ∀ w ∈ items, h.Secured w) :
      ∀ w ∈ sliceOf start stop items, h.Secured w :=
    fun w hw => hitems w (List.mem_of_mem_drop (List.mem_of_mem_take hw))
  unfold slice
  split
  · exact .pure (.old (Heap.secured_tuple.2 (part (Heap.secured_tuple.1 hv))))
  · exact .bind_cell (newList_yields (part fun w hw => hd.securedItem hc (hv.place rfl) hw))
  · exact .bind_cell (newList_yields (part fun w hw => hd.securedElement hc (hv.place rfl) hw))
  · exact .bind_get .throw

end

/-- **An attribute of a frozen value is frozen.** -/
theorem attr_yields {name : String} (hv : h.Secured v) :
    Yields h (attr v name) fun h' found => h.Changes pools h' → h'.Closed → h'.FrozenDeep →
      ∀ w, found = some w → h'.Secured w := by
  -- a bound method leads to the view that it is bound to
  have bound {m : Nat → String → Callable} {q : Place}
      (hm : ∀ id name, (Value.callable (m id name)).place? = some q) (hq : v.ref? = some q) :
      Yields h (do return some (.callable (m (← newId) ((← get).typeName v))))
        fun h' found => h.Changes pools h' → h'.Closed → h'.FrozenDeep →
          ∀ w, found = some w → h'.Secured w := by
    refine .bind fun _ mid _ => .bind_get (.pure fun hh _ _ w hw => ?_)
    cases hw
    exact Heap.secured_bound (hm _ _) (hh.has (hv.place hq).1)
  unfold attr
  split
  · rename_i r
    intro found h' hrun hh hc' hd' w hw
    have hr := (hv.later hh).place (q := ⟨.message, r⟩) rfl
    exact hd'.secured hc' hr (messageAttr_yields found h' hrun hr.1 w hw)
  · rename_i r
    split
    · exact .pure fun _ _ _ w hw => by cases hw
    · rename_i method _
      exact bound (m := fun id name => .repeated id name r method) (fun _ _ => rfl) rfl
  · rename_i r
    split
    · exact .pure fun _ _ _ w hw => by cases hw
    · rename_i method _
      exact bound (m := fun id name => .map id name r method) (fun _ _ => rfl) rfl
  · refine .pure fun _ _ _ w hw => ?_
    obtain ⟨t, -, rfl⟩ := Option.map_eq_some_iff.1 hw
    exact secured_member
  · refine .bind_ofExcept fun value hvalue => .pure fun _ _ _ w hw => ?_
    cases hw
    unfold EnumDescriptor.value at hvalue
    split at hvalue
    · cases hvalue
      exact Heap.secured_of_place? (by simp) rfl
    · cases hvalue
  · refine .bind_ofExcept fun value hvalue => .pure fun _ _ _ w hw => ?_
    cases hw
    obtain ⟨types, -, hvalue⟩ := Except.bind_ok.1 hvalue
    split at hvalue
    · cases hvalue
      exact secured_member
    · cases hvalue
  · refine .pure fun _ _ _ w hw => ?_
    obtain ⟨f, -, rfl⟩ := Option.map_eq_some_iff.1 hw
    exact Heap.secured_of_place? (by simp) rfl
  · split
    · refine .pure fun _ _ _ w hw => ?_
      cases hw
      exact Heap.secured_of_place? (by simp) rfl
    · split
      · refine .pure fun _ _ _ w hw => ?_
        cases hw
        exact Heap.secured_of_place? (by simp) rfl
      · exact .pure fun _ _ _ w hw => by cases hw
  all_goals exact .pure fun _ _ _ w hw => by cases hw

end Script

/-! ## Runs -/

/-- **What an operation reads out of a frozen value is frozen.** -/
theorem Operation.Gives.secured {α : Type} {op : Operation α} {result : α} (hh : Heap.Reachable pools h)
    (hop : op.Within pools h) (hv : h.Secured v) (hrun : op.run h = (.ok result, h'))
    (hw : op.Gives v h h' result w) : h'.Secured w := by
  have hstep : Heap.Step pools h h' := by
    have := Heap.Step.operation op hop
    rwa [hrun] at this
  have hh' : Heap.Reachable pools h' := hh.tail hstep
  have hc := hh.closed
  have hd := hh.frozenDeep
  have hchanges := hstep.changes hc
  -- all other operations give nothing of the value
  cases op <;> try exact absurd hw id
  case attr v' name =>
    obtain ⟨rfl, rfl⟩ := hw
    exact Script.attr_yields hv _ _ hrun hchanges hh'.closed hh'.frozenDeep _ rfl
  case index v' key =>
    obtain ⟨rfl, rfl⟩ := hw
    exact (Script.index_yields hc hd hv _ _ hrun).later hchanges
  case slice v' start stop =>
    obtain ⟨rfl, hw⟩ := hw
    exact (Script.slice_yields hc hd hv _ _ hrun).secured hchanges hw
  case iterate v' =>
    obtain ⟨rfl, hw⟩ := hw
    obtain ⟨hi, -⟩ := Prod.mk.inj hrun
    exact (hv.iterate hc hd hi w hw).later hchanges
  case dictGet r key =>
    obtain ⟨rfl, rfl⟩ := hw
    exact (Script.dictGet_yields hc hd (hv.place rfl) _ _ hrun w rfl).later hchanges
  case dictRemove r key =>
    obtain ⟨rfl, rfl⟩ := hw
    exact absurd hrun fun hrun => Script.Yields.bind_cell (P := fun _ _ => False)
      (.frozen (hv.place (q := ⟨.dict, r⟩) rfl).2) _ _ hrun
  case call f args keywords =>
    obtain ⟨⟨hsome, hplace⟩, hown, hw⟩ := hw
    have hresult := Script.call_yields hc hd hv hsome hplace _ _ hrun
    exact (hresult.resolve_left hown).secured hchanges hw

namespace Heap

/-- Whether a value was read out of another one over a run: at once, or later, and by one read after
another. -/
inductive ReadOut (pools : Set Pool) (v : Value) (h : Heap) : Heap → Value → Prop
  | self : ReadOut pools v h h v
  | later {mid h' : Heap} {w : Value} (hw : ReadOut pools v h mid w) (hh : Reaches pools mid h') :
    ReadOut pools v h h' w
  | read {mid h' : Heap} {w u : Value} {α : Type} {op : Operation α} {result : α}
    (hw : ReadOut pools v h mid w) (hop : op.Within pools mid)
    (hrun : op.run mid = (.ok result, h')) (hu : op.Gives w mid h' result u) : ReadOut pools v h h' u

/-- **What is read out of a frozen value is frozen**, then or later. -/
theorem ReadOut.secured (hw : ReadOut pools v h h' w) (hh : Reachable pools h) (hv : h.Secured v) :
    Reachable pools h' ∧ h'.Secured w := by
  induction hw with
  | self => exact ⟨hh, hv⟩
  | later _ hlater ih =>
    obtain ⟨hmid, hw⟩ := ih
    exact ⟨hmid.trans hlater, hw.later (hlater.changes hmid.closed)⟩
  | read _ hop hrun hu ih =>
    obtain ⟨hmid, hw⟩ := ih
    have hstep := Step.operation _ hop
    rw [hrun] at hstep
    exact ⟨hmid.tail hstep, hu.secured hmid hop hw hrun⟩

/-- **Freezing is sound over whole runs**, if no list or map belongs to a oneof. Once a value was
frozen, everything that it leads to is frozen and holds what it held, whatever is done; and what is
read out of the value, then or later, is frozen. -/
theorem Reachable.freeze_sound {p : Pool} (hlaw : p.Lawful) (hh : Reachable {p} h)
    (hop : (Operation.freeze v).Within {p} h)
    (hh' : Reaches {p} ((Operation.freeze v).run h).2 h') :
    (∀ q, h.Leads v q → (h'.cell q.2).isFrozen = true ∧ h.SameAt h' q) ∧
      ∀ w, ReadOut {p} v ((Operation.freeze v).run h).2 h' w → h'.Frozen w := by
  have hc := hh.closed
  have hwithin : v.Within h := hop.within v (.head _)
  have hmid : Reachable {p} (h.freeze v) := hh.tail (.operation (.freeze v) hop)
  have hlasts : h.Lasts (h.freeze v) := lasts_freezeAll h [v]
  -- what the value leads to is frozen, and everything that is read out of it leads there
  have hsecured : (h.freeze v).Secured v :=
    ⟨hwithin.mono fun q hq => (hlasts q hq).1, frozen_freeze h v⟩
  refine ⟨fun q hq => ?_, fun w hw => (hw.secured hmid hsecured).2.2⟩
  obtain ⟨hleads, hhas⟩ := hq.lasts hlasts hc hwithin
  have hfrozen := hleads.frozen hmid.closed hmid.frozenDeep hsecured
  have hpreserves := (Reaches.changes hh' hmid.closed).preserves hmid.typed hmid.closed
    hmid.frozenDeep hlaw
  exact ⟨(hpreserves.frozen hfrozen).2, (hlasts.sameAt hc hhas).trans (hpreserves.sameAt hfrozen)⟩

end Heap

/-! ## A frozen node -/

namespace Sample

/-- After the edited node was frozen. -/
def frozen : Heap where
  messages := #[
    { content := tree, views := [("right", .message right)], frozen := true, config := {} },
    { content := .mk node [(3, .scalar (.i32 5))] [], frozen := true, config := {} }]

theorem freeze_edited : ((Operation.freeze (.message root)).run edited).2 = frozen := by
  change edited.freezeAll [.message root] = frozen
  have hroot : edited.Has ⟨.message, root⟩ := (by decide : 0 < 2)
  have hright : edited.Has ⟨.message, right⟩ := (by decide : 1 < 2)
  rw [Heap.freezeAll_cons rfl hroot rfl]
  change Heap.freezeAll _ [.message right] = frozen
  rw [Heap.freezeAll_cons rfl (Heap.has_put.2 hright) rfl]
  exact Heap.freezeAll.eq_1 _

/-- A node is frozen, and its items are read for the first time then: the right side is frozen, the
node holds what it held, and the view of the items is frozen too. -/
theorem frozen_keeps_node :
    pool.Lawful ∧ Heap.Reachable {pool} edited ∧
      (Operation.freeze (.message root)).Within {pool} edited ∧
      ∃ h', Heap.Reaches {pool} ((Operation.freeze (.message root)).run edited).2 h' ∧
        (h'.cell right).isFrozen = true ∧ edited.SameAt h' ⟨.message, root⟩ ∧
        h'.Frozen (.repeated ⟨0⟩) := by
  have hlaw : pool.Lawful := by decide
  have hop : (Operation.freeze (.message root)).Within {pool} edited :=
    within_of_message {pool} edited rfl (by decide) trivial
  have hread : (Operation.attr (.message root) "items").Within {pool} frozen :=
    within_of_message {pool} frozen rfl (by decide) trivial
  have hreaches : Heap.Reaches {pool} ((Operation.freeze (.message root)).run edited).2
      ((Operation.attr (.message root) "items").run frozen).2 := by
    rw [freeze_edited]
    exact .single (.operation _ hread)
  have hsound := Heap.Reachable.freeze_sound hlaw reachable_edited hop hreaches
  refine ⟨hlaw, reachable_edited, hop, _, hreaches, ?_, ?_, ?_⟩
  · exact (hsound.1 ⟨.message, right⟩ (.through (q := ⟨.message, root⟩) rfl (.head _) (.here rfl))).1
  · exact (hsound.1 _ (.here rfl)).2
  · refine hsound.2 _ ?_
    rw [freeze_edited]
    exact .read .self hread (Prod.ext rfl rfl) ⟨rfl, rfl⟩

/-! ### A list in a oneof -/

/-- A pool whose message type has a oneof of a number and a list. -/
def choices : Pool where
  id := 1
  messages := [{
    name := "Choice"
    fullName := "Choice"
    package := ""
    edition := .proto3
    parent := none
    isMapEntry := false
    fields := [field "depth" 1 (.scalar .int32) false (some 0),
      field "items" 2 (.scalar .int32) true (some 0)]
    nodup_numbers := by decide
    nodup_names := by decide }]
  enums := []
  nodup_names := by decide
  kinds_within := by decide

def choice : MessageDescriptor := ⟨choices, 0⟩

def depthField : FieldDescriptor := ⟨choice, field "depth" 1 (.scalar .int32) false (some 0)⟩

/-- A message with the number set. -/
def five : Message := .mk choice [(1, .scalar (.i32 5))] []

def chosen : Heap where
  messages := #[{ content := five, config := {} }]

def frozenChoice : Heap where
  messages := #[{ content := five, frozen := true, config := {} }]

/-- The view of the list as it is read: without items. -/
def choiceItems : RepeatedCell where
  field := ⟨choice, field "items" 2 (.scalar .int32) true (some 0)⟩
  config := {}

/-- After the list of the frozen message was read. -/
def readChoice : Heap where
  messages := #[
    { content := five, views := [("items", .repeated ⟨0⟩)], frozen := true, config := {} }]
  repeateds := #[{ choiceItems with frozen := true }]

theorem conforms_five : five.Conforms :=
  (Message.Conforms.empty choice).set (f := depthField) (.head _) (.single rfl rfl (.scalar rfl))

theorem reachable_chosen : Heap.Reachable {choices} chosen := by
  have hrun : ((Operation.wrap ⟨choices, {}⟩ five).run {}).2 = chosen := rfl
  rw [← hrun]
  exact .single (.operation _ ⟨nofun, nofun, ⟨Set.mem_singleton _, by decide⟩, conforms_five⟩)

theorem freeze_chosen : ((Operation.freeze (.message root)).run chosen).2 = frozenChoice := by
  change chosen.freezeAll [.message root] = frozenChoice
  have hroot : chosen.Has ⟨.message, root⟩ := (by decide : 0 < 1)
  rw [Heap.freezeAll_cons rfl hroot rfl]
  exact Heap.freezeAll.eq_1 _

theorem read_frozenChoice :
    ((Operation.attr (.message root) "items").run frozenChoice).2 = readChoice := by
  let made := frozenChoice.alloc .repeated choiceItems
  have hfreeze : made.freeze (.repeated ⟨0⟩) =
      made.put (s := .repeated) ⟨0⟩ { choiceItems with frozen := true } := by
    have hview : made.Has ⟨.repeated, ⟨0⟩⟩ := (by decide : 0 < 1)
    unfold Heap.freeze
    rw [Heap.freezeAll_cons rfl hview rfl]
    exact Heap.freezeAll.eq_1 _
  have hrun : ((Operation.attr (.message root) "items").run frozenChoice).2 =
      (made.freeze (.repeated ⟨0⟩)).put root { (made.freeze (.repeated ⟨0⟩)).cell root with
        views := ((made.freeze (.repeated ⟨0⟩)).cell root).views ++ [("items", .repeated ⟨0⟩)] } := rfl
  rw [hrun, hfreeze]
  rfl

/-- **Where a list belongs to a oneof**, freezing is not enough: reading the list of a frozen message
for the first time keeps a view of it, which is written back as an empty list and unsets the number. -/
theorem frozen_choice_changes :
    ¬ choices.Lawful ∧ Heap.Reachable {choices} chosen ∧
      (Operation.freeze (.message root)).Within {choices} chosen ∧
      ∃ h', Heap.Reaches {choices} ((Operation.freeze (.message root)).run chosen).2 h' ∧
        chosen.Leads (.message root) ⟨.message, root⟩ ∧ ¬ chosen.SameAt h' ⟨.message, root⟩ := by
  have hop : (Operation.freeze (.message root)).Within {choices} chosen :=
    within_of_message {choices} chosen rfl (by decide) trivial
  have hread : (Operation.attr (.message root) "items").Within {choices} frozenChoice :=
    within_of_message {choices} frozenChoice rfl (by decide) trivial
  have hreaches : Heap.Reaches {choices} ((Operation.freeze (.message root)).run chosen).2
      ((Operation.attr (.message root) "items").run frozenChoice).2 := by
    rw [freeze_chosen]
    exact .single (.operation _ hread)
  refine ⟨by decide, reachable_chosen, hop, _, hreaches, .here rfl, fun hsame => ?_⟩
  rw [read_frozenChoice] at hsame
  have hbefore : chosen.contents root = .ok five := by
    rw [Heap.contents_eq]
    rfl
  have hafter : readChoice.contents root = .ok (.mk choice [(2, .list [])] []) := by
    rw [Heap.contents_eq]
    rfl
  change Except.Alike _ (chosen.contents root) (readChoice.contents root) at hsame
  rw [hbefore, hafter] at hsame
  cases hsame with
  | ok hsame =>
    have hnumber := congrArg (fun m : Message => m.stored? depthField) hsame
    cases hnumber

end Sample

end Protoscript
