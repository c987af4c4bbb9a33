import Protoscript.Proofs.Flushing
import Protoscript.Proofs.ReadOut

/-!
# Reading changes nothing

Most operations only look at values. None of them alters a cell that was there, but for one: a message
that is asked for an attribute for the first time keeps what it read. What it keeps is written back as
it was, and is what the attribute gives from then on.

* `Operation.isRead` — the operations that only look; `Heap.ReadsTo` — any sequence of them;
* `Operation.looks` — what one of them does to the heap;
* `Heap.Remembers` — a later heap that has, besides, only what was read since;
* `Heap.Reachable.reads_pure` — the contents of messages and the attributes that were read stay, if
  no list or map belongs to a oneof.
-/

namespace Protoscript

/-- Whether a method of a list view only looks at it. -/
def RepeatedMethod.isRead : RepeatedMethod → Bool
  | .index => true
  | .append | .clear | .extend | .insert | .pop | .remove => false

/-- Whether a method of a map view only looks at it. -/
def MapMethod.isRead : MapMethod → Bool
  | .get | .items | .keys | .values => true
  | .clear | .pop | .popitem | .setdefault | .update => false

/-- Whether an operation only looks at what it is given. Of the functions of a library those do that
alter none of their arguments. -/
def Operation.isRead : {α : Type} → Operation α → Bool
  | _, attr _ _ | _, index _ _ | _, slice _ _ _ | _, length _ | _, iterate _ | _, contains _ _
  | _, equals _ _ | _, compare _ _ _ | _, hash _ | _, dictGet _ _ | _, unwrap _ => true
  | _, call (.callable (.repeated _ _ _ method)) _ _ => method.isRead
  | _, call (.callable (.map _ _ _ method)) _ _ => method.isRead
  | _, call (.callable (.function _ f)) _ _ => f.altering?.isNone
  | _, _ => false

/-! ## One operation -/

namespace Script

variable {pools : Set Pool} {h : Heap}

theorem Runs.grows {α : Type} {s : Script α} {Q : Heap → α → Prop} (hs : Runs pools ∅ h s Q) :
    h.Grows (s.run h).2 := by
  rcases hrun : s.run h with ⟨e | a, h'⟩
  · exact hs.error hrun
  · exact (hs.ok hrun).1

variable (pools) in
theorem callRepeated_index_runs {r : Ref .repeated} {receiver : String} {args : List Value}
    {keywords : Keywords} : Runs pools ∅ h (callRepeated r receiver .index args keywords) Any :=
  .bind_ofExcept fun _ _ => .bind_cell (.bind_reading fun _ _ => .pure trivial)

variable (pools) in
/-- A method that only looks at a map gives a value of it, or a new list. -/
theorem callMap_reads {r : Ref .map} (hc : h.Closed) (hr : h.Has ⟨.map, r⟩) {receiver : String}
    {method : MapMethod} (hread : method.isRead = true) {args : List Value} {keywords : Keywords} :
    Runs pools ∅ h (callMap r receiver method args keywords) Any := by
  have listed {items : List Value} (hitems : ∀ v ∈ items, v.Within h) :
      Runs pools ∅ h (newList items) Any :=
    (newList_runs hitems).mono subset_rfl fun _ _ _ => trivial
  have hentries := hc.mapEntries hr
  cases method with
  | get =>
    refine .bind_ofExcept fun bound _ => .bind_get ?_
    split <;> exact .pure trivial
  | items =>
    refine .bind_ofExcept fun _ _ => .bind_cell (listed fun v hv => ?_)
    obtain ⟨e, he, rfl⟩ := List.mem_map.1 hv
    exact Value.within_tuple.2 (by simpa using hentries e he)
  | keys =>
    refine .bind_ofExcept fun _ _ => .bind_cell (listed fun v hv => ?_)
    obtain ⟨e, he, rfl⟩ := List.mem_map.1 hv
    exact (hentries e he).1
  | values =>
    refine .bind_ofExcept fun _ _ => .bind_cell (listed fun v hv => ?_)
    obtain ⟨e, he, rfl⟩ := List.mem_map.1 hv
    exact (hentries e he).2
  | clear | pop | popitem | setdefault | update => cases hread

variable (pools) in
/-- An attribute of anything but a message alters nothing. -/
theorem attr_reads {v : Value} {name : String} (hv : ∀ r, v ≠ .message r) :
    Runs pools ∅ h (attr v name) Any := by
  have bound {m : Nat → String → Callable} :
      Runs pools ∅ h (do return some (Value.callable (m (← newId) ((← get).typeName v)))) Any :=
    .bind newId_runs (fun _ _ _ _ _ => .bind_get (.pure trivial)) fun _ hp => absurd hp id
  unfold attr
  split
  · exact absurd rfl (hv _)
  · rename_i r
    split
    · exact .pure trivial
    · rename_i method _
      exact bound (m := fun id name => .repeated id name r method)
  · rename_i r
    split
    · exact .pure trivial
    · rename_i method _
      exact bound (m := fun id name => .map id name r method)
  · exact .pure trivial
  · exact .bind_ofExcept fun _ _ => .pure trivial
  · exact .bind_ofExcept fun _ _ => .pure trivial
  · exact .pure trivial
  · split
    · exact .pure trivial
    · split <;> exact .pure trivial
  all_goals exact .pure trivial

section

variable {r : Ref .message} {name : String} {f : FieldDescriptor}

/-- Reading a field does not fail. -/
theorem readField_ok (h : Heap) (m : Message) (f : FieldDescriptor) (config : Config) :
    ∃ v mid, (readField m f config).run h = (.ok v, mid) := by
  unfold readField
  split
  · cases m.get f <;> exact ⟨_, _, rfl⟩
  · split
    · cases m.get f <;> exact ⟨_, _, rfl⟩
    · split <;> exact ⟨_, _, rfl⟩

/-- The value of a field of a message, by what fields are read as. -/
def attrBy (read : Message → FieldDescriptor → Config → Script Value) (r : Ref .message)
    (name : String) : Script (Option Value) := do
  let c ← cell r
  match lookupName name c.views with
  | some value => return some value
  | none =>
    match c.content.descriptor.field? name with
    | none => return none
    | some f =>
      let value ← read c.content f c.config
      if c.frozen then freeze value
      let c ← cell r
      put r { c with views := c.views ++ [(name, value)] }
      return some value

theorem messageAttr_eq : messageAttr = attrBy readField := rfl

section

variable {read : Message → FieldDescriptor → Config → Script Value}

/-- An attribute that a message keeps is given as it is kept. -/
theorem attrBy_kept {v : Value} (hv : lookupName name (h.cell r).views = some v) :
    (attrBy read r name).run h = (.ok (some v), h) := by
  unfold attrBy
  rw [run_bind, run_cell]
  simp only [hv]
  rfl

/-- A message has no attribute but its fields and what it keeps. -/
theorem attrBy_absent (hnone : lookupName name (h.cell r).views = none)
    (hf : (h.cell r).content.descriptor.field? name = none) :
    (attrBy read r name).run h = (.ok none, h) := by
  unfold attrBy
  rw [run_bind, run_cell]
  simp only [hnone, hf]
  rfl

/-- What a field is read as is kept, and frozen if the message is. -/
theorem attrBy_first (hnone : lookupName name (h.cell r).views = none)
    (hf : (h.cell r).content.descriptor.field? name = some f) {v : Value} {mid : Heap}
    (hrun : (read (h.cell r).content f (h.cell r).config).run h = (.ok v, mid)) :
    (attrBy read r name).run h =
      let mid := if (h.cell r).frozen then mid.freeze v else mid
      (.ok (some v), mid.put r { mid.cell r with views := (mid.cell r).views ++ [(name, v)] }) := by
  unfold attrBy
  rw [run_bind, run_cell]
  simp only [hnone, hf]
  rw [run_bind, hrun]
  cases (h.cell r).frozen <;> rfl

end

variable (pools) in
/-- **A field that is read for the first time** is read into new cells, and kept. -/
theorem messageAttr_first (hr : h.Has ⟨.message, r⟩)
    (hnone : lookupName name (h.cell r).views = none)
    (hf : (h.cell r).content.descriptor.field? name = some f) :
    ∃ mid v h', h.Changes pools mid ∧ h.Grows mid ∧ mid.KeepsView r name f v h' ∧
      (messageAttr r name).run h = (.ok (some v), h') := by
  obtain ⟨v, mid, hrun⟩ := readField_ok h (h.cell r).content f (h.cell r).config
  have hreads : Runs pools ∅ h (readField (h.cell r).content f (h.cell r).config) _ :=
    readField_runs hr (MessageDescriptor.field?_eq_some.1 hf).1
  have hnew : ReadNew pools h mid (h.cell r).content f (h.cell r).config v := (hreads.ok hrun).2
  have kept {mid : Heap} (hnew : ReadNew pools h mid (h.cell r).content f (h.cell r).config v) :
      mid.KeepsView r name f v
        (mid.put r { mid.cell r with views := (mid.cell r).views ++ [(name, v)] }) := by
    have hcell : mid.cell r = h.cell r := hnew.grows.cell hr
    refine ⟨hnew.grows.has hr, by rwa [hcell], by rwa [hcell], by rw [hcell]; exact hnew.reads, ?_, rfl⟩
    intro w hw q hq
    have hno : ¬ h.Has ⟨.message, q⟩ := by
      rcases List.mem_cons.1 hw with rfl | hw
      · exact hnew.new.not_has (by rw [hq]; rfl)
      · exact (hnew.newElements w hw).not_has (by rw [hq]; rfl)
    exact Nat.lt_of_lt_of_le hr (Nat.le_of_not_lt hno)
  have hattr := attrBy_first hnone hf hrun
  rcases Bool.eq_false_or_eq_true (h.cell r).frozen with hyes | hno
  · rw [if_pos hyes] at hattr
    exact ⟨_, v, _, hnew.freeze.changes, hnew.freeze.grows, kept hnew.freeze, hattr⟩
  · rw [if_neg (by rw [hno]; decide)] at hattr
    exact ⟨_, v, _, hnew.changes, hnew.grows, kept hnew, hattr⟩

end

end Script

namespace Operation

variable {pools : Set Pool} {h : Heap} {α : Type}

/-- **What an operation does that only looks.** It alters nothing, but for a message that keeps what
a field of it was read as. -/
theorem looks {op : Operation α} (hc : h.Closed) (hop : op.Within pools h)
    (hread : op.isRead = true) : h.Grows (op.run h).2 ∨
      ∃ mid r name f v, h.Has ⟨.message, r⟩ ∧ h.Changes pools mid ∧ h.Grows mid ∧
        mid.KeepsView r name f v (op.run h).2 := by
  have harmless (hwrites : op.writes = ∅) : h.Grows (op.run h).2 :=
    ((op.runs hc hop).mono hwrites.subset fun _ _ hq => hq).grows
  have untargeted (htarget : op.target? = none) (hfreezes : op.freezes = false) :
      h.Grows (op.run h).2 :=
    harmless (Set.eq_empty_of_forall_notMem fun q hq => by simp [writes, htarget, hfreezes] at hq)
  cases op with
  | index | slice | length | iterate | contains | equals | compare | hash | dictGet | unwrap =>
    exact .inl (untargeted rfl rfl)
  | attr v name =>
    have hv := hop.within v (.head _)
    by_cases hmessage : ∃ r, v = .message r
    · obtain ⟨r, rfl⟩ := hmessage
      have hr : h.Has ⟨.message, r⟩ := hv.has rfl
      change h.Grows ((Script.messageAttr r name).run h).2 ∨ _
      -- only the first reading of a field changes anything: the message keeps the view
      rcases hlookup : lookupName name (h.cell r).views with _ | w
      · rcases hf : (h.cell r).content.descriptor.field? name with _ | f
        · rw [Script.messageAttr_eq, Script.attrBy_absent hlookup hf]
          exact .inl (.refl ∅ h)
        · obtain ⟨mid, w, h', hch, hg, hkeeps, hrun⟩ :=
            Script.messageAttr_first pools hr hlookup hf
          refine .inr ⟨mid, r, name, f, w, hr, hch, hg, ?_⟩
          change mid.KeepsView r name f w ((Script.messageAttr r name).run h).2
          rwa [hrun]
      · rw [Script.messageAttr_eq, Script.attrBy_kept hlookup]
        exact .inl (.refl ∅ h)
    · exact .inl (Script.attr_reads pools fun r hr => hmessage ⟨r, hr⟩).grows
  | call v args keywords =>
    have hv := hop.within v (.head _)
    refine .inl ?_
    cases v with
    | callable c =>
      cases c with
      | «repeated» id receiver r method =>
        cases method with
        | index => exact (Script.callRepeated_index_runs pools).grows
        | append | clear | extend | insert | pop | remove => cases hread
      | map id receiver r method =>
        exact (Script.callMap_reads pools hc (hv.has rfl) hread).grows
      | function l f =>
        refine untargeted ?_ rfl
        change f.target? args keywords = none
        unfold Function.target?
        rw [Option.isNone_iff_eq_none.1 hread]
    | _ => cases hread
  | _ => cases hread

end Operation

namespace Heap

variable {pools : Set Pool} {h mid h' : Heap}

/-! ## What was read since -/

/-- One operation that only looks. -/
inductive ReadStep (pools : Set Pool) (h : Heap) : Heap → Prop where
  | operation {α : Type} (op : Operation α) (hop : op.Within pools h) (hread : op.isRead = true) :
    ReadStep pools h (op.run h).2

/-- Any sequence of operations that only look. -/
def ReadsTo (pools : Set Pool) : Heap → Heap → Prop := Relation.ReflTransGen (ReadStep pools)

theorem ReadStep.step (hh : ReadStep pools h h') : Step pools h h' := by
  cases hh with
  | operation op hop => exact .operation op hop

theorem ReadsTo.reachable (hh : ReadsTo pools h h') (hreach : Reachable pools h) :
    Reachable pools h' := by
  induction hh with
  | refl => exact hreach
  | tail _ hlast ih => exact ih.tail hlast.step

/-- Whether a later heap has the cells of a heap as they were, but for messages that keep, besides,
what fields of them were read as. -/
structure Remembers (h h' : Heap) : Prop where
  has {q : Place} (hq : h.Has q) : h'.Has q
  cell {q : Place} (hq : h.Has q) (hm : q.1 ≠ .message) : h'.cell q.2 = h.cell q.2
  message {r : Ref .message} (hr : h.Has ⟨.message, r⟩) :
    (h'.cell r).content = (h.cell r).content ∧ (h'.cell r).config = (h.cell r).config ∧
      (h'.cell r).frozen = (h.cell r).frozen
  kept {r : Ref .message} {name : String} {v : Value} (hr : h.Has ⟨.message, r⟩)
    (hv : lookupName name (h.cell r).views = some v) : lookupName name (h'.cell r).views = some v
  read {r : Ref .message} {name : String} {v : Value} (hr : h.Has ⟨.message, r⟩)
    (hnone : lookupName name (h.cell r).views = none)
    (hv : lookupName name (h'.cell r).views = some v) :
    ∃ f mid, (h.cell r).content.descriptor.field? name = some f ∧
      Reads mid (h.cell r).content f (h.cell r).config v

theorem Grows.remembers (hg : h.Grows h') : h.Remembers h' where
  has hq := Alters.has hg hq
  cell hq _ := hg.cell hq
  message {r} hr := by
    have hcell : h'.cell r = h.cell r := hg.cell hr
    rw [hcell]
    exact ⟨rfl, rfl, rfl⟩
  kept {r _ _} hr hv := by
    have hcell : h'.cell r = h.cell r := hg.cell hr
    rwa [hcell]
  read {r _ _} hr hnone hv := by
    have hcell : h'.cell r = h.cell r := hg.cell hr
    rw [hcell, hnone] at hv
    cases hv

theorem Remembers.trans (hh : h.Remembers mid) (hh' : mid.Remembers h') : h.Remembers h' where
  has hq := hh'.has (hh.has hq)
  cell hq hm := (hh'.cell (hh.has hq) hm).trans (hh.cell hq hm)
  message hr := by
    obtain ⟨hcontent, hconfig, hfrozen⟩ := hh.message hr
    obtain ⟨hcontent', hconfig', hfrozen'⟩ := hh'.message (hh.has hr)
    exact ⟨hcontent'.trans hcontent, hconfig'.trans hconfig, hfrozen'.trans hfrozen⟩
  kept hr hv := hh'.kept (hh.has hr) (hh.kept hr hv)
  read {r name v} hr hnone hv := by
    rcases hmid : lookupName name (mid.cell r).views with _ | w
    · obtain ⟨hcontent, hconfig, -⟩ := hh.message hr
      have hread := hh'.read (hh.has hr) hmid hv
      rwa [hcontent, hconfig] at hread
    · obtain rfl := Option.some.inj ((hh'.kept (hh.has hr) hmid).symm.trans hv)
      exact hh.read hr hnone hmid

theorem lookupName_append {α : Type} (name : String) (xs ys : List (String × α)) :
    lookupName name (xs ++ ys) = (lookupName name xs).or (lookupName name ys) := by
  unfold lookupName
  rw [List.find?_append, Option.map_or]

/-- A message that keeps what was read differs in that only. -/
theorem KeepsView.remembers {r : Ref .message} {name : String} {f : FieldDescriptor} {v : Value}
    (hh : h.KeepsView r name f v h') : h.Remembers h' where
  has hq := by
    rw [hh.eq]
    exact has_put.2 hq
  cell {q} _ hm := hh.cell_ne fun he => hm (by rw [he])
  message {q} hq := by
    by_cases hqr : q = r
    · rw [hqr, hh.cell_self]
      exact ⟨rfl, rfl, rfl⟩
    · have hcell : h'.cell q = h.cell q := hh.cell_ne (q := ⟨.message, q⟩) fun he => hqr (by cases he; rfl)
      rw [hcell]
      exact ⟨rfl, rfl, rfl⟩
  kept {q name' w} hq hw := by
    by_cases hqr : q = r
    · rw [hqr] at hw ⊢
      rw [hh.cell_self, lookupName_append, hw]
      rfl
    · have hcell : h'.cell q = h.cell q := hh.cell_ne (q := ⟨.message, q⟩) fun he => hqr (by cases he; rfl)
      rwa [hcell]
  read {q name' w} hq hnone hw := by
    by_cases hqr : q = r
    · rw [hqr] at hnone hw ⊢
      rw [hh.cell_self, lookupName_append, hnone, Option.none_or] at hw
      obtain ⟨hname, rfl⟩ : name = name' ∧ v = w := by simpa [lookupName] using hw
      exact ⟨f, h, hname ▸ hh.field, hh.reads⟩
    · have hcell : h'.cell q = h.cell q := hh.cell_ne (q := ⟨.message, q⟩) fun he => hqr (by cases he; rfl)
      rw [hcell, hnone] at hw
      cases hw

/-- An operation that only looks leaves all but what it read. -/
theorem ReadStep.remembers (hh : ReadStep pools h h') (hc : h.Closed) : h.Remembers h' := by
  cases hh with
  | operation op hop hread =>
    rcases op.looks hc hop hread with hg | ⟨mid, r, name, f, v, -, -, hg, hkeeps⟩
    · exact hg.remembers
    · exact hg.remembers.trans hkeeps.remembers

theorem ReadsTo.remembers (hh : ReadsTo pools h h') (hreach : Reachable pools h) :
    h.Remembers h' := by
  induction hh with
  | refl => exact Grows.remembers (.refl ∅ h)
  | tail hfirst hlast ih =>
    exact ih.trans (hlast.remembers (ReadsTo.reachable hfirst hreach).closed)

/-! ## What is held -/

section

variable {p : Pool}

/-- **Keeping what was read changes no contents.** -/
theorem KeepsView.sameAt {r : Ref .message} {name : String} {f : FieldDescriptor} {v : Value}
    (hh : h.KeepsView r name f v h') (ht : h.Typed p) (hc : h.Closed) (ht' : h'.Typed p)
    (hc' : h'.Closed) (hlaw : p.Lawful) {q : Place} (hq : h.Has q) : h.SameAt h' q := by
  have hkeeps : h.KeepsTypes h' := by
    rw [hh.eq]
    exact keepsTypes_put hh.has rfl
  have hS := ht.matches_of_alike (S := {q | h.Has q}) (fun _ hq => hq)
    (fun q hq v hv q' hq' =>
      have hhas := (hc q hq v hv).has (Value.place?_of_ref? hq')
      ⟨hhas, .inl hhas⟩) hkeeps fun q hq => by
      by_cases hqr : q = ⟨.message, r⟩
      · exact .inr ⟨r, hqr, hh.alike ht hc hlaw ht' hc'⟩
      · exact .inl (hh.cell_ne hqr)
  obtain ⟨s, q⟩ := q
  cases s with
  | list => exact congrArg ListCell.items (hh.cell_ne (q := ⟨.list, q⟩) nofun)
  | dict => exact congrArg DictCell.entries (hh.cell_ne (q := ⟨.dict, q⟩) nofun)
  | message => exact hS.contents hq (Nat.zero_le _)
  | «repeated» =>
    exact ⟨congrArg RepeatedCell.items (hh.cell_ne (q := ⟨.repeated, q⟩) nofun),
      hS.repeatedContents hq⟩
  | map =>
    exact ⟨congrArg MapCell.entries (hh.cell_ne (q := ⟨.map, q⟩) nofun), hS.mapContents hq⟩

theorem ReadStep.sameAt (hh : ReadStep {p} h h') (hreach : Reachable {p} h) (hlaw : p.Lawful)
    {q : Place} (hq : h.Has q) : h.SameAt h' q := by
  have hreach' : Reachable {p} h' := hreach.tail hh.step
  have hc := hreach.closed
  cases hh with
  | operation op hop hread =>
    rcases op.looks hc hop hread with hg | ⟨mid, r, name, f, v, -, hch, hg, hkeeps⟩
    · exact hg.lasts.sameAt hc hq
    · exact (hg.lasts.sameAt hc hq).trans (hkeeps.sameAt (Changes.typed hch hreach.typed hc).2
        (Changes.closed hch hc) hreach'.typed hreach'.closed hlaw (hg.has hq))

/-- **Whatever is read, all cells hold what they held**, if no list or map belongs to a oneof. -/
theorem ReadsTo.sameAt (hh : ReadsTo {p} h h') (hreach : Reachable {p} h) (hlaw : p.Lawful)
    {q : Place} (hq : h.Has q) : h.SameAt h' q := by
  induction hh with
  | refl => exact (Lasts.sameAt (Grows.lasts (.refl ∅ h)) hreach.closed hq)
  | tail hfirst hlast ih =>
    have hmid := ReadsTo.reachable hfirst hreach
    exact ih.trans (hlast.sameAt hmid hlaw ((ReadsTo.remembers hfirst hreach).has hq))

end

/-! ## Attributes -/

/-- What a field is read as is fixed by what is stored, unless it is an object. -/
theorem Reads.eq_of_ref? {m n : Message} {f : FieldDescriptor} {config : Config} {v w : Value}
    (hv : h.Reads m f config v) (hw : h'.Reads n f config w) (hhas : n.has f = m.has f)
    (hscalar : ∀ s, m.get f = .scalar s → n.get f = .scalar s) (hnone : v.ref? = none) : w = v := by
  -- the shape of the field and whether it is set decide between the cases
  cases hv with
  | map | list => cases hnone
  | absent hmap hlist hunset hf =>
    cases hw with
    | map _ hread => exact absurd hread.isMap (by simp [hmap])
    | list _ hread => exact absurd hread.isList (by simp [hlist])
    | absent => rfl
    | single _ _ hset => simp [hhas, hunset, hf] at hset
  | single hmap hlist hset hv =>
    cases hw with
    | map _ hread => exact absurd hread.isMap (by simp [hmap])
    | list _ hread => exact absurd hread.isList (by simp [hlist])
    | absent _ _ hunset hf => simp [← hhas, hunset, hf] at hset
    | single _ _ _ hw =>
      cases hget : m.get f with
      | scalar s =>
        rw [hget] at hv
        rw [hscalar s hget] at hw
        exact (show w = _ from hw).trans (show v = _ from hv).symm
      | message n | list items | map entries =>
        rw [hget] at hv
        obtain ⟨q, rfl, -⟩ := hv
        cases hnone

section

variable {r : Ref .message} {name : String}

variable (name) in
/-- An attribute of a message is there if the message has the field, and is kept then. -/
theorem Typed.attr_kept {p : Pool} (ht : h.Typed p) (hr : h.Has ⟨.message, r⟩) :
    ∃ found g, (Script.messageAttr r name).run h = (.ok found, g) ∧ h.Remembers g ∧
      lookupName name (g.cell r).views = found ∧
      found.isSome = ((h.cell r).content.descriptor.field? name).isSome := by
  rcases hlookup : lookupName name (h.cell r).views with _ | v
  · rcases hf : (h.cell r).content.descriptor.field? name with _ | f
    · exact ⟨none, h, Script.attrBy_absent hlookup hf, Grows.remembers (.refl ∅ h), hlookup, rfl⟩
    · obtain ⟨mid, v, g, -, hg, hkeeps, hrun⟩ :=
        Script.messageAttr_first ∅ hr hlookup hf
      refine ⟨some v, g, hrun, hg.remembers.trans hkeeps.remembers, ?_, rfl⟩
      rw [hkeeps.cell_self, lookupName_append, hkeeps.new, Option.none_or]
      simp [lookupName]
  · obtain ⟨f, hf, -⟩ := (ht.message hr).views _ (Script.mem_of_lookupName hlookup)
    exact ⟨some v, h, Script.attrBy_kept hlookup, Grows.remembers (.refl ∅ h), hlookup,
      by rw [show (h.cell r).content.descriptor.field? name = some f from hf]; rfl⟩

variable (name) in
/-- What was read before is read again, and what was not there is not there. -/
theorem Remembers.attr (hh : h.Remembers h') (hr : h.Has ⟨.message, r⟩)
    (hnone : lookupName name (h.cell r).views = none →
      (h.cell r).content.descriptor.field? name = none) :
    (Script.messageAttr r name).run h' = (.ok (lookupName name (h.cell r).views), h') := by
  rcases hlookup : lookupName name (h.cell r).views with _ | v
  · have hf := hnone hlookup
    rcases hlater : lookupName name (h'.cell r).views with _ | w
    · exact Script.attrBy_absent hlater (by rw [(hh.message hr).1, hf])
    · obtain ⟨f, -, hsome, -⟩ := hh.read hr hlookup hlater
      rw [hf] at hsome
      cases hsome
  · exact Script.attrBy_kept (hh.kept hr hlookup)

/-- Two values that an attribute has on later heaps are equal, unless both are objects. -/
theorem Remembers.eq_of_ref? {g : Heap} (hh : h.Remembers h') (hg : h.Remembers g)
    (hr : h.Has ⟨.message, r⟩) {v w : Value} (hv : lookupName name (h'.cell r).views = some v)
    (hw : lookupName name (g.cell r).views = some w) (hnone : v.ref? = none ∨ w.ref? = none) :
    w = v := by
  rcases hlookup : lookupName name (h.cell r).views with _ | u
  · obtain ⟨f, mid, hf, hv⟩ := hh.read hr hlookup hv
    obtain ⟨f', mid', hf', hw⟩ := hg.read hr hlookup hw
    obtain rfl := Option.some.inj (hf.symm.trans hf')
    rcases hnone with hnone | hnone
    · exact hv.eq_of_ref? hw rfl (fun _ hs => hs) hnone
    · exact (hw.eq_of_ref? hv rfl (fun _ hs => hs) hnone).symm
  · have hu := hh.kept hr hlookup
    have hu' := hg.kept hr hlookup
    rw [hv] at hu
    rw [hw] at hu'
    exact (Option.some.inj hu').trans (Option.some.inj hu).symm

end

end Heap

/-! ## Reading a node -/

namespace Sample

/-- After the list was read. -/
def lookedAt : Heap where
  messages := #[{ content := five, views := [("items", .repeated ⟨0⟩)], config := {} }]
  repeateds := #[choiceItems]

end Sample

end Protoscript
