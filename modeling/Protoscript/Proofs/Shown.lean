import Protoscript.Proofs.Editing

/-!
# What an attribute shows

A message keeps what its fields were read as. A view of a list, a map or a message that is kept is what
the field holds, with the changes made through it. Any other value that is kept was read from what the
message still stores: writing the field, or another member of its oneof, drops it.

* `Message.ReadsPlain` — what a field is read as that gives no object;
* `Heap.Current` — what messages keep besides objects is what their fields are read as now;
  `Heap.Change.current`, `Heap.Reachable.current` — this is so on all heaps of a run;
* `Heap.Shown` — a value that shows what a field of a message holds; `Heap.Reachable.shown` — the
  values that messages keep do.
-/

namespace Protoscript

variable {p : Pool}

/-! ## Values that are no objects -/

/-- Whether an unset field is read as absent. -/
def FieldDescriptor.readsAbsent (f : FieldDescriptor) (config : Config) : Bool :=
  f.inOneof || f.kind.isMessage || f.isLegacy config

/-- Whether a value is what a field is read as, and no object. -/
inductive Message.ReadsPlain (m : Message) (f : FieldDescriptor) (config : Config) : Value → Prop
  | absent (hmap : f.isMap = false) (hlist : f.isList = false) (hunset : m.has f = false)
    (hf : f.readsAbsent config = true) : ReadsPlain m f config .absent
  | scalar {s : Scalar} (hmap : f.isMap = false) (hlist : f.isList = false)
    (hset : m.has f = false → f.readsAbsent config = false) (hget : m.get f = .scalar s) :
    ReadsPlain m f config (s.toValue f.kind)

namespace Message.ReadsPlain

variable {m n : Message} {f : FieldDescriptor} {config : Config} {v : Value}

/-- It depends on what is stored for the field only. -/
theorem congr (hv : m.ReadsPlain f config v) (h : n.stored? f = m.stored? f) :
    n.ReadsPlain f config v := by
  have hhas : n.has f = m.has f := has_congr h
  have hget : n.get f = m.get f := get_congr h
  cases hv with
  | absent hmap hlist hunset hf => exact .absent hmap hlist (hhas.trans hunset) hf
  | scalar hmap hlist hset hs =>
    exact .scalar hmap hlist (fun hunset => hset (hhas.symm.trans hunset)) (hget.trans hs)

end Message.ReadsPlain

namespace Heap

variable {h h' : Heap}

/-- What a field is read as is one of these values, or an object. -/
theorem Reads.plain {m : Message} {f : FieldDescriptor} {config : Config} {v : Value}
    (hv : h.Reads m f config v) (hnone : v.ref? = none) : m.ReadsPlain f config v := by
  cases hv with
  | map | list => cases hnone
  | absent hmap hlist hunset hf => exact .absent hmap hlist hunset hf
  | single hmap hlist hset hv =>
    cases hget : m.get f with
    | scalar s =>
      rw [hget] at hv
      obtain rfl : v = s.toValue f.kind := hv
      refine .scalar hmap hlist (fun hunset => ?_) hget
      unfold FieldDescriptor.readsAbsent
      simpa [hunset] using hset
    | message n | list items | map entries =>
      rw [hget] at hv
      obtain ⟨q, rfl, -⟩ := hv
      cases hnone

/-! ## What messages keep -/

end Heap

/-- Whether what a message keeps besides objects is what its fields are read as. -/
def MessageCell.Current (c : MessageCell) : Prop :=
  ∀ view ∈ c.views, view.2.ref? = none →
    ∃ f, c.content.descriptor.field? view.1 = some f ∧ c.content.ReadsPlain f c.config view.2

namespace Heap

variable {h h' : Heap}

/-- Whether this is so of all messages. -/
def Current (h : Heap) : Prop := ∀ r : Ref .message, (h.cell r).Current

/-- A field that is written leaves what is kept of others. -/
theorem current_assign {c : MessageCell} {name : String} {f : FieldDescriptor} {stored : Option Stored}
    (hc : c.Current) (hf : c.content.descriptor.field? name = some f) :
    MessageCell.Current { c with
      content := stored.elim (c.content.clear f) (c.content.set f)
      views := Script.keptViews f c.views } := by
  intro view hview hnone
  obtain ⟨hview, hkeep⟩ := List.mem_filter.1 hview
  obtain ⟨g, hg, hv⟩ := hc view hview hnone
  have hfmem := (MessageDescriptor.field?_eq_some.1 hf).1
  obtain ⟨hgmem, hname⟩ := MessageDescriptor.field?_eq_some.1 hg
  rw [← hname] at hkeep
  have hnot := (FieldDescriptor.kept_iff hfmem hgmem).1 hkeep
  have hgf : g ∈ f.message.fields := (MessageDescriptor.mem_fields.1 hfmem).1 ▸ hgmem
  cases stored with
  | none => exact ⟨g, hg, hv.congr (Message.stored?_clear_of_ne _ fun e => hnot (.inl e))⟩
  | some s =>
    refine ⟨g, ?_, hv.congr (Message.stored?_set_of_not_decides hgf _ hnot s)⟩
    exact (Message.descriptor_set c.content f s).symm ▸ hg

/-- **A change keeps what messages keep current.** -/
theorem Change.current {pools : Set Pool} (hh : Change pools h h') (hcurrent : h.Current) :
    h'.Current := by
  have other {h' : Heap} (hcell : ∀ r : Ref .message, h'.cell r = h.cell r) : h'.Current := by
    intro r
    rw [hcell]
    exact hcurrent r
  have put {r : Ref .message} {c : MessageCell} (hr : h.Has ⟨.message, r⟩) (hc : c.Current) :
      (h.put r c).Current := by
    intro q
    by_cases hq : q = r
    · subst hq
      rwa [cell_put_self h q _ hr]
    · rw [cell_put_of_ne h hq]
      exact hcurrent q
  cases hh with
  | count | list | dict | «repeated» | readRepeated | map | readMap => exact other fun _ => rfl
  | setList | setDict | setRepeated | setMap =>
    exact other fun r => cell_put_of_shelf_ne h (by decide) _ r _
  | @message m config hm =>
    intro r
    by_cases hr : (h.alloc .message { content := m, config := config }).Has ⟨.message, r⟩
    · rcases has_alloc hr with he | hold
      · cases he
        rw [cell_alloc_self]
        exact fun _ hview => absurd hview List.not_mem_nil
      · have hcell := cell_alloc_of_has h (s := .message) { content := m, config := config } hold
        exact hcell.symm ▸ hcurrent r
    · have hcell := cell_of_not_has (p := ⟨.message, r⟩) hr
      exact hcell.symm ▸ fun _ hview => absurd hview List.not_mem_nil
  | @freeze v =>
    intro r
    have hcell := freeze_cell_freezeAll h [v] ⟨.message, r⟩
    have hcontent : ((h.freeze v).cell r).content = (h.cell r).content :=
      (congrArg MessageCell.content hcell :)
    have hviews : ((h.freeze v).cell r).views = (h.cell r).views :=
      (congrArg MessageCell.views hcell :)
    have hconfig : ((h.freeze v).cell r).config = (h.cell r).config :=
      (congrArg MessageCell.config hcell :)
    unfold MessageCell.Current
    rw [hcontent, hviews, hconfig]
    exact hcurrent r
  | assign hr _ hf => exact put hr (current_assign (hcurrent _) hf)
  | replace hr => exact put hr fun _ hview => absurd hview List.not_mem_nil
  | @keep r name f v hr _ hf hv =>
    refine put hr fun view hview hnone => ?_
    rcases List.mem_append.1 hview with hview | hview
    · exact hcurrent r view hview hnone
    · rw [List.mem_singleton.1 hview] at hnone ⊢
      exact ⟨f, hf, hv.plain hnone⟩

/-- **In the heaps of a run, what messages keep is current.** -/
theorem Reachable.current {pools : Set Pool} (hh : Reachable pools h) : h.Current := by
  have hempty : ({} : Heap).Current := fun _ _ hview => absurd hview List.not_mem_nil
  have run {h : Heap} (hh : Changes pools {} h) : h.Current := by
    induction hh with
    | refl => exact hempty
    | tail _ hlast ih => exact hlast.current ih
  exact run hh.changes

/-! ## What is shown -/

/-- Whether a value stands for a stored value of a type: it is what a scalar is read as, of the same
canonical form, or a message that holds it. -/
inductive Means (h : Heap) (kind : Kind) : Value → Stored → Prop
  | scalar {s t : Scalar} (hs : kind.HoldsScalar s) (ht : t.canonical = s.canonical) :
    Means h kind (s.toValue kind) (.scalar t)
  | message {q : Ref .message} {m : Message} (hk : kind = .message m.descriptor)
    (hm : h.contents q = .ok m) : Means h kind (.message q) (.message m)

/-- Whether a value stands for what a field holds. -/
inductive Presents (h : Heap) (f : FieldDescriptor) : Value → Stored → Prop
  | map {q : Ref .map} {s : Stored} (hmap : f.isMap = true) (hq : h.Has ⟨.map, q⟩)
    (hf : (h.cell q).field = f) (hs : h.mapContents q = .ok s) : Presents h f (.map q) s
  | list {q : Ref .repeated} {s : Stored} (hlist : f.isList = true) (hq : h.Has ⟨.repeated, q⟩)
    (hf : (h.cell q).field = f) (hs : h.repeatedContents q = .ok s) : Presents h f (.repeated q) s
  | single {v : Value} {s : Stored} (hmap : f.isMap = false) (hlist : f.isList = false)
    (hv : h.Means f.kind v s) : Presents h f v s

/-- Whether a value shows what a field of a message reads as. Under some settings a single value that
is unset is shown as absent. -/
inductive Shown (h : Heap) (m : Message) (f : FieldDescriptor) (config : Config) : Value → Prop
  | absent (hmap : f.isMap = false) (hlist : f.isList = false) (hunset : m.has f = false)
    (hf : f.readsAbsent config = true) : Shown h m f config .absent
  | present {v : Value} (hv : h.Presents f v (m.get f))
    (hset : f.isMap = false → f.isList = false → m.has f = false → f.readsAbsent config = false) :
    Shown h m f config v

/-- A field for which no object is kept holds what is stored for it. -/
theorem Reachable.stored?_unviewed (hlaw : p.Lawful) (hh : Reachable {p} h) {r : Ref .message}
    {name : String} {f : FieldDescriptor} {m : Message} (hr : h.Has ⟨.message, r⟩)
    (hf : (h.cell r).content.descriptor.field? name = some f)
    (hno : ∀ v, (name, v) ∈ (h.cell r).views → v.ref? = none) (hm : h.contents r = .ok m) :
    m.stored? f = (h.cell r).content.stored? f := by
  have ht := hh.typed
  obtain ⟨hmem, hname⟩ := MessageDescriptor.field?_eq_some.1 hf
  rw [contents_eq] at hm
  obtain ⟨ws, hws, rfl⟩ := Except.map_ok.1 hm
  -- what is kept for the field writes nothing, so that only other fields are written
  have hother {g : FieldDescriptor} {s : Stored} (hw : some (g, s) ∈ ws) : ∃ view ∈ (h.cell r).views,
      view.1 ≠ f.name ∧ h.write r view = .ok (some (g, s)) := by
    obtain ⟨view, hview, hwrite⟩ := exists_of_forall₂ (Except.mapM_ok.1 hws) hw
    refine ⟨view, hview, fun he => ?_, hwrite⟩
    obtain ⟨other, v⟩ := view
    obtain rfl : other = name := he.trans hname
    rw [write_of_field hf, viewContents_of_ref?_eq_none (hno v hview)] at hwrite
    cases hwrite
  rcases hstored : (h.cell r).content.stored? f with _ | s
  · -- a write of another field may unset this one, but does not set it
    have step (ws : List (Option (FieldDescriptor × Stored))) (n : Message)
        (hn : n.stored? f = none)
        (hws : ∀ g s, some (g, s) ∈ ws → f ∈ g.message.fields ∧ g.number ≠ f.number) :
        (n.writeAll ws).stored? f = none := by
      induction ws generalizing n with
      | nil => exact hn
      | cons w rest ih =>
        refine ih _ ?_ fun g s hw => hws g s (.tail _ hw)
        rcases w with _ | ⟨g, s⟩
        · exact hn
        · obtain ⟨hg, hne⟩ := hws g s (.head _)
          by_cases hrivals : g.Rivals f
          · exact Message.stored?_set_of_rivals _ hrivals s
          · exact (Message.stored?_set_of_not_rivals _ hg (Ne.symm hne) hrivals s).trans hn
    refine step ws _ hstored fun g s hw => ?_
    obtain ⟨view, hview, hne, hwrite⟩ := hother hw
    obtain ⟨hg, hgname⟩ := MessageDescriptor.field?_eq_some.1 (field_of_write hwrite)
    have hgm : g.message = (h.cell r).content.descriptor := (MessageDescriptor.mem_fields.1 hg).1
    refine ⟨hgm ▸ hmem, fun hnumber => hne ?_⟩
    rw [← hgname, MessageDescriptor.eq_of_number hg hmem hnumber]
  · rw [← hstored]
    refine Message.stored?_writeAll_of_not_decides _ fun g s' hw => ?_
    obtain ⟨view, hview, hne, hwrite⟩ := hother hw
    refine ht.not_decides hlaw hr hmem (.inr ?_) hview hne hwrite
    rw [hstored]
    rfl

section

variable {r : Ref .message} {name : String} {f : FieldDescriptor} {v : Value} {m : Message}
  (hkeys : p.PlainKeys) (hlaw : p.Lawful) (hh : Reachable {p} h)
  (hf : (h.cell r).content.descriptor.field? name = some f) (hv : (name, v) ∈ (h.cell r).views)
  (hm : h.contents r = .ok m)

include hlaw hh hf hv hm

omit hkeys in
/-- So does one for which something else is kept. -/
theorem Reachable.stored?_plain (hnone : v.ref? = none) :
    m.stored? f = (h.cell r).content.stored? f := by
  have hr : h.Has ⟨.message, r⟩ := has_of_views hv
  refine hh.stored?_unviewed hlaw hr hf (fun w hw => ?_) hm
  have hsame := List.inj_on_of_nodup_map (hh.typed.message hr).distinct hw hv rfl
  obtain rfl := (Prod.mk.inj hsame).2
  exact hnone

include hkeys

/-- An object that is kept holds what the field holds. -/
theorem Reachable.stored?_of_viewContents {a : Place} {s : Stored} (ha : v.ref? = some a)
    (hs : h.viewContents h.contents v = .ok (some s)) : m.stored? f = some s := by
  have hedit : Edit p a h h := ⟨hh, hh, .refl _ _, fun q hq => ⟨hq, .refl _⟩⟩
  obtain ⟨m', hm', hstored, -⟩ := hedit.message (g := id) hkeys ha .refl hs hs hlaw hf hv
  obtain rfl := Except.ok.inj (hm.symm.trans hm')
  exact hstored

/-- **What a message keeps for a field shows what the field holds**, pending changes included. -/
theorem Reachable.shown : h.Shown m f (h.cell r).config v := by
  have ht := hh.typed
  have hr : h.Has ⟨.message, r⟩ := has_of_views hv
  have hmem := (MessageDescriptor.field?_eq_some.1 hf).1
  have hget {s : Stored} (hs : m.stored? f = some s) : m.get f = s := Message.get_of_stored? rfl hs
  obtain ⟨f', hf', hviews⟩ := (ht.message hr).views _ hv
  obtain rfl := Option.some.inj (hf.symm.trans hf')
  cases hviews with
  | @map q hmap hq hfield =>
    obtain ⟨s, hs⟩ := hh.exists_map hkeys hq (hfield ▸ hmap)
    have hstored := hh.stored?_of_viewContents hkeys hlaw hf hv hm rfl (congrArg (Except.map some) hs)
    refine .present (hget hstored ▸ .map hmap hq hfield hs) fun hno => ?_
    rw [hmap] at hno
    cases hno
  | @list q hlist hq hfield =>
    obtain ⟨s, hs⟩ := hh.exists_repeated hkeys hq
    have hstored := hh.stored?_of_viewContents hkeys hlaw hf hv hm rfl (congrArg (Except.map some) hs)
    refine .present (hget hstored ▸ .list hlist hq hfield hs) fun _ hno => ?_
    rw [hlist] at hno
    cases hno
  | @message d q hmap hlist hk hq hd hset =>
    obtain ⟨n, hn, hnd⟩ := hh.exists_contents hkeys hq
    have hstored := hh.stored?_of_viewContents hkeys hlaw hf hv hm rfl
      (congrArg (Except.map fun m => some (Stored.message m)) hn)
    refine .present (hget hstored ▸ .single hmap hlist (.message ?_ hn)) fun _ _ hunset => ?_
    · rw [hk, hnd, hd]
    · cases (Message.has_of_stored_message hstored).symm.trans hunset
  | plain hmap hlist hnone =>
    obtain ⟨f', hf', hread⟩ := hh.current r _ hv hnone
    obtain rfl := Option.some.inj (hf.symm.trans hf')
    have htakes := ht.contents hh.closed hr hm
    cases hread.congr (hh.stored?_plain hlaw hf hv hm hnone) with
    | absent hmap hlist hunset hf => exact .absent hmap hlist hunset hf
    | @scalar s hmap hlist hset hs =>
      have hholds := (htakes.get hmem).kind hmap hlist
      rw [hs] at hholds
      exact .present (hs ▸ .single hmap hlist (.scalar hholds.holdsScalar rfl)) fun _ _ => hset

end

end Heap

end Protoscript
