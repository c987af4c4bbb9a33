import Protoscript.Proofs.Assignment
import Protoscript.Proofs.Editing
import Protoscript.Proofs.Refilling
import Protoscript.Proofs.Settings

/-!
# Assigning and rebuilding a field

A list or map field can be assigned as a whole, or its view can be cleared and filled again. Both ways
take the same values, and leave the message with the same contents.

* `Script.rebuild` — clearing the view of a field and filling it from a value;
* `Heap.Opens` — whether a field of a message was read as a view;
* `Heap.Opens.rebuilds` — filling the view again edits it and nothing else;
* `Heap.Reachable.setField_iff_rebuild` — the two ways agree.
-/

namespace Protoscript

variable {p : Pool}

namespace Script

variable {h h' g : Heap} {f : FieldDescriptor} {v : Value} {config : Config}

/-- Clears the view of a field of a message, and fills it from a value. -/
def rebuild (r : Ref .message) (name : String) (v : Value) : Script Unit := do
  match ← messageAttr r name with
  | some (.repeated q) =>
    clearRepeated q
    extend q v
  | some (.map q) =>
    clearMap q
    mapUpdate q (some v) []
  | _ => throw (.fieldNotFound ((← get).fullName r) name)

section

variable {r : Ref .message} {name : String}

theorem rebuild_repeated {q : Ref .repeated}
    (hrun : (messageAttr r name).run h = (.ok (some (.repeated q)), g))
    (hthawed : (g.cell q).frozen = false) :
    (rebuild r name v).run h = (extend q v).run (g.put q { g.cell q with items := [] }) := by
  have hclear : (clearRepeated q).run g = (.ok (), g.put q { g.cell q with items := [] }) :=
    bind_ok.2 ⟨_, _, rfl, bind_ok.2 ⟨(), _, checkMutable_ok.2 ⟨hthawed, rfl⟩, rfl⟩⟩
  unfold rebuild
  rw [run_bind, hrun]
  change (clearRepeated q >>= fun _ => extend q v).run g = _
  rw [run_bind, hclear]

theorem rebuild_map {q : Ref .map} (hrun : (messageAttr r name).run h = (.ok (some (.map q)), g))
    (hthawed : (g.cell q).frozen = false) :
    (rebuild r name v).run h = (mapUpdate q (some v) []).run (g.put q { g.cell q with entries := [] }) := by
  have hclear : (clearMap q).run g = (.ok (), g.put q { g.cell q with entries := [] }) :=
    bind_ok.2 ⟨_, _, rfl, bind_ok.2 ⟨(), _, checkMutable_ok.2 ⟨hthawed, rfl⟩, rfl⟩⟩
  unfold rebuild
  rw [run_bind, hrun]
  change (clearMap q >>= fun _ => mapUpdate q (some v) []).run g = _
  rw [run_bind, hclear]

/-- A list or map field is read as a new view, which is not frozen. -/
theorem readField_view (h : Heap) (m : Message) (config : Config)
    (hshape : f.isMap = true ∨ f.isList = true) : ∃ view g q, (readField m f config).run h = (.ok view, g) ∧ view.ref? = some q ∧
      (g.cell q.2).isFrozen = false := by
  unfold readField
  by_cases hmap : f.isMap = true
  · rw [if_pos hmap]
    split
    all_goals exact ⟨_, _, _, rfl, rfl, congrArg Cell.isFrozen (Heap.cell_alloc_self _ (s := .map) _)⟩
  · rw [if_neg hmap, if_pos (hshape.resolve_left hmap)]
    split
    all_goals exact ⟨_, _, _, rfl, rfl, congrArg Cell.isFrozen (Heap.cell_alloc_self _ (s := .repeated) _)⟩

end

end Script

/-! ## Messages -/

theorem lookupNumber_editNumber_of_ne {number other : Nat} {g : Stored → Stored} (hne : other ≠ number)
    (entries : List (Nat × Stored)) :
    lookupNumber other (editNumber number g entries) = lookupNumber other entries := by
  induction entries with
  | nil => rfl
  | cons e rest ih =>
    unfold editNumber at ih ⊢
    by_cases h : e.1 = number
    · have hother : e.1 ≠ other := fun he => hne (he.symm.trans h)
      simp [lookupNumber, h, ih, hne.symm]
    · simp [lookupNumber, h, ih]

/-- Writing a list or map field decides what no other field holds. -/
theorem FieldDescriptor.eq_of_decides {d : MessageDescriptor} {f g : FieldDescriptor} (hlaw : p.Lawful)
    (hd : d.Among {p}) (hf : f ∈ d.fields) (hg : g ∈ d.fields) (hshape : f.isMap = true ∨ f.isList = true)
    (hdecides : f.Decides g) : g = f := by
  rcases hdecides with hnumber | hrivals
  · exact MessageDescriptor.eq_of_number hg hf hnumber
  · have hsome := (rivals_iff.1 hrivals).1
    rw [(of_mem hd hf).oneof_eq_none hlaw hshape] at hsome
    cases hsome

/-- Whether a message holds a value in a field and besides what another one does, which is flushed from
a stored content. -/
structure Message.Sets (content before : Message) (f : FieldDescriptor) (s : Stored) (after : Message) :
    Prop where
  takes : content.descriptor.Takes after
  unknown : after.unknown = content.unknown
  field : after.stored? f = some s
  others : ∀ g ∈ content.descriptor.fields, g ≠ f → after.stored? g = before.stored? g

/-- There is one such message. -/
theorem Message.Sets.eq {content before m n : Message} {f : FieldDescriptor} {s : Stored}
    (hm : content.Sets before f s m) (hn : content.Sets before f s n) : n = m := by
  refine hm.takes.eq_of_stored? hn.takes (hn.unknown.trans hm.unknown.symm) fun g hg => ?_
  by_cases hgf : g = f
  · rw [hgf, hn.field, hm.field]
  · rw [hn.others g hg hgf, hm.others g hg hgf]

/-- Writing fields takes away no unknown data. -/
theorem MessageDescriptor.Takes.unknown_writeAll {d : MessageDescriptor} {m : Message}
    {ws : List (Option (FieldDescriptor × Stored))} (hm : d.Takes m)
    (hws : ∀ f s, some (f, s) ∈ ws → f ∈ d.fields ∧ f.Holds s) : (m.writeAll ws).unknown = m.unknown := by
  induction ws generalizing m with
  | nil => rfl
  | cons w rest ih =>
    have hrest := fun f s hmem => hws f s (List.mem_cons_of_mem w hmem)
    cases w with
    | none => exact ih hm hrest
    | some w =>
      obtain ⟨hf, hs⟩ := hws w.1 w.2 (.head _)
      exact (ih (hm.set hf hs) hrest).trans (hm.unknown_set hf w.2)

namespace Heap

variable {h h' h₁ mid : Heap} {r : Ref .message} {name : String} {f : FieldDescriptor} {view v : Value}

/-! ## Reading the view -/

/-- A message that keeps one more view holds what it held, but for the field of the view and the other
members of its oneof. -/
theorem Grows.contents_append (hg : h.Grows mid) (hc : h.Closed) (hr : h.Has ⟨.message, r⟩)
    (hf : (h.cell r).content.descriptor.field? name = some f) {m₁ : Message}
    (hm₁ : (mid.put r { h.cell r with views := (h.cell r).views ++ [(name, view)] }).contents r =
      .ok m₁) :
    ∃ m, h.contents r = .ok m ∧ ∀ g ∈ f.message.fields, ¬ f.Decides g → m₁.stored? g = m.stored? g := by
  let c : MessageCell := { h.cell r with views := (h.cell r).views ++ [(name, view)] }
  have hcell : (mid.put r c).cell r = c := cell_put_self mid r c (hg.has hr)
  have hold : (h.cell r).views.mapM ((mid.put r c).write r) = (h.cell r).views.mapM (h.write r) :=
    Except.mapM_congr fun _ hview => hg.put_write (c := c) hc hr rfl hview
  rw [contents_eq, hcell, List.mapM_append, hold] at hm₁
  obtain ⟨ws, hws, rfl⟩ := Except.map_ok.1 hm₁
  obtain ⟨ws₀, hws₀, hws⟩ := Except.bind_ok.1 hws
  obtain ⟨ws₁, hws₁, hws⟩ := Except.bind_ok.1 hws
  cases hws
  obtain ⟨w, hwrite, rfl⟩ : ∃ w, (mid.put r c).write r (name, view) = .ok w ∧ ws₁ = [w] := by
    obtain _ | ⟨hwrite, hnil⟩ := Except.mapM_ok.1 hws₁
    cases hnil
    exact ⟨_, hwrite, rfl⟩
  refine ⟨(h.cell r).content.writeAll ws₀, Except.map_ok.2 ⟨ws₀, hws₀, rfl⟩ ▸ contents_eq h r,
    fun g hg hno => ?_⟩
  rw [show c.content.writeAll (ws₀ ++ [w]) = _ from Message.writeAll_concat _ ws₀ w]
  cases w with
  | none => rfl
  | some w =>
    obtain ⟨f', s⟩ := w
    have hf' := field_of_write hwrite
    rw [hcell] at hf'
    obtain rfl : f = f' := Option.some.inj (hf.symm.trans hf')
    exact Message.stored?_set_of_not_decides hg _ hno s

/-- Whether reading a list or map field of a message gives a view of it, which can be changed. -/
structure Opens (p : Pool) (h : Heap) (r : Ref .message) (name : String) (f : FieldDescriptor)
    (view : Value) (h₁ : Heap) : Prop where
  run : (Script.messageAttr r name).run h = (.ok (some view), h₁)
  edit : Edit p ⟨.message, r⟩ h h₁
  cell : h₁.cell r = { h.cell r with views := (h₁.cell r).views }
  mem : (name, view) ∈ (h₁.cell r).views
  /-- the view is new, unless the message kept it -/
  old {q : Place} (hq : view.ref? = some q) (hhas : h.Has q) : (name, view) ∈ (h.cell r).views
  thawed {q : Place} (hq : view.ref? = some q) : (h₁.cell q.2).isFrozen = false
  contents {m₁ : Message} (hm₁ : h₁.contents r = .ok m₁) :
    ∃ m, h.contents r = .ok m ∧ ∀ g ∈ f.message.fields, ¬ f.Decides g → m₁.stored? g = m.stored? g

/-- **Reading a list or map field** gives a view. -/
theorem Reachable.opens (hh : Reachable {p} h) (hop : (Operation.attr (.message r) name).Within {p} h)
    (hf : (h.cell r).content.descriptor.field? name = some f) (hshape : f.isMap = true ∨ f.isList = true)
    (hthawed : (h.cell r).frozen = false) (hview : ∀ w q, (name, w) ∈ (h.cell r).views →
      w.ref? = some q → (h.cell q.2).isFrozen = false) : ∃ view h₁, h.Opens p r name f view h₁ := by
  have hr : h.Has ⟨.message, r⟩ := (hop.within _ (.head _)).has rfl
  have hwrites : (Operation.attr (.message r) name).writes ⊆ {⟨.message, r⟩} := by
    rintro q (hfreezes | ⟨w, hw, hq⟩)
    · cases hfreezes
    · cases hw
      exact (Option.some.inj hq).symm
  have hedit : Edit p ⟨.message, r⟩ h ((Script.messageAttr r name).run h).2 :=
    .of_operation hh hop hwrites
  cases hlookup : lookupName name (h.cell r).views with
  | some w =>
    have hrun : (Script.messageAttr r name).run h = (.ok (some w), h) := by
      unfold Script.messageAttr
      rw [Script.run_bind, Script.run_cell]
      simp only [hlookup]
      rfl
    have hmem := Script.mem_of_lookupName hlookup
    rw [hrun] at hedit
    exact ⟨w, h, hrun, hedit, rfl, hmem, fun _ _ => hmem, fun hq => hview w _ hmem hq,
      fun hm => ⟨_, hm, fun _ _ _ => rfl⟩⟩
  | none =>
    -- no view is kept: a new one is made, and kept
    obtain ⟨view, mid, q, hread, hq, hfrozen⟩ :=
      Script.readField_view h (h.cell r).content (h.cell r).config hshape
    have hreads : Script.Runs {p} ∅ h (Script.readField (h.cell r).content f (h.cell r).config) _ :=
      Script.readField_runs hr (MessageDescriptor.field?_eq_some.1 hf).1
    obtain ⟨hgrows, hnew⟩ := hreads.ok hread
    have hg : h.Grows mid := hgrows
    have hcell : mid.cell r = h.cell r := hg.cell hr
    let c : MessageCell := { h.cell r with views := (h.cell r).views ++ [(name, view)] }
    have hself : (mid.put r c).cell r = c := cell_put_self mid r c (hg.has hr)
    have hrun : (Script.messageAttr r name).run h = (.ok (some view), mid.put r c) := by
      unfold Script.messageAttr
      rw [Script.run_bind, Script.run_cell]
      simp only [hlookup, hf]
      rw [Script.run_bind, hread]
      simp only [hthawed, Bool.false_eq_true, if_false]
      rw [Script.run_bind, Script.run_cell, hcell]
      rfl
    rw [hrun] at hedit
    have hno : ¬ h.Has q := hnew.new.not_has hq
    refine ⟨view, mid.put r c, hrun, hedit, ?_, ?_, fun {q'} hq' hhas => ?_, fun {q'} hq' => ?_,
      fun hm₁ => hg.contents_append hh.closed hr hf hm₁⟩
    · rw [hself]
    · rw [hself]
      exact List.mem_append_right _ (.head _)
    · obtain rfl := Option.some.inj (hq.symm.trans hq')
      exact absurd hhas hno
    · obtain rfl := Option.some.inj (hq.symm.trans hq')
      have hne : q ≠ ⟨.message, r⟩ := fun he => hno (he ▸ hr)
      rw [cell_put_of_place_ne mid hne]
      exact hfrozen

/-! ## Editing the view -/

theorem Edit.trans {q : Place} (he : Edit p q h mid) (he' : Edit p q mid h') (hq : h.Has q) :
    Edit p q h h' := by
  refine ⟨he.before, he'.after, ⟨fun s => (he.alters.size s).trans (he'.alters.size s),
    fun hp hW => (he'.alters.cell (he.alters.has hp) hW).trans (he.alters.cell hp hW), fun {r} hr => ?_⟩,
    he.types.trans he'.types⟩
  by_cases hmid : mid.Has ⟨.message, r⟩
  · have hne : (⟨.message, r⟩ : Place) ∉ ({q} : Set Place) := fun he => hr (he ▸ hq)
    have hcell : h'.cell r = mid.cell r := he'.alters.cell hmid hne
    rw [hcell]
    exact he.alters.views hr
  · exact he'.alters.views hmid

/-- A method of a view that is called edits the view only. -/
theorem Edit.of_method (hh : Reachable {p} h) {c : Callable} {q : Place} {args : List Value}
    (hplace : (Value.callable c).place? = some q) (hq : h.Has q)
    (hargs : ∀ w ∈ args, w.Within h ∧ w.From {p})
    (hrun : (Script.call (.callable c) args []).run h = (.ok .absent, h')) : Edit p q h h' := by
  have hmethod : (Operation.call (.callable c) args []).target? = some (.callable c) ∧
      (Value.callable c).pool? = none := by
    cases c with
    | «repeated» | map => exact ⟨rfl, rfl⟩
    | function => cases hplace
  obtain ⟨htarget, hpool⟩ := hmethod
  have hc := Sample.given {p} h (.callable c) nofun
    (fun q' hq' => Option.some.inj (hplace.symm.trans hq') ▸ hq) hpool nofun
  have hop : (Operation.call (.callable c) args []).Within {p} h :=
    Sample.within_of_given (List.forall_mem_cons.2 ⟨hc, by simpa [Operation.values] using hargs⟩) trivial
  have hedit := Edit.of_operation (q := q) hh hop fun q' hq' => by
    obtain hfreezes | ⟨v, hv, hq'⟩ := hq'
    · cases hfreezes
    · obtain rfl := Option.some.inj (htarget.symm.trans hv)
      exact (Option.some.inj (hplace.symm.trans hq')).symm
  rw [show ((Operation.call (.callable c) args []).run h).2 = h' from congrArg Prod.snd hrun] at hedit
  exact hedit

/-- Clearing a view edits it only. -/
theorem Edit.clear_repeated (hh : Reachable {p} h) {q : Ref .repeated} (hq : h.Has ⟨.repeated, q⟩)
    (hthawed : (h.cell q).frozen = false) :
    Edit p ⟨.repeated, q⟩ h (h.put q { h.cell q with items := [] }) :=
  .of_method (c := .repeated 0 "" q .clear) hh rfl hq (List.forall_mem_nil _)
    (Script.bind_ok.2 ⟨_, _, rfl, Script.bind_ok.2 ⟨(), _, Script.bind_ok.2 ⟨_, _, rfl,
      Script.bind_ok.2 ⟨(), _, Script.checkMutable_ok.2 ⟨hthawed, rfl⟩, rfl⟩⟩, rfl⟩⟩)

theorem Edit.clear_map (hh : Reachable {p} h) {q : Ref .map} (hq : h.Has ⟨.map, q⟩)
    (hthawed : (h.cell q).frozen = false) :
    Edit p ⟨.map, q⟩ h (h.put q { h.cell q with entries := [] }) :=
  .of_method (c := .map 0 "" q .clear) hh rfl hq (List.forall_mem_nil _)
    (Script.bind_ok.2 ⟨_, _, rfl, Script.bind_ok.2 ⟨(), _, Script.bind_ok.2 ⟨_, _, rfl,
      Script.bind_ok.2 ⟨(), _, Script.checkMutable_ok.2 ⟨hthawed, rfl⟩, rfl⟩⟩, rfl⟩⟩)

/-- Whether filling a view again does what an assignment does, and edits the view only. -/
def Rebuilds (p : Pool) (h : Heap) (r : Ref .message) (name : String) (f : FieldDescriptor)
    (v view : Value) (h₁ : Heap) : Prop :=
  ∃ h₂ fill q, (Script.rebuild r name v).run h = fill.run h₂ ∧ view.ref? = some q ∧
    Script.Refills h h₂ f v (h.cell r).config fill view ∧
    ∀ h₃, fill.run h₂ = (.ok (), h₃) → Edit p q h₁ h₃

section

variable (ho : h.Opens p r name f view h₁)

include ho

theorem Opens.config_eq : (h₁.cell r).config = (h.cell r).config :=
  (congrArg MessageCell.config ho.cell :)

/-- A view of a list field that was cleared is as if it had just been made. -/
theorem Opens.cleared_repeated {q : Ref .repeated} (hview : view = .repeated q)
    (hq : h₁.Has ⟨.repeated, q⟩) (hfield : (h₁.cell q).field = f) :
    (h₁.put q { h₁.cell q with items := [] }).cell q = { field := f, config := (h.cell r).config } := by
  subst hview
  have hthawed : (h₁.cell q).frozen = false := ho.thawed rfl
  have hsettings := (ho.edit.after.config_repeated ho.mem).trans ho.config_eq
  rw [cell_put_self h₁ (s := .repeated) q _ hq, ← hfield, ← hsettings]
  simp only [hthawed]

theorem Opens.cleared_map {q : Ref .map} (hview : view = .map q) (hq : h₁.Has ⟨.map, q⟩)
    (hfield : (h₁.cell q).field = f) :
    (h₁.put q { h₁.cell q with entries := [] }).cell q = { field := f, config := (h.cell r).config } := by
  subst hview
  have hthawed : (h₁.cell q).frozen = false := ho.thawed rfl
  have hsettings := (ho.edit.after.config_map ho.mem).trans ho.config_eq
  rw [cell_put_self h₁ (s := .map) q _ hq, ← hfield, ← hsettings]
  simp only [hthawed]

variable (hop : (Operation.assign (.message r) name v).Within {p} h)
  (hapart : ¬ h.Leads v ⟨.message, r⟩)
  (hviews : ∀ w q, (name, w) ∈ (h.cell r).views → w.ref? = some q → ¬ h.Leads v q)

include hop

/-- The value can be given to a method of the view, too. -/
theorem Opens.argument (ha : h₁.KeepsTypes mid) : ∀ w ∈ [v], w.Within mid ∧ w.From {p} :=
  List.forall_mem_singleton.2
    ⟨(hop.within v (.tail _ (.head _))).mono fun _ hq => (ha _ (ho.edit.types _ hq).1).1,
      hop.typed v (.tail _ (.head _))⟩

include hapart hviews

/-- What a value leads to is as it was when the view was read and written to. -/
theorem Opens.cell_of_leads {q a : Place} (hq : view.ref? = some q) {c : Cell q.1}
    (ha : h.Leads v a) : (h₁.put q.2 c).cell a.2 = h.cell a.2 := by
  have hhas : h.Has a := ha.has ho.edit.before.closed (hop.within v (.tail _ (.head _)))
  have hne : a ≠ q := by
    rintro rfl
    exact hviews _ _ (ho.old hq hhas) hq ha
  rw [cell_put_of_place_ne h₁ hne, ho.edit.alters.cell hhas fun hmem => hapart (hmem ▸ ha)]

/-- **Filling the view of a list field again**, with the items of a sequence. -/
theorem Opens.rebuilds_list {q : Ref .repeated} (hview : view = .repeated q) (hf : f.Of p)
    (hlist : f.isList = true) (hseq : v.isSequence = true) (hq : h₁.Has ⟨.repeated, q⟩)
    (hfield : (h₁.cell q).field = f) : Rebuilds p h r name f v view h₁ := by
  have hcell := ho.cleared_repeated hview hq hfield
  subst hview
  have hwithin : v.Within h := hop.within v (.tail _ (.head _))
  have hthawed : (h₁.cell q).frozen = false := ho.thawed rfl
  have hclear := Edit.clear_repeated ho.edit.after hq hthawed
  have hsame : ∀ a, h.Leads v a → (h₁.put q { h₁.cell q with items := [] }).cell a.2 = h.cell a.2 :=
    fun a ha => ho.cell_of_leads hop hapart hviews (q := ⟨.repeated, q⟩) rfl ha
  have hkeeps := ho.edit.types.trans hclear.types
  have hrefills := Script.refills_extend ho.edit.before hclear.after hf hlist hseq (has_put.2 hq) hcell
    (iterate_of_leads hsame hseq) fun items hi w hw =>
      storedAlike_of_iterate hsame ho.edit.before.closed hwithin hkeeps hseq hi hw
  refine ⟨_, _, _, Script.rebuild_repeated ho.run hthawed, rfl, hrefills, fun h₃ hrun => ?_⟩
  refine hclear.trans ?_ hq
  exact .of_method (c := .repeated 0 "" q .extend) hclear.after rfl (has_put.2 hq)
    (ho.argument hop hclear.types)
    (Script.bind_ok.2 ⟨_, _, rfl, Script.bind_ok.2 ⟨(), _, hrun, rfl⟩⟩)

/-- **Filling the view of a map field again**, with the entries of a mapping. -/
theorem Opens.rebuilds_map {q : Ref .map} (hview : view = .map q) (hf : f.Of p)
    (hkeys : p.PlainKeys) (hmap : f.isMap = true) (hmapping : v.isMapping = true)
    (hq : h₁.Has ⟨.map, q⟩) (hfield : (h₁.cell q).field = f) :
    Rebuilds p h r name f v view h₁ := by
  have hcell := ho.cleared_map hview hq hfield
  subst hview
  have hwithin : v.Within h := hop.within v (.tail _ (.head _))
  have hthawed : (h₁.cell q).frozen = false := ho.thawed rfl
  have hclear := Edit.clear_map ho.edit.after hq hthawed
  have hsame : ∀ a, h.Leads v a → (h₁.put q { h₁.cell q with entries := [] }).cell a.2 = h.cell a.2 :=
    fun a ha => ho.cell_of_leads hop hapart hviews (q := ⟨.map, q⟩) rfl ha
  have hkeeps := ho.edit.types.trans hclear.types
  have hrefills := Script.refills_update ho.edit.before hclear.after hf hmap (hf.isKey hkeys hmap)
    hmapping (has_put.2 hq) hcell (mappingEntries?_of_leads hsame hmapping) fun entries hi e he =>
      storedAlike_of_mappingEntries hsame ho.edit.before.closed hwithin hkeeps hi he
  refine ⟨_, _, _, Script.rebuild_map ho.run hthawed, rfl, hrefills, fun h₃ hrun => ?_⟩
  refine hclear.trans ?_ hq
  exact .of_method (c := .map 0 "" q .update) hclear.after rfl (has_put.2 hq)
    (ho.argument hop hclear.types) (Script.bind_ok.2 ⟨(), h₃, hrun, rfl⟩)

/-- **Filling the view again** does what an assignment does, and edits the view only. -/
theorem Opens.rebuilds (hkeys : p.PlainKeys) (hf : (h.cell r).content.descriptor.field? name = some f)
    (hshape : f.isList = true ∧ v.isSequence = true ∨ f.isMap = true ∧ v.isMapping = true) :
    Rebuilds p h r name f v view h₁ := by
  have hr : h.Has ⟨.message, r⟩ := (hop.within _ (.head _)).has rfl
  have hof : f.Of p := FieldDescriptor.of_mem (ho.edit.before.typed.message hr).among
    (MessageDescriptor.field?_eq_some.1 hf).1
  obtain ⟨f', hf', hview⟩ := (ho.edit.after.typed.message (has_of_views ho.mem)).views _ ho.mem
  rw [ho.cell] at hf'
  obtain rfl : f = f' := Option.some.inj (hf.symm.trans hf')
  generalize hu : (name, view).2 = u at hview
  cases hview with
  | list hlist hq hfield =>
    have hseq : v.isSequence = true := by
      refine (hshape.resolve_right fun hmap => ?_).2
      rw [FieldDescriptor.isMap_of_isList hlist] at hmap
      cases hmap.1
    exact ho.rebuilds_list hop hapart hviews hu hof hlist hseq hq hfield
  | map hmap hq hfield =>
    have hmapping : v.isMapping = true := by
      refine (hshape.resolve_left fun hlist => ?_).2
      rw [FieldDescriptor.isMap_of_isList hlist.1] at hmap
      cases hmap
    exact ho.rebuilds_map hop hapart hviews hu hof hkeys hmap hmapping hq hfield
  | message hmap hlist | plain hmap hlist =>
    rw [hmap, hlist] at hshape
    simp at hshape

end

/-! ## What the message holds -/

/-- The contents of a message carry the unknown data that it stores. -/
theorem Typed.unknown_contents (ht : h.Typed p) (hc : h.Closed) (hr : h.Has ⟨.message, r⟩) {m : Message}
    (hm : h.contents r = .ok m) : m.unknown = (h.cell r).content.unknown := by
  rw [contents_eq] at hm
  obtain ⟨ws, hws, rfl⟩ := Except.map_ok.1 hm
  refine (ht.takes hr).unknown_writeAll fun f s hw => ?_
  obtain ⟨view, hview, hwrite⟩ := exists_of_forall₂ (Except.mapM_ok.1 hws) hw
  exact ht.holds_write hc hr (ht.follows hc r) hview hwrite

section

variable (hlaw : p.Lawful) (hf : (h.cell r).content.descriptor.field? name = some f)
  (hshape : f.isMap = true ∨ f.isList = true)

include hlaw hf hshape

/-- **After the view was filled again**, the message holds what the view does in its field, and all
else that it held. -/
theorem Opens.contents_rebuilt (hkeys : p.PlainKeys) (ho : h.Opens p r name f view h₁) {q : Place}
    (hq : view.ref? = some q) (he : Edit p q h₁ h') {s : Stored}
    (hs : h'.viewContents h'.contents view = .ok (some s)) :
    ∃ m m', h.contents r = .ok m ∧ h'.contents r = .ok m' ∧ (h.cell r).content.Sets m f s m' := by
  have hh := ho.edit.after
  have holds : h₁.Holds ⟨.message, r⟩ q := .view ho.mem hq
  have hf₁ : (h₁.cell r).content.descriptor.field? name = some f := by
    rw [ho.cell]
    exact hf
  obtain ⟨s₁, hs₁⟩ := hh.exists_viewContents hkeys hq (holds.has hh.closed)
    (hh.typed.shelf_of_held holds) fun k hk => hh.typed.isMap_of_settled (hk ▸ holds.settled hh.flat)
  -- reading the view leaves other fields alone, and so does editing it
  obtain ⟨m₁, hm₁, hfield, hm'⟩ :=
    he.message (g := fun _ => s) hkeys hq .refl hs₁ hs hlaw hf₁ ho.mem
  obtain ⟨m, hm, hothers⟩ := ho.contents hm₁
  have hr := has_of_views ho.mem
  have hr' : h'.Has ⟨.message, r⟩ := (he.types _ hr).1
  have hcell : (h'.cell r).content = (h.cell r).content := by
    have hkept : h'.cell r = h₁.cell r := he.cell_eq holds .refl
    rw [hkept, ho.cell]
  refine ⟨m, _, hm, hm', ?_, ?_, ?_, fun g hg hne => ?_⟩
  · rw [← hcell]
    exact he.after.typed.contents he.after.closed hr' hm'
  · rw [← hcell]
    exact he.after.typed.unknown_contents he.after.closed hr' hm'
  · change lookupNumber f.number m₁.fields = some s₁ at hfield
    change lookupNumber f.number (editNumber f.number (fun _ => s) m₁.fields) = some s
    rw [lookupNumber_editNumber, hfield]
    rfl
  · have hfmem := (MessageDescriptor.field?_eq_some.1 hf).1
    have hno : ¬ f.Decides g := fun hdecides => by
      have hamong := (hh.typed.message hr).among
      rw [ho.cell] at hamong
      exact hne (FieldDescriptor.eq_of_decides hlaw hamong hfmem hg hshape hdecides)
    rw [← hothers g ((MessageDescriptor.mem_fields.1 hfmem).1 ▸ hg) hno]
    exact lookupNumber_editNumber_of_ne (g := fun _ => s) (fun hnumber => hno (.inl hnumber)) m₁.fields

/-- **After a field was assigned**, the message holds what was stored in the field, and all else that it
held. -/
theorem Reachable.contents_assigned (hh : Reachable {p} h)
    (hop : (Operation.assign (.message r) name v).Within {p} h)
    (hrun : (Script.setField r name v).run h = (.ok (), h')) {s : Stored}
    (hstored : (Script.storedFor f v (h.cell r).config).run h = (.ok (some s), mid))
    (hput : (h'.cell r).content = (h.cell r).content.set f s) {m : Message}
    (hm : h.contents r = .ok m) :
    ∃ m', h'.contents r = .ok m' ∧ (h.cell r).content.Sets m f s m' := by
  have hr : h.Has ⟨.message, r⟩ := (hop.within _ (.head _)).has rfl
  have hfmem := (MessageDescriptor.field?_eq_some.1 hf).1
  have hrun' : (Operation.assign (.message r) name v).run h = (.ok (), h') := hrun
  have hh' : Reachable {p} h' := by
    rw [show h' = _ from (congrArg Prod.snd hrun').symm]
    exact hh.tail (.operation _ hop)
  have hr' : h'.Has ⟨.message, r⟩ := Alters.has ((Operation.runs hh.closed hop).ok hrun').1 hr
  obtain ⟨f', stored, mid', m', hf', hstored', hm', -, hfields⟩ :=
    Script.setField_contents hh.closed hr (hop.within v (.tail _ (.head _))) hrun hm
  obtain rfl : f = f' := Option.some.inj (hf.symm.trans hf')
  obtain rfl : some s = stored := Except.ok.inj (congrArg Prod.fst (hstored.symm.trans hstored'))
  have hgm {g : FieldDescriptor} (hg : g ∈ (h.cell r).content.descriptor.fields) :
      g ∈ m.descriptor.fields := by
    rw [(hh.typed.contents hh.closed hr hm).descriptor]
    exact hg
  refine ⟨m', hm', ?_, ?_, ?_, fun g hg hne => ?_⟩
  · rw [← Message.descriptor_set _ f s, ← hput]
    exact hh'.typed.contents hh'.closed hr' hm'
  · rw [hh'.typed.unknown_contents hh'.closed hr' hm', hput]
    exact (hh.typed.takes hr).unknown_set hfmem s
  · exact ((hfields f (hgm hfmem)).1 (.inl rfl)).trans (Message.stored?_set_self _ rfl s)
  · refine (hfields g (hgm hg)).2 fun hdecides => hne ?_
    exact FieldDescriptor.eq_of_decides hlaw (hh.typed.message hr).among hfmem hg hshape hdecides

end

/-- What `setField_iff_rebuild` asks of a message, a field and a value, whatever the schema is. -/
structure Replaceable (p : Pool) (h : Heap) (r : Ref .message) (name : String) (v : Value) : Prop where
  within : (Operation.assign (.message r) name v).Within {p} h
  field : ∃ f, (h.cell r).content.descriptor.field? name = some f ∧
    (f.isList = true ∧ v.isSequence = true ∨ f.isMap = true ∧ v.isMapping = true)
  thawed : (h.cell r).frozen = false
  apart : ¬ h.Leads v ⟨.message, r⟩
  view : ∀ w q, (name, w) ∈ (h.cell r).views → w.ref? = some q →
    (h.cell q.2).isFrozen = false ∧ ¬ h.Leads v q

/-- Whether assigning a field and rebuilding it succeed alike, and leave the message with the same
contents. -/
def RebuiltAlike (h : Heap) (r : Ref .message) (name : String) (v : Value) : Prop :=
  ((∃ h', (Script.setField r name v).run h = (.ok (), h')) ↔
    ∃ h', (Script.rebuild r name v).run h = (.ok (), h')) ∧
  ∀ h' h'', (Script.setField r name v).run h = (.ok (), h') →
    (Script.rebuild r name v).run h = (.ok (), h'') →
    ∃ m, h'.contents r = .ok m ∧ h''.contents r = .ok m

end Heap

namespace Sample

/-- A pool with a message type that has a map with floats as keys, which the language of schemas does not
allow. -/
def scales : Pool where
  id := 10
  messages := [
    { name := "Scale"
      fullName := "Scale"
      package := ""
      edition := .proto3
      parent := none
      isMapEntry := false
      fields := [field "weights" 1 (.message 1) true none]
      nodup_numbers := by decide
      nodup_names := by decide },
    { name := "WeightsEntry"
      fullName := "Scale.WeightsEntry"
      package := ""
      edition := .proto3
      parent := some 0
      isMapEntry := true
      fields := [field "key" 1 (.scalar .double) false none, field "value" 2 (.scalar .int32) false none]
      nodup_numbers := by decide
      nodup_names := by decide }]
  enums := []
  nodup_names := by decide
  kinds_within := by decide

def scale : MessageDescriptor := ⟨scales, 0⟩

def weightsField : FieldDescriptor := ⟨scale, field "weights" 1 (.message 1) true none⟩

/-- A scale and a dict. -/
def unweighed : Heap where
  dicts := #[{ entries := [(.int 1, .int 2)] }]
  messages := #[{ content := .empty scale, config := {} }]

theorem reachable_unweighed : Heap.Reachable {scales} unweighed := by
  let scaled : Heap := { messages := #[{ content := .empty scale, config := {} }] }
  have hwrap : ((Operation.wrap ⟨scales, {}⟩ (.empty scale)).run {}).2 = scaled := rfl
  have hdict : ((Operation.newDict [(.int 1, .int 2)]).run scaled).2 = unweighed := rfl
  have hone := given {scales} scaled (.int 1) nofun nofun rfl nofun
  have htwo := given {scales} scaled (.int 2) nofun nofun rfl nofun
  have hscaled : Heap.Reachable {scales} scaled := by
    rw [← hwrap]
    exact .single (.operation _ ⟨nofun, nofun, ⟨Set.mem_singleton _, by decide⟩, .empty scale⟩)
  rw [← hdict]
  exact hscaled.tail (.operation _ (within_of_given
    (List.forall_mem_cons.2 ⟨hone, List.forall_mem_singleton.2 htwo⟩) trivial))

/-- **Where a map has other keys**, the two ways differ: a float is refused as a key where the map is
assigned, but the view takes it, and the message cannot be flushed any more. -/
theorem weights_rebuilt_only :
    ¬ scales.PlainKeys ∧ scales.Lawful ∧ Heap.Reachable {scales} unweighed ∧
      (Operation.assign (.message root) "weights" (.dict ⟨0⟩)).Within {scales} unweighed ∧
      (unweighed.cell root).content.descriptor.field? "weights" = some weightsField ∧
      weightsField.isMap = true ∧ (unweighed.cell root).frozen = false ∧
      (unweighed.cell root).views = [] ∧ ¬ unweighed.Leads (.dict ⟨0⟩) ⟨.message, root⟩ ∧
      (∃ e h', (Script.setField root "weights" (.dict ⟨0⟩)).run unweighed = (.error e, h')) ∧
      ∃ h', (Script.rebuild root "weights" (.dict ⟨0⟩)).run unweighed = (.ok (), h') ∧
        ∃ e, h'.contents root = .error e := by
  have hroot := given_message {scales} (by decide : root.index < unweighed.messages.size)
  have hdict := given {scales} unweighed (.dict ⟨0⟩) nofun
    (fun p hp => by cases hp; exact (by decide : 0 < unweighed.dicts.size)) rfl nofun
  have hop : (Operation.assign (.message root) "weights" (.dict ⟨0⟩)).Within {scales} unweighed :=
    within_of_given (List.forall_mem_cons.2 ⟨hroot, List.forall_mem_singleton.2 hdict⟩) trivial
  have hapart : ¬ unweighed.Leads (.dict ⟨0⟩) ⟨.message, root⟩ := by
    rintro (hv | _ | ⟨hv, hw, hq⟩)
    · cases hv
    · cases hv
      rcases List.mem_cons.1 hw with rfl | hw
      · rcases hq with hv | _ | ⟨hv, -, -⟩ <;> cases hv
      · obtain rfl := List.mem_singleton.1 hw
        rcases hq with hv | _ | ⟨hv, -, -⟩ <;> cases hv
  refine ⟨by decide, by decide, reachable_unweighed, hop, rfl, rfl, rfl, rfl, hapart, ⟨_, _, rfl⟩, _,
    rfl, ?_⟩
  rw [Heap.contents_eq]
  exact ⟨_, rfl⟩

theorem replaceable_first : bothRead.Replaceable pairs root "first" (.tuple [.int 1]) := by
  have hroot := given_message {pairs} (by decide : root.index < bothRead.messages.size)
  have hone := given {pairs} bothRead (.int 1) nofun nofun rfl nofun
  have htuple : (Value.tuple [.int 1]).Within bothRead ∧ (Value.tuple [.int 1]).From {pairs} :=
    ⟨Value.within_tuple.2 (List.forall_mem_singleton.2 hone.1),
      Value.all_tuple.2 (List.forall_mem_singleton.2 hone.2)⟩
  have hleads (q : Place) : ¬ bothRead.Leads (.tuple [.int 1]) q := by
    rintro (hv | ⟨hmem, hq⟩ | ⟨hv, -, -⟩)
    · cases hv
    · obtain rfl := List.mem_singleton.1 hmem
      rcases hq with hv | _ | ⟨hv, -, -⟩ <;> cases hv
    · cases hv
  refine ⟨within_of_given (List.forall_mem_cons.2 ⟨hroot, List.forall_mem_singleton.2 htuple⟩) trivial,
    ⟨firstField, rfl, .inl ⟨rfl, rfl⟩⟩, rfl, hleads _, fun w q hw hq => ⟨?_, hleads q⟩⟩
  rcases List.mem_cons.1 hw with he | hw
  · cases he
    cases hq
    rfl
  · exact absurd (Prod.mk.inj (List.mem_singleton.1 hw)).1 (by decide)

/-- **Where two lists belong to a oneof**, the message holds different things: assigning the first list
drops the view of the second one, but rebuilding the first one leaves it there, and when it is written
back it unsets the first list. -/
theorem first_rebuilt_unset : ∃ h' h'',
    (Script.setField root "first" (.tuple [.int 1])).run bothRead = (.ok (), h') ∧
    (Script.rebuild root "first" (.tuple [.int 1])).run bothRead = (.ok (), h'') ∧
    h'.contents root = .ok (.mk pair [(1, .list [.scalar (.i32 1)])] []) ∧
    h''.contents root = .ok (.mk pair [(2, .list [])] []) := by
  refine ⟨_, _, rfl, rfl, ?_, ?_⟩
  · rw [Heap.contents_eq]
    rfl
  · rw [Heap.contents_eq]
    rfl

end Sample

end Protoscript
