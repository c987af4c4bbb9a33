import Protoscript.Proofs.Deciding
import Protoscript.Proofs.TwinChecks

/-!
# Keyword arguments of constructors

A constructor assigns its keyword arguments to an empty message, one after another. What a value is stored
as does not depend on what was assigned before, and an assignment leaves the fields alone that it does not
decide. So where the keywords name different fields, no two of one oneof, their order makes no difference.

* `MessageDescriptor.Apart` — whether fields are such ones;
* `Message.stored?_foldl_assign` — what a message holds after writes of such fields;
* `Script.setField_building`, `Script.assignAll_building` — one assignment to a new message, and all of them;
* `Heap.Reachable.construct_commutes` — constructors with the same keywords in any order.
-/

namespace Protoscript

/-- Whether fields of a message are different ones, and no two are of one oneof. -/
structure MessageDescriptor.Apart (d : MessageDescriptor) (fs : List FieldDescriptor) : Prop where
  declared : ∀ f ∈ fs, f ∈ d.fields
  distinct : fs.Nodup
  single : ∀ f ∈ fs, ∀ g ∈ fs, ¬ f.Rivals g

theorem MessageDescriptor.Apart.perm {d : MessageDescriptor} {fs gs : List FieldDescriptor}
    (hfs : d.Apart fs) (hperm : fs.Perm gs) : d.Apart gs :=
  ⟨fun f hf => hfs.declared f (hperm.mem_iff.2 hf), hperm.nodup_iff.1 hfs.distinct,
    fun f hf g hg => hfs.single f (hperm.mem_iff.2 hf) g (hperm.mem_iff.2 hg)⟩

/-- Whether keyword arguments name fields of a message, one after another. -/
def Keywords.Name (d : MessageDescriptor) (ks : Keywords) (fs : List FieldDescriptor) : Prop :=
  List.Forall₂ (fun k f => d.field? k.1 = some f) ks fs

/-! ## Writes -/

namespace Message

/-- What a message holds after a field was written, or unset if there is nothing to write. -/
def assign (m : Message) (w : FieldDescriptor × Option Stored) : Message :=
  w.2.elim (m.clear w.1) (m.set w.1)

@[simp] theorem descriptor_assign (m : Message) (w : FieldDescriptor × Option Stored) :
    (m.assign w).descriptor = m.descriptor := by
  obtain ⟨f, s⟩ := w
  cases s with
  | none => rfl
  | some s => exact descriptor_set m f s

/-- Whether two messages of one type hold the same in every field. -/
structure SameFields (m n : Message) : Prop where
  descriptor : n.descriptor = m.descriptor
  stored : ∀ f ∈ m.descriptor.fields, n.stored? f = m.stored? f
  has : ∀ f ∈ m.descriptor.fields, n.has f = m.has f

theorem SameFields.of_stored {m n : Message} (hd : n.descriptor = m.descriptor)
    (hstored : ∀ f ∈ m.descriptor.fields, n.stored? f = m.stored? f) : m.SameFields n := by
  exact ⟨hd, hstored, fun f hf => Message.has_congr (hstored f hf)⟩

variable {d : MessageDescriptor} {f g : FieldDescriptor}

theorem stored?_assign_self (m : Message) (s : Option Stored) : (m.assign (f, s)).stored? f = s := by
  cases s with
  | none => exact stored?_clear_self m rfl
  | some s => exact stored?_set_self m rfl s

theorem stored?_assign_of_ne (m : Message) (hf : f ∈ d.fields) (hg : g ∈ d.fields) (hne : g ≠ f)
    (hrivals : ¬ f.Rivals g) (s : Option Stored) : (m.assign (f, s)).stored? g = m.stored? g := by
  have hnumber : g.number ≠ f.number := fun he => hne (MessageDescriptor.eq_of_number hg hf he)
  cases s with
  | none => exact stored?_clear_of_ne m hnumber
  | some s =>
    exact stored?_set_of_not_rivals m ((MessageDescriptor.mem_fields.1 hf).1 ▸ hg) hnumber hrivals s

/-- **What a message holds that was empty**: what was written, if the fields that were written are apart. -/
theorem stored?_foldl_assign {ws : List (FieldDescriptor × Option Stored)} (hws : d.Apart (ws.map (·.1)))
    (hg : g ∈ d.fields) (s : Stored) :
    (ws.foldl assign (.empty d)).stored? g = some s ↔ (g, some s) ∈ ws := by
  -- from the end: the last write decides its own field and unsets the rivals, which were not written
  induction ws using List.reverseRecOn with
  | nil => exact ⟨nofun, nofun⟩
  | append_singleton before w ih =>
    obtain ⟨f, o⟩ := w
    rw [List.map_append, List.map_singleton] at hws
    have hmem {g : FieldDescriptor} (hg : g ∈ before.map (·.1)) : g ∈ before.map (·.1) ++ [f] :=
      List.mem_append_left _ hg
    have hlast : f ∈ before.map (·.1) ++ [f] := List.mem_append_right _ (.head _)
    obtain ⟨hdistinct, -, hnew⟩ := List.nodup_append.1 hws.distinct
    have ih := ih ⟨fun g hg => hws.declared g (hmem hg), hdistinct,
      fun g hg k hk => hws.single g (hmem hg) k (hmem hk)⟩
    rw [List.foldl_append, List.foldl_cons, List.foldl_nil, List.mem_append, List.mem_singleton,
      Prod.mk.injEq]
    by_cases hgf : g = f
    · subst hgf
      rw [stored?_assign_self]
      refine ⟨fun ho => .inr ⟨rfl, ho.symm⟩, fun h => h.elim (fun hbefore => ?_) fun h => h.2.symm⟩
      exact absurd rfl (hnew g (List.mem_map.2 ⟨_, hbefore, rfl⟩) g (.head _))
    by_cases hrivals : f.Rivals g
    · have hnot : (g, some s) ∉ before := fun h =>
        hws.single f hlast g (hmem (List.mem_map.2 ⟨_, h, rfl⟩)) hrivals
      refine ⟨fun hs => absurd ?_ hnot, fun h => h.elim (absurd · hnot) fun he => absurd he.1 hgf⟩
      cases o with
      | none =>
        have hne := (FieldDescriptor.rivals_iff.1 hrivals).2.2.2
        exact ih.1 ((stored?_clear_of_ne _ hne).symm.trans hs)
      | some t => cases (stored?_set_of_rivals _ hrivals t).symm.trans hs
    · rw [stored?_assign_of_ne _ (hws.declared f hlast) hg hgf hrivals, ih]
      exact ⟨.inl, fun h => h.resolve_right fun he => hgf he.1⟩

/-- What was written in another order is the same. -/
theorem sameFields_of_perm {ws ws' : List (FieldDescriptor × Option Stored)} (hws : d.Apart (ws.map (·.1)))
    (hperm : ws.Perm ws') : (ws.foldl assign (.empty d)).SameFields (ws'.foldl assign (.empty d)) := by
  have hd (ws : List (FieldDescriptor × Option Stored)) : (ws.foldl assign (.empty d)).descriptor = d := by
    induction ws using List.reverseRecOn with
    | nil => rfl
    | append_singleton before w ih =>
      rw [List.foldl_append, List.foldl_cons, List.foldl_nil, descriptor_assign, ih]
  refine .of_stored ((hd ws').trans (hd ws).symm) fun f hf => ?_
  rw [hd] at hf
  refine Option.ext fun s => ?_
  rw [stored?_foldl_assign hws hf, stored?_foldl_assign (hws.perm (hperm.map _)) hf, hperm.mem_iff]

end Message

/-! ## Assignments to a new message -/

namespace Heap

/-- Whether a keyword argument names a field of a type, and what its value is stored as there. -/
structure Writes (h : Heap) (t : MessageType) (k : String × Value) (w : FieldDescriptor × Option Stored) :
    Prop where
  field : t.descriptor.field? k.1 = some w.1
  stored : ∃ g, (Script.storedFor w.1 k.2 t.config).run h = (.ok w.2, g)

theorem Writes.unique {h : Heap} {t : MessageType} {k : String × Value}
    {w w' : FieldDescriptor × Option Stored} (hw : h.Writes t k w) (hw' : h.Writes t k w') : w = w' := by
  obtain ⟨f, s⟩ := w
  obtain ⟨f', s'⟩ := w'
  obtain ⟨hf, g, hs⟩ := hw
  obtain ⟨hf', g', hs'⟩ := hw'
  obtain rfl : f = f' := Option.some.inj (hf.symm.trans hf')
  cases hs.symm.trans hs'
  rfl

/-- What a keyword argument is stored as, is unique. -/
theorem perm_of_writes {h : Heap} {t : MessageType} {ks ks' : Keywords}
    {ws ws' : List (FieldDescriptor × Option Stored)} (hperm : ks.Perm ks')
    (hws : List.Forall₂ (h.Writes t) ks ws) (hws' : List.Forall₂ (h.Writes t) ks' ws') : ws.Perm ws' := by
  obtain ⟨us, hus, hperm'⟩ := List.perm_comp_forall₂ hperm.symm hws
  have hright : Relator.RightUnique (h.Writes t) := fun _ _ _ hw hw' => hw.unique hw'
  obtain rfl := List.right_unique_forall₂' hright hus hws'
  exact hperm'.symm

theorem fields_of_writes {h : Heap} {t : MessageType} {ks : Keywords}
    {ws : List (FieldDescriptor × Option Stored)} {fs : List FieldDescriptor}
    (hws : List.Forall₂ (h.Writes t) ks ws) (hnames : ks.Name t.descriptor fs) : ws.map (·.1) = fs := by
  induction hws generalizing fs with
  | nil => cases hnames; rfl
  | cons hw _ ih =>
    cases hnames with
    | cons hf hrest => rw [List.map_cons, ih hrest, Option.some.inj (hw.field.symm.trans hf)]

/-- Whether a message of a type was made since a heap, holds something and keeps no views. -/
structure Building (h : Heap) (t : MessageType) (r : Ref .message) (m : Message) (g : Heap) : Prop where
  grown : h.Grows g
  fresh : ¬ h.Has ⟨.message, r⟩
  has : g.Has ⟨.message, r⟩
  cell : g.cell r = { content := m, config := t.config }
  descriptor : m.descriptor = t.descriptor

/-- A new message is empty. -/
theorem building_newMessage (h : Heap) (t : MessageType) :
    h.Building t (h.fresh .message) (.empty t.descriptor) (h.newMessage (.empty t.descriptor) t.config).2 :=
  ⟨h.grows_alloc_message rfl, not_has_fresh h .message, has_fresh_alloc h .message _,
    cell_alloc_self h (s := .message) _, rfl⟩

theorem Building.contents {h g : Heap} {t : MessageType} {r : Ref .message} {m : Message}
    (hb : h.Building t r m g) : g.contents r = .ok m := by
  rw [contents_of_views_eq_nil (by rw [hb.cell]), hb.cell]

end Heap

namespace Script

/-- Assigns to fields of a message, one after another. -/
def assignAll (r : Ref .message) : Keywords → Script Unit
  | [] => return
  | (name, value) :: rest => do
    setField r name value
    assignAll r rest

variable {h g g' : Heap} {t : MessageType} {r : Ref .message} {m : Message}

section

variable (hc : h.Closed)

include hc

/-- **One assignment to a new message** writes what the value is stored as on the heap that the message was
made on. -/
theorem setField_building {k : String × Value} (hv : k.2.Within h) (hb : h.Building t r m g)
    (hrun : (setField r k.1 k.2).run g = (.ok (), g')) :
    ∃ w, h.Writes t k w ∧ h.Building t r (m.assign w) g' := by
  obtain ⟨hthawed, f, hf⟩ := field_of_setField hrun
  obtain ⟨stored, mid, hstored, rfl⟩ := (setField_ok hf hthawed).1 hrun
  rw [hb.cell] at hf hstored
  obtain ⟨o, g₀, hstored₀, hgrow, -, rfl⟩ := storedFor_inStep_self hc hv hb.grown (.refl ∅ h) hstored
  have hcell : (mid.put r { content := m.assign (f, o), config := t.config }).cell r =
      { content := m.assign (f, o), config := t.config } :=
    Heap.cell_put_self mid (s := .message) r _ (hgrow.has hb.has)
  rw [hb.cell]
  refine ⟨(f, o), ⟨hb.descriptor ▸ hf, g₀, hstored₀⟩, ?_, hb.fresh, Heap.has_put.2 (hgrow.has hb.has),
    hcell, ?_⟩
  · refine .of_alters (hb.grown.trans hgrow) (mid.alters_put (s := .message) r _) (fun a ha => ?_)
      fun q hq => ?_
    · exact Set.mem_singleton_iff.1 ha ▸ hb.fresh
    · cases hq
      exact congrArg MessageCell.views hcell
  · exact (Message.descriptor_assign m _).trans hb.descriptor

/-- It succeeds if the value can be stored there. -/
theorem exists_setField_building {k : String × Value} (hv : k.2.Within h) (hb : h.Building t r m g)
    {w : FieldDescriptor × Option Stored} (hw : h.Writes t k w) :
    ∃ g', (setField r k.1 k.2).run g = (.ok (), g') ∧ h.Building t r (m.assign w) g' := by
  obtain ⟨hf, g₀, hstored₀⟩ := hw
  obtain ⟨_, mid, hstored, -, -, rfl⟩ := storedFor_inStep_self hc hv (.refl ∅ h) hb.grown hstored₀
  have hfield : (g.cell r).content.descriptor.field? k.1 = some w.1 := by
    rw [hb.cell]
    exact hb.descriptor ▸ hf
  have hthawed : (g.cell r).frozen = false := by rw [hb.cell]
  have hrun := (setField_ok (v := k.2) hfield hthawed).2 ⟨_, mid, by rw [hb.cell]; exact hstored, rfl⟩
  obtain ⟨w', hw', hb'⟩ := setField_building hc hv hb hrun
  obtain rfl := hw'.unique ⟨hf, g₀, hstored₀⟩
  exact ⟨_, hrun, hb'⟩

/-- **Assignments to a new message**, one after another, write what the values are stored as on the heap that
the message was made on. -/
theorem assignAll_building {ks : Keywords} (hks : ∀ k ∈ ks, k.2.Within h) (hb : h.Building t r m g)
    (hrun : (assignAll r ks).run g = (.ok (), g')) :
    ∃ ws, List.Forall₂ (h.Writes t) ks ws ∧ h.Building t r (ws.foldl .assign m) g' := by
  induction ks generalizing m g with
  | nil =>
    cases hrun
    exact ⟨[], .nil, hb⟩
  | cons k rest ih =>
    obtain ⟨_, mid, hfirst, hrest⟩ := bind_ok.1 hrun
    obtain ⟨w, hw, hb⟩ := setField_building hc (hks k (.head _)) hb hfirst
    obtain ⟨ws, hws, hb⟩ := ih (fun l hl => hks l (.tail _ hl)) hb hrest
    exact ⟨w :: ws, .cons hw hws, hb⟩

/-- They succeed if all values can be stored there. -/
theorem exists_assignAll {ks : Keywords} (hks : ∀ k ∈ ks, k.2.Within h) (hb : h.Building t r m g)
    {ws : List (FieldDescriptor × Option Stored)} (hws : List.Forall₂ (h.Writes t) ks ws) :
    ∃ g', (assignAll r ks).run g = (.ok (), g') := by
  induction hws generalizing m g with
  | nil => exact ⟨g, rfl⟩
  | @cons k w ks ws hw _ ih =>
    obtain ⟨mid, hfirst, hb⟩ := exists_setField_building hc (hks k (.head _)) hb hw
    obtain ⟨g', hrest⟩ := ih (fun l hl => hks l (.tail _ hl)) hb
    exact ⟨g', bind_ok.2 ⟨(), mid, hfirst, hrest⟩⟩

end

/-! ## Constructors -/

/-- A loop that assigns to fields of a message. -/
theorem forIn_eq_assignAll {ks : Keywords} {body : String × Value → PUnit → Script (ForInStep PUnit)}
    (hbody : ∀ k ∈ ks, body k ⟨⟩ = (do setField r k.1 k.2; return .yield ⟨⟩)) :
    forIn ks ⟨⟩ body = assignAll r ks := by
  induction ks with
  | nil => rfl
  | cons k rest ih =>
    rw [List.forIn_cons, hbody k (.head _), bind_assoc]
    simp only [pure_bind]
    rw [ih fun l hl => hbody l (.tail _ hl)]
    rfl

/-- A constructor makes an empty message and assigns its keyword arguments to it, if all of them name
fields. -/
theorem construct_run {ks : Keywords} {fs : List FieldDescriptor} (hks : ks.Name t.descriptor fs) :
    (construct t [] ks).run h = Script.run (do
      assignAll (h.fresh .message) ks
      return .message (h.fresh .message)) (h.newMessage (.empty t.descriptor) t.config).2 := by
  change Script.run (do
    forIn ks PUnit.unit fun k _ => do
      if (t.descriptor.field? k.1).isNone then throw (.unexpectedKeyword t.descriptor.fullName k.1)
      setField (h.fresh .message) k.1 k.2
      return ForInStep.yield PUnit.unit
    return Value.message (h.fresh .message)) (h.newMessage (.empty t.descriptor) t.config).2 = _
  rw [forIn_eq_assignAll fun k hk => ?_]
  obtain ⟨f, -, hf⟩ := exists_of_forall₂ hks.flip hk
  simp only [show t.descriptor.field? k.1 = some f from hf, Option.isNone_some, Bool.false_eq_true, if_false]

/-- Makes an empty message of a type and then assigns to its fields, one after another. -/
def constructStepwise (t : MessageType) (ks : Keywords) : Script Value := do
  let new ← construct t [] []
  match new with
  | .message r =>
    assignAll r ks
    return new
  | new => return new

/-- **A constructor assigns its keyword arguments** to an empty message, one after another, if all of them
name fields. -/
theorem construct_eq {ks : Keywords} {fs : List FieldDescriptor} (hks : ks.Name t.descriptor fs) :
    (construct t [] ks).run h = (constructStepwise t ks).run h := by
  rw [construct_run hks]
  rfl

theorem construct_building (hc : h.Closed) {ks : Keywords} {fs : List FieldDescriptor}
    (hnames : ks.Name t.descriptor fs) (hks : ∀ k ∈ ks, k.2.Within h) {v : Value}
    (hrun : (construct t [] ks).run h = (.ok v, g)) :
    v = .message (h.fresh .message) ∧ ∃ ws, List.Forall₂ (h.Writes t) ks ws ∧
      h.Building t (h.fresh .message) (ws.foldl .assign (.empty t.descriptor)) g := by
  rw [construct_run hnames] at hrun
  obtain ⟨_, mid, hassign, hrun⟩ := bind_ok.1 hrun
  cases hrun
  exact ⟨rfl, assignAll_building hc hks (h.building_newMessage t) hassign⟩

theorem exists_construct (hc : h.Closed) {ks : Keywords} {fs : List FieldDescriptor}
    (hnames : ks.Name t.descriptor fs) (hks : ∀ k ∈ ks, k.2.Within h)
    {ws : List (FieldDescriptor × Option Stored)} (hws : List.Forall₂ (h.Writes t) ks ws) :
    ∃ v g, (construct t [] ks).run h = (.ok v, g) := by
  obtain ⟨g, hassign⟩ := exists_assignAll hc hks (h.building_newMessage t) hws
  rw [construct_run hnames]
  exact ⟨_, g, bind_ok.2 ⟨(), g, hassign, rfl⟩⟩

end Script

namespace Heap

variable {pools : Set Pool} {h : Heap} {t : MessageType} {ks ks' : Keywords} {fs : List FieldDescriptor}

open Script

/-- Whether the order of keyword arguments, which name some fields, makes no difference on a heap. -/
structure KeywordsCommute (pools : Set Pool) (h : Heap) (t : MessageType) (fs : List FieldDescriptor)
    (ks ks' : Keywords) : Prop where
  /-- the type can be called with both or with none -/
  succeeds : (∃ v g, (construct t [] ks').run h = (.ok v, g)) ↔ ∃ v g, (construct t [] ks).run h = (.ok v, g)
  /-- a new message is made -/
  makes {v : Value} {g : Heap} (hrun : (construct t [] ks).run h = (.ok v, g)) :
    ∃ r m, v = .message r ∧ ¬ h.Has ⟨.message, r⟩ ∧ g.Has ⟨.message, r⟩ ∧ g.contents r = .ok m
  /-- the messages hold the same -/
  same {r r' : Ref .message} {g g' : Heap} {m m' : Message}
    (hrun : (construct t [] ks).run h = (.ok (.message r), g)) (hm : g.contents r = .ok m)
    (hrun' : (construct t [] ks').run h = (.ok (.message r'), g')) (hm' : g'.contents r' = .ok m') :
    m.SameFields m'
  /-- they are made as if the fields were assigned to, one after another -/
  stepwise : (construct t [] ks').run h = (constructStepwise t ks').run h
  /-- fields that are not named are as in an empty message -/
  unnamed {r : Ref .message} {g : Heap} {m : Message}
    (hrun : (construct t [] ks).run h = (.ok (.message r), g)) (hm : g.contents r = .ok m) :
    ∀ f ∈ t.descriptor.fields, f ∉ fs → m.stored? f = (Message.empty t.descriptor).stored? f ∧
      m.has f = (Message.empty t.descriptor).has f
  /-- and whatever is done later, the type makes empty messages -/
  empty {k : Heap} (hk : Reaches pools h k) : ∃ r k', (construct t [] []).run k = (.ok (.message r), k') ∧
    k'.contents r = .ok (.empty t.descriptor)

/-- **The order of keyword arguments makes no difference**, if they name different fields, no two of one
oneof. -/
theorem Reachable.construct_commutes (hh : Reachable pools h) (hnames : ks.Name t.descriptor fs)
    (hfs : t.descriptor.Apart fs) (hvalues : ∀ k ∈ ks, k.2.Within h) (hperm : ks.Perm ks') :
    KeywordsCommute pools h t fs ks ks' := by
  have hc := hh.closed
  have hvalues' : ∀ k ∈ ks', k.2.Within h := fun k hk => hvalues k (hperm.mem_iff.2 hk)
  -- the same fields are named, in another order
  obtain ⟨fs', hnames', -⟩ : ∃ fs', ks'.Name t.descriptor fs' ∧ fs'.Perm fs :=
    List.perm_comp_forall₂ hperm.symm hnames
  have hwrites {ls ls' : Keywords} {ws : List (FieldDescriptor × Option Stored)} (hls : ls'.Perm ls)
      (hws : List.Forall₂ (h.Writes t) ls ws) : ∃ ws', List.Forall₂ (h.Writes t) ls' ws' ∧ ws'.Perm ws :=
    List.perm_comp_forall₂ hls hws
  have hfields {ws : List (FieldDescriptor × Option Stored)} (hws : List.Forall₂ (h.Writes t) ks ws) :
      ws.map (·.1) = fs := fields_of_writes hws hnames
  refine ⟨⟨?_, ?_⟩, ?_, ?_, construct_eq hnames', ?_, ?_⟩
  · rintro ⟨v, g, hrun⟩
    obtain ⟨-, ws, hws, -⟩ := construct_building hc hnames' hvalues' hrun
    obtain ⟨ws', hws', -⟩ := hwrites hperm hws
    exact exists_construct hc hnames hvalues hws'
  · rintro ⟨v, g, hrun⟩
    obtain ⟨-, ws, hws, -⟩ := construct_building hc hnames hvalues hrun
    obtain ⟨ws', hws', -⟩ := hwrites hperm.symm hws
    exact exists_construct hc hnames' hvalues' hws'
  · intro v g hrun
    -- the new message holds the writes of the keywords, one after another
    obtain ⟨rfl, ws, -, hb⟩ := construct_building hc hnames hvalues hrun
    exact ⟨_, _, rfl, hb.fresh, hb.has, hb.contents⟩
  · intro r r' g g' m m' hrun hm hrun' hm'
    obtain ⟨hr, ws, hws, hb⟩ := construct_building hc hnames hvalues hrun
    obtain ⟨hr', ws', hws', hb'⟩ := construct_building hc hnames' hvalues' hrun'
    cases hr
    cases hr'
    obtain rfl := Except.ok.inj (hb.contents.symm.trans hm)
    obtain rfl := Except.ok.inj (hb'.contents.symm.trans hm')
    exact Message.sameFields_of_perm (hfields hws ▸ hfs) (perm_of_writes hperm hws hws')
  · intro r g m hrun hm f hf hnot
    obtain ⟨hr, ws, hws, hb⟩ := construct_building hc hnames hvalues hrun
    cases hr
    obtain rfl := Except.ok.inj (hb.contents.symm.trans hm)
    have hunset : (ws.foldl Message.assign (.empty t.descriptor)).stored? f = none := by
      refine Option.eq_none_iff_forall_not_mem.2 fun s hs => ?_
      have hmem := (Message.stored?_foldl_assign (hfields hws ▸ hfs) hf s).1 hs
      exact hnot (hfields hws ▸ List.mem_map.2 ⟨_, hmem, rfl⟩)
    refine ⟨hunset, ?_⟩
    unfold Message.has
    rw [hunset]
    rfl
  · intro k _
    have hnone : Keywords.Name t.descriptor [] [] := .nil
    have hrun := construct_run (h := k) hnone
    exact ⟨_, _, hrun, (k.building_newMessage t).contents⟩

end Heap

namespace Sample

def nodeDepthField : FieldDescriptor := ⟨node, field "depth" 3 (.scalar .int32) false none⟩

/-- A depth and a list of items. -/
def depthAndItems : Keywords := [("depth", .int 7), ("items", .tuple [.int 1, .int 2])]

/-- A node is made of a depth and of items, in either order. -/
theorem node_of_keywords : Heap.Reachable {pool} edited ∧
    depthAndItems.Name node [nodeDepthField, itemsField] ∧ node.Apart [nodeDepthField, itemsField] ∧
    (∀ k ∈ depthAndItems, k.2.Within edited) ∧ depthAndItems.Perm depthAndItems.reverse ∧
    (∃ v g, (Script.construct ⟨node, {}⟩ [] depthAndItems).run edited = (.ok v, g)) ∧
    Heap.KeywordsCommute {pool} edited ⟨node, {}⟩ [nodeDepthField, itemsField] depthAndItems
      depthAndItems.reverse := by
  have hnames : depthAndItems.Name node [nodeDepthField, itemsField] := .cons rfl (.cons rfl .nil)
  have hapart : node.Apart [nodeDepthField, itemsField] := by
    refine ⟨fun f hf => ?_, ?_, fun f hf g _ hrivals => ?_⟩
    · rcases List.mem_pair.1 hf with rfl | rfl
      · exact .tail _ (.tail _ (.head _))
      · exact .tail _ (.tail _ (.tail _ (.head _)))
    · refine List.nodup_cons.2 ⟨fun he => ?_, List.nodup_singleton _⟩
      exact absurd (congrArg FieldDescriptor.number (List.mem_singleton.1 he)) (by decide)
    · have hone := (FieldDescriptor.rivals_iff.1 hrivals).1
      rcases List.mem_pair.1 hf with rfl | rfl <;> exact absurd hone (by decide)
  have hnumber (n : Int) : (Value.int n).Within edited := Value.within_of_place?_none nofun rfl
  have hvalues : ∀ k ∈ depthAndItems, k.2.Within edited := by
    refine List.forall_mem_cons.2 ⟨hnumber 7, List.forall_mem_singleton.2 ?_⟩
    refine Value.within_tuple.2 fun v hv => ?_
    rcases List.mem_pair.1 hv with rfl | rfl
    · exact hnumber 1
    · exact hnumber 2
  have hperm : depthAndItems.Perm depthAndItems.reverse := (List.reverse_perm depthAndItems).symm
  exact ⟨reachable_edited, hnames, hapart, hvalues, hperm, ⟨_, _, rfl⟩,
    Heap.Reachable.construct_commutes reachable_edited hnames hapart hvalues hperm⟩

end Sample

end Protoscript
