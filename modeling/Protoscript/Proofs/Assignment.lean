import Protoscript.Proofs.Deciding
import Protoscript.Proofs.Reachable

/-!
# Assignment

Writing a field drops the views of the field and of the other members of its oneof. When a value is
written these members are unset anyway. When the field is unset they are not, and what their views
had not written back yet is lost.

* `Message.Assigned` — what an assignment should do to the contents of a message;
* `Script.setField_contents` — what it does;
* `Script.setField_assigned_iff` — it does what it should unless it loses edits of a sibling.
-/

namespace Protoscript

/-- What an assignment should do to the contents of a message: the field holds what was written, the
other members of its oneof are unset if anything was, and every other field is as it was. -/
structure Message.Assigned (before : Message) (f : FieldDescriptor) (stored : Option Stored)
    (after : Message) : Prop where
  descriptor : after.descriptor = before.descriptor
  written : after.stored? f = stored
  unselected (hs : stored ≠ none) : ∀ g ∈ f.siblings, after.stored? g = none
  kept : ∀ g ∈ before.descriptor.fields, g ≠ f → (stored = none ∨ g ∉ f.siblings) →
    after.stored? g = before.stored? g

namespace Script

variable {pools : Set Pool} {h h' : Heap} {r : Ref .message} {name : String} {value : Value}

/-! ## What is written -/

/-- **Only the absent value unsets a field.** -/
theorem storedFor_none_iff {f : FieldDescriptor} {config : Config} {stored : Option Stored}
    {mid : Heap} (hrun : (storedFor f value config).run h = (.ok stored, mid)) :
    stored = none ↔ value = .absent := by
  unfold storedFor at hrun
  have refused {e : Error} {s : Option Stored} {g : Heap}
      (hthrow : (throw e : Script (Option Stored)).run h = (.ok s, g)) : False := by cases hthrow
  split at hrun
  · split at hrun
    · exact (refused hrun).elim
    · rename_i hne
      obtain ⟨view, mid', -, hrun⟩ := bind_ok.1 hrun
      obtain ⟨s, mid'', -, hrun⟩ := bind_ok.1 hrun
      cases hrun
      exact ⟨nofun, fun e => absurd e hne⟩
  split at hrun
  · split at hrun
    · exact (refused hrun).elim
    · rename_i hne
      obtain ⟨view, mid', -, hrun⟩ := bind_ok.1 hrun
      obtain ⟨s, mid'', -, hrun⟩ := bind_ok.1 hrun
      cases hrun
      exact ⟨nofun, fun e => absurd e hne⟩
  unfold scalarFor at hrun
  split at hrun
  · split at hrun
    · cases hrun
      exact ⟨fun _ => rfl, fun _ => rfl⟩
    · exact (refused hrun).elim
  · rename_i hne
    obtain ⟨s, mid', -, hrun⟩ := bind_ok.1 hrun
    cases hrun
    exact ⟨nofun, fun e => absurd e hne⟩

/-- **What an assignment does.** The field and the other members of its oneof hold what the message
stores after the write; every other field holds what it held, edits of its view included. -/
theorem setField_contents (hc : h.Closed) (hr : h.Has ⟨.message, r⟩) (hv : value.Within h)
    {before : Message} (hrun : (setField r name value).run h = (.ok (), h')) (hbefore : h.contents r = .ok before) :
    ∃ f stored mid after, (h.cell r).content.descriptor.field? name = some f ∧
      (storedFor f value (h.cell r).config).run h = (.ok stored, mid) ∧
      h'.contents r = .ok after ∧ after.descriptor = before.descriptor ∧
      ∀ g ∈ before.descriptor.fields,
        (f.Decides g → after.stored? g =
          (stored.elim ((h.cell r).content.clear f) ((h.cell r).content.set f)).stored? g) ∧
        (¬ f.Decides g → after.stored? g = before.stored? g) := by
  obtain ⟨hthawed, f, hf⟩ := field_of_setField hrun
  obtain ⟨stored, mid, hstored, hput⟩ := (setField_ok hf hthawed).1 hrun
  have hfields : f ∈ (h.cell r).content.descriptor.fields := (MessageDescriptor.field?_eq_some.1 hf).1
  have hruns : Runs Set.univ ∅ h (storedFor f value (h.cell r).config) _ :=
    storedFor_runs hc (.message hr hfields) hv
  have hg : h.Grows mid := (hruns.ok hstored).1
  let content := stored.elim ((h.cell r).content.clear f) ((h.cell r).content.set f)
  have hd : content.descriptor = (h.cell r).content.descriptor := by
    cases stored with
    | none => rfl
    | some s => exact Message.descriptor_set _ f s
  have hcell : h'.cell r = { h.cell r with
      content := content, views := keptViews f (h.cell r).views } := by
    rw [hput, Heap.cell_put_self _ _ _ (hg.has hr)]
  -- the views that stay write back what they did before
  rw [Heap.contents_eq, Except.map_ok] at hbefore
  obtain ⟨ws, hws, rfl⟩ := hbefore
  obtain ⟨ws', hws', hsame⟩ := Message.stored?_writeAll_filter (fun v : String × Value =>
    v.1 != f.name && !(f.oneofMembers.any fun g => g.name == v.1)) hws
  have hwrite {view : String × Value} (hview : view ∈ keptViews f (h.cell r).views) :
      h'.write r view = h.write r view := by
    rw [hput]
    exact hg.put_write hc hr hd (List.mem_filter.1 hview).1
  have hafter : h'.contents r = .ok (content.writeAll ws') := by
    rw [Heap.contents_eq, hcell, Except.mapM_congr fun view hview => hwrite hview]
    exact Except.map_ok.2 ⟨ws', hws', rfl⟩
  refine ⟨f, stored, mid, _, hf, hstored, hafter, ?_, fun g hgfields => ?_⟩
  · rw [Message.descriptor_writeAll, Message.descriptor_writeAll, hd]
  rw [Message.descriptor_writeAll] at hgfields
  have hmem {k : FieldDescriptor} {view : String × Value}
      (hk : (h.cell r).content.descriptor.field? view.1 = some k) :
      k ∈ (h.cell r).content.descriptor.fields ∧ g ∈ k.message.fields ∧ k.name = view.1 := by
    obtain ⟨hkfields, hname⟩ := MessageDescriptor.field?_eq_some.1 hk
    exact ⟨hkfields, (MessageDescriptor.mem_fields.1 hkfields).1 ▸ hgfields, hname⟩
  constructor
  · intro hdecides
    refine Message.stored?_writeAll_of_not_decides _ fun k s hks => ?_
    obtain ⟨view, hview, hw⟩ := exists_of_forall₂ (Except.mapM_ok.1 hws') hks
    obtain ⟨hkfields, hgk, hname⟩ := hmem (Heap.field_of_write hw)
    refine ⟨hgk, fun hkg => ?_⟩
    have hkeep := (List.mem_filter.1 hview).2
    rw [← hname] at hkeep
    exact (FieldDescriptor.kept_iff hfields hkfields).1 hkeep
      (hdecides.trans hfields hgfields hkfields (hkg.symm hkfields hgfields))
  · intro hnot
    refine hsame _ _ g ?_ fun view hview k s hw => ?_
    · have hgf : g ∈ f.message.fields := (MessageDescriptor.mem_fields.1 hfields).1 ▸ hgfields
      cases stored with
      | none => exact (Message.stored?_clear_of_ne _ fun e => hnot (.inl e)).symm
      | some s => exact (Message.stored?_set_of_not_decides hgf _ hnot s).symm
    · obtain ⟨hkfields, hgk, hname⟩ := hmem (Heap.field_of_write hw)
      refine ⟨hgk, fun hdrop hkg => ?_⟩
      have hfk : f.Decides k := by
        rw [← Classical.not_not (a := f.Decides k), ← FieldDescriptor.kept_iff hfields hkfields,
          hname]
        simpa using hdrop
      exact hnot (hfk.trans hfields hkfields hgfields hkg)

/-- **When an assignment does what it should.** Always, if something was written; if the field was
unset, only if the views of the other members of its oneof had no edits to write back. -/
theorem setField_assigned_iff (hh : Heap.Reachable pools h) (hr : h.Has ⟨.message, r⟩)
    (hv : value.Within h) {before : Message} (hrun : (setField r name value).run h = (.ok (), h'))
    (hbefore : h.contents r = .ok before) :
    ∃ f stored mid after, (h.cell r).content.descriptor.field? name = some f ∧
      (storedFor f value (h.cell r).config).run h = (.ok stored, mid) ∧
      (stored = none ↔ value = .absent) ∧ h'.contents r = .ok after ∧
      (before.Assigned f stored after ↔
        (value = .absent → ∀ g ∈ f.siblings, before.stored? g = (h.cell r).content.stored? g)) := by
  obtain ⟨f, stored, mid, after, hf, hstored, hafter, hd, hfields⟩ :=
    setField_contents hh.closed hr hv hrun hbefore
  have hnone := storedFor_none_iff hstored
  have hbd : before.descriptor = (h.cell r).content.descriptor := by
    rw [Heap.contents_eq, Except.map_ok] at hbefore
    obtain ⟨ws, -, rfl⟩ := hbefore
    exact Message.descriptor_writeAll _ ws
  have hff : f ∈ before.descriptor.fields := by
    rw [hbd]
    exact (MessageDescriptor.field?_eq_some.1 hf).1
  have hfm : f.message = before.descriptor := (MessageDescriptor.mem_fields.1 hff).1
  have hsibling {g : FieldDescriptor} (hg : g ∈ f.siblings) :
      g ∈ before.descriptor.fields ∧ g.number ≠ f.number ∧ f.Decides g := by
    obtain ⟨-, hgf, -, hne⟩ := FieldDescriptor.rivals_iff.1 (show f.Rivals g from hg)
    exact ⟨hfm ▸ hgf, hne, .inr hg⟩
  refine ⟨f, stored, mid, after, hf, hstored, hnone, hafter, ?_⟩
  have hself := (hfields f hff).1 (.inl rfl)
  have hother {g : FieldDescriptor} (hg : g ∈ before.descriptor.fields) (hne : g ≠ f)
      (hgs : g ∉ f.siblings) : after.stored? g = before.stored? g :=
    (hfields g hg).2 fun hdec => hdec.elim
      (fun hnum => hne (MessageDescriptor.eq_of_number hg hff hnum)) hgs
  -- a write decides the whole oneof; unsetting leaves its other members as they are stored
  cases stored with
  | some s =>
    have hne : value ≠ .absent := fun e => absurd (hnone.2 e) nofun
    refine ⟨fun _ e => absurd e hne, fun _ => ⟨hd, ?_, fun _ g hg => ?_, fun g hg hne hgs => ?_⟩⟩
    · exact hself.trans (Message.stored?_set_self _ rfl s)
    · exact ((hfields g (hsibling hg).1).1 (hsibling hg).2.2).trans
        (Message.stored?_set_of_rivals _ hg s)
    · exact hother hg hne (hgs.resolve_left nofun)
  | none =>
    have hkeep {g : FieldDescriptor} (hg : g ∈ f.siblings) :
        after.stored? g = (h.cell r).content.stored? g :=
      ((hfields g (hsibling hg).1).1 (hsibling hg).2.2).trans
        (Message.stored?_clear_of_ne _ (hsibling hg).2.1)
    constructor
    · intro ha _ g hg
      obtain ⟨hgf, hne, -⟩ := hsibling hg
      rw [← ha.kept g hgf (fun e => hne (by rw [e])) (.inl rfl), hkeep hg]
    · intro hsame
      refine ⟨hd, hself.trans (Message.stored?_clear_self _ rfl), fun e => absurd rfl e,
        fun g hg hne _ => ?_⟩
      by_cases hgs : g ∈ f.siblings
      · rw [hkeep hgs, hsame (hnone.1 rfl) g hgs]
      · exact hother hg hne hgs

end Script

namespace Sample

theorem contents_right : edited.contents right = .ok (.mk node [(3, .scalar (.i32 5))] []) := by
  rw [Heap.contents_eq]
  rfl

theorem contents_root : edited.contents root =
    .ok (.mk node [(2, .message (.mk node [(3, .scalar (.i32 5))] []))] []) := by
  have hright : edited.follow root right = .ok (.mk node [(3, .scalar (.i32 5))] []) := contents_right
  have hwrite : edited.write root ("right", .message right) =
      .ok (some (rightField, .message (.mk node [(3, .scalar (.i32 5))] []))) := by
    rw [Heap.write_of_field (f := rightField) rfl]
    change (Except.map _ (edited.follow root right)).map _ = _
    rw [hright]
    rfl
  have hwrites : (edited.cell root).views.mapM (edited.write root) =
      .ok [some (rightField, .message (.mk node [(3, .scalar (.i32 5))] []))] :=
    Except.mapM_ok.2 (.cons hwrite .nil)
  rw [Heap.contents_eq, hwrites]
  rfl

/-- Writing the depth of the root does what it should. -/
theorem set_depth_assigned : Heap.Reachable {pool} edited ∧ ∃ h' before f stored after,
    (Script.setField root "depth" (.int 3)).run edited = (.ok (), h') ∧
    edited.contents root = .ok before ∧ node.field? "depth" = some f ∧
    h'.contents root = .ok after ∧ before.Assigned f stored after := by
  have hroot : edited.Has ⟨.message, root⟩ := (by decide : 0 < edited.messages.size)
  obtain ⟨f, stored, mid, after, hf, -, -, hafter, hiff⟩ :=
    Script.setField_assigned_iff reachable_edited hroot
      (Value.within_of_place?_none (by simp) rfl)
      (show (Script.setField root "depth" (.int 3)).run edited = (.ok (), _) from rfl) contents_root
  exact ⟨reachable_edited, _, _, f, stored, after, rfl, contents_root, hf, hafter, hiff.2 nofun⟩

/-- **Unsetting a member of a oneof that is unset loses edits** of the view of the member that is
set: the right side of the node was edited, the left side is unset, and the edit is gone. -/
theorem unset_left_loses_edit :
    Heap.Reachable {pool} edited ∧ ∃ h' before after,
      (Script.setField root "left" .absent).run edited = (.ok (), h') ∧
      edited.contents root = .ok before ∧ h'.contents root = .ok after ∧
      ¬ before.Assigned leftField none after := by
  have hafter : (edited.put root { content := tree, config := {} }).contents root = .ok tree := by
    rw [Heap.contents_eq]
    rfl
  refine ⟨reachable_edited, _, _, tree, rfl, contents_root, hafter, fun ha => ?_⟩
  have hne : rightField ≠ leftField := fun e => absurd (congrArg FieldDescriptor.number e) (by decide)
  have hkept := ha.kept rightField (.tail _ (.head _)) hne (.inl rfl)
  cases hkept

end Sample

end Protoscript
