import Protoscript.Proofs.InStep
import Protoscript.Proofs.MergeLaws

/-!
# Merging, field by field

What a message holds after another one of its type was merged into it is told for each field from what
the field held in the two, by the shape of the field and by which fields are set.

* `Message.Merged` — the rule: what a third message holds under every field;
* `MessageDescriptor.Takes.merged` — merging follows it, at every depth;
* `Heap.contents_put_message` — a message keeps its content if another one, to which it does not lead, is
  overwritten;
* `Heap.Reachable.merge_fieldwise` — the rule for messages of a heap, with what their views hold.

The rule is about messages that conform to their type. In a run with one pool all messages do; a message
of another pool that was merged in may leave others.
-/

namespace Protoscript

/-- What a message `r` holds if `s` was merged into `d`. A field of which `s` has another member of the
oneof set is unset, whatever its shape. -/
inductive Message.Merged : Message → Message → Message → Prop
  | mk {d s r : Message}
      (descriptor : r.descriptor = d.descriptor)
      (lists : ∀ f ∈ d.descriptor.fields, f.isList = true → ¬ s.Displaces f →
        ∃ xs ys, d.get f = .list xs ∧ s.get f = .list ys ∧ r.get f = .list (xs ++ ys))
      (maps : ∀ f ∈ d.descriptor.fields, f.isMap = true → ¬ s.Displaces f →
        ∃ xs ys zs, d.get f = .map xs ∧ s.get f = .map ys ∧ r.get f = .map zs ∧
          ∀ key, lookupKey key zs = (lookupKey key ys).or (lookupKey key xs))
      (messages : ∀ f ∈ d.descriptor.fields, ∀ x y, d.stored? f = some (.message x) →
        s.stored? f = some (.message y) → ∃ z, r.stored? f = some (.message z))
      (inside : ∀ f ∈ d.descriptor.fields, ∀ x y z, d.stored? f = some (.message x) →
        s.stored? f = some (.message y) → r.stored? f = some (.message z) → Message.Merged x y z)
      (others : ∀ f ∈ d.descriptor.fields, f.isList = false → f.isMap = false → s.has f = true →
        (∀ x y, d.stored? f = some (.message x) → s.stored? f ≠ some (.message y)) →
        r.stored? f = s.stored? f)
      (kept : ∀ f ∈ d.descriptor.fields, s.has f = false → ¬ s.Displaces f → r.stored? f = d.stored? f)
      (displaced : ∀ f ∈ d.descriptor.fields, s.Displaces f → r.stored? f = none)
      (selected : ∀ f ∈ d.descriptor.fields, r.Displaces f → r.has f = false) :
      Message.Merged d s r

namespace MessageDescriptor.Takes

variable {d : MessageDescriptor} {dst src m : Message} {f : FieldDescriptor}

/-- A list or map that is not set reads as an empty one. -/
theorem get_isDefaultOf_of_not_has (hshape : f.isList = true ∨ f.isMap = true)
    (hunset : m.has f = false) : (m.get f).isDefaultOf f = true := by
  rcases hs : m.stored? f with _ | s
  · rw [Message.get_of_none hs]
    rcases hshape with hlist | hmap
    · simp [Stored.defaultOf_list hlist, hlist, Stored.isDefaultOf]
    · simp [Stored.defaultOf_map hmap, hmap, Stored.isDefaultOf]
  · rw [Message.get_of_stored? rfl hs]
    exact Message.isDefaultOf_of_not_has hs hunset

/-- **Lists and maps**: what was merged in is laid over what the field read as. -/
theorem get_merge (hdst : d.Takes dst) (hsrc : d.Takes src) (hf : f ∈ d.fields)
    (hshape : f.isList = true ∨ f.isMap = true) (hno : ¬ src.Displaces f) :
    (dst.merge src).get f = (src.get f).over (some (dst.get f)) := by
  by_cases hset : src.has f = true
  · obtain ⟨s, hs⟩ := Option.isSome_iff_exists.1 (Message.isSome_of_has hset)
    have hmerged := hdst.stored?_merge_of_has hsrc hf hset
    rw [hs, Option.map_some] at hmerged
    rw [Message.get_of_stored? rfl hmerged, Message.get_of_stored? rfl hs]
    rcases ht : dst.stored? f with _ | t
    · have hunset : dst.has f = false := Message.has_of_none ht
      rw [Stored.over_none,
        (hsrc.stored hf hs).over_default (get_isDefaultOf_of_not_has hshape hunset)]
    · rw [Message.get_of_stored? rfl ht]
  · have hunset : src.has f = false := by simpa using hset
    have hempty := get_isDefaultOf_of_not_has hshape hunset
    rw [Message.get_congr (hsrc.stored?_merge_of_not_displaces hf hunset hno)]
    rcases hshape with hlist | hmap
    · obtain ⟨xs, hxs, -⟩ := (hdst.get hf).items hlist
      obtain ⟨ys, hys, -⟩ := (hsrc.get hf).items hlist
      rw [hys] at hempty ⊢
      simp only [Stored.isDefaultOf, hlist, Bool.true_and, List.isEmpty_iff] at hempty
      rw [hxs, hempty, Stored.over, List.append_nil]
    · obtain ⟨xs, hxs, -⟩ := (hdst.get hf).entries hmap
      obtain ⟨ys, hys, -⟩ := (hsrc.get hf).entries hmap
      rw [hys] at hempty ⊢
      simp only [Stored.isDefaultOf, hmap, Bool.true_and, List.isEmpty_iff] at hempty
      rw [hxs, hempty, Stored.over, List.foldl_nil]

/-- **Anything else** that is set replaces what the field held, unless both hold messages. -/
theorem stored?_merge_of_replaces (hdst : d.Takes dst) (hsrc : d.Takes src) (hf : f ∈ d.fields)
    (hlist : f.isList = false) (hmap : f.isMap = false) (hset : src.has f = true)
    (hno : ∀ x y, dst.stored? f = some (.message x) → src.stored? f ≠ some (.message y)) :
    (dst.merge src).stored? f = src.stored? f := by
  obtain ⟨s, hs⟩ := Option.isSome_iff_exists.1 (Message.isSome_of_has hset)
  rw [hdst.stored?_merge_of_has hsrc hf hset, hs, Option.map_some]
  refine congrArg some ?_
  have hkind := (hsrc.stored hf hs).kind hmap hlist
  rcases s with x | y | items | entries
  · exact Stored.over_scalar x _
  · rcases ht : dst.stored? f with _ | ⟨x | x | items | entries⟩
    · exact Stored.over_none _
    · rfl
    · exact absurd hs (hno x y ht)
    · rfl
    · rfl
  · exact absurd hkind Kind.Holds.not_list
  · exact absurd hkind Kind.Holds.not_map

/-- **Merging follows the rule.** The induction is on the message merged in; only messages that are set
in both go deeper. -/
theorem merged {d : MessageDescriptor} {dst src : Message} (hdst : d.Takes dst) (hsrc : d.Takes src) :
    dst.Merged src (dst.merge src) := by
  have hmerged := hdst.merge hsrc
  -- messages that are set in both are merged in turn
  have both {f : FieldDescriptor} (hf : f ∈ d.fields) {x y : Message}
      (hx : dst.stored? f = some (.message x)) (hy : src.stored? f = some (.message y)) :
      (dst.merge src).stored? f = some (.message (x.merge y)) := by
    obtain ⟨e, hkind, -⟩ := (hsrc.stored hf hy).messageType
    have hset : src.has f = true := by
      cases hsrc.stored hf hy with
      | single hmap hlist => exact Message.has_of_message hmap hlist hkind hy
    rw [hdst.stored?_merge_of_has hsrc hf hset, hy, hx, Option.map_some, Stored.over]
  refine .mk (Message.descriptor_merge dst src) (fun f hf hlist hno => ?lists)
    (fun f hf hmap hno => ?maps) (fun f hf x y hx hy => ⟨_, both (hdst.descriptor ▸ hf) hx hy⟩)
    (fun f hf x y z hx hy hz => ?inside)
    (fun f hf => hdst.stored?_merge_of_replaces hsrc (hdst.descriptor ▸ hf))
    (fun f hf => hsrc.stored?_merge_of_not_displaces (hdst.descriptor ▸ hf))
    (fun f hf => hsrc.stored?_merge_of_displaces (hdst.descriptor ▸ hf))
    (fun f hf => hmerged.has_of_displaces (hdst.descriptor ▸ hf))
  all_goals rw [hdst.descriptor] at hf
  case lists =>
    obtain ⟨xs, hxs, -⟩ := (hdst.get hf).items hlist
    obtain ⟨ys, hys, -⟩ := (hsrc.get hf).items hlist
    refine ⟨xs, ys, hxs, hys, ?_⟩
    rw [hdst.get_merge hsrc hf (.inl hlist) hno, hxs, hys, Stored.over]
  case maps =>
    obtain ⟨xs, hxs, -⟩ := (hdst.get hf).entries hmap
    obtain ⟨ys, hys, -, -, hsorted⟩ := (hsrc.get hf).entries hmap
    refine ⟨xs, ys, _, hxs, hys, ?_, fun key => lookupKey_overlay (nodup_of_before hsorted)⟩
    rw [hdst.get_merge hsrc hf (.inr hmap) hno, hxs, hys, Stored.over]
  case inside =>
    cases hz.symm.trans (both hf hx hy)
    obtain ⟨e, hkind, hy'⟩ := (hsrc.stored hf hy).messageType
    have hlt : sizeOf y < sizeOf src := by
      have := Message.sizeOf_stored?_lt hy
      simp only [Stored.message.sizeOf_spec] at this
      omega
    exact merged ((hdst.stored hf hx).sameType hkind) hy'
termination_by sizeOf src
decreasing_by
  exact hlt

end MessageDescriptor.Takes

/-! ## Messages of a heap -/

namespace Heap

variable {pools : Set Pool} {h h' : Heap} {r q : Ref .message}

/-- **A message keeps its content** if another one, to which it does not lead, is overwritten by one of
the same type. -/
theorem contents_put_message (hc : h.Closed) (hr : h.Has ⟨.message, r⟩) (hq : h.Has ⟨.message, q⟩)
    (hno : ¬ h.Leads (.message r) ⟨.message, q⟩) {c : MessageCell}
    (htype : c.content.descriptor = (h.cell q).content.descriptor) :
    (h.put q c).contents r = h.contents r := by
  have hwithin : (Value.message r).Within h := within_of_ref? rfl hr
  have hS := matches_of_leads hc hwithin (keepsTypes_put hq htype) fun p hp =>
    cell_put_of_place_ne h (fun hpq => hno (hpq ▸ hp)) c
  exact (hS.contents (.here rfl) (Nat.zero_le _)).eq

/-- **Merging, field by field.** If merging succeeds, both messages could be flushed, the destination
holds what the rule tells from what they held, and the source holds what it held, unless the destination
is the source or held inside it. Messages conform to their type throughout a run with one pool. -/
theorem Reachable.merge_fieldwise {dst src : Ref .message} (hh : Reachable pools h)
    (hdst : h.Has ⟨.message, dst⟩) (hsrc : h.Has ⟨.message, src⟩)
    (hsame : (h.cell src).content.descriptor = (h.cell dst).content.descriptor)
    (hrun : (Script.mergeMessage dst src).run h = (.ok (), h')) :
    ∃ d s r, h.contents dst = .ok d ∧ h.contents src = .ok s ∧ h'.contents dst = .ok r ∧
      (d.Conforms → s.Conforms → d.Merged s r) ∧
      (∀ p, pools = {p} → d.Conforms ∧ s.Conforms) ∧
      (¬ h.Leads (.message src) ⟨.message, dst⟩ → h'.contents src = .ok s) := by
  -- the merge overwrites the contents as a whole and drops the views
  rcases Script.run_mergeMessage_cases h dst src with ⟨e, he⟩ | ⟨d, s, hd, hs, hok⟩
  · cases he.symm.trans hrun
  · cases hok.symm.trans hrun
    have htype : (d.merge s).descriptor = (h.cell dst).content.descriptor := by
      rw [Message.descriptor_merge, descriptor_contents hd]
    refine ⟨d, s, d.merge s, hd, hs, ?_, fun hdc hsc => ?_, ?_, fun hno => ?_⟩
    · have hcell := cell_put_self h dst { h.cell dst with content := d.merge s, views := [] } hdst
      rw [contents_of_views_eq_nil (by rw [hcell]), hcell]
    · have hdescriptor : s.descriptor = d.descriptor := by
        rw [descriptor_contents hs, descriptor_contents hd, hsame]
      exact MessageDescriptor.Takes.merged ⟨rfl, hdc⟩ ⟨hdescriptor, hsc⟩
    · rintro p rfl
      exact ⟨(hh.typed.contents hh.closed hdst hd).conforms, (hh.typed.contents hh.closed hsrc hs).conforms⟩
    · rw [contents_put_message hh.closed hsrc hdst hno htype, hs]

end Heap

/-! ## Nodes and choices -/

namespace Sample

/-- The right side of the node was edited through its view, which does not lead back to the node. -/
theorem right_apart_root : ¬ edited.Leads (.message right) ⟨.message, root⟩ := by
  intro hleads
  cases hleads with
  | here hv => cases hv
  | through hv hw =>
    cases hv
    exact absurd hw List.not_mem_nil

/-- The right side of a node, edited through its view, is merged into the node that holds it. -/
theorem right_merged_into_node :
    Heap.Reachable {pool} edited ∧ edited.Has ⟨.message, root⟩ ∧ edited.Has ⟨.message, right⟩ ∧
      (edited.cell right).content.descriptor = (edited.cell root).content.descriptor ∧
      ∃ h' d s r, (Script.mergeMessage root right).run edited = (.ok (), h') ∧
        edited.contents root = .ok d ∧ edited.contents right = .ok s ∧ h'.contents root = .ok r ∧
        d.Merged s r ∧ h'.contents right = .ok s := by
  have hroot : edited.Has ⟨.message, root⟩ := (by decide : 0 < 2)
  have hright : edited.Has ⟨.message, right⟩ := (by decide : 1 < 2)
  have hinside : edited.contents right = .ok (.mk node [(3, .scalar (.i32 5))] []) :=
    Heap.contents_of_views_eq_nil rfl
  obtain ⟨m, hm, -⟩ := reachable_edited.exists_contents (by decide) hroot
  have hrun := Script.run_mergeMessage hm hinside rfl rfl
  obtain ⟨d, s, r, hd, hs, hr, hmerged, hconform, hkeeps⟩ :=
    reachable_edited.merge_fieldwise hroot hright rfl hrun
  obtain ⟨hdc, hsc⟩ := hconform pool rfl
  exact ⟨reachable_edited, hroot, hright, rfl, _, d, s, r, hrun, hd, hs, hr, hmerged hdc hsc,
    hkeeps right_apart_root⟩

/-- A pool in which a node may have both sides. -/
def loosePool : Pool where
  id := 15
  messages := [{
    name := "Node"
    fullName := "Node"
    package := ""
    edition := .proto3
    parent := none
    isMapEntry := false
    fields := [field "left" 1 (.message 0) false (some 0), field "right" 2 (.message 0) false (some 1)]
    nodup_numbers := by decide
    nodup_names := by decide }]
  enums := []
  nodup_names := by decide
  kinds_within := by decide

def looseNode : MessageDescriptor := ⟨loosePool, 0⟩

/-- A node with both sides. -/
def sides : Message :=
  .mk looseNode [(1, .message (.empty looseNode)), (2, .message (.empty looseNode))] []

/-- A node that took the sides over. -/
def bothSides : Message :=
  .mk node [(1, .message (.empty looseNode)), (2, .message (.empty looseNode))] []

theorem conforms_sides : sides.Conforms :=
  ((Message.Conforms.empty looseNode).set
    (f := ⟨looseNode, field "left" 1 (.message 0) false (some 0)⟩) (.head _)
    (.single rfl rfl (.message rfl (.empty looseNode)))).set
    (f := ⟨looseNode, field "right" 2 (.message 0) false (some 1)⟩) (.tail _ (.head _))
    (.single rfl rfl (.message rfl (.empty looseNode)))

/-- After a node of the other pool was merged into an empty one. -/
def tookSides : Heap :=
  (handed (.empty node) sides (.empty node)).put root { content := bothSides, config := {} }

theorem reachable_tookSides : Heap.Reachable {pool, loosePool} tookSides := by
  have step {h : Heap} {m : Message} (hh : Heap.Reachable {pool, loosePool} h)
      (hamong : m.descriptor.Among {pool, loosePool}) (hm : m.Conforms) :
      Heap.Reachable {pool, loosePool} ((Operation.wrap ⟨pool, {}⟩ m).run h).2 :=
    hh.tail (.operation _ ⟨nofun, nofun, hamong, hm⟩)
  have hnode : node.Among {pool, loosePool} := ⟨.inl rfl, by decide⟩
  have hhanded : Heap.Reachable {pool, loosePool} (handed (.empty node) sides (.empty node)) :=
    step (m := .empty node) (step (m := sides) (step (m := .empty node) .refl hnode (.empty node))
      ⟨.inr rfl, by decide⟩ conforms_sides) hnode (.empty node)
  let op : Operation Value :=
    .call (.callable (.function ⟨0, ⟨pool, {}⟩⟩ .merge)) [.message root, .message right] []
  have hop : op.Within {pool, loosePool} (handed (.empty node) sides (.empty node)) := by
    refine within_of_given (List.forall_mem_cons.2 ⟨?_, List.forall_mem_cons.2
      ⟨given_message _ (by decide), List.forall_mem_singleton.2 (given_message _ (by decide))⟩⟩) trivial
    have hno : ∀ items, Value.callable (.function ⟨0, ⟨pool, {}⟩⟩ .merge) ≠ .tuple items := nofun
    exact ⟨(Value.all_iff hno).2 fun _ hp => (by cases hp),
      (Value.all_iff hno).2 ⟨fun _ hp => .inl (Option.some.inj hp.symm), fun _ he => (by cases he)⟩⟩
  have hmerge : (Script.mergeMessage root right).run (handed (.empty node) sides (.empty node)) =
      (.ok (), tookSides) := by
    have hempty : (handed (.empty node) sides (.empty node)).contents root = .ok (.empty node) :=
      Heap.contents_of_views_eq_nil rfl
    have hsides : (handed (.empty node) sides (.empty node)).contents right = .ok sides :=
      Heap.contents_of_views_eq_nil rfl
    rw [Script.run_mergeMessage hempty hsides rfl rfl]
    have hmerged : (Message.empty node).merge sides = bothSides := (Message.merge_eq _ _).trans rfl
    exact congrArg (fun m => ((.ok (), (handed (.empty node) sides (.empty node)).put root
      { content := m, config := {} }) : Except Error Unit × Heap)) hmerged
  have hrun : (op.run (handed (.empty node) sides (.empty node))).2 = tookSides := by
    rw [Operation.run_merge, Script.run_bind, hmerge]
    rfl
  exact hrun ▸ hhanded.tail (.operation _ hop)

/-- **Where a list belongs to a oneof**, it is not kept if another member is merged in; and a node into
which a node of another pool was merged before keeps both members of a oneof. -/
theorem merged_otherwise :
    (Heap.Reachable {choices} (handed (oneChosen 1) five (.empty choice)) ∧
      ∃ h' r, (Script.mergeMessage root right).run (handed (oneChosen 1) five (.empty choice)) =
          (.ok (), h') ∧ h'.contents root = .ok r ∧
        (oneChosen 1).get choiceField = .list [.scalar (.i32 1)] ∧ five.get choiceField = .list [] ∧
        r.get choiceField ≠ .list [.scalar (.i32 1)]) ∧
    Heap.Reachable {pool, loosePool} tookSides ∧
      ∃ h' r, (Script.mergeMessage root third).run tookSides = (.ok (), h') ∧
        (tookSides.cell third).content.descriptor = (tookSides.cell root).content.descriptor ∧
        h'.contents root = .ok r ∧ leftField ∈ rightField.siblings ∧ r.has leftField = true ∧
        r.has rightField = true := by
  have hfive : choice.Takes five := ⟨rfl, conforms_five⟩
  have hitems : (handed (oneChosen 1) five (.empty choice)).contents root = .ok (oneChosen 1) :=
    Heap.contents_of_views_eq_nil rfl
  have hdepth : (handed (oneChosen 1) five (.empty choice)).contents right = .ok five :=
    Heap.contents_of_views_eq_nil rfl
  have hboth : tookSides.contents root = .ok bothSides := Heap.contents_of_views_eq_nil rfl
  have hempty : tookSides.contents third = .ok (.empty node) := Heap.contents_of_views_eq_nil rfl
  refine ⟨⟨reachable_handed ⟨Set.mem_singleton _, by decide⟩ (takes_oneChosen 1) hfive (.empty choice),
    _, _, Script.run_mergeMessage hitems hdepth rfl rfl, Heap.contents_of_views_eq_nil rfl, rfl, rfl, ?_⟩,
    reachable_tookSides, _, _, Script.run_mergeMessage hboth hempty rfl rfl, rfl,
    Heap.contents_of_views_eq_nil rfl, .head _, ?_⟩
  · have hmerged : (oneChosen 1).merge five = five := (Message.merge_eq _ _).trans rfl
    change ((oneChosen 1).merge five).get choiceField ≠ _
    rw [hmerged]
    intro he
    cases he
  · have hmerged : bothSides.merge (.empty node) = bothSides := (Message.merge_eq _ _).trans rfl
    change (bothSides.merge (.empty node)).has leftField = true ∧
      (bothSides.merge (.empty node)).has rightField = true
    rw [hmerged]
    exact ⟨rfl, rfl⟩

end Sample

end Protoscript
