import Protoscript.Proofs.MergeLaws
import Protoscript.Proofs.Purity
import Protoscript.Proofs.Standing

/-!
# Equal messages are those with equal attributes

The equality of two messages compares what they hold, by the fields of their type; scripts can only
compare the attributes one by one. Both come to the same: what an attribute gives stands for what the
field holds, and is kept, so that it can be compared with what the other message gives next.

* `Heap.Shown.equals` — what two attributes show is equal if the messages agree on the field;
* `Script.attrEquals` — the comparison of an attribute of two values;
* `Heap.Reachable.equals_observational` — equality is an equivalence, and is equality of all attributes.
-/

namespace Protoscript

/-! ## Fields -/

/-- Whether no field of a type has a NaN for its default. -/
def MessageDescriptor.DefaultsNanFree (d : MessageDescriptor) : Prop :=
  ∀ f ∈ d.fields, ∀ s, f.defaultScalar? = some s → s.isNaN = false

section

variable {p : Pool} {f : FieldDescriptor} {config : Config}

/-- What is shown as absent while it is unset has presence, if it is no list or map. -/
theorem FieldDescriptor.Of.hasPresence_of_readsAbsent (hf : f.Of p) (hp : p.TracksPresence)
    (hmap : f.isMap = false) (hlist : f.isList = false) (habsent : f.readsAbsent config = true) :
    f.hasPresence = true := by
  have hsingle : f.info.isRepeated = false := by
    unfold isList at hlist
    simpa [hmap] using hlist
  have hkind : f.kind.isMessage = f.info.kind.isMessage := by
    unfold FieldDescriptor.kind
    cases f.info.kind <;> rfl
  rw [hf.hasPresence_eq hp]
  unfold FieldInfo.tracksPresence
  unfold readsAbsent inOneof isLegacy at habsent
  rw [hkind] at habsent
  simp only [hsingle, Bool.or_eq_true, Bool.and_eq_true, Bool.not_false, true_and] at habsent ⊢
  rcases habsent with (honeof | hmessage) | ⟨-, hproto2⟩
  · exact .inl honeof
  · exact .inr (.inl hmessage)
  · exact .inr (.inr hproto2)

/-- A field with presence that is unset reads as its default, which equals itself. -/
theorem FieldDescriptor.Of.get_unset (hf : f.Of p) (hlaw : p.Lawful)
    (hdefault : ∀ s, f.defaultScalar? = some s → s.isNaN = false) (hpresence : f.hasPresence = true)
    (hreads : f.readsAbsent config = false) {m : Message} (hunset : m.has f = false) :
    m.get f = .defaultOf f ∧ (Stored.defaultOf f).equals (.defaultOf f) = true := by
  have hsingle : f.info.isRepeated = false := by
    by_contra hrepeated
    rw [hf.no_presence hlaw (by simpa using hrepeated)] at hpresence
    cases hpresence
  have hmap : f.isMap = false := by
    unfold isMap
    rw [hsingle, Bool.false_and]
  have hlist : f.isList = false := by
    unfold isList
    rw [hsingle, Bool.false_and]
  constructor
  · rw [Message.has_of_hasPresence hpresence] at hunset
    rw [Option.isSome_eq_false_iff, Option.isNone_iff_eq_none] at hunset
    exact Message.get_of_none hunset
  · rw [Stored.defaultOf_single hmap hlist]
    have hholds := holds_singleDefault (f := f)
    unfold Stored.singleDefault at hholds ⊢
    unfold readsAbsent at hreads
    rcases hd : f.defaultScalar? with _ | s
    · rcases hk : f.kind with t | d | d <;> rw [hd, hk] at hholds
      · exact absurd hholds Kind.Holds.not_list
      · rw [hk] at hreads
        simp [Kind.isMessage] at hreads
      · exact absurd hholds Kind.Holds.not_list
    · rw [Stored.equals]
      exact Scalar.equals_self (hdefault s hd)

namespace Heap

variable {h : Heap} {d : MessageDescriptor} {x y : Message} {v w : Value}

/-- **What two attributes show is equal if the messages agree on the field**, provided that the field
is set in both or in neither if it has presence. -/
theorem Shown.equals (hkeys : p.PlainKeys) (hlaw : p.Lawful) (hp : p.TracksPresence)
    (hh : Reachable {p} h) (hf : f.Of p)
    (hdefault : ∀ s, f.defaultScalar? = some s → s.isNaN = false) (hv : h.Shown x f config v)
    (hw : h.Shown y f config w) (hself : x.AgreeOn x f)
    (hhas : f.hasPresence = true → x.has f = y.has f) :
    h.equals v w = .ok true ↔ x.AgreeOn y f := by
  have shown_of_unset {v : Value} {z : Message} (hv : h.Shown z f config v) (hmap : f.isMap = false)
      (hlist : f.isList = false) (habsent : f.readsAbsent config = true) (hunset : z.has f = false) :
      v = .absent := by
    cases hv with
    | absent => rfl
    | present _ hset =>
      rw [hset hmap hlist hunset] at habsent
      cases habsent
  cases hv with
  | absent hmap hlist hunset habsent =>
    have hpresence := hf.hasPresence_of_readsAbsent hp hmap hlist habsent
    obtain rfl := shown_of_unset hw hmap hlist habsent ((hhas hpresence).symm.trans hunset)
    refine ⟨fun _ => ⟨hhas, fun hcounts => ?_⟩, fun _ => ?_⟩
    · rw [hcounts hpresence] at hunset
      cases hunset
    · rw [Heap.equals, equalsWithin_leaf (fun _ ha => by cases ha) rfl rfl]
      rfl
  | present hx hset =>
    cases hw with
    | absent hmap hlist hunset habsent =>
      have hpresence := hf.hasPresence_of_readsAbsent hp hmap hlist habsent
      rw [hset hmap hlist ((hhas hpresence).trans hunset)] at habsent
      cases habsent
    | present hy =>
      by_cases hcounts : f.hasPresence = true → x.has f = true
      · rw [hx.equals hkeys hh hy (hself.get hcounts)]
        exact ⟨fun hequals => ⟨hhas, fun _ => hequals⟩, fun hagree => hagree.get hcounts⟩
      · -- an unset field with presence that is not shown as absent is shown as its default
        obtain ⟨hpresence, hunset⟩ := Classical.not_imp.1 hcounts
        rw [Bool.not_eq_true] at hunset
        have hsingle : f.isMap = false ∧ f.isList = false := by
          constructor <;> by_contra hno <;> rw [Bool.not_eq_false] at hno
          · rw [hf.no_presence hlaw (FieldDescriptor.isRepeated_of (.inl hno))] at hpresence
            cases hpresence
          · rw [hf.no_presence hlaw (FieldDescriptor.isRepeated_of (.inr hno))] at hpresence
            cases hpresence
        have hreads := hset hsingle.1 hsingle.2 hunset
        obtain ⟨hgetx, hequals⟩ := hf.get_unset hlaw hdefault hpresence hreads hunset
        obtain ⟨hgety, -⟩ :=
          hf.get_unset hlaw hdefault hpresence hreads ((hhas hpresence).symm.trans hunset)
        rw [hgetx] at hx
        rw [hgety] at hy
        refine ⟨fun _ => ⟨hhas, fun h => absurd h hcounts⟩, fun _ => ?_⟩
        exact (hx.equals hkeys hh hy hequals).2 hequals

end Heap

end

/-! ## Attributes -/

/-- Whether an attribute of one value equals that of another; none if one of them has no such
attribute. -/
def Script.attrEquals (a b : Value) (name : String) : Script (Option Bool) := do
  match ← attr a name, ← attr b name with
  | some v, some w => return some (← reading (·.equals v w))
  | _, _ => return none

namespace Heap

variable {p : Pool} {h g : Heap} {d : MessageDescriptor} {a b c : Ref .message} {x y z : Message}

/-- An attribute for a field of a message gives a value that the message keeps from then on. -/
theorem Reachable.attr_field (hh : Reachable {p} h) {f : FieldDescriptor} {r : Ref .message}
    (hr : h.Has ⟨.message, r⟩) (hf : (h.cell r).content.descriptor.field? f.name = some f) :
    ∃ v g, (Script.attr (.message r) f.name).run h = (.ok (some v), g) ∧ ReadsTo {p} h g ∧
      lookupName f.name (g.cell r).views = some v := by
  obtain ⟨found, g, hrun, -, hfound, hsome⟩ := hh.typed.attr_kept f.name hr
  rw [hf] at hsome
  obtain ⟨v, rfl⟩ := Option.isSome_iff_exists.1 (hsome.trans rfl)
  have hop : (Operation.attr (.message r) f.name).Within {p} h :=
    Sample.within_of_message {p} h rfl hr trivial
  have hstep := ReadStep.operation (Operation.attr (.message r) f.name) hop rfl
  rw [show ((Operation.attr (.message r) f.name).run h).2 = g from congrArg Prod.snd hrun] at hstep
  exact ⟨v, g, hrun, .single hstep, hfound⟩

theorem field?_of_contents {r : Ref .message} {m : Message} (hm : h.contents r = .ok m)
    (hd : m.descriptor = d) {f : FieldDescriptor} (hf : f ∈ d.fields) :
    (h.cell r).content.descriptor.field? f.name = some f := by
  rw [← descriptor_contents hm, hd]
  exact MessageDescriptor.field?_eq_some.2 ⟨hf, rfl⟩

/-- A message holds the same after reads, up to the canonical form. -/
theorem ReadsTo.contents (hreads : ReadsTo {p} h g) (hh : Reachable {p} h) (hlaw : p.Lawful)
    (ha : h.Has ⟨.message, a⟩) (hx : h.contents a = .ok x) :
    ∃ x', g.contents a = .ok x' ∧ x'.canonical = x.canonical := by
  have hsame : Except.Alike _ (h.contents a) (g.contents a) := hreads.sameAt hh hlaw ha
  rw [hx] at hsame
  rcases hx' : g.contents a with e | x' <;> rw [hx'] at hsame <;> cases hsame
  rename_i hcanonical
  exact ⟨x', rfl, hcanonical⟩

section

variable (hkeys : p.PlainKeys) (hlaw : p.Lawful) (hp : p.TracksPresence) (hh : Reachable {p} h)

include hh

/-- What a message holds is of its type, which is of the pool. -/
theorem Carries.takes (ha : h.Carries d a x) : d.Takes x ∧ d.Among {p} := by
  have hamong := (hh.typed.message ha.has).among
  rw [← descriptor_contents ha.contents, ha.descriptor] at hamong
  exact ⟨⟨ha.descriptor, (hh.typed.contents hh.closed ha.has ha.contents).conforms⟩, hamong⟩

include hlaw

/-- What a message holds after reads: the same, up to the canonical form. -/
theorem Carries.later (ha : h.Carries d a x) (hreads : ReadsTo {p} h g) :
    ∃ x', g.contents a = .ok x' ∧ x'.canonical = x.canonical ∧ d.Takes x' := by
  have hg := hreads.reachable hh
  obtain ⟨x', hx', hxx'⟩ := hreads.contents hh hlaw ha.has ha.contents
  exact ⟨x', hx', hxx', (Likeness.canonical.descriptor hxx').trans ha.descriptor,
    (hg.typed.contents hg.closed ((hreads.remembers hh).has ha.has) hx').conforms⟩

/-- Attributes of two messages that are compared are read one after the other, and kept. -/
theorem Carries.exists_attrs (ha : h.Carries d a x) (hb : h.Carries d b y) {f : FieldDescriptor}
    (hf : f ∈ d.fields) : ∃ v w g, ReadsTo {p} h g ∧
      lookupName f.name (g.cell a).views = some v ∧ lookupName f.name (g.cell b).views = some w ∧
      ((Script.attrEquals (.message a) (.message b) f.name).run h).1 = (g.equals v w).map some := by
  obtain ⟨v, mid, hrun, hreads, hv⟩ :=
    hh.attr_field ha.has (field?_of_contents ha.contents ha.descriptor hf)
  obtain ⟨y', hy', -, htakes⟩ := hb.later hlaw hh hreads
  have hremembers := hreads.remembers hh
  obtain ⟨w, g, hrun', hreads', hw⟩ := (hreads.reachable hh).attr_field (hremembers.has hb.has)
    (field?_of_contents hy' htakes.descriptor hf)
  have hkept := (hreads'.remembers (hreads.reachable hh)).kept (hremembers.has ha.has) hv
  refine ⟨v, w, g, hreads.trans hreads', hkept, hw, ?_⟩
  unfold Script.attrEquals
  rw [Script.run_bind, hrun]
  dsimp only
  rw [Script.run_bind, hrun']
  dsimp only
  rw [Script.run_bind, Script.run_reading]
  cases g.equals v w <;> rfl

omit hlaw

include hp

/-- Messages of one type are equal if what they hold is. -/
theorem Carries.equals (ha : h.Carries d a x) (hb : h.Carries d b y) :
    h.equals (.message a) (.message b) = .ok (x.equals y) := by
  obtain ⟨htakes, hd⟩ := ha.takes hh
  by_cases hab : a = b
  · subst hab
    obtain rfl := Except.ok.inj (ha.contents.symm.trans hb.contents)
    rw [ha.nanFree.equals_self hp hd htakes, Heap.equals, equalsWithin_message]
    simp [flatEquals]
  · exact equals_messages hab ha.contents hb.contents (hb.descriptor.trans ha.descriptor.symm)

include hkeys hlaw

/-- **Whether an attribute of two messages is equal** says whether they agree on the field. -/
theorem Carries.attrEquals (hdefaults : d.DefaultsNanFree) (ha : h.Carries d a x)
    (hb : h.Carries d b y) (hconfig : (h.cell a).config = (h.cell b).config) {f : FieldDescriptor}
    (hf : f ∈ d.fields) (hhas : f.hasPresence = true → x.has f = y.has f) :
    ((Script.attrEquals (.message a) (.message b) f.name).run h).1 = .ok (some true) ↔
      x.AgreeOn y f := by
  obtain ⟨hx, hd⟩ := ha.takes hh
  obtain ⟨hy, -⟩ := hb.takes hh
  obtain ⟨v, w, g, hreads, hv, hw, hresult⟩ := ha.exists_attrs hlaw hh hb hf
  have hg := hreads.reachable hh
  have hremembers := hreads.remembers hh
  -- the messages hold there what they held
  obtain ⟨x', hx', hxx', hxt⟩ := ha.later hlaw hh hreads
  obtain ⟨y', hy', hyy', hyt⟩ := hb.later hlaw hh hreads
  have hof := FieldDescriptor.of_mem hd hf
  have hself : x'.AgreeOn x' f :=
    (Message.agreeOn_congr hp hlaw hd hf hx hxt hx hxt hxx' hxx').2
      (((Message.equals_iff_agreeOn hp hd ha.descriptor).1
        (ha.nanFree.equals_self hp hd hx)).2 f hf)
  have hhas' : f.hasPresence = true → x'.has f = y'.has f := by
    rw [← Message.has_canonical hxt hf (hof.no_presence hlaw), hxx',
      Message.has_canonical hx hf (hof.no_presence hlaw),
      ← Message.has_canonical hyt hf (hof.no_presence hlaw), hyy',
      Message.has_canonical hy hf (hof.no_presence hlaw)]
    exact hhas
  have hconfig' : (g.cell b).config = (g.cell a).config := by
    rw [(hremembers.message hb.has).2.1, (hremembers.message ha.has).2.1, hconfig]
  have hshown := hg.shown hkeys hlaw (field?_of_contents hx' hxt.descriptor hf)
    (Script.mem_of_lookupName hv) hx'
  have hshown' := hg.shown hkeys hlaw (field?_of_contents hy' hyt.descriptor hf)
    (Script.mem_of_lookupName hw) hy'
  rw [hconfig'] at hshown'
  have hequals := hshown.equals hkeys hlaw hp hg hof (hdefaults f hf) hshown' hself hhas'
  rw [hresult, ← Message.agreeOn_congr hp hlaw hd hf hx hxt hy hyt hxx' hyy', ← hequals, Except.map_ok]
  simp

end

/-- **Equality of messages is an equivalence, and is what attributes show**, on messages without NaN of
one type and with the same settings, whose defaults are no NaN either, in runs with one pool in which
no list or map belongs to a oneof and map keys are integers, booleans or texts. Two messages are equal
if and only if every field with presence is set in both or in neither and every attribute of the one
equals that of the other, pending changes included. -/
theorem Reachable.equals_observational (hkeys : p.PlainKeys) (hlaw : p.Lawful)
    (hp : p.TracksPresence) (hh : Reachable {p} h) (hdefaults : d.DefaultsNanFree)
    (ha : h.Carries d a x) (hb : h.Carries d b y) (hc : h.Carries d c z) :
    h.equals (.message a) (.message a) = .ok true ∧
    h.equals (.message b) (.message a) = h.equals (.message a) (.message b) ∧
    (h.equals (.message a) (.message b) = .ok true → h.equals (.message b) (.message c) = .ok true →
      h.equals (.message a) (.message c) = .ok true) ∧
    ((h.cell a).config = (h.cell b).config →
      (h.equals (.message a) (.message b) = .ok true ↔ ∀ f ∈ d.fields,
        (f.hasPresence = true → x.has f = y.has f) ∧
          ((Script.attrEquals (.message a) (.message b) f.name).run h).1 = .ok (some true))) := by
  obtain ⟨hx, hd⟩ := ha.takes hh
  obtain ⟨hy, -⟩ := hb.takes hh
  rw [ha.equals hp hh ha, ha.equals hp hh hb, hb.equals hp hh ha, hb.equals hp hh hc,
    ha.equals hp hh hc]
  simp only [Except.ok.injEq]
  refine ⟨ha.nanFree.equals_self hp hd hx, ?_, fun hxy hyz => ?_, fun hconfig => ?_⟩
  · exact Bool.eq_iff_iff.2 ⟨Message.equals_symm hp hd hy hx, Message.equals_symm hp hd hx hy⟩
  · exact Message.equals_trans hp hd hx hy hxy hyz
  · have hname : x.fullName = y.fullName := by
      unfold Message.fullName
      rw [ha.descriptor, hb.descriptor]
    rw [Message.equals_iff_agreeOn hp hd ha.descriptor, and_iff_right hname]
    refine forall₂_congr fun f hf => ⟨fun hagree => ⟨hagree.has, ?_⟩, fun hboth => ?_⟩
    · exact (ha.attrEquals hkeys hlaw hp hh hdefaults hb hconfig hf hagree.has).2 hagree
    · exact (ha.attrEquals hkeys hlaw hp hh hdefaults hb hconfig hf hboth.1).1 hboth.2

end Heap

/-! ## A pending edit -/

namespace Sample

/-- A node whose right side is a node of depth 5. -/
def fullTree : Message := .mk node [(2, .message twin)] []

/-- The node with the edited right side, and one that was handed over like that. -/
def matched : Heap where
  messages := edited.messages.push { content := fullTree, config := {} }

def other : Ref .message := ⟨2⟩

theorem takes_twin : node.Takes twin :=
  (MessageDescriptor.Takes.empty node).set (f := ⟨node, field "depth" 3 (.scalar .int32) false none⟩)
    (.tail _ (.tail _ (.head _))) (.single rfl rfl (.scalar rfl))

theorem takes_fullTree : node.Takes fullTree :=
  (MessageDescriptor.Takes.empty node).set (f := rightField) (.tail _ (.head _))
    (.single rfl rfl takes_twin.holds)

theorem reachable_matched : Heap.Reachable {pool} matched := by
  have hrun : ((Operation.wrap ⟨pool, {}⟩ fullTree).run edited).2 = matched := rfl
  rw [← hrun]
  exact reachable_edited.tail
    (.operation _ ⟨nofun, nofun, ⟨Set.mem_singleton _, by decide⟩, takes_fullTree.conforms⟩)

theorem nanFree_fullTree : fullTree.NanFree := by
  have htwin : twin.NanFree := nanFree_node rfl fun _ _ _ hs => eq_of_stored?_single hs ▸ .scalar rfl
  exact nanFree_node rfl fun _ _ _ hs => eq_of_stored?_single hs ▸ .message htwin

/-- The edit is pending: the node stores an empty right side. -/
theorem carries_edited : matched.Carries node root fullTree where
  has := (by decide : 0 < 3)
  contents := by
    have hright : matched.contents right = .ok twin := Heap.contents_of_views_eq_nil rfl
    have hfollow : matched.follow root right = .ok twin := by
      rw [← hright]
      exact if_pos (by decide)
    have hwrite : matched.write root ("right", .message right) =
        .ok (some (rightField, .message twin)) := by
      change (matched.viewContents (matched.follow root) (.message right)).map (·.map (rightField, ·)) = _
      rw [Heap.viewContents, hfollow]
      rfl
    rw [Heap.contents_eq]
    change (([("right", .message right)] : List (String × Value)).mapM (matched.write root)).map
      tree.writeAll = _
    rw [List.mapM_cons, hwrite]
    rfl
  descriptor := rfl
  nanFree := nanFree_fullTree

theorem carries_other : matched.Carries node other fullTree :=
  ⟨(by decide : 2 < 3), Heap.contents_of_views_eq_nil rfl, rfl, nanFree_fullTree⟩

theorem defaultsNanFree_node : node.DefaultsNanFree := by
  intro f hf s hs
  simp only [MessageDescriptor.fields, node, pool, MessageDescriptor.info, List.getD_cons_zero,
    List.map_cons, List.map_nil, List.mem_cons, List.not_mem_nil, or_false] at hf
  rcases hf with rfl | rfl | rfl | rfl <;> cases hs <;> rfl

/-- The edited node and the one that was handed over are equal, and all their attributes are. -/
theorem edited_node_observational : pool.PlainKeys ∧ pool.Lawful ∧ pool.TracksPresence ∧
    Heap.Reachable {pool} matched ∧ node.DefaultsNanFree ∧ matched.Carries node root fullTree ∧
      matched.Carries node other fullTree ∧ (matched.cell root).config = (matched.cell other).config ∧
      matched.equals (.message root) (.message other) = .ok true ∧ ∀ f ∈ node.fields,
        ((Script.attrEquals (.message root) (.message other) f.name).run matched).1 =
          .ok (some true) := by
  have hequals : matched.equals (.message root) (.message other) = .ok true := by
    rw [carries_edited.equals (by decide) reachable_matched carries_other,
      nanFree_fullTree.equals_self (by decide) ⟨Set.mem_singleton _, by decide⟩ takes_fullTree]
  have hall := Heap.Reachable.equals_observational (by decide) (by decide) (by decide)
    reachable_matched defaultsNanFree_node carries_edited carries_other carries_other
  exact ⟨by decide, by decide, by decide, reachable_matched, defaultsNanFree_node, carries_edited,
    carries_other, rfl, hequals, fun f hf => (((hall.2.2.2 rfl).1 hequals) f hf).2⟩

/-! ### A list in a oneof -/

/-- A message with an empty list in its oneof. -/
def noneChosen : Message := .mk choice [(2, .list [])] []

/-- The message with the number whose list was read, and one with an empty list. -/
def rivalry : Heap where
  messages := lookedAt.messages.push { content := noneChosen, config := {} }
  repeateds := lookedAt.repeateds

theorem takes_noneChosen : choice.Takes noneChosen :=
  (MessageDescriptor.Takes.empty choice).set (f := choiceField) (.tail _ (.head _))
    (.list rfl fun _ hs => absurd hs List.not_mem_nil)

theorem reachable_rivalry : Heap.Reachable {choices} rivalry := by
  have hread : ((Operation.attr (.message root) "items").run chosen).2 = lookedAt := rfl
  have hwrap : ((Operation.wrap ⟨choices, {}⟩ noneChosen).run lookedAt).2 = rivalry := rfl
  have hlooked : Heap.Reachable {choices} lookedAt := by
    rw [← hread]
    exact reachable_chosen.tail (.operation _ (within_of_message {choices} chosen rfl (by decide) trivial))
  rw [← hwrap]
  exact hlooked.tail
    (.operation _ ⟨nofun, nofun, ⟨Set.mem_singleton _, by decide⟩, takes_noneChosen.conforms⟩)

theorem nanFree_noneChosen : noneChosen.NanFree :=
  nanFree_choice (.list fun _ hs => absurd hs List.not_mem_nil)

/-- **Where a list belongs to a oneof**, equal messages can have unequal attributes: the number of the
first message is still read as it was, though writing back the list that was read unsets it. -/
theorem equal_with_unequal_attributes : choices.PlainKeys ∧ ¬ choices.Lawful ∧
    choices.TracksPresence ∧ Heap.Reachable {choices} rivalry ∧ choice.DefaultsNanFree ∧
      rivalry.Carries choice root noneChosen ∧ rivalry.Carries choice right noneChosen ∧
      (rivalry.cell root).config = (rivalry.cell right).config ∧
      rivalry.equals (.message root) (.message right) = .ok true ∧
      ((Script.attrEquals (.message root) (.message right) "depth").run rivalry).1 =
        .ok (some false) := by
  have hroot : rivalry.Carries choice root noneChosen := by
    refine ⟨(by decide : 0 < 2), ?_, rfl, nanFree_noneChosen⟩
    rw [Heap.contents_eq]
    rfl
  have hright : rivalry.Carries choice right noneChosen :=
    ⟨(by decide : 1 < 2), Heap.contents_of_views_eq_nil rfl, rfl, nanFree_noneChosen⟩
  refine ⟨by decide, by decide, by decide, reachable_rivalry, ?_, hroot, hright, rfl, ?_, ?_⟩
  · intro f hf s hs
    simp only [MessageDescriptor.fields, choice, choices, MessageDescriptor.info, List.getD_cons_zero,
      List.map_cons, List.map_nil, List.mem_cons, List.not_mem_nil, or_false] at hf
    rcases hf with rfl | rfl <;> cases hs <;> rfl
  · rw [hroot.equals (by decide) reachable_rivalry hright,
      nanFree_noneChosen.equals_self (by decide) ⟨Set.mem_singleton _, by decide⟩ takes_noneChosen]
  · have hcompare (h : Heap) : h.equals (.int 5) .absent = .ok false :=
      (Heap.equalsWithin_leaf (fun _ ha => by cases ha) rfl rfl).trans rfl
    obtain ⟨mid, hfirst⟩ : ∃ mid, (Script.attr (.message root) "depth").run rivalry =
        (.ok (some (.int 5)), mid) := ⟨_, rfl⟩
    have hsecond : (Script.attr (.message right) "depth").run
        ((Script.attr (.message root) "depth").run rivalry).2 = (.ok (some .absent), _) := rfl
    rw [hfirst] at hsecond
    unfold Script.attrEquals
    rw [Script.run_bind, hfirst]
    dsimp only
    rw [Script.run_bind, hsecond]
    dsimp only
    rw [Script.run_bind, Script.run_reading, hcompare]
    rfl

end Sample

end Protoscript
