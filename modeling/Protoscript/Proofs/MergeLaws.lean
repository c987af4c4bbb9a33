import Protoscript.Proofs.Laying
import Protoscript.Proofs.NanFree
import Protoscript.Proofs.Packing
import Protoscript.Proofs.ReadOut

/-!
# Merging is a monoid

Merging is associative up to equality of messages, and a message without set fields makes no
difference on either side. Equality asks for messages without NaN, and associativity for a last message
in which oneofs select scalars only: what one selects otherwise may be laid over what the same member
held before another one was selected.

* `Message.NanFree.merge` — merging brings in no NaN;
* `MessageDescriptor.Takes.merge_unset`, `MessageDescriptor.Takes.unset_merge_equals` — a message
  without set fields, on either side;
* `Script.copyMerged` — messages merged into a copy of another one;
* `Heap.Reachable.merge_monoid` — the laws, for the functions of the library.
-/

namespace Protoscript

/-! ## Defaults -/

namespace FieldDescriptor

variable {p : Pool} {f : FieldDescriptor} {s t : Stored}

/-- Two values of a field that both count as unset are equal. -/
theorem Holds.equals_of_default (hs : f.Holds s) (ht : f.Holds t) (hs' : s.isDefaultOf f = true)
    (ht' : t.isDefaultOf f = true) : s.equals t = true := by
  cases hs with
  | list hlist =>
    obtain ⟨ys, rfl, -⟩ := ht.items hlist
    simp only [Stored.isDefaultOf, hlist, Bool.true_and, List.isEmpty_iff] at hs' ht'
    simp [Stored.equals, Stored.listEquals, hs', ht']
  | map hmap =>
    obtain ⟨ys, rfl, -⟩ := ht.entries hmap
    simp only [Stored.isDefaultOf, hmap, Bool.true_and, List.isEmpty_iff] at hs' ht'
    simp [Stored.equals, Stored.mapWithin, hs', ht']
  | single hmap hlist hs =>
    have ht := ht.kind hmap hlist
    generalize f.kind = kind at hs ht
    cases hs with
    | message => cases hs'
    | scalar =>
      cases ht with
      | message => cases ht'
      | scalar =>
        simp only [Stored.isDefaultOf] at hs' ht'
        rcases hd : f.defaultScalar? with _ | d
        · simp [hd] at hs'
        · simp only [hd, Bool.and_eq_true] at hs' ht'
          rw [Stored.equals]
          exact Scalar.equals_trans hs'.2 ((Scalar.equals_comm d _).trans ht'.2)

/-- What a field without presence reads as while nothing is stored counts as unset. -/
theorem Of.isDefaultOf_defaultOf (hf : f.Of p) (hp : p.TracksPresence) (hno : f.hasPresence = false)
    (hfree : (Stored.defaultOf f).NanFree) : (Stored.defaultOf f).isDefaultOf f = true := by
  have hflat := hf.default_of_no_presence hp hno
  unfold Stored.defaultOf at hflat hfree ⊢
  by_cases hmap : f.isMap = true
  · rw [if_pos hmap]
    simp [Stored.isDefaultOf, hmap]
  · rw [if_neg hmap] at hflat hfree ⊢
    by_cases hlist : f.isList = true
    · rw [if_pos hlist]
      simp [Stored.isDefaultOf, hlist]
    · rw [if_neg hlist] at hflat hfree ⊢
      unfold Stored.singleDefault at hflat hfree ⊢
      rcases hd : f.defaultScalar? with _ | d
      · have hholds := holds_singleDefault (f := f)
        unfold Stored.singleDefault at hholds
        rw [hd] at hflat hholds
        rcases hkind : f.kind with t | e | e <;> rw [hkind] at hflat hholds
        · exact absurd hholds Kind.Holds.not_list
        · rcases hflat with h | h | ⟨x, h⟩ <;> cases h
        · exact absurd hholds Kind.Holds.not_list
      · rw [hd] at hfree
        cases hfree with
        | scalar hd' => simp [Stored.isDefaultOf, hmap, hlist, hd, Scalar.equals_self hd']

/-- If something else counts as unset, the default is no NaN. -/
theorem nanFree_defaultOf (ht : t.isDefaultOf f = true) : (Stored.defaultOf f).NanFree := by
  cases t with
  | message => cases ht
  | map =>
    simp only [Stored.isDefaultOf, Bool.and_eq_true] at ht
    rw [Stored.defaultOf_map ht.1]
    exact .map fun _ he => absurd he List.not_mem_nil
  | list =>
    simp only [Stored.isDefaultOf, Bool.and_eq_true] at ht
    rw [Stored.defaultOf_list ht.1]
    exact .list fun _ hs => absurd hs List.not_mem_nil
  | scalar x =>
    simp only [Stored.isDefaultOf, Bool.and_eq_true, Bool.not_eq_true'] at ht
    obtain ⟨⟨hlist, hmap⟩, hx⟩ := ht
    rcases hd : f.defaultScalar? with _ | d
    · simp [hd] at hx
    · rw [hd] at hx
      rw [Stored.defaultOf_single hmap hlist, Stored.singleDefault, hd]
      exact .scalar (Scalar.isNaN_of_equals ((Scalar.equals_comm d x).trans hx))

end FieldDescriptor

/-! ## NaN -/

/-- What is laid over something without NaN has no NaN in it, if it has none by itself. That merging
brings in none is known by induction. -/
theorem Stored.NanFree.over {s : Stored} {old : Option Stored} (hs : s.NanFree)
    (hold : ∀ u ∈ old, u.NanFree)
    (ih : ∀ x y : Message, s = .message y → old = some (.message x) → x.NanFree → y.NanFree →
      (x.merge y).NanFree) : (s.over old).NanFree := by
  rcases old with _ | u
  · rwa [Stored.over_none]
  have hu := hold u rfl
  cases hs with
  | scalar hs =>
    rw [Stored.over_scalar]
    exact .scalar hs
  | message hy =>
    cases hu with
    | message hx => exact .message (ih _ _ rfl rfl hx hy)
    | _ => exact .message hy
  | list hys =>
    cases hu with
    | list hxs => exact .list fun s hs => (List.mem_append.1 hs).elim (hxs s) (hys s)
    | _ => exact .list hys
  | map hys =>
    cases hu with
    | map hxs => exact .map fun e he => (mem_overlay he).elim (hxs e) (hys e)
    | _ => exact .map hys

/-- **Merging brings in no NaN.** A field of a oneof that is unset has presence, so that its default
does not count. -/
theorem Message.NanFree.merge {p : Pool} (hp : p.TracksPresence) {d : MessageDescriptor}
    (hd : d.Among {p}) {x y : Message} (hx : d.Takes x) (hy : d.Takes y) (hxfree : x.NanFree)
    (hyfree : y.NanFree) : (x.merge y).NanFree := by
  refine .mk fun f hf hread => ?_
  have hf : f ∈ d.fields := (hx.merge hy).descriptor ▸ hf
  have hfx : f ∈ x.descriptor.fields := hx.descriptor.symm ▸ hf
  have hfy : f ∈ y.descriptor.fields := hy.descriptor.symm ▸ hf
  by_cases hset : y.has f = true
  · obtain ⟨s, hs⟩ := Option.isSome_iff_exists.1 (Message.isSome_of_has hset)
    rw [Message.get, hx.stored?_merge_of_has hy hf hset, hs]
    refine (hyfree.stored hfy hs).over (fun u hu => hxfree.stored hfx hu) fun m n hn hm hmfree hnfree => ?_
    subst hn
    have hlt : sizeOf n < sizeOf y := by
      have := Message.sizeOf_stored?_lt hs
      simp only [Stored.message.sizeOf_spec] at this
      omega
    obtain ⟨e, hkind, hn⟩ := (hy.stored hf hs).messageType
    have hm := (hx.stored hf hm).sameType hkind
    exact Message.NanFree.merge hp ((FieldDescriptor.of_mem hd hf).kind e hkind) hm hn hmfree hnfree
  · have hunset : y.has f = false := by simpa using hset
    by_cases hdisplaces : y.Displaces f
    · -- a field that was displaced has presence, and reads as absent or unset
      have hnone : (x.merge y).stored? f = none := hy.stored?_merge_of_displaces hf hdisplaces
      obtain ⟨g, hg, -⟩ := hdisplaces
      have hpresence : f.hasPresence = true := by
        rw [(FieldDescriptor.of_mem hd hf).hasPresence_eq hp, FieldInfo.tracksPresence,
          (FieldDescriptor.rivals_iff.1 hg).1]
        rfl
      rw [hpresence, hnone] at hread
      rcases hread with h | h <;> cases h
    · have hsame : (x.merge y).stored? f = x.stored? f :=
        hy.stored?_merge_of_not_displaces hf hunset hdisplaces
      rw [hsame] at hread
      rw [Message.get_congr hsame]
      exact hxfree.get hfx hread
termination_by sizeOf y
decreasing_by
  exact hlt

/-! ## Messages without set fields -/

namespace MessageDescriptor.Takes

variable {p : Pool} {d : MessageDescriptor} {x y : Message} {f : FieldDescriptor}

/-- **Merging in a message without set fields** changes nothing. -/
theorem merge_unset (hx : d.Takes x) (hy : d.Takes y) (hunset : ∀ f ∈ d.fields, y.has f = false) :
    x.merge y = x := by
  refine hx.eq_of_stored? (hx.merge hy) (hx.unknown_merge hy) fun f hf => ?_
  refine hy.stored?_merge_of_not_displaces hf (hunset f hf) fun ⟨g, hg, hset⟩ => ?_
  have hgd : g ∈ d.fields := (mem_fields.1 hf).1 ▸ (FieldDescriptor.rivals_iff.1 hg).2.1
  rw [hunset g hgd] at hset
  cases hset

/-- What a message without set fields holds after another one was merged into it: the same, or a
default where the other one holds a default, too. -/
theorem stored?_unset_merge (hx : d.Takes x) (hy : d.Takes y) (hf : f ∈ d.fields)
    (hunset : x.has f = false) : (x.merge y).stored? f = y.stored? f ∨
      y.has f = false ∧ (x.merge y).stored? f = x.stored? f := by
  by_cases hset : y.has f = true
  · obtain ⟨s, hs⟩ := Option.isSome_iff_exists.1 (Message.isSome_of_has hset)
    rw [hx.stored?_merge_of_has hy hf hset, hs, Option.map_some,
      over_of_not_has (hy.stored hf hs) hunset]
    exact .inl rfl
  · have hno : y.has f = false := by simpa using hset
    by_cases hdisplaces : y.Displaces f
    · rw [hy.stored?_merge_of_displaces hf hdisplaces, hy.stored?_of_displaces hf hdisplaces]
      exact .inl rfl
    · exact .inr ⟨hno, hy.stored?_merge_of_not_displaces hf hno hdisplaces⟩

/-- What a field without presence reads as while it is not set is a default. -/
theorem get_isDefaultOf (hp : p.TracksPresence) (hof : f.Of p) (hno : f.hasPresence = false)
    (hunset : x.has f = false) (hfree : x.stored? f = none → (Stored.defaultOf f).NanFree) :
    (x.get f).isDefaultOf f = true := by
  rcases hs : x.stored? f with _ | s
  · rw [Message.get_of_none hs]
    exact hof.isDefaultOf_defaultOf hp hno (hfree hs)
  · rw [Message.get_of_stored? rfl hs]
    exact Message.isDefaultOf_of_not_has hs hunset

/-- A field without presence that is unset in two messages agrees in them. -/
theorem agree_of_unset (hp : p.TracksPresence) (hof : f.Of p) (hno : f.hasPresence = false)
    (hx : d.Takes x) (hy : d.Takes y) (hf : f ∈ d.fields) (hleft : (x.get f).isDefaultOf f = true)
    (hright : (y.get f).isDefaultOf f = true) :
    (match x.stored? f with
      | some value => value.equals (y.get f)
      | none => (Stored.defaultOf f).flatEquals (y.get f)) = true := by
  have hequals := (hy.get hf).equals_of_default (hx.get hf) hright hleft
  rcases hs : x.stored? f with _ | s
  · rw [Message.get_of_none hs] at hequals
    exact (Stored.equals_flat (hof.default_of_no_presence hp hno)).symm.trans hequals
  · rw [Message.get_of_stored? rfl hs] at hleft
    exact (hx.stored hf hs).equals_of_default (hy.get hf) hleft hright

/-- **Merging into a message without set fields** gives an equal message. -/
theorem unset_merge_equals (hp : p.TracksPresence) (hd : d.Among {p}) (hx : d.Takes x) (hy : d.Takes y)
    (hunset : ∀ f ∈ d.fields, x.has f = false) (hfree : y.NanFree) : (x.merge y).equals y = true := by
  have hself := Message.equals_iff.1 (hfree.equals_self hp hd hy)
  have hxy := hx.merge hy
  refine Message.equals_iff.2 ⟨?_, fun f hf => ?_⟩
  · exact congrArg MessageDescriptor.fullName (hxy.descriptor.trans hy.descriptor.symm)
  have hf : f ∈ d.fields := hxy.descriptor ▸ hf
  have hfy : f ∈ y.descriptor.fields := hy.descriptor.symm ▸ hf
  rcases hx.stored?_unset_merge hy hf (hunset f hf) with hsame | ⟨hno, hsame⟩
  · rw [Message.has_congr hsame, hsame]
    exact hself.2 f hfy
  · -- both read as a default
    have hhas : (x.merge y).has f = false := (Message.has_congr hsame).trans (hunset f hf)
    rcases hpresence : f.hasPresence with _ | _
    · have hof := FieldDescriptor.of_mem hd hf
      have hright := get_isDefaultOf hp hof hpresence hno fun hs => hfree.default hfy hpresence hs
      have hleft := get_isDefaultOf hp hof hpresence hhas fun _ => FieldDescriptor.nanFree_defaultOf hright
      simp only [Bool.false_and, Bool.false_eq_true, if_false]
      exact hxy.agree_of_unset hp hof hpresence hy hf hleft hright
    · simp [hhas, hno]

end MessageDescriptor.Takes

/-! ## The functions of the library -/

namespace Script

/-- Merges messages into another one, one after the other. -/
def mergeAll (library : Library) (dst : Value) : List Value → Script Value
  | [] => return dst
  | src :: rest => do mergeAll library (← callFunction library .merge [dst, src] []) rest

/-- Merges messages into a copy of another one. -/
def copyMerged (library : Library) (dst : Value) (rest : List Value) : Script Value := do
  mergeAll library (← callFunction library .clone [dst] []) rest

/-- Merges copies of three messages in both groupings: the second one and then the third one into the
first one, and the third one into the second one and the result into the first one. -/
def mergeGrouped (library : Library) (a b c : Value) : Script (Value × Value) := do
  let left ← copyMerged library a [b, c]
  let tail ← copyMerged library b [c]
  let right ← copyMerged library a [tail]
  return (left, right)

end Script

namespace Heap

variable {p : Pool} {h : Heap} {library : Library}

/-- Whether a message is of a type and holds something without NaN. -/
structure Carries (h : Heap) (d : MessageDescriptor) (r : Ref .message) (m : Message) : Prop where
  has : h.Has ⟨.message, r⟩
  contents : h.contents r = .ok m
  descriptor : m.descriptor = d
  nanFree : m.NanFree

/-- A message is copied into a new one. -/
theorem run_clone {r : Ref .message} {m : Message} (hm : h.contents r = .ok m) :
    (Script.callFunction library .clone [.message r] []).run h = (.ok (.message (h.fresh .message)),
      h.alloc .message { content := m, config := (h.cell r).config }) := by
  have hrun : (Script.callFunction library .clone [.message r] []).run h =
      (Script.cloneMessage r).run h := rfl
  simp only [hrun, Script.cloneMessage, Script.run_bind, Script.run_cell, Script.contents,
    Script.run_reading, hm]
  rfl

section

variable {d : MessageDescriptor} {m : Message} {config : Config} {rs : List (Ref .message)}
  {ms : List Message}

/-- Whether messages of a heap hold what is listed, and are all of one type. -/
def Sources (h : Heap) (d : MessageDescriptor) : List (Ref .message) → List Message → Prop :=
  List.Forall₂ fun r m => h.Has ⟨.message, r⟩ ∧ h.contents r = .ok m ∧ m.descriptor = d

/-- Messages are merged into a new one. -/
theorem run_mergeAll (hc : h.Closed) (hm : m.descriptor = d) (hs : h.Sources d rs ms) :
    (Script.mergeAll library (.message (h.fresh .message)) (rs.map .message)).run
        (h.alloc .message { content := m, config := config }) =
      (.ok (.message (h.fresh .message)),
        h.alloc .message { content := ms.foldl Message.merge m, config := config }) := by
  -- on the sources; the new message is the only one that changes
  induction hs generalizing m with
  | nil => rfl
  | @cons r n rs ms hr _ ih =>
    obtain ⟨hhas, hn, hd⟩ := hr
    let mid := h.alloc .message { content := m, config := config }
    have hnew : mid.cell (h.fresh .message) = { content := m, config := config } := cell_alloc_self h _
    have hgrows : h.Grows mid := h.grows_alloc_message rfl
    have hn' : mid.contents r = .ok n := (hgrows.contents hc hhas).trans hn
    have hname : mid.fullName (h.fresh .message) = mid.fullName r := by
      unfold fullName Message.fullName
      rw [hnew, ← descriptor_contents hn', hd, ← hm]
    have hmerge := Script.run_mergeMessage newMessage_contents hn' (by rw [hnew]) hname
    have hstep : (Script.callFunction library .merge [.message (h.fresh .message), .message r] []).run mid =
        (.ok (.message (h.fresh .message)),
          h.alloc .message { content := m.merge n, config := config }) := by
      have hrun := Operation.run_merge library (h.fresh .message) r mid
      change (Script.callFunction library .merge [.message (h.fresh .message), .message r] []).run mid = _ at hrun
      rw [hrun, Script.run_bind, hmerge, hnew, put_alloc]
      rfl
    rw [List.map_cons, Script.mergeAll, Script.run_bind, hstep]
    exact ih ((Message.descriptor_merge m n).trans hm)

/-- Whether a later heap differs from a heap in new cells only, and in one of them is a message that
holds `m`. -/
structure Makes (h : Heap) (m : Message) (q : Ref .message) (h' : Heap) : Prop where
  grows : h.Grows h'
  closed : h'.Closed
  new : ¬ h.Has ⟨.message, q⟩
  has : h'.Has ⟨.message, q⟩
  contents : h'.contents q = .ok m

theorem makes_alloc (hc : h.Closed) (m : Message) (config : Config) : h.Makes m (h.fresh .message)
    (h.alloc .message { content := m, config := config }) where
  grows := h.grows_alloc_message rfl
  closed := hc.alloc fun _ hv => absurd hv List.not_mem_nil
  new := h.not_has_fresh .message
  has := h.has_fresh_alloc .message _
  contents := newMessage_contents

variable (library) in
/-- Messages are merged into a copy of another one. -/
theorem run_copyMerged (hc : h.Closed) {r : Ref .message} (hr : h.contents r = .ok m)
    (hm : m.descriptor = d) (hs : h.Sources d rs ms) :
    ∃ q h', (Script.copyMerged library (.message r) (rs.map .message)).run h = (.ok (.message q), h') ∧
      h.Makes (ms.foldl Message.merge m) q h' := by
  refine ⟨_, _, ?_, makes_alloc hc _ (h.cell r).config⟩
  rw [Script.copyMerged, Script.run_bind, run_clone hr]
  exact run_mergeAll hc hm hs

end

section

variable {d : MessageDescriptor} {a b c : Ref .message} {x y z : Message} (hh : h.Closed)
  (ha : h.Carries d a x) (hb : h.Carries d b y) (hc : h.Carries d c z)

include hh

/-- A message of a heap can be merged in on a heap that has grown. -/
theorem Carries.source (ha : h.Carries d a x) {h' : Heap} (hg : h.Grows h') :
    h'.Has ⟨.message, a⟩ ∧ h'.contents a = .ok x ∧ x.descriptor = d :=
  ⟨hg.has ha.has, (hg.contents hh ha.has).trans ha.contents, ha.descriptor⟩

include ha hb hc

variable (library) in
/-- Both groupings give new messages, which hold what was merged. -/
theorem run_mergeGrouped : ∃ left right h',
    (Script.mergeGrouped library (.message a) (.message b) (.message c)).run h =
      (.ok (.message left, .message right), h') ∧ left ≠ right ∧
      h'.contents left = .ok ((x.merge y).merge z) ∧ h'.contents right = .ok (x.merge (y.merge z)) := by
  have hrefl : h.Grows h := .refl ∅ h
  obtain ⟨q₁, h₁, hrun₁, hmade₁⟩ := run_copyMerged library hh ha.contents
    ha.descriptor (.cons (hb.source hh hrefl) (.cons (hc.source hh hrefl) .nil))
  obtain ⟨q₂, h₂, hrun₂, hmade₂⟩ := run_copyMerged library hmade₁.closed
    (hb.source hh hmade₁.grows).2.1 hb.descriptor (.cons (hc.source hh hmade₁.grows) .nil)
  have hg₂ := hmade₁.grows.trans hmade₂.grows
  have htail : (y.merge z).descriptor = d := (Message.descriptor_merge y z).trans hb.descriptor
  obtain ⟨q₃, h₃, hrun₃, hmade₃⟩ := run_copyMerged library hmade₂.closed
    (ha.source hh hg₂).2.1 ha.descriptor (.cons ⟨hmade₂.has, hmade₂.contents, htail⟩ .nil)
  refine ⟨q₁, q₃, h₃, ?_, fun heq => hmade₃.new (heq ▸ hmade₂.grows.has hmade₁.has), ?_,
    hmade₃.contents⟩
  · simp only [List.map_cons, List.map_nil] at hrun₁ hrun₂ hrun₃
    simp only [Script.mergeGrouped, Script.run_bind, hrun₁, hrun₂, hrun₃, Script.run_pure]
  · have hg := hmade₂.grows.trans hmade₃.grows
    exact (hg.contents hmade₁.closed hmade₁.has).trans hmade₁.contents

variable (library) in
/-- Whether both groupings give equal messages depends on what is merged only. -/
theorem mergeGrouped_equals : ∃ left right h',
    (Script.mergeGrouped library (.message a) (.message b) (.message c)).run h =
      (.ok (left, right), h') ∧
      h'.equals left right = .ok (((x.merge y).merge z).equals (x.merge (y.merge z))) := by
  obtain ⟨left, right, h', hrun, hne, hleft, hright⟩ := run_mergeGrouped library hh ha hb hc
  refine ⟨_, _, h', hrun, equals_messages hne hleft hright ?_⟩
  simp only [Message.descriptor_merge]

end

/-- **Merging is a monoid**, up to equality of messages, on messages without NaN of one type: copies
of three messages can be merged in any grouping, if no oneof of the last one selects anything but a
scalar, and a message without set fields makes no difference on either side. -/
theorem Reachable.merge_monoid {d : MessageDescriptor} {a b c : Ref .message} {x y z : Message}
    (hh : Reachable {p} h) (hp : p.TracksPresence) (ha : h.Carries d a x) (hb : h.Carries d b y)
    (hc : h.Carries d c z) (hselects : z.SelectsOnly Stored.IsScalar) :
    (∃ left right h', (Script.mergeGrouped library (.message a) (.message b) (.message c)).run h =
        (.ok (left, right), h') ∧ h'.equals left right = .ok true) ∧
      ∀ (e : Ref .message) (w : Message), h.Has ⟨.message, e⟩ → h.contents e = .ok w →
        w.descriptor = d → (∀ f ∈ d.fields, w.has f = false) →
        (∃ v h', (Script.copyMerged library (.message a) [.message e]).run h = (.ok v, h') ∧
          h'.equals v (.message a) = .ok true) ∧
        ∃ v h', (Script.copyMerged library (.message e) [.message a]).run h = (.ok v, h') ∧
          h'.equals v (.message a) = .ok true := by
  have takes {r : Ref .message} {m : Message} (hr : h.Has ⟨.message, r⟩) (hm : h.contents r = .ok m)
      (hd : m.descriptor = d) : d.Takes m :=
    ⟨hd, (hh.typed.contents hh.closed hr hm).conforms⟩
  have hx := takes ha.has ha.contents ha.descriptor
  have hy := takes hb.has hb.contents hb.descriptor
  have hz := takes hc.has hc.contents hc.descriptor
  have hd : d.Among {p} := by
    have hamong := (hh.typed.message ha.has).among
    rwa [← descriptor_contents ha.contents, ha.descriptor] at hamong
  refine ⟨?_, fun e w he hw hwd hunset => ?_⟩
  · obtain ⟨left, right, h', hrun, hequals⟩ := mergeGrouped_equals library hh.closed ha hb hc
    have hfree := (ha.nanFree.merge hp hd hx hy hb.nanFree).merge hp hd (hx.merge hy) hz hc.nanFree
    refine ⟨left, right, h', hrun, hequals.trans ?_⟩
    rw [← hx.merge_assoc hy hz hselects, hfree.equals_self hp hd ((hx.merge hy).merge hz)]
  · have hw' := takes he hw hwd
    have hsource : h.Has ⟨.message, e⟩ ∧ h.contents e = .ok w ∧ w.descriptor = d := ⟨he, hw, hwd⟩
    constructor
    · -- merged on the right, then on the left
      obtain ⟨q, h', hrun, hmade⟩ := run_copyMerged library hh.closed ha.contents
        ha.descriptor (.cons hsource .nil)
      obtain ⟨-, ha', -⟩ := ha.source hh.closed hmade.grows
      have hne : q ≠ a := fun heq => hmade.new (heq ▸ ha.has)
      have hmerged := hmade.contents
      rw [List.foldl_cons, List.foldl_nil, hx.merge_unset hw' hunset] at hmerged
      refine ⟨_, h', hrun, ?_⟩
      rw [equals_messages hne hmerged ha' rfl, ha.nanFree.equals_self hp hd hx]
    · obtain ⟨q, h', hrun, hmade⟩ := run_copyMerged library hh.closed hw hwd
        (.cons (ha.source hh.closed (.refl ∅ h)) .nil)
      obtain ⟨-, ha', -⟩ := ha.source hh.closed hmade.grows
      have hne : q ≠ a := fun heq => hmade.new (heq ▸ ha.has)
      refine ⟨_, h', hrun, ?_⟩
      rw [equals_messages hne hmade.contents ha'
        (hx.descriptor.trans (hw'.merge hx).descriptor.symm)]
      exact congrArg Except.ok (hw'.unset_merge_equals hp hd hx hunset ha.nanFree)

end Heap

/-! ## Three messages -/

namespace Sample

/-- Three messages that a host handed over. -/
def handed (a b c : Message) : Heap where
  messages := #[{ content := a, config := {} }, { content := b, config := {} },
    { content := c, config := {} }]

def third : Ref .message := ⟨2⟩

theorem reachable_handed {p : Pool} {d : MessageDescriptor} {a b c : Message} (hd : d.Among {p})
    (ha : d.Takes a) (hb : d.Takes b) (hc : d.Takes c) : Heap.Reachable {p} (handed a b c) := by
  have step {h : Heap} {m : Message} (hh : Heap.Reachable {p} h) (hm : d.Takes m) :
      Heap.Reachable {p} ((Operation.wrap ⟨p, {}⟩ m).run h).2 :=
    hh.tail (.operation _ ⟨nofun, nofun, hm.descriptor.symm ▸ hd, hm.conforms⟩)
  exact step (step (step .refl ha) hb) hc

section

variable {d : MessageDescriptor} {a b c : Message}

theorem carries_first (ha : a.descriptor = d) (hfree : a.NanFree) : (handed a b c).Carries d root a :=
  ⟨(by decide : 0 < 3), Heap.contents_of_views_eq_nil rfl, ha, hfree⟩

theorem carries_second (hb : b.descriptor = d) (hfree : b.NanFree) : (handed a b c).Carries d right b :=
  ⟨(by decide : 1 < 3), Heap.contents_of_views_eq_nil rfl, hb, hfree⟩

theorem carries_third (hc : c.descriptor = d) (hfree : c.NanFree) : (handed a b c).Carries d third c :=
  ⟨(by decide : 2 < 3), Heap.contents_of_views_eq_nil rfl, hc, hfree⟩

end

/-! ### Nodes -/

def itemsField : FieldDescriptor := ⟨node, field "items" 4 (.scalar .int32) true none⟩

/-- A node with one number in its list. -/
def oneNumber (n : Int32) : Message := .mk node [(4, .list [.scalar (.i32 n)])] []

theorem takes_oneNumber (n : Int32) : node.Takes (oneNumber n) := by
  refine (MessageDescriptor.Takes.empty node).set (f := itemsField)
    (.tail _ (.tail _ (.tail _ (.head _)))) (.list rfl fun s hs => ?_)
  rw [List.mem_singleton.1 hs]
  exact .scalar rfl

theorem takes_tree : node.Takes tree := ⟨rfl, conforms_tree⟩

/-- No default of a node is a NaN. -/
theorem nanFree_node {m : Message} (hm : m.descriptor = node)
    (hstored : ∀ f ∈ node.fields, ∀ s, m.stored? f = some s → s.NanFree) : m.NanFree := by
  refine .of_stored (fun f hf hno => ?_) (hm.symm ▸ hstored)
  rw [hm] at hf
  rcases List.mem_cons.1 hf with rfl | hf
  · cases hno
  rcases List.mem_cons.1 hf with rfl | hf
  · cases hno
  rcases List.mem_cons.1 hf with rfl | hf
  · exact .scalar rfl
  · rw [List.mem_singleton.1 hf]
    exact .list fun _ hs => absurd hs List.not_mem_nil

/-- A message that stores one value stores nothing else. -/
theorem eq_of_stored?_single {d : MessageDescriptor} {number : Nat} {s t : Stored} {f : FieldDescriptor}
    (ht : (Message.mk d [(number, s)] []).stored? f = some t) : t = s := by
  have hlookup : (Message.mk d [(number, s)] []).stored? f = if number = f.number then some s else none :=
    rfl
  rw [hlookup] at ht
  split at ht
  · exact (Option.some.inj ht).symm
  · cases ht

theorem nanFree_list (n : Int32) : (Stored.list [.scalar (.i32 n)]).NanFree :=
  .list fun _ hs => List.mem_singleton.1 hs ▸ .scalar rfl

theorem nanFree_oneNumber (n : Int32) : (oneNumber n).NanFree :=
  nanFree_node rfl fun _ _ _ ht => eq_of_stored?_single ht ▸ nanFree_list n

theorem nanFree_tree : tree.NanFree := by
  have hempty : (Message.empty node).NanFree := nanFree_node rfl fun f _ s hs => by
    rw [Message.stored?_empty] at hs
    cases hs
  exact nanFree_node rfl fun _ _ _ ht => eq_of_stored?_single ht ▸ .message hempty

/-- A node with a list selects nothing in its oneof. -/
theorem selectsOnly_oneNumber (n : Int32) : (oneNumber n).SelectsOnly Stored.IsScalar := by
  refine .mk (fun f hf hone hset s hs => ?_) fun f hf m hm => ?_
  · rcases List.mem_cons.1 hf with rfl | hf
    · cases hset
    rcases List.mem_cons.1 hf with rfl | hf
    · cases hset
    rcases List.mem_cons.1 hf with rfl | hf
    · cases hone
    · rw [List.mem_singleton.1 hf] at hone
      cases hone
  · exact nomatch eq_of_stored?_single hm

/-- A node with a right side and two nodes with one number each, merged in either grouping. -/
theorem nodes_merge_monoid :
    Heap.Reachable {pool} (handed tree (oneNumber 1) (oneNumber 2)) ∧ pool.TracksPresence ∧
      (handed tree (oneNumber 1) (oneNumber 2)).Carries node root tree ∧
      (handed tree (oneNumber 1) (oneNumber 2)).Carries node right (oneNumber 1) ∧
      (handed tree (oneNumber 1) (oneNumber 2)).Carries node third (oneNumber 2) ∧
      (oneNumber 2).SelectsOnly Stored.IsScalar ∧
      ∃ u v h', (Script.mergeGrouped ⟨0, ⟨pool, {}⟩⟩ (.message root) (.message right) (.message third)).run
          (handed tree (oneNumber 1) (oneNumber 2)) = (.ok (u, v), h') ∧ h'.equals u v = .ok true := by
  have hreachable := reachable_handed (p := pool) ⟨Set.mem_singleton _, by decide⟩ takes_tree (takes_oneNumber 1)
    (takes_oneNumber 2)
  have htracks : pool.TracksPresence := by decide
  have ha := carries_first (b := oneNumber 1) (c := oneNumber 2) (d := node) rfl nanFree_tree
  have hb := carries_second (a := tree) (c := oneNumber 2) (d := node) rfl (nanFree_oneNumber 1)
  have hc := carries_third (a := tree) (b := oneNumber 1) (d := node) rfl (nanFree_oneNumber 2)
  exact ⟨hreachable, htracks, ha, hb, hc, selectsOnly_oneNumber 2,
    (hreachable.merge_monoid htracks ha hb hc (selectsOnly_oneNumber 2)).1⟩

/-! ### A list in a oneof -/

def choiceField : FieldDescriptor := ⟨choice, field "items" 2 (.scalar .int32) true (some 0)⟩

/-- A message with one number in the list of its oneof. -/
def oneChosen (n : Int32) : Message := .mk choice [(2, .list [.scalar (.i32 n)])] []

theorem takes_oneChosen (n : Int32) : choice.Takes (oneChosen n) := by
  refine (MessageDescriptor.Takes.empty choice).set (f := choiceField) (.tail _ (.head _))
    (.list rfl fun s hs => ?_)
  rw [List.mem_singleton.1 hs]
  exact .scalar rfl

theorem nanFree_choice {number : Nat} {s : Stored} (hs : s.NanFree) :
    (Message.mk choice [(number, s)] []).NanFree := by
  refine .of_stored (fun f hf hno => ?_) fun _ _ _ ht => eq_of_stored?_single ht ▸ hs
  change f ∈ choice.fields at hf
  rcases List.mem_cons.1 hf with rfl | hf
  · cases hno
  · rw [List.mem_singleton.1 hf] at hno
    cases hno

/-- A message that stores no message selects none. -/
theorem selectsOnly_flat {d : MessageDescriptor} {number : Nat} {s : Stored}
    (hs : ∀ m, s ≠ .message m) :
    (Message.mk d [(number, s)] []).SelectsOnly fun t => ∀ m, t ≠ .message m := by
  refine .mk (fun f _ _ _ t ht => ?_) fun f _ m hm => ?_
  · rw [eq_of_stored?_single ht]
    exact hs
  · exact absurd (eq_of_stored?_single hm).symm (hs m)

/-- **Where a list belongs to a oneof**, the grouping matters: the list of the last message is appended
to that of the first one, or not, if the one between them selects another member. No oneof selects a
message here. -/
theorem choice_not_associative :
    Heap.Reachable {choices} (handed (oneChosen 1) five (oneChosen 2)) ∧ choices.TracksPresence ∧
      (handed (oneChosen 1) five (oneChosen 2)).Carries choice root (oneChosen 1) ∧
      (handed (oneChosen 1) five (oneChosen 2)).Carries choice right five ∧
      (handed (oneChosen 1) five (oneChosen 2)).Carries choice third (oneChosen 2) ∧
      (oneChosen 1).SelectsOnly (fun s => ∀ m, s ≠ .message m) ∧
      five.SelectsOnly (fun s => ∀ m, s ≠ .message m) ∧
      (oneChosen 2).SelectsOnly (fun s => ∀ m, s ≠ .message m) ∧
      ∃ u v h', (Script.mergeGrouped ⟨0, ⟨choices, {}⟩⟩ (.message root) (.message right)
          (.message third)).run (handed (oneChosen 1) five (oneChosen 2)) = (.ok (u, v), h') ∧
        h'.equals u v = .ok false := by
  let h := handed (oneChosen 1) five (oneChosen 2)
  have hfive : choice.Takes five := ⟨rfl, conforms_five⟩
  have hreachable : Heap.Reachable {choices} h :=
    reachable_handed ⟨Set.mem_singleton _, by decide⟩ (takes_oneChosen 1) hfive (takes_oneChosen 2)
  have ha : h.Carries choice root (oneChosen 1) := carries_first rfl (nanFree_choice (nanFree_list 1))
  have hb : h.Carries choice right five := carries_second rfl (nanFree_choice (.scalar rfl))
  have hc : h.Carries choice third (oneChosen 2) := carries_third rfl (nanFree_choice (nanFree_list 2))
  refine ⟨hreachable, by decide, ha, hb, hc, selectsOnly_flat nofun, selectsOnly_flat nofun,
    selectsOnly_flat nofun, ?_⟩
  obtain ⟨u, v, h', hrun, hequals⟩ := Heap.mergeGrouped_equals ⟨0, ⟨choices, {}⟩⟩
    hreachable.closed ha hb hc
  refine ⟨u, v, h', hrun, hequals.trans (congrArg Except.ok ?_)⟩
  have hswitch : (oneChosen 1).merge five = five := (Message.merge_eq _ _).trans rfl
  have hback : five.merge (oneChosen 2) = oneChosen 2 := (Message.merge_eq _ _).trans rfl
  have happend : (oneChosen 1).merge (oneChosen 2) =
      .mk choice [(2, .list [.scalar (.i32 1), .scalar (.i32 2)])] [] := (Message.merge_eq _ _).trans rfl
  rw [hswitch, hback, happend]
  refine Bool.eq_false_iff.2 fun hequal => ?_
  have hitems : (Stored.list [.scalar (.i32 2)]).equals
      (.list [.scalar (.i32 1), .scalar (.i32 2)]) = true :=
    (Message.equals_iff.1 hequal).2 choiceField (.tail _ (.head _))
  rw [Stored.equals, Stored.listEquals_iff] at hitems
  have hlength := hitems.length_eq
  cases hlength

end Sample

end Protoscript
