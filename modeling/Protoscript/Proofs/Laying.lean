import Protoscript.Proofs.EqualMessages
import Protoscript.Proofs.Foreign
import Protoscript.Proofs.Parts

/-!
# What a merged message holds

A message that is merged into another one of its type is laid over it field by field: a field that is
set in it is laid over what was there, one whose oneof has another member set in it is unset, and all
other fields stay.

* `Stored.over` — a value laid over what a field held;
* `Message.Displaces` — whether another member of a field's oneof is set;
* `MessageDescriptor.Takes.stored?_merge_of_has`, `…_of_displaces`, `…_of_not_displaces` — what every
  field of a merged message holds;
* `MessageDescriptor.Takes.has_merge` — which fields are set in it;
* `MessageDescriptor.Takes.merge_assoc` — merging is associative, if no oneof of the last message
  selects anything but a scalar.
-/

namespace Protoscript

/-! ## Maps -/

theorem MapKey.le_antisymm {a b : MapKey} (h : a.toScalar.storage? = b.toScalar.storage?)
    (hab : a.le b = true) (hba : b.le a = true) : a = b := by
  cases a <;> cases b <;> simp only [toScalar, Scalar.storage?, Option.some.injEq, reduceCtorEq] at h
  case bool a b => cases a <;> cases b <;> simp_all [le]
  all_goals
    simp only [le, decide_eq_true_eq] at hab hba
    exact congrArg _ (Std.le_antisymm hab hba)

section

variable {kind : Kind} {key : MapKey} {xs ys : List (MapKey × Stored)}

theorem nodup_of_before (h : (xs.map (·.1)).Pairwise MapKey.Before) : (xs.map (·.1)).Nodup :=
  h.imp And.right

/-- Entries in the order of their keys are given by what is looked up. -/
theorem eq_of_lookupKey (hxs : (xs.map (·.1)).Pairwise MapKey.Before)
    (hys : (ys.map (·.1)).Pairwise MapKey.Before) (hkeys : ∀ e ∈ xs, kind.HoldsKey e.1)
    (h : ∀ key, lookupKey key xs = lookupKey key ys) : xs = ys := by
  have mem_iff {zs : List (MapKey × Stored)} (hzs : (zs.map (·.1)).Pairwise MapKey.Before)
      (e : MapKey × Stored) : e ∈ zs ↔ lookupKey e.1 zs = some e.2 :=
    ⟨fun he => lookupKey_of_mem (nodup_of_before hzs) he, lookupKey_mem⟩
  have hperm : xs.Perm ys := by
    refine (List.perm_ext_iff_of_nodup (nodup_of_before hxs).of_map (nodup_of_before hys).of_map).2
      fun e => ?_
    rw [mem_iff hxs, mem_iff hys, h]
  refine hperm.eq_of_pairwise (fun e e' he he' hlt hgt => ?_) (List.pairwise_map.1 hxs)
    (List.pairwise_map.1 hys)
  have hsame := (hkeys e he).storage (hkeys e' (hperm.mem_iff.2 he'))
  exact absurd (MapKey.le_antisymm hsame hlt.1 hgt.1) hlt.2

/-- A key of a map that was laid over another one has the value that it has there, else the one that
it had. -/
theorem lookupKey_overlay (hxs : (xs.map (·.1)).Nodup) :
    lookupKey key (xs.foldl (fun es e => insertKey e.1 e.2 es) ys) =
      (lookupKey key xs).or (lookupKey key ys) := by
  induction xs generalizing ys with
  | nil => rfl
  | cons e rest ih =>
    obtain ⟨hfirst, hrest⟩ := List.nodup_cons.1 hxs
    rw [List.foldl_cons, ih hrest, lookupKey]
    split
    · rename_i hkey
      obtain rfl := hkey
      have hno : lookupKey e.1 rest = none :=
        Option.eq_none_iff_forall_ne_some.2 fun _ hs =>
          hfirst (List.mem_map.2 ⟨_, lookupKey_mem hs, rfl⟩)
      rw [hno, lookupKey_insertKey_self]
      rfl
    · rename_i hne
      rw [lookupKey_insertKey_of_ne hne]

end

/-- **Maps** are overlaid in any grouping. -/
theorem FieldDescriptor.HoldsEntries.overlay_assoc {f : FieldDescriptor}
    {xs ys zs : List (MapKey × Stored)} (hx : f.HoldsEntries xs) (hy : f.HoldsEntries ys)
    (hz : f.HoldsEntries zs) :
    zs.foldl (fun es e => Protoscript.insertKey e.1 e.2 es)
        (ys.foldl (fun es e => Protoscript.insertKey e.1 e.2 es) xs) =
      (zs.foldl (fun es e => Protoscript.insertKey e.1 e.2 es) ys).foldl
        (fun es e => Protoscript.insertKey e.1 e.2 es) xs := by
  have hxy := hx.overlay hy.keys hy.values
  have hyz := hy.overlay hz.keys hz.values
  have hleft := hxy.overlay hz.keys hz.values
  refine eq_of_lookupKey hleft.sorted (hx.overlay hyz.keys hyz.values).sorted hleft.keys fun key => ?_
  rw [lookupKey_overlay (nodup_of_before hz.sorted), lookupKey_overlay (nodup_of_before hy.sorted),
    lookupKey_overlay (nodup_of_before hyz.sorted), lookupKey_overlay (nodup_of_before hz.sorted),
    Option.or_assoc]

/-! ## One value -/

/-- A value laid over what a field held: messages are merged, lists appended, maps overlaid, and
anything else takes the place of what was there. -/
def Stored.over (s : Stored) (old : Option Stored) : Stored :=
  match s, old with
  | .message child, some (.message m) => .message (m.merge child)
  | .list items, some (.list old) => .list (old ++ items)
  | .map entries, some (.map old) => .map (entries.foldl (fun es e => insertKey e.1 e.2 es) old)
  | s, _ => s

@[simp] theorem Stored.over_none (s : Stored) : s.over none = s := by
  cases s <;> rfl

@[simp] theorem Stored.over_scalar (x : Scalar) (old : Option Stored) :
    (Stored.scalar x).over old = .scalar x := by
  rcases old with _ | ⟨_ | _ | _ | _⟩ <;> rfl

/-- A message that a field may hold is of the field's type. -/
theorem FieldDescriptor.Holds.messageType {f : FieldDescriptor} {m : Message}
    (hm : f.Holds (.message m)) :
    ∃ d : MessageDescriptor, f.kind = .message d ∧ d.Takes m := by
  cases hm with
  | single _ _ hs =>
    generalize f.kind = kind at hs
    cases hs with
    | message hd hm => exact ⟨_, rfl, hd, hm⟩

namespace Message

variable {m dst src : Message} {f g : FieldDescriptor} {s : Stored}

theorem lay_list {items old : List Stored} (hlist : f.isList = true) (hget : m.get f = .list old) :
    m.lay f (.list items) = m.set f (.list (old ++ items)) := by
  have hmap := FieldDescriptor.isMap_of_isList hlist
  simp [lay, extend, hmap, hlist, hget]

theorem lay_map {entries old : List (MapKey × Stored)} (hmap : f.isMap = true)
    (hget : m.get f = .map old) : m.lay f (.map entries) =
      m.set f (.map (entries.foldl (fun es e => insertKey e.1 e.2 es) old)) := by
  simp [lay, overlay, hmap, hget]

/-- Something of the field's type that is laid over a field is written to it. -/
theorem lay_eq (hs : f.Holds s) (hold : ∀ t, m.stored? f = some t → f.Holds t) :
    m.lay f s = m.set f (s.over (m.stored? f)) := by
  cases hs with
  | @list _ items hlist =>
    rcases hstored : m.stored? f with _ | t
    · have hget : m.get f = .list [] := (get_of_none hstored).trans (Stored.defaultOf_list hlist)
      rw [lay_list hlist hget, Stored.over_none, List.nil_append]
    · obtain ⟨old, rfl, -⟩ := (hold t hstored).items hlist
      exact lay_list hlist (get_of_stored? rfl hstored)
  | @map _ entries hmap _ _ hsorted =>
    rcases hstored : m.stored? f with _ | t
    · have hget : m.get f = .map [] := (get_of_none hstored).trans (Stored.defaultOf_map hmap)
      have hentries := mapOfEntries_of_sorted hsorted
      unfold mapOfEntries at hentries
      rw [lay_map hmap hget, hentries, Stored.over_none]
    · obtain ⟨old, rfl, -⟩ := (hold t hstored).entries hmap
      exact lay_map hmap (get_of_stored? rfl hstored)
  | single hmap hlist hs =>
    rcases s with x | child | items | entries
    · simp [lay, hmap, hlist]
    · obtain ⟨d, hkind, -⟩ := (FieldDescriptor.Holds.single hmap hlist hs).messageType
      rcases hstored : m.stored? f with _ | t
      · simp [lay, hmap, hlist, has, hstored]
      · have hhas := has_of_message hmap hlist hkind hstored
        have ht := (hold t hstored).kind hmap hlist
        rw [hkind] at ht
        cases ht with
        | scalar hno => cases hno
        | message => simp [lay, hmap, hlist, hhas, get_of_stored? rfl hstored, Stored.over]
    · exact absurd hs Kind.Holds.not_list
    · exact absurd hs Kind.Holds.not_map

end Message

namespace FieldDescriptor.Holds

variable {f : FieldDescriptor} {s t : Stored}

/-- What is laid over something is no default, if it is none by itself. -/
theorem isDefaultOf_over (hs : f.Holds s) {old : Option Stored} (h : s.isDefaultOf f = false) :
    (s.over old).isDefaultOf f = false := by
  cases hs with
  | @list _ items hlist =>
    rcases old with _ | ⟨x | m | olds | es⟩ <;> try exact h
    simp only [Stored.isDefaultOf, hlist, Bool.true_and, List.isEmpty_eq_false_iff] at h
    simp [Stored.over, Stored.isDefaultOf, hlist, h]
  | @map _ entries hmap _ _ hsorted =>
    rcases old with _ | ⟨x | m | olds | es⟩ <;> try exact h
    simp only [Stored.isDefaultOf, hmap, Bool.true_and, List.isEmpty_eq_false_iff] at h
    obtain ⟨e, he⟩ := List.exists_mem_of_ne_nil _ h
    have hmem : e ∈ entries.foldl (fun es e => insertKey e.1 e.2 es) es :=
      mem_overlay_of_mem (nodup_of_before hsorted) he
    simp only [Stored.over, Stored.isDefaultOf, hmap, Bool.true_and, List.isEmpty_eq_false_iff]
    exact List.ne_nil_of_mem hmem
  | single hmap hlist hs =>
    rcases s with x | child | items | entries
    · rwa [Stored.over_scalar]
    · rcases old with _ | ⟨x | m | olds | es⟩ <;> rfl
    · exact absurd hs Kind.Holds.not_list
    · exact absurd hs Kind.Holds.not_map

/-- What is laid over a default takes its place. -/
theorem over_default (hs : f.Holds s) (ht : t.isDefaultOf f = true) : s.over (some t) = s := by
  cases hs with
  | list hlist =>
    rcases t with x | m | olds | es <;> try rfl
    simp only [Stored.isDefaultOf, hlist, Bool.true_and, List.isEmpty_iff] at ht
    simp [Stored.over, ht]
  | map hmap _ _ hsorted =>
    rcases t with x | m | olds | es <;> try rfl
    simp only [Stored.isDefaultOf, hmap, Bool.true_and, List.isEmpty_iff] at ht
    have hentries := mapOfEntries_of_sorted hsorted
    unfold mapOfEntries at hentries
    simp [Stored.over, ht, hentries]
  | single hmap hlist hs =>
    rcases s with x | child | items | entries
    · exact Stored.over_scalar x _
    · rcases t with x | m | olds | es <;> first | rfl | cases ht
    · exact absurd hs Kind.Holds.not_list
    · exact absurd hs Kind.Holds.not_map

/-- What is laid over a field is of the field's type. -/
theorem holds_over {old : Option Stored} (hs : f.Holds s) (hold : ∀ u ∈ old, f.Holds u) :
    f.Holds (s.over old) := by
  rcases old with _ | u
  · rwa [Stored.over_none]
  have hu := hold u rfl
  cases hs with
  | list hlist hitems =>
    obtain ⟨xs, rfl, hxs⟩ := hu.items hlist
    exact .list hlist fun s hs => (List.mem_append.1 hs).elim (hxs s) (hitems s)
  | map hmap hkeys hvalues =>
    obtain ⟨xs, rfl, hkeys', hvalues', hsorted'⟩ := hu.entries hmap
    exact (HoldsEntries.overlay ⟨hkeys', hvalues', hsorted'⟩ hkeys hvalues).holds hmap
  | single hmap hlist hs =>
    have hu := hu.kind hmap hlist
    refine .single hmap hlist ?_
    -- a message is merged into the old one, a scalar replaces it
    generalize f.kind = kind at hs hu
    cases hs with
    | scalar hs =>
      rw [Stored.over_scalar]
      exact .scalar hs
    | message hd hm =>
      cases hu with
      | scalar hno => cases hno
      | message hd' hm' => exact (Message.takes_merge ⟨hd', hm'⟩ ⟨hd, hm⟩).holds

/-- Messages that one field may hold are of one type. -/
theorem sameType {d : MessageDescriptor} {m : Message} (hd : f.kind = .message d)
    (hm : f.Holds (.message m)) : d.Takes m := by
  obtain ⟨e, he, htakes⟩ := hm.messageType
  cases hd.symm.trans he
  exact htakes

/-- **One value.** What is laid over a field in two steps can be put together before. That merging is
associative on messages inside is known by induction. -/
theorem over_assoc {s t : Stored} {old : Option Stored} (hs : f.Holds s) (ht : f.Holds t)
    (hold : ∀ u ∈ old, f.Holds u)
    (ih : ∀ x y z : Message, s = .message z → t = .message y → old = some (.message x) →
      (x.merge y).merge z = x.merge (y.merge z)) :
    s.over (some (t.over old)) = (s.over (some t)).over old := by
  rcases old with _ | u
  · rw [Stored.over_none, Stored.over_none]
  have hu := hold u rfl
  cases hs with
  | list hlist =>
    obtain ⟨ys, rfl, -⟩ := ht.items hlist
    obtain ⟨xs, rfl, -⟩ := hu.items hlist
    simp [Stored.over]
  | map hmap hkeys hvalues hsorted =>
    obtain ⟨ys, rfl, hkeys', hvalues', hsorted'⟩ := ht.entries hmap
    obtain ⟨xs, rfl, hkeys'', hvalues'', hsorted''⟩ := hu.entries hmap
    exact congrArg Stored.map (HoldsEntries.overlay_assoc ⟨hkeys'', hvalues'', hsorted''⟩
      ⟨hkeys', hvalues', hsorted'⟩ ⟨hkeys, hvalues, hsorted⟩)
  | single hmap hlist hs =>
    have ht := ht.kind hmap hlist
    have hu := hu.kind hmap hlist
    generalize f.kind = kind at hs ht hu
    cases hs with
    | scalar => simp only [Stored.over_scalar]
    | @message _ z =>
      cases ht with
      | scalar hno => cases hno
      | @message _ y =>
        cases hu with
        | scalar hno => cases hno
        | @message _ x => exact congrArg Stored.message (ih x y z rfl rfl rfl)

end FieldDescriptor.Holds

namespace Message

variable {m dst src : Message} {f g : FieldDescriptor} {s : Stored}

/-! ## All fields -/

/-- Whether another member of the oneof of a field is set. -/
def Displaces (m : Message) (f : FieldDescriptor) : Prop := ∃ g ∈ f.siblings, m.has g = true

end Message

namespace MessageDescriptor.Takes

variable {d : MessageDescriptor} {m a b c dst src : Message} {f g : FieldDescriptor}

/-- A field of which another member of the oneof is set holds nothing. -/
theorem stored?_of_displaces (hm : d.Takes m) (hf : f ∈ d.fields) (h : m.Displaces f) :
    m.stored? f = none := by
  obtain ⟨g, hg, hhas⟩ := h
  have hmessage : f.message = d := (mem_fields.1 hf).1
  have hgd : g ∈ d.fields := hmessage ▸ (FieldDescriptor.rivals_iff.1 hg).2.1
  refine hm.siblings_eq_none hgd (Message.isSome_of_has hhas) f ?_
  exact FieldDescriptor.Rivals.symm (by rwa [hmessage]) hg

/-- A field of which another member of the oneof is set is not set. -/
theorem has_of_displaces (hm : d.Takes m) (hf : f ∈ d.fields) (h : m.Displaces f) :
    m.has f = false :=
  Message.has_of_none (hm.stored?_of_displaces hf h)

theorem merge (hdst : d.Takes dst) (hsrc : d.Takes src) : d.Takes (dst.merge src) :=
  Message.takes_merge hdst hsrc

/-- What is set is laid over what was there. -/
theorem stored?_merge_of_has (hdst : d.Takes dst) (hsrc : d.Takes src) (hf : f ∈ d.fields)
    (hset : src.has f = true) :
    (dst.merge src).stored? f = (src.stored? f).map fun s => s.over (dst.stored? f) := by
  obtain ⟨s, hs⟩ := Option.isSome_iff_exists.1 (Message.isSome_of_has hset)
  obtain ⟨m, hm, hmerged⟩ :=
    Message.stored?_merge_of_set dst hsrc.conforms (hsrc.descriptor.symm ▸ hf) hset hs
  rw [hmerged, Message.lay_eq (hsrc.stored hf hs) fun t ht => hdst.stored hf (hm ▸ ht),
    Message.stored?_set_self m rfl, hs, Option.map_some, hm]

/-- What is unset stays, unless another member of the oneof is set. -/
theorem stored?_merge_of_not_displaces (hsrc : d.Takes src) (hf : f ∈ d.fields)
    (hunset : src.has f = false) (hno : ¬ src.Displaces f) :
    (dst.merge src).stored? f = dst.stored? f := by
  rw [Message.merge_eq]
  refine List.foldl_keeps (P := fun m : Message => m.stored? f = dst.stored? f)
    (fun m g hg hm => ?_) rfl
  change (src.mergeField m g).stored? f = dst.stored? f
  rcases src.mergeField_cases m g with he | ⟨hset, s, he⟩
  · rwa [he]
  · have hgd : g ∈ d.fields := hsrc.descriptor ▸ hg
    have hmessage : g.message = d := (mem_fields.1 hgd).1
    have hne : f.number ≠ g.number := by
      intro hnumber
      obtain rfl := eq_of_number hf hgd hnumber
      rw [hunset] at hset
      cases hset
    have hrivals : ¬ g.Rivals f := fun h =>
      hno ⟨g, FieldDescriptor.Rivals.symm (by rwa [hmessage]) h, hset⟩
    rw [he, Message.stored?_lay_of_ne hne,
      Message.stored?_select_of_not_rivals m (hmessage.symm ▸ hf) hrivals, hm]

/-- Setting another member of the oneof unsets a field. -/
theorem stored?_merge_of_displaces (hsrc : d.Takes src) (hf : f ∈ d.fields)
    (h : src.Displaces f) : (dst.merge src).stored? f = none := by
  have hunset := hsrc.has_of_displaces hf h
  obtain ⟨g, hg, hset⟩ := h
  have hmessage : f.message = d := (mem_fields.1 hf).1
  have hgd : g ∈ d.fields := hmessage ▸ (FieldDescriptor.rivals_iff.1 hg).2.1
  have hrivals : g.Rivals f := FieldDescriptor.Rivals.symm (by rwa [hmessage]) hg
  have hne : f.number ≠ g.number := (FieldDescriptor.rivals_iff.1 hrivals).2.2.2
  obtain ⟨s, hs⟩ := Option.isSome_iff_exists.1 (Message.isSome_of_has hset)
  obtain ⟨before, after, hfields⟩ := List.append_of_mem (hsrc.descriptor.symm ▸ hgd)
  have hmerge : dst.merge src = (before ++ g :: after).foldl src.mergeField dst := by
    rw [Message.merge_eq, hfields]
    rfl
  -- once unset, it is not set again by a field of another number
  rw [hmerge, List.foldl_append, List.foldl_cons, Message.mergeField_of_set hset hs]
  refine List.foldl_keeps (P := fun m : Message => m.stored? f = none) (fun m k hk hm => ?_) ?_
  · rcases src.mergeField_cases m k with he | ⟨hset, t, he⟩
    · rwa [he]
    · have hkd : k ∈ d.fields := by
        rw [← hsrc.descriptor, hfields]
        exact List.mem_append_right _ (.tail _ hk)
      have hne : f.number ≠ k.number := by
        intro hnumber
        obtain rfl := eq_of_number hf hkd hnumber
        rw [hunset] at hset
        cases hset
      rw [he, Message.stored?_lay_of_ne hne]
      exact (m.stored?_select_eq k f).elim id fun hsame => hsame.trans hm
  · rw [Message.stored?_lay_of_ne hne]
    exact Message.stored?_select_of_rivals _ hrivals

/-- Merging adds no unknown data and takes none away. -/
theorem unknown_merge (hdst : d.Takes dst) (hsrc : d.Takes src) :
    (dst.merge src).unknown = dst.unknown := by
  rw [Message.merge_eq]
  refine (List.foldl_keeps (P := fun m : Message => d.Takes m ∧ m.unknown = dst.unknown)
    (fun m g hg hm => ?_) ⟨hdst, rfl⟩).2
  change d.Takes (src.mergeField m g) ∧ (src.mergeField m g).unknown = dst.unknown
  rw [hsrc.descriptor] at hg
  by_cases hset : src.has g = true
  · obtain ⟨s, hs⟩ := Option.isSome_iff_exists.1 (Message.isSome_of_has hset)
    have hholds := hsrc.stored hg hs
    have hold : ∀ t, m.stored? g = some t → g.Holds t := fun t ht => hm.1.stored hg ht
    rw [Message.mergeField_of_set hset hs, Message.lay_eq hholds hold]
    exact ⟨hm.1.set hg (hholds.holds_over hold), (hm.1.unknown_set hg _).trans hm.2⟩
  · rwa [Message.mergeField, if_neg hset]

/-- What is set in either message is set in the merged one, unless the second one sets another member
of the oneof. -/
theorem has_merge (hdst : d.Takes dst) (hsrc : d.Takes src) (hf : f ∈ d.fields) :
    (dst.merge src).has f = true ↔ src.has f = true ∨ ¬ src.Displaces f ∧ dst.has f = true := by
  by_cases hset : src.has f = true
  · refine iff_of_true ?_ (.inl hset)
    obtain ⟨s, hs⟩ := Option.isSome_iff_exists.1 (Message.isSome_of_has hset)
    have hmerged := hdst.stored?_merge_of_has hsrc hf hset
    rw [hs, Option.map_some] at hmerged
    rw [Message.has_of_some hs] at hset
    rw [Message.has_of_some hmerged]
    rw [Bool.or_eq_true, Bool.not_eq_true'] at hset ⊢
    exact hset.imp_right fun hs' => (hsrc.stored hf hs).isDefaultOf_over hs'
  · have hunset : src.has f = false := by simpa using hset
    by_cases hdisplaces : src.Displaces f
    · have hnone : (dst.merge src).stored? f = none := hsrc.stored?_merge_of_displaces hf hdisplaces
      have hhas : (dst.merge src).has f = false := Message.has_of_none hnone
      simp [hhas, hunset, hdisplaces]
    · have hsame : (dst.merge src).stored? f = dst.stored? f :=
        hsrc.stored?_merge_of_not_displaces hf hunset hdisplaces
      have hhas : (dst.merge src).has f = dst.has f := Message.has_congr hsame
      simp [hhas, hunset, hdisplaces]

/-- In the last of three messages another member of the oneof is set, or in the one before it, if
that is so when they are merged. -/
theorem displaces_merge (hdst : d.Takes dst) (hsrc : d.Takes src) (hf : f ∈ d.fields)
    (hunset : src.has f = false) (hno : ¬ src.Displaces f) :
    (dst.merge src).Displaces f ↔ dst.Displaces f := by
  have hmessage : f.message = d := (mem_fields.1 hf).1
  refine exists_congr fun g => and_congr_right fun hg => ?_
  obtain ⟨-, hgf, hone, -⟩ := FieldDescriptor.rivals_iff.1 (show f.Rivals g from hg)
  have hgd : g ∈ d.fields := hmessage ▸ hgf
  have hgset : src.has g = false := by
    rcases h : src.has g with _ | _
    · rfl
    · exact absurd ⟨g, hg, h⟩ hno
  -- the other members of the oneof of `g` are `f` and those of the oneof of `f`
  have hgno : ¬ src.Displaces g := by
    rintro ⟨k, hk, hkset⟩
    obtain ⟨hsome, hkd, hkone, -⟩ := FieldDescriptor.rivals_iff.1 (show g.Rivals k from hk)
    rw [(mem_fields.1 hgd).1] at hkd
    by_cases hkf : k.number = f.number
    · rw [eq_of_number hkd hf hkf, hunset] at hkset
      cases hkset
    · refine hno ⟨k, FieldDescriptor.rivals_iff.2 ⟨?_, hmessage.symm ▸ hkd, ?_, hkf⟩, hkset⟩
      · rwa [hone] at hsome
      · rw [hkone, hone]
  rw [hdst.has_merge hsrc hgd]
  simp [hgset, hgno]

end MessageDescriptor.Takes

/-! ## Merging in any grouping -/

/-- Whether a stored value is a scalar. -/
def Stored.IsScalar (s : Stored) : Prop := ∃ x, s = .scalar x

/-- Whether whatever a oneof selects has a property, in a message and, at any depth, in the messages
that its fields hold. -/
inductive Message.SelectsOnly (P : Stored → Prop) : Message → Prop
  | mk {m : Message}
      (selected : ∀ f ∈ m.descriptor.fields, f.inOneof = true → m.has f = true →
        ∀ s, m.stored? f = some s → P s)
      (inside : ∀ f ∈ m.descriptor.fields, ∀ n, m.stored? f = some (.message n) →
        n.SelectsOnly P) : Message.SelectsOnly P m

namespace MessageDescriptor.Takes

variable {b : Message} {f : FieldDescriptor}

/-- What a message holds under a field that is not set is a default. -/
theorem over_of_not_has {s : Stored} (hs : f.Holds s) (hunset : b.has f = false) :
    s.over (b.stored? f) = s := by
  rcases ht : b.stored? f with _ | t
  · exact s.over_none
  · exact hs.over_default (Message.isDefaultOf_of_not_has ht hunset)

/-- **Merging is associative** on messages of one type, if no oneof of the last one selects anything
but a scalar. The induction is on that message. -/
theorem merge_assoc {d : MessageDescriptor} {a b c : Message} (ha : d.Takes a) (hb : d.Takes b)
    (hc : d.Takes c) (hselects : c.SelectsOnly Stored.IsScalar) :
    (a.merge b).merge c = a.merge (b.merge c) := by
  obtain ⟨selected, inside⟩ := hselects
  rw [hc.descriptor] at selected inside
  have hab := ha.merge hb
  have hbc := hb.merge hc
  refine (ha.merge hbc).eq_of_stored? (hab.merge hc) ?_ fun f hf => ?_
  · rw [hab.unknown_merge hc, ha.unknown_merge hb, ha.unknown_merge hbc]
  by_cases hset : c.has f = true
  · -- what the last message sets is laid over what the others leave there
    obtain ⟨s, hs⟩ := Option.isSome_iff_exists.1 (Message.isSome_of_has hset)
    have hholds := hc.stored hf hs
    have hset' : (b.merge c).has f = true := (hb.has_merge hc hf).2 (.inl hset)
    rw [hab.stored?_merge_of_has hc hf hset, ha.stored?_merge_of_has hbc hf hset',
      hb.stored?_merge_of_has hc hf hset, hs, Option.map_some, Option.map_some, Option.map_some]
    refine congrArg some ?_
    by_cases hmid : b.has f = true
    · obtain ⟨t, ht⟩ := Option.isSome_iff_exists.1 (Message.isSome_of_has hmid)
      rw [ha.stored?_merge_of_has hb hf hmid, ht, Option.map_some]
      refine hholds.over_assoc (hb.stored hf ht) (fun u hu => ha.stored hf hu) fun x y z hz hy hx => ?_
      subst hz hy
      have hlt : sizeOf z < sizeOf c := by
        have := Message.sizeOf_stored?_lt hs
        simp only [Stored.message.sizeOf_spec] at this
        omega
      obtain ⟨e, hkind, hz⟩ := hholds.messageType
      exact merge_assoc ((ha.stored hf hx).sameType hkind) ((hb.stored hf ht).sameType hkind) hz
        (inside f hf z hs)
    · have hmid : b.has f = false := by simpa using hmid
      rw [over_of_not_has hholds hmid]
      by_cases hdisplaces : b.Displaces f
      · -- then the field is a member of a oneof, and what is selected is a scalar
        obtain ⟨g, hg, -⟩ := hdisplaces
        obtain ⟨x, rfl⟩ := selected f hf (FieldDescriptor.rivals_iff.1 hg).1 hset s hs
        rw [Stored.over_scalar, Stored.over_scalar]
      · rw [hb.stored?_merge_of_not_displaces hf hmid hdisplaces]
  · have hunset : c.has f = false := by simpa using hset
    by_cases hdisplaces : c.Displaces f
    · have hdisplaces' : (b.merge c).Displaces f := by
        obtain ⟨g, hg, hgset⟩ := hdisplaces
        have hgd : g ∈ d.fields := (mem_fields.1 hf).1 ▸ (FieldDescriptor.rivals_iff.1 hg).2.1
        exact ⟨g, hg, (hb.has_merge hc hgd).2 (.inl hgset)⟩
      rw [hc.stored?_merge_of_displaces hf hdisplaces, hbc.stored?_merge_of_displaces hf hdisplaces']
    · have hsame : (b.merge c).stored? f = b.stored? f :=
        hc.stored?_merge_of_not_displaces hf hunset hdisplaces
      have hhas : (b.merge c).has f = b.has f := Message.has_congr hsame
      have hdisplaces' := hb.displaces_merge hc hf hunset hdisplaces
      rw [hc.stored?_merge_of_not_displaces hf hunset hdisplaces]
      by_cases hmid : b.has f = true
      · rw [ha.stored?_merge_of_has hb hf hmid, ha.stored?_merge_of_has hbc hf (hhas.trans hmid), hsame]
      · have hmid : b.has f = false := by simpa using hmid
        by_cases hother : b.Displaces f
        · rw [hb.stored?_merge_of_displaces hf hother,
            hbc.stored?_merge_of_displaces hf (hdisplaces'.2 hother)]
        · rw [hb.stored?_merge_of_not_displaces hf hmid hother,
            hbc.stored?_merge_of_not_displaces hf (hhas.trans hmid) fun h => hother (hdisplaces'.1 h)]
termination_by sizeOf c
decreasing_by
  exact hlt

end MessageDescriptor.Takes

end Protoscript
