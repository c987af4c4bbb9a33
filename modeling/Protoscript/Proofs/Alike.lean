import Protoscript.Proofs.MergeLaws

/-!
# Messages that are the same on the wire

Two messages are alike if they have the same fields set and those hold the same: scalars the same bits or
equal ones, lists item by item, maps entry by entry. What they hold under fields that are not set does
not matter. They are alike as a whole if what they carry under numbers that their types do not declare is
the same, too, at every depth.

* `Message.under` — what a message carries under a number;
* `Message.Alike`, `Stored.Alike` — the relation;
* `Message.Onto`, `Stored.Onto` — what a message is after another one was read on top of it;
* `Message.Alike.equals` — messages that are alike are equal, if there is no NaN in them.
-/

namespace Protoscript

/-- What a message carries under a number that its type does not declare. -/
def Message.under (m : Message) (number : Nat) : List WireValue :=
  (lookupNumber number m.unknown).getD []

mutual

/-- Whether two stored values are the same on the wire. With `whole`, so is what messages in them carry
under numbers that are not declared. -/
inductive Stored.Alike (whole : Prop) : Stored → Stored → Prop
  | scalar {a b : Scalar} (h : a = b ∨ a.equals b = true) : Stored.Alike whole (.scalar a) (.scalar b)
  | message {x y : Message} (h : x.Alike whole y) : Stored.Alike whole (.message x) (.message y)
  | list {xs ys : List Stored} (hlength : xs.length = ys.length)
    (hitems : ∀ e ∈ xs.zip ys, e.1.Alike whole e.2) : Stored.Alike whole (.list xs) (.list ys)
  | map {xs ys : List (MapKey × Stored)} (hkeys : xs.map (·.1) = ys.map (·.1))
    (hvalues : ∀ e ∈ xs.zip ys, e.1.2.Alike whole e.2.2) : Stored.Alike whole (.map xs) (.map ys)

/-- Whether two messages of one type are the same on the wire. -/
inductive Message.Alike (whole : Prop) : Message → Message → Prop
  | mk {x y : Message} (descriptor : y.descriptor = x.descriptor)
    (set : ∀ f ∈ x.descriptor.fields, y.has f = x.has f)
    (stored : ∀ f ∈ x.descriptor.fields, x.has f = true → ∀ s t, x.stored? f = some s →
      y.stored? f = some t → s.Alike whole t)
    (under : whole → ∀ number, y.under number = x.under number) : Message.Alike whole x y

end

/-! ## Lists and maps -/

namespace Stored

variable {whole : Prop}

theorem alike_list {xs ys : List Stored} :
    (Stored.list xs).Alike whole (.list ys) ↔ List.Forall₂ (Alike whole) xs ys := by
  rw [List.forall₂_iff_zip]
  constructor
  · rintro (_ | _ | ⟨hlength, hitems⟩ | _)
    exact ⟨hlength, fun he => hitems _ he⟩
  · exact fun h => .list h.1 fun e he => h.2 he

/-- Whether two entries of maps have one key and values that are the same on the wire. -/
def EntriesAlike (whole : Prop) (e e' : MapKey × Stored) : Prop := e.1 = e'.1 ∧ e.2.Alike whole e'.2

theorem alike_map {xs ys : List (MapKey × Stored)} :
    (Stored.map xs).Alike whole (.map ys) ↔ List.Forall₂ (EntriesAlike whole) xs ys := by
  constructor
  · rintro (_ | _ | _ | ⟨hkeys, hvalues⟩)
    rw [List.forall₂_iff_zip]
    refine ⟨by simpa using congrArg List.length hkeys, fun {e e'} he => ⟨?_, hvalues _ he⟩⟩
    rw [← List.forall₂_eq_eq_eq, List.forall₂_map_left_iff, List.forall₂_map_right_iff] at hkeys
    exact (List.forall₂_iff_zip.1 hkeys).2 he
  · intro h
    refine .map ?_ fun e he => ((List.forall₂_iff_zip.1 h).2 he).2
    rw [← List.forall₂_eq_eq_eq, List.forall₂_map_left_iff, List.forall₂_map_right_iff]
    exact h.imp fun _ _ he => he.1

/-- Entries that are alike are put in their places in maps that are alike. -/
theorem alike_insertKey {xs ys : List (MapKey × Stored)} (h : List.Forall₂ (EntriesAlike whole) xs ys)
    {key : MapKey} {s t : Stored} (hst : s.Alike whole t) :
    List.Forall₂ (EntriesAlike whole) (insertKey key s xs) (insertKey key t ys) := by
  induction h with
  | nil => exact .cons ⟨rfl, hst⟩ .nil
  | @cons e e' xs ys he hrest ih =>
    rw [insertKey, insertKey, ← he.1]
    split
    · exact .cons ⟨rfl, hst⟩ hrest
    · split
      · exact .cons he ih
      · exact .cons ⟨rfl, hst⟩ (.cons he hrest)

theorem alike_overlay {xs ys us vs : List (MapKey × Stored)}
    (h : List.Forall₂ (EntriesAlike whole) xs ys) (hnew : List.Forall₂ (EntriesAlike whole) us vs) :
    List.Forall₂ (EntriesAlike whole) (us.foldl (fun es e => insertKey e.1 e.2 es) xs)
      (vs.foldl (fun es e => insertKey e.1 e.2 es) ys) := by
  induction hnew generalizing xs ys with
  | nil => exact h
  | @cons e e' us vs he _ ih =>
    rw [List.foldl_cons, List.foldl_cons, ← he.1]
    exact ih (alike_insertKey h he.2)

end Stored

/-! ## Messages on top of others -/

mutual

/-- Whether `t` is what a field that held `u` holds after `s` was read on top of it: a scalar takes the
place of what was there, messages are read into each other, lists appended and maps overlaid. -/
inductive Stored.Onto (whole : Prop) : Stored → Stored → Stored → Prop
  | scalar {u : Stored} {a : Scalar} : Stored.Onto whole u (.scalar a) (.scalar a)
  | message {x y z : Message} (h : Message.Onto whole x y z) :
    Stored.Onto whole (.message x) (.message y) (.message z)
  | list {xs ys zs : List Stored} (h : List.Forall₂ (Stored.Alike whole) ys zs) :
    Stored.Onto whole (.list xs) (.list ys) (.list (xs ++ zs))
  | map {xs ys zs : List (MapKey × Stored)} (h : List.Forall₂ (Stored.EntriesAlike whole) ys zs) :
    Stored.Onto whole (.map xs) (.map ys) (.map (zs.foldl (fun es e => insertKey e.1 e.2 es) xs))

/-- Whether `z` is what `x` is after `y` was read on top of it: what is set in `y` is read on top of what
`x` holds, and with `whole`, what the two carry under numbers that are not declared is joined. -/
inductive Message.Onto (whole : Prop) : Message → Message → Message → Prop
  | mk {x y z : Message} (descriptor : z.descriptor = y.descriptor)
    (set : ∀ f ∈ y.descriptor.fields,
      z.has f = true ↔ y.has f = true ∨ ¬ y.Displaces f ∧ x.has f = true)
    (kept : ∀ f ∈ y.descriptor.fields, y.has f = false → z.has f = true → z.stored? f = x.stored? f)
    (fresh : ∀ f ∈ y.descriptor.fields, x.has f = false → y.has f = true → ∀ s t,
      y.stored? f = some s → z.stored? f = some t → s.Alike whole t)
    (onto : ∀ f ∈ y.descriptor.fields, x.has f = true → y.has f = true → ∀ u s t,
      x.stored? f = some u → y.stored? f = some s → z.stored? f = some t → Stored.Onto whole u s t)
    (under : whole → ∀ number, z.under number = x.under number ++ y.under number) :
    Message.Onto whole x y z

end

/-- What is so for one field if `z` is what `x` is after `y` was read on top of it. -/
structure Message.OntoAt (whole : Prop) (x y z : Message) (f : FieldDescriptor) : Prop where
  set : z.has f = true ↔ y.has f = true ∨ ¬ y.Displaces f ∧ x.has f = true
  kept : y.has f = false → z.has f = true → z.stored? f = x.stored? f
  fresh : x.has f = false → y.has f = true → ∀ s t, y.stored? f = some s → z.stored? f = some t →
    s.Alike whole t
  onto : x.has f = true → y.has f = true → ∀ u s t, x.stored? f = some u → y.stored? f = some s →
    z.stored? f = some t → Stored.Onto whole u s t

namespace Message.Onto

variable {whole : Prop} {x y z : Message} {f : FieldDescriptor}

theorem of_fields (hd : z.descriptor = y.descriptor)
    (hfields : ∀ f ∈ y.descriptor.fields, Message.OntoAt whole x y z f)
    (hunder : whole → ∀ number, z.under number = x.under number ++ y.under number) :
    Message.Onto whole x y z :=
  .mk hd (fun f hf => (hfields f hf).set) (fun f hf => (hfields f hf).kept)
    (fun f hf => (hfields f hf).fresh) (fun f hf => (hfields f hf).onto) hunder

theorem descriptor (h : Message.Onto whole x y z) : z.descriptor = y.descriptor := by
  cases h with
  | mk hd => exact hd

theorem at_field (h : Message.Onto whole x y z) (hf : f ∈ y.descriptor.fields) :
    Message.OntoAt whole x y z f := by
  obtain ⟨-, hset, hkept, hfresh, honto, -⟩ := h
  exact ⟨hset f hf, hkept f hf, hfresh f hf, honto f hf⟩

theorem under (h : Message.Onto whole x y z) (hwhole : whole) (number : Nat) :
    z.under number = x.under number ++ y.under number := by
  cases h with
  | mk _ _ _ _ _ hunder => exact hunder hwhole number

/-- What is read into an empty message is the same on the wire. -/
theorem alike {d : MessageDescriptor} (h : Message.Onto whole (.empty d) y z) : y.Alike whole z := by
  have hempty (f : FieldDescriptor) : (Message.empty d).has f = false := rfl
  refine .mk h.descriptor (fun f hf => ?_) (fun f hf => (h.at_field hf).fresh (hempty f))
    fun hwhole number => ?_
  · have hiff := (h.at_field hf).set
    rw [hempty] at hiff
    rw [Bool.eq_iff_iff, hiff]
    simp
  · rw [h.under hwhole]
    rfl

end Message.Onto

/-! ## Equality -/

variable {p : Pool} {whole : Prop}

mutual

/-- **Messages that are the same on the wire are equal**, if there is no NaN in one of them. -/
theorem Message.Alike.equals (hp : p.TracksPresence) {d : MessageDescriptor} (hd : d.Among {p})
    {x y : Message} (hxy : x.Alike whole y) (hx : d.Takes x) (hy : d.Takes y) (hfree : x.NanFree) :
    x.equals y = true := by
  obtain ⟨hdescriptor, hset, hstored, -⟩ := hxy
  refine Message.equals_iff.2 ⟨congrArg MessageDescriptor.fullName hdescriptor.symm, fun f hf => ?_⟩
  have hfd : f ∈ d.fields := hx.descriptor ▸ hf
  have hof := FieldDescriptor.of_mem hd hfd
  have hhas := hset f hf
  simp only [hhas, bne_self_eq_false, Bool.and_false, Bool.false_eq_true, if_false]
  split
  · rfl
  rename_i hread
  by_cases hxf : x.has f = true
  · obtain ⟨s, hs⟩ := Option.isSome_iff_exists.1 (Message.isSome_of_has hxf)
    obtain ⟨t, ht⟩ := Option.isSome_iff_exists.1 (Message.isSome_of_has (hhas.trans hxf))
    have hlt := Message.sizeOf_stored?_lt hs
    rw [Message.get, hs, ht]
    exact (hstored f hf hxf s t hs ht).equals_of_field hp hof (hx.stored hfd hs) (hy.stored hfd ht)
      (hfree.stored hf hs)
  · -- unset in both, and without presence
    have hxf : x.has f = false := by simpa using hxf
    have hno : f.hasPresence = false := by simpa [hxf] using hread
    have hleft := MessageDescriptor.Takes.get_isDefaultOf hp hof hno hxf fun hs => hfree.default hf hno hs
    have hright := MessageDescriptor.Takes.get_isDefaultOf hp hof hno (hhas.trans hxf) fun _ =>
      FieldDescriptor.nanFree_defaultOf hleft
    exact hx.agree_of_unset hp hof hno hy hfd hleft hright
termination_by (sizeOf x, 0)

theorem Stored.Alike.equals_of_kind (hp : p.TracksPresence) {kind : Kind} (hk : kind.Of p)
    {s t : Stored} (hst : s.Alike whole t) (hs : kind.Holds s) (ht : kind.Holds t) (hfree : s.NanFree) :
    s.equals t = true := by
  cases hst with
  | scalar h =>
    cases hfree with
    | scalar hfree =>
      rw [Stored.equals]
      rcases h with rfl | h
      · exact Scalar.equals_self hfree
      · exact h
  | message hxy =>
    cases hs with
    | message hdx hx =>
      cases ht with
      | message hdy hy =>
        cases hfree with
        | message hfree =>
          rw [Stored.equals]
          exact hxy.equals hp (hk _ rfl) ⟨hdx, hx⟩ ⟨hdy, hy⟩ hfree
  | list => exact absurd hs Kind.Holds.not_list
  | map => exact absurd hs Kind.Holds.not_map
termination_by (sizeOf s, 0)

/-- So are values of a field. -/
theorem Stored.Alike.equals_of_field (hp : p.TracksPresence) {f : FieldDescriptor} (hf : f.Of p)
    {s t : Stored} (hst : s.Alike whole t) (hs : f.Holds s) (ht : f.Holds t) (hfree : s.NanFree) :
    s.equals t = true := by
  cases hs with
  | single hmap hlist hs => exact hst.equals_of_kind hp hf.kind hs (ht.kind hmap hlist) hfree
  | @list _ xs hlist hxs =>
    obtain ⟨ys, rfl, hys⟩ := ht.items hlist
    cases hfree with
    | list hfree =>
      rw [Stored.equals, Stored.listEquals_iff]
      refine forall₂_of_mem (Stored.alike_list.1 hst) fun s hs t ht hst => ?_
      exact hst.equals_of_kind hp hf.kind (hxs s hs) (hys t ht) (hfree s hs)
  | @map _ xs hmap _ hxs _ =>
    obtain ⟨ys, rfl, -, hys, hsorted⟩ := ht.entries hmap
    cases hfree with
    | map hfree =>
      have hentries := Stored.alike_map.1 hst
      simp only [Stored.equals, Bool.and_eq_true, beq_iff_eq, Stored.mapWithin_iff]
      refine ⟨hentries.length_eq, fun e he => ?_⟩
      obtain ⟨e', he', hkey, hvalue⟩ := exists_of_forall₂ hentries.flip he
      refine ⟨e'.2, lookupKey_of_mem (nodup_of_before hsorted) (hkey ▸ he'), ?_⟩
      have hlt : sizeOf e.2 < sizeOf (Stored.map xs) := by
        have hmem := List.sizeOf_lt_of_mem he
        obtain ⟨key, value⟩ := e
        simp only [Prod.mk.sizeOf_spec, Stored.map.sizeOf_spec] at hmem ⊢
        omega
      exact hvalue.equals_of_kind hp hf.valueKind (hxs e he) (hys e' he') (hfree e he)
termination_by (sizeOf s, 1)

end

end Protoscript
