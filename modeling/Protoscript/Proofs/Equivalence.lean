import Protoscript.Proofs.NanFree
import Protoscript.Proofs.Reading

/-!
# Equality of stored messages is an equivalence

For messages of one type equality asks the fields one by one: whether those with presence are set, and
what those read as that count. So it is transitive, and it does not tell a message from its canonical
form.

* `Message.AgreeOn` — what equality asks of one field; `Message.equals_iff_agreeOn`;
* `Message.equals_trans` — equality is transitive;
* `Message.agreeOn_congr` — the canonical forms fix on which fields messages agree, if no list or map
  belongs to a oneof.
-/

namespace Protoscript

variable {p : Pool}

/-! ## Fields -/

namespace Stored

variable {s t u : Stored}

theorem flatEquals_eq (hs : s = .map [] ∨ s = .list [] ∨ ∃ x, s = .scalar x) :
    s.flatEquals t = s.equals t := by
  rcases hs with rfl | rfl | ⟨x, rfl⟩
  · cases t with
    | map entries => cases entries <;> simp [equals, flatEquals, mapWithin]
    | _ => simp [equals, flatEquals]
  · cases t with
    | list items => cases items <;> simp [equals, flatEquals, listEquals]
    | _ => simp [equals, flatEquals]
  · cases t <;> simp [equals, flatEquals]

/-- What equals an empty list or map is one. -/
theorem equals_trans_flat (hs : s = .map [] ∨ s = .list [] ∨ ∃ x, s = .scalar x)
    (hst : s.equals t = true) (htu : t.equals u = true) : s.equals u = true := by
  rcases hs with rfl | rfl | ⟨x, rfl⟩
  · cases t with
    | map ys =>
      simp only [equals, Bool.and_eq_true, beq_iff_eq] at hst
      obtain rfl := List.length_eq_zero_iff.1 hst.1.symm
      exact htu
    | _ => simp [equals] at hst
  · cases t with
    | list ys =>
      cases ys with
      | nil => exact htu
      | cons => simp [equals, listEquals] at hst
    | _ => simp [equals] at hst
  · cases t with
    | scalar y =>
      cases u with
      | scalar z =>
        simp only [equals] at hst htu ⊢
        exact Scalar.equals_trans hst htu
      | _ => simp [equals] at htu
    | _ => simp [equals] at hst

end Stored

/-- Whether two messages agree on a field: a field with presence is set in both or in neither, and what
the field reads as is equal, unless it has presence and is unset. -/
structure Message.AgreeOn (x y : Message) (f : FieldDescriptor) : Prop where
  has (hpresence : f.hasPresence = true) : x.has f = y.has f
  get (hcounts : f.hasPresence = true → x.has f = true) : (x.get f).equals (y.get f) = true

namespace Message

variable {x y z : Message} {d : MessageDescriptor} {f : FieldDescriptor}

/-- Messages are equal if their types have one name and they agree on every field. -/
theorem equals_iff_agreeOn (hp : p.TracksPresence) (hd : d.Among {p}) (hx : x.descriptor = d) :
    x.equals y = true ↔ x.fullName = y.fullName ∧ ∀ f ∈ d.fields, x.AgreeOn y f := by
  rw [equals_iff, hx]
  refine and_congr_right fun _ => forall₂_congr fun f hf => ?_
  rcases hpresence : f.hasPresence with _ | _
  · have hflat := (FieldDescriptor.of_mem hd hf).default_of_no_presence hp hpresence
    have hget : x.AgreeOn y f ↔ (x.get f).equals (y.get f) = true :=
      ⟨fun h => h.get (by simp [hpresence]), fun h => ⟨by simp [hpresence], fun _ => h⟩⟩
    rw [hget]
    unfold get
    rcases x.stored? f with _ | s
    · simp [Stored.flatEquals_eq hflat]
    · simp
  · have hset : x.has f = (x.stored? f).isSome := has_of_hasPresence hpresence
    rcases hs : x.stored? f with _ | s <;> rw [hs] at hset
    · have hhas : x.AgreeOn y f ↔ x.has f = y.has f :=
        ⟨fun h => h.has hpresence, fun h => ⟨fun _ => h, fun hcounts => by
          have hyes := hset.symm.trans (hcounts hpresence)
          cases hyes⟩⟩
      rw [hhas, hset]
      rcases y.has f with _ | _ <;> simp
    · have hagree : x.AgreeOn y f ↔ x.has f = y.has f ∧ s.equals (y.get f) = true := by
        have hget : x.get f = s := by
          unfold get
          rw [hs]
          rfl
        rw [← hget]
        exact ⟨fun h => ⟨h.has hpresence, h.get fun _ => hset⟩, fun h => ⟨fun _ => h.1, fun _ => h.2⟩⟩
      rw [hagree, hset]
      rcases y.has f with _ | _ <;> simp

end Message

/-! ## Transitivity -/

/-- Relations that hold item by item are composed item by item. -/
theorem forall₂_comp_of_mem {α β γ : Type} {R : α → β → Prop} {S : β → γ → Prop} {T : α → γ → Prop}
    {xs : List α} {ys : List β} {zs : List γ} (hR : List.Forall₂ R xs ys) (hS : List.Forall₂ S ys zs)
    (hT : ∀ x ∈ xs, ∀ y ∈ ys, ∀ z, R x y → S y z → T x z) : List.Forall₂ T xs zs := by
  induction hR generalizing zs with
  | nil =>
    cases hS
    exact .nil
  | @cons x y xs ys hxy _ ih =>
    cases hS with
    | cons hyz hS =>
      refine .cons (hT x List.mem_cons_self y List.mem_cons_self _ hxy hyz) (ih hS ?_)
      exact fun x hx y hy => hT x (.tail _ hx) y (.tail _ hy)

mutual

/-- **Equality of messages is transitive.** -/
theorem Message.equals_trans (hp : p.TracksPresence) {d : MessageDescriptor} (hd : d.Among {p})
    {x y z : Message} (hx : d.Takes x) (hy : d.Takes y) (hxy : x.equals y = true)
    (hyz : y.equals z = true) : x.equals z = true := by
  obtain ⟨hname, hxy⟩ := (Message.equals_iff_agreeOn hp hd hx.descriptor).1 hxy
  obtain ⟨hname', hyz⟩ := (Message.equals_iff_agreeOn hp hd hy.descriptor).1 hyz
  refine (Message.equals_iff_agreeOn hp hd hx.descriptor).2 ⟨hname.trans hname', fun f hf => ?_⟩
  have hfirst := hxy f hf
  have hsecond := hyz f hf
  refine ⟨fun hpresence => (hfirst.has hpresence).trans (hsecond.has hpresence), fun hcounts => ?_⟩
  have hst := hfirst.get hcounts
  have htu := hsecond.get fun hpresence => (hfirst.has hpresence).symm.trans (hcounts hpresence)
  have hof := FieldDescriptor.of_mem hd hf
  rcases hs : x.stored? f with _ | s
  · have hno : f.hasPresence = false := by
      rcases hpresence : f.hasPresence with _ | _
      · rfl
      · have hset := hcounts hpresence
        rw [Message.has_of_hasPresence hpresence, hs] at hset
        cases hset
    rw [Message.get_of_none hs] at hst ⊢
    exact Stored.equals_trans_flat (hof.default_of_no_presence hp hno) hst htu
  · have hlt := Message.sizeOf_stored?_lt hs
    rw [Message.get_of_stored? rfl hs] at hst ⊢
    exact FieldDescriptor.Of.equals_trans hp hof (hx.stored hf hs) (hy.get hf) hst htu
termination_by (sizeOf x, 0)

theorem Kind.Of.equals_trans (hp : p.TracksPresence) {kind : Kind} (hk : kind.Of p) {s t u : Stored}
    (hs : kind.Holds s) (ht : kind.Holds t) (hst : s.equals t = true) (htu : t.equals u = true) :
    s.equals u = true := by
  cases hs with
  | scalar => exact Stored.equals_trans_flat (.inr (.inr ⟨_, rfl⟩)) hst htu
  | @message d x hdx hx =>
    cases ht with
    | scalar => simp [Stored.equals] at hst
    | @message _ y hdy hy =>
      cases u with
      | message z =>
        simp only [Stored.equals] at hst htu ⊢
        exact Message.equals_trans hp (hk d rfl) ⟨hdx, hx⟩ ⟨hdy, hy⟩ hst htu
      | _ => simp [Stored.equals] at htu
termination_by (sizeOf s, 0)

theorem FieldDescriptor.Of.equals_trans (hp : p.TracksPresence) {f : FieldDescriptor} (hf : f.Of p)
    {s t u : Stored} (hs : f.Holds s) (ht : f.Holds t) (hst : s.equals t = true)
    (htu : t.equals u = true) : s.equals u = true := by
  cases hs with
  | single hmap hlist hs => exact hf.kind.equals_trans hp hs (ht.kind hmap hlist) hst htu
  | @list _ xs hlist hxs =>
    obtain ⟨ys, rfl, hys⟩ := ht.items hlist
    cases u with
    | list zs =>
      simp only [Stored.equals, Stored.listEquals_iff] at hst htu ⊢
      refine forall₂_comp_of_mem hst htu fun x hx y hy z hxy hyz => ?_
      have hlt := List.sizeOf_lt_of_mem hx
      exact hf.kind.equals_trans hp (hxs x hx) (hys y hy) hxy hyz
    | _ => simp [Stored.equals] at htu
  | @map _ xs hmap _ hxs =>
    obtain ⟨ys, rfl, -, hys, -⟩ := ht.entries hmap
    cases u with
    | map zs =>
      simp only [Stored.equals, Bool.and_eq_true, beq_iff_eq, Stored.mapWithin_iff] at hst htu ⊢
      refine ⟨hst.1.trans htu.1, fun e he => ?_⟩
      -- an entry is found by its key in the second map, and from there in the third
      obtain ⟨t, ht, het⟩ := hst.2 e he
      obtain ⟨u, hu, htu⟩ := htu.2 _ (lookupKey_mem ht)
      refine ⟨u, hu, ?_⟩
      have hlt : sizeOf e.2 < sizeOf (Stored.map xs) := by
        have hmem := List.sizeOf_lt_of_mem he
        obtain ⟨key, value⟩ := e
        simp only [Prod.mk.sizeOf_spec, Stored.map.sizeOf_spec] at hmem ⊢
        omega
      exact hf.valueKind.equals_trans hp (hxs e he) (hys _ (lookupKey_mem ht)) het htu
    | _ => simp [Stored.equals] at htu
termination_by (sizeOf s, 1)

end

/-! ## Canonical forms -/

namespace FieldDescriptor

variable {f : FieldDescriptor}

/-- Lists and maps have no presence, if none belongs to a oneof. -/
theorem Of.no_presence (hf : f.Of p) (hlaw : p.Lawful) (hrepeated : f.info.isRepeated = true) :
    f.hasPresence = false :=
  f.info.repeated_presence hrepeated
    (hlaw _ hf.info_mem f.info (MessageDescriptor.mem_fields.1 hf.declared).2 hrepeated)

/-- An empty list or map is what a field reads as while nothing is stored. -/
theorem Holds.eq_default {s : Stored} (hs : f.Holds s) (hvoid : s.isVoid = true) :
    s = .defaultOf f := by
  cases hs with
  | single _ _ hs =>
    generalize f.kind = kind at hs
    cases hs <;> cases hvoid
  | list hlist => rw [Stored.defaultOf_list hlist, List.isEmpty_iff.1 hvoid]
  | map hmap => rw [Stored.defaultOf_map hmap, List.isEmpty_iff.1 hvoid]

end FieldDescriptor

mutual

/-- A message and its canonical form equal the same messages. -/
theorem Message.canonical_equals (hp : p.TracksPresence) (hlaw : p.Lawful) {d : MessageDescriptor}
    (hd : d.Among {p}) {x : Message} (hx : d.Takes x) (y : Message) :
    x.canonical.equals y = x.equals y := by
  have hxd := (Message.descriptor_canonical x).trans hx.descriptor
  rw [Bool.eq_iff_iff, Message.equals_iff_agreeOn hp hd hxd,
    Message.equals_iff_agreeOn hp hd hx.descriptor]
  unfold Message.fullName
  rw [Message.descriptor_canonical]
  refine and_congr_right fun _ => forall₂_congr fun f hf => ?_
  have hof := FieldDescriptor.of_mem hd hf
  have hhas := Message.has_canonical hx hf (hof.no_presence hlaw)
  have hget : (x.canonical.get f).equals (y.get f) = (x.get f).equals (y.get f) := by
    unfold Message.get
    rw [Message.stored?_canonical]
    rcases hs : x.stored? f with _ | s
    · rfl
    · have hlt := Message.sizeOf_stored?_lt hs
      rw [Option.bind_some, Stored.canonical?]
      by_cases hvoid : s.isVoid = true
      · rw [if_pos hvoid, (hx.stored hf hs).eq_default hvoid]
        rfl
      · rw [if_neg hvoid]
        exact FieldDescriptor.Of.canonical_equals hp hlaw hof (hx.stored hf hs) _
  refine ⟨fun h => ⟨hhas ▸ h.has, ?_⟩, fun h => ⟨hhas ▸ h.has, ?_⟩⟩
  · rw [← hget, ← hhas]
    exact h.get
  · rw [hget, hhas]
    exact h.get
termination_by (sizeOf x, 0)

theorem Kind.Of.canonical_equals (hp : p.TracksPresence) (hlaw : p.Lawful) {kind : Kind}
    (hk : kind.Of p) {s : Stored} (hs : kind.Holds s) (t : Stored) :
    s.canonical.equals t = s.equals t := by
  cases hs with
  | @scalar _ x =>
    rw [Stored.canonical]
    cases t with
    | scalar y =>
      simp only [Stored.equals]
      exact Scalar.equals_canonical x y
    | _ => simp [Stored.equals]
  | @message d x hdx hx =>
    rw [Stored.canonical]
    cases t with
    | message y =>
      simp only [Stored.equals]
      exact Message.canonical_equals hp hlaw (hk d rfl) ⟨hdx, hx⟩ y
    | _ => simp [Stored.equals]
termination_by (sizeOf s, 0)

theorem FieldDescriptor.Of.canonical_equals (hp : p.TracksPresence) (hlaw : p.Lawful)
    {f : FieldDescriptor} (hf : f.Of p) {s : Stored} (hs : f.Holds s) (t : Stored) :
    s.canonical.equals t = s.equals t := by
  cases hs with
  | single _ _ hs => exact hf.kind.canonical_equals hp hlaw hs t
  | @list _ xs _ hxs =>
    rw [Stored.canonical, Stored.canonicalItems_eq]
    cases t with
    | list ys =>
      rw [Bool.eq_iff_iff]
      simp only [Stored.equals, Stored.listEquals_iff, List.forall₂_map_left_iff]
      -- the recursion is on the items and values, which are smaller
      have step (x : Stored) (hx : x ∈ xs) (y : Stored) : x.canonical.equals y = x.equals y := by
        have hlt := List.sizeOf_lt_of_mem hx
        exact hf.kind.canonical_equals hp hlaw (hxs x hx) y
      exact ⟨fun h => forall₂_of_mem h fun x hx y _ hxy => (step x hx y) ▸ hxy,
        fun h => forall₂_of_mem h fun x hx y _ hxy => (step x hx y).trans hxy⟩
    | _ => simp [Stored.equals]
  | @map _ xs _ _ hxs =>
    rw [Stored.canonical, Stored.canonicalEntries_eq]
    cases t with
    | map ys =>
      rw [Bool.eq_iff_iff]
      simp only [Stored.equals, Bool.and_eq_true, beq_iff_eq, List.length_map, Stored.mapWithin_iff,
        List.forall_mem_map]
      refine and_congr_right fun _ => forall₂_congr fun e he => exists_congr fun u =>
        and_congr_right fun _ => ?_
      have hlt : sizeOf e.2 < sizeOf (Stored.map xs) := by
        have hmem := List.sizeOf_lt_of_mem he
        obtain ⟨key, value⟩ := e
        simp only [Prod.mk.sizeOf_spec, Stored.map.sizeOf_spec] at hmem ⊢
        omega
      rw [hf.valueKind.canonical_equals hp hlaw (hxs e he) u]
    | _ => simp [Stored.equals]
termination_by (sizeOf s, 1)

end

/-- Equality of what a field holds is fixed by the canonical forms. -/
theorem FieldDescriptor.Of.equals_congr (hp : p.TracksPresence) (hlaw : p.Lawful) {f : FieldDescriptor}
    (hf : f.Of p) {s s' t t' : Stored} (hs : f.Holds s) (hs' : f.Holds s') (ht : f.Holds t)
    (ht' : f.Holds t') (hss : s'.canonical = s.canonical) (htt : t'.canonical = t.canonical) :
    s'.equals t' = s.equals t := by
  have comm {u v : Stored} (hu : f.Holds u) (hv : f.Holds v) : u.equals v = v.equals u :=
    Bool.eq_iff_iff.2 ⟨hf.equals_symm hp hu hv, hf.equals_symm hp hv hu⟩
  calc s'.equals t' = s.equals t' := by
        rw [← hf.canonical_equals hp hlaw hs', hss, hf.canonical_equals hp hlaw hs]
    _ = t'.equals s := comm hs ht'
    _ = t.equals s := by
        rw [← hf.canonical_equals hp hlaw ht', htt, hf.canonical_equals hp hlaw ht]
    _ = s.equals t := comm ht hs

namespace Message

variable {d : MessageDescriptor} {f : FieldDescriptor} {x x' y y' : Message}

/-- Messages of one canonical form read as values of one canonical form. -/
theorem canonical_get (hx : d.Takes x) (hx' : d.Takes x') (hf : f ∈ d.fields)
    (hxx : x'.canonical = x.canonical) : (x'.get f).canonical = (x.get f).canonical := by
  have hstored : (x'.stored? f).bind Stored.canonical? = (x.stored? f).bind Stored.canonical? := by
    rw [← stored?_canonical, ← stored?_canonical, hxx]
  -- what is left out of the canonical form is read as the default
  have default {z : Message} (hz : d.Takes z) (hnone : (z.stored? f).bind Stored.canonical? = none) :
      z.get f = .defaultOf f := by
    unfold get
    rcases hs : z.stored? f with _ | s
    · rfl
    · rw [hs, Option.bind_some, Stored.canonical?] at hnone
      split at hnone
      · exact (hz.stored hf hs).eq_default ‹_›
      · cases hnone
  have kept {z : Message} {s : Stored} (hsome : (z.stored? f).bind Stored.canonical? = some s) :
      (z.get f).canonical = s := by
    obtain ⟨t, ht, hts⟩ := Option.bind_eq_some_iff.1 hsome
    unfold get
    rw [ht]
    unfold Stored.canonical? at hts
    split at hts
    · cases hts
    · exact Option.some.inj hts
  rcases hsome : (x.stored? f).bind Stored.canonical? with _ | s
  · rw [default hx hsome, default hx' (hstored.trans hsome)]
  · rw [kept hsome, kept (hstored.trans hsome)]

/-- **Whether messages agree on a field is fixed by their canonical forms.** -/
theorem agreeOn_congr (hp : p.TracksPresence) (hlaw : p.Lawful) (hd : d.Among {p}) (hf : f ∈ d.fields)
    (hx : d.Takes x) (hx' : d.Takes x') (hy : d.Takes y) (hy' : d.Takes y')
    (hxx : x'.canonical = x.canonical) (hyy : y'.canonical = y.canonical) :
    x'.AgreeOn y' f ↔ x.AgreeOn y f := by
  have hof := FieldDescriptor.of_mem hd hf
  have has {z z' : Message} (hz : d.Takes z) (hz' : d.Takes z') (hzz : z'.canonical = z.canonical) :
      z'.has f = z.has f := by
    rw [← has_canonical hz' hf (hof.no_presence hlaw), hzz, has_canonical hz hf (hof.no_presence hlaw)]
  have hget : (x'.get f).equals (y'.get f) = (x.get f).equals (y.get f) :=
    hof.equals_congr hp hlaw (hx.get hf) (hx'.get hf) (hy.get hf) (hy'.get hf)
      (canonical_get hx hx' hf hxx) (canonical_get hy hy' hf hyy)
  have hhasx := has hx hx' hxx
  have hhasy := has hy hy' hyy
  constructor <;> rintro ⟨hhas, hequals⟩
  · exact ⟨hhasx ▸ hhasy ▸ hhas, hget ▸ hhasx ▸ hequals⟩
  · exact ⟨hhasx.symm ▸ hhasy.symm ▸ hhas, hget.symm ▸ hhasx.symm ▸ hequals⟩

end Message

end Protoscript
