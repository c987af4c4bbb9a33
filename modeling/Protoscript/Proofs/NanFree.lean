import Protoscript.Proofs.EqualMessages

/-!
# Messages without NaN

A NaN equals nothing, so a message in which a field reads as NaN does not equal itself. Every other
message of a pool that tracks presence does.

* `Message.NanFree`, `Stored.NanFree` — no field that is set or has no presence reads as NaN, at any
  depth;
* `Message.NanFree.equals_self` — such a message equals itself.
-/

namespace Protoscript

/-! ## Scalars -/

namespace Scalar

/-- Whether a scalar is no number. -/
def isNaN : Scalar → Bool
  | f32 x => x.isNaN
  | f64 x => x.isNaN
  | _ => false

end Scalar

theorem Single.equals_self {x : Single} (hx : x.isNaN = false) : x.equals x = true := by
  unfold isNaN at hx
  refine equals_iff.2 ?_
  unfold position? Datum.position?
  rcases hdatum : x.datum with _ | negative | ⟨negative, s, e⟩
  · rw [hdatum] at hx
    cases hx
  · exact ⟨_, rfl, rfl⟩
  · exact ⟨_, rfl, rfl⟩

theorem Single.equals_trans {x y z : Single} (hxy : x.equals y = true) (hyz : y.equals z = true) :
    x.equals z = true := by
  obtain ⟨place, hx, hy⟩ := equals_iff.1 hxy
  obtain ⟨place', hy', hz⟩ := equals_iff.1 hyz
  exact equals_iff.2 ⟨place, hx, by rw [hz, ← hy', hy]⟩

theorem Single.isNaN_of_equals {x y : Single} (h : x.equals y = true) : x.isNaN = false := by
  obtain ⟨place, hx, -⟩ := equals_iff.1 h
  unfold position? Datum.position? at hx
  unfold isNaN
  rcases hdatum : x.datum with _ | negative | ⟨negative, s, e⟩
  · rw [hdatum] at hx
    cases hx
  · rfl
  · rfl

theorem Scalar.equals_self {s : Scalar} (hs : s.isNaN = false) : s.equals s = true := by
  cases s with
  | f32 x => exact Single.equals_self hs
  | f64 x => exact Double.equals_self hs
  | _ => exact beq_self_eq_true _

theorem Scalar.equals_trans {s t u : Scalar} (hst : s.equals t = true) (htu : t.equals u = true) :
    s.equals u = true := by
  cases s with
  | f32 x =>
    cases t with
    | f32 y =>
      cases u with
      | f32 z => exact Single.equals_trans hst htu
      | _ => cases htu
    | _ => cases hst
  | f64 x =>
    cases t with
    | f64 y =>
      cases u with
      | f64 z => exact Double.equals_trans hst htu
      | _ => cases htu
    | _ => cases hst
  | _ =>
    obtain rfl := beq_iff_eq.1 hst
    exact htu

theorem Scalar.isNaN_of_equals {s t : Scalar} (h : s.equals t = true) : s.isNaN = false := by
  cases s with
  | f32 x =>
    cases t with
    | f32 y => exact Single.isNaN_of_equals h
    | _ => cases h
  | f64 x =>
    cases t with
    | f64 y => exact Double.isNaN_of_equals h
    | _ => cases h
  | _ => rfl

/-! ## Messages -/

mutual

/-- Whether a stored value has no NaN in it. -/
inductive Stored.NanFree : Stored → Prop
  | scalar {s : Scalar} (hs : s.isNaN = false) : Stored.NanFree (.scalar s)
  | message {m : Message} (hm : m.NanFree) : Stored.NanFree (.message m)
  | list {items : List Stored} (hitems : ∀ s ∈ items, s.NanFree) : Stored.NanFree (.list items)
  | map {entries : List (MapKey × Stored)} (hvalues : ∀ e ∈ entries, e.2.NanFree) :
    Stored.NanFree (.map entries)

/-- Whether no field of a message that is set or has no presence reads as NaN, at any depth. -/
inductive Message.NanFree : Message → Prop
  | mk {m : Message} (held : ∀ f ∈ m.descriptor.fields,
      f.hasPresence = false ∨ (m.stored? f).isSome = true → (m.get f).NanFree) : Message.NanFree m

end

variable {p : Pool}

namespace Message.NanFree

variable {m : Message} {f : FieldDescriptor}

theorem get (hm : m.NanFree) (hf : f ∈ m.descriptor.fields)
    (h : f.hasPresence = false ∨ (m.stored? f).isSome = true) : (m.get f).NanFree := by
  cases hm with
  | mk held => exact held f hf h

theorem stored (hm : m.NanFree) (hf : f ∈ m.descriptor.fields) {s : Stored}
    (hs : m.stored? f = some s) : s.NanFree := by
  have hget := hm.get hf (.inr (Option.isSome_iff_exists.2 ⟨s, hs⟩))
  rwa [Message.get, hs] at hget

/-- A message has no NaN if nothing that it stores and no default that counts is one. -/
theorem of_stored (hdefault : ∀ f ∈ m.descriptor.fields, f.hasPresence = false →
      (Stored.defaultOf f).NanFree)
    (hstored : ∀ f ∈ m.descriptor.fields, ∀ s, m.stored? f = some s → s.NanFree) : m.NanFree := by
  refine .mk fun f hf hread => ?_
  rcases hs : m.stored? f with _ | s
  · rw [hs] at hread
    rw [Message.get_of_none hs]
    exact hdefault f hf (hread.resolve_right (by simp))
  · rw [Message.get_of_stored? rfl hs]
    exact hstored f hf s hs

/-- The default of a field without presence that is not stored is no NaN. -/
theorem default (hm : m.NanFree) (hf : f ∈ m.descriptor.fields) (hno : f.hasPresence = false)
    (hs : m.stored? f = none) : (Stored.defaultOf f).NanFree := by
  have hget := hm.get hf (.inl hno)
  rwa [Message.get, hs] at hget

end Message.NanFree

/-- A scalar, or an empty list or map, equals itself unless it is a NaN. -/
theorem Stored.NanFree.flatEquals_self {s : Stored} (hs : s.NanFree)
    (hflat : s = .map [] ∨ s = .list [] ∨ ∃ x, s = .scalar x) : s.flatEquals s = true := by
  rcases hflat with rfl | rfl | ⟨x, rfl⟩
  · rfl
  · rfl
  · cases hs with
    | scalar hx => exact Scalar.equals_self hx

mutual

/-- **A message without NaN equals itself.** -/
theorem Message.NanFree.equals_self (hp : p.TracksPresence) {d : MessageDescriptor} (hd : d.Among {p})
    {m : Message} (hm : d.Takes m) (hfree : m.NanFree) : m.equals m = true := by
  refine Message.equals_iff.2 ⟨rfl, fun f hf => ?_⟩
  have hfd : f ∈ d.fields := hm.descriptor ▸ hf
  have hof := FieldDescriptor.of_mem hd hfd
  simp only [bne_self_eq_false, Bool.and_false, Bool.false_eq_true, if_false]
  split
  · rfl
  rename_i hset
  unfold Message.get
  rcases hs : m.stored? f with _ | s
  · have hno : f.hasPresence = false := by
      rcases hpresence : f.hasPresence with _ | _
      · rfl
      · simp [hpresence, Message.has_of_hasPresence hpresence, hs] at hset
    exact (hfree.default hf hno hs).flatEquals_self (hof.default_of_no_presence hp hno)
  · have hlt := Message.sizeOf_stored?_lt hs
    exact Stored.NanFree.equals_of_field hp hof (hm.stored hfd hs) (hfree.stored hf hs)
termination_by (sizeOf m, 0)

/-- A single value without NaN equals itself. -/
theorem Stored.NanFree.equals_of_kind (hp : p.TracksPresence) {kind : Kind} (hk : kind.Of p)
    {s : Stored} (hs : kind.Holds s) (hfree : s.NanFree) : s.equals s = true := by
  cases hs with
  | scalar =>
    cases hfree with
    | scalar hs =>
      rw [Stored.equals]
      exact Scalar.equals_self hs
  | message hdm hm =>
    cases hfree with
    | message hfree =>
      rw [Stored.equals]
      exact Message.NanFree.equals_self hp (hk _ rfl) ⟨hdm, hm⟩ hfree
termination_by (sizeOf s, 0)

/-- What a field holds equals itself if there is no NaN in it. -/
theorem Stored.NanFree.equals_of_field (hp : p.TracksPresence) {f : FieldDescriptor} (hf : f.Of p)
    {s : Stored} (hs : f.Holds s) (hfree : s.NanFree) : s.equals s = true := by
  cases hs with
  | single _ _ hs => exact hfree.equals_of_kind hp hf.kind hs
  | list _ hitems =>
    cases hfree with
    | list hfree =>
      rw [Stored.equals, Stored.listEquals_iff, List.forall₂_same]
      exact fun s hs => (hfree s hs).equals_of_kind hp hf.kind (hitems s hs)
  | @map _ entries _ _ hvalues hsorted =>
    cases hfree with
    | map hfree =>
      simp only [Stored.equals, beq_self_eq_true, Bool.true_and, Stored.mapWithin_iff]
      refine fun e he => ⟨e.2, lookupKey_of_mem (hsorted.imp And.right) he, ?_⟩
      have hlt : sizeOf e.2 < sizeOf (Stored.map entries) := by
        have hmem := List.sizeOf_lt_of_mem he
        obtain ⟨key, value⟩ := e
        simp only [Prod.mk.sizeOf_spec, Stored.map.sizeOf_spec] at hmem ⊢
        omega
      exact (hfree e he).equals_of_kind hp hf.valueKind (hvalues e he)
termination_by (sizeOf s, 1)

end

end Protoscript
