import Protoscript.Message.Compare
import Protoscript.Proofs.Integral
import Protoscript.Proofs.Presence

/-!
# Equality of stored messages is symmetric

Messages are compared by the fields of the first one's type. For two messages that conform to one type
this gives one answer both ways: lists are compared item by item, and in maps the keys are distinct, so
that two maps of one length have the same keys if one has those of the other.

* `exists_related` — a one-to-one match of two lists of one length leaves nothing out;
* `Message.equals_symm` — equality of messages that conform to one type is symmetric.
-/

namespace Protoscript

/-! ## Matches -/

/-- If every item of a list has a partner in another list that is no longer, and no two items share
one, then every item of the other is a partner. -/
theorem exists_related {α β : Type} {R : α → β → Prop} {xs : List α} {ys : List β}
    (hlen : ys.length ≤ xs.length)
    (hapart : ∀ y ∈ ys, xs.Pairwise fun x x' => ¬ (R x y ∧ R x' y))
    (h : ∀ x ∈ xs, ∃ y ∈ ys, R x y) : ∀ y ∈ ys, ∃ x ∈ xs, R x y := by
  induction xs generalizing ys with
  | nil =>
    obtain rfl := List.length_eq_zero_iff.1 (Nat.le_zero.1 hlen)
    exact nofun
  | cons x rest ih =>
    obtain ⟨partner, hpartner, hx⟩ := h x List.mem_cons_self
    obtain ⟨before, after, rfl⟩ := List.append_of_mem hpartner
    have hothers : before ++ after ⊆ before ++ partner :: after :=
      ((List.sublist_cons_self partner after).append_left before).subset
    have hrest : ∀ y ∈ before ++ after, ∃ x ∈ rest, R x y := ih
      (by simp only [List.length_append, List.length_cons] at hlen ⊢; omega)
      (fun y hy => (List.pairwise_cons.1 (hapart y (hothers hy))).2)
      (fun x' hx' => ?_)
    · intro y hy
      rcases List.mem_append.1 hy with hy | hy
      · obtain ⟨x', hx', hR⟩ := hrest y (List.mem_append_left _ hy)
        exact ⟨x', List.mem_cons_of_mem _ hx', hR⟩
      · rcases List.mem_cons.1 hy with rfl | hy
        · exact ⟨x, List.mem_cons_self, hx⟩
        · obtain ⟨x', hx', hR⟩ := hrest y (List.mem_append_right _ hy)
          exact ⟨x', List.mem_cons_of_mem _ hx', hR⟩
    · obtain ⟨y, hy, hR⟩ := h x' (List.mem_cons_of_mem _ hx')
      have hne : y ≠ partner := by
        rintro rfl
        exact (List.pairwise_cons.1 (hapart y hpartner)).1 x' hx' ⟨hx, hR⟩
      refine ⟨y, ?_, hR⟩
      simpa [hne] using hy

/-- A relation that holds item by item holds of members. -/
theorem forall₂_of_mem {α β : Type} {R S : α → β → Prop} {xs : List α} {ys : List β}
    (h : List.Forall₂ R xs ys) (hRS : ∀ x ∈ xs, ∀ y ∈ ys, R x y → S x y) : List.Forall₂ S xs ys := by
  rw [List.forall₂_iff_zip] at h ⊢
  exact ⟨h.1, fun hmem => hRS _ (List.of_mem_zip hmem).1 _ (List.of_mem_zip hmem).2 (h.2 hmem)⟩

/-! ## Scalars -/

theorem Single.equals_iff {x y : Single} :
    x.equals y = true ↔ ∃ a, x.position? = some a ∧ y.position? = some a := by
  unfold equals
  rcases x.position? with _ | a <;> rcases y.position? with _ | b <;> simp
  exact eq_comm

theorem Single.equals_comm (x y : Single) : x.equals y = y.equals x := by
  rw [Bool.eq_iff_iff, equals_iff, equals_iff]
  simp only [and_comm]

theorem Scalar.equals_comm (s t : Scalar) : s.equals t = t.equals s := by
  cases s <;> cases t <;>
    first
    | exact Double.equals_comm _ _
    | exact Single.equals_comm _ _
    | exact Bool.beq_comm

/-! ## Lists and maps -/

namespace Stored

theorem listEquals_iff {xs ys : List Stored} :
    listEquals xs ys = true ↔ List.Forall₂ (fun x y => x.equals y = true) xs ys := by
  induction xs generalizing ys with
  | nil => cases ys <;> simp [listEquals]
  | cons x xs ih => cases ys <;> simp [listEquals, ih]

theorem mapWithin_iff {xs ys : List (MapKey × Stored)} :
    mapWithin xs ys = true ↔ ∀ e ∈ xs, ∃ t, lookupKey e.1 ys = some t ∧ e.2.equals t = true := by
  induction xs with
  | nil => simp [mapWithin]
  | cons e rest ih =>
    rw [mapWithin, Bool.and_eq_true, ih, List.forall_mem_cons]
    rcases lookupKey e.1 ys with _ | t <;> simp

/-- Equality with an empty list or map, or with a scalar, does not depend on the side. -/
theorem equals_flat {s t : Stored} (hs : s = .map [] ∨ s = .list [] ∨ ∃ x, s = .scalar x) :
    t.equals s = s.flatEquals t := by
  rcases hs with rfl | rfl | ⟨x, rfl⟩
  · cases t with
    | map entries => cases entries <;> simp [equals, flatEquals, mapWithin]
    | _ => simp [equals, flatEquals]
  · cases t with
    | list items => cases items <;> simp [equals, flatEquals, listEquals]
    | _ => simp [equals, flatEquals]
  · cases t with
    | scalar y => simp [equals, flatEquals, Scalar.equals_comm y x]
    | _ => simp [equals, flatEquals]

end Stored

theorem lookupKey_mem {key : MapKey} {entries : List (MapKey × Stored)} {s : Stored}
    (h : lookupKey key entries = some s) : (key, s) ∈ entries := by
  induction entries with
  | nil => cases h
  | cons e rest ih =>
    unfold lookupKey at h
    split at h
    · rename_i hkey
      cases h
      exact hkey ▸ List.mem_cons_self
    · exact List.mem_cons_of_mem _ (ih h)

theorem lookupKey_of_mem {key : MapKey} {entries : List (MapKey × Stored)} {s : Stored}
    (hnodup : (entries.map (·.1)).Nodup) (h : (key, s) ∈ entries) : lookupKey key entries = some s := by
  induction entries with
  | nil => cases h
  | cons e rest ih =>
    obtain ⟨hnotin, hrest⟩ := List.nodup_cons.1 hnodup
    unfold lookupKey
    rcases List.mem_cons.1 h with rfl | h
    · rw [if_pos rfl]
    · have hne : e.1 ≠ key := fun he =>
        hnotin (List.mem_map.2 ⟨_, h, he.symm⟩)
      rw [if_neg hne]
      exact ih hrest h

/-! ## Messages -/

variable {p : Pool}

namespace Message

variable {x y : Message} {f : FieldDescriptor}

theorem equals_iff : x.equals y = true ↔ x.fullName = y.fullName ∧ ∀ f ∈ x.descriptor.fields,
    (if f.hasPresence && x.has f != y.has f then false
      else if f.hasPresence && !x.has f then true
      else
        match x.stored? f with
        | some value => value.equals (y.get f)
        | none => (Stored.defaultOf f).flatEquals (y.get f)) = true := by
  rw [equals, Bool.and_eq_true, beq_iff_eq, List.all_eq_true]
  refine and_congr_right fun _ => forall₂_congr fun f _ => ?_
  split
  · rfl
  · split
    · rfl
    · split <;> rename_i hs <;> rw [hs]

end Message

mutual

/-- **Equality of messages that conform to one type is symmetric.** -/
theorem Message.equals_symm (hp : p.TracksPresence) {d : MessageDescriptor} (hd : d.Among {p})
    {x y : Message} (hx : d.Takes x) (hy : d.Takes y) (h : x.equals y = true) : y.equals x = true := by
  obtain ⟨hname, hfields⟩ := Message.equals_iff.1 h
  refine Message.equals_iff.2 ⟨hname.symm, fun f hf => ?_⟩
  rw [hy.descriptor] at hf
  have hof := FieldDescriptor.of_mem hd hf
  have hfield := hfields f (hx.descriptor ▸ hf)
  have hstored {s t : Stored} (hs : x.stored? f = some s) (ht : y.stored? f = some t)
      (hst : s.equals t = true) : t.equals s = true := by
    have hlt := Message.sizeOf_stored?_lt hs
    exact hof.equals_symm hp (hx.stored hf hs) (hy.stored hf ht) hst
  unfold Message.get at hfield ⊢
  by_cases hpresence : f.hasPresence = true
  · simp only [hpresence, Message.has_of_hasPresence hpresence] at hfield ⊢
    rcases hs : x.stored? f with _ | s <;> rcases ht : y.stored? f with _ | t <;>
      simp only [hs, ht] at hfield ⊢
    · rfl
    · cases hfield
    · cases hfield
    · exact hstored hs ht hfield
  · -- without presence, an unset field equals its default
    have hflat := hof.default_of_no_presence hp (by simpa using hpresence)
    simp only [hpresence] at hfield ⊢
    rcases hs : x.stored? f with _ | s <;> rcases ht : y.stored? f with _ | t <;>
      simp only [hs, ht, Option.getD] at hfield ⊢
    · exact hfield
    · rw [← Stored.equals_flat hflat] at hfield
      exact hfield
    · rw [Stored.equals_flat hflat] at hfield
      exact hfield
    · exact hstored hs ht hfield
termination_by (sizeOf x, 0)

theorem Kind.Of.equals_symm (hp : p.TracksPresence) {kind : Kind} (hk : kind.Of p) {s t : Stored}
    (hs : kind.Holds s) (ht : kind.Holds t) (h : s.equals t = true) : t.equals s = true := by
  cases hs with
  | scalar =>
    cases ht with
    | scalar =>
      simp only [Stored.equals] at h ⊢
      rwa [Scalar.equals_comm]
    | message => simp [Stored.equals] at h
  | @message d x hdx hx =>
    cases ht with
    | scalar hno => cases hno
    | @message _ y hdy hy =>
      simp only [Stored.equals] at h ⊢
      exact Message.equals_symm hp (hk d rfl) ⟨hdx, hx⟩ ⟨hdy, hy⟩ h
termination_by (sizeOf s, 0)

theorem FieldDescriptor.Of.equals_symm (hp : p.TracksPresence) {f : FieldDescriptor} (hf : f.Of p)
    {s t : Stored} (hs : f.Holds s) (ht : f.Holds t) (h : s.equals t = true) : t.equals s = true := by
  cases hs with
  | single hmap hlist hs => exact hf.kind.equals_symm hp hs (ht.kind hmap hlist) h
  | @list _ xs hlist hxs =>
    obtain ⟨ys, rfl, hys⟩ := ht.items hlist
    simp only [Stored.equals, Stored.listEquals_iff] at h ⊢
    refine (forall₂_of_mem h fun x hx y hy hxy => ?_).flip
    exact hf.kind.equals_symm hp (hxs x hx) (hys y hy) hxy
  | @map _ xs hmap _ hxs hsorted =>
    obtain ⟨ys, rfl, -, hys, hsorted'⟩ := ht.entries hmap
    simp only [Stored.equals, Bool.and_eq_true, beq_iff_eq, Stored.mapWithin_iff] at h ⊢
    refine ⟨h.1.symm, fun d hd => ?_⟩
    have hnodup : (xs.map (·.1)).Nodup := hsorted.imp And.right
    have hnodup' : (ys.map (·.1)).Nodup := hsorted'.imp And.right
    obtain ⟨e, he, hkey, hvalue⟩ := exists_related (R := fun e d => e.1 = d.1 ∧ e.2.equals d.2 = true)
      h.1.ge
      (fun d _ => (List.pairwise_map.1 hnodup).imp fun hne hboth => hne (hboth.1.1.trans hboth.2.1.symm))
      (fun e he => by
        obtain ⟨t, ht, het⟩ := h.2 e he
        exact ⟨(e.1, t), lookupKey_mem ht, rfl, het⟩)
      d hd
    refine ⟨e.2, lookupKey_of_mem hnodup (hkey ▸ he), ?_⟩
    have hlt : sizeOf e.2 < sizeOf (Stored.map xs) := by
      have hmem := List.sizeOf_lt_of_mem he
      obtain ⟨key, value⟩ := e
      simp only [Prod.mk.sizeOf_spec, Stored.map.sizeOf_spec] at hmem ⊢
      omega
    exact hf.valueKind.equals_symm hp (hxs e he) (hys d hd) hvalue
termination_by (sizeOf s, 1)

end

end Protoscript
