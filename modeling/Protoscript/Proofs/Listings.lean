import Protoscript.Proofs.Contents
import Protoscript.Proofs.EqualMessages

/-!
# Maps in any order

A stored map is a set of entries, which are listed in the order of their keys here. Whoever goes
through the entries of a map may find them in any other order.

* `Stored.Relists`, `Message.Relists` — the same data with the entries of maps listed in any order, at
  every depth;
* `Likeness.relists` — writing a field keeps this;
* `Message.Relists.equals` — equality does not depend on the order.
-/

namespace Protoscript

/-! ## Entries one by one -/

theorem forall₂_keyed {α β : Type} {R : β → β → Prop} {es fs : List (α × β)} :
    List.Forall₂ (fun e f => e.1 = f.1 ∧ R e.2 f.2) es fs ↔
      es.map (·.1) = fs.map (·.1) ∧ List.Forall₂ R (es.map (·.2)) (fs.map (·.2)) := by
  induction es generalizing fs with
  | nil => cases fs <;> simp
  | cons e es ih => cases fs <;> simp [ih, and_and_and_comm]

/-- What holds of the entries of a list that is related to another by key. -/
theorem filter_keyed {α β : Type} {R : β → β → Prop} {es fs : List (α × β)} (keep : α → Bool)
    (h : List.Forall₂ (fun e f => e.1 = f.1 ∧ R e.2 f.2) es fs) :
    List.Forall₂ (fun e f => e.1 = f.1 ∧ R e.2 f.2) (es.filter fun e => keep e.1)
      (fs.filter fun e => keep e.1) := by
  induction h with
  | nil => exact .nil
  | @cons e f es fs hef _ ih =>
    rw [List.filter_cons, List.filter_cons, hef.1]
    split
    · exact .cons hef ih
    · exact ih

theorem insertNumber_keyed {β : Type} {R : β → β → Prop} {es fs : List (Nat × β)} {number : Nat}
    {s t : β} (hst : R s t) (h : List.Forall₂ (fun e f => e.1 = f.1 ∧ R e.2 f.2) es fs) :
    List.Forall₂ (fun e f => e.1 = f.1 ∧ R e.2 f.2) (insertNumber number s es)
      (insertNumber number t fs) := by
  induction h with
  | nil => exact .cons ⟨rfl, hst⟩ .nil
  | @cons e f es fs hef hrest ih =>
    unfold insertNumber
    rw [← hef.1]
    split
    · exact .cons hef ih
    · split
      · exact .cons ⟨rfl, hst⟩ hrest
      · exact .cons ⟨rfl, hst⟩ (.cons hef hrest)

/-- Two relations that agree on related items hold of related lists alike. -/
theorem forall₂_iff_of_forall₂ {α β γ δ : Type} {A : α → γ → Prop} {B : β → δ → Prop}
    {R : α → β → Prop} {S : γ → δ → Prop} {xs : List α} {ys : List β} {xs' : List γ} {ys' : List δ}
    (hxs : List.Forall₂ A xs xs') (hys : List.Forall₂ B ys ys')
    (h : ∀ x ∈ xs, ∀ y ∈ ys, ∀ x' y', A x x' → B y y' → (S x' y' ↔ R x y)) :
    List.Forall₂ S xs' ys' ↔ List.Forall₂ R xs ys := by
  induction hxs generalizing ys ys' with
  | nil => cases hys <;> simp
  | cons hx _ ih =>
    cases hys with
    | nil => simp
    | cons hy hrest =>
      rw [List.forall₂_cons, List.forall₂_cons, h _ (.head _) _ (.head _) _ _ hx hy,
        ih hrest fun x hx y hy => h x (.tail _ hx) y (.tail _ hy)]

theorem lookupNumber_keyed {β : Type} {R : β → β → Prop} {es fs : List (Nat × β)} (number : Nat)
    (h : List.Forall₂ (fun e f => e.1 = f.1 ∧ R e.2 f.2) es fs) :
    Option.Rel R (lookupNumber number es) (lookupNumber number fs) := by
  induction h with
  | nil => exact .none
  | @cons e f es fs hef _ ih =>
    unfold lookupNumber
    rw [← hef.1]
    split
    · exact .some hef.2
    · exact ih

/-! ## The same data -/

mutual

/-- Whether a stored value is another one with the entries of maps listed in any order, at every
depth. -/
inductive Stored.Relists : Stored → Stored → Prop
  | scalar (s : Scalar) : Stored.Relists (.scalar s) (.scalar s)
  | message {m n : Message} (h : Message.Relists m n) : Stored.Relists (.message m) (.message n)
  | list {xs ys : List Stored} (h : List.Forall₂ Stored.Relists xs ys) :
    Stored.Relists (.list xs) (.list ys)
  | map {es aligned fs : List (MapKey × Stored)} (hkeys : es.map (·.1) = aligned.map (·.1))
    (hvalues : List.Forall₂ Stored.Relists (es.map (·.2)) (aligned.map (·.2)))
    (hperm : fs.Perm aligned) : Stored.Relists (.map es) (.map fs)

/-- Whether a message is another one with the entries of maps listed in any order, at every depth. -/
inductive Message.Relists : Message → Message → Prop
  | mk {d : MessageDescriptor} {fs gs : List (Nat × Stored)} {unknown : List (Nat × List WireValue)}
    (hnumbers : fs.map (·.1) = gs.map (·.1))
    (hvalues : List.Forall₂ Stored.Relists (fs.map (·.2)) (gs.map (·.2))) :
    Message.Relists (.mk d fs unknown) (.mk d gs unknown)

end

/-- The entries of a map, listed in any order and with the entries of maps in them in any order. -/
def Listing (es fs : List (MapKey × Stored)) : Prop :=
  ∃ aligned, List.Forall₂ (fun e f => e.1 = f.1 ∧ e.2.Relists f.2) es aligned ∧ fs.Perm aligned

namespace Stored.Relists

variable {s t : Stored}

theorem message_iff {m : Message} : Relists (.message m) t ↔ ∃ n, t = .message n ∧ m.Relists n :=
  ⟨fun h => by cases h with | message h => exact ⟨_, rfl, h⟩, fun ⟨_, ht, h⟩ => ht ▸ .message h⟩

theorem list_iff {xs : List Stored} :
    Relists (.list xs) t ↔ ∃ ys, t = .list ys ∧ List.Forall₂ Relists xs ys :=
  ⟨fun h => by cases h with | list h => exact ⟨_, rfl, h⟩, fun ⟨_, ht, h⟩ => ht ▸ .list h⟩

theorem map_iff {es : List (MapKey × Stored)} :
    Relists (.map es) t ↔ ∃ fs, t = .map fs ∧ Listing es fs := by
  constructor
  · intro h
    cases h with
    | map hkeys hvalues hperm => exact ⟨_, rfl, _, forall₂_keyed.2 ⟨hkeys, hvalues⟩, hperm⟩
  · rintro ⟨fs, rfl, aligned, h, hperm⟩
    exact .map (forall₂_keyed.1 h).1 (forall₂_keyed.1 h).2 hperm

theorem scalar_iff {x : Scalar} : Relists (.scalar x) t ↔ t = .scalar x :=
  ⟨fun h => by cases h; rfl, fun ht => ht ▸ .scalar x⟩

end Stored.Relists

theorem Message.relists_iff {m n : Message} : m.Relists n ↔ n.descriptor = m.descriptor ∧
    n.unknown = m.unknown ∧
      List.Forall₂ (fun e f => e.1 = f.1 ∧ e.2.Relists f.2) m.fields n.fields := by
  constructor
  · intro h
    cases h with
    | mk hnumbers hvalues => exact ⟨rfl, rfl, forall₂_keyed.2 ⟨hnumbers, hvalues⟩⟩
  · obtain ⟨d, fs, us⟩ := m
    obtain ⟨d', gs, us'⟩ := n
    rintro ⟨rfl, rfl, h⟩
    exact .mk (forall₂_keyed.1 h).1 (forall₂_keyed.1 h).2

mutual

theorem Stored.Relists.refl : ∀ s : Stored, s.Relists s
  | .scalar s => .scalar s
  | .message m => .message (Message.Relists.refl m)
  | .list items => .list (List.forall₂_same.2 fun s _ => Stored.Relists.refl s)
  | .map entries => by
    have hentries : List.Forall₂ (fun e f => e.1 = f.1 ∧ e.2.Relists f.2) entries entries :=
      List.forall₂_same.2 fun e he => ⟨rfl, by
        have hlt : sizeOf e.2 < 1 + sizeOf entries := by
          have hmem := List.sizeOf_lt_of_mem he
          obtain ⟨key, value⟩ := e
          simp only [Prod.mk.sizeOf_spec] at hmem ⊢
          omega
        exact Stored.Relists.refl e.2⟩
    exact Stored.Relists.map_iff.2 ⟨entries, rfl, entries, hentries, .refl _⟩
termination_by s => sizeOf s

theorem Message.Relists.refl : ∀ m : Message, m.Relists m
  | .mk d fields unknown => by
    refine Message.relists_iff.2 ⟨rfl, rfl, List.forall₂_same.2 fun e he => ⟨rfl, ?_⟩⟩
    have hlt : sizeOf e.2 < 1 + sizeOf d + sizeOf fields + sizeOf unknown := by
      have hmem := List.sizeOf_lt_of_mem he
      obtain ⟨number, value⟩ := e
      simp only [Message.fields_mk, Prod.mk.sizeOf_spec] at hmem ⊢
      omega
    exact Stored.Relists.refl e.2
termination_by m => sizeOf m

end

/-! ## Writing -/

namespace Message.Relists

variable {m n : Message} {f : FieldDescriptor}

theorem descriptor (h : m.Relists n) : n.descriptor = m.descriptor := (relists_iff.1 h).1

theorem stored? (h : m.Relists n) (f : FieldDescriptor) :
    Option.Rel Stored.Relists (m.stored? f) (n.stored? f) :=
  lookupNumber_keyed f.number (relists_iff.1 h).2.2

theorem clear (h : m.Relists n) : (m.clear f).Relists (n.clear f) := by
  obtain ⟨hd, hu, hfields⟩ := relists_iff.1 h
  exact relists_iff.2 ⟨hd, congrArg (eraseNumber f.number) hu,
    filter_keyed (fun number => number != f.number) hfields⟩

theorem select (h : m.Relists n) : (m.select f).Relists (n.select f) := by
  unfold Message.select
  induction f.siblings generalizing m n with
  | nil => exact h
  | cons g rest ih => exact ih h.clear

theorem set (h : m.Relists n) {s t : Stored} (hst : s.Relists t) :
    (m.set f s).Relists (n.set f t) := by
  obtain ⟨hd, hu, hfields⟩ := relists_iff.1 (h.select (f := f))
  exact relists_iff.2 ⟨hd, congrArg (eraseNumber f.number) hu, insertNumber_keyed hst hfields⟩

end Message.Relists

/-- Being the same but for the order in which maps list their entries. -/
def Likeness.relists : Likeness where
  message := Message.Relists
  stored := Stored.Relists
  descriptor h := h.descriptor
  refl := Message.Relists.refl
  scalar := .scalar
  lift := .message
  list := .list
  map h := .map (forall₂_keyed.1 h).1 (forall₂_keyed.1 h).2 (.refl _)
  set hm hs := hm.set hs

/-! ## What fields hold -/

namespace Stored.Relists

variable {s s' t t' : Stored}

/-- Values of which one is empty if the other is. -/
theorem isEmpty (h : s.Relists t) : (s = .list [] ↔ t = .list []) ∧ (s = .map [] ↔ t = .map []) := by
  cases h with
  | scalar | message => simp
  | list h => cases h <;> simp
  | @map es aligned fs hkeys _ hperm =>
    have hlength : fs.length = es.length := by
      rw [hperm.length_eq, ← List.length_map (·.1), ← hkeys, List.length_map]
    simp [← List.length_eq_zero_iff, hlength]

theorem isDefaultOf (h : s.Relists t) (f : FieldDescriptor) : t.isDefaultOf f = s.isDefaultOf f := by
  have hempty := h.isEmpty
  cases h with
  | scalar | message => rfl
  | list =>
    simp only [Stored.list.injEq, ← List.isEmpty_iff] at hempty
    rw [Stored.isDefaultOf, Stored.isDefaultOf, Bool.eq_iff_iff.2 hempty.1]
  | map =>
    simp only [Stored.map.injEq, ← List.isEmpty_iff] at hempty
    rw [Stored.isDefaultOf, Stored.isDefaultOf, Bool.eq_iff_iff.2 hempty.2]

theorem flatEquals (h : s.Relists t) (x : Stored) : x.flatEquals t = x.flatEquals s := by
  have flat (s : Stored) (hs : ∀ y, s ≠ .scalar y) : x.flatEquals s = true ↔
      x = .list [] ∧ s = .list [] ∨ x = .map [] ∧ s = .map [] := by
    cases s with
    | scalar y => exact absurd rfl (hs y)
    | message => cases x <;> simp [Stored.flatEquals]
    | list ys =>
      cases x with
      | list xs => cases xs <;> cases ys <;> simp [Stored.flatEquals]
      | _ => simp [Stored.flatEquals]
    | map ys =>
      cases x with
      | map xs => cases xs <;> cases ys <;> simp [Stored.flatEquals]
      | _ => simp [Stored.flatEquals]
  have hempty := h.isEmpty
  cases h with
  | scalar => rfl
  | message | list | map =>
    rw [Bool.eq_iff_iff, flat _ (by simp), flat _ (by simp), hempty.1, hempty.2]

end Stored.Relists

namespace Message.Relists

variable {m n : Message}

/-- The same fields are set. -/
theorem has (h : m.Relists n) (f : FieldDescriptor) : n.has f = m.has f := by
  unfold Message.has
  have hstored := h.stored? f
  rcases hs : m.stored? f with _ | s <;> rcases ht : n.stored? f with _ | t <;>
    rw [hs, ht] at hstored <;> cases hstored
  rename_i hst
  simp only [hst.isDefaultOf f]

theorem get (h : m.Relists n) (f : FieldDescriptor) : (m.get f).Relists (n.get f) := by
  unfold Message.get
  have hstored := h.stored? f
  rcases hs : m.stored? f with _ | s <;> rcases ht : n.stored? f with _ | t <;>
    rw [hs, ht] at hstored <;> cases hstored
  · exact .refl _
  · assumption

end Message.Relists

/-! ## Maps -/

namespace Listing

variable {es fs : List (MapKey × Stored)}

theorem length (h : Listing es fs) : fs.length = es.length := by
  obtain ⟨aligned, hes, hperm⟩ := h
  rw [hperm.length_eq, hes.length_eq]

/-- Every listed entry is one of the map. -/
theorem exists_of_mem (h : Listing es fs) {e : MapKey × Stored} (he : e ∈ fs) :
    ∃ e' ∈ es, e'.1 = e.1 ∧ e'.2.Relists e.2 := by
  obtain ⟨aligned, hes, hperm⟩ := h
  obtain ⟨e', he', hkey, hvalue⟩ := exists_of_forall₂ hes (hperm.mem_iff.1 he)
  exact ⟨e', he', hkey, hvalue⟩

/-- Every entry of the map is listed. -/
theorem exists_listed (h : Listing es fs) {e : MapKey × Stored} (he : e ∈ es) :
    ∃ e' ∈ fs, e.1 = e'.1 ∧ e.2.Relists e'.2 := by
  obtain ⟨aligned, hes, hperm⟩ := h
  obtain ⟨e', he', hkey, hvalue⟩ := exists_of_forall₂ hes.flip he
  exact ⟨e', hperm.mem_iff.2 he', hkey, hvalue⟩

theorem nodup (h : Listing es fs) (hnodup : (es.map (·.1)).Nodup) : (fs.map (·.1)).Nodup := by
  obtain ⟨aligned, hes, hperm⟩ := h
  rw [(hperm.map (·.1)).nodup_iff, ← (forall₂_keyed.1 hes).1]
  exact hnodup

/-- **The value of a key** does not depend on the order. -/
theorem lookupKey (h : Listing es fs) (hnodup : (es.map (·.1)).Nodup) (key : MapKey) :
    Option.Rel Stored.Relists (lookupKey key es) (lookupKey key fs) := by
  rcases hes : Protoscript.lookupKey key es with _ | s <;>
    rcases hfs : Protoscript.lookupKey key fs with _ | t
  · exact .none
  · obtain ⟨⟨key', s⟩, hmem, hkey, -⟩ := h.exists_of_mem (lookupKey_mem hfs)
    obtain rfl : key' = key := hkey
    rw [lookupKey_of_mem hnodup hmem] at hes
    cases hes
  · obtain ⟨⟨key', t⟩, hmem, hkey, -⟩ := h.exists_listed (lookupKey_mem hes)
    obtain rfl : key = key' := hkey
    rw [lookupKey_of_mem (h.nodup hnodup) hmem] at hfs
    cases hfs
  · obtain ⟨⟨key', s'⟩, hmem, hkey, hvalue⟩ := h.exists_of_mem (lookupKey_mem hfs)
    obtain rfl : key' = key := hkey
    rw [lookupKey_of_mem hnodup hmem] at hes
    cases hes
    exact .some hvalue

end Listing

/-! ## Equality -/

variable {p : Pool}

mutual

/-- **Equality of messages does not depend on the order** in which their maps list entries. -/
theorem Message.Relists.equals {d : MessageDescriptor} (hd : d.Among {p}) {a a' b b' : Message}
    (ha : d.Takes a) (hb : d.Takes b) (haa : a.Relists a') (hbb : b.Relists b') :
    a'.equals b' = a.equals b := by
  rw [Bool.eq_iff_iff, Message.equals_iff, Message.equals_iff]
  unfold Message.fullName
  rw [haa.descriptor, hbb.descriptor]
  refine and_congr_right fun _ => forall₂_congr fun f hf => ?_
  rw [ha.descriptor] at hf
  have hof := FieldDescriptor.of_mem hd hf
  rw [haa.has, hbb.has]
  split
  · rfl
  · split
    · rfl
    · have hstored := haa.stored? f
      rcases hs : a.stored? f with _ | s <;> rcases hs' : a'.stored? f with _ | s' <;>
        rw [hs, hs'] at hstored <;> cases hstored
      · simp only [(hbb.get f).flatEquals]
      · rename_i hss
        have hlt := Message.sizeOf_stored?_lt hs
        simp only [hof.equals_relists (ha.stored hf hs) (hb.get hf) hss (hbb.get f)]
termination_by (sizeOf a, 0)

theorem Kind.Of.equals_relists {kind : Kind} (hk : kind.Of p) {s s' t t' : Stored}
    (hs : kind.Holds s) (ht : kind.Holds t) (hss : s.Relists s') (htt : t.Relists t') :
    s'.equals t' = s.equals t := by
  cases hs with
  | scalar =>
    obtain rfl := Stored.Relists.scalar_iff.1 hss
    cases htt with
    | scalar => rfl
    | message | list | map => simp [Stored.equals]
  | @message d x hdx hx =>
    obtain ⟨x', rfl, hxx⟩ := Stored.Relists.message_iff.1 hss
    cases ht with
    | scalar hno => cases hno
    | @message _ y hdy hy =>
      obtain ⟨y', rfl, hyy⟩ := Stored.Relists.message_iff.1 htt
      simp only [Stored.equals]
      exact Message.Relists.equals (hk d rfl) ⟨hdx, hx⟩ ⟨hdy, hy⟩ hxx hyy
termination_by (sizeOf s, 0)

theorem FieldDescriptor.Of.equals_relists {f : FieldDescriptor} (hf : f.Of p) {s s' t t' : Stored}
    (hs : f.Holds s) (ht : f.Holds t) (hss : s.Relists s') (htt : t.Relists t') :
    s'.equals t' = s.equals t := by
  cases hs with
  | single hmap hlist hs => exact hf.kind.equals_relists hs (ht.kind hmap hlist) hss htt
  | @list _ xs hlist hxs =>
    obtain ⟨ys, rfl, hys⟩ := ht.items hlist
    obtain ⟨xs', rfl, hxx⟩ := Stored.Relists.list_iff.1 hss
    obtain ⟨ys', rfl, hyy⟩ := Stored.Relists.list_iff.1 htt
    rw [Stored.equals, Stored.equals, Bool.eq_iff_iff, Stored.listEquals_iff, Stored.listEquals_iff]
    refine forall₂_iff_of_forall₂ hxx hyy fun x hx y hy x' y' hxx' hyy' => ?_
    rw [hf.kind.equals_relists (hxs x hx) (hys y hy) hxx' hyy']
  | @map _ xs hmap _ hxs hsorted =>
    obtain ⟨ys, rfl, -, hys, hsorted'⟩ := ht.entries hmap
    obtain ⟨xs', rfl, hxx⟩ := Stored.Relists.map_iff.1 hss
    obtain ⟨ys', rfl, hyy⟩ := Stored.Relists.map_iff.1 htt
    have hnodup' : (ys.map (·.1)).Nodup := hsorted'.imp And.right
    -- an entry has an equal one on either side if the entry that it was listed as has one
    have alike {e e' : MapKey × Stored} (he : e ∈ xs) (hkey : e.1 = e'.1) (hvalue : e.2.Relists e'.2) :
        (∃ t, lookupKey e'.1 ys' = some t ∧ e'.2.equals t = true) ↔
          ∃ t, lookupKey e.1 ys = some t ∧ e.2.equals t = true := by
      have hlookup := hyy.lookupKey hnodup' e.1
      rw [← hkey]
      rcases ht : lookupKey e.1 ys with _ | t <;> rcases ht' : lookupKey e.1 ys' with _ | t' <;>
        rw [ht, ht'] at hlookup <;> cases hlookup
      · simp
      · rename_i htt
        have hlt : sizeOf e.2 < sizeOf (Stored.map xs) := by
          have hmem := List.sizeOf_lt_of_mem he
          obtain ⟨key, value⟩ := e
          simp only [Prod.mk.sizeOf_spec, Stored.map.sizeOf_spec] at hmem ⊢
          omega
        have heq := hf.valueKind.equals_relists (hxs e he) (hys _ (lookupKey_mem ht)) hvalue htt
        simp [heq]
    simp only [Stored.equals, hxx.length, hyy.length]
    rw [Bool.eq_iff_iff, Bool.and_eq_true, Bool.and_eq_true, Stored.mapWithin_iff,
      Stored.mapWithin_iff]
    refine and_congr_right fun _ => ⟨fun h e he => ?_, fun h e he => ?_⟩
    · obtain ⟨e', he', hkey, hvalue⟩ := hxx.exists_listed he
      exact (alike he hkey hvalue).1 (h e' he')
    · obtain ⟨e', he', hkey, hvalue⟩ := hxx.exists_of_mem he
      exact (alike he' hkey hvalue).2 (h e' he')
termination_by (sizeOf s, 1)

end

end Protoscript
