import Protoscript.Proofs.Writes
import Protoscript.Message.Compare

/-!
# What fields may hold

* `Kind.takes_iff`, `FieldDescriptor.Holds.of_takes` — the check of scalars is exact;
* `FieldDescriptor.holds_defaultOf` — a field may hold what it reads as when unset;
* `FieldDescriptor.Holds.insertKey` — a map stays a map with one more entry;
* `MessageDescriptor.Takes` — whether a message is one of a type.
-/

namespace Protoscript

/-! ## Scalars -/

theorem Kind.takes_iff {kind : Kind} {s : Scalar} : kind.takes s = true ↔ kind.HoldsScalar s := by
  cases kind <;> simp [Kind.takes, Kind.HoldsScalar]

/-- A type has no list and no map. -/
theorem Kind.Holds.not_list {kind : Kind} {items : List Stored} : ¬ kind.Holds (.list items) := by
  intro h
  cases h

theorem Kind.Holds.not_map {kind : Kind} {entries : List (MapKey × Stored)} :
    ¬ kind.Holds (.map entries) := by
  intro h
  cases h

theorem Kind.Holds.holdsScalar {kind : Kind} {s : Scalar} (h : kind.Holds (.scalar s)) :
    kind.HoldsScalar s := by
  cases h with
  | scalar hs => exact hs

theorem Scalar.storage?_zero (storage : Storage) : (Scalar.zero storage).storage? = some storage := by
  cases storage <;> rfl

namespace FieldDescriptor

variable {f : FieldDescriptor}

/-- A field takes only values of its declared default's type. -/
theorem takes_declared {s : Scalar} (hs : f.info.declaredDefault = some s) :
    f.kind.HoldsScalar s := by
  have htakes := f.info.takes_default s hs
  unfold KindRef.takes at htakes
  unfold kind
  split at htakes <;> simp_all [Kind.HoldsScalar]

theorem holds_default {s : Scalar} (hs : f.defaultScalar? = some s) : f.kind.HoldsScalar s := by
  unfold defaultScalar? at hs
  rcases hdeclared : f.info.declaredDefault with _ | x
  · rcases hkind : f.kind with t | d | e <;> rw [hdeclared, hkind] at hs <;> cases hs
    · exact Scalar.storage?_zero t.storage
    · rfl
  · rw [hdeclared] at hs
    cases hs
    exact takes_declared hdeclared

/-- A type has what a single value is that is not given. -/
theorem holds_singleDefault : f.kind.Holds (.singleDefault f) := by
  unfold Stored.singleDefault
  rcases hdefault : f.defaultScalar? with _ | s
  · rcases hkind : f.kind with t | d | e
    · unfold defaultScalar? at hdefault
      rw [hkind] at hdefault
      rcases hdeclared : f.info.declaredDefault with _ | x <;> rw [hdeclared] at hdefault <;>
        cases hdefault
    · exact .message rfl (.empty d)
    · unfold defaultScalar? at hdefault
      rw [hkind] at hdefault
      rcases hdeclared : f.info.declaredDefault with _ | x <;> rw [hdeclared] at hdefault <;>
        cases hdefault
  · exact .scalar (holds_default hdefault)

/-- A field may hold what it reads as when it is unset. -/
theorem holds_defaultOf : f.Holds (.defaultOf f) := by
  unfold Stored.defaultOf
  by_cases hmap : f.isMap = true
  · rw [if_pos hmap]
    exact .map hmap (fun _ he => absurd he List.not_mem_nil) (fun _ he => absurd he List.not_mem_nil)
      .nil
  · rw [if_neg hmap]
    by_cases hlist : f.isList = true
    · rw [if_pos hlist]
      exact .list hlist fun _ hs => absurd hs List.not_mem_nil
    · rw [if_neg hlist]
      exact .single (by simpa using hmap) (by simpa using hlist) holds_singleDefault

/-- A field may hold a scalar that it takes. -/
theorem Holds.of_takes {s : Scalar} (hs : f.takes s = true) : f.Holds (.scalar s) := by
  unfold takes at hs
  simp only [Bool.and_eq_true, Bool.not_eq_true'] at hs
  refine .single ?_ ?_ (.scalar (Kind.takes_iff.1 hs.2))
  · simp [isMap, hs.1]
  · simp [isList, hs.1]

theorem Holds.items {s : Stored} (hs : f.Holds s) (hlist : f.isList = true) :
    ∃ items, s = .list items ∧ ∀ s ∈ items, f.kind.Holds s := by
  cases hs with
  | single hmap hno hs =>
    rw [hlist] at hno
    cases hno
  | list _ hitems => exact ⟨_, rfl, hitems⟩
  | map hmap =>
    rw [isMap_of_isList hlist] at hmap
    cases hmap

theorem Holds.entries {s : Stored} (hs : f.Holds s) (hmap : f.isMap = true) :
    ∃ entries, s = .map entries ∧ (∀ e ∈ entries, f.keyKind.HoldsKey e.1) ∧
      (∀ e ∈ entries, f.valueKind.Holds e.2) ∧ (entries.map (·.1)).Pairwise MapKey.Before := by
  cases hs with
  | single hno hlist hs =>
    rw [hmap] at hno
    cases hno
  | list hlist =>
    rw [isMap_of_isList hlist] at hmap
    cases hmap
  | map _ hkeys hvalues hsorted => exact ⟨_, rfl, hkeys, hvalues, hsorted⟩

theorem Holds.kind {s : Stored} (hs : f.Holds s) (hmap : f.isMap = false) (hlist : f.isList = false) :
    f.kind.Holds s := by
  cases hs with
  | single _ _ hs => exact hs
  | list hyes =>
    rw [hlist] at hyes
    cases hyes
  | map hyes =>
    rw [hmap] at hyes
    cases hyes

end FieldDescriptor

/-! ## Maps -/

/-- Keys of one type are of one form. -/
theorem Kind.HoldsKey.storage {kind : Kind} {a b : MapKey} (ha : kind.HoldsKey a)
    (hb : kind.HoldsKey b) : a.toScalar.storage? = b.toScalar.storage? := by
  unfold Kind.HoldsKey at ha hb
  cases kind with
  | scalar t => exact ha.trans hb.symm
  | enum d => exact ha.trans hb.symm
  | message d => cases ha

namespace MapKey

variable {a b c : MapKey}

theorem le_total (h : a.toScalar.storage? = b.toScalar.storage?) : a.le b = true ∨ b.le a = true := by
  cases a <;> cases b <;> simp only [toScalar, Scalar.storage?, Option.some.injEq, reduceCtorEq] at h
  case bool a b => cases a <;> cases b <;> simp [le]
  all_goals
    simp only [le, decide_eq_true_eq]
    exact Std.le_total

theorem le_trans (hab : a.toScalar.storage? = b.toScalar.storage?)
    (hbc : b.toScalar.storage? = c.toScalar.storage?) (h : a.le b = true) (h' : b.le c = true) :
    a.le c = true := by
  cases a <;> cases b <;> simp only [toScalar, Scalar.storage?, Option.some.injEq, reduceCtorEq] at hab
    <;> cases c <;> simp only [toScalar, Scalar.storage?, Option.some.injEq, reduceCtorEq] at hbc
  case bool a b c => cases a <;> cases b <;> cases c <;> simp_all [le]
  all_goals
    simp only [le, decide_eq_true_eq] at h h' ⊢
    exact Std.le_trans h h'

end MapKey

section

variable {kind : Kind} {key : MapKey} {value : Stored} {entries : List (MapKey × Stored)}

theorem mem_insertKey {e : MapKey × Stored} (he : e ∈ insertKey key value entries) :
    e = (key, value) ∨ e ∈ entries := by
  induction entries with
  | nil => exact .inl (List.mem_singleton.1 he)
  | cons x rest ih =>
    unfold insertKey at he
    split at he
    · exact (List.mem_cons.1 he).imp_right (List.mem_cons_of_mem _)
    · split at he
      · rcases List.mem_cons.1 he with rfl | he
        · exact .inr List.mem_cons_self
        · exact (ih he).imp_right (List.mem_cons_of_mem _)
      · exact List.mem_cons.1 he

/-- Putting an entry in its place keeps the keys in order. -/
theorem sorted_insertKey (hkey : kind.HoldsKey key) (hkeys : ∀ e ∈ entries, kind.HoldsKey e.1)
    (h : (entries.map (·.1)).Pairwise MapKey.Before) :
    ((insertKey key value entries).map (·.1)).Pairwise MapKey.Before := by
  -- keys of one kind are ordered totally, so that the new one has its place
  induction entries with
  | nil => exact List.pairwise_singleton _ _
  | cons e rest ih =>
    obtain ⟨hfirst, hrest⟩ := List.pairwise_cons.1 h
    have hsame : e.1.toScalar.storage? = key.toScalar.storage? :=
      (hkeys e List.mem_cons_self).storage hkey
    unfold insertKey
    split
    · rename_i heq
      rw [← heq]
      exact List.pairwise_cons.2 ⟨hfirst, hrest⟩
    · rename_i hne
      split
      · rename_i hle
        refine List.pairwise_cons.2 ⟨fun k hk => ?_, ih (fun x hx => hkeys x (.tail _ hx)) hrest⟩
        obtain ⟨x, hx, rfl⟩ := List.mem_map.1 hk
        rcases mem_insertKey hx with rfl | hx
        · exact ⟨hle, hne⟩
        · exact hfirst _ (List.mem_map.2 ⟨x, hx, rfl⟩)
      · rename_i hgt
        have hlt : key.le e.1 = true := (MapKey.le_total hsame).resolve_left hgt
        refine List.pairwise_cons.2 ⟨fun k hk => ?_, h⟩
        rcases List.mem_cons.1 hk with rfl | hk
        · exact ⟨hlt, fun heq => hne heq.symm⟩
        · obtain ⟨x, hx, rfl⟩ := List.mem_map.1 hk
          obtain ⟨hle, hnex⟩ := hfirst x.1 (List.mem_map.2 ⟨x, hx, rfl⟩)
          have hsame' := (hkeys e List.mem_cons_self).storage (hkeys x (.tail _ hx))
          refine ⟨MapKey.le_trans hsame.symm hsame' hlt hle, fun heq => hgt ?_⟩
          have heq : key = x.1 := heq
          rw [heq]
          exact hle

end

/-- The entries that a map field may hold. -/
structure FieldDescriptor.HoldsEntries (f : FieldDescriptor) (entries : List (MapKey × Stored)) :
    Prop where
  keys : ∀ e ∈ entries, f.keyKind.HoldsKey e.1
  values : ∀ e ∈ entries, f.valueKind.Holds e.2
  sorted : (entries.map (·.1)).Pairwise MapKey.Before

namespace FieldDescriptor.HoldsEntries

variable {f : FieldDescriptor} {entries : List (MapKey × Stored)}

theorem nil : f.HoldsEntries [] :=
  ⟨fun _ he => absurd he List.not_mem_nil, fun _ he => absurd he List.not_mem_nil, .nil⟩

/-- One more entry. -/
theorem insertKey (h : f.HoldsEntries entries) {key : MapKey} {value : Stored}
    (hkey : f.keyKind.HoldsKey key) (hvalue : f.valueKind.Holds value) :
    f.HoldsEntries (Protoscript.insertKey key value entries) := by
  refine ⟨fun e he => ?_, fun e he => ?_, sorted_insertKey hkey h.keys h.sorted⟩
  · rcases mem_insertKey he with rfl | he
    · exact hkey
    · exact h.keys e he
  · rcases mem_insertKey he with rfl | he
    · exact hvalue
    · exact h.values e he

/-- More entries, in any order. -/
theorem overlay (h : f.HoldsEntries entries) {new : List (MapKey × Stored)}
    (hkeys : ∀ e ∈ new, f.keyKind.HoldsKey e.1) (hvalues : ∀ e ∈ new, f.valueKind.Holds e.2) :
    f.HoldsEntries (new.foldl (fun es e => Protoscript.insertKey e.1 e.2 es) entries) := by
  induction new generalizing entries with
  | nil => exact h
  | cons e rest ih =>
    refine ih (h.insertKey (hkeys e List.mem_cons_self) (hvalues e List.mem_cons_self)) ?_ ?_
    · exact fun x hx => hkeys x (.tail _ hx)
    · exact fun x hx => hvalues x (.tail _ hx)

/-- The map of a list of entries. -/
theorem mapOfEntries {new : List (MapKey × Stored)} (hkeys : ∀ e ∈ new, f.keyKind.HoldsKey e.1)
    (hvalues : ∀ e ∈ new, f.valueKind.Holds e.2) : f.HoldsEntries (mapOfEntries new) :=
  nil.overlay hkeys hvalues

theorem holds (h : f.HoldsEntries entries) (hmap : f.isMap = true) : f.Holds (.map entries) :=
  .map hmap h.keys h.values h.sorted

end FieldDescriptor.HoldsEntries

theorem FieldDescriptor.Holds.holdsEntries {f : FieldDescriptor} {entries : List (MapKey × Stored)}
    (h : f.Holds (.map entries)) : f.HoldsEntries entries := by
  cases h with
  | single _ _ hs => exact absurd hs Kind.Holds.not_map
  | map _ hkeys hvalues hsorted => exact ⟨hkeys, hvalues, hsorted⟩

/-- A scalar of the key type is, if a key at all, a key of that type. -/
theorem Kind.HoldsScalar.key {kind : Kind} {s : Scalar} {key : MapKey} (hs : kind.HoldsScalar s)
    (hkey : MapKey.ofScalar? s = some key) : kind.HoldsKey key := by
  have hback : key.toScalar = s := by
    cases s <;> cases hkey <;> rfl
  unfold HoldsKey
  rw [hback]
  exact hs

/-! ## Messages -/

theorem MessageDescriptor.numbered?_mem {d : MessageDescriptor} {number : Nat} {f : FieldDescriptor}
    (hf : d.numbered? number = some f) : f ∈ d.fields := by
  obtain ⟨info, hinfo, rfl⟩ := Option.map_eq_some_iff.1 hf
  exact mem_fields.2 ⟨rfl, List.mem_of_find?_eq_some hinfo⟩

/-- Whether a message is one of a type, with everything in it as the type declares it. -/
structure MessageDescriptor.Takes (d : MessageDescriptor) (m : Message) : Prop where
  descriptor : m.descriptor = d
  conforms : m.Conforms

namespace MessageDescriptor.Takes

variable {d : MessageDescriptor} {m : Message} {f : FieldDescriptor}

theorem empty (d : MessageDescriptor) : d.Takes (.empty d) := ⟨rfl, .empty d⟩

theorem holds (hm : d.Takes m) : (Kind.message d).Holds (.message m) := .message hm.1 hm.2

theorem of_holds (h : (Kind.message d).Holds (.message m)) : d.Takes m := by
  cases h with
  | message hd hm => exact ⟨hd, hm⟩

/-- Writing a field. -/
theorem set (hm : d.Takes m) (hf : f ∈ d.fields) {s : Stored} (hs : f.Holds s) : d.Takes (m.set f s) :=
  ⟨(Message.descriptor_set m f s).trans hm.1, hm.2.set (hm.1.symm ▸ hf) hs⟩

theorem stored (hm : d.Takes m) (hf : f ∈ d.fields) {s : Stored} (hs : m.stored? f = some s) :
    f.Holds s := by
  obtain ⟨rfl, hm⟩ := hm
  cases hm with
  | mk _ _ held _ _ => exact held f hf s hs

/-- What a field reads as, it may hold. -/
theorem get (hm : d.Takes m) (hf : f ∈ d.fields) : f.Holds (m.get f) := by
  rcases hs : m.stored? f with _ | s
  · rw [Message.get_of_none hs]
    exact FieldDescriptor.holds_defaultOf
  · rw [Message.get_of_stored? rfl hs]
    exact hm.stored hf hs

theorem singleAt? (hm : d.Takes m) {number : Nat} {s : Stored} (hs : m.singleAt? number = some s) :
    ((d.numbered? number).getD default).kind.Holds s := by
  unfold Message.singleAt? at hs
  rw [hm.1] at hs
  split at hs
  · cases hs
  rename_i f hnumber
  rw [hnumber, Option.getD_some]
  rcases hstored : m.stored? f with _ | t
  · rw [hstored] at hs
    cases hs
    exact FieldDescriptor.holds_singleDefault
  · have ht := hm.stored (numbered?_mem hnumber) hstored
    rw [hstored] at hs
    cases t with
    | list => cases hs
    | map => cases hs
    | scalar x =>
      cases hs
      cases ht with
      | single _ _ hs => exact hs
    | message n =>
      cases hs
      cases ht with
      | single _ _ hs => exact hs

theorem setNumber (hm : d.Takes m) (number : Nat) (s : Scalar) : d.Takes (m.setNumber number s) := by
  unfold Message.setNumber
  split
  · rename_i f hf
    split
    · rename_i htakes
      exact hm.set (hm.1 ▸ numbered?_mem hf) (.of_takes htakes)
    · exact hm
  · exact hm

theorem packing (hm : d.Takes m) (url : String) (payload : List UInt8) :
    d.Takes (m.packing url payload) :=
  (hm.setNumber 1 _).setNumber 2 _

end MessageDescriptor.Takes

end Protoscript
