import Protoscript.Json.ToMessage
import Protoscript.Proofs.Holding
import Protoscript.TextForm.Reader

/-!
# Decoded messages conform

Whatever bytes, JSON values and texts are read, the message that comes out is one of the type that
was asked for.

* `Message.takes_ofWire?`, `Message.takes_ofJson?`, `Message.takes_ofText?` — the three forms.
-/

namespace Protoscript

/-- What holds at the start of a fold, and is kept by every step that succeeds, holds at the end. -/
theorem Option.foldlM_keeps {α β : Type} {P : β → Prop} {f : β → α → Option β} {xs : List α}
    (h : ∀ b, ∀ x ∈ xs, ∀ b', P b → f b x = some b' → P b') {b b' : β} (hb : P b)
    (hfold : xs.foldlM f b = some b') : P b' := by
  induction xs generalizing b with
  | nil =>
    cases hfold
    exact hb
  | cons x rest ih =>
    rw [List.foldlM_cons, Option.bind_eq_bind, Option.bind_eq_some_iff] at hfold
    obtain ⟨mid, hmid, hrest⟩ := hfold
    exact ih (fun b y hy => h b y (.tail _ hy)) (h b x List.mem_cons_self mid hb hmid) hrest

/-- What every element is mapped to. -/
theorem Option.mapM_all {α β : Type} {P : β → Prop} {f : α → Option β} {xs : List α} {ys : List β}
    (h : ∀ x ∈ xs, ∀ y, f x = some y → P y) (hmap : xs.mapM f = some ys) : ∀ y ∈ ys, P y := by
  induction xs generalizing ys with
  | nil =>
    rw [List.mapM_nil] at hmap
    cases hmap
    exact fun y hy => absurd hy List.not_mem_nil
  | cons x rest ih =>
    rw [List.mapM_cons] at hmap
    simp only [Option.bind_eq_bind, Option.bind_eq_some_iff] at hmap
    obtain ⟨y, hy, zs, hzs, hcons⟩ := hmap
    cases hcons
    intro z hz
    rcases List.mem_cons.1 hz with rfl | hz
    · exact h x List.mem_cons_self z hy
    · exact ih (fun x hx => h x (.tail _ hx)) hzs z hz

/-! ## The types of entries -/

theorem FieldDescriptor.keyKind_of {f : FieldDescriptor} {entry : MessageDescriptor}
    (h : f.kind = .message entry) : f.keyKind = (entryKey entry).kind := by
  unfold keyKind
  rw [h]

theorem FieldDescriptor.valueKind_of {f : FieldDescriptor} {entry : MessageDescriptor}
    (h : f.kind = .message entry) : f.valueKind = (entryValue entry).kind := by
  unfold valueKind
  rw [h]

/-! ## Bytes -/

theorem Kind.holds_ofWire? {kind : Kind} {w : WireValue} {s : Scalar} (h : kind.ofWire? w = some s) :
    kind.HoldsScalar s := by
  unfold Kind.ofWire? at h
  split at h
  · rename_i t w
    unfold ScalarType.ofWire? at h
    split at h <;> first
      | (cases h; rfl)
      | (obtain ⟨x, -, rfl⟩ := Option.map_eq_some_iff.1 h; rfl)
      | cases h
  · cases h
    rfl
  · cases h

/-- A value under a number that is not declared. -/
theorem Message.takes_keep {d : MessageDescriptor} {m : Message} (hm : d.Takes m) {number : Nat} {w : WireValue}
    (hnumber : m.descriptor.numbered? number = none) : d.Takes (m.keep number w) := by
  obtain ⟨rfl, hm⟩ := hm
  refine ⟨rfl, ?_⟩
  cases hm with
  | mk sorted declared held single undeclared =>
    refine .mk sorted declared held single fun e he => ?_
    rcases mem_insertNumber he with rfl | he
    · exact hnumber
    · exact undeclared e he

section

variable {inner : Message → List UInt8 → Option Message} {depth : Nat}
  (hinner : ∀ d m bytes n, MessageDescriptor.Takes d m → inner m bytes = some n → d.Takes n)

include hinner

/-- A value that is read on top of a value of the type. -/
theorem Kind.holds_readStored? {kind : Kind} {old : Option Stored} {w : WireValue} {s : Stored}
    (hold : ∀ s, old = some s → kind.Holds s) (h : kind.readStored? inner old w = some s) :
    kind.Holds s := by
  unfold Kind.readStored? at h
  split at h
  · rename_i d
    split at h
    · obtain ⟨n, hn, rfl⟩ := Option.map_eq_some_iff.1 h
      exact (hinner d _ _ n (.of_holds (hold _ rfl)) hn).holds
    · obtain ⟨n, hn, rfl⟩ := Option.map_eq_some_iff.1 h
      exact (hinner d _ _ n (.empty d) hn).holds
    · cases h
  · obtain ⟨x, hx, rfl⟩ := Option.map_eq_some_iff.1 h
    exact .scalar (Kind.holds_ofWire? hx)

theorem holds_readMapEntry {entry : MessageDescriptor} {bytes : List UInt8} {key : MapKey}
    {value : Stored} (h : readMapEntry inner depth entry bytes = some (key, value)) :
    (FieldDescriptor.entryKey entry).kind.HoldsKey key ∧
      (FieldDescriptor.entryValue entry).kind.Holds value := by
  unfold readMapEntry at h
  simp only [Option.bind_eq_bind, Option.bind_eq_some_iff] at h
  obtain ⟨fields, -, ⟨k, v⟩, hfold, hkey⟩ := h
  have hboth : (FieldDescriptor.entryKey entry).kind.Holds k ∧
      (FieldDescriptor.entryValue entry).kind.Holds v := by
    refine Option.foldlM_keeps
      (P := fun e : Stored × Stored => (FieldDescriptor.entryKey entry).kind.Holds e.1 ∧
        (FieldDescriptor.entryValue entry).kind.Holds e.2) (fun e field _ e' he hstep => ?_)
      ⟨FieldDescriptor.holds_singleDefault, FieldDescriptor.holds_singleDefault⟩ hfold
    split at hstep
    · obtain ⟨s, hs, rfl⟩ := Option.map_eq_some_iff.1 hstep
      exact ⟨Kind.holds_readStored? hinner (fun s hs => by cases hs; exact he.1) hs, he.2⟩
    · split at hstep
      · obtain ⟨s, hs, rfl⟩ := Option.map_eq_some_iff.1 hstep
        exact ⟨he.1, Kind.holds_readStored? hinner (fun s hs => by cases hs; exact he.2) hs⟩
      · split at hstep <;> cases hstep
        exact he
  cases k with
  | scalar s =>
    obtain ⟨key', hkey', heq⟩ := Option.map_eq_some_iff.1 hkey
    cases heq
    exact ⟨hboth.1.holdsScalar.key hkey', hboth.2⟩
  | _ => cases hkey

namespace Message

variable {d : MessageDescriptor} {m n : Message}

/-- One numbered value. -/
theorem takes_absorbField? (hm : d.Takes m) {number : Nat} {w : WireValue}
    (h : m.absorbField? inner depth number w = some n) : d.Takes n := by
  unfold absorbField? at h
  split at h
  · rename_i hnumber
    cases h
    exact takes_keep hm hnumber
  rename_i f hnumber
  have hf : f ∈ d.fields := hm.1 ▸ MessageDescriptor.numbered?_mem hnumber
  split at h
  · rename_i hmap
    split at h
    · rename_i entry bytes entries hkind hget
      obtain ⟨⟨key, value⟩, he, rfl⟩ := Option.map_eq_some_iff.1 h
      obtain ⟨hkey, hvalue⟩ := holds_readMapEntry hinner he
      have hold : f.Holds (.map entries) := hget ▸ hm.get hf
      refine hm.set hf ((hold.holdsEntries.insertKey ?_ ?_).holds hmap)
      · rw [FieldDescriptor.keyKind_of hkind]
        exact hkey
      · rw [FieldDescriptor.valueKind_of hkind]
        exact hvalue
    · cases h
  rename_i hmap
  split at h
  · rename_i hlist
    split at h
    · rename_i items hget
      have hold : f.Holds (.list items) := hget ▸ hm.get hf
      obtain ⟨_, heq, hitems⟩ := hold.items hlist
      cases heq
      have unset : ∀ s, none = some s → f.kind.Holds s := fun s hs => by cases hs
      -- packed items and single ones are appended alike
      have more {new : List Stored} (hnew : ∀ s ∈ new, f.kind.Holds s) :
          d.Takes (m.set f (.list (items ++ new))) := by
        refine hm.set hf (.list hlist fun s hs => ?_)
        rcases List.mem_append.1 hs with hs | hs
        · exact hitems s hs
        · exact hnew s hs
      split at h
      · simp only [Option.bind_eq_bind, Option.bind_eq_some_iff] at h
        obtain ⟨values, -, new, hnew, heq⟩ := h
        cases heq
        exact more (Option.mapM_all (fun w _ s hs => Kind.holds_readStored? hinner unset hs) hnew)
      · obtain ⟨item, hitem, rfl⟩ := Option.map_eq_some_iff.1 h
        refine more fun s hs => ?_
        rw [List.mem_singleton.1 hs]
        exact Kind.holds_readStored? hinner unset hitem
    · cases h
  · rename_i hlist
    have hmap : f.isMap = false := by simpa using hmap
    have hlist : f.isList = false := by simpa using hlist
    obtain ⟨s, hs, rfl⟩ := Option.map_eq_some_iff.1 h
    refine hm.set hf (.single hmap hlist (Kind.holds_readStored? hinner (fun t ht => ?_) hs))
    exact (hm.stored hf ht).kind hmap hlist

theorem takes_absorbWith? (hm : d.Takes m) {bytes : List UInt8}
    (h : m.absorbWith? inner depth bytes = some n) : d.Takes n := by
  unfold absorbWith? at h
  simp only [Option.bind_eq_bind, Option.bind_eq_some_iff] at h
  obtain ⟨fields, -, hfold⟩ := h
  exact Option.foldlM_keeps (fun m field _ n hm h => takes_absorbField? hinner hm h) hm hfold

end Message

end

namespace Message

/-- Bytes that are read into a message leave it one of its type. The induction is on how deep
messages may nest. -/
theorem takes_absorb? {depth : Nat} {d : MessageDescriptor} {m n : Message} {bytes : List UInt8}
    (hm : d.Takes m) (h : absorb? depth m bytes = some n) : d.Takes n := by
  induction depth generalizing d m n bytes with
  | zero => exact takes_absorbWith? (fun _ _ _ _ _ hnone => by cases hnone) hm h
  | succ depth ih => exact takes_absorbWith? (fun _ _ _ _ hm h => ih hm h) hm h

/-- **Bytes.** -/
theorem takes_ofWire? {d : MessageDescriptor} {bytes : List UInt8} {m : Message}
    (h : ofWire? d bytes = some m) : d.Takes m :=
  takes_absorb? (.empty d) h

end Message

/-! ## JSON -/

theorem ScalarType.storage?_ofJson? {t : ScalarType} {j : Json} {s : Scalar}
    (h : t.ofJson? j = some s) : s.storage? = some t.storage := by
  unfold ScalarType.ofJson? at h
  split at h
  case h_7 | h_8 =>
    rename_i hstorage
    rw [hstorage]
    split at h <;> cases h
    rfl
  case h_9 =>
    rename_i hstorage
    rw [hstorage]
    split at h
    · obtain ⟨x, -, rfl⟩ := Option.map_eq_some_iff.1 h
      rfl
    · cases h
  all_goals
    rename_i hstorage
    rw [hstorage]
    obtain ⟨x, -, rfl⟩ := Option.map_eq_some_iff.1 h
    rfl

theorem Kind.holds_scalarOfJson? {kind : Kind} {j : Json} {s : Scalar}
    (h : kind.scalarOfJson? j = some s) : kind.HoldsScalar s := by
  cases kind with
  | scalar t => exact ScalarType.storage?_ofJson? h
  | enum d =>
    have h : d.ofJson? j = some s := h
    unfold EnumDescriptor.ofJson? at h
    split at h
    · obtain ⟨x, -, rfl⟩ := Option.map_eq_some_iff.1 h
      rfl
    · obtain ⟨x, -, rfl⟩ := Option.map_eq_some_iff.1 h
      rfl
    · cases h
  | message d => cases h

theorem Kind.holds_keyOfJson? {kind : Kind} {name : String} {key : MapKey}
    (h : kind.keyOfJson? name = some key) : kind.HoldsKey key := by
  cases kind with
  | scalar t =>
    unfold Kind.keyOfJson? at h
    unfold Kind.HoldsKey Kind.HoldsScalar
    dsimp only at h ⊢
    split at h
    · rename_i hstorage
      rw [hstorage]
      split at h
      · cases h
        rfl
      · split at h <;> cases h
        rfl
    all_goals
      rename_i hstorage
      rw [hstorage]
      first
        | (obtain ⟨x, -, rfl⟩ := Option.map_eq_some_iff.1 h; rfl)
        | (cases h; rfl)
        | cases h
  | enum d => cases h
  | message d => cases h

theorem Message.takes_wrapping (d : MessageDescriptor) (s : Scalar) :
    d.Takes (Message.wrapping d s) := by
  unfold Message.wrapping
  split
  · split
    · exact .empty d
    · exact (MessageDescriptor.Takes.empty d).setNumber 1 s
  · exact .empty d

theorem MessageDescriptor.memberField?_mem {d : MessageDescriptor} {name : String}
    {f : FieldDescriptor} (h : d.memberField? name = some f) : f ∈ d.fields := by
  unfold memberField? at h
  split at h
  · rename_i g hg
    cases h
    obtain ⟨info, hinfo, rfl⟩ := Option.map_eq_some_iff.1 hg
    exact mem_fields.2 ⟨rfl, List.mem_of_find?_eq_some hinfo⟩
  · exact (field?_eq_some.1 h).1

theorem Message.takes_setMember? {d : MessageDescriptor} {m n : Message} {f : FieldDescriptor}
    {s : Stored} (hm : d.Takes m) (hf : f ∈ d.fields) (hs : f.Holds s)
    (h : m.setMember? f s = some n) : d.Takes n := by
  unfold Message.setMember? at h
  split at h <;> cases h
  exact hm.set hf hs

mutual

/-- **JSON.** The induction is on the value, like that of the reader. -/
theorem Message.takes_ofJson? {d : MessageDescriptor} {j : Json} {m : Message}
    (h : Message.ofJson? d j = some m) : d.Takes m := by
  cases hj : j with
  | object members =>
    rw [hj, Message.ofJson?] at h
    split at h
    · split at h
      · cases h
      · split at h
        · cases h
        · obtain ⟨payload, -, rfl⟩ := Option.map_eq_some_iff.1 h
          exact (MessageDescriptor.Takes.empty d).packing _ _
    · split at h
      · cases h
      · exact Message.takes_readMembers? (.empty d) h
  | _ =>
    rw [hj, Message.ofJson?] at h
    · split at h
      · obtain ⟨s, -, rfl⟩ := Option.map_eq_some_iff.1 h
        exact Message.takes_wrapping d s
      · cases h
    · exact fun _ hj => Json.noConfusion hj
termination_by 3 * sizeOf j
decreasing_by
  rw [hj, Json.object.sizeOf_spec]
  omega

theorem Message.takes_readMembers? {d : MessageDescriptor} {m n : Message}
    {members : List (String × Json)} (hm : d.Takes m) (h : m.readMembers? members = some n) :
    d.Takes n := by
  cases hmembers : members with
  | nil =>
    rw [hmembers, Message.readMembers?] at h
    cases h
    exact hm
  | cons member rest =>
    obtain ⟨name, value⟩ := member
    rw [hmembers, Message.readMembers?] at h
    split at h
    · cases h
    · rename_i f hf
      split at h
      · rename_i mid hmid
        have hf : f ∈ d.fields := hm.1 ▸ MessageDescriptor.memberField?_mem hf
        exact Message.takes_readMembers? (Message.takes_readMember? hm hf hmid) h
      · cases h
termination_by 3 * sizeOf members
decreasing_by
  all_goals
    rw [hmembers]
    simp only [List.cons.sizeOf_spec, Prod.mk.sizeOf_spec]
    omega

theorem Message.takes_readMember? {d : MessageDescriptor} {m n : Message} {f : FieldDescriptor}
    {j : Json} (hm : d.Takes m) (hf : f ∈ d.fields) (h : m.readMember? f j = some n) :
    d.Takes n := by
  have single {j : Json} (hmap : ¬ f.isMap = true) (hlist : ¬ f.isList = true)
      (hread : ∀ s, Stored.ofJson? f.kind j = some s → f.kind.Holds s)
      (h : (Stored.ofJson? f.kind j).bind (m.setMember? f) = some n) : d.Takes n := by
    obtain ⟨s, hs, hset⟩ := Option.bind_eq_some_iff.1 h
    refine Message.takes_setMember? hm hf (.single ?_ ?_ (hread s hs)) hset
    · simpa using hmap
    · simpa using hlist
  cases hj : j with
  | null =>
    rw [hj, Message.readMember?] at h
    split at h
    · cases h
      exact hm
    · exact Message.takes_setMember? hm hf FieldDescriptor.holds_defaultOf h
  | object members =>
    rw [hj, Message.readMember?] at h
    split at h
    · rename_i hmap
      obtain ⟨es, hes, hset⟩ := Option.bind_eq_some_iff.1 h
      exact Message.takes_setMember? hm hf ((Stored.holds_readEntries? .nil hes).holds hmap) hset
    · rename_i hmap
      split at h
      · cases h
      · rename_i hlist
        exact single hmap hlist (fun s hs => Stored.holds_ofJson? hs) h
  | array items =>
    rw [hj, Message.readMember?] at h
    split at h
    · cases h
    · rename_i hmap
      split at h
      · rename_i hlist
        obtain ⟨vs, hvs, hset⟩ := Option.bind_eq_some_iff.1 h
        exact Message.takes_setMember? hm hf (.list hlist (Stored.holds_readItems? hvs)) hset
      · rename_i hlist
        exact single hmap hlist (fun s hs => Stored.holds_ofJson? hs) h
  | _ =>
    rw [hj, Message.readMember?] at h
    · split at h
      · cases h
      · rename_i hno
        simp only [Bool.or_eq_true, not_or] at hno
        exact single hno.1 hno.2 (fun s hs => Stored.holds_ofJson? hs) h
    all_goals simp
termination_by 3 * sizeOf j + 2
decreasing_by
  all_goals
    simp only [hj, Json.object.sizeOf_spec, Json.array.sizeOf_spec]
    omega

theorem Stored.holds_ofJson? {kind : Kind} {j : Json} {s : Stored}
    (h : Stored.ofJson? kind j = some s) : kind.Holds s := by
  cases kind with
  | message d =>
    rw [Stored.ofJson?] at h
    obtain ⟨m, hm, rfl⟩ := Option.map_eq_some_iff.1 h
    exact (Message.takes_ofJson? hm).holds
  | _ =>
    rw [Stored.ofJson?] at h
    · obtain ⟨x, hx, rfl⟩ := Option.map_eq_some_iff.1 h
      exact .scalar (Kind.holds_scalarOfJson? hx)
    · exact fun _ hkind => Kind.noConfusion hkind
termination_by 3 * sizeOf j + 1

theorem Stored.holds_readItems? {kind : Kind} {items : List Json} {vs : List Stored}
    (h : Stored.readItems? kind items = some vs) : ∀ s ∈ vs, kind.Holds s := by
  cases hitems : items with
  | nil =>
    rw [hitems, Stored.readItems?] at h
    cases h
    exact fun _ hs => absurd hs List.not_mem_nil
  | cons item rest =>
    rw [hitems, Stored.readItems?] at h
    split at h
    · rename_i v vs' hv hvs
      cases h
      intro s hs
      rcases List.mem_cons.1 hs with rfl | hs
      · exact Stored.holds_ofJson? hv
      · exact Stored.holds_readItems? hvs s hs
    · cases h
termination_by 3 * sizeOf items
decreasing_by
  all_goals
    rw [hitems, List.cons.sizeOf_spec]
    omega

theorem Stored.holds_readEntries? {f : FieldDescriptor} {old new : List (MapKey × Stored)}
    {members : List (String × Json)} (hold : f.HoldsEntries old)
    (h : Stored.readEntries? f old members = some new) : f.HoldsEntries new := by
  cases hmembers : members with
  | nil =>
    rw [hmembers, Stored.readEntries?] at h
    cases h
    exact hold
  | cons member rest =>
    obtain ⟨name, value⟩ := member
    rw [hmembers, Stored.readEntries?] at h
    split at h
    · rename_i entry hkind
      split at h
      · rename_i key v hkey hv
        refine Stored.holds_readEntries? (hold.insertKey ?_ ?_) h
        · rw [FieldDescriptor.keyKind_of hkind]
          exact Kind.holds_keyOfJson? hkey
        · rw [FieldDescriptor.valueKind_of hkind]
          exact Stored.holds_ofJson? hv
      · cases h
    · cases h
    · cases h
termination_by 3 * sizeOf members
decreasing_by
  all_goals
    rw [hmembers]
    simp only [List.cons.sizeOf_spec, Prod.mk.sizeOf_spec]
    omega

end

/-! ## Texts -/

theorem ScalarType.storage?_ofForm? {t : ScalarType} {node : FormNode} {s : Scalar}
    (h : t.ofForm? node = some s) : s.storage? = some t.storage := by
  unfold ScalarType.ofForm? at h
  split at h
  case h_7 =>
    rename_i hstorage
    rw [hstorage]
    split at h
    · split at h
      · cases h
        rfl
      · split at h <;> cases h
        rfl
    · cases h
      rfl
    · cases h
      rfl
    · cases h
  case h_8 =>
    rename_i hstorage
    rw [hstorage]
    split at h
    · obtain ⟨x, -, rfl⟩ := Option.map_eq_some_iff.1 h
      rfl
    · cases h
  case h_9 =>
    rename_i hstorage
    rw [hstorage]
    split at h <;> cases h
    rfl
  all_goals
    rename_i hstorage
    rw [hstorage]
    obtain ⟨x, -, rfl⟩ := Option.map_eq_some_iff.1 h
    rfl

theorem EnumDescriptor.storage?_ofForm? {d : EnumDescriptor} {node : FormNode} {s : Scalar}
    (h : d.ofForm? node = some s) : s.storage? = none := by
  unfold EnumDescriptor.ofForm? at h
  split at h <;>
  · obtain ⟨x, -, rfl⟩ := Option.map_eq_some_iff.1 h
    rfl

mutual

/-- The induction is on the fields, like that of the reader. -/
theorem Message.takes_ofForm? {d : MessageDescriptor} {m n : Message} {fields : List FormField}
    (hm : d.Takes m) (h : m.ofForm? fields = some n) : d.Takes n := by
  cases hfields : fields with
  | nil =>
    rw [hfields, Message.ofForm?] at h
    cases h
    exact hm
  | cons field rest =>
    rw [hfields, Message.ofForm?] at h
    split at h
    · rename_i mid hmid
      exact Message.takes_ofForm? (Message.takes_readForm? hm hmid) h
    · cases h
termination_by sizeOf fields
decreasing_by
  all_goals
    simp only [hfields, List.cons.sizeOf_spec]
    omega

theorem Message.takes_readForm? {d : MessageDescriptor} {m n : Message} {field : FormField}
    (hm : d.Takes m) (h : m.readForm? field = some n) : d.Takes n := by
  rcases hfield : field with ⟨name, colon, value⟩
  rw [hfield] at h
  cases name with
  | field name =>
    rw [Message.readForm?] at h
    split at h
    · cases h
    rename_i f hname
    have hf : f ∈ d.fields := hm.1 ▸ (MessageDescriptor.field?_eq_some.1 hname).1
    split at h
    · cases h
    split at h
    · rename_i hmap
      obtain ⟨es, hes, rfl⟩ := Option.map_eq_some_iff.1 h
      have hall := Stored.holds_entriesOfForm? hes
      split
      · -- entries are laid over those that are there
        rename_i old hold
        have hold : f.Holds (.map old) := hold ▸ hm.get hf
        refine hm.set hf ((hold.holdsEntries.overlay ?_ ?_).holds hmap)
        · exact fun e he => (hall e he).1
        · exact fun e he => (hall e he).2
      · refine hm.set hf ((FieldDescriptor.HoldsEntries.mapOfEntries ?_ ?_).holds hmap)
        · exact fun e he => (hall e he).1
        · exact fun e he => (hall e he).2
    rename_i hmap
    split at h
    · rename_i hlist
      obtain ⟨vs, hvs, rfl⟩ := Option.map_eq_some_iff.1 h
      have hall := Stored.holds_itemsOfForm? hvs
      split
      · rename_i old hold
        -- items are appended to those that are there
        obtain ⟨_, heq, hitems⟩ := (hold ▸ hm.get hf : f.Holds (.list old)).items hlist
        cases heq
        refine hm.set hf (.list hlist fun s hs => ?_)
        rcases List.mem_append.1 hs with hs | hs
        · exact hitems s hs
        · exact hall s hs
      · exact hm.set hf (.list hlist hall)
    rename_i hlist
    split at h
    · cases h
    · obtain ⟨s, hs, rfl⟩ := Option.map_eq_some_iff.1 h
      refine hm.set hf (.single ?_ ?_ (Stored.holds_ofForm? hs))
      · simpa using hmap
      · simpa using hlist
  | extension name =>
    rw [Message.readForm?] at h
    cases h
  | any domain typeName =>
    rw [Message.readForm?.eq_def] at h
    dsimp only at h
    split at h
    · split at h
      · split at h
        · cases h
          exact hm.packing _ _
        · cases h
      · cases h
    · cases h
termination_by sizeOf field
decreasing_by
  all_goals
    simp only [hfield, FormField.mk.sizeOf_spec, FormName.field.sizeOf_spec]
    omega

theorem Stored.holds_ofForm? {kind : Kind} {node : FormNode} {s : Stored}
    (h : Stored.ofForm? kind node = some s) : kind.Holds s := by
  cases hnode : node with
  | message fields =>
    rw [hnode] at h
    cases kind with
    | message d =>
      rw [Stored.ofForm?] at h
      obtain ⟨m, hm, rfl⟩ := Option.map_eq_some_iff.1 h
      exact (Message.takes_ofForm? (.empty d) hm).holds
    | _ =>
      rw [Stored.ofForm?] at h
      cases h
  | list items =>
    rw [hnode, Stored.ofForm?] at h
    cases h
  | _ =>
    rw [hnode] at h
    cases kind with
    | scalar t =>
      rw [Stored.ofForm?] at h
      · obtain ⟨x, hx, rfl⟩ := Option.map_eq_some_iff.1 h
        exact .scalar (ScalarType.storage?_ofForm? hx)
      all_goals simp
    | enum d =>
      rw [Stored.ofForm?] at h
      · obtain ⟨x, hx, rfl⟩ := Option.map_eq_some_iff.1 h
        exact .scalar (EnumDescriptor.storage?_ofForm? hx)
      all_goals simp
    | message d =>
      rw [Stored.ofForm?] at h
      · cases h
      all_goals simp
termination_by sizeOf node
decreasing_by
  simp only [hnode, FormNode.message.sizeOf_spec]
  omega

theorem Stored.holds_itemsOfForm? {kind : Kind} {node : FormNode} {vs : List Stored}
    (h : Stored.itemsOfForm? kind node = some vs) : ∀ s ∈ vs, kind.Holds s := by
  cases hnode : node with
  | list items =>
    rw [hnode, Stored.itemsOfForm?] at h
    exact Stored.holds_allOfForm? h
  | _ =>
    rw [hnode, Stored.itemsOfForm?] at h
    · obtain ⟨v, hv, rfl⟩ := Option.map_eq_some_iff.1 h
      intro s hs
      rw [List.mem_singleton.1 hs]
      exact Stored.holds_ofForm? hv
    · simp
termination_by sizeOf node + 1
decreasing_by
  all_goals
    simp only [hnode, FormNode.list.sizeOf_spec]
    omega

theorem Stored.holds_allOfForm? {kind : Kind} {items : List FormNode} {vs : List Stored}
    (h : Stored.allOfForm? kind items = some vs) : ∀ s ∈ vs, kind.Holds s := by
  cases hitems : items with
  | nil =>
    rw [hitems, Stored.allOfForm?] at h
    cases h
    exact fun _ hs => absurd hs List.not_mem_nil
  | cons item rest =>
    rw [hitems, Stored.allOfForm?] at h
    split at h
    · rename_i v vs' hv hvs
      cases h
      intro s hs
      rcases List.mem_cons.1 hs with rfl | hs
      · exact Stored.holds_ofForm? hv
      · exact Stored.holds_allOfForm? hvs s hs
    · cases h
termination_by sizeOf items
decreasing_by
  all_goals
    simp only [hitems, List.cons.sizeOf_spec]
    omega

theorem Stored.holds_entriesOfForm? {f : FieldDescriptor} {node : FormNode}
    {es : List (MapKey × Stored)} (h : Stored.entriesOfForm? f node = some es) :
    ∀ e ∈ es, f.keyKind.HoldsKey e.1 ∧ f.valueKind.Holds e.2 := by
  cases hnode : node with
  | list items =>
    rw [hnode, Stored.entriesOfForm?] at h
    exact Stored.holds_allEntriesOfForm? h
  | _ =>
    rw [hnode, Stored.entriesOfForm?] at h
    · obtain ⟨e, he, rfl⟩ := Option.map_eq_some_iff.1 h
      intro x hx
      rw [List.mem_singleton.1 hx]
      exact Stored.holds_entryOfForm? he
    · simp
termination_by sizeOf node + 1
decreasing_by
  all_goals
    simp only [hnode, FormNode.list.sizeOf_spec]
    omega

theorem Stored.holds_allEntriesOfForm? {f : FieldDescriptor} {items : List FormNode}
    {es : List (MapKey × Stored)} (h : Stored.allEntriesOfForm? f items = some es) :
    ∀ e ∈ es, f.keyKind.HoldsKey e.1 ∧ f.valueKind.Holds e.2 := by
  cases hitems : items with
  | nil =>
    rw [hitems, Stored.allEntriesOfForm?] at h
    cases h
    exact fun _ hs => absurd hs List.not_mem_nil
  | cons item rest =>
    rw [hitems, Stored.allEntriesOfForm?] at h
    split at h
    · rename_i e es' he hes
      cases h
      intro x hx
      rcases List.mem_cons.1 hx with rfl | hx
      · exact Stored.holds_entryOfForm? he
      · exact Stored.holds_allEntriesOfForm? hes x hx
    · cases h
termination_by sizeOf items
decreasing_by
  all_goals
    simp only [hitems, List.cons.sizeOf_spec]
    omega

theorem Stored.holds_entryOfForm? {f : FieldDescriptor} {node : FormNode} {e : MapKey × Stored}
    (h : Stored.entryOfForm? f node = some e) :
    f.keyKind.HoldsKey e.1 ∧ f.valueKind.Holds e.2 := by
  cases hnode : node with
  | message fields =>
    rw [hnode, Stored.entryOfForm?] at h
    split at h
    · rename_i entry hkind
      split at h
      · rename_i m hm
        have hm := Message.takes_ofForm? (.empty entry) hm
        split at h
        · rename_i key value hkey hvalue
          obtain ⟨k, hk, rfl⟩ := Option.map_eq_some_iff.1 h
          rw [FieldDescriptor.keyKind_of hkind, FieldDescriptor.valueKind_of hkind]
          exact ⟨(hm.singleAt? hkey).holdsScalar.key hk, hm.singleAt? hvalue⟩
        · cases h
      · cases h
    · cases h
    · cases h
  | _ =>
    rw [hnode, Stored.entryOfForm?] at h
    · cases h
    · simp
termination_by sizeOf node
decreasing_by
  simp only [hnode, FormNode.message.sizeOf_spec]
  omega

end

/-- **Texts.** -/
theorem Message.takes_ofText? {d : MessageDescriptor} {text : String} {m : Message}
    (h : Message.ofText? d text = some m) : d.Takes m := by
  obtain ⟨fields, -, hm⟩ := Option.bind_eq_some_iff.1 h
  exact Message.takes_ofForm? (.empty d) hm

end Protoscript
