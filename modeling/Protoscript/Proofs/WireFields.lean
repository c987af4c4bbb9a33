import Protoscript.Proofs.Alike
import Protoscript.Proofs.WireScalars

/-!
# Fields are read back from the wire

What a field holds is written as values under its number, if it counts. Those values are read on top of
what a field held before, in a message of the same type: a scalar takes the place of what was there, a
message is read into the one that was there, the items of a list are appended, and the entries of a map
put in their places. That the messages inside are read back is assumed here.

* `FieldDescriptor.readInto?`, `Message.absorbAll?_eq` — the values of one field change that field only;
* `FieldDescriptor.Written` — fields that the wire can carry;
* `Kind.readStored?_itemToWire?`, `readMapEntry_entryFields` — single values and the entries of maps;
* `FieldDescriptor.readsBack` — what a field holds.
-/

namespace Protoscript

/-- A field is found by its number. -/
theorem MessageDescriptor.numbered?_number {d : MessageDescriptor} {f : FieldDescriptor}
    (hf : f ∈ d.fields) : d.numbered? f.number = some f := by
  have hsome : (d.info.fields.find? fun g => g.number == f.number).isSome := by
    rw [List.find?_isSome]
    exact ⟨f.info, (mem_fields.1 hf).2, beq_self_eq_true _⟩
  obtain ⟨info, hinfo⟩ := Option.isSome_iff_exists.1 hsome
  have hnumber : d.numbered? f.number = some ⟨d, info⟩ := by
    rw [numbered?, hinfo]
    rfl
  rw [hnumber, eq_of_number (numbered?_mem hnumber) hf (beq_iff_eq.1 (List.find?_some hinfo :))]

section

variable (inner : Message → List UInt8 → Option Message) (depth : Nat)

namespace FieldDescriptor

/-- What a field holds after a value was read on top of what it held. -/
def readInto? (f : FieldDescriptor) (old : Option Stored) (w : WireValue) : Option Stored :=
  if f.isMap then
    match f.kind, w, old.getD (.defaultOf f) with
    | .message entry, .delimited bytes, .map entries =>
      (readMapEntry inner depth entry bytes).map fun e => .map (insertKey e.1 e.2 entries)
    | _, _, _ => none
  else if f.isList then
    match old.getD (.defaultOf f) with
    | .list items =>
      match w, f.kind.packedCode? with
      | .delimited bytes, some code => do
        let values ← readPacked? code bytes
        let new ← values.mapM (f.kind.readStored? inner none)
        return .list (items ++ new)
      | _, _ => (f.kind.readStored? inner none w).map fun item => .list (items ++ [item])
    | _ => none
  else f.kind.readStored? inner old w

/-- What a field holds after values were read one after the other. -/
def readAll? (f : FieldDescriptor) : Option Stored → List WireValue → Option Stored
  | old, [] => old
  | old, w :: ws => (f.readInto? inner depth old w).bind fun s => f.readAll? (some s) ws

end FieldDescriptor

variable {inner depth} {d : MessageDescriptor} {m : Message} {f : FieldDescriptor}

/-- A numbered value changes the field of its number only. -/
theorem Message.absorbField?_eq (hm : d.Takes m) (hf : f ∈ d.fields) (w : WireValue) :
    m.absorbField? inner depth f.number w = (f.readInto? inner depth (m.stored? f) w).map (m.set f) := by
  have hget : (m.stored? f).getD (.defaultOf f) = m.get f := rfl
  unfold absorbField? FieldDescriptor.readInto?
  rw [hm.descriptor, MessageDescriptor.numbered?_number hf, hget]
  dsimp only
  generalize m.get f = old
  generalize f.kind = kind
  split
  · cases kind <;> cases w <;> cases old <;> simp [Function.comp_def]
  · split
    · rcases old with x | n | items | entries <;> try rfl
      rcases w with n | n | bytes | fields | n <;> rcases kind.packedCode? with _ | code <;>
        simp only [Option.map_map] <;> try rfl
      rcases readPacked? code bytes with _ | values
      · rfl
      · rcases h : values.mapM (kind.readStored? inner none) with _ | new <;> simp [h]
    · rfl

/-- Writing a field again replaces what was written. -/
theorem MessageDescriptor.Takes.set_set (hm : d.Takes m) (hf : f ∈ d.fields) {s t : Stored}
    (hs : f.Holds s) (ht : f.Holds t) : (m.set f s).set f t = m.set f t := by
  have hfirst := hm.set hf hs
  have hmessage := (mem_fields.1 hf).1
  refine (hm.set hf ht).eq_of_stored? (hfirst.set hf ht) ?_ fun g hg => ?_
  · rw [hfirst.unknown_set hf, hm.unknown_set hf, hm.unknown_set hf]
  · by_cases hgf : g.number = f.number
    · rw [Message.stored?_set_self _ hgf, Message.stored?_set_self _ hgf]
    by_cases hrivals : f.Rivals g
    · rw [Message.stored?_set_of_rivals _ hrivals, Message.stored?_set_of_rivals _ hrivals]
    · have hg : g ∈ f.message.fields := hmessage.symm ▸ hg
      rw [Message.stored?_set_of_not_rivals _ hg hgf hrivals,
        Message.stored?_set_of_not_rivals _ hg hgf hrivals,
        Message.stored?_set_of_not_rivals _ hg hgf hrivals]

/-- Numbered values are read into a message one after the other. -/
def Message.absorbAll? (inner : Message → List UInt8 → Option Message) (depth : Nat) (m : Message)
    (fields : List (Nat × WireValue)) : Option Message :=
  fields.foldlM (fun m field => m.absorbField? inner depth field.1 field.2) m

theorem Message.absorbAll?_cons (m : Message) (number : Nat) (w : WireValue)
    (fields : List (Nat × WireValue)) : m.absorbAll? inner depth ((number, w) :: fields) =
      (m.absorbField? inner depth number w).bind fun n => n.absorbAll? inner depth fields := by
  rw [absorbAll?, List.foldlM_cons]
  rfl

theorem Message.absorbAll?_append (m : Message) (xs ys : List (Nat × WireValue)) :
    m.absorbAll? inner depth (xs ++ ys) =
      (m.absorbAll? inner depth xs).bind fun n => n.absorbAll? inner depth ys := by
  rw [absorbAll?, List.foldlM_append]
  rfl

section

variable (hinner : ∀ d m bytes n, MessageDescriptor.Takes d m → inner m bytes = some n → d.Takes n)

include hinner

/-- What is read into a field is of the field's type. -/
theorem FieldDescriptor.holds_readInto? (hf : f ∈ d.fields) {old : Option Stored}
    (hold : ∀ s ∈ old, f.Holds s) {w : WireValue} {t : Stored}
    (ht : f.readInto? inner depth old w = some t) : f.Holds t := by
  -- a message that holds nothing else
  obtain ⟨m, hm, hstored⟩ : ∃ m, d.Takes m ∧ m.stored? f = old := by
    rcases old with _ | s
    · exact ⟨_, .empty d, Message.stored?_empty d f⟩
    · exact ⟨_, (MessageDescriptor.Takes.empty d).set hf (hold s rfl), Message.stored?_set_self _ rfl s⟩
  have hread : m.absorbField? inner depth f.number w = _ := Message.absorbField?_eq hm hf w
  rw [hstored, ht] at hread
  exact (Message.takes_absorbField? hinner hm hread).stored hf (Message.stored?_set_self _ rfl t)

theorem FieldDescriptor.holds_readAll? (hf : f ∈ d.fields) {old : Option Stored}
    (hold : ∀ s ∈ old, f.Holds s) {ws : List WireValue} {t : Stored}
    (ht : f.readAll? inner depth old ws = some t) : f.Holds t := by
  induction ws generalizing old with
  | nil => exact hold t ht
  | cons w rest ih =>
    obtain ⟨s, hs, ht⟩ := Option.bind_eq_some_iff.1 ht
    exact ih (fun u hu => Option.some.inj hu ▸ holds_readInto? hinner hf hold hs) ht

/-- **The values of one field** are read on top of what the field held. -/
theorem Message.absorbAll?_eq (hf : f ∈ d.fields) {m : Message} (hm : d.Takes m) {ws : List WireValue}
    (hws : ws ≠ []) : m.absorbAll? inner depth (ws.map (f.number, ·)) =
      (f.readAll? inner depth (m.stored? f) ws).map (m.set f) := by
  match ws with
  | [] => exact absurd rfl hws
  | w :: rest =>
    rw [List.map_cons, absorbAll?_cons, absorbField?_eq hm hf, FieldDescriptor.readAll?]
    rcases hs : f.readInto? inner depth (m.stored? f) w with _ | s
    · rfl
    have hholds := FieldDescriptor.holds_readInto? hinner hf (fun t ht => hm.stored hf ht) hs
    rw [Option.map_some, Option.bind_some, Option.bind_some]
    rcases rest with _ | ⟨w', rest⟩
    · rfl
    · rw [absorbAll?_eq hf (hm.set hf hholds) (List.cons_ne_nil w' rest), stored?_set_self m rfl]
      rcases ht : f.readAll? inner depth (some s) (w' :: rest) with _ | t
      · rfl
      · have ht := FieldDescriptor.holds_readAll? hinner hf (fun u hu => Option.some.inj hu ▸ hholds) ht
        rw [Option.map_some, Option.map_some, hm.set_set hf hholds ht]

end

end

/-! ## Single values -/

/-- A single value of a type as a value on the wire. -/
def Kind.itemToWire? (kind : Kind) : Stored → Option WireValue
  | .scalar value => kind.toWire? value
  | .message m => some (.delimited m.toWire)
  | .list _ | .map _ => none

/-- Whether the encoding of a message is read on top of any message of its type. -/
def Message.ReadsBack (inner : Message → List UInt8 → Option Message) (m : Message) : Prop :=
  ∀ x, m.descriptor.Takes x → ∃ z, inner x m.toWire = some z ∧ ∀ whole, Message.Onto whole x m z

/-- Whether `t` is what a field that held `old` holds after `s` was read on top of it: if nothing that
counts was there, it is like `s`. -/
structure FieldDescriptor.Gives (f : FieldDescriptor) (old : Option Stored) (s t : Stored) : Prop where
  fresh : (∀ u ∈ old, u.isDefaultOf f = true) → ∀ whole, s.Alike whole t
  onto : ∀ u ∈ old, ∀ whole, Stored.Onto whole u s t

section

variable {inner : Message → List UInt8 → Option Message} {kind : Kind} {s : Stored} {w : WireValue}

theorem WireValue.fits_of_code (h2 : w.code ≠ 2) (h3 : w.code ≠ 3) (room : Nat) : w.Fits room := by
  cases w with
  | delimited => exact absurd rfl h2
  | group => exact absurd rfl h3
  | _ => constructor

theorem Kind.readStored?_scalar {a : Scalar} (hs : kind.HoldsScalar a) {old : Option Stored}
    (hread : kind.ofWire? w = some a) : kind.readStored? inner old w = some (.scalar a) := by
  cases kind with
  | message => cases hs
  | _ => simp [readStored?, hread]

/-- Every single value of a type is written as one value. -/
theorem Kind.exists_itemToWire? (hs : kind.Holds s) : ∃ w, kind.itemToWire? s = some w ∧ w.code ≠ 3 ∧
    ∀ code, kind.packedCode? = some code → w.code = code := by
  cases hs with
  | scalar hs =>
    obtain ⟨w, hwrite, -, hcode, hpacked⟩ := Kind.ofWire?_toWire? hs
    exact ⟨w, hwrite, hcode, hpacked⟩
  | message => exact ⟨_, rfl, by simp [WireValue.code], nofun⟩

/-- A single value is read back on top of nothing, and a message on top of another one. -/
theorem Kind.readStored?_itemToWire? (hs : kind.Holds s)
    (hback : ∀ m, s = .message m → m.ReadsBack inner) (hw : kind.itemToWire? s = some w)
    {old : Option Stored} (hold : ∀ u ∈ old, kind.Holds u) :
    ∃ t, kind.readStored? inner old w = some t ∧
      ((∀ u ∈ old, ∀ x, u ≠ .message x) → ∀ whole, s.Alike whole t) ∧
      (∀ u ∈ old, ∀ whole, Stored.Onto whole u s t) ∧ ∀ f, t.isDefaultOf f = s.isDefaultOf f := by
  cases hs with
  | @scalar _ a hs =>
    obtain ⟨w', hwrite, hread, -⟩ := Kind.ofWire?_toWire? hs
    obtain rfl : w' = w := Option.some.inj (hwrite.symm.trans hw)
    exact ⟨_, readStored?_scalar hs hread, fun _ _ => .scalar (.inl rfl), fun _ _ _ => .scalar,
      fun _ => rfl⟩
  | @message d m hd hm =>
    cases hw
    subst hd
    rcases old with _ | u
    · obtain ⟨z, hz, honto⟩ := hback m rfl _ (.empty _)
      refine ⟨.message z, by simp [readStored?, hz], fun _ whole => ?_, nofun, fun _ => rfl⟩
      exact .message (honto whole).alike
    · have hu := hold u rfl
      cases hu with
      | scalar hno => cases hno
      | @message _ x hdx hx =>
        obtain ⟨z, hz, honto⟩ := hback m rfl x ⟨hdx, hx⟩
        refine ⟨.message z, by simp [readStored?, hz], fun hno => absurd rfl (hno _ rfl x),
          fun u hu whole => ?_, fun _ => rfl⟩
        obtain rfl := Option.some.inj hu
        exact .message (honto whole)

/-! ## Lists -/

theorem Stored.itemsToWire_eq (f : FieldDescriptor) (items : List Stored) :
    Stored.itemsToWire f items = items.filterMap f.kind.itemToWire? := by
  induction items with
  | nil => rfl
  | cons s rest ih =>
    rw [itemsToWire.eq_def, List.filterMap_cons]
    dsimp only
    rw [ih]
    cases s with
    | scalar a =>
      dsimp only [Kind.itemToWire?]
      rcases f.kind.toWire? a with _ | w <;> rfl
    | _ => rfl

/-- The items of a list as values on the wire, one for each. -/
theorem Stored.forall₂_itemsToWire {f : FieldDescriptor} {items : List Stored}
    (hitems : ∀ s ∈ items, f.kind.Holds s) :
    List.Forall₂ (fun s w => f.kind.itemToWire? s = some w) items (Stored.itemsToWire f items) := by
  rw [itemsToWire_eq]
  induction items with
  | nil => exact .nil
  | cons s rest ih =>
    obtain ⟨hs, hrest⟩ := List.forall_mem_cons.1 hitems
    obtain ⟨w, hw, -⟩ := Kind.exists_itemToWire? hs
    rw [List.filterMap_cons_some hw]
    exact .cons hw (ih hrest)

/-- The items of a list are read back. -/
theorem Kind.mapM_readStored?_items {items : List Stored} {ws : List WireValue}
    (hws : List.Forall₂ (fun s w => kind.itemToWire? s = some w) items ws)
    (hitems : ∀ s ∈ items, kind.Holds s)
    (hback : ∀ s ∈ items, ∀ m, s = .message m → m.ReadsBack inner) :
    ∃ ts, ws.mapM (kind.readStored? inner none) = some ts ∧
      ∀ whole, List.Forall₂ (Stored.Alike whole) items ts := by
  induction hws with
  | nil => exact ⟨[], rfl, fun _ => .nil⟩
  | @cons s w rest ws hw _ ih =>
    obtain ⟨hs, hrest⟩ := List.forall_mem_cons.1 hitems
    obtain ⟨hm, hback⟩ := List.forall_mem_cons.1 hback
    have hold : ∀ u ∈ (none : Option Stored), kind.Holds u := nofun
    obtain ⟨t, ht, halike, -⟩ := readStored?_itemToWire? hs hm hw hold
    obtain ⟨ts, hts, hall⟩ := ih hrest hback
    refine ⟨t :: ts, ?_, fun whole => .cons (halike nofun whole) (hall whole)⟩
    rw [List.mapM_cons, ht, hts]
    rfl

section

variable {depth : Nat} {f : FieldDescriptor} {ws : List WireValue}

/-- Lists and maps are read on top of their defaults if nothing was there. -/
theorem FieldDescriptor.readAll?_none (hrepeated : f.isMap = true ∨ f.isList = true) (hws : ws ≠ []) :
    f.readAll? inner depth none ws = f.readAll? inner depth (some (.defaultOf f)) ws := by
  match ws with
  | [] => exact absurd rfl hws
  | w :: rest =>
    rw [readAll?, readAll?]
    refine congrArg (Option.bind · _) ?_
    unfold readInto?
    by_cases hmap : f.isMap = true
    · rw [if_pos hmap, if_pos hmap]
      rfl
    · rw [if_neg hmap, if_neg hmap, if_pos (hrepeated.resolve_left hmap),
        if_pos (hrepeated.resolve_left hmap)]
      rfl

/-- The values of a list that is not packed are appended one after the other. -/
theorem FieldDescriptor.readAll?_items (hlist : f.isList = true) (olds : List Stored) {ts : List Stored}
    (hplain : ∀ w ∈ ws, w.code = 2 → f.kind.packedCode? = none)
    (hts : ws.mapM (f.kind.readStored? inner none) = some ts) :
    f.readAll? inner depth (some (.list olds)) ws = some (.list (olds ++ ts)) := by
  -- on the values, for the items that were read before
  induction ws generalizing olds ts with
  | nil =>
    rw [List.mapM_nil] at hts
    cases hts
    rw [readAll?, List.append_nil]
  | cons w rest ih =>
    obtain ⟨hw, hrest⟩ := List.forall_mem_cons.1 hplain
    rw [List.mapM_cons] at hts
    simp only [Option.bind_eq_bind, Option.bind_eq_some_iff] at hts
    obtain ⟨t, ht, us, hus, hcons⟩ := hts
    cases hcons
    have hread : f.readInto? inner depth (some (.list olds)) w = some (.list (olds ++ [t])) := by
      unfold readInto?
      rw [if_neg (by simp [isMap_of_isList hlist]), if_pos hlist, Option.getD_some]
      dsimp only
      split
      · rename_i bytes code hcode
        rw [hw rfl] at hcode
        cases hcode
      · rw [ht]
        rfl
    rw [readAll?, hread, Option.bind_some, ih (olds ++ [t]) hrest hus, List.append_assoc]
    rfl

/-- A packed list is appended at once. -/
theorem FieldDescriptor.readAll?_packed (hlist : f.isList = true) (olds : List Stored) {ts : List Stored}
    {code : Nat} (hcode : f.kind.packedCode? = some code) (hws : ∀ w ∈ ws, w.code = code)
    (hts : ws.mapM (f.kind.readStored? inner none) = some ts) :
    f.readAll? inner depth (some (.list olds)) [.delimited (ws.flatMap WireValue.payload)] =
      some (.list (olds ++ ts)) := by
  have hcases := Kind.packedCode?_cases hcode
  have hfit : ∀ w ∈ ws, w.Fits 0 ∧ w.code = code := fun w hw => by
    have hcode := hws w hw
    exact ⟨WireValue.fits_of_code (by omega) (by omega) 0, hcode⟩
  have hpacked := readPacked?_payloads (by omega) hfit
  have hread : f.readInto? inner depth (some (.list olds))
      (.delimited (ws.flatMap WireValue.payload)) = some (.list (olds ++ ts)) := by
    unfold readInto?
    rw [if_neg (by simp [isMap_of_isList hlist]), if_pos hlist, Option.getD_some, hcode]
    dsimp only
    rw [hpacked]
    simp [hts]
  rw [readAll?, hread]
  rfl

end

/-! ## Maps -/

section

variable {depth : Nat} {f : FieldDescriptor} {a : Scalar}

/-- Whether what a field holds counts, so that the field is set. -/
def FieldDescriptor.Counts (f : FieldDescriptor) (s : Stored) : Prop :=
  f.hasPresence = true ∨ s.isDefaultOf f = false

/-- A single value is written as one value if it counts. -/
theorem Stored.toWire_single (hs : f.kind.Holds s) : (s.toWire f = [] ∧ ¬ f.Counts s) ∨
    f.Counts s ∧ ∃ w, f.kind.itemToWire? s = some w ∧ s.toWire f = [(f.number, w)] := by
  obtain ⟨w, hw, -⟩ := Kind.exists_itemToWire? hs
  cases hs' : s with
  | scalar a =>
    rw [hs', Kind.itemToWire?] at hw
    rw [toWire.eq_def, Kind.itemToWire?]
    dsimp only
    unfold FieldDescriptor.scalarWire FieldDescriptor.Counts
    split
    · rename_i hdefault
      simp only [Bool.and_eq_true, Bool.not_eq_true'] at hdefault
      exact .inl ⟨rfl, by simp [hdefault]⟩
    · rename_i hcounts
      refine .inr ⟨?_, w, hw, by rw [hw]⟩
      rcases hpresence : f.hasPresence with _ | _
      · exact .inr (by simpa [hpresence] using hcounts)
      · exact .inl rfl
  | message m => exact .inr ⟨.inr rfl, _, rfl, by rw [toWire.eq_def]⟩
  | list => exact absurd (hs' ▸ hs) Kind.Holds.not_list
  | map => exact absurd (hs' ▸ hs) Kind.Holds.not_map

theorem FieldDescriptor.isDefaultOf_of_not_counts (h : ¬ f.Counts s) : s.isDefaultOf f = true := by
  simp only [Counts, not_or, Bool.not_eq_false] at h
  exact h.2

/-- A default equals what a single value is that is not given. -/
theorem Stored.singleDefault_of_isDefaultOf (h : (Stored.scalar a).isDefaultOf f = true) :
    ∃ b, Stored.singleDefault f = .scalar b ∧ a.equals b = true := by
  simp only [isDefaultOf, Bool.and_eq_true, Bool.not_eq_true'] at h
  rcases hd : f.defaultScalar? with _ | b
  · simp [hd] at h
  · rw [hd] at h
    exact ⟨b, by rw [singleDefault, hd], h.2⟩

/-- Keys are no floating-point numbers, so that equal ones are the same. -/
theorem MapKey.eq_of_equals {key : MapKey} (h : key.toScalar.equals a = true) : a = key.toScalar := by
  cases key <;> exact (beq_iff_eq.1 h).symm

/-- What is read on top of a value that was not given is the same on the wire. -/
theorem Stored.Onto.alike_of_singleDefault {whole : Prop} {t : Stored}
    (h : Stored.Onto whole (.singleDefault f) s t) : s.Alike whole t := by
  generalize hu : Stored.singleDefault f = u at h
  unfold Stored.singleDefault at hu
  cases h with
  | scalar => exact .scalar (.inl rfl)
  | message h =>
    split at hu <;> cases hu
    exact .message h.alike
  | list h =>
    split at hu <;> cases hu
    exact Stored.alike_list.2 h
  | map => split at hu <;> cases hu

/-- The fields of an entry of a map. -/
def MessageDescriptor.entryFields (entry : MessageDescriptor) (key : MapKey) (value : Stored) :
    List (Nat × WireValue) :=
  (FieldDescriptor.entryKey entry).scalarWire key.toScalar ++ value.toWire (FieldDescriptor.entryValue entry)

/-- A field of an entry is read into its key or its value. -/
def MessageDescriptor.readEntryField? (inner : Message → List UInt8 → Option Message) (depth : Nat)
    (entry : MessageDescriptor) (e : Stored × Stored) (field : Nat × WireValue) : Option (Stored × Stored) :=
  if field.1 = 1 then
    ((FieldDescriptor.entryKey entry).kind.readStored? inner (some e.1) field.2).map fun key => (key, e.2)
  else if field.1 = 2 then
    ((FieldDescriptor.entryValue entry).kind.readStored? inner (some e.2) field.2).map
      fun value => (e.1, value)
  else if depth = 0 then none
  else some e

theorem readMapEntry_of_fields {entry : MessageDescriptor} {bytes : List UInt8}
    {fields : List (Nat × WireValue)} {key : MapKey} {value : Stored}
    (hread : readFields? (fun _ => false) depth bytes = some fields)
    (hfold : fields.foldlM (entry.readEntryField? inner depth)
      (.singleDefault (FieldDescriptor.entryKey entry), .singleDefault (FieldDescriptor.entryValue entry)) =
        some (.scalar key.toScalar, value)) :
    readMapEntry inner depth entry bytes = some (key, value) := by
  unfold MessageDescriptor.readEntryField? at hfold
  simp only [readMapEntry, hread, Option.bind_eq_bind, Option.bind_some, hfold,
    MapKey.ofScalar?_toScalar, Option.map_some]

/-- **An entry** of a map is read back. -/
theorem readMapEntry_entryFields {entry : MessageDescriptor} {key : MapKey}
    (hfirst : (FieldDescriptor.entryKey entry).number = 1)
    (hsecond : (FieldDescriptor.entryValue entry).number = 2)
    (hkey : (FieldDescriptor.entryKey entry).kind.HoldsKey key)
    (hvalue : (FieldDescriptor.entryValue entry).kind.Holds s)
    (hback : ∀ m, s = .message m → m.ReadsBack inner) (hfit : FieldsFit depth (entry.entryFields key s)) :
    ∃ t, readMapEntry inner depth entry (writeFields (entry.entryFields key s)) = some (key, t) ∧
      ∀ whole, s.Alike whole t := by
  have hread : readFields? (fun _ => false) depth (writeFields (entry.entryFields key s)) =
      some (entry.entryFields key s) := readFields?_writeFields hfit nofun
  -- the key, or the default that it equals
  have hfoldKey (old : Stored) : ((FieldDescriptor.entryKey entry).scalarWire key.toScalar).foldlM
      (entry.readEntryField? inner depth) (.singleDefault (FieldDescriptor.entryKey entry), old) =
        some (.scalar key.toScalar, old) := by
    have hwire : (FieldDescriptor.entryKey entry).scalarWire key.toScalar =
        (Stored.scalar key.toScalar).toWire (FieldDescriptor.entryKey entry) := by rw [Stored.toWire.eq_def]
    rw [hwire]
    rcases Stored.toWire_single (.scalar hkey) with ⟨hnil, hdefault⟩ | ⟨-, w, hw, hone⟩
    · obtain ⟨b, hb, hequals⟩ :=
        Stored.singleDefault_of_isDefaultOf (FieldDescriptor.isDefaultOf_of_not_counts hdefault)
      rw [hnil, hb, MapKey.eq_of_equals hequals]
      rfl
    · obtain ⟨w', hwrite, hback, -⟩ := Kind.ofWire?_toWire? hkey
      obtain rfl : w' = w := Option.some.inj (hwrite.symm.trans hw)
      rw [hone, hfirst]
      simp [MessageDescriptor.readEntryField?, Kind.readStored?_scalar hkey hback]
  -- the value, or a default like it
  have hfoldValue (k : Stored) : ∃ t, (s.toWire (FieldDescriptor.entryValue entry)).foldlM
      (entry.readEntryField? inner depth) (k, .singleDefault (FieldDescriptor.entryValue entry)) =
        some (k, t) ∧ ∀ whole, s.Alike whole t := by
    rcases Stored.toWire_single hvalue with ⟨hnil, hdefault⟩ | ⟨-, w, hw, hone⟩
    · have hdefault := FieldDescriptor.isDefaultOf_of_not_counts hdefault
      cases s with
      | scalar a =>
        obtain ⟨b, hb, hequals⟩ := Stored.singleDefault_of_isDefaultOf hdefault
        refine ⟨_, by rw [hnil]; rfl, fun _ => ?_⟩
        rw [hb]
        exact .scalar (.inr hequals)
      | message => cases hdefault
      | list => exact absurd hvalue Kind.Holds.not_list
      | map => exact absurd hvalue Kind.Holds.not_map
    · have hold : ∀ u ∈ some (Stored.singleDefault (FieldDescriptor.entryValue entry)),
          (FieldDescriptor.entryValue entry).kind.Holds u :=
        fun u hu => Option.some.inj hu ▸ FieldDescriptor.holds_singleDefault
      obtain ⟨t, ht, -, honto, -⟩ := Kind.readStored?_itemToWire? hvalue hback hw hold
      refine ⟨t, ?_, fun whole => (honto _ rfl whole).alike_of_singleDefault⟩
      rw [hone, hsecond]
      simp [MessageDescriptor.readEntryField?, ht]
  obtain ⟨t, ht, halike⟩ := hfoldValue (.scalar key.toScalar)
  refine ⟨t, readMapEntry_of_fields hread ?_, halike⟩
  rw [MessageDescriptor.entryFields, List.foldlM_append, hfoldKey]
  exact ht

/-- What a single value is written as is no group. -/
theorem Stored.code_of_mem_toWire (hs : f.kind.Holds s) {e : Nat × WireValue} (he : e ∈ s.toWire f) :
    e.1 = f.number ∧ e.2.code ≠ 3 := by
  rcases toWire_single hs with ⟨hnil, -⟩ | ⟨-, w, hw, hone⟩
  · rw [hnil] at he
    cases he
  · obtain ⟨w', hw', hcode, -⟩ := Kind.exists_itemToWire? hs
    obtain rfl : w' = w := Option.some.inj (hw'.symm.trans hw)
    rw [hone, List.mem_singleton] at he
    rw [he]
    exact ⟨rfl, hcode⟩

/-- The fields of an entry fit if they are of a length that the wire can carry. -/
theorem MessageDescriptor.fieldsFit_entryFields {entry : MessageDescriptor} {key : MapKey}
    (hfirst : (FieldDescriptor.entryKey entry).number = 1)
    (hsecond : (FieldDescriptor.entryValue entry).number = 2)
    (hkey : (FieldDescriptor.entryKey entry).kind.HoldsKey key)
    (hvalue : (FieldDescriptor.entryValue entry).kind.Holds s)
    (hlength : (writeFields (entry.entryFields key s)).length < UInt64.size) :
    FieldsFit depth (entry.entryFields key s) := by
  intro e he
  have hone : IsFieldNumber 1 := ⟨by decide, by decide⟩
  have htwo : IsFieldNumber 2 := ⟨by decide, by decide⟩
  have hcode : IsFieldNumber e.1 ∧ e.2.code ≠ 3 := by
    rcases List.mem_append.1 he with he | he
    · have hwire : (FieldDescriptor.entryKey entry).scalarWire key.toScalar =
          (Stored.scalar key.toScalar).toWire (FieldDescriptor.entryKey entry) := by
        rw [Stored.toWire.eq_def]
      obtain ⟨hnumber, hcode⟩ := Stored.code_of_mem_toWire (.scalar hkey) (hwire ▸ he)
      exact ⟨by rwa [hnumber, hfirst], hcode⟩
    · obtain ⟨hnumber, hcode⟩ := Stored.code_of_mem_toWire hvalue he
      exact ⟨by rwa [hnumber, hsecond], hcode⟩
  exact ⟨hcode.1, fits_of_mem_fields he hcode.2 hlength depth⟩

theorem Stored.entriesToWire_eq {entry : MessageDescriptor} (hkind : f.kind = .message entry)
    (entries : List (MapKey × Stored)) : Stored.entriesToWire f entries =
      (entries.map fun e => .delimited (writeFields (entry.entryFields e.1 e.2))).map (f.number, ·) := by
  induction entries with
  | nil => rfl
  | cons e rest ih =>
    obtain ⟨key, value⟩ := e
    rw [entriesToWire, hkind, ih]
    rfl

/-- The entries of a map are put in their places one after the other. -/
theorem FieldDescriptor.readAll?_entries {entry : MessageDescriptor} (hmap : f.isMap = true)
    (hkind : f.kind = .message entry) {xs zs : List (MapKey × Stored)}
    (h : List.Forall₂ (fun e z =>
      readMapEntry inner depth entry (writeFields (entry.entryFields e.1 e.2)) = some z) xs zs)
    (olds : List (MapKey × Stored)) : f.readAll? inner depth (some (.map olds))
        (xs.map fun e => .delimited (writeFields (entry.entryFields e.1 e.2))) =
      some (.map (zs.foldl (fun es e => insertKey e.1 e.2 es) olds)) := by
  induction h generalizing olds with
  | nil => rfl
  | @cons e z xs zs he _ ih =>
    have hread : f.readInto? inner depth (some (.map olds))
        (.delimited (writeFields (entry.entryFields e.1 e.2))) = some (.map (insertKey z.1 z.2 olds)) := by
      unfold readInto?
      rw [if_pos hmap, hkind, Option.getD_some]
      dsimp only
      rw [he]
      rfl
    rw [List.map_cons, readAll?, hread, Option.bind_some, ih]
    rfl

variable (depth) in
/-- Entries of a map are read back, each with its key. -/
theorem FieldDescriptor.forall₂_readMapEntry {entry : MessageDescriptor} (hkind : f.kind = .message entry)
    (hfirst : (FieldDescriptor.entryKey entry).number = 1)
    (hsecond : (FieldDescriptor.entryValue entry).number = 2) {xs : List (MapKey × Stored)}
    (hkeys : ∀ e ∈ xs, f.keyKind.HoldsKey e.1) (hvalues : ∀ e ∈ xs, f.valueKind.Holds e.2)
    (hback : ∀ e ∈ xs, ∀ m, e.2 = .message m → m.ReadsBack inner)
    (hlength : ∀ e ∈ xs, (writeFields (entry.entryFields e.1 e.2)).length < UInt64.size) :
    ∃ zs, List.Forall₂ (fun e z =>
        readMapEntry inner depth entry (writeFields (entry.entryFields e.1 e.2)) = some z) xs zs ∧
      ∀ whole, List.Forall₂ (Stored.EntriesAlike whole) xs zs := by
  induction xs with
  | nil => exact ⟨[], .nil, fun _ => .nil⟩
  | cons e rest ih =>
    simp only [List.forall_mem_cons] at hkeys hvalues hback hlength
    rw [keyKind_of hkind] at hkeys
    rw [valueKind_of hkind] at hvalues
    obtain ⟨zs, hzs, hall⟩ := ih (keyKind_of hkind ▸ hkeys.2) (valueKind_of hkind ▸ hvalues.2) hback.2
      hlength.2
    have hfit : FieldsFit depth (entry.entryFields e.1 e.2) :=
      MessageDescriptor.fieldsFit_entryFields hfirst hsecond hkeys.1 hvalues.1 hlength.1
    obtain ⟨t, ht, halike⟩ :=
      readMapEntry_entryFields hfirst hsecond hkeys.1 hvalues.1 hback.1 hfit
    exact ⟨(e.1, t) :: zs, .cons ht hzs, fun whole => .cons ⟨rfl, halike whole⟩ (hall whole)⟩

variable (depth) in
/-- A list that is not empty is written as values that are read back after what was there. -/
theorem FieldDescriptor.readAll?_list (hlist : f.isList = true) {items : List Stored} (hne : items ≠ [])
    (hitems : ∀ s ∈ items, f.kind.Holds s)
    (hback : ∀ s ∈ items, ∀ m, s = .message m → m.ReadsBack inner) :
    ∃ ws ts, (Stored.list items).toWire f = ws.map (f.number, ·) ∧ ws ≠ [] ∧
      (∀ olds, f.readAll? inner depth (some (.list olds)) ws = some (.list (olds ++ ts))) ∧
      ∀ whole, List.Forall₂ (Stored.Alike whole) items ts := by
  have hwrite := Stored.forall₂_itemsToWire hitems
  obtain ⟨ts, hts, halike⟩ := Kind.mapM_readStored?_items hwrite hitems hback
  have hne : Stored.itemsToWire f items ≠ [] := fun hnil =>
    hne (List.length_eq_zero_iff.1 (hwrite.length_eq.trans (by rw [hnil]; rfl)))
  -- the form of every value is the one that is packed, if there is one
  have hcode (code : Nat) (hpacked : f.kind.packedCode? = some code) :
      ∀ w ∈ Stored.itemsToWire f items, w.code = code := by
    intro w hw
    obtain ⟨s, hs, hsw⟩ := exists_of_forall₂ hwrite hw
    obtain ⟨w', hw', -, hpack⟩ := Kind.exists_itemToWire? (hitems s hs)
    obtain rfl : w' = w := Option.some.inj (hw'.symm.trans hsw)
    exact hpack code hpacked
  have hwire : (Stored.list items).toWire f = f.listWire (Stored.itemsToWire f items) := by
    rw [Stored.toWire.eq_def]
  rw [hwire]
  unfold FieldDescriptor.listWire
  rw [if_neg (by simpa using hne)]
  split
  · rename_i hpacked
    simp only [Bool.and_eq_true] at hpacked
    obtain ⟨code, hsome⟩ := Option.isSome_iff_exists.1 hpacked.2
    exact ⟨[_], ts, rfl, List.cons_ne_nil _ _,
      fun olds => readAll?_packed hlist olds hsome (hcode code hsome) hts, halike⟩
  · refine ⟨_, ts, rfl, hne, fun olds => readAll?_items hlist olds (fun w hw h2 => ?_) hts, halike⟩
    rcases hsome : f.kind.packedCode? with _ | code
    · rfl
    · have hcases := Kind.packedCode?_cases hsome
      have := hcode code hsome w hw
      omega

variable (depth) in
/-- A map that is not empty is written as values that are read back on top of what was there. -/
theorem FieldDescriptor.readAll?_map {entry : MessageDescriptor} (hmap : f.isMap = true)
    (hkind : f.kind = .message entry) (hfirst : (FieldDescriptor.entryKey entry).number = 1)
    (hsecond : (FieldDescriptor.entryValue entry).number = 2) {xs : List (MapKey × Stored)}
    (hne : xs ≠ []) (hxs : f.HoldsEntries xs) (hback : ∀ e ∈ xs, ∀ m, e.2 = .message m → m.ReadsBack inner)
    (hlength : (writeFields ((Stored.map xs).toWire f)).length < UInt64.size) :
    ∃ ws zs, (Stored.map xs).toWire f = ws.map (f.number, ·) ∧ ws ≠ [] ∧
      (∀ olds, f.readAll? inner depth (some (.map olds)) ws =
        some (.map (zs.foldl (fun es e => insertKey e.1 e.2 es) olds))) ∧
      ∀ whole, List.Forall₂ (Stored.EntriesAlike whole) xs zs := by
  have hwire : (Stored.map xs).toWire f =
      (xs.map fun e => .delimited (writeFields (entry.entryFields e.1 e.2))).map (f.number, ·) := by
    rw [Stored.toWire.eq_def]
    exact Stored.entriesToWire_eq hkind xs
  rw [hwire] at hlength
  have hentry : ∀ e ∈ xs, (writeFields (entry.entryFields e.1 e.2)).length < UInt64.size := by
    intro e he
    have hmem : (f.number, WireValue.delimited (writeFields (entry.entryFields e.1 e.2))) ∈
        (xs.map fun e => .delimited (writeFields (entry.entryFields e.1 e.2))).map (f.number, ·) := by
      rw [List.map_map]
      exact List.mem_map.2 ⟨e, he, rfl⟩
    exact Nat.lt_of_le_of_lt (length_le_of_mem_fields hmem) hlength
  obtain ⟨zs, hzs, halike⟩ :=
    forall₂_readMapEntry depth hkind hfirst hsecond hxs.keys hxs.values hback hentry
  exact ⟨_, zs, hwire, by simpa using hne, readAll?_entries hmap hkind hzs, halike⟩

end

/-! ## Fields -/

/-- Whether the wire can carry a field as the language of schemas has it: its number is one that a field
can have, no list or map has presence, and the entries of a map have a key and a value. -/
structure FieldDescriptor.Written (f : FieldDescriptor) : Prop where
  number : IsFieldNumber f.number
  presence : f.isMap = true ∨ f.isList = true → f.hasPresence = false
  entryKey : f.isMap = true → ∀ entry, f.kind = .message entry →
    (FieldDescriptor.entryKey entry).number = 1
  entryValue : f.isMap = true → ∀ entry, f.kind = .message entry →
    (FieldDescriptor.entryValue entry).number = 2

section

variable {depth : Nat} {f : FieldDescriptor} {old : Option Stored}

theorem FieldDescriptor.Counts.ne_nil {items : List Stored} (h : f.Counts (.list items))
    (hf : f.Written) (hlist : f.isList = true) : items ≠ [] := by
  rintro rfl
  rcases h with h | h
  · rw [hf.presence (.inr hlist)] at h
    cases h
  · simp [Stored.isDefaultOf, hlist] at h

theorem FieldDescriptor.Counts.entries_ne_nil {entries : List (MapKey × Stored)}
    (h : f.Counts (.map entries)) (hf : f.Written) (hmap : f.isMap = true) : entries ≠ [] := by
  rintro rfl
  rcases h with h | h
  · rw [hf.presence (.inl hmap)] at h
    cases h
  · simp [Stored.isDefaultOf, hmap] at h

theorem FieldDescriptor.kind_of_isMap (hmap : f.isMap = true) : ∃ entry, f.kind = .message entry := by
  unfold isMap at hmap
  rcases hkind : f.kind with t | d | d
  · simp [hkind] at hmap
  · exact ⟨d, rfl⟩
  · simp [hkind] at hmap

/-- Whether what a field holds is written as values that are read back on top of what the field held
before. -/
def FieldDescriptor.ReadsBack (inner : Message → List UInt8 → Option Message) (depth : Nat)
    (f : FieldDescriptor) (old : Option Stored) (s : Stored) : Prop :=
  ∃ ws t, s.toWire f = ws.map (f.number, ·) ∧ ws ≠ [] ∧ f.readAll? inner depth old ws = some t ∧
    f.Gives old s t ∧ f.Counts t

theorem FieldDescriptor.readsBack_single (hmap : f.isMap = false) (hlist : f.isList = false)
    (hs : f.kind.Holds s) (hset : f.Counts s) (hold : ∀ u ∈ old, f.kind.Holds u)
    (hback : ∀ m, s = .message m → m.ReadsBack inner) : f.ReadsBack inner depth old s := by
  rcases Stored.toWire_single hs with ⟨-, hno⟩ | ⟨-, w, hw, hwire⟩
  · exact absurd hset hno
  obtain ⟨t, ht, hfresh, honto, hsame⟩ := Kind.readStored?_itemToWire? hs hback hw hold
  have hread : f.readInto? inner depth old w = some t := by
    unfold readInto?
    simp [hmap, hlist, ht]
  refine ⟨[w], t, hwire, List.cons_ne_nil _ _, ?_, ⟨fun hdefault => hfresh ?_, honto⟩, ?_⟩
  · rw [readAll?, hread]
    rfl
  · rintro u hu x rfl
    cases hdefault _ hu
  · rwa [Counts, hsame]

theorem FieldDescriptor.readsBack_list (hf : f.Written) (hlist : f.isList = true) {items : List Stored}
    (hitems : ∀ s ∈ items, f.kind.Holds s) (hset : f.Counts (.list items)) (hold : ∀ u ∈ old, f.Holds u)
    (hback : ∀ s ∈ items, ∀ m, s = .message m → m.ReadsBack inner) :
    f.ReadsBack inner depth old (.list items) := by
  have hitems_ne := hset.ne_nil hf hlist
  obtain ⟨ws, ts, hwire, hws, hread, halike⟩ := readAll?_list depth hlist hitems_ne hitems hback
  have hne : ts ≠ [] := fun hnil =>
    hitems_ne (List.length_eq_zero_iff.1 ((halike True).length_eq.trans (by rw [hnil]; rfl)))
  have hcounts (olds : List Stored) : f.Counts (.list (olds ++ ts)) :=
    .inr (by simp [Stored.isDefaultOf, hlist, hne])
  rcases old with _ | u
  · refine ⟨ws, .list ts, hwire, hws, ?_,
      ⟨fun _ whole => Stored.alike_list.2 (halike whole), fun _ hu => by cases hu⟩, hcounts []⟩
    rw [readAll?_none (.inr hlist) hws, Stored.defaultOf_list hlist]
    exact hread []
  · obtain ⟨olds, rfl, -⟩ := (hold u rfl).items hlist
    refine ⟨ws, _, hwire, hws, hread olds, ⟨fun hdefault whole => ?_, fun u hu whole => ?_⟩,
      hcounts olds⟩
    · have hnil := hdefault _ rfl
      simp only [Stored.isDefaultOf, hlist, Bool.true_and, List.isEmpty_iff] at hnil
      rw [hnil]
      exact Stored.alike_list.2 (halike whole)
    · obtain rfl := Option.some.inj hu
      exact .list (halike whole)

theorem FieldDescriptor.readsBack_map (hf : f.Written) (hmap : f.isMap = true)
    {xs : List (MapKey × Stored)} (hxs : f.HoldsEntries xs) (hset : f.Counts (.map xs))
    (hold : ∀ u ∈ old, f.Holds u) (hback : ∀ e ∈ xs, ∀ m, e.2 = .message m → m.ReadsBack inner)
    (hlength : (writeFields ((Stored.map xs).toWire f)).length < UInt64.size) :
    f.ReadsBack inner depth old (.map xs) := by
  obtain ⟨entry, hkind⟩ := kind_of_isMap hmap
  have hxs_ne := hset.entries_ne_nil hf hmap
  obtain ⟨ws, zs, hwire, hws, hread, halike⟩ := readAll?_map depth hmap hkind
    (hf.entryKey hmap entry hkind) (hf.entryValue hmap entry hkind) hxs_ne hxs hback hlength
  -- the keys are read back as they are, and so are sorted
  have hkeys : xs.map (·.1) = zs.map (·.1) := by
    cases Stored.alike_map.2 (halike True) with
    | map hkeys => exact hkeys
  have hsorted : (zs.map (·.1)).Pairwise MapKey.Before := hkeys ▸ hxs.sorted
  have hnew : zs.foldl (fun es e => insertKey e.1 e.2 es) [] = zs := mapOfEntries_of_sorted hsorted
  have hcounts (olds : List (MapKey × Stored)) :
      f.Counts (.map (zs.foldl (fun es e => insertKey e.1 e.2 es) olds)) := by
    have hne : zs ≠ [] := fun hnil => hxs_ne (by simpa [hnil] using hkeys)
    obtain ⟨e, he⟩ := List.exists_mem_of_ne_nil _ hne
    have hmem : e ∈ zs.foldl (fun es e => insertKey e.1 e.2 es) olds :=
      mem_overlay_of_mem (nodup_of_before hsorted) he
    refine .inr ?_
    simp only [Stored.isDefaultOf, hmap, Bool.true_and, List.isEmpty_eq_false_iff]
    exact List.ne_nil_of_mem hmem
  rcases old with _ | u
  · refine ⟨ws, .map zs, hwire, hws, ?_,
      ⟨fun _ whole => Stored.alike_map.2 (halike whole), fun _ hu => by cases hu⟩, hnew ▸ hcounts []⟩
    rw [readAll?_none (.inl hmap) hws, Stored.defaultOf_map hmap, hread, hnew]
  · obtain ⟨olds, rfl, -⟩ := (hold u rfl).entries hmap
    refine ⟨ws, _, hwire, hws, hread olds, ⟨fun hdefault whole => ?_, fun u hu whole => ?_⟩,
      hcounts olds⟩
    · have hnil := hdefault _ rfl
      simp only [Stored.isDefaultOf, hmap, Bool.true_and, List.isEmpty_iff] at hnil
      rw [hnil, hnew]
      exact Stored.alike_map.2 (halike whole)
    · obtain rfl := Option.some.inj hu
      exact .map (halike whole)

/-- **What a field holds** is read back on top of what the field held before, if it counts. -/
theorem FieldDescriptor.readsBack (hf : f.Written) (hs : f.Holds s) (hset : f.Counts s)
    (hold : ∀ u ∈ old, f.Holds u) (hback : ∀ m, s.Contains m → m.ReadsBack inner)
    (hlength : (writeFields (s.toWire f)).length < UInt64.size) : f.ReadsBack inner depth old s := by
  cases hs with
  | single hmap hlist hs =>
    exact readsBack_single hmap hlist hs hset (fun u hu => (hold u hu).kind hmap hlist)
      fun m hm => hback m (hm ▸ .message)
  | list hlist hitems =>
    exact readsBack_list hf hlist hitems hset hold fun s hs m hm => hback m (.list hs (hm ▸ .message))
  | map hmap hkeys hvalues hsorted =>
    exact readsBack_map hf hmap ⟨hkeys, hvalues, hsorted⟩ hset hold
      (fun e he m hm => hback m (.map he (hm ▸ .message))) hlength

/-- What does not count is not written. -/
theorem FieldDescriptor.toWire_of_not_counts (hs : f.Holds s) (hno : ¬ f.Counts s) : s.toWire f = [] := by
  have hdefault := isDefaultOf_of_not_counts hno
  cases hs with
  | single _ _ hs => exact (Stored.toWire_single hs).elim And.left fun h => absurd h.1 hno
  | list hlist =>
    simp only [Stored.isDefaultOf, hlist, Bool.true_and, List.isEmpty_iff] at hdefault
    rw [hdefault, Stored.toWire.eq_def]
    rfl
  | map hmap =>
    simp only [Stored.isDefaultOf, hmap, Bool.true_and, List.isEmpty_iff] at hdefault
    rw [hdefault, Stored.toWire.eq_def]
    rfl

/-- The values that a field is written as carry its number; none is a group, and those of a map are
delimited. -/
theorem FieldDescriptor.code_of_mem_toWire (hs : f.Holds s) {e : Nat × WireValue} (he : e ∈ s.toWire f) :
    e.1 = f.number ∧ e.2.code ≠ 3 ∧ (f.isMap = true → e.2.code = 2) := by
  cases hs with
  | single hmap _ hs =>
    obtain ⟨hnumber, hcode⟩ := Stored.code_of_mem_toWire hs he
    exact ⟨hnumber, hcode, fun h => absurd h (by simp [hmap])⟩
  | @list _ items hlist hitems =>
    have hmap : ¬ f.isMap = true := by simp [isMap_of_isList hlist]
    rw [Stored.toWire.eq_def] at he
    dsimp only at he
    unfold listWire at he
    split at he
    · cases he
    split at he
    · rw [List.mem_singleton.1 he]
      exact ⟨rfl, by simp [WireValue.code], fun h => absurd h hmap⟩
    · obtain ⟨w, hw, rfl⟩ := List.mem_map.1 he
      obtain ⟨s, hs, hsw⟩ := exists_of_forall₂ (Stored.forall₂_itemsToWire hitems) hw
      obtain ⟨w', hw', hcode, -⟩ := Kind.exists_itemToWire? (hitems s hs)
      obtain rfl : w' = w := Option.some.inj (hw'.symm.trans hsw)
      exact ⟨rfl, hcode, fun h => absurd h hmap⟩
  | map hmap =>
    obtain ⟨entry, hkind⟩ := kind_of_isMap hmap
    rw [Stored.toWire.eq_def] at he
    dsimp only at he
    rw [Stored.entriesToWire_eq hkind] at he
    obtain ⟨w, hw, rfl⟩ := List.mem_map.1 he
    obtain ⟨x, -, rfl⟩ := List.mem_map.1 hw
    exact ⟨rfl, by simp [WireValue.code], fun _ => rfl⟩

/-- What a single value holds is a message if it contains one. -/
theorem Kind.Holds.eq_of_contains (hs : kind.Holds s) {m : Message} (hm : s.Contains m) :
    s = .message m := by
  cases hs with
  | scalar => cases hm
  | message =>
    cases hm
    rfl

/-- The encoding of a message is no longer than that of the field it lies in. -/
theorem FieldDescriptor.length_toWire_of_contains (hs : f.Holds s) {m : Message} (hm : s.Contains m) :
    m.toWire.length ≤ (writeFields (s.toWire f)).length := by
  cases hs with
  | single _ _ hs =>
    obtain rfl := hs.eq_of_contains hm
    rw [Stored.toWire.eq_def]
    exact length_le_of_mem_fields List.mem_cons_self
  | @list _ items hlist hitems =>
    obtain _ | ⟨hs, hm⟩ | _ := hm
    obtain rfl := (hitems _ hs).eq_of_contains hm
    -- messages are never packed
    have hunpacked : f.kind.packedCode? = none := by
      have hkind := hitems _ hs
      generalize f.kind = kind at hkind
      cases hkind
      rfl
    have hmem : WireValue.delimited m.toWire ∈ Stored.itemsToWire f items := by
      rw [Stored.itemsToWire_eq]
      exact List.mem_filterMap.2 ⟨_, hs, rfl⟩
    rw [Stored.toWire.eq_def]
    dsimp only
    unfold listWire
    rw [if_neg (by simpa using List.ne_nil_of_mem hmem), if_neg (by simp [hunpacked])]
    exact length_le_of_mem_fields (List.mem_map.2 ⟨_, hmem, rfl⟩)
  | @map _ entries hmap _ hvalues _ =>
    obtain _ | _ | ⟨he, hm⟩ := hm
    rename_i e
    have hvalue := (hvalues e he).eq_of_contains hm
    obtain ⟨entry, hkind⟩ := kind_of_isMap hmap
    have hentry : ((FieldDescriptor.entryValue entry).number, WireValue.delimited m.toWire) ∈
        entry.entryFields e.1 e.2 := by
      rw [hvalue, MessageDescriptor.entryFields, Stored.toWire.eq_def]
      exact List.mem_append_right _ List.mem_cons_self
    have hmem : (f.number, WireValue.delimited (writeFields (entry.entryFields e.1 e.2))) ∈
        (Stored.map entries).toWire f := by
      rw [Stored.toWire.eq_def]
      dsimp only
      rw [Stored.entriesToWire_eq hkind, List.map_map]
      exact List.mem_map.2 ⟨e, he, rfl⟩
    exact (length_le_of_mem_fields hentry).trans (length_le_of_mem_fields hmem)

end

end

end Protoscript
