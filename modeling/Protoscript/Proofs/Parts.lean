import Protoscript.Proofs.Deciding
import Protoscript.Proofs.Holding

/-!
# Parts of stored messages

A path leads from a stored message to one of its parts: through fields by number, lists by position
and maps by key. A part can be replaced where it stands, and all else stays as it is.

* `Part`, `Stored.part?` — paths, and what they lead to;
* `Stored.edit` — a stored value with one part replaced; `Stored.part?_edit` — what is there then;
* `Message.editField_set`, `Message.editField_writeAll` — replacing a part of what was written to a
  field is writing it replaced;
* `editKey_mapOfEntries` — the same of the entries of a map;
* `Except.mapM_modify` — results for the elements of a list, one of which has changed.
-/

namespace Protoscript

/-- One step into a stored value. -/
inductive Part where
  /-- the field of a number -/
  | field (number : Nat)
  /-- the item at a position -/
  | item (position : Nat)
  /-- the value of a key -/
  | entry (key : MapKey)
  deriving DecidableEq

/-- Entries with another value of a key. -/
def editKey (key : MapKey) (g : Stored → Stored) (entries : List (MapKey × Stored)) :
    List (MapKey × Stored) :=
  entries.map fun e => if e.1 = key then (e.1, g e.2) else e

/-- Numbered entries with another value of a number. -/
def editNumber (number : Nat) (g : Stored → Stored) (entries : List (Nat × Stored)) :
    List (Nat × Stored) :=
  entries.map fun e => if e.1 = number then (e.1, g e.2) else e

/-- A message in which another value stands for what a field holds. All other fields, and what the
message carries under undeclared numbers, stay. -/
def Message.editField (m : Message) (number : Nat) (g : Stored → Stored) : Message :=
  .mk m.descriptor (editNumber number g m.fields) m.unknown

namespace Stored

/-- The part of a stored value that a path leads to. -/
def part? : List Part → Stored → Option Stored
  | [], s => some s
  | .field number :: path, .message m => lookupNumber number m.fields >>= part? path
  | .item position :: path, .list items => items[position]? >>= part? path
  | .entry key :: path, .map entries => lookupKey key entries >>= part? path
  | _ :: _, _ => none

/-- A stored value in which another one stands for the part that a path leads to. -/
def edit (g : Stored → Stored) : List Part → Stored → Stored
  | [], s => g s
  | .field number :: path, .message m => .message (m.editField number (edit g path))
  | .item position :: path, .list items => .list (items.modify position (edit g path))
  | .entry key :: path, .map entries => .map (editKey key (edit g path) entries)
  | _ :: _, s => s

end Stored

/-! ## Looking up what was replaced -/

section

variable {g : Stored → Stored}

theorem lookupNumber_editNumber (number : Nat) (entries : List (Nat × Stored)) :
    lookupNumber number (editNumber number g entries) = (lookupNumber number entries).map g := by
  induction entries with
  | nil => rfl
  | cons e rest ih =>
    unfold editNumber at ih ⊢
    by_cases h : e.1 = number <;> simp [lookupNumber, h, ih]

theorem lookupKey_editKey (key : MapKey) (entries : List (MapKey × Stored)) :
    lookupKey key (editKey key g entries) = (lookupKey key entries).map g := by
  induction entries with
  | nil => rfl
  | cons e rest ih =>
    unfold editKey at ih ⊢
    by_cases h : e.1 = key <;> simp [lookupKey, h, ih]

end

/-- **A part that was replaced** is the other one. -/
theorem Stored.part?_edit {g : Stored → Stored} {path : List Part} {s t : Stored}
    (h : s.part? path = some t) : (s.edit g path).part? path = some (g t) := by
  induction path generalizing s with
  | nil => exact congrArg (Option.map g) h
  | cons step path ih =>
    cases step <;> cases s <;> try cases h
    case field.message number m =>
      obtain ⟨u, hu, ht⟩ := Option.bind_eq_some_iff.1 h
      refine Option.bind_eq_some_iff.2 ⟨u.edit g path, ?_, ih ht⟩
      change lookupNumber number (editNumber number (edit g path) m.fields) = _
      rw [lookupNumber_editNumber, hu, Option.map_some]
    case item.list position items =>
      obtain ⟨u, hu, ht⟩ := Option.bind_eq_some_iff.1 h
      refine Option.bind_eq_some_iff.2 ⟨u.edit g path, ?_, ih ht⟩
      rw [List.getElem?_modify_eq, hu]
      rfl
    case entry.map key entries =>
      obtain ⟨u, hu, ht⟩ := Option.bind_eq_some_iff.1 h
      refine Option.bind_eq_some_iff.2 ⟨u.edit g path, ?_, ih ht⟩
      rw [lookupKey_editKey, hu, Option.map_some]

/-! ## Fields -/

section

variable {g : Stored → Stored} {number other : Nat} {value : Stored} {entries : List (Nat × Stored)}

theorem editNumber_eraseNumber (number other : Nat) (entries : List (Nat × Stored)) :
    editNumber number g (eraseNumber other entries) = eraseNumber other (editNumber number g entries) := by
  unfold editNumber eraseNumber
  rw [List.filter_map]
  congr 1
  refine List.filter_congr fun e _ => ?_
  by_cases h : e.1 = number <;> simp [h]

theorem editNumber_insertNumber_of_ne (h : other ≠ number) :
    editNumber number g (insertNumber other value entries) =
      insertNumber other value (editNumber number g entries) := by
  induction entries with
  | nil => simp [insertNumber, editNumber, h]
  | cons e rest ih =>
    unfold editNumber at ih ⊢
    have hkey : (if e.1 = number then (e.1, g e.2) else e).1 = e.1 := by split <;> rfl
    rw [List.map_cons, insertNumber, insertNumber, hkey]
    split
    · rw [List.map_cons, ih]
    · split <;> simp [h]

/-- In an ascending list there is one entry of a number. -/
theorem editNumber_insertNumber_self (hsorted : (entries.map (·.1)).Pairwise (· < ·)) :
    editNumber number g (insertNumber number value entries) =
      insertNumber number (g value) entries := by
  -- the number comes only once, in order
  have others {es : List (Nat × Stored)} (hes : ∀ e ∈ es, number < e.1) : editNumber number g es = es := by
    refine (List.map_congr_left fun e he => ?_).trans (List.map_id _)
    rw [if_neg (Nat.ne_of_gt (hes e he)), id]
  induction entries with
  | nil => simp [insertNumber, editNumber]
  | cons e rest ih =>
    obtain ⟨hfirst, hrest⟩ := List.pairwise_cons.1 hsorted
    have hafter (h : number ≤ e.1) : ∀ x ∈ rest, number < x.1 := fun x hx =>
      Nat.lt_of_le_of_lt h (hfirst _ (List.mem_map.2 ⟨x, hx, rfl⟩))
    rw [insertNumber, insertNumber]
    split
    · rename_i hlt
      rw [← ih hrest]
      exact congrArg (· :: _) (if_neg (Nat.ne_of_lt hlt))
    · split
      · rename_i heq
        refine List.cons_eq_cons.2 ⟨if_pos rfl, others ?_⟩
        exact hafter (Nat.le_of_eq heq.symm)
      · rename_i hge hne
        have hlt : number < e.1 := by omega
        refine List.cons_eq_cons.2 ⟨if_pos rfl, others ?_⟩
        exact List.forall_mem_cons.2 ⟨hlt, hafter (Nat.le_of_lt hlt)⟩

end

namespace Message

variable {m : Message} {f : FieldDescriptor} {s : Stored} {number : Nat} {g : Stored → Stored}

theorem editField_clear (m : Message) (f : FieldDescriptor) :
    (m.clear f).editField number g = (m.editField number g).clear f := by
  unfold editField clear
  rw [fields_mk, fields_mk, editNumber_eraseNumber]
  rfl

theorem editField_select (m : Message) (f : FieldDescriptor) :
    (m.select f).editField number g = (m.editField number g).select f := by
  unfold select
  induction f.siblings generalizing m with
  | nil => rfl
  | cons f rest ih => rw [List.foldl_cons, List.foldl_cons, ih, editField_clear]

/-- **Writing another field** and replacing what a field holds can be done in any order. -/
theorem editField_set (h : f.number ≠ number) :
    (m.set f s).editField number g = (m.editField number g).set f s := by
  unfold set
  rw [← editField_select]
  exact congrArg (fun fields => Message.mk _ fields _) (editNumber_insertNumber_of_ne h)

/-- Replacing what was written to a field is writing the other value. -/
theorem editField_set_self (hsorted : (m.fields.map (·.1)).Pairwise (· < ·)) :
    (m.set f s).editField f.number g = m.set f (g s) := by
  have hselect : ((m.select f).fields.map (·.1)).Pairwise (· < ·) := by
    unfold select
    induction f.siblings generalizing m with
    | nil => exact hsorted
    | cons f rest ih => exact ih (sorted_eraseNumber hsorted)
  exact congrArg (fun fields => Message.mk _ fields _) (editNumber_insertNumber_self hselect)

/-- Writes to other fields and replacing what a field holds can be done in any order. -/
theorem editField_writeAll {ws : List (Option (FieldDescriptor × Stored))}
    (hws : ∀ f s, some (f, s) ∈ ws → f.number ≠ number) :
    (m.writeAll ws).editField number g = (m.editField number g).writeAll ws := by
  induction ws generalizing m with
  | nil => rfl
  | cons w rest ih =>
    have hrest := ih (m := w.elim m fun w => m.set w.1 w.2) fun f s hmem => hws f s (.tail _ hmem)
    refine hrest.trans ?_
    cases w with
    | none => rfl
    | some w => exact congrArg (writeAll · rest) (editField_set (hws w.1 w.2 (.head _)))

end Message

/-- **One of many writes writes another value**: the message has the other value in that field. -/
theorem MessageDescriptor.Takes.writeAll_modify {d : MessageDescriptor} {m : Message}
    {f : FieldDescriptor} {s : Stored} {g : Stored → Stored}
    {ws : List (Option (FieldDescriptor × Stored))} {i : Nat} (hm : d.Takes m)
    (hws : ∀ f s, some (f, s) ∈ ws → f ∈ d.fields ∧ f.Holds s) (hi : ws[i]? = some (some (f, s)))
    (hothers : ∀ j f' s', ws[j]? = some (some (f', s')) → j ≠ i → f'.number ≠ f.number) :
    m.writeAll (ws.modify i (Option.map fun w => (w.1, g w.2))) =
      (m.writeAll ws).editField f.number g := by
  induction ws generalizing m i with
  | nil => cases hi
  | cons w rest ih =>
    cases i with
    | zero =>
      obtain rfl : w = some (f, s) := Option.some.inj hi
      obtain ⟨-, hconforms⟩ := hm
      cases hconforms with
      | mk hsorted =>
        change (m.set f (g s)).writeAll rest = ((m.set f s).writeAll rest).editField f.number g
        -- no later write is made to the field
        rw [Message.editField_writeAll, Message.editField_set_self hsorted]
        intro f' s' hmem
        obtain ⟨j, hj⟩ := List.getElem?_of_mem hmem
        exact hothers (j + 1) f' s' hj (Nat.succ_ne_zero j)
    | succ i =>
      refine ih (m := w.elim m fun w => m.set w.1 w.2) ?_ (fun f s hmem => hws f s (.tail _ hmem)) hi
        fun j f' s' hj hne => hothers (j + 1) f' s' hj fun he => hne (Nat.succ.inj he)
      cases w with
      | none => exact hm
      | some w =>
        obtain ⟨hf, hs⟩ := hws w.1 w.2 (.head _)
        exact hm.set hf hs

/-- The field holds what the write wrote, if no other write decides what it holds. -/
theorem Message.stored?_writeAll_of_getElem? {m : Message} {f : FieldDescriptor} {s : Stored}
    {ws : List (Option (FieldDescriptor × Stored))} {i : Nat} (hi : ws[i]? = some (some (f, s)))
    (hothers : ∀ j f' s', ws[j]? = some (some (f', s')) → j ≠ i →
      f ∈ f'.message.fields ∧ ¬ f'.Decides f) : (m.writeAll ws).stored? f = some s := by
  induction ws generalizing m i with
  | nil => cases hi
  | cons w rest ih =>
    cases i with
    | zero =>
      obtain rfl : w = some (f, s) := Option.some.inj hi
      refine (stored?_writeAll_of_not_decides (m.set f s) fun f' s' hmem => ?_).trans
        (stored?_set_self m rfl s)
      obtain ⟨j, hj⟩ := List.getElem?_of_mem hmem
      exact hothers (j + 1) f' s' hj (Nat.succ_ne_zero j)
    | succ i =>
      exact ih (m := w.elim m fun w => m.set w.1 w.2) hi fun j f' s' hj hne =>
        hothers (j + 1) f' s' hj fun he => hne (Nat.succ.inj he)

/-! ## Entries -/

section

variable {key other : MapKey} {value : Stored} {entries new : List (MapKey × Stored)}
  {g : Stored → Stored}

/-- A key that was put in has the value that it was put in with. -/
theorem lookupKey_insertKey_self :
    lookupKey key (insertKey key value entries) = some value := by
  induction entries with
  | nil => simp [insertKey, lookupKey]
  | cons e rest ih =>
    unfold insertKey
    split
    · simp [lookupKey]
    · rename_i hne
      split <;> simp [lookupKey, hne, ih]

theorem lookupKey_insertKey_of_ne (h : other ≠ key) :
    lookupKey key (insertKey other value entries) = lookupKey key entries := by
  induction entries with
  | nil => simp [insertKey, lookupKey, h]
  | cons e rest ih =>
    unfold insertKey
    split
    · rename_i heq
      simp [lookupKey, heq, h]
    · split <;> simp [lookupKey, h, ih]

/-- A map of entries with distinct keys has the value of each. -/
theorem lookupKey_mapOfEntries (hnodup : (entries.map (·.1)).Nodup) (he : (key, value) ∈ entries) :
    lookupKey key (mapOfEntries entries) = some value := by
  have others {es : List (MapKey × Stored)} (hes : key ∉ es.map (·.1)) (acc : List (MapKey × Stored)) :
      lookupKey key (es.foldl (fun m e => insertKey e.1 e.2 m) acc) = lookupKey key acc := by
    induction es generalizing acc with
    | nil => rfl
    | cons e rest ih =>
      rw [List.map_cons, List.mem_cons, not_or] at hes
      rw [List.foldl_cons, ih hes.2, lookupKey_insertKey_of_ne (Ne.symm hes.1)]
  unfold mapOfEntries
  generalize ([] : List (MapKey × Stored)) = acc
  induction entries generalizing acc with
  | nil => cases he
  | cons e rest ih =>
    obtain ⟨hfirst, hrest⟩ := List.nodup_cons.1 hnodup
    rcases List.mem_cons.1 he with rfl | he
    · rw [List.foldl_cons, others hfirst, lookupKey_insertKey_self]
    · exact ih hrest he _

theorem editKey_insertKey : editKey key g (insertKey other value entries) =
    insertKey other (if other = key then g value else value) (editKey key g entries) := by
  have hentry : (if other = key then (other, g value) else (other, value)) =
      (other, if other = key then g value else value) := by split <;> rfl
  induction entries with
  | nil => exact congrArg (· :: []) hentry
  | cons e rest ih =>
    unfold editKey at ih ⊢
    have hkey : (if e.1 = key then (e.1, g e.2) else e).1 = e.1 := by split <;> rfl
    rw [List.map_cons, insertKey, insertKey, hkey]
    split
    · exact congrArg (· :: _) hentry
    · split
      · rw [List.map_cons, ih]
      · exact congrArg (· :: _) hentry

/-- **Replacing the value of a key** in a list of entries replaces it in the map of them. -/
theorem editKey_mapOfEntries (entries : List (MapKey × Stored)) :
    mapOfEntries (editKey key g entries) = editKey key g (mapOfEntries entries) := by
  have step (acc : List (MapKey × Stored)) :
      (editKey key g entries).foldl (fun m e => insertKey e.1 e.2 m) (editKey key g acc) =
        editKey key g (entries.foldl (fun m e => insertKey e.1 e.2 m) acc) := by
    induction entries generalizing acc with
    | nil => rfl
    | cons e rest ih =>
      rw [List.foldl_cons, ← ih, editKey_insertKey]
      unfold editKey
      rw [List.map_cons, List.foldl_cons]
      split <;> rfl
  exact step []

omit g in
/-- What is distinct stands at one position. -/
theorem index_unique {α β : Type} {xs : List α} {k : α → β} {i j : Nat} {x y : α}
    (hnodup : (xs.map k).Nodup) (hi : xs[i]? = some x) (hj : xs[j]? = some y) (hxy : k x = k y) :
    i = j := by
  have hlt : i < (xs.map k).length := by
    rw [List.length_map]
    exact (List.getElem?_eq_some_iff.1 hi).1
  refine (List.getElem?_inj hlt hnodup).1 ?_
  rw [List.getElem?_map, List.getElem?_map, hi, hj, Option.map_some, Option.map_some, hxy]

/-- With distinct keys, the entry of a key is the one at its position. -/
theorem modify_eq_editKey {i : Nat} (hnodup : (entries.map (·.1)).Nodup)
    (hi : entries[i]? = some (key, value)) :
    entries.modify i (fun e => (e.1, g e.2)) = editKey key g entries := by
  refine List.ext_getElem? fun j => ?_
  unfold editKey
  rw [List.getElem?_modify, List.getElem?_map]
  refine Option.map_congr fun e he => ?_
  by_cases hij : i = j
  · subst hij
    obtain rfl := Option.some.inj (hi.symm.trans he)
    simp
  · rw [if_neg hij, if_neg]
    exact fun hkey => hij (index_unique hnodup hi he hkey.symm)

end

/-! ## Results -/

/-- Results stand where what they are results for does. -/
theorem Except.getElem?_mapM {ε α β : Type} {f : α → Except ε β} {xs : List α} {ys : List β}
    {j : Nat} {y : β} (hys : xs.mapM f = .ok ys) (hj : ys[j]? = some y) :
    ∃ x, xs[j]? = some x ∧ f x = .ok y := by
  have hall := Except.mapM_ok.1 hys
  obtain ⟨hlt, rfl⟩ := List.getElem?_eq_some_iff.1 hj
  have hlt' : j < xs.length := hall.length_eq.symm ▸ hlt
  exact ⟨xs[j], List.getElem?_eq_getElem hlt', (List.forall₂_iff_get.1 hall).2 j hlt' hlt⟩

/-- Results for the elements of a list, of which one has changed. -/
theorem Except.mapM_modify {ε α β : Type} {f f' : α → Except ε β} {g : β → β} {xs : List α} {ys : List β}
    {i : Nat} {x : α} {y : β} (hys : xs.mapM f = .ok ys) (hx : xs[i]? = some x) (hy : f x = .ok y)
    (hchanged : f' x = .ok (g y)) (hothers : ∀ j z, xs[j]? = some z → j ≠ i → f' z = f z) :
    xs.mapM f' = .ok (ys.modify i g) ∧ ys[i]? = some y := by
  induction xs generalizing ys i with
  | nil => cases hx
  | cons z rest ih =>
    rw [List.mapM_cons] at hys ⊢
    obtain ⟨w, hw, hys⟩ := Except.bind_ok.1 hys
    obtain ⟨ws, hws, hys⟩ := Except.bind_ok.1 hys
    cases hys
    cases i with
    | zero =>
      obtain rfl : z = x := Option.some.inj hx
      obtain rfl : w = y := Except.ok.inj (hw.symm.trans hy)
      have hrest : rest.mapM f' = .ok ws := by
        refine (Except.mapM_congr fun a ha => ?_).trans hws
        obtain ⟨j, hj⟩ := List.getElem?_of_mem ha
        exact hothers (j + 1) a hj (Nat.succ_ne_zero j)
      rw [hchanged, hrest]
      exact ⟨rfl, rfl⟩
    | succ i =>
      obtain ⟨hrest, hget⟩ := ih hws hx fun j a hj hne =>
        hothers (j + 1) a hj fun he => hne (Nat.succ.inj he)
      rw [hothers 0 z rfl (Nat.succ_ne_zero i).symm, hw, hrest]
      exact ⟨rfl, hget⟩

end Protoscript
