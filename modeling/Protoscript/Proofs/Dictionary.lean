import Protoscript.Proofs.Keys

/-!
# Dictionaries

What a view of a map field is to a script: a dictionary in the order in which the keys came. A key that
is set again keeps its place, a new one comes last, and the keys are of one type.

* `Dictionary` — entries with distinct keys; `Dictionary.get?`, `Dictionary.set`, `Dictionary.erase` and
  their laws;
* `Kind.Key` — the keys of a type, as they are stored;
* `Dictionary.rows` — a dictionary as the entries of a view; `Heap.commit_rows` — validated updates of
  the entries are updates of the dictionary.
-/

namespace Protoscript

/-- A dictionary in the order in which its keys came. -/
structure Dictionary (K V : Type) where
  /-- the entries -/
  entries : List (K × V)
  /-- no key is there twice -/
  nodup : (entries.map (·.1)).Nodup

section

variable {K V : Type} [DecidableEq K] {key other : K} {value : V}

/-- Entries with the value of a key set; the key keeps its place or comes last. -/
def setEntry (key : K) (value : V) : List (K × V) → List (K × V)
  | [] => [(key, value)]
  | e :: rest => if e.1 = key then (key, value) :: rest else e :: setEntry key value rest

theorem keys_setEntry (key : K) (value : V) (entries : List (K × V)) :
    (setEntry key value entries).map (·.1) =
      if key ∈ entries.map (·.1) then entries.map (·.1) else entries.map (·.1) ++ [key] := by
  induction entries with
  | nil => rfl
  | cons e rest ih =>
    unfold setEntry
    by_cases he : e.1 = key
    · simp [he]
    · have hne : key ≠ e.1 := fun h => he h.symm
      simp only [if_neg he, List.map_cons, ih, List.mem_cons, hne, false_or, List.cons_append]
      split <;> rfl

theorem find?_setEntry (key other : K) (value : V) (entries : List (K × V)) :
    (setEntry key value entries).find? (fun e => e.1 = other) =
      if key = other then some (key, value) else entries.find? (fun e => e.1 = other) := by
  induction entries with
  | nil => by_cases ho : key = other <;> simp [setEntry, ho]
  | cons e rest ih =>
    unfold setEntry
    by_cases he : e.1 = key
    · subst he
      by_cases ho : e.1 = other <;> simp [ho]
    · rw [if_neg he, List.find?_cons, List.find?_cons, ih]
      by_cases ho : e.1 = other
      · have hne : key ≠ other := fun h => he (ho.trans h.symm)
        simp [ho, hne]
      · simp [ho]

/-- Setting the value of a key by its position. -/
theorem setEntry_eq (key : K) (value : V) (entries : List (K × V)) :
    setEntry key value entries =
      match entries.findIdx? fun e => e.1 = key with
      | some i => entries.modify i fun e => (e.1, value)
      | none => entries ++ [(key, value)] := by
  induction entries with
  | nil => rfl
  | cons e rest ih =>
    unfold setEntry
    rw [List.findIdx?_cons]
    by_cases he : e.1 = key
    · simp [he]
    · rw [if_neg he, ih]
      rcases hi : rest.findIdx? fun e => e.1 = key with _ | i <;> simp [he, hi]

namespace Dictionary

/-- The keys. -/
def keys (d : Dictionary K V) : List K := d.entries.map (·.1)

/-- The value of a key. -/
def get? (d : Dictionary K V) (key : K) : Option V := (d.entries.find? fun e => e.1 = key).map (·.2)

/-- The dictionary without entries. -/
def empty : Dictionary K V := ⟨[], .nil⟩

/-- Sets the value of a key; a key that is there keeps its place, and a new one comes last. -/
def set (d : Dictionary K V) (key : K) (value : V) : Dictionary K V where
  entries := setEntry key value d.entries
  nodup := by
    rw [keys_setEntry]
    split
    · exact d.nodup
    · rename_i hnew
      exact List.nodup_append.2 ⟨d.nodup, List.nodup_singleton key, fun a ha b hb hab =>
        hnew (List.mem_singleton.1 hb ▸ hab ▸ ha)⟩

/-- Removes a key, if it is there. -/
def erase (d : Dictionary K V) (key : K) : Dictionary K V where
  entries := d.entries.eraseP fun e => e.1 = key
  nodup := d.nodup.sublist (List.eraseP_sublist.map _)

/-- Sets the value of a key, or removes the key. -/
def apply (d : Dictionary K V) (update : K × Option V) : Dictionary K V :=
  match update.2 with
  | some value => d.set update.1 value
  | none => d.erase update.1

variable {d : Dictionary K V}

theorem isSome_get? : (d.get? key).isSome = true ↔ key ∈ d.keys := by
  simp [get?, keys]

theorem keys_set : (d.set key value).keys = if key ∈ d.keys then d.keys else d.keys ++ [key] :=
  keys_setEntry key value d.entries

/-- A key that was set has the value it was set to, and others have the values that they had. -/
theorem get?_set : (d.set key value).get? other = if key = other then some value else d.get? other := by
  unfold get? set
  rw [find?_setEntry]
  split <;> rfl

theorem keys_erase : (d.erase key).keys = d.keys.erase key := by
  obtain ⟨entries, hnodup⟩ := d
  unfold erase keys
  induction entries with
  | nil => rfl
  | cons e rest ih =>
    simp only [List.map_cons, List.nodup_cons] at hnodup
    by_cases he : e.1 = key
    · simp [he]
    · simp [he, ih hnodup.2]

/-- A key that was removed is gone, and others have the values that they had. -/
theorem get?_erase : (d.erase key).get? other = if key = other then none else d.get? other := by
  obtain ⟨entries, hnodup⟩ := d
  unfold erase get?
  induction entries with
  | nil => simp
  | cons e rest ih =>
    simp only [List.map_cons, List.nodup_cons] at hnodup
    by_cases he : e.1 = key
    · subst he
      by_cases ho : e.1 = other
      · subst ho
        have hgone : rest.find? (fun e' => e'.1 = e.1) = none :=
          List.find?_eq_none.2 fun e' he' h => hnodup.1 (List.mem_map.2 ⟨e', he', by simpa using h⟩)
        simp [hgone]
      · simp [ho]
    · simp only [List.eraseP_cons, he, decide_false, cond_false, List.find?_cons]
      by_cases ho : e.1 = other
      · have hne : key ≠ other := fun h => he (ho.trans h.symm)
        simp [ho, hne]
      · simpa [ho] using ih hnodup.2

end Dictionary

end

/-- Removing the entry at a position removes its key. -/
theorem eraseIdx_eq_eraseP {K V : Type} [DecidableEq K] {entries : List (K × V)}
    (hnodup : (entries.map (·.1)).Nodup) {i : Nat} {e : K × V} (he : entries[i]? = some e) :
    entries.eraseIdx i = entries.eraseP fun e' => e'.1 = e.1 := by
  induction entries generalizing i with
  | nil => cases he
  | cons first rest ih =>
    simp only [List.map_cons, List.nodup_cons] at hnodup
    cases i with
    | zero =>
      cases he
      simp
    | succ i =>
      have hmem : e ∈ rest := List.mem_of_getElem? he
      have hne : first.1 ≠ e.1 := fun h => hnodup.1 (h ▸ List.mem_map.2 ⟨e, hmem, rfl⟩)
      simp [hne, ih hnodup.2 he]

/-! ## Views as dictionaries -/

/-- The keys of a type, as they are stored. -/
abbrev Kind.Key (kind : Kind) : Type := { key : MapKey // kind.HoldsKey key }

/-- Keys that are read as equal values are read as the same one. -/
theorem MapKey.toValue_eq_of_keysEqual {h : Heap} {a b : MapKey}
    (hab : h.keysEqual a.toValue b.toValue = true) : a.toValue = b.toValue := by
  cases a <;> cases b <;>
    simp_all [toValue, Heap.keysEqual, Heap.equals, Heap.equalsWithin, Heap.sequenceItems?,
      Heap.mappingEntries?, Heap.flatEquals, Except.toOption]

namespace Heap

variable {kind : Kind} {h : Heap}

/-- Keys of a type are equal if they are the same. -/
theorem keysEqual_key {a b : kind.Key} : h.keysEqual a.1.toValue b.1.toValue = true ↔ a = b := by
  constructor
  · intro hab
    exact Subtype.ext (a.2.toValue_inj b.2 (MapKey.toValue_eq_of_keysEqual hab))
  · rintro rfl
    exact a.1.keysEqual_toValue h

end Heap

/-- A dictionary as the entries of a view. -/
def Dictionary.rows {kind : Kind} (d : Dictionary kind.Key Value) : List (Value × Value) :=
  d.entries.map fun e => (e.1.1.toValue, e.2)

theorem Dictionary.rows_set {kind : Kind} (d : Dictionary kind.Key Value) (key : kind.Key)
    (value : Value) :
    (d.set key value).rows = (setEntry key value d.entries).map fun e => (e.1.1.toValue, e.2) :=
  rfl

theorem Dictionary.rows_erase {kind : Kind} (d : Dictionary kind.Key Value) (key : kind.Key) :
    (d.erase key).rows = (d.entries.eraseP fun e => e.1 = key).map fun e => (e.1.1.toValue, e.2) :=
  rfl

namespace Heap

variable {kind : Kind} {h : Heap}

theorem findKey?_rows (h : Heap) (d : Dictionary kind.Key Value) (key : Value) :
    h.findKey? key d.rows = d.entries.findIdx? fun e => h.keysEqual e.1.1.toValue key := by
  unfold findKey? Dictionary.rows
  rw [List.findIdx?_map]
  rfl

theorem lookup?_rows (h : Heap) (d : Dictionary kind.Key Value) (key : Value) :
    h.lookup? key d.rows =
      (d.entries.find? fun e => h.keysEqual e.1.1.toValue key).map (·.2) := by
  unfold lookup? Dictionary.rows
  rw [List.find?_map, Option.map_map]
  rfl

/-- The keys that equal a key of the type are that key. -/
theorem keysEqual_key_eq (h : Heap) (key : kind.Key) :
    (fun e : kind.Key × Value => h.keysEqual e.1.1.toValue key.1.toValue) =
      fun e => decide (e.1 = key) := by
  funext e
  exact Bool.eq_iff_iff.2 (by simp [keysEqual_key])

/-- **One update of the entries is one of the dictionary.** -/
theorem commit_one_rows (h : Heap) (d : Dictionary kind.Key Value) (update : kind.Key × Option Value) :
    h.commit d.rows [(update.1.1.toValue, update.2)] = (d.apply update).rows := by
  obtain ⟨key, value⟩ := update
  simp only [commit, findKey?_rows, keysEqual_key_eq]
  rcases value with _ | value
  · change _ = (d.erase key).rows
    rw [Dictionary.rows_erase, List.eraseP_eq_eraseIdx]
    rcases hi : d.entries.findIdx? fun e => e.1 = key with _ | i
    · simp [hi, Dictionary.rows]
    · simp [hi, Dictionary.rows, List.eraseIdx_map]
  · change _ = (d.set key value).rows
    rw [Dictionary.rows_set, setEntry_eq]
    rcases hi : d.entries.findIdx? fun e => e.1 = key with _ | i
    · simp [hi, Dictionary.rows]
    · refine List.ext_getElem? fun j => ?_
      simp only [hi, setValueAt, Dictionary.rows, List.getElem?_modify, List.getElem?_map]
      rcases d.entries[j]? with _ | e <;> by_cases hij : i = j <;> simp [hij]

/-- **Updates of the entries are updates of the dictionary.** -/
theorem commit_rows (h : Heap) (d : Dictionary kind.Key Value)
    (updates : List (kind.Key × Option Value)) :
    h.commit d.rows (updates.map fun u => (u.1.1.toValue, u.2)) = (updates.foldl .apply d).rows := by
  induction updates generalizing d with
  | nil => rfl
  | cons update rest ih =>
    rw [List.map_cons, List.foldl_cons, ← ih, ← commit_one_rows h]
    rfl

end Heap

end Protoscript
