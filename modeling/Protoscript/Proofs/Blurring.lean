import Protoscript.Proofs.Computation
import Protoscript.Proofs.Freezing

/-!
# Heaps whose legacy switch cannot be told

Values, cells and errors carry the settings of the loader that they come from. Two runs whose settings
differ in the legacy switch are compared after it is blurred: put back to its default everywhere, which
is also what it is where there is no cell.

* `Config.blurred`, `Value.blurred`, `Heap.blurred`, `Error.blurred` — the same with the switch blurred;
* `Config.blurred_eq_iff` — settings that are the same then differ in the switch at most;
* `Heap.cell_blurred`, `Heap.put_blurred`, `Heap.alloc_blurred` — the cells;
* `Heap.typeName_blurred`, `Heap.freezeAll_blurred`, `Heap.adopt_blurred` — what does not depend on it.
-/

namespace Protoscript

/-! ## Settings and values -/

/-- Settings with the legacy switch as it is by default. -/
def Config.blurred (c : Config) : Config := { c with legacyAbsent := true }

/-- Settings that are the same when the switch is blurred differ in the switch at most. -/
theorem Config.blurred_eq_iff {c d : Config} : c.blurred = d.blurred ↔
    c.scalarWrappers = d.scalarWrappers ∧ c.anyUrlBase = d.anyUrlBase ∧ c.jsonIndent = d.jsonIndent := by
  simp [Config.blurred]

/-- A loader with the switch blurred. -/
def Loader.blurred (l : Loader) : Loader := { l with config := l.config.blurred }

def MessageType.blurred (t : MessageType) : MessageType := { t with config := t.config.blurred }

def Package.blurred (p : Package) : Package := { p with loader := p.loader.blurred }

def Library.blurred (l : Library) : Library := { l with loader := l.loader.blurred }

def Callable.blurred : Callable → Callable
  | .function library f => .function library.blurred f
  | c => c

mutual

/-- A value with the switch blurred. -/
def Value.blurred : Value → Value
  | .tuple items => .tuple (Value.allBlurred items)
  | .messageType t => .messageType t.blurred
  | .package p => .package p.blurred
  | .callable c => .callable c.blurred
  | .library l => .library l.blurred
  | v => v

/-- Values with the switch blurred. -/
def Value.allBlurred : List Value → List Value
  | [] => []
  | v :: rest => v.blurred :: Value.allBlurred rest

end

@[simp] theorem Value.allBlurred_eq_map (items : List Value) : allBlurred items = items.map blurred := by
  induction items with
  | nil => rfl
  | cons v rest ih => rw [allBlurred, ih, List.map_cons]

@[simp] theorem Value.blurred_tuple (items : List Value) :
    (tuple items).blurred = .tuple (items.map blurred) := by
  rw [blurred, allBlurred_eq_map]

theorem Value.exists_tuple_of_blurred {v : Value} {items : List Value} (hv : v.blurred = .tuple items) :
    ∃ parts, v = .tuple parts := by
  cases v with
  | tuple parts => exact ⟨parts, rfl⟩
  | _ => cases hv

@[simp] theorem Value.ref?_blurred (v : Value) : v.blurred.ref? = v.ref? := by
  cases v <;> rfl

/-- An entry of a mapping with the switch blurred. -/
def Value.blurredEntry (e : Value × Value) : Value × Value := (e.1.blurred, e.2.blurred)

/-- An update of a mapping with the switch blurred. -/
def Value.blurredUpdate (u : Value × Option Value) : Value × Option Value :=
  (u.1.blurred, u.2.map Value.blurred)

/-- A named value with the switch blurred. -/
def Value.blurredNamed (view : String × Value) : String × Value := (view.1, view.2.blurred)

/-! ## Cells -/

/-- A cell with the switch blurred. -/
def Cell.blurred : {s : Shelf} → Cell s → Cell s
  | .list, c => ({ (c : ListCell) with items := (c : ListCell).items.map Value.blurred } : ListCell)
  | .dict, c =>
    ({ (c : DictCell) with entries := (c : DictCell).entries.map Value.blurredEntry } : DictCell)
  | .message, c =>
    ({ (c : MessageCell) with
      views := (c : MessageCell).views.map Value.blurredNamed
      config := (c : MessageCell).config.blurred } : MessageCell)
  | .repeated, c =>
    ({ (c : RepeatedCell) with
      items := (c : RepeatedCell).items.map Value.blurred
      config := (c : RepeatedCell).config.blurred } : RepeatedCell)
  | .map, c =>
    ({ (c : MapCell) with
      entries := (c : MapCell).entries.map Value.blurredEntry
      config := (c : MapCell).config.blurred } : MapCell)

namespace Cell

variable {s : Shelf}

/-- Where there is no cell, the switch is as it is by default. -/
@[simp] theorem blurred_default : Cell.blurred (default : Cell s) = default := by
  cases s <;> rfl

@[simp] theorem isFrozen_blurred (c : Cell s) : Cell.isFrozen (Cell.blurred c) = Cell.isFrozen c := by
  cases s <;> rfl

theorem freeze_blurred (c : Cell s) : Cell.blurred (Cell.freeze c) = Cell.freeze (Cell.blurred c) := by
  cases s <;> rfl

theorem values_blurred (c : Cell s) :
    Cell.values (Cell.blurred c) = (Cell.values c).map Value.blurred := by
  cases s <;>
    simp [Cell.values, Cell.blurred, List.map_flatMap, List.flatMap_map, Value.blurredEntry,
      Value.blurredNamed, Function.comp_def]

end Cell

/-- A heap with the switch blurred. -/
def Heap.blurred (h : Heap) : Heap where
  lists := h.lists.map (Cell.blurred (s := .list))
  dicts := h.dicts.map (Cell.blurred (s := .dict))
  messages := h.messages.map (Cell.blurred (s := .message))
  repeateds := h.repeateds.map (Cell.blurred (s := .repeated))
  maps := h.maps.map (Cell.blurred (s := .map))
  nextId := h.nextId

namespace Heap

variable (h : Heap) {s : Shelf}

theorem shelf_blurred (s : Shelf) : h.blurred.shelf s = (h.shelf s).map Cell.blurred := by
  cases s <;> rfl

@[simp] theorem size_shelf_blurred (s : Shelf) : (h.blurred.shelf s).size = (h.shelf s).size := by
  rw [shelf_blurred, Array.size_map]

@[simp] theorem size_blurred : h.blurred.size = h.size := by
  simp [size, blurred]

@[simp] theorem cell_blurred (r : Ref s) : h.blurred.cell r = Cell.blurred (h.cell r) := by
  unfold cell
  rw [shelf_blurred, Array.getD_eq_getD_getElem?, Array.getD_eq_getD_getElem?, Array.getElem?_map]
  cases (h.shelf s)[r.index]? with
  | none => exact Cell.blurred_default.symm
  | some c => rfl

@[simp] theorem fresh_blurred (s : Shelf) : h.blurred.fresh s = h.fresh s := by
  simp [fresh]

theorem put_blurred (r : Ref s) (c : Cell s) : (h.put r c).blurred = h.blurred.put r (Cell.blurred c) := by
  cases s <;> simp [put, blurred, withShelf, shelf, Array.map_setIfInBounds]

theorem alloc_blurred (c : Cell s) : (h.alloc s c).blurred = h.blurred.alloc s (Cell.blurred c) := by
  cases s <;> simp [alloc, blurred, withShelf, shelf, Array.map_push]

@[simp] theorem fullName_blurred (r : Ref .message) : h.blurred.fullName r = h.fullName r := by
  rw [fullName, cell_blurred]
  rfl

@[simp] theorem typeName_blurred (v : Value) : h.blurred.typeName v.blurred = h.typeName v := by
  cases v <;> simp [Value.blurred, typeName] <;> rfl

end Heap

/-! ## Errors -/

/-- An error with the switch blurred. -/
def Error.blurred : Error → Error
  | .typeMismatch value expected => .typeMismatch value.blurred expected
  | .keyNotFound key => .keyNotFound key.blurred
  | .elementNotFound element => .elementNotFound element.blurred
  | e => e

/-- A result with the switch blurred; `k` says what becomes of a success. -/
def Except.blurred {α β : Type} (k : α → β) : Except Error α → Except Error β
  | .ok a => .ok (k a)
  | .error e => .error e.blurred

namespace Except

variable {α β γ : Type} {k : α → β} {x : Except Error α}

@[simp] theorem blurred_ok (k : α → β) (a : α) : Except.blurred k (.ok a) = .ok (k a) := rfl

@[simp] theorem blurred_error (k : α → β) (e : Error) : Except.blurred k (.error e) = .error e.blurred := rfl

theorem blurred_id_ok {a : α} : Except.blurred id x = .ok a ↔ x = .ok a := by
  cases x <;> simp

theorem blurred_map {f : α → γ} {g : β → γ} (hfg : ∀ a, g (k a) = f a) :
    (Except.blurred k x).map g = Except.blurred id (x.map f) := by
  cases x <;> simp [Except.map, hfg]

theorem blurred_bind {δ : Type} {l : γ → δ} {f : α → Except Error γ} {g : β → Except Error δ}
    (hfg : ∀ a, x = .ok a → g (k a) = Except.blurred l (f a)) :
    (Except.blurred k x >>= g) = Except.blurred l (x >>= f) := by
  cases x with
  | error e => rfl
  | ok a => exact hfg a rfl

end Except

/-! ## Freezing -/

namespace Heap

/-- **Freezing** does not depend on the switch. -/
theorem freezeAll_blurred (h : Heap) (work : List Value) :
    (h.freezeAll work).blurred = h.blurred.freezeAll (work.map Value.blurred) := by
  -- freezing takes the same path on both heaps
  fun_induction freezeAll h work with
  | case1 h => rw [List.map_nil, freezeAll]
  | case2 h items rest ih => rw [ih, List.map_append, List.map_cons, Value.blurred_tuple, freezeAll]
  | case3 h v rest hv hnone ih =>
    rw [ih, List.map_cons, freezeAll, Value.ref?_blurred, hnone]
    intro items he
    obtain ⟨parts, rfl⟩ := Value.exists_tuple_of_blurred he
    exact hv parts rfl
  | case4 h v rest hv s r hsome hc ih =>
    have hblurred : r.index < (h.blurred.shelf s).size ∧ (h.blurred.cell r).isFrozen = false := by
      simpa using hc
    rw [ih, List.map_cons, List.map_append, freezeAll_cons (p := ⟨s, r⟩) (by simpa using hsome)
      hblurred.1 hblurred.2, put_blurred, cell_blurred, Cell.freeze_blurred, Cell.values_blurred]
  | case5 h v rest hv s r hsome hc ih =>
    rw [ih, List.map_cons, freezeAll, Value.ref?_blurred, hsome]
    · simp only [size_shelf_blurred, cell_blurred, Cell.isFrozen_blurred]
      rw [dif_neg hc]
    · intro items he
      obtain ⟨parts, rfl⟩ := Value.exists_tuple_of_blurred he
      exact hv parts rfl

end Heap

/-! ## Reading -/

@[simp] theorem Scalar.blurred_toValue (kind : Kind) (s : Scalar) :
    (s.toValue kind).blurred = s.toValue kind := by
  cases s with
  | bytes b => rcases hb : ofUtf8? b with _ | t <;> simp [toValue, hb, Value.blurred]
  | enumNumber n => cases kind <;> rfl
  | _ => rfl

@[simp] theorem MapKey.blurred_toValue (k : MapKey) : k.toValue.blurred = k.toValue := by
  cases k <;> rfl

namespace Heap

/-- What is given by a step on the heap, with the switch blurred. -/
def blurredStep {α β : Type} (k : α → β) (r : α × Heap) : β × Heap := (k r.1, r.2.blurred)

theorem newMessage_blurred (h : Heap) (m : Message) (config : Config) :
    h.blurred.newMessage m config.blurred = blurredStep Value.blurred (h.newMessage m config) := by
  unfold newMessage blurredStep
  rw [fresh_blurred, alloc_blurred]
  rfl

theorem newList_blurred (h : Heap) (items : List Value) :
    h.blurred.newList (items.map Value.blurred) = blurredStep Value.blurred (h.newList items) := by
  unfold newList blurredStep
  rw [fresh_blurred, alloc_blurred]
  rfl

theorem newDict_blurred (h : Heap) (entries : List (Value × Value)) :
    h.blurred.newDict (entries.map Value.blurredEntry) =
      blurredStep Value.blurred (h.newDict entries) := by
  unfold newDict blurredStep
  rw [fresh_blurred, alloc_blurred]
  rfl

variable (kind : Kind) (config : Config)

mutual

/-- **What a field holds** is read alike, whatever the switch. -/
theorem adopt_blurred (h : Heap) (s : Stored) :
    h.blurred.adopt kind config.blurred s = blurredStep Value.blurred (h.adopt kind config s) := by
  cases s with
  | scalar s => simp [adopt, blurredStep]
  | message m => rw [adopt, adopt, newMessage_blurred]
  | list items =>
    rw [adopt, adopt, adoptItems_blurred h items]
    exact newList_blurred _ _
  | map entries =>
    rw [adopt, adopt, adoptEntries_blurred h entries]
    exact newDict_blurred _ _

theorem adoptItems_blurred (h : Heap) (items : List Stored) :
    h.blurred.adoptItems kind config.blurred items =
      blurredStep (List.map Value.blurred) (h.adoptItems kind config items) := by
  cases items with
  | nil => rfl
  | cons item rest =>
    rw [adoptItems, adoptItems, adopt_blurred h item]
    dsimp only [blurredStep]
    rw [adoptItems_blurred _ rest]
    rfl

theorem adoptEntries_blurred (h : Heap) (entries : List (MapKey × Stored)) :
    h.blurred.adoptEntries kind config.blurred entries =
      blurredStep (List.map Value.blurredEntry) (h.adoptEntries kind config entries) := by
  cases entries with
  | nil => rfl
  | cons e rest =>
    obtain ⟨key, value⟩ := e
    rw [adoptEntries, adoptEntries, adopt_blurred h value]
    dsimp only [blurredStep]
    rw [adoptEntries_blurred _ rest]
    simp [blurredStep, Value.blurredEntry]

end

end Heap

end Protoscript
