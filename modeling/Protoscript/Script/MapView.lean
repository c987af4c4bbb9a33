import Protoscript.Script.RepeatedView

/-!
# Views of map fields

A view of a map field is a mapping whose keys and values fit the field's types. Under the legacy
rules of proto2 the absent value stands for no entry: writing it removes the key.

* `FieldDescriptor.isLegacy` — whether the legacy rules apply to a field;
* `Heap.commit` — the entries after validated updates;
* `Script.mapSet`, `Script.mapSetDefault`, `Script.mapUpdate`, … — the operations on a view;
* `Script.mapOf` — a view made from a dict or another view;
* `Script.callMap` — the methods of a view.
-/

namespace Protoscript

/-- Whether the legacy rules of proto2 apply to a field. -/
def FieldDescriptor.isLegacy (f : FieldDescriptor) (config : Config) : Bool :=
  config.legacyAbsent && f.message.info.edition == .proto2

/-- Applies validated updates in order: a key with a value is set, one without is removed. -/
def Heap.commit (h : Heap) (entries : List (Value × Value)) :
    List (Value × Option Value) → List (Value × Value)
  | [] => entries
  | (key, value) :: rest =>
    h.commit
      (match h.findKey? key entries, value with
        | some i, some value => setValueAt i value entries
        | none, some value => entries ++ [(key, value)]
        | some i, none => entries.eraseIdx i
        | none, none => entries)
      rest

/-- The pairs that a view is updated with: the entries of a mapping, or the pairs of a sequence. -/
def Heap.pairsOf (h : Heap) (source : Value) : Except Error (List (Value × Value)) :=
  match h.mappingEntries? source with
  | some entries => .ok entries
  | none =>
    match source with
    | .list _ | .tuple _ | .repeated _ =>
      match h.iterate source with
      | .error e => .error e
      | .ok items =>
        items.mapM fun pair =>
          match h.iterate pair with
          | .error e => .error e
          | .ok [key, value] => .ok (key, value)
          | .ok parts =>
            .error (.unsupportedOperation "update"
              ("sequence element of length " ++ toString parts.length))
    | source => .error (h.unsupported "update" source)

namespace Script

/-- A pair in the form that the field's types read back as. -/
def checkPair (c : MapCell) (key value : Value) : Script (Value × Option Value) := do
  let key ← normalize c.field.keyKind key c.config
  match value with
  | .absent =>
    if c.field.isLegacy c.config then return (key, none)
    else throw (.absentRefused c.field.valueKind.name)
  | value => return (key, some (← normalize c.field.valueKind value c.config))

/-- Pairs in the form that the field's types read back as. -/
def checkPairs (c : MapCell) (pairs : List (Value × Value)) :
    Script (List (Value × Option Value)) :=
  pairs.mapM fun p => checkPair c p.1 p.2

/-- Applies validated updates to a view. -/
def commit (r : Ref .map) (updates : List (Value × Option Value)) : Script Unit := do
  let h ← get
  let c := h.cell r
  put r { c with entries := h.commit c.entries updates }

/-- Sets the value of a key. -/
def mapSet (r : Ref .map) (key value : Value) : Script Unit := do
  let c ← cell r
  checkMutable c.frozen "set item of" "map"
  let update ← checkPair c key value
  commit r [update]

/-- The value of a key; if the key is missing, the default is put there first. -/
def mapSetDefault (r : Ref .map) (key fallback : Value) : Script Value := do
  let c ← cell r
  checkMutable c.frozen "set item of" "map"
  match (← get).lookup? key c.entries with
  | some value => return value
  | none =>
    let update ← checkPair c key fallback
    match update.2 with
    | some value =>
      commit r [update]
      return value
    | none => return .absent

/-- Applies the pairs of a source and then keyword arguments, all of them or none. -/
def mapUpdate (r : Ref .map) (source : Option Value) (keywords : Keywords) : Script Unit := do
  let c ← cell r
  checkMutable c.frozen "update" "map"
  let pairs ← match source with
    | none => pure []
    | some source => reading (·.pairsOf source)
  let updates ← checkPairs c (pairs ++ keywords.map fun k => (.text k.1, k.2))
  commit r updates

/-- Removes a key and returns its value, or the default if the key is missing. -/
def mapPop (r : Ref .map) (key : Value) (fallback : Option Value) : Script Value := do
  let c ← cell r
  checkMutable c.frozen "pop from" "map"
  match (← get).findKey? key c.entries, fallback with
  | some i, _ =>
    put r { c with entries := c.entries.eraseIdx i }
    return ((c.entries[i]?).map (·.2)).getD .absent
  | none, some fallback => return fallback
  | none, none => throw (.keyNotFound key)

/-- Removes the first entry and returns it. -/
def mapPopItem (r : Ref .map) : Script Value := do
  let c ← cell r
  checkMutable c.frozen "pop from" "map"
  match c.entries with
  | [] => throw .emptyMap
  | (key, value) :: rest =>
    put r { c with entries := rest }
    return .tuple [key, value]

/-- Removes all entries. -/
def clearMap (r : Ref .map) : Script Unit := do
  let c ← cell r
  checkMutable c.frozen "clear" "map"
  put r { c with entries := [] }

/-- The value of a key. -/
def mapIndex (r : Ref .map) (key : Value) : Script Value := do
  let h ← get
  match h.lookup? key (h.cell r).entries with
  | some value => return value
  | none => throw (.keyNotFound key)

/-- A new view. -/
def newMap (c : MapCell) : Script (Ref .map) := fun h => (.ok (h.fresh .map), h.alloc .map c)

/-- A view made from a dict or view whose entries fit the field. -/
def mapOf (field : FieldDescriptor) (value : Value) (config : Config) : Script (Ref .map) := do
  let c : MapCell := { field := field, config := config }
  if !field.kind.isMessage then throw (.notAMap field.name)
  match (← get).mappingEntries? value with
  | none => throw (.typeMismatch value c.typeName)
  | some entries =>
    let updates ← checkPairs c entries
    newMap { c with entries := (← get).commit [] updates }

/-- Calls a method of a view of a map field. -/
def callMap (r : Ref .map) (receiver : String) (method : MapMethod) (args : List Value)
    (keywords : Keywords) : Script Value := do
  let callee := receiver ++ "." ++ method.name
  let bind (params : List String) (required : Nat) : Script BoundArguments :=
    ofExcept (bindArguments callee args keywords params required)
  match method with
  | .clear =>
    let _ ← bind [] 0
    clearMap r
    return .absent
  | .get =>
    let bound ← bind ["key", "default"] 1
    let h ← get
    match h.lookup? (bound.value 0) (h.cell r).entries with
    | some value => return value
    | none => return bound.value 1
  | .items =>
    let _ ← bind [] 0
    newList ((← cell r).entries.map fun e => .tuple [e.1, e.2])
  | .keys =>
    let _ ← bind [] 0
    newList ((← cell r).entries.map (·.1))
  | .values =>
    let _ ← bind [] 0
    newList ((← cell r).entries.map (·.2))
  | .pop =>
    let bound ← bind ["key", "default"] 1
    mapPop r (bound.value 0) (bound.value? 1)
  | .popitem =>
    let _ ← bind [] 0
    mapPopItem r
  | .setdefault =>
    let bound ← bind ["key", "default"] 1
    mapSetDefault r (bound.value 0) (bound.value 1)
  | .update =>
    if 1 < args.length then throw (.tooManyArguments callee 1 args.length)
    mapUpdate r args.head? keywords
    return .absent

end Script

end Protoscript
