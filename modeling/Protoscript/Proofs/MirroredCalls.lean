import Protoscript.Proofs.Lookups
import Protoscript.Proofs.Mirroring
import Protoscript.Proofs.Reachable

/-!
# Messages and calls that do not see the legacy switch

Reading and writing a field look at the switch only if the field is of the older edition. In a pool all
files of which are of the newer one there is no such field.

* `Heap.IgnoresSwitch` — whether the switch makes no difference for any field that a heap knows;
* `Script.messageAttr_mirrors`, `Script.setField_mirrors` — reading and writing;
* `Script.callFunction_mirrors` — the functions of the `proto` library;
* `Pool.IsProto3` — whether all files of a pool are of the newer edition, and
  `Heap.Typed.ignoresSwitch` — what this means for the heaps of its runs;
* `Script.construct_mirrors` — constructors.
-/

namespace Protoscript

@[simp] theorem lookupName_blurred (name : String) (views : List (String × Value)) :
    lookupName name (views.map Value.blurredNamed) = (lookupName name views).map Value.blurred := by
  unfold lookupName
  rw [List.find?_map, Option.map_map, Option.map_map]
  rfl

/-- Whether the legacy switch makes no difference for any field that a heap knows. -/
structure Heap.IgnoresSwitch (h : Heap) : Prop where
  /-- the fields of messages -/
  messages : ∀ (r : Ref .message) (name : String) (f : FieldDescriptor),
    (h.cell r).content.descriptor.field? name = some f → f.IgnoresSwitch (h.cell r).config
  /-- the fields that are viewed as maps -/
  maps : ∀ r : Ref .map, (h.cell r).field.IgnoresSwitch (h.cell r).config

namespace Script

variable {h : Heap}

/-! ## Messages -/

theorem newMessage_mirrors (m : Message) (config : Config) (h : Heap) :
    Mirrors Value.blurred h (newMessage m config) (newMessage m config.blurred) :=
  .modifyGet (r := (·.newMessage m config)) (h.newMessage_blurred m config)

theorem contents_mirrors (r : Ref .message) (h : Heap) : Mirrors id h (contents r) (contents r) :=
  .reading (h.contents_blurred r)

theorem freeze_mirrors (v : Value) (h : Heap) : Mirrors id h (freeze v) (freeze v.blurred) := by
  unfold Mirrors freeze
  rw [run_modify, run_modify]
  exact Prod.ext rfl (h.freezeAll_blurred [v]).symm

section

variable {f : FieldDescriptor} {config : Config} (hf : f.IgnoresSwitch config)

include hf

/-- **A field is read** alike if the switch makes no difference for it. -/
theorem readField_mirrors (m : Message) (h : Heap) :
    Mirrors Value.blurred h (readField m f config) (readField m f config.blurred) := by
  unfold readField
  split
  · have finish (es : List (Value × Value)) (h : Heap) : Mirrors Value.blurred h
        (do return .map (← newMap { field := f, entries := es, config := config }))
        (do return .map (← newMap
          { field := f, entries := es.map Value.blurredEntry, config := config.blurred })) :=
      .bind (newMap_mirrors h { field := f, entries := es, config := config }) fun _ _ _ => .pure rfl
    split
    · exact .bind (.modifyGet (h.adoptEntries_blurred _ config _)) fun es mid _ => finish es mid
    · exact finish [] h
  split
  · have finish (vs : List Value) (h : Heap) : Mirrors Value.blurred h
        (do return .repeated (← newRepeated { field := f, items := vs, config := config }))
        (do return .repeated (← newRepeated
          { field := f, items := vs.map Value.blurred, config := config.blurred })) :=
      .bind (newRepeated_mirrors h { field := f, items := vs, config := config }) fun _ _ _ => .pure rfl
    split
    · exact .bind (.modifyGet (h.adoptItems_blurred _ config _)) fun vs mid _ => finish vs mid
    · exact finish [] h
  rw [hf]
  split
  · exact .pure rfl
  · exact .modifyGet (h.adopt_blurred _ config _)

theorem scalarFor_mirrors (v : Value) (h : Heap) :
    Mirrors id h (scalarFor f v config) (scalarFor f v.blurred config.blurred) := by
  have stored (v : Value) : Mirrors id h
      (do return some (← reading (·.toStored f.kind v config)))
      (do return some (← reading (·.toStored f.kind v.blurred config.blurred))) :=
    .bind_reading (h.toStored_blurred f.kind v config) fun s _ => .pure rfl
  cases v with
  | absent =>
    simp only [Value.blurred, scalarFor]
    rw [hf]
    split
    · exact .pure rfl
    · exact .throw rfl
  | tuple items => exact stored (.tuple items)
  | _ => exact stored _

theorem storedFor_mirrors (v : Value) (h : Heap) :
    Mirrors id h (storedFor f v config) (storedFor f v.blurred config.blurred) := by
  have map (v : Value) : Mirrors id h (do
      let view ← mapOf f v config
      return some (← reading (·.mapContents view))) (do
      let view ← mapOf f v.blurred config.blurred
      return some (← reading (·.mapContents view))) :=
    .bind (mapOf_mirrors hf v h) fun q mid _ =>
      .bind_reading (mid.mapContents_blurred q) fun s _ => .pure rfl
  have list (v : Value) : Mirrors id h (do
      let view ← repeatedOf f v config
      return some (← reading (·.repeatedContents view))) (do
      let view ← repeatedOf f v.blurred config.blurred
      return some (← reading (·.repeatedContents view))) :=
    .bind (repeatedOf_mirrors v h f config) fun q mid _ =>
      .bind_reading (mid.repeatedContents_blurred q) fun s _ => .pure rfl
  unfold storedFor
  split
  · cases v with
    | absent => exact .throw rfl
    | tuple items => exact map (.tuple items)
    | _ => exact map _
  split
  · cases v with
    | absent => exact .throw rfl
    | tuple items => exact list (.tuple items)
    | _ => exact list _
  · exact scalarFor_mirrors hf v h

end

/-- **An attribute is read** alike. -/
theorem messageAttr_mirrors {r : Ref .message} (name : String)
    (hr : ∀ f, (h.cell r).content.descriptor.field? name = some f → f.IgnoresSwitch (h.cell r).config) :
    Mirrors (Option.map Value.blurred) h (messageAttr r name) (messageAttr r name) := by
  have keep (v : Value) (mid : Heap) : Mirrors (Option.map Value.blurred) mid (do
      let c ← cell r
      put r { c with views := c.views ++ [(name, v)] }
      return some v) (do
      let c ← cell r
      put r { c with views := c.views ++ [(name, v.blurred)] }
      return some v.blurred) := by
    refine .bind_cell (.bind (k := id) (.put ?_) fun _ _ _ => .pure rfl)
    simp [Cell.blurred, Value.blurredNamed]
  refine .bind_cell ?_
  dsimp only [Cell.blurred]
  rw [lookupName_blurred]
  cases lookupName name (h.cell r).views with
  | some v => exact .pure rfl
  | none =>
    dsimp only [Option.map_none]
    cases hf : (h.cell r).content.descriptor.field? name with
    | none => exact .pure rfl
    | some f =>
      refine .bind (readField_mirrors (hr f hf) _ h) fun v mid _ => ?_
      split
      · exact .bind (freeze_mirrors v mid) fun _ mid' _ => keep v mid'
      · exact keep v mid

/-- **A field is written** alike. -/
theorem setField_mirrors {r : Ref .message} {name : String}
    (hr : ∀ f, (h.cell r).content.descriptor.field? name = some f → f.IgnoresSwitch (h.cell r).config)
    (v : Value) : Mirrors id h (setField r name v) (setField r name v.blurred) := by
  refine .bind_cell (.bind_checkMutable fun _ => ?_)
  dsimp only [Cell.blurred]
  cases hf : (h.cell r).content.descriptor.field? name with
  | none => exact .throw rfl
  | some f =>
    have hkept : keptViews f ((h.cell r).views.map Value.blurredNamed) =
        (keptViews f (h.cell r).views).map Value.blurredNamed := by
      unfold keptViews
      rw [List.filter_map]
      rfl
    refine .bind (storedFor_mirrors (hr f hf) v h) fun stored mid _ => .put ?_
    rw [hkept]
    rfl

section

variable (r : Ref .message) (h : Heap)

theorem replace_mirrors (m : Message) : Mirrors id h (replace r m) (replace r m) :=
  .bind_cell (.put rfl)

theorem clearMessage_mirrors : Mirrors id h (clearMessage r) (clearMessage r) :=
  .bind_cell (.bind_checkMutable fun _ => replace_mirrors r h _)

theorem fillDefaults_mirrors : Mirrors id h (fillDefaults r) (fillDefaults r) :=
  .bind_cell (.bind_checkMutable fun _ => .bind (contents_mirrors r h) fun _ mid _ =>
    replace_mirrors r mid _)

theorem mergeMessage_mirrors (src : Ref .message) :
    Mirrors id h (mergeMessage r src) (mergeMessage r src) := by
  refine .bind_cell (.bind_checkMutable fun _ => .bind_get ?_)
  rw [Heap.fullName_blurred, Heap.fullName_blurred]
  split
  · exact .throw rfl
  · exact .bind (contents_mirrors src h) fun incoming mid _ =>
      .bind (contents_mirrors r mid) fun old mid' _ => replace_mirrors r mid' _

theorem cloneMessage_mirrors : Mirrors Value.blurred h (cloneMessage r) (cloneMessage r) :=
  .bind (contents_mirrors r h) fun m mid _ => .bind_cell (newMessage_mirrors m _ mid)

end

end Script

/-! ## Types -/

/-- A type with the switch blurred. -/
def TypeHandle.blurred : TypeHandle → TypeHandle
  | .message t => .message t.blurred
  | .enum d => .enum d

theorem TypeHandle.toValue_blurred (t : TypeHandle) : t.blurred.toValue = t.toValue.blurred := by
  cases t <;> rfl

/-- A named type with the switch blurred. -/
def TypeHandle.blurredNamed (e : String × TypeHandle) : String × TypeHandle := (e.1, e.2.blurred)

theorem TypeHandle.lookupName_blurred (name : String) (types : List (String × TypeHandle)) :
    lookupName name (types.map blurredNamed) = (lookupName name types).map blurred := by
  unfold lookupName
  rw [List.find?_map, Option.map_map, Option.map_map]
  rfl

theorem MessageType.nested_blurred (t : MessageType) :
    t.blurred.nested = t.nested.map TypeHandle.blurredNamed := by
  simp only [nested, List.map_append, List.map_map]
  rfl

theorem Loader.messageType_blurred (l : Loader) (fullName : String) :
    l.blurred.messageType fullName = Except.blurred MessageType.blurred (l.messageType fullName) := by
  rw [messageType_eq, messageType_eq]
  dsimp only [Loader.blurred]
  cases l.pool.message? fullName <;> rfl

theorem Loader.enumType_blurred (l : Loader) (fullName : String) :
    l.blurred.enumType fullName = Except.blurred id (l.enumType fullName) := by
  rw [enumType_eq, enumType_eq]
  dsimp only [Loader.blurred]
  cases l.pool.enum? fullName <;> rfl

theorem Package.members_blurred (p : Package) :
    p.blurred.members = Except.blurred (List.map TypeHandle.blurredNamed) p.members := by
  rw [members_eq, members_eq]
  have hmessages : (p.loader.topMessages p.name).mapM (fun d => do
        return (d.name, TypeHandle.message (← p.loader.blurred.messageType d.fullName))) =
      Except.blurred (List.map TypeHandle.blurredNamed) ((p.loader.topMessages p.name).mapM fun d => do
        return (d.name, TypeHandle.message (← p.loader.messageType d.fullName))) := by
    refine (congrArg (List.mapM _) (List.map_id _).symm).trans (Except.mapM_blurred fun d _ => ?_)
    rw [Loader.messageType_blurred]
    exact Except.blurred_bind fun t _ => rfl
  have henums : (p.loader.topEnums p.name).mapM (fun d => do
        return (d.name, TypeHandle.enum (← p.loader.blurred.enumType d.fullName))) =
      Except.blurred (List.map TypeHandle.blurredNamed) ((p.loader.topEnums p.name).mapM fun d => do
        return (d.name, TypeHandle.enum (← p.loader.enumType d.fullName))) := by
    refine (congrArg (List.mapM _) (List.map_id _).symm).trans (Except.mapM_blurred fun d _ => ?_)
    rw [Loader.enumType_blurred]
    exact Except.blurred_bind fun e _ => rfl
  refine (congrArg (· >>= _) hmessages).trans (Except.blurred_bind fun messages _ => ?_)
  refine (congrArg (· >>= _) henums).trans (Except.blurred_bind fun enums _ => ?_)
  exact congrArg Except.ok List.map_append.symm

theorem Loader.package_blurred (l : Loader) (name : String) :
    l.blurred.package name = Except.blurred Package.blurred (l.package name) := by
  rw [package_eq, package_eq]
  exact (congrArg (· >>= _) (Package.members_blurred ⟨l, name⟩)).trans (Except.blurred_bind fun _ _ => rfl)

theorem Package.member_blurred (p : Package) (name : String) :
    p.blurred.member name = Except.blurred Value.blurred (p.member name) := by
  unfold member
  rw [members_blurred]
  refine Except.blurred_bind fun types _ => ?_
  rw [TypeHandle.lookupName_blurred]
  cases lookupName name types with
  | none => rfl
  | some t => exact congrArg Except.ok t.toValue_blurred

theorem EnumDescriptor.value_blurred (d : EnumDescriptor) (name : String) :
    d.value name = Except.blurred Value.blurred (d.value name) := by
  unfold value
  cases d.numberOf? name <;> rfl

namespace Script

variable {h : Heap}

/-! ## Functions of the library -/

section

variable (callee param : String) (v : Value) (h : Heap)

theorem messageArgument_mirrors :
    Mirrors id h (messageArgument callee param v) (messageArgument callee param v.blurred) := by
  have refused := h.typeName_blurred v
  cases v with
  | message r => exact .pure rfl
  | _ => exact .bind_get (.throw (by rw [refused]; rfl))

theorem typeArgument_mirrors : Mirrors MessageType.blurred h (typeArgument callee param v)
    (typeArgument callee param v.blurred) := by
  have refused := h.typeName_blurred v
  cases v with
  | messageType t => exact .pure rfl
  | _ => exact .bind_get (.throw (by rw [refused]; rfl))

theorem textArgument_mirrors :
    Mirrors id h (textArgument callee param v) (textArgument callee param v.blurred) := by
  have refused := h.typeName_blurred v
  cases v with
  | text s => exact .pure rfl
  | _ => exact .bind_get (.throw (by rw [refused]; rfl))

theorem flagArgument_mirrors (v : Option Value) :
    Mirrors id h (flagArgument callee param v) (flagArgument callee param (v.map Value.blurred)) := by
  cases v with
  | none => exact .pure rfl
  | some v =>
    have refused := h.typeName_blurred v
    cases v with
    | bool b => exact .pure rfl
    | _ => exact .bind_get (.throw (by rw [refused]; rfl))

end

theorem jsonOf_mirrors (m : Message) (h : Heap) : Mirrors id h (jsonOf m) (jsonOf m) := by
  unfold jsonOf
  split
  · exact .pure rfl
  · exact .throw rfl

theorem messageOfJson_mirrors (t : MessageType) (j : Json) (h : Heap) :
    Mirrors Value.blurred h (messageOfJson t j) (messageOfJson t.blurred j) := by
  unfold messageOfJson
  dsimp only [MessageType.blurred]
  split
  · exact newMessage_mirrors _ _ h
  · exact .throw rfl

theorem pack_blurred (m : Message) (config : Config) :
    m.pack config.blurred = Except.blurred id (m.pack config) := by
  unfold Message.pack
  split <;> rfl

theorem unpack_blurred (m : Message) (p : Pool) : m.unpack p = Except.blurred id (m.unpack p) := by
  unfold Message.unpack
  split
  · rfl
  · split
    · rfl
    · split <;> rfl

theorem callFunction_mirrors (library : Library) (f : Function) (args : List Value) (keywords : Keywords)
    (h : Heap) : Mirrors Value.blurred h (callFunction library f args keywords)
      (callFunction library.blurred f (args.map Value.blurred) (keywords.map Value.blurredNamed)) := by
  -- the functions take their arguments apart in three ways
  have single (callee : String) : Mirrors id h (do
      let bound ← ofExcept (bindArguments callee args keywords ["msg"] 1)
      messageArgument callee "msg" (bound.value 0)) (do
      let bound ← ofExcept (bindArguments callee (args.map Value.blurred)
        (keywords.map Value.blurredNamed) ["msg"] 1)
      messageArgument callee "msg" (bound.value 0)) := by
    refine .bind_bound fun b => ?_
    rw [b.value_blurred]
    exact messageArgument_mirrors _ _ _ h
  have written (callee : String) : Mirrors id h (do
      let bound ← ofExcept (bindArguments callee args keywords ["msg", "compact"] 1)
      let r ← messageArgument callee "msg" (bound.value 0)
      return (r, ← flagArgument callee "compact" (bound.value? 1))) (do
      let bound ← ofExcept (bindArguments callee (args.map Value.blurred)
        (keywords.map Value.blurredNamed) ["msg", "compact"] 1)
      let r ← messageArgument callee "msg" (bound.value 0)
      return (r, ← flagArgument callee "compact" (bound.value? 1))) := by
    refine .bind_bound fun b => ?_
    rw [b.value_blurred, b.value?_blurred]
    exact .bind (messageArgument_mirrors _ _ _ h) fun r mid _ =>
      .bind (flagArgument_mirrors _ _ mid _) fun compact _ _ => .pure rfl
  have read (callee : String) : Mirrors (fun x => (x.1.blurred, x.2)) h (do
      let bound ← ofExcept (bindArguments callee args keywords ["type", "value"] 2)
      let t ← typeArgument callee "type" (bound.value 0)
      return (t, ← textArgument callee "value" (bound.value 1))) (do
      let bound ← ofExcept (bindArguments callee (args.map Value.blurred)
        (keywords.map Value.blurredNamed) ["type", "value"] 2)
      let t ← typeArgument callee "type" (bound.value 0)
      return (t, ← textArgument callee "value" (bound.value 1))) := by
    refine .bind_bound fun b => ?_
    rw [b.value_blurred, b.value_blurred]
    exact .bind (typeArgument_mirrors _ _ _ h) fun t mid _ =>
      .bind (textArgument_mirrors _ _ _ mid) fun s _ _ => .pure rfl
  unfold callFunction
  cases f with
  | package =>
    refine .bind_bound fun b => ?_
    rw [b.value_blurred]
    exact .bind (textArgument_mirrors _ _ _ h) fun name mid _ =>
      .bind (.ofExcept (library.loader.package_blurred name)) fun p _ _ => .pure rfl
  | clear => exact .bind (single _) fun r mid _ => (clearMessage_mirrors r mid).ignore
  | clone => exact .bind (single _) fun r mid _ => cloneMessage_mirrors r mid
  | merge =>
    refine .bind_bound fun b => ?_
    rw [b.value_blurred, b.value_blurred]
    exact .bind (messageArgument_mirrors _ _ _ h) fun dst mid _ =>
      .bind (messageArgument_mirrors _ _ _ mid) fun src mid' _ => (mergeMessage_mirrors dst mid' src).ignore
  | setDefaults => exact .bind (single _) fun r mid _ => (fillDefaults_mirrors r mid).ignore
  | encodeAny =>
    exact .bind (single _) fun r mid _ => .bind_cell (.bind (contents_mirrors r mid) fun m mid' _ =>
      .bind (.ofExcept (pack_blurred m _)) fun n last _ => newMessage_mirrors n _ last)
  | decodeAny =>
    refine .bind_bound fun b => ?_
    rw [b.value_blurred]
    exact .bind (messageArgument_mirrors _ _ _ h) fun r mid _ => .bind_cell (.bind (contents_mirrors r mid)
      fun m mid' _ => .bind (.ofExcept (unpack_blurred m _)) fun n last _ => newMessage_mirrors n _ last)
  | encodeJson =>
    refine .bind (written _) fun x mid _ => ?_
    obtain ⟨r, compact⟩ := x
    refine .bind (contents_mirrors r mid) fun m mid' _ => .bind (jsonOf_mirrors m mid') fun j last _ => ?_
    cases compact with
    | true => exact .pure rfl
    | false => exact .bind_cell (.pure rfl)
  | decodeJson =>
    refine .bind (read _) fun x mid _ => ?_
    unfold decodeJson
    dsimp only
    split
    · exact messageOfJson_mirrors _ _ mid
    · exact .throw rfl
  | encodeText =>
    exact .bind (written _) fun x mid _ => .bind (contents_mirrors x.1 mid) fun m _ _ => .pure rfl
  | decodeText =>
    refine .bind (read _) fun x mid _ => ?_
    unfold decodeText
    dsimp only [MessageType.blurred]
    split
    · exact newMessage_mirrors _ _ mid
    · exact .throw rfl
  | encodeYaml =>
    exact .bind (single _) fun r mid _ => .bind (contents_mirrors r mid) fun m mid' _ =>
      .bind (jsonOf_mirrors m mid') fun j _ _ => .pure rfl
  | decodeYaml =>
    refine .bind (read _) fun x mid _ => ?_
    unfold decodeYaml
    dsimp only
    split
    · exact messageOfJson_mirrors _ _ mid
    · exact .throw rfl

/-! ## Attributes and elements -/

theorem newId_mirrors (h : Heap) : Mirrors id h newId newId := rfl

/-- **Attributes** are read alike. -/
theorem attr_mirrors (hh : h.IgnoresSwitch) (v : Value) (name : String) :
    Mirrors (Option.map Value.blurred) h (attr v name) (attr v.blurred name) := by
  -- methods are bound to a new number, which the switch does not reach
  have bound (r : Nat → String → Value) (hr : ∀ id receiver, (r id receiver).blurred = r id receiver)
      (v : Value) : Mirrors (Option.map Value.blurred) h
        (do return some (r (← newId) ((← get).typeName v)))
        (do return some (r (← newId) ((← get).typeName v.blurred))) :=
    .bind (newId_mirrors h) fun id mid _ => .bind_get (.pure (by simp [hr]))
  cases v with
  | message r => exact messageAttr_mirrors name fun f hf => hh.messages r name f hf
  | «repeated» r =>
    simp only [Value.blurred, attr]
    split
    · exact .pure rfl
    · exact bound (fun id receiver => .callable (.repeated id receiver r _)) (fun _ _ => rfl) (.repeated r)
  | map r =>
    simp only [Value.blurred, attr]
    split
    · exact .pure rfl
    · exact bound (fun id receiver => .callable (.map id receiver r _)) (fun _ _ => rfl) (.map r)
  | messageType t =>
    refine .pure ?_
    rw [MessageType.nested_blurred, TypeHandle.lookupName_blurred, Option.map_map, Option.map_map]
    exact congrArg (Option.map · _) (funext fun t => t.toValue_blurred.symm)
  | enumType d => exact .bind (.ofExcept (d.value_blurred name)) fun v _ _ => .pure rfl
  | package p => exact .bind (.ofExcept (p.member_blurred name)) fun v _ _ => .pure rfl
  | library l =>
    refine .pure ?_
    cases Function.ofName? name <;> rfl
  | enum e =>
    simp only [Value.blurred, attr]
    split
    · exact .pure rfl
    · split
      · exact .pure rfl
      · exact .pure rfl
  | _ => exact .pure rfl

theorem assignField_mirrors (hh : h.IgnoresSwitch) (v : Value) (name : String) (value : Value) :
    Mirrors id h (assignField v name value) (assignField v.blurred name value.blurred) := by
  have refused := h.typeName_blurred v
  cases v with
  | message r => exact setField_mirrors (fun f hf => hh.messages r name f hf) value
  | _ => exact .bind_get (.throw (by rw [refused]; rfl))

section

variable (v key : Value) (h : Heap)

theorem indexOperand_mirrors :
    Mirrors id h (indexOperand v key) (indexOperand v.blurred key.blurred) := by
  have refused := h.unsupportedFor_blurred "[]" v key
  cases key with
  | int n => exact .pure rfl
  | _ => exact .bind_get (.throw refused.symm)

theorem itemAt_mirrors (items : List Value) : Mirrors Value.blurred h (itemAt v key items)
    (itemAt v.blurred key.blurred (items.map Value.blurred)) := by
  refine .bind (indexOperand_mirrors v key h) fun n mid _ => ?_
  rw [List.length_map]
  exact .bind (resolveIndex_mirrors n _ mid) fun i _ _ => .pure (List.getD_map ..).symm

theorem hash_mirrors : Mirrors id h (hash v) (hash v.blurred) := .reading (h.hashBytes_blurred v)

theorem dictGet_mirrors (r : Ref .dict) :
    Mirrors (Option.map Value.blurred) h (dictGet r key) (dictGet r key.blurred) := by
  refine .bind (hash_mirrors key h) fun _ mid _ => .bind_get (.pure ?_)
  rw [Heap.cell_blurred]
  exact (mid.lookup?_blurred key _).symm

theorem dictInsert_mirrors (r : Ref .dict) :
    Mirrors id h (dictInsert r key v) (dictInsert r key.blurred v.blurred) := by
  refine .bind_cell (.bind_checkMutable fun _ => .bind (hash_mirrors key h) fun _ mid _ => .bind_get ?_)
  rw [show (Cell.blurred (h.cell r)).entries = (h.cell r).entries.map Value.blurredEntry from rfl,
    Heap.findKey?_blurred]
  cases mid.findKey? key (h.cell r).entries with
  | some i => exact .put (by simp [Cell.blurred, Heap.setValueAt_blurred])
  | none => exact .put (by simp [Cell.blurred, Value.blurredEntry])

theorem dictRemove_mirrors (r : Ref .dict) :
    Mirrors (Option.map Value.blurred) h (dictRemove r key) (dictRemove r key.blurred) := by
  refine .bind_cell (.bind_checkMutable fun _ => .bind_get ?_)
  rw [show (Cell.blurred (h.cell r)).entries = (h.cell r).entries.map Value.blurredEntry from rfl,
    Heap.findKey?_blurred]
  cases h.findKey? key (h.cell r).entries with
  | none => exact .pure rfl
  | some i =>
    refine .bind (k := id) (.put (by simp [Cell.blurred, List.eraseIdx_map])) fun _ _ _ => .pure ?_
    rw [List.getElem?_map]
    cases (h.cell r).entries[i]? <;> rfl

theorem push_mirrors (r : Ref .list) : Mirrors id h (push r v) (push r v.blurred) :=
  .bind_cell (.bind_checkMutable fun _ => .put (by simp [Cell.blurred]))

theorem setItem_mirrors (r : Ref .list) (position : Nat) :
    Mirrors id h (setItem r position v) (setItem r position v.blurred) := by
  refine .bind_cell (.bind_checkMutable fun _ => ?_)
  rw [show (Cell.blurred (h.cell r)).items = (h.cell r).items.map Value.blurred from rfl, List.length_map]
  split
  · exact .put (by simp [Cell.blurred, List.map_set])
  · exact .throw rfl

end

theorem index_mirrors (v key : Value) (h : Heap) :
    Mirrors Value.blurred h (index v key) (index v.blurred key.blurred) := by
  have refused := h.unsupportedFor_blurred "[]" v key
  cases v with
  | tuple items =>
    have hitem := itemAt_mirrors (.tuple items) key h items
    rw [Value.blurred_tuple] at hitem ⊢
    exact hitem
  | list r => exact .bind_cell (itemAt_mirrors (.list r) key h _)
  | «repeated» r => exact .bind_cell (itemAt_mirrors (.repeated r) key h _)
  | dict r =>
    refine .bind (dictGet_mirrors key h r) fun found mid _ => ?_
    cases found with
    | none => exact .throw rfl
    | some v => exact .pure rfl
  | map r => exact mapIndex_mirrors r h key
  | _ => exact .bind_get (.throw refused.symm)

theorem setIndex_mirrors (hh : h.IgnoresSwitch) (v key value : Value) :
    Mirrors id h (setIndex v key value) (setIndex v.blurred key.blurred value.blurred) := by
  have refused := h.unsupportedFor_blurred "[]=" v key
  cases v with
  | list r =>
    refine .bind (indexOperand_mirrors (.list r) key h) fun n mid _ => .bind_cell ?_
    rw [show (Cell.blurred (mid.cell r)).items = (mid.cell r).items.map Value.blurred from rfl,
      List.length_map]
    exact .bind (resolveIndex_mirrors n _ mid) fun i mid' _ => setItem_mirrors value mid' r i
  | «repeated» r =>
    exact .bind (indexOperand_mirrors (.repeated r) key h) fun n mid _ => setAt_mirrors r value mid n
  | dict r => exact dictInsert_mirrors value key h r
  | map r => exact mapSet_mirrors r h (hh.maps r) key value
  | _ => exact .bind_get (.throw refused.symm)

theorem sliceOf_map {α β : Type} (k : α → β) (start stop : Option Int) (items : List α) :
    sliceOf start stop (items.map k) = (sliceOf start stop items).map k := by
  unfold sliceOf
  rw [List.length_map, List.map_take, List.map_drop]

theorem slice_mirrors (v : Value) (start stop : Option Int) (h : Heap) :
    Mirrors Value.blurred h (slice v start stop) (slice v.blurred start stop) := by
  have refused := h.unsupported_blurred "slice" v
  have part (items : List Value) : Mirrors Value.blurred h (newList (sliceOf start stop items))
      (newList (sliceOf start stop (items.map Value.blurred))) := by
    rw [sliceOf_map]
    exact newList_mirrors _ h
  cases v with
  | tuple items => exact .pure (by simp [sliceOf_map])
  | list r => exact .bind_cell (part _)
  | «repeated» r => exact .bind_cell (part _)
  | _ => exact .bind_get (.throw refused.symm)

/-! ## Sums and calls -/

theorem add_mirrors (a b : Value) (h : Heap) :
    Mirrors Value.blurred h (add a b) (add a.blurred b.blurred) := by
  have refused : Mirrors Value.blurred h (do throw ((← get).unsupportedFor "+" a b) : Script Value)
      (do throw ((← get).unsupportedFor "+" a.blurred b.blurred)) :=
    .bind_get (.throw (h.unsupportedFor_blurred "+" a b).symm)
  have joined (r : Ref .list) : Mirrors Value.blurred h
      (do newList ((← cell r).items ++ (← reading (·.iterate b))))
      (do newList ((← cell r).items ++ (← reading (·.iterate b.blurred)))) := by
    refine .bind_cell (.bind_reading (h.iterate_blurred b) fun items _ => ?_)
    rw [show (Cell.blurred (h.cell r)).items = (h.cell r).items.map Value.blurred from rfl,
      ← List.map_append]
    exact newList_mirrors _ h
  cases a <;> cases b
  case int.int m n =>
    simp only [Value.blurred, add]
    split
    · exact .pure rfl
    · exact refused
  case float.float | int.float | float.int | text.text | bytes.bytes => exact .pure rfl
  case tuple.tuple s t => exact .pure (by simp [Value.blurred])
  case repeated.list r s => exact concat_mirrors r (.list s) h
  case repeated.repeated r s => exact concat_mirrors r (.repeated s) h
  case list.list r s => exact joined r
  case list.repeated r s => exact joined r
  all_goals exact refused

/-- **A loop** does alike what its body does, on all heaps that the body keeps. -/
theorem Mirrors.forIn {α β : Type} {k : α → β} {I : Heap → Prop} {xs : List α}
    {f : α → PUnit → Script (ForInStep PUnit)} {g : β → PUnit → Script (ForInStep PUnit)}
    (hf : ∀ x ∈ xs, ∀ u h, I h → Mirrors id h (f x u) (g (k x) u))
    (hI : ∀ x ∈ xs, ∀ u, Keeps I (f x u)) (u : PUnit) (hh : I h) :
    Mirrors id h (forIn xs u f) (forIn (xs.map k) u g) := by
  induction xs generalizing h u with
  | nil =>
    rw [List.map_nil, List.forIn_nil, List.forIn_nil]
    exact .pure rfl
  | cons x rest ih =>
    rw [List.map_cons, List.forIn_cons, List.forIn_cons]
    refine .bind (hf x List.mem_cons_self u h hh) fun step mid hrun => ?_
    have hmid : I mid := by
      have := hI x List.mem_cons_self u h hh
      rwa [hrun] at this
    cases step with
    | done v => exact .pure rfl
    | yield v =>
      exact ih (fun y hy => hf y (List.mem_cons_of_mem _ hy)) (fun y hy => hI y (List.mem_cons_of_mem _ hy))
        v hmid

/-- A new dict. -/
theorem dictOf_mirrors (entries : List (Value × Value)) (h : Heap) :
    Mirrors Value.blurred h (dictOf entries) (dictOf (entries.map Value.blurredEntry)) := by
  refine .bind_get ?_
  have hset : Mirrors id h (set (h.alloc .dict {})) (set (h.blurred.alloc .dict {})) :=
    Prod.ext rfl (h.alloc_blurred (s := .dict) {}).symm
  refine .bind hset fun _ mid _ => ?_
  rw [Heap.fresh_blurred]
  refine .bind (k := id) (.forIn (I := fun _ => True) (fun e _ u g _ => ?_) (fun _ _ _ _ _ => trivial) _ trivial)
    fun _ _ _ => .pure rfl
  exact .bind (dictInsert_mirrors e.2 e.1 g _) fun _ _ _ => .pure rfl

end Script

/-! ## Pools without legacy types -/

/-- Whether all files of a pool are of the newer edition of the schema language. -/
def Pool.IsProto3 (p : Pool) : Prop := ∀ m ∈ p.messages, m.edition = .proto3

instance (p : Pool) : Decidable p.IsProto3 :=
  inferInstanceAs (Decidable (∀ m ∈ p.messages, m.edition = .proto3))

/-- So it is if the pool was made from such files. -/
theorem Pool.isProto3_ofFiles {p : Pool} {id : Nat} {files : List FileDecl}
    (h : Pool.ofFiles id files = .ok p) (hfiles : ∀ file ∈ files, file.edition = .proto3) : p.IsProto3 := by
  intro m hm
  obtain ⟨file, hfile, hedition⟩ := edition_ofFiles h m hm
  rw [hedition, hfiles file hfile]

section

variable {p : Pool} (hp : p.IsProto3)

include hp

/-- The switch makes no difference for the fields of such a pool. -/
theorem FieldDescriptor.Of.ignoresSwitch {f : FieldDescriptor} (hf : f.Of p) (config : Config) :
    f.IgnoresSwitch config := by
  have hedition : f.message.info.edition = .proto3 := by
    have hdeclared := hf.message.declared
    rw [hf.pool] at hdeclared
    unfold MessageDescriptor.info
    rw [hf.pool, List.getD_eq_getElem _ _ hdeclared]
    exact hp _ (List.getElem_mem hdeclared)
  unfold IgnoresSwitch isLegacy
  rw [hedition, show (Edition.proto3 == Edition.proto2) = false from rfl, Bool.and_false, Bool.and_false]

/-- Nor does it on the heaps of their runs. -/
theorem Heap.Typed.ignoresSwitch {h : Heap} (ht : h.Typed p) : h.IgnoresSwitch where
  messages r name f hf := by
    by_cases hr : h.Has ⟨.message, r⟩
    · have hmem := (MessageDescriptor.field?_eq_some.1 hf).1
      exact (FieldDescriptor.of_mem (ht.message hr).among hmem).ignoresSwitch hp _
    · rw [cell_of_not_has (p := ⟨.message, r⟩) hr]
      rfl
  maps r := by
    by_cases hr : h.Has ⟨.map, r⟩
    · exact (ht.map hr).field.ignoresSwitch hp _
    · rw [cell_of_not_has (p := ⟨.map, r⟩) hr]
      rfl

namespace Script

variable {h : Heap} (ht : h.Typed p) (hc : h.Closed)

include ht hc

/-- **A constructor** sets the fields of a new message alike. -/
theorem construct_mirrors {t : MessageType} (hd : t.descriptor.Among {p}) (args : List Value)
    {keywords : Keywords} (hk : ∀ keyword ∈ keywords, keyword.2.Within h) :
    Mirrors Value.blurred h (construct t args keywords)
      (construct t.blurred (args.map Value.blurred) (keywords.map Value.blurredNamed)) := by
  have hnew := h.not_has_fresh .message
  have hfilling : Filling {p} h (h.fresh .message)
      (h.alloc .message { content := .empty t.descriptor, config := t.config }) :=
    ⟨.single (.message (.empty hd)), h.grows_alloc_message rfl, h.has_fresh_alloc .message _⟩
  unfold construct
  rw [List.isEmpty_map]
  split
  · exact .throw rfl
  refine .bind_get ?_
  rw [Heap.fresh_blurred]
  refine .bind (newMessage_mirrors _ _ h) fun new mid hrun => ?_
  cases hrun
  refine .bind (k := id) (.forIn (I := Filling {p} h (h.fresh .message)) (fun x hx u g hg => ?_)
    (fun x hx u => ?_) _ hfilling) fun _ _ _ => .pure rfl
  · have htyped := (hg.changes.typed ht hc).2
    have hset : Mirrors id g (setField (h.fresh .message) x.1 x.2)
        (setField (h.fresh .message) x.1 x.2.blurred) :=
      setField_mirrors (fun f hf => (htyped.ignoresSwitch hp).messages _ _ f hf) x.2
    dsimp only [Value.blurredNamed]
    rw [show t.blurred.descriptor = t.descriptor from rfl]
    split
    · exact .throw rfl
    · exact hset.ignore
  · exact keeps_given hc hnew (hk x hx)

end Script

end

end Protoscript
