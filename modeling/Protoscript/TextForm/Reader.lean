import Protoscript.TextForm.Token
import Protoscript.TextForm.Writer

/-!
# Reading the text form

* `FormNode`, `FormField` — what a text says, before any type is looked at;
* `FormField.ofText?` — the fields that a text consists of;
* `Message.ofForm?` — the message of a type that fields describe. A singular field may be given again
  only while it is unset, and of a oneof only one member;
* `Message.ofText?` — both steps.
-/

namespace Protoscript

/-- The name of a field. -/
inductive FormName where
  | field (name : String)
  /-- a name in brackets -/
  | extension (name : String)
  /-- the URL of a payload's type in brackets: what stands before and after the slash -/
  | any (domain typeName : String)

mutual

/-- A value. -/
inductive FormNode where
  /-- a name, perhaps with a minus sign -/
  | name (negative : Bool) (value : String)
  /-- an integer, and whether it is written in decimal -/
  | int (negative : Bool) (value : Nat) (decimal : Bool)
  | float (value : Double)
  | bytes (value : List UInt8)
  | list (items : List FormNode)
  | message (fields : List FormField)

/-- A field: its name, whether a colon follows it, and its value. -/
inductive FormField where
  | mk (name : FormName) (colon : Bool) (value : FormNode)

end

instance : Inhabited FormNode := ⟨.list []⟩

/-! ## Fields -/

/-- Names with dots between them, and what follows them. -/
def readDotted? : (fuel : Nat) → List FormToken → Option (String × List FormToken)
  | 0, _ => none
  | fuel + 1, .name a :: .mark '.' :: rest =>
    (readDotted? fuel rest).map fun r => (a ++ "." ++ r.1, r.2)
  | _ + 1, .name a :: rest => some (a, rest)
  | _ + 1, _ => none

/-- The name of a field, and what follows it. -/
def readFormName? (tokens : List FormToken) : Option (FormName × List FormToken) :=
  match tokens with
  | .name a :: rest => some (.field a, rest)
  | .mark '[' :: rest =>
    match readDotted? rest.length rest with
    | some (a, .mark ']' :: rest) => some (.extension a, rest)
    | some (a, .mark '/' :: rest) =>
      match readDotted? rest.length rest with
      | some (b, .mark ']' :: rest) => some (.any a b, rest)
      | _ => none
    | _ => none
  | _ => none

/-- A scalar, and what follows it. -/
def readFormScalar? (tokens : List FormToken) : Option (FormNode × List FormToken) :=
  match tokens with
  | .name a :: rest => some (.name false a, rest)
  | .int n decimal :: rest => some (.int false n decimal, rest)
  | .float x :: rest => some (.float x, rest)
  | .bytes b :: rest => some (.bytes b, rest)
  | .mark '-' :: .name a :: rest => some (.name true a, rest)
  | .mark '-' :: .int n decimal :: rest => some (.int true n decimal, rest)
  | .mark '-' :: .float x :: rest => some (.float x.neg, rest)
  | _ => none

/-- The mark that closes a message, by the one that opens it. -/
def closingMark? (c : Char) : Option Char :=
  if c == '\x7b' then some '\x7d' else if c == '<' then some '>' else none

mutual

/-- The fields up to the mark that closes the message, or to the end of the text. -/
def readFormFields? : (fuel : Nat) → (closing : Option Char) → List FormToken →
    Option (List FormField × List FormToken)
  | 0, _, _ => none
  | _ + 1, none, [] => some ([], [])
  | _ + 1, some _, [] => none
  | fuel + 1, closing, t :: rest =>
    let closed : Bool := match t with
      | .mark c => closing == some c
      | _ => false
    if closed then some ([], rest)
    else
      match readFormField? fuel (t :: rest) with
      | none => none
      | some (f, rest) =>
        let rest := match rest with
          | .mark ',' :: rest => rest
          | .mark ';' :: rest => rest
          | rest => rest
        match readFormFields? fuel closing rest with
        | some (fs, rest) => some (f :: fs, rest)
        | none => none

/-- A field. Without a colon its value must be a message. -/
def readFormField? : (fuel : Nat) → List FormToken → Option (FormField × List FormToken)
  | 0, _ => none
  | fuel + 1, tokens =>
    match readFormName? tokens with
    | none => none
    | some (name, .mark ':' :: rest) =>
      (readFormValue? fuel rest).map fun r => (.mk name true r.1, r.2)
    | some (name, rest) =>
      (readFormMessage? fuel rest).map fun r => (.mk name false r.1, r.2)

/-- A message between marks. -/
def readFormMessage? : (fuel : Nat) → List FormToken → Option (FormNode × List FormToken)
  | 0, _ => none
  | fuel + 1, .mark c :: rest =>
    match closingMark? c with
    | some closing =>
      (readFormFields? fuel (some closing) rest).map fun r => (.message r.1, r.2)
    | none => none
  | _ + 1, _ => none

/-- A value after a colon. -/
def readFormValue? : (fuel : Nat) → List FormToken → Option (FormNode × List FormToken)
  | 0, _ => none
  | _ + 1, .mark '[' :: .mark ']' :: rest => some (.list [], rest)
  | fuel + 1, .mark '[' :: rest => (readFormItems? fuel rest).map fun r => (.list r.1, r.2)
  | fuel + 1, tokens => readFormItem? fuel tokens

/-- A scalar or a message. -/
def readFormItem? : (fuel : Nat) → List FormToken → Option (FormNode × List FormToken)
  | 0, _ => none
  | fuel + 1, tokens =>
    match readFormScalar? tokens with
    | some r => some r
    | none => readFormMessage? fuel tokens

/-- Items with commas between them, up to the closing bracket. -/
def readFormItems? : (fuel : Nat) → List FormToken → Option (List FormNode × List FormToken)
  | 0, _ => none
  | fuel + 1, tokens =>
    match readFormItem? fuel tokens with
    | some (item, .mark ']' :: rest) => some ([item], rest)
    | some (item, .mark ',' :: rest) =>
      (readFormItems? fuel rest).map fun r => (item :: r.1, r.2)
    | _ => none

end

/-- The fields that a text consists of. -/
def FormField.ofText? (s : String) : Option (List FormField) := do
  let tokens ← FormToken.ofText? s
  let (fields, _) ← readFormFields? (4 * tokens.length + 4) none tokens
  return fields

/-! ## Messages -/

/-- A text in lower case, ASCII letters only. -/
def lowerAscii (s : String) : String := String.ofList (s.toList.map Char.toLower)

/-- The floating-point number that a value stands for. -/
def FormNode.double? : FormNode → Option Double
  | .float x => some x
  | .int negative n true =>
    let x := Double.ofInt n
    some (if negative then x.neg else x)
  | .name negative s =>
    let lower := lowerAscii s
    if lower == "inf" || lower == "infinity" then some (.infinite negative)
    else if lower == "nan" then some (.quietNaN negative)
    else none
  | _ => none

/-- The integer that a value stands for. -/
def FormNode.int? : FormNode → Option Int
  | .int negative n _ => some (if negative then -n else n)
  | _ => none

/-- The natural number that a value without a sign stands for. -/
def FormNode.nat? : FormNode → Option Int
  | .int false n _ => some n
  | _ => none

/-- The scalar of a type that a value stands for. -/
def ScalarType.ofForm? (t : ScalarType) (node : FormNode) : Option Scalar :=
  match t.storage with
  | .f64 => node.double?.map .f64
  | .f32 => node.double?.map fun x => .f32 x.toSingle
  | .i32 => (node.int?.bind int32Of?).map .i32
  | .i64 => (node.int?.bind int64Of?).map .i64
  | .u32 => (node.nat?.bind uint32Of?).map .u32
  | .u64 => (node.nat?.bind uint64Of?).map .u64
  | .bool =>
    match node with
    | .name false s =>
      if s == "true" || s == "True" || s == "t" then some (.bool true)
      else if s == "false" || s == "False" || s == "f" then some (.bool false)
      else none
    | .int false 0 _ => some (.bool false)
    | .int false 1 _ => some (.bool true)
    | _ => none
  | .text =>
    match node with
    | .bytes b => (ofUtf8? b).map .text
    | _ => none
  | .bytes =>
    match node with
    | .bytes b => some (.bytes b)
    | _ => none

/-- The number of an enum that a value stands for: a declared name, or any number. -/
def EnumDescriptor.ofForm? (d : EnumDescriptor) (node : FormNode) : Option Scalar :=
  match node with
  | .name false s => (d.numberOf? s).map .enumNumber
  | node => (node.int?.bind int32Of?).map .enumNumber

mutual

/-- The message that fields describe, on top of what it holds. -/
def Message.ofForm? (m : Message) : List FormField → Option Message
  | [] => some m
  | field :: rest =>
    match Message.readForm? m field with
    | some m => Message.ofForm? m rest
    | none => none

/-- Reads a field into a message. -/
def Message.readForm? (m : Message) : FormField → Option Message
  | .mk (.field name) colon value =>
    match m.descriptor.field? name with
    | none => none
    | some f =>
      if !colon && !f.kind.isMessage then none
      else if f.isMap then (Stored.entriesOfForm? f value).map fun es =>
        match m.get f with
        | .map old => m.set f (.map (es.foldl (fun old e => insertKey e.1 e.2 old) old))
        | _ => m.set f (.map (mapOfEntries es))
      else if f.isList then (Stored.itemsOfForm? f.kind value).map fun vs =>
        match m.get f with
        | .list old => m.set f (.list (old ++ vs))
        | _ => m.set f (.list vs)
      else if m.has f || f.siblings.any m.has then none
      else (Stored.ofForm? f.kind value).map (m.set f)
  | .mk (.extension _) _ _ => none
  | .mk (.any domain typeName) _ value =>
    if m.fullName == anyFullName then
      match m.descriptor.pool.message? typeName, value with
      | some d, .message fields =>
        match Message.ofForm? (.empty d) fields with
        | some inner => some (m.packing (domain ++ "/" ++ typeName) inner.toWire)
        | none => none
      | _, _ => none
    else none

/-- The value of a type, for a singular field or an item. -/
def Stored.ofForm? (kind : Kind) : FormNode → Option Stored
  | .message fields =>
    match kind with
    | .message d => (Message.ofForm? (.empty d) fields).map .message
    | .scalar _ | .enum _ => none
  | .list _ => none
  | node =>
    match kind with
    | .scalar t => (t.ofForm? node).map .scalar
    | .enum d => (d.ofForm? node).map .scalar
    | .message _ => none

/-- The items of a list, or the one item. -/
def Stored.itemsOfForm? (kind : Kind) : FormNode → Option (List Stored)
  | .list items => Stored.allOfForm? kind items
  | node => (Stored.ofForm? kind node).map ([·])

/-- The values of a type. -/
def Stored.allOfForm? (kind : Kind) : List FormNode → Option (List Stored)
  | [] => some []
  | item :: rest =>
    match Stored.ofForm? kind item, Stored.allOfForm? kind rest with
    | some v, some vs => some (v :: vs)
    | _, _ => none

/-- The entries of a map, or the one entry. -/
def Stored.entriesOfForm? (f : FieldDescriptor) : FormNode → Option (List (MapKey × Stored))
  | .list items => Stored.allEntriesOfForm? f items
  | node => (Stored.entryOfForm? f node).map ([·])

/-- Several entries of a map. -/
def Stored.allEntriesOfForm? (f : FieldDescriptor) :
    List FormNode → Option (List (MapKey × Stored))
  | [] => some []
  | item :: rest =>
    match Stored.entryOfForm? f item, Stored.allEntriesOfForm? f rest with
    | some e, some es => some (e :: es)
    | _, _ => none

/-- An entry of a map, given as a message of the entry type; what is missing has its default. -/
def Stored.entryOfForm? (f : FieldDescriptor) : FormNode → Option (MapKey × Stored)
  | .message fields =>
    match f.kind with
    | .message entry =>
      match Message.ofForm? (.empty entry) fields with
      | some m =>
        match m.singleAt? 1, m.singleAt? 2 with
        | some (.scalar key), some value => (MapKey.ofScalar? key).map fun k => (k, value)
        | _, _ => none
      | none => none
    | .scalar _ | .enum _ => none
  | _ => none

end

/-- The message of a type that a text describes. -/
def Message.ofText? (d : MessageDescriptor) (s : String) : Option Message :=
  (FormField.ofText? s).bind (Message.ofForm? (.empty d))

end Protoscript
