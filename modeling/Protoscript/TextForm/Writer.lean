import Protoscript.Schema.Builder
import Protoscript.Wire.Message

/-!
# Writing the text form

The text form shows a message as its set fields with their names. A message inside stands between
braces; a list or map between brackets. A message of type `google.protobuf.Any` whose payload can be
read is shown as the payload, under its URL in brackets.

* `Form` — what is shown, as a tree;
* `Message.toForm` — the tree of a message;
* `Form.compact`, `Form.pretty` — its two layouts;
* `Message.text`, `Message.prettyText` — both steps at once.
-/

namespace Protoscript

/-- A value of the text form: the text of a scalar, a list, or named values. -/
inductive Form where
  | scalar (text : String)
  | list (items : List Form)
  | message (fields : List (String × Form))
  deriving Inhabited

/-! ## Scalars -/

/-- A byte as three octal digits. -/
def octalByte (b : UInt8) : List Char :=
  let n := b.toNat
  [Char.ofNat (48 + n / 64), Char.ofNat (48 + n / 8 % 8), Char.ofNat (48 + n % 8)]

/-- A byte as it stands in a quoted string of the text form. -/
def formByte (b : UInt8) : List Char :=
  if b == 9 then ['\\', 't']
  else if b == 13 then ['\\', 'r']
  else if b == 10 then ['\\', 'n']
  else if b == 39 then ['\\', Char.ofNat 39]
  else if b == 34 then ['\\', '"']
  else if b == 92 then ['\\', '\\']
  else if 0x20 ≤ b && b < 0x7f then [Char.ofNat b.toNat]
  else '\\' :: octalByte b

/-- Bytes between double quotes. -/
def formBytes (bytes : List UInt8) : String :=
  String.ofList (['"'] ++ bytes.flatMap formByte ++ ['"'])

/-- The text of a scalar; an enum number is shown by name if it is declared. -/
def Scalar.formText (kind : Kind) : Scalar → String
  | .bool b => if b then "true" else "false"
  | .i32 n => toString n
  | .i64 n => toString n
  | .u32 n => toString n
  | .u64 n => toString n
  | .f32 x => x.plain
  | .f64 x => x.plain
  | .text s => formBytes (utf8Bytes s)
  | .bytes b => formBytes b
  | .enumNumber n =>
    match kind with
    | .enum d => (d.nameOf? n).getD (toString n)
    | .scalar _ | .message _ => toString n

/-! ## The tree -/

/-- The text after the last slash of a URL, if it has one. -/
def afterLastSlash? (url : String) : Option String :=
  let tail := (url.toList.reverse.takeWhile (· != '/')).reverse
  if tail.length < url.length then some (String.ofList tail) else none

/-- The URL and the bytes of the payload of a message of type `google.protobuf.Any`. -/
def Message.anyParts? (m : Message) : Option (String × List UInt8) :=
  if m.fullName == anyFullName then
    let url := match lookupNumber 1 m.fields with
      | some (.scalar (.text s)) => s
      | _ => ""
    let payload := match lookupNumber 2 m.fields with
      | some (.scalar (.bytes b)) => b
      | _ => []
    some (url, payload)
  else none

/-- The URL and the payload of a message of type `google.protobuf.Any`, if the URL names a type of
the same pool and the payload can be read. -/
def Message.anyPayload? (m : Message) : Option (String × Message) := do
  let (url, payload) ← m.anyParts?
  let name ← afterLastSlash? url
  let d ← m.descriptor.pool.message? name
  let inner ← Message.ofWire? d payload
  return (url, inner)

mutual

/-- The tree of a message. Payloads are expanded at most `depth` deep in each other. -/
def Message.toForm : (depth : Nat) → Message → List (String × Form)
  | 0, .mk d fields unknown => Message.fieldsToForm 0 (.mk d fields unknown) fields
  | depth + 1, .mk d fields unknown =>
    match (Message.mk d fields unknown).anyPayload? with
    | some (url, inner) => [("[" ++ url ++ "]", .message (Message.toForm depth inner))]
    | none => Message.fieldsToForm (depth + 1) (.mk d fields unknown) fields
termination_by depth m => (depth, sizeOf m, 1)

/-- The trees of the fields that are set. -/
def Message.fieldsToForm (depth : Nat) (m : Message) :
    List (Nat × Stored) → List (String × Form)
  | [] => []
  | (number, value) :: rest =>
    (match m.descriptor.numbered? number with
      | some f =>
        if m.has f then [(f.name, Stored.toForm depth f.kind value)] else []
      | none => []) ++ Message.fieldsToForm depth m rest
termination_by fields => (depth, sizeOf fields, 0)

/-- The tree of what a field holds. -/
def Stored.toForm (depth : Nat) (kind : Kind) : Stored → Form
  | .scalar value => .scalar (value.formText kind)
  | .message m => .message (Message.toForm depth m)
  | .list items => .list (Stored.itemsToForm depth kind items)
  | .map entries => .list (Stored.entriesToForm depth kind entries)
termination_by value => (depth, sizeOf value, 0)

/-- The trees of the items of a list. -/
def Stored.itemsToForm (depth : Nat) (kind : Kind) : List Stored → List Form
  | [] => []
  | item :: rest => Stored.toForm depth kind item :: Stored.itemsToForm depth kind rest
termination_by items => (depth, sizeOf items, 0)

/-- The trees of the entries of a map. -/
def Stored.entriesToForm (depth : Nat) (kind : Kind) : List (MapKey × Stored) → List Form
  | [] => []
  | (key, value) :: rest =>
    let valueKind := match kind with
      | .message entry => (FieldDescriptor.entryValue entry).kind
      | kind => kind
    .message [("key", .scalar (key.toScalar.formText kind)),
      ("value", Stored.toForm depth valueKind value)] :: Stored.entriesToForm depth kind rest
termination_by entries => (depth, sizeOf entries, 0)

end

/-! ## Layouts -/

mutual

/-- Named values on one line, with nothing between them but commas. -/
def Form.compactFields : List (String × Form) → String
  | [] => ""
  | [(name, value)] => name ++ Form.compactValue value
  | (name, value) :: rest => name ++ Form.compactValue value ++ "," ++ Form.compactFields rest

/-- A value after its name: a message follows at once, anything else after a colon. -/
def Form.compactValue : Form → String
  | .scalar text => ":" ++ text
  | .list items => ":[" ++ Form.compactItems items ++ "]"
  | .message fields => "\x7b" ++ Form.compactFields fields ++ "\x7d"

/-- Items on one line. -/
def Form.compactItems : List Form → String
  | [] => ""
  | [item] => Form.compactItem item
  | item :: rest => Form.compactItem item ++ "," ++ Form.compactItems rest

/-- An item of a list. -/
def Form.compactItem : Form → String
  | .scalar text => text
  | .list items => "[" ++ Form.compactItems items ++ "]"
  | .message fields => "\x7b" ++ Form.compactFields fields ++ "\x7d"

end

/-- The start of a line that is indented by a number of levels. -/
def Form.newline (level : Nat) : String := "\n" ++ String.ofList (List.replicate (2 * level) ' ')

mutual

/-- Named values, each on a line of its own. -/
def Form.prettyFields (level : Nat) : List (String × Form) → String
  | [] => ""
  | [(name, value)] => name ++ Form.prettyValue level value
  | (name, value) :: rest =>
    name ++ Form.prettyValue level value ++ Form.newline level ++ Form.prettyFields level rest

/-- A value after its name. -/
def Form.prettyValue (level : Nat) : Form → String
  | .scalar text => ": " ++ text
  | .list items => ": [" ++ Form.prettyItems level items ++ "]"
  | .message fields => " " ++ Form.prettyItem level (.message fields)

/-- Items of a list. -/
def Form.prettyItems (level : Nat) : List Form → String
  | [] => ""
  | [item] => Form.prettyItem level item
  | item :: rest => Form.prettyItem level item ++ ", " ++ Form.prettyItems level rest

/-- An item of a list, or the braces of a message with its lines one level further in. -/
def Form.prettyItem (level : Nat) : Form → String
  | .scalar text => text
  | .list items => "[" ++ Form.prettyItems level items ++ "]"
  | .message [] => "\x7b\x7d"
  | .message (field :: rest) =>
    "\x7b" ++ Form.newline (level + 1) ++ Form.prettyFields (level + 1) (field :: rest) ++
      Form.newline level ++ "\x7d"

end

/-- How deep payloads may be expanded in each other: each is shorter than what holds it. -/
def Message.formDepth (m : Message) : Nat := m.toWire.length + 1

/-- The text form of a message on one line. -/
def Message.text (m : Message) : String := Form.compactFields (m.toForm m.formDepth)

/-- The text form of a message with one field a line. -/
def Message.prettyText (m : Message) : String := Form.prettyFields 0 (m.toForm m.formDepth)

end Protoscript
