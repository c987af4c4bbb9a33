import Protoscript.Json.Basic
import Protoscript.Yaml.Resolve

/-!
# YAML documents as JSON trees

A document stands for a JSON tree if its keys are scalars, its tags are those of the core types or
none, and its collections nest at most `treeDepth` deep. Members are put in order of their names,
the last of each name.

* `Node.toJson?` — the tree of a node;
* `Json.ofYaml?` — the tree of a text. A text that holds nothing stands for null.
-/

namespace Protoscript

namespace Yaml

/-- How deep the collections of a document may nest. -/
def treeDepth : Nat := 128

/-- The tag of a core type. -/
def coreTag (name : String) : String := "tag:yaml.org,2002:" ++ name

/-- Whether a tag names no core type but one of the document's own. -/
def isLocalTag (tag : Option String) : Bool := tag.any fun t => t.toList.head? == some '!'

/-- An integer as JSON, if it fits into 64 bits with or without a sign. -/
def intToJson? (n : Int) : Option Json :=
  if fitsSigned 64 n || fitsUnsigned 64 n then some (.int n) else none

/-- A floating-point number as JSON, which has none but finite ones. -/
def floatToJson (x : Double) : Json := if x.isFinite then .double x else .null

/-- What a plain scalar stands for, as JSON. -/
def Meaning.toJson? (text : String) : Meaning → Option Json
  | .null => some .null
  | .bool b => some (.bool b)
  | .int n => intToJson? n
  | .float x => some (floatToJson x)
  | .text => some (.text text)

/-- A scalar as JSON. A core tag must fit the text; without a tag only a plain scalar stands for more
than its text. -/
def scalarToJson? (tag : Option String) (style : ScalarStyle) (text : String) : Option Json :=
  match tag with
  | none => if style == .plain then (meaningOf text).toJson? text else some (.text text)
  | some t =>
    if isLocalTag tag then none
    else if t == coreTag "bool" then (boolWord? text).map .bool
    else if t == coreTag "int" then (integerOf? text).bind intToJson?
    else if t == coreTag "float" then (floatOf? text).map floatToJson
    else if t == coreTag "null" then if isNullWord text then some .null else none
    else some (.text text)

/-- A node as JSON, with collections nested at most `depth` deep. -/
def Node.toJson? (d : Document) (depth : Nat) (n : Node) : Walk Json := do
  match ← d.follow n, depth with
  | .scalar tag style text, _ =>
    match scalarToJson? tag style text with
    | some j => return j
    | none => failure
  | .sequence tag items, depth + 1 =>
    if isLocalTag tag then failure
    return .array (← items.mapM (Node.toJson? d depth))
  | .mapping tag entries, depth + 1 =>
    if isLocalTag tag then failure
    let members ← entries.foldlM (fun members e => do
      let name ← d.textOf e.1
      return Json.insertMember name (← Node.toJson? d depth e.2) members) []
    return .object members
  | _, _ => failure

/-- A document as JSON. -/
def Document.toJson? (d : Document) : Option Json :=
  match d.root with
  | none => some .null
  | some n => d.walk (n.toJson? d treeDepth)

end Yaml

/-- The JSON tree that a YAML text stands for. -/
def Json.ofYaml? (s : String) : Option Json := (Yaml.Document.ofText? s).bind Yaml.Document.toJson?

end Protoscript
