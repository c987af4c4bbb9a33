import Protoscript.Config
import Protoscript.Yaml.Resolve

/-!
# Settings from YAML

Settings are read from a mapping. What it does not mention keeps its default, names that it should
not mention are passed over, and no setting may be given twice.

* `Config.ofYaml?` — the settings that a text gives.
-/

namespace Protoscript

namespace Yaml

/-- Whether a node is a scalar that is not written. -/
def Node.isMissing : Node → Bool
  | .scalar _ .plain text => text.isEmpty
  | _ => false

/-- The text of a scalar whose text may stand for something of a core type: a plain one, or a literal
block with the tag of the type. -/
def Document.wordOf (d : Document) (tagName : String) (n : Node) : Walk String := do
  match ← d.follow n with
  | .scalar _ .plain text => return text
  | .scalar (some tag) .literal text =>
    if tag == "tag:yaml.org,2002:" ++ tagName then return text else failure
  | _ => failure

/-- A boolean setting. -/
def Document.boolOf (d : Document) (n : Node) : Walk Bool := do
  match boolWord? (← d.wordOf "bool" n) with
  | some b => return b
  | none => failure

/-- A setting that is a natural number of 64 bits. -/
def Document.naturalOf (d : Document) (n : Node) : Walk Nat := do
  match naturalOf? (← d.wordOf "int" n) with
  | some n => if n < pow2 64 then return n else failure
  | none => failure

/-- A setting that is a list of texts. -/
def Document.textsOf (d : Document) (n : Node) : Walk (List String) := do
  let n ← d.follow n
  match n with
  | .sequence _ items => items.mapM d.textOf
  | n => if n.isMissing then return [] else failure

/-- Reads a setting. -/
def Document.readSetting (d : Document) (c : Config) (name : String) (value : Node) :
    Walk Config := do
  match name with
  | "legacy_proto2_none" => return { c with legacyAbsent := ← d.boolOf value }
  | "scalar_wrappers" => return { c with scalarWrappers := ← d.textsOf value }
  | "any_type_url_prefix" => return { c with anyUrlBase := ← d.textOf value }
  | "json_indent" => return { c with jsonIndent := ← d.naturalOf value }
  | _ => return c

/-- The names of the settings. -/
def settingNames : List String :=
  ["legacy_proto2_none", "scalar_wrappers", "any_type_url_prefix", "json_indent"]

/-- Reads the entries of a mapping; `given` lists the settings that were given before. -/
def Document.readSettings (d : Document) (c : Config) (given : List String) :
    List (Node × Node) → Walk Config
  | [] => return c
  | (key, value) :: rest => do
    let name ← d.textOf key
    if given.contains name then failure
    let c ← d.readSetting c name value
    d.readSettings c (if settingNames.contains name then name :: given else given) rest

/-- The settings that a document gives. -/
def Document.toConfig? (d : Document) : Option Config :=
  match d.root with
  | none => some {}
  | some (.mapping _ entries) => d.walk (d.readSettings {} [] entries)
  | some n => if n.isMissing then some {} else none

end Yaml

/-- The settings that a YAML text gives. -/
def Config.ofYaml? (s : String) : Option Config :=
  (Yaml.Document.ofText? s).bind Yaml.Document.toConfig?

end Protoscript
