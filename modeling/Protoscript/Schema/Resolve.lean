import Protoscript.Schema.Builder
import Protoscript.Schema.Pool
import Protoscript.Number.Integer
import Protoscript.Text.Utf8

/-!
# Resolving schema files

A set of files becomes a pool if every name in it is defined once and can be seen where it is used,
and if fields, enums and defaults keep the rules of the schema language.

* `SchemaError` — the rules a set of files can break;
* `Pool.ofFiles` — the pool of a set of files, which may be listed in any order.
-/

namespace Protoscript

/-- Why a set of files makes no pool. -/
inductive SchemaError where
  | duplicateFile (name : String)
  | missingFile (name : String)
  | duplicateName (name : String)
  | missingType (name : String)
  | notAType (name : String)
  | invisibleType (name : String)
  | untypedField (name : String)
  | fieldNumberOutOfRange (number : Int)
  | duplicateFieldNumber (number : Int)
  | duplicateJsonName (name : String)
  | emptyEnum (name : String)
  | duplicateEnumNumber (number : Int)
  | nonzeroFirstValue (name : String)
  | badDefault (text : String)
  | badEncoding

namespace SchemaError

/-- The wording of a schema error. -/
def message : SchemaError → String
  | duplicateFile name => "a file named '" ++ name ++ "' has already been added"
  | missingFile name => "file '" ++ name ++ "' not found"
  | duplicateName name => "name '" ++ name ++ "' is defined twice"
  | missingType name => "name '" ++ name ++ "' is not defined"
  | notAType name => "'" ++ name ++ "' is not a message or enum type"
  | invisibleType name => "'" ++ name ++ "' is defined in a file that is not imported"
  | untypedField name => "field '" ++ name ++ "' has no type"
  | fieldNumberOutOfRange number => "invalid field number '" ++ toString number ++ "'"
  | duplicateFieldNumber number => "field number '" ++ toString number ++ "' is already used"
  | duplicateJsonName name => "a field with JSON name '" ++ name ++ "' is already defined"
  | emptyEnum name => "enum '" ++ name ++ "' has no values"
  | duplicateEnumNumber number => "enum number '" ++ toString number ++ "' has already been used"
  | nonzeroFirstValue name => "the first value of proto3 enum '" ++ name ++ "' must be 0"
  | badDefault text => "invalid default value '" ++ text ++ "'"
  | badEncoding => "the descriptor set cannot be decoded"

end SchemaError

/-- A message where it stands: its file, scope and enclosing message. -/
structure MessageSite where
  /-- the position of the file -/
  file : Nat
  /-- the package or the full name of the enclosing message -/
  scope : String
  /-- the place of the enclosing message -/
  parent : Option Nat
  /-- the declaration -/
  decl : MessageDecl
  deriving Inhabited

/-- An enum where it stands. -/
structure EnumSite where
  /-- the position of the file -/
  file : Nat
  /-- the package or the full name of the enclosing message -/
  scope : String
  /-- the place of the enclosing message -/
  parent : Option Nat
  /-- the declaration -/
  decl : EnumDecl
  deriving Inhabited

namespace MessageSite

/-- The full name of the message. -/
def fullName (s : MessageSite) : String := joinName s.scope s.decl.name

/-- A message and all messages nested in it, each after the one that encloses it; `place` is the
place of the first. -/
def flatten (file : Nat) (scope : String) (parent : Option Nat) (place : Nat) :
    MessageDecl → List MessageSite
  | ⟨name, fields, nested, enums, oneofs, isMapEntry⟩ =>
    ⟨file, scope, parent, ⟨name, fields, nested, enums, oneofs, isMapEntry⟩⟩ ::
      flattenAll file (joinName scope name) (some place) (place + 1) nested
where
  /-- The messages of one scope, one after the other. -/
  flattenAll (file : Nat) (scope : String) (parent : Option Nat) (place : Nat) :
      List MessageDecl → List MessageSite
    | [] => []
    | m :: rest =>
      let sites := flatten file scope parent place m
      sites ++ flattenAll file scope parent (place + sites.length) rest

/-- The enums declared directly inside the message at `place`. -/
def enumSites (s : MessageSite) (place : Nat) : List EnumSite :=
  s.decl.enums.map (⟨s.file, s.fullName, some place, ·⟩)

/-- The names that the message defines: its own and those of its fields and oneofs. -/
def names (s : MessageSite) : List String :=
  s.fullName :: (s.decl.fields.map fun f => joinName s.fullName f.name) ++
    s.decl.oneofs.map (joinName s.fullName)

end MessageSite

namespace EnumSite

/-- The full name of the enum. -/
def fullName (s : EnumSite) : String := joinName s.scope s.decl.name

/-- The names that the enum defines: its own, and those of its values in the scope around it. -/
def names (s : EnumSite) : List String :=
  s.fullName :: s.decl.values.map fun v => joinName s.scope v.1

end EnumSite

/-- All messages of a list of files, in order. -/
def messageSites (files : List FileDecl) : List MessageSite :=
  let addFile (acc : List MessageSite) (f : FileDecl × Nat) : List MessageSite :=
    acc ++ MessageSite.flatten.flattenAll f.2 f.1.package none acc.length f.1.messages
  files.zipIdx.foldl addFile []

/-- All enums of a list of files. -/
def enumSites (files : List FileDecl) (messages : List MessageSite) : List EnumSite :=
  (files.zipIdx.flatMap fun f => f.1.enums.map (⟨f.2, f.1.package, none, ·⟩)) ++
    messages.zipIdx.flatMap fun m => m.1.enumSites m.2

/-- A package name and the packages around it. -/
def packagePrefixes (package : String) : List String :=
  if package.isEmpty then [] else
  let extend (acc : List String) (part : String) : List String :=
    match acc with
    | [] => [part]
    | inner :: _ => (inner ++ "." ++ part) :: acc
  (package.splitOn ".").foldl extend []

/-- The first element that occurs again further on. -/
def firstRepeated? {α : Type} [BEq α] : List α → Option α
  | [] => none
  | a :: rest => if rest.elem a then some a else firstRepeated? rest

theorem nodup_of_firstRepeated? {α : Type} [BEq α] [LawfulBEq α] {items : List α}
    (h : firstRepeated? items = none) : items.Nodup := by
  induction items with
  | nil => exact .nil
  | cons a rest ih =>
    unfold firstRepeated? at h
    split at h
    · cases h
    · rename_i hmem
      exact List.nodup_cons.2 ⟨by simpa using hmem, ih h⟩

/-- Fails if a list names something twice. -/
def checkDistinct {α : Type} [BEq α] [LawfulBEq α] (error : α → SchemaError) (items : List α) :
    Except SchemaError (PLift items.Nodup) :=
  match h : firstRepeated? items with
  | some a => .error (error a)
  | none => .ok ⟨nodup_of_firstRepeated? h⟩

/-! ## Names -/

/-- What a name can stand for when it is used as a type. -/
inductive TypeSymbol where
  | message (place : Nat)
  | enum (place : Nat)

/-- Everything that type names are looked up in. -/
structure Scope where
  /-- the files -/
  files : List FileDecl
  /-- the messages of the files -/
  messages : List MessageSite
  /-- the enums of the files -/
  enums : List EnumSite
  /-- all names defined, types and others -/
  names : List String

namespace Scope

/-- The type of a full name, with the position of its file. -/
def type? (s : Scope) (fullName : String) : Option (TypeSymbol × Nat) :=
  match s.messages.findIdx? fun m => m.fullName == fullName with
  | some i => some (.message i, (s.messages.getD i default).file)
  | none =>
    match s.enums.findIdx? fun e => e.fullName == fullName with
    | some i => some (.enum i, (s.enums.getD i default).file)
    | none => none

/-- The files visible through the imports at `imports`: the imported files and, as far as `fuel`
goes, what they import publicly. -/
def visibleThrough (s : Scope) : (fuel : Nat) → List String → List Nat
  | 0, _ => []
  | fuel + 1, imports =>
    imports.flatMap fun path =>
      match s.files.findIdx? fun f => f.name == path with
      | none => []
      | some i =>
        let file := s.files.getD i default
        let onward := file.publicDependencies.filterMap fun k => file.dependencies[k]?
        i :: s.visibleThrough fuel onward

/-- The files whose types a file may use. -/
def visibleFrom (s : Scope) (file : Nat) : List Nat :=
  file :: s.visibleThrough (s.files.length + 1) (s.files.getD file default).dependencies

/-- The full names that a relative name can stand for inside a scope, innermost first. -/
def candidates (scope name : String) : List String :=
  let parts := scope.splitOn "."
  ((List.range (parts.length + 1)).reverse.map fun n =>
    joinName (".".intercalate (parts.take n)) name)

/-- The type that `typeName` stands for inside the message `scope` of a file. -/
def resolve (s : Scope) (file : Nat) (scope typeName : String) :
    Except SchemaError TypeSymbol :=
  let fullName :=
    if typeName.startsWith "." then (typeName.drop 1).toString
    else ((candidates scope typeName).find? fun n => s.names.contains n).getD typeName
  match s.type? fullName with
  | some (symbol, home) =>
    if (s.visibleFrom file).contains home then .ok symbol else .error (.invisibleType fullName)
  | none =>
    if s.names.contains fullName then .error (.notAType fullName)
    else .error (.missingType fullName)

end Scope

/-! ## Defaults -/

/-- The bytes of a declared default: its text with the escapes of C. -/
def unescapeDefault? : List Char → Option (List UInt8)
  | [] => some []
  | '\\' :: 'x' :: rest => hex rest
  | '\\' :: 'X' :: rest => hex rest
  | '\\' :: c :: rest =>
    if isOctal c then
      match rest with
      | d :: e :: more =>
        if isOctal d then
          if isOctal e then
            byte (octal c * 64 + octal d * 8 + octal e) (unescapeDefault? more)
          else byte (octal c * 8 + octal d) (unescapeDefault? (e :: more))
        else byte (octal c) (unescapeDefault? (d :: e :: more))
      | [d] =>
        if isOctal d then some [UInt8.ofNat (octal c * 8 + octal d)]
        else byte (octal c) (unescapeDefault? [d])
      | [] => some [UInt8.ofNat (octal c)]
    else
      match simpleEscape? c with
      | some n => byte n (unescapeDefault? rest)
      | none => none
  | ['\\'] => none
  | c :: rest => (unescapeDefault? rest).map (utf8Bytes (String.singleton c) ++ ·)
where
  /-- Whether a character is an octal digit. -/
  isOctal (c : Char) : Bool := '0' ≤ c && c ≤ '7'
  /-- The value of an octal digit. -/
  octal (c : Char) : Nat := c.toNat - '0'.toNat
  /-- A byte in front of what follows it. -/
  byte (n : Nat) (rest : Option (List UInt8)) : Option (List UInt8) :=
    rest.map (UInt8.ofNat n :: ·)
  /-- Two hexadecimal digits and what follows them. -/
  hex : List Char → Option (List UInt8)
    | a :: b :: rest =>
      match hexValue? a, hexValue? b with
      | some x, some y => byte (x * 16 + y) (unescapeDefault? rest)
      | _, _ => none
    | _ => none
  /-- The byte of an escape by letter. -/
  simpleEscape? (c : Char) : Option Nat :=
    if c == 'a' then some 7
    else if c == 'b' then some 8
    else if c == 'f' then some 12
    else if c == 'n' then some 10
    else if c == 'r' then some 13
    else if c == 't' then some 9
    else if c == 'v' then some 11
    else if c == '\\' then some 92
    else if c == '?' then some 63
    else if c.toNat == 39 then some 39
    else if c == '"' then some 34
    else none

/-- Reads a default of a scalar type. -/
def ScalarType.readDefault? (t : ScalarType) (text : String) : Option Scalar :=
  match t.storage with
  | .f64 => (Double.read? text).map .f64
  | .f32 => (Single.read? text).map .f32
  | .i32 => (readInt32? text).map .i32
  | .i64 => (readInt64? text).map .i64
  | .u32 => (readUInt32? text).map .u32
  | .u64 => (readUInt64? text).map .u64
  | .bool =>
    if text == "true" then some (.bool true)
    else if text == "false" then some (.bool false)
    else none
  | .text => some (.text text)
  | .bytes => (unescapeDefault? text.toList).map .bytes

/-! ## Messages, enums and the pool -/

/-- Whether a field number may be used: positive, of 29 bits, and not in the range kept for the
implementation of the wire format. -/
def isFieldNumber (n : Int) : Bool :=
  1 ≤ n && n ≤ 536870911 && !(19000 ≤ n && n ≤ 19999)

/-- Reads a default of any type: a scalar by its type, an enum by the name of a value. Messages have
none. -/
def Scope.readDefault? (s : Scope) (kind : KindRef) (text : String) : Option Scalar :=
  match kind with
  | .scalar t => t.readDefault? text
  | .enum i =>
    ((s.enums.getD i default).decl.values.find? fun v : String × Int32 => v.1 == text).map
      fun v => .enumNumber v.2
  | .message _ => none

theorem ScalarType.storage?_of_readDefault? {t : ScalarType} {text : String} {v : Scalar}
    (h : t.readDefault? text = some v) : v.storage? = some t.storage := by
  unfold readDefault? at h
  split at h
  case h_7 hs =>
    rw [hs]
    split at h
    · cases h; rfl
    · split at h <;> cases h; rfl
  case h_8 hs => cases h; rw [hs]; rfl
  all_goals
    rename_i hs
    rw [hs]
    obtain ⟨x, -, rfl⟩ := Option.map_eq_some_iff.1 h
    rfl

/-- A default that could be read is a value of the type. -/
theorem Scope.takes_of_readDefault? {s : Scope} {kind : KindRef} {text : String} {v : Scalar}
    (h : s.readDefault? kind text = some v) : kind.takes v = true := by
  cases kind with
  | scalar t => simp [KindRef.takes, ScalarType.storage?_of_readDefault? h]
  | enum i =>
    obtain ⟨x, -, rfl⟩ := Option.map_eq_some_iff.1 h
    rfl
  | message i => cases h

/-- A field with its type and default resolved. -/
def Scope.field (s : Scope) (site : MessageSite) (f : FieldDecl) :
    Except SchemaError FieldInfo := do
  if !isFieldNumber f.number then throw (.fieldNumberOutOfRange f.number)
  let kind ← match f.type with
    | some (.scalar t) => pure (KindRef.scalar t)
    | some .message | some .enum =>
      match ← s.resolve site.file site.fullName (f.typeName.getD "") with
      | .message i => pure (KindRef.message i)
      | .enum i => pure (KindRef.enum i)
    | none =>
      match f.typeName with
      | none => throw (.untypedField f.name)
      | some name =>
        match ← s.resolve site.file site.fullName name with
        | .message i => pure (KindRef.message i)
        | .enum i => pure (KindRef.enum i)
  let declared : {d : Option Scalar // ∀ v ∈ d, kind.takes v = true} ← match f.defaultText with
    | none => pure ⟨none, nofun⟩
    | some text =>
      match h : s.readDefault? kind text with
      | some v => pure ⟨some v, by rintro _ ⟨⟩; exact s.takes_of_readDefault? h⟩
      | none => throw (.badDefault text)
  let isMessage := match kind with
    | .message _ => true
    | .scalar _ | .enum _ => false
  let isRepeated := f.label == .repeated
  let edition := (s.files.getD site.file default).edition
  return {
    name := f.name
    jsonName := f.jsonName.getD (lowerCamel f.name)
    number := f.number.toNat
    isRepeated := isRepeated
    kind := kind
    hasPresence := f.oneofIndex.isSome || (!isRepeated && (isMessage || edition == .proto2))
    declaredDefault := declared.1
    oneof := f.oneofIndex
    takes_default := declared.2
    repeated_presence := fun hrepeated hnone => by simp [hrepeated, hnone] }

/-- A message with its fields resolved and in order of their numbers. -/
def Scope.message (s : Scope) (site : MessageSite) : Except SchemaError MessageInfo := do
  let fields ← site.decl.fields.mapM (s.field site)
  let numbers ← checkDistinct (fun n : Nat => .duplicateFieldNumber n) (fields.map (·.number))
  let _ ← checkDistinct .duplicateJsonName (fields.map (·.jsonName))
  -- the names of all declarations were compared before, so this one does not fail
  let names ← checkDistinct .duplicateName (fields.map (·.name))
  let sorted := fields.mergeSort fun f g => f.number ≤ g.number
  have perm : sorted.Perm fields := List.mergeSort_perm fields _
  let file := s.files.getD site.file default
  return {
    name := site.decl.name
    fullName := site.fullName
    package := file.package
    edition := file.edition
    parent := site.parent
    isMapEntry := site.decl.isMapEntry
    fields := sorted
    nodup_numbers := (perm.map _).nodup_iff.2 numbers.down
    nodup_names := (perm.map _).nodup_iff.2 names.down }

/-- An enum whose values keep the rules. -/
def Scope.enumeration (s : Scope) (site : EnumSite) : Except SchemaError EnumInfo := do
  let file := s.files.getD site.file default
  match site.decl.values with
  | [] => throw (.emptyEnum site.fullName)
  | first :: _ =>
    if file.edition == .proto3 && first.2 != 0 then throw (.nonzeroFirstValue site.fullName)
  let _ ← checkDistinct (fun n : Int32 => .duplicateEnumNumber n.toInt) (site.decl.values.map (·.2))
  return {
    name := site.decl.name
    fullName := site.fullName
    package := file.package
    parent := site.parent
    values := site.decl.values }

/-- Fails if a field holds messages that are not there. -/
def checkKinds (messages : List MessageInfo) : Except SchemaError
    (PLift (∀ m ∈ messages, ∀ f ∈ m.fields, f.kind.within messages.length = true)) :=
  if h : ∀ m ∈ messages, ∀ f ∈ m.fields, f.kind.within messages.length = true then .ok ⟨h⟩
  else .error (.missingType "")

/-- The pool of a set of files, told from other pools by `id`. -/
def Pool.ofFiles (id : Nat) (files : List FileDecl) : Except SchemaError Pool := do
  let _ ← checkDistinct .duplicateFile (files.map (·.name))
  for file in files do
    for path in file.dependencies do
      if !(files.any fun f => f.name == path) then throw (.missingFile path)
  let messages := messageSites files
  let enums := enumSites files messages
  let names := messages.flatMap MessageSite.names ++ enums.flatMap EnumSite.names
  let _ ← checkDistinct .duplicateName names
  let packages := files.flatMap fun f => packagePrefixes f.package
  match packages.find? fun p => names.contains p with
  | some p => throw (.duplicateName p)
  | none => pure ()
  let scope : Scope := ⟨files, messages, enums, names⟩
  let messages ← messages.mapM scope.message
  let enums ← enums.mapM scope.enumeration
  -- the names were compared before and every type was found, so these do not fail
  let distinct ← checkDistinct .duplicateName (messages.map (·.fullName))
  let within ← checkKinds messages
  return { id := id, messages := messages, enums := enums, nodup_names := distinct.down,
           kinds_within := within.down }

end Protoscript
