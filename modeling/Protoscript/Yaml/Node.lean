import Protoscript.Yaml.Token

/-!
# YAML documents

A document is a tree of scalars, sequences and mappings, in which an alias stands for a node that
carries an anchor.

* `Node` — nodes, `Document` — the root of a tree and the nodes with anchors;
* `Builder` — a tree under construction. It takes one token at a time; what is still open lies on a
  stack of frames;
* `Document.ofText?` — the only document of a text.

An anchor is numbered by how many names were given before it, and an alias takes the last node of the
number of its name. So a name that is given again takes part in the numbering only once.
-/

namespace Protoscript.Yaml

/-- A node. Tags are written out. -/
inductive Node where
  | scalar (tag : Option String) (style : ScalarStyle) (text : String)
  | sequence (tag : Option String) (items : List Node)
  | mapping (tag : Option String) (entries : List (Node × Node))
  /-- the node with the anchor of a number -/
  | alias (anchor : Nat)
  deriving Inhabited

/-- A scalar that is not written at all. -/
def Node.missing : Node := .scalar none .plain ""

/-- A document. -/
structure Document where
  /-- the root, if the text holds anything -/
  root : Option Node
  /-- the nodes with anchors, by the number of the anchor -/
  anchors : List (Nat × Node)
  deriving Inhabited

/-! ## Frames -/

/-- Where a node is expected. -/
inductive Spot where
  /-- a document without a mark in front of it -/
  | bareRoot
  /-- a document behind a mark -/
  | root
  /-- an item of a block sequence -/
  | item
  /-- an item of a sequence that is not indented -/
  | flushItem
  /-- a key or value of a block mapping -/
  | part
  /-- an item in brackets that starts without a sign -/
  | flowItem
  /-- a key in brackets, behind its sign -/
  | flowKey
  /-- a value in a mapping in brackets -/
  | flowValue
  /-- the value of a single pair in a sequence in brackets -/
  | pairValue
  deriving DecidableEq

namespace Spot

/-- Whether a token says that there is nothing at the spot. -/
def isMissing : Spot → Token → Bool
  | root, .directive _ | root, .documentStart | root, .documentEnd | root, .streamEnd => true
  | item, .blockEntry | item, .blockEnd => true
  | flushItem, .blockEntry | flushItem, .key | flushItem, .value | flushItem, .blockEnd => true
  | part, .key | part, .value | part, .blockEnd => true
  | flowKey, .value | flowKey, .flowEntry | flowKey, .flowMappingEnd => true
  | flowValue, .flowEntry | flowValue, .flowMappingEnd => true
  | pairValue, .flowEntry | pairValue, .flowSequenceEnd => true
  | _, _ => false

/-- Whether block collections may stand at the spot. -/
def takesBlocks : Spot → Bool
  | bareRoot | root | item | flushItem | part => true
  | flowItem | flowKey | flowValue | pairValue => false

end Spot

/-- What is known of a node before it starts. -/
structure Properties where
  /-- the name of its anchor -/
  anchor : Option String := none
  /-- its tag -/
  tag : Option String := none

/-- Whether nothing is known. -/
def Properties.isEmpty (p : Properties) : Bool := p.anchor.isNone && p.tag.isNone

/-- A collection that was opened: its tag, and its place among the nodes with anchors. -/
structure Head where
  /-- the tag -/
  tag : Option String := none
  /-- which node with an anchor it is -/
  label : Option Nat := none

/-- How far an entry of a mapping is. -/
inductive EntryState where
  /-- an entry may start -/
  | free
  /-- the key is expected -/
  | awaitingKey
  /-- a key without a value is expected -/
  | awaitingLone
  /-- the key is there -/
  | keyed (key : Node)
  /-- the value is expected -/
  | awaitingValue (key : Node)
  /-- the entry is complete, and a comma or the end must follow -/
  | closed

/-- Something that is still open. Items and entries are listed with the last one first. -/
inductive Frame where
  /-- a node is expected -/
  | node (spot : Spot) (properties : Properties)
  | blockSequence (head : Head) (items : List Node)
  /-- a sequence that is not indented -/
  | flushSequence (head : Head) (items : List Node)
  | blockMapping (head : Head) (entries : List (Node × Node)) (state : EntryState)
  /-- a sequence in brackets, and whether an item may start -/
  | flowSequence (head : Head) (items : List Node) (free : Bool)
  | flowMapping (head : Head) (entries : List (Node × Node)) (state : EntryState)
  /-- a single pair in a sequence in brackets -/
  | pair (state : EntryState)

/-- A tree under construction. -/
structure Builder where
  /-- whether the document has begun -/
  begun : Bool := false
  /-- whether the text has ended -/
  ended : Bool := false
  /-- the version of the format, if one was given -/
  versioned : Bool := false
  /-- the handles that were declared and what they stand for -/
  handles : List (String × String) := []
  /-- the names of anchors and their numbers -/
  names : List (String × Nat) := []
  /-- for the number of an anchor, which node with an anchor it means -/
  labels : List (Nat × Nat) := []
  /-- the nodes with anchors that are complete -/
  labeled : List (Nat × Node) := []
  /-- what is open, the innermost first -/
  stack : List Frame := []
  /-- the root, once it is complete -/
  root : Option Node := none

namespace Builder

/-! ## Completing nodes -/

/-- Hands a complete node to the frame that waits for it. -/
def give (n : Node) : List Frame → List Frame × Option Node
  | [] => ([], some n)
  | .node _ _ :: rest => give n rest
  | .blockSequence h items :: rest => (.blockSequence h (n :: items) :: rest, none)
  | .flushSequence h items :: rest => (.flushSequence h (n :: items) :: rest, none)
  | .flowSequence h items _ :: rest => (.flowSequence h (n :: items) false :: rest, none)
  | .blockMapping h entries (.awaitingValue key) :: rest =>
    (.blockMapping h ((key, n) :: entries) .free :: rest, none)
  | .blockMapping h entries _ :: rest => (.blockMapping h entries (.keyed n) :: rest, none)
  | .flowMapping h entries (.awaitingValue key) :: rest =>
    (.flowMapping h ((key, n) :: entries) .closed :: rest, none)
  | .flowMapping h entries .awaitingLone :: rest =>
    (.flowMapping h ((n, .missing) :: entries) .closed :: rest, none)
  | .flowMapping h entries _ :: rest => (.flowMapping h entries (.keyed n) :: rest, none)
  | .pair (.awaitingValue key) :: rest => give (.mapping none [(key, n)]) rest
  | .pair _ :: rest => (.pair (.keyed n) :: rest, none)

theorem length_give_le (n : Node) (stack : List Frame) :
    (give n stack).1.length ≤ stack.length := by
  fun_induction give n stack <;> simp_all <;> omega

/-- The builder with a node complete, which the frames on a stack wait for. -/
def complete (b : Builder) (stack : List Frame) (label : Option Nat) (n : Node) : Builder :=
  let labeled := match label with
    | some l => (l, n) :: b.labeled
    | none => b.labeled
  let given := give n stack
  { b with labeled := labeled, stack := given.1, root := given.2 }

theorem length_complete_le (b : Builder) (stack : List Frame) (label : Option Nat) (n : Node) :
    (b.complete stack label n).stack.length ≤ stack.length := length_give_le n stack

/-! ## Starting nodes -/

/-- Starts a node: its anchor, if it has one, is numbered and from now on means this node. -/
def start (b : Builder) (p : Properties) : Builder × Head :=
  match p.anchor with
  | none => (b, { tag := p.tag })
  | some name =>
    let number := b.names.length
    let label := b.labels.length
    ({ b with
        names := (name, number) :: b.names.filter fun e => e.1 != name
        labels := (number, label) :: b.labels },
      { tag := p.tag, label := some label })

/-- A tag written out. Two handles need no declaration. -/
def expand? (b : Builder) (t : Tag) : Option String :=
  if t.handle.isEmpty then some t.suffix
  else
    let known := b.handles ++ [("!", "!"), ("!!", "tag:yaml.org,2002:")]
    (known.find? fun e => e.1 == t.handle).map fun e => e.2 ++ t.suffix

/-- Takes a token with which a node at a spot starts or goes on. -/
def enter? (b : Builder) (spot : Spot) (p : Properties) (stack : List Frame) (t : Token) :
    Option Builder :=
  let opened (frame : Head → List Frame) : Option Builder :=
    let (b, h) := b.start p
    some { b with stack := frame h ++ stack }
  match t with
  | .anchor name =>
    if p.anchor.isSome then none
    else some { b with stack := .node spot { p with anchor := some name } :: stack }
  | .tag tag =>
    if p.tag.isSome then none
    else (b.expand? tag).map fun tag =>
      { b with stack := .node spot { p with tag := some tag } :: stack }
  | .alias name =>
    if p.isEmpty then
      (b.names.find? fun e => e.1 == name).map fun e => b.complete stack none (.alias e.2)
    else none
  | .scalar style text =>
    let (b, h) := b.start p
    some (b.complete stack h.label (.scalar h.tag style text))
  | .flowSequenceStart => opened fun h => [.flowSequence h [] true]
  | .flowMappingStart => opened fun h => [.flowMapping h [] .free]
  | .blockSequenceStart =>
    if spot.takesBlocks then opened fun h => [.blockSequence h []] else none
  | .blockMappingStart =>
    if spot.takesBlocks then opened fun h => [.blockMapping h [] .free] else none
  | .blockEntry =>
    if spot == .part then opened fun h => [.node .flushItem {}, .flushSequence h []] else none
  | _ => none

/-- The builder with nothing at a spot where a node was expected. -/
def completeMissing (b : Builder) (p : Properties) (stack : List Frame) : Builder :=
  let (b, h) := b.start p
  b.complete stack h.label (.scalar h.tag .plain "")

/-! ## Inside collections -/

/-- Expects a node. -/
def await (b : Builder) (spot : Spot) (stack : List Frame) : Option Builder :=
  some { b with stack := .node spot {} :: stack }

/-- Takes a token between the entries of a block mapping. -/
def blockMappingStep? (b : Builder) (h : Head) (entries : List (Node × Node))
    (stack : List Frame) : Token → Option Builder
  | .key => b.await .part (.blockMapping h entries .awaitingKey :: stack)
  | .blockEnd => some (b.complete stack h.label (.mapping h.tag entries.reverse))
  | _ => none

/-- Takes a token of a sequence in brackets. -/
def flowSequenceStep? (b : Builder) (h : Head) (items : List Node) (free : Bool)
    (stack : List Frame) (t : Token) : Option Builder :=
  match t, free with
  | .flowSequenceEnd, _ => some (b.complete stack h.label (.sequence h.tag items.reverse))
  | .flowEntry, false => some { b with stack := .flowSequence h items true :: stack }
  | .key, true => some { b with stack := .pair .free :: .flowSequence h items false :: stack }
  | t, true => b.enter? .flowItem {} (.flowSequence h items false :: stack) t
  | _, false => none

/-- Takes a token between the entries of a mapping in brackets. -/
def flowMappingStep? (b : Builder) (h : Head) (entries : List (Node × Node)) (free : Bool)
    (stack : List Frame) (t : Token) : Option Builder :=
  match t, free with
  | .flowMappingEnd, _ => some (b.complete stack h.label (.mapping h.tag entries.reverse))
  | .flowEntry, false => some { b with stack := .flowMapping h entries .free :: stack }
  | .key, true => b.await .flowKey (.flowMapping h entries .awaitingKey :: stack)
  | t, true => b.enter? .flowItem {} (.flowMapping h entries .awaitingLone :: stack) t
  | _, false => none

/-- Takes a token of the document. A token that ends a node without belonging to it goes on to the
frame around it. -/
def bodyStep? (b : Builder) (t : Token) : Option Builder :=
  match _hs : b.stack with
  | [] =>
    match t with
    | .documentEnd => some b
    | .streamEnd => some { b with ended := true }
    | _ => none
  | .node spot p :: stack =>
    match b.enter? spot p stack t with
    | some b => some b
    | none =>
      if !p.isEmpty || spot.isMissing t then (b.completeMissing p stack).bodyStep? t else none
  | .blockSequence h items :: stack =>
    match t with
    | .blockEntry => b.await .item (.blockSequence h items :: stack)
    | .blockEnd => some (b.complete stack h.label (.sequence h.tag items.reverse))
    | _ => none
  | .flushSequence h items :: stack =>
    match t with
    | .blockEntry => b.await .flushItem (.flushSequence h items :: stack)
    | t => (b.complete stack h.label (.sequence h.tag items.reverse)).bodyStep? t
  | .blockMapping h entries (.keyed key) :: stack =>
    match t with
    | .value => b.await .part (.blockMapping h entries (.awaitingValue key) :: stack)
    | t => b.blockMappingStep? h ((key, .missing) :: entries) stack t
  | .blockMapping h entries _ :: stack => b.blockMappingStep? h entries stack t
  | .flowSequence h items free :: stack => b.flowSequenceStep? h items free stack t
  | .flowMapping h entries (.keyed key) :: stack =>
    match t with
    | .value => b.await .flowValue (.flowMapping h entries (.awaitingValue key) :: stack)
    | t => b.flowMappingStep? h ((key, .missing) :: entries) false stack t
  | .flowMapping h entries .closed :: stack => b.flowMappingStep? h entries false stack t
  | .flowMapping h entries _ :: stack => b.flowMappingStep? h entries true stack t
  | .pair (.keyed key) :: stack =>
    match t with
    | .value => b.await .pairValue (.pair (.awaitingValue key) :: stack)
    | t => (b.complete stack none (.mapping none [(key, .missing)])).bodyStep? t
  | .pair _ :: stack =>
    match t with
    | .value | .flowEntry | .flowSequenceEnd =>
      some { b with stack := .pair (.keyed .missing) :: stack }
    | t => b.enter? .flowItem {} (.pair .awaitingKey :: stack) t
termination_by b.stack.length
decreasing_by
  all_goals
    simp only [_hs, List.length_cons, completeMissing]
    exact Nat.lt_succ_of_le (length_complete_le ..)

/-! ## Documents -/

/-- Takes a directive. Only versions 1.1 and 1.2 are known. -/
def directiveStep? (b : Builder) : Directive → Option Builder
  | .version major minor =>
    if b.versioned || major != 1 || (minor != 1 && minor != 2) then none
    else some { b with versioned := true }
  | .handle handle expansion =>
    if b.handles.any fun e => e.1 == handle then none
    else some { b with handles := (handle, expansion) :: b.handles }

/-- Takes a token. -/
def step? (b : Builder) (t : Token) : Option Builder :=
  if b.ended then none
  else if b.begun then b.bodyStep? t
  else
    match t with
    | .directive d => b.directiveStep? d
    | .documentStart => some { b with begun := true, stack := [.node .root {}] }
    | t =>
      if b.versioned || !b.handles.isEmpty then none
      else
        match t with
        | .streamEnd => some { b with begun := true, ended := true }
        | t => ({ b with begun := true, stack := [.node .bareRoot {}] } : Builder).bodyStep? t

/-- The nodes with anchors, by the number of the anchor. -/
def anchors (b : Builder) : List (Nat × Node) :=
  b.labels.filterMap fun e =>
    (b.labeled.find? fun n => n.1 == e.2).map fun n => (e.1, n.2)

end Builder

/-- The document that tokens describe. -/
def Document.ofTokens? (tokens : List Token) : Option Document := do
  let b ← tokens.foldlM Builder.step? {}
  if b.ended then some ⟨b.root, b.anchors⟩ else none

/-- The only document of a text; it has no root if the text holds nothing. -/
def Document.ofText? (s : String) : Option Document := (Token.ofText? s).bind Document.ofTokens?

/-- The node of an anchor. -/
def Document.anchored? (d : Document) (anchor : Nat) : Option Node :=
  (d.anchors.find? fun e => e.1 == anchor).map (·.2)

end Protoscript.Yaml
