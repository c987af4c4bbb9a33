import Protoscript.Json.Number
import Protoscript.Number.Integer

/-!
# Reading JSON

Reading goes in two steps, each a run of a small machine over a list: characters to tokens, and
tokens to a tree.

* `JsonToken`, `JsonToken.ofText?` — the tokens of a text; texts must be well formed, so a half of a
  surrogate pair alone is refused;
* `Json.ofTokens?` — the value that a list of tokens is. Arrays and objects nest at most 127 deep;
* `Json.ofText?` — both steps.
-/

namespace Protoscript

/-- A token of JSON. -/
inductive JsonToken where
  | openArray | closeArray | openObject | closeObject | comma | colon
  | text (value : String)
  /-- a number or one of the three words -/
  | plain (value : Json)

/-! ## Tokens -/

/-- What is being read: nothing, a text, an escape in a text, the digits of a code unit, or a number
or word. Characters are gathered last first. -/
inductive JsonMode where
  | idle
  | text (chars : List Char)
  | escape (chars : List Char) (high : Option Nat)
  | unit (chars : List Char) (high : Option Nat) (digits : Nat) (value : Nat)
  /-- after the first half of a surrogate pair -/
  | half (chars : List Char) (high : Nat)
  | plain (chars : List Char)

/-- The tokens read so far, last first, and what is being read. -/
structure JsonLexer where
  /-- the tokens -/
  done : List JsonToken
  /-- what is being read -/
  mode : JsonMode

/-- Whether a character may stand between tokens. -/
def isJsonBlank (c : Char) : Bool := c == ' ' || c == '\n' || c == '\t' || c == '\r'

/-- The token of a number or word. -/
def JsonToken.ofPlain? (cs : List Char) : Option JsonToken :=
  if cs = ['n', 'u', 'l', 'l'] then some (.plain .null)
  else if cs = ['t', 'r', 'u', 'e'] then some (.plain (.bool true))
  else if cs = ['f', 'a', 'l', 's', 'e'] then some (.plain (.bool false))
  else (JsonNumber.ofChars? cs).bind fun n => n.value?.map .plain

/-- The character of an escape by letter. -/
def jsonEscape? (c : Char) : Option Char :=
  if c == '"' || c == '\\' || c == '/' then some c
  else if c == 'b' then some '\x08'
  else if c == 'f' then some '\x0c'
  else if c == 'n' then some '\n'
  else if c == 'r' then some '\r'
  else if c == 't' then some '\t'
  else none

/-- The mode after a code unit: the second half of a pair completes it, the first one waits for it. -/
def JsonMode.afterUnit? (chars : List Char) (high : Option Nat) (unit : Nat) : Option JsonMode :=
  match high with
  | some h =>
    if 0xdc00 ≤ unit ∧ unit < 0xe000 then
      some (.text (Char.ofNat (0x10000 + (h - 0xd800) * 0x400 + (unit - 0xdc00)) :: chars))
    else none
  | none =>
    if 0xd800 ≤ unit ∧ unit < 0xdc00 then some (.half chars unit)
    else if 0xdc00 ≤ unit ∧ unit < 0xe000 then none
    else some (.text (Char.ofNat unit :: chars))

namespace JsonLexer

/-- Reads a character between tokens. -/
def start? (done : List JsonToken) (c : Char) : Option JsonLexer :=
  if isJsonBlank c then some ⟨done, .idle⟩
  else if c == '"' then some ⟨done, .text []⟩
  else if c == '[' then some ⟨.openArray :: done, .idle⟩
  else if c == ']' then some ⟨.closeArray :: done, .idle⟩
  else if c == '\x7b' then some ⟨.openObject :: done, .idle⟩
  else if c == '\x7d' then some ⟨.closeObject :: done, .idle⟩
  else if c == ',' then some ⟨.comma :: done, .idle⟩
  else if c == ':' then some ⟨.colon :: done, .idle⟩
  else some ⟨done, .plain [c]⟩

/-- Whether a character ends a number or word. -/
def endsPlain (c : Char) : Bool :=
  isJsonBlank c || c == '"' || c == '[' || c == ']' || c == '\x7b' || c == '\x7d' || c == ',' ||
    c == ':'

/-- Reads a character. -/
def step? (l : JsonLexer) (c : Char) : Option JsonLexer :=
  match l.mode with
  | .idle => start? l.done c
  | .plain chars =>
    if endsPlain c then
      (JsonToken.ofPlain? chars.reverse).bind fun t => start? (t :: l.done) c
    else some ⟨l.done, .plain (c :: chars)⟩
  | .text chars =>
    if c == '"' then some ⟨.text (String.ofList chars.reverse) :: l.done, .idle⟩
    else if c == '\\' then some ⟨l.done, .escape chars none⟩
    else if c < ' ' then none
    else some ⟨l.done, .text (c :: chars)⟩
  | .half chars high => if c == '\\' then some ⟨l.done, .escape chars (some high)⟩ else none
  | .escape chars high =>
    if c == 'u' then some ⟨l.done, .unit chars high 0 0⟩
    else if high.isSome then none
    else (jsonEscape? c).map fun e => ⟨l.done, .text (e :: chars)⟩
  | .unit chars high digits value =>
    match hexValue? c with
    | none => none
    | some d =>
      if digits < 3 then some ⟨l.done, .unit chars high (digits + 1) (value * 16 + d)⟩
      else (JsonMode.afterUnit? chars high (value * 16 + d)).map (⟨l.done, ·⟩)

/-- The tokens at the end of the text. -/
def finish? (l : JsonLexer) : Option (List JsonToken) :=
  match l.mode with
  | .idle => some l.done.reverse
  | .plain chars => (JsonToken.ofPlain? chars.reverse).map fun t => (t :: l.done).reverse
  | _ => none

end JsonLexer

/-- The tokens of a text. -/
def JsonToken.ofText? (s : String) : Option (List JsonToken) :=
  (s.toList.foldlM JsonLexer.step? ⟨[], .idle⟩).bind JsonLexer.finish?

/-! ## Trees -/

/-- An array or object that is still open, with what it holds so far, last first. -/
inductive JsonFrame where
  | array (items : List Json)
  | object (members : List (String × Json))
  /-- an object after a name and a colon -/
  | member (members : List (String × Json)) (name : String)

/-- What may come next. -/
inductive JsonExpect where
  | value
  /-- a value, or the end of the array -/
  | firstItem
  /-- a name, or the end of the object -/
  | firstName
  | name
  | colon (name : String)
  /-- a comma, or the end of what is open -/
  | next
  /-- nothing: the value is complete -/
  | nothing (value : Json)

/-- The open arrays and objects, innermost first, and what may come next. -/
structure JsonBuilder where
  /-- the open arrays and objects -/
  stack : List JsonFrame
  /-- what may come next -/
  expect : JsonExpect

/-- How deep arrays and objects may nest. -/
def jsonDepth : Nat := 127

namespace JsonBuilder

/-- Takes a complete value into what is open. -/
def add? (stack : List JsonFrame) (value : Json) : Option JsonBuilder :=
  match stack with
  | [] => some ⟨[], .nothing value⟩
  | .array items :: stack => some ⟨.array (value :: items) :: stack, .next⟩
  | .member members name :: stack => some ⟨.object ((name, value) :: members) :: stack, .next⟩
  | .object _ :: _ => none

/-- Opens an array or object. -/
def open? (stack : List JsonFrame) (frame : JsonFrame) (expect : JsonExpect) :
    Option JsonBuilder :=
  if stack.length < jsonDepth then some ⟨frame :: stack, expect⟩ else none

/-- Takes the first token of a value. -/
def value? (stack : List JsonFrame) (t : JsonToken) : Option JsonBuilder :=
  match t with
  | .text s => add? stack (.text s)
  | .plain v => add? stack v
  | .openArray => open? stack (.array []) .firstItem
  | .openObject => open? stack (.object []) .firstName
  | .closeArray | .closeObject | .comma | .colon => none

/-- Closes the innermost array or object. -/
def close? (stack : List JsonFrame) (t : JsonToken) : Option JsonBuilder :=
  match stack, t with
  | .array items :: stack, .closeArray => add? stack (.array items.reverse)
  | .object members :: stack, .closeObject => add? stack (.object members.reverse)
  | _, _ => none

/-- Takes a token. -/
def step? (b : JsonBuilder) (t : JsonToken) : Option JsonBuilder :=
  match b.expect, t with
  | .value, t => value? b.stack t
  | .firstItem, .closeArray => close? b.stack .closeArray
  | .firstItem, t => value? b.stack t
  | .firstName, .closeObject => close? b.stack .closeObject
  | .firstName, .text s => some ⟨b.stack, .colon s⟩
  | .name, .text s => some ⟨b.stack, .colon s⟩
  | .colon name, .colon =>
    match b.stack with
    | .object members :: stack => some ⟨.member members name :: stack, .value⟩
    | _ => none
  | .next, .comma =>
    match b.stack with
    | .array _ :: _ => some ⟨b.stack, .value⟩
    | .object _ :: _ => some ⟨b.stack, .name⟩
    | _ => none
  | .next, t => close? b.stack t
  | _, _ => none

end JsonBuilder

/-- The value that a list of tokens is. -/
def Json.ofTokens? (tokens : List JsonToken) : Option Json :=
  match tokens.foldlM JsonBuilder.step? ⟨[], .value⟩ with
  | some ⟨_, .nothing value⟩ => some value
  | _ => none

/-- The value that a text is. -/
def Json.ofText? (s : String) : Option Json := (JsonToken.ofText? s).bind Json.ofTokens?

end Protoscript
