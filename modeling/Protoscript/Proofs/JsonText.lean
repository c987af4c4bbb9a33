import Mathlib.Tactic.SplitIfs
import Protoscript.Json.Reader
import Protoscript.Json.Writer
import Protoscript.Proofs.Numerals

/-!
# JSON texts are read back

What a tree is written as, on one line or indented, is read as the tree again, if it nests no deeper
than is read, its integers fit 64 bits and its floating-point numbers are zeros. A single is read as a
double.

* `Json.Legible`, `Json.nesting` — trees that are read back;
* `Json.reread` — what they are read back as;
* `Json.tokens` — the tokens of a tree, which both texts have;
* `JsonToken.Lexes` — texts with certain tokens, whatever may follow;
* `Json.ofText?_compact`, `Json.ofText?_pretty` — the two texts of a tree are read back.
-/

namespace Protoscript

/-! ## Trees -/

namespace Json

/-- Trees whose texts are read back. -/
inductive Legible : Json → Prop
  | null : Legible .null
  | bool {b : Bool} : Legible (.bool b)
  | int {n : Int} (hlow : -pow2 63 ≤ n) (hhigh : n < pow2 64) : Legible (.int n)
  | double {negative : Bool} : Legible (.double (.zero negative))
  | single {negative : Bool} : Legible (.single (.ofMagnitude negative 0))
  | text {s : String} : Legible (.text s)
  | array {items : List Json} (h : ∀ j ∈ items, j.Legible) : Legible (.array items)
  | object {members : List (String × Json)} (h : ∀ m ∈ members, m.2.Legible) :
    Legible (.object members)

mutual

/-- How deep arrays and objects nest. -/
def nesting : Json → Nat
  | .array items => itemsNesting items + 1
  | .object members => membersNesting members + 1
  | _ => 0

/-- How deep arrays and objects nest in the items of an array. -/
def itemsNesting : List Json → Nat
  | [] => 0
  | item :: rest => max (nesting item) (itemsNesting rest)

/-- How deep arrays and objects nest in the members of an object. -/
def membersNesting : List (String × Json) → Nat
  | [] => 0
  | (_, value) :: rest => max (nesting value) (membersNesting rest)

end

mutual

/-- The tree that the text of a tree is read as. -/
def reread : Json → Json
  | .single x => .double x.toDouble
  | .array items => .array (rereadItems items)
  | .object members => .object (rereadMembers members)
  | value => value

/-- The items of an array, each as it is read. -/
def rereadItems : List Json → List Json
  | [] => []
  | item :: rest => reread item :: rereadItems rest

/-- The members of an object, each as it is read. -/
def rereadMembers : List (String × Json) → List (String × Json)
  | [] => []
  | (name, value) :: rest => (name, reread value) :: rereadMembers rest

end

mutual

/-- The tokens of the text of a tree. -/
def tokens : Json → List JsonToken
  | .text s => [.text s]
  | .array items => .openArray :: (itemTokens items ++ [.closeArray])
  | .object members => .openObject :: (memberTokens members ++ [.closeObject])
  | value => [.plain value.reread]

/-- The tokens of items with commas between them. -/
def itemTokens : List Json → List JsonToken
  | [] => []
  | [item] => tokens item
  | item :: rest => tokens item ++ .comma :: itemTokens rest

/-- The tokens of members with commas between them. -/
def memberTokens : List (String × Json) → List JsonToken
  | [] => []
  | [(name, value)] => .text name :: .colon :: tokens value
  | (name, value) :: rest => .text name :: .colon :: (tokens value ++ .comma :: memberTokens rest)

end

end Json

/-! ## From tokens to a tree -/

namespace JsonBuilder

/-- Takes tokens one after the other. -/
def run (b : JsonBuilder) (ts : List JsonToken) : Option JsonBuilder := ts.foldlM step? b

@[simp] theorem run_nil (b : JsonBuilder) : b.run [] = some b := rfl

theorem run_cons (b : JsonBuilder) (t : JsonToken) (ts : List JsonToken) :
    b.run (t :: ts) = (b.step? t).bind fun b => b.run ts := rfl

theorem run_append (b : JsonBuilder) (ts us : List JsonToken) :
    b.run (ts ++ us) = (b.run ts).bind fun b => b.run us := List.foldlM_append

/-- A value may come where one is expected, and first in an array. -/
def Takes (e : JsonExpect) : Prop := e = .value ∨ e = .firstItem

/-- A name may come after a comma, and first in an object. -/
def Names (e : JsonExpect) : Prop := e = .name ∨ e = .firstName

variable {stack : List JsonFrame} {e : JsonExpect}

theorem step?_openArray (he : Takes e) (h : stack.length < jsonDepth) :
    step? ⟨stack, e⟩ .openArray = some ⟨.array [] :: stack, .firstItem⟩ := by
  rcases he with rfl | rfl <;> exact if_pos h

theorem step?_openObject (he : Takes e) (h : stack.length < jsonDepth) :
    step? ⟨stack, e⟩ .openObject = some ⟨.object [] :: stack, .firstName⟩ := by
  rcases he with rfl | rfl <;> exact if_pos h

theorem step?_text (he : Takes e) (s : String) :
    step? ⟨stack, e⟩ (.text s) = add? stack (.text s) := by
  rcases he with rfl | rfl <;> rfl

theorem step?_plain (he : Takes e) (v : Json) : step? ⟨stack, e⟩ (.plain v) = add? stack v := by
  rcases he with rfl | rfl <;> rfl

theorem step?_name (he : Names e) (s : String) :
    step? ⟨stack, e⟩ (.text s) = some ⟨stack, .colon s⟩ := by
  rcases he with rfl | rfl <;> rfl

theorem step?_colon (members : List (String × Json)) (name : String) :
    step? ⟨.object members :: stack, .colon name⟩ .colon =
      some ⟨.member members name :: stack, .value⟩ := rfl

end JsonBuilder

namespace Json

open JsonBuilder

mutual

/-- The tokens of a tree are taken as one value. -/
theorem run_tokens (j : Json) {stack : List JsonFrame} {e : JsonExpect} (he : Takes e)
    (h : stack.length + j.nesting ≤ jsonDepth) :
    run ⟨stack, e⟩ j.tokens = add? stack j.reread := by
  match j with
  | .array items =>
    rw [nesting] at h
    rw [tokens, reread, run_cons, step?_openArray he (by omega), Option.bind_some, run_append]
    match items with
    | [] => exact Option.bind_fun_some _
    | item :: rest =>
      rw [run_itemTokens (item :: rest) [] (List.cons_ne_nil item rest) (.inr rfl) (by omega),
        Option.bind_some, List.append_nil]
      exact (Option.bind_fun_some _).trans (congrArg (add? stack ∘ array) (List.reverse_reverse _))
  | .object members =>
    rw [nesting] at h
    rw [tokens, reread, run_cons, step?_openObject he (by omega), Option.bind_some, run_append]
    match members with
    | [] => exact Option.bind_fun_some _
    | member :: rest =>
      rw [run_memberTokens (member :: rest) [] (List.cons_ne_nil member rest) (.inr rfl) (by omega),
        Option.bind_some, List.append_nil]
      exact (Option.bind_fun_some _).trans (congrArg (add? stack ∘ object) (List.reverse_reverse _))
  | .text s => exact (Option.bind_fun_some _).trans (step?_text he s)
  | .null => exact (Option.bind_fun_some _).trans (step?_plain he .null)
  | .bool b => exact (Option.bind_fun_some _).trans (step?_plain he (.bool b))
  | .int n => exact (Option.bind_fun_some _).trans (step?_plain he (.int n))
  | .double x => exact (Option.bind_fun_some _).trans (step?_plain he (.double x))
  | .single x => exact (Option.bind_fun_some _).trans (step?_plain he (.double x.toDouble))

/-- The tokens of items are taken into an array. -/
theorem run_itemTokens (items : List Json) {stack : List JsonFrame} (done : List Json)
    (hne : items ≠ []) {e : JsonExpect} (he : Takes e)
    (h : stack.length + (itemsNesting items + 1) ≤ jsonDepth) :
    run ⟨.array done :: stack, e⟩ (itemTokens items) =
      some ⟨.array ((rereadItems items).reverse ++ done) :: stack, .next⟩ := by
  match items with
  | [item] =>
    rw [itemsNesting] at h
    rw [itemTokens, run_tokens item he (by rw [List.length_cons]; omega)]
    rfl
  | item :: next :: rest =>
    rw [itemsNesting] at h
    have hrest := @run_itemTokens (next :: rest) stack (item.reread :: done)
      (List.cons_ne_nil next rest) _ (.inl rfl) (by omega)
    rw [itemTokens, run_append, run_tokens item he (by rw [List.length_cons]; omega)]
    · change run ⟨.array (item.reread :: done) :: stack, .value⟩ (itemTokens (next :: rest)) = _
      rw [hrest]
      simp [rereadItems]
    · exact List.cons_ne_nil next rest

/-- The tokens of members are taken into an object. -/
theorem run_memberTokens (members : List (String × Json)) {stack : List JsonFrame}
    (done : List (String × Json)) (hne : members ≠ []) {e : JsonExpect} (he : Names e)
    (h : stack.length + (membersNesting members + 1) ≤ jsonDepth) :
    run ⟨.object done :: stack, e⟩ (memberTokens members) =
      some ⟨.object ((rereadMembers members).reverse ++ done) :: stack, .next⟩ := by
  match members with
  | [(name, value)] =>
    rw [membersNesting] at h
    rw [memberTokens, run_cons, step?_name he, Option.bind_some, run_cons, step?_colon,
      Option.bind_some, run_tokens value (.inl rfl) (by rw [List.length_cons]; omega)]
    rfl
  | (name, value) :: next :: rest =>
    rw [membersNesting] at h
    have hrest := @run_memberTokens (next :: rest) stack ((name, value.reread) :: done)
      (List.cons_ne_nil next rest) _ (.inl rfl) (by omega)
    rw [memberTokens, run_cons, step?_name he, Option.bind_some, run_cons, step?_colon,
      Option.bind_some, run_append, run_tokens value (.inl rfl) (by rw [List.length_cons]; omega)]
    · change run ⟨.object ((name, value.reread) :: done) :: stack, .name⟩
        (memberTokens (next :: rest)) = _
      rw [hrest]
      simp [rereadMembers]
    · exact List.cons_ne_nil next rest

end

/-- A tree that does not nest too deep is made of its tokens. -/
theorem ofTokens?_tokens {j : Json} (h : j.nesting ≤ jsonDepth) :
    ofTokens? j.tokens = some j.reread := by
  have hrun : run ⟨[], .value⟩ j.tokens = some ⟨[], .nothing j.reread⟩ :=
    run_tokens j (.inl rfl) (by simpa using h)
  unfold ofTokens?
  rw [show j.tokens.foldlM step? ⟨[], .value⟩ = _ from hrun]

end Json

/-! ## From characters to tokens -/

namespace JsonLexer

/-- Reads the rest of a text. -/
def run (l : JsonLexer) (cs : List Char) : Option (List JsonToken) := (cs.foldlM step? l).bind finish?

theorem run_cons (l : JsonLexer) (c : Char) (cs : List Char) :
    l.run (c :: cs) = (l.step? c).bind fun l => l.run cs := by
  unfold run
  rw [List.foldlM_cons]
  rcases l.step? c with _ | l <;> rfl

variable {done : List JsonToken} {chars : List Char} {c : Char}

theorem step?_idle : step? ⟨done, .idle⟩ c = start? done c := rfl

theorem step?_plain (hc : endsPlain c = false) :
    step? ⟨done, .plain chars⟩ c = some ⟨done, .plain (c :: chars)⟩ :=
  if_neg (by rw [hc]; exact Bool.false_ne_true)

theorem step?_ends (hc : endsPlain c = true) :
    step? ⟨done, .plain chars⟩ c =
      (JsonToken.ofPlain? chars.reverse).bind fun t => start? (t :: done) c :=
  if_pos hc

theorem step?_closes : step? ⟨done, .text chars⟩ '"' =
    some ⟨.text (String.ofList chars.reverse) :: done, .idle⟩ := rfl

theorem step?_escapes : step? ⟨done, .text chars⟩ '\\' = some ⟨done, .escape chars none⟩ := rfl

theorem step?_text (hquote : c ≠ '"') (hback : c ≠ '\\') (hc : ¬ c < ' ') :
    step? ⟨done, .text chars⟩ c = some ⟨done, .text (c :: chars)⟩ := by
  unfold step?
  simp [hquote, hback, hc]

theorem step?_escape {e : Char} (hu : c ≠ 'u') (he : jsonEscape? c = some e) :
    step? ⟨done, .escape chars none⟩ c = some ⟨done, .text (e :: chars)⟩ := by
  unfold step?
  simp [hu, he]

theorem step?_unit : step? ⟨done, .escape chars none⟩ 'u' = some ⟨done, .unit chars none 0 0⟩ := rfl

theorem step?_digit {digits value d : Nat} (hd : hexValue? c = some d) (hdigits : digits < 3) :
    step? ⟨done, .unit chars none digits value⟩ c =
      some ⟨done, .unit chars none (digits + 1) (value * 16 + d)⟩ := by
  unfold step?
  simp [hd, hdigits]

theorem step?_lastDigit {value d : Nat} (hd : hexValue? c = some d) (hunit : value * 16 + d < 0xd800) :
    step? ⟨done, .unit chars none 3 value⟩ c =
      some ⟨done, .text (Char.ofNat (value * 16 + d) :: chars)⟩ := by
  unfold step? JsonMode.afterUnit?
  simp [hd, show ¬ 0xd800 ≤ value * 16 + d by omega, show ¬ 0xdc00 ≤ value * 16 + d by omega]

/-- A character that ends no number or word starts one. -/
theorem start?_of_endsPlain (hc : endsPlain c = false) : start? done c = some ⟨done, .plain [c]⟩ := by
  unfold endsPlain at hc
  simp only [Bool.or_eq_false_iff] at hc
  simp [start?, hc]

end JsonLexer

namespace JsonToken

open JsonLexer

/-- Whether nothing follows, or a character that ends a number or word. -/
def Ends (rest : List Char) : Prop := ∀ c ∈ rest.head?, endsPlain c = true

theorem Ends.cons {c : Char} (hc : endsPlain c = true) (rest : List Char) : Ends (c :: rest) := by
  rintro _ ⟨⟩
  exact hc

/-- Whether a text has certain tokens, whatever follows that ends it. -/
def Lexes (cs : List Char) (ts : List JsonToken) : Prop :=
  ∀ done rest, Ends rest → run ⟨done, .idle⟩ (cs ++ rest) = run ⟨ts.reverse ++ done, .idle⟩ rest

variable {done : List JsonToken}

/-! ### Punctuation -/

theorem run_blank {c : Char} (hc : isJsonBlank c = true) (rest : List Char) :
    run ⟨done, .idle⟩ (c :: rest) = run ⟨done, .idle⟩ rest := by
  rw [run_cons, step?_idle, start?, if_pos hc, Option.bind_some]

theorem run_blanks {cs : List Char} (hcs : ∀ c ∈ cs, isJsonBlank c = true) (rest : List Char) :
    run ⟨done, .idle⟩ (cs ++ rest) = run ⟨done, .idle⟩ rest := by
  induction cs with
  | nil => rfl
  | cons c cs ih =>
    rw [List.cons_append, run_blank (hcs c List.mem_cons_self)]
    exact ih fun d hd => hcs d (List.mem_cons_of_mem c hd)

theorem run_punctuation {c : Char} {t : JsonToken}
    (hc : ∀ done, start? done c = some ⟨t :: done, .idle⟩) (rest : List Char) :
    run ⟨done, .idle⟩ (c :: rest) = run ⟨t :: done, .idle⟩ rest := by
  rw [run_cons, step?_idle, hc, Option.bind_some]

/-! ### Numbers and words -/

theorem run_plain {chars cs : List Char} (hcs : ∀ c ∈ cs, endsPlain c = false) (rest : List Char) :
    run ⟨done, .plain chars⟩ (cs ++ rest) = run ⟨done, .plain (cs.reverse ++ chars)⟩ rest := by
  induction cs generalizing chars with
  | nil => rfl
  | cons c cs ih =>
    rw [List.cons_append, run_cons, step?_plain (hcs c List.mem_cons_self), Option.bind_some,
      ih fun d hd => hcs d (List.mem_cons_of_mem c hd), List.reverse_cons, List.append_assoc]
    rfl

theorem plain_of_all {cs : List Char} (h : cs.all (fun c => !endsPlain c) = true) :
    ∀ c ∈ cs, endsPlain c = false := by
  intro c hc
  simpa using List.all_eq_true.1 h c hc

/-- A number or word is one token. -/
theorem Lexes.plain {cs : List Char} {t : JsonToken} (hne : cs ≠ [])
    (hcs : ∀ c ∈ cs, endsPlain c = false) (ht : ofPlain? cs = some t) : Lexes cs [t] := by
  intro done rest hrest
  rcases cs with _ | ⟨c, cs⟩
  · exact absurd rfl hne
  have hrun : run ⟨done, .idle⟩ (c :: cs ++ rest) = run ⟨done, .plain (c :: cs).reverse⟩ rest := by
    rw [List.cons_append, run_cons, step?_idle, start?_of_endsPlain (hcs c List.mem_cons_self),
      Option.bind_some, run_plain fun d hd => hcs d (List.mem_cons_of_mem c hd), List.reverse_cons]
  rw [hrun]
  rcases rest with _ | ⟨d, rest⟩
  · simp [run, finish?, ht]
  · rw [run_cons, run_cons, step?_ends (hrest d rfl), List.reverse_reverse, ht]
    rfl

/-! ### Quoted texts -/

/-- A character is read back from how it stands in a quoted text. -/
theorem run_quoteChar {chars : List Char} (c : Char) (rest : List Char) :
    run ⟨done, .text chars⟩ (Json.quoteChar c ++ rest) = run ⟨done, .text (c :: chars)⟩ rest := by
  -- an escape by letter
  have hletter {l e : Char} (hu : l ≠ 'u') (he : jsonEscape? l = some e) :
      run ⟨done, .text chars⟩ (['\\', l] ++ rest) = run ⟨done, .text (e :: chars)⟩ rest := by
    rw [List.cons_append, List.cons_append, run_cons, step?_escapes, Option.bind_some, run_cons,
      step?_escape hu he, Option.bind_some, List.nil_append]
  unfold Json.quoteChar
  split_ifs with hquote hback hb hf hn hr ht hlow
  · rw [beq_iff_eq.1 hquote]
    exact hletter (by decide) rfl
  · rw [beq_iff_eq.1 hback]
    exact hletter (by decide) rfl
  · rw [beq_iff_eq.1 hb]
    exact hletter (by decide) rfl
  · rw [beq_iff_eq.1 hf]
    exact hletter (by decide) rfl
  · rw [beq_iff_eq.1 hn]
    exact hletter (by decide) rfl
  · rw [beq_iff_eq.1 hr]
    exact hletter (by decide) rfl
  · rw [beq_iff_eq.1 ht]
    exact hletter (by decide) rfl
  · -- other control characters by number, in two digits
    have hsmall : c.toNat < 32 := hlow
    have hbyte : (UInt8.ofNat c.toNat).toNat = c.toNat :=
      UInt8.toNat_ofNat_of_lt (Nat.lt_trans hsmall (by decide))
    have hzero : hexValue? '0' = some 0 := rfl
    have hfirst : hexValue? (Nat.digitChar (c.toNat / 16)) = some (c.toNat / 16) :=
      hexValue?_digitChar (by omega)
    have hsecond : hexValue? (Nat.digitChar (c.toNat % 16)) = some (c.toNat % 16) :=
      hexValue?_digitChar (by omega)
    simp only [hexByte, hbyte, List.cons_append, List.nil_append]
    rw [run_cons, step?_escapes, Option.bind_some, run_cons, step?_unit, Option.bind_some, run_cons,
      step?_digit hzero (by omega), Option.bind_some, run_cons, step?_digit hzero (by omega),
      Option.bind_some, run_cons, step?_digit hfirst (by omega), Option.bind_some, run_cons,
      step?_lastDigit hsecond (by omega), Option.bind_some]
    rw [show (((0 * 16 + 0) * 16 + 0) * 16 + c.toNat / 16) * 16 + c.toNat % 16 = c.toNat by omega,
      Char.ofNat_toNat]
  · rw [List.cons_append, run_cons, step?_text (by simpa using hquote) (by simpa using hback) hlow]
    rfl

theorem run_quoteChars {chars : List Char} (cs rest : List Char) :
    run ⟨done, .text chars⟩ (cs.flatMap Json.quoteChar ++ rest) =
      run ⟨done, .text (cs.reverse ++ chars)⟩ rest := by
  induction cs generalizing chars with
  | nil => rfl
  | cons c cs ih =>
    rw [List.flatMap_cons, List.append_assoc, run_quoteChar, ih, List.reverse_cons, List.append_assoc]
    rfl

/-- A quoted text is one token. -/
theorem Lexes.quote (s : String) : Lexes (Json.quote s).toList [.text s] := by
  intro done rest _
  have hopens : start? done '"' = some ⟨done, .text []⟩ := rfl
  rw [Json.quote, String.toList_ofList, List.append_assoc, List.append_assoc, List.cons_append, run_cons,
    step?_idle, hopens, Option.bind_some, List.nil_append, run_quoteChars, List.cons_append, run_cons,
    step?_closes, Option.bind_some, List.append_nil, List.reverse_reverse, String.ofList_toList]
  rfl

/-! ### Integers -/

theorem endsPlain_of_mem_toString {n : Int} {c : Char} (hc : c ∈ (toString n).toList) :
    endsPlain c = false := by
  have hdigits : ∀ c ∈ Nat.toDigits 10 n.natAbs, endsPlain c = false := by
    obtain ⟨digits, h⟩ := exists_decimals n.natAbs
    rw [h.chars]
    intro c hc
    obtain ⟨d, hd, rfl⟩ := List.mem_map.1 hc
    exact (by decide : ∀ d < 10, endsPlain (Nat.digitChar d) = false) d (h.small d hd)
  rw [toList_toString_int] at hc
  split at hc
  · rcases List.mem_cons.1 hc with rfl | hc
    · rfl
    · exact hdigits c hc
  · exact hdigits c hc

/-- A number is none of the three words. -/
theorem ofPlain?_of_value? {cs : List Char} {v : Json}
    (hv : (JsonNumber.ofChars? cs).bind JsonNumber.value? = some v) : ofPlain? cs = some (.plain v) := by
  obtain ⟨n, hn, hv⟩ := Option.bind_eq_some_iff.1 hv
  have hword {word : List Char} (hword : JsonNumber.ofChars? word = none) : cs ≠ word := by
    rintro rfl
    rw [hn] at hword
    cases hword
  rw [ofPlain?, if_neg (hword (by rfl)), if_neg (hword (by rfl)), if_neg (hword (by rfl)), hn,
    Option.bind_some, hv, Option.map_some]

theorem Lexes.int {n : Int} (hlow : -pow2 63 ≤ n) (hhigh : n < pow2 64) :
    Lexes (toString n).toList [.plain (.int n)] := by
  refine .plain ?_ (fun c hc => endsPlain_of_mem_toString hc)
    (ofPlain?_of_value? (JsonNumber.value?_toString hlow hhigh))
  obtain ⟨c, rest, hcons, -⟩ := toDigits_eq_cons n.natAbs
  rw [toList_toString_int, hcons]
  split <;> exact List.cons_ne_nil _ _

/-! ### Zeros -/

/-- The text of a zero with a sign. -/
def zeroText (negative : Bool) : String := if negative then "-0.0" else "0.0"

theorem flat_double (negative : Bool) : (Json.double (.zero negative)).flat = zeroText negative := by
  cases negative <;> decide +kernel

theorem flat_single (negative : Bool) :
    (Json.single (.ofMagnitude negative 0)).flat = zeroText negative := by
  cases negative <;> decide +kernel

theorem toDouble_zero (negative : Bool) :
    (Single.ofMagnitude negative 0).toDouble = .zero negative := by
  cases negative <;> decide +kernel

theorem Lexes.zero (negative : Bool) :
    Lexes (zeroText negative).toList [.plain (.double (.zero negative))] := by
  have hparts : JsonNumber.ofParts? negative 0 (-1) = some (.zero negative) := by
    cases negative <;> decide +kernel
  cases negative with
  | false =>
    refine .plain (by decide) (plain_of_all rfl) (ofPlain?_of_value? ?_)
    exact congrArg (Option.map Json.double) hparts
  | true =>
    refine .plain (by decide) (plain_of_all rfl) (ofPlain?_of_value? ?_)
    exact congrArg (Option.map Json.double) hparts

/-! ### Texts behind each other -/

variable {cs ds : List Char} {ts us : List JsonToken}

theorem Lexes.nil : Lexes [] [] := fun _ _ _ => rfl

/-- A text with a mark before and behind it. -/
theorem Lexes.enclosed {o c : Char} {opens closes : JsonToken}
    (ho : ∀ done, start? done o = some ⟨opens :: done, .idle⟩)
    (hc : ∀ done, start? done c = some ⟨closes :: done, .idle⟩) (hends : endsPlain c = true)
    (h : Lexes cs ts) : Lexes (o :: (cs ++ [c])) (opens :: (ts ++ [closes])) := by
  intro done rest _
  rw [List.cons_append, run_punctuation ho, List.append_assoc, List.cons_append,
    h _ _ (.cons hends _), run_punctuation hc]
  simp

/-- Two texts with a mark between them. -/
theorem Lexes.separated {c : Char} {t : JsonToken}
    (hc : ∀ done, start? done c = some ⟨t :: done, .idle⟩) (hends : endsPlain c = true)
    (h : Lexes cs ts) (h' : Lexes ds us) : Lexes (cs ++ c :: ds) (ts ++ t :: us) := by
  intro done rest hrest
  rw [List.append_assoc, List.cons_append, h _ _ (.cons hends _), run_punctuation hc, h' _ _ hrest]
  simp

theorem Lexes.indented (hblank : ∀ c ∈ cs, isJsonBlank c = true) (h : Lexes ds us) :
    Lexes (cs ++ ds) us := by
  intro done rest hrest
  rw [List.append_assoc, run_blanks hblank, h _ _ hrest]

theorem Lexes.ended (h : Lexes cs ts) (hblank : ∀ c ∈ ds, isJsonBlank c = true) :
    Lexes (cs ++ ds) ts := by
  intro done rest hrest
  rw [List.append_assoc, h _ _ ?_, run_blanks hblank]
  rcases ds with _ | ⟨d, ds⟩
  · exact hrest
  · refine .cons ?_ _
    unfold endsPlain
    rw [hblank d List.mem_cons_self]
    rfl

theorem lexes_brackets (h : Lexes cs ts) :
    Lexes ('[' :: (cs ++ [']'])) (.openArray :: (ts ++ [.closeArray])) :=
  .enclosed (fun _ => rfl) (fun _ => rfl) rfl h

theorem lexes_braces (h : Lexes cs ts) :
    Lexes ('\x7b' :: (cs ++ ['\x7d'])) (.openObject :: (ts ++ [.closeObject])) :=
  .enclosed (fun _ => rfl) (fun _ => rfl) rfl h

theorem lexes_comma (h : Lexes cs ts) (h' : Lexes ds us) :
    Lexes (cs ++ ',' :: ds) (ts ++ .comma :: us) :=
  .separated (fun _ => rfl) rfl h h'

/-- A name, a colon and a value. -/
theorem lexes_member (name : String) (h : Lexes ds us) :
    Lexes ((Json.quote name).toList ++ ':' :: ds) (.text name :: .colon :: us) :=
  .separated (fun _ => rfl) rfl (.quote name) h

end JsonToken

/-! ## The texts of a tree -/

namespace Json

open JsonToken

/-- What holds no other value is one token. -/
theorem Legible.lexes_flat {j : Json} (hj : j.Legible) (harray : ∀ items, j ≠ .array items)
    (hobject : ∀ members, j ≠ .object members) : Lexes j.flat.toList j.tokens := by
  cases hj with
  | null => exact .plain (by decide) (plain_of_all rfl) rfl
  | @bool b => cases b <;> exact .plain (by decide) (plain_of_all rfl) rfl
  | int hlow hhigh => exact .int hlow hhigh
  | double =>
    rw [flat_double]
    exact .zero _
  | single =>
    rw [flat_single, tokens, reread, toDouble_zero]
    · exact .zero _
    all_goals exact nofun
  | text => exact .quote _
  | array => exact absurd rfl (harray _)
  | object => exact absurd rfl (hobject _)

mutual

theorem lexes_compact {j : Json} (hj : j.Legible) : Lexes j.compact.toList j.tokens := by
  match j, hj with
  | .array items, .array h =>
    have hchars : (compact (.array items)).toList = '[' :: ((compactItems items).toList ++ [']']) := by
      simp [compact]
    rw [hchars, tokens]
    exact lexes_brackets (lexes_compactItems items h)
  | .object members, .object h =>
    have hchars : (compact (.object members)).toList =
        '\x7b' :: ((compactMembers members).toList ++ ['\x7d']) := by
      simp [compact]
    rw [hchars, tokens]
    exact lexes_braces (lexes_compactMembers members h)
  | .text s, hj => exact hj.lexes_flat nofun nofun
  | .null, hj => exact hj.lexes_flat nofun nofun
  | .bool b, hj => exact hj.lexes_flat nofun nofun
  | .int n, hj => exact hj.lexes_flat nofun nofun
  | .double x, hj => exact hj.lexes_flat nofun nofun
  | .single x, hj => exact hj.lexes_flat nofun nofun

theorem lexes_compactItems (items : List Json) (h : ∀ j ∈ items, j.Legible) :
    Lexes (compactItems items).toList (itemTokens items) := by
  match items with
  | [] => exact .nil
  | [item] => exact lexes_compact (h item List.mem_cons_self)
  | item :: next :: rest =>
    have hchars : (compactItems (item :: next :: rest)).toList =
        item.compact.toList ++ ',' :: (compactItems (next :: rest)).toList := by
      simp [compactItems]
    rw [hchars, itemTokens]
    · exact lexes_comma (lexes_compact (h item List.mem_cons_self))
        (lexes_compactItems (next :: rest) fun j hj => h j (List.mem_cons_of_mem item hj))
    · exact List.cons_ne_nil next rest

theorem lexes_compactMembers (members : List (String × Json)) (h : ∀ m ∈ members, m.2.Legible) :
    Lexes (compactMembers members).toList (memberTokens members) := by
  match members with
  | [] => exact .nil
  | [(name, value)] =>
    have hchars : (compactMembers [(name, value)]).toList =
        (quote name).toList ++ ':' :: value.compact.toList := by
      simp [compactMembers]
    rw [hchars]
    exact lexes_member name (lexes_compact (h _ List.mem_cons_self))
  | (name, value) :: next :: rest =>
    have hchars : (compactMembers ((name, value) :: next :: rest)).toList =
        ((quote name).toList ++ ':' :: value.compact.toList) ++
          ',' :: (compactMembers (next :: rest)).toList := by
      simp [compactMembers]
    rw [hchars, memberTokens]
    · exact lexes_comma (lexes_member name (lexes_compact (h _ List.mem_cons_self)))
        (lexes_compactMembers (next :: rest) fun m hm => h m (List.mem_cons_of_mem _ hm))
    · exact List.cons_ne_nil next rest

end

theorem blank_of_mem_newline {indent level : Nat} {c : Char} (hc : c ∈ (newline indent level).toList) :
    isJsonBlank c = true := by
  rw [newline, String.toList_append] at hc
  rcases List.mem_append.1 hc with hc | hc
  · rw [List.mem_singleton.1 hc]
    rfl
  · rw [String.toList_ofList] at hc
    rw [List.eq_of_mem_replicate hc]
    rfl

mutual

theorem lexes_prettyAt (indent level : Nat) {j : Json} (hj : j.Legible) :
    Lexes (j.prettyAt indent level).toList j.tokens := by
  -- empty brackets are written without a new line
  match j, hj with
  | .array [], _ =>
    have hchars : (prettyAt indent level (.array [])).toList = '[' :: ([] ++ [']']) := by simp [prettyAt]
    rw [hchars]
    exact lexes_brackets .nil
  | .object [], _ =>
    have hchars : (prettyAt indent level (.object [])).toList = '\x7b' :: ([] ++ ['\x7d']) := by
      simp [prettyAt]
    rw [hchars]
    exact lexes_braces .nil
  | .array (item :: rest), .array h =>
    have hchars : (prettyAt indent level (.array (item :: rest))).toList =
        '[' :: ((prettyItems indent (level + 1) (item :: rest)).toList ++ (newline indent level).toList ++
          [']']) := by
      simp [prettyAt]
    rw [hchars, tokens]
    exact lexes_brackets ((lexes_prettyItems indent (level + 1) (item :: rest) h).ended
      fun c hc => blank_of_mem_newline hc)
  | .object (member :: rest), .object h =>
    have hchars : (prettyAt indent level (.object (member :: rest))).toList =
        '\x7b' :: ((prettyMembers indent (level + 1) (member :: rest)).toList ++
          (newline indent level).toList ++ ['\x7d']) := by
      simp [prettyAt]
    rw [hchars, tokens]
    exact lexes_braces ((lexes_prettyMembers indent (level + 1) (member :: rest) h).ended
      fun c hc => blank_of_mem_newline hc)
  | .text s, hj => exact hj.lexes_flat nofun nofun
  | .null, hj => exact hj.lexes_flat nofun nofun
  | .bool b, hj => exact hj.lexes_flat nofun nofun
  | .int n, hj => exact hj.lexes_flat nofun nofun
  | .double x, hj => exact hj.lexes_flat nofun nofun
  | .single x, hj => exact hj.lexes_flat nofun nofun

theorem lexes_prettyItems (indent level : Nat) (items : List Json) (h : ∀ j ∈ items, j.Legible) :
    Lexes (prettyItems indent level items).toList (itemTokens items) := by
  match items with
  | [] => exact .nil
  | [item] =>
    have hchars : (prettyItems indent level [item]).toList =
        (newline indent level).toList ++ (item.prettyAt indent level).toList := by
      simp [prettyItems]
    rw [hchars]
    exact .indented (fun c hc => blank_of_mem_newline hc)
      (lexes_prettyAt indent level (h item List.mem_cons_self))
  | item :: next :: rest =>
    have hchars : (prettyItems indent level (item :: next :: rest)).toList =
        ((newline indent level).toList ++ (item.prettyAt indent level).toList) ++
          ',' :: (prettyItems indent level (next :: rest)).toList := by
      simp [prettyItems]
    rw [hchars, itemTokens]
    · exact lexes_comma (.indented (fun c hc => blank_of_mem_newline hc)
          (lexes_prettyAt indent level (h item List.mem_cons_self)))
        (lexes_prettyItems indent level (next :: rest) fun j hj => h j (List.mem_cons_of_mem item hj))
    · exact List.cons_ne_nil next rest

theorem lexes_prettyMembers (indent level : Nat) (members : List (String × Json))
    (h : ∀ m ∈ members, m.2.Legible) :
    Lexes (prettyMembers indent level members).toList (memberTokens members) := by
  have hspace : ∀ c ∈ [' '], isJsonBlank c = true := List.forall_mem_singleton.2 rfl
  -- a member, with a space behind the colon
  have hmember (name : String) {value : Json}
      (hvalue : Lexes (value.prettyAt indent level).toList value.tokens) :
      Lexes ((newline indent level).toList ++ ((quote name).toList ++
        ':' :: ([' '] ++ (value.prettyAt indent level).toList)))
        (.text name :: .colon :: value.tokens) :=
    .indented (fun c hc => blank_of_mem_newline hc) (lexes_member name (.indented hspace hvalue))
  match members with
  | [] => exact .nil
  | [(name, value)] =>
    have hchars : (prettyMembers indent level [(name, value)]).toList =
        (newline indent level).toList ++ ((quote name).toList ++
          ':' :: ([' '] ++ (value.prettyAt indent level).toList)) := by
      simp [prettyMembers]
    rw [hchars]
    exact hmember name (lexes_prettyAt indent level (h _ List.mem_cons_self))
  | (name, value) :: next :: rest =>
    have hchars : (prettyMembers indent level ((name, value) :: next :: rest)).toList =
        ((newline indent level).toList ++ ((quote name).toList ++
          ':' :: ([' '] ++ (value.prettyAt indent level).toList))) ++
          ',' :: (prettyMembers indent level (next :: rest)).toList := by
      simp [prettyMembers]
    rw [hchars, memberTokens]
    · exact lexes_comma (hmember name (lexes_prettyAt indent level (h _ List.mem_cons_self)))
        (lexes_prettyMembers indent level (next :: rest) fun m hm => h m (List.mem_cons_of_mem _ hm))
    · exact List.cons_ne_nil next rest

end

/-- A text with the tokens of a tree is read as the tree. -/
theorem ofText?_of_lexes {s : String} {j : Json} (hs : Lexes s.toList j.tokens)
    (h : j.nesting ≤ jsonDepth) : ofText? s = some j.reread := by
  have hrun : JsonToken.ofText? s = some j.tokens := by
    have := hs [] [] nofun
    rw [List.append_nil, List.append_nil] at this
    refine Eq.trans this ?_
    simp [JsonLexer.run, JsonLexer.finish?]
  rw [ofText?, hrun, Option.bind_some, ofTokens?_tokens h]

/-- **The text of a tree on one line** is read as the tree. -/
theorem ofText?_compact {j : Json} (hj : j.Legible) (h : j.nesting ≤ jsonDepth) :
    ofText? j.compact = some j.reread :=
  ofText?_of_lexes (lexes_compact hj) h

/-- **The indented text of a tree** is read as the tree. -/
theorem ofText?_pretty (indent : Nat) {j : Json} (hj : j.Legible) (h : j.nesting ≤ jsonDepth) :
    ofText? (j.pretty indent) = some j.reread :=
  ofText?_of_lexes (lexes_prettyAt indent 0 hj) h

end Json

end Protoscript
