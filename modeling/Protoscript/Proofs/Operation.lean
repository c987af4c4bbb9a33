import Protoscript.Proofs.Computation
import Protoscript.Proofs.Conforming
import Protoscript.Proofs.Growth
import Mathlib.Logic.Relation

/-!
# Runs of the bridge

Everything that a host or a script can do with values, as one type of operations, and the heaps that
sequences of operations lead to.

* `Operation`, `Operation.run` — the operations, and what they do;
* `Operation.Within` — an operation is given references to cells that there are, and types of a given
  set of pools;
* `Heap.Reaches` — a later heap of the same run; `Heap.Reachable` — a heap of a run from the start.
-/

namespace Protoscript

/-- What a host or a script can do, by the type of what it gives. -/
inductive Operation : Type → Type where
  /-- reads an attribute -/
  | attr (v : Value) (name : String) : Operation (Option Value)
  /-- assigns to a field -/
  | assign (v : Value) (name : String) (value : Value) : Operation Unit
  /-- reads an element -/
  | index (v key : Value) : Operation Value
  /-- replaces an element -/
  | setIndex (v key value : Value) : Operation Unit
  | slice (v : Value) (start stop : Option Int) : Operation Value
  | length (v : Value) : Operation Nat
  | iterate (v : Value) : Operation (List Value)
  | contains (v needle : Value) : Operation Bool
  | equals (a b : Value) : Operation Bool
  | compare (operator : Comparison) (a b : Value) : Operation Bool
  | hash (v : Value) : Operation (List UInt8)
  | add (a b : Value) : Operation Value
  | call (v : Value) (args : List Value) (keywords : Keywords) : Operation Value
  | freeze (v : Value) : Operation Unit
  /-- appends to a list -/
  | push (r : Ref .list) (value : Value) : Operation Unit
  /-- replaces an item of a list -/
  | setItem (r : Ref .list) (position : Nat) (value : Value) : Operation Unit
  | dictGet (r : Ref .dict) (key : Value) : Operation (Option Value)
  | dictRemove (r : Ref .dict) (key : Value) : Operation (Option Value)
  | newList (items : List Value) : Operation Value
  | newDict (entries : List (Value × Value)) : Operation Value
  /-- makes a view of a list field from a value -/
  | repeatedOf (field : FieldDescriptor) (value : Value) (config : Config) : Operation (Ref .repeated)
  /-- makes a view of a map field from a value -/
  | mapOf (field : FieldDescriptor) (value : Value) (config : Config) : Operation (Ref .map)
  | newLibrary (loader : Loader) : Operation Value
  /-- reads a message of a type from bytes -/
  | decode (loader : Loader) (fullName : String) (bytes : List UInt8) : Operation Value
  /-- takes a stored message over -/
  | wrap (loader : Loader) (m : Message) : Operation Value
  /-- gives the contents of a message away -/
  | unwrap (v : Value) : Operation Message

namespace Operation

variable {α : Type}

/-- The computation of an operation. -/
def script : {α : Type} → Operation α → Script α
  | _, attr v name => Script.attr v name
  | _, assign v name value => Script.assignField v name value
  | _, index v key => Script.index v key
  | _, setIndex v key value => Script.setIndex v key value
  | _, slice v start stop => Script.slice v start stop
  | _, length v => Script.reading (·.length v)
  | _, iterate v => Script.reading (·.iterate v)
  | _, contains v needle => Script.reading (·.contains v needle)
  | _, equals a b => Script.reading (·.equals a b)
  | _, compare operator a b => Script.reading (·.compare operator a b)
  | _, hash v => Script.hash v
  | _, add a b => Script.add a b
  | _, call v args keywords => Script.call v args keywords
  | _, freeze v => Script.freeze v
  | _, push r value => Script.push r value
  | _, setItem r position value => Script.setItem r position value
  | _, dictGet r key => Script.dictGet r key
  | _, dictRemove r key => Script.dictRemove r key
  | _, newList items => Script.newList items
  | _, newDict entries => Script.dictOf entries
  | _, repeatedOf field value config => Script.repeatedOf field value config
  | _, mapOf field value config => Script.mapOf field value config
  | _, newLibrary loader => Script.newLibrary loader
  | _, decode loader fullName bytes => Script.decodeMessage loader fullName bytes
  | _, wrap loader m => Script.wrapMessage loader m
  | _, unwrap v => Script.unwrapMessage v

/-- What an operation gives on a heap, and the heap after it. -/
def run (op : Operation α) (h : Heap) : Except Error α × Heap := op.script.run h

/-- The values that an operation is given. -/
def values : {α : Type} → Operation α → List Value
  | _, attr v _ => [v]
  | _, assign v _ value => [v, value]
  | _, index v key => [v, key]
  | _, setIndex v key value => [v, key, value]
  | _, slice v _ _ => [v]
  | _, length v => [v]
  | _, iterate v => [v]
  | _, contains v needle => [v, needle]
  | _, equals a b => [a, b]
  | _, compare _ a b => [a, b]
  | _, hash v => [v]
  | _, add a b => [a, b]
  | _, call v args keywords => v :: (args ++ keywords.map (·.2))
  | _, freeze v => [v]
  | _, push r value => [.list r, value]
  | _, setItem r _ value => [.list r, value]
  | _, dictGet r key => [.dict r, key]
  | _, dictRemove r key => [.dict r, key]
  | _, newList items => items
  | _, newDict entries => entries.flatMap fun e => [e.1, e.2]
  | _, repeatedOf _ value _ => [value]
  | _, mapOf _ value _ => [value]
  | _, newLibrary loader => [.library ⟨0, loader⟩]
  | _, decode _ _ _ => []
  | _, wrap _ _ => []
  | _, unwrap v => [v]

end Operation

/-- The parameters of a function of the library that alters what it is given first. -/
def Function.altering? : Function → Option (List String)
  | .clear | .setDefaults => some ["msg"]
  | .merge => some ["dst", "src"]
  | .package | .clone | .encodeAny | .decodeAny | .encodeJson | .decodeJson | .encodeText
  | .decodeText | .encodeYaml | .decodeYaml => none

/-- The value that a function of the library alters when it is called. -/
def Function.target? (f : Function) (args : List Value) (keywords : Keywords) : Option Value :=
  match f.altering? with
  | none => none
  | some params =>
    match bindArguments ("proto." ++ f.name) args keywords params params.length with
    | .ok bound => some (bound.value 0)
    | .error _ => none

theorem Function.target?_eq_some {f : Function} {args : List Value} {keywords : Keywords} {v : Value} :
    f.target? args keywords = some v ↔ ∃ params bound, f.altering? = some params ∧
      bindArguments ("proto." ++ f.name) args keywords params params.length = .ok bound ∧
      bound.value 0 = v := by
  unfold target?
  constructor
  · intro h
    split at h
    · cases h
    · split at h
      · cases h
        exact ⟨_, _, by assumption, by assumption, rfl⟩
      · cases h
  · rintro ⟨params, bound, hparams, hbound, rfl⟩
    simp only [hparams, hbound]

namespace Operation

/-- The value that an operation may alter the cell of, or a method bound to it. -/
def target? : {α : Type} → Operation α → Option Value
  | _, attr v _ => some v
  | _, assign v _ _ => some v
  | _, setIndex v _ _ => some v
  | _, call (.callable (.function _ f)) args keywords => f.target? args keywords
  | _, call v _ _ => some v
  | _, push r _ => some (.list r)
  | _, setItem r _ _ => some (.list r)
  | _, dictRemove r _ => some (.dict r)
  | _, _ => none

end Operation

/-- The place that a value leads to, if there is one. -/
def Value.places (v : Value) : Set Place := {p | v.place? = some p}

namespace Operation

/-- Whether an operation freezes what it is given, which reaches all that this leads to. -/
def freezes : {α : Type} → Operation α → Bool
  | _, freeze _ => true
  | _, _ => false

/-- The places that an operation may alter: that of its target, and all if it freezes. -/
def writes {α : Type} (op : Operation α) : Set Place :=
  {p | op.freezes = true ∨ ∃ v, op.target? = some v ∧ v.place? = some p}

end Operation

/-- The pool that a value leads to, as a package or a library. -/
def Value.pool? : Value → Option Pool
  | .package p => some p.loader.pool
  | .library l => some l.loader.pool
  | .callable (.function l _) => some l.loader.pool
  | _ => none

/-- Whether a type is one of a set of pools. -/
structure MessageDescriptor.Among (pools : Set Pool) (d : MessageDescriptor) : Prop where
  pool : d.pool ∈ pools
  declared : d.index < d.pool.messages.length

/-- Whether every type that a value carries is of one of the given pools. -/
def Value.From (pools : Set Pool) (v : Value) : Prop :=
  v.All fun v => (∀ p, v.pool? = some p → p ∈ pools) ∧
    ∀ t, v = .messageType t → t.descriptor.Among pools

namespace Operation

variable {α : Type}

/-- Whether the types and stored messages that an operation is given are of the given pools. What a
host hands over as a stored message conforms to its type. -/
def Admitted (pools : Set Pool) : {α : Type} → Operation α → Prop
  | _, repeatedOf field _ _ => field.message.pool ∈ pools ∧ field ∈ field.message.fields
  | _, mapOf field _ _ => field.message.pool ∈ pools ∧ field ∈ field.message.fields
  | _, decode loader _ _ => loader.pool ∈ pools
  | _, wrap _ m => m.descriptor.Among pools ∧ m.Conforms
  | _, _ => True

/-- Whether an operation can be asked for on a heap: it is given references that lead to cells, and
types of the given pools. -/
structure Within (pools : Set Pool) (h : Heap) (op : Operation α) : Prop where
  /-- references lead to cells -/
  within : ∀ v ∈ op.values, v.Within h
  /-- types are of the pools -/
  typed : ∀ v ∈ op.values, v.From pools
  /-- so are stored messages -/
  admitted : op.Admitted pools

end Operation

namespace Heap

/-- One operation, whether it succeeds or fails. -/
inductive Step (pools : Set Pool) (h : Heap) : Heap → Prop where
  | operation {α : Type} (op : Operation α) (hop : op.Within pools h) : Step pools h (op.run h).2

/-- Any sequence of operations. -/
def Reaches (pools : Set Pool) : Heap → Heap → Prop := Relation.ReflTransGen (Step pools)

/-- Any sequence of operations from the start, when there is no cell. -/
def Reachable (pools : Set Pool) (h : Heap) : Prop := Reaches pools {} h

end Heap

end Protoscript
