import Protoscript.Json.WellKnown
import Protoscript.Number.Integer
import Protoscript.Text.Base64

/-!
# Messages from JSON

* `Kind.scalarOfJson?` — the scalar that a value stands for. Integers may be given as whole
  floating-point numbers or as texts, floating-point numbers as integers or texts;
* `Message.ofJson?` — the message of a type. Members are found by JSON name or by field name, none
  may be unknown, and no two may belong to one oneof. `null` leaves a message unset and gives any
  other field its default.
-/

namespace Protoscript

/-! ## Scalars -/

/-- The floating-point number that a value stands for. -/
def Json.double? : Json → Option Double
  | .int n => some (.ofInt n)
  | .double x => some x
  | .single x => some x.toDouble
  | .text s =>
    if s == "NaN" then some (.quietNaN false)
    else if s == "Infinity" then some (.infinite false)
    else if s == "-Infinity" then some (.infinite true)
    else Double.read? s
  | _ => none

/-- The greatest finite single as a double. -/
def greatestSingle : Double := (⟨0x7f7fffff⟩ : Single).toDouble

/-- The single that a value stands for. A number must lie within the range of singles. -/
def Json.single? : Json → Option Single
  | .text s =>
    if s == "NaN" then some (Double.quietNaN false).toSingle
    else if s == "Infinity" then some (Double.infinite false).toSingle
    else if s == "-Infinity" then some (Double.infinite true).toSingle
    else Single.read? s
  | value =>
    value.double?.bind fun x =>
      if x.compare? greatestSingle == some .gt || x.compare? greatestSingle.neg == some .lt then
        none
      else some x.toSingle

/-- The integer between two bounds that a value stands for; `read?` reads a text. A floating-point
number must be whole and lie between the doubles nearest to the bounds. -/
def Json.intBetween? (low high : Int) (read? : List Char → Option Int) : Json → Option Int
  | .int n => if low ≤ n ∧ n ≤ high then some n else none
  | .double x =>
    if x.isIntegral then
      x.truncate?.bind fun n =>
        if x.compare? (.ofInt low) == some .lt || x.compare? (.ofInt high) == some .gt then none
        else some (max low (min n high))
    else none
  | .text s => (read? s.toList).bind fun n => if low ≤ n ∧ n ≤ high then some n else none
  | _ => none

/-- The integer of a text with an optional sign; a minus sign only if the type has negative
numbers. -/
def readSigned? (cs : List Char) : Option Int := readInt? 10 cs

/-- The integer of a text without a minus sign. -/
def readUnsignedInt? (cs : List Char) : Option Int := (readUnsigned? 10 cs).map fun n => (n : Int)

/-- The scalar of a type that a value stands for. -/
def ScalarType.ofJson? (t : ScalarType) (j : Json) : Option Scalar :=
  match t.storage with
  | .f64 => j.double?.map .f64
  | .f32 => j.single?.map .f32
  | .i32 => (j.intBetween? (-pow2 31) (pow2 31 - 1) readSigned?).map fun n => .i32 (Int32.ofInt n)
  | .i64 => (j.intBetween? (-pow2 63) (pow2 63 - 1) readSigned?).map fun n => .i64 (Int64.ofInt n)
  | .u32 => (j.intBetween? 0 (pow2 32 - 1) readUnsignedInt?).map fun n => .u32 (UInt32.ofNat n.toNat)
  | .u64 => (j.intBetween? 0 (pow2 64 - 1) readUnsignedInt?).map fun n => .u64 (UInt64.ofNat n.toNat)
  | .bool =>
    match j with
    | .bool b => some (.bool b)
    | _ => none
  | .text =>
    match j with
    | .text s => some (.text s)
    | _ => none
  | .bytes =>
    match j with
    | .text s => (Base64.decode? s).map .bytes
    | _ => none

/-- The number of an enum that a value stands for: a declared name, or any number. -/
def EnumDescriptor.ofJson? (d : EnumDescriptor) : Json → Option Scalar
  | .text s => (d.numberOf? s).map .enumNumber
  | .int n => (int32Of? n).map .enumNumber
  | _ => none

/-- The scalar or enum value of a type that a value stands for. -/
def Kind.scalarOfJson? : Kind → Json → Option Scalar
  | .scalar t, j => t.ofJson? j
  | .enum d, j => d.ofJson? j
  | .message _, _ => none

/-- The key of a map that the name of a member stands for. -/
def Kind.keyOfJson? (kind : Kind) (name : String) : Option MapKey :=
  match kind with
  | .scalar t =>
    match t.storage with
    | .bool =>
      if name == "true" then some (.bool true)
      else if name == "false" then some (.bool false)
      else none
    | .i32 => (readInt32? name).map .i32
    | .i64 => (readInt64? name).map .i64
    | .u32 => (readUInt32? name).map .u32
    | .u64 => (readUInt64? name).map .u64
    | .text => some (.text name)
    | .f32 | .f64 | .bytes => none
  | .enum _ | .message _ => none

/-! ## Messages -/

/-- A wrapper that holds a value; one that is zero is not stored. -/
def Message.wrapping (d : MessageDescriptor) (value : Scalar) : Message :=
  match d.numbered? 1 with
  | some f =>
    if (Stored.scalar value).isDefaultOf f then .empty d
    else (Message.empty d).setNumber 1 value
  | none => .empty d

/-- Members without those that are followed by another of their name. -/
def Json.lastMembers : List (String × Json) → List (String × Json)
  | [] => []
  | m :: rest =>
    if rest.any fun n => n.1 == m.1 then lastMembers rest else m :: lastMembers rest

/-- The members of an `Any`: those before the member `@type`, of each name the last; the URL in it;
and those after it. -/
def Json.anyMembers? :
    List (String × Json) → Option (List (String × Json) × String × List (String × Json))
  | [] => none
  | (name, value) :: rest =>
    if name = "@type" then
      match value with
      | .text url => some ([], url, rest)
      | _ => none
    else
      (anyMembers? rest).map fun r => ((name, value) :: r.1, r.2.1, r.2.2)

theorem Json.sizeOf_lastMembers_le (members : List (String × Json)) :
    sizeOf (lastMembers members) ≤ sizeOf members := by
  induction members with
  | nil => simp [lastMembers]
  | cons m rest ih =>
    unfold lastMembers
    split
    · simp only [List.cons.sizeOf_spec]
      omega
    · simp only [List.cons.sizeOf_spec]
      omega

theorem Json.sizeOf_of_anyMembers? {members before after : List (String × Json)} {url : String}
    (h : anyMembers? members = some (before, url, after)) :
    sizeOf before + sizeOf after ≤ sizeOf members := by
  induction members generalizing before with
  | nil => simp [anyMembers?] at h
  | cons m rest ih =>
    obtain ⟨name, value⟩ := m
    simp only [anyMembers?] at h
    split at h
    · split at h
      · simp only [Option.some.injEq, Prod.mk.injEq] at h
        obtain ⟨rfl, _, rfl⟩ := h
        simp only [List.cons.sizeOf_spec, List.nil.sizeOf_spec, Prod.mk.sizeOf_spec]
        omega
      · simp at h
    · simp only [Option.map_eq_some_iff] at h
      obtain ⟨⟨b, u, a⟩, hr, he⟩ := h
      simp only [Prod.mk.injEq] at he
      obtain ⟨rfl, rfl, rfl⟩ := he
      have := ih hr
      simp only [List.cons.sizeOf_spec]
      omega

/-- The value of the one member there is before or after, if its name is `value`. -/
def Json.soleValue? : (before after : List (String × Json)) → Option Json
  | [(name, value)], [] => if name == "value" then some value else none
  | [], [(name, value)] => if name == "value" then some value else none
  | _, _ => none

theorem Json.sizeOf_of_soleValue? {before after : List (String × Json)} {value : Json}
    (h : soleValue? before after = some value) :
    sizeOf value < sizeOf before + sizeOf after := by
  unfold soleValue? at h
  split at h
  · split at h
    · cases h
      simp only [List.cons.sizeOf_spec, List.nil.sizeOf_spec, Prod.mk.sizeOf_spec]
      omega
    · cases h
  · split at h
    · cases h
      simp only [List.cons.sizeOf_spec, List.nil.sizeOf_spec, Prod.mk.sizeOf_spec]
      omega
    · cases h
  · cases h

/-- The field that a member stands for: that of the JSON name, else that of the name. -/
def MessageDescriptor.memberField? (d : MessageDescriptor) (name : String) :
    Option FieldDescriptor :=
  match d.jsonField? name with
  | some f => some f
  | none => d.field? name

/-- The message with a value given to a field, unless its oneof has a value already. -/
def Message.setMember? (m : Message) (f : FieldDescriptor) (value : Stored) : Option Message :=
  if f.oneofMembers.any m.has then none else some (m.set f value)

mutual

/-- The message of a type that a value stands for. -/
def Message.ofJson? (d : MessageDescriptor) : Json → Option Message
  | .object members =>
    if d.fullName == anyFullName then
      match _h : Json.anyMembers? members with
      | none => none
      | some (before, url, after) =>
        match d.pool.typeOfUrl? url with
        | none => none
        | some inner =>
          let payload :=
            if hasOwnJson inner.fullName then
              match _hv : Json.soleValue? (Json.lastMembers before) after with
              | some value => Message.ofJson? inner value
              | none => none
            else
              match Message.readMembers? (.empty inner) (Json.lastMembers before) with
              | some m => Message.readMembers? m after
              | none => none
          payload.map fun m => .packing (.empty d) url m.toWire
    else if (wrappedType? d.fullName).isSome then none
    else Message.readMembers? (.empty d) members
  | value =>
    match wrappedType? d.fullName with
    | some t => (t.ofJson? value).map (.wrapping d)
    | none => none
termination_by j => 3 * sizeOf j
decreasing_by
  · have h1 := Json.sizeOf_of_anyMembers? _h
    have h2 := Json.sizeOf_lastMembers_le before
    have h3 := Json.sizeOf_of_soleValue? _hv
    simp only [Json.object.sizeOf_spec]
    omega
  · have h1 := Json.sizeOf_of_anyMembers? _h
    have h2 := Json.sizeOf_lastMembers_le before
    simp only [Json.object.sizeOf_spec]
    omega
  · have h1 := Json.sizeOf_of_anyMembers? _h
    simp only [Json.object.sizeOf_spec]
    omega
  · simp only [Json.object.sizeOf_spec]
    omega

/-- Reads members into a message. -/
def Message.readMembers? (m : Message) : List (String × Json) → Option Message
  | [] => some m
  | (name, value) :: rest =>
    match m.descriptor.memberField? name with
    | none => none
    | some f =>
      match Message.readMember? m f value with
      | some m => Message.readMembers? m rest
      | none => none
termination_by members => 3 * sizeOf members

/-- Reads a value into a field. Null gives a field its default, but leaves a message unset. -/
def Message.readMember? (m : Message) (f : FieldDescriptor) : Json → Option Message
  | .null =>
    if f.kind.isMessage && !f.isMap && !f.isList then some m else m.setMember? f (.defaultOf f)
  | .object members =>
    if f.isMap then (Stored.readEntries? f [] members).bind fun es => m.setMember? f (.map es)
    else if f.isList then none
    else (Stored.ofJson? f.kind (.object members)).bind (m.setMember? f)
  | .array items =>
    if f.isMap then none
    else if f.isList then (Stored.readItems? f.kind items).bind fun vs => m.setMember? f (.list vs)
    else (Stored.ofJson? f.kind (.array items)).bind (m.setMember? f)
  | value =>
    if f.isMap || f.isList then none else (Stored.ofJson? f.kind value).bind (m.setMember? f)
termination_by j => 3 * sizeOf j + 2

/-- The value of a type, for a singular field or an item. -/
def Stored.ofJson? (kind : Kind) (j : Json) : Option Stored :=
  match kind with
  | .message d => (Message.ofJson? d j).map .message
  | kind => (kind.scalarOfJson? j).map .scalar
termination_by 3 * sizeOf j + 1

/-- The items of a list. -/
def Stored.readItems? (kind : Kind) : List Json → Option (List Stored)
  | [] => some []
  | item :: rest =>
    match Stored.ofJson? kind item, Stored.readItems? kind rest with
    | some v, some vs => some (v :: vs)
    | _, _ => none
termination_by items => 3 * sizeOf items

/-- Reads members into a map. -/
def Stored.readEntries? (f : FieldDescriptor) (entries : List (MapKey × Stored)) :
    List (String × Json) → Option (List (MapKey × Stored))
  | [] => some entries
  | (name, value) :: rest =>
    match f.kind with
    | .message entry =>
      match (FieldDescriptor.entryKey entry).kind.keyOfJson? name,
          Stored.ofJson? (FieldDescriptor.entryValue entry).kind value with
      | some key, some v => Stored.readEntries? f (insertKey key v entries) rest
      | _, _ => none
    | .scalar _ | .enum _ => none
termination_by members => 3 * sizeOf members

end

end Protoscript
