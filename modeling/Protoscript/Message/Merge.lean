import Protoscript.Message.Compare

/-!
# Merging messages and filling in defaults

* `Message.merge` — lays one message over another: lists are appended, maps overlaid, messages set on
  both sides merged, and any other field that is set replaces what was there;
* `Message.fillDefaults` — gives every unset field with a declared default that default, at every
  depth. Members of a oneof are left as they are, so that none becomes selected.
-/

namespace Protoscript

/-- Puts the entries of a stored map into a map field; if either holds something else, the field is
only selected. -/
def Message.overlay (m : Message) (f : FieldDescriptor) (value : Stored) : Message :=
  match value, m.get f with
  | .map entries, .map old => m.set f (.map (entries.foldl (fun es e => insertKey e.1 e.2 es) old))
  | _, _ => m.select f

/-- Appends the items of a stored list to a list field; if either holds something else, the field is
only selected. -/
def Message.extend (m : Message) (f : FieldDescriptor) (value : Stored) : Message :=
  match value, m.get f with
  | .list items, .list old => m.set f (.list (old ++ items))
  | _, _ => m.select f

/-- Lays `src` over `dst`. Only numbers are compared: what `dst` holds under a field's number may be of
another shape if the types are of different pools, and is left alone then. -/
def Message.merge (dst src : Message) : Message :=
  src.descriptor.fields.foldl
    (fun dst f =>
      if !src.has f then dst
      else
        match _h : src.stored? f with
        | none => dst
        | some (.message child) =>
          if f.isMap || f.isList then dst.select f
          else if !dst.has f then dst.set f (.message child)
          else
            match dst.get f with
            | .message old => dst.set f (.message (Message.merge old child))
            | _ => dst.select f
        | some value =>
          if f.isMap then dst.overlay f value
          else if f.isList then dst.extend f value
          else dst.set f value)
    dst
termination_by sizeOf src
decreasing_by
  have := Message.sizeOf_stored?_lt _h
  simp at this
  omega

mutual

/-- Fills in the declared defaults of a message, and of the messages inside it. -/
def Message.fillDefaults : Message → Message
  | .mk d fields unknown =>
    d.fields.foldl
      (fun m f =>
        match f.info.declaredDefault with
        | some value =>
          if f.inOneof || f.isMap || f.isList || f.kind.isMessage || m.has f then m
          else m.set f (.scalar value)
        | none => m)
      (.mk d (Message.fillFields fields) unknown)

/-- Fills in the defaults of the messages that fields hold. -/
def Message.fillFields : List (Nat × Stored) → List (Nat × Stored)
  | [] => []
  | (number, value) :: rest => (number, value.fillDefaults) :: Message.fillFields rest

/-- Fills in the defaults of the messages that a field holds. -/
def Stored.fillDefaults : Stored → Stored
  | .scalar value => .scalar value
  | .message m => .message m.fillDefaults
  | .list items => .list (Stored.fillItems items)
  | .map entries => .map (Stored.fillEntries entries)

/-- Fills in the defaults of the messages in a list. -/
def Stored.fillItems : List Stored → List Stored
  | [] => []
  | value :: rest => value.fillDefaults :: Stored.fillItems rest

/-- Fills in the defaults of the messages in a map. -/
def Stored.fillEntries : List (MapKey × Stored) → List (MapKey × Stored)
  | [] => []
  | (key, value) :: rest => (key, value.fillDefaults) :: Stored.fillEntries rest

end

end Protoscript
