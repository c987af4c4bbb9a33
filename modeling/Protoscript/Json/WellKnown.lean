import Protoscript.Json.Basic
import Protoscript.Schema.Builder
import Protoscript.Wire.Message

/-!
# Messages with a JSON form of their own

A wrapper is written as the bare value it holds. A message of type `google.protobuf.Any` is written
as its payload with the URL of the payload's type beside it; a payload that has a form of its own
goes into a member `value`.

* `wrappedType?` — the type that a wrapper holds;
* `hasOwnJson` — whether messages of a full name have a form of their own;
* `Pool.typeOfUrl?` — the message type that a URL names. JSON takes URLs of one host only.
-/

namespace Protoscript

/-- The type of the value that a wrapper holds, by the full name of the wrapper. -/
def wrappedType? (fullName : String) : Option ScalarType :=
  if fullName == "google.protobuf.DoubleValue" then some .double
  else if fullName == "google.protobuf.FloatValue" then some .float
  else if fullName == "google.protobuf.Int64Value" then some .int64
  else if fullName == "google.protobuf.UInt64Value" then some .uint64
  else if fullName == "google.protobuf.Int32Value" then some .int32
  else if fullName == "google.protobuf.UInt32Value" then some .uint32
  else if fullName == "google.protobuf.BoolValue" then some .bool
  else if fullName == "google.protobuf.StringValue" then some .string
  else if fullName == "google.protobuf.BytesValue" then some .bytes
  else none

/-- Whether messages of a full name have a form of their own. -/
def hasOwnJson (fullName : String) : Bool :=
  fullName == anyFullName || (wrappedType? fullName).isSome

/-- What the URLs of types in JSON start with. -/
def jsonUrlBase : String := "type.googleapis.com/"

/-- The message type that a URL names. -/
def Pool.typeOfUrl? (p : Pool) (url : String) : Option MessageDescriptor :=
  if jsonUrlBase.toList.isPrefixOf url.toList then
    p.message? (String.ofList (url.toList.drop jsonUrlBase.length))
  else none

end Protoscript
