/-!
# Configuration

What a host can choose about the way scripts see messages.

* `Config` — the settings, with their defaults; `Config.strict` turns the legacy rules off.
-/

namespace Protoscript

/-- The messages that a bare scalar may stand for, unless the host says otherwise. -/
def defaultScalarWrappers : List String := [
  "google.protobuf.BoolValue",
  "google.protobuf.StringValue",
  "google.protobuf.DoubleValue",
  "google.protobuf.Int32Value",
  "google.protobuf.Int64Value",
  "google.protobuf.BytesValue",
  "google.protobuf.UInt32Value",
  "google.protobuf.UInt64Value"]

/-- The settings of a loader. -/
structure Config where
  /-- whether proto2 fields take the absent value, which unsets them, and read as it when unset -/
  legacyAbsent : Bool := true
  /-- full names of the messages that a bare scalar may stand for -/
  scalarWrappers : List String := defaultScalarWrappers
  /-- what is put in front of a full name to make a type URL -/
  anyUrlBase : String := "type.googleapis.com/"
  /-- how many spaces a level of JSON is indented by -/
  jsonIndent : Nat := 2
  deriving DecidableEq, Inhabited

namespace Config

/-- The default settings with the legacy rules of proto2 turned off. -/
def strict : Config := { legacyAbsent := false }

/-- Whether a bare scalar may stand for a message of a full name. -/
def isScalarWrapper (c : Config) (fullName : String) : Bool := c.scalarWrappers.contains fullName

/-- The type URL of a message of a full name. -/
def typeUrl (c : Config) (fullName : String) : String := c.anyUrlBase ++ fullName

end Config

end Protoscript
