import Protoscript.Schema.Encoding
import Protoscript.Script.Operations
import Protoscript.Script.Repr
import Protoscript.Yaml.ToConfig
import Protoscript.Proofs.Computation
import Protoscript.Proofs.Conforming
import Protoscript.Proofs.Growth
import Protoscript.Proofs.Operation
import Protoscript.Proofs.Change
import Protoscript.Proofs.Holding
import Protoscript.Proofs.Fields
import Protoscript.Proofs.Closed
import Protoscript.Proofs.Lasting
import Protoscript.Proofs.Runs
import Protoscript.Proofs.Planting
import Protoscript.Proofs.Containers
import Protoscript.Proofs.Adoption
import Protoscript.Proofs.Views
import Protoscript.Proofs.Instances
import Protoscript.Proofs.Calls
import Protoscript.Proofs.Reachable
import Protoscript.Proofs.Contents
import Protoscript.Proofs.Failure
import Protoscript.Proofs.Assignment
import Protoscript.Proofs.Writes
import Protoscript.Proofs.Decoding
import Protoscript.Proofs.Merging
import Protoscript.Proofs.Deciding
import Protoscript.Proofs.Typing
import Protoscript.Proofs.Preservation
import Protoscript.Proofs.Rounding
import Protoscript.Proofs.Canonical
import Protoscript.Proofs.Reading
import Protoscript.Proofs.Flushing
import Protoscript.Proofs.Freezing
import Protoscript.Proofs.FrozenCells
import Protoscript.Proofs.FrozenContents
import Protoscript.Proofs.ReadOut
import Protoscript.Proofs.Foreign
import Protoscript.Proofs.Packing
import Protoscript.Proofs.Forest
import Protoscript.Proofs.Separation
import Protoscript.Proofs.Copying
import Protoscript.Proofs.Parts
import Protoscript.Proofs.Keys
import Protoscript.Proofs.Branches
import Protoscript.Proofs.Editing
import Protoscript.Proofs.Presence
import Protoscript.Proofs.Integral
import Protoscript.Proofs.EqualMessages
import Protoscript.Proofs.Symmetry
import Protoscript.Proofs.Coherence
import Protoscript.Proofs.ReadBack
import Protoscript.Proofs.InStep
import Protoscript.Proofs.Settings
import Protoscript.Proofs.Refilling
import Protoscript.Proofs.Rebuilding
import Protoscript.Proofs.Laying
import Protoscript.Proofs.NanFree
import Protoscript.Proofs.MergeLaws
import Protoscript.Proofs.Purity
import Protoscript.Proofs.Listings
import Protoscript.Proofs.Ordering
import Protoscript.Proofs.KeyOrder
import Protoscript.Proofs.Concatenation
import Protoscript.Proofs.Observation
import Protoscript.Proofs.Tandem
import Protoscript.Proofs.Crossing
import Protoscript.Proofs.Restoring
import Protoscript.Proofs.Acceptance
import Protoscript.Proofs.MapEdits
import Protoscript.Proofs.ListEdits
import Protoscript.Proofs.Numerals
import Protoscript.Proofs.JsonText
import Protoscript.Proofs.Base64
import Protoscript.Proofs.JsonScalars
import Protoscript.Proofs.JsonNames
import Protoscript.Proofs.JsonWrappers
import Protoscript.Proofs.JsonMessages
import Protoscript.Proofs.JsonRoundTrip
import Protoscript.Proofs.FieldwiseMerge
import Protoscript.Proofs.Filling
import Protoscript.Proofs.Paths
import Protoscript.Proofs.Defaults
import Protoscript.Proofs.Twins
import Protoscript.Proofs.TwinChecks
import Protoscript.Proofs.Keywords
import Protoscript.Proofs.Storing
import Protoscript.Proofs.Boxing
import Protoscript.Proofs.Binding
import Protoscript.Proofs.Numbering
import Protoscript.Proofs.Assembly
import Protoscript.Proofs.Namespaces
import Protoscript.Proofs.Positions
