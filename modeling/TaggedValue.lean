import TaggedValue.Plain.Composite
import TaggedValue.Proofs.Entries.Histories
import TaggedValue.Proofs.Items
import TaggedValue.Proofs.Json.Decoding
import TaggedValue.Proofs.Json.Encoding
import TaggedValue.Proofs.Json.RoundTrip
import TaggedValue.Proofs.Json.Spelling
import TaggedValue.Proofs.Operations
import TaggedValue.Proofs.Outcome
import TaggedValue.Proofs.Parts
import TaggedValue.Proofs.Properties
import TaggedValue.Proofs.Runs
import TaggedValue.Proofs.Sameness
import TaggedValue.Properties.Json
import TaggedValue.Properties.Typed
import TaggedValue.Settings.Layer
import TaggedValue.Value.Bare
import TaggedValue.Value.Hash
import TaggedValue.Proofs.Entries.Names
import TaggedValue.Proofs.Properties.AsMap
import TaggedValue.Proofs.Plain.Boxing
import TaggedValue.Proofs.Number.Numerals
import TaggedValue.Proofs.Plain.Integers
import TaggedValue.Proofs.Json.Lexemes
import TaggedValue.Proofs.Json.TextLayer
import TaggedValue.Proofs.Json.Parts
import TaggedValue.Proofs.Json.Unwritable
import TaggedValue.Proofs.Json.Unreadable
import TaggedValue.Proofs.Entries.Building
import TaggedValue.Proofs.Positions
import TaggedValue.Proofs.Entries.Distinct
import TaggedValue.Proofs.Plain.Keys
import TaggedValue.Proofs.Plain.Scalars
import TaggedValue.Proofs.Properties.Conversion
import TaggedValue.Proofs.Plain.Conformance
import TaggedValue.Proofs.Properties.Trees
import TaggedValue.Proofs.Text.Search
import TaggedValue.Proofs.Literals
import TaggedValue.Proofs.Properties.Layering
import TaggedValue.Proofs.Properties.Typed
import TaggedValue.Proofs.Enumeration
import TaggedValue.Proofs.Streams
import TaggedValue.Proofs.Plain.SinglePrecision
