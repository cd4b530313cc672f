import LiveLisp.Backend.Scripted
import LiveLisp.Main
import LiveLisp.Proofs.Analysis.Failure
import LiveLisp.Proofs.Backend.Framing
import LiveLisp.Proofs.Backend.Lifecycle
import LiveLisp.Proofs.Backend.Refusal
import LiveLisp.Proofs.Library.Closure
import LiveLisp.Proofs.Library.Declarations
import LiveLisp.Proofs.Library.Manifest
import LiveLisp.Proofs.Library.Obstacles
import LiveLisp.Proofs.Locals.Analysis
import LiveLisp.Proofs.Munge
import LiveLisp.Proofs.Reading.Joined
import LiveLisp.Proofs.Reading.Pace
import LiveLisp.Proofs.Reading.Positions
import LiveLisp.Proofs.Reading.Progress
import LiveLisp.Proofs.Reading.RoundTrip
import LiveLisp.Proofs.Script.Accesses
import LiveLisp.Proofs.Script.Mappings
import LiveLisp.Proofs.Script.Paths
import LiveLisp.Proofs.Session.Lifecycle
import LiveLisp.Proofs.Session.Loading
import LiveLisp.Proofs.Session.Namespace
import LiveLisp.Proofs.Session.Presence
import LiveLisp.Proofs.Session.Requests
import LiveLisp.Proofs.Session.Requirements
import LiveLisp.Proofs.Session.Slots
import LiveLisp.Proofs.Session.Wrapping
import LiveLisp.Proofs.SourceMap.Inline
import LiveLisp.Proofs.SourceMap.Lookup
import LiveLisp.Proofs.SourceMap.Meaning
import LiveLisp.Proofs.SourceMap.Numerals
import LiveLisp.Proofs.SourceMap.RoundTrip
import LiveLisp.Proofs.SourceMap.Words
import LiveLisp.Proofs.SourceMap.Caches
import LiveLisp.Proofs.Reading.Alike
import LiveLisp.Proofs.Reading.Discards
import LiveLisp.Proofs.Decimal.Rounding
import LiveLisp.Proofs.Reading.Literals
import LiveLisp.Proofs.Decimal.Shortest
import LiveLisp.Proofs.Reading.Floats
import LiveLisp.Proofs.Script.Data
import LiveLisp.Proofs.Script.Delimiters
import LiveLisp.Proofs.Session.Enclosure
import LiveLisp.Proofs.Analysis.Targets
import LiveLisp.Proofs.Analysis.Clauses
import LiveLisp.Proofs.Library.Additions
import LiveLisp.Proofs.Library.Layout
