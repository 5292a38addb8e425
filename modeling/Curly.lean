import Curly.Main
import Curly.Proofs.Trees
import Curly.Proofs.Walks
import Curly.Proofs.Comparison
import Curly.Proofs.Honesty
import Curly.Proofs.PlainData
import Curly.Proofs.Inlining
import Curly.Proofs.Grammar
import Curly.Proofs.Escaping
import Curly.Proofs.Provenance
import Curly.Proofs.Injection
import Curly.Proofs.Sessions
import Curly.Proofs.Engines
import Curly.Proofs.Waiting
import Curly.Proofs.Guard
import Curly.Proofs.Blanks
import Curly.Proofs.Paths
import Curly.Proofs.Showing
import Curly.Proofs.Completion
import Curly.Proofs.Tags
import Curly.Proofs.Cutting
import Curly.Proofs.Printing
import Curly.Proofs.Gaps
import Curly.Proofs.Chains
import Curly.Proofs.Patterns
import Curly.Proofs.Forms
import Curly.Proofs.Search
import Curly.Proofs.Scanning
import Curly.Proofs.Confinement
import Curly.Proofs.Blame
import Curly.Proofs.Sorted
import Curly.Proofs.Configs
import Curly.Proofs.Checking
import Curly.Proofs.Composition
import Curly.Proofs.JsonReading
import Curly.Proofs.Refusals
import Curly.Proofs.JsonRoundTrip
import Curly.Proofs.Layers
import Curly.Proofs.Histories
import Curly.Proofs.Mentions
import Curly.Proofs.Entities
import Curly.Proofs.Interpolation
import Curly.Proofs.LoopNames
import Curly.Proofs.Conditions
import Curly.Proofs.Branching
import Curly.Proofs.Resolution
import Curly.Proofs.Visits
import Curly.Proofs.Reprinting
import Curly.Proofs.ReadOnly
import Curly.Proofs.Layouts
import Curly.Proofs.Comments
