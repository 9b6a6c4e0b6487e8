import MarkupForms.Template
import MarkupForms.Markup
import MarkupForms.Context.Script
import MarkupForms.Document
import MarkupForms.Yaml.Inline
import MarkupForms.Session
import MarkupForms.Proofs.Grammar
import MarkupForms.Proofs.Lexing
import MarkupForms.Proofs.RoundTrip
import MarkupForms.Proofs.Logic
import MarkupForms.Proofs.Handling
import MarkupForms.Proofs.Sharing
import MarkupForms.Proofs.Autoescape
import MarkupForms.Proofs.Sealing
import MarkupForms.Proofs.Isolation
import MarkupForms.Proofs.Comparison
import MarkupForms.Proofs.Restoration
import MarkupForms.Proofs.Independence
import MarkupForms.Proofs.Relevance
import MarkupForms.Proofs.Balance
import MarkupForms.Proofs.Pairing
import MarkupForms.Proofs.Endings
import MarkupForms.Proofs.Limits
import MarkupForms.Proofs.Termination
import MarkupForms.Proofs.Pieces
import MarkupForms.Proofs.Attribution
import MarkupForms.Proofs.Cutting
import MarkupForms.Proofs.Partition
import MarkupForms.Proofs.Spacing
import MarkupForms.Proofs.Embedding
import MarkupForms.Proofs.Rounds
import MarkupForms.Proofs.Steps
import MarkupForms.Proofs.Propagation
import MarkupForms.Proofs.Prefixes
import MarkupForms.Proofs.Places
import MarkupForms.Proofs.Rules
import MarkupForms.Proofs.Interpolation
import MarkupForms.Proofs.Loops
import MarkupForms.Proofs.Switches
import MarkupForms.Proofs.Spelling
import MarkupForms.Proofs.Ranges
import MarkupForms.Proofs.Unmentioned
import MarkupForms.Proofs.Iteration
import MarkupForms.Proofs.Duality
import MarkupForms.Proofs.Answers
import MarkupForms.Proofs.Nesting
import MarkupForms.Proofs.References
import MarkupForms.Proofs.Paths
import MarkupForms.Proofs.Stacks
import MarkupForms.Proofs.Separation
import MarkupForms.Proofs.Copies
import MarkupForms.Proofs.Snapshots
import MarkupForms.Proofs.Conversions
import MarkupForms.Proofs.Builders
import MarkupForms.Proofs.Calling
import MarkupForms.Proofs.Overrides
import MarkupForms.Proofs.Settings
import MarkupForms.Proofs.Serialisation
import MarkupForms.Proofs.Layouts
import MarkupForms.Proofs.Documents
import MarkupForms.Proofs.Variables
import MarkupForms.Proofs.Renditions
import MarkupForms.Proofs.Descent
import MarkupForms.Proofs.Digits
import MarkupForms.Proofs.Relocation
import MarkupForms.Proofs.Literals
