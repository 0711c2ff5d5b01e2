import TypedTree.Config
import TypedTree.Constructor
import TypedTree.Constructor.Template
import TypedTree.Core
import TypedTree.Core.Constructors
import TypedTree.Document
import TypedTree.Document.Codec
import TypedTree.Document.Printer
import TypedTree.Document.Reader
import TypedTree.Forest
import TypedTree.Generic
import TypedTree.Holder
import TypedTree.Holder.Arena
import TypedTree.Holder.Cells
import TypedTree.Holder.Payload
import TypedTree.Holder.Revision
import TypedTree.Ident
import TypedTree.Ident.Handle
import TypedTree.Ident.Interner
import TypedTree.Inclusion
import TypedTree.Inquiry
import TypedTree.Mapping
import TypedTree.Mapping.Listing
import TypedTree.Path
import TypedTree.Path.Reader
import TypedTree.Path.Scan
import TypedTree.Rational
import TypedTree.Rational.Wide
import TypedTree.Registry
import TypedTree.Subtyping
import TypedTree.Subtyping.Judgments
import TypedTree.Subtyping.Memory
import TypedTree.Text.Blank
import TypedTree.Text.Decimal
import TypedTree.Text.Decimal.Scaled
import TypedTree.Text.Quoted
import TypedTree.Text.Unprintable
import TypedTree.Tree
import TypedTree.Tree.Error
import TypedTree.Tree.Node
import TypedTree.Tree.View
import TypedTree.Tree.Walk
import TypedTree.Ty
import TypedTree.Ty.Check
import TypedTree.Ty.Child
import TypedTree.Ty.Default
import TypedTree.Ty.Display
import TypedTree.Ty.Edit
import TypedTree.Ty.Equality
import TypedTree.Ty.Error
import TypedTree.Ty.Flags
import TypedTree.Ty.Scalar
import TypedTree.TypeSystem
import TypedTree.Value
import TypedTree.Value.Equality
import TypedTree.Value.Mapping
import TypedTree.Value.Text
import TypedTree.Proofs.Outcome
import TypedTree.Proofs.Resolution
import TypedTree.Proofs.CoreKinds
import TypedTree.Proofs.Acceptance
import TypedTree.Proofs.Places
import TypedTree.Proofs.Children
import TypedTree.Proofs.Defaults
import TypedTree.Proofs.Nodes
import TypedTree.Proofs.Runs
import TypedTree.Proofs.Writes
import TypedTree.Proofs.Steps
import TypedTree.Proofs.Views
import TypedTree.Proofs.Forests
import TypedTree.Proofs.Independence
import TypedTree.Proofs.Edits
import TypedTree.Proofs.Weights
import TypedTree.Proofs.Questions
import TypedTree.Proofs.Comparison
import TypedTree.Proofs.Mirroring
import TypedTree.Proofs.Antisymmetry
import TypedTree.Proofs.Unsteady
import TypedTree.Proofs.Lookup
import TypedTree.Proofs.Sessions
import TypedTree.Proofs.Substitution
import TypedTree.Proofs.Scoping
import TypedTree.Proofs.Instances
import TypedTree.Proofs.Builders
import TypedTree.Proofs.Inhabitation
import TypedTree.Proofs.Subtypes
import TypedTree.Proofs.Soundness
import TypedTree.Proofs.Transitivity
import TypedTree.Proofs.Sealed
import TypedTree.Proofs.Covariance
import TypedTree.Proofs.PlainData
import TypedTree.Proofs.Navigation
import TypedTree.Proofs.Walks
import TypedTree.Proofs.Stability
import TypedTree.Proofs.Memories
import TypedTree.Proofs.Memoization
import TypedTree.Proofs.Approximation
import TypedTree.Proofs.Twins
import TypedTree.Proofs.Failures
import TypedTree.Proofs.Lexemes
import TypedTree.Proofs.Spellings
import TypedTree.Proofs.Encoding
import TypedTree.Proofs.Listings
import TypedTree.Proofs.Documents
import TypedTree.Proofs.Sharing
import TypedTree.Proofs.Counting
import TypedTree.Proofs.Revisions
import TypedTree.Proofs.Boxes
import TypedTree.Proofs.Arenas
import TypedTree.Proofs.Interning
import TypedTree.Proofs.Flags
import TypedTree.Proofs.Resizing
import TypedTree.Proofs.Bindings
import TypedTree.Proofs.Depths
import TypedTree.Proofs.Shifting
import TypedTree.Proofs.Overflow
import TypedTree.Proofs.Descents
import TypedTree.Proofs.Switching
import TypedTree.Proofs.Declarations
import TypedTree.Proofs.Fractions
import TypedTree.Proofs.Precedence
import TypedTree.Proofs.Templates
