import Ambient.Api.Validity
import Ambient.CommandLine.Run
import Ambient.Directives.Decode
import Ambient.Generation
import Ambient.Library
import Ambient.Main
import Ambient.Patch
import Ambient.Proofs.Api.Addresses
import Ambient.Proofs.Api.Definitions
import Ambient.Proofs.Api.Kinds
import Ambient.Proofs.Api.Replacing
import Ambient.Proofs.Api.Validity
import Ambient.Proofs.Augmentation
import Ambient.Proofs.Comment
import Ambient.Proofs.Correction.Definitions
import Ambient.Proofs.Correction.Loader
import Ambient.Proofs.Correction.Narrowed
import Ambient.Proofs.Correction.Removal
import Ambient.Proofs.Correction.Stability
import Ambient.Proofs.Correction.Visibility
import Ambient.Proofs.Declaration.Answers
import Ambient.Proofs.Declaration.Bindings
import Ambient.Proofs.Declaration.Captures
import Ambient.Proofs.Declaration.Comparison
import Ambient.Proofs.Declaration.Completeness
import Ambient.Proofs.Declaration.Consultation
import Ambient.Proofs.Declaration.Dangling
import Ambient.Proofs.Declaration.Documented
import Ambient.Proofs.Declaration.Drafting
import Ambient.Proofs.Declaration.Drafting.Depth
import Ambient.Proofs.Declaration.Drafting.Written
import Ambient.Proofs.Declaration.Emittable
import Ambient.Proofs.Declaration.EntityNames
import Ambient.Proofs.Declaration.Entries
import Ambient.Proofs.Declaration.Flavors
import Ambient.Proofs.Declaration.Foreign
import Ambient.Proofs.Declaration.Heritage
import Ambient.Proofs.Declaration.Imported
import Ambient.Proofs.Declaration.InSight
import Ambient.Proofs.Declaration.Lines
import Ambient.Proofs.Declaration.Names
import Ambient.Proofs.Declaration.Outline
import Ambient.Proofs.Declaration.Places
import Ambient.Proofs.Declaration.Plan
import Ambient.Proofs.Declaration.Reclassified
import Ambient.Proofs.Declaration.Registry
import Ambient.Proofs.Declaration.Resolution
import Ambient.Proofs.Declaration.Respelled
import Ambient.Proofs.Declaration.Restricted
import Ambient.Proofs.Declaration.Scopes
import Ambient.Proofs.Declaration.Shown
import Ambient.Proofs.Declaration.Signatures
import Ambient.Proofs.Declaration.Statics
import Ambient.Proofs.Declaration.Stripped
import Ambient.Proofs.Declaration.Suppression
import Ambient.Proofs.Declaration.Surviving
import Ambient.Proofs.Declaration.Unambiguous
import Ambient.Proofs.Declaration.Unspelled
import Ambient.Proofs.Declaration.Uses
import Ambient.Proofs.Declaration.Views
import Ambient.Proofs.Declaration.Writing
import Ambient.Proofs.Dependencies
import Ambient.Proofs.Directives
import Ambient.Proofs.Directives.Merging
import Ambient.Proofs.Files.Paths
import Ambient.Proofs.Files.Tree
import Ambient.Proofs.Generation.Failure
import Ambient.Proofs.Generation.Loading
import Ambient.Proofs.Identifier
import Ambient.Proofs.Link.Climb
import Ambient.Proofs.Link.Naming
import Ambient.Proofs.Link.Nodes
import Ambient.Proofs.Link.Numbering
import Ambient.Proofs.Link.RoundTrip
import Ambient.Proofs.Link.Unlinked
import Ambient.Proofs.Literal
import Ambient.Proofs.Machine
import Ambient.Proofs.Ordered
import Ambient.Proofs.Output
import Ambient.Proofs.Preparation
import Ambient.Proofs.Reference
import Ambient.Proofs.Reference.Lines
import Ambient.Proofs.Reserved
import Ambient.Proofs.Respelling
import Ambient.Proofs.Respelling.Projection
import Ambient.Proofs.SourceText
import Ambient.Proofs.Symbol.Adopted
import Ambient.Proofs.Symbol.FirstWins
import Ambient.Proofs.Symbol.Kept
import Ambient.Proofs.Symbol.Listing
import Ambient.Proofs.Symbol.Merged
import Ambient.Proofs.Symbol.Overlaps
import Ambient.Proofs.Symbol.Owner
import Ambient.Proofs.Symbol.Splitting
import Ambient.Proofs.Tool
import Ambient.Proofs.TypeExpr.Applied
import Ambient.Proofs.TypeExpr.Calls
import Ambient.Proofs.TypeExpr.Comparison
import Ambient.Proofs.TypeExpr.Composed
import Ambient.Proofs.TypeExpr.Grammar
import Ambient.Proofs.TypeExpr.Literals
import Ambient.Proofs.TypeExpr.Meaning
import Ambient.Proofs.TypeExpr.Notes
import Ambient.Proofs.TypeExpr.Proper
import Ambient.Proofs.TypeExpr.ReadBack
import Ambient.Proofs.TypeExpr.Reading
import Ambient.Proofs.TypeExpr.Shown
import Ambient.Proofs.TypeExpr.Spelling
import Ambient.Proofs.TypeExpr.Typos
import Ambient.Proofs.TypeExpr.Written
import Ambient.Settings.Load
import Ambient.Tool.Programs
