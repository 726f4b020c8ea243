import SchemaDocs.Files.Volume
import SchemaDocs.Main
import SchemaDocs.Schema.Graph
import SchemaDocs.Proofs.Splitting
import SchemaDocs.Proofs.Table
import SchemaDocs.Proofs.Tree
import SchemaDocs.Proofs.Declarations
import SchemaDocs.Proofs.Canonical
import SchemaDocs.Proofs.Pages
import SchemaDocs.Proofs.Attributes
import SchemaDocs.Proofs.Links
import SchemaDocs.Proofs.LinkIntegrity
import SchemaDocs.Proofs.Json
import SchemaDocs.Proofs.Outline
import SchemaDocs.Proofs.Soundness
import SchemaDocs.Proofs.Describe
import SchemaDocs.Proofs.Agreement
import SchemaDocs.Proofs.Resolving
import SchemaDocs.Proofs.Acceptance
import SchemaDocs.Proofs.ExampleOrder
import SchemaDocs.Proofs.Reordering
import SchemaDocs.Proofs.Likeness
import SchemaDocs.Proofs.OrderIndependence
import SchemaDocs.Proofs.Outcomes
import SchemaDocs.Proofs.Forms
import SchemaDocs.Proofs.Grammar
import SchemaDocs.Proofs.Checking
import SchemaDocs.Proofs.Refusal
import SchemaDocs.Proofs.Entries
import SchemaDocs.Proofs.Volumes
import SchemaDocs.Proofs.Changes
import SchemaDocs.Proofs.Disks
import SchemaDocs.Proofs.Ways
import SchemaDocs.Proofs.Runs
import SchemaDocs.Proofs.Generation
import SchemaDocs.Proofs.Targets
import SchemaDocs.Proofs.Loads
import SchemaDocs.Proofs.Reloading
import SchemaDocs.Proofs.Confinement
import SchemaDocs.Proofs.Atomicity
import SchemaDocs.Proofs.Sites
import SchemaDocs.Proofs.Keys
import SchemaDocs.Proofs.Validity
import SchemaDocs.Proofs.HtmlPages
import SchemaDocs.Proofs.Platforms
import SchemaDocs.Proofs.Showing
import SchemaDocs.Proofs.Endings
import SchemaDocs.Proofs.Faithfulness
import SchemaDocs.Proofs.Mirrors
import SchemaDocs.Proofs.Widening
import SchemaDocs.Proofs.Reexports
import SchemaDocs.Proofs.GraphCheck
import SchemaDocs.Proofs.RelativePaths
import SchemaDocs.Proofs.Deprecation
import SchemaDocs.Proofs.Termination
import SchemaDocs.Proofs.Numerals
import SchemaDocs.Proofs.Floats
import SchemaDocs.Proofs.Quotation
import SchemaDocs.Proofs.Literals
import SchemaDocs.Proofs.Lines
import SchemaDocs.Proofs.Quoting
import SchemaDocs.Proofs.TidyLines
import SchemaDocs.Proofs.TidyPages
import SchemaDocs.Proofs.UniformEnds
import SchemaDocs.Proofs.LineFeeds
import SchemaDocs.Proofs.SameLines
import SchemaDocs.Proofs.SamePages
import SchemaDocs.Proofs.LineStyles
import SchemaDocs.Proofs.Carrying
import SchemaDocs.Proofs.Traversal
