import BracketTags.Attributes.Merge
import BracketTags.Attributes.Parse
import BracketTags.Session.Inspection
import BracketTags.Proofs.Meaning
import BracketTags.Proofs.Forms
import BracketTags.Proofs.Awaiting
import BracketTags.Proofs.Openings
import BracketTags.Proofs.Yielding
import BracketTags.Session.Run
import BracketTags.Proofs.Stripping
import BracketTags.Proofs.ClosingTags
import BracketTags.Proofs.Escaping
import BracketTags.Proofs.Documents
import BracketTags.Proofs.Histories
import BracketTags.Proofs.Rendering
import BracketTags.Proofs.Snapshots
import BracketTags.Proofs.Blocks
import BracketTags.Proofs.Grammar
import BracketTags.Proofs.Partition
import BracketTags.Text.Blank
import BracketTags.Text.Word
import BracketTags.Proofs.Building
import BracketTags.Proofs.Vocabularies
import BracketTags.Proofs.Layers
import BracketTags.Proofs.Locality
import BracketTags.Proofs.StrippingTwice
import BracketTags.Proofs.Coverage
import BracketTags.Proofs.BlankAttributes
import BracketTags.Proofs.Equality
import BracketTags.Proofs.Nesting
import BracketTags.Proofs.Shortening
import BracketTags.Proofs.WrittenNames
import BracketTags.Proofs.KeptExpressions
