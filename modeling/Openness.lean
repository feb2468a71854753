import Openness.Completion
import Openness.Descriptor.RoundTrip
import Openness.Folder
import Openness.Remap
import Openness.RenameTable
import Openness.Proofs.AskedNames
import Openness.Proofs.Completion.Confluence
import Openness.Proofs.Completion.Idempotence
import Openness.Proofs.Completion.Lookup
import Openness.Proofs.Completion.Merge
import Openness.Proofs.Completion.Reports
import Openness.Proofs.Descriptors
import Openness.Proofs.Format.Accepted
import Openness.Proofs.Format.AllOrNothing
import Openness.Proofs.Format.ByWords
import Openness.Proofs.Format.InParts
import Openness.Proofs.Format.Irredundant
import Openness.Proofs.Format.Pipeline
import Openness.Proofs.Format.Policies
import Openness.Proofs.Overriding
import Openness.Proofs.PlainClass
import Openness.Proofs.Remap.Back
import Openness.Proofs.Remap.Identity
import Openness.Proofs.Remap.Lookup
import Openness.Proofs.Remap.Merge
import Openness.Proofs.Remap.Nested
import Openness.Proofs.Remap.Preimages
import Openness.Proofs.Remap.SameTable
import Openness.Proofs.Remap.Substitution
import Openness.Proofs.Remap.Table
import Openness.Proofs.Session.Laws
import Openness.Proofs.Signatures
