import Ambient.Main
import Ambient.Proofs.Annotation.Arrays
import Ambient.Proofs.Annotation.Words
import Ambient.Proofs.Annotation.Settled
import Ambient.Proofs.Declaration.Inclusion
import Ambient.Proofs.Library.Resolution
import Ambient.Proofs.Declaration.Layout
import Ambient.Proofs.Declaration.Blocks
import Ambient.Proofs.Annotation.ClassName
import Ambient.Proofs.Declaration.Locality
import Ambient.Proofs.Declaration.Arrival
import Ambient.Proofs.Declaration.Suppression
import Ambient.Proofs.Declaration.Inheritance
import Ambient.Proofs.Command.Failure
import Ambient.Proofs.Library.Insertion
import Ambient.Proofs.Library.Load
import Ambient.Proofs.Metadata.Rearranged
import Ambient.Proofs.Declaration.Emission
import Ambient.Proofs.Declaration.Functions
import Ambient.Proofs.Declaration.Modifiers
import Ambient.Proofs.Declaration.Ways
import Ambient.Proofs.Library.Filing
import Ambient.Proofs.Annotation.Promises
import Ambient.Proofs.Declaration.SourceLink
import Ambient.Proofs.Annotation.Passes
import Ambient.Proofs.Annotation.Loose
import Ambient.Proofs.Text.Bytes
import Ambient.Proofs.Declaration.ByteReading
import Ambient.Proofs.Declaration.Comment
import Ambient.Proofs.Declaration.MemberName
import Ambient.Proofs.Json.Whole
import Ambient.Proofs.Metadata.TypeRef
import Ambient.Proofs.Json.Parts
import Ambient.Proofs.Command.Layers
