import Sema.Analysis.Dump
import Sema.Builder.Script
import Sema.Diagnostic.Report
import Sema.Manifest
import Sema.Proofs.Building
import Sema.Proofs.DeadCode
import Sema.Proofs.Erroneous
import Sema.Proofs.FileOrder
import Sema.Proofs.Interface
import Sema.Proofs.NodeSharing
import Sema.Proofs.RespellingCheck
import Sema.Proofs.RoundTrip
import Sema.Proofs.Shadowing
import Sema.Proofs.Soundness
import Sema.Proofs.TypeIdentity
import Sema.Proofs.Provenance
import Sema.Proofs.DumpInjective
import Sema.Proofs.Divergence
import Sema.Proofs.Metadata
import Sema.Proofs.VersionText
import Sema.Proofs.ReportPlace
