import Sidecar.FileTree.Edit
import Sidecar.Main
import Sidecar.Proofs.Handle
import Sidecar.Proofs.Outcome
import Sidecar.Proofs.PublicKey
import Sidecar.Proofs.Verifier
import Sidecar.Proofs.Acceptance
import Sidecar.Proofs.Signing
import Sidecar.Proofs.Binding
import Sidecar.Proofs.Der.Value
import Sidecar.Proofs.PublicKey.Document
import Sidecar.Proofs.Text.Utf8
import Sidecar.Proofs.Text.Lines
import Sidecar.Proofs.Pem
import Sidecar.Proofs.KeyResource
import Sidecar.Proofs.KeyResource.Encodings
import Sidecar.Proofs.KeyResource.Blanks
import Sidecar.Proofs.CommandLine
import Sidecar.Proofs.CommandLine.Requests
import Sidecar.Proofs.Trace
import Sidecar.Proofs.WidePath
import Sidecar.Proofs.Inputs
import Sidecar.Proofs.FileTree
import Sidecar.Proofs.Program
import Sidecar.Proofs.Commands
import Sidecar.Proofs.ExitStatus
import Sidecar.Proofs.HashReport
import Sidecar.Proofs.SignaturePath.Sharing
import Sidecar.Proofs.InvalidPath
import Sidecar.Proofs.SignatureFile
import Sidecar.Proofs.Failure
import Sidecar.Proofs.IoFailure
import Sidecar.Proofs.Failure.Wording
import Sidecar.Proofs.VerifyReport
import Sidecar.Proofs.CommandLine.Requests
