import WasmBuild.FileSystem.Changes
import WasmBuild.Main
import WasmBuild.Proofs.Callers
import WasmBuild.Proofs.Redelivery
import WasmBuild.Proofs.Rendering
import WasmBuild.Proofs.Statuses
import WasmBuild.Toolbox.Basic
import WasmBuild.Proofs.Concatenation
import WasmBuild.Proofs.Inactive
import WasmBuild.Proofs.Quoting
import WasmBuild.Proofs.Layout
import WasmBuild.Proofs.LogLines
import WasmBuild.Proofs.Twins
import WasmBuild.Proofs.Unset
import WasmBuild.Proofs.Denotation
import WasmBuild.Proofs.Harmless
import WasmBuild.Proofs.Discovery
import WasmBuild.Proofs.PathEntries
import WasmBuild.Proofs.Requests
import WasmBuild.Proofs.Surplus
import WasmBuild.Proofs.Choices
import WasmBuild.Proofs.ArtifactNames
import WasmBuild.Proofs.Components
import WasmBuild.Proofs.NamedManifest
import WasmBuild.Proofs.Detours
import WasmBuild.Proofs.Segments
