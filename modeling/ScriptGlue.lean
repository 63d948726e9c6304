import ScriptGlue.Number.Binary64
import ScriptGlue.Text.Digit
import ScriptGlue.Text.Lowercase
import ScriptGlue.Text.LowercaseForm
import ScriptGlue.Text.Printable
import ScriptGlue.Text.Uppercase
import ScriptGlue.Value.Reader
import ScriptGlue.Value.Writer
import ScriptGlue.Value.Display
import ScriptGlue.Value.Integer
import ScriptGlue.Value.Order
import ScriptGlue.Fault
import ScriptGlue.Code.Layout
import ScriptGlue.Naming
import ScriptGlue.Action
import ScriptGlue.Policy.Basic
import ScriptGlue.Graph.Link
import ScriptGlue.Graph.Hierarchy
import ScriptGlue.Document
import ScriptGlue.Files.Workspace
import ScriptGlue.Config
import ScriptGlue.Packaging
import ScriptGlue.Marshalling.Support
import ScriptGlue.Receiver
import ScriptGlue.Unit.Lookup
import ScriptGlue.Unit.Statement
import ScriptGlue.Unit.Basic
import ScriptGlue.Session.ScriptType
import ScriptGlue.Session.Trigger
import ScriptGlue.Session.Setup
import ScriptGlue.Main
import ScriptGlue.Proofs.Names
import ScriptGlue.Proofs.Action
import ScriptGlue.Proofs.Files.Bytes
import ScriptGlue.Proofs.Files.Commit
import ScriptGlue.Proofs.Files.Directory
import ScriptGlue.Proofs.Files.Discard
import ScriptGlue.Proofs.Files.Place
import ScriptGlue.Proofs.Files.Saves
import ScriptGlue.Proofs.Files.Split
import ScriptGlue.Proofs.Graph.Relocation
import ScriptGlue.Proofs.Graph.Growth
import ScriptGlue.Proofs.Graph.Linking
import ScriptGlue.Proofs.Session.Faults
import ScriptGlue.Proofs.Session.Gate
import ScriptGlue.Proofs.Session.Aftermath
import ScriptGlue.Proofs.Session.Retry
import ScriptGlue.Proofs.Session.Steady
import ScriptGlue.Proofs.Session.Dependencies
import ScriptGlue.Proofs.Session.NativeLayout
import ScriptGlue.Proofs.Session.Walk
import ScriptGlue.Proofs.Session.Progress
import ScriptGlue.Proofs.Session.Traversal
import ScriptGlue.Proofs.Session.Batch
import ScriptGlue.Proofs.Session.Reachability
import ScriptGlue.Proofs.Agreement
import ScriptGlue.Proofs.Session.MovedParts
import ScriptGlue.Proofs.Session.Twins
import ScriptGlue.Proofs.Session.Operations
import ScriptGlue.Proofs.Session.Moments
import ScriptGlue.Proofs.Session.StructMarshalling
import ScriptGlue.Proofs.Session.Fits
import ScriptGlue.Proofs.Session.Careful
import ScriptGlue.Proofs.Session.CarefulExports
import ScriptGlue.Proofs.Session.Attended
import ScriptGlue.Proofs.Session.LayoutAnswers
import ScriptGlue.Proofs.Session.MemberSafety
import ScriptGlue.Proofs.Files.Spelling
import ScriptGlue.Proofs.Files.Keeping
import ScriptGlue.Proofs.Code.Ascii
import ScriptGlue.Proofs.Session.Stagers
import ScriptGlue.Proofs.Session.UnitFiles
import ScriptGlue.Proofs.Session.TwinSaves
import ScriptGlue.Proofs.Session.FailedBatch
import ScriptGlue.Proofs.Session.Rescan
import ScriptGlue.Proofs.Session.Revisions
import ScriptGlue.Proofs.Graph.Declarations
import ScriptGlue.Proofs.Graph.Reordering
import ScriptGlue.Proofs.Session.Catalogue
import ScriptGlue.Proofs.Session.Order
import ScriptGlue.Proofs.Session.SignatureValues
import ScriptGlue.Proofs.Session.Once
import ScriptGlue.Proofs.Session.Forwarders
import ScriptGlue.Proofs.CommandLine.ExitOne
import ScriptGlue.Proofs.Files.Texts
import ScriptGlue.Proofs.Files.Recovery
import ScriptGlue.Proofs.Session.Events
import ScriptGlue.Proofs.Session.ForwarderCalls
import ScriptGlue.Proofs.Session.Parts
import ScriptGlue.Proofs.Session.CallTransfers
import ScriptGlue.Proofs.Session.SharedNames
import ScriptGlue.Proofs.Session.Vetted
import ScriptGlue.Proofs.Session.HandleReads
import ScriptGlue.Proofs.Session.Handles
import ScriptGlue.Proofs.Session.ClassHandles
import ScriptGlue.Proofs.Session.ProvidedHandles
import ScriptGlue.Proofs.Session.MirrorFields
import ScriptGlue.Proofs.Session.StrayParts
import ScriptGlue.Proofs.Session.IgnoredTypes
import ScriptGlue.Proofs.ReceiverChoice
import ScriptGlue.Proofs.Session.WiderPolicies
import ScriptGlue.Proofs.Session.ParameterNames
import ScriptGlue.Proofs.Graph.Demands
import ScriptGlue.Proofs.CommandLine.MalformedGraphs
import ScriptGlue.Proofs.Session.MemberNames
import ScriptGlue.Proofs.Session.Enumerators
import ScriptGlue.Proofs.Session.ClassMembers
import ScriptGlue.Proofs.Code.Nesting
import ScriptGlue.Proofs.Code.PrintedNames
import ScriptGlue.Proofs.Code.PrintedMembers
import ScriptGlue.Proofs.Code.PrintedUnits
import ScriptGlue.Proofs.Session.SpelledNames
import ScriptGlue.Proofs.Session.SpelledParts
import ScriptGlue.Proofs.Session.SpelledUnits
import ScriptGlue.Proofs.Session.NestedUnits
import ScriptGlue.Proofs.Session.BalancedUnits
import ScriptGlue.Proofs.PolicyDocuments
import ScriptGlue.Proofs.Files.Isolation
import ScriptGlue.Proofs.Session.ModuleDirectories
import ScriptGlue.Proofs.Session.Refusals
import ScriptGlue.Proofs.Graph.Ancestors
