import Plasmosome.Foundation.Machine
import Plasmosome.Foundation.OrderedMap
import Plasmosome.Foundation.Windows
import Plasmosome.Foundation.IpAddress
import Plasmosome.Backend.CompositeRefinement
import Plasmosome.Reversal.Restore
import Plasmosome.Paging.Assembly
import Plasmosome.Paging.Transfer
import Plasmosome.Paging.CaptureProtocol
import Plasmosome.Journal.Log
import Plasmosome.Cell.Closure
import Plasmosome.Cell.KillBudget
import Plasmosome.Manifest.Text
import Plasmosome.Serde.Value
import Plasmosome.Cell.Denial
import Plasmosome.Cell.DenialLaws
import Plasmosome.Cell.DenialClient
import Plasmosome.Foundation.Cursor
import Plasmosome.Foundation.Loop
import Plasmosome.Foundation.Pointer
import Plasmosome.Reply.Grammar
import Plasmosome.Reply.Scanner
import Plasmosome.Reply.Scan
import Plasmosome.Reply.ScanSound
import Plasmosome.Reply.ScanComplete
import Plasmosome.Reply.Write
import Plasmosome.Reply.WriteLaws
import Plasmosome.Reply.Document
import Plasmosome.Instance.Allocator
import Plasmosome.Instance.AllocatorLaws
import Plasmosome.Instance.SupervisorLock
import Plasmosome.Instance.SupervisorLockLaws
import Plasmosome.Serde.Reader
import Plasmosome.Serde.Scanned
import Plasmosome.Instance.LaunchedMarker
import Plasmosome.Instance.Launched
import Plasmosome.Instance.LaunchedLaws
import Plasmosome.SessionLog.Readable
import Plasmosome.SessionLog.Durable
import Plasmosome.Membrane.HandshakeRun
import Plasmosome.Backend.Rfc3339
import Plasmosome.Membrane.InitramfsAudit
import Plasmosome.Membrane.Supervision
import Plasmosome.PrivateSocket.PublishRun
import Plasmosome.Backend.Difference
import Plasmosome.Cell.ToolRegistry
import Plasmosome.Runtime.RecipePath
import Plasmosome.Foundation.IpAddressText
import Plasmosome.Foundation.IpNumber
import Plasmosome.Foundation.LeadingBits
import Plasmosome.Manifest.CidrLaws
import Plasmosome.Foundation.Instants
import Plasmosome.Backend.BoundLaws
import Plasmosome.Backend.CodecLaws
import Plasmosome.Control.ConnectionLaws
import Plasmosome.Foundation.Scans
import Plasmosome.Guest.Observation
import Plasmosome.Foundation.Reordering
import Plasmosome.Guest.ObservationLaws
import Plasmosome.Guest.ObservationCodec
import Plasmosome.Differential.Value
import Plasmosome.Foundation.Numbering
import Plasmosome.Differential.Manifest
import Plasmosome.Differential.Normalize
import Plasmosome.Differential.Labels
import Plasmosome.Differential.NormalizeLaws
import Plasmosome.Differential.Judge
import Plasmosome.Differential.Findings
import Plasmosome.Differential.FindingsLaws
import Plasmosome.Differential.JudgeLaws
import Plasmosome.Runtime.LoadName
import Plasmosome.Runtime.LoadedImages
import Plasmosome.Runtime.MachO
import Plasmosome.Runtime.ClosureAudit
import Plasmosome.Runtime.MachOLaws
import Plasmosome.Runtime.ClosureAuditLaws
import Plasmosome.Foundation.Rounds
import Plasmosome.Membrane.Readiness
import Plasmosome.Membrane.ReadinessLaws
import Plasmosome.Tools.RecordFacts
import Plasmosome.Tools.RecordFactsLaws
import Plasmosome.Lanes.Cpio
import Plasmosome.Lanes.CpioAudit
import Plasmosome.Foundation.Lines
import Plasmosome.Lanes.Console
import Plasmosome.Lanes.ConsoleLaws
import Plasmosome.Lanes.Steps
import Plasmosome.Lanes.StepsLaws
import Plasmosome.CommandLine.Client
import Plasmosome.CommandLine.NewLaws
import Plasmosome.Membrane.SupervisionLaws
import Plasmosome.Membrane.SupervisionRun
import Plasmosome.Backend.CodecForms
import Plasmosome.Foundation.Frames
import Plasmosome.Journal.Parse
import Plasmosome.Journal.ParseLaws
import Plasmosome.Journal.Read
import Plasmosome.Journal.ReadLaws
import Plasmosome.Reply.Brackets
import Plasmosome.Reversal.Archive
import Plasmosome.Foundation.FileTree
import Plasmosome.Software.Pin
import Plasmosome.Software.PinLaws
import Plasmosome.Software.PinOrder
import Plasmosome.Software.PinRefusal
import Plasmosome.Foundation.Runs
import Plasmosome.Membrane.Brokers
import Plasmosome.Membrane.BrokersLaws
import Plasmosome.Membrane.Control
import Plasmosome.Membrane.ControlLaws
