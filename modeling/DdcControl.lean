import DdcControl.Text
import DdcControl.Capabilities.Parser
import DdcControl.Capabilities.Patch
import DdcControl.Library.Fallible
import DdcControl.Library.Closure
import DdcControl.Library.Peeling
import DdcControl.Database.Options
import DdcControl.Database.Assembly
import DdcControl.Database.Errors
import DdcControl.Database.Requirements
import DdcControl.Database.Session
import DdcControl.Database.Script
import DdcControl.Database.Steps
import DdcControl.Database.Isolation
import DdcControl.Database.Published
import DdcControl.Database.Allocation
import DdcControl.Database.Validation
import DdcControl.Library.Cbor
import DdcControl.Context.Xml
import DdcControl.Wire.Deterministic
import DdcControl.Wire.Fields
import DdcControl.Wire.Preflight
import DdcControl.Wire.Encode
import DdcControl.Wire.Schema
import DdcControl.Wire.Decode
import DdcControl.Wire.Descriptors
import DdcControl.Wire.Validate
import DdcControl.Wire.References
import DdcControl.Wire.Manifest
import DdcControl.Database.Tolerance
import DdcControl.Protocol.Framing
import DdcControl.Protocol.Exchange
import DdcControl.Protocol.Collect
import DdcControl.Library.LinkedList
import DdcControl.Profiles.Deletion
import DdcControl.Context.Load
import DdcControl.Database.Visits
import DdcControl.Context.Includes
import DdcControl.Context.MonitorFile
import DdcControl.Opening.Fallback
import DdcControl.Dbgen.Convert
import DdcControl.Dbgen.Agreement
import DdcControl.Dbgen.Preservation
import DdcControl.Dbgen.Records
import DdcControl.Dbgen.Conversion
import DdcControl.Dbgen.Snapshot
import DdcControl.Daemon.Controls
import DdcControl.Daemon.Closing
import DdcControl.Capabilities.Readings
import DdcControl.Scanner.Vocabulary
import DdcControl.Scanner.Generate
import DdcControl.Scanner.Written
import DdcControl.Context.Elements
import DdcControl.Protocol.Spacing
import DdcControl.Daemon.WriteDelay
import DdcControl.Protocol.Logged
import DdcControl.Scanner.ReadControl
import DdcControl.Library.Edits
import DdcControl.Capabilities.Patching
import DdcControl.Capabilities.Grammar
import DdcControl.Capabilities.Concatenation
import DdcControl.Capabilities.Balance
import DdcControl.Scanner.Printed
import DdcControl.Capabilities.Buffer
import DdcControl.Capabilities.Keyword
import DdcControl.Library.Cddl
import DdcControl.Wire.Format
import DdcControl.Wire.Conformance
import DdcControl.Library.Lookup
import DdcControl.Scanner.Mapped
import DdcControl.Scanner.Adding
import DdcControl.Scanner.Profile
import DdcControl.Scanner.Loading
import DdcControl.Dbgen.Lossless
import DdcControl.Dbgen.Diagnostic
import DdcControl.Library.MarkupReader
import DdcControl.Saved.Reading
import DdcControl.Saved.Profile
import DdcControl.Saved.MonitorList
import DdcControl.Library.MarkupComments
import DdcControl.Scanner.Comments
import DdcControl.Scanner.Unambiguous
import DdcControl.Command.Numbers
import DdcControl.Protocol.Bridge
import DdcControl.Library.Percent
import DdcControl.Command.IssueUrl
import DdcControl.Integers
import DdcControl.Library.Comparison
import DdcControl.Opening.DeviceOrder
import DdcControl.Capabilities.Positions
import DdcControl.Wire.Bounds
import DdcControl.Library.Ownership
import DdcControl.Library.OwnedList
import DdcControl.Database.Memory
import DdcControl.Database.OwnedTree
import DdcControl.Database.OwnedCaps
import DdcControl.Database.StagedCaps
import DdcControl.Database.Interaction
import DdcControl.Library.Mutex
import DdcControl.Context.Threads
import DdcControl.Identification.Edid
import DdcControl.Identification.Bridge
import DdcControl.Client.Remote
import DdcControl.Database.Restriction
import DdcControl.Command.Integrity
import DdcControl.Library.Registers
import DdcControl.Protocol.Display
import DdcControl.Profiles.Restoring
import DdcControl.Command.Selection
import DdcControl.Daemon.Messages
import DdcControl.Command.Run
import DdcControl.Command.Change
import DdcControl.Scanner.Backend
import DdcControl.Scanner.Run
import DdcControl.Scanner.Agreement
