import LinkMonitor.Main
import LinkMonitor.Proofs.Arithmetic
import LinkMonitor.Proofs.Command.Catalogs
import LinkMonitor.Proofs.Command.Decoding
import LinkMonitor.Proofs.Command.Editing
import LinkMonitor.Proofs.Command.Printing
import LinkMonitor.Proofs.Command.Setup
import LinkMonitor.Proofs.Command.Strictness
import LinkMonitor.Proofs.Decimal.Zeros
import LinkMonitor.Proofs.Files.Changes
import LinkMonitor.Proofs.Files.Paths
import LinkMonitor.Proofs.Monitor.Agreement
import LinkMonitor.Proofs.Monitor.Counting
import LinkMonitor.Proofs.Monitor.Ledger
import LinkMonitor.Proofs.Monitor.Matching
import LinkMonitor.Proofs.Monitor.Playback
import LinkMonitor.Proofs.Monitor.Polling
import LinkMonitor.Proofs.Monitor.Retyping
import LinkMonitor.Proofs.Monitor.Runs
import LinkMonitor.Proofs.Monitor.Steps
import LinkMonitor.Proofs.Monitor.Submissions
import LinkMonitor.Proofs.Output.Json
import LinkMonitor.Proofs.Output.Lines
import LinkMonitor.Proofs.Payload.Calls
import LinkMonitor.Proofs.Payload.Characters
import LinkMonitor.Proofs.Payload.Composition
import LinkMonitor.Proofs.Payload.Failures
import LinkMonitor.Proofs.Payload.Grammar
import LinkMonitor.Proofs.Payload.Integers
import LinkMonitor.Proofs.Payload.Layout
import LinkMonitor.Proofs.Payload.Lossless
import LinkMonitor.Proofs.Payload.Printing
import LinkMonitor.Proofs.Payload.Reading
import LinkMonitor.Proofs.Payload.Silence
import LinkMonitor.Proofs.Payload.Trailing
import LinkMonitor.Proofs.Payload.Transforms
import LinkMonitor.Proofs.Registry.Agreement
import LinkMonitor.Proofs.Registry.Edits
import LinkMonitor.Proofs.Registry.Lookup
import LinkMonitor.Proofs.Registry.Privilege
import LinkMonitor.Proofs.Registry.Refreshing
import LinkMonitor.Proofs.Stream.Chunks
import LinkMonitor.Proofs.Stream.Decomposition
import LinkMonitor.Proofs.Stream.Delivery
import LinkMonitor.Proofs.Stream.Positions
import LinkMonitor.Proofs.Table.Faults
import LinkMonitor.Proofs.Table.Headers
import LinkMonitor.Proofs.Table.Places
import LinkMonitor.Proofs.Table.Reading
import LinkMonitor.Proofs.Table.RoundTrip
import LinkMonitor.Proofs.Table.Rows
import LinkMonitor.Proofs.Table.Scanning
import LinkMonitor.Proofs.Table.Tolerance
import LinkMonitor.Proofs.Text.Encoding
import LinkMonitor.Proofs.Text.Numerals
import LinkMonitor.Proofs.Trace
import LinkMonitor.Proofs.Payload.Calls
