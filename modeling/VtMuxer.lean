import VtMuxer.Format.Protocol
import VtMuxer.Format.Order
import VtMuxer.Format.StdAddr
import VtMuxer.Async.Basic
import VtMuxer.Interaction.Pool
import VtMuxer.Write.Accounting
import VtMuxer.Write.Dropped
import VtMuxer.Write.Claims
import VtMuxer.Read.Memory
import VtMuxer.Read.Chunking
import VtMuxer.Read.Progress
import VtMuxer.Read.Failures
import VtMuxer.Read.Stranded
import VtMuxer.Read.Broken
import VtMuxer.Read.Blocked
import VtMuxer.Mux.RoundTrip
import VtMuxer.Read.Boundary
import VtMuxer.Read.EndOfStream
import VtMuxer.Mux.Isolation
import VtMuxer.Write.Complete
import VtMuxer.Read.Race
import VtMuxer.Write.Torn
import VtMuxer.Mux.Attempt
import VtMuxer.Mux.Endpoint
import VtMuxer.Mux.Pair
import VtMuxer.Write.Ledger
import VtMuxer.Mux.Voices
import VtMuxer.Mux.Duplex
import VtMuxer.Mux.Switch
import VtMuxer.Read.Stalled
import VtMuxer.Mux.Completes
import VtMuxer.Write.Relay
import VtMuxer.Write.Registered
import VtMuxer.Write.Memory
import VtMuxer.Mux.Transfer
