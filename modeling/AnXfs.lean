import AnXfs.Pack.Layout
import AnXfs.Server.Session
import AnXfs.Server.ExitOnce
import AnXfs.Server.Broadcast
import AnXfs.Server.Cancel
import AnXfs.Client.Registry
import AnXfs.Client.Windows
import AnXfs.Client.Handshake
import AnXfs.Client.OneWorker
import AnXfs.System.Framing
import AnXfs.System.Contract
import AnXfs.System.Lifetime
import AnXfs.Client.Report
import AnXfs.Client.Verdict
import AnXfs.Client.Arguments
import AnXfs.Client.GetInfo
import AnXfs.Client.Versions
import AnXfs.Pack.Payload
import AnXfs.Server.LastClose
import AnXfs.Server.Ownership
import AnXfs.Server.Idle
import AnXfs.Server.ItemCheck
import AnXfs.Server.ItemEvents
import AnXfs.Server.Transit
import AnXfs.Server.Wrap
import AnXfs.Client.SendCmd
import AnXfs.Server.Ledger
import AnXfs.Server.Settled
import AnXfs.Run.Backward
import AnXfs.Run.Locks
import AnXfs.System.Atomic
import AnXfs.System.Returns
import AnXfs.Run.Brackets
import AnXfs.System.Sessions
import AnXfs.Server.Shutdown
import AnXfs.System.Liveness
import AnXfs.System.Isolation
import AnXfs.Server.Accounted
import AnXfs.Client.Accounted
import AnXfs.Server.Crash
