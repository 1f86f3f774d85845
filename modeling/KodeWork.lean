import KodeWork.Framework.Base64
import KodeWork.Framework.Json
import KodeWork.Framework.Lease
import KodeWork.Framework.Machine
import KodeWork.Framework.OneShot
import KodeWork.Framework.Pieces
import KodeWork.Framework.Promises
import KodeWork.Framework.References
import KodeWork.Framework.Scripts
import KodeWork.Framework.Shell.Directories
import KodeWork.Framework.Shell.Environment
import KodeWork.Framework.Shell.Execution
import KodeWork.Framework.Shell.Posix
import KodeWork.Framework.Shell.Rules
import KodeWork.Framework.Tables
import KodeWork.Framework.Utf16
import KodeWork.Framework.Utf8
import KodeWork.Framework.Wp
import KodeWork.Impl.Actions.Action
import KodeWork.Impl.Actions.Run
import KodeWork.Impl.Agent
import KodeWork.Impl.Aggregator
import KodeWork.Impl.Candidates
import KodeWork.Impl.Channels
import KodeWork.Impl.Command
import KodeWork.Impl.Connect
import KodeWork.Impl.Controller
import KodeWork.Impl.DisconnectGate
import KodeWork.Impl.Domain
import KodeWork.Impl.Error
import KodeWork.Impl.HerdrStatus
import KodeWork.Impl.History.Commands
import KodeWork.Impl.History.Rows
import KodeWork.Impl.History.Store
import KodeWork.Impl.Host
import KodeWork.Impl.HostKey.Broker
import KodeWork.Impl.HostKey.Store
import KodeWork.Impl.HostRecord
import KodeWork.Impl.HostRows
import KodeWork.Impl.Hosts
import KodeWork.Impl.KeyboardInteractive
import KodeWork.Impl.LocalPty
import KodeWork.Impl.Migrations
import KodeWork.Impl.Osc52
import KodeWork.Impl.Panes
import KodeWork.Impl.Path
import KodeWork.Impl.Probe
import KodeWork.Impl.Reconnect
import KodeWork.Impl.Repositories
import KodeWork.Impl.Resources
import KodeWork.Impl.Session
import KodeWork.Impl.Supervisor
import KodeWork.Impl.Tailscale
import KodeWork.Impl.Text
import KodeWork.Impl.Transfer.Events
import KodeWork.Impl.Transfer.Io
import KodeWork.Impl.Transfer.LeaseKey
import KodeWork.Impl.Transfer.Manager
import KodeWork.Impl.Transfer.Pause
import KodeWork.Impl.Transfer.Request
import KodeWork.Impl.Tunnel.Manager
import KodeWork.Impl.Tunnel.Runtime
import KodeWork.Impl.VirtualWindow
import KodeWork.Impl.Wsl
import KodeWork.Proof.Actions
import KodeWork.Proof.Agent.Output
import KodeWork.Proof.Agent.Token
import KodeWork.Proof.Aggregator
import KodeWork.Proof.Candidates
import KodeWork.Proof.Channels
import KodeWork.Proof.Command
import KodeWork.Proof.Connect
import KodeWork.Proof.Danger
import KodeWork.Proof.Gate.Operations
import KodeWork.Proof.Gate.Order
import KodeWork.Proof.Gate.Runs
import KodeWork.Proof.HerdrStatus
import KodeWork.Proof.History
import KodeWork.Proof.HostKey.Decision
import KodeWork.Proof.HostKey.Identity
import KodeWork.Proof.HostKey.Overwrite
import KodeWork.Proof.HostKey.Requests
import KodeWork.Proof.HostKey.Steps
import KodeWork.Proof.Hosts.References
import KodeWork.Proof.Hosts.Rollback
import KodeWork.Proof.Hosts.Secrets
import KodeWork.Proof.KeyboardInteractive
import KodeWork.Proof.LocalPty
import KodeWork.Proof.Osc52
import KodeWork.Proof.Probe
import KodeWork.Proof.Reconcile
import KodeWork.Proof.Session.Controller
import KodeWork.Proof.Session.Delivery
import KodeWork.Proof.Session.Guard
import KodeWork.Proof.Session.Loss
import KodeWork.Proof.Session.Mailbox
import KodeWork.Proof.Session.Panes
import KodeWork.Proof.Session.Pending
import KodeWork.Proof.Session.Registry
import KodeWork.Proof.Session.Replay
import KodeWork.Proof.Session.States
import KodeWork.Proof.Session.Steps
import KodeWork.Proof.Session.Transport
import KodeWork.Proof.Shell.Cleanup
import KodeWork.Proof.Shell.Directories
import KodeWork.Proof.Shell.Environment
import KodeWork.Proof.Shell.Guard
import KodeWork.Proof.Shell.Probe
import KodeWork.Proof.Shell.Quoting
import KodeWork.Proof.Shell.RunScript
import KodeWork.Proof.Storage.Batch
import KodeWork.Proof.Storage.Checked
import KodeWork.Proof.Storage.Erasure
import KodeWork.Proof.Storage.Hosts
import KodeWork.Proof.Storage.Instances
import KodeWork.Proof.Storage.Migrations
import KodeWork.Proof.Storage.RunHistory
import KodeWork.Proof.Storage.RunRecords
import KodeWork.Proof.Storage.Saved
import KodeWork.Proof.Supervisor.Cancel
import KodeWork.Proof.Supervisor.Disconnect
import KodeWork.Proof.Supervisor.Guards
import KodeWork.Proof.Supervisor.SingleFlight
import KodeWork.Proof.Supervisor.Tasks
import KodeWork.Proof.Supervisor.Unattended
import KodeWork.Proof.Tailscale
import KodeWork.Proof.Transfer.Events
import KodeWork.Proof.Transfer.Lease
import KodeWork.Proof.Transfer.LocalPath
import KodeWork.Proof.Transfer.NormalForm
import KodeWork.Proof.Transfer.Pause
import KodeWork.Proof.Transfer.Publish
import KodeWork.Proof.Transfer.Reap
import KodeWork.Proof.Transfer.RemotePath
import KodeWork.Proof.Transfer.Separate
import KodeWork.Proof.Transfer.Staging
import KodeWork.Proof.Tunnel.CleanUp
import KodeWork.Proof.Tunnel.Close
import KodeWork.Proof.Tunnel.Registry
import KodeWork.Proof.Tunnel.Runtime
import KodeWork.Proof.VirtualWindow
import KodeWork.Proof.Wsl
