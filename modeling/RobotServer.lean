import RobotServer.Model.World
import RobotServer.Transfer.Packets
import RobotServer.Transfer.ReadLoop
import RobotServer.Transfer.Upload
import RobotServer.Transfer.Reuse
import RobotServer.Model.Hex
import RobotServer.Transfer.Datagrams
import RobotServer.Transfer.Receiver
import RobotServer.Transfer.Collection
import RobotServer.Transfer.Replication
import RobotServer.Interaction.Ensures
import RobotServer.Interaction.Slots
import RobotServer.Mailbox.Redis
import RobotServer.Mailbox.Commands
import RobotServer.Mailbox.Delivery
import RobotServer.Interaction.Interleaving
import RobotServer.Mailbox.Races
import RobotServer.Accounts.SignIn
import RobotServer.Accounts.Passwords
import RobotServer.Transfer.Takeover
import RobotServer.Serving.Framing
import RobotServer.Serving.Leftovers
import RobotServer.Status.PhoneId
import RobotServer.Status.Polls
import RobotServer.Model.SyncData
import RobotServer.Sync.Commands
import RobotServer.Sync.Records
import RobotServer.Maps.TwoWay
import RobotServer.Sync.Bindings
import RobotServer.Sync.Inverse
import RobotServer.Sync.UserNames
import RobotServer.Accounts.Statements
import RobotServer.Transfer.PacketReads
import RobotServer.Transfer.Insertions
import RobotServer.Transfer.Disturbance
import RobotServer.Transfer.Rounds
import RobotServer.Serving.Completion
import RobotServer.Transfer.Bounds
import RobotServer.Transfer.Offsets
import RobotServer.Transfer.Packetising
import RobotServer.Model.HexPairs
import RobotServer.Sync.Workload
import RobotServer.Sync.BadWorkload
import RobotServer.Locations.Gps
import RobotServer.Text.Search
import RobotServer.Model.CurlJson
import RobotServer.Locations.Extraction
import RobotServer.Locations.Accesses
import RobotServer.Locations.BaseStation
import RobotServer.Locations.NoPosition
import RobotServer.Model.Lbs
import RobotServer.Locations.TowerList
import RobotServer.Locations.AbsentTowers
import RobotServer.Interaction.Notes
import RobotServer.Model.Copies
import RobotServer.Mailbox.Destinations
import RobotServer.Accounts.Connections
import RobotServer.Model.Separation
import RobotServer.Mailbox.Splitting
import RobotServer.Locations.KeyReads
import RobotServer.Workers.Lists
import RobotServer.Workers.Ledger
import RobotServer.Workers.Wakeups
import RobotServer.Workers.Shutdown
import RobotServer.Serving.Lives
import RobotServer.Downloads.AssistNow
import RobotServer.Relay.Peers
