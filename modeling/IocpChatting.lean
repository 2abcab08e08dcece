import IocpChatting.Lib.Runs
import IocpChatting.Lib.Cyclic
import IocpChatting.Lib.BoundedFifo
import IocpChatting.Lib.Framing
import IocpChatting.Lib.Turns
import IocpChatting.Lib.Crc
import IocpChatting.Content.Steps
import IocpChatting.Content.Membership
import IocpChatting.Content.Sources
import IocpChatting.Content.Logins
import IocpChatting.Content.Inbound
import IocpChatting.Content.Ledger
import IocpChatting.Content.Connections
import IocpChatting.Content.Greetings
import IocpChatting.Content.Dispatch
import IocpChatting.Content.Accounts
import IocpChatting.Content.Outgoing
import IocpChatting.Content.Deliveries
import IocpChatting.Content.Refusals
import IocpChatting.Content.Capacity
import IocpChatting.Content.Answers
import IocpChatting.Content.Startup
import IocpChatting.Content.Consumption
import IocpChatting.Content.Draining
import IocpChatting.Content.Blocked
import IocpChatting.Content.Ids
import IocpChatting.Content.Visits
import IocpChatting.Content.Leaving
import IocpChatting.Content.UserLimit
import IocpChatting.Content.Locality
import IocpChatting.Lib.Following
import IocpChatting.Content.Mirror
import IocpChatting.Content.Clients
import IocpChatting.Network.Session
import IocpChatting.Network.Fifo
import IocpChatting.Network.Counts
import IocpChatting.Network.Pieces
import IocpChatting.Network.Network
import IocpChatting.Lib.Census
import IocpChatting.Network.Faults
import IocpChatting.Network.Slots
import IocpChatting.Network.Events
import IocpChatting.Network.Accepts
import IocpChatting.Network.Recycling
import IocpChatting.Network.Activation
import IocpChatting.Network.Pairing
import IocpChatting.Network.SendPath
import IocpChatting.Network.Backpressure
import IocpChatting.Network.Quarantine
import IocpChatting.Network.Tally
import IocpChatting.Network.Relay
import IocpChatting.Network.EmptySends
import IocpChatting.Content.Shutdown
import IocpChatting.Content.Stopping
import IocpChatting.Content.Residue
import IocpChatting.Network.Receiving
import IocpChatting.System.ChatServer
import IocpChatting.System.Inbound
import IocpChatting.System.Outbound
import IocpChatting.Redis.Slot
import IocpChatting.Lib.EqualRange
import IocpChatting.Lib.SharedLock
import IocpChatting.Redis.Reply
import IocpChatting.Redis.Info
import IocpChatting.Redis.Server
import IocpChatting.Redis.Pool
import IocpChatting.Redis.Cluster
import IocpChatting.Redis.Client
import IocpChatting.Redis.Safety
import IocpChatting.Redis.Calls
import IocpChatting.Redis.Service
import IocpChatting.Redis.Routing
import IocpChatting.Redis.Progress
import IocpChatting.Redis.Login
import IocpChatting.Redis.Teardown
import IocpChatting.Content.Wire
