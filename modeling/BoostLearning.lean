import BoostLearning.Framework.Transition
import BoostLearning.Framework.Broadcast
import BoostLearning.Chat.Session
import BoostLearning.Chat.Server
import BoostLearning.Chat.ServerTrace
import BoostLearning.Chat.ServerInvariant
import BoostLearning.Chat.Membership
import BoostLearning.Chat.Publishing
import BoostLearning.Chat.Isolation
import BoostLearning.Chat.Client
import BoostLearning.Chat.ClientInvariant
import BoostLearning.Chat.ClientPipeline
import BoostLearning.Chat.Relay
import BoostLearning.Chat.StreamReader
import BoostLearning.Chat.RoundTrip
import BoostLearning.Fork.Server
import BoostLearning.Fork.Roles
import BoostLearning.Fork.Connections
import BoostLearning.Fork.Reaping
import BoostLearning.Allocation.Memory
import BoostLearning.Allocation.Server
import BoostLearning.Framework.Echo
import BoostLearning.Allocation.Session
import BoostLearning.Fork.Echoing
import BoostLearning.Chat.Bounds
import BoostLearning.Chat.HeaderLanguage
import BoostLearning.Daytime.Server
import BoostLearning.Chat.InputLoop
import BoostLearning.Chat.ClientStops
import BoostLearning.Framework.Forest
import BoostLearning.Tracking.CustomTracking
import BoostLearning.Tracking.Trees
import BoostLearning.Allocation.BlockSize
import BoostLearning.Chat.Network
import BoostLearning.Chat.Conversation
import BoostLearning.Chat.Settling
import BoostLearning.Chat.Delivery
import BoostLearning.Chat.Completion
import BoostLearning.Framework.SharedOwnership
import BoostLearning.Daytime.Service
import BoostLearning.Daytime.TcpServer
import BoostLearning.Daytime.ReferenceCounted
import BoostLearning.Daytime.Clients
import BoostLearning.Framework.Strand
import BoostLearning.Tutorial.Printers
import BoostLearning.Daytime.UdpClients
import BoostLearning.Fork.Daemon
import BoostLearning.Chat.Lifetime
import BoostLearning.Multicast.Group
import BoostLearning.Allocation.Lifetime
