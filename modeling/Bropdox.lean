import Bropdox.Session.Program
import Bropdox.Session.Step
import Bropdox.Session.Determinacy
import Bropdox.Session.Pair
import Bropdox.Session.Letters
import Bropdox.Session.Monologue
import Bropdox.Session.Solo
import Bropdox.Session.Transcripts
import Bropdox.Session.Unwinding
import Bropdox.Session.Failing
import Bropdox.Session.Reading
import Bropdox.FileSystem.Path
import Bropdox.FileSystem.Machine
import Bropdox.FileSystem.Stream
import Bropdox.FileSystem.Subtree
import Bropdox.FileSystem.FlatDir
import Bropdox.FileSystem.Beside
import Bropdox.OrderedMap
import Bropdox.Rounding
import Bropdox.FirstFree
import Bropdox.Runs
import Bropdox.KeyedStore
import Bropdox.Sharing
import Bropdox.Handles
import Bropdox.Layout
import Bropdox.Messages
import Bropdox.Images
import Bropdox.FileHandler
import Bropdox.Client
import Bropdox.RequestHandler
import Bropdox.ReplicaManager
import Bropdox.Server
import Bropdox.Daemon
import Bropdox.Chunks
import Bropdox.Counts
import Bropdox.Replica
import Bropdox.FlatHost
import Bropdox.Naming
import Bropdox.Listing
import Bropdox.Peers
import Bropdox.Transfer
import Bropdox.Delivery
import Bropdox.Arrivals
import Bropdox.Retries
import Bropdox.Sync
import Bropdox.Rounds
import Bropdox.Saves
import Bropdox.Devices
import Bropdox.Quiescence
import Bropdox.Histories
import Bropdox.Commands
import Bropdox.Printing
import Bropdox.Household
import Bropdox.NameRules
import Bropdox.Fitting
import Bropdox.Memory
import Bropdox.Sockets
import Bropdox.Members
import Bropdox.Admission
import Bropdox.Membership
import Bropdox.Interleaving
import Bropdox.UserDirs
import Bropdox.Announcing
import Bropdox.Replication
import Bropdox.Handshakes
import Bropdox.SessionTable
import Bropdox.Refusals
import Bropdox.Accounts
import Bropdox.LoginThreads
import Bropdox.LoginOrder
import Bropdox.Sites
import Bropdox.LoginViews
import Bropdox.LoginReplication
import Bropdox.Isolation
import Bropdox.Confinement
import Bropdox.Tenants
import Bropdox.Network
import Bropdox.Routing
import Bropdox.Channels
import Bropdox.Ports
import Bropdox.Logout
import Bropdox.Exceptions
import Bropdox.Merging
import Bropdox.Receiving
import Bropdox.Session.Conduct
import Bropdox.Session.Played
import Bropdox.Session.Throwing
import Bropdox.Storing
