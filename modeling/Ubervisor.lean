import Ubervisor.Runs
import Ubervisor.BucketTable
import Ubervisor.ErrorCounters
import Ubervisor.Values
import Ubervisor.ChildConfigs
import Ubervisor.Kernel
import Ubervisor.Registry
import Ubervisor.Chunks
import Ubervisor.ReadCallback
import Ubervisor.Decoding
import Ubervisor.Suspension
import Ubervisor.Segmentation
import Ubervisor.Sockets
import Ubervisor.ReplyReading
import Ubervisor.ClientCommands
import Ubervisor.PythonClient
import Ubervisor.Server
import Ubervisor.Commands
import Ubervisor.Events
import Ubervisor.Supervision
import Ubervisor.Slots
import Ubervisor.Updates
import Ubervisor.Exits
import Ubervisor.Effects
import Ubervisor.GroupSteps
import Ubervisor.Outputs
import Ubervisor.JsonC
import Ubervisor.SlotInvariants
import Ubervisor.Reaping
import Ubervisor.Notifications
import Ubervisor.GroupCounters
import Ubervisor.ErrorWindows
import Ubervisor.Stopping
import Ubervisor.Dumps
import Ubervisor.Registrations
import Ubervisor.Signalling
import Ubervisor.Isolation
import Ubervisor.StatusNotes
import Ubervisor.FatalCommands
import Ubervisor.Answers
import Ubervisor.Restoring
import Ubervisor.Starting
import Ubervisor.Replies
import Ubervisor.Refusals
import Ubervisor.UpdateRequests
import Ubervisor.Delivery
import Ubervisor.Startup
import Ubervisor.GroupTable
import Ubervisor.Subscriptions
import Ubervisor.ConfigCodec
import Ubervisor.LogReading
import Ubervisor.KillRequests
import Ubervisor.UpdateNotes
import Ubervisor.FileTree
import Ubervisor.LogPaths
import Ubervisor.BufferedFiles
import Ubervisor.DumpFiles
import Ubervisor.Credentials
import Ubervisor.SpawnIds
import Ubervisor.StatusArguments
import Ubervisor.Buffers
import Ubervisor.LogNames
import Ubervisor.LogRecords
import Ubervisor.Loops
import Ubervisor.ReadLoop
import Ubervisor.ChunkFormat
import Ubervisor.Handles
import Ubervisor.HandlerSteps
import Ubervisor.AgeLimits
import Ubervisor.ChildSockets
import Ubervisor.ReadResources
import Ubervisor.HashTables
import Ubervisor.CommandIds
import Ubervisor.Conversations
import Ubervisor.Tunnel
import Ubervisor.SerialStarts
import Ubervisor.Heirs
import Ubervisor.GroupStore
import Ubervisor.Recovery
