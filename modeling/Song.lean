import Song.Lib.Words
import Song.Lib.Eff
import Song.Lib.Map
import Song.Lib.Run
import Song.Lib.List
import Song.Lib.Table
import Song.Lib.Feed
import Song.Lib.Cursor
import Song.Lib.Serial
import Song.Lib.Custody
import Song.Lib.Refs
import Song.Lib.Writers
import Song.Error
import Song.Buffer
import Song.Buffer.Primitives
import Song.Buffer.Storage
import Song.Wire
import Song.Subscription
import Song.Object
import Song.Runtime.State
import Song.Subscription.Fanout
import Song.Stream
import Song.Runtime.Message
import Song.Runtime.Returns
import Song.Runtime.Pipe
import Song.Runtime.Paths
import Song.Runtime.Serving
import Song.Runtime.Cleanup
import Song.Runtime.Objects
import Song.Runtime.StreamReply
import Song.Runtime.Answer
import Song.Connection
import Song.Connection.Reply
import Song.Connection.Streaming
import Song.Session
import Song.Session.Quiet
import Song.Session.Stale
import Song.Session.Served
import Song.Handshake
import Song.Wire.Messages
import Song.Process
import Song.Process.Reaped
import Song.Manager
import Song.Manager.Registrations
import Song.Manager.Edits
import Song.Manager.Connect
import Song.Manager.Lifecycle
import Song.Manager.Restarts
import Song.Manager.Sections
import Song.Manager.Interleaved
import Song.Transport
import Song.Transport.Calls
import Song.Transport.Framing
import Song.Transport.Refused
import Song.Transport.Shared
import Song.Connection.Polling
import Song.Registry
import Song.Registry.Expiry
import Song.Registry.Client
import Song.Registry.Dispatch
import Song.Security
import Song.Security.Rejected
import Song.Backup
import Song.Compiler.Ast
import Song.Compiler.Resolver
import Song.Lib.Links
import Song.Compiler.Chains
import Song.Compiler.Lexer
import Song.Compiler.Parser
import Song.Compiler.FrontEnd
import Song.Compiler.Written
import Song.Compiler.DocText
import Song.Compiler.Lexed
import Song.Compiler.Reading
import Song.Compiler.ReadBack
import Song.Compiler.Attached
import Song.Compiler.Ids
import Song.Compiler.Agreement
import Song.Compiler.Classes
import Song.Runtime.Delivery
import Song.Runtime.Lasting
import Song.Compiler.Inheritance
import Song.Compiler.Codec
import Song.Compiler.Typing
import Song.Compiler.Calls
import Song.Compiler.Containment
import Song.Compiler.RoundTrip
import Song.Compiler.Python
import Song.Compiler.PythonCodec
import Song.PyWire
import Song.Compiler.Rewriting
import Song.Compiler.Portable
import Song.Compiler.Helpers
import Song.Compiler.Constants
import Song.Lib.Supply
import Song.Lib.Guarded
import Song.Lib.Hygiene
import Song.Compiler.Text
import Song.Compiler.CppText.Types
import Song.Compiler.CppText.Members
import Song.Compiler.CppText.Files
import Song.Compiler.Declared
import Song.Compiler.ClassCode
import Song.Compiler.ClassCalls
import Song.Compiler.ClassProperties
import Song.Compiler.SelfContained
import Song.Compiler.Split
import Song.Compiler.CppNames
import Song.Compiler.CppHygiene
import Song.Compiler.PyText
import Song.Compiler.PyNames
import Song.Compiler.PyCalls
import Song.Compiler.PyImport
import Song.Compiler.PyBuffer
import Song.Compiler.EnumValues
import Song.Runtime.Extensions
import Song.PyConnection
import Song.Runtime.StreamMoves
import Song.Connection.Moves
import Song.Compiler.Scaffold
import Song.Compiler.Sync
import Song.Compiler.Lexical
import Song.Compiler.Ending
import Song.Compiler.Comments
import Song.Compiler.Cover
import Song.Lib.Splice
import Song.Sing.DataCopy
import Song.Sing.Chat
import Song.Compiler.ServiceCode
import Song.Compiler.ServiceCalls
import Song.Lib.Remote
import Song.Session.Facade
import Song.Lib.FileTree
import Song.Backup.Agent
import Song.Backup.Store
import Song.Backup.Changes
import Song.Backup.Upload
import Song.Backup.StreamBack
import Song.Compiler.Remote
import Song.Compiler.RemoteObjects
import Song.Compiler.Streamed
import Song.PyConnection.Call
import Song.Compiler.PyRemote
import Song.Lib.Patience
import Song.Transport.Tls
import Song.Lib.Holdings
import Song.Process.Descriptors
import Song.Process.Holders
import Song.Process.Spawn
import Song.Lib.LastWrite
import Song.Logging
