import DSLink.Lib.Heap
import DSLink.Lib.Cyclic
import DSLink.Lib.AssocMap
import DSLink.Lib.Ref
import DSLink.Lib.Run
import DSLink.Lib.PartitionPoint
import DSLink.Lib.SendWindow
import DSLink.Lib.SendOrder
import DSLink.Col.Ringbuffer
import DSLink.Col.Vector
import DSLink.Broker.State
import DSLink.Broker.Subscription
import DSLink.Broker.Node
import DSLink.Broker.Stream
import DSLink.Broker.Link
import DSLink.Broker.Data
import DSLink.Broker.Step
import DSLink.Broker.Frame
import DSLink.Broker.Footprint
import DSLink.Broker.Calls
import DSLink.Broker.Queue
import DSLink.Broker.Index
import DSLink.Broker.Acks
import DSLink.Broker.Live
import DSLink.Broker.Windows
import DSLink.Broker.Tree
import DSLink.Broker.Json
import DSLink.Broker.Permission
import DSLink.Broker.Request
import DSLink.Broker.Forward
import DSLink.Broker.Attribute
import DSLink.Broker.Seats
import DSLink.Broker.Placing
import DSLink.Broker.Connect
import DSLink.Lib.CrossIndex
import DSLink.Broker.Registry
import DSLink.Broker.Registered
import DSLink.Broker.Closed
import DSLink.Broker.Opened
import DSLink.Broker.Invoked
import DSLink.Broker.Reconnected
import DSLink.Broker.StreamRegistry
import DSLink.Broker.ListOwner
import DSLink.Broker.Paths
import DSLink.Broker.Handshake
import DSLink.Broker.Connecting
import DSLink.Broker.ListView
import DSLink.Lib.Saves
import DSLink.Storage.JsonFile
import DSLink.Storage.Stored
import DSLink.Lib.View
import DSLink.Broker.LocalList
import DSLink.Broker.Rows
import DSLink.Broker.Coherent
import DSLink.Broker.Quiet
import DSLink.Broker.Rids
import DSLink.Broker.PermissionMax
import DSLink.Broker.Mediation
import DSLink.Broker.TreeLive
import DSLink.Broker.Answers
import DSLink.Lib.Access
import DSLink.Broker.SelfClose
import DSLink.Sdk.Base64Url
import DSLink.Broker.Token
import DSLink.Broker.TokenBudget
import DSLink.Broker.SharedRows
import DSLink.Broker.RowsCarried
import DSLink.Broker.Query
import DSLink.Broker.QueryWalk
import DSLink.Broker.QueryClose
import DSLink.Sdk.Responder
import DSLink.Sdk.Subs
import DSLink.Sdk.ListStreams
import DSLink.Lib.Replay
import DSLink.Sdk.NodeTree
import DSLink.Sdk.ListCoherent
import DSLink.Broker.DataTree
import DSLink.Sdk.AsyncTasks
import DSLink.Sdk.AsyncAnswers
import DSLink.Col.Map
import DSLink.Col.MapRefines
import DSLink.Col.Lists
import DSLink.Col.MapAlloc
import DSLink.Broker.Sids
import DSLink.Broker.Demands
import DSLink.Broker.RespQos
import DSLink.Broker.Keeps
import DSLink.Broker.Methodless
import DSLink.Broker.NodeFree
import DSLink.Lib.Tails
import DSLink.Broker.Http
import DSLink.Broker.QueryMatch
import DSLink.Broker.PermissionList
import DSLink.Storage.SaveTick
import DSLink.Broker.FileNames
import DSLink.Broker.NameSearch
import DSLink.Broker.ConnBuffers
import DSLink.Broker.DataDelete
import DSLink.Broker.DynamicNodes
import DSLink.Lib.Gather
import DSLink.Sdk.NodeStore
import DSLink.Sdk.Password
import DSLink.Col.VectorErase
import DSLink.Col.VectorSearch
import DSLink.Col.RingbufferLife
import DSLink.Sdk.Base64RoundTrip
import DSLink.Sdk.Base64Check
import DSLink.Sdk.Base64Bounds
import DSLink.Sdk.KeyFile
import DSLink.Broker.UriParams
import DSLink.Sdk.Escape
import DSLink.Sdk.Url
import DSLink.Sdk.UrlParts
import DSLink.Sdk.HandshakeReq
import DSLink.Lib.Rewrite
import DSLink.Sdk.Replace
import DSLink.Broker.PermissionGroups
import DSLink.Broker.ConfigLoad
import DSLink.Broker.DataSound
import DSLink.Broker.DataJson
import DSLink.Broker.Conns
import DSLink.Broker.ConnsJson
import DSLink.Broker.Upstream
import DSLink.Broker.UpstreamRuns
import DSLink.Sdk.Requester
import DSLink.Sdk.Calls
import DSLink.Sdk.Exchanges
