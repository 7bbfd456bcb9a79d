import LibMongo.Base.Program
import LibMongo.Base.Twins
import LibMongo.Base.Refinement
import LibMongo.Base.Interaction
import LibMongo.Base.Interleaving
import LibMongo.Base.Pieces
import LibMongo.Base.Bytes
import LibMongo.Base.Parser
import LibMongo.Base.Chain
import LibMongo.Base.Loop
import LibMongo.Base.Framing
import LibMongo.Base.Counter
import LibMongo.Bson.Object
import LibMongo.Bson.Cursor
import LibMongo.Bson.Grammar
import LibMongo.Bson.Decode
import LibMongo.Bson.Walk
import LibMongo.Bson.Getters
import LibMongo.Bson.Lookup
import LibMongo.Bson.RoundTrip
import LibMongo.Bson.Builds
import LibMongo.Bson.Build
import LibMongo.Bson.Heap
import LibMongo.Bson.Hostile
import LibMongo.Bson.Inside
import LibMongo.Bson.Scan
import LibMongo.Wire.Packet
import LibMongo.Wire.Sealed
import LibMongo.Wire.Grammar
import LibMongo.Wire.RoundTrip
import LibMongo.Net.Address
import LibMongo.Net.Grammar
import LibMongo.Net.Client
import LibMongo.Net.Hosts
import LibMongo.Wire.Reply
import LibMongo.Net.Hostile
import LibMongo.Net.Boundary
import LibMongo.Sync.Command
import LibMongo.Sync.Report
import LibMongo.Sync.Reconnect
import LibMongo.Sync.Operation
import LibMongo.Sync.Admin
import LibMongo.Sync.IndexName
import LibMongo.Sync.Query
import LibMongo.Sync.Cluster
import LibMongo.Sync.Topology
import LibMongo.Sync.Ending
import LibMongo.Sync.Frame
import LibMongo.Sync.Session
import LibMongo.Sync.Settings
import LibMongo.Sync.Master
import LibMongo.Sync.Usable
import LibMongo.Sync.Attempts
import LibMongo.Sync.Write
import LibMongo.Sync.Submission
import LibMongo.Sync.Bulk
import LibMongo.Sync.Service
import LibMongo.Sync.Dialogue
import LibMongo.Sync.Conversation
import LibMongo.Sync.Cursor
import LibMongo.Sync.Paging
import LibMongo.Sync.Database
import LibMongo.Sync.Shelf
import LibMongo.Sync.Collections
import LibMongo.Sync.Verdict
import LibMongo.Sync.Client
import LibMongo.Sync.Stream
import LibMongo.Sync.Pairing
import LibMongo.Sync.Numbering
import LibMongo.Sync.Reuse
import LibMongo.Sync.Hosts
import LibMongo.Sync.Endianness
import LibMongo.Sync.Limit
import LibMongo.Sync.Refusal
import LibMongo.Sync.Remembered
import LibMongo.Sync.Recovery
import LibMongo.Sync.Carry
import LibMongo.Examples.Dump
import LibMongo.Sync.Seeds
import LibMongo.Sync.Pool
import LibMongo.Sync.Rotation
import LibMongo.Sync.Index
import LibMongo.Gridfs.File
import LibMongo.Gridfs.Stream
import LibMongo.Gridfs.Document
import LibMongo.Gridfs.Writer
import LibMongo.Gridfs.Agree
import LibMongo.Gridfs.Buffer
import LibMongo.Gridfs.Closing
import LibMongo.Gridfs.Process
import LibMongo.Gridfs.Oid
import LibMongo.Gridfs.Store
import LibMongo.Gridfs.Reader
import LibMongo.Gridfs.Fields
import LibMongo.Gridfs.Reading
import LibMongo.Gridfs.Seeking
import LibMongo.Gridfs.Slots
import LibMongo.Gridfs.Binary
import LibMongo.Gridfs.Retrieval
import LibMongo.Gridfs.Sharing
import LibMongo.Gridfs.Whole
