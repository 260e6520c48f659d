import Geryon.Basic
import Geryon.Decaf.Primes
import Geryon.Group.Calls
import Geryon.Group.Certified
import Geryon.Group.Client
import Geryon.Group.Complete
import Geryon.Group.Credential
import Geryon.Group.Elements
import Geryon.Group.Encoded
import Geryon.Group.Lifecycle
import Geryon.Group.Objects
import Geryon.Group.Query
import Geryon.Group.Roster
import Geryon.Group.Sample
import Geryon.Group.Sound
import Geryon.Group.State
import Geryon.Group.Target
import Geryon.Group.Tier
import Geryon.Kex.Agree
import Geryon.Kex.Generate
import Geryon.Kex.Keys
import Geryon.Kex.X3dh
import Geryon.Krmldsa.Attempt
import Geryon.Krmldsa.Impl
import Geryon.Krmldsa.Keys
import Geryon.Krmldsa.Native
import Geryon.Krmldsa.Reference
import Geryon.Krmldsa.Signing
import Geryon.Lib.AgeQueue
import Geryon.Lib.Buffer
import Geryon.Lib.Chain
import Geryon.Lib.Cmd
import Geryon.Lib.Codec
import Geryon.Lib.Conj
import Geryon.Lib.CounterMode
import Geryon.Lib.Edwards
import Geryon.Lib.Ledger
import Geryon.Lib.LittleEndian
import Geryon.Lib.Logged
import Geryon.Lib.Montgomery
import Geryon.Lib.Negacyclic
import Geryon.Lib.Packing
import Geryon.Lib.Pratt
import Geryon.Lib.Records
import Geryon.Lib.Register
import Geryon.Lib.Reserve
import Geryon.Lib.Rounding
import Geryon.Lib.Slots
import Geryon.Lib.Staged
import Geryon.Lib.Txn
import Geryon.Proto.Api
import Geryon.Proto.Atomic
import Geryon.Proto.Bootstrap
import Geryon.Proto.Canonical
import Geryon.Proto.Custodian
import Geryon.Proto.CustodyRun
import Geryon.Proto.Envelope
import Geryon.Proto.Exports
import Geryon.Proto.Fanout
import Geryon.Proto.Handles
import Geryon.Proto.KeyOps
import Geryon.Proto.Keystore
import Geryon.Proto.OneTime
import Geryon.Proto.Planned
import Geryon.Proto.Policy
import Geryon.Proto.Reached
import Geryon.Proto.Reopen
import Geryon.Proto.SealedStore
import Geryon.Proto.Serial
import Geryon.Proto.Stored
import Geryon.Qspgs.Agreement
import Geryon.Qspgs.Append
import Geryon.Qspgs.Atomic
import Geryon.Qspgs.Canonical
import Geryon.Qspgs.Change
import Geryon.Qspgs.Client
import Geryon.Qspgs.Consolidate
import Geryon.Qspgs.Edit
import Geryon.Qspgs.Emit
import Geryon.Qspgs.Emitted
import Geryon.Qspgs.Evolution
import Geryon.Qspgs.Field
import Geryon.Qspgs.Folding
import Geryon.Qspgs.GroupKey
import Geryon.Qspgs.Identity
import Geryon.Qspgs.Ignored
import Geryon.Qspgs.KeyList
import Geryon.Qspgs.LineCheck
import Geryon.Qspgs.Lineage
import Geryon.Qspgs.Lines
import Geryon.Qspgs.Opened
import Geryon.Qspgs.Queue
import Geryon.Qspgs.Rekeyed
import Geryon.Qspgs.Roster
import Geryon.Qspgs.Sample
import Geryon.Qspgs.Sealed
import Geryon.Qspgs.Server
import Geryon.Qspgs.Signer
import Geryon.Qspgs.Statements
import Geryon.Qspgs.Store
import Geryon.Qspgs.Symbolic
import Geryon.Qspgs.Wire
import Geryon.Ratchet.Aging
import Geryon.Ratchet.Counters
import Geryon.Ratchet.Deliver
import Geryon.Ratchet.Distinct
import Geryon.Ratchet.Double
import Geryon.Ratchet.DoubleRun
import Geryon.Ratchet.Engine
import Geryon.Ratchet.Frame
import Geryon.Ratchet.Header
import Geryon.Ratchet.Hybrid
import Geryon.Ratchet.HybridRun
import Geryon.Ratchet.Ideal
import Geryon.Ratchet.Kdf
import Geryon.Ratchet.KeyStream
import Geryon.Ratchet.Limits
import Geryon.Ratchet.Ready
import Geryon.Ratchet.Receipt
import Geryon.Ratchet.Receive
import Geryon.Ratchet.Run
import Geryon.Ratchet.Schedule
import Geryon.Ratchet.Sending
import Geryon.Ratchet.Shape
import Geryon.Ratchet.SkipStore
import Geryon.Ratchet.Sync
import Geryon.Ratchet.Tracking
import Geryon.Ratchet.TwoParty
import Geryon.Session.Handshake
import Geryon.Session.Lifecycle
import Geryon.Session.Record
import Geryon.Session.Recv
import Geryon.Session.Send
import Geryon.Session.Sequential
import Geryon.Session.Store
import Geryon.Suite
import Geryon.Symbolic
import Geryon.Wire
import Geryon.Xed.Curve
import Geryon.Xed.Multiple
import Geryon.Xed.Point
import Geryon.Xed.Sign
