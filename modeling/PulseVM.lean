import PulseVM.Lib.Encoding
import PulseVM.Lib.Leases
import PulseVM.Lib.Pages
import PulseVM.Lib.Sessions
import PulseVM.Lib.Spans
import PulseVM.Lib.Undo
import PulseVM.Arena.Primary
import PulseVM.Arena.Object
import PulseVM.Arena.Dirty
import PulseVM.Arena.Table
import PulseVM.Arena.ChainRows
import PulseVM.Arena.Index
import PulseVM.Arena.Rows
import PulseVM.Arena.Undo
import PulseVM.Arena.Heap
import PulseVM.Arena.Account
import PulseVM.Arena.Snapshot
import PulseVM.Arena.Delta
import PulseVM.Arena.Tracking
import PulseVM.Arena.Lifecycle
import PulseVM.Arena.Isolation
import PulseVM.Arena.Exactness
import PulseVM.Lib.Sha256
import PulseVM.Arena.Db
import PulseVM.Arena.StateRoot
import PulseVM.Chain.Authority
import PulseVM.Chain.AuthorityChecker
import PulseVM.ChainDb.Rows
import PulseVM.History.Serialize
import PulseVM.History.Completeness
import PulseVM.History.DeltaLaw
import PulseVM.History.BlockSession
import PulseVM.History.Runs
import PulseVM.Arena.Literal
import PulseVM.Arena.Recovery
import PulseVM.Arena.Registered
import PulseVM.ChainDb.ContractRows
import PulseVM.Lib.Totals
import PulseVM.ChainDb.Contract
import PulseVM.ChainDb.ContractSteps
import PulseVM.ChainDb.TableCounts
import PulseVM.ChainDb.FloatIndex
import PulseVM.Chain.ApplyContext
import PulseVM.Chain.RamConservation
import PulseVM.ChainDb.Resources
import PulseVM.ChainDb.LimitTotals
import PulseVM.Chain.Admission
import PulseVM.Chain.Billing
import PulseVM.Chain.Permissions
import PulseVM.Chain.NativeAuth
import PulseVM.Chain.PermissionForest
import PulseVM.Chain.Links
import PulseVM.Controller.Features
import PulseVM.Controller.Blocks
import PulseVM.Controller.Node
import PulseVM.Controller.Build
import PulseVM.Controller.Accounting
import PulseVM.Controller.Activation
import PulseVM.Controller.Deferred
import PulseVM.Arena.Squash
import PulseVM.Chain.Exec
import PulseVM.Chain.RamRestrictions
import PulseVM.Chain.Notifications
import PulseVM.ChainDb.Positions
import PulseVM.ChainDb.TableRows
import PulseVM.ChainDb.RowOrder
import PulseVM.Chain.Iterators
import PulseVM.Chain.Iteration
import PulseVM.Controller.MempoolRuns
import PulseVM.Lib.Decimal
import PulseVM.Types.Name
import PulseVM.Lib.Codec
import PulseVM.Serialization.Primitives
import PulseVM.Serialization.PackedTransaction
import PulseVM.Types.Asset
import PulseVM.Abi.Decoder
import PulseVM.Controller.BlockMerkle
import PulseVM.Controller.FeatureRuns
import PulseVM.Chain.RequiredKeys
import PulseVM.ChainDb.Accumulators
import PulseVM.ChainDb.ElasticLimits
import PulseVM.Lib.Floats
import PulseVM.Softfloat.Compare
import PulseVM.Abi.Builtins
import PulseVM.Abi.Termination
import PulseVM.Ship.Session
import PulseVM.Softfloat.Truncate
import PulseVM.Arena.Sparse
import PulseVM.Arena.Lockstep
