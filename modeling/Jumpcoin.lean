import Jumpcoin.Consensus.Maturity
import Jumpcoin.Validation.UndoRoundTrip
import Jumpcoin.Validation.Supply
import Jumpcoin.Node.Liveness
import Jumpcoin.Node.Poisoning
import Jumpcoin.Validation.Disconnected
import Jumpcoin.Validation.Verdict
import Jumpcoin.Consensus.Clock
import Jumpcoin.Node.Reconsider
import Jumpcoin.Coins.Layers
import Jumpcoin.Validation.Kernel
import Jumpcoin.Script.Restrict
import Jumpcoin.Validation.TimeLocks
import Jumpcoin.Validation.LockPoints
import Jumpcoin.Address.Canonical
import Jumpcoin.Address.Distance
import Jumpcoin.Node.Arrival
import Jumpcoin.Wallet.Listing
import Jumpcoin.Net.TimeData
import Jumpcoin.Chain.VersionBits
import Jumpcoin.Net.RollingFilter
import Jumpcoin.Node.BlockTimes
import Jumpcoin.Net.PartialMerkleTree
import Jumpcoin.Net.CompactRebuild
import Jumpcoin.Net.AddrRuns
import Jumpcoin.Script.MultiSig
import Jumpcoin.Wallet.Rescan
import Jumpcoin.Net.Eviction
import Jumpcoin.Wallet.Abandon
import Jumpcoin.Consensus.MerkleBranch
import Jumpcoin.Primitives.MoneyString
