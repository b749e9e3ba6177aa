import Electrum.Coins.Cache
import Electrum.Consensus.Deployments
import Electrum.Dao.Malformed
import Electrum.Dao.OtherKinds
import Electrum.Dao.Quorum
import Electrum.Dao.VotingWindows
import Electrum.Index.UnspentRun
import Electrum.Mempool.Orphans
import Electrum.Mempool.PackageRun
import Electrum.Mempool.Resurrection
import Electrum.Validation.BlockIndexStore
import Electrum.Validation.FundAccounting
import Electrum.Validation.LifeCycle
import Electrum.Validation.Overwrite
import Electrum.Validation.PaidOnce
import Electrum.Validation.VoteScripts
import Electrum.Validation.VoterLists
import Electrum.Validation.Visibility
import Electrum.Wallet.Acceptance
