import Nortia.Verify.Hybrid.Drain
import Nortia.Verify.Keepers
import Nortia.Verify.Private.Capacity
import Nortia.Verify.Private.Tree
import Nortia.Verify.Relayer
import Nortia.Verify.Lmsr.Agreement
import Nortia.Verify.Lmsr.Paths
import Nortia.Verify.Lmsr.Probability
import Nortia.Verify.Oracles
import Nortia.Verify.Hybrid.Trades
import Nortia.Verify.Indexer
import Nortia.Verify.Listing
import Nortia.Verify.Positions.Backup
import Nortia.Verify.Positions.Migration
import Nortia.Verify.Positions.Saves
import Nortia.Verify.Committee.Reconstruction
import Nortia.Verify.Private.Relay
import Nortia.Services.ProverRequests
import Nortia.Verify.Committee.Quorum
import Nortia.Verify.Switchboard
import Nortia.Verify.Hybrid.Totals
import Nortia.Verify.Metadata
import Nortia.Verify.Thresholds
import Nortia.Verify.Lmsr.Fees
import Nortia.Verify.Evidence
import Nortia.Verify.CreateMarket
import Nortia.Verify.ScoreStream
import Nortia.Verify.Private.Completeness
import Nortia.Verify.Committee.Durability
import Nortia.Verify.Committee.Answers
import Nortia.Verify.Sunspot.Compilation
import Nortia.Verify.Sunspot.RoundTrip
import Nortia.Verify.Committee.Delivery
import Nortia.Verify.Amounts
