import ZingCdn.Library.Transition
import ZingCdn.Library.Rounding
import ZingCdn.Library.SharePool
import ZingCdn.Library.KeyedList
import ZingCdn.Library.Program
import ZingCdn.Library.Interleaving
import ZingCdn.Library.EventLog
import ZingCdn.Library.Interference
import ZingCdn.Library.RunAlone
import ZingCdn.Library.Outcome
import ZingCdn.Library.Decimal
import ZingCdn.Library.Correlation
import ZingCdn.ExchangeRate
import ZingCdn.RoundTrip
import ZingCdn.Commission
import ZingCdn.Handler
import ZingCdn.Integrity
import ZingCdn.Liveness
import ZingCdn.RangeAssembly
import ZingCdn.HonestSeeder
import ZingCdn.Blame
import ZingCdn.PaymentErrors
import ZingCdn.VaultRouting
import ZingCdn.EventLedger
import ZingCdn.FullExit
import ZingCdn.StakingLedger
import ZingCdn.StakingRegistry
import ZingCdn.StakingEvents
import ZingCdn.Fees
import ZingCdn.Blacklist
import ZingCdn.BlobStore
import ZingCdn.EvictionPins
import ZingCdn.EvictionRaces
import ZingCdn.EvictionAlone
import ZingCdn.EvictionRun
import ZingCdn.EvictionOrder
import ZingCdn.CachedBlobs
import ZingCdn.HttpApi
import ZingCdn.P2pNode
import ZingCdn.PendingReplies
import ZingCdn.Replies
import ZingCdn.ProviderLookup
import ZingCdn.Protocol
import ZingCdn.Codecs
import ZingCdn.FrameRoundTrip
import ZingCdn.AddrRoundTrip
import ZingCdn.HostileFrames
import ZingCdn.LongPayloads
import ZingCdn.MimeSniffing
import ZingCdn.WalAmount
import ZingCdn.RangeServing
import ZingCdn.RangeReassembly
import ZingCdn.RangeLimits
import ZingCdn.SyntheticPayments
import ZingCdn.Reannounce
import ZingCdn.Announcements
import ZingCdn.Valuation
import ZingCdn.ReputationDecay
import ZingCdn.SpotChecks
import ZingCdn.BootstrapAddrs
import ZingCdn.Registration
import ZingCdn.Library.Parties
import ZingCdn.Library.Within
import ZingCdn.TurnCalls
import ZingCdn.Network
import ZingCdn.NetworkSafety
import ZingCdn.NetworkRecords
import ZingCdn.Library.Emit
import ZingCdn.ResolveStream
import ZingCdn.VaultRegistry
import ZingCdn.VaultWrites
import ZingCdn.VaultClient
import ZingCdn.PeerListing
import ZingCdn.AddressBook
import ZingCdn.PaidPeers
import ZingCdn.VaultPayments
import ZingCdn.RegisteredPeers
import ZingCdn.ProvidedBlobs
import ZingCdn.VaultDelegations
import ZingCdn.SavedPeers
import ZingCdn.Configuration
import ZingCdn.Keystore
