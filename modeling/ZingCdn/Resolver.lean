import Mathlib.Data.List.Sort
import ZingCdn.Wallet

/-!
# The Resolver

`Resolver::resolve` and everything it calls, translated as programs over the effects of
the environment: the local cache, the four strategies over peers in their order (parallel
ranges, sequential ranges, whole blob, providers from the DHT), and Walrus.

Where the source runs futures jointly they act on different peers, and their effects are
performed here in the order of the list; the environment answers from the whole history,
so this loses no combination of answers. The two loops without a bound in their head take
fuel, and panic without it: the range windows `0u64..` have `2^64` iterations, and the
chunk loop leaves at `MAX_CHUNKS`.
-/

open Program Program.Prog

namespace ZingCdn

variable {PeerId : Type}

/-- `READ_FEE_WAL_NANOS`. -/
def readFeeWalNanos : ℕ := 1000000

/-- `FEE_PER_BYTE_NANOS`. -/
def feePerByteNanos : ℕ := 1

/-- The resolver's fixed parts: the local peer, whether there is a command channel to the
P2P node, and the wallet. -/
structure Resolver (PeerId : Type) where
  localPeerId : Option PeerId
  hasP2pChannel : Bool
  wallet : Option ZingWallet

/-- A resolved blob. -/
structure ResolveResult where
  data : Bytes
  resolution : BlobResolution
  cached : Bool
  paymentError : Option String
deriving DecidableEq

/-- What a strategy over peers returns: nothing, or the end of the resolve. -/
abbrev L1Result : Type := Option (ZingResult ResolveResult)

/-! ### Verification, store and Walrus -/

/-- `verify_blob_by_id`. -/
def verifyBlobById (lib : Externals PeerId) (expectedBlobId : BlobId) (blobData : Bytes) :
    ZingResult Unit :=
  match lib.computeBlobId blobData with
  | .error e => .error (.walrusClient ("compute_blob_id failed: " ++ e))
  | .ok computedBlobId =>
      if computedBlobId ≠ expectedBlobId then
        .error (.verificationFailed (lib.blobIdToString computedBlobId)
          (lib.blobIdToString expectedBlobId))
      else .ok ()

/-- `BlobStore::get`. -/
def storeGet (key : String) : Action PeerId (ZingResult (Option Bytes)) := do
  let r : Except String (Option Bytes) ← ask (.storeGet key)
  pure (r.mapError .cache)

/-- `BlobStore::put`. -/
def storePut (key : String) (data : Bytes) : Action PeerId (ZingResult Unit) := do
  let r : Except String Unit ← ask (.storePut key data)
  pure (r.mapError .cache)

/-- `WalrusL3Client::read_blob`. -/
def readBlob (blobId : BlobId) : Action PeerId (ZingResult Bytes) := do
  let r : Except String Bytes ← ask (.walrusRead blobId)
  pure (r.mapError .walrusClient)

/-! ### Commands -/

/-- `tx.send(cmd).await.is_ok()`. -/
def sendCmd (cmd : P2pCommand PeerId) : Action PeerId Bool := ask (.send cmd)

/-- Await the reply of a command. -/
def awaitReply (cmd : P2pCommand PeerId) (timeout : Option ℕ) :
    Action PeerId (Option cmd.Reply) := ask (.await cmd timeout)

/-- Await the data of a fetch: nothing on a timeout, a closed channel or an error. -/
def awaitData (cmd : P2pCommand PeerId) (timeout : ℕ) : Action PeerId (Option Bytes) := do
  let reply ← awaitReply cmd (some timeout)
  pure (reply.bind cmd.data?)

/-- Send a fetch and await its data for at most thirty seconds. -/
def fetch (cmd : P2pCommand PeerId) : Action PeerId (Option Bytes) := do
  let sent ← sendCmd cmd
  if sent then awaitData cmd 30 else pure none

/-- Send the commands in order, and keep those that were sent. -/
def sendAll {α : Type} : List (α × P2pCommand PeerId) → Action PeerId (List (α × P2pCommand PeerId))
  | [] => pure []
  | (x, cmd) :: rest => do
      let sent ← sendCmd cmd
      let later ← sendAll rest
      pure (if sent then (x, cmd) :: later else later)

/-- The peers the node is connected to; none when the node is gone. -/
def connectedPeers : Action PeerId (List PeerId) := do
  let sent ← sendCmd .getConnectedPeers
  if sent then do
    let reply ← awaitReply .getConnectedPeers none
    pure (reply.getD [])
  else pure []

namespace Resolver

variable (self : Resolver PeerId) (lib : Externals PeerId)

/-! ### Payments -/

/-- Pay the address of a peer; an address that is not a Sui address is reported with the
given text. -/
def payAddress (wallet : ZingWallet) (invalid : String) (addr blobHash : Bytes32)
    (amountNanos : ℕ) : Action PeerId (PaymentProof × Option String) :=
  match lib.addressFromBytes addr with
  | .error e => pure (zeroBytes32, some (invalid ++ e))
  | .ok recipient => do
      let paid ← wallet.payWal lib recipient blobHash amountNanos
      match paid with
      | .ok d => pure (d, none)
      | .error e => pure (zeroBytes32, some ("Payment failed: " ++ e.display))

/-- Ask for the peer's vault unless it is cached, leaving the reply to a spawned task. -/
def queryVault (peerId : PeerId) : Action PeerId Unit := do
  let known : Bool ← ask (.vaultAddrCacheContains peerId)
  if known then pure ()
  else do
    let _ ← sendCmd (.getPeerVault peerId)
    ask (.spawnVaultLookup peerId)

/-- `resolve_payment`. -/
def resolvePayment (peerId : PeerId) (blobHash : Bytes32) (amountNanos : ℕ) :
    Action PeerId (PaymentProof × Option String) :=
  match self.wallet with
  | none => pure (zeroBytes32, none)
  | some wallet => do
      let cached : Option (Option Bytes32) ← ask (.suiAddrCacheGet peerId)
      match cached with
      | some (some addr) => payAddress lib wallet "Invalid Sui address: " addr blobHash amountNanos
      | some none => pure (zeroBytes32, none)
      | none => do
          let sent ← sendCmd (.getPeerSuiAddress peerId)
          if sent then do
            let reply : Option (Option Bytes32) ← awaitReply (.getPeerSuiAddress peerId) (some 5)
            let result := reply.join
            let _ ← ask (.suiAddrCacheInsert peerId result)
            queryVault peerId
            match result with
            | none => pure (zeroBytes32, some "Peer has no Sui address")
            | some addr =>
                payAddress lib wallet "Invalid Sui address from DHT: " addr blobHash amountNanos
          else do
            let _ ← ask (.suiAddrCacheInsert peerId none)
            pure (zeroBytes32, some "Failed to get peer Sui address")

/-- The first error of some payments. -/
def firstError (payments : List (PaymentProof × Option String)) : Option String :=
  payments.findSome? Prod.snd

/-! ### Ending a fetch from peers -/

/-- `finalize_l1_fetch`: verify, cache, evict, and credit or blame the peer. -/
def finalizeL1Fetch (blobId : BlobId) (blobIdHex : String) (peer : PeerId) (data : Bytes)
    (paymentError : Option String) : Action PeerId L1Result :=
  match verifyBlobById lib blobId data with
  | .error _ => do
      let _ ← ask (.recordCorruption (lib.peerIdToString peer))
      pure none
  | .ok () => do
      -- a failed cache write or eviction is logged and ignored
      let _ ← storePut blobIdHex data
      let _ ← ask .evictionRun
      let _ ← ask (.recordSuccess (lib.peerIdToString peer))
      pure (some (.ok { data, resolution := .l1Peer, cached := true, paymentError }))

/-! ### Whole blob from connected peers -/

/-- The loop of `try_direct_peers`. -/
def directPeersLoop (blobId : BlobId) (blobIdHex : String) :
    List PeerId → Action PeerId L1Result
  | [] => pure none
  | peer :: rest => do
      let (paymentProof, paymentErr) ←
        self.resolvePayment lib peer blobId.bytes readFeeWalNanos
      let reply ← fetch (.fetchBlob peer blobId.bytes paymentProof)
      match reply with
      | some data => finalizeL1Fetch lib blobId blobIdHex peer data paymentErr
      | none => directPeersLoop blobId blobIdHex rest

/-- `try_direct_peers`. -/
def tryDirectPeers (blobId : BlobId) (blobIdHex : String) : Action PeerId L1Result := do
  let connected ← connectedPeers
  self.directPeersLoop lib blobId blobIdHex connected

/-! ### Sequential ranges -/

/-- `RANGE_CHUNK`. -/
def rangeChunk : ℕ := 256 * 1024

/-- `MAX_CHUNKS`. -/
def maxChunks : ℕ := 2048

/-- The chunk loop of `try_direct_peers_range`: the data it leaves with and the merged
payment error, or nothing when there are too many chunks. -/
def rangeChunks (blobId : BlobId) (peer : PeerId) :
    ℕ → ℕ → Bytes → Option String → Action PeerId (Option (Bytes × Option String))
  | 0, _, _, _ => .panic
  | fuel + 1, offset, data, paymentErr =>
      if maxChunks ≤ offset / rangeChunk then pure none
      else do
        let (nextProof, nextErr) ←
          self.resolvePayment lib peer blobId.bytes (rangeChunk * feePerByteNanos)
        let paymentErr := paymentErr <|> nextErr
        let reply ← fetch (.fetchRange peer blobId.bytes offset rangeChunk nextProof)
        match reply with
        | none => pure (some (data, paymentErr))
        | some nextChunk =>
            if nextChunk.isEmpty then pure (some (data, paymentErr))
            else if nextChunk.length < rangeChunk then
              pure (some (data ++ nextChunk, paymentErr))
            else
              rangeChunks blobId peer fuel (offset + rangeChunk) (data ++ nextChunk) paymentErr

/-- The loop over the peers of `try_direct_peers_range`. -/
def directPeersRangeLoop (blobId : BlobId) (blobIdHex : String) :
    List PeerId → Action PeerId L1Result
  | [] => pure none
  | peer :: rest => do
      let (paymentProof, paymentErr) ←
        self.resolvePayment lib peer blobId.bytes (rangeChunk * feePerByteNanos)
      let reply ← fetch (.fetchRange peer blobId.bytes 0 rangeChunk paymentProof)
      match reply with
      | none => directPeersRangeLoop blobId blobIdHex rest
      | some chunk =>
          if chunk.length < rangeChunk then
            finalizeL1Fetch lib blobId blobIdHex peer chunk paymentErr
          else do
            let assembled ←
              self.rangeChunks lib blobId peer maxChunks rangeChunk chunk paymentErr
            match assembled with
            | none => pure none
            | some (data, paymentErr) =>
                finalizeL1Fetch lib blobId blobIdHex peer data paymentErr

/-- `try_direct_peers_range`. -/
def tryDirectPeersRange (blobId : BlobId) (blobIdHex : String) : Action PeerId L1Result := do
  let connected ← connectedPeers
  self.directPeersRangeLoop lib blobId blobIdHex connected

/-! ### Parallel ranges -/

/-- `CHUNK_SIZE`. -/
def chunkSize : ℕ := 64 * 1024

/-- `MAX_PARALLEL`. -/
def maxParallel : ℕ := 5

/-- `MAX_TOTAL_SIZE`. -/
def maxTotalSize : ℕ := 512 * 1024 * 1024

/-- The requests of one window, one a peer at consecutive offsets. -/
def chunkRequests (blobId : BlobId) :
    ℕ → List (PeerId × PaymentProof) → List (ℕ × P2pCommand PeerId)
  | _, [] => []
  | offset, (peer, proof) :: rest =>
      (offset, .fetchRange peer blobId.bytes offset chunkSize proof) ::
        chunkRequests blobId (offset + chunkSize) rest

/-- Await the data of a pending request; empty data counts as none. -/
def awaitNonempty {α : Type} (timeout : ℕ) (pending : α × P2pCommand PeerId) :
    Action PeerId (Option (α × Bytes)) := do
  let reply ← awaitData pending.2 timeout
  match reply with
  | some data => if data.isEmpty then pure none else pure (some (pending.1, data))
  | none => pure none

/-- The state of the loop that appends the chunks of a window. -/
structure Assembly where
  data : Bytes
  hasGap : Bool
  eof : Bool
deriving DecidableEq

/-- Append the chunks of a window until one does not start where the data ends. -/
def assemble : ℕ → Bytes → Bool → List (ℕ × Bytes) → Assembly
  | _, data, eof, [] => ⟨data, false, eof⟩
  | expected, data, eof, (offset, chunk) :: rest =>
      if offset ≠ expected then ⟨data, true, eof⟩
      else
        assemble (offset + chunk.length) (data ++ chunk) (eof || chunk.length < chunkSize) rest

/-- After the window loop: the data is verified unless there is none. -/
def finishWindows (blobId : BlobId) (blobIdHex : String) (lead : PeerId) (data : Bytes)
    (paymentErr : Option String) : Action PeerId L1Result :=
  if data.isEmpty then pure none
  else finalizeL1Fetch lib blobId blobIdHex lead data paymentErr

/-- The window loop of `try_direct_peers_range_parallel`. The working peers are `lead`,
which is `working[0]`, and `others`. -/
def rangeWindows (blobId : BlobId) (blobIdHex : String) (lead : PeerId) (others : List PeerId) :
    ℕ → ℕ → Bytes → Option String → Action PeerId L1Result
  | 0, _, _, _ => .panic
  | fuel + 1, window, data, paymentErr => do
      let working := lead :: others
      let baseOffset := window * working.length * chunkSize
      let chunkResults ← working.mapM fun peer =>
        self.resolvePayment lib peer blobId.bytes (chunkSize * feePerByteNanos)
      let paymentErr := paymentErr <|> firstError chunkResults
      let fetches ← sendAll
        (chunkRequests blobId baseOffset (working.zip (chunkResults.map Prod.fst)))
      if fetches.isEmpty then finishWindows lib blobId blobIdHex lead data paymentErr
      else do
        let responses ← fetches.mapM (awaitNonempty 30)
        let chunks := responses.reduceOption
        if chunks.isEmpty then finishWindows lib blobId blobIdHex lead data paymentErr
        else
          let sorted := chunks.insertionSort fun a b => a.1 ≤ b.1
          let assembly := assemble data.length data false sorted
          if assembly.hasGap then
            finishWindows lib blobId blobIdHex lead assembly.data paymentErr
          else if maxTotalSize < assembly.data.length then pure none
          else if assembly.eof then
            finalizeL1Fetch lib blobId blobIdHex lead assembly.data paymentErr
          else rangeWindows blobId blobIdHex lead others fuel (window + 1) assembly.data paymentErr

/-- The probe requests. -/
def probeRequests (blobId : BlobId) (probers : List (PeerId × PaymentProof)) :
    List (PeerId × P2pCommand PeerId) :=
  probers.map fun (peer, proof) => (peer, .fetchRange peer blobId.bytes 0 8 proof)

/-- The number of iterations of `0u64..`. -/
def windowFuel : ℕ := 18446744073709551616

/-- `try_direct_peers_range_parallel`. -/
def tryDirectPeersRangeParallel (blobId : BlobId) (blobIdHex : String) :
    Action PeerId L1Result := do
  let connected ← connectedPeers
  if connected.isEmpty then pure none
  else do
    let probers := connected.take maxParallel
    let probeResults ← probers.mapM fun peer =>
      self.resolvePayment lib peer blobId.bytes (8 * feePerByteNanos)
    let paymentErr := firstError probeResults
    let probes ← sendAll (probeRequests blobId (probers.zip (probeResults.map Prod.fst)))
    let answers ← probes.mapM (awaitNonempty 5)
    let working := answers.reduceOption.map Prod.fst
    match working with
    | [] => pure none
    | lead :: others =>
        self.rangeWindows lib blobId blobIdHex lead others windowFuel 0 [] paymentErr

/-! ### Providers from the DHT -/

variable [DecidableEq PeerId]

/-- `run_find_providers`. -/
def runFindProviders (blobId : BlobId) : Action PeerId (List PeerId) := do
  let sent ← sendCmd (.findProviders blobId.bytes)
  if sent then do
    let reply ← awaitReply (.findProviders blobId.bytes) (some 2)
    pure (reply.getD [])
  else pure []

/-- The providers other than this node. -/
def dropSelf (peers : List PeerId) : List PeerId :=
  peers.filter fun p => some p ≠ self.localPeerId

/-- The retries of the provider lookup, two seconds apart. -/
def retryFindProviders (blobId : BlobId) : ℕ → Action PeerId (List PeerId)
  | 0 => pure []
  | attempts + 1 => do
      let _ ← ask (.sleep 2000)
      let found ← runFindProviders blobId
      let retry := self.dropSelf found
      if retry.isEmpty then retryFindProviders blobId attempts else pure retry

/-- Dial each provider from the local address book. -/
def dialProviders : List PeerId → Action PeerId Unit
  | [] => pure ()
  | peer :: rest => do
      let sent ← sendCmd (.dialKadPeer peer none)
      if sent then do
        let _ ← awaitReply (.dialKadPeer peer none) none
        dialProviders rest
      else dialProviders rest

/-- Ask a peer for each provider's addresses and dial those. -/
def queryAndDial : List PeerId → Action PeerId Unit
  | [] => pure ()
  | peer :: rest => do
      let sent ← sendCmd (.queryPeerAddress peer)
      if sent then do
        let reply : Option (List Multiaddr) ← awaitReply (.queryPeerAddress peer) (some 5)
        match reply with
        | none | some [] => queryAndDial rest
        | some addrs => do
            let dialed ← sendCmd (.dialKadPeer peer (some addrs))
            if dialed then do
              let _ ← awaitReply (.dialKadPeer peer (some addrs)) none
              queryAndDial rest
            else queryAndDial rest
      else queryAndDial rest

/-- `MAX_POLL_ITERATIONS`. -/
def maxPollIterations : ℕ := 30

/-- Poll the connected peers until a provider is among them. -/
def pollConnected (dhtPeers : List PeerId) : ℕ → Action PeerId (Option PeerId)
  | 0 => pure none
  | iterations + 1 => do
      let _ ← ask (.sleep 100)
      let sent ← sendCmd .getConnectedPeers
      if sent then do
        let reply ← awaitReply .getConnectedPeers none
        let connected : List PeerId := reply.getD []
        match dhtPeers.find? fun p => p ∈ connected with
        | some peer => pure (some peer)
        | none => pollConnected dhtPeers iterations
      else pure none

/-- The DHT part of `resolve_from_l1`, once some providers are known. -/
def fetchFromProviders (blobId : BlobId) (blobIdHex : String) (dhtPeers : List PeerId) :
    Action PeerId L1Result := do
  dialProviders dhtPeers
  queryAndDial dhtPeers
  let polled ← pollConnected dhtPeers maxPollIterations
  match polled with
  | none => pure none
  | some peer => do
      let (paymentProof, paymentErr) ←
        self.resolvePayment lib peer blobId.bytes readFeeWalNanos
      let reply ← fetch (.fetchBlob peer blobId.bytes paymentProof)
      match reply with
      | none => pure none
      | some data => finalizeL1Fetch lib blobId blobIdHex peer data paymentErr

/-- The DHT part of `resolve_from_l1`. -/
def tryProviders (blobId : BlobId) (blobIdHex : String) : Action PeerId L1Result := do
  let found ← runFindProviders blobId
  let dhtPeers := self.dropSelf found
  if dhtPeers.isEmpty then do
    let retried ← self.retryFindProviders blobId 3
    if retried.isEmpty then pure none
    else self.fetchFromProviders lib blobId blobIdHex retried
  else self.fetchFromProviders lib blobId blobIdHex dhtPeers

/-! ### Resolving -/

/-- Try the next strategy when this one has no result. -/
def orElse (first next : Action PeerId L1Result) : Action PeerId L1Result := do
  let result ← first
  match result with
  | some result => pure (some result)
  | none => next

/-- `resolve_from_l1`. -/
def resolveFromL1 (blobId : BlobId) (blobIdHex : String) : Action PeerId L1Result :=
  orElse (self.tryDirectPeersRangeParallel lib blobId blobIdHex)
    (orElse (self.tryDirectPeersRange lib blobId blobIdHex)
      (orElse (self.tryDirectPeers lib blobId blobIdHex)
        (self.tryProviders lib blobId blobIdHex)))

/-- `resolve_from_walrus`. -/
def resolveFromWalrus (blobId : BlobId) (blobIdHex : String) :
    Action PeerId (ZingResult ResolveResult) := do
  let read ← readBlob blobId
  match read with
  | .error e => pure (.error e)
  | .ok data => do
      let stored ← storePut blobIdHex data
      match stored with
      | .error e => pure (.error e)
      | .ok () => do
          let evicted : ZingResult Unit ← ask .evictionRun
          match evicted with
          | .error e => pure (.error e)
          | .ok () =>
              pure (.ok { data, resolution := .l3Walrus, cached := true, paymentError := none })

/-- The layers below the local cache. -/
def resolveUncached (blobId : BlobId) (blobIdHex : String) :
    Action PeerId (ZingResult ResolveResult) :=
  if self.hasP2pChannel then do
    let l1 ← self.resolveFromL1 lib blobId blobIdHex
    match l1 with
    | some result => pure result
    | none => resolveFromWalrus blobId blobIdHex
  else resolveFromWalrus blobId blobIdHex

/-- `resolve`. -/
def resolve (blobId : BlobId) : Action PeerId (ZingResult ResolveResult) := do
  let blobIdHex := lib.blobIdToString blobId
  let cached ← storeGet blobIdHex
  match cached with
  | .error e => pure (.error e)
  | .ok (some data) =>
      pure (.ok { data, resolution := .localCache, cached := true, paymentError := none })
  | .ok none => self.resolveUncached lib blobId blobIdHex

end Resolver

end ZingCdn
