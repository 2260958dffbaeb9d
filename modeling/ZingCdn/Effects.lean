import ZingCdn.Library.Program
import ZingCdn.Settlement

/-!
# The Environment of a Resolve

Everything a resolve asks of the rest of the node and of the outside world: the commands
to the P2P node with their replies, the store, eviction, the Walrus client, the address
caches, the reputation table and the RPC node. Each is an effect; its answer is the type
the source's call returns, with every failure in it. A program of `Action` runs against
any answers, so nothing about peers, the DHT or the RPC node is built in.

A command is sent in one effect and its reply awaited in another, because the source sends
several commands before it awaits the first reply. An awaited reply is `none` when the
timeout passed or the channel was closed.
-/

open Program

namespace ZingCdn

/-- The commands to the P2P node, without their reply channels. -/
inductive P2pCommand (PeerId : Type)
  | announceBlob (blobId : Bytes32)
  | findProviders (blobId : Bytes32)
  | fetchBlob (peerId : PeerId) (blobId paymentTxDigest : Bytes32)
  | fetchRange (peerId : PeerId) (blobId : Bytes32) (offset length : ℕ)
      (paymentTxDigest : Bytes32)
  | fetchSliver (peerId : PeerId) (blobId : Bytes32) (sliverPairIndex : UInt16) (axis : UInt8)
  | dialKadPeer (peerId : PeerId) (addrs : Option (List Multiaddr))
  | addBootstrapPeer (peerId : PeerId) (addr : Multiaddr)
  | bootstrap
  | getConnectedPeers
  | dial (peerId : PeerId) (addr : Multiaddr)
  | disconnect (peerId : PeerId)
  | queryPeerAddress (target : PeerId)
  | getPeerSuiAddress (peerId : PeerId)
  | getPeerVault (peerId : PeerId)
deriving DecidableEq

namespace P2pCommand

variable {PeerId : Type}

/-- What is sent on the reply channel of a command; nothing on those without one. -/
def Reply : P2pCommand PeerId → Type
  | .findProviders _ | .getConnectedPeers => List PeerId
  | .fetchBlob .. | .fetchRange .. | .fetchSliver .. => ZingResult Bytes
  | .dialKadPeer .. => Bool
  | .queryPeerAddress _ => List Multiaddr
  | .getPeerSuiAddress _ | .getPeerVault _ => Option Bytes32
  | .announceBlob _ | .addBootstrapPeer .. | .bootstrap | .dial .. | .disconnect _ => Empty

/-- The commands whose reply the node sends in `handle_command` itself, before it takes
the next command. -/
def answeredAtOnce : P2pCommand PeerId → Bool
  | .dialKadPeer .. | .getConnectedPeers => true
  | _ => false

/-- The peer a fetch asks for data. -/
def source? : P2pCommand PeerId → Option PeerId
  | .fetchBlob peer .. | .fetchRange peer .. | .fetchSliver peer .. => some peer
  | _ => none

/-- The proof of payment that goes with a fetch. -/
def proof? : P2pCommand PeerId → Option Bytes32
  | .fetchBlob _ _ proof | .fetchRange _ _ _ _ proof => some proof
  | _ => none

/-- The data in the reply to a fetch, when there is some. -/
def data? : (cmd : P2pCommand PeerId) → cmd.Reply → Option Bytes
  | .fetchBlob .., r => r.toOption
  | .fetchRange .., r => r.toOption
  | .fetchSliver .., r => r.toOption
  | _, _ => none

end P2pCommand

/-! ### Remote procedure calls of a payment -/

/-- An entry of a dynamic-field listing. -/
structure DynamicField where
  childId : Option String
  value : Option (Option Bytes)
  name : Option (Option Bytes)
deriving DecidableEq

/-- A field of a JSON struct: a string, a boolean, or another kind of value. -/
inductive FieldKind
  | stringValue (s : String)
  | boolValue (b : Bool)
  | other
deriving DecidableEq

/-- A JSON value: a struct, or another kind of value. -/
inductive JsonKind
  | structValue (fields : List (String × Option FieldKind))
  | other
deriving DecidableEq

/-- One result of a batch of object reads. -/
inductive ObjectResult
  | object (json : Option (Option JsonKind))
  | error
  | missing
deriving DecidableEq

/-- The outcome of listing the peer vaults: the client, the stream of table entries, and
the batch read of the vault objects. -/
structure VaultListing where
  client : Except String Unit
  fields : List (Except String DynamicField)
  objects : Except String (List ObjectResult)
deriving DecidableEq

/-- The outcome of every remote step of one on-chain payment attempt. A step that is not
reached is not looked at. -/
structure OnchainOutcome where
  client : Except String Unit
  listing : VaultListing
  build : Except String Unit
  sign : Except String Unit
  /-- the digest in the response, once the transaction is in a checkpoint -/
  execute : Except String (Option String)
deriving DecidableEq

/-! ### Effects -/

/-- What a resolve asks its environment for. -/
inductive Effect (PeerId : Type)
  | storeGet (key : String)
  | storePut (key : String) (data : Bytes)
  | evictionRun
  | walrusRead (blobId : BlobId)
  | sleep (millis : ℕ)
  | send (cmd : P2pCommand PeerId)
  /-- wait for the reply, for at most so many seconds when a timeout is given -/
  | await (cmd : P2pCommand PeerId) (timeout : Option ℕ)
  | suiAddrCacheGet (peerId : PeerId)
  | suiAddrCacheInsert (peerId : PeerId) (addr : Option Bytes32)
  | vaultAddrCacheContains (peerId : PeerId)
  /-- spawn the task that awaits the vault reply and caches it -/
  | spawnVaultLookup (peerId : PeerId)
  /-- the remote steps of one attempt to pay on chain -/
  | onchainPay (recipient : Address) (blobHash : Bytes32) (amount : ℕ)
  | paymentCounterFetchAdd
  | recordCorruption (peerId : String)
  | recordSuccess (peerId : String)
deriving DecidableEq

/-- The answers to each effect. Store, eviction and Walrus failures carry the text of the
library error; a failed send means that the node is gone. -/
def Effect.Ans {PeerId : Type} : Effect PeerId → Type
  | .storeGet _ => Except String (Option Bytes)
  | .storePut .. => Except String Unit
  | .evictionRun => ZingResult Unit
  | .walrusRead _ => Except String Bytes
  | .send _ => Bool
  | .await cmd _ => Option cmd.Reply
  | .suiAddrCacheGet _ => Option (Option Bytes32)
  | .vaultAddrCacheContains _ => Bool
  | .onchainPay .. => OnchainOutcome
  | .paymentCounterFetchAdd => ℕ
  | .sleep _ | .suiAddrCacheInsert .. | .spawnVaultLookup _ | .recordCorruption _
  | .recordSuccess _ => Unit

/-- Every effect has an answer. -/
theorem Effect.nonempty_ans {PeerId : Type} (e : Effect PeerId) : Nonempty e.Ans := by
  cases e with
  | storeGet => exact ⟨.ok none⟩
  | storePut => exact ⟨.ok ()⟩
  | evictionRun => exact ⟨.ok ()⟩
  | walrusRead => exact ⟨.ok []⟩
  | send => exact ⟨true⟩
  | await => exact ⟨none⟩
  | suiAddrCacheGet => exact ⟨none⟩
  | vaultAddrCacheContains => exact ⟨false⟩
  | onchainPay => exact ⟨⟨.ok (), ⟨.ok (), [], .ok []⟩, .ok (), .ok (), .ok none⟩⟩
  | paymentCounterFetchAdd => exact ⟨(0 : ℕ)⟩
  | sleep | suiAddrCacheInsert | spawnVaultLookup | recordCorruption | recordSuccess =>
      exact ⟨()⟩

/-- The effects of a run with their answers. -/
abbrev Trace (PeerId : Type) : Type := History (@Effect.Ans PeerId)

/-- A program of the node. -/
abbrev Action (PeerId : Type) : Type → Type := Prog (@Effect.Ans PeerId)

/-- Perform one effect of the node. -/
abbrev ask {PeerId : Type} (e : Effect PeerId) : Action PeerId e.Ans := Prog.perform e

end ZingCdn
