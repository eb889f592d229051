import KryptokronaSdk.SerialDescriptor

/-!
# The node, index and output classes

The `@Serializable` classes of `http.model.node`, and those of `http.model`
that answer the index and output requests.  `Fee`, `OIndexes` and
`GlobalIndexesForRange` hold their numbers as `Long`.
-/

namespace Kryptokrona

open Serialization Serializable SerialForm

/-- Node info. -/
structure Info where
  altBlocksCount : Int32
  difficulty : Int32
  greyPeerlistSize : Int32
  hashrate : Int32
  height : Int32
  incomingConnectionsCount : Int32
  lastKnownBlockIndex : Int32
  majorVersion : Int32
  minorVersion : Int32
  networkHeight : Int32
  outgoingConnectionsCount : Int32
  startTime : Int32
  status : String
  supportedHeight : Int32
  synced : Bool
  testnet : Bool
  txCount : Int32
  txPoolSize : Int32
  upgradeHeights : List Int32
  version : String
  whitePeerlistSize : Int32
deriving DecidableEq, Repr

instance : Serializable Info where
  descriptor := .record <|
    .cons "alt_blocks_count" .int <|
    .cons "difficulty" .int <|
    .cons "grey_peerlist_size" .int <|
    .cons "hashrate" .int <|
    .cons "height" .int <|
    .cons "incoming_connections_count" .int <|
    .cons "last_known_block_index" .int <|
    .cons "major_version" .int <|
    .cons "minor_version" .int <|
    .cons "network_height" .int <|
    .cons "outgoing_connections_count" .int <|
    .cons "start_time" .int <|
    .cons "status" .string <|
    .cons "supported_height" .int <|
    .cons "synced" .boolean <|
    .cons "testnet" .boolean <|
    .cons "tx_count" .int <|
    .cons "tx_pool_size" .int <|
    .cons "upgrade_heights" (.list .int) <|
    .cons "version" .string <|
    .cons "white_peerlist_size" .int .nil
  ofValue := fun (altBlocksCount, difficulty, greyPeerlistSize, hashrate, height,
      incomingConnectionsCount, lastKnownBlockIndex, majorVersion, minorVersion, networkHeight,
      outgoingConnectionsCount, startTime, status, supportedHeight, synced, testnet, txCount,
      txPoolSize, upgradeHeights, version, whitePeerlistSize, _) =>
    ⟨altBlocksCount, difficulty, greyPeerlistSize, hashrate, height, incomingConnectionsCount,
      lastKnownBlockIndex, majorVersion, minorVersion, networkHeight, outgoingConnectionsCount,
      startTime, status, supportedHeight, synced, testnet, txCount, txPoolSize, upgradeHeights,
      version, whitePeerlistSize⟩

instance : SerialForm Info where
  toValue x := (x.altBlocksCount, x.difficulty, x.greyPeerlistSize, x.hashrate, x.height,
    x.incomingConnectionsCount, x.lastKnownBlockIndex, x.majorVersion, x.minorVersion,
    x.networkHeight, x.outgoingConnectionsCount, x.startTime, x.status, x.supportedHeight,
    x.synced, x.testnet, x.txCount, x.txPoolSize, x.upgradeHeights, x.version,
    x.whitePeerlistSize, ())

structure Height where
  height : Int32
  networkHeight : Int32
  status : String
deriving DecidableEq, Repr

instance : Serializable Height where
  descriptor := .record <|
    .cons "height" .int <|
    .cons "network_height" .int <|
    .cons "status" .string .nil
  ofValue := fun (height, networkHeight, status, _) => ⟨height, networkHeight, status⟩

instance : SerialForm Height where
  toValue x := (x.height, x.networkHeight, x.status, ())

structure Peers where
  grayPeers : List String
  peers : List String
  status : String
deriving DecidableEq, Repr

instance : Serializable Peers where
  descriptor := .record <|
    .cons "gray_peers" (.list .string) <|
    .cons "peers" (.list .string) <|
    .cons "status" .string .nil
  ofValue := fun (grayPeers, peers, status, _) => ⟨grayPeers, peers, status⟩

instance : SerialForm Peers where
  toValue x := (x.grayPeers, x.peers, x.status, ())

structure Fee where
  address : String
  amount : Int64
  status : String
deriving DecidableEq, Repr

instance : Serializable Fee where
  descriptor := .record <|
    .cons "address" .string <|
    .cons "amount" .long <|
    .cons "status" .string .nil
  ofValue := fun (address, amount, status, _) => ⟨address, amount, status⟩

instance : SerialForm Fee where
  toValue x := (x.address, x.amount, x.status, ())

structure OIndexes where
  oIndexes : List Int64
  status : String
deriving DecidableEq, Repr

instance : Serializable OIndexes where
  descriptor := .record <|
    .cons "o_indexes" (.list .long) <|
    .cons "status" .string .nil
  ofValue := fun (oIndexes, status, _) => ⟨oIndexes, status⟩

instance : SerialForm OIndexes where
  toValue x := (x.oIndexes, x.status, ())

structure GlobalIndexesForRange where
  indexes : List Int64
  status : String
deriving DecidableEq, Repr

instance : Serializable GlobalIndexesForRange where
  descriptor := .record <|
    .cons "indexes" (.list .long) <|
    .cons "status" .string .nil
  ofValue := fun (indexes, status, _) => ⟨indexes, status⟩

instance : SerialForm GlobalIndexesForRange where
  toValue x := (x.indexes, x.status, ())

structure RandomOutputs where
  outs : List Int32
  status : String
deriving DecidableEq, Repr

instance : Serializable RandomOutputs where
  descriptor := .record <|
    .cons "outs" (.list .int) <|
    .cons "status" .string .nil
  ofValue := fun (outs, status, _) => ⟨outs, status⟩

instance : SerialForm RandomOutputs where
  toValue x := (x.outs, x.status, ())

end Kryptokrona
