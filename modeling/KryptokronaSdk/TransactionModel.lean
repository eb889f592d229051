import KryptokronaSdk.SerialDescriptor

/-!
# The transaction classes

The `@Serializable` classes of `http.model.transaction` and
`http.model.queryblocks`, and `PoolChangesLite`, which lists transactions of
the pool.  A property without a `@SerialName` goes under its own name.
-/

namespace Kryptokrona

open Serialization Serializable SerialForm

structure TransactionPrefixVoutTargetData where
  key : String
deriving DecidableEq, Repr

instance : Serializable TransactionPrefixVoutTargetData where
  descriptor := .record <| .cons "key" .string .nil
  ofValue := fun (key, _) => ⟨key⟩

instance : SerialForm TransactionPrefixVoutTargetData where
  toValue x := (x.key, ())

structure TransactionPrefixVoutTarget where
  data : TransactionPrefixVoutTargetData
  type : String
deriving DecidableEq, Repr

instance : Serializable TransactionPrefixVoutTarget where
  descriptor := .record <|
    .cons "data" (descriptor TransactionPrefixVoutTargetData) <|
    .cons "type" .string .nil
  ofValue := fun (data, type, _) => ⟨ofValue data, type⟩

instance : SerialForm TransactionPrefixVoutTarget where
  toValue x := (toValue x.data, x.type, ())
  ofValue_toValue x := by
    change TransactionPrefixVoutTarget.mk (ofValue (toValue x.data)) x.type = x
    rw [ofValue_toValue]
  toValue_ofValue v := by
    obtain ⟨data, type, _⟩ := v
    have hdata := toValue_ofValue data
    change (toValue (ofValue data), type, ()) = _
    rw [hdata]
    rfl

/-- An output of a transaction prefix. -/
structure TransactionPrefixVout where
  amount : Int32
  target : TransactionPrefixVoutTarget
deriving DecidableEq, Repr

instance : Serializable TransactionPrefixVout where
  descriptor := .record <|
    .cons "amount" .int <|
    .cons "target" (descriptor TransactionPrefixVoutTarget) .nil
  ofValue := fun (amount, target, _) => ⟨amount, ofValue target⟩

instance : SerialForm TransactionPrefixVout where
  toValue x := (x.amount, toValue x.target, ())
  ofValue_toValue x := by
    change TransactionPrefixVout.mk x.amount (ofValue (toValue x.target)) = x
    rw [ofValue_toValue]
  toValue_ofValue v := by
    obtain ⟨amount, target, _⟩ := v
    have htarget := toValue_ofValue target
    change (amount, toValue (ofValue target), ()) = _
    rw [htarget]
    rfl

structure TransactionPrefixVinValue where
  amount : Int32
  keyImage : String
  keyOffsets : List Int32
deriving DecidableEq, Repr

instance : Serializable TransactionPrefixVinValue where
  descriptor := .record <|
    .cons "amount" .int <|
    .cons "k_image" .string <|
    .cons "key_offsets" (.list .int) .nil
  ofValue := fun (amount, keyImage, keyOffsets, _) => ⟨amount, keyImage, keyOffsets⟩

instance : SerialForm TransactionPrefixVinValue where
  toValue x := (x.amount, x.keyImage, x.keyOffsets, ())

/-- An input of a transaction prefix. -/
structure TransactionPrefixVin where
  type : String
  value : TransactionPrefixVinValue
deriving DecidableEq, Repr

instance : Serializable TransactionPrefixVin where
  descriptor := .record <|
    .cons "type" .string <|
    .cons "value" (descriptor TransactionPrefixVinValue) .nil
  ofValue := fun (type, value, _) => ⟨type, ofValue value⟩

instance : SerialForm TransactionPrefixVin where
  toValue x := (x.type, toValue x.value, ())
  ofValue_toValue x := by
    change TransactionPrefixVin.mk x.type (ofValue (toValue x.value)) = x
    rw [ofValue_toValue]
  toValue_ofValue v := by
    obtain ⟨type, value, _⟩ := v
    have hvalue := toValue_ofValue value
    change (type, toValue (ofValue value), ()) = _
    rw [hvalue]
    rfl

structure TransactionPrefix where
  extra : String
  unlockTime : Int32
  version : Int32
  vin : List TransactionPrefixVin
  vout : List TransactionPrefixVout
deriving DecidableEq, Repr

instance : Serializable TransactionPrefix where
  descriptor := .record <|
    .cons "extra" .string <|
    .cons "unlock_time" .int <|
    .cons "version" .int <|
    .cons "vin" (.list (descriptor TransactionPrefixVin)) <|
    .cons "vout" (.list (descriptor TransactionPrefixVout)) .nil
  ofValue := fun (extra, unlockTime, version, vin, vout, _) =>
    ⟨extra, unlockTime, version, vin.map ofValue, vout.map ofValue⟩

instance : SerialForm TransactionPrefix where
  toValue x := (x.extra, x.unlockTime, x.version, x.vin.map toValue, x.vout.map toValue, ())
  ofValue_toValue x := by
    change TransactionPrefix.mk x.extra x.unlockTime x.version
      ((x.vin.map toValue).map ofValue) ((x.vout.map toValue).map ofValue) = x
    rw [map_ofValue_toValue, map_ofValue_toValue]
  toValue_ofValue v := by
    obtain ⟨extra, unlockTime, version, vin, vout, _⟩ := v
    have hvin := @map_toValue_ofValue TransactionPrefixVin _ _ vin
    have hvout := @map_toValue_ofValue TransactionPrefixVout _ _ vout
    change (extra, unlockTime, version, (vin.map ofValue).map toValue,
      (vout.map ofValue).map toValue, ()) = _
    rw [hvin, hvout]
    rfl

structure Transaction where
  transactionHash : String
  transactionPrefix : TransactionPrefix
deriving DecidableEq, Repr

instance : Serializable Transaction where
  descriptor := .record <|
    .cons "transactionPrefixInfo.txHash" .string <|
    .cons "transactionPrefixInfo.txPrefix" (descriptor TransactionPrefix) .nil
  ofValue := fun (transactionHash, transactionPrefix, _) =>
    ⟨transactionHash, ofValue transactionPrefix⟩

instance : SerialForm Transaction where
  toValue x := (x.transactionHash, toValue x.transactionPrefix, ())
  ofValue_toValue x := by
    change Transaction.mk x.transactionHash (ofValue (toValue x.transactionPrefix)) = x
    rw [ofValue_toValue]
  toValue_ofValue v := by
    obtain ⟨transactionHash, transactionPrefix, _⟩ := v
    have htransactionPrefix := toValue_ofValue transactionPrefix
    change (transactionHash, toValue (ofValue transactionPrefix), ()) = _
    rw [htransactionPrefix]
    rfl

structure PoolChangesLite where
  addedTxs : List Transaction
  deletedTxsIds : List String
  isTailBlockActual : Bool
  status : String
deriving DecidableEq, Repr

instance : Serializable PoolChangesLite where
  descriptor := .record <|
    .cons "addedTxs" (.list (descriptor Transaction)) <|
    .cons "deletedTxsIds" (.list .string) <|
    .cons "isTailBlockActual" .boolean <|
    .cons "status" .string .nil
  ofValue := fun (addedTxs, deletedTxsIds, isTailBlockActual, status, _) =>
    ⟨addedTxs.map ofValue, deletedTxsIds, isTailBlockActual, status⟩

instance : SerialForm PoolChangesLite where
  toValue x := (x.addedTxs.map toValue, x.deletedTxsIds, x.isTailBlockActual, x.status, ())
  ofValue_toValue x := by
    change PoolChangesLite.mk ((x.addedTxs.map toValue).map ofValue) x.deletedTxsIds
      x.isTailBlockActual x.status = x
    rw [map_ofValue_toValue]
  toValue_ofValue v := by
    obtain ⟨addedTxs, deletedTxsIds, isTailBlockActual, status, _⟩ := v
    have haddedTxs := @map_toValue_ofValue Transaction _ _ addedTxs
    change ((addedTxs.map ofValue).map toValue, deletedTxsIds, isTailBlockActual, status,
      ()) = _
    rw [haddedTxs]
    rfl

structure QueryBlocksLiteItems where
  block : List Int32
  blockId : String
  transactionPrefixes : List TransactionPrefix
deriving DecidableEq, Repr

instance : Serializable QueryBlocksLiteItems where
  descriptor := .record <|
    .cons "blockShortInfo.block" (.list .int) <|
    .cons "blockShortInfo.blockId" .string <|
    .cons "blockShortInfo.txPrefixes" (.list (descriptor TransactionPrefix)) .nil
  ofValue := fun (block, blockId, transactionPrefixes, _) =>
    ⟨block, blockId, transactionPrefixes.map ofValue⟩

instance : SerialForm QueryBlocksLiteItems where
  toValue x := (x.block, x.blockId, x.transactionPrefixes.map toValue, ())
  ofValue_toValue x := by
    change QueryBlocksLiteItems.mk x.block x.blockId
      ((x.transactionPrefixes.map toValue).map ofValue) = x
    rw [map_ofValue_toValue]
  toValue_ofValue v := by
    obtain ⟨block, blockId, transactionPrefixes, _⟩ := v
    have htransactionPrefixes := @map_toValue_ofValue TransactionPrefix _ _ transactionPrefixes
    change (block, blockId, (transactionPrefixes.map ofValue).map toValue, ()) = _
    rw [htransactionPrefixes]
    rfl

structure QueryBlocksLite where
  currentHeight : Int32
  fullOffset : Int32
  items : List QueryBlocksLiteItems
  startHeight : Int32
  status : String
deriving DecidableEq, Repr

instance : Serializable QueryBlocksLite where
  descriptor := .record <|
    .cons "currentHeight" .int <|
    .cons "fullOffset" .int <|
    .cons "items" (.list (descriptor QueryBlocksLiteItems)) <|
    .cons "startHeight" .int <|
    .cons "status" .string .nil
  ofValue := fun (currentHeight, fullOffset, items, startHeight, status, _) =>
    ⟨currentHeight, fullOffset, items.map ofValue, startHeight, status⟩

instance : SerialForm QueryBlocksLite where
  toValue x := (x.currentHeight, x.fullOffset, x.items.map toValue, x.startHeight, x.status,
    ())
  ofValue_toValue x := by
    change QueryBlocksLite.mk x.currentHeight x.fullOffset ((x.items.map toValue).map ofValue)
      x.startHeight x.status = x
    rw [map_ofValue_toValue]
  toValue_ofValue v := by
    obtain ⟨currentHeight, fullOffset, items, startHeight, status, _⟩ := v
    have hitems := @map_toValue_ofValue QueryBlocksLiteItems _ _ items
    change (currentHeight, fullOffset, (items.map ofValue).map toValue, startHeight, status,
      ()) = _
    rw [hitems]
    rfl

structure QueryBlocksItems where
  block : List Int32
  blockId : String
  transactions : List String
deriving DecidableEq, Repr

instance : Serializable QueryBlocksItems where
  descriptor := .record <|
    .cons "blockFullInfo.block" (.list .int) <|
    .cons "blockFullInfo.block_id" .string <|
    .cons "txs" (.list .string) .nil
  ofValue := fun (block, blockId, transactions, _) => ⟨block, blockId, transactions⟩

instance : SerialForm QueryBlocksItems where
  toValue x := (x.block, x.blockId, x.transactions, ())

structure QueryBlocks where
  currentHeight : Int32
  fullOffset : Int32
  items : List QueryBlocksItems
  startHeight : Int32
  status : String
deriving DecidableEq, Repr

instance : Serializable QueryBlocks where
  descriptor := .record <|
    .cons "current_height" .int <|
    .cons "full_offset" .int <|
    .cons "items" (.list (descriptor QueryBlocksItems)) <|
    .cons "start_height" .int <|
    .cons "status" .string .nil
  ofValue := fun (currentHeight, fullOffset, items, startHeight, status, _) =>
    ⟨currentHeight, fullOffset, items.map ofValue, startHeight, status⟩

instance : SerialForm QueryBlocks where
  toValue x := (x.currentHeight, x.fullOffset, x.items.map toValue, x.startHeight, x.status,
    ())
  ofValue_toValue x := by
    change QueryBlocks.mk x.currentHeight x.fullOffset ((x.items.map toValue).map ofValue)
      x.startHeight x.status = x
    rw [map_ofValue_toValue]
  toValue_ofValue v := by
    obtain ⟨currentHeight, fullOffset, items, startHeight, status, _⟩ := v
    have hitems := @map_toValue_ofValue QueryBlocksItems _ _ items
    change (currentHeight, fullOffset, (items.map ofValue).map toValue, startHeight, status,
      ()) = _
    rw [hitems]
    rfl

structure Transactions where
  missedTransactions : List String
  status : String
  transactionsAsHex : List String
deriving DecidableEq, Repr

instance : Serializable Transactions where
  descriptor := .record <|
    .cons "missed_tx" (.list .string) <|
    .cons "status" .string <|
    .cons "txs_as_hex" (.list .string) .nil
  ofValue := fun (missedTransactions, status, transactionsAsHex, _) =>
    ⟨missedTransactions, status, transactionsAsHex⟩

instance : SerialForm Transactions where
  toValue x := (x.missedTransactions, x.status, x.transactionsAsHex, ())

structure TransactionDetailsHashes where
  status : String
  transactions : List String
deriving DecidableEq, Repr

instance : Serializable TransactionDetailsHashes where
  descriptor := .record <|
    .cons "status" .string <|
    .cons "transactions" (.list .string) .nil
  ofValue := fun (status, transactions, _) => ⟨status, transactions⟩

instance : SerialForm TransactionDetailsHashes where
  toValue x := (x.status, x.transactions, ())

structure TransactionHashesPaymentId where
  status : String
  transactionHashes : List String
deriving DecidableEq, Repr

instance : Serializable TransactionHashesPaymentId where
  descriptor := .record <|
    .cons "status" .string <|
    .cons "transactionHashes" (.list .string) .nil
  ofValue := fun (status, transactionHashes, _) => ⟨status, transactionHashes⟩

instance : SerialForm TransactionHashesPaymentId where
  toValue x := (x.status, x.transactionHashes, ())

structure TransactionsStatus where
  status : String
  transactionsInBlock : List String
  transactionsInPool : List String
  transactionsUnknown : List String
deriving DecidableEq, Repr

instance : Serializable TransactionsStatus where
  descriptor := .record <|
    .cons "status" .string <|
    .cons "transactionsInBlock" (.list .string) <|
    .cons "transactionsInPool" (.list .string) <|
    .cons "transactionsUnknown" (.list .string) .nil
  ofValue := fun (status, transactionsInBlock, transactionsInPool, transactionsUnknown, _) =>
    ⟨status, transactionsInBlock, transactionsInPool, transactionsUnknown⟩

instance : SerialForm TransactionsStatus where
  toValue x := (x.status, x.transactionsInBlock, x.transactionsInPool, x.transactionsUnknown,
    ())

end Kryptokrona
