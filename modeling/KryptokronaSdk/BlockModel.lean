import KryptokronaSdk.SerialDescriptor

/-!
# The block classes

The `@Serializable` classes of `http.model.block`.  They spell the
transactions of a block once more, apart from `http.model.transaction`, and
add the totals and the fee of each.
-/

namespace Kryptokrona

open Serialization Serializable SerialForm

structure BlockDetailBlockTransactionInputDataInput where
  height : Int32
deriving DecidableEq, Repr

instance : Serializable BlockDetailBlockTransactionInputDataInput where
  descriptor := .record <|
    .cons "height" .int .nil
  ofValue := fun (height, _) => ⟨height⟩

instance : SerialForm BlockDetailBlockTransactionInputDataInput where
  toValue x := (x.height, ())

structure BlockDetailBlockTransactionInputData where
  amount : Int32
  input : BlockDetailBlockTransactionInputDataInput
deriving DecidableEq, Repr

instance : Serializable BlockDetailBlockTransactionInputData where
  descriptor := .record <|
    .cons "amount" .int <|
    .cons "input" (descriptor BlockDetailBlockTransactionInputDataInput) .nil
  ofValue := fun (amount, input, _) => ⟨amount, ofValue input⟩

instance : SerialForm BlockDetailBlockTransactionInputData where
  toValue x := (x.amount, toValue x.input, ())
  ofValue_toValue x := by
    change BlockDetailBlockTransactionInputData.mk x.amount (ofValue (toValue x.input)) = x
    rw [ofValue_toValue]
  toValue_ofValue v := by
    obtain ⟨amount, input, _⟩ := v
    have hinput := toValue_ofValue input
    change (amount, toValue (ofValue input), ()) = _
    rw [hinput]
    rfl

/-- An input of a transaction in a detailed block. -/
structure BlockDetailBlockTransactionInput where
  data : BlockDetailBlockTransactionInputData
  type : String
deriving DecidableEq, Repr

instance : Serializable BlockDetailBlockTransactionInput where
  descriptor := .record <|
    .cons "data" (descriptor BlockDetailBlockTransactionInputData) <|
    .cons "type" .string .nil
  ofValue := fun (data, type, _) => ⟨ofValue data, type⟩

instance : SerialForm BlockDetailBlockTransactionInput where
  toValue x := (toValue x.data, x.type, ())
  ofValue_toValue x := by
    change BlockDetailBlockTransactionInput.mk (ofValue (toValue x.data)) x.type = x
    rw [ofValue_toValue]
  toValue_ofValue v := by
    obtain ⟨data, type, _⟩ := v
    have hdata := toValue_ofValue data
    change (toValue (ofValue data), type, ()) = _
    rw [hdata]
    rfl

structure BlockDetailBlockTransactionOutputOutputTargetData where
  key : String
deriving DecidableEq, Repr

instance : Serializable BlockDetailBlockTransactionOutputOutputTargetData where
  descriptor := .record <|
    .cons "key" .string .nil
  ofValue := fun (key, _) => ⟨key⟩

instance : SerialForm BlockDetailBlockTransactionOutputOutputTargetData where
  toValue x := (x.key, ())

structure BlockDetailBlockTransactionOutputOutputTarget where
  data : BlockDetailBlockTransactionOutputOutputTargetData
  type : String
deriving DecidableEq, Repr

instance : Serializable BlockDetailBlockTransactionOutputOutputTarget where
  descriptor := .record <|
    .cons "data" (descriptor BlockDetailBlockTransactionOutputOutputTargetData) <|
    .cons "type" .string .nil
  ofValue := fun (data, type, _) => ⟨ofValue data, type⟩

instance : SerialForm BlockDetailBlockTransactionOutputOutputTarget where
  toValue x := (toValue x.data, x.type, ())
  ofValue_toValue x := by
    change BlockDetailBlockTransactionOutputOutputTarget.mk (ofValue (toValue x.data)) x.type
      = x
    rw [ofValue_toValue]
  toValue_ofValue v := by
    obtain ⟨data, type, _⟩ := v
    have hdata := toValue_ofValue data
    change (toValue (ofValue data), type, ()) = _
    rw [hdata]
    rfl

structure BlockDetailBlockTransactionOutputOutput where
  amount : Int32
  target : BlockDetailBlockTransactionOutputOutputTarget
deriving DecidableEq, Repr

instance : Serializable BlockDetailBlockTransactionOutputOutput where
  descriptor := .record <|
    .cons "amount" .int <|
    .cons "target" (descriptor BlockDetailBlockTransactionOutputOutputTarget) .nil
  ofValue := fun (amount, target, _) => ⟨amount, ofValue target⟩

instance : SerialForm BlockDetailBlockTransactionOutputOutput where
  toValue x := (x.amount, toValue x.target, ())
  ofValue_toValue x := by
    change BlockDetailBlockTransactionOutputOutput.mk x.amount (ofValue (toValue x.target)) = x
    rw [ofValue_toValue]
  toValue_ofValue v := by
    obtain ⟨amount, target, _⟩ := v
    have htarget := toValue_ofValue target
    change (amount, toValue (ofValue target), ()) = _
    rw [htarget]
    rfl

/-- An output of a transaction in a detailed block. -/
structure BlockDetailBlockTransactionOutput where
  globalIndex : Int32
  output : BlockDetailBlockTransactionOutputOutput
deriving DecidableEq, Repr

instance : Serializable BlockDetailBlockTransactionOutput where
  descriptor := .record <|
    .cons "globalIndex" .int <|
    .cons "output" (descriptor BlockDetailBlockTransactionOutputOutput) .nil
  ofValue := fun (globalIndex, output, _) => ⟨globalIndex, ofValue output⟩

instance : SerialForm BlockDetailBlockTransactionOutput where
  toValue x := (x.globalIndex, toValue x.output, ())
  ofValue_toValue x := by
    change BlockDetailBlockTransactionOutput.mk x.globalIndex (ofValue (toValue x.output)) = x
    rw [ofValue_toValue]
  toValue_ofValue v := by
    obtain ⟨globalIndex, output, _⟩ := v
    have houtput := toValue_ofValue output
    change (globalIndex, toValue (ofValue output), ()) = _
    rw [houtput]
    rfl

structure BlockDetailBlockTransactionExtra where
  nonce : List String
  publicKey : String
  raw : String
deriving DecidableEq, Repr

instance : Serializable BlockDetailBlockTransactionExtra where
  descriptor := .record <|
    .cons "nonce" (.list .string) <|
    .cons "publicKey" .string <|
    .cons "raw" .string .nil
  ofValue := fun (nonce, publicKey, raw, _) => ⟨nonce, publicKey, raw⟩

instance : SerialForm BlockDetailBlockTransactionExtra where
  toValue x := (x.nonce, x.publicKey, x.raw, ())

/-- A transaction of a detailed block, with its totals and fee. -/
structure BlockDetailBlockTransaction where
  blockHash : String
  blockIndex : Int32
  extra : BlockDetailBlockTransactionExtra
  fee : Int32
  hash : String
  inBlockchain : Bool
  inputs : List BlockDetailBlockTransactionInput
  mixin : Int32
  outputs : List BlockDetailBlockTransactionOutput
  paymentId : String
  signatures : List String
  signaturesSize : Int32
  size : Int32
  timestamp : Int32
  totalInputsAmount : Int32
  totalOutputsAmount : Int32
  unlockTime : Int32
deriving DecidableEq, Repr

instance : Serializable BlockDetailBlockTransaction where
  descriptor := .record <|
    .cons "blockHash" .string <|
    .cons "blockIndex" .int <|
    .cons "extra" (descriptor BlockDetailBlockTransactionExtra) <|
    .cons "fee" .int <|
    .cons "hash" .string <|
    .cons "inBlockchain" .boolean <|
    .cons "inputs" (.list (descriptor BlockDetailBlockTransactionInput)) <|
    .cons "mixin" .int <|
    .cons "outputs" (.list (descriptor BlockDetailBlockTransactionOutput)) <|
    .cons "paymentId" .string <|
    .cons "signatures" (.list .string) <|
    .cons "signaturesSize" .int <|
    .cons "size" .int <|
    .cons "timestamp" .int <|
    .cons "totalInputsAmount" .int <|
    .cons "totalOutputsAmount" .int <|
    .cons "unlockTime" .int .nil
  ofValue := fun (blockHash, blockIndex, extra, fee, hash, inBlockchain, inputs, mixin, outputs,
      paymentId, signatures, signaturesSize, size, timestamp, totalInputsAmount,
      totalOutputsAmount, unlockTime, _) =>
    ⟨blockHash, blockIndex, ofValue extra, fee, hash, inBlockchain, inputs.map ofValue, mixin,
      outputs.map ofValue, paymentId, signatures, signaturesSize, size, timestamp,
      totalInputsAmount, totalOutputsAmount, unlockTime⟩

instance : SerialForm BlockDetailBlockTransaction where
  toValue x := (x.blockHash, x.blockIndex, toValue x.extra, x.fee, x.hash, x.inBlockchain,
    x.inputs.map toValue, x.mixin, x.outputs.map toValue, x.paymentId, x.signatures,
    x.signaturesSize, x.size, x.timestamp, x.totalInputsAmount, x.totalOutputsAmount,
    x.unlockTime, ())
  ofValue_toValue x := by
    change BlockDetailBlockTransaction.mk x.blockHash x.blockIndex (ofValue (toValue x.extra))
      x.fee x.hash x.inBlockchain ((x.inputs.map toValue).map ofValue) x.mixin
      ((x.outputs.map toValue).map ofValue) x.paymentId x.signatures x.signaturesSize x.size
      x.timestamp x.totalInputsAmount x.totalOutputsAmount x.unlockTime = x
    rw [ofValue_toValue, map_ofValue_toValue, map_ofValue_toValue]
  toValue_ofValue v := by
    obtain ⟨blockHash, blockIndex, extra, fee, hash, inBlockchain, inputs, mixin, outputs,
      paymentId, signatures, signaturesSize, size, timestamp, totalInputsAmount,
      totalOutputsAmount, unlockTime, _⟩ := v
    have hextra := toValue_ofValue extra
    have hinputs := @map_toValue_ofValue BlockDetailBlockTransactionInput _ _ inputs
    have houtputs := @map_toValue_ofValue BlockDetailBlockTransactionOutput _ _ outputs
    change (blockHash, blockIndex, toValue (ofValue extra), fee, hash, inBlockchain,
      (inputs.map ofValue).map toValue, mixin, (outputs.map ofValue).map toValue, paymentId,
      signatures, signaturesSize, size, timestamp, totalInputsAmount, totalOutputsAmount,
      unlockTime, ()) = _
    rw [hextra, hinputs, houtputs]
    rfl

structure BlockDetailBlock where
  alreadyGeneratedCoins : Int32
  alreadyGeneratedTransactions : Int32
  baseReward : Int32
  blockSize : Int32
  difficulty : Int32
  hash : String
  index : Int32
  majorVersion : Int32
  minorVersion : Int32
  nonce : Int32
  prevBlockHash : String
  reward : Int32
  sizeMedian : Int32
  timestamp : Int32
  totalFeeAmount : Int32
  transactions : List BlockDetailBlockTransaction
  transactionsCumulativeSize : Int32
deriving DecidableEq, Repr

instance : Serializable BlockDetailBlock where
  descriptor := .record <|
    .cons "alreadyGeneratedCoins" .int <|
    .cons "alreadyGeneratedTransactions" .int <|
    .cons "baseReward" .int <|
    .cons "blockSize" .int <|
    .cons "difficulty" .int <|
    .cons "hash" .string <|
    .cons "index" .int <|
    .cons "majorVersion" .int <|
    .cons "minorVersion" .int <|
    .cons "nonce" .int <|
    .cons "prevBlockHash" .string <|
    .cons "reward" .int <|
    .cons "sizeMedian" .int <|
    .cons "timestamp" .int <|
    .cons "totalFeeAmount" .int <|
    .cons "transactions" (.list (descriptor BlockDetailBlockTransaction)) <|
    .cons "transactionsCumulativeSize" .int .nil
  ofValue := fun (alreadyGeneratedCoins, alreadyGeneratedTransactions, baseReward, blockSize,
      difficulty, hash, index, majorVersion, minorVersion, nonce, prevBlockHash, reward,
      sizeMedian, timestamp, totalFeeAmount, transactions, transactionsCumulativeSize, _) =>
    ⟨alreadyGeneratedCoins, alreadyGeneratedTransactions, baseReward, blockSize, difficulty,
      hash, index, majorVersion, minorVersion, nonce, prevBlockHash, reward, sizeMedian,
      timestamp, totalFeeAmount, transactions.map ofValue, transactionsCumulativeSize⟩

instance : SerialForm BlockDetailBlock where
  toValue x := (x.alreadyGeneratedCoins, x.alreadyGeneratedTransactions, x.baseReward,
    x.blockSize, x.difficulty, x.hash, x.index, x.majorVersion, x.minorVersion, x.nonce,
    x.prevBlockHash, x.reward, x.sizeMedian, x.timestamp, x.totalFeeAmount,
    x.transactions.map toValue, x.transactionsCumulativeSize, ())
  ofValue_toValue x := by
    change BlockDetailBlock.mk x.alreadyGeneratedCoins x.alreadyGeneratedTransactions
      x.baseReward x.blockSize x.difficulty x.hash x.index x.majorVersion x.minorVersion
      x.nonce x.prevBlockHash x.reward x.sizeMedian x.timestamp x.totalFeeAmount
      ((x.transactions.map toValue).map ofValue) x.transactionsCumulativeSize = x
    rw [map_ofValue_toValue]
  toValue_ofValue v := by
    obtain ⟨alreadyGeneratedCoins, alreadyGeneratedTransactions, baseReward, blockSize,
      difficulty, hash, index, majorVersion, minorVersion, nonce, prevBlockHash, reward,
      sizeMedian, timestamp, totalFeeAmount, transactions, transactionsCumulativeSize, _⟩ := v
    have htransactions := @map_toValue_ofValue BlockDetailBlockTransaction _ _ transactions
    change (alreadyGeneratedCoins, alreadyGeneratedTransactions, baseReward, blockSize,
      difficulty, hash, index, majorVersion, minorVersion, nonce, prevBlockHash, reward,
      sizeMedian, timestamp, totalFeeAmount, (transactions.map ofValue).map toValue,
      transactionsCumulativeSize, ()) = _
    rw [htransactions]
    rfl

structure BlockDetail where
  block : BlockDetailBlock
  status : String
deriving DecidableEq, Repr

instance : Serializable BlockDetail where
  descriptor := .record <|
    .cons "block" (descriptor BlockDetailBlock) <|
    .cons "status" .string .nil
  ofValue := fun (block, status, _) => ⟨ofValue block, status⟩

instance : SerialForm BlockDetail where
  toValue x := (toValue x.block, x.status, ())
  ofValue_toValue x := by
    change BlockDetail.mk (ofValue (toValue x.block)) x.status = x
    rw [ofValue_toValue]
  toValue_ofValue v := by
    obtain ⟨block, status, _⟩ := v
    have hblock := toValue_ofValue block
    change (toValue (ofValue block), status, ()) = _
    rw [hblock]
    rfl

structure Blocks where
  blocks : List String
  currentHeight : Int32
  startHeight : Int32
  status : String
deriving DecidableEq, Repr

instance : Serializable Blocks where
  descriptor := .record <|
    .cons "response.blocks" (.list .string) <|
    .cons "response.current_height" .int <|
    .cons "response.start_height" .int <|
    .cons "response.status" .string .nil
  ofValue := fun (blocks, currentHeight, startHeight, status, _) =>
    ⟨blocks, currentHeight, startHeight, status⟩

instance : SerialForm Blocks where
  toValue x := (x.blocks, x.currentHeight, x.startHeight, x.status, ())

structure BlocksDetails where
  blocks : List String
  status : String
deriving DecidableEq, Repr

instance : Serializable BlocksDetails where
  descriptor := .record <|
    .cons "blocks" (.list .string) <|
    .cons "status" .string .nil
  ofValue := fun (blocks, status, _) => ⟨blocks, status⟩

instance : SerialForm BlocksDetails where
  toValue x := (x.blocks, x.status, ())

structure BlocksDetailsHashes where
  blocks : List String
  status : String
deriving DecidableEq, Repr

instance : Serializable BlocksDetailsHashes where
  descriptor := .record <|
    .cons "blocks" (.list .string) <|
    .cons "status" .string .nil
  ofValue := fun (blocks, status, _) => ⟨blocks, status⟩

instance : SerialForm BlocksDetailsHashes where
  toValue x := (x.blocks, x.status, ())

structure BlocksHashesTimestamp where
  blockHashes : List String
  status : String
deriving DecidableEq, Repr

instance : Serializable BlocksHashesTimestamp where
  descriptor := .record <|
    .cons "blockHashes" (.list .string) <|
    .cons "status" .string .nil
  ofValue := fun (blockHashes, status, _) => ⟨blockHashes, status⟩

instance : SerialForm BlocksHashesTimestamp where
  toValue x := (x.blockHashes, x.status, ())

end Kryptokrona
