import KryptokronaSdk.ClientPlays
import KryptokronaSdk.TransactionAmounts

/-!
# Amounts on their way to the caller

A node answers one of the three methods that list transactions with a
document of the declared shape.  The `catch` around the decoding leaves two
ends: the caller gets the instance decoded from the document, or it gets no
data at all.

* `amounts_of_answer`: an instance has the amounts of its document;
* `amountsIntact_iff`: there is one exactly when the amounts fit and the
  other numbers of the document do;
* `amounts_intact_iff_int`: for transactions within the limits of the SDK
  the amounts fit when they, or for a block the totals, are at most the
  largest `Int`;
* `limit_amounts_lost`: one output of the largest amount allowed loses the
  whole answer of the pool, and a block is lost by its totals alone.
-/

namespace Kryptokrona

open Coroutine Serialization Serializable

variable {negotiation : ContentNegotiation}

variable {α A : Type} [Serializable α]

/-- The call answers with an instance that has the amounts of the document. -/
def AmountsIntact (view : View monetary α A)
    (negotiation : ContentNegotiation) (status : HttpStatusCode) (j : JsonElement)
    (method : SuspendFun (Option α)) : Prop :=
  ∃ data, onResponse negotiation ⟨status, .json j⟩ method = .ok (some data) ∧
    view.response data = view.document j

/-- **An answer never carries other amounts than its document.** -/
theorem amounts_of_answer (view : View monetary α A) (hlawful : negotiation.json.Lawful)
    {j : JsonElement} (hshape : (descriptor α).hasShape j = true) {status : HttpStatusCode}
    {node : Node} {path logger message : String} {data : α}
    (hanswer : onResponse negotiation ⟨status, .json j⟩ (fetch node path logger message) =
      .ok (some data)) :
    view.response data = view.document j := by
  rw [onResponse_fetch] at hanswer
  obtain ⟨v, hv, hdata⟩ := caught_map_eq_some_iff.mp hanswer
  rw [← hdata]
  exact view.response_of_decode hlawful hshape (receive_eq_some_iff.mp hv).2

/-- **The amounts of a document arrive exactly when they fit and the other
numbers of the document do.** -/
theorem amountsIntact_iff (view : View monetary α A) (hlawful : negotiation.json.Lawful)
    {j : JsonElement} (hshape : (descriptor α).hasShape j = true) (status : HttpStatusCode)
    (node : Node) (path logger message : String) :
    AmountsIntact view negotiation status j (fetch node path logger message) ↔
      view.Fit (view.document j) ∧ (descriptor α).Fits monetary j := by
  rw [← view.decodes_iff hlawful hshape]
  constructor
  · intro hintact
    obtain ⟨data, hanswer, _⟩ := hintact
    rw [onResponse_fetch] at hanswer
    obtain ⟨v, hv, _⟩ := caught_map_eq_some_iff.mp hanswer
    exact ⟨v, (receive_eq_some_iff.mp hv).2⟩
  · intro hdecoded
    obtain ⟨v, hv⟩ := hdecoded
    have hanswer : onResponse negotiation ⟨status, .json j⟩ (fetch node path logger message) =
        .ok (some (ofValue v)) := by
      rw [onResponse_fetch]
      have hreceive := receive_eq_some_iff.mpr ⟨ne_null_of_hasShape hshape, hv⟩
      exact caught_map_eq_some_iff.mpr ⟨v, hreceive, rfl⟩
    exact ⟨ofValue v, hanswer, amounts_of_answer view hlawful hshape hanswer⟩

/-- **Within the limits of the SDK, amounts reach the caller exactly when
each is at most the largest `Int`**, for a block exactly when the totals of
its transactions are; and every other number is in the range of its type. -/
theorem amounts_intact_iff_int (hlawful : negotiation.json.Lawful) (status : HttpStatusCode)
    (node : Node) (isCoinbase : JsonElement → Bool) :
    (∀ j : JsonElement, (descriptor PoolChangesLite).hasShape j = true →
      (∀ tx ∈ poolChangesLiteView.document j, tx.WithinLimits) →
      (AmountsIntact poolChangesLiteView negotiation status j
          (PoolChangesClient.getPoolChangesLite node) ↔
        (∀ tx ∈ poolChangesLiteView.document j,
          ∀ n ∈ tx.inputs ++ tx.outputs, n ≤ 2147483647) ∧
        (descriptor PoolChangesLite).Fits monetary j)) ∧
    (∀ j : JsonElement, (descriptor QueryBlocksLite).hasShape j = true →
      (∀ txs ∈ queryBlocksLiteView.document j, ∀ tx ∈ txs, tx.WithinLimits) →
      (AmountsIntact queryBlocksLiteView negotiation status j
          (BlockClient.getQueryBlocksLite node) ↔
        (∀ txs ∈ queryBlocksLiteView.document j, ∀ tx ∈ txs,
          ∀ n ∈ tx.inputs ++ tx.outputs, n ≤ 2147483647) ∧
        (descriptor QueryBlocksLite).Fits monetary j)) ∧
    (∀ j : JsonElement, (descriptor BlockDetail).hasShape j = true →
      (∀ tx ∈ ((j.field "block").field "transactions").items,
        (blockTransactionView.document tx).WithinLimits
          ((tx.field "inputs").items.any isCoinbase)) →
      (AmountsIntact blockDetailView negotiation status j
          (BlockClient.getBlockDetailsByHeight node) ↔
        (∀ tx ∈ blockDetailView.document j,
          tx.totalInputsAmount ≤ 2147483647 ∧ tx.totalOutputsAmount ≤ 2147483647) ∧
        (descriptor BlockDetail).Fits monetary j)) := by
  refine ⟨?_, ?_, ?_⟩
  · intro j hshape hlimits
    have hfit : poolChangesLiteView.Fit (poolChangesLiteView.document j) ↔
        ∀ tx ∈ poolChangesLiteView.document j,
          ∀ n ∈ tx.inputs ++ tx.outputs, n ≤ 2147483647 :=
      forall₂_congr fun tx htx => prefix_fit_iff (hlimits tx htx)
    rw [← hfit]
    exact amountsIntact_iff poolChangesLiteView hlawful hshape status node _ _ _
  · intro j hshape hlimits
    have hfit : queryBlocksLiteView.Fit (queryBlocksLiteView.document j) ↔
        ∀ txs ∈ queryBlocksLiteView.document j, ∀ tx ∈ txs,
          ∀ n ∈ tx.inputs ++ tx.outputs, n ≤ 2147483647 :=
      forall₄_congr fun txs htxs tx htx => prefix_fit_iff (hlimits txs htxs tx htx)
    rw [← hfit]
    exact amountsIntact_iff queryBlocksLiteView hlawful hshape status node _ _ _
  · intro j hshape hlimits
    have hfit : blockDetailView.Fit (blockDetailView.document j) ↔
        ∀ tx ∈ blockDetailView.document j,
          tx.totalInputsAmount ≤ 2147483647 ∧ tx.totalOutputsAmount ≤ 2147483647 := by
      change (∀ a ∈ List.map _ _, BlockAmounts.Fit a) ↔ ∀ tx ∈ List.map _ _, _
      rw [List.forall_mem_map, List.forall_mem_map]
      exact forall₂_congr fun tx htx => block_fit_iff (hlimits tx htx)
    rw [← hfit]
    exact amountsIntact_iff blockDetailView hlawful hshape status node _ _ _

/-- An input of a prefix in a response. -/
def vinDocument (amount : Int) : JsonElement :=
  .object [("type", .string "02"),
    ("value", .object [("amount", .number amount), ("k_image", .string "5d1c"),
      ("key_offsets", .array [.number 7])])]

def keyTargetDocument : JsonElement :=
  .object [("data", .object [("key", .string "9a3e")]), ("type", .string "02")]

/-- An output of a prefix in a response. -/
def voutDocument (amount : Int) : JsonElement :=
  .object [("amount", .number amount), ("target", keyTargetDocument)]

def transactionPrefixDocument (amounts : PrefixAmounts) : JsonElement :=
  .object [("extra", .string "01"), ("unlock_time", .number 0), ("version", .number 1),
    ("vin", .array (amounts.inputs.map vinDocument)),
    ("vout", .array (amounts.outputs.map voutDocument))]

/-- A response of the pool that adds these transactions. -/
def poolChangesLiteDocument (txs : List PrefixAmounts) : JsonElement :=
  .object [("addedTxs", .array (txs.map fun tx =>
      .object [("transactionPrefixInfo.txHash", .string "c0de"),
        ("transactionPrefixInfo.txPrefix", transactionPrefixDocument tx)])),
    ("deletedTxsIds", .array []), ("isTailBlockActual", .boolean true),
    ("status", .string "OK")]

/-- A response of a lite query with these transactions, block by block. -/
def queryBlocksLiteDocument (blocks : List (List PrefixAmounts)) : JsonElement :=
  .object [("currentHeight", .number 12), ("fullOffset", .number 9),
    ("items", .array (blocks.map fun txs =>
      .object [("blockShortInfo.block", .array []), ("blockShortInfo.blockId", .string "b10c"),
        ("blockShortInfo.txPrefixes", .array (txs.map transactionPrefixDocument))])),
    ("startHeight", .number 9), ("status", .string "OK")]

/-- An input of a transaction of a block in a response. -/
def blockInputDocument (type : String) (amount : Int) : JsonElement :=
  .object [("data", .object [("amount", .number amount),
    ("input", .object [("height", .number 12)])]), ("type", .string type)]

def blockOutputDocument (amount : Int) : JsonElement :=
  .object [("globalIndex", .number 3),
    ("output", .object [("amount", .number amount), ("target", keyTargetDocument)])]

def blockTransactionDocument (type : String) (amounts : BlockAmounts) : JsonElement :=
  .object [("blockHash", .string "b10c"), ("blockIndex", .number 12),
    ("extra", .object [("nonce", .array []), ("publicKey", .string "77aa"),
      ("raw", .string "01")]),
    ("fee", .number amounts.fee), ("hash", .string "c0de"), ("inBlockchain", .boolean true),
    ("inputs", .array (amounts.inputs.map (blockInputDocument type))), ("mixin", .number 1),
    ("outputs", .array (amounts.outputs.map blockOutputDocument)),
    ("paymentId", .string ""), ("signatures", .array []), ("signaturesSize", .number 0),
    ("size", .number 300), ("timestamp", .number 1580000000),
    ("totalInputsAmount", .number amounts.totalInputsAmount),
    ("totalOutputsAmount", .number amounts.totalOutputsAmount), ("unlockTime", .number 0)]

/-- A response with a block of these transactions. -/
def blockDetailDocument (txs : List (String × BlockAmounts)) : JsonElement :=
  .object [("block", .object [("alreadyGeneratedCoins", .number 0),
      ("alreadyGeneratedTransactions", .number 20), ("baseReward", .number 0),
      ("blockSize", .number 900), ("difficulty", .number 10000), ("hash", .string "b10c"),
      ("index", .number 12), ("majorVersion", .number 5), ("minorVersion", .number 0),
      ("nonce", .number 1), ("prevBlockHash", .string "b10b"), ("reward", .number 0),
      ("sizeMedian", .number 900), ("timestamp", .number 1580000000),
      ("totalFeeAmount", .number 0),
      ("transactions", .array (txs.map fun tx => blockTransactionDocument tx.1 tx.2)),
      ("transactionsCumulativeSize", .number 600)]),
    ("status", .string "OK")]

/-- The type of a coinbase input. -/
def isBaseInput (input : JsonElement) : Bool :=
  match input.field "type" with
  | .string type => type == "ff"
  | _ => false

def samplePool : JsonElement :=
  poolChangesLiteDocument [⟨[5, 2147483647], [2147483647]⟩, ⟨[], [1, 2, 3]⟩]

def sampleQuery : JsonElement :=
  queryBlocksLiteDocument [[], [⟨[40], [30, 9]⟩, ⟨[2147483647], []⟩]]

def sampleBlock : JsonElement :=
  blockDetailDocument [("ff", ⟨[17], [17], 17, 17, 0⟩),
    ("02", ⟨[2147483000, 600], [2147483500], 2147483600, 2147483500, 100⟩)]

/-- Amounts up to the largest `Int` arrive. -/
theorem samples_intact :
    AmountsIntact poolChangesLiteView strictNegotiation ⟨200, true⟩ samplePool
      (PoolChangesClient.getPoolChangesLite testNode) ∧
    AmountsIntact queryBlocksLiteView strictNegotiation ⟨200, true⟩ sampleQuery
      (BlockClient.getQueryBlocksLite testNode) ∧
    AmountsIntact blockDetailView strictNegotiation ⟨200, true⟩ sampleBlock
      (BlockClient.getBlockDetailsByHeight testNode) := by
  obtain ⟨hpool, hquery, hblock⟩ := @amounts_intact_iff_int strictNegotiation
    (strictJson_lawful Throwable.exception) ⟨200, true⟩ testNode isBaseInput
  refine ⟨?_, ?_, ?_⟩
  · exact (hpool samplePool (by decide) (by decide)).mpr (by decide)
  · exact (hquery sampleQuery (by decide) (by decide)).mpr (by decide)
  · exact (hblock sampleBlock (by decide) (by decide)).mpr (by decide)

/-- A transaction of the pool with an output of the largest amount. -/
def limitPool : JsonElement :=
  poolChangesLiteDocument [⟨[5], [3, 1]⟩, ⟨[100000000000], [100000000000]⟩]

/-- A transaction whose amounts are each an `Int`, but not its totals. -/
def limitBlock : JsonElement :=
  blockDetailDocument
    [("02", ⟨[2000000000, 2000000100], [2000000000, 2000000000], 4000000100, 4000000000, 100⟩)]

/-- **Transactions within the limits are lost.** -/
theorem limit_amounts_lost :
    ((descriptor PoolChangesLite).hasShape limitPool = true ∧
      (∀ tx ∈ poolChangesLiteView.document limitPool, tx.WithinLimits) ∧
      (descriptor PoolChangesLite).Fits monetary limitPool ∧
      onResponse strictNegotiation ⟨⟨200, true⟩, .json limitPool⟩
        (PoolChangesClient.getPoolChangesLite testNode) = .ok none) ∧
    ((descriptor BlockDetail).hasShape limitBlock = true ∧
      (∀ tx ∈ ((limitBlock.field "block").field "transactions").items,
        (blockTransactionView.document tx).WithinLimits
          ((tx.field "inputs").items.any isBaseInput)) ∧
      (descriptor BlockDetail).Fits monetary limitBlock ∧
      onResponse strictNegotiation ⟨⟨200, true⟩, .json limitBlock⟩
        (BlockClient.getBlockDetailsByHeight testNode) = .ok none) := by
  refine ⟨⟨by decide, by decide, by decide, ?_⟩, ⟨by decide, by decide, by decide, ?_⟩⟩
  · unfold PoolChangesClient.getPoolChangesLite
    rw [onResponse_fetch]
    rfl
  · unfold BlockClient.getBlockDetailsByHeight
    rw [onResponse_fetch]
    rfl

end Kryptokrona
