import KryptokronaSdk.Core
import KryptokronaSdk.Http
import KryptokronaSdk.TransactionModel
import KryptokronaSdk.BlockModel
import KryptokronaSdk.NodeModel

/-!
# The client methods

The six clients of `http.client`.  Nineteen of their twenty methods are one
text with a path, a logger and a message of their own, `fetch`; the other,
`NodeClient.isNodeRunning`, looks at the status of the response and leaves
its body alone.

`ClientMethod` numbers the methods, and `clients` is the callee they make up:
what a caller coroutine can call.
-/

namespace Kryptokrona

open Coroutine Serialization

/-- The address a method requests. -/
def Node.url (node : Node) (path : String) : String :=
  if node.ssl then s!"https://{node.hostName}:{node.port}/{path}"
  else s!"http://{node.hostName}:{node.port}/{path}"

/-- `logger.error(message, e)`, then the value after the `try`. -/
def logError {α : Type} (logger message : String) (fallback : α) (e : Throwable) :
    SuspendFun α := do
  Suspend.log ⟨logger, message, e⟩
  return fallback

/-- The text of a data method: request, decode at the nullable return type, and
`null` after any `Exception`. -/
def fetch {α : Type} [Serializable α] (node : Node) (path logger message : String) :
    SuspendFun (Option α) :=
  Suspend.catchException
    (do
      let response ← get (node.url path)
      response.body α)
    (logError logger message none)

namespace BlockClient

-- The KDoc of six of these methods says that they get the block details by hash
-- and return a `BlockDetailsHash`; there is no such class, and each method
-- returns what its signature declares.

def getBlocks (node : Node) : SuspendFun (Option Blocks) :=
  fetch node "getblocks" "BlockClient" "Error getting blocks"

def getQueryBlocks (node : Node) : SuspendFun (Option QueryBlocks) :=
  fetch node "queryblocks" "BlockClient" "Error getting query blocks"

def getQueryBlocksLite (node : Node) : SuspendFun (Option QueryBlocksLite) :=
  fetch node "queryblockslite" "BlockClient" "Error getting query blocks lite"

def getBlockDetailsByHeight (node : Node) : SuspendFun (Option BlockDetail) :=
  fetch node "get_block_details_by_height" "BlockClient"
    "Error getting block details by height"

def getBlocksDetailsByHeights (node : Node) : SuspendFun (Option BlocksDetails) :=
  fetch node "get_blocks_details_by_heights" "BlockClient"
    "Error getting blocks details by height"

def getBlocksDetailsByHashes (node : Node) : SuspendFun (Option BlocksDetailsHashes) :=
  fetch node "get_blocks_details_by_hashes" "BlockClient"
    "Error getting blocks details by hashes"

/-- Its message is the one of `getBlocksDetailsByHashes`. -/
def getBlocksHashesByTimestamps (node : Node) :
    SuspendFun (Option BlocksHashesTimestamp) :=
  fetch node "get_blocks_hashes_by_timestamps" "BlockClient"
    "Error getting blocks details by hashes"

end BlockClient

namespace IndexesClient

def getOIndexes (node : Node) : SuspendFun (Option OIndexes) :=
  fetch node "get_o_indexes" "IndexesClient" "Error getting O Indexes"

def getGlobalIndexesForRange (node : Node) :
    SuspendFun (Option GlobalIndexesForRange) :=
  fetch node "get_global_indexes_for_range" "IndexesClient"
    "Error getting global indexes for range"

end IndexesClient

namespace NodeClient

/-- The one method that does not decode: `false` stands for any `Exception`
as well as for a status that is no success. -/
def isNodeRunning (node : Node) : SuspendFun Bool :=
  Suspend.catchException
    (do
      let response ← get (node.url "info")
      return response.status.isSuccess)
    (logError "NodeClient" "Error getting node information" false)

/-- Its KDoc is the one of `getNodePeers`. -/
def getNodeInfo (node : Node) : SuspendFun (Option Info) :=
  fetch node "info" "NodeClient" "Error getting node information"

def getNodeHeight (node : Node) : SuspendFun (Option Height) :=
  fetch node "height" "NodeClient" "Error getting node height"

def getNodePeers (node : Node) : SuspendFun (Option Peers) :=
  fetch node "peers" "NodeClient" "Error getting node peers"

def getNodeFee (node : Node) : SuspendFun (Option Fee) :=
  fetch node "fee" "NodeClient" "Error getting node fee"

end NodeClient

namespace OutputsClient

def getRandomOuts (node : Node) : SuspendFun (Option RandomOutputs) :=
  fetch node "getrandom_outs" "OutputsClient" "Error getting random outputs"

end OutputsClient

namespace PoolChangesClient

def getPoolChangesLite (node : Node) : SuspendFun (Option PoolChangesLite) :=
  fetch node "get_pool_changes_lite" "PoolChangesClient" "Error getting pool changes lite"

end PoolChangesClient

namespace TransactionClient

def getTransactions (node : Node) : SuspendFun (Option Transactions) :=
  fetch node "gettransactions" "TransactionClient" "Error getting transactions"

def getTransactionDetailsByHashes (node : Node) :
    SuspendFun (Option TransactionDetailsHashes) :=
  fetch node "get_transaction_details_by_hashes" "TransactionClient"
    "Error getting transaction details by hashes"

def getTransactionHashesByPaymentId (node : Node) :
    SuspendFun (Option TransactionHashesPaymentId) :=
  fetch node "get_transaction_hashes_by_payment_id" "TransactionClient"
    "Error getting transaction hashes by payment id"

def getTransactionsStatus (node : Node) : SuspendFun (Option TransactionsStatus) :=
  fetch node "get_transactions_status" "TransactionClient"
    "Error getting transaction status"

end TransactionClient

/-- The methods that return decoded data or `null`. -/
inductive DataMethod
  | getBlocks
  | getQueryBlocks
  | getQueryBlocksLite
  | getBlockDetailsByHeight
  | getBlocksDetailsByHeights
  | getBlocksDetailsByHashes
  | getBlocksHashesByTimestamps
  | getOIndexes
  | getGlobalIndexesForRange
  | getNodeInfo
  | getNodeHeight
  | getNodePeers
  | getNodeFee
  | getRandomOuts
  | getPoolChangesLite
  | getTransactions
  | getTransactionDetailsByHashes
  | getTransactionHashesByPaymentId
  | getTransactionsStatus
deriving DecidableEq, Repr

/-- The class a data method returns. -/
abbrev DataMethod.Data : DataMethod → Type
  | .getBlocks => Blocks
  | .getQueryBlocks => QueryBlocks
  | .getQueryBlocksLite => QueryBlocksLite
  | .getBlockDetailsByHeight => BlockDetail
  | .getBlocksDetailsByHeights => BlocksDetails
  | .getBlocksDetailsByHashes => BlocksDetailsHashes
  | .getBlocksHashesByTimestamps => BlocksHashesTimestamp
  | .getOIndexes => OIndexes
  | .getGlobalIndexesForRange => GlobalIndexesForRange
  | .getNodeInfo => Info
  | .getNodeHeight => Height
  | .getNodePeers => Peers
  | .getNodeFee => Fee
  | .getRandomOuts => RandomOutputs
  | .getPoolChangesLite => PoolChangesLite
  | .getTransactions => Transactions
  | .getTransactionDetailsByHashes => TransactionDetailsHashes
  | .getTransactionHashesByPaymentId => TransactionHashesPaymentId
  | .getTransactionsStatus => TransactionsStatus

/-- The code of a data method. -/
def DataMethod.code (node : Node) : (m : DataMethod) → SuspendFun (Option m.Data)
  | .getBlocks => BlockClient.getBlocks node
  | .getQueryBlocks => BlockClient.getQueryBlocks node
  | .getQueryBlocksLite => BlockClient.getQueryBlocksLite node
  | .getBlockDetailsByHeight => BlockClient.getBlockDetailsByHeight node
  | .getBlocksDetailsByHeights => BlockClient.getBlocksDetailsByHeights node
  | .getBlocksDetailsByHashes => BlockClient.getBlocksDetailsByHashes node
  | .getBlocksHashesByTimestamps => BlockClient.getBlocksHashesByTimestamps node
  | .getOIndexes => IndexesClient.getOIndexes node
  | .getGlobalIndexesForRange => IndexesClient.getGlobalIndexesForRange node
  | .getNodeInfo => NodeClient.getNodeInfo node
  | .getNodeHeight => NodeClient.getNodeHeight node
  | .getNodePeers => NodeClient.getNodePeers node
  | .getNodeFee => NodeClient.getNodeFee node
  | .getRandomOuts => OutputsClient.getRandomOuts node
  | .getPoolChangesLite => PoolChangesClient.getPoolChangesLite node
  | .getTransactions => TransactionClient.getTransactions node
  | .getTransactionDetailsByHashes => TransactionClient.getTransactionDetailsByHashes node
  | .getTransactionHashesByPaymentId =>
      TransactionClient.getTransactionHashesByPaymentId node
  | .getTransactionsStatus => TransactionClient.getTransactionsStatus node

instance : (m : DataMethod) → Serializable m.Data
  | .getBlocks => inferInstanceAs (Serializable Blocks)
  | .getQueryBlocks => inferInstanceAs (Serializable QueryBlocks)
  | .getQueryBlocksLite => inferInstanceAs (Serializable QueryBlocksLite)
  | .getBlockDetailsByHeight => inferInstanceAs (Serializable BlockDetail)
  | .getBlocksDetailsByHeights => inferInstanceAs (Serializable BlocksDetails)
  | .getBlocksDetailsByHashes => inferInstanceAs (Serializable BlocksDetailsHashes)
  | .getBlocksHashesByTimestamps => inferInstanceAs (Serializable BlocksHashesTimestamp)
  | .getOIndexes => inferInstanceAs (Serializable OIndexes)
  | .getGlobalIndexesForRange => inferInstanceAs (Serializable GlobalIndexesForRange)
  | .getNodeInfo => inferInstanceAs (Serializable Info)
  | .getNodeHeight => inferInstanceAs (Serializable Height)
  | .getNodePeers => inferInstanceAs (Serializable Peers)
  | .getNodeFee => inferInstanceAs (Serializable Fee)
  | .getRandomOuts => inferInstanceAs (Serializable RandomOutputs)
  | .getPoolChangesLite => inferInstanceAs (Serializable PoolChangesLite)
  | .getTransactions => inferInstanceAs (Serializable Transactions)
  | .getTransactionDetailsByHashes => inferInstanceAs (Serializable TransactionDetailsHashes)
  | .getTransactionHashesByPaymentId => inferInstanceAs (Serializable TransactionHashesPaymentId)
  | .getTransactionsStatus => inferInstanceAs (Serializable TransactionsStatus)

instance : (m : DataMethod) → SerialForm m.Data
  | .getBlocks => inferInstanceAs (SerialForm Blocks)
  | .getQueryBlocks => inferInstanceAs (SerialForm QueryBlocks)
  | .getQueryBlocksLite => inferInstanceAs (SerialForm QueryBlocksLite)
  | .getBlockDetailsByHeight => inferInstanceAs (SerialForm BlockDetail)
  | .getBlocksDetailsByHeights => inferInstanceAs (SerialForm BlocksDetails)
  | .getBlocksDetailsByHashes => inferInstanceAs (SerialForm BlocksDetailsHashes)
  | .getBlocksHashesByTimestamps => inferInstanceAs (SerialForm BlocksHashesTimestamp)
  | .getOIndexes => inferInstanceAs (SerialForm OIndexes)
  | .getGlobalIndexesForRange => inferInstanceAs (SerialForm GlobalIndexesForRange)
  | .getNodeInfo => inferInstanceAs (SerialForm Info)
  | .getNodeHeight => inferInstanceAs (SerialForm Height)
  | .getNodePeers => inferInstanceAs (SerialForm Peers)
  | .getNodeFee => inferInstanceAs (SerialForm Fee)
  | .getRandomOuts => inferInstanceAs (SerialForm RandomOutputs)
  | .getPoolChangesLite => inferInstanceAs (SerialForm PoolChangesLite)
  | .getTransactions => inferInstanceAs (SerialForm Transactions)
  | .getTransactionDetailsByHashes => inferInstanceAs (SerialForm TransactionDetailsHashes)
  | .getTransactionHashesByPaymentId => inferInstanceAs (SerialForm TransactionHashesPaymentId)
  | .getTransactionsStatus => inferInstanceAs (SerialForm TransactionsStatus)

/-- The twenty methods. -/
inductive ClientMethod
  | isNodeRunning
  | data (m : DataMethod)
deriving DecidableEq, Repr

/-- What a method returns. -/
abbrev ClientMethod.Result : ClientMethod → Type
  | .isNodeRunning => Bool
  | .data m => Option m.Data

/-- The code of a method. -/
def ClientMethod.code (node : Node) : (m : ClientMethod) → SuspendFun m.Result
  | .isNodeRunning => NodeClient.isNodeRunning node
  | .data m => m.code node

/-- A call of a method on a client of a node. -/
structure ClientCall where
  node : Node
  method : ClientMethod
deriving DecidableEq, Repr

/-- What a caller coroutine can call. -/
abbrev clients : Callee HttpOp.Result LogLine where
  Call := ClientCall
  Result call := call.method.Result
  program call := call.method.code call.node

end Kryptokrona
