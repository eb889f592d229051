import KryptokronaSdk.Core
import KryptokronaSdk.Suspend
import KryptokronaSdk.JobRuns
import KryptokronaSdk.JobProgress
import KryptokronaSdk.PromptCancellation
import KryptokronaSdk.SharedCallers
import KryptokronaSdk.SerialDescriptor
import KryptokronaSdk.JsonFormat
import KryptokronaSdk.JsonDocument
import KryptokronaSdk.DocumentView
import KryptokronaSdk.TransactionModel
import KryptokronaSdk.BlockModel
import KryptokronaSdk.NodeModel
import KryptokronaSdk.Http
import KryptokronaSdk.Clients
import KryptokronaSdk.ClientPlays
import KryptokronaSdk.CallReports
import KryptokronaSdk.CancellationTransparency
import KryptokronaSdk.ClientRuns
import KryptokronaSdk.CallLedger
import KryptokronaSdk.ClientAddress
import KryptokronaSdk.CancelledCallers
import KryptokronaSdk.DataDelivery
import KryptokronaSdk.TransactionAmounts
import KryptokronaSdk.AmountDelivery
