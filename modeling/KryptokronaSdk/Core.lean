/-!
# The core module

The node a client talks to, and the limits of `core.config` on amounts and
on the outputs of a transaction.
-/

namespace Kryptokrona

/-- `core.node.Node`, with the values its properties have at one time.  They can
be changed. -/
structure Node where
  hostName : String
  port : Int32
  ssl : Bool
deriving DecidableEq, Repr

/-- The node of the tests. -/
def testNode : Node := ⟨"privacymine.net", 11898, false⟩

/-- `Constants.MAX_OUTPUT_SIZE_CLIENT`, the largest amount to create a single
output of. -/
def Constants.maxOutputSizeClient : Int64 := 100000000000

/-- `CoinConfig.MAXIMUM_OUTPUTS_PER_TRANSACTION`. -/
def CoinConfig.maximumOutputsPerTransaction : Int64 := 90

end Kryptokrona
