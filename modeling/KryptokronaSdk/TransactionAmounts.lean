import KryptokronaSdk.Core
import KryptokronaSdk.DocumentView
import KryptokronaSdk.TransactionModel
import KryptokronaSdk.BlockModel
import Mathlib

/-!
# The amounts of a transaction

The SDK spells a transaction twice: as a `TransactionPrefix`, which the pool
and the lite queries list, and as a `BlockDetailBlockTransaction`, which
carries totals and a fee besides.  Both declare every amount an `Int`.

The views below read the amounts of each class off a document and off an
instance, up to the three responses that list transactions.  The limits of
`core.config` bound a single amount by 10^11; within these limits

* `prefix_fit_iff`: the amounts of a prefix fit exactly when each of them is
  at most the largest `Int`;
* `block_fit_iff`: the amounts, totals and fee of a transaction of a block
  fit exactly when both totals are at most the largest `Int`.
-/

namespace Kryptokrona

open Serialization Serializable

/-- The serial names of amounts, totals and fees. -/
def monetary (name : String) : Bool :=
  ["amount", "fee", "totalInputsAmount", "totalOutputsAmount"].contains name

/-- The amounts of a transaction prefix. -/
structure PrefixAmounts where
  inputs : List Int
  outputs : List Int
deriving DecidableEq, Repr

/-- The amounts of a transaction of a block, with its totals and fee. -/
@[ext]
structure BlockAmounts where
  inputs : List Int
  outputs : List Int
  totalInputsAmount : Int
  totalOutputsAmount : Int
  fee : Int
deriving DecidableEq, Repr

/-- Every amount is an `Int`. -/
@[mk_iff]
structure PrefixAmounts.Fit (a : PrefixAmounts) : Prop where
  inputs : ∀ n ∈ a.inputs, FitsInt n
  outputs : ∀ n ∈ a.outputs, FitsInt n

/-- Every amount, both totals and the fee are an `Int`. -/
@[mk_iff]
structure BlockAmounts.Fit (a : BlockAmounts) : Prop where
  inputs : ∀ n ∈ a.inputs, FitsInt n
  outputs : ∀ n ∈ a.outputs, FitsInt n
  totalInputsAmount : FitsInt a.totalInputsAmount
  totalOutputsAmount : FitsInt a.totalOutputsAmount
  fee : FitsInt a.fee

/-- An input of a prefix: `amount` in its `value`. -/
def vinView : View monetary TransactionPrefixVin Int where
  document i := ((i.field "value").field "amount").toInt
  response i := i.value.amount.toInt
  Fit := FitsInt
  agree h := toInt_of_reads h.2.2.1.2.1
  fitsAll_iff i := by
    simp [Descriptor.Fits, Fields.Fit, descriptor, monetary]

/-- An output of a prefix: its `amount`. -/
def voutView : View monetary TransactionPrefixVout Int where
  document o := (o.field "amount").toInt
  response o := o.amount.toInt
  Fit := FitsInt
  agree h := toInt_of_reads h.2.1
  fitsAll_iff o := by
    simp [Descriptor.Fits, Fields.Fit, descriptor, monetary]

/-- A transaction prefix. -/
def transactionPrefixView : View monetary TransactionPrefix PrefixAmounts where
  document tx :=
    { inputs := (tx.field "vin").items.map vinView.document
      outputs := (tx.field "vout").items.map voutView.document }
  response tx :=
    { inputs := tx.vin.map vinView.response
      outputs := tx.vout.map voutView.response }
  Fit := PrefixAmounts.Fit
  agree h := by
    obtain ⟨-, -, -, -, hvin, hvout, -⟩ := h
    have hinputs := vinView.items_agree hvin
    have houtputs := voutView.items_agree hvout
    exact congrArg₂ PrefixAmounts.mk hinputs houtputs
  fitsAll_iff tx := by
    have hvin : ∀ i, (descriptor TransactionPrefixVin).FitsAll i ↔
        FitsInt (vinView.document i) ∧ (descriptor TransactionPrefixVin).Fits monetary i :=
      vinView.fitsAll_iff
    have hvout : ∀ o, (descriptor TransactionPrefixVout).FitsAll o ↔
        FitsInt (voutView.document o) ∧ (descriptor TransactionPrefixVout).Fits monetary o :=
      voutView.fitsAll_iff
    change (Descriptor.record _).FitsAll tx ↔ _ ∧ (Descriptor.record _).Fits monetary tx
    simp [Descriptor.Fits, Fields.Fit, monetary, PrefixAmounts.fit_iff, hvin, hvout, imp_and,
      forall_and]
    tauto

/-- A transaction of the pool. -/
def transactionView : View monetary Transaction PrefixAmounts where
  document tx := transactionPrefixView.document (tx.field "transactionPrefixInfo.txPrefix")
  response tx := transactionPrefixView.response tx.transactionPrefix
  Fit := transactionPrefixView.Fit
  agree h := transactionPrefixView.agree h.2.2.1
  fitsAll_iff tx := by
    change (Descriptor.record _).FitsAll tx ↔ _ ∧ (Descriptor.record _).Fits monetary tx
    simp [Descriptor.Fits, Fields.Fit, monetary, transactionPrefixView.fitsAll_iff]

/-- The transactions added to the pool. -/
def poolChangesLiteView : View monetary PoolChangesLite (List PrefixAmounts) where
  document j := (j.field "addedTxs").items.map transactionView.document
  response data := data.addedTxs.map transactionView.response
  Fit amounts := ∀ a ∈ amounts, transactionView.Fit a
  agree h := transactionView.items_agree h.2.1
  fitsAll_iff j := by
    change (Descriptor.record _).FitsAll j ↔ _ ∧ (Descriptor.record _).Fits monetary j
    simp [Descriptor.Fits, Fields.Fit, monetary, transactionView.fitsAll_iff, imp_and,
      forall_and]

/-- The transactions of one block of a lite query. -/
def queryBlocksLiteItemsView : View monetary QueryBlocksLiteItems (List PrefixAmounts) where
  document j := (j.field "blockShortInfo.txPrefixes").items.map transactionPrefixView.document
  response data := data.transactionPrefixes.map transactionPrefixView.response
  Fit amounts := ∀ a ∈ amounts, transactionPrefixView.Fit a
  agree h := transactionPrefixView.items_agree h.2.2.2.1
  fitsAll_iff j := by
    change (Descriptor.record _).FitsAll j ↔ _ ∧ (Descriptor.record _).Fits monetary j
    simp [Descriptor.Fits, Fields.Fit, monetary, transactionPrefixView.fitsAll_iff, imp_and,
      forall_and]
    tauto

/-- The transactions of a lite query, block by block. -/
def queryBlocksLiteView : View monetary QueryBlocksLite (List (List PrefixAmounts)) where
  document j := (j.field "items").items.map queryBlocksLiteItemsView.document
  response data := data.items.map queryBlocksLiteItemsView.response
  Fit amounts := ∀ a ∈ amounts, queryBlocksLiteItemsView.Fit a
  agree h := queryBlocksLiteItemsView.items_agree h.2.2.2.1
  fitsAll_iff j := by
    change (Descriptor.record _).FitsAll j ↔ _ ∧ (Descriptor.record _).Fits monetary j
    simp [Descriptor.Fits, Fields.Fit, monetary, queryBlocksLiteItemsView.fitsAll_iff, imp_and,
      forall_and]
    tauto

/-- An input in a block: `amount` in its `data`. -/
def blockInputView : View monetary BlockDetailBlockTransactionInput Int where
  document i := ((i.field "data").field "amount").toInt
  response i := i.data.amount.toInt
  Fit := FitsInt
  agree h := toInt_of_reads h.2.1.2.1
  fitsAll_iff i := by
    simp [Descriptor.Fits, Fields.Fit, descriptor, monetary]

/-- An output in a block: `amount` in its `output`. -/
def blockOutputView : View monetary BlockDetailBlockTransactionOutput Int where
  document o := ((o.field "output").field "amount").toInt
  response o := o.output.amount.toInt
  Fit := FitsInt
  agree h := toInt_of_reads h.2.2.1.2.1
  fitsAll_iff o := by
    simp [Descriptor.Fits, Fields.Fit, descriptor, monetary, and_comm]

/-- A transaction of a block. -/
def blockTransactionView : View monetary BlockDetailBlockTransaction BlockAmounts where
  document tx :=
    { inputs := (tx.field "inputs").items.map blockInputView.document
      outputs := (tx.field "outputs").items.map blockOutputView.document
      totalInputsAmount := (tx.field "totalInputsAmount").toInt
      totalOutputsAmount := (tx.field "totalOutputsAmount").toInt
      fee := (tx.field "fee").toInt }
  response tx :=
    { inputs := tx.inputs.map blockInputView.response
      outputs := tx.outputs.map blockOutputView.response
      totalInputsAmount := tx.totalInputsAmount.toInt
      totalOutputsAmount := tx.totalOutputsAmount.toInt
      fee := tx.fee.toInt }
  Fit := BlockAmounts.Fit
  agree h := by
    obtain ⟨-, -, -, -, hfee, -, -, hinputs, -, houtputs, -, -, -, -, -, htotalInputs,
      htotalOutputs, -⟩ := h
    apply BlockAmounts.ext
    · exact blockInputView.items_agree hinputs
    · exact blockOutputView.items_agree houtputs
    · exact toInt_of_reads htotalInputs
    · exact toInt_of_reads htotalOutputs
    · exact toInt_of_reads hfee
  fitsAll_iff tx := by
    have hinput : ∀ i, (descriptor BlockDetailBlockTransactionInput).FitsAll i ↔
        FitsInt (blockInputView.document i) ∧
          (descriptor BlockDetailBlockTransactionInput).Fits monetary i :=
      blockInputView.fitsAll_iff
    have houtput : ∀ o, (descriptor BlockDetailBlockTransactionOutput).FitsAll o ↔
        FitsInt (blockOutputView.document o) ∧
          (descriptor BlockDetailBlockTransactionOutput).Fits monetary o :=
      blockOutputView.fitsAll_iff
    have hextra : ∀ x, (descriptor BlockDetailBlockTransactionExtra).FitsAll x ↔
        (descriptor BlockDetailBlockTransactionExtra).Fits monetary x := by
      simp [Descriptor.Fits, Fields.Fit, descriptor]
    change (Descriptor.record _).FitsAll tx ↔ _ ∧ (Descriptor.record _).Fits monetary tx
    simp [Descriptor.Fits, Fields.Fit, monetary, BlockAmounts.fit_iff, hinput, houtput, hextra,
      imp_and, forall_and]
    tauto

/-- The transactions of a block. -/
def blockDetailBlockView : View monetary BlockDetailBlock (List BlockAmounts) where
  document j := (j.field "transactions").items.map blockTransactionView.document
  response data := data.transactions.map blockTransactionView.response
  Fit amounts := ∀ a ∈ amounts, blockTransactionView.Fit a
  agree h := by
    obtain ⟨-, -, -, -, -, -, -, -, -, -, -, -, -, -, -, -, htransactions, -⟩ := h
    exact blockTransactionView.items_agree htransactions
  fitsAll_iff j := by
    change (Descriptor.record _).FitsAll j ↔ _ ∧ (Descriptor.record _).Fits monetary j
    simp [Descriptor.Fits, Fields.Fit, monetary, blockTransactionView.fitsAll_iff, imp_and,
      forall_and]
    tauto

/-- The transactions of the block in a detailed response. -/
def blockDetailView : View monetary BlockDetail (List BlockAmounts) where
  document j := blockDetailBlockView.document (j.field "block")
  response data := blockDetailBlockView.response data.block
  Fit := blockDetailBlockView.Fit
  agree h := blockDetailBlockView.agree h.2.1
  fitsAll_iff j := by
    change (Descriptor.record _).FitsAll j ↔ _ ∧ (Descriptor.record _).Fits monetary j
    simp [Descriptor.Fits, Fields.Fit, monetary, blockDetailBlockView.fitsAll_iff]

/-- An amount to create a single output of. -/
def WithinOutputLimit (n : Int) : Prop :=
  1 ≤ n ∧ n ≤ Constants.maxOutputSizeClient.toInt

/-- The limits on a transaction prefix. -/
@[mk_iff]
structure PrefixAmounts.WithinLimits (a : PrefixAmounts) : Prop where
  inputs : ∀ n ∈ a.inputs, WithinOutputLimit n
  outputs : ∀ n ∈ a.outputs, WithinOutputLimit n

/-- The limits on a transaction of a block.  Its totals are the sums of its
amounts, and its fee is their difference, or 0 if it has a coinbase input. -/
@[mk_iff]
structure BlockAmounts.WithinLimits (a : BlockAmounts) (coinbase : Bool) : Prop where
  inputs : ∀ n ∈ a.inputs, WithinOutputLimit n
  outputs : ∀ n ∈ a.outputs, WithinOutputLimit n
  outputsCount : (a.outputs.length : Int) ≤ CoinConfig.maximumOutputsPerTransaction.toInt
  totalInputsAmount_eq : a.totalInputsAmount = a.inputs.sum
  totalOutputsAmount_eq : a.totalOutputsAmount = a.outputs.sum
  fee_eq : a.fee = if coinbase then 0 else a.totalInputsAmount - a.totalOutputsAmount

instance : DecidablePred WithinOutputLimit := fun _ => inferInstanceAs (Decidable (_ ∧ _))

instance (a : PrefixAmounts) : Decidable a.WithinLimits :=
  decidable_of_iff _ a.withinLimits_iff.symm

instance (a : BlockAmounts) (coinbase : Bool) : Decidable (a.WithinLimits coinbase) :=
  decidable_of_iff _ (a.withinLimits_iff coinbase).symm

/-- The largest `Int` is what stands between the limit and the class. -/
theorem fitsInt_iff_of_limit {n : Int} (h : WithinOutputLimit n) :
    FitsInt n ↔ n ≤ 2147483647 := by
  have hpositive := h.1
  unfold FitsInt
  omega

/-- **The amounts of a prefix fit exactly when each is at most the largest
`Int`.** -/
theorem prefix_fit_iff {a : PrefixAmounts} (h : a.WithinLimits) :
    a.Fit ↔ ∀ n ∈ a.inputs ++ a.outputs, n ≤ 2147483647 := by
  have hinputs : (∀ n ∈ a.inputs, FitsInt n) ↔ ∀ n ∈ a.inputs, n ≤ 2147483647 :=
    forall₂_congr fun n hn => fitsInt_iff_of_limit (h.inputs n hn)
  have houtputs : (∀ n ∈ a.outputs, FitsInt n) ↔ ∀ n ∈ a.outputs, n ≤ 2147483647 :=
    forall₂_congr fun n hn => fitsInt_iff_of_limit (h.outputs n hn)
  rw [a.fit_iff, hinputs, houtputs, List.forall_mem_append]

/-- Positive amounts are at most their total. -/
theorem amount_le_sum {amounts : List Int} (h : ∀ n ∈ amounts, WithinOutputLimit n) :
    0 ≤ amounts.sum ∧ ∀ n ∈ amounts, n ≤ amounts.sum := by
  have hnonneg : ∀ n ∈ amounts, 0 ≤ n := by
    intro n hn
    have hpositive := (h n hn).1
    omega
  exact ⟨List.sum_nonneg hnonneg, List.single_le_sum hnonneg⟩

/-- A total that fits leaves room for each of its amounts. -/
theorem amounts_fit_of_sum {amounts : List Int} (h : ∀ n ∈ amounts, WithinOutputLimit n)
    (hsum : amounts.sum ≤ 2147483647) : ∀ n ∈ amounts, FitsInt n := by
  intro n hn
  have hle := (amount_le_sum h).2 n hn
  exact (fitsInt_iff_of_limit (h n hn)).mpr (by omega)

/-- **The amounts, totals and fee of a transaction of a block fit exactly
when both totals are at most the largest `Int`.** -/
theorem block_fit_iff {a : BlockAmounts} {coinbase : Bool} (h : a.WithinLimits coinbase) :
    a.Fit ↔ a.totalInputsAmount ≤ 2147483647 ∧ a.totalOutputsAmount ≤ 2147483647 := by
  have hinputs := (amount_le_sum h.inputs).1
  have houtputs := (amount_le_sum h.outputs).1
  have htotalInputs := h.totalInputsAmount_eq
  have htotalOutputs := h.totalOutputsAmount_eq
  constructor
  · intro hfit
    have hlargestInputs := hfit.totalInputsAmount.2
    have hlargestOutputs := hfit.totalOutputsAmount.2
    omega
  · intro hlargest
    obtain ⟨hlargestInputs, hlargestOutputs⟩ := hlargest
    constructor
    · exact amounts_fit_of_sum h.inputs (by omega)
    · exact amounts_fit_of_sum h.outputs (by omega)
    · unfold FitsInt
      omega
    · unfold FitsInt
      omega
    · -- the difference of two totals in range is in range, whichever is larger
      have hfee := h.fee_eq
      unfold FitsInt
      split at hfee <;> omega

end Kryptokrona
