import Mathlib.Algebra.Order.Floor.Ring
import Mathlib.Algebra.Order.BigOperators.Group.List
import Mathlib.Data.List.Sort
import Mathlib.Data.Rat.Floor
import Taas.Prefixes

/-!
The Kaspa fee and mass calculator. Amounts are in sompi; the feerate is a rational
number of sompi for each gram of compute mass. `//` raises on a zero divisor, so
every function below a division can fail.
-/
namespace Taas.SimpleFeeEstimator

open Prefixes

def massPerTxByte : ℤ := 1
def massPerScriptPubKeyByte : ℤ := 10
def massPerSigOp : ℤ := 1000
/-- `C` of KIP-9. -/
def storageMassParameter : ℤ := 10 ^ 12

def minimumFeerate : ℚ := 100

def subnetworkIdSize : ℤ := 20
def hashSize : ℤ := 32
def signatureScriptSize : ℤ := 66
def sigOpsPerInput : ℤ := 1

def txFixedOverhead : ℤ := 2 + 8 + 8 + 8 + subnetworkIdSize + 8 + hashSize + 8

inductive Error where
  | valueError (message : String)
  | zeroDivisionError
deriving DecidableEq, Repr

/-- `a // b`. -/
def floorDiv (a b : ℤ) : Except Error ℤ :=
  if b = 0 then .error .zeroDivisionError else .ok (a.fdiv b)

structure FeeEstimate where
  computeMass : ℤ
  storageMass : ℤ
  networkMass : ℤ
  minimumFee : ℤ
  fee : ℤ
  change : ℤ
  nInputs : ℕ
  nOutputs : ℕ
deriving DecidableEq, Repr

def inputSerializedSize : ℤ := 32 + 4 + 8 + signatureScriptSize + 8

def outputSerializedSize (scriptLenBytes : ℤ) : ℤ := 8 + 2 + 8 + scriptLenBytes

def transactionSerializedSize (nInputs : ℕ) (outputScriptLens : List ℤ) (payloadLen : ℤ) : ℤ :=
  txFixedOverhead + payloadLen + nInputs * inputSerializedSize +
    (outputScriptLens.map outputSerializedSize).sum

/-- Size mass, script public key mass and sigop mass. -/
def computeMass (nInputs : ℕ) (outputScriptLens : List ℤ) (payloadLen : ℤ) : ℤ :=
  let sizeMass := transactionSerializedSize nInputs outputScriptLens payloadLen * massPerTxByte
  let spkMass := (outputScriptLens.map fun s => 2 + s).sum * massPerScriptPubKeyByte
  let sigopsMass := nInputs * sigOpsPerInput * massPerSigOp
  sizeMass + spkMass + sigopsMass

/-- `sum(c // v for v in values)`. -/
def harmonic (values : List ℤ) : Except Error ℤ := do
  return (← values.mapM (floorDiv storageMassParameter)).sum

/-- Storage mass of KIP-9: relaxed when `|O| ≤ |I| ≤ 2` or `|O| = 1`. -/
def storageMass (inputAmounts outputAmounts : List ℤ) : Except Error ℤ := do
  let nIn := inputAmounts.length
  let nOut := outputAmounts.length
  let harmonicOuts ← harmonic outputAmounts
  if (nOut ≤ nIn ∧ nIn ≤ 2) ∨ nOut = 1 then
    let harmonicIns ← harmonic inputAmounts
    return max 0 (harmonicOuts - harmonicIns)
  else
    let arithmeticIns ← floorDiv (storageMassParameter * nIn ^ 2) inputAmounts.sum
    return max 0 (harmonicOuts - arithmeticIns)

/-- The arguments of an estimate other than the amounts spent. -/
structure Request where
  sendAmount : ℤ
  feerate : ℚ := minimumFeerate
  priorityFee : ℤ := 0
  /-- A P2PK script by default. -/
  outputScriptLen : ℤ := 34
  payloadLen : ℤ := 0

/-- The mass, the fee without and with the priority fee, and the change of a transaction
with these outputs. -/
def Request.charge (q : Request) (inputs : List ℤ) (outputScriptLens : List ℤ) :
    ℤ × ℤ × ℤ × ℤ :=
  let cm := computeMass inputs.length outputScriptLens q.payloadLen
  let minimumFee := ⌈(cm : ℚ) * q.feerate⌉
  let fee := minimumFee + q.priorityFee
  (cm, minimumFee, fee, inputs.sum - q.sendAmount - fee)

/-- Mass and fee of a fixed input set. Two outputs unless there is no change. -/
def estimateFor (q : Request) (inputs : List ℤ) : Except Error FeeEstimate := do
  let (cm, minimumFee, fee, change) := q.charge inputs [q.outputScriptLen, q.outputScriptLen]
  if change ≤ 0 then
    let (cm, minimumFee, fee, change) := q.charge inputs [q.outputScriptLen]
    let sm ← storageMass inputs [q.sendAmount]
    return ⟨cm, sm, max cm sm, minimumFee, fee, change, inputs.length, 1⟩
  else
    let sm ← storageMass inputs [q.sendAmount, change]
    return ⟨cm, sm, max cm sm, minimumFee, fee, change, inputs.length, 2⟩

/-- The selection covers the send amount and its fee, and its storage mass stays within
its compute mass. -/
def Request.accepts (q : Request) (selected : List ℤ) (result : FeeEstimate) : Bool :=
  selected.sum ≥ q.sendAmount + result.fee && result.storageMass ≤ result.computeMass

def sortedAmounts (utxoAmounts : List ℤ) : List ℤ := utxoAmounts.insertionSort (· ≤ ·)

/-- Mass and fee of sending from a set of UTXOs, taken smallest first up to a selection
that is accepted; without `selectUtxos` every UTXO is an input. -/
def estimateFee (q : Request) (selectUtxos : Bool) (utxoAmounts : List ℤ) :
    Except Error FeeEstimate := do
  if utxoAmounts.isEmpty then
    throw (.valueError "no utxos provided")
  let amounts := if selectUtxos then sortedAmounts utxoAmounts else utxoAmounts
  let result ← estimateFor q amounts
  grow (estimateFor q) (fun selected result => selectUtxos && q.accepts selected result)
    [] amounts result

theorem floorDiv_ok (a : ℤ) {b : ℤ} (hb : 0 < b) : floorDiv a b = .ok (a.fdiv b) := by
  have hne : b ≠ 0 := by omega
  simp [floorDiv, hne]

theorem mapM_floorDiv (a : ℤ) {values : List ℤ} (hpos : ∀ v ∈ values, 0 < v) :
    values.mapM (floorDiv a) = .ok (values.map a.fdiv) := by
  induction values with
  | nil => rfl
  | cons v values ih =>
    have hv := floorDiv_ok a (hpos v (by simp))
    have hrest := ih fun w hw => hpos w (by simp [hw])
    rw [List.mapM_cons, hv, hrest]
    rfl

theorem harmonic_ok {values : List ℤ} (hpos : ∀ v ∈ values, 0 < v) :
    harmonic values = .ok (values.map storageMassParameter.fdiv).sum := by
  rw [harmonic, mapM_floorDiv _ hpos]
  rfl

/-- No divisor of the storage mass is zero when every amount is positive. -/
theorem storageMass_ok {inputs outputs : List ℤ} (hne : inputs ≠ [])
    (hin : ∀ v ∈ inputs, 0 < v) (hout : ∀ v ∈ outputs, 0 < v) :
    ∃ sm, storageMass inputs outputs = .ok sm := by
  have hsum : 0 < inputs.sum := List.sum_pos inputs hin hne
  rw [storageMass, harmonic_ok hin, harmonic_ok hout, floorDiv_ok _ hsum]
  by_cases hrelaxed : (outputs.length ≤ inputs.length ∧ inputs.length ≤ 2) ∨ outputs.length = 1
  · exact ⟨_, if_pos hrelaxed⟩
  · exact ⟨_, if_neg hrelaxed⟩

/-- What an estimate says: two outputs with a positive change, or one output because two
would leave none. -/
inductive Estimated (q : Request) (inputs : List ℤ) : FeeEstimate → Prop where
  | withChange {cm minimumFee fee change sm : ℤ}
      (hcharge : q.charge inputs [q.outputScriptLen, q.outputScriptLen] =
        (cm, minimumFee, fee, change))
      (hchange : 0 < change)
      (hsm : storageMass inputs [q.sendAmount, change] = .ok sm) :
      Estimated q inputs ⟨cm, sm, max cm sm, minimumFee, fee, change, inputs.length, 2⟩
  | withoutChange {cm minimumFee fee change sm : ℤ}
      (hchange : (q.charge inputs [q.outputScriptLen, q.outputScriptLen]).2.2.2 ≤ 0)
      (hcharge : q.charge inputs [q.outputScriptLen] = (cm, minimumFee, fee, change))
      (hsm : storageMass inputs [q.sendAmount] = .ok sm) :
      Estimated q inputs ⟨cm, sm, max cm sm, minimumFee, fee, change, inputs.length, 1⟩

section

variable {q : Request} {inputs utxos : List ℤ} {est : FeeEstimate}

theorem estimateFor_ok (hsend : 0 < q.sendAmount) (hne : inputs ≠ [])
    (hpos : ∀ v ∈ inputs, 0 < v) :
    ∃ est, estimateFor q inputs = .ok est ∧ Estimated q inputs est := by
  rcases hcharge : q.charge inputs [q.outputScriptLen, q.outputScriptLen] with
    ⟨cm, minimumFee, fee, change⟩
  rcases hcharge' : q.charge inputs [q.outputScriptLen] with ⟨cm', minimumFee', fee', change'⟩
  by_cases hchange : change ≤ 0
  · have hout : ∀ v ∈ [q.sendAmount], 0 < v := by simpa using hsend
    obtain ⟨sm, hsm⟩ := storageMass_ok hne hpos hout
    refine ⟨_, ?_, .withoutChange (by rw [hcharge]; exact hchange) hcharge' hsm⟩
    simp only [estimateFor, hcharge, hcharge', if_pos hchange, hsm]
    rfl
  · have hout : ∀ v ∈ [q.sendAmount, change], 0 < v := by
      simp only [List.mem_cons, List.not_mem_nil, or_false, forall_eq_or_imp, forall_eq]
      omega
    obtain ⟨sm, hsm⟩ := storageMass_ok hne hpos hout
    refine ⟨_, ?_, .withChange hcharge (by omega) hsm⟩
    simp only [estimateFor, hcharge, if_neg hchange, hsm]
    rfl

theorem charge_change (q : Request) (inputs lens : List ℤ) :
    (q.charge inputs lens).2.2.2 = inputs.sum - q.sendAmount - (q.charge inputs lens).2.2.1 := rfl

theorem Estimated.balance (h : Estimated q inputs est) :
    q.sendAmount + est.fee + est.change = inputs.sum := by
  cases h with
  | withChange hcharge hchange hsm =>
    have hdef := charge_change q inputs [q.outputScriptLen, q.outputScriptLen]
    rw [hcharge] at hdef
    simp only at hdef ⊢
    omega
  | withoutChange hchange hcharge hsm =>
    have hdef := charge_change q inputs [q.outputScriptLen]
    rw [hcharge] at hdef
    simp only at hdef ⊢
    omega

theorem Estimated.accepts_iff (h : Estimated q inputs est) :
    q.accepts inputs est = true ↔ 0 ≤ est.change ∧ est.storageMass ≤ est.computeMass := by
  have hbalance := h.balance
  simp only [Request.accepts, Bool.and_eq_true, decide_eq_true_eq]
  constructor
  · intro ⟨hcovered, hmass⟩
    exact ⟨by omega, hmass⟩
  · intro ⟨hchange, hmass⟩
    exact ⟨by omega, hmass⟩

end

theorem sortedAmounts_perm (utxos : List ℤ) : (sortedAmounts utxos).Perm utxos :=
  List.perm_insertionSort _ utxos

theorem sortedAmounts_pairwise (utxos : List ℤ) : (sortedAmounts utxos).Pairwise (· ≤ ·) :=
  List.pairwise_insertionSort _ utxos

theorem sortedAmounts_eq {utxos others : List ℤ} (h : others.Perm utxos) :
    sortedAmounts others = sortedAmounts utxos := by
  have hperm : (sortedAmounts others).Perm (sortedAmounts utxos) :=
    (sortedAmounts_perm others).trans (h.trans (sortedAmounts_perm utxos).symm)
  exact hperm.eq_of_pairwise' (sortedAmounts_pairwise others) (sortedAmounts_pairwise utxos)

theorem estimateFee_perm {q : Request} {utxos others : List ℤ} (h : others.Perm utxos) :
    estimateFee q true others = estimateFee q true utxos := by
  have hempty : others.isEmpty = utxos.isEmpty := by
    rw [Bool.eq_iff_iff, List.isEmpty_iff, List.isEmpty_iff]
    exact ⟨fun ho => (ho ▸ h).nil_eq.symm, fun hu => (hu ▸ h).eq_nil⟩
  simp only [estimateFee, hempty, if_true, sortedAmounts_eq h]

/-- The estimate of these inputs covers the send amount and its own fee, with a storage
mass within the compute mass. -/
def Valid (q : Request) (inputs : List ℤ) : Prop :=
  ∃ est, estimateFor q inputs = .ok est ∧
    q.sendAmount + est.fee ≤ inputs.sum ∧ est.storageMass ≤ est.computeMass

theorem accepted_eq_valid (q : Request) : Accepted (estimateFor q) q.accepts = Valid q := by
  funext inputs
  simp [Accepted, Valid, Request.accepts]

/-- The amounts in the order in which they are tried. -/
def amountsOf (selectUtxos : Bool) (utxos : List ℤ) : List ℤ :=
  if selectUtxos then sortedAmounts utxos else utxos

theorem amountsOf_perm (selectUtxos : Bool) (utxos : List ℤ) :
    (amountsOf selectUtxos utxos).Perm utxos := by
  unfold amountsOf
  split
  · exact sortedAmounts_perm utxos
  · exact List.Perm.refl utxos

theorem amountsOf_ne_nil (selectUtxos : Bool) {utxos : List ℤ} (hne : utxos ≠ []) :
    amountsOf selectUtxos utxos ≠ [] :=
  fun h => hne (List.Perm.nil_eq (h ▸ amountsOf_perm selectUtxos utxos)).symm

theorem pos_of_prefixed {selectUtxos : Bool} {utxos ys : List ℤ} (hpos : ∀ v ∈ utxos, 0 < v)
    (hys : ys <+: amountsOf selectUtxos utxos) : ∀ v ∈ ys, 0 < v :=
  fun v hv => hpos v ((amountsOf_perm selectUtxos utxos).mem_iff.mp (hys.subset hv))

/-- No division fails, and the search through the amounts ends as described in `Found`. -/
theorem estimateFee_found (q : Request) (selectUtxos : Bool) {utxos : List ℤ} (hne : utxos ≠ [])
    (hpos : ∀ v ∈ utxos, 0 < v) (hsend : 0 < q.sendAmount) :
    ∃ est, estimateFee q selectUtxos utxos = .ok est ∧
      Found (estimateFor q) (fun selected result => selectUtxos && q.accepts selected result)
        (amountsOf selectUtxos utxos) est := by
  have htotal : ∀ ys, ys <+: [] ++ amountsOf selectUtxos utxos → ys ≠ [] →
      ∃ est, estimateFor q ys = .ok est := by
    intro ys hys hyne
    obtain ⟨est, hest, -⟩ := estimateFor_ok hsend hyne (pos_of_prefixed hpos hys)
    exact ⟨est, hest⟩
  have hamounts := amountsOf_ne_nil selectUtxos hne
  obtain ⟨whole, hwhole⟩ := htotal (amountsOf selectUtxos utxos) List.prefix_rfl hamounts
  obtain ⟨est, hgrow, hfound⟩ : ∃ est,
      grow (estimateFor q) (fun selected result => selectUtxos && q.accepts selected result) []
        (amountsOf selectUtxos utxos) whole = .ok est ∧
      Found (estimateFor q) (fun selected result => selectUtxos && q.accepts selected result)
        ([] ++ amountsOf selectUtxos utxos) est :=
    grow_found htotal lacks_nil fun hnil => absurd hnil hamounts
  refine ⟨est, ?_, hfound⟩
  have hempty : utxos.isEmpty = false := by simpa using hne
  rw [amountsOf] at hwhole hgrow
  simp only [estimateFee, hempty, Bool.false_eq_true, if_false]
  rw [hwhole]
  exact hgrow

/-- Coin selection returns the estimate of the shortest valid prefix of the sorted
amounts, of all of them when no prefix is valid. No division fails on the way and the
order in which the amounts are given does not matter. -/
theorem estimateFee_shortest (q : Request) (utxos : List ℤ) (hne : utxos ≠ [])
    (hpos : ∀ v ∈ utxos, 0 < v) (hsend : 0 < q.sendAmount) :
    ∃ est, estimateFee q true utxos = .ok est ∧
      ((∃ ys, Shortest (Valid q) (sortedAmounts utxos) ys ∧ estimateFor q ys = .ok est) ∨
        (Lacks (Valid q) (sortedAmounts utxos) ∧
          estimateFor q (sortedAmounts utxos) = .ok est)) ∧
      ∀ others, others.Perm utxos → estimateFee q true others = .ok est := by
  obtain ⟨est, hfee, hfound⟩ := estimateFee_found q true hne hpos hsend
  simp only [Bool.true_and, Found, accepted_eq_valid, amountsOf, if_true] at hfound
  refine ⟨est, hfee, hfound, ?_⟩
  intro others ho
  rw [estimateFee_perm ho, hfee]

/-- Of three UTXOs the two smaller ones pay for the transfer, and in another order they
do too. -/
theorem estimateFee_shortest_two :
    estimateFee ⟨4000000000000, 100, 10000, 34, 0⟩ true
        [3000000000000, 5000000000000, 2000000000000] =
      .ok ⟨3154, 1, 3154, 315400, 325400, 999999674600, 2, 2⟩ := by
  obtain ⟨est, hest, -, hothers⟩ := estimateFee_shortest ⟨4000000000000, 100, 10000, 34, 0⟩
    [5000000000000, 2000000000000, 3000000000000] (by simp) (by simp) (by simp)
  have hvalue : estimateFee ⟨4000000000000, 100, 10000, 34, 0⟩ true
      [5000000000000, 2000000000000, 3000000000000] =
        .ok ⟨3154, 1, 3154, 315400, 325400, 999999674600, 2, 2⟩ := by decide +kernel
  rw [hothers _ (by decide), ← hest, hvalue]

end Taas.SimpleFeeEstimator
