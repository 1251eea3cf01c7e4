import Taas.FeeSufficiency

/-!
Where the inputs go. With two outputs nothing is lost; with one, what lies between its fee and
that of two outputs is reported as change, although no output holds it.
-/
namespace Taas.SimpleFeeEstimator

open Prefixes

/-- The inputs that are used: the shortest valid prefix of the sorted amounts or, without one or
without selection, all amounts. -/
def Uses (q : Request) (selectUtxos : Bool) (utxos inputs : List ℤ) : Prop :=
  if selectUtxos then
    Shortest (Valid q) (sortedAmounts utxos) inputs ∨
      Lacks (Valid q) (sortedAmounts utxos) ∧ inputs = sortedAmounts utxos
  else inputs = utxos

/-- What is left of the inputs pays for more than one output, but not for a change output. -/
def BetweenFees (q : Request) (inputs : List ℤ) : Prop :=
  q.feeOf inputs.length [q.outputScriptLen] < inputs.sum - q.sendAmount ∧
    inputs.sum - q.sendAmount ≤ q.feeOf inputs.length [q.outputScriptLen, q.outputScriptLen]

def Balanced (q : Request) (inputs : List ℤ) (est : FeeEstimate) : Prop :=
  0 ≤ est.change → inputs.sum = q.sendAmount + est.fee + est.change ∧
    (0 < est.change ↔ est.nOutputs = 2)

variable {q : Request} {inputs utxos : List ℤ} {est : FeeEstimate}

theorem Estimated.balanced_iff (h : Estimated q inputs est) :
    Balanced q inputs est ↔ ¬ BetweenFees q inputs := by
  have hbalance := h.balance
  have htwo : q.changeOf inputs (q.scripts 2) = inputs.sum - q.sendAmount -
    q.feeOf inputs.length [q.outputScriptLen, q.outputScriptLen] := rfl
  have hone : q.changeOf inputs (q.scripts 1) = inputs.sum - q.sendAmount -
    q.feeOf inputs.length [q.outputScriptLen] := rfl
  unfold Balanced BetweenFees
  rcases h.cases with ⟨hchange, -, hest, hn⟩ | ⟨hchange, -, hest, hn⟩
  · refine iff_of_true (fun _ => ⟨by omega, ?_⟩) (by omega)
    exact iff_of_true (by omega) hn
  · rw [hn]
    omega

theorem exists_uses (q : Request) (selectUtxos : Bool) (hne : utxos ≠ [])
    (hpos : ∀ v ∈ utxos, 0 < v) (hsend : 0 < q.sendAmount) :
    ∃ est inputs, estimateFee q selectUtxos utxos = .ok est ∧
      Uses q selectUtxos utxos inputs ∧ estimateFor q inputs = .ok est := by
  cases selectUtxos with
  | false =>
    obtain ⟨est, hfee, hest⟩ := estimateFee_all q hne hpos hsend
    exact ⟨est, utxos, hfee, rfl, hest⟩
  | true =>
    obtain ⟨est, hfee, hfound⟩ := estimateFee_found q true hne hpos hsend
    simp only [Bool.true_and, Found, accepted_eq_valid, amountsOf, if_true] at hfound
    rcases hfound with ⟨ys, hshortest, hest⟩ | ⟨hlacks, hest⟩
    · exact ⟨est, ys, hfee, Or.inl hshortest, hest⟩
    · exact ⟨est, _, hfee, Or.inr ⟨hlacks, rfl⟩, hest⟩

theorem Uses.unique {selectUtxos : Bool} {inputs' : List ℤ}
    (h : Uses q selectUtxos utxos inputs) (h' : Uses q selectUtxos utxos inputs') :
    inputs = inputs' := by
  unfold Uses at h h'
  split at h
  · rw [if_pos ‹_›] at h'
    rcases h with h | ⟨hlacks, rfl⟩
    · rcases h' with h' | ⟨hlacks', -⟩
      · exact h.unique h'
      · exact absurd h.holds (hlacks' _ h.isPrefix h.nonempty)
    · rcases h' with h' | ⟨-, rfl⟩
      · exact absurd h'.holds (hlacks _ h'.isPrefix h'.nonempty)
      · rfl
  · rw [if_neg ‹_›] at h'
    rw [h, h']

/-- No sompi is lost exactly when what the inputs leave is not between the fees of one output and
of two. -/
theorem value_conserved_iff (q : Request) (selectUtxos : Bool) (utxos : List ℤ) (hne : utxos ≠ [])
    (hpos : ∀ v ∈ utxos, 0 < v) (hsend : 0 < q.sendAmount) :
    ∃ est, estimateFee q selectUtxos utxos = .ok est ∧
      ∀ inputs, Uses q selectUtxos utxos inputs →
        est.nInputs = inputs.length ∧ (Balanced q inputs est ↔ ¬ BetweenFees q inputs) := by
  obtain ⟨est, inputs, hfee, huses, hest⟩ := exists_uses q selectUtxos hne hpos hsend
  refine ⟨est, hfee, fun inputs' huses' => ?_⟩
  obtain rfl := huses.unique huses'
  have h := estimated_of_ok hest
  refine ⟨?_, h.balanced_iff⟩
  cases h <;> rfl

def sendMillion : Request := { sendAmount := 1000000 }

theorem value_conserved_change :
    ∃ est, estimateFee sendMillion true [1500000] = .ok est ∧
      ∀ inputs, Uses sendMillion true [1500000] inputs → est.nInputs = inputs.length ∧
        (Balanced sendMillion inputs est ↔ ¬ BetweenFees sendMillion inputs) :=
  value_conserved_iff sendMillion true [1500000] (by simp) (by simp) (by decide)

/-- Of this coin, 17600 sompi are change without an output. -/
theorem change_without_output :
    (∀ selectUtxos, estimateFee sendMillion selectUtxos [1180000] =
      .ok ⟨1624, 152543, 152543, 162400, 162400, 17600, 1, 1⟩) ∧
    ¬ ∀ (q : Request) selectUtxos utxos inputs est, utxos ≠ [] → (∀ v ∈ utxos, 0 < v) →
      0 < q.sendAmount → q.Sound → estimateFee q selectUtxos utxos = .ok est →
      Uses q selectUtxos utxos inputs → Balanced q inputs est := by
  have hestimate : ∀ selectUtxos, estimateFee sendMillion selectUtxos [1180000] =
      .ok ⟨1624, 152543, 152543, 162400, 162400, 17600, 1, 1⟩ := by decide +kernel
  refine ⟨hestimate, fun h => ?_⟩
  have hsound : sendMillion.Sound := ⟨by decide, by decide, by decide, by decide⟩
  have hbalanced := h sendMillion false [1180000] [1180000] _ (by simp) (by simp) (by decide) hsound
    (hestimate false) rfl
  obtain ⟨-, houtput⟩ := hbalanced (by decide)
  exact absurd (houtput.mp (by decide)) (by decide)

end Taas.SimpleFeeEstimator
