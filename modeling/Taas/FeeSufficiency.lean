import Mathlib.Algebra.Order.Ring.Abs
import Mathlib.Tactic.Linarith
import Mathlib.Tactic.Positivity
import Mathlib.Tactic.Ring
import Taas.SimpleFeeEstimator

/-!
Whether a set of UTXOs suffices. In ascending order the next coin is at least the mean of those
before it, so once they pay for themselves it pays for its own input, and whatever is sufficient
stays sufficient with more coins.
-/
namespace Taas.SimpleFeeEstimator

open Prefixes

def Request.feeOf (q : Request) (nInputs : ℕ) (outputScriptLens : List ℤ) : ℤ :=
  ⌈(computeMass nInputs outputScriptLens q.payloadLen : ℚ) * q.feerate⌉ + q.priorityFee

def Request.changeOf (q : Request) (inputs outputScriptLens : List ℤ) : ℤ :=
  inputs.sum - q.sendAmount - q.feeOf inputs.length outputScriptLens

def Request.scripts (q : Request) (nOutputs : ℕ) : List ℤ :=
  List.replicate nOutputs q.outputScriptLen

/-- The prefix covers the send amount and its fee. -/
def Covers (q : Request) (inputs : List ℤ) : Prop :=
  ∃ est, estimateFor q inputs = .ok est ∧ q.sendAmount + est.fee ≤ inputs.sum

/-- The rate and the lengths are not negative. -/
structure Request.Sound (q : Request) : Prop where
  feerate : 0 ≤ q.feerate
  priorityFee : 0 ≤ q.priorityFee
  outputScriptLen : 0 ≤ q.outputScriptLen
  payloadLen : 0 ≤ q.payloadLen

variable {q : Request} {inputs ys zs rest utxos : List ℤ} {est est' : FeeEstimate} {a : ℤ}

/-- Each input has a mass of 1118, and each output one of 38 and 11 for each byte of its
script. -/
theorem computeMass_scripts (q : Request) (n m : ℕ) :
    computeMass n (q.scripts m) q.payloadLen =
      94 + q.payloadLen + 1118 * n + m * (38 + 11 * q.outputScriptLen) := by
  simp only [computeMass, transactionSerializedSize, Request.scripts, List.map_replicate,
    List.sum_replicate, nsmul_eq_mul, inputSerializedSize, outputSerializedSize, txFixedOverhead,
    signatureScriptSize, subnetworkIdSize, hashSize, massPerTxByte, massPerScriptPubKeyByte,
    massPerSigOp, sigOpsPerInput]
  ring

theorem computeMass_succ (q : Request) (n m : ℕ) :
    computeMass (n + 1) (q.scripts m) q.payloadLen =
      computeMass n (q.scripts m) q.payloadLen + 1118 := by
  rw [computeMass_scripts, computeMass_scripts]
  push_cast
  ring

theorem feeOf_succ_le (q : Request) (n m : ℕ) :
    q.feeOf (n + 1) (q.scripts m) ≤ q.feeOf n (q.scripts m) + ⌈1118 * q.feerate⌉ := by
  have hceil := Int.ceil_add_le
    ((computeMass n (q.scripts m) q.payloadLen : ℚ) * q.feerate) (1118 * q.feerate)
  have hmass : ((computeMass (n + 1) (q.scripts m) q.payloadLen : ℤ) : ℚ) * q.feerate =
      (computeMass n (q.scripts m) q.payloadLen : ℚ) * q.feerate + 1118 * q.feerate := by
    rw [computeMass_succ]
    push_cast
    ring
  rw [Request.feeOf, Request.feeOf, hmass]
  omega

theorem feeOf_mono (hq : q.Sound) {n n' m m' : ℕ} (hn : n ≤ n') (hm : m ≤ m') :
    q.feeOf n (q.scripts m) ≤ q.feeOf n' (q.scripts m') := by
  have hlen := hq.outputScriptLen
  have houts : (m : ℤ) * (38 + 11 * q.outputScriptLen) ≤ m' * (38 + 11 * q.outputScriptLen) :=
    mul_le_mul_of_nonneg_right (by exact_mod_cast hm) (by omega)
  have hmass : computeMass n (q.scripts m) q.payloadLen ≤
      computeMass n' (q.scripts m') q.payloadLen := by
    rw [computeMass_scripts, computeMass_scripts]
    omega
  have hceil : ⌈(computeMass n (q.scripts m) q.payloadLen : ℚ) * q.feerate⌉ ≤
      ⌈(computeMass n' (q.scripts m') q.payloadLen : ℚ) * q.feerate⌉ :=
    Int.ceil_le_ceil (mul_le_mul_of_nonneg_right (by exact_mod_cast hmass) hq.feerate)
  rw [Request.feeOf, Request.feeOf]
  omega

theorem inputs_le_feeOf (hq : q.Sound) (n m : ℕ) :
    n * (1118 * q.feerate) ≤ q.feeOf n (q.scripts m) := by
  have hrate := hq.feerate
  have hlen := hq.outputScriptLen
  have hpayload := hq.payloadLen
  have hpriority := hq.priorityFee
  have houts : 0 ≤ (m : ℤ) * (38 + 11 * q.outputScriptLen) := by positivity
  have hmass : 1118 * (n : ℤ) ≤ computeMass n (q.scripts m) q.payloadLen := by
    rw [computeMass_scripts]
    omega
  have hcost : (1118 * (n : ℚ)) * q.feerate ≤
      (computeMass n (q.scripts m) q.payloadLen : ℚ) * q.feerate :=
    mul_le_mul_of_nonneg_right (by exact_mod_cast hmass) hrate
  have hceil := Int.le_ceil ((computeMass n (q.scripts m) q.payloadLen : ℚ) * q.feerate)
  have hpriority' : (0 : ℚ) ≤ q.priorityFee := by exact_mod_cast hpriority
  rw [Request.feeOf]
  push_cast
  linarith

theorem Estimated.cases (h : Estimated q inputs est) :
    (0 < q.changeOf inputs (q.scripts 2) ∧ est.fee = q.feeOf inputs.length (q.scripts 2) ∧
        est.change = q.changeOf inputs (q.scripts 2) ∧ est.nOutputs = 2) ∨
      (q.changeOf inputs (q.scripts 2) ≤ 0 ∧ est.fee = q.feeOf inputs.length (q.scripts 1) ∧
        est.change = q.changeOf inputs (q.scripts 1) ∧ est.nOutputs = 1) := by
  cases h with
  | withChange hcharge hchange _ =>
    cases hcharge
    exact Or.inl ⟨hchange, rfl, rfl, rfl⟩
  | withoutChange hchange hcharge _ =>
    cases hcharge
    exact Or.inr ⟨hchange, rfl, rfl, rfl⟩

theorem estimated_of_ok (h : estimateFor q inputs = .ok est) : Estimated q inputs est := by
  rcases hcharge : q.charge inputs [q.outputScriptLen, q.outputScriptLen] with
    ⟨cm, minimumFee, fee, change⟩
  rcases hcharge' : q.charge inputs [q.outputScriptLen] with ⟨cm', minimumFee', fee', change'⟩
  simp only [estimateFor, hcharge, hcharge'] at h
  split at h
  · rename_i hchange
    cases hsm : storageMass inputs [q.sendAmount] with
    | error e =>
      rw [hsm] at h
      cases h
    | ok sm =>
      rw [hsm] at h
      cases h
      exact .withoutChange (by rw [hcharge]; exact hchange) hcharge' hsm
  · rename_i hchange
    cases hsm : storageMass inputs [q.sendAmount, change] with
    | error e =>
      rw [hsm] at h
      cases h
    | ok sm =>
      rw [hsm] at h
      cases h
      exact .withChange hcharge (not_le.mp hchange) hsm

theorem Estimated.covers_iff (hq : q.Sound) (h : Estimated q inputs est) :
    q.sendAmount + est.fee ≤ inputs.sum ↔ 0 ≤ q.changeOf inputs (q.scripts 1) := by
  have hfee := feeOf_mono hq (le_refl inputs.length) (show 1 ≤ 2 by decide)
  rcases h.cases with ⟨hchange, hest, -, -⟩ | ⟨-, hest, -, -⟩
  · rw [hest]
    unfold Request.changeOf at hchange ⊢
    omega
  · rw [hest]
    unfold Request.changeOf
    omega

theorem Covers.change (hq : q.Sound) (h : Covers q inputs) :
    0 ≤ q.changeOf inputs (q.scripts 1) := by
  obtain ⟨est, hest, hcovers⟩ := h
  exact ((estimated_of_ok hest).covers_iff hq).mp hcovers

theorem ne_nil_of_change (hq : q.Sound) (hsend : 0 < q.sendAmount)
    (h : 0 ≤ q.changeOf inputs (q.scripts 1)) : inputs ≠ [] := by
  rintro rfl
  have hfee := inputs_le_feeOf hq 0 1
  have hfee' : (0 : ℚ) ≤ q.feeOf 0 (q.scripts 1) := by simpa using hfee
  have hfee'' : 0 ≤ q.feeOf 0 (q.scripts 1) := by exact_mod_cast hfee'
  simp only [Request.changeOf, List.sum_nil, List.length_nil] at h
  omega

theorem sum_le_length_mul (hsorted : (ys ++ [a]).Pairwise (· ≤ ·)) : ys.sum ≤ ys.length * a := by
  have hle : ∀ v ∈ ys, v ≤ a := by
    intro v hv
    exact (List.pairwise_append.mp hsorted).2.2 v hv a (by simp)
  simpa using List.sum_le_card_nsmul ys a hle

/-- After coins that pay for themselves, the next one pays for its input. -/
theorem input_cost_le (hq : q.Sound) (hsend : 0 < q.sendAmount)
    (hsorted : (ys ++ [a]).Pairwise (· ≤ ·)) (hchange : 0 ≤ q.changeOf ys (q.scripts 1)) :
    ⌈1118 * q.feerate⌉ ≤ a := by
  have hne := ne_nil_of_change hq hsend hchange
  have hlength : (0 : ℚ) < ys.length := by exact_mod_cast List.length_pos_iff.mpr hne
  have hfee : q.feeOf ys.length (q.scripts 1) ≤ ys.length * a := by
    have hmean := sum_le_length_mul hsorted
    unfold Request.changeOf at hchange
    omega
  have hfee' : (q.feeOf ys.length (q.scripts 1) : ℚ) ≤ ys.length * a := by exact_mod_cast hfee
  have hcost := inputs_le_feeOf hq ys.length 1
  rw [Int.ceil_le]
  exact le_of_mul_le_mul_left (hcost.trans hfee') hlength

theorem changeOf_concat (hq : q.Sound) (hsend : 0 < q.sendAmount)
    (hsorted : (ys ++ [a]).Pairwise (· ≤ ·)) (hchange : 0 ≤ q.changeOf ys (q.scripts 1)) (m : ℕ) :
    q.changeOf ys (q.scripts m) ≤ q.changeOf (ys ++ [a]) (q.scripts m) := by
  have hcost := input_cost_le hq hsend hsorted hchange
  have hfee := feeOf_succ_le q ys.length m
  simp only [Request.changeOf, List.sum_append, List.sum_singleton, List.length_append,
    List.length_singleton]
  omega

theorem changeOf_append (hq : q.Sound) (hsend : 0 < q.sendAmount)
    (hsorted : (ys ++ rest).Pairwise (· ≤ ·)) (hchange : 0 ≤ q.changeOf ys (q.scripts 1)) (m : ℕ) :
    q.changeOf ys (q.scripts m) ≤ q.changeOf (ys ++ rest) (q.scripts m) := by
  induction rest generalizing ys with
  | nil => rw [List.append_nil]
  | cons a rest ih =>
    have happend : ys ++ a :: rest = (ys ++ [a]) ++ rest := by simp
    rw [happend] at hsorted ⊢
    have hone := changeOf_concat hq hsend (List.pairwise_append.mp hsorted).1 hchange
    exact (hone m).trans (ih hsorted (hchange.trans (hone 1)))

/-- What is covered stays covered with more coins, at a fee that is not lower. -/
theorem Covers.append (hq : q.Sound) (hsend : 0 < q.sendAmount)
    (hsorted : (ys ++ rest).Pairwise (· ≤ ·)) (hpos : ∀ v ∈ ys ++ rest, 0 < v)
    (hest : estimateFor q ys = .ok est) (hcovers : q.sendAmount + est.fee ≤ ys.sum) :
    ∃ est', estimateFor q (ys ++ rest) = .ok est' ∧ est.fee ≤ est'.fee ∧
      est.nOutputs ≤ est'.nOutputs ∧ q.sendAmount + est'.fee ≤ (ys ++ rest).sum := by
  have hestimated := estimated_of_ok hest
  have hchange := (hestimated.covers_iff hq).mp hcovers
  have hmore := changeOf_append hq hsend hsorted hchange
  have hne : ys ++ rest ≠ [] := by simp [ne_nil_of_change hq hsend hchange]
  obtain ⟨est', hest', hestimated'⟩ := estimateFor_ok hsend hne hpos
  have hlength : ys.length ≤ (ys ++ rest).length := by simp
  have hbound := (hestimated'.covers_iff hq).mpr (hchange.trans (hmore 1))
  refine ⟨est', hest', ?_, ?_, hbound⟩
  · rcases hestimated.cases with ⟨htwo, hfee, -, -⟩ | ⟨-, hfee, -, -⟩
    · rcases hestimated'.cases with ⟨-, hfee', -, -⟩ | ⟨hone', -, -, -⟩
      · rw [hfee, hfee']
        exact feeOf_mono hq hlength le_rfl
      · have htwo' := hmore 2
        omega
    · rcases hestimated'.cases with ⟨-, hfee', -, -⟩ | ⟨-, hfee', -, -⟩
      · rw [hfee, hfee']
        exact feeOf_mono hq hlength (by decide)
      · rw [hfee, hfee']
        exact feeOf_mono hq hlength le_rfl
  · have htwo' := hmore 2
    rcases hestimated.cases with ⟨htwo, -, -, hn⟩ | ⟨-, -, -, hn⟩ <;>
      rcases hestimated'.cases with ⟨-, -, -, hn'⟩ | ⟨hone', -, -, hn'⟩ <;> omega

theorem Estimated.change_nonneg_iff (hq : q.Sound) (h : Estimated q inputs est) :
    0 ≤ est.change ↔ 0 ≤ q.changeOf inputs (q.scripts 1) := by
  have hbalance := h.balance
  rw [← h.covers_iff hq]
  omega

theorem covers_iff (hq : q.Sound) (hsend : 0 < q.sendAmount) (hne : inputs ≠ [])
    (hpos : ∀ v ∈ inputs, 0 < v) :
    Covers q inputs ↔ 0 ≤ q.changeOf inputs (q.scripts 1) := by
  constructor
  · exact Covers.change hq
  · intro hchange
    obtain ⟨est, hest, hestimated⟩ := estimateFor_ok hsend hne hpos
    exact ⟨est, hest, (hestimated.covers_iff hq).mpr hchange⟩

theorem changeOf_perm (h : ys.Perm zs) (lens : List ℤ) :
    q.changeOf ys lens = q.changeOf zs lens := by
  rw [Request.changeOf, Request.changeOf, h.sum_eq, h.length_eq]

/-- Some of the coins in ascending order cover exactly when all of them do. -/
theorem prefix_covers_iff (hq : q.Sound) (hsend : 0 < q.sendAmount) (hne : utxos ≠ [])
    (hpos : ∀ v ∈ utxos, 0 < v) :
    (∃ ys, ys <+: sortedAmounts utxos ∧ Covers q ys) ↔ Covers q utxos := by
  have hperm := sortedAmounts_perm utxos
  have hpos' : ∀ v ∈ sortedAmounts utxos, 0 < v := fun v hv => hpos v (hperm.mem_iff.mp hv)
  have hne' : sortedAmounts utxos ≠ [] := fun hnil => hne (hnil ▸ hperm).nil_eq.symm
  have hwhole : Covers q (sortedAmounts utxos) ↔ Covers q utxos := by
    rw [covers_iff hq hsend hne' hpos', covers_iff hq hsend hne hpos, changeOf_perm hperm]
  rw [← hwhole]
  constructor
  · rintro ⟨ys, ⟨rest, hrest⟩, est, hest, hcovers⟩
    have hsorted := sortedAmounts_pairwise utxos
    rw [← hrest] at hsorted hpos' ⊢
    obtain ⟨est', hest', -, -, hcovers'⟩ := Covers.append hq hsend hsorted hpos' hest hcovers
    exact ⟨est', hest', hcovers'⟩
  · exact fun h => ⟨_, List.prefix_rfl, h⟩

theorem estimateFee_all (q : Request) (hne : utxos ≠ []) (hpos : ∀ v ∈ utxos, 0 < v)
    (hsend : 0 < q.sendAmount) :
    ∃ est, estimateFee q false utxos = .ok est ∧ estimateFor q utxos = .ok est := by
  obtain ⟨est, hfee, hfound⟩ := estimateFee_found q false hne hpos hsend
  rcases hfound with ⟨ys, hshortest, -⟩ | ⟨-, hest⟩
  · obtain ⟨r, -, haccept⟩ := hshortest.holds
    simp at haccept
  · exact ⟨est, hfee, hest⟩

/-- With more of the coins in ascending order what is covered stays covered, and selection finds
sufficient funds exactly when the whole set has them: when some of the coins in this order cover
the send amount and their fee. -/
theorem selection_sufficient_iff (q : Request) (utxos : List ℤ) (hne : utxos ≠ [])
    (hpos : ∀ v ∈ utxos, 0 < v) (hsend : 0 < q.sendAmount) (hq : q.Sound) :
    (∀ ys zs, ys <+: zs → zs <+: sortedAmounts utxos → ∀ est, estimateFor q ys = .ok est →
      q.sendAmount + est.fee ≤ ys.sum →
      ∃ est', estimateFor q zs = .ok est' ∧ est.fee ≤ est'.fee ∧
        q.sendAmount + est'.fee ≤ zs.sum) ∧
    ∃ est est', estimateFee q true utxos = .ok est ∧ estimateFee q false utxos = .ok est' ∧
      (0 ≤ est.change ↔ 0 ≤ est'.change) ∧
      (0 ≤ est.change ↔ ∃ ys, ys <+: sortedAmounts utxos ∧ Covers q ys) ∧
      (0 ≤ est'.change ↔ Covers q utxos) := by
  have hperm := sortedAmounts_perm utxos
  have hsorted := sortedAmounts_pairwise utxos
  have hpos' : ∀ v ∈ sortedAmounts utxos, 0 < v := fun v hv => hpos v (hperm.mem_iff.mp hv)
  constructor
  · rintro ys zs ⟨rest, rfl⟩ hzs est hest hcovers
    have hzpos : ∀ v ∈ ys ++ rest, 0 < v := fun v hv => hpos' v (hzs.subset hv)
    obtain ⟨est', hest', hfee, -, hcovers'⟩ :=
      Covers.append hq hsend (hsorted.sublist hzs.sublist) hzpos hest hcovers
    exact ⟨est', hest', hfee, hcovers'⟩
  · obtain ⟨est', hall, hest'⟩ := estimateFee_all q hne hpos hsend
    obtain ⟨est, hselect, hfound⟩ := estimateFee_found q true hne hpos hsend
    have hset : 0 ≤ est'.change ↔ Covers q utxos := by
      rw [(estimated_of_ok hest').change_nonneg_iff hq, covers_iff hq hsend hne hpos]
    have hsame : 0 ≤ est.change ↔ 0 ≤ est'.change := by
      rw [(estimated_of_ok hest').change_nonneg_iff hq, ← changeOf_perm hperm]
      rcases hfound with ⟨ys, hshortest, hest⟩ | ⟨-, hest⟩
      · obtain ⟨r, hr, haccept⟩ := hshortest.holds
        rw [hest] at hr
        cases hr
        obtain ⟨rest, hrest⟩ := hshortest.isPrefix
        have hwhole : ys ++ rest = sortedAmounts utxos := hrest
        have hestimated := estimated_of_ok hest
        have hchange : 0 ≤ est.change := (hestimated.accepts_iff.mp haccept).1
        have hcovered := (hestimated.change_nonneg_iff hq).mp hchange
        refine iff_of_true hchange (hcovered.trans ?_)
        rw [← hwhole] at hsorted ⊢
        exact changeOf_append hq hsend hsorted hcovered 1
      · exact (estimated_of_ok hest).change_nonneg_iff hq
    refine ⟨est, est', hselect, hall, hsame, ?_, hset⟩
    rw [hsame, hset, prefix_covers_iff hq hsend hne hpos]

/-- Two coins are needed of three, and the three suffice too. -/
theorem selection_sufficient_three :
    ∃ est est', estimateFee ⟨4000000000000, 100, 10000, 34, 0⟩ true
        [3000000000000, 5000000000000, 2000000000000] = .ok est ∧
      estimateFee ⟨4000000000000, 100, 10000, 34, 0⟩ false
        [3000000000000, 5000000000000, 2000000000000] = .ok est' ∧
      (0 ≤ est.change ↔ 0 ≤ est'.change) ∧
      (0 ≤ est.change ↔
        ∃ ys, ys <+: sortedAmounts [3000000000000, 5000000000000, 2000000000000] ∧
          Covers ⟨4000000000000, 100, 10000, 34, 0⟩ ys) ∧
      (0 ≤ est'.change ↔
        Covers ⟨4000000000000, 100, 10000, 34, 0⟩
          [3000000000000, 5000000000000, 2000000000000]) :=
  (selection_sufficient_iff ⟨4000000000000, 100, 10000, 34, 0⟩
    [3000000000000, 5000000000000, 2000000000000] (by simp) (by simp) (by simp)
    ⟨by simp, by simp, by simp, by simp⟩).2

end Taas.SimpleFeeEstimator
