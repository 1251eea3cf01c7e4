import Taas.FeeSufficiency

/-!
The storage mass when a coin is added. KIP-9 adds a term for each output and takes off one for the
inputs: the sum of theirs in its relaxed form, and one of their mean otherwise. The latter falls
when the new coin is much larger than the others, and a first change output adds its term.
-/
namespace Taas.SimpleFeeEstimator

def inputTerm (inputs : List ℤ) (nOutputs : ℕ) : ℤ :=
  if (nOutputs ≤ inputs.length ∧ inputs.length ≤ 2) ∨ nOutputs = 1 then
    (inputs.map storageMassParameter.fdiv).sum
  else (storageMassParameter * inputs.length ^ 2).fdiv inputs.sum

/-- What the change output adds, if there is one. -/
def FeeEstimate.changeTerm (est : FeeEstimate) : ℤ :=
  if est.nOutputs = 2 then storageMassParameter.fdiv est.change else 0

variable {q : Request} {inputs ys : List ℤ} {est est' : FeeEstimate} {a : ℤ}

theorem storageMass_eq {outputs : List ℤ} (hne : inputs ≠ []) (hin : ∀ v ∈ inputs, 0 < v)
    (hout : ∀ v ∈ outputs, 0 < v) : storageMass inputs outputs =
      .ok (max 0 ((outputs.map storageMassParameter.fdiv).sum -
        inputTerm inputs outputs.length)) := by
  have hsum : 0 < inputs.sum := List.sum_pos inputs hin hne
  rw [storageMass, harmonic_ok hin, harmonic_ok hout, floorDiv_ok _ hsum, inputTerm]
  by_cases hrelaxed : (outputs.length ≤ inputs.length ∧ inputs.length ≤ 2) ∨ outputs.length = 1
  · rw [if_pos hrelaxed]
    exact if_pos hrelaxed
  · rw [if_neg hrelaxed]
    exact if_neg hrelaxed

theorem Estimated.storageMass_eq (h : Estimated q inputs est) (hsend : 0 < q.sendAmount)
    (hne : inputs ≠ []) (hpos : ∀ v ∈ inputs, 0 < v) :
    est.storageMass = max 0 (storageMassParameter.fdiv q.sendAmount + est.changeTerm -
      inputTerm inputs est.nOutputs) := by
  cases h with
  | @withChange cm minimumFee fee change sm hcharge hchange hsm =>
    have hout : ∀ v ∈ [q.sendAmount, change], 0 < v := by simp [hsend, hchange]
    rw [SimpleFeeEstimator.storageMass_eq hne hpos hout] at hsm
    cases hsm
    simp [FeeEstimate.changeTerm]
  | withoutChange hchange hcharge hsm =>
    have hout : ∀ v ∈ [q.sendAmount], 0 < v := by simp [hsend]
    rw [SimpleFeeEstimator.storageMass_eq hne hpos hout] at hsm
    cases hsm
    simp [FeeEstimate.changeTerm]

theorem fdiv_nonneg {v : ℤ} (hv : 0 < v) : 0 ≤ storageMassParameter.fdiv v :=
  Int.fdiv_nonneg (by decide) hv.le

theorem fdiv_anti {v w : ℤ} (hv : 0 < v) (hvw : v ≤ w) :
    storageMassParameter.fdiv w ≤ storageMassParameter.fdiv v := by
  have hw := hv.trans_le hvw
  have hnonneg := fdiv_nonneg hw
  rw [Int.fdiv_eq_ediv_of_nonneg _ hw.le] at hnonneg ⊢
  rw [Int.fdiv_eq_ediv_of_nonneg _ hv.le, Int.le_ediv_iff_mul_le hv]
  have hself := Int.ediv_mul_le storageMassParameter hw.ne'
  exact (mul_le_mul_of_nonneg_left hvw hnonneg).trans hself

theorem inputTerm_one (inputs : List ℤ) :
    inputTerm inputs 1 = (inputs.map storageMassParameter.fdiv).sum := if_pos (Or.inr rfl)

theorem inputTerm_one_concat (ys : List ℤ) (ha : 0 < a) :
    inputTerm ys 1 ≤ inputTerm (ys ++ [a]) 1 := by
  have hterm := fdiv_nonneg ha
  rw [inputTerm_one, inputTerm_one, List.map_append, List.sum_append]
  simpa using hterm

theorem inputTerm_second {b : ℤ} (ha : 0 < a) : inputTerm [b] 2 ≤ inputTerm [b, a] 2 := by
  have hterm := fdiv_nonneg ha
  have hfirst : inputTerm [b] 2 = storageMassParameter.fdiv b := by simp [inputTerm]
  have hboth : inputTerm [b, a] 2 =
      storageMassParameter.fdiv b + storageMassParameter.fdiv a := by simp [inputTerm]
  omega

/-- So does an input that joins three or more and is not far above their mean. -/
theorem inputTerm_near_mean (hlength : 3 ≤ ys.length) (hsum : 0 < ys.sum) (ha : 0 < a)
    (hmean : a * ys.length ^ 2 ≤ (2 * ys.length + 1) * ys.sum) :
    inputTerm ys 2 ≤ inputTerm (ys ++ [a]) 2 := by
  have hstandard : ∀ zs : List ℤ, 3 ≤ zs.length → inputTerm zs 2 =
      (storageMassParameter * zs.length ^ 2).fdiv zs.sum := by
    intro zs hzs
    refine if_neg ?_
    omega
  rw [hstandard ys hlength, hstandard (ys ++ [a]) (by simp; omega), List.sum_append,
    List.sum_singleton, List.length_append, List.length_singleton]
  generalize hk : (ys.length : ℤ) = k at hmean ⊢
  have hkpos : 0 < k := by omega
  have hC : 0 < storageMassParameter := by decide
  push_cast
  rw [hk, Int.fdiv_eq_ediv_of_nonneg _ hsum.le, Int.fdiv_eq_ediv_of_nonneg _ (by omega),
    Int.le_ediv_iff_mul_le (by omega)]
  set x := storageMassParameter * k ^ 2 / ys.sum with hx
  have hxnonneg : 0 ≤ x := Int.ediv_nonneg (by positivity) hsum.le
  have hself : x * ys.sum ≤ storageMassParameter * k ^ 2 :=
    Int.ediv_mul_le _ hsum.ne'
  have hscaled : (x * (ys.sum + a)) * k ^ 2 ≤ (storageMassParameter * (k + 1) ^ 2) * k ^ 2 := by
    calc (x * (ys.sum + a)) * k ^ 2 = x * (ys.sum * k ^ 2 + a * k ^ 2) := by ring
      _ ≤ x * (ys.sum * (k + 1) ^ 2) := by
        refine mul_le_mul_of_nonneg_left ?_ hxnonneg
        linarith
      _ = (x * ys.sum) * (k + 1) ^ 2 := by ring
      _ ≤ (storageMassParameter * k ^ 2) * (k + 1) ^ 2 :=
        mul_le_mul_of_nonneg_right hself (by positivity)
      _ = (storageMassParameter * (k + 1) ^ 2) * k ^ 2 := by ring
  exact le_of_mul_le_mul_right hscaled (by positivity)

/-- When the coin `a` does not raise the storage mass. The last three fields are the cases in which
it never does. -/
structure NextStorageMass (ys : List ℤ) (a : ℤ) (est est' : FeeEstimate) : Prop where
  outputs : est.nOutputs ≤ est'.nOutputs
  le_iff : est'.storageMass ≤ est.storageMass ↔ est'.storageMass = 0 ∨
    est'.changeTerm + inputTerm ys est.nOutputs ≤
      est.changeTerm + inputTerm (ys ++ [a]) est'.nOutputs
  oneOutput : est'.nOutputs = 1 → est'.storageMass ≤ est.storageMass
  secondInput : est.nOutputs = 2 → ys.length = 1 → est'.storageMass ≤ est.storageMass
  nearMean : est.nOutputs = 2 → 3 ≤ ys.length →
    a * ys.length ^ 2 ≤ (2 * ys.length + 1) * ys.sum → est'.storageMass ≤ est.storageMass

theorem Estimated.nOutputs (h : Estimated q inputs est) : est.nOutputs = 1 ∨ est.nOutputs = 2 := by
  cases h with
  | withChange _ _ _ => exact Or.inr rfl
  | withoutChange _ _ _ => exact Or.inl rfl

theorem Estimated.change_of_two (h : Estimated q inputs est) (hn : est.nOutputs = 2) :
    0 < est.change ∧ est.change = q.changeOf inputs (q.scripts 2) := by
  rcases h.cases with ⟨hpos, -, hchange, -⟩ | ⟨-, -, -, hone⟩
  · rw [hchange]
    exact ⟨hpos, rfl⟩
  · omega

theorem changeTerm_concat (hq : q.Sound) (hsend : 0 < q.sendAmount)
    (hsorted : (ys ++ [a]).Pairwise (· ≤ ·)) (h : Estimated q ys est)
    (h' : Estimated q (ys ++ [a]) est') (hcovers : q.sendAmount + est.fee ≤ ys.sum)
    (hn : est.nOutputs = 2) (hn' : est'.nOutputs = 2) : est'.changeTerm ≤ est.changeTerm := by
  have hchange := changeOf_concat hq hsend hsorted ((h.covers_iff hq).mp hcovers) 2
  obtain ⟨hpos, heq⟩ := h.change_of_two hn
  obtain ⟨-, heq'⟩ := h'.change_of_two hn'
  rw [FeeEstimate.changeTerm, FeeEstimate.changeTerm, if_pos hn, if_pos hn']
  apply fdiv_anti hpos
  omega

/-- The storage mass of the next longer prefix is at most that of a prefix that covers exactly when
the term of the inputs grows by what the change output adds, or nothing is left of it. -/
theorem next_storage_mass (q : Request) (ys : List ℤ) (a : ℤ)
    (hsorted : (ys ++ [a]).Pairwise (· ≤ ·)) (hpos : ∀ v ∈ ys ++ [a], 0 < v)
    (hsend : 0 < q.sendAmount) (hq : q.Sound) (est : FeeEstimate)
    (hest : estimateFor q ys = .ok est) (hcovers : q.sendAmount + est.fee ≤ ys.sum) :
    ∃ est', estimateFor q (ys ++ [a]) = .ok est' ∧ NextStorageMass ys a est est' := by
  obtain ⟨est', hest', -, houtputs, -⟩ := Covers.append hq hsend hsorted hpos hest hcovers
  have h := estimated_of_ok hest
  have h' := estimated_of_ok hest'
  have hne : ys ≠ [] := ne_nil_of_change hq hsend ((h.covers_iff hq).mp hcovers)
  have hypos : ∀ v ∈ ys, 0 < v := fun v hv => hpos v (List.mem_append_left _ hv)
  have ha : 0 < a := hpos a (by simp)
  have hsum : 0 < ys.sum := List.sum_pos ys hypos hne
  have hsm := h.storageMass_eq hsend hne hypos
  have hsm' := h'.storageMass_eq hsend (by simp) hpos
  have hchange := changeTerm_concat hq hsend hsorted h h' hcovers
  have htwo : est.nOutputs = 2 → est'.nOutputs = 2 := by
    intro hn
    have hcases := h'.nOutputs
    omega
  have hle : est'.changeTerm + inputTerm ys est.nOutputs ≤
      est.changeTerm + inputTerm (ys ++ [a]) est'.nOutputs →
      est'.storageMass ≤ est.storageMass := by omega
  refine ⟨est', hest', houtputs, ?_, ?_, ?_, ?_⟩
  · omega
  · intro hone'
    have hone : est.nOutputs = 1 := by
      have hcases := h.nOutputs
      omega
    have hterm := inputTerm_one_concat ys ha
    apply hle
    rw [hone, hone', FeeEstimate.changeTerm, FeeEstimate.changeTerm, if_neg (by omega),
      if_neg (by omega)]
    omega
  · intro hn hlength
    obtain ⟨b, rfl⟩ := List.length_eq_one_iff.mp hlength
    have hterm := inputTerm_second (b := b) ha
    have hadds := hchange hn (htwo hn)
    apply hle
    rw [hn, htwo hn, List.singleton_append]
    omega
  · intro hn hlength hmean
    have hterm := inputTerm_near_mean hlength hsum ha hmean
    have hadds := hchange hn (htwo hn)
    apply hle
    rw [hn, htwo hn]
    omega

/-- A second coin of the same amount. -/
theorem next_storage_mass_second :
    ∃ est', estimateFor { sendAmount := 100000000 } ([1000000000] ++ [1000000000]) = .ok est' ∧
      NextStorageMass [1000000000] 1000000000
        ⟨2036, 10111, 10111, 203600, 203600, 899796400, 1, 2⟩ est' :=
  next_storage_mass { sendAmount := 100000000 } [1000000000] 1000000000 (by simp) (by simp)
    (by decide) ⟨by decide, by decide, by decide, by decide⟩ _ (by decide +kernel) (by decide)

/-- Two coins have a storage mass above their compute mass, so a third is added, and with it the
storage mass rises. -/
theorem third_coin_raises :
    estimateFor { sendAmount := 100000000 } [1000000000, 1000000000000] =
      .ok ⟨3154, 8999, 8999, 315400, 315400, 1000899684600, 2, 2⟩ ∧
    estimateFee { sendAmount := 100000000 } true [1000000000, 1000000000000, 1000000000000] =
      .ok ⟨4272, 9996, 9996, 427200, 427200, 2000899572800, 3, 2⟩ ∧
    ¬ ∀ (q : Request) ys a est est', (ys ++ [a]).Pairwise (· ≤ ·) → (∀ v ∈ ys ++ [a], 0 < v) →
      0 < q.sendAmount → q.Sound → estimateFor q ys = .ok est →
      q.sendAmount + est.fee ≤ ys.sum → estimateFor q (ys ++ [a]) = .ok est' →
      est'.storageMass ≤ est.storageMass := by
  have htwo : estimateFor { sendAmount := 100000000 } [1000000000, 1000000000000] =
      .ok ⟨3154, 8999, 8999, 315400, 315400, 1000899684600, 2, 2⟩ := by decide +kernel
  have hthree : estimateFor { sendAmount := 100000000 }
      ([1000000000, 1000000000000] ++ [1000000000000]) =
        .ok ⟨4272, 9996, 9996, 427200, 427200, 2000899572800, 3, 2⟩ := by decide +kernel
  refine ⟨htwo, by decide +kernel, fun h => ?_⟩
  have hle := h { sendAmount := 100000000 } [1000000000, 1000000000000] 1000000000000 _ _
    (by simp) (by simp) (by decide) ⟨by decide, by decide, by decide, by decide⟩ htwo (by decide)
    hthree
  exact absurd hle (by decide)

end Taas.SimpleFeeEstimator
