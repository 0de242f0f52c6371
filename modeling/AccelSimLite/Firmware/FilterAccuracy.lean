import AccelSimLite.Firmware.FixedPointFilter

/-!
# The accuracy of the fixed-point filter

Both terms of an update are rounded down, so the filter runs behind the exact one. What
it loses in a step decays with the average, and adds up to less than two units divided
by the coefficient.

## Main definitions

- `FirmwareValidation.samples` — the samples as numbers

## Main results

- `FirmwareValidation.rounded_filterAfter` — the states are averages rounded down
- `FirmwareValidation.filter_sequence_accuracy` — the distance from the exact average
-/

namespace AccelSim

namespace FirmwareValidation

/-- The samples, as rational numbers in units of 1/256. -/
def samples (inputs : List Int16) : List ℚ := inputs.map fun x => x.toInt

/-- The states are averages of the samples that lose less than two units in a step. -/
theorem rounded_filterAfter {alpha : Int16} (hnonneg : 0 ≤ alpha.toInt)
    (hle : alpha.toInt ≤ 256) (inputs : List Int16) :
    ExponentialAverage.Rounded (alpha.toInt / 256 : ℚ) 2 (samples inputs)
      (filterAfter alpha inputs).state.toInt := by
  induction inputs using List.reverseRecOn with
  | nil => exact .zero
  | append_singleton inputs x ih =>
    have halpha := alpha_filterAfter alpha inputs
    obtain ⟨error, herror, hupdate⟩ :=
      (filterAfter alpha inputs).update_eq_next (by rwa [halpha]) (by rwa [halpha]) x
    rw [halpha] at hupdate
    rw [filterAfter_concat, hupdate, samples, List.map_append]
    exact .step ih herror

/-- There is an output for every sample. It is never above the exact average of the samples
    so far, and less than `512 / alpha` units below it. -/
theorem filter_sequence_accuracy {alpha : Int16} (hpos : 1 ≤ alpha.toInt)
    (hle : alpha.toInt ≤ 256) (inputs : List Int16) :
    (runFilterSequence inputs alpha).length = inputs.length ∧
      ∀ i y, (runFilterSequence inputs alpha)[i]? = some y →
        ExponentialAverage.average (alpha.toInt / 256 : ℚ) (samples (inputs.take (i + 1))) -
          y.toInt ∈ Set.Ico (0 : ℚ) (512 / alpha.toInt) := by
  refine ⟨length_runFilterSequence inputs alpha, fun i y hy => ?_⟩
  have ha : (1 : ℚ) ≤ alpha.toInt := by exact_mod_cast hpos
  have ha' : (alpha.toInt : ℚ) ≤ 256 := by exact_mod_cast hle
  have herror := (rounded_filterAfter (by omega) hle (inputs.take (i + 1))).error_mem_Ico
    (by linarith) (by linarith) (by norm_num)
  have hbound : (2 : ℚ) / (alpha.toInt / 256) = 512 / alpha.toInt := by
    rw [div_div_eq_mul_div]
    norm_num
  rw [getElem?_runFilterSequence hy, ← hbound]
  exact herror

theorem filter_sequence_accuracy_reference :
    (1 ≤ (128 : Int16).toInt ∧ (128 : Int16).toInt ≤ 256 ∧
        (runFilterSequence [256, 256, 512, 0] 128)[2]? = some 352) ∧
      (runFilterSequence [256, 256, 512, 0] 128).length = 4 ∧
      ExponentialAverage.average ((128 : Int16).toInt / 256 : ℚ)
          (samples (([256, 256, 512, 0] : List Int16).take 3)) - (352 : Int16).toInt ∈
        Set.Ico (0 : ℚ) (512 / (128 : Int16).toInt) := by
  have hpos : 1 ≤ (128 : Int16).toInt := by decide
  have hle : (128 : Int16).toInt ≤ 256 := by decide
  have hrun : runFilterSequence [256, 256, 512, 0] 128 = [128, 192, 352, 176] := by decide
  have hy : (runFilterSequence [256, 256, 512, 0] 128)[2]? = some 352 := by
    rw [hrun]
    rfl
  obtain ⟨hlength, haccuracy⟩ := filter_sequence_accuracy hpos hle [256, 256, 512, 0]
  exact ⟨⟨hpos, hle, hy⟩, hlength, haccuracy 2 352 hy⟩

end FirmwareValidation

end AccelSim
