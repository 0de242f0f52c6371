import AccelSimLite.Lib.ExponentialAverage
import Mathlib.Algebra.Order.Field.Rat
import Mathlib.Algebra.Order.Ring.Abs
import Mathlib.Algebra.Order.Ring.Int
import Mathlib.Data.List.Induction
import Mathlib.Tactic.NormNum

/-!
# The fixed-point filter

A model of the one-pole filter on `Q8.8` numbers, in the machine integers of the code.
With a coefficient between 0 and 1 nothing is cut off when a result is narrowed: the
two terms of an update are rounded down apart, and their sum stays between the smallest
and the largest 16-bit value.

## Main definitions

- `FirmwareValidation.q88Mul` — the product
- `FirmwareValidation.FixedPointFilter.update` — one sample
- `FirmwareValidation.runFilterSequence` — a sequence of samples
- `FirmwareValidation.ExactUpdate` — an update without an overflow

## Main results

- `FirmwareValidation.FixedPointFilter.exactUpdate` — every update is exact
- `FirmwareValidation.filter_sequence_exact` — so is a run, and its outputs are bounded
-/

namespace AccelSim

namespace FirmwareValidation

/-! ### The filter -/

def q88Mul (a b : Int16) : Int16 :=
  let product := a.toInt32 * b.toInt32
  (product >>> 8).toInt16

structure FixedPointFilter where
  alpha : Int16
  state : Int16 := 0
  deriving DecidableEq

def oneQ88 : Int16 := 256

namespace FixedPointFilter

def inverseAlpha (filter : FixedPointFilter) : Int16 :=
  (oneQ88.toInt32 - filter.alpha.toInt32).toInt16

def update (filter : FixedPointFilter) (input : Int16) : FixedPointFilter :=
  let inputTerm := q88Mul filter.alpha input
  let stateTerm := q88Mul filter.inverseAlpha filter.state
  { filter with state := (inputTerm.toInt32 + stateTerm.toInt32).toInt16 }

@[simp] theorem alpha_update (filter : FixedPointFilter) (input : Int16) :
    (filter.update input).alpha = filter.alpha := by
  simp only [update]

end FixedPointFilter

/-- The body of the loop, on the filter and the outputs. -/
def filterStep (s : FixedPointFilter × List Int16) (sample : Int16) :
    FixedPointFilter × List Int16 :=
  let filter := s.1.update sample
  (filter, s.2 ++ [filter.state])

def runFilterSequence (inputs : List Int16) (alpha : Int16) : List Int16 :=
  (inputs.foldl filterStep ({ alpha := alpha }, [])).2

example : runFilterSequence [256, 256, 512, 0] 128 = [128, 192, 352, 176] := by decide

/-- The filter after some samples. -/
def filterAfter (alpha : Int16) (inputs : List Int16) : FixedPointFilter :=
  inputs.foldl FixedPointFilter.update { alpha := alpha }

/-! ### The sequence of outputs -/

theorem foldl_filterStep_fst (inputs : List Int16) (s : FixedPointFilter × List Int16) :
    (inputs.foldl filterStep s).1 = inputs.foldl FixedPointFilter.update s.1 := by
  induction inputs generalizing s with
  | nil => rfl
  | cons x inputs ih => rw [List.foldl_cons, ih, List.foldl_cons, filterStep]

theorem filterAfter_concat (alpha : Int16) (inputs : List Int16) (x : Int16) :
    filterAfter alpha (inputs ++ [x]) = (filterAfter alpha inputs).update x := by
  simp only [filterAfter, List.foldl_append, List.foldl_cons, List.foldl_nil]

theorem runFilterSequence_concat (alpha : Int16) (inputs : List Int16) (x : Int16) :
    runFilterSequence (inputs ++ [x]) alpha =
      runFilterSequence inputs alpha ++ [(filterAfter alpha (inputs ++ [x])).state] := by
  rw [filterAfter_concat, runFilterSequence, List.foldl_append, List.foldl_cons, List.foldl_nil,
    filterStep, foldl_filterStep_fst]
  rfl

theorem length_runFilterSequence (inputs : List Int16) (alpha : Int16) :
    (runFilterSequence inputs alpha).length = inputs.length := by
  induction inputs using List.reverseRecOn with
  | nil => rfl
  | append_singleton inputs x ih => simp [runFilterSequence_concat, ih]

/-- An output is the state after the samples so far. -/
theorem getElem?_runFilterSequence {inputs : List Int16} {alpha y : Int16} {i : ℕ}
    (h : (runFilterSequence inputs alpha)[i]? = some y) :
    y = (filterAfter alpha (inputs.take (i + 1))).state := by
  induction inputs using List.reverseRecOn with
  | nil => cases h
  | append_singleton inputs x ih =>
    rw [runFilterSequence_concat] at h
    have hlength := length_runFilterSequence inputs alpha
    by_cases hi : i < inputs.length
    · rw [List.getElem?_append_left (by omega)] at h
      rw [List.take_append_of_le_length (by omega)]
      exact ih h
    · rw [List.getElem?_append_right (by omega), List.getElem?_singleton] at h
      split at h
      · cases h
        rw [List.take_of_length_le (by simp; omega)]
      · cases h

theorem alpha_filterAfter (alpha : Int16) (inputs : List Int16) :
    (filterAfter alpha inputs).alpha = alpha := by
  induction inputs using List.reverseRecOn with
  | nil => rfl
  | append_singleton inputs x ih => rw [filterAfter_concat, FixedPointFilter.alpha_update, ih]

/-! ### Machine integers -/

theorem toInt_shiftRight_eight (x : Int32) : (x >>> 8).toInt = x.toInt / 256 := by
  have hbits : (x >>> 8).toBitVec = x.toBitVec.sshiftRight 8 := rfl
  rw [← Int32.toInt_toBitVec, hbits, BitVec.toInt_sshiftRight, Int.shiftRight_eq_div_pow]
  rfl

theorem toInt_toInt16_of_mem {x : Int32} (hle : -2 ^ 15 ≤ x.toInt) (hlt : x.toInt < 2 ^ 15) :
    x.toInt16.toInt = x.toInt := by
  rw [Int32.toInt_toInt16]
  exact Int.bmod_eq_of_le hle hlt

theorem toInt_mul_toInt32 (a b : Int16) :
    (a.toInt32 * b.toInt32).toInt = a.toInt * b.toInt := by
  have ha : |a.toInt| ≤ 2 ^ 15 := abs_le.mpr ⟨a.le_toInt, a.toInt_lt.le⟩
  have hb : |b.toInt| ≤ 2 ^ 15 := abs_le.mpr ⟨b.le_toInt, b.toInt_lt.le⟩
  have hab : |a.toInt * b.toInt| ≤ 2 ^ 15 * 2 ^ 15 := by
    rw [abs_mul]
    exact mul_le_mul ha hb (abs_nonneg _) (by decide)
  obtain ⟨hlow, hhigh⟩ := abs_le.mp hab
  rw [Int32.toInt_mul, Int16.toInt_toInt32, Int16.toInt_toInt32]
  exact Int.bmod_eq_of_le (by omega) (by omega)

theorem toInt_add_toInt32 (a b : Int16) :
    (a.toInt32 + b.toInt32).toInt = a.toInt + b.toInt := by
  have ha := a.le_toInt
  have ha' := a.toInt_lt
  have hb := b.le_toInt
  have hb' := b.toInt_lt
  rw [Int32.toInt_add, Int16.toInt_toInt32, Int16.toInt_toInt32]
  exact Int.bmod_eq_of_le (by omega) (by omega)

theorem toInt_sub_toInt32 (a b : Int16) :
    (a.toInt32 - b.toInt32).toInt = a.toInt - b.toInt := by
  have ha := a.le_toInt
  have ha' := a.toInt_lt
  have hb := b.le_toInt
  have hb' := b.toInt_lt
  rw [Int32.toInt_sub, Int16.toInt_toInt32, Int16.toInt_toInt32]
  exact Int.bmod_eq_of_le (by omega) (by omega)

/-! ### One update -/

/-- No narrowing of the update changes a value, and the state is the sum of the two
    terms, each rounded down. -/
structure ExactUpdate (filter : FixedPointFilter) (input : Int16) : Prop where
  inverseAlpha : filter.inverseAlpha.toInt = (oneQ88.toInt32 - filter.alpha.toInt32).toInt
  inputTerm : (q88Mul filter.alpha input).toInt =
    ((filter.alpha.toInt32 * input.toInt32) >>> 8).toInt
  stateTerm : (q88Mul filter.inverseAlpha filter.state).toInt =
    ((filter.inverseAlpha.toInt32 * filter.state.toInt32) >>> 8).toInt
  sum : (filter.update input).state.toInt =
    ((q88Mul filter.alpha input).toInt32 +
      (q88Mul filter.inverseAlpha filter.state).toInt32).toInt
  state : (filter.update input).state.toInt =
    filter.alpha.toInt * input.toInt / 256 +
      (256 - filter.alpha.toInt) * filter.state.toInt / 256

/-- A share of a 16-bit value, in 256ths. The lower bound is a whole number, so that
    rounding down does not leave it. -/
theorem scaled_mem {k : ℤ} (hk : 0 ≤ k) (x : Int16) :
    -32768 * k ≤ k * x.toInt ∧ k * x.toInt ≤ 32767 * k := by
  have hle := x.le_toInt
  have hlt := x.toInt_lt
  constructor
  · nlinarith
  · nlinarith

theorem toInt_q88Mul {a : Int16} (ha : 0 ≤ a.toInt) (ha' : a.toInt ≤ 256) (x : Int16) :
    (q88Mul a x).toInt = ((a.toInt32 * x.toInt32) >>> 8).toInt ∧
      (q88Mul a x).toInt = a.toInt * x.toInt / 256 := by
  have hshift : ((a.toInt32 * x.toInt32) >>> 8).toInt = a.toInt * x.toInt / 256 := by
    rw [toInt_shiftRight_eight, toInt_mul_toInt32]
  obtain ⟨hlow, hhigh⟩ := scaled_mem ha x
  have hnarrow : (q88Mul a x).toInt = ((a.toInt32 * x.toInt32) >>> 8).toInt := by
    rw [q88Mul]
    refine toInt_toInt16_of_mem ?_ ?_
    · omega
    · omega
  exact ⟨hnarrow, hnarrow.trans hshift⟩

namespace FixedPointFilter

variable (filter : FixedPointFilter)

theorem toInt_inverseAlpha (hnonneg : 0 ≤ filter.alpha.toInt) (hle : filter.alpha.toInt ≤ 256) :
    filter.inverseAlpha.toInt = 256 - filter.alpha.toInt := by
  have hone : oneQ88.toInt = 256 := by decide
  have hsub : (oneQ88.toInt32 - filter.alpha.toInt32).toInt = 256 - filter.alpha.toInt := by
    rw [toInt_sub_toInt32, hone]
  rw [inverseAlpha, toInt_toInt16_of_mem (by omega) (by omega), hsub]

/-- Every update is exact, whatever the state and the sample. -/
theorem exactUpdate (hnonneg : 0 ≤ filter.alpha.toInt) (hle : filter.alpha.toInt ≤ 256)
    (input : Int16) : ExactUpdate filter input := by
  have hinverse := filter.toInt_inverseAlpha hnonneg hle
  have hone : oneQ88.toInt = 256 := by decide
  have hinput := toInt_q88Mul hnonneg hle input
  have hstate := toInt_q88Mul (a := filter.inverseAlpha) (by omega) (by omega) filter.state
  have hinputBounds := scaled_mem hnonneg input
  have hstateBounds := scaled_mem (k := 256 - filter.alpha.toInt) (by omega) filter.state
  rw [hinverse] at hstate
  have hsum : (filter.update input).state.toInt =
      ((q88Mul filter.alpha input).toInt32 +
        (q88Mul filter.inverseAlpha filter.state).toInt32).toInt := by
    rw [update]
    -- the lower bounds of the two terms add up to the smallest value, without a rest
    refine toInt_toInt16_of_mem ?_ ?_
    · rw [toInt_add_toInt32, hinput.2, hstate.2]
      omega
    · rw [toInt_add_toInt32, hinput.2, hstate.2]
      omega
  refine ⟨?_, hinput.1, hstate.1, hsum, ?_⟩
  · rw [hinverse, toInt_sub_toInt32, hone]
  · rw [hsum, toInt_add_toInt32, hinput.2, hstate.2]

/-- In rational numbers, an update takes the average of the sample and the state, and
    loses less than two units by rounding down twice. -/
theorem update_eq_next (hnonneg : 0 ≤ filter.alpha.toInt) (hle : filter.alpha.toInt ≤ 256)
    (input : Int16) : ∃ error ∈ Set.Ico (0 : ℚ) 2,
      ((filter.update input).state.toInt : ℚ) =
        ExponentialAverage.next (filter.alpha.toInt / 256 : ℚ) filter.state.toInt input.toInt -
          error := by
  have hrounded (p : ℤ) : ((p / 256 : ℤ) : ℚ) = (p : ℚ) / 256 - ((p % 256 : ℤ) : ℚ) / 256 := by
    have hdivision : ((p % 256 : ℤ) : ℚ) + 256 * ((p / 256 : ℤ) : ℚ) = p := by
      exact_mod_cast Int.emod_add_mul_ediv p 256
    linarith
  have hrest (p : ℤ) : ((p % 256 : ℤ) : ℚ) / 256 ∈ Set.Ico (0 : ℚ) 1 := by
    have hlow : (0 : ℚ) ≤ ((p % 256 : ℤ) : ℚ) := by
      exact_mod_cast Int.emod_nonneg p (by decide)
    have hhigh : ((p % 256 : ℤ) : ℚ) < 256 := by
      exact_mod_cast Int.emod_lt_of_pos p (by decide)
    constructor
    · linarith
    · linarith
  have hinput := hrest (filter.alpha.toInt * input.toInt)
  have hstate := hrest ((256 - filter.alpha.toInt) * filter.state.toInt)
  refine ⟨_, ⟨add_nonneg hinput.1 hstate.1, ?_⟩, ?_⟩
  · linarith [hinput.2, hstate.2]
  · rw [(filter.exactUpdate hnonneg hle input).state, Int.cast_add, hrounded, hrounded]
    push_cast [ExponentialAverage.next]
    ring

/-- The state stays below the larger of the sample and the state before. -/
theorem toInt_update_le (hnonneg : 0 ≤ filter.alpha.toInt) (hle : filter.alpha.toInt ≤ 256)
    (input : Int16) :
    (filter.update input).state.toInt ≤ max input.toInt filter.state.toInt := by
  obtain ⟨error, herror, hupdate⟩ := filter.update_eq_next hnonneg hle input
  have ha : (0 : ℚ) ≤ filter.alpha.toInt := by exact_mod_cast hnonneg
  have ha' : (filter.alpha.toInt : ℚ) ≤ 256 := by exact_mod_cast hle
  have hnext := ExponentialAverage.next_le_max (a := (filter.alpha.toInt / 256 : ℚ))
    (by linarith) (by linarith) filter.state.toInt input.toInt
  have hbound : ((filter.update input).state.toInt : ℚ) ≤
      max (input.toInt : ℚ) filter.state.toInt := by
    rw [hupdate]
    linarith [herror.1]
  exact_mod_cast hbound

end FixedPointFilter

/-! ### A run -/

section

variable {alpha : Int16} (hnonneg : 0 ≤ alpha.toInt) (hle : alpha.toInt ≤ 256)

include hnonneg hle

/-- The states stay below zero and the samples so far. -/
theorem toInt_state_filterAfter_le (inputs : List Int16) :
    (filterAfter alpha inputs).state.toInt ≤ (inputs.map Int16.toInt).foldl max 0 := by
  induction inputs using List.reverseRecOn with
  | nil => exact le_of_eq rfl
  | append_singleton inputs x ih =>
    have halpha := alpha_filterAfter alpha inputs
    have hupdate := (filterAfter alpha inputs).toInt_update_le (by rwa [halpha])
      (by rwa [halpha]) x
    rw [filterAfter_concat, List.map_append, List.foldl_append]
    change _ ≤ max ((inputs.map Int16.toInt).foldl max 0) x.toInt
    rcases le_max_iff.mp hupdate with hx | hstate
    · exact le_max_of_le_right hx
    · exact le_max_of_le_left (hstate.trans ih)

/-- Every update of a run is exact, and there is an output for every sample, at most the
    largest sample so far, or zero. -/
theorem filter_sequence_exact (inputs : List Int16) :
    (runFilterSequence inputs alpha).length = inputs.length ∧
      (∀ past x future, inputs = past ++ x :: future → ExactUpdate (filterAfter alpha past) x) ∧
      ∀ i y, (runFilterSequence inputs alpha)[i]? = some y →
        y = (filterAfter alpha (inputs.take (i + 1))).state ∧
          y.toInt ≤ ((inputs.take (i + 1)).map Int16.toInt).foldl max 0 := by
  refine ⟨length_runFilterSequence inputs alpha, ?_, ?_⟩
  · intro past x future _
    have halpha := alpha_filterAfter alpha past
    exact (filterAfter alpha past).exactUpdate (by rwa [halpha]) (by rwa [halpha]) x
  · intro i y hy
    have hstate := getElem?_runFilterSequence hy
    refine ⟨hstate, ?_⟩
    rw [hstate]
    exact toInt_state_filterAfter_le hnonneg hle _

end

/-- The reference coefficient and samples. -/
theorem filter_sequence_exact_reference :
    (0 ≤ (128 : Int16).toInt ∧ (128 : Int16).toInt ≤ 256) ∧
      (runFilterSequence [256, 256, 512, 0] 128).length = 4 ∧
      (∀ past x future, ([256, 256, 512, 0] : List Int16) = past ++ x :: future →
        ExactUpdate (filterAfter 128 past) x) ∧
      ∀ i y, (runFilterSequence [256, 256, 512, 0] 128)[i]? = some y →
        y = (filterAfter 128 (([256, 256, 512, 0] : List Int16).take (i + 1))).state ∧
          y.toInt ≤
            ((([256, 256, 512, 0] : List Int16).take (i + 1)).map Int16.toInt).foldl max 0 := by
  have hnonneg : 0 ≤ (128 : Int16).toInt := by decide
  have hle : (128 : Int16).toInt ≤ 256 := by decide
  exact ⟨⟨hnonneg, hle⟩, filter_sequence_exact hnonneg hle [256, 256, 512, 0]⟩

end FirmwareValidation

end AccelSim
