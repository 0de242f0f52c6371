import AccelSimLite.Firmware.FixedPointFilter
import AccelSimLite.Lib.Settling
import Mathlib.Data.List.Forall2

/-!
# How the fixed-point filter settles

While the sample stays the same, an update is a monotone step that leaves some states alone:
those for which what the coefficient takes away is less than a unit after rounding. From any
state the filter runs to the nearest of them, without passing it by and without a limit
cycle.

## Main definitions

- `FirmwareValidation.nextState` — an update in whole numbers
- `FirmwareValidation.Rest` — the states that an update leaves alone

## Main results

- `FirmwareValidation.attracts_nextState` — the states of rest are an interval
- `FirmwareValidation.filter_monotone` — larger samples give larger outputs
- `FirmwareValidation.filter_settles` — where the outputs come to rest, and when
-/

namespace AccelSim

namespace FirmwareValidation

open Settling

/-- The state after an update, in whole numbers. -/
def nextState (alpha x : Int16) (y : ℤ) : ℤ :=
  alpha.toInt * x.toInt / 256 + (256 - alpha.toInt) * y / 256

/-- An update leaves the state alone. -/
def Rest (alpha x : Int16) (y : ℤ) : Prop := nextState alpha x y = y

instance (alpha x : Int16) (y : ℤ) : Decidable (Rest alpha x y) :=
  inferInstanceAs (Decidable (nextState alpha x y = y))

section

variable {alpha : Int16} (hnonneg : 0 ≤ alpha.toInt) (hle : alpha.toInt ≤ 256)

include hnonneg hle

theorem toInt_state_concat (past : List Int16) (x : Int16) :
    (filterAfter alpha (past ++ [x])).state.toInt =
      nextState alpha x (filterAfter alpha past).state.toInt := by
  have halpha := alpha_filterAfter alpha past
  rw [filterAfter_concat,
    ((filterAfter alpha past).exactUpdate (by rwa [halpha]) (by rwa [halpha]) x).state, halpha,
    nextState]

theorem toInt_state_replicate (past : List Int16) (x : Int16) (n : ℕ) :
    (filterAfter alpha (past ++ List.replicate n x)).state.toInt =
      (nextState alpha x)^[n] (filterAfter alpha past).state.toInt := by
  induction n with
  | zero => rw [List.replicate_zero, List.append_nil, Function.iterate_zero_apply]
  | succ n ih =>
    rw [List.replicate_succ', ← List.append_assoc, toInt_state_concat hnonneg hle, ih,
      Function.iterate_succ_apply']

/-- Larger samples and states give larger states. -/
theorem nextState_le {x x' : Int16} {y y' : ℤ} (hx : x.toInt ≤ x'.toInt) (hy : y ≤ y') :
    nextState alpha x y ≤ nextState alpha x' y' := by
  have hinput := mul_le_mul_of_nonneg_left hx hnonneg
  have hstate := mul_le_mul_of_nonneg_left hy (show 0 ≤ 256 - alpha.toInt by omega)
  exact add_le_add (Int.ediv_le_ediv (by decide) hinput) (Int.ediv_le_ediv (by decide) hstate)

end

/-- A share of less than a unit is left, after rounding, in the states of rest. -/
theorem attracts_nextState {alpha : Int16} (hpos : 0 < alpha.toInt) (hle : alpha.toInt ≤ 256)
    (x : Int16) :
    Attracts (nextState alpha x) (256 * (alpha.toInt * x.toInt / 256 - 1) / alpha.toInt + 1)
      (256 * (alpha.toInt * x.toInt / 256) / alpha.toInt) := by
  generalize hinput : alpha.toInt * x.toInt / 256 = input
  -- the two ends of the interval, and the step, without quotients
  have hlow (y : ℤ) : 256 * (input - 1) / alpha.toInt + 1 ≤ y ↔
      256 * (input - 1) < y * alpha.toInt := by
    rw [Int.add_one_le_iff, Int.ediv_lt_iff_lt_mul hpos]
  have hhigh (y : ℤ) : y ≤ 256 * input / alpha.toInt ↔ y * alpha.toInt ≤ 256 * input :=
    Int.le_ediv_iff_mul_le hpos
  have hnext (y : ℤ) : nextState alpha x y = input + (256 * y - y * alpha.toInt) / 256 := by
    rw [nextState, hinput, Int.sub_mul, Int.mul_comm alpha.toInt]
  constructor
  case mono => exact fun y y' hy => nextState_le hpos.le hle le_rfl hy
  case nonempty =>
    rw [hhigh]
    have hmul := Int.mul_ediv_self_le (x := 256 * (input - 1)) hpos.ne'
    rw [Int.add_mul, Int.mul_comm (256 * (input - 1) / alpha.toInt)]
    omega
  case fixed =>
    intro y hlo hhi
    rw [hlow] at hlo
    rw [hhigh] at hhi
    rw [hnext]
    omega
  case rises =>
    intro y hy
    have hlo := mt (hlow y).mpr hy.not_ge
    rw [hnext]
    omega
  case falls =>
    intro y hy
    have hhi := mt (hhigh y).mpr hy.not_ge
    rw [hnext]
    omega

/-- A state of rest is not above the sample, and less than `512 / alpha` below it. -/
theorem Rest.near {alpha x : Int16} (hpos : 0 < alpha.toInt) {y : ℤ} (h : Rest alpha x y) :
    y ≤ x.toInt ∧ alpha.toInt * (x.toInt - y) < 512 := by
  unfold Rest nextState at h
  rw [Int.sub_mul] at h
  rw [Int.mul_sub]
  have hup : alpha.toInt * y ≤ alpha.toInt * x.toInt := by omega
  exact ⟨le_of_mul_le_mul_left hup hpos, by omega⟩

/-! ### Two runs -/

theorem toInt_foldl_update_le {alpha : Int16} (hnonneg : 0 ≤ alpha.toInt)
    (hle : alpha.toInt ≤ 256) {inputs inputs' : List Int16}
    (h : List.Forall₂ (· ≤ ·) inputs inputs') {filter filter' : FixedPointFilter}
    (halpha : filter.alpha = alpha) (halpha' : filter'.alpha = alpha)
    (hstate : filter.state.toInt ≤ filter'.state.toInt) :
    (inputs.foldl FixedPointFilter.update filter).state.toInt ≤
      (inputs'.foldl FixedPointFilter.update filter').state.toInt := by
  induction h generalizing filter filter' with
  | nil => exact hstate
  | @cons x x' inputs inputs' hx _ ih =>
    rw [List.foldl_cons, List.foldl_cons]
    refine ih ?_ ?_ ?_
    · rw [FixedPointFilter.alpha_update, halpha]
    · rw [FixedPointFilter.alpha_update, halpha']
    · subst halpha
      rw [(filter.exactUpdate hnonneg hle x).state,
        (filter'.exactUpdate (by rwa [halpha']) (by rwa [halpha']) x').state, halpha']
      exact nextState_le hnonneg hle (Int16.le_iff_toInt_le.mp hx) hstate

/-- **Larger samples give larger outputs**, one for every sample. -/
theorem filter_monotone {alpha : Int16} (hnonneg : 0 ≤ alpha.toInt) (hle : alpha.toInt ≤ 256)
    {inputs inputs' : List Int16} (h : List.Forall₂ (· ≤ ·) inputs inputs') :
    (runFilterSequence inputs alpha).length = inputs.length ∧
      List.Forall₂ (· ≤ ·) (runFilterSequence inputs alpha) (runFilterSequence inputs' alpha) := by
  refine ⟨length_runFilterSequence inputs alpha, ?_⟩
  rw [List.forall₂_iff_get]
  refine ⟨?_, fun i hi hi' => ?_⟩
  · rw [length_runFilterSequence, length_runFilterSequence, h.length_eq]
  · have hout := getElem?_runFilterSequence (List.getElem?_eq_getElem hi)
    have hout' := getElem?_runFilterSequence (List.getElem?_eq_getElem hi')
    rw [List.get_eq_getElem, List.get_eq_getElem, Int16.le_iff_toInt_le, hout, hout']
    exact toInt_foldl_update_le hnonneg hle (List.forall₂_take (i + 1) h) rfl rfl le_rfl

theorem filter_monotone_reference :
    (runFilterSequence [256, -256, 512, 0] 128).length = 4 ∧
      List.Forall₂ (· ≤ ·) (runFilterSequence [256, -256, 512, 0] 128)
        (runFilterSequence [256, 256, 512, 1] 128) := by
  refine filter_monotone (by decide) (by decide) ?_
  exact .cons (by decide) (.cons (by decide) (.cons (by decide) (.cons (by decide) .nil)))

/-! ### The theorem -/

/-- An output, while the sample stays the same. -/
theorem toInt_output {alpha : Int16} (hnonneg : 0 ≤ alpha.toInt) (hle : alpha.toInt ≤ 256)
    {past : List Int16} {x y : Int16} {n i : ℕ}
    (h : (runFilterSequence (past ++ List.replicate n x) alpha)[past.length + i]? = some y) :
    y.toInt = (nextState alpha x)^[i + 1] (filterAfter alpha past).state.toInt := by
  have hi : past.length + i < (past ++ List.replicate n x).length := by
    rw [← length_runFilterSequence (past ++ List.replicate n x) alpha]
    exact (List.getElem?_eq_some_iff.mp h).1
  rw [List.length_append, List.length_replicate] at hi
  rw [getElem?_runFilterSequence h, Nat.add_assoc, List.take_length_add_append,
    List.take_replicate, Nat.min_eq_left (by omega), toInt_state_replicate hnonneg hle]

/-- **The filter settles.** While the sample stays the same, the outputs run to the state of
    rest that is nearest to where they start, without passing it by, and are there after as
    many samples as it is away; it is not above the sample, and less than `512 / alpha` below
    it. -/
theorem filter_settles {alpha : Int16} (hpos : 0 < alpha.toInt) (hle : alpha.toInt ≤ 256)
    (past : List Int16) (x : Int16) :
    ∃ settled : ℤ, Rest alpha x settled ∧
      (∀ rest, Rest alpha x rest →
        ((filterAfter alpha past).state.toInt - settled).natAbs ≤
          ((filterAfter alpha past).state.toInt - rest).natAbs) ∧
      settled ≤ x.toInt ∧ alpha.toInt * (x.toInt - settled) < 512 ∧
      ∀ n, (runFilterSequence (past ++ List.replicate n x) alpha).length = past.length + n ∧
        ∀ i y, (runFilterSequence (past ++ List.replicate n x) alpha)[past.length + i]? = some y →
          (((filterAfter alpha past).state.toInt - settled).natAbs ≤ i + 1 → y.toInt = settled) ∧
          ∀ z, (runFilterSequence (past ++ List.replicate n x) alpha)[past.length + i + 1]? =
              some z →
            y.toInt ≤ z.toInt ∧ z.toInt ≤ settled ∨ settled ≤ z.toInt ∧ z.toInt ≤ y.toInt := by
  have hattracts := attracts_nextState hpos hle x
  have hrest := (hattracts.eq_self_iff _).mpr
    (hattracts.nearest_mem (filterAfter alpha past).state.toInt)
  obtain ⟨hbelow, hnear⟩ := Rest.near hpos hrest
  refine ⟨_, hrest, fun rest h => ?_, hbelow, hnear,
    fun n => ⟨?_, fun i y hy => ⟨fun hi => ?_, ?_⟩⟩⟩
  · obtain ⟨hlow, hhigh⟩ := (hattracts.eq_self_iff rest).mp h
    exact natAbs_sub_nearest_le _ hlow hhigh
  · rw [length_runFilterSequence, List.length_append, List.length_replicate]
  · rw [toInt_output hpos.le hle hy]
    exact hattracts.iterate_eq_nearest hi
  · intro z hz
    have hcases := (hattracts.step_cases y.toInt).2
    have hnext : z.toInt = nextState alpha x y.toInt := by
      rw [toInt_output hpos.le hle (i := i + 1) hz, toInt_output hpos.le hle hy,
        Function.iterate_succ_apply']
    rw [toInt_output hpos.le hle hy, hattracts.nearest_iterate, ← toInt_output hpos.le hle hy,
      ← hnext] at hcases
    omega

/-- A filter at 252 settles at 255 within three samples of 256. -/
theorem filter_settles_reference :
    runFilterSequence (List.replicate 6 256 ++ List.replicate 3 256) 128 =
        [128, 192, 224, 240, 248, 252, 254, 255, 255] ∧
      ∃ settled : ℤ, Rest 128 256 settled ∧ settled = 255 ∧ 128 * (256 - settled) < 512 := by
  obtain ⟨settled, hrest, hnearest, _, hnear, houtputs⟩ :=
    filter_settles (show 0 < (128 : Int16).toInt by decide) (by decide) (List.replicate 6 256) 256
  have hrun : runFilterSequence (List.replicate 6 256 ++ List.replicate 3 256) 128 =
      [128, 192, 224, 240, 248, 252, 254, 255, 255] := by decide +kernel
  have hpast : filterAfter 128 (List.replicate 6 256) = { alpha := 128, state := 252 } := by
    decide +kernel
  have hstate : (filterAfter 128 (List.replicate 6 256)).state.toInt = 252 := by
    rw [hpast]
    rfl
  have haway := hnearest 255 (by decide)
  rw [hstate] at haway houtputs
  have hlast := ((houtputs 3).2 2 255 (by rw [hrun]; rfl)).1 (by omega)
  exact ⟨hrun, settled, hrest, hlast.symm, hnear⟩

/-- The lowest state of rest is that of a rising filter, the highest that of a falling one. -/
example : ¬Rest 32 256 248 ∧ Rest 32 256 249 ∧ Rest 32 256 256 ∧ ¬Rest 32 256 257 := by decide

end FirmwareValidation

end AccelSim
