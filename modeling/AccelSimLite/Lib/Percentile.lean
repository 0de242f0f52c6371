import AccelSimLite.Lib.OrderStatistics
import Mathlib.Algebra.Order.Floor.Ring
import Mathlib.Algebra.Order.Field.Basic
import Mathlib.Data.Int.ConditionallyCompleteOrder
import Mathlib.Data.List.MinMax
import Mathlib.Tactic.Linarith
import Mathlib.Tactic.NormNum
import Mathlib.Tactic.Ring

/-!
# Percentiles by linear interpolation

A sequence of numbers, continued linearly between the integers, and the percentile
of a list: its sorted sequence continued to a fraction of its last position.

## Main definitions

- `interpolate a x` — the sequence `a`, continued to `x`
- `orderStatistic values` — the sorted list, as a sequence
- `WithinPaired scale values values'` — some pairing of the lists is within a factor
- `interpolatedPercentile` — the percentile, `none` when it reads outside the list
- `PercentileLaws` — what makes a function of a list and a fraction a percentile

## Main results

- `interpolate_monotoneOn` — continuing a sequence keeps it monotone
- `interpolatedPercentile_eq` — the percentile of a non-empty list
- `percentileLaws` — the laws hold
-/

variable {K : Type*} [Field K] [LinearOrder K] [FloorRing K]

/-! ### Continued sequences -/

/-- The sequence `a`, continued linearly between the integers. -/
def interpolate (a : ℤ → K) (x : K) : K := a ⌊x⌋ * (1 - Int.fract x) + a ⌈x⌉ * Int.fract x

section

variable {a b : ℤ → K} {x : K}

theorem interpolate_of_floor_eq_ceil (h : ⌊x⌋ = ⌈x⌉) : interpolate a x = a ⌊x⌋ := by
  rw [interpolate, ← h]
  ring

variable [IsStrictOrderedRing K]

theorem one_sub_fract_nonneg (x : K) : 0 ≤ 1 - Int.fract x :=
  sub_nonneg.mpr (Int.fract_lt_one x).le

theorem interpolate_le_interpolate (hfloor : a ⌊x⌋ ≤ b ⌊x⌋) (hceil : a ⌈x⌉ ≤ b ⌈x⌉) :
    interpolate a x ≤ interpolate b x :=
  add_le_add (mul_le_mul_of_nonneg_right hfloor (one_sub_fract_nonneg x))
    (mul_le_mul_of_nonneg_right hceil (Int.fract_nonneg x))

theorem le_interpolate {c : K} (hfloor : c ≤ a ⌊x⌋) (hceil : c ≤ a ⌈x⌉) :
    c ≤ interpolate a x := by
  have hconst : interpolate (fun _ => c) x = c := by rw [interpolate]; ring
  rw [← hconst]
  exact interpolate_le_interpolate hfloor hceil

theorem interpolate_le {c : K} (hfloor : a ⌊x⌋ ≤ c) (hceil : a ⌈x⌉ ≤ c) :
    interpolate a x ≤ c := by
  have hconst : interpolate (fun _ => c) x = c := by rw [interpolate]; ring
  rw [← hconst]
  exact interpolate_le_interpolate hfloor hceil

theorem floor_mem_Icc {m n : ℤ} (hx : x ∈ Set.Icc (m : K) n) : ⌊x⌋ ∈ Set.Icc m n :=
  ⟨Int.le_floor.mpr hx.1, by exact_mod_cast (Int.floor_le x).trans hx.2⟩

theorem ceil_mem_Icc {m n : ℤ} (hx : x ∈ Set.Icc (m : K) n) : ⌈x⌉ ∈ Set.Icc m n :=
  ⟨by exact_mod_cast hx.1.trans (Int.le_ceil x), Int.ceil_le.mpr hx.2⟩

/-- Between two neighbouring integers the continued sequence is linear; across one,
    it passes through the sequence. -/
theorem interpolate_monotoneOn {m n : ℤ} (ha : MonotoneOn a (Set.Icc m n)) :
    MonotoneOn (interpolate a) (Set.Icc (m : K) n) := by
  intro x hx y hy hxy
  have hx₀ := floor_mem_Icc hx
  have hx₁ := ceil_mem_Icc hx
  have hy₀ := floor_mem_Icc hy
  have hy₁ := ceil_mem_Icc hy
  rcases (Int.floor_mono hxy).eq_or_lt with hsame | hacross
  · by_cases hint : ⌊x⌋ = ⌈x⌉
    · rw [interpolate_of_floor_eq_ceil hint, hsame]
      exact le_interpolate le_rfl (ha hy₀ hy₁ (Int.floor_le_ceil y))
    · have hceil : ⌈x⌉ = ⌈y⌉ := by
        have hx' := Int.floor_le_ceil x
        have hmono := Int.ceil_mono hxy
        have hy' := Int.ceil_le_floor_add_one y
        omega
      have hstep := ha hy₀ hy₁ (Int.floor_le_ceil y)
      have hfract : Int.fract x ≤ Int.fract y := by
        rw [Int.fract, Int.fract, hsame]
        exact sub_le_sub_right hxy _
      have hprod := mul_le_mul_of_nonneg_left hfract (sub_nonneg.mpr hstep)
      rw [interpolate, interpolate, hsame, hceil]
      linarith
  · have hceil : ⌈x⌉ ≤ ⌊y⌋ := (Int.ceil_le_floor_add_one x).trans hacross
    calc interpolate a x
        ≤ a ⌈x⌉ := interpolate_le (ha hx₀ hx₁ (Int.floor_le_ceil x)) le_rfl
      _ ≤ a ⌊y⌋ := ha hx₁ hy₀ hceil
      _ ≤ interpolate a y := le_interpolate le_rfl (ha hy₀ hy₁ (Int.floor_le_ceil y))

end

/-! ### The sorted sequence -/

/-- The element at an integer position, `none` outside the list. -/
def List.at? {α : Type*} (l : List α) (i : ℤ) : Option α :=
  if 0 ≤ i then l[i.toNat]? else none

theorem toNat_lt_length {α : Type*} [LinearOrder α] {values : List α} {i : ℤ}
    (hi : i ∈ Set.Icc 0 ((values.length : ℤ) - 1)) :
    i.toNat < (values.insertionSort (· ≤ ·)).length := by
  have h₀ := hi.1
  have h₁ := hi.2
  rw [List.length_insertionSort]
  omega

section

variable {α : Type*} [LinearOrder α] [Zero α]

/-- The sorted list, as a sequence. -/
def orderStatistic (values : List α) (i : ℤ) : α := (values.insertionSort (· ≤ ·)).getD i.toNat 0

variable {values values' : List α} {i j : ℤ}

theorem orderStatistic_eq_getElem (hi : i.toNat < (values.insertionSort (· ≤ ·)).length) :
    orderStatistic values i = (values.insertionSort (· ≤ ·))[i.toNat] := by
  rw [orderStatistic, List.getD_eq_getElem?_getD, List.getElem?_eq_getElem hi, Option.getD_some]

theorem at?_insertionSort (hi : i ∈ Set.Icc 0 ((values.length : ℤ) - 1)) :
    (values.insertionSort (· ≤ ·)).at? i = some (orderStatistic values i) := by
  have hlt := toNat_lt_length hi
  rw [List.at?, if_pos hi.1, List.getElem?_eq_getElem hlt, orderStatistic_eq_getElem hlt]

theorem orderStatistic_mem (hi : i ∈ Set.Icc 0 ((values.length : ℤ) - 1)) :
    orderStatistic values i ∈ values := by
  have hlt := toNat_lt_length hi
  rw [orderStatistic_eq_getElem hlt]
  exact (List.perm_insertionSort (· ≤ ·) values).mem_iff.mp (List.getElem_mem hlt)

theorem orderStatistic_monotoneOn :
    MonotoneOn (orderStatistic values) (Set.Icc 0 ((values.length : ℤ) - 1)) := by
  intro i hi j hj hij
  have hlt := toNat_lt_length hj
  have hle : i.toNat ≤ j.toNat := Int.toNat_le_toNat hij
  rw [orderStatistic_eq_getElem hlt, orderStatistic_eq_getElem (hle.trans_lt hlt)]
  exact (List.pairwise_insertionSort (· ≤ ·) values).getElem_le_getElem hle hlt

theorem orderStatistic_le_orderStatistic (h : Paired (· ≤ ·) values values')
    (hi : i ∈ Set.Icc 0 ((values.length : ℤ) - 1)) :
    orderStatistic values i ≤ orderStatistic values' i := by
  have hlt := toNat_lt_length hi
  have hlt' : i.toNat < (values'.insertionSort (· ≤ ·)).length := by
    rw [List.length_insertionSort, ← h.length_eq, ← List.length_insertionSort (· ≤ ·) values]
    exact hlt
  rw [orderStatistic_eq_getElem hlt, orderStatistic_eq_getElem hlt']
  exact h.getElem_insertionSort (fun a a' b b' ha hab hb => (ha.trans hab).trans hb) hlt hlt'

end

/-! ### Percentiles -/

/-- The sorted list, read at a fraction of its last position; `none` when a position
    is outside the list. The empty list has percentile zero. -/
def interpolatedPercentile (values : List K) (fraction : K) : Option K :=
  if values = [] then some 0
  else
    let ordered := values.insertionSort (· ≤ ·)
    let position := fraction * (ordered.length - 1)
    let lower := ⌊position⌋
    let upper := ⌈position⌉
    if lower = upper then ordered.at? lower
    else do
      let weight := position - lower
      let below ← ordered.at? lower
      let above ← ordered.at? upper
      some (below * (1 - weight) + above * weight)

/-- The laws of a percentile, which may fail by reading outside the list. -/
structure PercentileLaws (percentile : List K → K → Option K) : Prop where
  /-- Nothing is read outside the list. -/
  isSome : ∀ values, values ≠ [] → ∀ f ∈ Set.Icc (0 : K) 1, (percentile values f).isSome
  between : ∀ values, values ≠ [] → ∀ f ∈ Set.Icc (0 : K) 1, ∀ v ∈ percentile values f,
    (∀ lo ∈ values.min?, lo ≤ v) ∧ ∀ hi ∈ values.max?, v ≤ hi
  perm : ∀ values values' : List K, values.Perm values' → ∀ f,
    percentile values f = percentile values' f
  mono_fraction : ∀ values, values ≠ [] → ∀ f ∈ Set.Icc (0 : K) 1, ∀ f' ∈ Set.Icc (0 : K) 1,
    f ≤ f' → ∀ v ∈ percentile values f, ∀ v' ∈ percentile values f', v ≤ v'
  mono_values : ∀ values values', values ≠ [] → Paired (· ≤ ·) values values' →
    ∀ f ∈ Set.Icc (0 : K) 1, ∀ v ∈ percentile values f, ∀ v' ∈ percentile values' f, v ≤ v'

section

variable [IsStrictOrderedRing K] {values : List K} {f : K}

theorem last_nonneg (hvalues : values ≠ []) : 0 ≤ (values.length : K) - 1 := by
  rw [sub_nonneg]
  exact_mod_cast List.length_pos_iff.mpr hvalues

theorem position_mem_Icc (hvalues : values ≠ []) (hf : f ∈ Set.Icc (0 : K) 1) :
    f * ((values.length : K) - 1) ∈ Set.Icc ((0 : ℤ) : K) (((values.length : ℤ) - 1 : ℤ) : K) := by
  have hlast := last_nonneg (K := K) hvalues
  push_cast
  exact ⟨mul_nonneg hf.1 hlast, mul_le_of_le_one_left hlast hf.2⟩

theorem interpolatedPercentile_eq (hvalues : values ≠ []) (hf : f ∈ Set.Icc (0 : K) 1) :
    interpolatedPercentile values f =
      some (interpolate (orderStatistic values) (f * ((values.length : K) - 1))) := by
  have hposition := position_mem_Icc hvalues hf
  have hlower := at?_insertionSort (floor_mem_Icc hposition)
  have hupper := at?_insertionSort (ceil_mem_Icc hposition)
  simp only [interpolatedPercentile, if_neg hvalues, List.length_insertionSort]
  split_ifs with heq
  · rw [hlower, interpolate_of_floor_eq_ceil heq]
  · rw [hlower, hupper]
    rfl

/-- Interpolated percentiles are percentiles. -/
theorem percentileLaws : PercentileLaws (interpolatedPercentile (K := K)) where
  isSome values hvalues f hf := by
    rw [interpolatedPercentile_eq hvalues hf, Option.isSome_some]
  between values hvalues f hf v hv := by
    rw [interpolatedPercentile_eq hvalues hf, Option.mem_some_iff] at hv
    subst hv
    have hposition := position_mem_Icc hvalues hf
    have hfloor := orderStatistic_mem (floor_mem_Icc hposition)
    have hceil := orderStatistic_mem (ceil_mem_Icc hposition)
    constructor
    · intro lo hlo
      have hbound := (List.min?_eq_some_iff.mp hlo).2
      exact le_interpolate (hbound _ hfloor) (hbound _ hceil)
    · intro hi hhi
      have hbound := (List.max?_eq_some_iff.mp hhi).2
      exact interpolate_le (hbound _ hfloor) (hbound _ hceil)
  perm values values' h f := by
    have hempty : values = [] ↔ values' = [] := by
      constructor
      · rintro rfl
        exact h.nil_eq.symm
      · rintro rfl
        exact h.eq_nil
    simp only [interpolatedPercentile, h.insertionSort_eq, hempty]
  mono_fraction values hvalues f hf f' hf' hle v hv v' hv' := by
    rw [interpolatedPercentile_eq hvalues hf, Option.mem_some_iff] at hv
    rw [interpolatedPercentile_eq hvalues hf', Option.mem_some_iff] at hv'
    subst hv hv'
    have hposition := position_mem_Icc hvalues hf
    have hposition' := position_mem_Icc hvalues hf'
    exact interpolate_monotoneOn orderStatistic_monotoneOn hposition hposition'
      (mul_le_mul_of_nonneg_right hle (last_nonneg hvalues))
  mono_values values values' hvalues h f hf v hv v' hv' := by
    have hlength := h.length_eq
    have hvalues' : values' ≠ [] := by
      rw [← List.length_pos_iff, ← hlength]
      exact List.length_pos_iff.mpr hvalues
    rw [interpolatedPercentile_eq hvalues hf, Option.mem_some_iff] at hv
    rw [interpolatedPercentile_eq hvalues' hf, Option.mem_some_iff] at hv'
    subst hv hv'
    have hposition := position_mem_Icc hvalues hf
    rw [← hlength]
    exact interpolate_le_interpolate (orderStatistic_le_orderStatistic h (floor_mem_Icc hposition))
      (orderStatistic_le_orderStatistic h (ceil_mem_Icc hposition))

end

/-! ### Lists within a factor -/

/-- Some rearrangement of the second list makes every element of the first at most `scale`
    times its partner. -/
def WithinPaired (scale : K) (values values' : List K) : Prop :=
  Paired (fun v v' => v ≤ scale * v') values values'

section

variable [IsStrictOrderedRing K] {scale : K} {values values' : List K}

omit [FloorRing K] in
/-- So is every element of the sorted lists. -/
theorem orderStatistic_le_mul (hscale : 0 ≤ scale) (h : WithinPaired scale values values') {i : ℤ}
    (hi : i ∈ Set.Icc 0 ((values.length : ℤ) - 1)) :
    orderStatistic values i ≤ scale * orderStatistic values' i := by
  have hlt := toNat_lt_length hi
  have hlt' : i.toNat < (values'.insertionSort (· ≤ ·)).length :=
    toNat_lt_length (h.length_eq ▸ hi)
  rw [orderStatistic_eq_getElem hlt, orderStatistic_eq_getElem hlt']
  refine h.getElem_insertionSort ?_ hlt hlt'
  intro v v' b b' hv hwithin hb
  exact (hv.trans hwithin).trans (mul_le_mul_of_nonneg_left hb hscale)

/-- So is the percentile. -/
theorem interpolate_orderStatistic_le_mul (hscale : 0 ≤ scale)
    (h : WithinPaired scale values values') (hvalues : values ≠ []) {f : K}
    (hf : f ∈ Set.Icc (0 : K) 1) :
    interpolate (orderStatistic values) (f * ((values.length : K) - 1)) ≤
      scale * interpolate (orderStatistic values') (f * ((values'.length : K) - 1)) := by
  have hposition := position_mem_Icc hvalues hf
  have hstatistic := fun i hi => orderStatistic_le_mul (i := i) hscale h hi
  have hscaled : scale * interpolate (orderStatistic values') (f * ((values.length : K) - 1)) =
      interpolate (fun i => scale * orderStatistic values' i)
        (f * ((values.length : K) - 1)) := by
    rw [interpolate, interpolate]
    ring
  rw [← h.length_eq, hscaled]
  exact interpolate_le_interpolate (hstatistic _ (floor_mem_Icc hposition))
    (hstatistic _ (ceil_mem_Icc hposition))

end
