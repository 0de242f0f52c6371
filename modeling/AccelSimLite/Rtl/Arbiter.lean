import Mathlib.Data.Bool.Basic
import Mathlib.Data.Nat.Find

/-!
# The arbiter module

A model of `arbiter.sv` for every width. The loop of the combinational block goes
through the requests from the lowest on and grants one when nothing is granted yet, so
that the vector it builds is its own record of whether it is done.

## Main definitions

- `Arbiter.loopBody`, `Arbiter.grant` — the combinational block
- `Arbiter.IsLowest` — the request that is served first
- `Arbiter.Granting` — what is granted after some iterations

## Main results

- `Arbiter.Granting.step` — one iteration
- `Arbiter.grant_lowest` — the block grants the lowest request and no other

## Design notes

The bits of a request are known; a request is a `BitVec`.
-/

namespace AccelSim

namespace Arbiter

variable {N : ℕ} {req partialGrant : BitVec N}

/-- The vector after `v[i] = 1'b1`. -/
def setBit (v : BitVec N) (i : ℕ) : BitVec N := v ||| BitVec.twoPow N i

/-- The body of the loop, on the grant built so far. -/
def loopBody (req partialGrant : BitVec N) (i : ℕ) : BitVec N :=
  if req.getLsbD i && partialGrant == 0#N then setBit partialGrant i else partialGrant

/-- The output of the block. -/
def grant (req : BitVec N) : BitVec N := (List.range N).foldl (loopBody req) 0#N

/-! ### The loop -/

/-- Nothing is requested below the request `i`. -/
structure IsLowest (req : BitVec N) (i : ℕ) : Prop where
  requested : req.getLsbD i = true
  lower : ∀ j < i, req.getLsbD j = false

theorem IsLowest.lt {i : ℕ} (h : IsLowest req i) : i < N := BitVec.lt_of_getLsbD h.requested

/-- There is a lowest request when there is one at all. -/
theorem exists_isLowest (h : req ≠ 0#N) : ∃ i, IsLowest req i := by
  have hsome : ∃ i, req.getLsbD i = true := by
    by_contra hnone
    push Not at hnone
    apply h
    apply BitVec.eq_of_getLsbD_eq
    intro i _
    rw [BitVec.getLsbD_zero]
    exact Bool.eq_false_of_not_eq_true (hnone i)
  refine ⟨Nat.find hsome, Nat.find_spec hsome, fun j hj => ?_⟩
  exact Bool.eq_false_of_not_eq_true (Nat.find_min hsome hj)

theorem twoPow_ne_zero {i : ℕ} (hi : i < N) : BitVec.twoPow N i ≠ 0#N := by
  intro h
  have hbit := congrArg (·.getLsbD i) h
  simp only [BitVec.getLsbD_twoPow, BitVec.getLsbD_zero, hi, decide_true, Bool.and_self] at hbit
  exact absurd hbit (by decide)

/-- What is granted after the iterations below `k`. -/
structure Granting (req partialGrant : BitVec N) (k : ℕ) : Prop where
  idle : (∀ j < k, req.getLsbD j = false) → partialGrant = 0#N
  granted : ∀ i < k, IsLowest req i → partialGrant = BitVec.twoPow N i

theorem granting_start (req : BitVec N) : Granting req 0#N 0 :=
  ⟨fun _ => rfl, fun i hi => absurd hi (Nat.not_lt_zero i)⟩

/-- One iteration: the request is passed over when it is not made, or when a lower one
    has been granted. -/
theorem Granting.step {k : ℕ} (h : Granting req partialGrant k) :
    Granting req (loopBody req partialGrant k) (k + 1) := by
  constructor
  case idle =>
    intro hnone
    have hk : req.getLsbD k = false := hnone k (Nat.lt_succ_self k)
    rw [loopBody, hk]
    exact h.idle fun j hj => hnone j (Nat.lt_succ_of_lt hj)
  case granted =>
    intro i hi hlow
    obtain hlt | rfl := Nat.lt_succ_iff_lt_or_eq.mp hi
    · have hgrant : partialGrant = BitVec.twoPow N i := h.granted i hlt hlow
      have hbusy : (partialGrant == 0#N) = false := by
        rw [hgrant]
        exact beq_eq_false_iff_ne.mpr (twoPow_ne_zero hlow.lt)
      rw [loopBody, hbusy, Bool.and_false]
      exact hgrant
    · have hgrant : partialGrant = 0#N := h.idle hlow.lower
      rw [loopBody, hlow.requested, hgrant, setBit, BitVec.zero_or]
      exact if_pos (by rw [Bool.true_and, beq_self_eq_true])

/-- The loop up to an index, by induction on the index. -/
theorem granting_foldl (req : BitVec N) (k : ℕ) :
    Granting req ((List.range k).foldl (loopBody req) 0#N) k := by
  induction k with
  | zero => exact granting_start req
  | succ k ih =>
    rw [List.range_succ, List.foldl_append]
    exact ih.step

/-! ### The whole block -/

theorem grant_zero (N : ℕ) : grant 0#N = 0#N :=
  (granting_foldl 0#N N).idle fun _ _ => BitVec.getLsbD_zero

theorem grant_eq_twoPow {i : ℕ} (h : IsLowest req i) : grant req = BitVec.twoPow N i :=
  (granting_foldl req N).granted i h.lt h

theorem getLsbD_grant {i : ℕ} (h : IsLowest req i) (j : ℕ) :
    (grant req).getLsbD j = decide (j = i) := by
  rw [grant_eq_twoPow h, BitVec.getLsbD_twoPow, decide_eq_true h.lt, Bool.true_and]
  exact decide_eq_decide.mpr eq_comm

/-- **The arbiter grants the lowest request and no other**, and nothing when nothing is
    requested. -/
theorem grant_lowest (N : ℕ) (req : BitVec N) :
    (req = 0#N → grant req = 0#N) ∧
      (req ≠ 0#N → ∃ i < N, IsLowest req i ∧ ∀ j, (grant req).getLsbD j = decide (j = i)) ∧
      grant req &&& req = grant req ∧
      ∀ j, (grant req).getLsbD j = true → ∀ k < j, req.getLsbD k = false := by
  by_cases hreq : req = 0#N
  · subst hreq
    rw [grant_zero]
    refine ⟨fun _ => rfl, fun hne => absurd rfl hne, BitVec.zero_and, fun j hj => ?_⟩
    rw [BitVec.getLsbD_zero] at hj
    exact absurd hj (by decide)
  · obtain ⟨i, hlow⟩ := exists_isLowest hreq
    have hbits := getLsbD_grant hlow
    refine ⟨fun h => absurd h hreq, fun _ => ⟨i, hlow.lt, hlow, hbits⟩, ?_, fun j hj => ?_⟩
    · apply BitVec.eq_of_getLsbD_eq
      intro j _
      rw [BitVec.getLsbD_and, hbits]
      by_cases hji : j = i
      · rw [hji, hlow.requested, Bool.and_true]
      · rw [decide_eq_false hji, Bool.false_and]
    · rw [hbits, decide_eq_true_iff] at hj
      subst hj
      exact hlow.lower

example : grant 0b1010#4 = 0b0010#4 := by decide

end Arbiter

end AccelSim
