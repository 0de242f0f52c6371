import AccelSimLite.TrajectoryGraph.Turns
import Mathlib

/-!
# Angles in the plane

With real coordinates, the square root and the arc cosine, the two functions of points are
the distance and the angle of plane geometry, and the turns of a route do not depend on
where in the plane it lies and on its scale.

## Main definitions

- `Point.position` — a point of the plane
- `TrajectoryGraph.Similar` — one graph is a scaled, turned and moved copy of the other

## Main results

- `distanceBetween_eq_dist`, `turnAngleDegrees_eq_angle` — the two functions
- `turnTransitions_eq_of_similar` — a similar route has as many turns
-/

namespace AccelSim

open InnerProductGeometry

def Point.position (point : Point ℝ) : ℂ := ⟨point.x, point.y⟩

theorem sqrt_eq_norm (a b : Point ℝ) :
    Real.sqrt ((b.x - a.x) * (b.x - a.x) + (b.y - a.y) * (b.y - a.y)) =
      ‖b.position - a.position‖ := by
  rw [Complex.norm_def, Complex.normSq_apply]
  rfl

theorem distanceBetween_eq_dist (a b : Point ℝ) :
    distanceBetween Real.sqrt a b = dist a.position b.position := by
  rw [dist_comm, dist_eq_norm, ← sqrt_eq_norm]
  rfl

theorem inner_eq (a b c : Point ℝ) :
    (b.x - a.x) * (c.x - b.x) + (b.y - a.y) * (c.y - b.y) =
      inner ℝ (b.position - a.position) (c.position - b.position) := by
  rw [Complex.inner]
  simp [Point.position]
  ring

/-- The quotient needs no clamping. -/
theorem clamp_inner (u v : ℂ) :
    clamp (inner ℝ u v / (‖u‖ * ‖v‖)) (-1) 1 = inner ℝ u v / (‖u‖ * ‖v‖) := by
  have habs := abs_le.mp (abs_real_inner_div_norm_mul_norm_le_one u v)
  rw [clamp, if_neg (not_lt.mpr habs.1), if_neg (not_lt.mpr habs.2)]

/-- The angle by which a corner turns, in degrees. -/
theorem turnAngleDegrees_eq_angle (a b c : Point ℝ) :
    turnAngleDegrees Real.sqrt Real.arccos a b c =
      if b.position - a.position = 0 ∨ c.position - b.position = 0 then 0
      else angle (b.position - a.position) (c.position - b.position) * 180 / kPi := by
  simp only [turnAngleDegrees, sqrt_eq_norm, inner_eq, clamp_inner, norm_eq_zero]
  rfl

namespace TrajectoryGraph

/-- One graph is a copy of the other, scaled by `r`, turned or mirrored by `φ` and moved by
    `t`. -/
def Similar (φ : ℂ →ₗᵢ[ℝ] ℂ) (r : ℝ) (t : ℂ) (graph graph' : TrajectoryGraph ℝ) : Prop :=
  ∀ id, (graph'.points.lookup id).map Point.position =
    (graph.points.lookup id).map fun point => r • φ point.position + t

variable {φ : ℂ →ₗᵢ[ℝ] ℂ} {r : ℝ} {t : ℂ} {graph graph' : TrajectoryGraph ℝ}

theorem Similar.mem_iff (h : Similar φ r t graph graph') (id : UInt64) :
    id ∈ graph'.points ↔ id ∈ graph.points := by
  have hid := congrArg Option.isSome (h id)
  rw [Option.isSome_map, Option.isSome_map] at hid
  rw [← Finmap.lookup_isSome, ← Finmap.lookup_isSome, hid]

/-- A similarity keeps the angles. -/
theorem turnAngleDegrees_eq_of_similar (hr : r ≠ 0) {a b c a' b' c' : Point ℝ}
    (ha : a'.position = r • φ a.position + t) (hb : b'.position = r • φ b.position + t)
    (hc : c'.position = r • φ c.position + t) :
    turnAngleDegrees Real.sqrt Real.arccos a' b' c' =
      turnAngleDegrees Real.sqrt Real.arccos a b c := by
  have hleg (u v : ℂ) : r • φ v + t - (r • φ u + t) = r • φ (v - u) := by
    rw [add_sub_add_right_eq_sub, ← smul_sub, map_sub]
  have hzero (u : ℂ) : r • φ u = 0 ↔ u = 0 := by
    rw [smul_eq_zero_iff_right hr, map_eq_zero_iff φ φ.injective]
  simp only [turnAngleDegrees_eq_angle, ha, hb, hc, hleg, hzero, angle_smul_smul hr,
    LinearIsometry.angle_map]

theorem turnsAt_eq_of_similar (hr : r ≠ 0) (h : Similar φ r t graph graph')
    (minimumTurnDegrees : ℝ) (a b c : UInt64) :
    graph'.turnsAt Real.sqrt Real.arccos minimumTurnDegrees a b c =
      graph.turnsAt Real.sqrt Real.arccos minimumTurnDegrees a b c := by
  have hlookup (id : UInt64) :
      (∃ p p', graph.points.lookup id = some p ∧ graph'.points.lookup id = some p' ∧
        p'.position = r • φ p.position + t) ∨
      graph.points.lookup id = none ∧ graph'.points.lookup id = none := by
    have hid := h id
    cases hp : graph.points.lookup id <;> cases hp' : graph'.points.lookup id <;>
      rw [hp, hp'] at hid <;> simp_all
  rw [turnsAt, turnsAt]
  rcases hlookup a with ⟨p, p', hp, hp', ha⟩ | ⟨hp, hp'⟩
  · rcases hlookup b with ⟨q, q', hq, hq', hb⟩ | ⟨hq, hq'⟩
    · rcases hlookup c with ⟨o, o', ho, ho', hc⟩ | ⟨ho, ho'⟩
      · rw [hp, hp', hq, hq', ho, ho']
        simp only [turnAngleDegrees_eq_of_similar hr ha hb hc]
      · rw [hp, hp', hq, hq', ho, ho']
    · rw [hp, hp', hq, hq']
  · rw [hp, hp']

/-- **Turns do not depend on position, orientation and scale.** A route through a scaled,
    turned or mirrored, and moved copy of a graph has as many turns. -/
theorem turnTransitions_eq_of_similar (φ : ℂ →ₗᵢ[ℝ] ℂ) {r : ℝ} (hr : r ≠ 0) (t : ℂ)
    {graph graph' : TrajectoryGraph ℝ} (h : Similar φ r t graph graph') (route : List UInt64)
    (minimumTurnDegrees : ℝ) :
    graph'.turnTransitions Real.sqrt Real.arccos route minimumTurnDegrees =
      graph.turnTransitions Real.sqrt Real.arccos route minimumTurnDegrees := by
  rw [turnTransitions_eq, turnTransitions_eq]
  simp only [h.mem_iff, turnCount, turnsAt_eq_of_similar hr h]

/-- Three corners of a square of the given side. -/
def squareCorner (side : ℝ) : TrajectoryGraph ℝ :=
  ((({} : TrajectoryGraph ℝ).addPoint ⟨1, 0, 0⟩).addPoint ⟨2, side, 0⟩).addPoint ⟨3, side, side⟩

/-- A square of twice the side. -/
theorem turnTransitions_eq_of_similar_squareCorner :
    (squareCorner 2).turnTransitions Real.sqrt Real.arccos [1, 2, 3] 20 =
      (squareCorner 1).turnTransitions Real.sqrt Real.arccos [1, 2, 3] 20 := by
  refine turnTransitions_eq_of_similar LinearIsometry.id two_ne_zero 0 ?_ [1, 2, 3] 20
  intro id
  simp only [squareCorner, addPoint, lookup_insert]
  split_ifs <;> simp [Point.position, Complex.ext_iff]

end TrajectoryGraph

end AccelSim
