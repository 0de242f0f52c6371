import Mathlib.Data.List.Induction
import Mathlib.Data.List.TakeWhile
import Mathlib.Data.UInt
import Mathlib.Tactic.Common

/-!
# The memory controller

A model of `memory_controller.cpp`, a queue of requests that are ready a fixed time after
they have been issued. A tick looks at the front of the queue only. The requests come back
in order, and each in the first tick that is not too early, as long as the clock of the
callers does not go back.

## Main definitions

- `MemoryController.issue`, `MemoryController.tick` — the two functions
- `MemoryCall`, `MemoryController.calls` — a client, and what its ticks return
- `MemoryController.NoOverflow` — the cycles in which the requests are ready can be counted
- `MemoryController.InOrder` — the clock of the client does not go back

## Main results

- `MemoryController.returned_append_q` — nothing is lost, doubled or overtaken
- `MemoryController.calls_spec` — what has been returned after any tick

## Design notes

Cycle numbers are values of `int`. The sum that `issue` forms is undefined where it
overflows, and here it wraps around; what is said of the returns is said of clients for
which it does not.
-/

namespace AccelSim

structure MemReq where
  instrId : UInt64
  readyCycle : Int32
  deriving DecidableEq, Repr

structure MemoryController where
  fixedLatency : Int32
  q : List MemReq := []
  deriving DecidableEq, Repr

namespace MemoryController

def issue (controller : MemoryController) (instrId : UInt64) (nowCycle : Int32) :
    MemoryController :=
  { controller with q := controller.q ++ [⟨instrId, nowCycle + controller.fixedLatency⟩] }

/-- The loop of `tick`: what is returned, and what is left of the queue. -/
def tickLoop (nowCycle : Int32) : List MemReq → List UInt64 × List MemReq
  | [] => ([], [])
  | front :: rest =>
    if front.readyCycle ≤ nowCycle then
      (front.instrId :: (tickLoop nowCycle rest).1, (tickLoop nowCycle rest).2)
    else ([], front :: rest)

def tick (controller : MemoryController) (nowCycle : Int32) : List UInt64 × MemoryController :=
  ((tickLoop nowCycle controller.q).1,
    { controller with q := (tickLoop nowCycle controller.q).2 })

end MemoryController

/-! ### Clients -/

inductive MemoryCall
  | issue (instrId : UInt64) (nowCycle : Int32)
  | tick (nowCycle : Int32)
  deriving DecidableEq, Repr

def MemoryCall.nowCycle : MemoryCall → Int32
  | .issue _ nowCycle => nowCycle
  | .tick nowCycle => nowCycle

namespace MemoryController

/-- The controller after a call, with all that has been returned so far. -/
def call (s : List UInt64 × MemoryController) : MemoryCall → List UInt64 × MemoryController
  | .issue instrId nowCycle => (s.1, s.2.issue instrId nowCycle)
  | .tick nowCycle => (s.1 ++ (s.2.tick nowCycle).1, (s.2.tick nowCycle).2)

def calls (fixedLatency : Int32) (cs : List MemoryCall) : List UInt64 × MemoryController :=
  cs.foldl call ([], { fixedLatency := fixedLatency })

/-- The requests of the calls, in the order in which they are issued. -/
def issued (fixedLatency : Int32) (cs : List MemoryCall) : List MemReq :=
  cs.filterMap fun
    | .issue instrId nowCycle => some ⟨instrId, nowCycle + fixedLatency⟩
    | .tick _ => none

/-- No sum that `issue` forms overflows. -/
def NoOverflow (fixedLatency : Int32) (cs : List MemoryCall) : Prop :=
  ∀ instrId nowCycle, .issue instrId nowCycle ∈ cs →
    -2 ^ 31 ≤ nowCycle.toInt + fixedLatency.toInt ∧ nowCycle.toInt + fixedLatency.toInt < 2 ^ 31

variable {fixedLatency nowCycle : Int32} {cs : List MemoryCall}

/-! ### One tick -/

theorem tickLoop_eq (nowCycle : Int32) (q : List MemReq) :
    tickLoop nowCycle q = ((q.takeWhile (·.readyCycle ≤ nowCycle)).map MemReq.instrId,
      q.dropWhile (·.readyCycle ≤ nowCycle)) := by
  induction q with
  | nil => rfl
  | cons front rest ih =>
    rw [tickLoop, ih]
    by_cases hready : front.readyCycle ≤ nowCycle <;> simp [hready]

/-! ### Any calls -/

theorem calls_concat (fixedLatency : Int32) (cs : List MemoryCall) (c : MemoryCall) :
    calls fixedLatency (cs ++ [c]) = call (calls fixedLatency cs) c := by
  simp only [calls, List.foldl_append, List.foldl_cons, List.foldl_nil]

theorem fixedLatency_calls (fixedLatency : Int32) (cs : List MemoryCall) :
    (calls fixedLatency cs).2.fixedLatency = fixedLatency := by
  induction cs using List.reverseRecOn with
  | nil => rfl
  | append_singleton cs c ih =>
    rw [calls_concat]
    cases c <;> exact ih

/-- Some requests have been returned, from the first one on and not too early, and the others
    are in the queue. -/
theorem exists_returned (fixedLatency : Int32) (cs : List MemoryCall) :
    ∃ returned, issued fixedLatency cs = returned ++ (calls fixedLatency cs).2.q ∧
      (calls fixedLatency cs).1 = returned.map MemReq.instrId ∧
      ∀ r ∈ returned, ∃ now, .tick now ∈ cs ∧ r.readyCycle ≤ now := by
  induction cs using List.reverseRecOn with
  | nil => exact ⟨[], rfl, rfl, fun r hr => absurd hr List.not_mem_nil⟩
  | append_singleton cs c ih =>
    obtain ⟨returned, hissued, hreturned, hready⟩ := ih
    have hbefore : ∀ r ∈ returned, ∃ now, .tick now ∈ cs ++ [c] ∧ r.readyCycle ≤ now :=
      fun r hr => (hready r hr).imp fun now h => ⟨List.mem_append_left _ h.1, h.2⟩
    rw [calls_concat, issued, List.filterMap_append, ← issued, hissued]
    cases c with
    | issue instrId now =>
      refine ⟨returned, ?_, hreturned, hbefore⟩
      simp [call, issue, fixedLatency_calls]
    | tick now =>
      refine ⟨returned ++ (calls fixedLatency cs).2.q.takeWhile (·.readyCycle ≤ now), ?_, ?_, ?_⟩
      · simp [call, tick, tickLoop_eq]
      · simp [call, tick, tickLoop_eq, hreturned]
      · intro r hr
        rcases List.mem_append.mp hr with hold | hnew
        · exact hbefore r hold
        · have hle := List.mem_takeWhile_imp hnew
          exact ⟨now, List.mem_append_right _ List.mem_cons_self, of_decide_eq_true hle⟩

/-- Nothing is lost, doubled or overtaken, whatever the clock does. -/
theorem returned_append_q (fixedLatency : Int32) (cs : List MemoryCall) :
    (calls fixedLatency cs).1 ++ (calls fixedLatency cs).2.q.map MemReq.instrId =
      (issued fixedLatency cs).map MemReq.instrId := by
  obtain ⟨returned, hissued, hreturned, -⟩ := exists_returned fixedLatency cs
  rw [hissued, hreturned, List.map_append]

/-! ### A clock that does not go back -/

/-- The calls come with a clock that does not go back. -/
def InOrder (cs : List MemoryCall) : Prop := cs.Pairwise fun c c' => c.nowCycle ≤ c'.nowCycle

/-- A request is ready the fixed time after it has been issued. -/
theorem NoOverflow.toInt_readyCycle (h : NoOverflow fixedLatency cs) {instrId : UInt64}
    (hmem : .issue instrId nowCycle ∈ cs) :
    (nowCycle + fixedLatency).toInt = nowCycle.toInt + fixedLatency.toInt := by
  obtain ⟨hlow, hhigh⟩ := h instrId nowCycle hmem
  rw [Int32.toInt_add, Int.bmod_eq_of_le (by omega) (by omega)]

theorem NoOverflow.readyCycle_le (h : NoOverflow fixedLatency cs) {instrId instrId' : UInt64}
    {nowCycle' : Int32} (hmem : .issue instrId nowCycle ∈ cs)
    (hmem' : .issue instrId' nowCycle' ∈ cs) (hle : nowCycle ≤ nowCycle') :
    nowCycle + fixedLatency ≤ nowCycle' + fixedLatency := by
  rw [Int32.le_iff_toInt_le] at hle ⊢
  rw [h.toInt_readyCycle hmem, h.toInt_readyCycle hmem']
  exact Int.add_le_add_right hle _

theorem InOrder.issued_sorted (h : InOrder cs) (hfits : NoOverflow fixedLatency cs) :
    (issued fixedLatency cs).Pairwise fun r r' => r.readyCycle ≤ r'.readyCycle := by
  refine List.Pairwise.filterMap _ (fun c c' hle r hr r' hr' => ?_)
    (List.Pairwise.and_mem.mp h)
  obtain ⟨hmem, hmem', hle⟩ := hle
  cases c with
  | tick => cases hr
  | issue =>
    cases c' with
    | tick => cases hr'
    | issue =>
      cases hr
      cases hr'
      exact hfits.readyCycle_le hmem hmem' hle

/-- What a tick leaves is not ready. -/
theorem not_ready_of_mem_dropWhile {q : List MemReq}
    (h : q.Pairwise fun r r' => r.readyCycle ≤ r'.readyCycle) {r : MemReq}
    (hr : r ∈ q.dropWhile (·.readyCycle ≤ nowCycle)) : nowCycle < r.readyCycle := by
  induction q with
  | nil => cases hr
  | cons front rest ih =>
    rw [List.pairwise_cons] at h
    by_cases hready : front.readyCycle ≤ nowCycle
    · rw [List.dropWhile_cons_of_pos (by simpa using hready)] at hr
      exact ih h.2 hr
    · rw [List.dropWhile_cons_of_neg (by simpa using hready)] at hr
      have hlate := Int32.not_le.mp hready
      rcases List.mem_cons.mp hr with rfl | hrest
      · exact hlate
      · exact Int32.lt_of_lt_of_le hlate (h.1 r hrest)

/-- After a tick all that is ready has been returned, and nothing else. -/
theorem InOrder.returned_eq (h : InOrder (cs ++ [.tick nowCycle]))
    (hfits : NoOverflow fixedLatency cs) :
    (calls fixedLatency (cs ++ [.tick nowCycle])).1 =
      ((issued fixedLatency cs).filter (·.readyCycle ≤ nowCycle)).map MemReq.instrId := by
  obtain ⟨returned, hissued, hreturned, hready⟩ :=
    exists_returned fixedLatency (cs ++ [.tick nowCycle])
  have hsame : issued fixedLatency (cs ++ [.tick nowCycle]) = issued fixedLatency cs := by
    simp [issued]
  obtain ⟨hpast, -, hlater⟩ := List.pairwise_append.mp h
  have hsorted := InOrder.issued_sorted hpast hfits
  obtain ⟨before, hbefore, -, -⟩ := exists_returned fixedLatency cs
  rw [hbefore, List.pairwise_append] at hsorted
  have hearly : returned.filter (·.readyCycle ≤ nowCycle) = returned := by
    rw [List.filter_eq_self]
    intro r hr
    obtain ⟨now, hnow, hle⟩ := hready r hr
    have hlast : now ≤ nowCycle := by
      rcases List.mem_append.mp hnow with hbefore | hself
      · exact hlater _ hbefore _ List.mem_cons_self
      · cases List.mem_singleton.mp hself
        exact Int32.le_rfl
    exact decide_eq_true (Int32.le_trans hle hlast)
  have hlate : (calls fixedLatency (cs ++ [.tick nowCycle])).2.q.filter
      (·.readyCycle ≤ nowCycle) = [] := by
    rw [List.filter_eq_nil_iff]
    intro r hr
    rw [calls_concat, call, tick, tickLoop_eq] at hr
    simpa using not_ready_of_mem_dropWhile hsorted.2.1 hr
  rw [← hsame, hissued, List.filter_append, hearly, hlate, List.append_nil, hreturned]

/-- **What a memory controller returns** to a client for which no sum overflows. Whatever the
    clock of the client does, what has been returned and then what is in the queue are the
    requests in the order in which they were issued. While the clock does not go back, a tick
    leaves exactly those behind whose time has not come. -/
theorem calls_spec (fixedLatency : Int32) (cs : List MemoryCall)
    (hfits : NoOverflow fixedLatency cs) :
    (calls fixedLatency cs).1 ++ (calls fixedLatency cs).2.q.map MemReq.instrId =
        (issued fixedLatency cs).map MemReq.instrId ∧
      ∀ nowCycle, InOrder (cs ++ [.tick nowCycle]) →
        (calls fixedLatency (cs ++ [.tick nowCycle])).1 =
          ((issued fixedLatency cs).filter (·.readyCycle ≤ nowCycle)).map MemReq.instrId :=
  ⟨returned_append_q fixedLatency cs, fun _ h => h.returned_eq hfits⟩

theorem calls_spec_twoRequests :
    (calls 3 ([.issue 1 10, .tick 11, .issue 2 12] ++ [.tick 13])).1 = [1] := by
  have hfits : NoOverflow 3 [.issue 1 10, .tick 11, .issue 2 12] := by
    intro instrId nowCycle hmem
    simp only [List.mem_cons, MemoryCall.issue.injEq, reduceCtorEq, List.not_mem_nil,
      or_false, false_or] at hmem
    obtain ⟨rfl, rfl⟩ | ⟨rfl, rfl⟩ := hmem <;> decide
  have hinOrder : InOrder ([.issue 1 10, .tick 11, .issue 2 12] ++ [.tick 13]) := by
    simp only [InOrder, List.cons_append, List.nil_append]
    decide
  rw [(calls_spec 3 _ hfits).2 13 hinOrder]
  decide

/-- When the clock goes back, a request waits behind one that is ready later. -/
example : (calls 3 [.issue 1 10, .issue 2 0, .tick 5, .tick 13]).1 = [1, 2] ∧
    (calls 3 [.issue 1 10, .issue 2 0, .tick 5]).1 = [] := by
  decide

end MemoryController

end AccelSim
