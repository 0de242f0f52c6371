import Mathlib.Data.List.Basic
import Mathlib.Data.Nat.ModEq
import Mathlib.Logic.Function.Basic

/-!
# Ring buffers

A circular array with the indices of the next slot to read and to write, and the
number of slots in use. What is stored is read from the head for as many places
as are in use; pushing adds to its end, popping takes from its front.

## Main definitions

- `RingBuffer` — the array and its indices
- `RingBuffer.contents` — what is stored
- `RingBuffer.WellFormed` — how the two indices and the number fit together
- `RingBuffer.push`, `RingBuffer.pop` — the two operations
- `RingBuffer.Holds` — the indices fit together, and what is stored is a given list
-/

/-- A circular array. Slots from the capacity on are never used. -/
structure RingBuffer (α : Type*) where
  slots : ℕ → α
  capacity : ℕ
  head : ℕ
  tail : ℕ
  count : ℕ

namespace RingBuffer

variable {α : Type*} (r : RingBuffer α)

/-- The slot of the element in place `k`. -/
def index (k : ℕ) : ℕ := (r.head + k) % r.capacity

/-- What is stored, the oldest first. -/
def contents : List α := (List.range r.count).map fun k => r.slots (r.index k)

structure WellFormed : Prop where
  head_lt : r.head < r.capacity
  tail_eq : r.tail = (r.head + r.count) % r.capacity
  count_le : r.count ≤ r.capacity

def front : α := r.slots r.head

def push (a : α) : RingBuffer α :=
  { r with
    slots := Function.update r.slots r.tail a
    tail := (r.tail + 1) % r.capacity
    count := r.count + 1 }

def pop : RingBuffer α :=
  { r with
    head := (r.head + 1) % r.capacity
    count := r.count - 1 }

variable {r}

@[simp] theorem length_contents : r.contents.length = r.count := by
  rw [contents, List.length_map, List.length_range]

theorem contents_eq_nil_iff : r.contents = [] ↔ r.count = 0 := by
  rw [← List.length_eq_zero_iff, length_contents]

/-- Different places within the capacity are in different slots. -/
theorem index_ne {j k : ℕ} (hjk : j < k) (hk : k < r.capacity) : r.index j ≠ r.index k := by
  intro heq
  have hmod : j ≡ k [MOD r.capacity] := Nat.ModEq.add_left_cancel' r.head heq
  rw [Nat.ModEq, Nat.mod_eq_of_lt (hjk.trans hk), Nat.mod_eq_of_lt hk] at hmod
  exact Nat.ne_of_lt hjk hmod

namespace WellFormed

variable (h : r.WellFormed)
include h

theorem capacity_pos : 0 < r.capacity := Nat.zero_lt_of_lt h.head_lt

theorem tail_lt : r.tail < r.capacity := h.tail_eq ▸ Nat.mod_lt _ h.capacity_pos

/-! ### Pushing -/

theorem push (a : α) (hroom : r.count < r.capacity) : (r.push a).WellFormed where
  head_lt := h.head_lt
  tail_eq := by
    show (r.tail + 1) % r.capacity = (r.head + (r.count + 1)) % r.capacity
    rw [h.tail_eq, Nat.mod_add_mod, Nat.add_assoc]
  count_le := hroom

theorem contents_push (a : α) (hroom : r.count < r.capacity) :
    (r.push a).contents = r.contents ++ [a] := by
  have htail : r.index r.count = r.tail := h.tail_eq.symm
  show (List.range (r.count + 1)).map (fun k => Function.update r.slots r.tail a (r.index k)) = _
  rw [List.range_succ, List.map_append, List.map_singleton, htail, Function.update_self]
  apply congrArg (· ++ [a])
  apply List.map_congr_left
  intro k hk
  -- the slot that is written is behind every slot in use
  have hne := index_ne (List.mem_range.mp hk) hroom
  rw [htail] at hne
  exact Function.update_of_ne hne _ _

/-! ### Popping -/

theorem pop (hne : 0 < r.count) : r.pop.WellFormed where
  head_lt := Nat.mod_lt _ h.capacity_pos
  tail_eq := by
    show r.tail = ((r.head + 1) % r.capacity + (r.count - 1)) % r.capacity
    rw [h.tail_eq, Nat.mod_add_mod, Nat.add_assoc, Nat.add_sub_cancel' hne]
  count_le := (Nat.sub_le _ _).trans h.count_le

theorem contents_pop (hne : 0 < r.count) : r.contents = r.front :: r.pop.contents := by
  obtain ⟨n, hn⟩ := Nat.exists_eq_succ_of_ne_zero (Nat.ne_of_gt hne)
  have hcount : r.pop.count = n := by
    show r.count - 1 = n
    rw [hn]
    rfl
  have hhead : r.index 0 = r.head := Nat.mod_eq_of_lt h.head_lt
  rw [contents, hn, List.range_succ_eq_map, List.map_cons, hhead, List.map_map, contents, hcount]
  apply congrArg (r.front :: ·)
  apply List.map_congr_left
  intro k _
  show r.slots ((r.head + (k + 1)) % r.capacity) =
    r.slots (((r.head + 1) % r.capacity + k) % r.capacity)
  rw [Nat.mod_add_mod, Nat.add_assoc, Nat.add_comm 1 k]

end WellFormed

/-! ### The list that is stored -/

/-- The buffer is well formed and stores the items of `l`. -/
structure Holds (r : RingBuffer α) (l : List α) : Prop where
  wellFormed : r.WellFormed
  contents : r.contents = l

namespace Holds

variable {l : List α} (h : r.Holds l)
include h

theorem count_eq : r.count = l.length := by
  rw [← h.contents, length_contents]

theorem length_le : l.length ≤ r.capacity := h.count_eq ▸ h.wellFormed.count_le

theorem push (a : α) (hroom : l.length < r.capacity) : (r.push a).Holds (l ++ [a]) := by
  have hcount : r.count < r.capacity := h.count_eq.trans_lt hroom
  constructor
  case wellFormed => exact h.wellFormed.push a hcount
  case contents => rw [h.wellFormed.contents_push a hcount, h.contents]

theorem pop {a : α} {rest : List α} (hl : l = a :: rest) : r.front = a ∧ r.pop.Holds rest := by
  have hcount : 0 < r.count := by
    rw [h.count_eq, hl]
    exact Nat.succ_pos _
  have hcons := h.wellFormed.contents_pop hcount
  rw [h.contents, hl] at hcons
  obtain ⟨hfront, hrest⟩ := List.cons.inj hcons
  exact ⟨hfront.symm, h.wellFormed.pop hcount, hrest.symm⟩

end Holds

/-! ### Slots in a list -/

/-- Writing to a list is writing to the slots that it stands for. -/
theorem getD_set_eq_update (slots : List α) {i : ℕ} (hi : i < slots.length) (a d : α) :
    (fun j => (slots.set i a).getD j d) = Function.update (fun j => slots.getD j d) i a := by
  funext j
  by_cases hj : j = i
  · subst hj
    rw [Function.update_self, List.getD_eq_getElem?_getD, List.getElem?_set_self hi]
    rfl
  · rw [Function.update_of_ne hj, List.getD_eq_getElem?_getD, List.getElem?_set_ne (Ne.symm hj),
      List.getD_eq_getElem?_getD]

/-! ### The empty buffer -/

/-- A buffer with nothing in it. -/
def empty (slots : ℕ → α) (capacity : ℕ) : RingBuffer α where
  slots := slots
  capacity := capacity
  head := 0
  tail := 0
  count := 0

theorem wellFormed_empty (slots : ℕ → α) {capacity : ℕ} (h : 0 < capacity) :
    (empty slots capacity).WellFormed :=
  ⟨h, (Nat.mod_eq_of_lt h).symm, Nat.zero_le _⟩

theorem holds_empty (slots : ℕ → α) {capacity : ℕ} (h : 0 < capacity) :
    (empty slots capacity).Holds [] :=
  ⟨wellFormed_empty slots h, rfl⟩

end RingBuffer
