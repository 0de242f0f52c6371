import AccelSimLite.Lib.RingBuffer
import Mathlib.Data.List.GetD
import Mathlib.Data.UInt

/-!
# The firmware ring buffer

A model of the ring buffer of the firmware, with its indices in the machine integers
of the code. After any calls, whatever the head has become, the buffer returns what a
bounded FIFO returns.

## Main definitions

- `FirmwareValidation.FwRingBuffer` — the buffer, with its functions
- `FirmwareValidation.RingCall`, `FwRingBuffer.calls` — a sequence of calls
- `FirmwareValidation.fifoCalls` — what a bounded FIFO returns for them

## Main results

- `FirmwareValidation.FwRingBuffer.exists_call` — one call
- `FirmwareValidation.ring_buffer_refines_fifo` — a sequence of calls

## Design notes

An access outside the array is undefined, and the functions then return `none`. The
pointers that a caller passes do not point into the buffer.
-/

namespace AccelSim

namespace FirmwareValidation

/-- `FW_RING_BUFFER_CAPACITY`. -/
abbrev fwRingBufferCapacity : ℕ := 8

structure FwRingBuffer where
  data : Vector UInt8 fwRingBufferCapacity
  head : UInt64
  tail : UInt64
  count : UInt64
  deriving DecidableEq

namespace FwRingBuffer

/-- The array keeps what is in it. -/
def init (rb : FwRingBuffer) : FwRingBuffer := { rb with head := 0, tail := 0, count := 0 }

def isEmpty (rb : FwRingBuffer) : Bool := rb.count = 0

def isFull (rb : FwRingBuffer) : Bool := rb.count = UInt64.ofNat fwRingBufferCapacity

def size (rb : FwRingBuffer) : UInt64 := rb.count

/-- The returned value, and the buffer after the call. -/
def push (rb : FwRingBuffer) (value : UInt8) : Option (Bool × FwRingBuffer) :=
  if rb.isFull then some (false, rb)
  else if h : rb.tail.toNat < fwRingBufferCapacity then
    some (true,
      { rb with
        data := rb.data.set rb.tail.toNat value
        tail := (rb.tail + 1) % UInt64.ofNat fwRingBufferCapacity
        count := rb.count + 1 })
  else none

/-- The returned value, the buffer after the call, and `*out`. -/
def pop (rb : FwRingBuffer) (out : UInt8) : Option (Bool × FwRingBuffer × UInt8) :=
  if rb.isEmpty then some (false, rb, out)
  else if h : rb.head.toNat < fwRingBufferCapacity then
    some (true,
      { rb with
        head := (rb.head + 1) % UInt64.ofNat fwRingBufferCapacity
        count := rb.count - 1 },
      rb.data[rb.head.toNat])
  else none

end FwRingBuffer

/-! ### Calls -/

/-- A call. A pop is given what `*out` holds before it. -/
inductive RingCall
  | push (value : UInt8)
  | pop (out : UInt8)
  deriving DecidableEq, Repr

/-- What a caller sees: the returned value, `*out` after a pop, and the size. -/
structure RingReturn where
  returned : Bool
  out : Option UInt8
  size : ℕ
  deriving DecidableEq, Repr

namespace FwRingBuffer

def call (rb : FwRingBuffer) : RingCall → Option (RingReturn × FwRingBuffer)
  | .push value => (rb.push value).map fun (returned, rb') =>
    (⟨returned, none, rb'.size.toNat⟩, rb')
  | .pop out => (rb.pop out).map fun (returned, rb', out') =>
    (⟨returned, some out', rb'.size.toNat⟩, rb')

def calls (rb : FwRingBuffer) : List RingCall → Option (List RingReturn × FwRingBuffer)
  | [] => some ([], rb)
  | c :: rest => do
    let (r, rb') ← rb.call c
    let (rs, last) ← rb'.calls rest
    some (r :: rs, last)

end FwRingBuffer

/-- A call of a FIFO that holds at most `fwRingBufferCapacity` bytes. -/
def fifoCall (l : List UInt8) : RingCall → RingReturn × List UInt8
  | .push value =>
    if l.length < fwRingBufferCapacity then (⟨true, none, l.length + 1⟩, l ++ [value])
    else (⟨false, none, l.length⟩, l)
  | .pop out =>
    match l with
    | [] => (⟨false, some out, 0⟩, [])
    | a :: rest => (⟨true, some a, rest.length⟩, rest)

def fifoCalls (l : List UInt8) : List RingCall → List RingReturn × List UInt8
  | [] => ([], l)
  | c :: rest =>
    let (r, l') := fifoCall l c
    let (rs, last) := fifoCalls l' rest
    (r :: rs, last)

/-! ### The buffer as a ring -/

namespace FwRingBuffer

variable {rb : FwRingBuffer} {l : List UInt8}

def ring (rb : FwRingBuffer) : RingBuffer UInt8 where
  slots i := rb.data.toList.getD i 0
  capacity := fwRingBufferCapacity
  head := rb.head.toNat
  tail := rb.tail.toNat
  count := rb.count.toNat

theorem holds_init (rb : FwRingBuffer) : rb.init.ring.Holds [] :=
  RingBuffer.holds_empty rb.ring.slots (by decide)

theorem toNat_succ {x : UInt64} (hx : x.toNat < fwRingBufferCapacity) :
    (x + 1).toNat = x.toNat + 1 := by
  rw [UInt64.toNat_add]
  exact Nat.mod_eq_of_lt ((Nat.succ_le_of_lt hx).trans_lt (by decide))

/-- An index that is inside the array moves on to the next slot, or to the first. -/
theorem toNat_next {i : UInt64} (hi : i.toNat < fwRingBufferCapacity) :
    ((i + 1) % UInt64.ofNat fwRingBufferCapacity).toNat =
      (i.toNat + 1) % fwRingBufferCapacity := by
  rw [UInt64.toNat_mod, toNat_succ hi]
  rfl

theorem isFull_iff (h : rb.ring.Holds l) :
    rb.isFull = true ↔ l.length = fwRingBufferCapacity := by
  rw [isFull, decide_eq_true_iff, ← UInt64.toNat_inj]
  exact Eq.congr_left h.count_eq

theorem isEmpty_iff (h : rb.ring.Holds l) : rb.isEmpty = true ↔ l = [] := by
  rw [isEmpty, decide_eq_true_iff, ← UInt64.toNat_inj, ← List.length_eq_zero_iff]
  exact Eq.congr_left h.count_eq

theorem toNat_size (h : rb.ring.Holds l) : rb.size.toNat = l.length := h.count_eq

/-! ### One call -/

theorem push_of_full (h : rb.ring.Holds l) (hfull : l.length = fwRingBufferCapacity)
    (value : UInt8) : rb.push value = some (false, rb) := if_pos ((isFull_iff h).mpr hfull)

theorem pop_of_empty (h : rb.ring.Holds []) (out : UInt8) :
    rb.pop out = some (false, rb, out) := if_pos ((isEmpty_iff h).mpr rfl)

theorem exists_push (h : rb.ring.Holds l) (hroom : l.length < fwRingBufferCapacity)
    (value : UInt8) :
    ∃ rb', rb.push value = some (true, rb') ∧ rb'.ring.Holds (l ++ [value]) := by
  have hfull : ¬rb.isFull = true := fun hf => Nat.ne_of_lt hroom ((isFull_iff h).mp hf)
  have htail : rb.tail.toNat < fwRingBufferCapacity := h.wellFormed.tail_lt
  have hcount : (rb.count + 1).toNat = rb.count.toNat + 1 :=
    toNat_succ (h.count_eq.trans_lt hroom)
  refine ⟨_, by rw [push, if_neg hfull, dif_pos htail], ?_⟩
  have hring : ring { rb with
      data := rb.data.set rb.tail.toNat value
      tail := (rb.tail + 1) % UInt64.ofNat fwRingBufferCapacity
      count := rb.count + 1 } = rb.ring.push value := by
    have hlength : rb.tail.toNat < rb.data.toList.length := by
      rw [Vector.length_toList]
      exact htail
    rw [ring, hcount, toNat_next htail, Vector.toList_set,
      RingBuffer.getD_set_eq_update _ hlength]
    rfl
  rw [hring]
  exact h.push value hroom

theorem exists_pop {a : UInt8} {rest : List UInt8} (h : rb.ring.Holds (a :: rest))
    (out : UInt8) : ∃ rb', rb.pop out = some (true, rb', a) ∧ rb'.ring.Holds rest := by
  have hempty : ¬rb.isEmpty = true := fun he => List.cons_ne_nil a rest ((isEmpty_iff h).mp he)
  have hhead : rb.head.toNat < fwRingBufferCapacity := h.wellFormed.head_lt
  obtain ⟨hfront, hholds⟩ := h.pop rfl
  have hread : rb.data[rb.head.toNat] = a := by
    have hlength : rb.head.toNat < rb.data.toList.length := by
      rw [Vector.length_toList]
      exact hhead
    rw [← hfront, ← Vector.getElem_toList hlength]
    exact (List.getD_eq_getElem rb.data.toList 0 hlength).symm
  have hcount : (rb.count - 1).toNat = rb.count.toNat - 1 := by
    apply UInt64.toNat_sub_of_le
    rw [UInt64.le_iff_toNat_le]
    exact (Nat.succ_le_of_lt (Nat.succ_pos rest.length)).trans_eq h.count_eq.symm
  refine ⟨_, by rw [pop, if_neg hempty, dif_pos hhead, hread], ?_⟩
  have hring : ring { rb with
      head := (rb.head + 1) % UInt64.ofNat fwRingBufferCapacity
      count := rb.count - 1 } = rb.ring.pop := by
    rw [ring, hcount, toNat_next hhead]
    rfl
  rw [hring]
  exact hholds

theorem call_push {value : UInt8} {returned : Bool} {rb' : FwRingBuffer}
    (h : rb.push value = some (returned, rb')) :
    rb.call (.push value) = some (⟨returned, none, rb'.size.toNat⟩, rb') := by
  rw [call, h]
  rfl

theorem call_pop {out out' : UInt8} {returned : Bool} {rb' : FwRingBuffer}
    (h : rb.pop out = some (returned, rb', out')) :
    rb.call (.pop out) = some (⟨returned, some out', rb'.size.toNat⟩, rb') := by
  rw [call, h]
  rfl

/-- One call returns what the FIFO returns, and leaves what the FIFO holds. -/
theorem exists_call (h : rb.ring.Holds l) (c : RingCall) :
    ∃ rb', rb.call c = some ((fifoCall l c).1, rb') ∧ rb'.ring.Holds (fifoCall l c).2 := by
  cases c with
  | push value =>
    by_cases hroom : l.length < fwRingBufferCapacity
    · obtain ⟨rb', hpush, hholds⟩ := exists_push h hroom value
      have hsize : rb'.size.toNat = l.length + 1 := by
        rw [toNat_size hholds, List.length_append, List.length_singleton]
      rw [fifoCall, if_pos hroom]
      exact ⟨rb', by rw [call_push hpush, hsize], hholds⟩
    · have hfull : l.length = fwRingBufferCapacity :=
        Nat.le_antisymm h.length_le (Nat.le_of_not_lt hroom)
      rw [fifoCall, if_neg hroom]
      exact ⟨rb, by rw [call_push (push_of_full h hfull value), toNat_size h], h⟩
  | pop out =>
    cases l with
    | nil =>
      refine ⟨rb, ?_, h⟩
      rw [call_pop (pop_of_empty h out), toNat_size h]
      rfl
    | cons a rest =>
      obtain ⟨rb', hpop, hholds⟩ := exists_pop h out
      refine ⟨rb', ?_, hholds⟩
      rw [call_pop hpop, toNat_size hholds]
      rfl

/-- A sequence of calls, by induction on the sequence. -/
theorem exists_calls (h : rb.ring.Holds l) (cs : List RingCall) :
    ∃ rb', rb.calls cs = some ((fifoCalls l cs).1, rb') ∧ rb'.ring.Holds (fifoCalls l cs).2 := by
  induction cs generalizing rb l with
  | nil => exact ⟨rb, rfl, h⟩
  | cons c rest ih =>
    obtain ⟨next, hcall, hnext⟩ := exists_call h c
    obtain ⟨rb', hcalls, hholds⟩ := ih hnext
    refine ⟨rb', ?_, hholds⟩
    rw [calls, hcall]
    show (next.calls rest).bind _ = _
    rw [hcalls]
    rfl

end FwRingBuffer

/-- **The ring buffer is a bounded FIFO.** After `init`, every sequence of calls returns
    what the FIFO returns and never leaves the array. A push on a full buffer and a pop
    on an empty one change nothing. -/
theorem ring_buffer_refines_fifo (uninitialised : FwRingBuffer) (cs : List RingCall) :
    ∃ rb : FwRingBuffer,
      uninitialised.init.calls cs = some ((fifoCalls [] cs).1, rb) ∧
      rb.size.toNat = (fifoCalls [] cs).2.length ∧
      (rb.isFull = true ↔ (fifoCalls [] cs).2.length = fwRingBufferCapacity) ∧
      (rb.isEmpty = true ↔ (fifoCalls [] cs).2 = []) ∧
      (rb.isFull = true → ∀ value, rb.push value = some (false, rb)) ∧
      (rb.isEmpty = true → ∀ out, rb.pop out = some (false, rb, out)) ∧
      rb.head.toNat < fwRingBufferCapacity ∧ rb.tail.toNat < fwRingBufferCapacity ∧
      rb.tail.toNat = (rb.head.toNat + rb.count.toNat) % fwRingBufferCapacity := by
  obtain ⟨rb, hcalls, h⟩ := FwRingBuffer.exists_calls (FwRingBuffer.holds_init uninitialised) cs
  have hfull := FwRingBuffer.isFull_iff h
  have hempty := FwRingBuffer.isEmpty_iff h
  refine ⟨rb, hcalls, FwRingBuffer.toNat_size h, hfull, hempty, ?_, ?_, h.wellFormed.head_lt,
    h.wellFormed.tail_lt, h.wellFormed.tail_eq⟩
  · intro hf value
    exact FwRingBuffer.push_of_full h (hfull.mp hf) value
  · intro he out
    rw [hempty.mp he] at h
    exact FwRingBuffer.pop_of_empty h out

example :
    ((⟨Vector.replicate 8 0, 3, 1, 5⟩ : FwRingBuffer).init.calls
      [.pop 9, .push 1, .push 2, .pop 9]).map Prod.fst =
      some [⟨false, some 9, 0⟩, ⟨true, none, 1⟩, ⟨true, none, 2⟩, ⟨true, some 1, 1⟩] := by
  decide

end FirmwareValidation

end AccelSim
