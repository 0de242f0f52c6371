import AccelSimLite.Lib.RingBuffer
import Mathlib.Data.Nat.Log

/-!
# The FIFO module

A model of `fifo.sv` for every width and depth. The pointers have `$clog2(DEPTH)`
bits and wrap at a power of two, while the memory has `DEPTH` words. Where the two
agree the registers are a ring buffer; where they do not, the pointers pass behind
the memory, and what is written there is lost.

## Main definitions

- `FifoRegs`, `FifoRegs.alwaysFF` — the registers and the clocked process
- `fifoCycle` — what a cycle does to a bounded FIFO
- `FifoRegs.Implements` — the outputs are those of the FIFO

## Main results

- `FifoRegs.Simulates.cycle` — one cycle, for a depth that is a power of two
- `FifoRegs.implements_iff` — the depths for which the module is a FIFO

## Design notes

A word that was never written, or lies outside the memory, reads as unknown. A
write outside the memory is discarded.
-/

namespace AccelSim

/-- The registers of the module. -/
structure FifoRegs (width depth : ℕ) where
  mem : Fin depth → Option (BitVec width)
  rdPtr : BitVec (Nat.clog 2 depth)
  wrPtr : BitVec (Nat.clog 2 depth)
  count : BitVec (Nat.clog 2 (depth + 1))

/-- The inputs of the module in a cycle. -/
structure FifoInput (width : ℕ) where
  push : Bool
  pop : Bool
  dataIn : BitVec width
  deriving DecidableEq, Repr

namespace FifoRegs

variable {width depth : ℕ}

/-- `mem[i]` as an expression. -/
def read (mem : Fin depth → Option (BitVec width)) (i : ℕ) : Option (BitVec width) :=
  if h : i < depth then mem ⟨i, h⟩ else none

/-- The memory after `mem[i] <= value`. -/
def write (mem : Fin depth → Option (BitVec width)) (i : ℕ) (value : BitVec width) :
    Fin depth → Option (BitVec width) :=
  fun j => if j.val = i then some value else mem j

def full (s : FifoRegs width depth) : Bool := s.count.toNat = depth

def empty (s : FifoRegs width depth) : Bool := s.count.toNat = 0

def dataOut (s : FifoRegs width depth) : Option (BitVec width) := read s.mem s.rdPtr.toNat

/-- The assignments of a cycle in which a push and a pop are accepted or not. -/
def clock (s : FifoRegs width depth) (doPush doPop : Bool) (dataIn : BitVec width) :
    FifoRegs width depth where
  mem := if doPush then write s.mem s.wrPtr.toNat dataIn else s.mem
  wrPtr := if doPush then s.wrPtr + 1 else s.wrPtr
  rdPtr := if doPop then s.rdPtr + 1 else s.rdPtr
  count :=
    match doPush, doPop with
    | true, false => s.count + 1
    | false, true => s.count - 1
    | _, _ => s.count

/-- The clocked process. -/
def alwaysFF (s : FifoRegs width depth) (rstN : Bool) (input : FifoInput width) :
    FifoRegs width depth :=
  if !rstN then { s with rdPtr := 0, wrPtr := 0, count := 0 }
  else s.clock (input.push && !s.full) (input.pop && !s.empty) input.dataIn

/-- Clock cycles with `rst_n` high. -/
def cycles (s : FifoRegs width depth) (inputs : List (FifoInput width)) : FifoRegs width depth :=
  inputs.foldl (fun s input => s.alwaysFF true input) s

end FifoRegs

/-! ### The bounded FIFO -/

/-- What a cycle does to a FIFO that holds at most `depth` items. -/
def fifoCycle {width : ℕ} (depth : ℕ) (l : List (BitVec width)) (input : FifoInput width) :
    List (BitVec width) :=
  (if input.pop = true ∧ l ≠ [] then l.tail else l) ++
    if input.push = true ∧ l.length < depth then [input.dataIn] else []

def fifoCycles {width : ℕ} (depth : ℕ) (inputs : List (FifoInput width)) : List (BitVec width) :=
  inputs.foldl (fifoCycle depth) []

namespace FifoRegs

variable {width depth : ℕ} {s : FifoRegs width depth} {l : List (BitVec width)}

/-- The outputs are those of a FIFO that holds `l`. -/
structure Implements (s : FifoRegs width depth) (l : List (BitVec width)) : Prop where
  full_iff : s.full = true ↔ l.length = depth
  empty_iff : s.empty = true ↔ l = []
  dataOut_eq : ∀ a rest, l = a :: rest → s.dataOut = some a

theorem cycles_append (s : FifoRegs width depth) (inputs inputs' : List (FifoInput width)) :
    s.cycles (inputs ++ inputs') = (s.cycles inputs).cycles inputs' := List.foldl_append

theorem fifoCycles_append (depth : ℕ) (inputs inputs' : List (FifoInput width)) :
    fifoCycles depth (inputs ++ inputs') =
      inputs'.foldl (fifoCycle depth) (fifoCycles depth inputs) := List.foldl_append

/-! ### Registers -/

theorem toNat_succ_of_pow {k : ℕ} (hk : depth = 2 ^ k) (hdepth : 2 ≤ depth)
    (p : BitVec (Nat.clog 2 depth)) : (p + 1).toNat = (p.toNat + 1) % depth := by
  have hclog : 2 ^ Nat.clog 2 depth = depth := by
    rw [hk, Nat.clog_pow 2 k Nat.one_lt_two]
  rw [BitVec.toNat_add, hclog]
  show (p.toNat + 1 % 2 ^ Nat.clog 2 depth) % depth = _
  rw [hclog, Nat.mod_eq_of_lt hdepth]

theorem lt_two_pow_count (depth : ℕ) : depth < 2 ^ Nat.clog 2 (depth + 1) :=
  Nat.lt_of_succ_le (Nat.le_pow_clog Nat.one_lt_two (depth + 1))

theorem toNat_count_one (hdepth : 2 ≤ depth) :
    (1 : BitVec (Nat.clog 2 (depth + 1))).toNat = 1 :=
  Nat.mod_eq_of_lt ((Nat.lt_of_succ_le hdepth).trans (lt_two_pow_count depth))

/-- The counter has room for the whole depth. -/
theorem toNat_count_succ (hdepth : 2 ≤ depth) {c : BitVec (Nat.clog 2 (depth + 1))}
    (hc : c.toNat < depth) : (c + 1).toNat = c.toNat + 1 := by
  rw [BitVec.toNat_add, toNat_count_one hdepth]
  exact Nat.mod_eq_of_lt ((Nat.succ_le_of_lt hc).trans_lt (lt_two_pow_count depth))

theorem toNat_count_pred (hdepth : 2 ≤ depth) {c : BitVec (Nat.clog 2 (depth + 1))}
    (hc : 0 < c.toNat) : (c - 1).toNat = c.toNat - 1 := by
  have hle : (1 : BitVec (Nat.clog 2 (depth + 1))) ≤ c := by
    rw [BitVec.le_def, toNat_count_one hdepth]
    exact hc
  rw [BitVec.toNat_sub_of_le hle, toNat_count_one hdepth]

theorem read_write (mem : Fin depth → Option (BitVec width)) {i : ℕ} (hi : i < depth)
    (value : BitVec width) :
    read (write mem i value) = Function.update (read mem) i (some value) := by
  funext j
  by_cases hj : j = i
  · rw [hj, Function.update_self, read, dif_pos hi]
    exact if_pos rfl
  · rw [Function.update_of_ne hj]
    unfold read
    by_cases hlt : j < depth
    · rw [dif_pos hlt, dif_pos hlt]
      exact if_neg hj
    · rw [dif_neg hlt, dif_neg hlt]

/-! ### A depth that is a power of two -/

/-- The registers as a ring buffer. -/
def ring (s : FifoRegs width depth) : RingBuffer (Option (BitVec width)) where
  slots := read s.mem
  capacity := depth
  head := s.rdPtr.toNat
  tail := s.wrPtr.toNat
  count := s.count.toNat

/-- The registers hold the FIFO `l`. -/
structure Simulates (s : FifoRegs width depth) (l : List (BitVec width)) : Prop where
  wellFormed : s.ring.WellFormed
  contents : s.ring.contents = l.map some

theorem simulates_iff_holds : s.Simulates l ↔ s.ring.Holds (l.map some) :=
  ⟨fun h => ⟨h.wellFormed, h.contents⟩, fun h => ⟨h.wellFormed, h.contents⟩⟩

theorem Simulates.holds (h : s.Simulates l) : s.ring.Holds (l.map some) :=
  simulates_iff_holds.mp h

theorem Simulates.count_eq (h : s.Simulates l) : s.count.toNat = l.length :=
  h.holds.count_eq.trans (List.length_map some)

theorem Simulates.implements (h : s.Simulates l) : s.Implements l := by
  have hcount := h.count_eq
  constructor
  case full_iff =>
    rw [full, hcount]
    exact decide_eq_true_iff
  case empty_iff =>
    rw [empty, hcount]
    exact decide_eq_true_iff.trans List.length_eq_zero_iff
  case dataOut_eq =>
    rintro a rest rfl
    exact (h.holds.pop List.map_cons).1

/-- An accepted push. -/
theorem Simulates.push (h : s.Simulates l) {k : ℕ} (hk : depth = 2 ^ k) (hdepth : 2 ≤ depth)
    (hroom : l.length < depth) (dataIn : BitVec width) :
    (s.clock true false dataIn).Simulates (l ++ [dataIn]) := by
  have hring : (s.clock true false dataIn).ring = s.ring.push (some dataIn) := by
    show RingBuffer.mk (read (write _ _ _)) _ _ (s.wrPtr + 1).toNat (s.count + 1).toNat = _
    have htail : s.wrPtr.toNat < depth := h.wellFormed.tail_lt
    rw [read_write _ htail, toNat_succ_of_pow hk hdepth,
      toNat_count_succ hdepth (h.count_eq.trans_lt hroom)]
    rfl
  have hlength : (l.map some).length < s.ring.capacity :=
    (List.length_map some).trans_lt hroom
  rw [simulates_iff_holds, hring, List.map_append]
  exact h.holds.push (some dataIn) hlength

/-- An accepted pop. -/
theorem Simulates.pop (h : s.Simulates l) {k : ℕ} (hk : depth = 2 ^ k) (hdepth : 2 ≤ depth)
    (hne : l ≠ []) (dataIn : BitVec width) : (s.clock false true dataIn).Simulates l.tail := by
  have hcount : 0 < s.count.toNat := (List.length_pos_of_ne_nil hne).trans_eq h.count_eq.symm
  have hring : (s.clock false true dataIn).ring = s.ring.pop := by
    show RingBuffer.mk _ _ (s.rdPtr + 1).toNat _ (s.count - 1).toNat = _
    rw [toNat_succ_of_pow hk hdepth, toNat_count_pred hdepth hcount]
    rfl
  obtain ⟨a, rest, rfl⟩ := List.exists_cons_of_ne_nil hne
  rw [simulates_iff_holds, hring]
  exact (h.holds.pop List.map_cons).2

/-- A push and a pop in one cycle are a push and then a pop, since there is room. -/
theorem Simulates.pushPop (h : s.Simulates l) {k : ℕ} (hk : depth = 2 ^ k) (hdepth : 2 ≤ depth)
    (hroom : l.length < depth) (hne : l ≠ []) (dataIn : BitVec width) :
    (s.clock true true dataIn).Simulates (l.tail ++ [dataIn]) := by
  have hpush := h.push hk hdepth hroom dataIn
  have hpop := hpush.pop hk hdepth (List.append_ne_nil_of_left_ne_nil hne _) dataIn
  have hcount : s.count.toNat < depth := h.count_eq.trans_lt hroom
  have hring : (s.clock true true dataIn).ring =
      ((s.clock true false dataIn).clock false true dataIn).ring := by
    show RingBuffer.mk _ _ _ _ s.count.toNat = RingBuffer.mk _ _ _ _ (s.count + 1 - 1).toNat
    rw [BitVec.add_sub_cancel]
    rfl
  rw [List.tail_append_of_ne_nil hne] at hpop
  exact ⟨hring ▸ hpop.wellFormed, hring ▸ hpop.contents⟩

theorem Simulates.idle (h : s.Simulates l) (dataIn : BitVec width) :
    (s.clock false false dataIn).Simulates l := ⟨h.wellFormed, h.contents⟩

/-- One cycle of the module is one cycle of the FIFO. -/
theorem Simulates.cycle (h : s.Simulates l) {k : ℕ} (hk : depth = 2 ^ k) (hdepth : 2 ≤ depth)
    (input : FifoInput width) : (s.alwaysFF true input).Simulates (fifoCycle depth l input) := by
  have himplements := h.implements
  have hpushes : (input.push && !s.full) = true ↔ input.push = true ∧ l.length < depth := by
    have hle : l.length ≤ depth := h.count_eq ▸ h.wellFormed.count_le
    rw [Bool.and_eq_true, Bool.not_eq_true', ← Bool.not_eq_true, himplements.full_iff]
    exact and_congr_right fun _ => ⟨fun hne => Nat.lt_of_le_of_ne hle hne, Nat.ne_of_lt⟩
  have hpops : (input.pop && !s.empty) = true ↔ input.pop = true ∧ l ≠ [] := by
    rw [Bool.and_eq_true, Bool.not_eq_true', ← Bool.not_eq_true, himplements.empty_iff]
  show (s.clock _ _ _).Simulates _
  unfold fifoCycle
  cases hpush : input.push && !s.full with
  | true =>
    have haccept := hpushes.mp hpush
    rw [if_pos haccept]
    cases hpop : input.pop && !s.empty with
    | true =>
      rw [if_pos (hpops.mp hpop)]
      exact h.pushPop hk hdepth haccept.2 (hpops.mp hpop).2 input.dataIn
    | false =>
      rw [if_neg fun hp => Bool.false_ne_true (hpop.symm.trans (hpops.mpr hp))]
      exact h.push hk hdepth haccept.2 input.dataIn
  | false =>
    rw [if_neg fun hp => Bool.false_ne_true (hpush.symm.trans (hpushes.mpr hp)), List.append_nil]
    cases hpop : input.pop && !s.empty with
    | true =>
      rw [if_pos (hpops.mp hpop)]
      exact h.pop hk hdepth (hpops.mp hpop).2 input.dataIn
    | false =>
      rw [if_neg fun hp => Bool.false_ne_true (hpop.symm.trans (hpops.mpr hp))]
      exact h.idle input.dataIn

theorem simulates_reset (s : FifoRegs width depth) (input : FifoInput width) (hdepth : 2 ≤ depth) :
    (s.alwaysFF false input).Simulates [] := by
  have hzero : ∀ w, (0 : BitVec w).toNat = 0 := fun w => Nat.zero_mod _
  constructor
  case wellFormed =>
    constructor
    case head_lt =>
      show (0 : BitVec _).toNat < depth
      rw [hzero]
      exact Nat.zero_lt_of_lt hdepth
    case tail_eq =>
      show (0 : BitVec _).toNat = ((0 : BitVec _).toNat + (0 : BitVec _).toNat) % depth
      rw [hzero, hzero]
      exact (Nat.zero_mod depth).symm
    case count_le =>
      show (0 : BitVec _).toNat ≤ depth
      rw [hzero]
      exact Nat.zero_le _
  case contents => exact RingBuffer.contents_eq_nil_iff.mpr (hzero _)

theorem Simulates.cycles (h : s.Simulates l) {k : ℕ} (hk : depth = 2 ^ k) (hdepth : 2 ≤ depth)
    (inputs : List (FifoInput width)) :
    (s.cycles inputs).Simulates (inputs.foldl (fifoCycle depth) l) := by
  induction inputs generalizing s l with
  | nil => exact h
  | cons input inputs ih => exact ih (h.cycle hk hdepth input)

/-! ### Any other depth -/

/-- Pushing and popping in every cycle. -/
def pushAndPop (width : ℕ) : FifoInput width := ⟨true, true, 0⟩

/-- With one item stored and room for more, both are accepted. -/
theorem alwaysFF_pushAndPop (hdepth : 2 ≤ depth) (hcount : s.count.toNat = 1) :
    s.alwaysFF true (pushAndPop width) = s.clock true true 0 := by
  have hfull : s.full = false := by
    rw [full, hcount]
    exact decide_eq_false (Nat.ne_of_lt hdepth)
  have hempty : s.empty = false := by
    rw [empty, hcount]
    rfl
  show s.clock (true && !s.full) (true && !s.empty) 0 = _
  rw [hfull, hempty]
  rfl

/-- With nothing stored only the push is accepted. -/
theorem alwaysFF_first (s : FifoRegs width depth) (input : FifoInput width) (hdepth : 2 ≤ depth) :
    (s.alwaysFF false input).alwaysFF true (pushAndPop width) =
      (s.alwaysFF false input).clock true false 0 := by
  have himplements := (simulates_reset s input hdepth).implements
  have hempty : (s.alwaysFF false input).empty = true := himplements.empty_iff.mpr rfl
  have hfull : (s.alwaysFF false input).full = false := by
    apply Bool.eq_false_of_not_eq_true
    rw [himplements.full_iff]
    exact Nat.ne_of_lt (Nat.zero_lt_of_lt hdepth)
  show FifoRegs.clock _ (true && !full _) (true && !empty _) 0 = _
  rw [hfull, hempty]
  rfl

/-- The read pointer walks through everything that its bits can express. -/
theorem rdPtr_cycles (s : FifoRegs width depth) (input : FifoInput width) (hdepth : 2 ≤ depth)
    {k : ℕ} (hk : k < 2 ^ Nat.clog 2 depth) :
    ((s.alwaysFF false input).cycles (List.replicate (k + 1) (pushAndPop width))).rdPtr.toNat = k ∧
      ((s.alwaysFF false input).cycles
        (List.replicate (k + 1) (pushAndPop width))).count.toNat = 1 ∧
      fifoCycles depth (List.replicate (k + 1) (pushAndPop width)) = [0] := by
  induction k with
  | zero =>
    have hzero : ∀ w, (0 : BitVec w).toNat = 0 := fun w => Nat.zero_mod _
    show ((s.alwaysFF false input).alwaysFF true _).rdPtr.toNat = 0 ∧
      ((s.alwaysFF false input).alwaysFF true _).count.toNat = 1 ∧ fifoCycle depth [] _ = [0]
    rw [alwaysFF_first s input hdepth]
    refine ⟨hzero _, ?_, ?_⟩
    · show (0#_ + 1).toNat = 1
      rw [BitVec.zero_add]
      exact toNat_count_one hdepth
    · exact congrArg ([] ++ ·) (if_pos ⟨rfl, Nat.zero_lt_of_lt hdepth⟩)
  | succ k ih =>
    obtain ⟨hrd, hcount, hfifo⟩ := ih (Nat.lt_of_succ_lt hk)
    rw [List.replicate_succ', cycles_append, fifoCycles_append, hfifo]
    show (alwaysFF _ true _).rdPtr.toNat = k + 1 ∧ (alwaysFF _ true _).count.toNat = 1 ∧
      fifoCycle depth [0] _ = [0]
    rw [alwaysFF_pushAndPop hdepth hcount]
    refine ⟨?_, hcount, ?_⟩
    · have hone : (1 : BitVec (Nat.clog 2 depth)).toNat = 1 :=
        Nat.mod_eq_of_lt (hdepth.trans (Nat.le_pow_clog Nat.one_lt_two depth))
      show (FifoRegs.rdPtr _ + 1).toNat = k + 1
      rw [BitVec.toNat_add, hrd, hone]
      exact Nat.mod_eq_of_lt hk
    · exact congrArg ([] ++ ·) (if_pos ⟨rfl, hdepth⟩)

/-- **The depths for which the module is a FIFO** are the powers of two. -/
theorem implements_iff (width : ℕ) {depth : ℕ} (hdepth : 2 ≤ depth) :
    (∀ (s : FifoRegs width depth) (input : FifoInput width) (inputs : List (FifoInput width)),
      ((s.alwaysFF false input).cycles inputs).Implements (fifoCycles depth inputs)) ↔
      ∃ k, depth = 2 ^ k := by
  constructor
  · intro h
    refine ⟨Nat.clog 2 depth, ?_⟩
    by_contra hne
    have hlt : depth < 2 ^ Nat.clog 2 depth :=
      Nat.lt_of_le_of_ne (Nat.le_pow_clog Nat.one_lt_two depth) hne
    -- the item pushed when the write pointer was behind the memory is the oldest one
    let s : FifoRegs width depth := ⟨fun _ => none, 0, 0, 0⟩
    obtain ⟨hrd, _, hfifo⟩ := rdPtr_cycles s (pushAndPop width) hdepth hlt
    have hout := (h s (pushAndPop width) (List.replicate (depth + 1) (pushAndPop width))).dataOut_eq
      0 [] hfifo
    rw [dataOut, hrd, read, dif_neg (Nat.lt_irrefl depth)] at hout
    cases hout
  · rintro ⟨k, hk⟩ s input inputs
    exact ((simulates_reset s input hdepth).cycles hk hdepth inputs).implements

theorem implements_iff_four :
    (∀ (s : FifoRegs 8 4) (input : FifoInput 8) (inputs : List (FifoInput 8)),
      ((s.alwaysFF false input).cycles inputs).Implements (fifoCycles 4 inputs)) ↔
      ∃ k, 4 = 2 ^ k :=
  implements_iff 8 (by decide)

/-- Three words: the fourth push is lost. -/
theorem not_implements_three :
    ¬∀ (s : FifoRegs 8 3) (input : FifoInput 8) (inputs : List (FifoInput 8)),
      ((s.alwaysFF false input).cycles inputs).Implements (fifoCycles 3 inputs) := by
  intro h
  have hout := (h ⟨fun _ => none, 0, 0, 0⟩ ⟨false, false, 0⟩
    (List.replicate 4 ⟨true, true, 165⟩)).dataOut_eq 165 [] (by decide)
  revert hout
  decide

end FifoRegs

end AccelSim
