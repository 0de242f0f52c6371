import AccelSimLite.Lib.LastWrite
import AccelSimLite.Rtl.Fifo

/-!
# The register file

A model of `register_file.sv` for every width and depth. What is read in a cycle is what
the cycles before it have written last, with no way around the registers for what is
written in the same cycle.

## Main definitions

- `RegisterFile.alwaysFF`, `RegisterFile.readData` — the clocked process and the output
- `RegisterFile.outputs` — what is read in a run, cycle by cycle

## Main results

- `RegisterFile.readData_cycles` — the output after some cycles
- `RegisterFile.outputs_spec` — the outputs of a run

## Design notes

A register that was never written, or an address outside the array, reads as unknown, and a
write outside the array is discarded. A depth of one, where the address ports would be
`[-1:0]`, is not modelled.
-/

namespace AccelSim

namespace RegisterFile

variable {width depth : ℕ}

/-- The inputs of the module in a cycle. -/
structure Input (width depth : ℕ) where
  writeEn : Bool
  writeAddr : BitVec (Nat.clog 2 depth)
  readAddr : BitVec (Nat.clog 2 depth)
  writeData : BitVec width
  deriving DecidableEq, Repr

/-- The register array. -/
abbrev Regs (width depth : ℕ) := Fin depth → Option (BitVec width)

/-- The clocked process. -/
def alwaysFF (regs : Regs width depth) (input : Input width depth) : Regs width depth :=
  if input.writeEn then FifoRegs.write regs input.writeAddr.toNat input.writeData else regs

/-- The continuous assignment. -/
def readData (regs : Regs width depth) (input : Input width depth) : Option (BitVec width) :=
  FifoRegs.read regs input.readAddr.toNat

def cycles (regs : Regs width depth) (inputs : List (Input width depth)) : Regs width depth :=
  inputs.foldl alwaysFF regs

/-- What is read in each cycle of a run, before the registers are clocked. -/
def outputs (regs : Regs width depth) : List (Input width depth) → List (Option (BitVec width))
  | [] => []
  | input :: inputs => readData regs input :: outputs (alwaysFF regs input) inputs

/-! ### What is read -/

/-- The write of a cycle, at its address. -/
def Input.write (input : Input width depth) : Option (ℕ × Option (BitVec width)) :=
  if input.writeEn then some (input.writeAddr.toNat, some input.writeData) else none

theorem cycles_eq_foldl (regs : Regs width depth) (inputs : List (Input width depth)) :
    cycles regs inputs = (inputs.filterMap Input.write).foldl
      (fun regs entry => fun j => if j.val = entry.1 then entry.2 else regs j) regs := by
  induction inputs generalizing regs with
  | nil => rfl
  | cons input inputs ih =>
    refine (ih (alwaysFF regs input)).trans ?_
    rw [List.filterMap_cons, alwaysFF, Input.write]
    cases input.writeEn <;> rfl

/-- The output after some cycles: what was written last at the address, or what the register
    has held at first. -/
theorem readData_cycles (regs : Regs width depth) (inputs : List (Input width depth))
    (input : Input width depth) :
    readData (cycles regs inputs) input =
      if h : input.readAddr.toNat < depth then
        (LastWrite.last? (inputs.filterMap Input.write) input.readAddr.toNat).getD
          (regs ⟨input.readAddr.toNat, h⟩)
      else none := by
  rw [readData, FifoRegs.read, cycles_eq_foldl]
  split
  · rename_i h
    exact LastWrite.get_foldl (fun regs : Regs width depth => regs ⟨_, h⟩)
      (fun regs entry => rfl) (inputs.filterMap Input.write) regs
  · rfl

theorem outputs_getElem? (regs : Regs width depth) (inputs : List (Input width depth)) (t : ℕ) :
    (outputs regs inputs)[t]? = inputs[t]?.map (readData (cycles regs (inputs.take t))) := by
  induction inputs generalizing regs t with
  | nil => rfl
  | cons input inputs ih =>
    cases t with
    | zero => rfl
    | succ t => exact ih (alwaysFF regs input) t

/-- **What a run reads.** In every cycle of a run, the output is what the cycles before it have
    written last at the address; it is what the register held at first where none of them has
    written, and unknown outside the array. The write of the cycle itself is not seen. -/
theorem outputs_spec (regs : Regs width depth) (inputs : List (Input width depth)) (t : ℕ) :
    (outputs regs inputs)[t]? = inputs[t]?.map fun input =>
      if h : input.readAddr.toNat < depth then
        (LastWrite.last? ((inputs.take t).filterMap Input.write) input.readAddr.toNat).getD
          (regs ⟨input.readAddr.toNat, h⟩)
      else none := by
  rw [outputs_getElem?]
  exact Option.map_congr fun input _ => readData_cycles regs (inputs.take t) input

/-- A read in the cycle of a write, and one in the cycle after it. -/
example :
    outputs (fun _ => none : Regs 8 4)
        [⟨true, 2, 2, 5⟩, ⟨false, 2, 2, 7⟩, ⟨true, 2, 0, 9⟩, ⟨false, 0, 2, 0⟩] =
      [none, some 5, none, some 9] := by
  decide

end RegisterFile

end AccelSim
