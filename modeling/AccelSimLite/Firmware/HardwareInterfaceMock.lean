import AccelSimLite.Lib.LastWrite
import Mathlib.Data.UInt

/-!
# The hardware interface mock

A model of the mock that firmware tests talk to. It keeps the log of all writes and looks
for an address from the end, so that its clients cannot tell it from registers that are
zero at first.

## Main definitions

- `FirmwareValidation.HardwareInterfaceMock` — the mock, with its functions
- `FirmwareValidation.MockCall`, `HardwareInterfaceMock.calls` — a sequence of calls
- `FirmwareValidation.Registers` — registers, and the number of writes

## Main results

- `HardwareInterfaceMock.readRegister_eq` — a read finds the last write
- `FirmwareValidation.mock_refines_registers` — a sequence of calls
-/

namespace AccelSim

namespace FirmwareValidation

structure RegisterWrite where
  address : UInt32
  value : UInt32
  deriving DecidableEq, Repr

/-- The mock is the vector of its writes. -/
structure HardwareInterfaceMock where
  writes : List RegisterWrite := []
  deriving DecidableEq, Repr

namespace HardwareInterfaceMock

def writeRegister (mock : HardwareInterfaceMock) (address value : UInt32) :
    HardwareInterfaceMock where
  writes := mock.writes ++ [⟨address, value⟩]

/-- The loop goes from the last write to the first. -/
def readRegister (mock : HardwareInterfaceMock) (address : UInt32) : UInt32 :=
  match mock.writes.reverse.find? fun write => write.address = address with
  | some write => write.value
  | none => 0

def writeCount (mock : HardwareInterfaceMock) : ℕ := mock.writes.length

end HardwareInterfaceMock

/-! ### Calls -/

inductive MockCall
  | writeRegister (address value : UInt32)
  | readRegister (address : UInt32)
  | writeCount
  deriving DecidableEq, Repr

/-- What a call returns. -/
inductive MockReturn
  | nothing
  | value (value : UInt32)
  | count (count : ℕ)
  deriving DecidableEq, Repr

def HardwareInterfaceMock.call (mock : HardwareInterfaceMock) :
    MockCall → MockReturn × HardwareInterfaceMock
  | .writeRegister address value => (.nothing, mock.writeRegister address value)
  | .readRegister address => (.value (mock.readRegister address), mock)
  | .writeCount => (.count mock.writeCount, mock)

def HardwareInterfaceMock.calls (mock : HardwareInterfaceMock) : List MockCall → List MockReturn
  | [] => []
  | c :: rest => (mock.call c).1 :: (mock.call c).2.calls rest

/-- Registers at all addresses. -/
structure Registers where
  value : UInt32 → UInt32 := fun _ => 0
  writes : ℕ := 0

def Registers.call (registers : Registers) : MockCall → MockReturn × Registers
  | .writeRegister address value =>
    (.nothing, ⟨Function.update registers.value address value, registers.writes + 1⟩)
  | .readRegister address => (.value (registers.value address), registers)
  | .writeCount => (.count registers.writes, registers)

def Registers.calls (registers : Registers) : List MockCall → List MockReturn
  | [] => []
  | c :: rest => (registers.call c).1 :: (registers.call c).2.calls rest

/-! ### The log as registers -/

namespace HardwareInterfaceMock

variable {mock : HardwareInterfaceMock} {registers : Registers}

/-- The log, as addresses with values. -/
def log (mock : HardwareInterfaceMock) : List (UInt32 × UInt32) :=
  mock.writes.map fun write => (write.address, write.value)

theorem readRegister_eq (mock : HardwareInterfaceMock) (address : UInt32) :
    mock.readRegister address = (LastWrite.last? mock.log address).getD 0 := by
  rw [← LastWrite.find?_reverse, log, ← List.map_reverse, List.find?_map, Option.map_map,
    readRegister]
  change _ = ((mock.writes.reverse.find? fun write => write.address = address).map
    RegisterWrite.value).getD 0
  cases mock.writes.reverse.find? fun write => write.address = address <;> rfl

/-- The registers hold what has been written last. -/
structure Refines (mock : HardwareInterfaceMock) (registers : Registers) : Prop where
  value : ∀ address, mock.readRegister address = registers.value address
  writes : mock.writeCount = registers.writes

theorem Refines.empty : Refines {} {} where
  value _ := rfl
  writes := rfl

theorem Refines.call (h : Refines mock registers) (c : MockCall) :
    (mock.call c).1 = (registers.call c).1 ∧ Refines (mock.call c).2 (registers.call c).2 := by
  cases c with
  | writeRegister address value =>
    refine ⟨rfl, fun other => ?_, ?_⟩
    · have hlog : (mock.writeRegister address value).log = mock.log ++ [(address, value)] :=
        List.map_append
      have hold := h.value other
      rw [readRegister_eq] at hold
      change (mock.writeRegister address value).readRegister other =
        Function.update registers.value address value other
      rw [readRegister_eq, hlog, LastWrite.last?_concat, Function.update_apply]
      split_ifs
      · rfl
      · exact hold
    · change (mock.writes ++ [_]).length = registers.writes + 1
      rw [List.length_append, List.length_singleton, ← h.writes, writeCount]
  | readRegister address => exact ⟨congrArg MockReturn.value (h.value address), h⟩
  | writeCount => exact ⟨congrArg MockReturn.count h.writes, h⟩

theorem Refines.calls (h : Refines mock registers) (cs : List MockCall) :
    mock.calls cs = registers.calls cs := by
  induction cs generalizing mock registers with
  | nil => rfl
  | cons c cs ih =>
    obtain ⟨hreturn, hnext⟩ := h.call c
    rw [HardwareInterfaceMock.calls, Registers.calls, hreturn, ih hnext]

end HardwareInterfaceMock

/-- **The mock is a set of registers.** After any calls, in any order, the mock returns what
    registers return that are zero at first. -/
theorem mock_refines_registers (cs : List MockCall) :
    HardwareInterfaceMock.calls {} cs = Registers.calls {} cs :=
  HardwareInterfaceMock.Refines.empty.calls cs

end FirmwareValidation

end AccelSim
