import Tank.ToMathlib.EState
import Tank.Unicorn
import Tank.Utils.DigitUtils

/-!
# Arguments of native functions

`NativeCallHelper`: the first four arguments of a call are in the registers, the others on the
stack. The arguments of hooked functions are read from above the two words that a stub has pushed.
Reading them fails only for a negative number of arguments or a stack that is not mapped
(`argsReadable`). The arguments of functions that the emulator calls are written below the stack
pointer, and all words on the stack to the same address.
-/

namespace Tank

open ToMathlib

/-- `STACK_OFFSET` -/
def stackOffset : Int64 := 8

namespace NativeCallHelper

/-- The address that `readArgs` takes the argument `i` from, `4 ≤ i`. -/
def stackArg (uc : Unicorn) (i : ℕ) : Int64 :=
  uc.regRead .sp + stackOffset + (Int32.ofNat i * 4).toInt64

/-- The loop of `readArgs` over the arguments on the stack. -/
def readStackArgs (uc : Unicorn) : List ℕ → UcM (List Int64)
  | [] => pure []
  | i :: is => do
    let bytes ← Unicorn.memRead (stackArg uc i) 4
    let args ← readStackArgs uc is
    pure (bytes2Long bytes :: args)

/-- `readArgs`; `none` is `null`. -/
def readArgs (amount : Int32) : UcM (Option (List Int64)) := do
  if amount = 0 then pure none
  else if amount < 0 then throw .negativeArraySize
  else
    let uc ← get
    let args := ([.r0, .r1, .r2, .r3].take amount.toInt.toNat).map uc.regRead
    let stackArgs ← readStackArgs uc (List.range' 4 (amount.toInt.toNat - 4))
    pure (some (args ++ stackArgs))

/-- `readVaArgs` has the same body. -/
def readVaArgs (amount : Int32) : UcM (Option (List Int64)) := readArgs amount

/-- The arguments can be read. -/
def argsReadable (uc : Unicorn) (amount : Int32) : Bool :=
  !decide (amount < 0) &&
    (List.range' 4 (amount.toInt.toNat - 4)).all fun i =>
      uc.checkMemArea (stackArg uc i).toUInt64 4

/-- The first four arguments go to the registers. -/
def writeRegArgs : List (ArmReg × Int64) → UcM Unit
  | [] => pure ()
  | (reg, arg) :: args => do
    Unicorn.regWrite reg arg
    writeRegArgs args

/-- The loop of `writeArgs` over the arguments on the stack: the address does not change. -/
def writeStackArgs (sp : Int64) : List Int64 → UcM Unit
  | [] => pure ()
  | arg :: args => do
    Unicorn.memWrite sp (cut (longToBytesLittle arg) 4)
    writeStackArgs sp args

/-- `writeArgs`; `high` is the upper half of what `reg_read` returns for the stack pointer. -/
def writeArgs (high : UInt32) (args : List Int64) : UcM Unit := do
  writeRegArgs ([.r0, .r1, .r2, .r3].zip args)
  if 5 ≤ args.length then
    let uc ← get
    let sp := uc.regReadRaw .sp high - stackOffset - 4 * (Int64.ofNat args.length - 4)
    writeStackArgs sp (args.drop 4)
    Unicorn.regWrite .sp sp
  else pure ()

variable {uc uc' : Unicorn} {amount : Int32}

theorem run_readStackArgs_of_mapped {is : List ℕ}
    (h : ∀ i ∈ is, uc.checkMemArea (stackArg uc' i).toUInt64 4 = true) :
    ∃ args, (readStackArgs uc' is).run uc = .ok args uc := by
  induction is with
  | nil => exact ⟨[], rfl⟩
  | cons i is ih =>
    obtain ⟨args, hargs⟩ := ih fun j hj => h j (List.mem_cons_of_mem _ hj)
    rw [readStackArgs, bind_of_ok (Unicorn.run_memRead_of_mapped (h i List.mem_cons_self)),
      bind_of_ok hargs]
    exact ⟨_, rfl⟩

theorem run_readStackArgs_of_unmapped {is : List ℕ}
    (h : ∃ i ∈ is, uc.checkMemArea (stackArg uc' i).toUInt64 4 = false) :
    ∃ err, (readStackArgs uc' is).run uc = .error err uc := by
  induction is with
  | nil => simp at h
  | cons i is ih =>
    rw [readStackArgs]
    cases hmapped : uc.checkMemArea (stackArg uc' i).toUInt64 4 with
    | false => exact ⟨_, bind_of_error (Unicorn.run_memRead_of_unmapped hmapped)⟩
    | true =>
      -- This word can be read, so the one that cannot comes later.
      obtain ⟨j, hj, hno⟩ := h
      rcases List.mem_cons.1 hj with rfl | hj
      · rw [hno] at hmapped
        cases hmapped
      · obtain ⟨err, herr⟩ := ih ⟨j, hj, hno⟩
        exact ⟨err, (bind_of_ok (Unicorn.run_memRead_of_mapped hmapped)).trans
          (bind_of_error herr)⟩

/-- Readable arguments are read, and the engine is left as it was. -/
theorem run_readArgs_of_readable (h : argsReadable uc amount = true) :
    ∃ args, (readArgs amount).run uc = .ok args uc := by
  simp only [argsReadable, Bool.and_eq_true, Bool.not_eq_true', decide_eq_false_iff_not,
    List.all_eq_true] at h
  obtain ⟨hneg, hall⟩ := h
  by_cases hzero : amount = 0
  · rw [readArgs, if_pos hzero]
    exact ⟨none, rfl⟩
  · obtain ⟨args, hargs⟩ := run_readStackArgs_of_mapped hall
    rw [readArgs, if_neg hzero, if_neg hneg, get_bind, bind_of_ok hargs]
    exact ⟨_, rfl⟩

/-- Reading arguments that are not readable throws and leaves the engine as it was. -/
theorem run_readArgs_of_not_readable (h : argsReadable uc amount = false) :
    ∃ err, (readArgs amount).run uc = .error err uc := by
  by_cases hneg : amount < 0
  · have hzero : amount ≠ 0 := by
      rintro rfl
      exact absurd hneg (by decide)
    rw [readArgs, if_neg hzero, if_pos hneg]
    exact ⟨_, rfl⟩
  · have hunmapped : ∃ i ∈ List.range' 4 (amount.toInt.toNat - 4),
        uc.checkMemArea (stackArg uc i).toUInt64 4 = false := by
      simpa [argsReadable, hneg] using h
    have hzero : amount ≠ 0 := by
      rintro rfl
      simp at hunmapped
    obtain ⟨err, herr⟩ := run_readStackArgs_of_unmapped hunmapped
    rw [readArgs, if_neg hzero, if_neg hneg, get_bind, bind_of_error herr]
    exact ⟨err, rfl⟩

end NativeCallHelper

end Tank
