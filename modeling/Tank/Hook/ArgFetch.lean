import Tank.Helper.HookArgs
import Tank.Hook.Dispatch

/-!
# Fetching the arguments of Java functions

When the stub of a function executes its `MOV R4, R4`, `JHandler` reads twelve arguments, whatever
the function takes: four registers, and eight words from above the two that the stub has pushed. A
function with at most four arguments needs none of these words, but if one of them is not mapped,
the function is not called and the engine is stopped.

* `argsReadable_twelve`: the bytes that have to be mapped;
* `calls_with_registers_iff`: functions with few arguments are called exactly if these bytes are
  mapped;
* `shallow_stack_stops` is native code that was entered with an empty stack.
-/

namespace Tank

open ToMathlib NativeCallHelper

/-- The `MOV R4, R4` of a stub is executed, for a function that takes its arguments from registers.
The two words that the stub has pushed are mapped. -/
structure AtTrap (env : HookEnv) (func : IJFunc) (uc : Unicorn) (address : Int64) (size : Int32) :
    Prop where
  stub : IsMovOf env uc address size (.jvm func)
  id : env.jHandler.hooks (uc.regRead .r4) = some func
  acount : func.acount ≤ 4
  frame : uc.checkMemArea (uc.regs .sp).toUInt64 8 = true

/-- `JHandler.hook` calls the function with the values of `R0` to `R3`. What happens then is up to
the function: nothing is stopped before it is called. -/
def CallsWithRegisters (env : HookEnv) (callback : Func → Option (List Int64) → UcM CallRet)
    (func : IJFunc) (address : Int64) (size : Int32) (s : Delivery) : Prop :=
  ∃ args, args.take 4 = [ArmReg.r0, .r1, .r2, .r3].map s.uc.regRead ∧
    (env.jvmHook callback address size).run s =
      .ok () (callFunc callback (.jvm func) (pure (some args)) s)

variable {env : HookEnv} {callback : Func → Option (List Int64) → UcM CallRet} {func : IJFunc}
  {uc : Unicorn} {address : Int64} {size : Int32} {s : Delivery}

/-- Words that follow one another are mapped if the whole area is. -/
theorem all_checkMemArea_words (a : UInt64) (m n : ℕ) :
    ((List.range' m n).all fun i => uc.checkMemArea (a + UInt64.ofNat (4 * i)) 4) =
      uc.checkMemArea (a + UInt64.ofNat (4 * m)) (4 * n) := by
  induction n generalizing m with
  | zero => rfl
  | succ n ih =>
    rw [List.range'_succ, List.all_cons, ih, Nat.mul_succ, Nat.mul_succ, add_ofNat_add,
      Nat.add_comm (4 * n), Unicorn.checkMemArea_add]

/-- Twelve arguments can be read if the eight words from `SP + 24` on are mapped. -/
theorem argsReadable_twelve (uc : Unicorn) :
    argsReadable uc 12 = uc.checkMemArea ((uc.regs .sp).toUInt64 + 24) 32 := by
  have hwords : argsReadable uc 12 =
      (List.range' 4 8).all fun i =>
        uc.checkMemArea ((uc.regs .sp).toUInt64 + 8 + UInt64.ofNat (4 * i)) 4 := by
    refine (Bool.true_and _).trans (Bool.eq_iff_iff.2 ?_)
    rw [List.all_eq_true, List.all_eq_true]
    refine forall₂_congr fun i hi => ?_
    have hlt : i < 4 + 8 := (List.mem_range'_1.1 hi).2
    rw [toUInt64_stackArg uc (by omega)]
  rw [hwords, all_checkMemArea_words, UInt64.add_assoc]
  rfl

/-- Only the arguments matter, once they have been read. -/
theorem callFunc_of_run_eq_ok {f : Func} {m : UcM (Option (List Int64))}
    {args : Option (List Int64)} (h : m.run s.uc = .ok args s.uc) :
    callFunc callback f m s = callFunc callback f (pure args) s := by
  rw [callFunc, h]
  rfl

/-- A function whose arguments have been read is called. -/
theorem calls_callFunc_pure (f : Func) (args : Option (List Int64)) :
    (callFunc callback f (pure args) s).calls = s.calls ++ [f] := by
  rw [callFunc]
  dsimp only [pure, EStateM.pure, EStateM.run]
  split <;> rfl

theorem run_jvmHook_of_atTrap (h : AtTrap env func s.uc address size) :
    (env.jvmHook callback address size).run s =
      .ok () (callFunc callback (.jvm func) (readArgs 12) s) := by
  rw [HookEnv.jvmHook, run_trapHook_of_isTrap h.stub.1, h.id]
  rfl

/-- For a function with at most four arguments, `JHandler.hook` calls it with the registers exactly
if the 32 bytes from `SP + 24` on are mapped. -/
theorem calls_with_registers_iff (h : AtTrap env func s.uc address size) :
    CallsWithRegisters env callback func address size s ↔
      s.uc.checkMemArea ((s.uc.regs .sp).toUInt64 + 24) 32 = true := by
  rw [← argsReadable_twelve]
  constructor
  · rintro ⟨args, -, hrun⟩
    by_contra hno
    rw [Bool.not_eq_true] at hno
    rw [run_jvmHook_of_atTrap h, callFunc_of_not_readable hno] at hrun
    -- The log shows whether the function was called.
    have hcalls := congrArg (fun r => (finalState r).calls) hrun
    rw [finalState, finalState, calls_callFunc_pure] at hcalls
    simp at hcalls
  · intro hread
    obtain ⟨stackArgs, -, hargs⟩ := exists_readArgs (n := 12) (by decide) (by decide) hread
    refine ⟨[ArmReg.r0, .r1, .r2, .r3].map s.uc.regRead ++ stackArgs, rfl, ?_⟩
    rw [run_jvmHook_of_atTrap h]
    exact congrArg (EStateM.Result.ok ()) (callFunc_of_run_eq_ok hargs)

/-- The emulator with one function of `JHandler` that takes three arguments. -/
def HookEnv.oneFunction : HookEnv :=
  hookStep (HookEnv.create MemoryManager.fresh.uc) (.writeFunctionTable [(3, ⟨0, 3⟩)])

/-- The engine in the stub of this function, with a stack pointer. -/
def inJvmStub (sp : UInt32) : Unicorn :=
  { HookEnv.oneFunction.uc with
    regs := Function.update (Function.update HookEnv.oneFunction.uc.regs .r4 0xFF00) .sp sp }

/-- The stub has the words that are read right below the end of the stack. -/
theorem calls_with_registers_below_top :
    CallsWithRegisters HookEnv.oneFunction (fun _ _ => pure ⟨true, 0⟩) ⟨0, 3⟩ 0x30000008 2
      ⟨inJvmStub 0xFFFC8, false, []⟩ :=
  (calls_with_registers_iff ⟨⟨by decide +kernel, by decide +kernel⟩, by decide +kernel, by decide,
    by decide +kernel⟩).2 (by decide +kernel)

/-- Native code that is entered with the stack pointer at the end of the stack and calls the
function without pushing anything: the engine is stopped, and the function is not called. -/
theorem shallow_stack_stops :
    let s : Delivery := ⟨inJvmStub 0xFFFF8, false, []⟩
    let hook := HookEnv.oneFunction.jvmHook (fun _ _ => pure ⟨true, 0⟩) 0x30000008 2
    AtTrap HookEnv.oneFunction ⟨0, 3⟩ s.uc 0x30000008 2 ∧
      hook.run s = .ok () { s with stopped := true } ∧
      ¬CallsWithRegisters HookEnv.oneFunction (fun _ _ => pure ⟨true, 0⟩) ⟨0, 3⟩ 0x30000008 2
        s := by
  intro s hook
  have htrap : AtTrap HookEnv.oneFunction ⟨0, 3⟩ s.uc 0x30000008 2 :=
    ⟨⟨by decide +kernel, by decide +kernel⟩, by decide +kernel, by decide, by decide +kernel⟩
  have hno : argsReadable s.uc 12 = false := by decide +kernel
  have hrun : hook.run s = .ok () { s with stopped := true } := by
    rw [run_jvmHook_of_atTrap htrap, callFunc_of_not_readable hno]
  refine ⟨htrap, hrun, ?_⟩
  rintro ⟨args, -, hcalled⟩
  rw [hrun] at hcalled
  have hcalls := congrArg (fun r => (finalState r).calls) hcalled
  rw [finalState, finalState, calls_callFunc_pure] at hcalls
  simp at hcalls

end Tank
