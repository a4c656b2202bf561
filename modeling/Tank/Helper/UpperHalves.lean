import Tank.Helper.CallNative
import Tank.Hook.FuncHooks
import Tank.ToMathlib.TwoRuns

/-!
# The upper halves of registers

`reg_read` of the binding sets only the low half of the `long` that it returns. Here the code that
reads registers runs over a `Binding`: the engine together with the upper halves that the calls of
`reg_read` return one after the other, and with a record of what is written. Two runs with
different upper halves are compared.

* The code is that of `NativeCallHelper`, `SyscallHandler`, `Hooker` and `callNative`; the theorems
  `implements_readArgs`, `implements_writeArgs`, `implements_callNative` and `implements_hook`
  connect it to the definitions without upper halves;
* `run_writeArgs`: where `writeArgs` puts the arguments on the stack;
* `upper_halves_iff`: `writeArgs`, and with it `callNative`, depends on the upper halves exactly if
  there are arguments on the stack and some upper half leads to mapped memory. Everything else does
  not depend on them.

What system calls, hooked functions and the guest's code do is a parameter over the engine itself.
-/

namespace Tank

open ToMathlib

/-- The engine as the binding shows it. -/
structure Binding where
  uc : Unicorn
  /-- The upper halves that the next calls of `reg_read` return. -/
  highs : ℕ → UInt32
  /-- The writes to guest memory. -/
  memWrites : List (UInt64 × List UInt8)
  /-- The writes to registers, which take 32 bits. -/
  regWrites : List (ArmReg × UInt32)
  /-- `emu_stop` was called. -/
  stopped : Bool

/-- Code that reads registers through the binding. -/
abbrev BindM := EStateM JavaException Binding

/-- `ISyscall` -/
structure ISyscall where
  argSize : Int32
  callback : List Int64 → UcM (Option CallRet)

namespace Binding

/-- The binding before any call. -/
def start (uc : Unicorn) (highs : ℕ → UInt32) : Binding := ⟨uc, highs, [], [], false⟩

/-- `reg_read` -/
def regRead (reg : ArmReg) : BindM Int64 := fun b =>
  .ok (b.uc.regReadRaw reg (b.highs 0)) { b with highs := fun n => b.highs (n + 1) }

/-- `reg_write` -/
def regWrite (reg : ArmReg) (value : Int64) : BindM Unit := fun b =>
  .ok () { b with
    uc := finalState ((Unicorn.regWrite reg value).run b.uc)
    regWrites := b.regWrites ++ [(reg, value.toUInt64.toUInt32)] }

/-- `reg_write` of `PC` -/
def setPc (value : Int64) : BindM Unit := fun b =>
  .ok () { b with
    uc := b.uc.setPc value
    regWrites := b.regWrites ++ [(.pc, value.toUInt64.toUInt32)] }

/-- Code that does not call `reg_read`. -/
def engine {α : Type} (m : UcM α) : BindM α := fun b =>
  match m.run b.uc with
  | .ok a uc => .ok a { b with uc }
  | .error e uc => .error e { b with uc }

/-- `mem_write` -/
def memWrite (address : Int64) (bytes : List UInt8) : BindM Unit := do
  engine (Unicorn.memWrite address bytes)
  modify fun b => { b with memWrites := b.memWrites ++ [(address.toUInt64, bytes)] }

/-- `emu_stop` -/
def emuStop : BindM Unit := modify fun b => { b with stopped := true }

/-- `AlignUtils.maskLong`, with the same body as `ucRet` and `pc`. -/
def maskLong (v : Int64) : Int64 := v &&& 0xFFFFFFFF

/-- `reg_read` of several registers, of which the low halves are kept. -/
def readRegs : List ArmReg → BindM (List Int64)
  | [] => pure []
  | reg :: regs => do
    let v ← regRead reg
    let args ← readRegs regs
    pure (maskLong v :: args)

/-- The loop of `readArgs` over the arguments on the stack. -/
def readStackArgs (sp : Int64) : List ℕ → BindM (List Int64)
  | [] => pure []
  | i :: is => do
    let bytes ← engine (Unicorn.memRead (sp + (Int32.ofNat i * 4).toInt64) 4)
    let args ← readStackArgs sp is
    pure (bytes2Long bytes :: args)

/-- `readArgs`; `none` is `null`. -/
def readArgs (amount : Int32) : BindM (Option (List Int64)) := do
  if amount = 0 then pure none
  else if amount < 0 then throw .negativeArraySize
  else
    let args ← readRegs ([.r0, .r1, .r2, .r3].take amount.toInt.toNat)
    let sp ← regRead .sp
    let stackArgs ← readStackArgs (maskLong sp + stackOffset)
      (List.range' 4 (amount.toInt.toNat - 4))
    pure (some (args ++ stackArgs))

/-- `readVaArgs` has the same body. -/
def readVaArgs (amount : Int32) : BindM (Option (List Int64)) := readArgs amount

/-- The register `UC_ARM_REG_R0 + i`. -/
def argReg : ℕ → ArmReg
  | 0 => .r0
  | 1 => .r1
  | 2 => .r2
  | 3 => .r3
  | 4 => .r4
  | 5 => .r5
  | 6 => .r6
  | 7 => .r7
  | i => .other (66 + i)

/-- `readSyscallArgs` -/
def readSyscallArgs (size : Int32) : BindM (List Int64) := do
  if size < 0 then throw .negativeArraySize
  else readRegs ((List.range size.toInt.toNat).map argReg)

/-- The first four arguments go to the registers. -/
def writeRegArgs : List (ArmReg × Int64) → BindM Unit
  | [] => pure ()
  | (reg, arg) :: args => do
    regWrite reg arg
    writeRegArgs args

/-- The loop of `writeArgs` over the arguments on the stack. -/
def writeStackArgs (sp : Int64) : List Int64 → BindM Unit
  | [] => pure ()
  | arg :: args => do
    memWrite sp (cut (longToBytesLittle arg) 4)
    writeStackArgs sp args

/-- `writeArgs` -/
def writeArgs (args : List Int64) : BindM Unit := do
  writeRegArgs ([.r0, .r1, .r2, .r3].zip args)
  if 5 ≤ args.length then
    let start ← regRead .sp
    let sp := start - stackOffset - 4 * (Int64.ofNat args.length - 4)
    writeStackArgs sp (args.drop 4)
    regWrite .sp sp
  else pure ()

/-- A Java function is called, and an exception that it throws stops the emulator. Without a result
the next line throws, for assertions are not checked. -/
def callback (m : UcM (Option CallRet)) : BindM CallRet := fun b =>
  match m.run b.uc with
  | .error _ uc => .error .nullPointer { b with uc, stopped := true }
  | .ok none uc => .error .nullPointer { b with uc }
  | .ok (some ret) uc => .ok ret { b with uc }

/-- `SyscallHandler.handle`. The value of `PC` is only logged. -/
def handle (syscalls : Int32 → Option ISyscall) : BindM Unit := do
  let reg ← regRead .r7
  match syscalls reg.toInt32 with
  | none => emuStop
  | some s =>
    let args ← readSyscallArgs s.argSize
    let _ ← regRead .pc
    let ret ← callback (s.callback args)
    if ret.hasReturn then regWrite .r0 ret.value else pure ()

/-- `Hooker.hook` -/
def hook (function : IFunc → UcM (Option CallRet)) (h : Hooker) : BindM Unit := do
  let pc ← regRead .pc
  let lr ← regRead .lr
  match h.hookers (maskLong pc) with
  | none => pure ()
  | some f =>
    let ret ← callback (function f)
    if ret.hasReturn then
      regWrite .r0 ret.value
      setPc lr
    else pure ()

/-- `callNative`; the stop address is random. -/
def callNative (emuStart : Int64 → Int64 → UcM Unit) (stopPos addr : Int64) (args : List Int64) :
    BindM Int64 := do
  writeArgs args
  regWrite .lr stopPos
  engine (emuStart addr (xorBit stopPos))
  let ret ← regRead .r0
  pure (maskLong ret)

/-- The same but for the upper halves to come. -/
def SameGuest (b b' : Binding) : Prop := ∃ highs, b' = { b with highs }

/-- The same low half. -/
def SameLow (v v' : Int64) : Prop := v.toUInt64.toUInt32 = v'.toUInt64.toUInt32

/-- Whatever upper halves are read, the results, the writes and the engine are the same. -/
def AgreesFrom {α : Type} (uc : Unicorn) (m : BindM α) : Prop :=
  ∀ highs highs', SameEnd SameGuest Eq (m.run (start uc highs)) (m.run (start uc highs'))

/-- The address to which `writeArgs` writes so many arguments, with this upper half of the stack
pointer. -/
def argArea (uc : Unicorn) (high : UInt32) (n : ℕ) : Int64 :=
  uc.regReadRaw .sp high - stackOffset - 4 * (Int64.ofNat n - 4)

/-- There are arguments on the stack, and some upper half of the stack pointer leads to mapped
memory. -/
def Exposed (uc : Unicorn) (n : ℕ) : Prop :=
  5 ≤ n ∧ ∃ high, uc.checkMemArea (argArea uc high n).toUInt64 4 = true

/-! ## Code that does not depend on the upper halves -/

section Agrees

variable {α : Type} {v v' : Int64}

theorem maskLong_eq (v : Int64) : maskLong v = v.toUInt64.toUInt32.toUInt64.toInt64 :=
  and_mask32 v

theorem SameLow.maskLong (h : SameLow v v') : Binding.maskLong v = Binding.maskLong v' := by
  rw [maskLong_eq, maskLong_eq, h]

theorem SameLow.toInt32 (h : SameLow v v') : v.toInt32 = v'.toInt32 := by
  have hint : ∀ v : Int64, v.toInt32 = v.toUInt64.toUInt32.toInt32 := by
    intro v
    apply Int32.toBitVec_inj.1
    exact BitVec.signExtend_eq_setWidth_of_le _ (by decide)
  rw [hint, hint, h]

/-- The upper half that is read may be another one. -/
theorem alike_regRead (reg : ArmReg) :
    Alike SameGuest SameLow (regRead reg) (regRead reg) := by
  rintro b _ ⟨highs, rfl⟩
  have hlow : SameLow (b.uc.regReadRaw reg (b.highs 0)) (b.uc.regReadRaw reg (highs 0)) :=
    (toUInt32_regReadRaw _ _ _).trans (toUInt32_regReadRaw _ _ _).symm
  exact .ok hlow ⟨fun n => highs (n + 1), rfl⟩

/-- The upper half that is written is lost. -/
theorem alike_regWrite (reg : ArmReg) (h : SameLow v v') :
    Alike SameGuest Eq (regWrite reg v) (regWrite reg v') := by
  rintro b _ ⟨highs, rfl⟩
  have hengine : ∀ w : Int64, finalState ((Unicorn.regWrite reg w).run b.uc) =
      { b.uc with regs := Function.update b.uc.regs reg w.toUInt64.toUInt32 } := fun _ => rfl
  refine .ok rfl ⟨highs, ?_⟩
  rw [hengine, hengine, h]

theorem SameLow.setPc (h : SameLow v v') (uc : Unicorn) : uc.setPc v = uc.setPc v' := by
  rw [Unicorn.setPc, Unicorn.setPc, h]

theorem alike_setPc (h : SameLow v v') :
    Alike SameGuest Eq (Binding.setPc v) (Binding.setPc v') := by
  rintro b _ ⟨highs, rfl⟩
  refine .ok rfl ⟨highs, ?_⟩
  rw [h.setPc, h]

theorem run_engine (m : UcM α) (b : Binding) : (engine m).run b = match m.run b.uc with
    | .ok a uc => .ok a { b with uc }
    | .error e uc => .error e { b with uc } :=
  rfl

theorem run_engine_of_ok {m : UcM α} {b : Binding} {a : α} {uc : Unicorn}
    (h : m.run b.uc = .ok a uc) : (engine m).run b = .ok a { b with uc } := by
  rw [run_engine, h]

theorem run_engine_of_error {m : UcM α} {b : Binding} {e : JavaException} {uc : Unicorn}
    (h : m.run b.uc = .error e uc) : (engine m).run b = .error e { b with uc } := by
  rw [run_engine, h]

theorem alike_engine (m : UcM α) : Alike SameGuest Eq (engine m) (engine m) := by
  rintro b _ ⟨highs, rfl⟩
  cases hrun : m.run b.uc with
  | ok a uc =>
    rw [run_engine_of_ok hrun, run_engine_of_ok (b := { b with highs }) hrun]
    exact .ok rfl ⟨highs, rfl⟩
  | error e uc =>
    rw [run_engine_of_error hrun, run_engine_of_error (b := { b with highs }) hrun]
    exact .error ⟨highs, rfl⟩

theorem alike_callback (m : UcM (Option CallRet)) :
    Alike SameGuest Eq (callback m) (callback m) := by
  rintro b _ ⟨highs, rfl⟩
  simp only [callback, EStateM.run]
  cases m b.uc with
  | ok ret uc =>
    cases ret with
    | none => exact .error ⟨highs, rfl⟩
    | some ret => exact .ok rfl ⟨highs, rfl⟩
  | error e uc => exact .error ⟨highs, rfl⟩

theorem alike_readRegs (regs : List ArmReg) :
    Alike SameGuest Eq (readRegs regs) (readRegs regs) := by
  induction regs with
  | nil => exact .pure rfl
  | cons reg regs ih =>
    refine (alike_regRead reg).bind fun v v' hlow => ih.bind ?_
    rintro args _ rfl
    exact .pure (by rw [hlow.maskLong])

theorem alike_readStackArgs (sp : Int64) (is : List ℕ) :
    Alike SameGuest Eq (readStackArgs sp is) (readStackArgs sp is) := by
  induction is with
  | nil => exact .pure rfl
  | cons i is ih =>
    refine (alike_engine _).bind ?_
    rintro bytes _ rfl
    refine ih.bind ?_
    rintro args _ rfl
    exact .pure rfl

/-- `readArgs` masks what it reads. -/
theorem alike_readArgs (amount : Int32) :
    Alike SameGuest Eq (readArgs amount) (readArgs amount) := by
  unfold readArgs
  split_ifs
  · exact .pure rfl
  · exact .throw _
  · refine (alike_readRegs _).bind ?_
    rintro args _ rfl
    refine (alike_regRead .sp).bind fun sp sp' hlow => ?_
    rw [hlow.maskLong]
    refine (alike_readStackArgs _ _).bind ?_
    rintro stackArgs _ rfl
    exact .pure rfl

theorem alike_readSyscallArgs (size : Int32) :
    Alike SameGuest Eq (readSyscallArgs size) (readSyscallArgs size) := by
  unfold readSyscallArgs
  split_ifs
  · exact .throw _
  · exact alike_readRegs _

theorem alike_emuStop : Alike SameGuest Eq emuStop emuStop := by
  rintro b _ ⟨highs, rfl⟩
  exact .ok rfl ⟨highs, rfl⟩

/-- System calls do not see the upper halves. -/
theorem alike_handle (syscalls : Int32 → Option ISyscall) :
    Alike SameGuest Eq (handle syscalls) (handle syscalls) := by
  refine (alike_regRead .r7).bind fun reg reg' hlow => ?_
  rw [hlow.toInt32]
  cases syscalls reg'.toInt32 with
  | none => exact alike_emuStop
  | some s =>
    refine (alike_readSyscallArgs _).bind ?_
    rintro args _ rfl
    refine (alike_regRead .pc).bind fun _ _ _ => (alike_callback _).bind ?_
    rintro ret _ rfl
    split_ifs
    · exact alike_regWrite .r0 rfl
    · exact .pure rfl

/-- Nor do hooks. -/
theorem alike_hook (function : IFunc → UcM (Option CallRet)) (h : Hooker) :
    Alike SameGuest Eq (hook function h) (hook function h) := by
  refine (alike_regRead .pc).bind fun pc pc' hpc => (alike_regRead .lr).bind fun lr lr' hlr => ?_
  rw [hpc.maskLong]
  cases h.hookers (maskLong pc') with
  | none => exact .pure rfl
  | some f =>
    refine (alike_callback _).bind ?_
    rintro ret _ rfl
    split_ifs
    · exact (alike_regWrite .r0 rfl).bind fun _ _ _ => alike_setPc hlr
    · exact .pure rfl

theorem alike_writeRegArgs (args : List (ArmReg × Int64)) :
    Alike SameGuest Eq (writeRegArgs args) (writeRegArgs args) := by
  induction args with
  | nil => exact .pure rfl
  | cons arg args ih => exact (alike_regWrite _ rfl).bind fun _ _ _ => ih

/-- What starts alike ends alike. -/
theorem agreesFrom_of_alike {m : BindM α} (h : Alike SameGuest Eq m m) (uc : Unicorn) :
    AgreesFrom uc m :=
  fun _ highs' => h _ _ ⟨highs', rfl⟩

end Agrees

/-! ## `writeArgs` -/

section WriteArgs

variable {uc : Unicorn} {args : List Int64}

/-- The bytes of an argument on the stack. -/
def argBytes (arg : Int64) : List UInt8 := cut (longToBytesLittle arg) 4

theorem length_argBytes (arg : Int64) : (argBytes arg).length = 4 := by
  simp [argBytes, cut, longToBytesLittle]

/-- The registers after some were written. -/
def setRegs (regs : ArmReg → UInt32) (args : List (ArmReg × Int64)) : ArmReg → UInt32 :=
  args.foldl (fun regs arg => Function.update regs arg.1 arg.2.toUInt64.toUInt32) regs

/-- The binding after these registers were written. -/
def withRegs (b : Binding) (args : List (ArmReg × Int64)) : Binding :=
  { b with
    uc := { b.uc with regs := setRegs b.uc.regs args }
    regWrites := b.regWrites ++ args.map fun arg => (arg.1, arg.2.toUInt64.toUInt32) }

/-- The binding after these arguments were written to the stack, all to the same address. -/
def withStack (b : Binding) (sp : Int64) (args : List Int64) : Binding :=
  { b with
    uc := args.foldl (fun uc arg => uc.store sp.toUInt64 (argBytes arg)) b.uc
    memWrites := b.memWrites ++ args.map fun arg => (sp.toUInt64, argBytes arg) }

theorem run_writeRegArgs (args : List (ArmReg × Int64)) (b : Binding) :
    (writeRegArgs args).run b = .ok () (b.withRegs args) := by
  induction args generalizing b with
  | nil =>
    rw [withRegs, List.map_nil, List.append_nil]
    rfl
  | cons arg args ih =>
    have hwrite : (regWrite arg.1 arg.2).run b = .ok () (b.withRegs [arg]) := rfl
    rw [writeRegArgs, bind_of_ok hwrite, ih]
    simp only [withRegs, setRegs, List.foldl_cons, List.foldl_nil, List.map_cons, List.map_nil,
      List.append_assoc, List.cons_append, List.nil_append]

theorem setRegs_of_ne {regArgs : List (ArmReg × Int64)} {reg : ArmReg}
    (h : ∀ arg ∈ regArgs, arg.1 ≠ reg) (regs : ArmReg → UInt32) :
    setRegs regs regArgs reg = regs reg := by
  induction regArgs generalizing regs with
  | nil => rfl
  | cons arg regArgs ih =>
    obtain ⟨harg, hargs⟩ := List.forall_mem_cons.1 h
    rw [setRegs, List.foldl_cons]
    exact (ih hargs _).trans (Function.update_of_ne harg.symm _ _)

/-- The registers for arguments do not include the stack pointer. -/
theorem ne_sp_of_mem_zip {arg : ArmReg × Int64}
    (h : arg ∈ [ArmReg.r0, .r1, .r2, .r3].zip args) : arg.1 ≠ .sp := by
  have hmem := (List.of_mem_zip h).1
  rintro heq
  simp [heq] at hmem

theorem run_writeStackArgs_of_mapped {b : Binding} {sp : Int64}
    (h : b.uc.checkMemArea sp.toUInt64 4 = true) (args : List Int64) :
    (writeStackArgs sp args).run b = .ok () (b.withStack sp args) := by
  induction args generalizing b with
  | nil =>
    rw [withStack, List.map_nil, List.append_nil]
    rfl
  | cons arg args ih =>
    have hwrite : (memWrite sp (argBytes arg)).run b = .ok () (b.withStack sp [arg]) := by
      rw [← length_argBytes arg] at h
      rw [memWrite, bind_of_ok (run_engine_of_ok (Unicorn.run_memWrite_of_mapped h))]
      rfl
    have hmapped : (b.withStack sp [arg]).uc.checkMemArea sp.toUInt64 4 = true := by
      rw [← h]
      exact Unicorn.checkMemArea_congr rfl _ _
    rw [writeStackArgs]
    refine (bind_of_ok hwrite).trans ((ih hmapped).trans ?_)
    simp only [withStack, List.foldl_cons, List.foldl_nil, List.map_cons, List.map_nil,
      List.append_assoc, List.cons_append, List.nil_append]

theorem run_writeStackArgs_of_unmapped {b : Binding} {sp : Int64}
    (h : b.uc.checkMemArea sp.toUInt64 4 = false) (hne : args ≠ []) :
    (writeStackArgs sp args).run b = .error (.unicornException .writeUnmapped) b := by
  obtain ⟨arg, args, rfl⟩ := List.exists_cons_of_ne_nil hne
  rw [← length_argBytes arg] at h
  have hwrite : (memWrite sp (argBytes arg)).run b = .error (.unicornException .writeUnmapped) b :=
    bind_of_error (run_engine_of_error (Unicorn.run_memWrite_of_unmapped h))
  exact bind_of_error hwrite

/-- The binding in which `writeArgs` has read the stack pointer. -/
def afterRegs (b : Binding) (args : List Int64) : Binding :=
  { b.withRegs ([ArmReg.r0, .r1, .r2, .r3].zip args) with highs := fun n => b.highs (n + 1) }

/-- `writeArgs` with arguments on the stack: the address depends on the upper half that is read. -/
theorem run_writeArgs (hlen : 5 ≤ args.length) (b : Binding) :
    (writeArgs args).run b =
      if b.uc.checkMemArea (argArea b.uc (b.highs 0) args.length).toUInt64 4 then
        (regWrite .sp (argArea b.uc (b.highs 0) args.length)).run
          ((b.afterRegs args).withStack (argArea b.uc (b.highs 0) args.length) (args.drop 4))
      else .error (.unicornException .writeUnmapped) (b.afterRegs args) := by
  have hsp : (b.withRegs ([ArmReg.r0, .r1, .r2, .r3].zip args)).uc.regs .sp = b.uc.regs .sp :=
    setRegs_of_ne (fun _ => ne_sp_of_mem_zip) _
  have hread : (regRead .sp).run (b.withRegs ([ArmReg.r0, .r1, .r2, .r3].zip args)) =
      .ok (b.uc.regReadRaw .sp (b.highs 0)) (b.afterRegs args) := by
    rw [Unicorn.regReadRaw, ← hsp]
    rfl
  have hdrop : args.drop 4 ≠ [] := by
    rw [ne_eq, List.drop_eq_nil_iff]
    omega
  rw [writeArgs, bind_of_ok (run_writeRegArgs _ b), if_pos hlen, bind_of_ok hread]
  by_cases hmapped : b.uc.checkMemArea (argArea b.uc (b.highs 0) args.length).toUInt64 4 = true
  · rw [if_pos hmapped]
    exact bind_of_ok (run_writeStackArgs_of_mapped (b := b.afterRegs args) hmapped _)
  · rw [if_neg hmapped]
    exact bind_of_error (run_writeStackArgs_of_unmapped (b := b.afterRegs args)
      (Bool.eq_false_iff.2 hmapped) hdrop)

/-- What `writeArgs` writes to guest memory. -/
theorem memWrites_writeArgs (hlen : 5 ≤ args.length) (uc : Unicorn) (highs : ℕ → UInt32) :
    (finalState ((writeArgs args).run (start uc highs))).memWrites =
      if uc.checkMemArea (argArea uc (highs 0) args.length).toUInt64 4 then
        (args.drop 4).map fun arg => ((argArea uc (highs 0) args.length).toUInt64, argBytes arg)
      else [] := by
  have hstart : (start uc highs).uc = uc := rfl
  have hhighs : (start uc highs).highs = highs := rfl
  rw [run_writeArgs hlen, hstart, hhighs]
  split_ifs <;> rfl

/-- Different upper halves lead to different addresses. -/
theorem argArea_injective (uc : Unicorn) (n : ℕ) {high high' : UInt32}
    (h : (argArea uc high n).toUInt64 = (argArea uc high' n).toUInt64) : high = high' := by
  have harea : ∀ high, (argArea uc high n).toUInt64 =
      high.toUInt64 * 0x100000000 + (uc.regs .sp).toUInt64 - 8 - 4 * (UInt64.ofNat n - 4) :=
    fun _ => rfl
  rw [harea, harea, UInt64.sub_left_inj, UInt64.sub_left_inj, UInt64.add_left_inj,
    ← UInt64.toNat_inj] at h
  have hbig : (0x100000000 : UInt64).toNat = 0x100000000 := rfl
  have hlt := high.toNat_lt
  have hlt' := high'.toNat_lt
  simp only [UInt64.toNat_mul, UInt32.toNat_toUInt64, hbig] at h
  apply UInt32.toNat_inj.1
  omega

/-- The other upper half leads elsewhere, or to no memory. -/
theorem not_sameGuest_of_exposed (h : Exposed uc args.length) :
    ∃ highs highs', (finalState ((writeArgs args).run (start uc highs))).memWrites ≠
      (finalState ((writeArgs args).run (start uc highs'))).memWrites := by
  obtain ⟨hlen, high, hmapped⟩ := h
  refine ⟨fun _ => high, fun _ => high + 1, ?_⟩
  have hne : args.drop 4 ≠ [] := by
    rw [ne_eq, List.drop_eq_nil_iff]
    omega
  obtain ⟨arg, rest, hdrop⟩ := List.exists_cons_of_ne_nil hne
  rw [memWrites_writeArgs hlen, memWrites_writeArgs hlen, if_pos hmapped, hdrop]
  split_ifs
  · intro heq
    have haddr := congrArg Prod.fst (List.cons.inj heq).1
    have hhigh := argArea_injective uc _ haddr
    have hlt := high.toNat_lt
    have hone : (1 : UInt32).toNat = 1 := rfl
    rw [← UInt32.toNat_inj, UInt32.toNat_add, hone] at hhigh
    omega
  · simp

theorem agreesFrom_writeArgs (h : ¬Exposed uc args.length) : AgreesFrom uc (writeArgs args) := by
  intro highs highs'
  by_cases hlen : 5 ≤ args.length
  · -- All addresses that the upper halves lead to are unmapped, and so both runs throw.
    have hunmapped : ∀ high, ¬uc.checkMemArea (argArea uc high args.length).toUInt64 4 = true :=
      fun high hmapped => h ⟨hlen, high, hmapped⟩
    have hrun : ∀ highs, (writeArgs args).run (start uc highs) =
        .error (.unicornException .writeUnmapped) ((start uc highs).afterRegs args) := by
      intro highs
      rw [run_writeArgs hlen]
      exact if_neg (hunmapped _)
    rw [hrun, hrun]
    exact .error ⟨fun n => highs' (n + 1), rfl⟩
  · refine SameEnd.bind (alike_writeRegArgs _ _ _ ⟨highs', rfl⟩) fun _ _ _ => ?_
    rw [if_neg hlen]
    exact .pure rfl

/-- `writeArgs` shows the upper half of `SP` exactly if it is exposed. -/
theorem agreesFrom_writeArgs_iff (uc : Unicorn) (args : List Int64) :
    AgreesFrom uc (writeArgs args) ↔ ¬Exposed uc args.length := by
  refine ⟨fun hagrees hexposed => ?_, agreesFrom_writeArgs⟩
  obtain ⟨highs, highs', hne⟩ := not_sameGuest_of_exposed hexposed
  obtain ⟨_, heq⟩ := (hagrees highs highs').finalState
  exact hne (congrArg memWrites heq).symm

section CallNative

variable (emuStart : Int64 → Int64 → UcM Unit) (stopPos addr : Int64)

/-- What `callNative` does after the arguments were written. -/
def callRest : BindM Int64 := do
  regWrite .lr stopPos
  engine (emuStart addr (xorBit stopPos))
  let ret ← regRead .r0
  pure (maskLong ret)

theorem alike_callRest : Alike SameGuest Eq (callRest emuStart stopPos addr)
    (callRest emuStart stopPos addr) := by
  refine (alike_regWrite .lr rfl).bind fun _ _ _ => (alike_engine _).bind fun _ _ _ => ?_
  exact (alike_regRead .r0).bind fun _ _ hlow => .pure hlow.maskLong

/-- The writes of the guest's code are not writes of the emulator. -/
theorem keeps_memWrites_callRest :
    Keeps (fun b b' => b'.memWrites = b.memWrites) (callRest emuStart stopPos addr) := by
  refine Keeps.bind (fun _ => rfl) fun _ => Keeps.bind (fun b => ?_) fun _ =>
    Keeps.bind (fun _ => rfl) fun _ _ => rfl
  simp only [engine, EStateM.run]
  cases emuStart addr (xorBit stopPos) b.uc <;> rfl

theorem agreesFrom_callNative_iff (uc : Unicorn) (args : List Int64) :
    AgreesFrom uc (callNative emuStart stopPos addr args) ↔ ¬Exposed uc args.length := by
  have hseq : callNative emuStart stopPos addr args =
      writeArgs args >>= fun _ => callRest emuStart stopPos addr := rfl
  rw [hseq]
  constructor
  · intro hagrees hexposed
    obtain ⟨highs, highs', hne⟩ := not_sameGuest_of_exposed hexposed
    obtain ⟨_, heq⟩ := (hagrees highs highs').finalState
    have hrest : ∀ highs, (finalState ((writeArgs args >>= fun _ =>
        callRest emuStart stopPos addr).run (start uc highs))).memWrites =
        (finalState ((writeArgs args).run (start uc highs))).memWrites :=
      fun highs => rel_finalState_rest (R := fun b b' : Binding => b'.memWrites = b.memWrites)
        (fun _ => keeps_memWrites_callRest emuStart stopPos addr) (start uc highs)
    exact hne ((hrest highs).symm.trans ((congrArg memWrites heq).symm.trans (hrest highs')))
  · intro h highs highs'
    exact (agreesFrom_writeArgs h highs highs').bind
      fun _ _ _ => alike_callRest emuStart stopPos addr

end CallNative

end WriteArgs

/-- Only `writeArgs`, and `callNative` because of it, depends on the upper halves, and exactly if
there are arguments on the stack and some upper half leads to mapped memory. -/
theorem upper_halves_iff (uc : Unicorn) :
    (∀ args, AgreesFrom uc (writeArgs args) ↔ ¬Exposed uc args.length) ∧
      (∀ emuStart stopPos addr args,
        AgreesFrom uc (callNative emuStart stopPos addr args) ↔ ¬Exposed uc args.length) ∧
      (∀ amount, AgreesFrom uc (readArgs amount)) ∧
      (∀ amount, AgreesFrom uc (readVaArgs amount)) ∧
      (∀ size, AgreesFrom uc (readSyscallArgs size)) ∧
      (∀ syscalls, AgreesFrom uc (handle syscalls)) ∧
      ∀ function h, AgreesFrom uc (hook function h) :=
  ⟨agreesFrom_writeArgs_iff uc, fun emuStart stopPos addr =>
      agreesFrom_callNative_iff emuStart stopPos addr uc,
    fun amount => agreesFrom_of_alike (alike_readArgs amount) uc,
    fun amount => agreesFrom_of_alike (alike_readArgs amount) uc,
    fun size => agreesFrom_of_alike (alike_readSyscallArgs size) uc,
    fun syscalls => agreesFrom_of_alike (alike_handle syscalls) uc,
    fun function h => agreesFrom_of_alike (alike_hook function h) uc⟩

/-- An engine with one page of stack. -/
def onePageStack : Unicorn :=
  { Unicorn.blank with
    regions := [⟨0x1000, 0x1000⟩]
    regs := Function.update (fun _ => 0) .sp 0x1800 }

/-- With one page of stack the fifth argument is written if the upper half that is read is zero, and
with another upper half nothing is written and the call throws. -/
theorem fifth_arg_depends_on_upper_half :
    (finalState ((writeArgs [1, 2, 3, 4, 5]).run (start onePageStack fun _ => 0))).memWrites =
        [(0x17F4, [5, 0, 0, 0])] ∧
      (finalState ((writeArgs [1, 2, 3, 4, 5]).run (start onePageStack fun _ => 1))).memWrites =
        [] ∧
      ¬AgreesFrom onePageStack (writeArgs [1, 2, 3, 4, 5]) := by
  have hexposed : Exposed onePageStack [1, 2, 3, 4, (5 : Int64)].length :=
    ⟨by decide, 0, by decide⟩
  refine ⟨?_, ?_, fun hagrees => (agreesFrom_writeArgs_iff _ _).1 hagrees hexposed⟩
  · rw [memWrites_writeArgs (by decide)]
    decide
  · rw [memWrites_writeArgs (by decide)]
    decide

/-! ## The definitions without upper halves -/

section Implements

variable {α β : Type}

/-- Over the binding the code does to the engine what it does there without it. -/
def Implements (m : BindM α) (m' : UcM α) : Prop := Alike (fun b uc => b.uc = uc) Eq m m'

theorem maskLong_regReadRaw (uc : Unicorn) (reg : ArmReg) (high : UInt32) :
    maskLong (uc.regReadRaw reg high) = uc.regRead reg := by
  rw [maskLong_eq, toUInt32_regReadRaw]
  rfl

theorem implements_engine (m : UcM α) : Implements (engine m) m := by
  rintro b _ rfl
  cases hrun : m.run b.uc with
  | ok a uc =>
    rw [run_engine_of_ok hrun]
    exact .ok rfl rfl
  | error e uc =>
    rw [run_engine_of_error hrun]
    exact .error rfl

theorem implements_memWrite (address : Int64) (bytes : List UInt8) :
    Implements (memWrite address bytes) (Unicorn.memWrite address bytes) := by
  rintro b _ rfl
  cases hrun : (Unicorn.memWrite address bytes).run b.uc with
  | ok a uc =>
    rw [memWrite, bind_of_ok (run_engine_of_ok hrun)]
    exact .ok rfl rfl
  | error e uc =>
    rw [memWrite, bind_of_error (run_engine_of_error hrun)]
    exact .error rfl

theorem run_readRegs (regs : List ArmReg) (b : Binding) :
    ∃ highs, (readRegs regs).run b = .ok (regs.map b.uc.regRead) { b with highs } := by
  induction regs generalizing b with
  | nil => exact ⟨b.highs, rfl⟩
  | cons reg regs ih =>
    have hread : (regRead reg).run b = .ok (b.uc.regReadRaw reg (b.highs 0))
        { b with highs := fun n => b.highs (n + 1) } := rfl
    obtain ⟨highs, hrun⟩ := ih { b with highs := fun n => b.highs (n + 1) }
    refine ⟨highs, ?_⟩
    rw [readRegs, bind_of_ok hread, bind_of_ok hrun, maskLong_regReadRaw]
    rfl

theorem implements_readStackArgs (uc : Unicorn) (is : List ℕ) :
    Implements (readStackArgs (uc.regRead .sp + stackOffset) is)
      (NativeCallHelper.readStackArgs uc is) := by
  induction is with
  | nil => exact .pure rfl
  | cons i is ih =>
    refine (implements_engine _).bind ?_
    rintro bytes _ rfl
    refine ih.bind ?_
    rintro args _ rfl
    exact .pure rfl

theorem implements_readArgs (amount : Int32) :
    Implements (readArgs amount) (NativeCallHelper.readArgs amount) := by
  rintro b _ rfl
  rw [readArgs, NativeCallHelper.readArgs]
  split_ifs
  · exact .ok rfl rfl
  · exact .error rfl
  · obtain ⟨highs, hregs⟩ := run_readRegs ([.r0, .r1, .r2, .r3].take amount.toInt.toNat) b
    have hsp : (regRead .sp).run { b with highs } = .ok (b.uc.regReadRaw .sp (highs 0))
        { b with highs := fun n => highs (n + 1) } := rfl
    rw [bind_of_ok hregs, bind_of_ok hsp, maskLong_regReadRaw, get_bind]
    refine SameEnd.bind (implements_readStackArgs b.uc _ _ _ rfl) ?_
    rintro stackArgs _ rfl
    exact .pure rfl

/-- `writeArgs` over the binding is the one with the next upper half. -/
theorem implements_writeArgs (args : List Int64) (b : Binding) :
    SameEnd (fun b uc => b.uc = uc) Eq ((writeArgs args).run b)
      ((NativeCallHelper.writeArgs (b.highs 0) args).run b.uc) := by
  have hregs : ∀ (regArgs : List (ArmReg × Int64)) (b : Binding),
      (NativeCallHelper.writeRegArgs regArgs).run b.uc = .ok () (b.withRegs regArgs).uc := by
    intro regArgs
    induction regArgs with
    | nil => exact fun _ => rfl
    | cons arg regArgs ih =>
      intro b
      exact ih (b.withRegs [arg])
  have hstack : ∀ (sp : Int64) (args : List Int64), Implements (writeStackArgs sp args)
      (NativeCallHelper.writeStackArgs sp args) := by
    intro sp args
    induction args with
    | nil => exact .pure rfl
    | cons arg args ih => exact (implements_memWrite _ _).bind fun _ _ _ => ih
  rw [writeArgs, NativeCallHelper.writeArgs, bind_of_ok (run_writeRegArgs _ b),
    bind_of_ok (hregs _ b)]
  split_ifs
  · have hread : (regRead .sp).run (b.withRegs ([.r0, .r1, .r2, .r3].zip args)) =
        .ok ((b.withRegs ([.r0, .r1, .r2, .r3].zip args)).uc.regReadRaw .sp (b.highs 0))
          (b.afterRegs args) := rfl
    rw [bind_of_ok hread, get_bind]
    refine SameEnd.bind (hstack _ _ (b.afterRegs args) _ rfl) fun _ _ _ => ?_
    rintro b _ rfl
    exact .ok rfl rfl
  · exact .ok rfl rfl

/-- `callNative` over the binding is the one with the next upper half. -/
theorem implements_callNative (emuStart : Int64 → Int64 → UcM Unit) (stopPos addr : Int64)
    (args : List Int64) (b : Binding) :
    SameEnd (fun b uc => b.uc = uc) Eq ((callNative emuStart stopPos addr args).run b)
      ((Tank.callNative emuStart ⟨addr, args, stopPos, b.highs 0⟩).run b.uc) := by
  refine SameEnd.bind (implements_writeArgs args b) fun _ _ _ => ?_
  refine Alike.bind (R := Eq) ?_ fun _ _ _ => (implements_engine _).bind fun _ _ _ => ?_
  · rintro b _ rfl
    exact .ok rfl rfl
  · rintro b _ rfl
    exact .ok (maskLong_regReadRaw _ _ _) rfl

/-- `hook` over the binding is the one that delivers instructions. -/
theorem implements_hook (function : IFunc → UcM (Option CallRet)) (h : Hooker) :
    Alike (fun b s => b.uc = s.uc ∧ b.stopped = s.stopped) Eq (hook function h)
      (h.hook function) := by
  rintro ⟨uc, highs, memWrites, regWrites, stopped⟩ ⟨_, _, calls⟩ ⟨rfl, rfl⟩
  simp only [hook, Hooker.hook, Hooker.atPc, regRead, EStateM.run, bind, EStateM.bind,
    maskLong_regReadRaw]
  cases h.hookers (uc.regRead .pc) with
  | none => exact .ok rfl ⟨rfl, rfl⟩
  | some f =>
    simp only [callback, EStateM.run, EStateM.bind]
    cases function f uc with
    | error e uc' => exact .error ⟨rfl, rfl⟩
    | ok ret uc' =>
      cases ret with
      | none => exact .error ⟨rfl, rfl⟩
      | some ret =>
        dsimp only
        split_ifs
        · have hlr : SameLow (uc.regReadRaw .lr (highs 1)) (uc.regRead .lr) := by
            rw [SameLow, toUInt32_regReadRaw]
            exact (UInt32.toUInt32_toUInt64 _).symm
          exact .ok rfl ⟨hlr.setPc _, rfl⟩
        · exact .ok rfl ⟨rfl, rfl⟩

end Implements

end Binding

end Tank
