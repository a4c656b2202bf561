import Tank.Helper.UpperHalves

/-!
# Dispatchers and failing callbacks

`SyscallHandler.handle` calls the Java function of a system call, `Hooker.hook` that of a hooked
address. Both catch what it throws and stop the emulator, and then go on as if there were a result:
`ret` is `null`, the assertion that it is not is disabled, and `ret.hasReturn` throws a
`NullPointerException`.

* `Survives`: what is required of a dispatcher, whatever its callback does.
* `survives_afterCall_iff`: the common end of both dispatchers fulfils it exactly if the callback
  returns a result.
* `dispatchers_survive_iff`: the same for both dispatchers.
-/

namespace Tank

open ToMathlib

namespace Binding

/-- The callback of a dispatcher. -/
abbrev Callback := UcM (Option CallRet)

/-- The result with which a callback completes. -/
def completion (m : Callback) (uc : Unicorn) : Option CallRet :=
  match outcome (m.run uc) with
  | .ok ret => ret
  | .error _ => none

/-- The callback throws. -/
def throws (m : Callback) (uc : Unicorn) : Bool :=
  match outcome (m.run uc) with
  | .ok _ => false
  | .error _ => true

/-- The writes that are due: those for a result that has a value. -/
def dueWrites (writes : CallRet → List (ArmReg × UInt32)) (called : Option Callback)
    (uc : Unicorn) : List (ArmReg × UInt32) :=
  match called.bind fun m => completion m uc with
  | some ret => if ret.hasReturn then writes ret else []
  | none => []

/-- Whether the emulator is to be stopped: because the callback throws, or there is none and that is
an error. -/
def stopDue (unknownStops : Bool) (called : Option Callback) (uc : Unicorn) : Bool :=
  match called with
  | some m => throws m uc
  | none => unknownStops

/-- A dispatcher returns, has written the registers that are due and no others, and has stopped the
emulator exactly if that is due. -/
structure Survives (called : Option Callback) (unknownStops : Bool)
    (writes : CallRet → List (ArmReg × UInt32)) (b : Binding)
    (r : EStateM.Result JavaException Binding Unit) : Prop where
  returns : ∃ b', r = .ok () b'
  regWrites : (finalState r).regWrites = b.regWrites ++ dueWrites writes called b.uc
  stopped : (finalState r).stopped = (b.stopped || stopDue unknownStops called b.uc)

/-- What both dispatchers do once they have a callback. -/
def afterCall (m : Callback) (finish : CallRet → BindM Unit) : BindM Unit := do
  let ret ← callback m
  if ret.hasReturn then finish ret else pure ()

/-- The code only writes registers, namely these. -/
def OnlyWrites (m : BindM Unit) (writes : List (ArmReg × UInt32)) : Prop :=
  ∀ b : Binding, ∃ b', m.run b = .ok () b' ∧ b'.regWrites = b.regWrites ++ writes ∧
    b'.stopped = b.stopped

variable {m : Callback} {finish : CallRet → BindM Unit}
  {writes : CallRet → List (ArmReg × UInt32)} {b : Binding}

theorem run_afterCall_of_error {err : JavaException} {uc : Unicorn}
    (h : m.run b.uc = .error err uc) :
    (afterCall m finish).run b = .error .nullPointer { b with uc, stopped := true } := by
  have hcall : (callback m).run b = .error .nullPointer { b with uc, stopped := true } := by
    simp only [EStateM.run, callback] at h ⊢
    rw [h]
  exact bind_of_error hcall

theorem run_afterCall_of_null {uc : Unicorn} (h : m.run b.uc = .ok none uc) :
    (afterCall m finish).run b = .error .nullPointer { b with uc } := by
  have hcall : (callback m).run b = .error .nullPointer { b with uc } := by
    simp only [EStateM.run, callback] at h ⊢
    rw [h]
  exact bind_of_error hcall

theorem run_afterCall_of_some {ret : CallRet} {uc : Unicorn} (h : m.run b.uc = .ok (some ret) uc) :
    (afterCall m finish).run b =
      (if ret.hasReturn then finish ret else pure ()).run { b with uc } := by
  have hcall : (callback m).run b = .ok ret { b with uc } := by
    simp only [EStateM.run, callback] at h ⊢
    rw [h]
  exact bind_of_ok hcall

theorem not_survives_of_error {called : Option Callback} {unknownStops : Bool} {b' : Binding}
    {err : JavaException} : ¬Survives called unknownStops writes b (.error err b') := by
  rintro ⟨⟨b', h⟩, -, -⟩
  cases h

/-- A dispatcher that has a callback survives it exactly if there is a result. -/
theorem survives_afterCall_iff (hfinish : ∀ ret, OnlyWrites (finish ret) (writes ret))
    (unknownStops : Bool) (highs : ℕ → UInt32) :
    Survives (some m) unknownStops writes b ((afterCall m finish).run { b with highs }) ↔
      ∃ ret, outcome (m.run b.uc) = .ok (some ret) := by
  cases hrun : m.run b.uc with
  | error err uc =>
    rw [run_afterCall_of_error (b := { b with highs }) hrun]
    refine iff_of_false not_survives_of_error ?_
    rintro ⟨ret, h⟩
    cases h
  | ok ret uc =>
    cases ret with
    | none =>
      rw [run_afterCall_of_null (b := { b with highs }) hrun]
      refine iff_of_false not_survives_of_error ?_
      rintro ⟨ret, h⟩
      cases h
    | some ret =>
      have hdue : dueWrites writes (some m) b.uc = if ret.hasReturn then writes ret else [] := by
        rw [dueWrites, Option.bind_some, completion, hrun]
        rfl
      have hstop : stopDue unknownStops (some m) b.uc = false := by
        rw [stopDue, throws, hrun]
        rfl
      -- Whether or not there is a value, what follows only writes registers.
      have honly : OnlyWrites (if ret.hasReturn then finish ret else pure ())
          (if ret.hasReturn then writes ret else []) := by
        split_ifs
        · exact hfinish ret
        · exact fun b => ⟨b, rfl, (List.append_nil _).symm, rfl⟩
      obtain ⟨b', hb', hwrites, hstopped⟩ := honly { b with highs, uc }
      rw [run_afterCall_of_some (b := { b with highs }) hrun]
      refine iff_of_true ⟨⟨b', hb'⟩, ?_, ?_⟩ ⟨ret, rfl⟩
      · rw [hb', finalState, hwrites, hdue]
      · rw [hb', finalState, hstopped, hstop, Bool.or_false]

/-! ## System calls -/

/-- The system call that `R7` selects. -/
def selected (syscalls : Int32 → Option ISyscall) (uc : Unicorn) : Option ISyscall :=
  syscalls (uc.regRead .r7).toInt32

/-- Its arguments: registers from `R0` on. -/
def syscallArgs (uc : Unicorn) (size : Int32) : List Int64 :=
  ((List.range size.toInt.toNat).map argReg).map uc.regRead

/-- Its callback. -/
def syscallCallback (syscalls : Int32 → Option ISyscall) (uc : Unicorn) : Option Callback :=
  (selected syscalls uc).map fun s => s.callback (syscallArgs uc s.argSize)

/-- `handle` survives, and writes only `R0`. -/
def HandleSurvives (syscalls : Int32 → Option ISyscall) (b : Binding) : Prop :=
  Survives (syscallCallback syscalls b.uc) true (fun ret => [(.r0, low32 ret.value)]) b
    ((handle syscalls).run b)

variable {syscalls : Int32 → Option ISyscall}

/-- Reading a register changes only the upper halves to come. -/
theorem run_regRead (reg : ArmReg) (b : Binding) :
    (regRead reg).run b = .ok (b.uc.regReadRaw reg (b.highs 0))
      { b with highs := fun n => b.highs (n + 1) } := rfl

theorem toInt32_regReadRaw (uc : Unicorn) (reg : ArmReg) (high : UInt32) :
    (uc.regReadRaw reg high).toInt32 = (uc.regRead reg).toInt32 := by
  have hlow : (uc.regRead reg).toUInt64.toUInt32 = uc.regs reg := UInt32.toUInt32_toUInt64 _
  exact SameLow.toInt32 ((toUInt32_regReadRaw uc reg high).trans hlow.symm)

theorem run_handle_of_unknown (h : selected syscalls b.uc = none) :
    ∃ highs, (handle syscalls).run b = .ok () { b with highs, stopped := true } := by
  rw [selected] at h
  refine ⟨fun n => b.highs (n + 1), ?_⟩
  rw [handle, bind_of_ok (run_regRead .r7 b), toInt32_regReadRaw, h]
  rfl

theorem run_handle_of_negative {s : ISyscall} (h : selected syscalls b.uc = some s)
    (hsize : s.argSize < 0) : ∃ b', (handle syscalls).run b = .error .negativeArraySize b' := by
  rw [selected] at h
  rw [handle, bind_of_ok (run_regRead .r7 b), toInt32_regReadRaw, h]
  dsimp only
  rw [readSyscallArgs, if_pos hsize]
  exact ⟨_, rfl⟩

theorem run_handle_of_known {s : ISyscall} (h : selected syscalls b.uc = some s)
    (hsize : ¬s.argSize < 0) :
    ∃ highs, (handle syscalls).run b =
      (afterCall (s.callback (syscallArgs b.uc s.argSize))
        fun ret => regWrite .r0 ret.value).run { b with highs } := by
  rw [selected] at h
  obtain ⟨highs, hregs⟩ := run_readRegs ((List.range s.argSize.toInt.toNat).map argReg)
    { b with highs := fun n => b.highs (n + 1) }
  refine ⟨fun n => highs (n + 1), ?_⟩
  rw [handle, bind_of_ok (run_regRead .r7 b), toInt32_regReadRaw, h]
  dsimp only
  rw [readSyscallArgs, if_neg hsize, bind_of_ok hregs, bind_of_ok (run_regRead .pc _)]
  rfl

theorem handleSurvives_iff (syscalls : Int32 → Option ISyscall) (b : Binding) :
    HandleSurvives syscalls b ↔ ∀ s, selected syscalls b.uc = some s → 0 ≤ s.argSize ∧
      ∃ ret, outcome ((s.callback (syscallArgs b.uc s.argSize)).run b.uc) = .ok (some ret) := by
  rw [HandleSurvives, syscallCallback]
  cases hsel : selected syscalls b.uc with
  | none =>
    obtain ⟨highs, hrun⟩ := run_handle_of_unknown hsel
    rw [hrun]
    refine iff_of_true ⟨⟨_, rfl⟩, ?_, ?_⟩ ?_
    · exact (List.append_nil _).symm
    · exact (Bool.or_true _).symm
    · rintro s ⟨⟩
  | some s =>
    by_cases hsize : s.argSize < 0
    · obtain ⟨b', hrun⟩ := run_handle_of_negative hsel hsize
      rw [hrun]
      refine iff_of_false not_survives_of_error fun h => ?_
      exact absurd (h s rfl).1 (Int32.not_le.2 hsize)
    · obtain ⟨highs, hrun⟩ := run_handle_of_known hsel hsize
      have hfinish : ∀ ret : CallRet,
          OnlyWrites (regWrite .r0 ret.value) [(.r0, low32 ret.value)] :=
        fun ret b => ⟨_, rfl, rfl, rfl⟩
      rw [hrun, Option.map_some, survives_afterCall_iff hfinish]
      constructor
      · rintro hret _ ⟨⟩
        exact ⟨Int32.not_lt.1 hsize, hret⟩
      · intro h
        exact (h s rfl).2

/-! ## Hooked functions -/

/-- The callback of the function that is hooked at `PC`. -/
def hookCallback (function : IFunc → Callback) (h : Hooker) (uc : Unicorn) : Option Callback :=
  (h.hookers (uc.regRead .pc)).map function

/-- `hook` survives, and writes `R0` and then `PC`, which gets the value of `LR`. -/
def HookSurvives (function : IFunc → Callback) (h : Hooker) (b : Binding) : Prop :=
  Survives (hookCallback function h b.uc) false
    (fun ret => [(.r0, low32 ret.value), (.pc, b.uc.regs .lr)]) b ((hook function h).run b)

theorem run_hook_of_hooked (function : IFunc → Callback) {h : Hooker} {f : IFunc}
    (hfunc : h.hookers (b.uc.regRead .pc) = some f) :
    ∃ lr highs, lr.toUInt64.toUInt32 = b.uc.regs .lr ∧ (hook function h).run b =
      (afterCall (function f) fun ret => do
        regWrite .r0 ret.value
        setPc lr).run { b with highs } := by
  refine ⟨b.uc.regReadRaw .lr (b.highs 1), fun n => b.highs (n + 2), toUInt32_regReadRaw _ _ _, ?_⟩
  rw [hook, bind_of_ok (run_regRead .pc b), bind_of_ok (run_regRead .lr _), maskLong_regReadRaw,
    hfunc]
  rfl

theorem hookSurvives_iff (function : IFunc → Callback) (h : Hooker) (b : Binding) :
    HookSurvives function h b ↔ ∀ f, h.hookers (b.uc.regRead .pc) = some f →
      ∃ ret, outcome ((function f).run b.uc) = .ok (some ret) := by
  rw [HookSurvives, hookCallback]
  cases hfunc : h.hookers (b.uc.regRead .pc) with
  | none =>
    have hrun : ∃ highs, (hook function h).run b = .ok () { b with highs } := by
      refine ⟨fun n => b.highs (n + 2), ?_⟩
      rw [hook, bind_of_ok (run_regRead .pc b), bind_of_ok (run_regRead .lr _),
        maskLong_regReadRaw, hfunc]
      rfl
    obtain ⟨highs, hrun⟩ := hrun
    rw [hrun]
    refine iff_of_true ⟨⟨_, rfl⟩, ?_, ?_⟩ ?_
    · exact (List.append_nil _).symm
    · exact (Bool.or_false _).symm
    · rintro f ⟨⟩
  | some f =>
    obtain ⟨lr, highs, hlr, hrun⟩ := run_hook_of_hooked function hfunc
    have hfinish : ∀ ret : CallRet, OnlyWrites (do regWrite .r0 ret.value; setPc lr)
        [(.r0, low32 ret.value), (.pc, b.uc.regs .lr)] := by
      intro ret b'
      refine ⟨_, rfl, ?_, rfl⟩
      rw [← hlr]
      exact List.append_assoc _ _ _
    rw [hrun, Option.map_some, survives_afterCall_iff hfinish]
    constructor
    · rintro hret _ ⟨⟩
      exact hret
    · intro hall
      exact hall f rfl

/-- Both dispatchers survive exactly the callbacks that return a result (and, for system calls, have
no negative number of arguments). In particular they never survive one that throws. -/
theorem dispatchers_survive_iff (b : Binding) :
    (∀ syscalls, HandleSurvives syscalls b ↔ ∀ s, selected syscalls b.uc = some s →
      0 ≤ s.argSize ∧
        ∃ ret, outcome ((s.callback (syscallArgs b.uc s.argSize)).run b.uc) = .ok (some ret)) ∧
    ∀ function h, HookSurvives function h b ↔ ∀ f, h.hookers (b.uc.regRead .pc) = some f →
      ∃ ret, outcome ((function f).run b.uc) = .ok (some ret) :=
  ⟨fun syscalls => handleSurvives_iff syscalls b, fun function h => hookSurvives_iff function h b⟩

/-- A callback that throws. The emulator is stopped, but another exception leaves both
dispatchers. -/
theorem failing_callback_escapes :
    let fails : Callback := throw (.exception "Not implemented")
    let syscalls : Int32 → Option ISyscall := fun _ => some ⟨0, fun _ => fails⟩
    let hooker : Hooker := ⟨fun _ => some ⟨0, 0⟩, 1⟩
    let b := start .blank fun _ => 0
    (outcome ((handle syscalls).run b) = .error .nullPointer ∧
        (finalState ((handle syscalls).run b)).stopped = true ∧ ¬HandleSurvives syscalls b) ∧
      outcome ((hook (fun _ => fails) hooker).run b) = .error .nullPointer ∧
        (finalState ((hook (fun _ => fails) hooker).run b)).stopped = true ∧
        ¬HookSurvives (fun _ => fails) hooker b := by
  intro fails syscalls hooker b
  have hhandle : outcome ((handle syscalls).run b) = .error .nullPointer := by decide
  have hhook : outcome ((hook (fun _ => fails) hooker).run b) = .error .nullPointer := by decide
  refine ⟨⟨hhandle, by decide, ?_⟩, hhook, by decide, ?_⟩
  · rintro ⟨⟨b', hreturns⟩, -, -⟩
    cases hhandle.symm.trans (congrArg outcome hreturns)
  · rintro ⟨⟨b', hreturns⟩, -, -⟩
    cases hhook.symm.trans (congrArg outcome hreturns)

end Binding

end Tank
