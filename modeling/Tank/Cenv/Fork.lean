import Tank.Cenv.KernelRuns

/-!
# `vfork` and `exit_group`

There is one thread of execution. `vfork` saves all registers and continues as the child;
`exit_group` restores them and continues as the parent, with the pid of the child as the result of
its `vfork`. `Handler.fork` is the saved state, and a second `vfork` before the `exit_group` fails.

Both go through all numbers of registers up to `UC_ARM_REG_ENDING`. The last one is not a register
but `UC_ARM_REG_CP_REG`, for which the engine expects the description of a coprocessor register and
finds what is in the memory of a `long`. If there is no such register, `vfork` throws when it has
already set `Handler.fork`, and a later `exit_group` restores what was saved.

* `run_saveState`, `run_loadState`: what the two loops do to each register;
* `hook_vfork`, `hook_vfork_nested`, `hook_exitgroup`, `hook_exitgroup_closed`: what an interrupt
  does for the two system calls;
* `isSome_fork_run`: in a run in which all registers can be accessed, there is a saved state exactly
  if a `vfork` is open;
* `vfork_brackets`: then the child is bracketed;
* `exitgroup_after_failed_vfork`: a run in which the last slot cannot be accessed.
-/

namespace Tank

open ToMathlib

/-! ## Registers by their numbers -/

/-- The number of a register. -/
def numberOfReg : ArmReg → ℕ
  | .lr => 10
  | .pc => 11
  | .sp => 12
  | .r0 => 66
  | .r1 => 67
  | .r2 => 68
  | .r3 => 69
  | .r4 => 70
  | .r5 => 71
  | .r6 => 72
  | .r7 => 73
  | .other i => i

theorem regOfNumber_injective : Function.Injective regOfNumber := by
  have hinverse : Function.LeftInverse numberOfReg regOfNumber := by
    intro i
    unfold regOfNumber
    split <;> rfl
  exact hinverse.injective

namespace Unicorn

/-- The halves of the `long` that `reg_read` gives. -/
theorem halves_regReadRaw (uc : Unicorn) (reg : ArmReg) (high : UInt32) :
    (uc.regReadRaw reg high).toUInt64.toUInt32 = uc.regs reg ∧
      ((uc.regReadRaw reg high).toUInt64 >>> 32).toUInt32 = high := by
  have hlow := (uc.regs reg).toNat_lt
  have hhigh := high.toNat_lt
  have hfactor : (0x100000000 : UInt64).toNat = 2 ^ 32 := rfl
  have hshift : (32 : UInt64).toNat % 64 = 32 := rfl
  rw [regReadRaw, UInt64.toUInt64_toInt64]
  constructor <;> apply UInt32.toNat_inj.1
  · rw [UInt64.toNat_toUInt32, UInt64.toNat_add, UInt64.toNat_mul, UInt32.toNat_toUInt64,
      UInt32.toNat_toUInt64, hfactor]
    omega
  · rw [UInt64.toNat_toUInt32, UInt64.toNat_shiftRight, UInt64.toNat_add, UInt64.toNat_mul,
      UInt32.toNat_toUInt64, UInt32.toNat_toUInt64, hfactor, hshift, Nat.shiftRight_eq_div_pow]
    omega

theorem slot_congr {uc uc' : Unicorn} {i : ℕ}
    (hregs : uc'.regs (regOfNumber i) = uc.regs (regOfNumber i))
    (hupper : isWide i = true → uc'.upper i = uc.upper i) : uc'.slot i = uc.slot i := by
  rw [slot, slot, readNumber, readNumber, regReadRaw, regReadRaw, hregs]
  split
  next hwide => rw [hupper hwide]
  next => rfl

/-- What was read from a register and is written back is what was there, whatever the binding found
in the other bits. -/
theorem slot_writeNumber_self (uc uc₀ : Unicorn) (i : ℕ) (high : UInt32) :
    (uc.writeNumber i (uc₀.readNumber i high)).slot i = uc₀.slot i := by
  obtain ⟨hlow, hhigh⟩ := halves_regReadRaw uc₀ (regOfNumber i)
    (if isWide i then uc₀.upper i else high)
  refine slot_congr ((Function.update_self _ _ _).trans hlow) fun hwide => ?_
  rw [hwide, if_pos rfl] at hhigh
  rw [writeNumber, readNumber, hwide]
  exact (Function.update_self _ _ _).trans hhigh

theorem slot_writeNumber_of_ne (uc : Unicorn) {i j : ℕ} (hij : j ≠ i) (v : Int64) :
    (uc.writeNumber i v).slot j = uc.slot j := by
  refine slot_congr (Function.update_of_ne (fun h => hij (regOfNumber_injective h)) _ _) fun _ => ?_
  rw [writeNumber]
  split
  · exact Function.update_of_ne hij _ _
  · rfl

/-- The result in `R0` does not show in the other registers. -/
theorem slot_update_r0 (uc : Unicorn) {i : ℕ} (hi : i ≠ regR0) (v : UInt32) :
    ({ uc with regs := Function.update uc.regs .r0 v } : Unicorn).slot i = uc.slot i :=
  slot_congr (Function.update_of_ne (fun h => hi (regOfNumber_injective h)) _ _) fun _ => rfl

end Unicorn

namespace Kernel

variable {env : VfsEnv} {outside : Outside} {k : Kernel} {f : ForkInfo} {args : List Int64}

/-! ## The two loops -/

/-- The saved state holds the register as it is in this engine. -/
def Holds (f : ForkInfo) (uc : Unicorn) (i : ℕ) : Prop :=
  ∃ high, f.registerValues i = uc.readNumber i high

theorem run_regRead (hread : outside.cpRegRead = true) (i : ℕ) (k : Kernel) :
    (onUc (regRead outside i)).run k =
      .ok (k.emu.uc.readNumber i (outside.highHalf i)) k := by
  simp [EStateM.run, onUc, zoom, regRead, hread, withUc, Emulator.withUc]

/-- The registers of the list are saved, and nothing else changes. -/
theorem run_saveState (hread : outside.cpRegRead = true) (is : List ℕ) (hf : k.fork = some f) :
    ∃ f', (saveState outside is).run k = .ok () { k with fork := some f' } ∧ f'.pid = f.pid ∧
      (∀ i ∈ is, Holds f' k.emu.uc i) ∧ ∀ i ∉ is, f'.registerValues i = f.registerValues i := by
  induction is generalizing k f with
  | nil =>
    refine ⟨f, ?_, rfl, by simp, fun _ _ => rfl⟩
    rw [← hf]
    rfl
  | cons i is ih =>
    let v := k.emu.uc.readNumber i (outside.highHalf i)
    obtain ⟨f', hrun, hpid, hsaved, hrest⟩ :=
      ih (k := { k with fork := some (f.put i v) }) rfl
    have hput : (modify fun k : Kernel => { k with fork := k.fork.map fun f => f.put i v } :
        KernelM PUnit).run k = .ok ⟨⟩ { k with fork := some (f.put i v) } := by
      have hmap : k.fork.map (fun f => f.put i v) = some (f.put i v) := by rw [hf]; rfl
      exact congrArg (fun fork => EStateM.Result.ok PUnit.unit { k with fork }) hmap
    refine ⟨f', ?_, hpid, fun j hj => ?_, fun j hj => ?_⟩
    · rw [saveState, bind_of_ok (run_regRead hread i k), bind_of_ok hput, hrun]
    · by_cases hmem : j ∈ is
      · exact hsaved j hmem
      · -- The last register of this number is the one just read.
        obtain rfl : j = i := (List.mem_cons.1 hj).resolve_right hmem
        exact ⟨outside.highHalf j, (hrest j hmem).trans (Function.update_self _ _ _)⟩
    · rw [List.mem_cons, not_or] at hj
      exact (hrest j hj.2).trans (Function.update_of_ne hj.1 _ _)

/-- The registers of the list are loaded, and the others stay as they are. -/
theorem run_loadState (hwrite : outside.cpRegWrite = true) (f : ForkInfo) (is : List ℕ)
    (uc : Unicorn) :
    ∃ uc', (loadState outside f is).run uc = .ok () uc' ∧
      (∀ i ∈ is, ∀ uc₀, Holds f uc₀ i → uc'.slot i = uc₀.slot i) ∧
      ∀ i ∉ is, uc'.slot i = uc.slot i := by
  induction is generalizing uc with
  | nil => exact ⟨uc, rfl, by simp, fun _ _ => rfl⟩
  | cons i is ih =>
    obtain ⟨uc', hrun, hloaded, hrest⟩ := ih (uc.writeNumber i (f.registerValues i))
    have hreg : (regWrite outside i (f.registerValues i)).run uc =
        .ok () (uc.writeNumber i (f.registerValues i)) := by
      simp [EStateM.run, regWrite, hwrite]
    refine ⟨uc', ?_, fun j hj uc₀ hholds => ?_, fun j hj => ?_⟩
    · rw [loadState, bind_of_ok hreg, hrun]
    · by_cases hmem : j ∈ is
      · exact hloaded j hmem uc₀ hholds
      · obtain rfl : j = i := (List.mem_cons.1 hj).resolve_right hmem
        obtain ⟨high, hvalue⟩ := hholds
        rw [hrest j hmem, hvalue]
        exact Unicorn.slot_writeNumber_self uc uc₀ j high
    · rw [List.mem_cons, not_or] at hj
      rw [hrest j hj.2]
      exact Unicorn.slot_writeNumber_of_ne uc hj.1 _

/-! ## The interrupt -/

/-- The system call returns, with this value in `R0` and the other registers those of `t`. -/
def ReturnsTo (env : VfsEnv) (outside : Outside) (k t k' : Kernel) (value : UInt32) : Prop :=
  (hook env 2 outside).run k = .ok () k' ∧ k'.emu.uc.regs .r0 = value ∧
    ∀ i < regCount, i ≠ regR0 → k'.emu.uc.slot i = t.emu.uc.slot i

/-- The system call throws and changes neither a register nor the saved state. -/
def Fails (env : VfsEnv) (outside : Outside) (k : Kernel) : Prop :=
  ∃ k', (hook env 2 outside).run k = .error .nullPointer k' ∧
    k'.emu.uc.registers = k.emu.uc.registers ∧ k'.fork = k.fork

theorem regs_withReg (k : Kernel) (reg : ArmReg) (value : UInt32) :
    (k.withReg reg value).emu.uc.regs reg = value := by
  show Function.update k.emu.uc.regs reg value reg = value
  exact Function.update_self _ _ _

section Hook

variable {argSize : ℕ} {call : Syscall} {k' : Kernel}

variable (env) in
/-- A system call that returns, and what `handle` does with its result. -/
theorem run_hook_of_ok {value : Int64} (hsel : syscalls k.number = some (argSize, call))
    (hrun : (call.code env outside (k.syscallArgs argSize)).run k = .ok ⟨true, value⟩ k') :
    (hook env 2 outside).run k = .ok () (k'.withReg .r0 value.toUInt64.toUInt32) := by
  have hcallback : (callback (call.code env outside (k.syscallArgs argSize))).run k =
      .ok ⟨true, value⟩ k' := by
    simp only [EStateM.run] at hrun
    simp only [EStateM.run, callback, hrun]
  rw [hook, if_pos rfl, handle, ToMathlib.get_bind, hsel]
  dsimp only
  rw [bind_of_ok hcallback]
  rfl

/-- A system call that throws. -/
theorem run_hook_of_error {err : JavaException} (herr : err ≠ .outOfMemory)
    (hsel : syscalls k.number = some (argSize, call))
    (hrun : (call.code env outside (k.syscallArgs argSize)).run k = .error err k') :
    (hook env 2 outside).run k = .error .nullPointer { k' with stopped := true } := by
  have hcallback : (callback (call.code env outside (k.syscallArgs argSize))).run k =
      .error .nullPointer { k' with stopped := true } := by
    simp only [EStateM.run] at hrun
    simp only [EStateM.run, callback, hrun]
  rw [hook, if_pos rfl, handle, ToMathlib.get_bind, hsel]
  dsimp only
  rw [bind_of_error hcallback]

end Hook

theorem syscalls_vfork (hno : k.number = 0xBE) : syscalls k.number = some (0, .vfork) := by
  rw [hno]
  rfl

theorem syscalls_exitgroup (hno : k.number = 0xF8) :
    syscalls k.number = some (1, .exitgroup) := by
  rw [hno]
  rfl

/-- The saved state holds all registers of an engine and the pid of the child. -/
def Saves (f : ForkInfo) (uc : Unicorn) : Prop :=
  f.pid = 23457 ∧ ∀ i < regCount, Holds f uc i

/-- A `vfork` without an open one succeeds, if all registers can be read: they are saved, and the
child sees zero. -/
theorem hook_vfork (env : VfsEnv) (hread : outside.cpRegRead = true) (hno : k.number = 0xBE)
    (hfork : k.fork = none) :
    ∃ k' f, ReturnsTo env outside k k k' 0 ∧ k'.fork = some f ∧ Saves f k.emu.uc := by
  obtain ⟨f, hsave, hpid, hsaved, -⟩ :=
    run_saveState (k := { k with fork := some ⟨23456 + 1, fun _ => 0⟩ }) hread
      (List.range regCount) rfl
  have hvfork : (vfork outside).run k = .ok ⟨true, 0⟩ { k with fork := some f } := by
    rw [vfork, ToMathlib.get_bind, hfork, if_neg (by simp), ToMathlib.set_bind, bind_of_ok hsave]
    rfl
  refine ⟨_, f, ⟨run_hook_of_ok env (syscalls_vfork hno) hvfork, regs_withReg _ _ _, ?_⟩,
    rfl, hpid, fun i hi => hsaved i (List.mem_range.2 hi)⟩
  exact fun i _ hi => Unicorn.slot_update_r0 k.emu.uc hi _

/-- A second `vfork` fails. -/
theorem hook_vfork_nested (env : VfsEnv) (outside : Outside) (hno : k.number = 0xBE)
    (hfork : k.fork = some f) : Fails env outside k := by
  have hvfork : (vfork outside).run k = .error (.exception "Already forked.") k := by
    rw [vfork, ToMathlib.get_bind, hfork, if_pos Option.isSome_some]
    rfl
  exact ⟨_, run_hook_of_error (by simp) (syscalls_vfork hno) hvfork, rfl, rfl⟩

/-- `exit_group` brings back what was saved, and the dispatcher then writes the pid to `R0`. -/
theorem hook_exitgroup (env : VfsEnv) (hwrite : outside.cpRegWrite = true) (hno : k.number = 0xF8)
    (hfork : k.fork = some f) :
    ∃ k', k'.fork = none ∧ (hook env 2 outside).run k = .ok () k' ∧
      ∀ t : Kernel, Saves f t.emu.uc → ReturnsTo env outside k t k' 23457 := by
  obtain ⟨uc, hload, hloaded, -⟩ := run_loadState hwrite f (List.range regCount) k.emu.uc
  have hexit : (exitgroup outside (k.syscallArgs 1)).run k =
      .ok ⟨true, f.pid⟩ { k.withUc uc with fork := none } := by
    have hzoom : (onUc (loadState outside f (List.range regCount))).run k = .ok () (k.withUc uc) :=
      zoom_of_ok hload
    rw [exitgroup, ToMathlib.get_bind, hfork]
    dsimp only
    rw [bind_of_ok hzoom]
    rfl
  have hrun := run_hook_of_ok env (syscalls_exitgroup hno) hexit
  refine ⟨_, rfl, hrun, fun t hsaves => ⟨hrun, ?_, fun i hi hne => ?_⟩⟩
  · rw [hsaves.1]
    exact regs_withReg _ _ _
  · exact (Unicorn.slot_update_r0 uc hne _).trans
      (hloaded i (List.mem_range.2 hi) _ (hsaves.2 i hi))

/-- `exit_group` without a saved state fails. -/
theorem hook_exitgroup_closed (env : VfsEnv) (outside : Outside) (hno : k.number = 0xF8)
    (hfork : k.fork = none) : Fails env outside k := by
  have hexit : ∃ message, (exitgroup outside (k.syscallArgs 1)).run k =
      .error (.exception message) k := by
    rw [exitgroup, ToMathlib.get_bind, hfork]
    exact ⟨_, rfl⟩
  obtain ⟨message, hexit⟩ := hexit
  exact ⟨_, run_hook_of_error (by simp) (syscalls_exitgroup hno) hexit, rfl, rfl⟩

/-! ## Runs -/

/-- The event takes the system call `no`. -/
def takes (no : Int32) (c : Kernel × Event) : Bool :=
  match c.2 with
  | .guest _ _ _ => false
  | .interrupt intno _ => intno == 2 && c.1.number == no

theorem takes_iff {no : Int32} {e : Event} :
    takes no (k, e) = true ↔ ∃ outside, e = .interrupt 2 outside ∧ k.number = no := by
  cases e with
  | guest mem regs upper => simp [takes]
  | interrupt intno outside => simp [takes]

/-- The numbers of the two system calls. -/
def forkNumbers : ℕ × Syscall → Int32 → Bool
  | (_, .vfork), no => no == 0xBE
  | (_, .exitgroup), no => no == 0xF8
  | _, _ => true

theorem all_forkNumbers : (registrations.all fun r => forkNumbers r.2 r.1) = true := rfl

/-- The events that take neither of the two leave the saved state alone. -/
theorem fork_step_of_not_takes {e : Event} (hvfork : takes 0xBE (k, e) = false)
    (hexit : takes 0xF8 (k, e) = false) : (k.step env e).fork = k.fork := by
  refine view_step env Kernel.fork (fun _ _ _ _ _ => rfl) fun argSize call _ hsel k' _ hframed => ?_
  obtain ⟨⟨outside, rfl⟩, hsyscall⟩ := selected_eq_some_iff.1 hsel
  have hnumber : forkNumbers (argSize, call) k.number = true :=
    List.all_eq_true.1 all_forkNumbers (k.number, argSize, call)
      (List.mem_reverse.1 (mem_of_lookup hsyscall))
  refine hframed.fork ?_ ?_
  · rintro rfl
    exact Bool.eq_false_iff.1 hvfork (takes_iff.2 ⟨outside, rfl, eq_of_beq hnumber⟩)
  · rintro rfl
    exact Bool.eq_false_iff.1 hexit (takes_iff.2 ⟨outside, rfl, eq_of_beq hnumber⟩)

/-- The engine accesses all registers in this event. -/
def Event.Accesses : Event → Prop
  | .guest _ _ _ => True
  | .interrupt _ outside => outside.cpRegRead = true ∧ outside.cpRegWrite = true

/-- Whether a `vfork` is open after an event: `vfork` opens the bracket and `exit_group` closes
it. -/
def bracket (isOpen : Bool) (c : Kernel × Event) : Bool :=
  if takes 0xBE c then true else if takes 0xF8 c then false else isOpen

/-- A `vfork` is open after these events. -/
def isOpen (env : VfsEnv) (k : Kernel) (events : List Event) : Bool :=
  (trace (step env) k events).foldl bracket false

/-- The system call `no` is not taken in these events. -/
def Avoids (env : VfsEnv) (no : Int32) (k : Kernel) (events : List Event) : Prop :=
  ∀ c ∈ trace (step env) k events, takes no c = false

/-- An event opens and closes the bracket. -/
theorem isSome_fork_step (env : VfsEnv) (k : Kernel) {e : Event} (he : e.Accesses) :
    (k.step env e).fork.isSome = bracket k.fork.isSome (k, e) := by
  rw [bracket]
  split_ifs with hvfork hexit
  · obtain ⟨outside, rfl, hno⟩ := takes_iff.1 hvfork
    rw [step]
    cases hfork : k.fork with
    | none =>
      obtain ⟨k', f, hreturns, hfork', -⟩ := hook_vfork env he.1 hno hfork
      rw [hreturns.1, finalState, hfork', Option.isSome_some]
    | some f =>
      obtain ⟨k', hrun, -, hfork'⟩ := hook_vfork_nested env outside hno hfork
      rw [hrun, finalState, hfork', hfork, Option.isSome_some]
  · obtain ⟨outside, rfl, hno⟩ := takes_iff.1 hexit
    rw [step]
    cases hfork : k.fork with
    | none =>
      obtain ⟨k', hrun, -, hfork'⟩ := hook_exitgroup_closed env outside hno hfork
      rw [hrun, finalState, hfork', hfork, Option.isSome_none]
    | some f =>
      obtain ⟨k', hnone, hrun, -⟩ := hook_exitgroup env he.2 hno hfork
      rw [hrun, finalState, hnone, Option.isSome_none]
  · rw [fork_step_of_not_takes (Bool.eq_false_iff.2 hvfork) (Bool.eq_false_iff.2 hexit)]

/-- After a run in which all registers can be accessed there is a saved state exactly if a `vfork`
is open. -/
theorem isSome_fork_run (env : VfsEnv) (events : List Event) (hk : k.fork = none)
    (hevents : ∀ e ∈ events, e.Accesses) :
    (k.run env events).fork.isSome = isOpen env k events := by
  have hfold : ∀ k : Kernel, (k.run env events).fork.isSome =
      (trace (step env) k events).foldl bracket k.fork.isSome := by
    induction events with
    | nil => exact fun _ => rfl
    | cons e events ih =>
      intro k
      rw [trace, List.foldl_cons, ← isSome_fork_step env k (hevents e (.head _))]
      exact ih (fun e he => hevents e (.tail _ he)) (k.step env e)
  rw [hfold k, hk]
  rfl

/-- An event other than `exit_group` keeps what is saved. -/
theorem fork_step {e : Event} (hfork : k.fork = some f) (hexit : takes 0xF8 (k, e) = false) :
    (k.step env e).fork = some f := by
  by_cases hvfork : takes 0xBE (k, e) = true
  · obtain ⟨outside, rfl, hno⟩ := takes_iff.1 hvfork
    obtain ⟨k', hrun, -, hfork'⟩ := hook_vfork_nested env outside hno hfork
    rw [step, hrun, finalState, hfork', hfork]
  · rw [fork_step_of_not_takes (Bool.eq_false_iff.2 hvfork) hexit, hfork]

/-- An event other than `vfork` opens nothing. -/
theorem fork_step_of_none {e : Event} (hfork : k.fork = none) (hvfork : takes 0xBE (k, e) = false) :
    (k.step env e).fork = none := by
  by_cases hexit : takes 0xF8 (k, e) = true
  · obtain ⟨outside, rfl, hno⟩ := takes_iff.1 hexit
    obtain ⟨k', hrun, -, hfork'⟩ := hook_exitgroup_closed env outside hno hfork
    rw [step, hrun, finalState, hfork', hfork]
  · rw [fork_step_of_not_takes hvfork (Bool.eq_false_iff.2 hexit), hfork]

/-- What the child does in the bracket: its own `vfork`s fail, and `exit_group` brings back the
registers of `t`, after which a `vfork` succeeds again. -/
theorem child_of_saves {t : Kernel} {child : List Event} (hfork : k.fork = some f)
    (hsaves : Saves f t.emu.uc) (hchild : Avoids env 0xF8 k child) :
    (∀ c ∈ trace (step env) k child, ∀ outside, c.2 = .interrupt 2 outside →
        c.1.number = 0xBE → Fails env outside c.1) ∧
      ((k.run env child).number = 0xF8 → ∀ outside : Outside, outside.cpRegWrite = true →
        ∃ k₂, ReturnsTo env outside (k.run env child) t k₂ 23457 ∧
          ∀ later, Avoids env 0xBE k₂ later → (k₂.run env later).number = 0xBE →
            ∀ outside : Outside, outside.cpRegRead = true →
              ∃ k₃, ReturnsTo env outside (k₂.run env later) (k₂.run env later) k₃ 0) := by
  have hstep : ∀ (k : Kernel) (e : Event), k.fork = some f → takes 0xF8 (k, e) = false →
      (k.step env e).fork = some f := fun _ _ => fork_step
  refine ⟨fun c hc outside _ hno => ?_, fun hno outside hwrite => ?_⟩
  · exact hook_vfork_nested env outside hno (forall_trace hstep hfork hchild c hc)
  · obtain ⟨k₂, hnone, -, hreturns⟩ :=
      hook_exitgroup env hwrite hno (foldl_invariant hstep hfork hchild)
    refine ⟨k₂, hreturns t hsaves, fun later hlater hno' outside hread => ?_⟩
    have hclosed : (k₂.run env later).fork = none :=
      foldl_invariant (I := fun k : Kernel => k.fork = none)
        (fun _ _ hfork hvfork => fork_step_of_none hfork hvfork) hnone hlater
    obtain ⟨k₃, _, hreturns₃, -⟩ := hook_vfork env hread hno' hclosed
    exact ⟨k₃, hreturns₃⟩

/-- `vfork` and `exit_group` bracket the child, in every run of a new emulator in which all slots of
registers can be read and written. A `vfork` succeeds if none is open, and the child sees `R0 = 0`.
Until the next `exit_group` other `vfork`s fail and leave registers and saved state alone. The
`exit_group` ends with the registers as they were when the `vfork` was taken, but for the child's
pid in `R0`, and after it a `vfork` succeeds again. An `exit_group` without an open `vfork` fails
and changes no register. -/
theorem vfork_brackets (env : VfsEnv) (emu : Emulator) (host : Host) (clockStart : Int64)
    (before : List Event) (hbefore : ∀ e ∈ before, e.Accesses)
    (hclosed : isOpen env (start emu host clockStart) before = false) :
    let k := (start emu host clockStart).run env before
    (k.number = 0xBE → ∀ outside : Outside, outside.cpRegRead = true →
      ∃ k₁, ReturnsTo env outside k k k₁ 0 ∧
        ∀ child, Avoids env 0xF8 k₁ child →
          (∀ c ∈ trace (step env) k₁ child, ∀ outside, c.2 = .interrupt 2 outside →
            c.1.number = 0xBE → Fails env outside c.1) ∧
          ((k₁.run env child).number = 0xF8 → ∀ outside : Outside, outside.cpRegWrite = true →
            ∃ k₂, ReturnsTo env outside (k₁.run env child) k k₂ 23457 ∧
              ∀ later, Avoids env 0xBE k₂ later → (k₂.run env later).number = 0xBE →
                ∀ outside : Outside, outside.cpRegRead = true →
                  ∃ k₃, ReturnsTo env outside (k₂.run env later) (k₂.run env later) k₃ 0)) ∧
      (k.number = 0xF8 → ∀ outside, Fails env outside k) := by
  have hfork : ((start emu host clockStart).run env before).fork = none := by
    rw [← Option.not_isSome_iff_eq_none, isSome_fork_run env before rfl hbefore, hclosed]
    simp
  constructor
  · intro hno outside hread
    obtain ⟨k₁, f, hreturns, hfork₁, hsaves⟩ := hook_vfork env hread hno hfork
    exact ⟨k₁, hreturns, fun child hchild => child_of_saves hfork₁ hsaves hchild⟩
  · exact fun hno outside => hook_exitgroup_closed env outside hno hfork

/-- A child that gets other registers before it exits. -/
theorem vfork_brackets_one_child :
    ∃ k₁ k₂, ReturnsTo appEnv timeZero (appKernel.step appEnv (appCalls 0xBE))
        (appKernel.step appEnv (appCalls 0xBE)) k₁ 0 ∧
      ReturnsTo appEnv timeZero (k₁.step appEnv (.guest (fun _ => 0)
        (Function.update (callRegs 0xF8) .r1 9) fun _ => 5))
        (appKernel.step appEnv (appCalls 0xBE)) k₂ 23457 := by
  obtain ⟨hvfork, -⟩ := vfork_brackets appEnv ((freshEmulator fun _ => none).withUc
    (appUc 0 0x1000 0 0)) appHost 0 [appCalls 0xBE] (by simp [appCalls, Event.Accesses]) rfl
  obtain ⟨k₁, hreturns, hchild⟩ := hvfork rfl timeZero rfl
  obtain ⟨-, hexit⟩ := hchild [.guest (fun _ => 0) (Function.update (callRegs 0xF8) .r1 9)
    fun _ => 5] (by simp [Avoids, trace, takes])
  obtain ⟨k₂, hreturns₂, -⟩ := hexit rfl timeZero rfl
  exact ⟨k₁, k₂, hreturns, hreturns₂⟩

/-- The engine finds no coprocessor register to read or to write. -/
def noCpReg : Outside := { timeZero with cpRegRead := false, cpRegWrite := false }

/-- The state in which the app calls `exit_group` after a `vfork` that could not read the last
slot. -/
def afterFailedVfork : Kernel :=
  appKernel.run appEnv [appCalls 0xBE, .interrupt 2 noCpReg, appCalls 0xF8]

/-- A `vfork` that fails because the last slot cannot be read is not undone: the `exit_group` after
it fails, too, but changes `R7` before, although no `vfork` has succeeded. -/
theorem exitgroup_after_failed_vfork :
    (outcome ((hook appEnv 2 noCpReg).run (appKernel.step appEnv (appCalls 0xBE))) =
        .error .nullPointer) ∧
      outcome ((hook appEnv 2 noCpReg).run afterFailedVfork) = .error .nullPointer ∧
      afterFailedVfork.emu.uc.regs .r7 = 0xF8 ∧
      (finalState ((hook appEnv 2 noCpReg).run afterFailedVfork)).emu.uc.regs .r7 = 0xBE := by
  decide +kernel

end Kernel

end Tank
