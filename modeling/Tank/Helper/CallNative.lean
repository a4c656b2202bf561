import Tank.Helper.NativeCallHelper
import Tank.Memory.MemoryManager
import Tank.ToMathlib.Trace

/-!
# Calling native functions

`Emulator.callNative` writes the arguments, sets `LR` to an address where the emulation stops, runs
the function and returns `R0`. What the engine does between `addr` and the stop address is a
parameter `emuStart`; `RestoresSp` is what the calling convention requires of it.

`writeArgs` moves the stack pointer down for arguments on the stack, and nothing moves it up again.

* `sp_callNative`: the stack pointer after a call that returns;
* `stack_balanced_iff`: a run of calls is balanced exactly if no call that returns has arguments on
  the stack.
-/

namespace Tank

open ToMathlib NativeCallHelper

/-- A call of `callNative`, with what it depends on besides its arguments: the stop address, which
is random, and the upper half of the stack pointer as `reg_read` returns it. -/
structure NativeCall where
  addr : Int64
  args : List Int64
  stopPos : Int64
  high : UInt32

/-- `AlignUtils.xorBit` -/
def xorBit (v : Int64) : Int64 := v &&& 0xFFFFFFFE

section CallNative

variable (emuStart : Int64 → Int64 → UcM Unit)

/-- `callNative` -/
def callNative (call : NativeCall) : UcM Int64 := do
  writeArgs call.high call.args
  Unicorn.regWrite .lr call.stopPos
  emuStart call.addr (xorBit call.stopPos)
  let uc ← get
  pure (uc.regRead .r0)

/-- Functions leave the stack pointer as they find it. -/
def RestoresSp : Prop :=
  ∀ addr until_ uc uc', (emuStart addr until_).run uc = .ok () uc' → uc'.regs .sp = uc.regs .sp

/-- The stack pointer after a call that returns is the one before it. -/
def Balanced (uc : Unicorn) (call : NativeCall) : Prop :=
  ∀ ret uc', (callNative emuStart call).run uc = .ok ret uc' → uc'.regs .sp = uc.regs .sp

/-- The call returns. -/
def Returns (uc : Unicorn) (call : NativeCall) : Prop :=
  ∃ ret uc', (callNative emuStart call).run uc = .ok ret uc'

/-- The engine after a call, whether it returns or throws. -/
def callStep (uc : Unicorn) (call : NativeCall) : Unicorn :=
  finalState ((callNative emuStart call).run uc)

end CallNative

/-- How far `writeArgs` moves the stack pointer for so many arguments. -/
def spDrop (n : ℕ) : ℕ := if n ≤ 4 then 0 else 4 * (n - 2)

variable {emuStart : Int64 → Int64 → UcM Unit} {uc uc' : Unicorn} {call : NativeCall}

/-- Code that leaves the stack pointer as it is. -/
def KeepsSp {α : Type} (m : UcM α) : Prop := Keeps (fun uc uc' => uc'.regs .sp = uc.regs .sp) m

theorem keepsSp_regWrite {reg : ArmReg} (h : reg ≠ .sp) (value : Int64) :
    KeepsSp (Unicorn.regWrite reg value) :=
  fun _ => Function.update_of_ne h.symm _ _

theorem keepsSp_writeRegArgs {args : List (ArmReg × Int64)} (h : ∀ arg ∈ args, arg.1 ≠ .sp) :
    KeepsSp (writeRegArgs args) := by
  induction args with
  | nil => exact fun _ => rfl
  | cons arg args ih =>
    obtain ⟨harg, hargs⟩ := List.forall_mem_cons.1 h
    exact (keepsSp_regWrite harg _).bind fun _ => ih hargs

/-- The upper half does not show in the register. -/
theorem toUInt32_regReadRaw (uc : Unicorn) (reg : ArmReg) (high : UInt32) :
    (uc.regReadRaw reg high).toUInt64.toUInt32 = uc.regs reg := by
  have hraw : (uc.regReadRaw reg high).toUInt64 =
      high.toUInt64 * 0x100000000 + (uc.regs reg).toUInt64 := rfl
  have hzero : (0x100000000 : UInt64).toUInt32 = 0 := rfl
  rw [hraw, UInt64.toUInt32_add, UInt64.toUInt32_mul, hzero]
  simp

theorem low_sp {sp : Int64} {n : ℕ} (hn : 5 ≤ n) :
    (sp - stackOffset - 4 * (Int64.ofNat n - 4)).toUInt64.toUInt32 =
      sp.toUInt64.toUInt32 - UInt32.ofNat (spDrop n) := by
  have hlow : (sp - stackOffset - 4 * (Int64.ofNat n - 4)).toUInt64 =
      sp.toUInt64 - 8 - 4 * (UInt64.ofNat n - 4) := rfl
  have height : (8 : UInt64).toUInt32 = 8 := rfl
  have hfour : (4 : UInt64).toUInt32 = 4 := rfl
  rw [hlow, UInt64.toUInt32_sub, UInt64.toUInt32_sub, UInt64.toUInt32_mul, UInt64.toUInt32_sub,
    UInt64.toUInt32_ofNat', height, hfour, spDrop, if_neg (by omega)]
  generalize sp.toUInt64.toUInt32 = low
  apply UInt32.toNat_inj.1
  have hlt := low.toNat_lt
  have height : (8 : UInt32).toNat = 8 := rfl
  have hfour : (4 : UInt32).toNat = 4 := rfl
  simp only [UInt32.toNat_sub, UInt32.toNat_mul, UInt32.toNat_ofNat', height, hfour]
  omega

/-- The stack pointer after the arguments were written. -/
theorem sp_writeArgs {high : UInt32} {args : List Int64}
    (h : (writeArgs high args).run uc = .ok () uc') :
    uc'.regs .sp = uc.regs .sp - UInt32.ofNat (spDrop args.length) := by
  have hregs : KeepsSp (writeRegArgs ([.r0, .r1, .r2, .r3].zip args)) := by
    refine keepsSp_writeRegArgs fun arg harg => ?_
    have hmem := (List.of_mem_zip harg).1
    rintro heq
    simp [heq] at hmem
  obtain ⟨_, uc₁, hwrite, hrest⟩ := bind_eq_ok h
  have hsp : (finalState ((writeRegArgs ([.r0, .r1, .r2, .r3].zip args)).run uc)).regs .sp =
      uc.regs .sp := hregs uc
  rw [hwrite] at hsp
  by_cases hlen : 5 ≤ args.length
  · rw [if_pos hlen, get_bind] at hrest
    obtain ⟨_, uc₂, -, hset⟩ := bind_eq_ok hrest
    obtain ⟨-, rfl⟩ := EStateM.Result.ok.inj hset
    rw [← hsp, finalState, ← toUInt32_regReadRaw uc₁ .sp high, ← low_sp hlen]
    dsimp only
    rw [Function.update_self]
  · rw [if_neg hlen] at hrest
    obtain ⟨-, rfl⟩ := EStateM.Result.ok.inj hrest
    rw [spDrop, if_pos (by omega), ← hsp]
    simp [finalState]

/-- The stack pointer after a call that returns is as far down as its arguments have moved it. -/
theorem sp_callNative (hcallee : RestoresSp emuStart) {ret : Int64}
    (h : (callNative emuStart call).run uc = .ok ret uc') :
    uc'.regs .sp = uc.regs .sp - UInt32.ofNat (spDrop call.args.length) := by
  obtain ⟨_, uc₁, hargs, h⟩ := bind_eq_ok h
  obtain ⟨_, uc₂, hlr, h⟩ := bind_eq_ok h
  obtain ⟨_, uc₃, hrun, h⟩ := bind_eq_ok h
  obtain ⟨-, rfl⟩ := EStateM.Result.ok.inj h
  have hsp₂ : uc₂.regs .sp = uc₁.regs .sp := by
    have hkeeps : KeepsSp (Unicorn.regWrite .lr call.stopPos) := keepsSp_regWrite (by decide) _
    have hsp := hkeeps uc₁
    rwa [hlr] at hsp
  rw [hcallee _ _ _ _ hrun, hsp₂, sp_writeArgs hargs]

/-- The stack pointer does not move for arguments in registers, nor for so many on the stack that it
goes around the address space. -/
theorem ofNat_spDrop_eq_zero_iff (n : ℕ) :
    UInt32.ofNat (spDrop n) = 0 ↔ n ≤ 4 ∨ 2 ^ 30 ∣ n - 2 := by
  rw [← UInt32.toNat_inj, UInt32.toNat_ofNat', spDrop]
  have hzero : (0 : UInt32).toNat = 0 := rfl
  rw [hzero]
  split_ifs <;> omega

theorem eq_zero_of_eq_sub {a b : UInt32} (h : a = a - b) : b = 0 := by
  have hnat := congrArg UInt32.toNat h
  have ha := a.toNat_lt
  have hb := b.toNat_lt
  rw [UInt32.toNat_sub] at hnat
  apply UInt32.toNat_inj.1
  have hzero : (0 : UInt32).toNat = 0 := rfl
  omega

theorem balanced_iff (hcallee : RestoresSp emuStart) :
    Balanced emuStart uc call ↔
      (Returns emuStart uc call → call.args.length ≤ 4 ∨ 2 ^ 30 ∣ call.args.length - 2) := by
  rw [← ofNat_spDrop_eq_zero_iff]
  constructor
  · rintro hbalanced ⟨ret, uc', hrun⟩
    have hsp := sp_callNative hcallee hrun
    rw [hbalanced ret uc' hrun] at hsp
    exact eq_zero_of_eq_sub hsp
  · intro hdrop ret uc' hrun
    rw [sp_callNative hcallee hrun, hdrop ⟨ret, uc', hrun⟩]
    simp

/-- In a run of calls of any functions with any arguments, the stack pointer after every call that
returns is the one before it, exactly if no such call has arguments on the stack. -/
theorem stack_balanced_iff (hcallee : RestoresSp emuStart) (uc : Unicorn)
    (calls : List NativeCall) :
    (∀ c ∈ trace (callStep emuStart) uc calls, Balanced emuStart c.1 c.2) ↔
      ∀ c ∈ trace (callStep emuStart) uc calls, Returns emuStart c.1 c.2 →
        c.2.args.length ≤ 4 ∨ 2 ^ 30 ∣ c.2.args.length - 2 :=
  forall₂_congr fun _ _ => balanced_iff hcallee

/-- Functions that do nothing. -/
def emuNothing (_addr _until : Int64) : UcM Unit := pure ()

theorem restoresSp_emuNothing : RestoresSp emuNothing := by
  intro addr until_ uc uc' h
  obtain ⟨-, rfl⟩ := EStateM.Result.ok.inj h
  rfl

/-- Calls with at most four arguments. -/
theorem stack_balanced_registers :
    RestoresSp emuNothing ∧ ∀ c ∈ trace (callStep emuNothing) MemoryManager.fresh.uc
      [⟨0x1001, [1, 2, 3, 4], 0x20000001, 0⟩, ⟨0x1001, [], 0x20000041, 7⟩],
        Balanced emuNothing c.1 c.2 := by
  refine ⟨restoresSp_emuNothing, (stack_balanced_iff restoresSp_emuNothing _ _).2 fun c hc _ => ?_⟩
  have hcall := mem_of_mem_trace hc
  simp only [List.mem_cons, List.not_mem_nil, or_false] at hcall
  rcases hcall with hcall | hcall <;> rw [hcall] <;> exact .inl (by decide)

/-- Over a run of calls that return, what they have taken of the stack adds up. -/
theorem sp_run (hcallee : RestoresSp emuStart) {calls : List NativeCall}
    (hreturns : ∀ c ∈ trace (callStep emuStart) uc calls, Returns emuStart c.1 c.2) :
    (calls.foldl (callStep emuStart) uc).regs .sp =
      uc.regs .sp - UInt32.ofNat (calls.map fun call => spDrop call.args.length).sum := by
  induction calls generalizing uc with
  | nil => simp
  | cons call calls ih =>
    obtain ⟨⟨ret, uc', hrun⟩, htail⟩ := forall_trace_cons.1 hreturns
    have hstep : callStep emuStart uc call = uc' := by
      rw [callStep, hrun]
      rfl
    rw [List.foldl_cons, ih htail, hstep, sp_callNative hcallee hrun, List.map_cons, List.sum_cons,
      UInt32.ofNat_add, UInt32.sub_eq_add_neg, UInt32.sub_eq_add_neg, UInt32.sub_eq_add_neg,
      UInt32.neg_add, UInt32.add_assoc, UInt32.sub_eq_add_neg]

/-- A call with five arguments leaves the stack pointer of a new engine three words down. -/
theorem stack_not_balanced :
    let call : NativeCall := ⟨0x1001, [1, 2, 3, 4, 5], 0x20000001, 0⟩
    RestoresSp emuNothing ∧ Returns emuNothing MemoryManager.fresh.uc call ∧
      MemoryManager.fresh.uc.regs .sp = 0x100000 ∧
      (callStep emuNothing MemoryManager.fresh.uc call).regs .sp = 0xFFFF4 ∧
      ¬Balanced emuNothing MemoryManager.fresh.uc call := by
  refine ⟨restoresSp_emuNothing, ⟨_, _, rfl⟩, by decide, by decide, fun h => ?_⟩
  exact absurd (h _ _ rfl) (by decide)

end Tank
