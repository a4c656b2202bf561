import Tank.Hook.ThumbEntry

/-!
# Executing a stub

A stub is Thumb code that the engine executes like any other: it saves `R4` and `LR`, loads the id
of its function, meets the hooks at its third instruction and returns to its caller. A `Cpu` is the
engine with its instruction set; `step` passes an instruction to the hooks and then executes it. The
instructions follow `decode-t16.inc.c` and `translate.c` of the engine, as far as stubs use them. An
instruction is only fetched from memory that can be executed, and it loads from and stores to memory
that can be read and written.

* `step_of_not_isTrap`: an instruction that no hook reacts to;
* `run_toTrap`, `run_fromTrap`: a stub up to its third instruction, and the rest of it;
* `run_stub`: a stub is a call of whatever the hooks deliver. It returns to its caller with `R4` and
  the stack pointer as they were; if the engine was stopped, it stays where it was, with two words
  on the stack and the id in `R4`.
-/

namespace Tank

open ToMathlib

/-! ## Thumb code -/

/-- The core registers by their numbers; `UC_ARM_REG_R0` is 66. -/
def coreReg : ℕ → ArmReg
  | 0 => .r0
  | 1 => .r1
  | 2 => .r2
  | 3 => .r3
  | 4 => .r4
  | 5 => .r5
  | 6 => .r6
  | 7 => .r7
  | 13 => .sp
  | 14 => .lr
  | 15 => .pc
  | n => .other (66 + n)

/-- Some of the instructions of 16 bits. -/
inductive ThumbInsn where
  | push (regs : List ArmReg)
  | pop (regs : List ArmReg)
  /-- `LDR` relative to the program counter. -/
  | ldrLiteral (rt : ArmReg) (imm : UInt32)
  | mov (rd rm : ArmReg)
deriving DecidableEq, Repr

/-- The low registers in a list of bits. -/
def lowRegs (insn : UInt16) : List ArmReg :=
  ((List.range 8).filter fun i => insn.toNat.testBit i).map coreReg

/-- `disas_t16`, for these instructions. -/
def decodeT16 (insn : UInt16) : Option ThumbInsn :=
  -- `1011010.` with `t16_push_list`, and `1011110.` with `t16_pop_list`
  if insn >>> 9 = 0x5A then
    some (.push (lowRegs insn ++ if insn.toNat.testBit 8 then [.lr] else []))
  else if insn >>> 9 = 0x5E then
    some (.pop (lowRegs insn ++ if insn.toNat.testBit 8 then [.pc] else []))
  -- `01001...`
  else if insn >>> 11 = 0x9 then
    some (.ldrLiteral (coreReg (insn.toNat / 256 % 8)) (UInt32.ofNat (insn.toNat % 256 * 4)))
  -- `01000110`
  else if insn >>> 8 = 0x46 then
    some (.mov (coreReg (insn.toNat / 128 % 2 * 8 + insn.toNat % 8))
      (coreReg (insn.toNat / 8 % 16)))
  else none

/-- All bytes of the area are mapped with the permission: `UC_PROT_READ` is 1, `UC_PROT_WRITE` is 2
and `UC_PROT_EXEC` is 4. -/
def Unicorn.permits (uc : Unicorn) (perm : UInt32) (a : UInt64) (n : ℕ) : Bool :=
  (List.range n).all fun k =>
    uc.mapped (a + UInt64.ofNat k) && uc.perms (a + UInt64.ofNat k) &&& perm == perm

/-- The word that the guest loads from an address. -/
def Unicorn.loadWord (uc : Unicorn) (a : UInt64) : Option UInt32 :=
  if uc.permits 1 a 4 then uc.wordAt a else none

/-- The engine while it executes code. -/
structure Cpu where
  uc : Unicorn
  thumb : Bool
  /-- `emu_stop` was called. -/
  stopped : Bool
  /-- The functions that were called. -/
  calls : List Func

namespace Cpu

/-- The contents of a register. -/
def reg (c : Cpu) (r : ArmReg) : UInt32 := c.uc.regs r

/-- `store_reg` for a register that is not `PC`. -/
def setReg (c : Cpu) (r : ArmReg) (v : UInt32) : Cpu :=
  { c with uc := { c.uc with regs := Function.update c.uc.regs r v } }

/-- `gen_bx` -/
def branchTo (c : Cpu) (v : UInt32) : Cpu := { c.setReg .pc (bx v).pc with thumb := (bx v).thumb }

/-- `store_reg_from_load` -/
def loadReg (c : Cpu) (r : ArmReg) (v : UInt32) : Cpu :=
  if r = .pc then c.branchTo v else c.setReg r v

/-- The program counter goes on by one instruction. -/
def advance (c : Cpu) : Cpu := c.setReg .pc (c.reg .pc + 2)

/-- The loop of `op_stm`. -/
def storeRegs : List ArmReg → UInt32 → Cpu → Option Cpu
  | [], _, c => some c
  | r :: rs, addr, c =>
    if c.uc.permits 2 addr.toUInt64 4 then
      storeRegs rs (addr + 4)
        { c with uc := c.uc.store addr.toUInt64 (long2bytes (c.uc.regRead r) 4) }
    else none

/-- The loop of `do_ldm`. -/
def loadRegs : List ArmReg → UInt32 → Cpu → Option Cpu
  | [], _, c => some c
  | r :: rs, addr, c =>
    match c.uc.loadWord addr.toUInt64 with
    | some w => loadRegs rs (addr + 4) (c.loadReg r w)
    | none => none

/-- What an instruction does; an access to memory that is not mapped, or not with the permission for
it, ends the emulation. -/
def execute : ThumbInsn → Cpu → Option Cpu
  | .push regs, c =>
    let sp := c.reg .sp - 4 * UInt32.ofNat regs.length
    (storeRegs regs sp c).map fun c => (c.setReg .sp sp).advance
  | .pop regs, c =>
    let sp := c.reg .sp
    (loadRegs regs sp c.advance).map fun c => c.setReg .sp (sp + 4 * UInt32.ofNat regs.length)
  | .ldrLiteral rt imm, c =>
    (c.uc.loadWord (((c.reg .pc + 4) &&& ~~~3) + imm).toUInt64).map fun w =>
      (c.setReg rt w).advance
  | .mov rd rm, c =>
    let v := if rm = .pc then c.reg .pc + 4 else c.reg rm
    some (if rd = .pc then c.setReg .pc (v &&& ~~~1) else (c.setReg rd v).advance)

/-- The two bytes at the program counter. -/
def code (c : Cpu) : List UInt8 := readBytes c.uc.mem (c.reg .pc).toUInt64 2

/-- The instruction at the program counter. -/
def fetch (c : Cpu) : Option ThumbInsn :=
  if c.uc.permits 4 (c.reg .pc).toUInt64 2 then decodeT16 (UInt16.ofNat (leNat c.code)) else none

variable (env : HookEnv) (callback : Func → Option (List Int64) → UcM CallRet)

/-- What the hooks make of the instruction at the program counter. -/
def deliver (c : Cpu) : EStateM.Result JavaException Delivery Unit :=
  (env.deliver callback (c.uc.regRead .pc) 2).run ⟨c.uc, c.stopped, c.calls⟩

/-- The engine after the hooks. -/
def afterHooks (c : Cpu) (d : Delivery) : Cpu :=
  { c with uc := d.uc, stopped := d.stopped, calls := d.calls }

/-- One instruction. The hooks come first, and an engine that they have stopped does not execute it.
Nothing is said about ARM code and about other instructions. -/
def step (c : Cpu) : Option Cpu :=
  if c.stopped then some c
  else if c.thumb then
    match c.fetch, c.deliver env callback with
    | some insn, .ok _ d =>
      if d.stopped then some (c.afterHooks d) else execute insn (c.afterHooks d)
    | _, _ => none
  else none

/-- Some instructions. -/
def run : ℕ → Cpu → Option Cpu
  | 0, c => some c
  | n + 1, c => (step env callback c).bind (run n)

/-- `BLX` with an address in a register, from an instruction with the return address `ret`. -/
def call (c : Cpu) (v ret : UInt32) : Cpu := (c.setReg .lr ret).branchTo v

end Cpu

/-! ## Bytes in memory -/

/-- The byte at an address and its permissions are the same in both states. -/
def Unicorn.SameAt (uc uc' : Unicorn) (x : UInt64) : Prop :=
  uc'.guestByte x = uc.guestByte x ∧ uc'.perms x = uc.perms x

/-- Some bytes are mapped and in memory. -/
structure Unicorn.Holds (uc : Unicorn) (a : UInt32) (bytes : List UInt8) : Prop where
  mapped : uc.checkMemArea a.toUInt64 bytes.length = true
  read : readBytes uc.mem a.toUInt64 bytes.length = bytes

theorem toUInt64_add_ofNat {a : UInt32} {k : ℕ} (h : a.toNat + k < 2 ^ 32) :
    (a + UInt32.ofNat k).toUInt64 = a.toUInt64 + UInt64.ofNat k := by
  apply UInt64.toNat_inj.1
  rw [UInt32.toNat_toUInt64, UInt32.toNat_add, UInt32.toNat_ofNat', UInt64.toNat_add,
    UInt32.toNat_toUInt64, UInt64.toNat_ofNat']
  omega

section Holds

variable {uc uc' : Unicorn} {a : UInt32} {bytes : List UInt8}

theorem Unicorn.holds_append {bytes' : List UInt8} (h : a.toNat + bytes.length < 2 ^ 32) :
    uc.Holds a (bytes ++ bytes') ↔
      uc.Holds a bytes ∧ uc.Holds (a + UInt32.ofNat bytes.length) bytes' := by
  have haddr := toUInt64_add_ofNat h
  constructor
  · rintro ⟨hmapped, hread⟩
    rw [List.length_append, Unicorn.checkMemArea_add, Bool.and_eq_true] at hmapped
    rw [List.length_append, readBytes_add] at hread
    obtain ⟨hread₁, hread₂⟩ := List.append_inj hread length_readBytes
    exact ⟨⟨hmapped.1, hread₁⟩, ⟨haddr ▸ hmapped.2, haddr ▸ hread₂⟩⟩
  · rintro ⟨⟨hmapped₁, hread₁⟩, ⟨hmapped₂, hread₂⟩⟩
    rw [haddr] at hmapped₂ hread₂
    constructor
    · rw [List.length_append, Unicorn.checkMemArea_add, hmapped₁, hmapped₂]
      rfl
    · rw [List.length_append, readBytes_add, hread₁, hread₂]

/-- Only the bytes themselves matter. -/
theorem Unicorn.Holds.congr (h : uc.Holds a bytes) (hlen : bytes.length ≤ 2 ^ 64)
    (hbytes : ∀ x, Within a.toUInt64 bytes.length x → uc'.guestByte x = uc.guestByte x) :
    uc'.Holds a bytes := by
  have hsame : ∀ x, Within a.toUInt64 bytes.length x →
      uc'.mapped x = true ∧ uc'.mem x = uc.mem x := by
    intro x hx
    have hbyte := hbytes x hx
    rw [Unicorn.guestByte, Unicorn.guestByte,
      if_pos (Unicorn.mapped_of_checkMemArea h.mapped hx)] at hbyte
    split at hbyte
    next hmapped => exact ⟨hmapped, Option.some_inj.1 hbyte⟩
    next => cases hbyte
  constructor
  · refine List.all_eq_true.2 fun k hk => (hsame _ ?_).1
    exact within_add (List.mem_range.1 hk) hlen
  · rw [readBytes_congr (fun x hx => (hsame x hx).2) hlen]
    exact h.read

theorem Unicorn.Holds.withRegs (h : uc.Holds a bytes) (regs : ArmReg → UInt32) :
    ({ uc with regs } : Unicorn).Holds a bytes :=
  ⟨h.mapped, h.read⟩

theorem Unicorn.holds_store (hlen : bytes.length ≤ 2 ^ 64)
    (hmapped : uc.checkMemArea a.toUInt64 bytes.length = true) :
    (uc.store a.toUInt64 bytes).Holds a bytes :=
  ⟨hmapped, readBytes_overwrite hlen⟩

/-- An area is permitted if its first part and the rest are. -/
theorem Unicorn.permits_add (uc : Unicorn) (p : UInt32) (a : UInt64) (n k : ℕ) :
    uc.permits p a (n + k) = (uc.permits p a n && uc.permits p (a + UInt64.ofNat n) k) := by
  simp only [permits, List.range_add, List.all_append, List.all_map, Function.comp_def,
    add_ofNat_add]

/-- Mapped memory with the permission. -/
theorem Unicorn.permits_of_checkMemArea {p q : UInt32} {a : UInt64} {n : ℕ}
    (h : uc.checkMemArea a n = true) (hn : n ≤ 2 ^ 64)
    (hperms : ∀ x, Within a n x → uc.perms x &&& p = p) (hq : p &&& q = q) :
    uc.permits q a n = true := by
  refine List.all_eq_true.2 fun k hk => ?_
  have hx : Within a n (a + UInt64.ofNat k) := within_add (List.mem_range.1 hk) hn
  have hsub : uc.perms (a + UInt64.ofNat k) &&& q = q := by
    rw [← hq, ← UInt32.and_assoc, hperms _ hx]
  rw [Unicorn.mapped_of_checkMemArea h hx, Bool.true_and, beq_iff_eq, hsub]

theorem Unicorn.Holds.wordAt {v : Int64} (h : uc.Holds a (long2bytes v 4)) :
    uc.wordAt a.toUInt64 = some (low32 v) := by
  rw [Unicorn.wordAt_of_checkMemArea h.mapped]
  have hread : readBytes uc.mem a.toUInt64 4 = long2bytes v 4 := h.read
  rw [hread, long2bytes_four, leWord_cut_longToBytesLittle]

end Holds

namespace Cpu

variable {env : HookEnv} {callback : Func → Option (List Int64) → UcM CallRet} {c : Cpu}
  {id : Int64} {d : Delivery}

/-! ## Single instructions -/

theorem fetch_of_holds {b₀ b₁ : UInt8} (h : c.uc.Holds (c.reg .pc) [b₀, b₁])
    (hexec : c.uc.permits 4 (c.reg .pc).toUInt64 2 = true) :
    c.fetch = decodeT16 (UInt16.ofNat (leNat [b₀, b₁])) := by
  have hread : c.code = [b₀, b₁] := h.read
  rw [fetch, hread]
  exact if_pos hexec

theorem isTrap_of_holds {b₀ b₁ : UInt8} (h : c.uc.Holds (c.reg .pc) [b₀, b₁]) :
    isTrap c.uc (c.uc.regRead .pc) 2 = isMovR4 [b₀, b₁] := by
  have haddr : (c.uc.regRead .pc).toUInt64 = (c.reg .pc).toUInt64 := rfl
  have hread : readBytes c.uc.mem (c.reg .pc).toUInt64 2 = [b₀, b₁] := h.read
  have hmapped : c.uc.checkMemArea (c.reg .pc).toUInt64 2 = true := h.mapped
  rw [isTrap, haddr, hread, hmapped]
  rfl

/-- An instruction that is no `MOV R4, R4` is executed and nothing else happens. -/
theorem step_of_not_isTrap {b₀ b₁ : UInt8} (hrunning : c.stopped = false) (hthumb : c.thumb = true)
    (h : c.uc.Holds (c.reg .pc) [b₀, b₁]) (hexec : c.uc.permits 4 (c.reg .pc).toUInt64 2 = true)
    (hmov : isMovR4 [b₀, b₁] = false) {insn : ThumbInsn}
    (hinsn : decodeT16 (UInt16.ofNat (leNat [b₀, b₁])) = some insn) :
    step env callback c = execute insn c := by
  have hdeliver : c.deliver env callback = .ok () ⟨c.uc, c.stopped, c.calls⟩ := by
    have hnot : isTrap c.uc (c.uc.regRead .pc) 2 = false := (isTrap_of_holds h).trans hmov
    have hsym : (env.symHook callback (c.uc.regRead .pc) 2).run ⟨c.uc, c.stopped, c.calls⟩ =
        .ok () ⟨c.uc, c.stopped, c.calls⟩ := (run_trapHook_of_not_isTrap hnot).2 fun _ => h.mapped
    have hjvm : (env.jvmHook callback (c.uc.regRead .pc) 2).run ⟨c.uc, c.stopped, c.calls⟩ =
        .ok () ⟨c.uc, c.stopped, c.calls⟩ := (run_trapHook_of_not_isTrap hnot).2 fun _ => h.mapped
    rw [deliver, run_deliver, HookEnv.invokeCodeCallbacks]
    exact (bind_of_ok hsym).trans hjvm
  rw [step, hrunning, hthumb, fetch_of_holds h hexec, hinsn, hdeliver, hrunning]
  simp only [Bool.false_eq_true, if_false, if_true]
  rw [← hrunning]
  rfl

/-! ## A stub -/

/-- The engine is about to execute a stub with an id, and there is room for two words on the
stack. -/
structure AtStub (c : Cpu) (id : Int64) : Prop where
  thumb : c.thumb = true
  running : c.stopped = false
  aligned : 4 ∣ (c.reg .pc).toNat
  high : (c.reg .pc).toNat + 12 < 2 ^ 32
  code : c.uc.Holds (c.reg .pc) (asmCode id)
  /-- The code can be read and executed. -/
  rights : ∀ x, Within (c.reg .pc).toUInt64 12 x → c.uc.perms x &&& 5 = 5
  room : 8 ≤ (c.reg .sp).toNat
  stack : c.uc.checkMemArea (c.reg .sp - 8).toUInt64 8 = true
  /-- The two words can be read and written. -/
  stackRights : ∀ x, Within (c.reg .sp - 8).toUInt64 8 x → c.uc.perms x &&& 3 = 3
  /-- The two words are none of the stub. -/
  apart : (c.reg .sp).toNat ≤ (c.reg .pc).toNat ∨ (c.reg .pc).toNat + 20 ≤ (c.reg .sp).toNat

/-- The bytes that a stub pushes. -/
def frame (c : Cpu) : List UInt8 :=
  long2bytes (c.uc.regRead .r4) 4 ++ long2bytes (c.uc.regRead .lr) 4

theorem length_frame (c : Cpu) : c.frame.length = 8 := rfl

/-- After `PUSH {R4, LR}`. -/
def pushed (c : Cpu) : Cpu :=
  let sp := c.reg .sp - 8
  ({ c with uc := c.uc.store sp.toUInt64 c.frame }.setReg .sp sp).advance

/-- At the `MOV R4, R4` of a stub. -/
def atTrap (c : Cpu) (id : Int64) : Cpu := ((c.pushed).setReg .r4 (low32 id)).advance

theorem stopped_atTrap (c : Cpu) (id : Int64) : (c.atTrap id).stopped = c.stopped := by
  dsimp only [atTrap, pushed, advance, setReg]

theorem thumb_atTrap (c : Cpu) (id : Int64) : (c.atTrap id).thumb = c.thumb := by
  dsimp only [atTrap, pushed, advance, setReg]

theorem calls_atTrap (c : Cpu) (id : Int64) : (c.atTrap id).calls = c.calls := by
  dsimp only [atTrap, pushed, advance, setReg]

/-- Back at the caller of a stub, with what the hooks have left. -/
def returned (c : Cpu) (d : Delivery) : Cpu where
  uc := { d.uc with
    regs := fun
      | .r4 => c.reg .r4
      | .sp => c.reg .sp
      | .pc => (bx (c.reg .lr)).pc
      | r => d.uc.regs r }
  thumb := (bx (c.reg .lr)).thumb
  stopped := false
  calls := d.calls

/-- The hooks have left alone what the rest of the stub needs: the stack pointer, the two words that
were pushed, the code, and the permissions of both. -/
structure KeepsFrame (uc uc' : Unicorn) : Prop where
  sp : uc'.regs .sp = uc.regs .sp
  pc : uc'.regs .pc = uc.regs .pc
  stack : ∀ x, Within (uc.regs .sp).toUInt64 8 x → uc.SameAt uc' x
  code : ∀ x, Within (uc.regs .pc).toUInt64 4 x → uc.SameAt uc' x

/-- The code of a stub by its instructions. -/
theorem AtStub.holds (h : c.AtStub id) :
    c.uc.Holds (c.reg .pc) [0x10, 0xB5] ∧ c.uc.Holds (c.reg .pc + 2) [0x01, 0x4C] ∧
      c.uc.Holds (c.reg .pc + 4) ([0x24, 0x46] ++ [0x10, 0xBD]) ∧
      c.uc.Holds (c.reg .pc + 8) (long2bytes id 4) := by
  have hhigh := h.high
  have hcode : c.uc.Holds (c.reg .pc)
      ([0x10, 0xB5] ++ [0x01, 0x4C] ++ ([0x24, 0x46] ++ [0x10, 0xBD]) ++ long2bytes id 4) := h.code
  rw [Unicorn.holds_append (show (c.reg .pc).toNat + 8 < 2 ^ 32 by omega),
    Unicorn.holds_append (show (c.reg .pc).toNat + 4 < 2 ^ 32 by omega),
    Unicorn.holds_append (show (c.reg .pc).toNat + 2 < 2 ^ 32 by omega)] at hcode
  obtain ⟨⟨⟨h₀, h₂⟩, h₄⟩, h₈⟩ := hcode
  exact ⟨h₀, h₂, h₄, h₈⟩

theorem AtStub.toNat_sub (h : c.AtStub id) : (c.reg .sp - 8).toNat = (c.reg .sp).toNat - 8 :=
  UInt32.toNat_sub_of_le _ _ (UInt32.le_iff_toNat_le.2 h.room)

/-- An address in a stub. -/
theorem AtStub.toNat_add (h : c.AtStub id) {k : ℕ} (hk : k ≤ 12) :
    (c.reg .pc + UInt32.ofNat k).toNat = (c.reg .pc).toNat + k := by
  have hhigh := h.high
  rw [UInt32.toNat_add, UInt32.toNat_ofNat']
  omega

/-- The second of the two words on the stack. -/
theorem AtStub.toUInt64_add (h : c.AtStub id) :
    (c.reg .sp - 8 + 4).toUInt64 = (c.reg .sp - 8).toUInt64 + UInt64.ofNat 4 := by
  have hsub := h.toNat_sub
  have hlt := (c.reg .sp).toNat_lt
  have hroom := h.room
  exact toUInt64_add_ofNat (k := 4) (by omega)

/-- The addresses of a part of the stub. -/
theorem AtStub.part_iff (h : c.AtStub id) {k n : ℕ} (hk : k + n ≤ 12) {x : UInt64} :
    Within (c.reg .pc + UInt32.ofNat k).toUInt64 n x ↔
      (c.reg .pc).toNat + k ≤ x.toNat ∧ x.toNat < (c.reg .pc).toNat + k + n := by
  have hhigh := h.high
  have hpc : (c.reg .pc).toUInt64.toNat = (c.reg .pc).toNat := rfl
  have hoff : ((c.reg .pc).toUInt64 + UInt64.ofNat k).toNat = (c.reg .pc).toNat + k := by
    rw [UInt64.toNat_add, UInt64.toNat_ofNat', hpc]
    omega
  rw [toUInt64_add_ofNat (by omega), within_iff (by omega), hoff]

/-- The code of the stub can be read and executed, also after the permissions of other memory were
changed. -/
theorem AtStub.permits (h : c.AtStub id) {uc : Unicorn} {k : ℕ} {bytes : List UInt8} {p : UInt32}
    (hk : k + bytes.length ≤ 12) (hp : 5 &&& p = p)
    (hheld : uc.Holds (c.reg .pc + UInt32.ofNat k) bytes)
    (hperms : ∀ x, Within (c.reg .pc + UInt32.ofNat k).toUInt64 bytes.length x →
      uc.perms x = c.uc.perms x) :
    uc.permits p (c.reg .pc + UInt32.ofNat k).toUInt64 bytes.length = true := by
  refine Unicorn.permits_of_checkMemArea hheld.mapped (by omega) (fun x hx => ?_) hp
  have hhigh := h.high
  have hpc : (c.reg .pc).toUInt64.toNat = (c.reg .pc).toNat := rfl
  rw [hperms x hx]
  refine h.rights x ?_
  rw [h.part_iff hk] at hx
  rw [within_iff (by omega), hpc]
  omega

theorem AtStub.execute_push (h : c.AtStub id) : execute (.push [.r4, .lr]) c = some c.pushed := by
  have hstack : c.uc.permits 2 (c.reg .sp - 8).toUInt64 8 = true :=
    Unicorn.permits_of_checkMemArea h.stack (by decide) h.stackRights rfl
  rw [show 8 = 4 + 4 from rfl, Unicorn.permits_add, Bool.and_eq_true, ← h.toUInt64_add] at hstack
  obtain ⟨hfirst, hsecond⟩ := hstack
  have hlen : 4 * UInt32.ofNat [ArmReg.r4, .lr].length = 8 := rfl
  -- Two stores, one after the other, are one of eight bytes.
  have hstores : (c.uc.store (c.reg .sp - 8).toUInt64 (long2bytes (c.uc.regRead .r4) 4)).store
      (c.reg .sp - 8 + 4).toUInt64 (long2bytes (c.uc.regRead .lr) 4) =
        c.uc.store (c.reg .sp - 8).toUInt64 c.frame := by
    have hlen' : (c.frame).length ≤ 2 ^ 64 := by
      rw [length_frame]
      decide
    rw [h.toUInt64_add]
    exact congrArg (fun mem => { c.uc with mem }) (overwrite_append hlen').symm
  rw [execute, hlen, storeRegs, if_pos hfirst, storeRegs]
  refine (congrArg _ (if_pos hsecond)).trans ?_
  exact congrArg (fun uc => some ({ c with uc }.setReg .sp (c.reg .sp - 8)).advance) hstores

/-- Clearing two bits rounds down to a word. -/
theorem toNat_and_not_three (v : UInt32) : (v &&& ~~~3).toNat = v.toNat / 4 * 4 := by
  have hshift : (v &&& ~~~3).toBitVec = v.toBitVec >>> 2 <<< 2 := by
    rw [BitVec.shiftLeft_ushiftRight]
    rfl
  have hlt := v.toNat_lt
  have hv : v.toBitVec.toNat = v.toNat := rfl
  rw [← UInt32.toNat_toBitVec, hshift, BitVec.toNat_shiftLeft, BitVec.toNat_ushiftRight,
    Nat.shiftLeft_eq, Nat.shiftRight_eq_div_pow, hv]
  omega

/-- The second instruction of a stub loads the word after the code. -/
theorem AtStub.literal (h : c.AtStub id) :
    ((c.reg .pc + 2 + 4) &&& ~~~3) + 4 = c.reg .pc + 8 := by
  have haligned := h.aligned
  have hhigh := h.high
  have h2 : (2 : UInt32).toNat = 2 := rfl
  have h4 : (4 : UInt32).toNat = 4 := rfl
  have h8 : (8 : UInt32).toNat = 8 := rfl
  apply UInt32.toNat_inj.1
  rw [UInt32.toNat_add, toNat_and_not_three, UInt32.toNat_add, UInt32.toNat_add, UInt32.toNat_add,
    h2, h4, h8]
  omega

/-- What a stub does before its third instruction touches the two words on the stack only. -/
theorem guestByte_pushed {x : UInt64} (hx : ¬Within (c.reg .sp - 8).toUInt64 8 x) :
    c.pushed.uc.guestByte x = c.uc.guestByte x := by
  have hstore : (c.uc.store (c.reg .sp - 8).toUInt64 c.frame).guestByte x = c.uc.guestByte x :=
    Unicorn.guestByte_store_of_not_within hx
  exact hstore

/-- The two words on the stack. -/
theorem AtStub.saved (h : c.AtStub id) : c.pushed.uc.Holds (c.reg .sp - 8) c.frame := by
  have hlen : c.frame.length ≤ 2 ^ 64 := by
    rw [length_frame]
    decide
  have hstored : (c.uc.store (c.reg .sp - 8).toUInt64 c.frame).Holds (c.reg .sp - 8) c.frame :=
    Unicorn.holds_store hlen h.stack
  exact ⟨hstored.mapped, hstored.read⟩

/-- The code stays. -/
theorem AtStub.holds_pushed (h : c.AtStub id) {k : ℕ} {bytes : List UInt8}
    (hk : k + bytes.length ≤ 12) (hcode : c.uc.Holds (c.reg .pc + UInt32.ofNat k) bytes) :
    c.pushed.uc.Holds (c.reg .pc + UInt32.ofNat k) bytes := by
  have hhigh := h.high
  have hsub := h.toNat_sub
  have hroom := h.room
  have hapart := h.apart
  have hlt := (c.reg .sp).toNat_lt
  refine hcode.congr (by omega) fun x hx => guestByte_pushed fun hin => ?_
  have hsp : (c.reg .sp - 8).toUInt64.toNat = (c.reg .sp - 8).toNat := rfl
  rw [h.part_iff hk] at hx
  rw [within_iff (by omega), hsp] at hin
  omega

/-- A stub up to its third instruction. -/
theorem run_toTrap (h : c.AtStub id) : run env callback 2 c = some (c.atTrap id) := by
  obtain ⟨hpush, hldr, -, hid⟩ := h.holds
  have hfirst : step env callback c = some c.pushed := by
    have hinsn : decodeT16 (UInt16.ofNat (leNat [0x10, 0xB5])) = some (.push [.r4, .lr]) := rfl
    have hpush' : c.uc.Holds (c.reg .pc + UInt32.ofNat 0) [0x10, 0xB5] := by
      rwa [show UInt32.ofNat 0 = 0 from rfl, UInt32.add_zero]
    have hexec : c.uc.permits 4 (c.reg .pc + UInt32.ofNat 0).toUInt64 2 = true :=
      h.permits (by decide) rfl hpush' fun _ _ => rfl
    rw [show UInt32.ofNat 0 = 0 from rfl, UInt32.add_zero] at hexec
    rw [step_of_not_isTrap h.running h.thumb hpush hexec rfl hinsn]
    exact h.execute_push
  have hsecond : step env callback c.pushed = some (c.atTrap id) := by
    have hldr' : c.pushed.uc.Holds (c.pushed.reg .pc) [0x01, 0x4C] :=
      h.holds_pushed (k := 2) (by decide) hldr
    have hinsn : decodeT16 (UInt16.ofNat (leNat [0x01, 0x4C])) = some (.ldrLiteral .r4 4) := rfl
    have hrunning : c.pushed.stopped = false := h.running
    have hthumb : c.pushed.thumb = true := h.thumb
    have hexec : c.pushed.uc.permits 4 (c.pushed.reg .pc).toUInt64 2 = true :=
      h.permits (k := 2) (by decide) rfl hldr' fun _ _ => rfl
    rw [step_of_not_isTrap hrunning hthumb hldr' hexec rfl hinsn]
    have hid' : c.pushed.uc.Holds (c.reg .pc + 8) (long2bytes id 4) :=
      h.holds_pushed (k := 8) (Nat.le_refl 12) hid
    have hread : c.pushed.uc.permits 1 (c.reg .pc + 8).toUInt64 (long2bytes id 4).length = true :=
      h.permits (k := 8) (Nat.le_refl 12) rfl hid' fun _ _ => rfl
    have hload : c.pushed.uc.loadWord (c.reg .pc + 8).toUInt64 = some (low32 id) :=
      (if_pos hread).trans hid'.wordAt
    have hpc : c.pushed.reg .pc = c.reg .pc + 2 := rfl
    rw [execute, hpc, h.literal, hload]
    rfl
  rw [run, hfirst, Option.bind_some, run, hsecond]
  rfl

/-- After the `MOV R4, R4`, if the engine was not stopped. -/
def afterTrap (c : Cpu) (id : Int64) (d : Delivery) : Cpu :=
  (((c.atTrap id).afterHooks d).setReg .r4 (d.uc.regs .r4)).advance

theorem reg_pc_atTrap (c : Cpu) (id : Int64) : (c.atTrap id).reg .pc = c.reg .pc + 4 := by
  have htwice : (c.atTrap id).reg .pc = c.reg .pc + 2 + 2 := rfl
  rw [htwice, UInt32.add_assoc]
  rfl

/-- The third and the fourth instruction. -/
theorem AtStub.holds_atTrap (h : c.AtStub id) :
    (c.atTrap id).uc.Holds (c.reg .pc + 4) ([0x24, 0x46] ++ [0x10, 0xBD]) := by
  obtain ⟨-, -, hrest, -⟩ := h.holds
  exact (h.holds_pushed (k := 4) (by decide) hrest).withRegs _

theorem AtStub.holds_rest_iff (h : c.AtStub id) {uc : Unicorn} :
    uc.Holds (c.reg .pc + 4) ([0x24, 0x46] ++ [0x10, 0xBD]) ↔
      uc.Holds (c.reg .pc + 4) [0x24, 0x46] ∧ uc.Holds (c.reg .pc + 4 + 2) [0x10, 0xBD] := by
  have hhigh := h.high
  have hpc : (c.reg .pc + 4).toNat = (c.reg .pc).toNat + 4 := h.toNat_add (by decide)
  exact Unicorn.holds_append (show (c.reg .pc + 4).toNat + 2 < 2 ^ 32 by omega)

/-- The third instruction. -/
theorem step_atTrap (h : c.AtStub id) (hdeliver : (c.atTrap id).deliver env callback = .ok () d) :
    step env callback (c.atTrap id) =
      some (if d.stopped then (c.atTrap id).afterHooks d else c.afterTrap id d) := by
  have hmov : (c.atTrap id).uc.Holds ((c.atTrap id).reg .pc) [0x24, 0x46] := by
    rw [reg_pc_atTrap]
    exact (h.holds_rest_iff.1 h.holds_atTrap).1
  have hexec : (c.atTrap id).uc.permits 4 ((c.atTrap id).reg .pc).toUInt64 2 = true := by
    rw [reg_pc_atTrap] at hmov ⊢
    exact h.permits (k := 4) (by decide) rfl hmov fun _ _ => rfl
  have hinsn : decodeT16 (UInt16.ofNat (leNat [0x24, 0x46])) = some (.mov .r4 .r4) := rfl
  rw [step, stopped_atTrap, thumb_atTrap, h.running, h.thumb, fetch_of_holds hmov hexec, hinsn,
    hdeliver]
  simp only [Bool.false_eq_true, if_false, if_true]
  cases hstopped : d.stopped <;> rfl

theorem low32_regRead (uc : Unicorn) (r : ArmReg) : low32 (uc.regRead r) = uc.regs r := by
  apply UInt32.toNat_inj.1
  have hnat : (uc.regRead r).toUInt64.toNat = (uc.regs r).toNat := rfl
  have hlt := (uc.regs r).toNat_lt
  rw [toNat_low32, hnat]
  omega

/-- The three registers that `POP {R4, PC}` sets are those in which the engine that returns differs
from what the hooks have left. -/
theorem afterTrap_loaded (hstopped : d.stopped = false) :
    (((c.afterTrap id d).advance.loadReg .r4 (c.reg .r4)).loadReg .pc (c.reg .lr)).setReg .sp
      (c.reg .sp) = c.returned d := by
  have hregs : ((((c.afterTrap id d).advance.loadReg .r4 (c.reg .r4)).loadReg .pc
      (c.reg .lr)).setReg .sp (c.reg .sp)).uc.regs = (c.returned d).uc.regs := by
    funext r
    cases r <;> rfl
  rw [returned] at hregs ⊢
  dsimp only at hregs
  rw [← hstopped, ← hregs]
  simp only [loadReg, branchTo, setReg, advance, afterTrap, afterHooks, reduceCtorEq, if_true,
    if_false]

/-- `POP {R4, PC}` with the frame of the stub. -/
theorem AtStub.execute_pop (h : c.AtStub id) (hframe : KeepsFrame (c.atTrap id).uc d.uc)
    (hstopped : d.stopped = false) :
    execute (.pop [.r4, .pc]) (c.afterTrap id d) = some (c.returned d) := by
  have hsub := h.toNat_sub
  have hlt := (c.reg .sp).toNat_lt
  have hroom := h.room
  have hsaved : d.uc.Holds (c.reg .sp - 8) c.frame := by
    have hatTrap : (c.atTrap id).uc.Holds (c.reg .sp - 8) c.frame := h.saved.withRegs _
    exact hatTrap.congr (by rw [length_frame]; decide) fun x hx => (hframe.stack x hx).1
  have hread : d.uc.permits 1 (c.reg .sp - 8).toUInt64 8 = true := by
    refine Unicorn.permits_of_checkMemArea hsaved.mapped (by decide) (fun x hx => ?_)
      (show 3 &&& 1 = 1 from rfl)
    rw [(hframe.stack x hx).2]
    exact h.stackRights x hx
  rw [show 8 = 4 + 4 from rfl, Unicorn.permits_add, Bool.and_eq_true, ← h.toUInt64_add] at hread
  rw [frame, Unicorn.holds_append (show (c.reg .sp - 8).toNat + 4 < 2 ^ 32 by omega)] at hsaved
  obtain ⟨hr4, hlr⟩ := hsaved
  have hsp : (c.afterTrap id d).reg .sp = c.reg .sp - 8 := hframe.sp
  have hfirst : (c.afterTrap id d).advance.uc.loadWord (c.reg .sp - 8).toUInt64 =
      some (c.reg .r4) := by
    have hword := (hr4.withRegs (c.afterTrap id d).advance.uc.regs).wordAt
    rw [low32_regRead] at hword
    exact (if_pos hread.1).trans hword
  have hsecond : ((c.afterTrap id d).advance.loadReg .r4 (c.reg .r4)).uc.loadWord
      (c.reg .sp - 8 + 4).toUInt64 = some (c.reg .lr) := by
    have hword := (hlr.withRegs
      ((c.afterTrap id d).advance.loadReg .r4 (c.reg .r4)).uc.regs).wordAt
    rw [low32_regRead] at hword
    exact (if_pos hread.2).trans hword
  rw [execute, hsp, loadRegs, hfirst]
  dsimp only
  rw [loadRegs, hsecond]
  dsimp only
  have hback : c.reg .sp - 8 + 4 * UInt32.ofNat [ArmReg.r4, .pc].length = c.reg .sp :=
    UInt32.sub_add_cancel _ _
  rw [loadRegs, Option.map_some, hback, afterTrap_loaded hstopped]

/-- The third and the fourth instruction. -/
theorem run_fromTrap (h : c.AtStub id) (hdeliver : (c.atTrap id).deliver env callback = .ok () d)
    (hframe : d.stopped = false → KeepsFrame (c.atTrap id).uc d.uc) :
    run env callback 2 (c.atTrap id) =
      some (if d.stopped then (c.atTrap id).afterHooks d else c.returned d) := by
  rw [run, step_atTrap h hdeliver, Option.bind_some, run]
  cases hstopped : d.stopped with
  | true =>
    -- A stopped engine stays as it is.
    have hstep : step env callback ((c.atTrap id).afterHooks d) =
        some ((c.atTrap id).afterHooks d) := if_pos hstopped
    simp only [if_true, hstep]
    rfl
  | false =>
    have hkeeps := hframe hstopped
    have hpc : (c.afterTrap id d).reg .pc = c.reg .pc + 4 + 2 :=
      congrArg (· + 2) (hkeeps.pc.trans (reg_pc_atTrap c id))
    have hpop : (c.afterTrap id d).uc.Holds ((c.afterTrap id d).reg .pc) [0x10, 0xBD] := by
      have hcode := hkeeps.code
      have hpc' : (c.atTrap id).uc.regs .pc = c.reg .pc + 4 := reg_pc_atTrap c id
      rw [hpc'] at hcode
      have hrest := h.holds_atTrap.congr (by decide) fun x hx => (hcode x hx).1
      rw [hpc]
      exact (h.holds_rest_iff.1 hrest).2.withRegs _
    have hsix : (c.afterTrap id d).reg .pc = c.reg .pc + UInt32.ofNat 6 := by
      rw [hpc, UInt32.add_assoc]
      rfl
    have hexec :
        (c.afterTrap id d).uc.permits 4 ((c.afterTrap id d).reg .pc).toUInt64 2 = true := by
      rw [hsix] at hpop ⊢
      refine h.permits (by decide) rfl hpop fun x hx => ?_
      refine (hkeeps.code x ?_).2
      have hpc' : (c.atTrap id).uc.regs .pc = c.reg .pc + UInt32.ofNat 4 := reg_pc_atTrap c id
      rw [h.part_iff (by decide), List.length_cons, List.length_singleton] at hx
      rw [hpc', h.part_iff (by decide)]
      omega
    have hinsn : decodeT16 (UInt16.ofNat (leNat [0x10, 0xBD])) = some (.pop [.r4, .pc]) := rfl
    have hthumb : (c.afterTrap id d).thumb = true := h.thumb
    have hstep : step env callback (c.afterTrap id d) = some (c.returned d) := by
      rw [step_of_not_isTrap hstopped hthumb hpop hexec rfl hinsn]
      exact h.execute_pop hkeeps hstopped
    simp only [Bool.false_eq_true, if_false, hstep]
    rfl

theorem run_add (m n : ℕ) (c : Cpu) :
    run env callback (m + n) c = (run env callback m c).bind (run env callback n) := by
  induction m generalizing c with
  | zero =>
    rw [Nat.zero_add]
    rfl
  | succ m ih =>
    rw [Nat.succ_add, run, run, Option.bind_assoc]
    exact congrArg _ (funext ih)

/-- A stub calls what the hooks deliver at its third instruction. If nothing is stopped and its
frame is left alone, it returns to its caller, with `R4` and the stack pointer as they were.
Otherwise the engine stays in the stub, with the id in `R4` and two words more on the stack. -/
theorem run_stub (h : c.AtStub id) (hdeliver : (c.atTrap id).deliver env callback = .ok () d)
    (hframe : d.stopped = false → KeepsFrame (c.atTrap id).uc d.uc) :
    run env callback 4 c =
      some (if d.stopped then (c.atTrap id).afterHooks d else c.returned d) := by
  rw [show 4 = 2 + 2 from rfl, run_add, run_toTrap h, Option.bind_some]
  exact run_fromTrap h hdeliver hframe

end Cpu

end Tank
