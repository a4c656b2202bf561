import Tank.Cenv.KernelRuns
import Tank.Cenv.MemorySyscalls
import Tank.ToMathlib.TwoRuns

/-!
# Mappings in runs with all system calls

What is mapped, with which permissions, and what the allocators have left does not depend on what
the guest stores and has in its registers, nor on any system call but `mmap2`, `mprotect` and
`munmap`. Two emulators that differ only in the contents of memory and registers have the same
`Layout`.

* `alike_code`: what the three system calls return and do to the layout depends on the layout only;
* `mappings_run`: in every run the layout is the one that the system calls on memory have made.
-/

namespace Tank

open ToMathlib MemoryManager

/-! ## The engine -/

/-- The same but for the contents of memory and registers. -/
def Unicorn.SameLayout (uc uc' : Unicorn) : Prop := 
  ∃ mem regs upper, uc' = { uc with mem, regs, upper }

/-- Code of the engine that depends on the layout only. -/
def UcLayout {α : Type} (m : UcM α) : Prop := Alike Unicorn.SameLayout Eq m m

/-- Whether a chunk can be mapped depends on the mappings. -/
theorem ucLayout_memMap (chunk : MemChunk) (perms : Int32) :
    UcLayout (Unicorn.memMap chunk perms) := by
  rintro uc _ ⟨mem, regs, upper, rfl⟩
  have hcheck : ({ uc with mem, regs, upper } : Unicorn).memMapCheck chunk.region perms.toUInt32 =
      uc.memMapCheck chunk.region perms.toUInt32 := rfl
  rw [Unicorn.run_memMap, Unicorn.run_memMap, hcheck]
  cases uc.memMapCheck chunk.region perms.toUInt32 with
  | none => exact .ok rfl ⟨_, regs, upper, rfl⟩
  | some err => exact .error ⟨mem, regs, upper, rfl⟩

/-- So does changing permissions. -/
theorem ucLayout_memProtect (chunk : MemChunk) (perms : Int32) :
    UcLayout (Unicorn.memProtect chunk perms) := by
  rintro uc _ ⟨mem, regs, upper, rfl⟩
  have hcheck : ({ uc with mem, regs, upper } : Unicorn).checkMemArea chunk.region.addr
      chunk.region.size.toNat = uc.checkMemArea chunk.region.addr chunk.region.size.toNat := rfl
  simp only [EStateM.run, Unicorn.memProtect, hcheck]
  split_ifs
  all_goals first | exact .ok rfl ⟨mem, regs, upper, rfl⟩ | exact .error ⟨mem, regs, upper, rfl⟩

/-- So does unmapping. -/
theorem ucLayout_memUnmap (chunk : MemChunk) : UcLayout (Unicorn.memUnmap chunk) := by
  rintro uc _ ⟨mem, regs, upper, rfl⟩
  have hcheck : ({ uc with mem, regs, upper } : Unicorn).checkMemArea chunk.region.addr
      chunk.region.size.toNat = uc.checkMemArea chunk.region.addr chunk.region.size.toNat := rfl
  simp only [EStateM.run, Unicorn.memUnmap, hcheck]
  split_ifs
  all_goals first | exact .ok rfl ⟨mem, regs, upper, rfl⟩ | exact .error ⟨mem, regs, upper, rfl⟩

/-- Whether bytes can be written does, too. -/
theorem ucLayout_memWrite (addr : Int64) (bytes : List UInt8) :
    UcLayout (Unicorn.memWrite addr bytes) := by
  rintro uc _ ⟨mem, regs, upper, rfl⟩
  have hcheck : ({ uc with mem, regs, upper } : Unicorn).checkMemArea addr.toUInt64 bytes.length =
      uc.checkMemArea addr.toUInt64 bytes.length := rfl
  rw [Unicorn.run_memWrite, Unicorn.run_memWrite, hcheck]
  split
  · exact .ok rfl ⟨_, regs, upper, rfl⟩
  · exact .error ⟨mem, regs, upper, rfl⟩

/-! ## The emulator -/

/-- The same but for the contents of memory and registers. -/
def MemoryManager.SameLayout (s s' : MemoryManager) : Prop :=
  ∃ uc, s.uc.SameLayout uc ∧ s' = { s with uc }

/-- The same but for the contents of memory and registers. -/
def Emulator.SameLayout (emu emu' : Emulator) : Prop :=
  ∃ memory, emu.memory.SameLayout memory ∧ emu' = { emu with memory }

/-- Code that depends on the layout only. -/
def MemLayout {α : Type} (m : MemM α) : Prop := Alike MemoryManager.SameLayout Eq m m

/-- Code that depends on the layout only. -/
def EmuLayout {α : Type} (m : EmuM α) : Prop := Alike Emulator.SameLayout Eq m m

theorem MemLayout.liftUc {α : Type} {m : UcM α} (h : UcLayout m) : MemLayout (liftUc m) := by
  rintro s _ ⟨uc, huc, rfl⟩
  have hend := h s.uc uc huc
  simp only [EStateM.run, MemoryManager.liftUc] at hend ⊢
  generalize m s.uc = r, m uc = r' at hend ⊢
  cases hend with
  | ok hresult hstate => exact .ok hresult ⟨_, hstate, rfl⟩
  | error hstate => exact .error ⟨_, hstate, rfl⟩

theorem EmuLayout.liftMem {α : Type} {m : MemM α} (h : MemLayout m) : EmuLayout (liftMem m) := by
  rintro emu _ ⟨memory, hmemory, rfl⟩
  have hend := h emu.memory memory hmemory
  simp only [EStateM.run, Tank.liftMem] at hend ⊢
  generalize m emu.memory = r, m memory = r' at hend ⊢
  cases hend with
  | ok hresult hstate => exact .ok hresult ⟨_, hstate, rfl⟩
  | error hstate => exact .error ⟨_, hstate, rfl⟩

theorem EmuLayout.bind {α β : Type} {m : EmuM α} {f : α → EmuM β} (hm : EmuLayout m)
    (hf : ∀ a, EmuLayout (f a)) : EmuLayout (m >>= f) :=
  Alike.bind hm fun a _ hab => hab ▸ hf a

theorem EmuLayout.pure {α : Type} (a : α) : EmuLayout (Pure.pure a : EmuM α) := Alike.pure rfl

theorem memLayout_reserveModule (size : Int64) : MemLayout (reserveModule size) := by
  rintro s _ ⟨uc, huc, rfl⟩
  rw [run_reserveModule, run_reserveModule]
  cases (s.incrementalAllocator.reserve size).2 with
  | ok chunk => exact .ok rfl ⟨uc, huc, rfl⟩
  | error err => exact .error ⟨uc, huc, rfl⟩

theorem memLayout_mmap (size : Int64) (prot : Int32) : MemLayout (mmap size prot) :=
  Alike.bind (memLayout_reserveModule size) fun _ _ hc => hc ▸
    Alike.bind (MemLayout.liftUc (ucLayout_memMap _ prot)) fun _ _ _ => Alike.pure rfl

theorem memLayout_protect (addr size : Int64) (prot : Int32) :
    MemLayout (protect addr size prot) := by
  rw [protect]
  split
  · exact .liftUc (ucLayout_memProtect _ prot)
  · exact Alike.pure rfl

theorem memLayout_unmap (addr size : Int64) : MemLayout (unmap addr size) := by
  rw [unmap]
  split
  · exact .liftUc (ucLayout_memUnmap _)
  · exact Alike.pure rfl

/-- `errno` is looked up in the modules, which belong to the layout. -/
theorem emuLayout_clearErrno (value : Int64) :
    EmuLayout (do
      let emu ← get
      let errnoAddr ← getOrThrow (findCSymbol emu.modules "__errno")
      liftMem (MemoryManager.liftUc (Unicorn.memWrite errnoAddr (long2bytes 0 4)))
      pure (⟨true, value⟩ : CallRet)) := by
  rintro emu _ ⟨memory, hmemory, rfl⟩
  rw [get_bind, get_bind]
  cases findCSymbol emu.modules "__errno" with
  | error err => exact .error ⟨memory, hmemory, rfl⟩
  | ok errnoAddr =>
    exact (EmuLayout.liftMem (.liftUc (ucLayout_memWrite errnoAddr _))).bind (fun _ => .pure _)
      emu _ ⟨memory, hmemory, rfl⟩

/-- The system calls on memory depend on the layout only. -/
theorem alike_code (call : MemSyscall) : EmuLayout call.code := by
  cases call with
  | mmap2 addr size prot flags =>
    rw [MemSyscall.code, Handler.mmap2]
    split
    · dsimp only
      split
      · exact (EmuLayout.liftMem (memLayout_protect _ _ _)).bind fun _ => .pure _
      · exact .pure _
    · exact (EmuLayout.liftMem (memLayout_mmap _ _)).bind fun value => emuLayout_clearErrno value
  | mprotect addr len prot =>
    rw [MemSyscall.code, Handler.mprotect]
    split
    · exact (EmuLayout.liftMem (memLayout_protect _ _ _)).bind fun _ => .pure _
    · exact .pure _
  | munmap addr size => exact (EmuLayout.liftMem (memLayout_unmap _ _)).bind fun _ => .pure _

/-! ## Runs -/

/-- The emulator with the contents of memory and registers left out. -/
def Emulator.layout (emu : Emulator) : Emulator :=
  emu.withUc { emu.uc with mem := fun _ => 0, regs := fun _ => 0, upper := fun _ => 0 }

theorem Emulator.sameLayout_iff {emu emu' : Emulator} :
    emu.SameLayout emu' ↔ emu'.layout = emu.layout := by
  constructor
  · rintro ⟨_, ⟨_, ⟨mem, regs, upper, rfl⟩, rfl⟩, rfl⟩
    rfl
  · obtain ⟨⟨⟨regions, mem, perms, regs, upper, calls⟩, heap, modules⟩, list, hooked⟩ := emu
    obtain ⟨⟨⟨regions', mem', perms', regs', upper', calls'⟩, heap', modules'⟩, list',
      hooked'⟩ := emu'
    intro h
    cases h
    exact ⟨_, ⟨_, ⟨mem', regs', upper', rfl⟩, rfl⟩, rfl⟩

namespace Kernel

/-- The system call on memory that an event is. -/
def memCall (c : Kernel × Event) : Option MemSyscall :=
  let regs := c.1.emu.uc.regs
  match c.1.selected c.2 with
  | some (_, .mmap2) => some (.mmap2 (regs .r0) (regs .r1) (regs .r2) (regs .r3))
  | some (_, .mprotect) => some (.mprotect (regs .r0) (regs .r1) (regs .r2))
  | some (_, .munmap) => some (.munmap (regs .r0) (regs .r1))
  | _ => none

theorem toInt32_regRead (uc : Unicorn) (reg : ArmReg) :
    (uc.regRead reg).toInt32 = (uc.regs reg).toInt32 := by
  apply Int32.toBitVec_inj.1
  refine (BitVec.signExtend_eq_setWidth_of_le _ (by decide)).trans ?_
  exact BitVec.setWidth_setWidth_of_le (uc.regs reg).toBitVec (show 32 ≤ 64 by decide)

/-- The function of a system call on memory, with its arguments. -/
theorem code_of_memCall (env : VfsEnv) (outside : Outside) {k : Kernel} {e : Event} {argSize : ℕ}
    {call : Syscall} {c : MemSyscall} (hsel : k.selected e = some (argSize, call))
    (hcall : memCall (k, e) = some c) :
    call.code env outside (k.syscallArgs argSize) = onEmu c.code := by
  have hsize := sizeMatches_of_selected hsel
  rw [memCall, hsel] at hcall
  cases call with
  | mmap2 =>
    cases hcall
    rw [eq_of_beq hsize, MemSyscall.code, ← toInt32_regRead, ← toInt32_regRead]
    rfl
  | mprotect =>
    cases hcall
    rw [eq_of_beq hsize, MemSyscall.code, ← toInt32_regRead]
    rfl
  | munmap =>
    cases hcall
    rw [eq_of_beq hsize]
    rfl
  | _ => cases hcall

/-- The mappings go on by themselves. -/
theorem projects_mappings (env : VfsEnv) :
    Projects (step env) memCall (fun k => k.emu.layout) SyscallState.step
      fun s => s.emu.layout where
  observed k e c s hcall hks := by
    have hsel : ∃ argSize call, k.selected e = some (argSize, call) := by
      rw [memCall] at hcall
      cases hsel : k.selected e with
      | none =>
        rw [hsel] at hcall
        cases hcall
      | some selected => exact ⟨selected.1, selected.2, rfl⟩
    obtain ⟨argSize, call, hsel⟩ := hsel
    obtain ⟨outside, k', regs, stopped, hk', -, -, hstep⟩ := exists_framed env hsel
    rw [code_of_memCall env outside hsel hcall, onEmu, finalState_zoom] at hk'
    have hlayout : (k.step env e).emu.layout = (finalState (c.code.run k.emu)).layout := by
      rw [hstep, hk']
      rfl
    have hsame := (alike_code c k.emu s.emu (Emulator.sameLayout_iff.2 hks.symm)).finalState
    rw [hlayout, SyscallState.emu_step]
    exact (Emulator.sameLayout_iff.1 hsame).symm
  hidden k e hcall := by
    refine view_step env (fun k => k.emu.layout) (fun _ _ _ _ _ => rfl)
      fun argSize call outside hsel k' _ hframed => ?_
    have hother : ¬call.IsMemory := by
      rintro (rfl | rfl | rfl) <;> rw [memCall, hsel] at hcall <;> cases hcall
    rw [hframed.memory hother]
    rfl

/-- In every run, what is mapped and with which permissions is at each system call on memory, and at
the end, what the system calls on memory before it have made of it. -/
theorem mappings_run (env : VfsEnv) (k : Kernel) (events : List Event)
    (returned : List (Int64 × UInt32)) :
    (trace (step env) k events).filterMap
        (fun c => (memCall c).map fun call => (c.1.emu.layout, call)) =
      (trace SyscallState.step ⟨k.emu, returned⟩ (observed (step env) memCall k events)).map
        (fun c => (c.1.emu.layout, c.2)) ∧
    (k.run env events).emu.layout =
      ((observed (step env) memCall k events).foldl SyscallState.step
        ⟨k.emu, returned⟩).emu.layout :=
  ⟨project_trace (projects_mappings env) rfl events,
    project_foldl (projects_mappings env) rfl events⟩

end Kernel

end Tank
