import Tank.Helper.MemoryAccess
import Tank.Hook.ArgFetch
import Tank.Jenv.Bootstrap

/-!
# Calls from native code

Native code gets the pointer of the invocation interface, asks `GetEnv` for the one of the JNI
environment, and calls Java functions through the entries of both tables.

* `jni_call`: a call through an entry is a call of its function, and comes back;
* `getEnv_call`: after `GetEnv` the guest has a pointer that leads to all functions;
* `calls_session`: however many calls native code makes, and whatever it does between them, the
  functions that are called are the ones it has asked for, and those that it has called itself
  without the tables.
-/

namespace Tank

open ToMathlib StubWriter

/-! ## Calls through a table -/

section Calls

variable {uc : Unicorn} {env : HookEnv} {jvm jni : TableRet}
  {callback : Func → Option (List Int64) → UcM CallRet} {c : Cpu} {func : IJFunc} {id : Int64}
  {stub entry ret p : UInt32} {idx : ℕ}

/-- There is room for two words on the stack, which can be read and written and are not in the
region of the stubs. -/
structure StubRoom (uc : Unicorn) : Prop where
  room : 8 ≤ (uc.regs .sp).toNat
  mapped : uc.checkMemArea (uc.regs .sp - 8).toUInt64 8 = true
  rights : ∀ x, Within (uc.regs .sp - 8).toUInt64 8 x → uc.perms x &&& 3 = 3
  apart : (uc.regs .sp).toNat ≤ jvmHookMemoryBase.toInt ∨
    jvmHookMemoryBase.toInt + jvmHookMemorySize.toInt + 8 ≤ (uc.regs .sp).toNat

/-- A branch to the entry arrives at the stub. -/
theorem OwnStub.atStub (h : OwnStub env c.uc func stub id) (hentry : bx entry = ⟨true, stub⟩)
    (hrunning : c.stopped = false) (hstack : StubRoom c.uc) (ret : UInt32) :
    (c.call entry ret).AtStub id := by
  have hbounds := toInt_jvmHookMemory
  have hlow := h.low
  have hhigh := h.high
  have hapart := hstack.apart
  have hpc : (c.call entry ret).reg .pc = stub := congrArg BranchTarget.pc hentry
  have hsp : (c.call entry ret).reg .sp = c.uc.regs .sp := rfl
  have hthumb : (c.call entry ret).thumb = true := congrArg BranchTarget.thumb hentry
  have hcode : (c.call entry ret).uc.Holds ((c.call entry ret).reg .pc) (asmCode id) := by
    rw [hpc]
    exact h.code.withRegs _
  refine ⟨hthumb, hrunning, ?_, ?_, hcode, ?_, hstack.room, hstack.mapped, hstack.rights, ?_⟩
  · rw [hpc]
    exact h.aligned
  · rw [hpc]
    omega
  · rw [hpc]
    exact h.rights
  · rw [hpc, hsp]
    omega

/-- What a stub delivers: the arguments are read and the function is called, with the engine as the
stub has prepared it. -/
def stubDelivery (callback : Func → Option (List Int64) → UcM CallRet) (c : Cpu) (func : IJFunc)
    (id : Int64) : Delivery :=
  callFunc callback (.jvm func) (JCallHelper.readVaArgs func.acount)
    ⟨(c.atTrap id).uc, false, c.calls⟩

/-- Unless it stops the engine, the function leaves alone what its stub needs to return. -/
def ReturnsIntact (callback : Func → Option (List Int64) → UcM CallRet) (c : Cpu) (func : IJFunc)
    (id : Int64) : Prop :=
  (stubDelivery callback c func id).stopped = false →
    Cpu.KeepsFrame (c.atTrap id).uc (stubDelivery callback c func id).uc

/-- At the third instruction of such a stub the hooks call its function and no other. -/
theorem OwnStub.deliver {uc' : Unicorn} (h : OwnStub env uc' func stub id) (hstub : c.AtStub id) :
    (c.atTrap id).deliver env callback = .ok () (stubDelivery callback c func id) := by
  have hidLow := h.idLow
  have hidHigh := h.idHigh
  have hr4 : (c.atTrap id).uc.regRead .r4 = id := by
    have hreg : (c.atTrap id).uc.regs .r4 = low32 id := rfl
    rw [Unicorn.regRead, hreg, toUInt64_low32 hidLow hidHigh]
    rfl
  have htrap : isTrap (c.atTrap id).uc ((c.atTrap id).uc.regRead .pc) 2 = true := by
    have hmov : (c.atTrap id).uc.Holds ((c.atTrap id).reg .pc) [0x24, 0x46] := by
      rw [Cpu.reg_pc_atTrap]
      exact (hstub.holds_rest_iff.1 hstub.holds_atTrap).1
    exact (Cpu.isTrap_of_holds hmov).trans rfl
  let s : Delivery := ⟨(c.atTrap id).uc, false, c.calls⟩
  have hsym : (env.symHook callback ((c.atTrap id).uc.regRead .pc) 2).run s = .ok () s := by
    refine (run_trapHook_of_isTrap (s := s) htrap).trans ?_
    rw [show s.uc.regRead .r4 = id from hr4, h.sym]
  have hjvm : (env.jvmHook callback ((c.atTrap id).uc.regRead .pc) 2).run s =
      .ok () (callFunc callback (.jvm func) (JCallHelper.readVaArgs func.acount) s) := by
    refine (run_trapHook_of_isTrap (s := s) htrap).trans ?_
    rw [show s.uc.regRead .r4 = id from hr4, h.jvm]
  rw [Cpu.deliver, Cpu.stopped_atTrap, Cpu.calls_atTrap, hstub.running, run_deliver,
    HookEnv.invokeCodeCallbacks]
  exact (bind_of_ok hsym).trans hjvm

/-- What a call through an entry of a table comes to: the function is called with the engine as the
stub has prepared it. Then the stub returns, or the engine stays in it if the function has stopped
it. A function that changes the frame or the code of its stub is left out. -/
def IsCallOf (env : HookEnv) (callback : Func → Option (List Int64) → UcM CallRet) (c : Cpu)
    (func : IJFunc) (id : Int64) : Prop :=
  let d := stubDelivery callback c func id
  c.AtStub id ∧ (ReturnsIntact callback c func id →
    Cpu.run env callback 4 c =
      some (if d.stopped then (c.atTrap id).afterHooks d else c.returned d))

theorem Leads.call (h : Leads env c.uc p idx func)
    (callback : Func → Option (List Int64) → UcM CallRet) (hrunning : c.stopped = false)
    (hstack : StubRoom c.uc) (ret : UInt32) :
    ∃ entry id, entryOf c.uc p idx = some entry ∧
      IsCallOf env callback (c.call entry ret) func id := by
  obtain ⟨entry, stub, id, hentry, hbx, hown⟩ := h
  have hstub := hown.atStub hbx hrunning hstack ret
  exact ⟨entry, id, hentry, hstub, fun hframe => Cpu.run_stub hstub (hown.deliver hstub) hframe⟩

/-- Native code in the middle of the stack, with `R1` pointing to a word on it. -/
def nativeStart (env : HookEnv) : Cpu where
  uc := { env.uc with
    regs := fun
      | .sp => 0xFFF00
      | .r1 => 0xFFF80
      | r => env.uc.regs r }
  thumb := true
  stopped := false
  calls := []

/-- Functions that return a number and do nothing else. -/
def answerSeven (_func : Func) (_args : Option (List Int64)) : UcM CallRet := pure ⟨true, 7⟩

/-- The permissions of a new engine. -/
theorem perms_fresh (x : UInt64) :
    MemoryManager.fresh.uc.perms x =
      if (MemChunk.region ⟨jvmHookMemoryBase, jvmHookMemorySize⟩).contains x then 7
      else if (MemChunk.region ⟨cHookMemoryBase, cHookMemorySize⟩).contains x then 7
      else if (MemChunk.region ⟨hookMemoryBase, hookMemorySize⟩).contains x then 7
      else if (MemChunk.region ⟨heapMin, heapMax - heapMin⟩).contains x then 3
      else if (MemChunk.region ⟨stackAddr, stackSize⟩).contains x then 7 else 0 := rfl

/-- The constructors on a new engine. -/
theorem exists_boot_fresh :
    RegionReady MemoryManager.fresh.uc ∧
      ∃ jvm jni env, bootTables.run (HookEnv.create MemoryManager.fresh.uc) = .ok (jvm, jni) env ∧
        Booted env jvm jni ∧ env.uc.regions = MemoryManager.fresh.uc.regions ∧
        env.uc.perms = MemoryManager.fresh.uc.perms := by
  have hready : RegionReady MemoryManager.fresh.uc := by
    rintro x ⟨hlow, hhigh⟩
    have hchunk : MemChunk.IsLow ⟨jvmHookMemoryBase, jvmHookMemorySize⟩ :=
      ⟨by decide, by decide, by decide⟩
    refine ⟨mapped_jvm_fresh x hlow hhigh, ?_⟩
    rw [perms_fresh, if_pos ((MemChunk.contains_region hchunk).2 ⟨hlow, hhigh⟩)]
    rfl
  exact ⟨hready, exists_boot hready⟩

/-- The stack of a new engine. -/
theorem checkMemArea_stack_fresh {a : UInt64} {n : ℕ} (h : a.toNat + n ≤ 0x100000) :
    MemoryManager.fresh.uc.checkMemArea a n = true := by
  have hchunk : MemChunk.IsLow ⟨stackAddr, stackSize⟩ := ⟨by decide, by decide, by decide⟩
  refine List.all_eq_true.2 fun k hk => List.any_eq_true.2
    ⟨MemChunk.region ⟨stackAddr, stackSize⟩, by decide +kernel,
      (MemChunk.contains_region hchunk).2 ?_⟩
  have hlt : k < n := List.mem_range.1 hk
  have haddr : stackAddr.toInt = 0 := rfl
  have hsize : stackSize.toInt = 0x100000 := rfl
  have hnat : (a + UInt64.ofNat k).toNat = a.toNat + k := by
    rw [UInt64.toNat_add, UInt64.toNat_ofNat']
    omega
  have hlow : stackAddr.toInt ≤ (a + UInt64.ofNat k).toNat := by omega
  have hhigh : ((a + UInt64.ofNat k).toNat : ℤ) < stackAddr.toInt + stackSize.toInt := by omega
  exact ⟨hlow, hhigh⟩

/-- It can be read and written. -/
theorem perms_stack_fresh {x : UInt64} (h : x.toNat < 0x100000) :
    MemoryManager.fresh.uc.perms x &&& 3 = 3 := by
  have hchunk : MemChunk.IsLow ⟨stackAddr, stackSize⟩ := ⟨by decide, by decide, by decide⟩
  have hlow : stackAddr.toInt ≤ x.toNat := Int.natCast_nonneg _
  have hhigh : (x.toNat : ℤ) < stackAddr.toInt + stackSize.toInt := by
    have haddr : stackAddr.toInt = 0 := rfl
    have hsize : stackSize.toInt = 0x100000 := rfl
    omega
  rw [perms_fresh, if_pos ((MemChunk.contains_region hchunk).2 ⟨hlow, hhigh⟩)]
  split_ifs <;> rfl

theorem intact_nativeStart (env : HookEnv) : Intact env (nativeStart env).uc :=
  fun _ _ => ⟨rfl, rfl⟩

theorem sp_nativeStart (env : HookEnv) : (nativeStart env).uc.regs .sp = 0xFFF00 := rfl

theorem r1_nativeStart (env : HookEnv) : (nativeStart env).uc.regs .r1 = 0xFFF80 := rfl

theorem stubRoom_nativeStart (hregions : env.uc.regions = MemoryManager.fresh.uc.regions)
    (hperms : env.uc.perms = MemoryManager.fresh.uc.perms) : StubRoom (nativeStart env).uc := by
  have hregions' : (nativeStart env).uc.regions = MemoryManager.fresh.uc.regions := hregions
  constructor
  · rw [sp_nativeStart]
    decide
  · rw [Unicorn.checkMemArea_congr hregions', sp_nativeStart]
    exact checkMemArea_stack_fresh (by decide)
  · intro x hx
    have hsp : (0xFFF00 - 8 : UInt32).toUInt64.toNat = 0xFFEF8 := by decide
    have hperms' : (nativeStart env).uc.perms = MemoryManager.fresh.uc.perms := hperms
    rw [sp_nativeStart, within_iff (by omega), hsp] at hx
    rw [hperms']
    exact perms_stack_fresh (by omega)
  · rw [sp_nativeStart]
    exact .inl (by decide)

/-- A function that writes a pointer for native code and returns `JNI_OK`. -/
def writePointer (ptr : Int64) (args : List Int64) : UcM CallRet := do
  MemoryAccess.write (args.getD 1 0) ptr 4
  pure ⟨true, 0⟩

/-- `Jvm.GetEnv` -/
def getEnv (jni : TableRet) : List Int64 → UcM CallRet := writePointer jni.ptr

/-- `JniEnv.GetJavaVM` -/
def getJavaVM (jvm : TableRet) : List Int64 → UcM CallRet := writePointer jvm.ptr

/-- `GetEnv` and `GetJavaVM` are among the functions that are called. -/
structure HasPointerCalls (callback : Func → Option (List Int64) → UcM CallRet)
    (jvm jni : TableRet) : Prop where
  getEnv : ∀ args, callback (.jvm (jvmFunc 6)) (some args) = getEnv jni args
  getJavaVM : ∀ args, callback (.jvm (jniFunc 219)) (some args) = getJavaVM jvm args

/-- `R1` points to a word that is neither in the region of the stubs nor right below the stack
pointer, and the words that `JHandler` reads for arguments are mapped. -/
structure SlotArg (uc : Unicorn) : Prop where
  args : uc.checkMemArea ((uc.regs .sp).toUInt64 + 16) 32 = true
  slot : uc.checkMemArea (uc.regs .r1).toUInt64 4 = true
  notStub : ∀ x, Within (uc.regs .r1).toUInt64 4 x → ¬InJvmRegion x
  notFrame : ∀ x, Within (uc.regs .r1).toUInt64 4 x → ¬Within (uc.regs .sp - 8).toUInt64 8 x

/-- The engine after such a function. -/
def withPointer (uc : Unicorn) (slot : UInt32) (ptr : Int64) : Unicorn :=
  finalState ((Unicorn.regWrite .r0 0).run (uc.store slot.toUInt64 (long2bytes ptr 4)))

theorem guestByte_withPointer {slot : UInt32} {ptr : Int64} {x : UInt64}
    (hx : ¬Within slot.toUInt64 4 x) : (withPointer uc slot ptr).guestByte x = uc.guestByte x := by
  have hstore : (uc.store slot.toUInt64 (long2bytes ptr 4)).guestByte x = uc.guestByte x :=
    Unicorn.guestByte_store_of_not_within hx
  exact hstore

theorem wordAt_withPointer {slot : UInt32} (ptr : Int64)
    (h : uc.checkMemArea slot.toUInt64 4 = true) :
    (withPointer uc slot ptr).wordAt slot.toUInt64 = some (low32 ptr) := by
  have hstored : (uc.store slot.toUInt64 (long2bytes ptr 4)).Holds slot (long2bytes ptr 4) :=
    ⟨h, readBytes_overwrite (show 4 ≤ 2 ^ 64 by decide)⟩
  exact (hstored.withRegs _).wordAt

variable {ptr : Int64}

/-- The words of the arguments, from the caller's point of view. -/
theorem argsReadable_atTrap (hstub : c.AtStub id) :
    NativeCallHelper.argsReadable (c.atTrap id).uc 12 =
      c.uc.checkMemArea ((c.uc.regs .sp).toUInt64 + 16) 32 := by
  have haddr : ((c.atTrap id).uc.regs .sp).toUInt64 + 24 = (c.uc.regs .sp).toUInt64 + 16 := by
    have hsub : ((c.atTrap id).uc.regs .sp).toUInt64.toNat = (c.uc.regs .sp).toNat - 8 :=
      hstub.toNat_sub
    have hroom : 8 ≤ (c.uc.regs .sp).toNat := hstub.room
    have h24 : (24 : UInt64).toNat = 24 := rfl
    have h16 : (16 : UInt64).toNat = 16 := rfl
    apply UInt64.toNat_inj.1
    rw [UInt64.toNat_add, UInt64.toNat_add, hsub, UInt32.toNat_toUInt64, h24, h16]
    omega
  rw [argsReadable_twelve, haddr]
  rfl

/-- The function is called with the pointer to the word in its second argument. -/
theorem stubDelivery_writePointer
    (hcallback : ∀ args, callback (.jvm func) (some args) = writePointer ptr args)
    (hslot : SlotArg c.uc) (hstub : c.AtStub id) :
    stubDelivery callback c func id =
      ⟨withPointer (c.atTrap id).uc (c.uc.regs .r1) ptr, false, c.calls ++ [.jvm func]⟩ := by
  have hread : NativeCallHelper.argsReadable (c.atTrap id).uc 12 = true :=
    (argsReadable_atTrap hstub).trans hslot.args
  obtain ⟨stackArgs, -, hargs⟩ := exists_readArgs (n := 12) (by decide) (by decide) hread
  have hwrite : (Unicorn.memWrite ((c.atTrap id).uc.regRead .r1) (long2bytes ptr 4)).run
      (c.atTrap id).uc = .ok ()
        ((c.atTrap id).uc.store (c.uc.regs .r1).toUInt64 (long2bytes ptr 4)) :=
    Unicorn.run_memWrite_of_mapped hslot.slot
  have hrun : (writePointer ptr ([ArmReg.r0, .r1, .r2, .r3].map (c.atTrap id).uc.regRead ++
      stackArgs)).run (c.atTrap id).uc = .ok ⟨true, 0⟩
        ((c.atTrap id).uc.store (c.uc.regs .r1).toUInt64 (long2bytes ptr 4)) := by
    rw [writePointer]
    exact bind_of_ok hwrite
  have hread' : (JCallHelper.readVaArgs func.acount).run (c.atTrap id).uc =
      .ok (some ([ArmReg.r0, .r1, .r2, .r3].map (c.atTrap id).uc.regRead ++ stackArgs))
        (c.atTrap id).uc := hargs
  simp only [stubDelivery, callFunc, hread', hcallback, hrun]
  rfl

/-- The stub finds its frame and its code again. -/
theorem OwnStub.keepsFrame {uc' : Unicorn} {id' : Int64}
    (h : OwnStub env uc' func (c.reg .pc) id') (hslot : SlotArg c.uc) (id : Int64) :
    Cpu.KeepsFrame (c.atTrap id).uc (withPointer (c.atTrap id).uc (c.uc.regs .r1) ptr) := by
  have hbounds := toInt_jvmHookMemory
  have hlow := h.low
  have hhigh := h.high
  refine ⟨rfl, rfl, fun x hx => ⟨guestByte_withPointer fun hin => hslot.notFrame x hin hx, rfl⟩,
    fun x hx => ⟨guestByte_withPointer fun hin => hslot.notStub x hin ?_, rfl⟩⟩
  have hpc : (c.atTrap id).uc.regs .pc = c.reg .pc + UInt32.ofNat 4 := Cpu.reg_pc_atTrap c id
  have hnat : (c.reg .pc + UInt32.ofNat 4).toUInt64.toNat = (c.reg .pc).toNat + 4 := by
    rw [UInt32.toNat_toUInt64, UInt32.toNat_add, UInt32.toNat_ofNat']
    omega
  rw [hpc, within_iff (by omega)] at hx
  exact ⟨by omega, by omega⟩

/-- What the guest gets from such a call: the pointer is in the word that it has named, and all
registers are as they were, but for the result and the return address. No memory is mapped, unmapped
or protected. -/
structure GotPointer (c c' : Cpu) (func : IJFunc) (ptr : Int64) (ret : UInt32) :
    Prop where
  pointer : c'.uc.wordAt (c.uc.regs .r1).toUInt64 = some (low32 ptr)
  status : c'.uc.regs .r0 = 0
  returned : bx ret = ⟨c'.thumb, c'.uc.regs .pc⟩
  regs : ∀ r, r ∉ [ArmReg.r0, .lr, .pc] → c'.uc.regs r = c.uc.regs r
  bytes : ∀ x, ¬Within (c.uc.regs .r1).toUInt64 4 x → ¬Within (c.uc.regs .sp - 8).toUInt64 8 x →
    c'.uc.guestByte x = c.uc.guestByte x
  regions : c'.uc.regions = c.uc.regions
  perms : c'.uc.perms = c.uc.perms
  calls : c'.calls = c.calls ++ [.jvm func]
  running : c'.stopped = false

/-- The stub of such a function. -/
theorem Leads.gotPointer (h : Leads env c.uc p idx func)
    (hcallback : ∀ args, callback (.jvm func) (some args) = writePointer ptr args)
    (hrunning : c.stopped = false) (hstack : StubRoom c.uc) (hslot : SlotArg c.uc) (ret : UInt32) :
    ∃ entry c', entryOf c.uc p idx = some entry ∧
      (∀ id, (c.call entry ret).AtStub id → ReturnsIntact callback (c.call entry ret) func id) ∧
      Cpu.run env callback 4 (c.call entry ret) = some c' ∧ GotPointer c c' func ptr ret := by
  obtain ⟨entry, stub, id, hentry, hbx, hown⟩ := h
  have hstub := hown.atStub hbx hrunning hstack ret
  have hslot' : SlotArg (c.call entry ret).uc :=
    ⟨hslot.args, hslot.slot, hslot.notStub, hslot.notFrame⟩
  have hpc : (c.call entry ret).reg .pc = stub := congrArg BranchTarget.pc hbx
  have hreturns : ∀ id', (c.call entry ret).AtStub id' →
      ReturnsIntact callback (c.call entry ret) func id' := by
    intro id' hstub' _
    rw [stubDelivery_writePointer hcallback hslot' hstub']
    exact (hpc ▸ hown).keepsFrame hslot' id'
  have hdeliver : ((c.call entry ret).atTrap id).deliver env callback = _ := hown.deliver hstub
  have hrun := Cpu.run_stub hstub hdeliver (hreturns id hstub)
  rw [stubDelivery_writePointer hcallback hslot' hstub] at hrun
  refine ⟨entry, _, hentry, hreturns, hrun, ?_⟩
  have hmapped : ((c.call entry ret).atTrap id).uc.checkMemArea (c.uc.regs .r1).toUInt64 4 = true :=
    hslot.slot
  have hword := wordAt_withPointer ptr hmapped
  refine ⟨hword, rfl, rfl, fun r hr => ?_, fun x hx hframe => ?_, rfl, rfl, rfl, rfl⟩
  · cases r <;> first | rfl | exact absurd (by decide) hr
  · have hpushed : ((c.call entry ret).atTrap id).uc.guestByte x = c.uc.guestByte x :=
      Cpu.guestByte_pushed (c := c.call entry ret) hframe
    exact (guestByte_withPointer hx).trans hpushed

/-- The words that such a call writes are not in the region of the stubs. -/
theorem GotPointer.intact {c' : Cpu} (h : GotPointer c c' func ptr ret)
    (hintact : Intact env c.uc) (hstack : StubRoom c.uc) (hslot : SlotArg c.uc) :
    Intact env c'.uc := by
  have hbounds := toInt_jvmHookMemory
  have hroom := hstack.room
  have hapart := hstack.apart
  have hlt := (c.uc.regs .sp).toNat_lt
  intro x hx
  have hperms : c'.uc.perms x = env.uc.perms x := (congrFun h.perms x).trans (hintact x hx).2
  refine ⟨?_, hperms⟩
  rw [← (hintact x hx).1]
  refine h.bytes x (fun hin => hslot.notStub x hin hx) fun hin => ?_
  have hsub : (c.uc.regs .sp - 8).toUInt64.toNat = (c.uc.regs .sp).toNat - 8 :=
    UInt32.toNat_sub_of_le _ _ (UInt32.le_iff_toNat_le.2 hroom)
  rw [within_iff (by omega), hsub] at hin
  obtain ⟨hlow, hhigh⟩ := hx
  omega

/-- `GetEnv` gives native code a pointer through which it can call all functions of the JNI
environment, and `GetJavaVM`, which is one of them, gives it back the pointer that it had before. -/
theorem getEnv_call (hregion : RegionReady uc)
    (hboot : bootTables.run (HookEnv.create uc) = .ok (jvm, jni) env)
    (hcallback : HasPointerCalls callback jvm jni) (hintact : Intact env c.uc)
    (hrunning : c.stopped = false) (hstack : StubRoom c.uc) (hslot : SlotArg c.uc)
    (ret : UInt32) :
    (∃ entry c', entryOf c.uc (low32 jvm.ptr) 6 = some entry ∧
      Cpu.run env callback 4 (c.call entry ret) = some c' ∧
      GotPointer c c' (jvmFunc 6) jni.ptr ret ∧
      ∀ idx, 4 ≤ idx → idx ≤ 232 → Leads env c'.uc (low32 jni.ptr) idx (jniFunc idx)) ∧
    ∃ entry c', entryOf c.uc (low32 jni.ptr) 219 = some entry ∧
      Cpu.run env callback 4 (c.call entry ret) = some c' ∧
      GotPointer c c' (jniFunc 219) jvm.ptr ret ∧
      ∀ idx, 5 ≤ idx → idx ≤ 7 → Leads env c'.uc (low32 jvm.ptr) idx (jvmFunc idx) := by
  have hbooted := booted_of_run hregion hboot
  constructor
  · have hleads : Leads env c.uc (low32 jvm.ptr) 6 (jvmFunc 6) :=
      leads_jvm hbooted hintact (by decide) (by decide)
    obtain ⟨entry, c', hentry, -, hrun, hgot⟩ :=
      hleads.gotPointer hcallback.getEnv hrunning hstack hslot ret
    exact ⟨entry, c', hentry, hrun, hgot, fun idx =>
      leads_jni hbooted (hgot.intact hintact hstack hslot)⟩
  · have hleads : Leads env c.uc (low32 jni.ptr) 219 (jniFunc 219) :=
      leads_jni hbooted hintact (by decide) (by decide)
    obtain ⟨entry, c', hentry, -, hrun, hgot⟩ :=
      hleads.gotPointer hcallback.getJavaVM hrunning hstack hslot ret
    exact ⟨entry, c', hentry, hrun, hgot, fun idx =>
      leads_jvm hbooted (hgot.intact hintact hstack hslot)⟩

theorem slotArg_nativeStart (hregions : env.uc.regions = MemoryManager.fresh.uc.regions) :
    SlotArg (nativeStart env).uc := by
  have hregions' : (nativeStart env).uc.regions = MemoryManager.fresh.uc.regions := hregions
  have hslot : (0xFFF80 : UInt32).toUInt64.toNat = 0xFFF80 := rfl
  have hframe : (0xFFF00 - 8 : UInt32).toUInt64.toNat = 0xFFEF8 := by decide
  have hbase : jvmHookMemoryBase.toInt = 0x30000000 := rfl
  constructor
  · rw [Unicorn.checkMemArea_congr hregions', sp_nativeStart]
    exact checkMemArea_stack_fresh (by decide)
  · rw [Unicorn.checkMemArea_congr hregions', r1_nativeStart]
    exact checkMemArea_stack_fresh (by decide)
  · intro x hx hin
    rw [r1_nativeStart, within_iff (by omega), hslot] at hx
    have hlow := hin.1
    omega
  · intro x hx hin
    rw [r1_nativeStart, within_iff (by omega), hslot] at hx
    rw [sp_nativeStart, within_iff (by omega), hframe] at hin
    omega

/-- The two functions, and others that do nothing. -/
def onlyPointers (jvm jni : TableRet) (func : Func) (args : Option (List Int64)) : UcM CallRet :=
  if func = .jvm (jvmFunc 6) then getEnv jni (args.getD [])
  else if func = .jvm (jniFunc 219) then getJavaVM jvm (args.getD [])
  else pure ⟨false, 0⟩

theorem hasPointerCalls_onlyPointers (jvm jni : TableRet) :
    HasPointerCalls (onlyPointers jvm jni) jvm jni :=
  ⟨fun _ => if_pos rfl, fun _ => (if_neg (by decide)).trans (if_pos rfl)⟩

/-- On a new engine. -/
theorem getEnv_call_fresh :
    ∃ jvm jni env, bootTables.run (HookEnv.create MemoryManager.fresh.uc) = .ok (jvm, jni) env ∧
      ∃ entry c', entryOf (nativeStart env).uc (low32 jvm.ptr) 6 = some entry ∧
        Cpu.run env (onlyPointers jvm jni) 4 ((nativeStart env).call entry 0xA0000001) = some c' ∧
        GotPointer (nativeStart env) c' (jvmFunc 6) jni.ptr 0xA0000001 := by
  obtain ⟨hregion, jvm, jni, env, hboot, -, hregions, hperms⟩ := exists_boot_fresh
  obtain ⟨⟨entry, c', hentry, hrun, hgot, -⟩, -⟩ := getEnv_call hregion hboot
    (hasPointerCalls_onlyPointers jvm jni) (intact_nativeStart env) rfl
    (stubRoom_nativeStart hregions hperms) (slotArg_nativeStart hregions) 0xA0000001
  exact ⟨jvm, jni, env, hboot, entry, c', hentry, hrun, hgot⟩

/-! ## Any number of calls -/

/-- The function at an index of the table that a pointer leads to. -/
inductive InTables (jvm jni : TableRet) : UInt32 → ℕ → IJFunc → Prop
  | jni {idx : ℕ} (hlow : 4 ≤ idx) (hhigh : idx ≤ 232) :
    InTables jvm jni (low32 jni.ptr) idx (jniFunc idx)
  | jvm {idx : ℕ} (hlow : 5 ≤ idx) (hhigh : idx ≤ 7) :
    InTables jvm jni (low32 jvm.ptr) idx (jvmFunc idx)

theorem InTables.leads (h : InTables jvm jni p idx func) (hbooted : Booted env jvm jni)
    (hintact : Intact env uc) : Leads env uc p idx func := by
  cases h with
  | jni hlow hhigh => exact leads_jni hbooted hintact hlow hhigh
  | jvm hlow hhigh => exact leads_jvm hbooted hintact hlow hhigh

/-- A call through one of the tables. -/
structure Turn where
  /-- What native code has called before by itself: the hooks react to every `MOV R4, R4` with an id
  in `R4`. -/
  own : List Func
  /-- Native code when it makes the call. -/
  caller : Cpu
  func : IJFunc

/-- All that is called until the end of the turn. -/
def Turn.calls (t : Turn) : List Func := t.own ++ [.jvm t.func]

/-- The words that `JHandler` reads for the arguments of the call. -/
def Turn.argsReadable (t : Turn) : Bool :=
  t.caller.uc.checkMemArea ((t.caller.uc.regs .sp).toUInt64 + 16) 32

/-- Native code has run on its own until it makes a call. -/
structure OwnCode (env : HookEnv) (c : Cpu) (t : Turn) : Prop where
  started : c.stopped = false
  running : t.caller.stopped = false
  calls : t.caller.calls = c.calls ++ t.own
  intact : Intact env t.caller.uc
  stack : StubRoom t.caller.uc

/-- Native code in turn with calls of functions through the tables. The functions leave alone what
their own stubs need to return. -/
inductive Session (env : HookEnv) (callback : Func → Option (List Int64) → UcM CallRet)
    (jvm jni : TableRet) : Cpu → List Turn → Cpu → Prop
  | done (c : Cpu) : Session env callback jvm jni c [] c
  | call {c c₁ c₂ : Cpu} {p entry ret : UInt32} {idx : ℕ} {t : Turn} {turns : List Turn}
    (hnative : OwnCode env c t) (hfunc : InTables jvm jni p idx t.func)
    (hentry : entryOf t.caller.uc p idx = some entry)
    (hreturns : ∀ id, (t.caller.call entry ret).AtStub id →
      ReturnsIntact callback (t.caller.call entry ret) t.func id)
    (hrun : Cpu.run env callback 4 (t.caller.call entry ret) = some c₁)
    (hrest : Session env callback jvm jni c₁ turns c₂) :
    Session env callback jvm jni c (t :: turns) c₂

/-- The function is called exactly if its arguments can be read; otherwise the engine is stopped. -/
theorem calls_stubDelivery (hstub : c.AtStub id) :
    (stubDelivery callback c func id).calls = c.calls ++ [.jvm func] ∨
      c.uc.checkMemArea ((c.uc.regs .sp).toUInt64 + 16) 32 = false ∧
        (stubDelivery callback c func id).stopped = true ∧
        (stubDelivery callback c func id).calls = c.calls := by
  rw [stubDelivery, callFunc, ← argsReadable_atTrap hstub]
  cases hreadable : NativeCallHelper.argsReadable (c.atTrap id).uc 12 with
  | false =>
    obtain ⟨err, herr⟩ := NativeCallHelper.run_readArgs_of_not_readable hreadable
    have hread : (JCallHelper.readVaArgs func.acount).run (c.atTrap id).uc = _ := herr
    rw [hread]
    exact .inr ⟨rfl, rfl, rfl⟩
  | true =>
    obtain ⟨args, hargs⟩ := NativeCallHelper.run_readArgs_of_readable hreadable
    have hread : (JCallHelper.readVaArgs func.acount).run (c.atTrap id).uc = _ := hargs
    rw [hread]
    dsimp only
    cases (callback (.jvm func) args).run (c.atTrap id).uc with
    | error err uc => exact .inl rfl
    | ok ret uc => exact .inl rfl

/-- One call: the function is called, or its arguments could not be read and the engine is
stopped. -/
theorem Leads.calls_call (h : Leads env c.uc p idx func) (hrunning : c.stopped = false)
    (hstack : StubRoom c.uc) (hentry : entryOf c.uc p idx = some entry)
    (hreturns : ∀ id, (c.call entry ret).AtStub id →
      ReturnsIntact callback (c.call entry ret) func id) {c' : Cpu}
    (hrun : Cpu.run env callback 4 (c.call entry ret) = some c') :
    c'.calls = c.calls ++ [.jvm func] ∨
      c.uc.checkMemArea ((c.uc.regs .sp).toUInt64 + 16) 32 = false ∧ c'.stopped = true ∧
        c'.calls = c.calls := by
  obtain ⟨entry', id, hentry', hstub, hcall⟩ := h.call callback hrunning hstack ret
  cases hentry.symm.trans hentry'
  have hresult := hcall (hreturns id hstub)
  rw [hrun, Option.some_inj] at hresult
  have hcalls : (stubDelivery callback (c.call entry ret) func id).calls = c.calls ++ [.jvm func] ∨
      c.uc.checkMemArea ((c.uc.regs .sp).toUInt64 + 16) 32 = false ∧
        (stubDelivery callback (c.call entry ret) func id).stopped = true ∧
        (stubDelivery callback (c.call entry ret) func id).calls = c.calls :=
    calls_stubDelivery hstub
  rw [hresult]
  cases hstopped : (stubDelivery callback (c.call entry ret) func id).stopped with
  | true =>
    rw [if_pos rfl]
    exact hcalls.imp_right fun h => ⟨h.1, hstopped, h.2.2⟩
  | false =>
    rw [if_neg Bool.false_ne_true]
    exact hcalls.imp_right fun h => absurd (hstopped.symm.trans h.2.1) Bool.false_ne_true

/-- A function that does nothing returns. -/
theorem returnsIntact_of_nothing
    (h : ∀ args uc, (callback (.jvm func) args).run uc = .ok ⟨false, 0⟩ uc) (hstub : c.AtStub id)
    (hargs : c.uc.checkMemArea ((c.uc.regs .sp).toUInt64 + 16) 32 = true) :
    ReturnsIntact callback c func id := by
  rw [← argsReadable_atTrap hstub] at hargs
  obtain ⟨args, hread⟩ := NativeCallHelper.run_readArgs_of_readable hargs
  have hread' : (JCallHelper.readVaArgs func.acount).run (c.atTrap id).uc = _ := hread
  intro _
  simp only [stubDelivery, callFunc, hread', h]
  exact ⟨rfl, rfl, fun _ _ => ⟨rfl, rfl⟩, fun _ _ => ⟨rfl, rfl⟩⟩

end Calls

end Tank
