import Tank.Hook.Hookers
import Tank.Memory.Pages
import Tank.Module.Modules

/-!
# System calls on memory

`mmap2`, `mprotect` and `munmap` of `Handler`. The arguments are the values of registers. With
`MAP_FIXED`, `mmap2` maps nothing and changes permissions like `mprotect`; both round the range with
`align`. Permissions are changed and pages are unmapped only in the mapping area, from `MAPPING_MIN`
to `MAPPING_MAX` (`Managed`), but `mmap` gives out pages of the modules.

What the calls return and do to the engine is said by `ProtectOutcome` (for `mprotect` and
`MAP_FIXED`), `mmap_eq_ok` and `UnmapOutcome`.
-/

namespace Tank

open ToMathlib MemoryManager

namespace Handler

/-- `mmap2`; the file and the offset are only logged. -/
def mmap2 (addr size : Int64) (prot flag : Int32) : EmuM CallRet := do
  if flag &&& 0x10 ≠ 0 then
    -- `MAP_FIXED`: the pages are taken to be mapped already.
    let c := align addr size true
    if c.addr = addr then
      liftMem (protect c.addr c.size prot)
      pure ⟨true, c.addr⟩
    else pure ⟨true, -1⟩
  else
    let value ← liftMem (mmap size prot)
    let emu ← get
    -- The word at address `0` is cleared if no module has the symbol.
    let errnoAddr ← getOrThrow (findCSymbol emu.modules "__errno")
    liftMem (liftUc (Unicorn.memWrite errnoAddr (long2bytes 0 4)))
    pure ⟨true, value⟩

/-- `mprotect` -/
def mprotect (addr len : Int64) (prot : Int32) : EmuM CallRet := do
  let c := align addr len true
  if c.addr = addr then
    liftMem (protect c.addr c.size prot)
    pure ⟨true, 0⟩
  else pure ⟨true, -1⟩

/-- `munmap` -/
def munmap (addr size : Int64) : EmuM CallRet := do
  liftMem (unmap addr size)
  pure ⟨false, 0⟩

end Handler

/-- An argument of a system call: a register, read without sign. -/
def syscallArg (value : UInt32) : Int64 := value.toUInt64.toInt64

/-- A system call on memory with its arguments. -/
inductive MemSyscall where
  | mmap2 (addr size prot flags : UInt32)
  | mprotect (addr len prot : UInt32)
  | munmap (addr size : UInt32)

def MemSyscall.code : MemSyscall → EmuM CallRet
  | .mmap2 addr size prot flags =>
    Handler.mmap2 (syscallArg addr) (syscallArg size) prot.toInt32 flags.toInt32
  | .mprotect addr len prot => Handler.mprotect (syscallArg addr) (syscallArg len) prot.toInt32
  | .munmap addr size => Handler.munmap (syscallArg addr) (syscallArg size)

/-- The engine of the emulator. -/
abbrev Emulator.uc (emu : Emulator) : Unicorn := emu.memory.uc

/-- The emulator with another state of its engine. -/
def Emulator.withUc (emu : Emulator) (uc : Unicorn) : Emulator :=
  { emu with memory := { emu.memory with uc } }

theorem run_engine_of_ok {α : Type} {m : UcM α} {a : α} {emu : Emulator} {uc : Unicorn}
    (h : m.run emu.uc = .ok a uc) : (liftMem (liftUc m)).run emu = .ok a (emu.withUc uc) := by
  simp only [EStateM.run, liftMem, liftUc] at h ⊢
  rw [h]
  rfl

theorem run_engine_of_error {α : Type} {m : UcM α} {err : JavaException} {emu : Emulator}
    {uc : Unicorn} (h : m.run emu.uc = .error err uc) :
    (liftMem (liftUc m)).run emu = .error err (emu.withUc uc) := by
  simp only [EStateM.run, liftMem, liftUc] at h ⊢
  rw [h]
  rfl

theorem engine_eq_ok {α : Type} {m : UcM α} {a : α} {emu emu' : Emulator}
    (h : (liftMem (liftUc m)).run emu = .ok a emu') :
    ∃ uc, m.run emu.uc = .ok a uc ∧ emu' = emu.withUc uc := by
  cases hrun : m.run emu.uc with
  | ok b uc =>
    rw [run_engine_of_ok hrun] at h
    cases h
    exact ⟨uc, rfl, rfl⟩
  | error err uc =>
    rw [run_engine_of_error hrun] at h
    cases h

/-! ## Arguments -/

variable {addr size prot flags : UInt32} {emu : Emulator} {x : UInt64}

theorem toInt_syscallArg (value : UInt32) : (syscallArg value).toInt = value.toNat :=
  toInt_toInt64_toUInt64 value

theorem syscallArg_ne_neg_one (value : UInt32) : syscallArg value ≠ -1 := by
  intro h
  have hint := toInt_syscallArg value
  have hneg : (-1 : Int64).toInt = -1 := rfl
  rw [h, hneg] at hint
  omega

/-- The pages that a range is rounded to. -/
def syscallPages (addr size : UInt32) : MemChunk := align (syscallArg addr) (syscallArg size) true

theorem syscallArg_bounds (addr size : UInt32) :
    0 ≤ (syscallArg addr).toInt ∧ 0 ≤ (syscallArg size).toInt ∧
      pageEnd ((syscallArg addr).toInt + (syscallArg size).toInt) < 2 ^ 63 := by
  have haddr := addr.toNat_lt
  have hsize := size.toNat_lt
  rw [toInt_syscallArg, toInt_syscallArg, pageEnd]
  omega

theorem syscallPages_isLow (addr size : UInt32) : (syscallPages addr size).IsLow := by
  obtain ⟨haddr, hsize, hend⟩ := syscallArg_bounds addr size
  exact align_isLow haddr hsize hend

theorem syscallPages_isPaged (addr size : UInt32) : (syscallPages addr size).IsPaged := by
  obtain ⟨haddr, hsize, hend⟩ := syscallArg_bounds addr size
  exact align_isPaged haddr hsize (lt_trans (lt_pageEnd _) hend)

theorem syscallPages_addr_eq_iff (addr size : UInt32) :
    (syscallPages addr size).addr = syscallArg addr ↔ 0x1000 ∣ addr.toNat := by
  obtain ⟨haddr, hsize, hend⟩ := syscallArg_bounds addr size
  rw [syscallPages, align_addr_eq_iff haddr, toInt_syscallArg]
  omega

theorem contains_syscallPages_iff (hdvd : 0x1000 ∣ addr.toNat) :
    (syscallPages addr size).region.contains x = true ↔
      MeetsPage addr.toNat size.toNat x ∨ InPageAfter addr.toNat size.toNat x := by
  obtain ⟨haddr, hsize, hend⟩ := syscallArg_bounds addr size
  rw [syscallPages, contains_align_iff haddr hsize hend (by rw [toInt_syscallArg]; omega),
    toInt_syscallArg, toInt_syscallArg]

/-! ## Protecting pages -/

/-- The addresses from `lo` up to `hi` lie in the mapping area. -/
def Managed (lo hi : ℤ) : Prop := mappingMin.toInt ≤ lo ∧ hi ≤ mappingMax.toInt

instance (lo hi : ℤ) : Decidable (Managed lo hi) := inferInstanceAs (Decidable (_ ∧ _))

/-- The test of `unmap` and `protect` in integers. -/
theorem managed_iff {a n : Int64} (ha : 0 ≤ a.toInt) (hn : 0 ≤ n.toInt)
    (hlt : a.toInt + n.toInt < 2 ^ 63) :
    (a ≥ mappingMin ∧ a + n ≤ mappingMax) ↔ Managed a.toInt (a.toInt + n.toInt) := by
  rw [ge_iff_le, Int64.le_iff_toInt_le, Int64.le_iff_toInt_le,
    toInt_add_of_bounds (by omega) hlt, Managed]

theorem protect_test_iff (size : UInt32) (hdvd : 0x1000 ∣ addr.toNat) :
    ((syscallPages addr size).addr ≥ mappingMin ∧
      (syscallPages addr size).addr + (syscallPages addr size).size ≤ mappingMax) ↔
        Managed addr.toNat (pageEnd (addr.toNat + size.toNat)) := by
  obtain ⟨haddr, hsize, hend⟩ := syscallArg_bounds addr size
  have hlow := syscallPages_isLow addr size
  have hstop : (syscallPages addr size).addr.toInt + (syscallPages addr size).size.toInt =
      pageEnd (addr.toNat + size.toNat) := by
    rw [syscallPages, align_end haddr hsize hend, toInt_syscallArg, toInt_syscallArg]
  rw [toInt_syscallArg, toInt_syscallArg] at hend
  rw [managed_iff hlow.addr hlow.size.le (by omega), hstop,
    (syscallPages_addr_eq_iff addr size).2 hdvd, toInt_syscallArg]

/-- The permissions of the pages of a range can be changed. -/
def CanProtect (uc : Unicorn) (addr size prot : UInt32) : Prop :=
  uc.Granted (syscallPages addr size) prot.toInt32

/-- What `mprotect` and `mmap2` with `MAP_FIXED` do with a range that starts with a page. -/
def protectPages (addr size prot : UInt32) (value : Int64) : EmuM CallRet := do
  liftMem (protect (syscallPages addr size).addr (syscallPages addr size).size prot.toInt32)
  pure ⟨true, value⟩

/-- What a call that changes permissions can end in: `mprotect`, which returns `0`, or `mmap2` with
`MAP_FIXED`, which returns the address. -/
inductive ProtectOutcome (emu : Emulator) (addr size prot : UInt32) (value : Int64) :
    EStateM.Result JavaException Emulator CallRet → Prop where
  | unaligned (hdvd : ¬0x1000 ∣ addr.toNat) :
    ProtectOutcome emu addr size prot value (.ok ⟨true, -1⟩ emu)
  -- Outside of the mapping area the call does nothing and returns as if it had.
  | ignored (hdvd : 0x1000 ∣ addr.toNat)
      (hmanaged : ¬Managed addr.toNat (pageEnd (addr.toNat + size.toNat))) :
    ProtectOutcome emu addr size prot value (.ok ⟨true, value⟩ emu)
  | changed (hdvd : 0x1000 ∣ addr.toNat)
      (hmanaged : Managed addr.toNat (pageEnd (addr.toNat + size.toNat)))
      (hcan : CanProtect emu.uc addr size prot) :
    ProtectOutcome emu addr size prot value (.ok ⟨true, value⟩
      (emu.withUc (emu.uc.setPerms (syscallPages addr size).region prot)))
  | refused (hdvd : 0x1000 ∣ addr.toNat)
      (hmanaged : Managed addr.toNat (pageEnd (addr.toNat + size.toNat)))
      (hcan : ¬CanProtect emu.uc addr size prot) (err : JavaException) :
    ProtectOutcome emu addr size prot value (.error err emu)

theorem protectOutcome_protectPages (emu : Emulator) (size prot : UInt32) (value : Int64)
    (hdvd : 0x1000 ∣ addr.toNat) :
    ProtectOutcome emu addr size prot value ((protectPages addr size prot value).run emu) := by
  have hlow := syscallPages_isLow addr size
  have hpaged := syscallPages_isPaged addr size
  have htest := protect_test_iff size hdvd
  rw [protectPages, protect]
  by_cases hmanaged : Managed addr.toNat (pageEnd (addr.toNat + size.toNat))
  · rw [if_pos (htest.2 hmanaged)]
    by_cases hcan : CanProtect emu.uc addr size prot
    · have hrun := Unicorn.run_memProtect_of_granted hlow hpaged hcan
      rw [bind_of_ok (run_engine_of_ok hrun)]
      exact .changed hdvd hmanaged hcan
    · obtain ⟨err, hrun⟩ := Unicorn.run_memProtect_of_not_granted hlow hpaged hcan
      rw [bind_of_error (run_engine_of_error hrun)]
      exact .refused hdvd hmanaged hcan err
  · rw [if_neg fun h => hmanaged (htest.1 h)]
    exact .ignored hdvd hmanaged

section ProtectOutcome

variable {value : Int64} {r : EStateM.Result JavaException Emulator CallRet}

/-- Permissions that cannot be changed stay as they are. -/
theorem ProtectOutcome.finalState_eq (h : ProtectOutcome emu addr size prot value r)
    (hnot : 0x1000 ∣ addr.toNat → Managed addr.toNat (pageEnd (addr.toNat + size.toNat)) →
      ¬CanProtect emu.uc addr size prot) : finalState r = emu := by
  cases h with
  | unaligned hdvd => rfl
  | ignored hdvd hmanaged => rfl
  | changed hdvd hmanaged hcan => exact absurd hcan (hnot hdvd hmanaged)
  | refused hdvd hmanaged hcan err => rfl

theorem ProtectOutcome.finalState_of_can (h : ProtectOutcome emu addr size prot value r)
    (hdvd : 0x1000 ∣ addr.toNat)
    (hmanaged : Managed addr.toNat (pageEnd (addr.toNat + size.toNat)))
    (hcan : CanProtect emu.uc addr size prot) :
    finalState r = emu.withUc (emu.uc.setPerms (syscallPages addr size).region prot) := by
  cases h with
  | unaligned hdvd' => exact absurd hdvd hdvd'
  | ignored _ hmanaged' => exact absurd hmanaged hmanaged'
  | changed => rfl
  | refused _ _ hcan' => exact absurd hcan hcan'

end ProtectOutcome

/-! ## The calls -/

/-- The `MAP_FIXED` flag. -/
def isFixed (flags : UInt32) : Bool := flags.toInt32 &&& 0x10 ≠ 0

theorem protectOutcome_mmap2 (emu : Emulator) (addr size prot : UInt32)
    (hfixed : isFixed flags = true) :
    ProtectOutcome emu addr size prot (syscallArg addr)
      ((MemSyscall.mmap2 addr size prot flags).code.run emu) := by
  -- The rounded range starts at the address exactly if that is the start of a page.
  have hiff := syscallPages_addr_eq_iff addr size
  rw [MemSyscall.code, Handler.mmap2, if_pos (of_decide_eq_true hfixed)]
  show ProtectOutcome _ _ _ _ _ (EStateM.run (if (syscallPages addr size).addr = syscallArg addr
    then protectPages addr size prot (syscallPages addr size).addr else pure ⟨true, -1⟩) emu)
  by_cases hdvd : 0x1000 ∣ addr.toNat
  · rw [if_pos (hiff.2 hdvd), hiff.2 hdvd]
    exact protectOutcome_protectPages emu size prot _ hdvd
  · rw [if_neg (hiff.not.2 hdvd)]
    exact .unaligned hdvd

theorem protectOutcome_mprotect (emu : Emulator) (addr len prot : UInt32) :
    ProtectOutcome emu addr len prot 0 ((MemSyscall.mprotect addr len prot).code.run emu) := by
  have hiff := syscallPages_addr_eq_iff addr len
  rw [MemSyscall.code, Handler.mprotect]
  show ProtectOutcome _ _ _ _ _ (EStateM.run (if (syscallPages addr len).addr = syscallArg addr
    then protectPages addr len prot 0 else pure ⟨true, -1⟩) emu)
  by_cases hdvd : 0x1000 ∣ addr.toNat
  · rw [if_pos (hiff.2 hdvd)]
    exact protectOutcome_protectPages emu len prot 0 hdvd
  · rw [if_neg (hiff.not.2 hdvd)]
    exact .unaligned hdvd

/-- What `mmap2` does without `MAP_FIXED` after the pages are mapped. -/
def clearErrno : EmuM Unit := do
  let emu ← get
  let errnoAddr ← getOrThrow (findCSymbol emu.modules "__errno")
  liftMem (liftUc (Unicorn.memWrite errnoAddr (long2bytes 0 4)))

theorem code_mmap2_of_not_isFixed (addr size prot : UInt32) (hfixed : isFixed flags = false) :
    (MemSyscall.mmap2 addr size prot flags).code =
      liftMem (mmap (syscallArg size) prot.toInt32) >>= fun value =>
        clearErrno >>= fun _ => pure ⟨true, value⟩ := by
  rw [MemSyscall.code, Handler.mmap2, if_neg (of_decide_eq_false hfixed)]
  simp only [clearErrno, bind_assoc]

/-- Code of the memory manager as code of the emulator. -/
theorem keeps_liftMem_uc {R : Unicorn → Unicorn → Prop} {α : Type} {m : MemM α}
    (h : Keeps (fun s s' : MemoryManager => R s.uc s'.uc) m) :
    Keeps (fun emu emu' : Emulator => R emu.uc emu'.uc) (liftMem m) := by
  rw [liftMem_eq_zoom]
  exact h.zoom fun _ _ hR => hR

section Acquires

variable {P : UInt64 → UInt32 → Prop}

/-- `Unicorn.Acquires` for the engine of the emulator. -/
abbrev Emulator.Acquires (P : UInt64 → UInt32 → Prop) : Emulator → Emulator → Prop :=
  InvImage (Unicorn.Acquires P) Emulator.uc

theorem keeps_clearErrno : Keeps (Emulator.Acquires P) clearErrno := by
  refine Keeps.get_bind fun emu => ?_
  refine Keeps.bind (Keeps.getOrThrow _) fun _ => ?_
  exact keeps_liftMem_uc (keeps_liftUc (Unicorn.keeps_memWrite_acquires _ _))

end Acquires

/-- What `mmap` returns and what it has mapped. -/
theorem mmap_eq_ok {s s' : MemoryManager} {n value : Int64} {p : Int32}
    (h : (mmap n p).run s = .ok value s') :
    ∃ chunk, (s.incrementalAllocator.reserve n).2 = .ok chunk ∧ value = chunk.addr ∧
      s.uc.memMapCheck chunk.region p.toUInt32 = none ∧
      s'.uc = s.uc.mapChunk chunk p.toUInt32 := by
  rcases hreserve : (s.incrementalAllocator.reserve n).2 with err | chunk
  · rw [mmap, bind_of_error (reserveModule_of_error hreserve)] at h
    cases h
  · rw [mmap, bind_of_ok (reserveModule_of_ok hreserve)] at h
    obtain ⟨_, s₂, hmap, h₂⟩ := bind_eq_ok h
    cases h₂
    simp only [EStateM.run, liftUc, Unicorn.memMap] at hmap
    rcases hcheck : s.uc.memMapCheck chunk.region p.toUInt32 with _ | err
    · rw [hcheck] at hmap
      cases hmap
      exact ⟨chunk, rfl, rfl, hcheck, rfl⟩
    · rw [hcheck] at hmap
      cases hmap

theorem keeps_mmap {P : UInt64 → UInt32 → Prop} {p : Int32} (hP : ∀ x, P x p.toUInt32)
    (n : Int64) :
    Keeps (InvImage (Unicorn.Acquires P) MemoryManager.uc) (mmap n p) := by
  refine Keeps.bind (fun s => ?_) fun chunk => ?_
  · rcases hreserve : (s.incrementalAllocator.reserve n).2 with err | chunk
    · rw [reserveModule_of_error hreserve]
      exact .of_eq rfl rfl
    · rw [reserveModule_of_ok hreserve]
      exact .of_eq rfl rfl
  · refine Keeps.bind ?_ fun _ => Keeps.pure _
    exact keeps_liftUc (Unicorn.keeps_memMap_acquires fun x _ => hP x)

/-- Without `MAP_FIXED` everything that is mapped gets the permissions asked for. -/
theorem keeps_mmap2_of_not_isFixed (addr size prot : UInt32) (hfixed : isFixed flags = false) :
    Keeps (Emulator.Acquires fun _ p => p = prot) (MemSyscall.mmap2 addr size prot flags).code := by
  rw [code_mmap2_of_not_isFixed addr size prot hfixed]
  have hmmap := keeps_mmap (P := fun _ p => p = prot) (p := prot.toInt32) (fun _ => rfl)
    (syscallArg size)
  refine Keeps.bind (keeps_liftMem_uc hmmap) fun _ => ?_
  exact Keeps.bind keeps_clearErrno fun _ => Keeps.pure _

/-- The range of a call of `munmap`. -/
def unmapRange (addr size : UInt32) : MemChunk := ⟨syscallArg addr, syscallArg size⟩

theorem unmapRange_isLow (hsize : size ≠ 0) : (unmapRange addr size).IsLow := by
  have haddr := addr.toNat_lt
  have hlt := size.toNat_lt
  have hpos : 0 < size.toNat := by
    have hne : size.toNat ≠ (0 : UInt32).toNat := fun h => hsize (UInt32.toNat_inj.1 h)
    exact Nat.pos_of_ne_zero hne
  have haddr' : (unmapRange addr size).addr.toInt = addr.toNat := toInt_syscallArg addr
  have hsize' : (unmapRange addr size).size.toInt = size.toNat := toInt_syscallArg size
  exact ⟨by omega, by omega, by omega⟩

/-- The range of a call, if it is not empty, is an interval. -/
theorem contains_unmapRange_iff (hsize : size ≠ 0) :
    (unmapRange addr size).region.contains x = true ↔
      addr.toNat ≤ x.toNat ∧ x.toNat < addr.toNat + size.toNat := by
  have haddr : (unmapRange addr size).addr.toInt = addr.toNat := toInt_syscallArg addr
  have hsize' : (unmapRange addr size).size.toInt = size.toNat := toInt_syscallArg size
  rw [MemChunk.contains_region (unmapRange_isLow hsize), MemChunk.Contains, haddr, hsize']
  omega

/-- The engine unmaps the range of a call: it consists of pages of the engine, which are smaller
than those of the emulator, and all of it is mapped. -/
def CanUnmap (uc : Unicorn) (addr size : UInt32) : Prop :=
  0x400 ∣ addr.toNat ∧ 0x400 ∣ size.toNat ∧
    ∀ x : UInt64, addr.toNat ≤ x.toNat → x.toNat < addr.toNat + size.toNat → uc.mapped x = true

theorem unmappable_iff {uc : Unicorn} (hsize : size ≠ 0) :
    uc.Unmappable (unmapRange addr size) ↔ CanUnmap uc addr size := by
  have haddr : (unmapRange addr size).addr.toInt = addr.toNat := toInt_syscallArg addr
  have hsize' : (unmapRange addr size).size.toInt = size.toNat := toInt_syscallArg size
  rw [Unicorn.Unmappable, CanUnmap, haddr, hsize', show (0x400 : ℤ) = ((0x400 : ℕ) : ℤ) from rfl,
    Int.natCast_dvd_natCast, Int.natCast_dvd_natCast]
  simp only [contains_unmapRange_iff hsize, and_imp]

/-- What a call of `munmap` can end in. -/
inductive UnmapOutcome (emu : Emulator) (addr size : UInt32) :
    EStateM.Result JavaException Emulator CallRet → Prop where
  -- Outside of the mapping area, and for an empty range, nothing is done.
  | ignored (hor : ¬Managed addr.toNat (addr.toNat + size.toNat) ∨ size = 0) :
    UnmapOutcome emu addr size (.ok ⟨false, 0⟩ emu)
  | removed (hmanaged : Managed addr.toNat (addr.toNat + size.toNat)) (hsize : size ≠ 0)
      (hcan : CanUnmap emu.uc addr size) :
    UnmapOutcome emu addr size (.ok ⟨false, 0⟩
      (emu.withUc (emu.uc.removeBlock (unmapRange addr size).region)))
  | refused (hmanaged : Managed addr.toNat (addr.toNat + size.toNat))
      (hcan : ¬CanUnmap emu.uc addr size) (err : JavaException) :
    UnmapOutcome emu addr size (.error err emu)

theorem unmapOutcome_munmap (emu : Emulator) (addr size : UInt32) :
    UnmapOutcome emu addr size ((MemSyscall.munmap addr size).code.run emu) := by
  have haddr := toInt_syscallArg addr
  have hsize := toInt_syscallArg size
  have hlt := addr.toNat_lt
  have hlt' := size.toNat_lt
  have htest := managed_iff (a := syscallArg addr) (n := syscallArg size) (by omega) (by omega)
    (by omega)
  rw [haddr, hsize] at htest
  rw [MemSyscall.code, Handler.munmap, unmap]
  by_cases hmanaged : Managed addr.toNat (addr.toNat + size.toNat)
  · rw [if_pos (htest.2 hmanaged)]
    by_cases hempty : size = 0
    · -- The engine takes an empty range for done.
      subst hempty
      have hrun : (Unicorn.memUnmap ⟨syscallArg addr, syscallArg 0⟩).run emu.uc = .ok () emu.uc :=
        rfl
      rw [bind_of_ok (run_engine_of_ok hrun)]
      exact .ignored (.inr rfl)
    · have hlow : (unmapRange addr size).IsLow := unmapRange_isLow hempty
      rcases emu.uc.run_memUnmap hlow with ⟨hcan, hrun⟩ | ⟨hcan, err, hrun⟩
      · rw [unmapRange] at hrun
        rw [bind_of_ok (run_engine_of_ok hrun)]
        exact .removed hmanaged hempty ((unmappable_iff hempty).1 hcan)
      · rw [unmapRange] at hrun
        rw [bind_of_error (run_engine_of_error hrun)]
        exact .refused hmanaged (fun h => hcan ((unmappable_iff hempty).2 h)) err
  · rw [if_neg fun h => hmanaged (htest.1 h)]
    exact .ignored (.inl hmanaged)

end Tank
