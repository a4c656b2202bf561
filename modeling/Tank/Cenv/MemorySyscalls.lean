import Tank.Cenv.Handler
import Tank.Module.Symbols
import Tank.ToMathlib.Trace

/-!
# What memory system calls have done when they return

A call that returns success should have done its work: after `mmap2` the pages are mapped with the
permissions asked for, after `mprotect` exactly the pages of the range have the new permissions, and
after `munmap` of pages that `mmap2` has returned nothing is mapped there.

`mmap2` without `MAP_FIXED` does so. The other calls do nothing outside of the mapping area and
still return success; `mmap2` never returns pages of that area by itself. In the mapping area
`munmap` may leave a part of a page, because the pages of the engine are smaller.

## Main results

* `takesEffect_iff`: when a call takes effect, in every state.
* `syscalls_take_effect_iff`: the same for all calls of a run.
* `syscalls_without_effect` are four calls that do not.
* `mmap2_keeps_memory_iff`: what else `mmap2` does. It means to clear `errno`, and clears a word of
  the function that would return its address, or of the stack.
-/

namespace Tank

open ToMathlib MemoryManager

/-- The emulator and the ranges that `mmap2` has returned, with the sizes that were asked for. -/
structure SyscallState where
  emu : Emulator
  /-- A history that nothing reads. -/
  returned : List (Int64 × UInt32)

namespace SyscallState

/-- The state after a call, which may also have thrown. -/
def step (s : SyscallState) (call : MemSyscall) : SyscallState :=
  match call, call.code.run s.emu with
  | .mmap2 _ size _ _, .ok ret emu =>
    ⟨emu, if ret.value = -1 then s.returned else (ret.value, size) :: s.returned⟩
  | _, .ok _ emu => ⟨emu, s.returned⟩
  | _, .error _ emu => ⟨emu, s.returned⟩

/-- A call that returned success has done its work. -/
def TakesEffect (s : SyscallState) (call : MemSyscall) : Prop :=
  ∀ ret emu', call.code.run s.emu = .ok ret emu' →
    match call with
    | .mmap2 _ size prot _ => ret.value ≠ -1 → ∀ x, MeetsPage ret.value.toInt size.toNat x →
        emu'.uc.mapped x = true ∧ emu'.uc.perms x = prot
    | .mprotect addr len prot => ret.value = 0 →
        (∀ x, MeetsPage addr.toNat len.toNat x → s.emu.uc.mapped x = true) →
        ∀ x, s.emu.uc.mapped x = true → emu'.uc.perms x =
          if MeetsPage addr.toNat len.toNat x then prot else s.emu.uc.perms x
    | .munmap addr size => (syscallArg addr, size) ∈ s.returned →
        ∀ x, MeetsPage addr.toNat size.toNat x → emu'.uc.mapped x = false

/-- Outside of the mapping area there is nothing left to do. Inside it, a range whose permissions
are changed does not end with a page, or the page after it has the new permissions already; and of
the pages that meet a range that is unmapped, nothing else is mapped. -/
def Regular (s : SyscallState) : MemSyscall → Prop
  | .mmap2 addr size prot flags => isFixed flags = true → 0x1000 ∣ addr.toNat →
      ¬Managed addr.toNat (pageEnd (addr.toNat + size.toNat)) →
      ∀ x, MeetsPage addr.toNat size.toNat x →
        s.emu.uc.mapped x = true ∧ s.emu.uc.perms x = prot
  | .mprotect addr len prot => 0x1000 ∣ addr.toNat →
      if Managed addr.toNat (pageEnd (addr.toNat + len.toNat)) then
        CanProtect s.emu.uc addr len prot →
          ∀ x, InPageAfter addr.toNat len.toNat x → s.emu.uc.perms x = prot
      else
        (∀ x, MeetsPage addr.toNat len.toNat x → s.emu.uc.mapped x = true) →
          ∀ x, MeetsPage addr.toNat len.toNat x → s.emu.uc.perms x = prot
  | .munmap addr size => (syscallArg addr, size) ∈ s.returned →
      if Managed addr.toNat (addr.toNat + size.toNat) then
        CanUnmap s.emu.uc addr size → ∀ x, MeetsPage addr.toNat size.toNat x →
          ¬(addr.toNat ≤ x.toNat ∧ x.toNat < addr.toNat + size.toNat) → s.emu.uc.mapped x = false
      else ∀ x, MeetsPage addr.toNat size.toNat x → s.emu.uc.mapped x = false

variable {s : SyscallState} {addr size prot flags : UInt32}

/-! ## Where the allocator stands -/

/-- The next pages that `mmap` gives out start with a page. -/
def OnPage (emu : Emulator) : Prop := 0x1000 ∣ emu.memory.incrementalAllocator.pos.toInt

/-- `reserve` takes whole pages, also if the sum wraps. -/
theorem dvd_pos_reserve {a : IncrementalAllocator} {n : Int64} (ha : 0x1000 ∣ a.pos.toInt)
    (hn : 0 ≤ n.toInt) : 0x1000 ∣ (a.reserve n).1.pos.toInt := by
  rw [IncrementalAllocator.reserve_fst, Int64.toInt_add,
    IncrementalAllocator.size_align_zero_eq_bmod hn, Int.add_bmod_bmod, pageEnd, Int.bmod_def]
  split <;> omega

/-- Code of the engine does not move the allocator. -/
theorem onPage_engine {α : Type} (m : UcM α) :
    Keeps (fun emu emu' => OnPage emu → OnPage emu') (liftMem (liftUc m)) := by
  intro emu h
  cases hrun : m.run emu.uc with
  | ok a uc =>
    rw [run_engine_of_ok hrun]
    exact h
  | error err uc =>
    rw [run_engine_of_error hrun]
    exact h

theorem onPage_mmap (n : Int64) (hn : 0 ≤ n.toInt) (p : Int32) :
    Keeps (fun emu emu' => OnPage emu → OnPage emu') (liftMem (mmap n p)) := by
  intro emu h
  have hkeeps : Keeps (fun s s' : MemoryManager =>
      0x1000 ∣ s.incrementalAllocator.pos.toInt → 0x1000 ∣ s'.incrementalAllocator.pos.toInt)
      (mmap n p) := by
    refine Keeps.bind (fun s hs => ?_) fun chunk => ?_
    · have hnext := dvd_pos_reserve hs hn
      rw [run_reserveModule]
      cases (s.incrementalAllocator.reserve n).2 <;> exact hnext
    · refine Keeps.bind (fun s hs => ?_) fun _ _ hs => hs
      rw [finalState_liftUc]
      exact hs
  have hmemory := hkeeps emu.memory h
  simp only [EStateM.run, liftMem] at hmemory ⊢
  cases hrun : mmap n p emu.memory <;> rw [hrun] at hmemory <;> exact hmemory

theorem onPage_protect (a n : Int64) (p : Int32) :
    Keeps (fun emu emu' => OnPage emu → OnPage emu') (liftMem (protect a n p)) := by
  rw [protect]
  split
  · exact onPage_engine _
  · exact fun _ h => h

theorem onPage_unmap (a n : Int64) :
    Keeps (fun emu emu' => OnPage emu → OnPage emu') (liftMem (unmap a n)) := by
  rw [unmap]
  split
  · exact onPage_engine _
  · exact fun _ h => h

theorem onPage_code (call : MemSyscall) :
    Keeps (fun emu emu' => OnPage emu → OnPage emu') call.code := by
  cases call with
  | mmap2 addr size prot flags =>
    rcases hfixed : isFixed flags with _ | _
    · have hsize : 0 ≤ (syscallArg size).toInt := by
        rw [toInt_syscallArg]
        omega
      rw [code_mmap2_of_not_isFixed addr size prot hfixed]
      refine Keeps.bind (onPage_mmap _ hsize _) fun value => ?_
      refine Keeps.bind (Keeps.get_bind fun emu => ?_) fun _ => .pure _
      exact Keeps.bind (Keeps.getOrThrow _) fun _ => onPage_engine _
    · rw [MemSyscall.code, Handler.mmap2, if_pos (of_decide_eq_true hfixed)]
      dsimp only
      split
      · exact Keeps.bind (onPage_protect _ _ _) fun _ => .pure _
      · exact .pure _
  | mprotect addr len prot =>
    rw [MemSyscall.code, Handler.mprotect]
    split
    · exact Keeps.bind (onPage_protect _ _ _) fun _ => .pure _
    · exact .pure _
  | munmap addr size => exact Keeps.bind (onPage_unmap _ _) fun _ => .pure _

theorem emu_step (s : SyscallState) (call : MemSyscall) :
    (s.step call).emu = finalState (call.code.run s.emu) := by
  generalize hrun : call.code.run s.emu = r
  cases call <;> cases r <;> simp only [step, hrun, finalState]

theorem onPage_step (s : SyscallState) (call : MemSyscall) (h : OnPage s.emu) :
    OnPage (s.step call).emu := by
  rw [emu_step]
  exact onPage_code call s.emu h

/-! ## One call -/

/-- The pages that meet the range returned by `mmap` are those of the chunk. -/
theorem contains_of_meetsPage {a : IncrementalAllocator} {chunk : MemChunk} {uc : Unicorn}
    {perms : UInt32} {x : UInt64} (hpage : 0x1000 ∣ a.pos.toInt)
    (hreserve : (a.reserve (syscallArg size)).2 = .ok chunk)
    (hcheck : uc.memMapCheck chunk.region perms = none)
    (hx : MeetsPage chunk.addr.toInt size.toNat x) : chunk.region.contains x = true := by
  have hlt := size.toNat_lt
  have harg := toInt_syscallArg size
  have hend : pageEnd (syscallArg size).toInt < 2 ^ 63 := by
    rw [harg, pageEnd]
    omega
  have hsize := IncrementalAllocator.size_align_zero (by omega) hend
  have hchunk : chunk.size = (align 0 (syscallArg size) true).size := by
    rw [IncrementalAllocator.eq_of_reserve_eq_ok hreserve]
  have hdvd : 0x1000 ∣ chunk.addr.toInt := by
    rwa [IncrementalAllocator.eq_of_reserve_eq_ok hreserve]
  obtain ⟨hpos, hwrap, -, -⟩ := Unicorn.memMapCheck_eq_none hcheck
  have haddr : (chunk.region.addr.toNat : ℤ) = chunk.addr.toInt % 2 ^ 64 :=
    toNat_toUInt64_emod chunk.addr
  have hbytes : (chunk.region.size.toNat : ℤ) = pageEnd size.toNat := by
    have hnat : (chunk.region.size.toNat : ℤ) = chunk.size.toInt % 2 ^ 64 :=
      toNat_toUInt64_emod chunk.size
    rw [hnat, hchunk, hsize, harg]
    rw [harg] at hend
    rw [pageEnd] at hend ⊢
    omega
  have hle := chunk.addr.le_toInt
  have hlt' := chunk.addr.toInt_lt
  -- A chunk at negative addresses ends at `0` at the latest.
  rw [Region.contains_iff hpos hwrap]
  rw [MeetsPage, pageEnd] at hx
  rw [pageEnd] at hbytes
  omega

/-- What `mmap2` without `MAP_FIXED` returns and does to the engine: it maps a chunk, and clears the
word at the address of `__errno`. -/
theorem mmap2_eq_ok {emu emu' : Emulator} {ret : CallRet} (hfixed : isFixed flags = false)
    (hrun : (MemSyscall.mmap2 addr size prot flags).code.run emu = .ok ret emu') :
    ∃ chunk errno, (emu.memory.incrementalAllocator.reserve (syscallArg size)).2 = .ok chunk ∧
      ret.value = chunk.addr ∧ emu.uc.memMapCheck chunk.region prot = none ∧
      findCSymbol emu.modules "__errno" = .ok errno ∧
      emu'.uc = (emu.uc.mapChunk chunk prot).store errno.toUInt64 (long2bytes 0 4) := by
  rw [code_mmap2_of_not_isFixed addr size prot hfixed] at hrun
  obtain ⟨value, emu₁, hmmap, hrun₁⟩ := bind_eq_ok hrun
  obtain ⟨_, emu₂, hclear, hrun₂⟩ := bind_eq_ok hrun₁
  cases hrun₂
  obtain ⟨memory, hmmap', rfl⟩ := liftMem_eq_ok hmmap
  obtain ⟨chunk, hreserve, rfl, hcheck, huc⟩ := mmap_eq_ok hmmap'
  rw [clearErrno, get_bind] at hclear
  obtain ⟨errno, emu₁, hget, hwrite⟩ := bind_eq_ok hclear
  obtain ⟨herrno, rfl⟩ := getOrThrow_eq_ok.1 hget
  obtain ⟨uc, hstore, rfl⟩ := engine_eq_ok hwrite
  obtain ⟨-, rfl⟩ := Unicorn.memWrite_eq_ok.1 hstore
  exact ⟨chunk, errno, hreserve, rfl, hcheck, herrno,
    congrArg (fun uc : Unicorn => uc.store errno.toUInt64 (long2bytes 0 4)) huc⟩

theorem takesEffect_mmap2_of_not_isFixed (hpage : OnPage s.emu) (hfixed : isFixed flags = false) :
    TakesEffect s (.mmap2 addr size prot flags) := by
  intro ret emu' hrun hret x hx
  obtain ⟨chunk, errno, hreserve, hvalue, hcheck, -, huc⟩ := mmap2_eq_ok hfixed hrun
  rw [hvalue] at hx
  have hin := contains_of_meetsPage hpage hreserve hcheck hx
  -- The pages are mapped, and clearing `errno` does not change that.
  have hmapped : emu'.uc.mapped x = (s.emu.uc.mapChunk chunk prot).mapped x := by
    rw [huc]
    rfl
  have hperms : emu'.uc.perms x = (s.emu.uc.mapChunk chunk prot).perms x := by
    rw [huc]
    rfl
  rw [hmapped, hperms, Unicorn.mapped_mapChunk, Unicorn.mapChunk, Unicorn.perms_setPerms, hin,
    if_pos rfl]
  exact ⟨rfl, rfl⟩

theorem takesEffect_mmap2_iff (hpage : OnPage s.emu) (addr size prot flags : UInt32) :
    TakesEffect s (.mmap2 addr size prot flags) ↔ Regular s (.mmap2 addr size prot flags) := by
  rcases hfixed : isFixed flags with _ | _
  · refine iff_of_true (takesEffect_mmap2_of_not_isFixed hpage hfixed) fun hfixed' => ?_
    rw [hfixed] at hfixed'
    cases hfixed'
  have houtcome := protectOutcome_mmap2 s.emu addr size prot hfixed
  generalize hrun : (MemSyscall.mmap2 addr size prot flags).code.run s.emu = r at houtcome
  cases houtcome with
  | unaligned hdvd =>
    exact iff_of_true ((forall_ok_iff hrun).2 fun h => absurd rfl h) fun _ h => absurd h hdvd
  | ignored hdvd hmanaged =>
    -- The address is returned, so the pages have to be there already.
    refine (forall_ok_iff hrun).trans ?_
    dsimp only
    rw [toInt_syscallArg]
    exact ⟨fun h _ _ _ => h (syscallArg_ne_neg_one addr), fun h _ => h hfixed hdvd hmanaged⟩
  | changed hdvd hmanaged hcan =>
    refine iff_of_true ((forall_ok_iff hrun).2 fun _ x hx => ?_) fun _ _ h => absurd hmanaged h
    rw [toInt_syscallArg] at hx
    have hin := (contains_syscallPages_iff hdvd).2 (.inl hx)
    exact ⟨hcan.2 x hin, if_pos hin⟩
  | refused hdvd hmanaged hcan err =>
    exact iff_of_true (forall_ok_of_error hrun) fun _ _ h => absurd hmanaged h

theorem takesEffect_mprotect_iff (s : SyscallState) (addr len prot : UInt32) :
    TakesEffect s (.mprotect addr len prot) ↔ Regular s (.mprotect addr len prot) := by
  have houtcome := protectOutcome_mprotect s.emu addr len prot
  generalize hrun : (MemSyscall.mprotect addr len prot).code.run s.emu = r at houtcome
  cases houtcome with
  | unaligned hdvd =>
    refine iff_of_true ((forall_ok_iff hrun).2 fun h => ?_) fun h => absurd h hdvd
    exact absurd h (by decide)
  | ignored hdvd hmanaged =>
    -- `0` is returned, so the permissions have to be the new ones already.
    rw [Regular, forall_prop_of_true hdvd, if_neg hmanaged]
    refine (forall_ok_iff hrun).trans ⟨fun h hmapped x hx => ?_, fun h _ hmapped x _ => ?_⟩
    · rw [h rfl hmapped x (hmapped x hx), if_pos hx]
    · split_ifs with hx
      · exact h hmapped x hx
      · rfl
  | changed hdvd hmanaged hcan =>
    rw [Regular, forall_prop_of_true hdvd, if_pos hmanaged, forall_prop_of_true hcan]
    have hin : ∀ x, (syscallPages addr len).region.contains x = true ↔
        MeetsPage addr.toNat len.toNat x ∨ InPageAfter addr.toNat len.toNat x := fun x =>
      contains_syscallPages_iff hdvd
    refine (forall_ok_iff hrun).trans ⟨fun h x hx => ?_, fun h _ _ x hx => ?_⟩
    · -- The page after the range has the new permissions too.
      have hall := h rfl fun y hy => hcan.2 y ((hin y).2 (.inl hy))
      have hkept := hall x (hcan.2 x ((hin x).2 (.inr hx)))
      rw [if_neg (not_meetsPage_of_inPageAfter hx)] at hkept
      rw [← hkept]
      exact if_pos ((hin x).2 (.inr hx))
    · show (if (syscallPages addr len).region.contains x then prot else s.emu.uc.perms x) = _
      simp only [hin]
      split_ifs with hor hmeets hmeets
      · rfl
      · exact (h x (hor.resolve_left hmeets)).symm
      · exact absurd (.inl hmeets) hor
      · rfl
  | refused hdvd hmanaged hcan err =>
    rw [Regular, forall_prop_of_true hdvd, if_pos hmanaged]
    exact iff_of_true (forall_ok_of_error hrun) fun h => absurd h hcan

theorem takesEffect_munmap_iff (s : SyscallState) (addr size : UInt32) :
    TakesEffect s (.munmap addr size) ↔ Regular s (.munmap addr size) := by
  have houtcome := unmapOutcome_munmap s.emu addr size
  generalize hrun : (MemSyscall.munmap addr size).code.run s.emu = r at houtcome
  cases houtcome with
  | ignored hor =>
    refine (forall_ok_iff hrun).trans (forall_congr' fun hreturned => ?_)
    split_ifs with hmanaged
    · -- No page meets an empty range.
      have hempty : ∀ x, ¬MeetsPage addr.toNat size.toNat x := by
        intro x hx
        rw [hor.resolve_left (not_not.2 hmanaged), MeetsPage] at hx
        have hzero : (0 : UInt32).toNat = 0 := rfl
        omega
      exact iff_of_true (fun x hx => absurd hx (hempty x)) fun _ x hx => absurd hx (hempty x)
    · exact Iff.rfl
  | removed hmanaged hne hcan =>
    refine (forall_ok_iff hrun).trans (forall_congr' fun hreturned => ?_)
    rw [if_pos hmanaged, forall_prop_of_true hcan]
    refine forall₂_congr fun x hx => ?_
    show (s.emu.uc.removeBlock _).mapped x = false ↔ _
    rw [Unicorn.mapped_removeBlock, ← contains_unmapRange_iff hne]
    cases (unmapRange addr size).region.contains x <;> simp
  | refused hmanaged hcan err =>
    refine iff_of_true (forall_ok_of_error hrun) fun hreturned => ?_
    rw [if_pos hmanaged]
    exact fun h => absurd h hcan

/-- When a call takes effect. -/
theorem takesEffect_iff (hpage : OnPage s.emu) (call : MemSyscall) :
    TakesEffect s call ↔ Regular s call := by
  cases call with
  | mmap2 addr size prot flags => exact takesEffect_mmap2_iff hpage addr size prot flags
  | mprotect addr len prot => exact takesEffect_mprotect_iff s addr len prot
  | munmap addr size => exact takesEffect_munmap_iff s addr size

/-- All calls of a run take effect exactly if they are regular. The allocator stands at the start of
a page, as in every new emulator. -/
theorem syscalls_take_effect_iff (emu : Emulator) (hpage : OnPage emu) (calls : List MemSyscall) :
    (∀ c ∈ trace step ⟨emu, []⟩ calls, TakesEffect c.1 c.2) ↔
      ∀ c ∈ trace step ⟨emu, []⟩ calls, Regular c.1 c.2 := by
  have hpages : ∀ c ∈ trace step ⟨emu, []⟩ calls, OnPage c.1.emu :=
    forall_trace (I := fun s : SyscallState => OnPage s.emu) (H := fun _ _ => True)
      (fun s call h _ => onPage_step s call h) hpage fun _ _ => trivial
  exact forall₂_congr fun c hc => takesEffect_iff (hpages c hc) c.2

/-! ## What `mmap2` overwrites -/

/-- A chunk that `mem_map` accepts does not touch what was mapped before. -/
theorem guestByte_mapChunk {uc : Unicorn} {chunk : MemChunk} {x : UInt64}
    (hcheck : uc.memMapCheck chunk.region prot = none) (hx : uc.mapped x = true) :
    (uc.mapChunk chunk prot).guestByte x = uc.guestByte x := by
  obtain ⟨-, -, -, hfree⟩ := Unicorn.memMapCheck_eq_none hcheck
  have hout : ¬chunk.region.contains x = true := by
    intro hin
    rw [Unicorn.not_mapped_of_memoryOverlap hfree hin] at hx
    cases hx
  rw [Unicorn.mapChunk, Unicorn.guestByte_setPerms, Unicorn.guestByte_addBlock, if_neg hout]
  rfl

/-- A call of `mmap2` without `MAP_FIXED` that returns leaves the bytes that were mapped before
unchanged exactly if, as far as they are mapped, the four bytes at the address that is found for
`__errno` were zero. This is the address of a function, or zero if no module has the symbol. -/
theorem mmap2_keeps_memory_iff (emu emu' : Emulator) (addr size prot flags : UInt32) (ret : CallRet)
    (hfixed : isFixed flags = false)
    (hrun : (MemSyscall.mmap2 addr size prot flags).code.run emu = .ok ret emu') :
    ∃ errno, findCSymbol emu.modules "__errno" = .ok errno ∧
      ((∀ x, emu.uc.mapped x = true → emu'.uc.guestByte x = emu.uc.guestByte x) ↔
        ∀ x, Within errno.toUInt64 4 x → emu.uc.mapped x = true → emu.uc.guestByte x = some 0) := by
  obtain ⟨chunk, errno, -, -, hcheck, herrno, huc⟩ := mmap2_eq_ok hfixed hrun
  refine ⟨errno, herrno, ?_⟩
  have hbytes : long2bytes 0 4 = List.replicate 4 0 := by decide
  have hlen : (List.replicate 4 (0 : UInt8)).length = 4 := rfl
  rw [hbytes] at huc
  -- Outside of the word nothing changes, and the word is zero.
  have hout : ∀ x, emu.uc.mapped x = true → ¬Within errno.toUInt64 4 x →
      emu'.uc.guestByte x = emu.uc.guestByte x := by
    intro x hx hword
    rw [huc, Unicorn.guestByte_store_of_not_within (by rwa [hlen]), guestByte_mapChunk hcheck hx]
  have hin : ∀ x, emu.uc.mapped x = true → Within errno.toUInt64 4 x →
      emu'.uc.guestByte x = some 0 := by
    intro x hx hword
    obtain ⟨k, hk, rfl⟩ := hword.exists_add
    have hmapped :
        (emu.uc.mapChunk chunk prot).mapped (errno.toUInt64 + UInt64.ofNat k) = true := by
      rw [Unicorn.mapped_mapChunk, hx, Bool.or_true]
    rw [huc, Unicorn.guestByte_store_add (by rwa [hlen]) (by rw [hlen]; omega) hmapped,
      List.getElem_replicate]
  constructor
  · intro hkeeps x hword hx
    rw [← hkeeps x hx, hin x hx hword]
  · intro hzero x hx
    by_cases hword : Within errno.toUInt64 4 x
    · rw [hin x hx hword, hzero x hword hx]
    · exact hout x hx hword

/-- A new emulator before any call. -/
def noCalls : SyscallState := ⟨freshEmulator fun _ => none, []⟩

/-- The state after `mmap2` of one page, to be read and written. -/
def onePage : SyscallState := noCalls.step (.mmap2 0 0x1000 3 0x22)

theorem onPage_noCalls : OnPage noCalls.emu := by
  show (0x1000 : ℤ) ∣ modulesMin.toInt
  decide

/-- The page can be read and written. -/
theorem perms_onePage {x : UInt64} (hx : MeetsPage 0xA0000000 0x1000 x) :
    onePage.emu.uc.mapped x = true ∧ onePage.emu.uc.perms x = 3 := by
  have heffect : TakesEffect noCalls (.mmap2 0 0x1000 3 0x22) :=
    takesEffect_mmap2_of_not_isFixed onPage_noCalls (by decide)
  have hreturns : outcome ((MemSyscall.mmap2 0 0x1000 3 0x22).code.run noCalls.emu) =
      .ok ⟨true, 0xA0000000⟩ := by decide +kernel
  rw [onePage, emu_step]
  cases hrun : (MemSyscall.mmap2 0 0x1000 3 0x22).code.run noCalls.emu with
  | ok ret emu' =>
    rw [hrun] at hreturns
    cases hreturns
    exact heffect _ _ hrun (by decide) x hx
  | error err emu' =>
    rw [hrun] at hreturns
    cases hreturns

/-- A page that `mmap2` has mapped is given the permissions that it has. -/
theorem syscalls_take_effect_onePage :
    TakesEffect noCalls (.mmap2 0 0x1000 3 0x22) ∧
      TakesEffect onePage (.mprotect 0xA0000000 0x1000 3) := by
  have hall := (syscalls_take_effect_iff noCalls.emu onPage_noCalls
    [.mmap2 0 0x1000 3 0x22, .mprotect 0xA0000000 0x1000 3]).2 (by
      intro c hc
      simp only [trace, List.mem_cons, List.not_mem_nil, or_false] at hc
      rcases hc with rfl | rfl
      · exact fun hfixed => absurd hfixed (by decide)
      · intro _
        rw [if_neg (by decide)]
        exact fun _ x hx => (perms_onePage hx).2)
  exact ⟨hall (noCalls, _) (.head _), hall (onePage, _) (.tail _ (.head _))⟩

/-- A page of the mapping area, as a module with a segment there has it, of which `mmap2` with
`MAP_FIXED` has returned one half. -/
def halfPage : SyscallState :=
  step ⟨noCalls.emu.withUc (noCalls.emu.uc.mapChunk ⟨0xE0000000, 0x1000⟩ 7), []⟩
    (.mmap2 0xE0000000 0x800 3 0x32)

/-- With `MAP_FIXED` nothing is mapped. A page that was mapped without it is neither protected nor
unmapped. In the mapping area half a page is unmapped, and the other half is not. -/
theorem syscalls_without_effect :
    ¬TakesEffect noCalls (.mmap2 0xB0000000 0x1000 3 0x32) ∧
      onePage.returned = [(0xA0000000, 0x1000)] ∧
      ¬TakesEffect onePage (.mprotect 0xA0000000 0x1000 1) ∧
      ¬TakesEffect onePage (.munmap 0xA0000000 0x1000) ∧
      halfPage.returned = [(0xE0000000, 0x800)] ∧
      ¬TakesEffect halfPage (.munmap 0xE0000000 0x800) := by
  have hpage : OnPage onePage.emu := onPage_step _ _ onPage_noCalls
  refine ⟨?_, by decide +kernel, ?_, ?_, by decide +kernel, ?_⟩
  · rw [takesEffect_iff onPage_noCalls]
    intro h
    have hmapped := (h (by decide) (by decide) (by decide) 0xB0000000 (by decide)).1
    exact absurd hmapped (by decide +kernel)
  · rw [takesEffect_iff hpage]
    intro h
    have hperms := h (by decide) (fun x hx => (perms_onePage hx).1) 0xA0000000 (by decide)
    exact absurd hperms (by decide +kernel)
  · rw [takesEffect_iff hpage]
    intro h
    have hfree := h (by decide +kernel) 0xA0000000 (by decide)
    exact absurd hfree (by decide +kernel)
  · intro h
    have hreturns : outcome ((MemSyscall.munmap 0xE0000000 0x800).code.run halfPage.emu) =
        .ok ⟨false, 0⟩ := by decide +kernel
    have hleft : (finalState ((MemSyscall.munmap 0xE0000000 0x800).code.run
        halfPage.emu)).uc.mapped 0xE0000800 = true := by decide +kernel
    cases hrun : (MemSyscall.munmap 0xE0000000 0x800).code.run halfPage.emu with
    | ok ret emu' =>
      rw [hrun] at hleft
      have hfree := h ret emu' hrun (by decide +kernel) 0xE0000800 (by decide)
      exact absurd hleft (by rw [finalState, hfree]; decide)
    | error err emu' =>
      rw [hrun] at hreturns
      cases hreturns

/-- In a new emulator the stack is zero, so that it does not matter that its first word is
cleared. -/
theorem mmap2_keeps_memory_fresh :
    ∃ ret emu', (MemSyscall.mmap2 0 0x1000 3 0x22).code.run noCalls.emu = .ok ret emu' ∧
      ∀ x, noCalls.emu.uc.mapped x = true → emu'.uc.guestByte x = noCalls.emu.uc.guestByte x := by
  have hok : ∃ ret emu',
      (MemSyscall.mmap2 0 0x1000 3 0x22).code.run noCalls.emu = .ok ret emu' := by
    have hreturns : outcome ((MemSyscall.mmap2 0 0x1000 3 0x22).code.run noCalls.emu) =
        .ok ⟨true, 0xA0000000⟩ := by decide +kernel
    cases hrun : (MemSyscall.mmap2 0 0x1000 3 0x22).code.run noCalls.emu with
    | ok ret emu' => exact ⟨ret, emu', rfl⟩
    | error err emu' =>
      rw [hrun] at hreturns
      cases hreturns
  obtain ⟨ret, emu', hrun⟩ := hok
  obtain ⟨errno, herrno, hiff⟩ :=
    mmap2_keeps_memory_iff noCalls.emu emu' 0 0x1000 3 0x22 ret (by decide) hrun
  have hzero : errno = 0 := by
    have hnone : findCSymbol noCalls.emu.modules "__errno" = .ok 0 := rfl
    exact (Except.ok.inj (hnone.symm.trans herrno)).symm
  refine ⟨ret, emu', hrun, hiff.2 ?_⟩
  intro x hword _
  rw [hzero] at hword
  obtain ⟨k, hk, rfl⟩ := hword.exists_add
  have hstack : ∀ k < 4, noCalls.emu.uc.guestByte ((0 : Int64).toUInt64 + UInt64.ofNat k) =
      some 0 := by decide +kernel
  exact hstack k hk

/-- A new emulator whose stack holds a byte at its lower end, address `0`. -/
def usedStack : Emulator := noCalls.emu.withUc (noCalls.emu.uc.store 0 [7])

/-- Without modules there is no `__errno`, and the byte of the stack is lost. -/
theorem mmap2_clears_stack :
    let r := (MemSyscall.mmap2 0 0x1000 3 0x22).code.run usedStack
    outcome r = .ok ⟨true, 0xA0000000⟩ ∧ usedStack.uc.mapped 0 = true ∧
      usedStack.uc.guestByte 0 = some 7 ∧ (finalState r).uc.guestByte 0 = some 0 := by
  decide +kernel

end SyscallState

end Tank
