import Tank.Memory.MemoryManager

/-!
# Pages and their permissions

What the calls of the engine that map, unmap and protect pages do to each address: whether it is
mapped and with which permissions.

* `acquires_mapChunk`: `mem_map` maps addresses that were free;
* `run_memProtect_of_granted`, `run_memProtect_of_not_granted`: `mem_protect` changes all of a
  range or nothing;
* `run_memUnmap`, `mapped_removeBlock`: `mem_unmap` unmaps its range or nothing.

A page meets a range of bytes if they share an address (`MeetsPage`). `align` covers the pages that
meet the range and, if the range ends with a page, the page after it (`contains_align_iff`).
-/

namespace Tank

open ToMathlib

/-! ## Regions -/

variable {r block : Region} {x : UInt64} {uc : Unicorn} {c : MemChunk}

/-- A region that does not wrap is an interval. -/
theorem Region.contains_iff (hsize : 0 < r.size.toNat) (h : r.addr.toNat + r.size.toNat ≤ 2 ^ 64) :
    r.contains x = true ↔ r.addr.toNat ≤ x.toNat ∧ x.toNat < r.addr.toNat + r.size.toNat := by
  have hone : (1 : UInt64).toNat = 1 := rfl
  have hlast : r.last.toNat = r.addr.toNat + r.size.toNat - 1 := by
    rw [Region.last, UInt64.toNat_sub, UInt64.toNat_add, hone]
    omega
  simp only [Region.contains, Bool.and_eq_true, decide_eq_true_eq, UInt64.le_iff_toNat_le]
  omega

theorem Region.contains_eq_true :
    r.contains x = true ↔ r.addr.toNat ≤ x.toNat ∧ x.toNat ≤ r.last.toNat := by
  simp only [Region.contains, Bool.and_eq_true, decide_eq_true_eq, UInt64.le_iff_toNat_le]

theorem Region.last_before (h : block.addr < r.addr) :
    (Region.mk block.addr (r.addr - block.addr)).last.toNat + 1 = r.addr.toNat := by
  have hone : (1 : UInt64).toNat = 1 := rfl
  have hlt := r.addr.toNat_lt
  rw [UInt64.lt_iff_toNat_lt] at h
  show (block.addr + (r.addr - block.addr) - 1).toNat + 1 = _
  rw [UInt64.toNat_sub, UInt64.toNat_add, UInt64.toNat_sub, hone]
  omega

theorem Region.last_after (h : r.last < block.last) :
    (r.last + 1).toNat = r.last.toNat + 1 ∧
      (Region.mk (r.last + 1) (block.last - r.last)).last.toNat = block.last.toNat := by
  have hone : (1 : UInt64).toNat = 1 := rfl
  have hlt := block.last.toNat_lt
  rw [UInt64.lt_iff_toNat_lt] at h
  have hnext : (r.last + 1).toNat = r.last.toNat + 1 := by
    rw [UInt64.toNat_add, hone]
    omega
  refine ⟨hnext, ?_⟩
  show (r.last + 1 + (block.last - r.last) - 1).toNat = _
  rw [UInt64.toNat_sub, UInt64.toNat_add, UInt64.toNat_sub, hnext, hone]
  omega

/-- What is left of a block when a range is taken out: the block itself, its part before the range
or its part after it. -/
theorem Region.mem_without {piece : Region} (h : piece ∈ block.without r) :
    (piece = block ∧ (r.last.toNat < block.addr.toNat ∨ block.last.toNat < r.addr.toNat)) ∨
    (piece.addr.toNat = block.addr.toNat ∧ piece.last.toNat + 1 = r.addr.toNat ∧
      r.addr.toNat ≤ block.last.toNat) ∨
    (piece.addr.toNat = r.last.toNat + 1 ∧ piece.last.toNat = block.last.toNat ∧
      block.addr.toNat ≤ r.last.toNat) := by
  rw [Region.without] at h
  -- The range lies apart from the block, inside it, at its end, at its start, or covers it.
  split_ifs at h with hapart hbefore hafter hafter
  · rw [UInt64.lt_iff_toNat_lt, UInt64.lt_iff_toNat_lt] at hapart
    exact .inl ⟨List.mem_singleton.1 h, hapart⟩
  all_goals
    rw [UInt64.lt_iff_toNat_lt, UInt64.lt_iff_toNat_lt, not_or, not_lt, not_lt] at hapart
  · rw [List.mem_append, List.mem_singleton, List.mem_singleton] at h
    rcases h with rfl | rfl
    · exact .inr (.inl ⟨rfl, Region.last_before hbefore, hapart.2⟩)
    · obtain ⟨hnext, hlast⟩ := Region.last_after hafter
      exact .inr (.inr ⟨hnext, hlast, hapart.1⟩)
  · rw [List.append_nil, List.mem_singleton] at h
    subst h
    exact .inr (.inl ⟨rfl, Region.last_before hbefore, hapart.2⟩)
  · obtain ⟨hnext, hlast⟩ := Region.last_after hafter
    rw [List.nil_append, List.mem_singleton] at h
    subst h
    exact .inr (.inr ⟨hnext, hlast, hapart.1⟩)
  · exact absurd h List.not_mem_nil

/-- The rest of a block lies in the block and outside of the range. -/
theorem Region.contains_of_mem_without {piece : Region} (h : piece ∈ block.without r)
    (hx : piece.contains x = true) : block.contains x = true ∧ r.contains x = false := by
  rw [Bool.eq_false_iff, ne_eq]
  rw [Region.contains_eq_true] at hx ⊢
  rw [Region.contains_eq_true]
  rcases Region.mem_without h with ⟨rfl, hapart⟩ | hbefore | hafter <;> omega

/-- Every address of a block that is not in the range stays in the rest of the block. -/
theorem Region.exists_mem_without (hx : block.contains x = true)
    (hout : r.contains x = false) : ∃ piece ∈ block.without r, piece.contains x = true := by
  rw [Bool.eq_false_iff, ne_eq, Region.contains_eq_true] at hout
  rw [Region.without]
  split_ifs with hapart hbefore hafter hafter
  · exact ⟨block, List.mem_singleton_self _, hx⟩
  all_goals
    rw [Region.contains_eq_true] at hx
    rw [UInt64.lt_iff_toNat_lt, UInt64.lt_iff_toNat_lt, not_or, not_lt, not_lt] at hapart
  · have hlast := Region.last_before hbefore
    obtain ⟨hnext, hlast'⟩ := Region.last_after hafter
    by_cases hlow : x.toNat < r.addr.toNat
    · refine ⟨_, List.mem_append_left _ (List.mem_singleton_self _), ?_⟩
      exact Region.contains_eq_true.2 ⟨hx.1, by omega⟩
    · refine ⟨_, List.mem_append_right _ (List.mem_singleton_self _), ?_⟩
      rw [Region.contains_eq_true, hnext]
      omega
  · have hlast := Region.last_before hbefore
    rw [UInt64.lt_iff_toNat_lt] at hafter
    refine ⟨_, List.mem_append_left _ (List.mem_singleton_self _), ?_⟩
    exact Region.contains_eq_true.2 ⟨hx.1, by omega⟩
  · obtain ⟨hnext, hlast'⟩ := Region.last_after hafter
    rw [UInt64.lt_iff_toNat_lt] at hbefore
    refine ⟨_, List.mem_append_right _ (List.mem_singleton_self _), ?_⟩
    rw [Region.contains_eq_true, hnext]
    omega
  · rw [UInt64.lt_iff_toNat_lt] at hbefore hafter
    omega

namespace Unicorn

theorem mapped_addBlock (uc : Unicorn) (r : Region) (x : UInt64) :
    (uc.addBlock r).mapped x = (r.contains x || uc.mapped x) := by
  simp [mapped, addBlock]

/-- A range that overlaps no block is free. -/
theorem not_mapped_of_memoryOverlap (h : uc.memoryOverlap r = false) (hx : r.contains x = true) :
    uc.mapped x = false := by
  rw [mapped, List.any_eq_false]
  intro block hblock hcontains
  rw [memoryOverlap, List.any_eq_false] at h
  refine h block hblock ?_
  simp only [Region.contains, Bool.and_eq_true, decide_eq_true_eq] at hx hcontains ⊢
  exact ⟨UInt64.le_trans hx.1 hcontains.2, UInt64.le_trans hcontains.1 hx.2⟩

/-- What a region for which `mem_map` succeeds is like. -/
theorem memMapCheck_eq_none {perms : UInt32} (h : uc.memMapCheck r perms = none) :
    0 < r.size.toNat ∧ r.addr.toNat + r.size.toNat ≤ 2 ^ 64 ∧
      perms &&& ~~~7 = 0 ∧ uc.memoryOverlap r = false := by
  rw [memMapCheck] at h
  split_ifs at h with hsize hwrap haddr hpage hperms hover
  have hzero : (0 : UInt64).toNat = 0 := rfl
  have hone : (1 : UInt64).toNat = 1 := rfl
  have hpos : 0 < r.size.toNat := by
    rw [← UInt64.toNat_inj, hzero] at hsize
    omega
  have hlt := r.addr.toNat_lt
  have hlt' := r.size.toNat_lt
  refine ⟨hpos, ?_, not_not.1 hperms, Bool.eq_false_iff.2 hover⟩
  rw [UInt64.lt_iff_toNat_lt, Region.last, UInt64.toNat_sub, UInt64.toNat_add, hone] at hwrap
  omega

/-- What is mapped after unmapping a range: what was mapped before, without the range. -/
theorem mapped_removeBlock (uc : Unicorn) (r : Region) (x : UInt64) :
    (uc.removeBlock r).mapped x = (uc.mapped x && !r.contains x) := by
  rw [Bool.eq_iff_iff, Bool.and_eq_true, Bool.not_eq_true']
  constructor
  · intro hx
    obtain ⟨piece, hpiece, hcontains⟩ := List.any_eq_true.1 hx
    obtain ⟨block, hblock, hwithout⟩ := List.mem_flatMap.1 hpiece
    obtain ⟨hin, hout⟩ := Region.contains_of_mem_without hwithout hcontains
    exact ⟨List.any_eq_true.2 ⟨block, hblock, hin⟩, hout⟩
  · rintro ⟨hx, hout⟩
    obtain ⟨block, hblock, hin⟩ := List.any_eq_true.1 hx
    obtain ⟨piece, hpiece, hcontains⟩ := Region.exists_mem_without hin hout
    exact List.any_eq_true.2 ⟨piece, List.mem_flatMap.2 ⟨block, hblock, hpiece⟩, hcontains⟩

theorem perms_setPerms (uc : Unicorn) (r : Region) (perms : UInt32) (x : UInt64) :
    (uc.setPerms r perms).perms x = if r.contains x then perms else uc.perms x := rfl

/-- `check_mem_area` of whole pages. -/
theorem checkMemArea_iff (hc : c.IsLow) :
    uc.checkMemArea c.region.addr c.region.size.toNat = true ↔
      ∀ x, c.region.contains x = true → uc.mapped x = true := by
  have haddr := hc.addr_toNat
  have hsize := hc.size_toNat
  have hpos := hc.size
  have hlast := hc.last
  have hwithin : ∀ x, c.region.contains x = true ↔
      Within c.region.addr c.region.size.toNat x := by
    intro x
    rw [Region.contains_iff (by omega) (by omega), within_iff (by omega)]
  simp only [hwithin, checkMemArea, List.all_eq_true, List.mem_range]
  constructor
  · intro h x hx
    obtain ⟨k, hk, rfl⟩ := hx.exists_add
    exact h k hk
  · intro h k hk
    exact h _ (within_add hk (by omega))

end Unicorn

/-- The permissions are valid and all addresses of the range are mapped. -/
def Unicorn.Granted (uc : Unicorn) (c : MemChunk) (perms : Int32) : Prop :=
  perms.toUInt32 &&& ~~~7 = 0 ∧ ∀ x, c.region.contains x = true → uc.mapped x = true

/-- The engine unmaps the range: it consists of pages of the engine, and all of it is mapped. -/
def Unicorn.Unmappable (uc : Unicorn) (c : MemChunk) : Prop :=
  0x400 ∣ c.addr.toInt ∧ 0x400 ∣ c.size.toInt ∧
    ∀ x, c.region.contains x = true → uc.mapped x = true

/-- `mem_unmap` of a range that is not empty unmaps all of it, or throws. -/
theorem Unicorn.run_memUnmap (uc : Unicorn) (hlow : c.IsLow) :
    (uc.Unmappable c ∧ (Unicorn.memUnmap c).run uc = .ok () (uc.removeBlock c.region)) ∨
      (¬uc.Unmappable c ∧ ∃ err, (Unicorn.memUnmap c).run uc = .error err uc) := by
  have haddr := hlow.addr_toNat
  have hsize := hlow.size_toNat
  have hpos := hlow.size
  have hpage : (0x400 : UInt64).toNat = 0x400 := rfl
  have hzero : (0 : UInt64).toNat = 0 := rfl
  simp only [EStateM.run, Unicorn.memUnmap, ← UInt64.toNat_inj, UInt64.toNat_mod, hpage, hzero,
    ne_eq, ite_not]
  rw [if_neg (by omega)]
  split_ifs with hstart hpages hmapped
  · exact .inl ⟨⟨by omega, by omega, (Unicorn.checkMemArea_iff hlow).1 hmapped⟩, rfl⟩
  · exact .inr ⟨fun h => hmapped ((Unicorn.checkMemArea_iff hlow).2 h.2.2), _, rfl⟩
  · exact .inr ⟨fun h => hpages (by have := h.2.1; omega), _, rfl⟩
  · exact .inr ⟨fun h => hstart (by have := h.1; omega), _, rfl⟩

section Chunk

variable (hlow : c.IsLow) (hpaged : c.IsPaged)

include hlow hpaged

/-- Whole pages pass the checks of the engine. -/
theorem MemChunk.region_checks :
    c.region.size ≠ 0 ∧ c.region.addr % 0x400 = 0 ∧ c.region.size % 0x400 = 0 := by
  have haddr := hlow.addr_toNat
  have hsize := hlow.size_toNat
  have hpos := hlow.size
  have hpage : (0x400 : UInt64).toNat = 0x400 := rfl
  have hzero : (0 : UInt64).toNat = 0 := rfl
  refine ⟨?_, ?_, ?_⟩
  · rw [ne_eq, ← UInt64.toNat_inj, hzero]
    omega
  · have hdvd := hpaged.addr
    rw [← UInt64.toNat_inj, UInt64.toNat_mod, hpage, hzero]
    omega
  · have hdvd := hpaged.size
    rw [← UInt64.toNat_inj, UInt64.toNat_mod, hpage, hzero]
    omega

theorem Unicorn.run_memProtect_of_granted {perms : Int32} (h : uc.Granted c perms) :
    (Unicorn.memProtect c perms).run uc = .ok () (uc.setPerms c.region perms.toUInt32) := by
  obtain ⟨hne, haddr, hsize⟩ := MemChunk.region_checks hlow hpaged
  simp only [EStateM.run, Unicorn.memProtect, if_neg hne, haddr, hsize, h.1, ne_eq, not_true,
    if_false, (Unicorn.checkMemArea_iff hlow).2 h.2, if_true]

theorem Unicorn.run_memProtect_of_not_granted {perms : Int32} (h : ¬uc.Granted c perms) :
    ∃ err, (Unicorn.memProtect c perms).run uc = .error err uc := by
  obtain ⟨hne, haddr, hsize⟩ := MemChunk.region_checks hlow hpaged
  simp only [EStateM.run, Unicorn.memProtect, if_neg hne, haddr, hsize, ne_eq, not_true, if_false]
  by_cases hperms : perms.toUInt32 &&& ~~~7 = 0
  · have hmapped : ¬uc.checkMemArea c.region.addr c.region.size.toNat = true :=
      fun hmapped => h ⟨hperms, (Unicorn.checkMemArea_iff hlow).1 hmapped⟩
    exact ⟨_, by rw [if_neg (not_not.2 hperms), if_neg hmapped]⟩
  · exact ⟨_, by rw [if_pos hperms]⟩

end Chunk

/-! ## Code that maps pages -/

namespace Unicorn

/-- What was mapped stays so with its permissions, and what is newly mapped has permissions that `P`
allows for its address. -/
def Acquires (P : UInt64 → UInt32 → Prop) (uc uc' : Unicorn) : Prop :=
  ∀ x, (uc.mapped x = true → uc'.mapped x = true ∧ uc'.perms x = uc.perms x) ∧
    (uc.mapped x = false → uc'.mapped x = true → P x (uc'.perms x))

variable {P : UInt64 → UInt32 → Prop}

theorem Acquires.of_eq {uc uc' : Unicorn} (hregions : uc'.regions = uc.regions)
    (hperms : uc'.perms = uc.perms) : Acquires P uc uc' := by
  intro x
  rw [mapped_congr hregions, hperms]
  exact ⟨fun hx => ⟨hx, rfl⟩, fun hx hx' => absurd hx' (Bool.eq_false_iff.1 hx)⟩

instance Acquires.isPreorder : IsPreorder Unicorn (Acquires P) where
  refl _ := .of_eq rfl rfl
  trans uc₁ uc₂ uc₃ h₁₂ h₂₃ x := by
    refine ⟨fun hx₁ => ?_, fun hx₁ hx₃ => ?_⟩
    · obtain ⟨hx₂, hperms⟩ := (h₁₂ x).1 hx₁
      obtain ⟨hx₃, hperms'⟩ := (h₂₃ x).1 hx₂
      exact ⟨hx₃, hperms'.trans hperms⟩
    · -- The address is newly mapped in the second step or already in the first.
      rcases hx₂ : uc₂.mapped x with _ | _
      · exact (h₂₃ x).2 hx₂ hx₃
      · rw [((h₂₃ x).1 hx₂).2]
        exact (h₁₂ x).2 hx₁ hx₂

/-- The engine after `mem_map` has mapped a chunk. -/
def mapChunk (uc : Unicorn) (chunk : MemChunk) (perms : UInt32) : Unicorn :=
  ((uc.logMap chunk).addBlock chunk.region).setPerms chunk.region perms

theorem mapped_mapChunk (uc : Unicorn) (chunk : MemChunk) (perms : UInt32) (x : UInt64) :
    (uc.mapChunk chunk perms).mapped x = (chunk.region.contains x || uc.mapped x) :=
  mapped_addBlock _ _ _

/-- The pages of a chunk were free. -/
theorem acquires_mapChunk {chunk : MemChunk} {perms : UInt32}
    (hcheck : uc.memMapCheck chunk.region perms = none)
    (hP : ∀ x, chunk.region.contains x = true → P x perms) :
    Acquires P uc (uc.mapChunk chunk perms) := by
  obtain ⟨-, -, -, hfree⟩ := memMapCheck_eq_none hcheck
  intro x
  rw [mapped_mapChunk, mapChunk, perms_setPerms]
  refine ⟨fun hx => ?_, fun hx hx' => ?_⟩
  · -- `mem_map` has checked that the chunk overlaps no block.
    have hout : ¬chunk.region.contains x = true := fun hin => by
      rw [not_mapped_of_memoryOverlap hfree hin] at hx
      cases hx
    rw [if_neg hout, hx, Bool.or_true]
    exact ⟨rfl, rfl⟩
  · rw [hx, Bool.or_false] at hx'
    rw [if_pos hx']
    exact hP x hx'

theorem keeps_memMap_acquires {chunk : MemChunk} {perms : Int32}
    (hP : ∀ x, chunk.region.contains x = true → P x perms.toUInt32) :
    Keeps (Acquires P) (memMap chunk perms) := by
  intro uc
  rw [run_memMap]
  split
  · exact .of_eq rfl rfl
  next hcheck => exact acquires_mapChunk hcheck hP

theorem keeps_memWrite_acquires (address : Int64) (bytes : List UInt8) :
    Keeps (Acquires P) (memWrite address bytes) := by
  intro uc
  rw [run_memWrite]
  split
  · exact .of_eq rfl rfl
  · exact Std.Refl.refl uc

end Unicorn

/-- Code of the engine as code of the memory manager. -/
theorem MemoryManager.keeps_liftUc {R : Unicorn → Unicorn → Prop} {α : Type} {m : UcM α}
    (h : Keeps R m) : Keeps (fun s s' : MemoryManager => R s.uc s'.uc) (liftUc m) := by
  intro s
  rw [finalState_liftUc]
  exact h s.uc

/-! ## Pages that meet a range -/

/-- The page of `x` and the `size` bytes from `addr` on share an address. -/
def MeetsPage (addr size : ℤ) (x : UInt64) : Prop :=
  max addr (x.toNat / 0x1000 * 0x1000) < min (addr + size) (pageEnd x.toNat)

instance (addr size : ℤ) (x : UInt64) : Decidable (MeetsPage addr size x) :=
  inferInstanceAs (Decidable (_ < _))

/-- The range ends with a page, and `x` lies in the page after it. -/
def InPageAfter (addr size : ℤ) (x : UInt64) : Prop :=
  0x1000 ∣ addr + size ∧ addr + size ≤ x.toNat ∧ (x.toNat : ℤ) < addr + size + 0x1000

instance (addr size : ℤ) (x : UInt64) : Decidable (InPageAfter addr size x) :=
  inferInstanceAs (Decidable (_ ∧ _))

theorem not_meetsPage_of_inPageAfter {addr size : ℤ} (h : InPageAfter addr size x) :
    ¬MeetsPage addr size x := by
  obtain ⟨hdvd, hle, hlt⟩ := h
  rw [MeetsPage, pageEnd]
  omega

section Align

variable {addr size : Int64} (haddr : 0 ≤ addr.toInt) (hsize : 0 ≤ size.toInt)
  (hend : pageEnd (addr.toInt + size.toInt) < 2 ^ 63)

include haddr

theorem align_addr_eq_iff : (align addr size true).addr = addr ↔ 0x1000 ∣ addr.toInt := by
  rw [← Int64.toInt_inj, align_addr haddr size]
  omega

include hsize hend

/-- The rounded range has the pages that meet the range and, if it ends with a page, one more. -/
theorem contains_align_iff (hdvd : 0x1000 ∣ addr.toInt) :
    (align addr size true).region.contains x = true ↔
      MeetsPage addr.toInt size.toInt x ∨ InPageAfter addr.toInt size.toInt x := by
  have hstart := align_addr haddr size
  have hstop := align_end haddr hsize hend
  rw [MemChunk.contains_region (align_isLow haddr hsize hend), MemChunk.Contains, hstop, hstart,
    MeetsPage, InPageAfter, pageEnd, pageEnd]
  omega

end Align

end Tank
