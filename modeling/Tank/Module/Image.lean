import Tank.Module.Layout

/-!
# The memory image of a module

After a load that stays within the addresses of a `long`, guest memory holds the bytes of every
segment followed by zeros, and nothing outside the reserved chunk has changed
(`loaded_image`). The heart is an induction over the second loop (`run_writeSegments`): mapping
and writing a later segment touches only its own pages, which are disjoint from those before.
`image_outside_chunk` is a load that overflows and maps a page behind its chunk.
-/

namespace Tank

open ToMathlib MemoryManager Unicorn
open IncrementalAllocator (reserve_of_fits)

/-! ## The bytes of a segment -/

/-- The bytes of the segment are in the file, and there are no more of them than the segment
has in memory. -/
structure ElfSegment.Backed (buffer : ByteBuffer) (segment : ElfSegment) : Prop where
  offset_nonneg : 0 ≤ segment.offset.toInt
  size_nonneg : 0 ≤ segment.fileSize.toInt
  size_le : segment.fileSize.toInt ≤ segment.memSize.toInt
  in_file : segment.offset.toInt + segment.fileSize.toInt ≤ buffer.bytes.length

variable {buffer : ByteBuffer} {segment : ElfSegment} {segments : List ElfSegment}
  {loadBase : Int64} {uc : Unicorn} {x : UInt64}

theorem toInt_toInt32_of_bounds {a : Int64} (hle : -2 ^ 31 ≤ a.toInt) (hlt : a.toInt < 2 ^ 31) :
    a.toInt32.toInt = a.toInt := by
  rw [Int64.toInt_toInt32]
  exact Int.bmod_eq_of_le (by omega) (by omega)

/-- The casts to `int` are harmless for a segment that is in the file. -/
theorem ElfSegment.Backed.getData_eq (h : segment.Backed buffer) :
    segment.getData buffer =
      .ok ((buffer.bytes.drop segment.offset.toInt.toNat).take segment.fileSize.toInt.toNat) := by
  obtain ⟨hoff, hsize, -, hin⟩ := h
  have hlen := buffer.length_lt
  have hoff' : segment.offset.toInt32.toInt = segment.offset.toInt :=
    toInt_toInt32_of_bounds (by omega) (by omega)
  have hsize' : segment.fileSize.toInt32.toInt = segment.fileSize.toInt :=
    toInt_toInt32_of_bounds (by omega) (by omega)
  have hsum : (segment.offset.toInt32 + segment.fileSize.toInt32).toInt =
      segment.offset.toInt + segment.fileSize.toInt := by
    rw [Int32.toInt_add, hoff', hsize']
    exact Int.bmod_eq_of_le (by omega) (by omega)
  have hzero : (0 : Int32).toInt = 0 := rfl
  simp only [ElfSegment.getData, Int32.lt_iff_toInt_lt, hoff', hsize', hsum, hzero]
  rw [if_neg (by omega), if_neg (by omega), if_neg (by omega)]

/-- The byte at distance `k` from the address a segment is loaded at. -/
def segByte (uc : Unicorn) (loadBase : Int64) (segment : ElfSegment) (k : ℕ) : Option UInt8 :=
  uc.guestByte ((loadBase + segment.virtualAddress).toUInt64 + UInt64.ofNat k)

/-- Guest memory holds the segment: its bytes in the file, then zeros. -/
structure HoldsSegment (uc : Unicorn) (buffer : ByteBuffer) (loadBase : Int64)
    (segment : ElfSegment) : Prop where
  data : ∀ k : ℕ, (k : ℤ) < segment.fileSize.toInt →
    segByte uc loadBase segment k = buffer.bytes[segment.offset.toInt.toNat + k]?
  bss : ∀ k : ℕ, segment.fileSize.toInt ≤ k → (k : ℤ) < segment.memSize.toInt →
    segByte uc loadBase segment k = some 0

/-! ## Loading one segment -/

/-- The bytes of the segment lie in the pages that are mapped for it. -/
structure Placed (loadBase : Int64) (segment : ElfSegment) : Prop where
  low : (segmentRange loadBase segment).IsLow
  paged : (segmentRange loadBase segment).IsPaged
  first : (segmentRange loadBase segment).addr.toInt ≤
    (loadBase + segment.virtualAddress).toInt
  last : (loadBase + segment.virtualAddress).toInt + segment.memSize.toInt ≤
    (segmentRange loadBase segment).addr.toInt + (segmentRange loadBase segment).size.toInt

theorem Fits.placed (hfits : Fits loadBase.toInt segments) (hpos : 0 ≤ loadBase.toInt)
    (hpage : 0x1000 ∣ loadBase.toInt) (hmem : segment ∈ segments) (hne : segment.memSize ≠ 0) :
    Placed loadBase segment where
  low := segmentRange_isLow hpos hpage hfits hmem hne
  paged := segmentRange_isPaged hpos hpage hfits hmem hne
  first := by
    rw [segmentRange_addr hpos hpage hfits hmem hne, hfits.segDst_toInt hpos hmem hne]
    omega
  last := by
    rw [segmentRange_end hpos hpage hfits hmem hne, hfits.segDst_toInt hpos hmem hne, pageEnd]
    omega

theorem Placed.contains_byte (h : Placed loadBase segment) {k : ℕ}
    (hk : (k : ℤ) < segment.memSize.toInt) :
    (segmentRange loadBase segment).region.contains
      ((loadBase + segment.virtualAddress).toUInt64 + UInt64.ofNat k) = true := by
  have hfirst := h.first
  have hlast := h.last
  have haddr := h.low.addr
  have hend := h.low.last
  have hdst := toNat_toUInt64 (haddr.trans hfirst)
  have hk' : (UInt64.ofNat k).toNat = k := UInt64.toNat_ofNat_of_lt' (show k < 2 ^ 64 by omega)
  rw [MemChunk.contains_region h.low, MemChunk.Contains, UInt64.toNat_add, hk']
  omega

/-- A segment into free pages: afterwards memory holds it, and nothing else has changed. -/
theorem run_writeSegment_of_backed (hplaced : Placed loadBase segment)
    (hback : segment.Backed buffer)
    (hfree : uc.memoryOverlap (segmentRange loadBase segment).region = false) :
    ∃ uc', (writeSegment buffer loadBase segment).run uc = .ok () uc' ∧
      uc'.regions = (mapRange uc (segmentRange loadBase segment)).regions ∧
      HoldsSegment uc' buffer loadBase segment ∧
      ∀ x, (segmentRange loadBase segment).region.contains x = false →
        uc'.guestByte x = uc.guestByte x := by
  have hrun := run_writeSegment buffer hplaced.low hplaced.paged hfree
  rw [hback.getData_eq] at hrun
  dsimp only at hrun
  obtain ⟨hoff, hsize, hle, hin⟩ := hback
  -- The bytes that are written.
  generalize hdatas : (buffer.bytes.drop segment.offset.toInt.toNat).take
    segment.fileSize.toInt.toNat = datas at hrun
  have hlen : datas.length = segment.fileSize.toInt.toNat := by
    rw [← hdatas, List.length_take, List.length_drop]
    omega
  have hlt : datas.length < 2 ^ 64 := by
    have := buffer.length_lt
    omega
  -- All bytes of the segment are in the new block.
  have hmapped : ∀ k : ℕ, (k : ℤ) < segment.memSize.toInt →
      (mapRange uc (segmentRange loadBase segment)).mapped
        ((loadBase + segment.virtualAddress).toUInt64 + UInt64.ofNat k) = true := by
    exact fun k hk => mapped_addBlock_of_contains (hplaced.contains_byte hk)
  have hcheck : (mapRange uc (segmentRange loadBase segment)).checkMemArea
      (loadBase + segment.virtualAddress).toUInt64 datas.length = true := by
    refine List.all_eq_true.2 fun k hk => hmapped k ?_
    have := List.mem_range.1 hk
    omega
  rw [run_memWrite_of_mapped hcheck] at hrun
  refine ⟨_, hrun, rfl, ⟨fun k hk => ?_, fun k hge hk => ?_⟩, fun x hx => ?_⟩
  · -- Bytes of the file.
    have hk' : k < datas.length := by omega
    have hbyte : buffer.bytes[segment.offset.toInt.toNat + k]? = some datas[k] := by
      simp only [← hdatas, List.getElem_take, List.getElem_drop]
      exact List.getElem?_eq_getElem _
    rw [segByte, hbyte, guestByte_store_add hk' hlt.le (hmapped k (by omega))]
  · -- Bytes behind them are still the zeros of the new block.
    have hnot : ¬Within (loadBase + segment.virtualAddress).toUInt64 datas.length
        ((loadBase + segment.virtualAddress).toUInt64 + UInt64.ofNat k) := by
      have hend := hplaced.low.last
      have hlast := hplaced.last
      have hfirst := hplaced.first
      have haddr := hplaced.low.addr
      rw [Within, toNat_add_sub (by omega)]
      omega
    rw [segByte, guestByte_store_of_not_within hnot, mapRange, guestByte_setPerms,
      guestByte_addBlock, if_pos (hplaced.contains_byte hk)]
  · -- Outside the new block neither the map nor the write changes anything.
    have hnot : ¬Within (loadBase + segment.virtualAddress).toUInt64 datas.length x := by
      intro hwithin
      obtain ⟨k, hk, rfl⟩ := hwithin.exists_add
      rw [hplaced.contains_byte (by omega)] at hx
      exact absurd hx (by simp)
    rw [guestByte_store_of_not_within hnot, mapRange, guestByte_setPerms, guestByte_addBlock,
      if_neg (by simp [hx])]
    rfl

/-! ## The second loop -/

/-- A segment stays in memory as long as its bytes do. -/
theorem HoldsSegment.congr {uc' : Unicorn} (h : HoldsSegment uc buffer loadBase segment)
    (hle : segment.fileSize.toInt ≤ segment.memSize.toInt)
    (hsame : ∀ k : ℕ, (k : ℤ) < segment.memSize.toInt →
      segByte uc' loadBase segment k = segByte uc loadBase segment k) :
    HoldsSegment uc' buffer loadBase segment where
  data k hk := (hsame k (by omega)).trans (h.data k hk)
  bss k hge hk := (hsame k hk).trans (h.bss k hge hk)

/-- An empty segment needs nothing. -/
theorem HoldsSegment.of_empty (hback : segment.Backed buffer) (hzero : segment.memSize = 0) :
    HoldsSegment uc buffer loadBase segment := by
  have hle := hback.size_le
  have hms : segment.memSize.toInt = 0 := by
    rw [hzero]
    rfl
  exact ⟨fun k hk => by omega, fun k _ hk => by omega⟩

theorem MemChunk.Disjoint.not_contains {c d : MemChunk} (h : c.Disjoint d) (hc : c.IsLow)
    (hd : d.IsLow) (hx : c.region.contains x = true) : d.region.contains x = false := by
  rw [← Bool.not_eq_true, MemChunk.contains_region hd, MemChunk.Contains]
  rw [MemChunk.contains_region hc, MemChunk.Contains] at hx
  rw [MemChunk.Disjoint] at h
  omega

/-- The segments are loaded one by one, each into pages that the later ones leave alone. -/
theorem run_writeSegments
    (hplaced : ∀ segment ∈ segments, segment.memSize ≠ 0 → Placed loadBase segment)
    (hback : ∀ segment ∈ segments, segment.Backed buffer)
    (hfree : FreeRanges uc (segmentRanges loadBase segments)) :
    ∃ uc', (writeSegments buffer loadBase segments).run uc = .ok () uc' ∧
      (∀ segment ∈ segments, HoldsSegment uc' buffer loadBase segment) ∧
      ∀ x, (∀ c ∈ segmentRanges loadBase segments, c.region.contains x = false) →
        uc'.guestByte x = uc.guestByte x := by
  induction segments generalizing uc with
  | nil => exact ⟨uc, rfl, by simp, fun _ _ => rfl⟩
  | cons segment segments ih =>
    have hback' := hback segment List.mem_cons_self
    have hplaced' := fun s hs => hplaced s (List.mem_cons_of_mem segment hs)
    have hbackAll := fun s hs => hback s (List.mem_cons_of_mem segment hs)
    rw [writeSegments]
    split
    next hzero =>
      rw [segmentRanges_cons_of_eq hzero] at hfree ⊢
      obtain ⟨uc', hrun, hholds, hframe⟩ := ih hplaced' hbackAll hfree
      exact ⟨uc', hrun, List.forall_mem_cons.2 ⟨.of_empty hback' hzero, hholds⟩, hframe⟩
    next hne =>
      rw [segmentRanges_cons_of_ne hne] at hfree ⊢
      have hp := hplaced segment List.mem_cons_self hne
      obtain ⟨uc₁, hrun₁, hregions, hholds₁, hframe₁⟩ :=
        run_writeSegment_of_backed hp hback' (hfree.unmapped _ List.mem_cons_self)
      obtain ⟨uc', hrun, hholds, hframe⟩ := ih hplaced' hbackAll (hfree.tail hregions)
      refine ⟨uc', (bind_of_ok hrun₁).trans hrun, List.forall_mem_cons.2 ⟨?_, hholds⟩, ?_⟩
      · -- The bytes of this segment are in none of the later ranges.
        refine hholds₁.congr hback'.size_le fun k hk => hframe _ fun c hc => ?_
        exact ((List.pairwise_cons.1 hfree.disjoint).1 c hc).not_contains hp.low
          (hfree.low_paged c (List.mem_cons_of_mem _ hc)).1 (hp.contains_byte hk)
      · intro x hx
        obtain ⟨hx₁, hx'⟩ := List.forall_mem_cons.1 hx
        exact (hframe x hx').trans (hframe₁ x hx₁)

/-! ## The image -/

/-- The load of `elf` succeeds: every segment is in memory, and no byte outside the chunk that
was reserved for it has changed. -/
def LoadsImage (s : MemoryManager) (elf : ElfFile) : Prop :=
  ∃ chunk t, (s.incrementalAllocator.reserve (moduleSize elf)).2 = .ok chunk ∧
    (writeSegmentsToMemory elf).run s = .ok (chunk.addr, moduleSize elf) t ∧
    (∀ segment ∈ elf.getLoadSegments, HoldsSegment t.uc elf.buffer chunk.addr segment) ∧
    ∀ x : UInt64, ¬chunk.Contains x.toNat → t.uc.guestByte x = s.uc.guestByte x

/-- The load of `elf` is refused for lack of space and leaves memory alone. -/
def RefusesLoad (s : MemoryManager) (elf : ElfFile) : Prop :=
  ∃ t, (writeSegmentsToMemory elf).run s = .error (.memError "空间不足") t ∧ t.uc = s.uc

theorem MemChunk.Inside.contains_eq_false {c chunk : MemChunk} (h : c.Inside chunk)
    (hc : c.IsLow) (hx : ¬chunk.Contains x.toNat) : c.region.contains x = false := by
  obtain ⟨hfirst, hlast⟩ := h
  rw [← Bool.not_eq_true, MemChunk.contains_region hc]
  rw [MemChunk.Contains] at hx ⊢
  omega

theorem loadsImage_of_free {s : MemoryManager} {elf : ElfFile} (hready : Ready s)
    (hfits : Fits s.incrementalAllocator.pos.toInt elf.getLoadSegments)
    (hback : ∀ segment ∈ elf.getLoadSegments, segment.Backed elf.buffer)
    (hfree : FreeRanges s.uc (segmentRanges s.incrementalAllocator.pos elf.getLoadSegments)) :
    if s.incrementalAllocator.pos > s.incrementalAllocator.end_ then RefusesLoad s elf
    else LoadsImage s elf := by
  have hmod := hfits.moduleFits hready.nonneg
  obtain ⟨chunk, haddr, hsize, -, -, hret⟩ :=
    reserve_of_fits hready.nonneg hmod.size_nonneg hmod.size_lt
  split
  next hgt =>
    -- `reserve` throws before anything is mapped.
    rw [if_pos hgt] at hret
    exact ⟨_, run_writeSegmentsToMemory_of_error hret, rfl⟩
  next hle =>
    rw [if_neg hle] at hret
    obtain ⟨uc', hrun, hholds, hframe⟩ := run_writeSegments
      (fun segment hmem hne => hfits.placed hready.nonneg hready.page hmem hne) hback hfree
    refine ⟨chunk,
      { s with
        incrementalAllocator := (s.incrementalAllocator.reserve (moduleSize elf)).1
        uc := uc' },
      hret, ?_, ?_, fun x hx => hframe x fun c hc => ?_⟩
    · rw [run_writeSegmentsToMemory hret, haddr, hrun]
    · rw [haddr]
      exact hholds
    · -- The ranges of the segments lie in the chunk.
      obtain ⟨segment, hmem, hne, rfl⟩ := mem_segmentRanges.1 hc
      have hinside := segmentRange_inside hready.nonneg hready.page hfits hmem hne haddr hsize
        (hmod.le_size segment hmem hne)
      have hlow := segmentRange_isLow hready.nonneg hready.page hfits hmem hne
      exact hinside.contains_eq_false hlow hx

/-- After any run of requests that fit: a module whose segments are backed by the file, stay
within the addresses of a `long` and are mapped at free ranges is loaded with its image, unless
`pos` is beyond the region for modules. -/
theorem loaded_image (s : MemoryManager) (reqs : List Request)
    (hfresh : s.incrementalAllocator = ⟨modulesMin, modulesMax⟩) (hrun : AllFit s reqs)
    (elf : ElfFile)
    (hfits : Fits (serveAll s reqs).1.incrementalAllocator.pos.toInt elf.getLoadSegments)
    (hback : ∀ segment ∈ elf.getLoadSegments, segment.Backed elf.buffer)
    (hdisj : (segmentRanges (serveAll s reqs).1.incrementalAllocator.pos
      elf.getLoadSegments).Pairwise MemChunk.Disjoint)
    (hunmapped : ∀ c ∈ segmentRanges (serveAll s reqs).1.incrementalAllocator.pos
      elf.getLoadSegments, (serveAll s reqs).1.uc.memoryOverlap c.region = false) :
    let s' := (serveAll s reqs).1
    if s'.incrementalAllocator.pos > s'.incrementalAllocator.end_ then RefusesLoad s' elf
    else LoadsImage s' elf := by
  have hready := ready_serveAll (ready_of_fresh hfresh) hrun
  exact loadsImage_of_free hready hfits hback
    ⟨fun c hc => segmentRanges_low_paged hready.nonneg hready.page hfits hc, hunmapped, hdisj⟩

/-- A file with one segment, which holds the bytes of the file. -/
def oneSegmentFile (virtualAddress memSize : Int64) (buffer : ByteBuffer) : ElfFile where
  buffer
  fileType := ElfFile.ftDyn
  segments :=
    [{  type := ElfSegment.ptLoad
        offset := 0
        virtualAddress
        fileSize := Int64.ofNat buffer.bytes.length
        memSize
        flags := 6 }]
  sections := []

theorem loaded_image_small :
    LoadsImage fresh (oneSegmentFile 0x10 0x20 ⟨[1, 2, 3], by decide⟩) := by
  have himage := loaded_image fresh [] rfl trivial
    (oneSegmentFile 0x10 0x20 ⟨[1, 2, 3], by decide⟩)
    ⟨by decide +kernel, by decide +kernel, by decide +kernel⟩
    (by
      intro segment hmem
      rw [List.mem_singleton.1 hmem]
      exact ⟨by decide, by decide, by decide, by decide⟩)
    (by decide +kernel) (by decide +kernel)
  exact himage

/-- The load address of this segment is `2 ^ 63`, which is negative as a `long`: rounding towards
zero adds a page, and the last page that is mapped lies behind the chunk. -/
theorem image_outside_chunk :
    ¬LoadsImage fresh (oneSegmentFile 0x7FFFFFFF60000000 1 ⟨[7], by decide⟩) := by
  rintro ⟨chunk, t, hret, hrun, -, hframe⟩
  have hchunk : chunk = ⟨0xA0000000, 0x7FFFFFFF60001000⟩ := by
    have heq : (fresh.incrementalAllocator.reserve
        (moduleSize (oneSegmentFile 0x7FFFFFFF60000000 1 ⟨[7], by decide⟩))).2 =
        .ok ⟨0xA0000000, 0x7FFFFFFF60001000⟩ := by
      decide +kernel
    rw [heq] at hret
    exact (Except.ok.inj hret).symm
  -- This byte is behind the chunk; it was unmapped and is now zero.
  have hbyte := hframe 0x8000000000001000 (by rw [hchunk]; decide +kernel)
  have ht : t = finalState ((writeSegmentsToMemory
      (oneSegmentFile 0x7FFFFFFF60000000 1 ⟨[7], by decide⟩)).run fresh) := by
    rw [hrun]
    rfl
  rw [ht] at hbyte
  exact absurd hbyte (by decide +kernel)

end Tank
