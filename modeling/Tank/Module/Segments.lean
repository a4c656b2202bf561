import Tank.Memory.IncrementalAllocator
import Tank.Module.ElfFile
import Tank.ToMathlib.EState

/-!
# Loading the segments of a module

`writeSegmentsToMemory` computes the bounds of the loadable segments, reserves pages for them and
then maps and writes the segments one by one.

`Fits pos segments`: the segments, loaded at `pos`, stay within the addresses of a `long`. Then
the reserved chunk is `[pos, pos + pageEnd top)` (`reserve_of_fits`), and each segment is
mapped at the pages from its first to the one after its last byte (`segmentRange_isLow` and the
lemmas after it), which lie in the chunk (`segmentRange_inside`).
-/

namespace Tank

open ToMathlib MemoryManager

/-! ## The code -/

/-- The first loop of `writeSegmentsToMemory`: the bounds of the segments that are not empty. -/
def moduleBounds : List ElfSegment → Int64 × Int64 → Int64 × Int64
  | [], bounds => bounds
  | segment :: segments, (boundLow, boundHigh) =>
    if segment.memSize = 0 then moduleBounds segments (boundLow, boundHigh)
    else
      -- Both bounds start at zero, so `boundLow` moves only for a negative address.
      let boundLow := if boundLow > segment.virtualAddress then segment.virtualAddress else boundLow
      let high := segment.virtualAddress + segment.memSize
      let boundHigh := if boundHigh < high then high else boundHigh
      moduleBounds segments (boundLow, boundHigh)

/-- `get_segment_protection`: the tests use `|`, so that every segment gets all permissions. -/
def getSegmentProtection (protIn : Int32) : Int32 :=
  let prot : Int32 := 0
  let prot := if protIn ||| 4 ≠ 0 then prot ||| 1 else prot
  let prot := if protIn ||| 2 ≠ 0 then prot ||| 2 else prot
  if protIn ||| 1 ≠ 0 then prot ||| 4 else prot

/-- The pages that a segment is mapped at. -/
def segmentRange (loadBase : Int64) (segment : ElfSegment) : MemChunk :=
  align (loadBase + segment.virtualAddress) segment.memSize true

/-- The body of the second loop of `writeSegmentsToMemory`. -/
def writeSegment (buffer : ByteBuffer) (loadBase : Int64) (segment : ElfSegment) : UcM Unit := do
  let segDstAddr := loadBase + segment.virtualAddress
  Unicorn.memMap (segmentRange loadBase segment) (getSegmentProtection segment.flags)
  -- The pages stay mapped if the bytes of the segment cannot be read.
  let datas ← getOrThrow (segment.getData buffer)
  Unicorn.memWrite segDstAddr datas

/-- The second loop of `writeSegmentsToMemory`. -/
def writeSegments (buffer : ByteBuffer) (loadBase : Int64) : List ElfSegment → UcM Unit
  | [] => pure ()
  | segment :: segments =>
    if segment.memSize = 0 then writeSegments buffer loadBase segments
    else do
      writeSegment buffer loadBase segment
      writeSegments buffer loadBase segments

/-- The size that a module asks for. -/
def moduleSize (elf : ElfFile) : Int64 :=
  let (boundLow, boundHigh) := moduleBounds elf.getLoadSegments (0, 0)
  boundHigh - boundLow

/-- `writeSegmentsToMemory`: the load base and the size of the module. -/
def writeSegmentsToMemory (elf : ElfFile) : MemM (Int64 × Int64) := do
  let chunk ← reserveModule (moduleSize elf)
  let loadBase := chunk.addr
  liftUc (writeSegments elf.buffer loadBase elf.getLoadSegments)
  pure (loadBase, moduleSize elf)

/-! ## Bounds -/

/-- Loaded at `pos`, the segments stay within the addresses of a `long`. -/
structure Fits (pos : ℤ) (segments : List ElfSegment) : Prop where
  room : pos + 0x1000 < 2 ^ 63
  nonneg : ∀ segment ∈ segments, segment.memSize ≠ 0 →
    0 ≤ segment.virtualAddress.toInt ∧ 0 ≤ segment.memSize.toInt
  last : ∀ segment ∈ segments, segment.memSize ≠ 0 →
    pos + pageEnd (segment.virtualAddress.toInt + segment.memSize.toInt) < 2 ^ 63

variable {pos : ℤ} {segments : List ElfSegment} {segment : ElfSegment} {loadBase : Int64}

theorem Fits.tail (h : Fits pos (segment :: segments)) : Fits pos segments where
  room := h.room
  nonneg s hs := h.nonneg s (List.mem_cons_of_mem _ hs)
  last s hs := h.last s (List.mem_cons_of_mem _ hs)

/-- One round of the first loop raises the upper bound to the end of the segment. -/
theorem moduleBounds_cons_of_ne (hpos : 0 ≤ pos) (hfits : Fits pos (segment :: segments))
    (hne : segment.memSize ≠ 0) (high : Int64) :
    ∃ high' : Int64,
      moduleBounds (segment :: segments) (0, high) = moduleBounds segments (0, high') ∧
        high'.toInt =
          max high.toInt (segment.virtualAddress.toInt + segment.memSize.toInt) := by
  obtain ⟨hva, hms⟩ := hfits.nonneg segment List.mem_cons_self hne
  have hlast := hfits.last segment List.mem_cons_self hne
  have htop : (segment.virtualAddress + segment.memSize).toInt =
      segment.virtualAddress.toInt + segment.memSize.toInt := by
    rw [pageEnd] at hlast
    exact toInt_add_of_bounds (by omega) (by omega)
  -- No segment starts below zero, where the lower bound begins.
  have hlow : ¬(0 : Int64) > segment.virtualAddress := by
    rw [gt_iff_lt, Int64.lt_iff_toInt_lt]
    exact not_lt.2 hva
  rw [moduleBounds, if_neg hne, if_neg hlow]
  refine ⟨_, rfl, ?_⟩
  rw [← htop]
  split
  next hlt => rw [max_eq_right (Int64.lt_iff_toInt_lt.1 hlt).le]
  next hlt =>
    rw [Int64.lt_iff_toInt_lt, not_lt] at hlt
    rw [max_eq_left hlt]

/-- The first loop keeps the lower bound at zero and finds the end of the highest segment. -/
theorem moduleBounds_of_fits (hpos : 0 ≤ pos) (hfits : Fits pos segments) {high : Int64}
    (hhigh : 0 ≤ high.toInt) (hroom : pos + pageEnd high.toInt < 2 ^ 63) :
    (moduleBounds segments (0, high)).1 = 0 ∧
      0 ≤ (moduleBounds segments (0, high)).2.toInt ∧
      pos + pageEnd (moduleBounds segments (0, high)).2.toInt < 2 ^ 63 ∧
      high.toInt ≤ (moduleBounds segments (0, high)).2.toInt ∧
      ∀ segment ∈ segments, segment.memSize ≠ 0 →
        segment.virtualAddress.toInt + segment.memSize.toInt ≤
          (moduleBounds segments (0, high)).2.toInt := by
  induction segments generalizing high with
  | nil => exact ⟨rfl, hhigh, hroom, le_rfl, by simp⟩
  | cons segment segments ih =>
    by_cases hzero : segment.memSize = 0
    · -- An empty segment is skipped.
      rw [moduleBounds, if_pos hzero]
      obtain ⟨hlow, hge, hlast, hle, hall⟩ := ih hfits.tail hhigh hroom
      exact ⟨hlow, hge, hlast, hle,
        List.forall_mem_cons.2 ⟨fun hne => absurd hzero hne, hall⟩⟩
    · obtain ⟨high', heq, hmax⟩ := moduleBounds_cons_of_ne hpos hfits hzero high
      have hroom' : pos + pageEnd high'.toInt < 2 ^ 63 := by
        rw [hmax]
        rcases max_choice high.toInt (segment.virtualAddress.toInt + segment.memSize.toInt)
          with hchoice | hchoice <;> rw [hchoice]
        · exact hroom
        · exact hfits.last segment List.mem_cons_self hzero
      rw [heq]
      obtain ⟨hlow, hge, hlast, hle, hall⟩ := ih hfits.tail (by omega) hroom'
      exact ⟨hlow, hge, hlast, by omega, List.forall_mem_cons.2 ⟨fun _ => by omega, hall⟩⟩

/-- What a module that fits asks for. -/
structure ModuleFits (pos : ℤ) (elf : ElfFile) : Prop extends Fits pos elf.getLoadSegments where
  size_nonneg : 0 ≤ (moduleSize elf).toInt
  size_lt : pos + pageEnd (moduleSize elf).toInt < 2 ^ 63
  le_size : ∀ segment ∈ elf.getLoadSegments, segment.memSize ≠ 0 →
    segment.virtualAddress.toInt + segment.memSize.toInt ≤ (moduleSize elf).toInt

theorem Fits.moduleFits {elf : ElfFile} (hfits : Fits pos elf.getLoadSegments) (hpos : 0 ≤ pos) :
    ModuleFits pos elf := by
  have hzero : (0 : Int64).toInt = 0 := rfl
  have hroom : pos + pageEnd (0 : Int64).toInt < 2 ^ 63 := hfits.room
  obtain ⟨hlow, hge, hlast, -, hall⟩ := moduleBounds_of_fits hpos hfits le_rfl hroom
  have hsize : moduleSize elf = (moduleBounds elf.getLoadSegments (0, 0)).2 := by
    simp only [moduleSize]
    rw [hlow]
    simp
  exact ⟨hfits, by rwa [hsize], by rwa [hsize], by rwa [hsize]⟩

/-! ## The pages of a segment -/

section Range

variable (hpos : 0 ≤ loadBase.toInt) (hpage : 0x1000 ∣ loadBase.toInt)
  (hfits : Fits loadBase.toInt segments) (hmem : segment ∈ segments) (hne : segment.memSize ≠ 0)

include hpos hfits hmem hne

theorem Fits.segDst_toInt :
    (loadBase + segment.virtualAddress).toInt =
      loadBase.toInt + segment.virtualAddress.toInt := by
  obtain ⟨hva, hms⟩ := hfits.nonneg segment hmem hne
  have hlast := hfits.last segment hmem hne
  rw [pageEnd] at hlast
  exact toInt_add_of_bounds (by omega) (by omega)

include hpage

theorem Fits.pageEnd_segDst :
    pageEnd ((loadBase + segment.virtualAddress).toInt + segment.memSize.toInt) =
      loadBase.toInt + pageEnd (segment.virtualAddress.toInt + segment.memSize.toInt) := by
  rw [hfits.segDst_toInt hpos hmem hne, pageEnd, pageEnd]
  omega

/-- The hypotheses of the lemmas on `align`, for a segment. -/
theorem Fits.align_hyps :
    0 ≤ (loadBase + segment.virtualAddress).toInt ∧ 0 ≤ segment.memSize.toInt ∧
      pageEnd ((loadBase + segment.virtualAddress).toInt + segment.memSize.toInt) < 2 ^ 63 := by
  obtain ⟨hva, hms⟩ := hfits.nonneg segment hmem hne
  have hlast := hfits.last segment hmem hne
  rw [hfits.pageEnd_segDst hpos hpage hmem hne, hfits.segDst_toInt hpos hmem hne]
  exact ⟨by omega, hms, hlast⟩

theorem segmentRange_isLow : (segmentRange loadBase segment).IsLow := by
  obtain ⟨haddr, hsize, hend⟩ := hfits.align_hyps hpos hpage hmem hne
  exact align_isLow haddr hsize hend

theorem segmentRange_isPaged : (segmentRange loadBase segment).IsPaged := by
  obtain ⟨haddr, hsize, hend⟩ := hfits.align_hyps hpos hpage hmem hne
  exact align_isPaged haddr hsize (lt_trans (lt_pageEnd _) hend)

/-- The first page of a segment. -/
theorem segmentRange_addr :
    (segmentRange loadBase segment).addr.toInt =
      loadBase.toInt + segment.virtualAddress.toInt / 0x1000 * 0x1000 := by
  obtain ⟨haddr, hsize, hend⟩ := hfits.align_hyps hpos hpage hmem hne
  rw [segmentRange, align_addr haddr _, hfits.segDst_toInt hpos hmem hne]
  omega

/-- The end of the last page of a segment. -/
theorem segmentRange_end :
    (segmentRange loadBase segment).addr.toInt + (segmentRange loadBase segment).size.toInt =
      loadBase.toInt + pageEnd (segment.virtualAddress.toInt + segment.memSize.toInt) := by
  obtain ⟨haddr, hsize, hend⟩ := hfits.align_hyps hpos hpage hmem hne
  rw [segmentRange, align_end haddr hsize hend, hfits.pageEnd_segDst hpos hpage hmem hne]

end Range

/-! ## Mapping one segment -/

theorem or_ne_zero {p q : Int32} {k : ℕ} (hq : q.toBitVec.getLsbD k = true) : p ||| q ≠ 0 := by
  intro h
  have hbit := congrArg (fun v : Int32 => v.toBitVec.getLsbD k) h
  simp only [Int32.toBitVec_or, BitVec.getLsbD_or, hq, Bool.or_true] at hbit
  simp at hbit

/-- Every segment is mapped with all permissions. -/
theorem getSegmentProtection_eq (protIn : Int32) : getSegmentProtection protIn = ucProtAll := by
  have h₄ : protIn ||| 4 ≠ 0 := or_ne_zero (k := 2) (by decide)
  have h₂ : protIn ||| 2 ≠ 0 := or_ne_zero (k := 1) (by decide)
  have h₁ : protIn ||| 1 ≠ 0 := or_ne_zero (k := 0) (by decide)
  simp only [getSegmentProtection, if_pos h₄, if_pos h₂, if_pos h₁]
  rfl

/-- The engine after the pages of a segment are mapped. -/
def mapRange (uc : Unicorn) (range : MemChunk) : Unicorn :=
  ((uc.logMap range).addBlock range.region).setPerms range.region ucProtAll.toUInt32

/-- A segment whose pages are free is mapped, and then its bytes are read and written. -/
theorem run_writeSegment (buffer : ByteBuffer) {uc : Unicorn}
    (hlow : (segmentRange loadBase segment).IsLow)
    (hpaged : (segmentRange loadBase segment).IsPaged)
    (hfree : uc.memoryOverlap (segmentRange loadBase segment).region = false) :
    (writeSegment buffer loadBase segment).run uc =
      match segment.getData buffer with
      | .error err => .error err (mapRange uc (segmentRange loadBase segment))
      | .ok datas =>
        (Unicorn.memWrite (loadBase + segment.virtualAddress) datas).run
          (mapRange uc (segmentRange loadBase segment)) := by
  have hcheck : uc.memMapCheck (segmentRange loadBase segment).region
      (getSegmentProtection segment.flags).toUInt32 = none := by
    rw [getSegmentProtection_eq, Unicorn.memMapCheck_of_isLow hlow hpaged (by decide), hfree]
    rfl
  have hmap : (Unicorn.memMap (segmentRange loadBase segment)
      (getSegmentProtection segment.flags)).run uc =
        .ok () (mapRange uc (segmentRange loadBase segment)) := by
    rw [Unicorn.run_memMap, hcheck, getSegmentProtection_eq]
    rfl
  rw [writeSegment, bind_of_ok hmap]
  cases hdata : segment.getData buffer with
  | ok datas => exact bind_of_ok rfl
  | error err => exact bind_of_error rfl

/-- A load whose chunk was reserved is the second loop. -/
theorem run_writeSegmentsToMemory {s : MemoryManager} {elf : ElfFile} {chunk : MemChunk}
    (h : (s.incrementalAllocator.reserve (moduleSize elf)).2 = .ok chunk) :
    (writeSegmentsToMemory elf).run s =
      match (writeSegments elf.buffer chunk.addr elf.getLoadSegments).run s.uc with
      | .ok _ uc => .ok (chunk.addr, moduleSize elf)
          { s with
            incrementalAllocator := (s.incrementalAllocator.reserve (moduleSize elf)).1
            uc }
      | .error err uc => .error err
          { s with
            incrementalAllocator := (s.incrementalAllocator.reserve (moduleSize elf)).1
            uc } := by
  rw [writeSegmentsToMemory, bind_of_ok (reserveModule_of_ok h)]
  -- Both ends of the loop leave the moved allocator and the engine it stopped with.
  cases hrun : (writeSegments elf.buffer chunk.addr elf.getLoadSegments).run s.uc with
  | ok _ uc =>
    refine bind_of_ok (a := ()) ?_
    simp only [EStateM.run, liftUc] at hrun ⊢
    rw [hrun]
  | error err uc =>
    refine bind_of_error ?_
    simp only [EStateM.run, liftUc] at hrun ⊢
    rw [hrun]

/-- A load for which `reserve` throws does nothing else. -/
theorem run_writeSegmentsToMemory_of_error {s : MemoryManager} {elf : ElfFile}
    {err : JavaException}
    (h : (s.incrementalAllocator.reserve (moduleSize elf)).2 = .error err) :
    (writeSegmentsToMemory elf).run s = .error err
      { s with
        incrementalAllocator := (s.incrementalAllocator.reserve (moduleSize elf)).1 } := by
  rw [writeSegmentsToMemory, bind_of_error (reserveModule_of_error h)]

end Tank
