import Tank.Module.Segments

/-!
# Layout of modules and mapped regions

Runs of module loads and `mmap` calls on one memory manager; an exception is caught by the caller
and leaves the effects it came after.

* `noCollision_run`: as long as no `long` overflows, the chunks handed out by `reserve` are
  disjoint and everything mapped for a module lies in its chunk. `reserve` has no upper bound, so
  that a run may overflow, and then chunks collide (`collision_overflow`).
* `disjoint_segmentRanges_iff`: segments on different pages are mapped at disjoint ranges, unless
  one ends exactly where the first page of another begins; then the load is rejected
  (`rejected_adjacent_segments`).
-/

namespace Tank

open ToMathlib MemoryManager
open IncrementalAllocator (reserve_of_fits)

/-! ## Histories of `mem_map` -/

/-- From `uc` to `uc'` the engine was only asked to map chunks that satisfy `P`. -/
def Unicorn.MapsOnly (P : MemChunk → Prop) (uc uc' : Unicorn) : Prop :=
  ∃ calls, uc'.mapCalls = calls ++ uc.mapCalls ∧ ∀ c ∈ calls, P c

namespace Unicorn

variable {P : MemChunk → Prop}

instance MapsOnly.isPreorder : IsPreorder Unicorn (MapsOnly P) where
  refl _ := ⟨[], rfl, by simp⟩
  trans _ _ _ h₁₂ h₂₃ := by
    obtain ⟨calls, hcalls, hP⟩ := h₁₂
    obtain ⟨calls', hcalls', hP'⟩ := h₂₃
    refine ⟨calls' ++ calls, by rw [hcalls', hcalls, List.append_assoc], fun c hc => ?_⟩
    rcases List.mem_append.1 hc with hc | hc
    · exact hP' c hc
    · exact hP c hc

theorem MapsOnly.mono {Q : MemChunk → Prop} {uc uc' : Unicorn} (h : MapsOnly P uc uc')
    (hPQ : ∀ c, P c → Q c) : MapsOnly Q uc uc' := by
  obtain ⟨calls, hcalls, hP⟩ := h
  exact ⟨calls, hcalls, fun c hc => hPQ c (hP c hc)⟩

theorem keeps_memMap {chunk : MemChunk} (hP : P chunk) (perms : Int32) :
    Keeps (MapsOnly P) (memMap chunk perms) := by
  intro uc
  refine ⟨[chunk], ?_, by simpa using hP⟩
  rw [run_memMap]
  split <;> rfl

theorem keeps_memWrite (address : Int64) (bytes : List UInt8) :
    Keeps (MapsOnly P) (memWrite address bytes) := by
  intro uc
  refine ⟨[], ?_, by simp⟩
  rw [run_memWrite]
  split <;> rfl

end Unicorn

open Unicorn

/-- The segments that are mapped. -/
def occupied (segments : List ElfSegment) : List ElfSegment :=
  segments.filter fun segment => segment.memSize ≠ 0

/-- The chunks that the segments are mapped at, in the order of the calls. -/
def segmentRanges (loadBase : Int64) (segments : List ElfSegment) : List MemChunk :=
  (occupied segments).map (segmentRange loadBase)

theorem mem_segmentRanges {loadBase : Int64} {segments : List ElfSegment} {c : MemChunk} :
    c ∈ segmentRanges loadBase segments ↔
      ∃ segment ∈ segments, segment.memSize ≠ 0 ∧ segmentRange loadBase segment = c := by
  simp [segmentRanges, occupied, and_assoc]

theorem keeps_writeSegment {P : MemChunk → Prop} (buffer : ByteBuffer) {loadBase : Int64}
    {segment : ElfSegment} (hP : P (segmentRange loadBase segment)) :
    Keeps (MapsOnly P) (writeSegment buffer loadBase segment) :=
  Keeps.bind (keeps_memMap hP _) fun _ =>
    Keeps.bind (Keeps.getOrThrow _) fun _ => keeps_memWrite _ _

/-- Whether or not it succeeds, a load maps nothing but the ranges of its segments. -/
theorem keeps_writeSegments (buffer : ByteBuffer) (loadBase : Int64) (segments : List ElfSegment) :
    Keeps (MapsOnly (· ∈ segmentRanges loadBase segments))
      (writeSegments buffer loadBase segments) := by
  -- The induction shortens the list, but the ranges are those of the whole file.
  suffices h : ∀ all : List ElfSegment, segments ⊆ all →
      Keeps (MapsOnly (· ∈ segmentRanges loadBase all)) (writeSegments buffer loadBase segments) by
    exact h segments (List.Subset.refl _)
  intro all hsub
  induction segments with
  | nil => exact Keeps.pure ()
  | cons segment segments ih =>
    have hrest := ih (List.Subset.trans (List.subset_cons_self _ _) hsub)
    rw [writeSegments]
    split
    next => exact hrest
    next hne =>
      have hmem : segmentRange loadBase segment ∈ segmentRanges loadBase all :=
        mem_segmentRanges.2 ⟨segment, hsub List.mem_cons_self, hne, rfl⟩
      exact Keeps.bind (keeps_writeSegment buffer hmem) fun _ => hrest

/-! ## Runs of requests -/

/-- A request for guest memory. -/
inductive Request where
  | load (elf : ElfFile)
  | mmap (size : Int64) (prot : Int32)

namespace Request

/-- The size that a request passes to `reserve`. -/
def size : Request → Int64
  | .load elf => moduleSize elf
  | .mmap size _ => size

/-- The memory manager after a request, also if it ended in an exception. -/
def after (s : MemoryManager) : Request → MemoryManager
  | .load elf => finalState ((writeSegmentsToMemory elf).run s)
  | .mmap size prot => finalState ((MemoryManager.mmap size prot).run s)

end Request

/-- A chunk that `reserve` returned, with the ranges that were passed to `mem_map` for it. -/
structure Reservation where
  chunk : MemChunk
  mapped : List MemChunk
deriving DecidableEq, Repr

/-- The calls of `mem_map` between two states. -/
def newCalls (s s' : MemoryManager) : List MemChunk :=
  s'.uc.mapCalls.take (s'.uc.mapCalls.length - s.uc.mapCalls.length)

/-- One request: the state after it and the reservation it made, if `reserve` returned. -/
def serve (s : MemoryManager) (req : Request) : MemoryManager × Option Reservation :=
  match (s.incrementalAllocator.reserve req.size).2 with
  | .ok chunk => (req.after s, some ⟨chunk, newCalls s (req.after s)⟩)
  | .error _ => (req.after s, none)

/-- The state and the reservations after a sequence of requests. -/
def serveAll : MemoryManager → List Request → MemoryManager × List Reservation
  | s, [] => (s, [])
  | s, req :: reqs =>
    let (s', made) := serve s req
    let (s'', more) := serveAll s' reqs
    (s'', made.toList ++ more)

/-- Served from `pos`, the request stays within the addresses of a `long`. -/
def Request.FitsAt (pos : ℤ) : Request → Prop
  | .load elf => Fits pos elf.getLoadSegments
  | .mmap size _ => 0 ≤ size.toInt ∧ pos + pageEnd size.toInt < 2 ^ 63

/-- Every request of the sequence fits at the position it is served from. -/
def AllFit : MemoryManager → List Request → Prop
  | _, [] => True
  | s, req :: reqs =>
    req.FitsAt s.incrementalAllocator.pos.toInt ∧ AllFit (req.after s) reqs

/-! ## One request -/

/-- What a request does with its chunk. -/
def Request.body (chunk : MemChunk) : Request → UcM Unit
  | .load elf => writeSegments elf.buffer chunk.addr elf.getLoadSegments
  | .mmap _ prot => memMap ⟨chunk.addr, chunk.size⟩ prot

variable {s : MemoryManager} {req : Request} {chunk : MemChunk} {reqs : List Request}

theorem after_of_ok (h : (s.incrementalAllocator.reserve req.size).2 = .ok chunk) :
    req.after s =
      { s with
        incrementalAllocator := (s.incrementalAllocator.reserve req.size).1
        uc := finalState ((req.body chunk).run s.uc) } := by
  cases req with
  | load elf =>
    rw [Request.size] at h ⊢
    rw [Request.after, writeSegmentsToMemory, bind_of_ok (reserveModule_of_ok h),
      finalState_bind_pure, finalState_liftUc]
    rfl
  | mmap size prot =>
    rw [Request.size] at h ⊢
    rw [Request.after, MemoryManager.mmap, bind_of_ok (reserveModule_of_ok h),
      finalState_bind_pure, finalState_liftUc]
    rfl

theorem after_of_error {err : JavaException}
    (h : (s.incrementalAllocator.reserve req.size).2 = .error err) :
    req.after s =
      { s with incrementalAllocator := (s.incrementalAllocator.reserve req.size).1 } := by
  cases req with
  | load elf =>
    rw [Request.size] at h ⊢
    rw [Request.after, writeSegmentsToMemory, bind_of_error (reserveModule_of_error h)]
    rfl
  | mmap size prot =>
    rw [Request.size] at h ⊢
    rw [Request.after, MemoryManager.mmap, bind_of_error (reserveModule_of_error h)]
    rfl

theorem after_incrementalAllocator :
    (req.after s).incrementalAllocator = (s.incrementalAllocator.reserve req.size).1 := by
  cases h : (s.incrementalAllocator.reserve req.size).2 with
  | ok chunk => rw [after_of_ok h]
  | error err => rw [after_of_error h]

/-- `pos` is a page that a `long` can address without a sign. -/
structure Ready (s : MemoryManager) : Prop where
  nonneg : 0 ≤ s.incrementalAllocator.pos.toInt
  page : 0x1000 ∣ s.incrementalAllocator.pos.toInt

theorem ready_of_fresh (hfresh : s.incrementalAllocator = ⟨modulesMin, modulesMax⟩) : Ready s := by
  constructor <;> rw [hfresh] <;> decide

theorem Request.FitsAt.size_bounds {pos : ℤ} (h : req.FitsAt pos) (hpos : 0 ≤ pos) :
    0 ≤ req.size.toInt ∧ pos + pageEnd req.size.toInt < 2 ^ 63 := by
  cases req with
  | load elf => exact ⟨(Fits.moduleFits h hpos).size_nonneg, (Fits.moduleFits h hpos).size_lt⟩
  | mmap size prot => exact h

/-- The chunk `inner` lies in `outer`. -/
def MemChunk.Inside (inner outer : MemChunk) : Prop :=
  outer.addr.toInt ≤ inner.addr.toInt ∧
    inner.addr.toInt + inner.size.toInt ≤ outer.addr.toInt + outer.size.toInt

theorem segmentRange_inside {segments : List ElfSegment} {segment : ElfSegment} {loadBase : Int64}
    (hpos : 0 ≤ loadBase.toInt) (hpage : 0x1000 ∣ loadBase.toInt)
    (hfits : Fits loadBase.toInt segments) (hmem : segment ∈ segments)
    (hne : segment.memSize ≠ 0) {top : ℤ} (haddr : chunk.addr = loadBase)
    (hsize : chunk.size.toInt = pageEnd top)
    (htop : segment.virtualAddress.toInt + segment.memSize.toInt ≤ top) :
    (segmentRange loadBase segment).Inside chunk := by
  have hva := (hfits.nonneg segment hmem hne).1
  have hstart := segmentRange_addr hpos hpage hfits hmem hne
  have hstop := segmentRange_end hpos hpage hfits hmem hne
  constructor
  · rw [haddr, hstart]
    omega
  · rw [haddr, hstop, hsize, pageEnd, pageEnd]
    omega

/-- A request that fits maps only pages of its chunk. -/
theorem keeps_body (hready : Ready s) (hfit : req.FitsAt s.incrementalAllocator.pos.toInt)
    (haddr : chunk.addr = s.incrementalAllocator.pos)
    (hsize : chunk.size.toInt = pageEnd req.size.toInt) :
    Keeps (MapsOnly (MemChunk.Inside · chunk)) (req.body chunk) := by
  cases req with
  | load elf =>
    have hmod := Fits.moduleFits hfit hready.nonneg
    refine fun uc => (keeps_writeSegments elf.buffer chunk.addr elf.getLoadSegments uc).mono ?_
    intro c hc
    rw [haddr] at hc
    obtain ⟨segment, hmem, hne, rfl⟩ := mem_segmentRanges.1 hc
    exact segmentRange_inside hready.nonneg hready.page hmod.toFits hmem hne haddr hsize
      (hmod.le_size segment hmem hne)
  | mmap size prot => exact keeps_memMap ⟨le_rfl, le_rfl⟩ prot

theorem newCalls_of_mapsOnly {P : MemChunk → Prop} {s' : MemoryManager}
    (h : MapsOnly P s.uc s'.uc) : ∀ c ∈ newCalls s s', P c := by
  obtain ⟨calls, hcalls, hP⟩ := h
  have hnew : newCalls s s' = calls := by
    rw [newCalls, hcalls, List.length_append, Nat.add_sub_cancel, List.take_left]
  rw [hnew]
  exact hP

/-- What one request that fits reserves and maps. -/
theorem serve_spec (hready : Ready s) (hfit : req.FitsAt s.incrementalAllocator.pos.toInt) :
    Ready (req.after s) ∧
      (req.after s).incrementalAllocator.pos.toInt =
        s.incrementalAllocator.pos.toInt + pageEnd req.size.toInt ∧
      ∀ r ∈ (serve s req).2, r.chunk.addr = s.incrementalAllocator.pos ∧
        r.chunk.size.toInt = pageEnd req.size.toInt ∧ ∀ c ∈ r.mapped, c.Inside r.chunk := by
  obtain ⟨hnonneg, hlt⟩ := hfit.size_bounds hready.nonneg
  -- The allocator moves by whole pages whether or not it hands the chunk out.
  obtain ⟨chunk, haddr, hsize, hpos, -, hret⟩ := reserve_of_fits hready.nonneg hnonneg hlt
  have hnext : (req.after s).incrementalAllocator.pos.toInt =
      s.incrementalAllocator.pos.toInt + pageEnd req.size.toInt := by
    rw [after_incrementalAllocator, hpos]
  have hpage := hready.page
  have hstart := hready.nonneg
  refine ⟨⟨?_, ?_⟩, hnext, fun r hr => ?_⟩
  · rw [hnext, pageEnd]
    omega
  · rw [hnext, pageEnd]
    omega
  rw [serve] at hr
  split at hret
  · rw [hret] at hr
    exact absurd hr (by simp)
  · rw [hret] at hr
    obtain rfl : r = ⟨chunk, newCalls s (req.after s)⟩ := by
      simpa [eq_comm] using hr
    refine ⟨haddr, hsize, newCalls_of_mapsOnly ?_⟩
    rw [after_of_ok hret]
    exact keeps_body hready hfit haddr hsize s.uc

/-! ## Whole runs -/

/-- Reservations are whole pages, disjoint from each other, and contain all that is mapped for
them; so nothing is mapped for two of them. -/
structure NoCollision (log : List Reservation) : Prop where
  paged : ∀ r ∈ log, r.chunk.IsPaged
  nonempty : ∀ r ∈ log, 0 < r.chunk.size.toInt
  disjoint : log.Pairwise fun r r' => r.chunk.Disjoint r'.chunk
  inside : ∀ r ∈ log, ∀ c ∈ r.mapped, c.Inside r.chunk
  separate : log.Pairwise fun r r' => ∀ c ∈ r.mapped, ∀ d ∈ r'.mapped, c.Disjoint d

theorem noCollision_nil : NoCollision [] := ⟨by simp, by simp, .nil, by simp, .nil⟩

theorem MemChunk.Inside.disjoint {c d c' d' : MemChunk} (hc : c.Inside c') (hd : d.Inside d')
    (h : c'.Disjoint d') : c.Disjoint d := by
  obtain ⟨hc₁, hc₂⟩ := hc
  obtain ⟨hd₁, hd₂⟩ := hd
  rw [MemChunk.Disjoint] at h ⊢
  omega

/-- A reservation below all others of a list that does not collide. -/
theorem NoCollision.cons {log : List Reservation} {r : Reservation} (h : NoCollision log)
    (hpaged : r.chunk.IsPaged) (hpos : 0 < r.chunk.size.toInt)
    (hinside : ∀ c ∈ r.mapped, c.Inside r.chunk)
    (hbelow : ∀ r' ∈ log, r.chunk.addr.toInt + r.chunk.size.toInt ≤ r'.chunk.addr.toInt) :
    NoCollision (r :: log) where
  paged := List.forall_mem_cons.2 ⟨hpaged, h.paged⟩
  nonempty := List.forall_mem_cons.2 ⟨hpos, h.nonempty⟩
  disjoint := List.pairwise_cons.2 ⟨fun r' hr' => .inl (hbelow r' hr'), h.disjoint⟩
  inside := List.forall_mem_cons.2 ⟨hinside, h.inside⟩
  separate := List.pairwise_cons.2 ⟨fun r' hr' c hc d hd =>
    (hinside c hc).disjoint (h.inside r' hr' d hd) (.inl (hbelow r' hr')), h.separate⟩

theorem serve_fst : (serve s req).1 = req.after s := by
  rw [serve]
  split <;> rfl

theorem serveAll_cons :
    (serveAll s (req :: reqs)).2 = (serve s req).2.toList ++ (serveAll (req.after s) reqs).2 := by
  rw [← serve_fst]
  rfl

/-- The reservations of a run start at or after its first `pos`, and do not collide. -/
theorem noCollision_serveAll (hready : Ready s) (hfit : AllFit s reqs) :
    NoCollision (serveAll s reqs).2 ∧
      ∀ r ∈ (serveAll s reqs).2, s.incrementalAllocator.pos.toInt ≤ r.chunk.addr.toInt := by
  induction reqs generalizing s with
  | nil => exact ⟨noCollision_nil, by simp [serveAll]⟩
  | cons req reqs ih =>
    obtain ⟨hready', hnext, hmade⟩ := serve_spec hready hfit.1
    obtain ⟨hno, hge⟩ := ih hready' hfit.2
    have hnonneg := (hfit.1.size_bounds hready.nonneg).1
    have hpage := hready.page
    rw [pageEnd] at hnext
    rw [serveAll_cons]
    cases hserve : (serve s req).2 with
    | none =>
      -- A refused request leaves a gap.
      refine ⟨hno, fun r hr => ?_⟩
      have hr' := hge r hr
      omega
    | some r =>
      obtain ⟨haddr, hsize, hinside⟩ := hmade r hserve
      rw [pageEnd] at hsize
      -- Later chunks start at the new `pos` or above, where this one ends.
      have hbelow : ∀ r' ∈ (serveAll (req.after s) reqs).2,
          r.chunk.addr.toInt + r.chunk.size.toInt ≤ r'.chunk.addr.toInt := by
        intro r' hr'
        have := hge r' hr'
        rw [haddr]
        omega
      refine ⟨hno.cons ⟨?_, ?_⟩ ?_ hinside hbelow, fun r' hr' => ?_⟩
      · rwa [haddr]
      · omega
      · omega
      · rcases List.mem_cons.1 hr' with rfl | hr'
        · rw [haddr]
        · have := hge r' hr'
          omega

/-- As long as every request stays within the addresses of a `long`, module loads and `mmap`
calls never collide. -/
theorem noCollision_run (s : MemoryManager) (reqs : List Request)
    (hfresh : s.incrementalAllocator = ⟨modulesMin, modulesMax⟩) (hfit : AllFit s reqs) :
    NoCollision (serveAll s reqs).2 := by
  exact (noCollision_serveAll (ready_of_fresh hfresh) hfit).1

/-- A file whose loadable segments have the given addresses and sizes and hold no bytes. -/
def bssFile (sizes : List (Int64 × Int64)) : ElfFile where
  buffer := .empty
  fileType := ElfFile.ftDyn
  segments := sizes.map fun (virtualAddress, memSize) =>
    { type := ElfSegment.ptLoad, offset := 0, virtualAddress, fileSize := 0, memSize, flags := 6 }
  sections := []

theorem noCollision_run_small :
    NoCollision (serveAll fresh
      [.load (bssFile [(0, 0x1234), (0x3000, 0x10)]), .mmap 0x5000 ucProtAll]).2 :=
  noCollision_run fresh _ rfl
    ⟨⟨by decide +kernel, by decide +kernel, by decide +kernel⟩,
      ⟨by decide +kernel, by decide +kernel⟩, trivial⟩

/-- Four modules that reach up to `2 ^ 62` take `pos` once around: the second one is refused but
moves `pos` all the same, and the fifth module gets pages of the first one's chunk. -/
theorem collision_overflow :
    ¬NoCollision (serveAll fresh
      [.load (bssFile [(0, 1), (0x4000000000000000, 1)]),
        .load (bssFile [(0, 1), (0x4000000000000000, 1)]),
        .load (bssFile [(0, 1), (0x4000000000000000, 1)]),
        .load (bssFile [(0, 1), (0x4000000000000000, 1)]),
        .load (bssFile [(0, 1)])]).2 := by
  intro hno
  have hlog : (serveAll fresh
      [.load (bssFile [(0, 1), (0x4000000000000000, 1)]),
        .load (bssFile [(0, 1), (0x4000000000000000, 1)]),
        .load (bssFile [(0, 1), (0x4000000000000000, 1)]),
        .load (bssFile [(0, 1), (0x4000000000000000, 1)]),
        .load (bssFile [(0, 1)])]).2.map Reservation.chunk =
      [⟨0xA0000000, 0x4000000000001000⟩, ⟨-0x7FFFFFFF5FFFE000, 0x4000000000001000⟩,
        ⟨-0x3FFFFFFF5FFFD000, 0x4000000000001000⟩, ⟨0xA0004000, 0x1000⟩] := by
    decide +kernel
  have hdisj := List.pairwise_map.2 hno.disjoint
  rw [hlog] at hdisj
  -- The last chunk lies inside the first one.
  have hpair := (List.pairwise_cons.1 hdisj).1 ⟨0xA0004000, 0x1000⟩ (by simp)
  rcases hpair with h | h <;> exact absurd h (by decide)

/-! ## Segments on different pages -/

/-- The pages of the bytes of the two segments are different. -/
def ElfSegment.PageDisjoint (s t : ElfSegment) : Prop :=
  (s.virtualAddress.toInt + s.memSize.toInt - 1) / 0x1000 < t.virtualAddress.toInt / 0x1000 ∨
    (t.virtualAddress.toInt + t.memSize.toInt - 1) / 0x1000 < s.virtualAddress.toInt / 0x1000

/-- The first segment ends on a page boundary, at which the first page of the second begins. -/
def ElfSegment.Touches (s t : ElfSegment) : Prop :=
  0x1000 ∣ s.virtualAddress.toInt + s.memSize.toInt ∧
    t.virtualAddress.toInt / 0x1000 = (s.virtualAddress.toInt + s.memSize.toInt) / 0x1000

instance (s t : ElfSegment) : Decidable (s.PageDisjoint t) := inferInstanceAs (Decidable (_ ∨ _))

instance (s t : ElfSegment) : Decidable (s.Touches t) := inferInstanceAs (Decidable (_ ∧ _))

/-- No segment ends exactly where the first page of another begins. -/
def NoneTouch (segments : List ElfSegment) : Prop :=
  (occupied segments).Pairwise fun s t => ¬s.Touches t ∧ ¬t.Touches s

instance (segments : List ElfSegment) : Decidable (NoneTouch segments) :=
  inferInstanceAs (Decidable (List.Pairwise _ _))

section Ranges

variable {loadBase : Int64} {segments : List ElfSegment} {t u : ElfSegment}
  (hpos : 0 ≤ loadBase.toInt) (hpage : 0x1000 ∣ loadBase.toInt)
  (hfits : Fits loadBase.toInt segments)

include hpos hpage hfits

theorem segmentRange_disjoint_iff (ht : t ∈ occupied segments) (hu : u ∈ occupied segments)
    (hpages : t.PageDisjoint u) :
    (segmentRange loadBase t).Disjoint (segmentRange loadBase u) ↔
      ¬t.Touches u ∧ ¬u.Touches t := by
  obtain ⟨htmem, htne⟩ : t ∈ segments ∧ t.memSize ≠ 0 := by simpa [occupied] using ht
  obtain ⟨humem, hune⟩ : u ∈ segments ∧ u.memSize ≠ 0 := by simpa [occupied] using hu
  obtain ⟨htva, htms⟩ := hfits.nonneg t htmem htne
  obtain ⟨huva, hums⟩ := hfits.nonneg u humem hune
  rw [MemChunk.Disjoint, segmentRange_end hpos hpage hfits htmem htne,
    segmentRange_end hpos hpage hfits humem hune, segmentRange_addr hpos hpage hfits htmem htne,
    segmentRange_addr hpos hpage hfits humem hune, pageEnd, pageEnd]
  -- In page numbers: `pageEnd` exceeds the last page only at a boundary.
  rw [ElfSegment.PageDisjoint] at hpages
  rw [ElfSegment.Touches, ElfSegment.Touches]
  omega

/-- Segments on different pages are mapped at disjoint ranges if and only if none of them ends
where the first page of another begins. -/
theorem pairwise_segmentRanges_iff (hpages : (occupied segments).Pairwise ElfSegment.PageDisjoint) :
    (segmentRanges loadBase segments).Pairwise MemChunk.Disjoint ↔ NoneTouch segments := by
  rw [segmentRanges, List.pairwise_map, NoneTouch]
  constructor
  · intro h
    refine (h.and hpages).imp_of_mem fun ht hu hand => ?_
    exact (segmentRange_disjoint_iff hpos hpage hfits ht hu hand.2).1 hand.1
  · intro h
    refine (h.and hpages).imp_of_mem fun ht hu hand => ?_
    exact (segmentRange_disjoint_iff hpos hpage hfits ht hu hand.2).2 hand.1

/-- The pages of all segments, as `mem_map` wants them. -/
theorem segmentRanges_low_paged {c : MemChunk} (hc : c ∈ segmentRanges loadBase segments) :
    c.IsLow ∧ c.IsPaged := by
  obtain ⟨segment, hmem, hne, rfl⟩ := mem_segmentRanges.1 hc
  exact ⟨segmentRange_isLow hpos hpage hfits hmem hne,
    segmentRange_isPaged hpos hpage hfits hmem hne⟩

end Ranges

theorem getData_error_ne {buffer : ByteBuffer} {segment : ElfSegment} {err : UcErr} :
    segment.getData buffer ≠ .error (.unicornException err) := by
  rw [ElfSegment.getData]
  split
  · simp
  · split
    · simp
    · split <;> simp

section Free

variable {loadBase : Int64} {segments : List ElfSegment} {segment : ElfSegment} {uc : Unicorn}

theorem segmentRanges_cons_of_ne (hne : segment.memSize ≠ 0) :
    segmentRanges loadBase (segment :: segments) =
      segmentRange loadBase segment :: segmentRanges loadBase segments := by
  simp [segmentRanges, occupied, hne]

theorem segmentRanges_cons_of_eq (heq : segment.memSize = 0) :
    segmentRanges loadBase (segment :: segments) = segmentRanges loadBase segments := by
  simp [segmentRanges, occupied, heq]

/-- Ranges that are disjoint from each other and from what is mapped. -/
structure FreeRanges (uc : Unicorn) (ranges : List MemChunk) : Prop where
  low_paged : ∀ c ∈ ranges, c.IsLow ∧ c.IsPaged
  unmapped : ∀ c ∈ ranges, uc.memoryOverlap c.region = false
  disjoint : ranges.Pairwise MemChunk.Disjoint

/-- Mapping the first range leaves the others free. -/
theorem FreeRanges.tail {range : MemChunk} {ranges : List MemChunk} {uc' : Unicorn}
    (h : FreeRanges uc (range :: ranges)) (huc' : uc'.regions = (mapRange uc range).regions) :
    FreeRanges uc' ranges where
  low_paged c hc := h.low_paged c (List.mem_cons_of_mem _ hc)
  unmapped c hc := by
    have hdisj := (List.pairwise_cons.1 h.disjoint).1 c hc
    have hold := h.unmapped c (List.mem_cons_of_mem _ hc)
    rw [memoryOverlap, huc']
    exact (memoryOverlap_addBlock (h.low_paged range List.mem_cons_self).1
      (h.low_paged c (List.mem_cons_of_mem _ hc)).1 hdisj).trans hold
  disjoint := (List.pairwise_cons.1 h.disjoint).2

/-- A load into free ranges is not rejected for an overlap. -/
theorem outcome_writeSegments_ne_map (buffer : ByteBuffer)
    (hfree : FreeRanges uc (segmentRanges loadBase segments)) :
    outcome ((writeSegments buffer loadBase segments).run uc) ≠
      .error (.unicornException .map) := by
  induction segments generalizing uc with
  | nil => exact fun h => by cases h
  | cons segment segments ih =>
    rw [writeSegments]
    split
    next heq =>
      rw [segmentRanges_cons_of_eq heq] at hfree
      exact ih hfree
    next hne =>
      rw [segmentRanges_cons_of_ne hne] at hfree
      obtain ⟨hlow, hpaged⟩ := hfree.low_paged _ List.mem_cons_self
      have hrun := run_writeSegment buffer hlow hpaged
        (hfree.unmapped _ List.mem_cons_self)
      cases hdata : segment.getData buffer with
      | error err =>
        rw [hdata] at hrun
        rw [bind_of_error hrun]
        -- Reading the file may fail, but not with an error of the engine.
        rintro h
        cases h
        exact getData_error_ne hdata
      | ok datas =>
        rw [hdata] at hrun
        dsimp only at hrun
        rw [run_memWrite] at hrun
        -- A write that hits unmapped memory reports another error and ends the loop.
        split at hrun
        next =>
          rw [bind_of_ok hrun]
          exact ih (hfree.tail rfl)
        next =>
          rw [bind_of_error hrun]
          exact fun h => by cases h

end Free

/-! ## Loading a module after a run -/

theorem ready_serveAll (hready : Ready s) (hfit : AllFit s reqs) : Ready (serveAll s reqs).1 := by
  induction reqs generalizing s with
  | nil => exact hready
  | cons req reqs ih =>
    have hfst : (serveAll s (req :: reqs)).1 = (serveAll (req.after s) reqs).1 := by
      rw [← serve_fst]
      rfl
    rw [hfst]
    exact ih (serve_spec hready hfit.1).1 hfit.2

/-- Whether or not it succeeds, a load maps only the ranges of its segments. -/
theorem load_mapsOnly {elf : ElfFile} (hready : Ready s)
    (hfits : Fits s.incrementalAllocator.pos.toInt elf.getLoadSegments) :
    MapsOnly (· ∈ segmentRanges s.incrementalAllocator.pos elf.getLoadSegments) s.uc
      (Request.after s (.load elf)).uc := by
  have hfit : Request.FitsAt s.incrementalAllocator.pos.toInt (.load elf) := hfits
  obtain ⟨hnonneg, hlt⟩ := hfit.size_bounds hready.nonneg
  obtain ⟨chunk, haddr, -, -, -, hret⟩ := reserve_of_fits hready.nonneg hnonneg hlt
  split at hret
  · -- A refused module maps nothing.
    rw [after_of_error hret]
    exact Std.Refl.refl _
  · rw [after_of_ok hret, ← haddr]
    exact keeps_writeSegments elf.buffer chunk.addr elf.getLoadSegments s.uc

/-- A load into free ranges ends without the error for an overlap. -/
theorem outcome_load_ne_map {elf : ElfFile} (hready : Ready s)
    (hfits : Fits s.incrementalAllocator.pos.toInt elf.getLoadSegments)
    (hfree : FreeRanges s.uc (segmentRanges s.incrementalAllocator.pos elf.getLoadSegments)) :
    outcome ((writeSegmentsToMemory elf).run s) ≠ .error (.unicornException .map) := by
  have hmod := hfits.moduleFits hready.nonneg
  obtain ⟨chunk, haddr, -, -, -, hret⟩ :=
    reserve_of_fits hready.nonneg hmod.size_nonneg hmod.size_lt
  split at hret
  · rw [run_writeSegmentsToMemory_of_error hret]
    exact fun h => by cases h
  · have hne := outcome_writeSegments_ne_map elf.buffer hfree
    rw [run_writeSegmentsToMemory hret, haddr]
    split
    next => exact fun h => by cases h
    next hrun =>
      rw [hrun] at hne
      simpa [outcome] using hne

/-- After any run of requests that fit: a module whose segments lie on different pages maps them
at disjoint ranges if and only if no segment ends exactly where the first page of another begins;
and if these ranges are free, the load is not rejected for an overlap. -/
theorem disjoint_segmentRanges_iff (s : MemoryManager) (reqs : List Request)
    (hfresh : s.incrementalAllocator = ⟨modulesMin, modulesMax⟩) (hrun : AllFit s reqs)
    (elf : ElfFile)
    (hfits : Fits (serveAll s reqs).1.incrementalAllocator.pos.toInt elf.getLoadSegments)
    (hpages : (occupied elf.getLoadSegments).Pairwise ElfSegment.PageDisjoint) :
    let s' := (serveAll s reqs).1
    let ranges := segmentRanges s'.incrementalAllocator.pos elf.getLoadSegments
    MapsOnly (· ∈ ranges) s'.uc (Request.after s' (.load elf)).uc ∧
      (ranges.Pairwise MemChunk.Disjoint ↔ NoneTouch elf.getLoadSegments) ∧
      (NoneTouch elf.getLoadSegments →
        (∀ c ∈ ranges, s'.uc.memoryOverlap c.region = false) →
        outcome ((writeSegmentsToMemory elf).run s') ≠ .error (.unicornException .map)) := by
  have hready := ready_serveAll (ready_of_fresh hfresh) hrun
  have hiff := pairwise_segmentRanges_iff hready.nonneg hready.page hfits hpages
  refine ⟨load_mapsOnly hready hfits, hiff, fun hnone hunmapped => ?_⟩
  exact outcome_load_ne_map hready hfits
    ⟨fun c hc => segmentRanges_low_paged hready.nonneg hready.page hfits hc, hunmapped,
      hiff.2 hnone⟩

theorem disjoint_segmentRanges_small :
    (segmentRanges modulesMin (bssFile [(0, 0x1800), (0x2000, 0x10)]).getLoadSegments).Pairwise
        MemChunk.Disjoint ∧
      outcome ((writeSegmentsToMemory (bssFile [(0, 0x1800), (0x2000, 0x10)])).run fresh) ≠
        .error (.unicornException .map) := by
  obtain ⟨-, hiff, hload⟩ := disjoint_segmentRanges_iff fresh [] rfl trivial
    (bssFile [(0, 0x1800), (0x2000, 0x10)])
    ⟨by decide +kernel, by decide +kernel, by decide +kernel⟩ (by decide +kernel)
  exact ⟨hiff.2 (by decide +kernel), hload (by decide +kernel) (by decide +kernel)⟩

/-- `align` gives a segment that ends on a page boundary one page too many. -/
theorem rejected_adjacent_segments :
    (occupied (bssFile [(0, 0x1000), (0x1000, 0x1000)]).getLoadSegments).Pairwise
        ElfSegment.PageDisjoint ∧
      outcome ((writeSegmentsToMemory (bssFile [(0, 0x1000), (0x1000, 0x1000)])).run fresh) =
        .error (.unicornException .map) := by
  constructor
  · decide +kernel
  · rfl

end Tank
