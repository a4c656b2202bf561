import Tank.Memory.MemoryManager
import Tank.ToMathlib.Trace

/-!
# The bump allocator

What `reserve` returns over a sequence of calls. It gives out the pages from `pos` on, but it moves
`pos` before it looks at the bound, and it compares the bound with the first address of the chunk.
So the last chunk may go past the bound, and a call that throws has used up its pages.

## Main results

* `reserve_of_fits`: a request that does not overflow gets the pages from `pos` on.
* `servesWell_run_iff`: the chunks of a sequence of calls stay below the bound, and the calls that
  throw leave the allocator alone, exactly if there is room for every request.
* `not_servesWell_modules` are two sequences on the allocator of the modules.
-/

namespace Tank

open ToMathlib

namespace IncrementalAllocator

variable {a : IncrementalAllocator} {start size : Int64}

/-! ## One call -/

theorem reserve_fst (a : IncrementalAllocator) (size : Int64) :
    (a.reserve size).1 = { a with pos := a.pos + (align 0 size true).size } := by
  rw [reserve]
  split <;> rfl

theorem reserve_snd (a : IncrementalAllocator) (size : Int64) :
    (a.reserve size).2 = if a.pos > a.end_ then .error (.memError "空间不足")
      else .ok ⟨a.pos, (align 0 size true).size⟩ := by
  simp only [reserve]
  split <;> rfl

/-- What `reserve` returns starts at `pos`. -/
theorem eq_of_reserve_eq_ok {chunk : MemChunk} (h : (a.reserve size).2 = .ok chunk) :
    chunk = ⟨a.pos, (align 0 size true).size⟩ := by
  rw [reserve_snd] at h
  split at h
  · cases h
  · exact (Except.ok.inj h).symm

/-- `reserve` aligns a range that starts at zero. -/
theorem size_align_zero_eq_bmod (hsize : 0 ≤ size.toInt) :
    (align 0 size true).size.toInt = (pageEnd size.toInt).bmod (2 ^ 64) := by
  have hzero : (0 : Int64).toInt = 0 := rfl
  have hlast : (0 : Int64).toInt + size.toInt < 2 ^ 63 := by
    rw [hzero, zero_add]
    exact size.toInt_lt
  have hdiff := align_size (show 0 ≤ (0 : Int64).toInt from le_rfl) hsize hlast
  rwa [hzero, zero_add, Int.zero_ediv, zero_mul, sub_zero] at hdiff

theorem size_align_zero (hsize : 0 ≤ size.toInt) (hend : pageEnd size.toInt < 2 ^ 63) :
    (align 0 size true).size.toInt = pageEnd size.toInt := by
  rw [size_align_zero_eq_bmod hsize, bmod_eq_self (by rw [pageEnd]; omega) hend]

/-- The size of a request for the last page of a `long` wraps. -/
theorem size_align_zero_of_overflow (hsize : 0 ≤ size.toInt)
    (hend : 2 ^ 63 ≤ pageEnd size.toInt) : (align 0 size true).size.toInt = -2 ^ 63 := by
  have hlt := size.toInt_lt
  have hpages : pageEnd size.toInt = 2 ^ 63 := by
    rw [pageEnd] at hend ⊢
    omega
  rw [size_align_zero_eq_bmod hsize, hpages]
  decide

/-- No request is rounded to no pages at all. -/
theorem size_align_zero_ne_zero (hsize : 0 ≤ size.toInt) : (align 0 size true).size ≠ 0 := by
  intro heq
  have hzero : (align 0 size true).size.toInt = 0 := by
    rw [heq]
    rfl
  by_cases hend : pageEnd size.toInt < 2 ^ 63
  · rw [size_align_zero hsize hend, pageEnd] at hzero
    omega
  · rw [size_align_zero_of_overflow hsize (not_lt.1 hend)] at hzero
    omega

/-- A request that does not overflow gets the pages from `pos` on. -/
theorem reserve_of_fits (hpos : 0 ≤ a.pos.toInt) (hsize : 0 ≤ size.toInt)
    (hfit : a.pos.toInt + pageEnd size.toInt < 2 ^ 63) :
    ∃ chunk : MemChunk, chunk.addr = a.pos ∧ chunk.size.toInt = pageEnd size.toInt ∧
      (a.reserve size).1.pos.toInt = a.pos.toInt + pageEnd size.toInt ∧
      (a.reserve size).1.end_ = a.end_ ∧
      (a.reserve size).2 =
        if a.pos > a.end_ then .error (.memError "空间不足") else .ok chunk := by
  have hsz := size_align_zero hsize (by omega)
  have hnn : 0 ≤ pageEnd size.toInt := by
    rw [pageEnd]
    omega
  refine ⟨⟨a.pos, (align 0 size true).size⟩, rfl, hsz, ?_, ?_, reserve_snd a size⟩
  · rw [reserve_fst, toInt_add_of_bounds] <;> rw [hsz] <;> omega
  · rw [reserve_fst]

/-! ## Sequences of calls -/

/-- The chunk is a range of addresses between the two bounds. -/
structure LiesIn (chunk : MemChunk) (start end_ : Int64) : Prop where
  first : start.toInt ≤ chunk.addr.toInt
  size : 0 ≤ chunk.size.toInt
  last : chunk.addr.toInt + chunk.size.toInt ≤ end_.toInt

/-- A call keeps to the bounds of the allocator, and leaves it alone if it throws. -/
structure ServesWell (start : Int64) (a : IncrementalAllocator) (size : Int64) : Prop where
  inside : ∀ chunk, (a.reserve size).2 = .ok chunk → LiesIn chunk start a.end_
  atomic : ∀ err, (a.reserve size).2 = .error err → (a.reserve size).1 = a

/-- The pages of a request end below the bound. -/
structure HasRoom (a : IncrementalAllocator) (size : Int64) : Prop where
  noWrap : pageEnd size.toInt < 2 ^ 63
  last : a.pos.toInt + pageEnd size.toInt ≤ a.end_.toInt

instance : Decidable (HasRoom a size) :=
  decidable_of_iff (pageEnd size.toInt < 2 ^ 63 ∧
    a.pos.toInt + pageEnd size.toInt ≤ a.end_.toInt) ⟨fun h => ⟨h.1, h.2⟩, fun h => ⟨h.1, h.2⟩⟩

/-- The calls of a sequence, each with the allocator it is made on. -/
def calls (a : IncrementalAllocator) (sizes : List Int64) : List (IncrementalAllocator × Int64) :=
  trace (fun a size => (a.reserve size).1) a sizes

theorem pageEnd_pos (hsize : 0 ≤ size.toInt) : 0 < pageEnd size.toInt := by
  rw [pageEnd]
  omega

/-- With room for the request, `pos` moves by its pages. -/
theorem HasRoom.pos_toInt (h : HasRoom a size) (hsize : 0 ≤ size.toInt) :
    (a.reserve size).1.pos.toInt = a.pos.toInt + pageEnd size.toInt := by
  have hpos := pageEnd_pos hsize
  have hlast := h.last
  have hle := a.pos.le_toInt
  have hlt := a.end_.toInt_lt
  have hsz := size_align_zero hsize h.noWrap
  rw [reserve_fst, toInt_add_of_bounds] <;> rw [hsz] <;> omega

theorem HasRoom.servesWell (h : HasRoom a size) (hstart : start.toInt ≤ a.pos.toInt)
    (hsize : 0 ≤ size.toInt) : ServesWell start a size := by
  have hpos := pageEnd_pos hsize
  have hlast := h.last
  have hsz := size_align_zero hsize h.noWrap
  have hle : ¬a.pos > a.end_ := by
    rw [gt_iff_lt, Int64.lt_iff_toInt_lt]
    omega
  have hret := reserve_snd a size
  rw [if_neg hle] at hret
  refine ⟨fun chunk hchunk => ?_, fun err herr => ?_⟩
  · rw [hret] at hchunk
    cases hchunk
    exact ⟨hstart, by rw [hsz]; omega, by rw [hsz]; omega⟩
  · rw [hret] at herr
    cases herr

theorem hasRoom_of_servesWell (h : ServesWell start a size) (hsize : 0 ≤ size.toInt) :
    HasRoom a size := by
  have hret := reserve_snd a size
  by_cases hgt : a.pos > a.end_
  · -- Throwing is never without effect.
    rw [if_pos hgt] at hret
    have hsame := congrArg IncrementalAllocator.pos (h.atomic _ hret)
    rw [reserve_fst] at hsame
    exact absurd (Int64.add_eq_left.1 hsame) (size_align_zero_ne_zero hsize)
  · rw [if_neg hgt] at hret
    obtain ⟨-, hnonneg, hlast⟩ := h.inside _ hret
    -- A chunk with a size is one that did not wrap.
    have hend : pageEnd size.toInt < 2 ^ 63 := by
      by_contra hover
      have hwrap := size_align_zero_of_overflow hsize (not_lt.1 hover)
      dsimp only at hnonneg
      omega
    refine ⟨hend, ?_⟩
    rw [← size_align_zero hsize hend]
    exact hlast

/-- A sequence of calls keeps to the bounds and is atomic exactly if there is room for every
request. -/
theorem servesWell_run_iff (start end_ : Int64) (sizes : List Int64)
    (hsizes : ∀ size ∈ sizes, 0 ≤ size.toInt) :
    (∀ c ∈ calls ⟨start, end_⟩ sizes, ServesWell start c.1 c.2) ↔
      ∀ c ∈ calls ⟨start, end_⟩ sizes, HasRoom c.1 c.2 := by
  refine forall_trace_iff (I := fun a => start.toInt ≤ a.pos.toInt)
    (H := fun _ size => 0 ≤ size.toInt) ?_ ?_ le_rfl fun c hc => hsizes c.2 (mem_of_mem_trace hc)
  · intro a size hstart hsize
    exact ⟨fun h => hasRoom_of_servesWell h hsize, fun h => h.servesWell hstart hsize⟩
  · -- `pos` is never below the start as long as there is room.
    intro a size hstart hsize hroom
    have hpos := pageEnd_pos hsize
    have hmove := hroom.pos_toInt hsize
    omega

theorem servesWell_run_small :
    (∀ size ∈ [(0x1234 : Int64), 0x5000, 0x1FFF0000], 0 ≤ size.toInt) ∧
      ∀ c ∈ calls ⟨modulesMin, modulesMax⟩ [0x1234, 0x5000, 0x1FFF0000],
        ServesWell modulesMin c.1 c.2 := by
  have hsizes : ∀ size ∈ [(0x1234 : Int64), 0x5000, 0x1FFF0000], 0 ≤ size.toInt := by
    simp only [List.forall_mem_cons, List.not_mem_nil]
    exact ⟨by decide, by decide, by decide, nofun⟩
  exact ⟨hsizes, (servesWell_run_iff modulesMin modulesMax _ hsizes).2 (by decide +kernel)⟩

/-- The first request is for all the pages of the modules and one more is taken, so that the chunk
ends above `MODULES_MAX`. The second call throws, and `pos` moves on. -/
theorem not_servesWell_modules :
    let a : IncrementalAllocator := ⟨modulesMin, modulesMax⟩
    let a' := (a.reserve 0x20000000).1
    (a.reserve 0x20000000).2 = .ok ⟨modulesMin, 0x20001000⟩ ∧
      ¬LiesIn ⟨modulesMin, 0x20001000⟩ modulesMin modulesMax ∧
      (a'.reserve 0x1000).2 = .error (.memError "空间不足") ∧ (a'.reserve 0x1000).1 ≠ a' := by
  refine ⟨by decide +kernel, fun h => ?_, by decide +kernel, by decide +kernel⟩
  exact absurd h.last (by decide)

end IncrementalAllocator

end Tank
