import Tank.Memory.Heap.HeapAllocator
import Tank.ToMathlib.Zoom
import Tank.Unicorn

/-!
# The memory manager

`MemUtils.align`, the bump allocator `IncrementalAllocator` that modules and `mmap` take their
pages from, and `MemoryManager`, which owns it together with the heap and drives the engine.

`align` rounds the start of a range down and its end up to a page, and always adds a page when
the end already is one (`align_addr`, `align_size`; `align_end` if nothing overflows). `reserve`
moves `pos` before it compares it, and compares only the start of the chunk with `end_`.
-/

namespace Tank

open ToMathlib

/-! ## Constants of `MemConst` and `EmuConst` -/

def stackAddr : Int64 := 0x00000000
def stackSize : Int64 := 0x00100000
def hookMemoryBase : Int64 := 0x20000000
def hookMemorySize : Int64 := 0x00200000
def cHookMemoryBase : Int64 := 0x21000000
def cHookMemorySize : Int64 := 0x00200000
def jvmHookMemoryBase : Int64 := 0x30000000
def jvmHookMemorySize : Int64 := 0x00200000
def modulesMin : Int64 := 0xA0000000
def modulesMax : Int64 := 0xC0000000
def heapMin : Int64 := 0xD0000000
def heapMax : Int64 := 0xD0200000
def mappingMin : Int64 := 0xE0000000
def mappingMax : Int64 := 0xF0000000
def ucMemAlign : Int64 := 0x1000
def ucProtRead : Int32 := 1
def ucProtWrite : Int32 := 2
def ucProtAll : Int32 := 7

/-! ## `MemUtils` -/

/-- `align`: rounds the start down to a page and, if `growl`, the end up to the next one. -/
def align (addr size : Int64) (growl : Bool) : MemChunk :=
  let start := (addr / ucMemAlign) * ucMemAlign
  if growl then
    -- One page more than the last one, also when the end is a page boundary.
    let m := (addr + size) / ucMemAlign + 1
    let last := m * ucMemAlign
    ⟨start, last - start⟩
  else ⟨start, size⟩

/-- First address after the page that contains `x`. -/
def pageEnd (x : ℤ) : ℤ := (x / 0x1000 + 1) * 0x1000

theorem lt_pageEnd (x : ℤ) : x < pageEnd x := by
  rw [pageEnd]
  omega

section Align

variable {addr size : Int64} (haddr : 0 ≤ addr.toInt) (hsize : 0 ≤ size.toInt)

include haddr

theorem align_addr (size : Int64) :
    (align addr size true).addr.toInt = addr.toInt / 0x1000 * 0x1000 := by
  have hlt := addr.toInt_lt
  have halign : ucMemAlign.toInt = 0x1000 := rfl
  have hdiv : (addr / ucMemAlign).toInt = addr.toInt / 0x1000 :=
    toInt_div_of_nonneg haddr (by decide)
  rw [← hdiv]
  refine toInt_mul_of_bounds ?_ ?_ <;> rw [hdiv, halign] <;> omega

include hsize

/-- The size that `align` computes, also if the end of the last page is not a `long`. -/
theorem align_size (hlast : addr.toInt + size.toInt < 2 ^ 63) :
    (align addr size true).size.toInt =
      (pageEnd (addr.toInt + size.toInt) - addr.toInt / 0x1000 * 0x1000).bmod (2 ^ 64) := by
  have halign : ucMemAlign.toInt = 0x1000 := rfl
  have hone : (1 : Int64).toInt = 1 := rfl
  have hsum : (addr + size).toInt = addr.toInt + size.toInt :=
    toInt_add_of_bounds (by omega) (by omega)
  have hdiv : ((addr + size) / ucMemAlign).toInt = (addr.toInt + size.toInt) / 0x1000 := by
    rw [toInt_div_of_nonneg (by omega) (by decide), hsum, halign]
  have hm : ((addr + size) / ucMemAlign + 1).toInt = (addr.toInt + size.toInt) / 0x1000 + 1 := by
    rw [toInt_add_of_bounds] <;> rw [hdiv, hone] <;> omega
  calc (align addr size true).size.toInt
      = (((addr + size) / ucMemAlign + 1) * ucMemAlign - (align addr size true).addr).toInt := rfl
    _ = _ := by
      rw [Int64.toInt_sub, Int64.toInt_mul, hm, halign, align_addr haddr size,
        Int.bmod_sub_bmod, pageEnd]

/-- The range is rounded to whole pages. -/
theorem align_isPaged (hlast : addr.toInt + size.toInt < 2 ^ 63) :
    (align addr size true).IsPaged where
  addr := by
    rw [align_addr haddr size]
    exact Int.dvd_mul_left _ _
  size := by
    rw [align_size haddr hsize hlast, pageEnd, Int.bmod_def]
    split <;> omega

variable (hend : pageEnd (addr.toInt + size.toInt) < 2 ^ 63)

include hend

theorem align_end :
    (align addr size true).addr.toInt + (align addr size true).size.toInt =
      pageEnd (addr.toInt + size.toInt) := by
  have hstart := align_addr haddr size
  have hdiff := align_size haddr hsize (lt_trans (lt_pageEnd _) hend)
  rw [bmod_eq_self (by rw [pageEnd]; omega) (by omega)] at hdiff
  omega

/-- A range that does not overflow stays below `2 ^ 63`. -/
theorem align_isLow : (align addr size true).IsLow := by
  have hstart := align_addr haddr size
  have hstop := align_end haddr hsize hend
  rw [pageEnd] at hstop hend
  constructor <;> omega

end Align

/-! ## `IncrementalAllocator` -/

/-- `IncrementalAllocator`. -/
structure IncrementalAllocator where
  pos : Int64
  end_ : Int64
deriving DecidableEq, Repr

/-- `reserve`: the next pages for `size` bytes. -/
def IncrementalAllocator.reserve (a : IncrementalAllocator) (size : Int64) :
    IncrementalAllocator × Except JavaException MemChunk :=
  let chunk := align 0 size true
  let sizeAligned := chunk.size
  let ret := a.pos
  -- `pos` moves first, and stays moved if the request is then refused.
  let a := { a with pos := a.pos + sizeAligned }
  if ret > a.end_ then (a, .error (.memError "空间不足"))
  else (a, .ok ⟨ret, sizeAligned⟩)

/-! ## `MemoryManager` -/

/-- `MemoryManager` with the engine it drives. -/
structure MemoryManager where
  uc : Unicorn
  heapAllocator : HeapAllocator
  incrementalAllocator : IncrementalAllocator

/-- Code that works on guest memory. -/
abbrev MemM := EStateM JavaException MemoryManager

namespace MemoryManager

/-- Runs code of the engine. -/
def liftUc {α : Type} (m : UcM α) : MemM α := fun s =>
  match m.run s.uc with
  | .ok a uc => .ok a { s with uc }
  | .error err uc => .error err { s with uc }

/-- The constructor: maps the stack, the heap and the areas of the hooks. -/
def create : UcM (HeapAllocator × IncrementalAllocator) := do
  Unicorn.memMap ⟨stackAddr, stackSize⟩ ucProtAll
  Unicorn.regWrite .sp (stackAddr + stackSize)
  Unicorn.memMap ⟨heapMin, heapMax - heapMin⟩ (ucProtRead ||| ucProtWrite)
  let heapAllocator := HeapAllocator.init heapMin heapMax
  let incrementalAllocator : IncrementalAllocator := ⟨modulesMin, modulesMax⟩
  Unicorn.memMap ⟨hookMemoryBase, hookMemorySize⟩ ucProtAll
  Unicorn.memMap ⟨cHookMemoryBase, cHookMemorySize⟩ ucProtAll
  Unicorn.memMap ⟨jvmHookMemoryBase, jvmHookMemorySize⟩ ucProtAll
  pure (heapAllocator, incrementalAllocator)

/-- The memory manager of a new engine. -/
def fresh : MemoryManager where
  uc := finalState (create.run Unicorn.blank)
  heapAllocator := HeapAllocator.init heapMin heapMax
  incrementalAllocator := ⟨modulesMin, modulesMax⟩

/-- `reserve_module`. -/
def reserveModule (size : Int64) : MemM MemChunk := fun s =>
  match s.incrementalAllocator.reserve size with
  | (incrementalAllocator, .ok chunk) => .ok chunk { s with incrementalAllocator }
  | (incrementalAllocator, .error err) => .error err { s with incrementalAllocator }

/-- `mmap`: reserves pages and maps all of them. -/
def mmap (size : Int64) (prot : Int32) : MemM Int64 := do
  let c ← reserveModule size
  liftUc (Unicorn.memMap ⟨c.addr, c.size⟩ prot)
  pure c.addr

/-- `unmap`: ranges outside the mapping area are ignored. -/
def unmap (addr size : Int64) : MemM Unit :=
  if addr ≥ mappingMin ∧ addr + size ≤ mappingMax then liftUc (Unicorn.memUnmap ⟨addr, size⟩)
  else pure ()

/-- `protect`: ranges outside the mapping area are ignored. -/
def protect (addr size : Int64) (prot : Int32) : MemM Unit :=
  if addr ≥ mappingMin ∧ addr + size ≤ mappingMax then
    liftUc (Unicorn.memProtect ⟨addr, size⟩ prot)
  else pure ()

variable {s : MemoryManager} {size : Int64}

/-- `reserveModule` moves the allocator on and gives its answer. -/
theorem run_reserveModule :
    (reserveModule size).run s = (getOrThrow (s.incrementalAllocator.reserve size).2).run
      { s with incrementalAllocator := (s.incrementalAllocator.reserve size).1 } := by
  simp only [EStateM.run, reserveModule]
  split <;> simp only [*, getOrThrow]

theorem reserveModule_of_ok {chunk : MemChunk}
    (h : (s.incrementalAllocator.reserve size).2 = .ok chunk) :
    (reserveModule size).run s = .ok chunk
      { s with incrementalAllocator := (s.incrementalAllocator.reserve size).1 } := by
  rw [run_reserveModule, h]
  rfl

theorem reserveModule_of_error {err : JavaException}
    (h : (s.incrementalAllocator.reserve size).2 = .error err) :
    (reserveModule size).run s = .error err
      { s with incrementalAllocator := (s.incrementalAllocator.reserve size).1 } := by
  rw [run_reserveModule, h]
  rfl

theorem liftUc_eq_zoom {α : Type} (m : UcM α) :
    liftUc m = zoom MemoryManager.uc (fun uc s => { s with uc }) m := by
  funext s
  simp only [liftUc, zoom]
  cases m.run s.uc <;> rfl

theorem finalState_liftUc {α : Type} (m : UcM α) :
    finalState ((liftUc m).run s) = { s with uc := finalState (m.run s.uc) } := by
  rw [liftUc_eq_zoom, finalState_zoom]

end MemoryManager

end Tank
