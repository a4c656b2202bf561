import Tank.ToMathlib.Chain

/-!
# The guest heap allocator

Model of `HeapAllocator` (`emu/.../memory/HeapAllocator.java`) with its `HeapBlock` cells. A Java
`long` is an `Int64`, so `pos`, addresses and sizes wrap exactly as they do in the source. The
`HeapBlock` objects live in an object store and point to each other by reference, so nothing in
the model rules out a cycle or a broken list: that the list stays well formed is a theorem
(`Tank.Memory.Heap.Invariant`).

The two `while` loops of the source are the one loop `ToMathlib.search`. It is given one test
more than there are objects; a loop that needs more has met an object twice, and since its guard
reads nothing but the current object it would then run forever. Such a run is reported as
`HeapFault.diverges`.
-/

namespace Tank

/-- `HeapBlock`: one cell of the block list. -/
structure HeapBlock where
  /-- First guest address of the block. -/
  address : Int64
  /-- Size of the block in bytes. -/
  size : Int64
  /-- Whether the block is free. -/
  free : Bool
  /-- Reference to the following cell, `null` at the end of the list. -/
  next : Option ℕ
deriving DecidableEq, Repr

/-- `HeapBlockHolder`: the cell at which a search stopped and the one before it. -/
structure HeapBlockHolder where
  /-- The cell found, `null` if there is none. -/
  block : Option ℕ
  /-- The last cell visited before `block`. -/
  prev : Option ℕ
deriving DecidableEq, Repr

/-- How a heap operation can fail. -/
inductive HeapFault where
  /-- A `HeapError` with its message. -/
  | heapError (msg : String)
  /-- A method call on `null`. -/
  | nullPointer
  /-- A loop over the block list that never ends. -/
  | diverges
deriving DecidableEq, Repr

/-- `HeapAllocator` together with the `HeapBlock` objects it has created. -/
structure HeapAllocator where
  /-- Start of the mapped heap region. -/
  begin_ : Int64
  /-- End of the mapped heap region. -/
  end_ : Int64
  /-- First address that was never handed out. -/
  pos : Int64
  /-- First cell of the block list. -/
  head : Option ℕ
  /-- The `HeapBlock` objects by reference. -/
  objects : ℕ → HeapBlock
  /-- Number of objects created so far; references below it are valid. -/
  count : ℕ

namespace HeapAllocator

/-- The fields set by the constructor `HeapAllocator(uc, begin, end)`. -/
def init (begin_ end_ : Int64) : HeapAllocator :=
  { begin_, end_, pos := begin_, head := none,
    objects := fun _ => { address := 0, size := 0, free := false, next := none }, count := 0 }

/-- `new HeapBlock()` followed by its setters. -/
def newBlock (h : HeapAllocator) (block : HeapBlock) : HeapAllocator × ℕ :=
  ({ h with objects := Function.update h.objects h.count block, count := h.count + 1 }, h.count)

/-- A setter call on the object `r`. -/
def modify (h : HeapAllocator) (r : ℕ) (f : HeapBlock → HeapBlock) : HeapAllocator :=
  { h with objects := Function.update h.objects r (f (h.objects r)) }

/-- `HeapBlock.setSize`. -/
def setSize (h : HeapAllocator) (r : ℕ) (size : Int64) : HeapAllocator :=
  h.modify r fun b => { b with size }

/-- `HeapBlock.setFree`. -/
def setFree (h : HeapAllocator) (r : ℕ) (free : Bool) : HeapAllocator :=
  h.modify r fun b => { b with free }

/-- `HeapBlock.setNext`. -/
def setNext (h : HeapAllocator) (r : ℕ) (next : Option ℕ) : HeapAllocator :=
  h.modify r fun b => { b with next }

/-- The search loop shared by `findBlock` and `findFreeBlock`. -/
def find (h : HeapAllocator) (test : HeapBlock → Bool) : Option HeapBlockHolder :=
  (ToMathlib.search (fun r => (h.objects r).next) (fun r => test (h.objects r)) (h.count + 1)
    none h.head).map fun (prev, block) => { block, prev }

/-- `findBlock`: the first block of the list at address `addr`. -/
def findBlock (h : HeapAllocator) (addr : Int64) : Option HeapBlockHolder :=
  h.find fun b => b.address == addr

/-- `findFreeBlock`: the first free block of the list with at least `size` bytes. -/
def findFreeBlock (h : HeapAllocator) (size : Int64) : Option HeapBlockHolder :=
  h.find fun b => b.free && decide (b.size ≥ size)

/-- `incrementAddress`: returns `pos` and moves it up by `size`. -/
def incrementAddress (h : HeapAllocator) (size : Int64) : HeapAllocator × Int64 :=
  ({ h with pos := h.pos + size }, h.pos)

/-- `createBlock`: a used block at `pos`, linked after `prev`. -/
def createBlock (h : HeapAllocator) (size : Int64) (prev : Option ℕ) : HeapAllocator × ℕ :=
  let (h, address) := h.incrementAddress size
  let (h, block) := h.newBlock { address, size, free := false, next := none }
  match prev with
  | none => (h, block)
  | some prev => (h.setNext prev (some block), block)

/-- `splitBlock`: shrinks a free block to `size` bytes and links a free block for the rest after
it. An exact fit leaves a block of size zero. -/
def splitBlock (h : HeapAllocator) (block : ℕ) (size : Int64) :
    HeapAllocator × Except HeapFault ℕ :=
  let b := h.objects block
  if !b.free then (h, .error (.heapError "Attempted to split non-free block"))
  else
    let (h, newBlock) := h.newBlock
      { address := b.address + size, size := b.size - size, free := true, next := b.next }
    ((h.setNext block (some newBlock)).setSize block size, .ok block)

/-- `mergeBlock`: joins a free block with its successor if that is free too. -/
def mergeBlock (h : HeapAllocator) : Option ℕ → HeapAllocator
  | none => h
  | some block =>
    if (h.objects block).free then
      match (h.objects block).next with
      | none => h
      | some next =>
        if (h.objects next).free then
          (h.setSize block ((h.objects block).size + (h.objects next).size)).setNext block
            (h.objects next).next
        else h
    else h

/-- `allocate`: the address of `size` fresh bytes, `0` for a negative size. -/
def allocate (h : HeapAllocator) (size : Int64) : HeapAllocator × Except HeapFault Int64 :=
  if size < 0 then (h, .ok 0)
  else
    match h.head with
    | none =>
      -- The first block becomes the head of the list.
      let (h, block) := h.createBlock size none
      ({ h with head := some block }, .ok (h.objects block).address)
    | some _ =>
      match h.findFreeBlock size with
      | none => (h, .error .diverges)
      | some ⟨none, prev⟩ =>
        -- No block fits, and a new one is appended at `pos`; `end_` is not looked at.
        let (h, block) := h.createBlock size prev
        let h := h.setFree block false
        (h, .ok (h.objects block).address)
      | some ⟨some found, _⟩ =>
        if (h.objects found).size ≥ size then
          -- A block of exactly this size is split as well.
          match h.splitBlock found size with
          | (h, .error fault) => (h, .error fault)
          | (h, .ok block) =>
            let h := h.setFree block false
            (h, .ok (h.objects block).address)
        else (h, .error .nullPointer)

/-- `%x` of `String.format` for a `long`. -/
def hex (v : Int64) : String := String.ofList (Nat.toDigits 16 v.toUInt64.toNat)

/-- `free`: marks the first block at `addr` free and joins it with its free neighbours. -/
def free (h : HeapAllocator) (addr : Int64) : HeapAllocator × Except HeapFault Unit :=
  if addr ≤ 0 then (h, .ok ())
  else
    match h.findBlock addr with
    | none => (h, .error .diverges)
    | some ⟨none, _⟩ =>
      (h, .error (.heapError ("Attempted to free non existing block at 0x" ++ hex addr)))
    | some ⟨some block, prev⟩ =>
      let h := h.setFree block true
      -- Join with the block after, then with the block before.
      let h := h.mergeBlock (some block)
      let h := h.mergeBlock prev
      (h, .ok ())

end HeapAllocator

end Tank
