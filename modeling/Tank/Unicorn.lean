import Tank.ToMathlib.ByteMemory
import Tank.ToMathlib.Int64

/-!
# The Unicorn engine

The part of the engine that the emulator's Java code drives: mapping guest memory and changing its
permissions, reading and writing it and the registers. Addresses and sizes cross the binding as
`long`s and are `uint64_t` in the engine. The operations follow `mem_map_check`, `memory_overlap`
and `check_mem_area` of `uc.c`; an error code comes back as a `UnicornException`.

A guest byte is `none` where nothing is mapped (`guestByte`). Chunks that lie in the addresses a
`long` can hold without a sign are intervals of integers (`MemChunk.contains_region`); for page
aligned ones `mem_map` fails exactly on an overlap (`memMapCheck_of_isLow`).
-/

namespace Tank

open ToMathlib

/-- The error codes of the engine that the modelled calls return. -/
inductive UcErr where
  /-- `UC_ERR_ARG` -/
  | arg
  /-- `UC_ERR_MAP` -/
  | map
  /-- `UC_ERR_NOMEM` -/
  | nomem
  /-- `UC_ERR_READ_UNMAPPED` -/
  | readUnmapped
  /-- `UC_ERR_WRITE_UNMAPPED` -/
  | writeUnmapped
deriving DecidableEq, Repr

/-- What the modelled Java code throws. -/
inductive JavaException where
  | memError (message : String)
  | unicornException (err : UcErr)
  | illegalArgument
  | negativeArraySize
  | nullPointer
  | arrayIndexOutOfBounds
  | noSuchElement
  | outOfMemory
  | ioException
  | fileNotFound
  | jsonException
  | bufferUnderflow
  | elfException
  | classCast
  /-- An `Exception` itself. -/
  | exception (message : String)
deriving DecidableEq, Repr

/-- `MemChunk`: a range of addresses. -/
structure MemChunk where
  addr : Int64
  size : Int64
deriving DecidableEq, Repr

/-- The registers that the modelled code reads or writes. -/
inductive ArmReg where
  | r0 | r1 | r2 | r3 | r4 | r5 | r6 | r7 | sp | lr | pc
  /-- A register by its number in the binding. -/
  | other (id : ℕ)
deriving DecidableEq, Repr

/-- A mapped block of guest memory. -/
structure Region where
  addr : UInt64
  size : UInt64
deriving DecidableEq, Repr

/-- The last address of a region: `end - 1` of the engine, which is right also for a region that
ends with the address space. -/
def Region.last (r : Region) : UInt64 := r.addr + r.size - 1

def Region.contains (r : Region) (x : UInt64) : Bool := r.addr ≤ x && x ≤ r.last

/-- What is left of a block when a range is taken out of it: the part before it and the part after
it, as far as they are not empty. -/
def Region.without (block r : Region) : List Region :=
  if r.last < block.addr ∨ block.last < r.addr then [block]
  else
    (if block.addr < r.addr then [⟨block.addr, r.addr - block.addr⟩] else []) ++
      if r.last < block.last then [⟨r.last + 1, block.last - r.last⟩] else []

/-- The range as the engine sees it. -/
def MemChunk.region (c : MemChunk) : Region := ⟨c.addr.toUInt64, c.size.toUInt64⟩

/-- The address `x` lies in the chunk. -/
def MemChunk.Contains (c : MemChunk) (x : ℤ) : Prop :=
  c.addr.toInt ≤ x ∧ x < c.addr.toInt + c.size.toInt

/-- The two chunks share no address. -/
def MemChunk.Disjoint (c d : MemChunk) : Prop :=
  c.addr.toInt + c.size.toInt ≤ d.addr.toInt ∨ d.addr.toInt + d.size.toInt ≤ c.addr.toInt

instance (c : MemChunk) (x : ℤ) : Decidable (c.Contains x) := inferInstanceAs (Decidable (_ ∧ _))

instance (c d : MemChunk) : Decidable (c.Disjoint d) := inferInstanceAs (Decidable (_ ∨ _))

/-- The chunk is not empty and all its addresses are non-negative `long`s. -/
structure MemChunk.IsLow (c : MemChunk) : Prop where
  addr : 0 ≤ c.addr.toInt
  size : 0 < c.size.toInt
  last : c.addr.toInt + c.size.toInt ≤ 2 ^ 63

/-- The chunk consists of whole pages. -/
structure MemChunk.IsPaged (c : MemChunk) : Prop where
  addr : 0x1000 ∣ c.addr.toInt
  size : 0x1000 ∣ c.size.toInt

/-- State of the engine. -/
structure Unicorn where
  /-- The mapped blocks. -/
  regions : List Region
  /-- Contents of guest memory; only mapped bytes are visible. -/
  mem : UInt64 → UInt8
  /-- The permissions of guest memory; only those of mapped bytes mean something. -/
  perms : UInt64 → UInt32
  /-- Contents of the registers; of those with 64 bits the lower halves. -/
  regs : ArmReg → UInt32
  /-- The upper halves of the registers with 64 bits, by their numbers in the binding. -/
  upper : ℕ → UInt32
  /-- The calls of `mem_map` so far, newest first. A history that nothing reads. -/
  mapCalls : List MemChunk

/-- Code that drives the engine; what it did before an exception stays done. -/
abbrev UcM := EStateM JavaException Unicorn

namespace Unicorn

/-- A new engine. -/
def blank : Unicorn where
  regions := []
  mem := fun _ => 0
  perms := fun _ => 0
  regs := fun _ => 0
  upper := fun _ => 0
  mapCalls := []

/-- `memory_mapping`: whether some block contains the address. -/
def mapped (uc : Unicorn) (x : UInt64) : Bool := uc.regions.any fun r => r.contains x

/-- The byte at a guest address, if it is mapped. -/
def guestByte (uc : Unicorn) (x : UInt64) : Option UInt8 :=
  if uc.mapped x then some (uc.mem x) else none

/-- `check_mem_area`: all bytes of the area are mapped. -/
def checkMemArea (uc : Unicorn) (address : UInt64) (size : ℕ) : Bool :=
  (List.range size).all fun k => uc.mapped (address + UInt64.ofNat k)

/-- `memory_overlap`: a mapped block shares an address with the range. -/
def memoryOverlap (uc : Unicorn) (r : Region) : Bool :=
  uc.regions.any fun block => r.addr ≤ block.last && block.addr ≤ r.last

/-- `mem_map_check`; `UC_PROT_ALL` is 7. A page of the ARM target has `TARGET_PAGE_BITS_MIN`, which
is 10, bits: the engine accepts less than the pages of the emulator. -/
def memMapCheck (uc : Unicorn) (r : Region) (perms : UInt32) : Option UcErr :=
  if r.size = 0 then some .arg
  else if r.last < r.addr then some .arg
  else if r.addr % 0x400 ≠ 0 then some .arg
  else if r.size % 0x400 ≠ 0 then some .arg
  else if perms &&& ~~~7 ≠ 0 then some .arg
  else if uc.memoryOverlap r then some .map
  else none

/-- The engine after `mem_map` was called for a chunk, whatever came of it. -/
def logMap (uc : Unicorn) (chunk : MemChunk) : Unicorn :=
  { uc with mapCalls := chunk :: uc.mapCalls }

/-- The engine with a new block of zeros. -/
def addBlock (uc : Unicorn) (r : Region) : Unicorn :=
  { uc with
    regions := r :: uc.regions
    mem := fun x => if r.contains x then 0 else uc.mem x }

/-- The engine with the permissions of a range changed. -/
def setPerms (uc : Unicorn) (r : Region) (perms : UInt32) : Unicorn :=
  { uc with perms := fun x => if r.contains x then perms else uc.perms x }

/-- `mem_map`: maps a block of zeros. -/
def memMap (chunk : MemChunk) (perms : Int32) : UcM Unit := fun uc =>
  match uc.memMapCheck chunk.region perms.toUInt32 with
  | some err => .error (.unicornException err) (uc.logMap chunk)
  | none =>
    .ok () (((uc.logMap chunk).addBlock chunk.region).setPerms chunk.region perms.toUInt32)

/-- `mem_protect`: changes the permissions of mapped pages. No caller passes a range that goes
around the address space. -/
def memProtect (chunk : MemChunk) (perms : Int32) : UcM Unit := fun uc =>
  let r := chunk.region
  if r.size = 0 then .ok () uc
  else if r.addr % 0x400 ≠ 0 then .error (.unicornException .arg) uc
  else if r.size % 0x400 ≠ 0 then .error (.unicornException .arg) uc
  else if perms.toUInt32 &&& ~~~7 ≠ 0 then .error (.unicornException .arg) uc
  else if uc.checkMemArea r.addr r.size.toNat then .ok () (uc.setPerms r perms.toUInt32)
  else .error (.unicornException .nomem) uc

/-- The engine with the addresses of a range unmapped; `split_region` keeps the rest of a block. -/
def removeBlock (uc : Unicorn) (r : Region) : Unicorn :=
  { uc with regions := uc.regions.flatMap fun block => block.without r }

/-- `mem_unmap`; as for `memProtect` the range does not go around the address space. -/
def memUnmap (chunk : MemChunk) : UcM Unit := fun uc =>
  let r := chunk.region
  if r.size = 0 then .ok () uc
  else if r.addr % 0x400 ≠ 0 then .error (.unicornException .arg) uc
  else if r.size % 0x400 ≠ 0 then .error (.unicornException .arg) uc
  else if uc.checkMemArea r.addr r.size.toNat then .ok () (uc.removeBlock r)
  else .error (.unicornException .nomem) uc

/-- `mem_read`. -/
def memRead (address : Int64) (size : ℕ) : UcM (List UInt8) := fun uc =>
  if uc.checkMemArea address.toUInt64 size then
    .ok (readBytes uc.mem address.toUInt64 size) uc
  else .error (.unicornException .readUnmapped) uc

/-- The engine with bytes stored from an address on. -/
def store (uc : Unicorn) (address : UInt64) (bytes : List UInt8) : Unicorn :=
  { uc with mem := overwrite uc.mem address bytes }

/-- `mem_write`. -/
def memWrite (address : Int64) (bytes : List UInt8) : UcM Unit := fun uc =>
  if uc.checkMemArea address.toUInt64 bytes.length then
    .ok () (uc.store address.toUInt64 bytes)
  else .error (.unicornException .writeUnmapped) uc

theorem run_memMap (chunk : MemChunk) (perms : Int32) (uc : Unicorn) :
    (memMap chunk perms).run uc =
      match uc.memMapCheck chunk.region perms.toUInt32 with
      | some err => .error (.unicornException err) (uc.logMap chunk)
      | none => .ok ()
          (((uc.logMap chunk).addBlock chunk.region).setPerms chunk.region perms.toUInt32) := rfl

theorem run_memRead (address : Int64) (size : ℕ) (uc : Unicorn) :
    (memRead address size).run uc =
      if uc.checkMemArea address.toUInt64 size then
        .ok (readBytes uc.mem address.toUInt64 size) uc
      else .error (.unicornException .readUnmapped) uc := rfl

theorem run_memWrite (address : Int64) (bytes : List UInt8) (uc : Unicorn) :
    (memWrite address bytes).run uc =
      if uc.checkMemArea address.toUInt64 bytes.length then
        .ok () (uc.store address.toUInt64 bytes)
      else .error (.unicornException .writeUnmapped) uc := rfl

theorem run_memRead_of_mapped {address : Int64} {size : ℕ} {uc : Unicorn}
    (h : uc.checkMemArea address.toUInt64 size = true) :
    (memRead address size).run uc = .ok (readBytes uc.mem address.toUInt64 size) uc := by
  rw [run_memRead, if_pos h]

theorem run_memRead_of_unmapped {address : Int64} {size : ℕ} {uc : Unicorn}
    (h : uc.checkMemArea address.toUInt64 size = false) :
    (memRead address size).run uc = .error (.unicornException .readUnmapped) uc := by
  rw [run_memRead, if_neg (Bool.eq_false_iff.1 h)]

theorem run_memWrite_of_mapped {address : Int64} {bytes : List UInt8} {uc : Unicorn}
    (h : uc.checkMemArea address.toUInt64 bytes.length = true) :
    (memWrite address bytes).run uc = .ok () (uc.store address.toUInt64 bytes) := by
  rw [run_memWrite, if_pos h]

theorem run_memWrite_of_unmapped {address : Int64} {bytes : List UInt8} {uc : Unicorn}
    (h : uc.checkMemArea address.toUInt64 bytes.length = false) :
    (memWrite address bytes).run uc = .error (.unicornException .writeUnmapped) uc := by
  rw [run_memWrite, if_neg (Bool.eq_false_iff.1 h)]

theorem memRead_eq_ok {address : Int64} {size : ℕ} {bytes : List UInt8} {uc uc' : Unicorn} :
    (memRead address size).run uc = .ok bytes uc' ↔
      uc.checkMemArea address.toUInt64 size = true ∧
        bytes = readBytes uc.mem address.toUInt64 size ∧ uc' = uc := by
  cases h : uc.checkMemArea address.toUInt64 size with
  | true =>
    rw [run_memRead_of_mapped h]
    simp [eq_comm]
  | false =>
    rw [run_memRead_of_unmapped h]
    simp

theorem memWrite_eq_ok {address : Int64} {bytes : List UInt8} {uc uc' : Unicorn}
    {u : Unit} :
    (memWrite address bytes).run uc = .ok u uc' ↔
      uc.checkMemArea address.toUInt64 bytes.length = true ∧
        uc' = uc.store address.toUInt64 bytes := by
  cases h : uc.checkMemArea address.toUInt64 bytes.length with
  | true =>
    rw [run_memWrite_of_mapped h]
    simp [eq_comm]
  | false =>
    rw [run_memWrite_of_unmapped h]
    simp

/-- What is mapped depends on the blocks only. -/
theorem mapped_congr {uc uc' : Unicorn} (h : uc'.regions = uc.regions) (x : UInt64) :
    uc'.mapped x = uc.mapped x := by
  rw [mapped, mapped, h]

theorem checkMemArea_congr {uc uc' : Unicorn} (h : uc'.regions = uc.regions) (a : UInt64)
    (n : ℕ) : uc'.checkMemArea a n = uc.checkMemArea a n := by
  simp only [checkMemArea, mapped_congr h]

theorem mapped_of_checkMemArea {uc : Unicorn} {a x : UInt64} {n : ℕ}
    (h : uc.checkMemArea a n = true) (hx : Within a n x) : uc.mapped x = true := by
  obtain ⟨k, hk, rfl⟩ := hx.exists_add
  exact List.all_eq_true.1 h k (List.mem_range.2 hk)

/-- An area is mapped if its first part and the rest are. -/
theorem checkMemArea_add (uc : Unicorn) (a : UInt64) (n k : ℕ) :
    uc.checkMemArea a (n + k) =
      (uc.checkMemArea a n && uc.checkMemArea (a + UInt64.ofNat n) k) := by
  simp only [checkMemArea, List.range_add, List.all_append, List.all_map, Function.comp_def,
    add_ofNat_add]

/-- `reg_read`. The binding sets only the low half of the `long` that it returns; the upper half is
what it finds in memory. -/
def regReadRaw (uc : Unicorn) (reg : ArmReg) (high : UInt32) : Int64 :=
  (high.toUInt64 * 0x100000000 + (uc.regs reg).toUInt64).toInt64

/-- `reg_read` for a caller that keeps the low 32 bits. -/
def regRead (uc : Unicorn) (reg : ArmReg) : Int64 := (uc.regs reg).toUInt64.toInt64

theorem toInt_regRead (uc : Unicorn) (reg : ArmReg) :
    (uc.regRead reg).toInt = (uc.regs reg).toNat :=
  toInt_toInt64_toUInt64 _

/-- `reg_write`: registers have 32 bits. -/
def regWrite (reg : ArmReg) (value : Int64) : UcM Unit :=
  modify fun uc => { uc with regs := Function.update uc.regs reg value.toUInt64.toUInt32 }

end Unicorn

/-! ## Chunks as intervals -/

variable {c d : MemChunk} {uc : Unicorn} {x : UInt64}

theorem MemChunk.IsLow.addr_toNat (h : c.IsLow) : (c.region.addr.toNat : ℤ) = c.addr.toInt :=
  toNat_toUInt64 h.addr

theorem MemChunk.IsLow.size_toNat (h : c.IsLow) : (c.region.size.toNat : ℤ) = c.size.toInt :=
  toNat_toUInt64 h.size.le

theorem MemChunk.IsLow.last_toNat (h : c.IsLow) :
    (c.region.last.toNat : ℤ) = c.addr.toInt + c.size.toInt - 1 := by
  have haddr := h.addr_toNat
  have hsize := h.size_toNat
  have hpos := h.size
  have hlast := h.last
  have hone : (1 : UInt64).toNat = 1 := rfl
  rw [Region.last, UInt64.toNat_sub, UInt64.toNat_add, hone]
  omega

/-- A chunk of low addresses is an interval. -/
theorem MemChunk.contains_region (h : c.IsLow) :
    c.region.contains x = true ↔ c.Contains x.toNat := by
  have haddr := h.addr_toNat
  have hlast := h.last_toNat
  simp only [Region.contains, Bool.and_eq_true, decide_eq_true_eq, UInt64.le_iff_toNat_le,
    MemChunk.Contains]
  omega

theorem MemChunk.disjoint_iff (hc : c.IsLow) (hd : d.IsLow) :
    (decide (d.region.addr ≤ c.region.last) && decide (c.region.addr ≤ d.region.last)) = false ↔
      c.Disjoint d := by
  have hca := hc.addr_toNat
  have hcl := hc.last_toNat
  have hda := hd.addr_toNat
  have hdl := hd.last_toNat
  simp only [← Bool.not_eq_true, Bool.and_eq_true, decide_eq_true_eq, UInt64.le_iff_toNat_le,
    MemChunk.Disjoint]
  omega

namespace Unicorn

/-- For whole pages of low addresses and valid permissions, `mem_map` fails exactly on an
overlap. -/
theorem memMapCheck_of_isLow (hlow : c.IsLow) (hpaged : c.IsPaged) {perms : UInt32}
    (hperms : perms &&& ~~~7 = 0) :
    uc.memMapCheck c.region perms =
      if uc.memoryOverlap c.region then some .map else none := by
  have haddr := hlow.addr_toNat
  have hsize := hlow.size_toNat
  have hlast := hlow.last_toNat
  have hpos := hlow.size
  have hpage : (0x400 : UInt64).toNat = 0x400 := rfl
  have hzero : (0 : UInt64).toNat = 0 := rfl
  -- The five checks of the argument pass one after the other; only the overlap is left.
  have h₁ : c.region.size ≠ 0 := by
    rw [ne_eq, ← UInt64.toNat_inj, hzero]
    omega
  have h₂ : ¬c.region.last < c.region.addr := by
    rw [UInt64.lt_iff_toNat_lt]
    omega
  have h₃ : ¬c.region.addr % 0x400 ≠ 0 := by
    have := hpaged.addr
    rw [not_not, ← UInt64.toNat_inj, UInt64.toNat_mod, hpage, hzero]
    omega
  have h₄ : ¬c.region.size % 0x400 ≠ 0 := by
    have := hpaged.size
    rw [not_not, ← UInt64.toNat_inj, UInt64.toNat_mod, hpage, hzero]
    omega
  rw [memMapCheck, if_neg h₁, if_neg h₂, if_neg h₃, if_neg h₄, if_neg (not_not.2 hperms)]

/-- A block added for a disjoint chunk overlaps no more than what was mapped before. -/
theorem memoryOverlap_addBlock (hc : c.IsLow) (hd : d.IsLow) (hdisj : c.Disjoint d) :
    (uc.addBlock c.region).memoryOverlap d.region = uc.memoryOverlap d.region := by
  simp only [memoryOverlap, addBlock, List.any_cons, (MemChunk.disjoint_iff hc hd).2 hdisj,
    Bool.false_or]

theorem guestByte_addBlock (r : Region) (x : UInt64) :
    (uc.addBlock r).guestByte x = if r.contains x then some 0 else uc.guestByte x := by
  simp only [guestByte, mapped, addBlock, List.any_cons]
  by_cases hx : r.contains x = true <;> simp [hx]

/-- Permissions do not show in what is read. -/
@[simp]
theorem guestByte_setPerms (r : Region) (perms : UInt32) (x : UInt64) :
    (uc.setPerms r perms).guestByte x = uc.guestByte x := rfl

theorem mapped_addBlock_of_contains {r : Region} (h : r.contains x = true) :
    (uc.addBlock r).mapped x = true := by
  simp [mapped, addBlock, h]

theorem guestByte_store_of_not_within {a : UInt64} {bytes : List UInt8}
    (h : ¬Within a bytes.length x) : (uc.store a bytes).guestByte x = uc.guestByte x := by
  have hmem : (uc.store a bytes).mem x = uc.mem x := overwrite_of_not_within h
  rw [guestByte, guestByte, hmem]
  rfl

theorem store_nil (uc : Unicorn) (a : UInt64) : uc.store a [] = uc := by
  have hmem : overwrite uc.mem a [] = uc.mem := (overwrite_eq_self_iff (Nat.zero_le _)).2 rfl
  rw [store, hmem]

/-- Bytes are stored as a first part and the rest. -/
theorem store_append (uc : Unicorn) (a : UInt64) {bytes bytes' : List UInt8}
    (hlen : (bytes ++ bytes').length ≤ 2 ^ 64) :
    uc.store a (bytes ++ bytes') =
      (uc.store a bytes).store (a + UInt64.ofNat bytes.length) bytes' := by
  simp only [store, overwrite_append hlen]

/-- Of two stores to the same range the second one stays. -/
theorem store_store (uc : Unicorn) (a : UInt64) {bytes bytes' : List UInt8}
    (h : bytes.length = bytes'.length) : (uc.store a bytes).store a bytes' = uc.store a bytes' := by
  simp only [store, overwrite_overwrite h.le]

/-- Storing more bytes makes no difference exactly if they are there already. -/
theorem store_append_eq_iff (uc : Unicorn) (a : UInt64) {bytes bytes' : List UInt8}
    (hlen : (bytes ++ bytes').length ≤ 2 ^ 64) :
    uc.store a (bytes ++ bytes') = uc.store a bytes ↔
      readBytes uc.mem (a + UInt64.ofNat bytes.length) bytes'.length = bytes' := by
  rw [← overwrite_append_eq_iff hlen]
  constructor
  · exact congrArg Unicorn.mem
  · intro hmem
    rw [store, store, hmem]

theorem guestByte_store_add {a : UInt64} {bytes : List UInt8} {k : ℕ} (hk : k < bytes.length)
    (hlen : bytes.length ≤ 2 ^ 64) (hm : uc.mapped (a + UInt64.ofNat k) = true) :
    (uc.store a bytes).guestByte (a + UInt64.ofNat k) = some bytes[k] := by
  have hm' : (uc.store a bytes).mapped (a + UInt64.ofNat k) = true := hm
  have hmem : (uc.store a bytes).mem (a + UInt64.ofNat k) = bytes[k] := overwrite_add hk hlen
  rw [guestByte, if_pos hm', hmem]

end Unicorn

end Tank
