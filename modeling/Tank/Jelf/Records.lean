import Tank.Jelf.Words

/-!
# The records of an ELF file

A program header, a section header, a symbol and a relocation, as the constructors of `ElfSegment`,
`ElfSection`, `ElfSymbol` and `ElfRelocation` read them. The order of the fields of program headers
and symbols depends on the class of the file.
-/

namespace Tank

/-! ## Program headers -/

/-- The fields of `ElfSegment`. -/
structure ProgramHeader where
  type : Int32
  offset : Int64
  virtualAddress : Int64
  physicalAddress : Int64
  fileSize : Int64
  memSize : Int64
  flags : Int32
  alignment : Int64
deriving DecidableEq, Repr

namespace ProgramHeader

/-- The constructor of `ElfSegment`, after the `seek`. -/
def read (parser : ElfParser) : ParseM ProgramHeader :=
  match parser.objectSize with
  | .class32 => do
    let type ← parser.readInt
    let offset ← parser.readIntWide
    let virtualAddress ← parser.readIntWide
    let physicalAddress ← parser.readIntWide
    let fileSize ← parser.readIntWide
    let memSize ← parser.readIntWide
    let flags ← parser.readInt
    let alignment ← parser.readIntWide
    pure { type, offset, virtualAddress, physicalAddress, fileSize, memSize, flags, alignment }
  | .class64 => do
    let type ← parser.readInt
    let flags ← parser.readInt
    let offset ← parser.readLong
    let virtualAddress ← parser.readLong
    let physicalAddress ← parser.readLong
    let fileSize ← parser.readLong
    let memSize ← parser.readLong
    let alignment ← parser.readLong
    pure { type, offset, virtualAddress, physicalAddress, fileSize, memSize, flags, alignment }

/-- What the loader uses of a program header. -/
def toSegment (h : ProgramHeader) : ElfSegment where
  type := h.type
  offset := h.offset
  virtualAddress := h.virtualAddress
  fileSize := h.fileSize
  memSize := h.memSize
  flags := h.flags

end ProgramHeader

/-! ## Section headers -/

/-- The fields of `ElfSection`. -/
structure SectionHeader where
  nameNdx : Int32
  type : Int32
  flags : Int64
  address : Int64
  sectionOffset : Int64
  size : Int64
  link : Int32
  info : Int32
  addressAlignment : Int64
  entrySize : Int64
deriving DecidableEq, Repr

namespace SectionHeader

/-- The fields that the constructor of `ElfSection` reads after the `seek`. -/
def read (parser : ElfParser) : ParseM SectionHeader := do
  let nameNdx ← parser.readInt
  let type ← parser.readInt
  let flags ← parser.readIntOrLong
  let address ← parser.readIntOrLong
  let sectionOffset ← parser.readIntOrLong
  let size ← parser.readIntOrLong
  let link ← parser.readInt
  let info ← parser.readInt
  let addressAlignment ← parser.readIntOrLong
  let entrySize ← parser.readIntOrLong
  pure { nameNdx, type, flags, address, sectionOffset, size, link, info, addressAlignment
         entrySize }

end SectionHeader

/-! ## Symbols -/

/-- The fields of `ElfSymbol`. -/
structure SymbolEntry where
  nameNdx : Int32
  value : Int64
  size : Int64
  info : UInt8
  other : UInt8
  sectionHeaderNdx : Int16
deriving DecidableEq, Repr

namespace SymbolEntry

/-- The constructor of `ElfSymbol`, after the `seek`. -/
def read (parser : ElfParser) : ParseM SymbolEntry :=
  match parser.objectSize with
  | .class32 => do
    let nameNdx ← parser.readInt
    let value ← parser.readIntWide
    let size ← parser.readIntWide
    let info ← parser.readUnsignedByte
    let other ← parser.readUnsignedByte
    let sectionHeaderNdx ← parser.readShort
    pure { nameNdx, value, size, info, other, sectionHeaderNdx }
  | .class64 => do
    let nameNdx ← parser.readInt
    let info ← parser.readUnsignedByte
    let other ← parser.readUnsignedByte
    let sectionHeaderNdx ← parser.readShort
    let value ← parser.readLong
    let size ← parser.readLong
    pure { nameNdx, value, size, info, other, sectionHeaderNdx }

end SymbolEntry

/-! ## Relocations -/

namespace ElfRelocation

/-- Entries from this size on have an addend. -/
def addendFrom : ObjectSize → Int64
  | .class32 => 12
  | .class64 => 24

/-- The addend, which is zero in entries that have none. -/
def readAddend (parser : ElfParser) (entrySize : Int64) : ParseM Int64 :=
  if addendFrom parser.objectSize ≤ entrySize then parser.readIntOrLong else pure 0

/-- The constructor of `ElfRelocation`, after the `seek`. -/
def read (parser : ElfParser) (entrySize : Int64) : ParseM ElfRelocation :=
  match parser.objectSize with
  | .class32 => do
    let offset ← parser.readInt
    let info ← parser.readIntWide
    let addend ← readAddend parser entrySize
    pure { objectSize := .class32, offset := offset.toInt64 &&& 0xFFFFFFFF, info, addend }
  | .class64 => do
    let offset ← parser.readLong
    let info ← parser.readLong
    let addend ← readAddend parser entrySize
    pure { objectSize := .class64, offset, info, addend }

end ElfRelocation

end Tank
