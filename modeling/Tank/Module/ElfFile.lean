import Tank.Unicorn

/-!
# ELF files as the loader sees them

The parsed view that `net.fornwall.jelf` gives of a file: program headers, sections with their
symbols and relocations, and the file's bytes. Fields are Java `long`s and `int`s as the parser
stores them; a symbol without a name has the name `null`.
-/

namespace Tank

/-- A `ByteBuffer` over a file; its capacity is an `int`. -/
structure ByteBuffer where
  bytes : List UInt8
  length_lt : bytes.length < 2 ^ 31

/-- A buffer without bytes. -/
def ByteBuffer.empty : ByteBuffer := ⟨[], Nat.two_pow_pos 31⟩

/-- `ElfSegment`: a program header. -/
structure ElfSegment where
  type : Int32
  offset : Int64
  virtualAddress : Int64
  fileSize : Int64
  memSize : Int64
  flags : Int32
deriving DecidableEq, Repr

namespace ElfSegment

/-- `PT_LOAD` -/
def ptLoad : Int32 := 1

/-- `getPtLoadData` followed by `getData`: the buffer is positioned at `offset` and cut after
`file_size` bytes, both cast to `int`. -/
def getData (buffer : ByteBuffer) (segment : ElfSegment) : Except JavaException (List UInt8) :=
  let offset := segment.offset.toInt32
  let size := segment.fileSize.toInt32
  if offset < 0 ∨ (buffer.bytes.length : ℤ) < offset.toInt then .error .illegalArgument
  else if offset + size < 0 ∨ (buffer.bytes.length : ℤ) < (offset + size).toInt then
    .error .illegalArgument
  else if size < 0 then .error .negativeArraySize
  else .ok ((buffer.bytes.drop offset.toInt.toNat).take size.toInt.toNat)

end ElfSegment

/-- `ElfSymbol`. -/
structure ElfSymbol where
  /-- `getName`; `none` is `null`. -/
  name : Option String
  value : Int64
  info : UInt8
  sectionHeaderNdx : Int16
deriving DecidableEq, Repr

namespace ElfSymbol

/-- `BINDING_LOCAL` -/
def bindingLocal : UInt8 := 0
/-- `BINDING_WEAK` -/
def bindingWeak : UInt8 := 2

def getBinding (symbol : ElfSymbol) : UInt8 := symbol.info >>> 4

/-- The section index is `SHN_UNDEF`. -/
def isUndef (symbol : ElfSymbol) : Bool := symbol.sectionHeaderNdx == 0

end ElfSymbol

/-- `CLASS_32` or `CLASS_64`. -/
inductive ObjectSize where
  | class32
  | class64
deriving DecidableEq, Repr

/-- `ElfRelocation`. -/
structure ElfRelocation where
  objectSize : ObjectSize
  offset : Int64
  info : Int64
  addend : Int64
deriving DecidableEq, Repr

namespace ElfRelocation

/-- `sym`: index of the symbol. -/
def sym (r : ElfRelocation) : Int32 :=
  match r.objectSize with
  | .class32 => (r.info >>> 8).toInt32
  | .class64 => (r.info >>> 32).toInt32

/-- `type`: the kind of the relocation. -/
def type (r : ElfRelocation) : Int32 :=
  match r.objectSize with
  | .class32 => (r.info &&& 0xff).toInt32
  | .class64 => (r.info &&& 0xffffffff).toInt32

end ElfRelocation

/-- `ElfSection`. -/
structure ElfSection where
  type : Int32
  link : Int32
  /-- The symbols; `null` unless the section is a symbol table. -/
  symbols : Option (List ElfSymbol)
  /-- The relocations; empty unless the section is a relocation table. -/
  relocations : List ElfRelocation
deriving DecidableEq, Repr

namespace ElfSection

/-- `SHT_SYMTAB` -/
def shtSymtab : Int32 := 2
/-- `SHT_RELA` -/
def shtRela : Int32 := 4
/-- `SHT_REL` -/
def shtRel : Int32 := 9
/-- `SHT_DYNSYM` -/
def shtDynsym : Int32 := 11

/-- `getELFSymbol`. -/
def getElfSymbol (section_ : ElfSection) (index : Int32) : Except JavaException ElfSymbol :=
  match section_.symbols with
  | none => .error .nullPointer
  | some symbols =>
    if index < 0 then .error .arrayIndexOutOfBounds
    else match symbols[index.toInt.toNat]? with
      | none => .error .arrayIndexOutOfBounds
      | some symbol => .ok symbol

end ElfSection

/-- `ElfDynamicStructure`: the arrays of constructors, which are parsed when they are asked for. -/
structure ElfDynamicStructure where
  /-- `getInitArray`; `none` is `null`. -/
  initArray : Except JavaException (Option (List Int64))
  /-- `getPreInitArray`; `none` is `null`. -/
  preInitArray : Except JavaException (Option (List Int64))

/-- `ElfFile`. -/
structure ElfFile where
  buffer : ByteBuffer
  fileType : Int16
  segments : List ElfSegment
  sections : List ElfSection
  /-- `getDynamicSegment` followed by `getDynamicStructure`; `none` if there is no such segment. -/
  dynamicStructure : Except JavaException (Option ElfDynamicStructure) := .ok none

namespace ElfFile

/-- `FT_DYN` -/
def ftDyn : Int16 := 3

/-- `getLoadSegments` -/
def getLoadSegments (elf : ElfFile) : List ElfSegment :=
  elf.segments.filter fun segment => segment.type == ElfSegment.ptLoad

/-- `getSection`. -/
def getSection (elf : ElfFile) (index : Int32) : Except JavaException ElfSection :=
  if index < 0 then .error .arrayIndexOutOfBounds
  else match elf.sections[index.toInt.toNat]? with
    | none => .error .arrayIndexOutOfBounds
    | some s => .ok s

end ElfFile

end Tank
