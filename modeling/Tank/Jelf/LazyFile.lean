import Tank.Jelf.Tables
import Tank.ToMathlib.Memo

/-!
# Files that are read on demand

An `ElfFile` whose constructor has run holds the fields of its header, and a `MemoizedObject` for
everything else: program headers, section headers and what belongs to them are read when they are
first asked for, through one parser with one position.

The accessors are written once, over a monad with the two things they do besides computing: reading
with the parser, and asking for a memoised value (`FileAccess`). `memoised` is what the source does:
the state has the position and the values computed so far. `direct` reads everything anew from the
beginning of the file and remembers nothing; it says what the file contains.
-/

namespace Tank

open ToMathlib

/-- An `ElfFile` after its constructor. -/
structure LazyElf where
  buffer : ByteBuffer
  header : ElfHeader
  /-- The platform's charset. -/
  decode : List UInt8 → String

/-- Where a dynamic structure comes from: the segment or the section with the number. -/
inductive DynamicAt where
  | ofSegment (i : ℕ)
  | ofSection (i : ℕ)
deriving DecidableEq, Repr

/-- `ElfDynamicStructure` after its constructor. -/
structure DynamicStructure where
  tags : DynamicTags
  /-- `rel`: the place of the relocations in the file and their number; `none` is `null`. -/
  rel : Option (Int64 × Int32)
  pltRel : Option (Int64 × Int32)
deriving DecidableEq, Repr

/-- `ElfSymbol`. -/
structure SymbolObject where
  entry : SymbolEntry
  sectionType : Int32
deriving DecidableEq, Repr

/-- `ElfSection`, with its number. -/
structure SectionObject where
  ndx : ℕ
  header : SectionHeader
deriving DecidableEq, Repr

/-- `ElfSegment`, with its number. -/
structure SegmentObject where
  ndx : ℕ
  header : ProgramHeader
deriving DecidableEq, Repr

/-- `ElfRelocation`; `symtab` is the section of its symbols. -/
structure RelocationObject where
  relocation : ElfRelocation
  symtab : SectionObject
deriving DecidableEq, Repr

/-- The memoised objects of a file. -/
inductive Cell where
  | programHeader (i : ℕ)
  | sectionHeader (i : ℕ)
  | symbol (section_ i : ℕ)
  | relocation (section_ i : ℕ)
  /-- The field `symbol` of a relocation. -/
  | relocationSymbol (section_ i : ℕ)
  | stringTable (section_ : ℕ)
  | ptInterpreter (segment : ℕ)
  | ptLoad (segment : ℕ)
  | dynamicStructure (d : DynamicAt)
  | dtStringTable (d : DynamicAt)
  | initArray (d : DynamicAt)
  | preInitArray (d : DynamicAt)
deriving DecidableEq, Repr

/-- What a memoised object holds. -/
def Cell.Val : Cell → Type
  | programHeader _ => ProgramHeader
  | sectionHeader _ => SectionHeader
  | symbol _ _ => SymbolObject
  | relocation _ _ => RelocationObject
  | relocationSymbol _ _ => SymbolObject
  | stringTable _ => StringTable
  | ptInterpreter _ => List UInt8
  | ptLoad _ => List UInt8
  | dynamicStructure _ => DynamicStructure
  | dtStringTable _ => StringTable
  | initArray _ => List Int64
  | preInitArray _ => List Int64

/-- What the accessors do besides computing. -/
structure FileAccess (m : Type → Type) where
  /-- Reading with the parser of the file. -/
  read : {α : Type} → ParseM α → m α
  /-- `getValue` of a memoised object, with its `computeValue`. -/
  getValue : (k : Cell) → m k.Val → m k.Val

/-- The position of the parser and the values computed so far. -/
abbrev FileState := Memo ℕ Cell Cell.Val

/-- Code that uses a file. -/
abbrev FileM := EStateM JavaException FileState

/-- What the source does. -/
def memoised : FileAccess FileM where
  read := Memo.onBase
  getValue := Memo.getValue

/-- Everything is read when it is used, from the beginning of the file on. -/
def direct : FileAccess (Except JavaException) where
  read p := outcome (p.run 0)
  getValue _ compute := compute

/-- `SHT_STRTAB` -/
def shtStrtab : Int32 := 3
/-- `SHT_DYNAMIC` -/
def shtDynamic : Int32 := 6
/-- `PT_DYNAMIC` -/
def ptDynamic : Int32 := 2
/-- `PT_INTERP` -/
def ptInterp : Int32 := 3

namespace SectionHeader

/-- The section has symbols. -/
def isSymbolTable (h : SectionHeader) : Bool :=
  h.type == ElfSection.shtSymtab || h.type == ElfSection.shtDynsym

/-- The section has relocations. -/
def isRelocationTable (h : SectionHeader) : Bool :=
  h.type == ElfSection.shtRela || h.type == ElfSection.shtRel

/-- `num_entries` -/
def numEntries (h : SectionHeader) : Int32 := (h.size / h.entrySize).toInt32

/-- The place of an entry in the file. -/
def entryOffset (h : SectionHeader) (i : ℕ) : Int64 :=
  h.sectionOffset + Int64.ofNat i * h.entrySize

/-- `getNumberOfSymbols` -/
def getNumberOfSymbols (h : SectionHeader) : Int32 := if h.isSymbolTable then h.numEntries else 0

/-- `getNumberOfRelocations` -/
def getNumberOfRelocations (h : SectionHeader) : Int32 :=
  if h.isRelocationTable then h.numEntries else 0

end SectionHeader

/-- `i = 0, …, n - 1` for an `int` `n`. -/
def indexRange (n : Int32) : List ℕ := List.range n.toInt.toNat

/-- `i = 1, …, n - 1` for an `int` `n`. -/
def indicesFromOne (n : Int32) : List ℕ := (indexRange n).drop 1

namespace LazyElf

variable (elf : LazyElf)

/-- The parser of the file. -/
def parser : ElfParser := elf.header.parser elf.buffer

/-- `programHeaderOffset` -/
def programHeaderOffset (i : ℕ) : Int64 :=
  elf.header.phOffset + (Int32.ofNat i * elf.header.phEntrySize.toInt32).toInt64

/-- `sectionHeaderOffset` -/
def sectionHeaderOffset (i : ℕ) : Int64 :=
  elf.header.shOffset + (Int32.ofNat i * elf.header.shEntrySize.toInt32).toInt64

/-- The constructor of `ElfSegment`. -/
def elfSegment (i : ℕ) : ParseM ProgramHeader := do
  elf.parser.seek (elf.programHeaderOffset i)
  ProgramHeader.read elf.parser

/-- The constructor of `ElfSection`: a table of symbols or of relocations has an array for them. -/
def elfSection (i : ℕ) : ParseM SectionHeader := do
  elf.parser.seek (elf.sectionHeaderOffset i)
  let h ← SectionHeader.read elf.parser
  if h.isSymbolTable || h.isRelocationTable then
    throwIf (h.entrySize = 0) divisionByZero
    throwIf (h.numEntries < 0) .negativeArraySize
    pure h
  else pure h

/-- The constructor of `ElfSymbol`. -/
def elfSymbol (offset : Int64) (sectionType : Int32) : ParseM SymbolObject := do
  elf.parser.seek offset
  let entry ← SymbolEntry.read elf.parser
  pure { entry, sectionType }

/-- The constructor of `ElfRelocation`. -/
def elfRelocation (offset entrySize : Int64) : ParseM ElfRelocation := do
  elf.parser.seek offset
  ElfRelocation.read elf.parser entrySize

/-- The loop that reads bytes up to a zero. -/
def readCString : ParseM (List UInt8) := fun pos =>
  match cString (elf.buffer.bytes.drop pos) with
  | .error err => .error err elf.buffer.bytes.length
  | .ok bytes => .ok bytes (pos + bytes.length + 1)

/-- `computeValue` of `ptInterpreter`. -/
def readInterpreter (offset : Int64) : ParseM (List UInt8) := do
  elf.parser.seek offset
  elf.readCString

/-- The buffer of `ptLoad`. -/
def readPtLoad (h : ProgramHeader) : ParseM (List UInt8) := do
  elf.parser.seek h.offset
  elf.parser.readBuffer h.fileSize.toInt32

section Accessors

variable {m : Type → Type} [Monad m] [MonadExcept JavaException m] (A : FileAccess m)

/-- Throw the error of a pure computation. -/
def orThrow {m : Type → Type} [Monad m] [MonadExcept JavaException m] {α : Type} :
    Except JavaException α → m α
  | .ok a => pure a
  | .error err => throw err

/-! ### Segments -/

/-- `programHeaders[i].getValue()` -/
def programHeader (i : ℕ) : m SegmentObject := do
  let header ← A.getValue (.programHeader i) (A.read (elf.elfSegment i))
  pure { ndx := i, header }

/-- `getProgramHeader` -/
def getProgramHeader (index : Int32) : m SegmentObject :=
  if 0 ≤ index ∧ index < elf.header.numPh.toInt32 then elf.programHeader A index.toInt.toNat
  else throw .arrayIndexOutOfBounds

/-- The loop of `getLoadSegments`. -/
def loadSegments : List ℕ → m (List SegmentObject)
  | [] => pure []
  | i :: is => do
    let segment ← elf.programHeader A i
    let segments ← loadSegments is
    pure (if segment.header.type = ElfSegment.ptLoad then segment :: segments else segments)

/-- `getLoadSegments` -/
def getLoadSegments : m (List SegmentObject) :=
  elf.loadSegments A (indexRange elf.header.numPh.toInt32)

/-- The loop of `findSegmentByType`; `none` is `null`. -/
def findSegment (type : Int32) : List ℕ → m (Option SegmentObject)
  | [] => pure none
  | i :: is => do
    let segment ← elf.programHeader A i
    if segment.header.type = type then pure (some segment) else findSegment type is

/-- `getDynamicSegment`; the loop of `findSegmentByType` starts with the second header. -/
def getDynamicSegment : m (Option SegmentObject) :=
  elf.findSegment A ptDynamic (indicesFromOne elf.header.numPh.toInt32)

/-- The loop of `virtualMemoryAddrToFileOffset`. -/
def addrToOffset (address : Int64) : List ℕ → m Int64
  | [] => throw .elfException
  | i :: is => do
    let segment ← elf.programHeader A i
    let ph := segment.header
    if ph.virtualAddress ≤ address ∧ address < ph.virtualAddress + ph.memSize then
      let relativeOffset := address - ph.virtualAddress
      if ph.fileSize ≤ relativeOffset then throw .elfException
      else pure (ph.offset + relativeOffset)
    else addrToOffset address is

/-- `virtualMemoryAddrToFileOffset` -/
def virtualMemoryAddrToFileOffset (address : Int64) : m Int64 :=
  elf.addrToOffset A address (indexRange elf.header.numPh.toInt32)

/-- `getPtLoadData`: the buffer of the data; `none` is `null`. -/
def getPtLoadData (segment : SegmentObject) : m (Option (List UInt8)) := do
  if segment.header.type = ElfSegment.ptLoad then
    let data ← A.getValue (.ptLoad segment.ndx) (A.read (elf.readPtLoad segment.header))
    pure (some data)
  else pure none

/-- `getInterpreter` of a segment, whose bytes are taken as characters. -/
def interpreterOf (segment : SegmentObject) : m (Option (List UInt8)) := do
  if segment.header.type = ptInterp then
    let bytes ← A.getValue (.ptInterpreter segment.ndx)
      (A.read (elf.readInterpreter segment.header.offset))
    pure (some bytes)
  else pure none

/-- `getInterpreter` -/
def getInterpreter : m (Option (List UInt8)) := do
  let segment ← elf.findSegment A ptInterp (indexRange elf.header.numPh.toInt32)
  match segment with
  | none => pure none
  | some segment => elf.interpreterOf A segment

/-! ### Sections -/

/-- `sectionHeaders[i].getValue()` -/
def sectionHeader (i : ℕ) : m SectionObject := do
  let header ← A.getValue (.sectionHeader i) (A.read (elf.elfSection i))
  pure { ndx := i, header }

/-- `getSection` -/
def getSection (index : Int32) : m SectionObject :=
  if 0 ≤ index ∧ index < elf.header.numSh.toInt32 then elf.sectionHeader A index.toInt.toNat
  else throw .arrayIndexOutOfBounds

/-- The loop of `getSections`. -/
def sections : List ℕ → m (List SectionObject)
  | [] => pure []
  | i :: is => do
    let section_ ← elf.sectionHeader A i
    let rest ← sections is
    pure (section_ :: rest)

/-- `getSections` -/
def getSections : m (List SectionObject) := elf.sections A (indexRange elf.header.numSh.toInt32)

/-- `getStringTable` of a section; `none` is `null`. -/
def stringTableOf (section_ : SectionObject) : m (Option StringTable) := do
  let h := section_.header
  if h.type = shtStrtab then
    let table ← A.getValue (.stringTable section_.ndx)
      (A.read (StringTable.read elf.parser h.sectionOffset h.size.toInt32))
    pure (some table)
  else pure none

/-- `get` of a string table that may be `null`. -/
def stringAt (table : Option StringTable) (index : Int32) : m String :=
  match table with
  | none => throw .nullPointer
  | some table => do
    let bytes ← orThrow (table.get index)
    pure (elf.decode bytes)

/-- `getSectionNameStringTable` -/
def getSectionNameStringTable : m (Option StringTable) := do
  let section_ ← elf.getSection A elf.header.shStringNdx
  elf.stringTableOf A section_

/-- `getName` of a section; `none` is `null`. -/
def sectionName (section_ : SectionObject) : m (Option String) := do
  if section_.header.nameNdx = 0 then pure none
  else
    let table ← elf.getSectionNameStringTable A
    let name ← elf.stringAt table section_.header.nameNdx
    pure (some name)

/-- The loop of `findStringTableWithName`. -/
def findStringTable (tableName : String) : List ℕ → m (Option StringTable)
  | [] => pure none
  | i :: is => do
    let section_ ← elf.sectionHeader A i
    let name ← elf.sectionName A section_
    if name = some tableName then elf.stringTableOf A section_ else findStringTable tableName is

/-- `getStringTable` -/
def getStringTable : m (Option StringTable) :=
  elf.findStringTable A ".strtab" (indicesFromOne elf.header.numSh.toInt32)

/-- `getDynamicStringTable` -/
def getDynamicStringTable : m (Option StringTable) :=
  elf.findStringTable A ".dynstr" (indicesFromOne elf.header.numSh.toInt32)

/-! ### Symbols and relocations -/

/-- `symbols[i].getValue()` -/
def symbol (section_ : SectionObject) (i : ℕ) : m SymbolObject :=
  A.getValue (.symbol section_.ndx i)
    (A.read (elf.elfSymbol (section_.header.entryOffset i) section_.header.type))

/-- `getELFSymbol` of a section -/
def getElfSymbol (section_ : SectionObject) (index : Int32) : m SymbolObject :=
  if ¬section_.header.isSymbolTable then throw .nullPointer
  else if 0 ≤ index ∧ index < section_.header.numEntries then
    elf.symbol A section_ index.toInt.toNat
  else throw .arrayIndexOutOfBounds

/-- `getName` of a symbol of a section; `none` is `null`. -/
def symbolName (sym : SymbolObject) : m (Option String) := do
  if sym.entry.nameNdx = 0 then pure none
  else if sym.sectionType = ElfSection.shtSymtab then
    let table ← elf.getStringTable A
    let name ← elf.stringAt table sym.entry.nameNdx
    pure (some name)
  else if sym.sectionType = ElfSection.shtDynsym then
    let table ← elf.getDynamicStringTable A
    let name ← elf.stringAt table sym.entry.nameNdx
    pure (some name)
  else pure none

/-- `relocations[i].getValue()` -/
def relocation (section_ : SectionObject) (i : ℕ) : m RelocationObject :=
  A.getValue (.relocation section_.ndx i) do
    -- The section of the symbols is an argument of the constructor.
    let symtab ← elf.getSection A section_.header.link
    let relocation ← A.read
      (elf.elfRelocation (section_.header.entryOffset i) section_.header.entrySize)
    pure { relocation, symtab }

/-- `getELFRelocation` -/
def getElfRelocation (section_ : SectionObject) (index : Int32) : m RelocationObject :=
  if ¬section_.header.isRelocationTable then throw .nullPointer
  else if 0 ≤ index ∧ index < section_.header.numEntries then
    elf.relocation A section_ index.toInt.toNat
  else throw .arrayIndexOutOfBounds

/-- `symbol` of a relocation -/
def relocationSymbol (section_ : SectionObject) (i : ℕ) (r : RelocationObject) : m SymbolObject :=
  A.getValue (.relocationSymbol section_.ndx i) (elf.getElfSymbol A r.symtab r.relocation.sym)

/-! ### The dynamic structure -/

/-- The place and the number of relocations that a tag of the dynamic structure gives. -/
def relocationArray (offset : Int64) (size entrySize : Int32) : m (Option (Int64 × Int32)) := do
  if 0 < offset then
    if entrySize = 0 then throw divisionByZero
    else if size / entrySize < 0 then throw .negativeArraySize
    else
      let fileOffset ← elf.virtualMemoryAddrToFileOffset A offset
      pure (some (fileOffset, size / entrySize))
  else pure none

/-- The constructor of `ElfDynamicStructure`. -/
def elfDynamicStructure (offset : Int64) (size : Int32) : m DynamicStructure := do
  let tags ← A.read (DynamicTags.read elf.parser offset size)
  let rel ← elf.relocationArray A tags.relOffset tags.relSize tags.relEntrySize
  let pltRel ← elf.relocationArray A tags.pltRelOffset tags.pltRelSize tags.relEntrySize
  pure { tags, rel, pltRel }

/-- `getDynamicStructure` of a segment; `none` is `null`. -/
def getDynamicStructure (segment : SegmentObject) : m (Option DynamicStructure) := do
  if segment.header.type = ptDynamic then
    let structure_ ← A.getValue (.dynamicStructure (.ofSegment segment.ndx)) do
      let offset ← elf.virtualMemoryAddrToFileOffset A segment.header.virtualAddress
      elf.elfDynamicStructure A offset segment.header.memSize.toInt32
    pure (some structure_)
  else pure none

/-- `getDynamicSection`; `none` is `null`. -/
def getDynamicSection (section_ : SectionObject) : m (Option DynamicStructure) := do
  if section_.header.type = shtDynamic then
    let structure_ ← A.getValue (.dynamicStructure (.ofSection section_.ndx))
      (elf.elfDynamicStructure A section_.header.sectionOffset section_.header.size.toInt32)
    pure (some structure_)
  else pure none

/-- `dtStringTable.getValue()` -/
def dtStringTable (d : DynamicAt) (tags : DynamicTags) : m StringTable :=
  if 0 < tags.strtabSize then
    A.getValue (.dtStringTable d) do
      let offset ← elf.virtualMemoryAddrToFileOffset A tags.strtabOffset
      A.read (StringTable.read elf.parser offset tags.strtabSize)
  else throw .nullPointer

/-- `getSOName` -/
def getSOName (d : DynamicAt) (tags : DynamicTags) (fileName : String) : m String := do
  let table ← elf.dtStringTable A d tags
  if tags.soName = -1 then pure fileName else elf.stringAt (some table) tags.soName

/-- The loop of `getNeededLibraries`. -/
def stringsAt (table : StringTable) : List Int32 → m (List String)
  | [] => pure []
  | needed :: rest => do
    let name ← elf.stringAt (some table) needed
    let names ← stringsAt table rest
    pure (name :: names)

/-- `getNeededLibraries` -/
def getNeededLibraries (d : DynamicAt) (tags : DynamicTags) : m (List String) := do
  let table ← elf.dtStringTable A d tags
  elf.stringsAt table tags.needed

/-- `getInitArray`; `none` is `null`. -/
def getInitArray (d : DynamicAt) (tags : DynamicTags) : m (Option (List Int64)) := do
  if 0 < tags.initArraySize then
    let array ← A.getValue (.initArray d) do
      let offset ← elf.virtualMemoryAddrToFileOffset A tags.initArrayOffset
      A.read (elf.parser.elfInitArray offset tags.initArraySize)
    pure (some array)
  else pure none

/-- `getPreInitArray`; `none` is `null`. -/
def getPreInitArray (d : DynamicAt) (tags : DynamicTags) : m (Option (List Int64)) := do
  if 0 < tags.preInitArraySize then
    let array ← A.getValue (.preInitArray d) do
      let offset ← elf.virtualMemoryAddrToFileOffset A tags.preInitArrayOffset
      A.read (elf.parser.elfInitArray offset tags.preInitArraySize)
    pure (some array)
  else pure none

end Accessors

end LazyElf

end Tank
