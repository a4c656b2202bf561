import Tank.Jelf.Session
import Tank.Module.Modules

/-!
# Loading a file that is read on demand

`loadElfModule` as the source has it: it asks the file for segments, sections, symbols, names and
relocations while it maps memory and enters symbols, so that reading the file and changing the
emulator alternate. `view` is the file parsed beforehand, on which the loader of `Modules` works.
What `PtLoadData` gives is consumed, so that a second `getData` of a segment finds nothing left.
-/

namespace Tank

open ToMathlib MemoryManager

/-! ## The parsed view -/

namespace LazyElf

variable (elf : LazyElf)

/-- `ElfSymbol` with its name. -/
def toElfSymbol (sym : SymbolObject) (name : Option String) : ElfSymbol where
  name := name
  value := sym.entry.value
  info := sym.entry.info
  sectionHeaderNdx := sym.entry.sectionHeaderNdx

/-- The symbols with the given numbers. -/
def viewSymbols (section_ : SectionObject) : List ℕ → Except JavaException (List ElfSymbol)
  | [] => pure []
  | i :: is => do
    let sym ← elf.symbol direct section_ i
    let name ← elf.symbolName direct sym
    let rest ← viewSymbols section_ is
    pure (toElfSymbol sym name :: rest)

/-- The relocations with the given numbers. -/
def viewRelocations (section_ : SectionObject) :
    List ℕ → Except JavaException (List ElfRelocation)
  | [] => pure []
  | i :: is => do
    let r ← elf.relocation direct section_ i
    let rest ← viewRelocations section_ is
    pure (r.relocation :: rest)

/-- A section with all that is in it. -/
def viewSection (section_ : SectionObject) : Except JavaException ElfSection := do
  let h := section_.header
  let symbols ← elf.viewSymbols section_ (indexRange h.getNumberOfSymbols)
  let relocations ← elf.viewRelocations section_ (indexRange h.getNumberOfRelocations)
  pure { type := h.type, link := h.link
         symbols := if h.isSymbolTable then some symbols else none
         relocations }

/-- The sections with the given numbers. -/
def viewSections : List ℕ → Except JavaException (List ElfSection)
  | [] => pure []
  | i :: is => do
    let object ← elf.sectionHeader direct i
    let section_ ← elf.viewSection object
    let rest ← viewSections is
    pure (section_ :: rest)

/-- The segments with the given numbers. -/
def viewSegments : List ℕ → Except JavaException (List ElfSegment)
  | [] => pure []
  | i :: is => do
    let segment ← elf.programHeader direct i
    let rest ← viewSegments is
    pure (segment.header.toSegment :: rest)

/-- The arrays of constructors. -/
def viewDynamic : Except JavaException (Option Tank.ElfDynamicStructure) := do
  let segment ← elf.getDynamicSegment direct
  match segment with
  | none => pure none
  | some segment => do
    let structure_ ← elf.getDynamicStructure direct segment
    match structure_ with
    | none => throw .nullPointer
    | some structure_ =>
      let d : DynamicAt := .ofSegment segment.ndx
      pure (some { initArray := elf.getInitArray direct d structure_.tags
                   preInitArray := elf.getPreInitArray direct d structure_.tags })

/-- The file as the loader sees it, if all of it can be parsed. -/
def view : Except JavaException ElfFile := do
  let segments ← elf.viewSegments (indexRange elf.header.numPh.toInt32)
  let sections ← elf.viewSections (indexRange elf.header.numSh.toInt32)
  pure { buffer := elf.buffer, fileType := elf.header.fileType
         segments, sections, dynamicStructure := elf.viewDynamic }

end LazyElf

/-! ## Loading on demand -/

/-- The emulator, the file, and the positions of the buffers of its `PtLoadData`. -/
structure LoadState where
  emu : Emulator
  file : FileState
  taken : ℕ → ℕ

/-- Code of the loader. -/
abbrev LoadM := EStateM JavaException LoadState

namespace LoadM

variable {α : Type}

/-- Runs code of the emulator. -/
def liftEmu (m : EmuM α) : LoadM α := zoom LoadState.emu (fun emu s => { s with emu }) m

/-- Runs code of the file. -/
def liftFile (m : FileM α) : LoadM α := zoom LoadState.file (fun file s => { s with file }) m

/-- Runs code of the engine. -/
def liftEngine (m : UcM α) : LoadM α := liftEmu (liftMem (liftUc m))

/-- `getData` of `PtLoadData`: the next bytes of the buffer, which are then gone. -/
def getData (segment : SegmentObject) (buffer : List UInt8) : LoadM (List UInt8) := fun s =>
  let size := segment.header.fileSize.toInt32
  let pos := s.taken segment.ndx
  if size < 0 then .error .negativeArraySize s
  else if buffer.length < pos + size.toInt.toNat then .error .bufferUnderflow s
  else .ok ((buffer.drop pos).take size.toInt.toNat)
    { s with taken := Function.update s.taken segment.ndx (pos + size.toInt.toNat) }

end LoadM

namespace LazyElf

open LoadM

variable (elf : LazyElf)

/-- The second loop of `writeSegmentsToMemory`. -/
def writeSegments (loadBase : Int64) : List SegmentObject → LoadM Unit
  | [] => pure ()
  | segment :: segments =>
    let h := segment.header.toSegment
    if h.memSize = 0 then writeSegments loadBase segments
    else do
      liftEngine (Unicorn.memMap (segmentRange loadBase h) (getSegmentProtection h.flags))
      let pt ← liftFile (elf.getPtLoadData memoised segment)
      match pt with
      | none => writeSegments loadBase segments
      | some buffer => do
        let datas ← getData segment buffer
        liftEngine (Unicorn.memWrite (loadBase + h.virtualAddress) datas)
        writeSegments loadBase segments

/-- `writeSegmentsToMemory` -/
def writeSegmentsToMemory : LoadM (Int64 × Int64) := do
  let loadSegments ← liftFile (elf.getLoadSegments memoised)
  let (boundLow, boundHigh) := moduleBounds (loadSegments.map (·.header.toSegment)) (0, 0)
  let moduleSize := boundHigh - boundLow
  let chunk ← liftEmu (liftMem (reserveModule moduleSize))
  elf.writeSegments chunk.addr loadSegments
  pure (chunk.addr, moduleSize)

/-- `resloveInitArray`: the init array and the pre-init array, moved to the load base. -/
def initArrays {m : Type → Type} [Monad m] [MonadExcept JavaException m] (A : FileAccess m)
    (loadBase : Int64) : m (Option (List Int64) × Option (List Int64)) := do
  let segment ← elf.getDynamicSegment A
  match segment with
  | none => pure (none, none)
  | some segment => do
    let structure_ ← elf.getDynamicStructure A segment
    match structure_ with
    | none => throw .nullPointer
    | some structure_ => do
      let d : DynamicAt := .ofSegment segment.ndx
      let initArray ← elf.getInitArray A d structure_.tags
      let preInitArray ← elf.getPreInitArray A d structure_.tags
      pure (initArray.map (·.map (loadBase + ·)), preInitArray.map (·.map (loadBase + ·)))

/-- The body of the loop of `resloveSectionSymbols`. -/
def resloveSymbol (section_ : SectionObject) (i : ℕ) (m : Module) : LoadM Module := do
  let sym ← liftFile (elf.getElfSymbol memoised section_ (Int32.ofNat i))
  let name ← liftFile (elf.symbolName memoised sym)
  let s ← get
  let symbolAddress ← getOrThrow (getSymValue s.emu m.loadBase (toElfSymbol sym name))
  if symbolAddress ≠ symbolUndef then
    -- The name is asked for once more.
    let name ← liftFile (elf.symbolName memoised sym)
    pure (m.addSymbol name ⟨symbolAddress, toElfSymbol sym name⟩)
  else pure m

/-- The loop of `resloveSectionSymbols`. -/
def resloveSymbols (section_ : SectionObject) : List ℕ → Module → LoadM Module
  | [], m => pure m
  | i :: is, m => do
    let m ← elf.resloveSymbol section_ i m
    resloveSymbols section_ is m

/-- The loop of `resloveDynSymbols`. -/
def resloveDynSymbols : List SectionObject → Module → LoadM Module
  | [], m => pure m
  | section_ :: sections, m =>
    let h := section_.header
    if h.type = ElfSection.shtDynsym ∨ h.type = ElfSection.shtSymtab then do
      let m ← elf.resloveSymbols section_ (indexRange h.getNumberOfSymbols) m
      resloveDynSymbols sections m
    else resloveDynSymbols sections m

/-- The relocations that ask for the name of their symbol: the ones that look it up, and the
relative ones that are reported as wrong. -/
def asksName (relocation : ElfRelocation) (sym : SymbolObject) : Bool :=
  relocation.type == rArmJumpSlot || relocation.type == rArmGlobDat ||
    (relocation.type == rArmRelative && sym.entry.value != 0)

/-- The body of the loop of `relocateDynSymbol`. -/
def relocateOne (section_ : SectionObject) (m : Module) (i : ℕ) : LoadM Unit := do
  let r ← liftFile (elf.getElfRelocation memoised section_ (Int32.ofNat i))
  let sym ← liftFile (elf.relocationSymbol memoised section_ i r)
  if asksName r.relocation sym then do
    let name ← liftFile (elf.symbolName memoised sym)
    liftEngine (relocate m (toElfSymbol sym name) r.relocation)
  else liftEngine (relocate m (toElfSymbol sym none) r.relocation)

/-- `relocateDynSymbol` -/
def relocateDynSymbol (section_ : SectionObject) (m : Module) : List ℕ → LoadM Unit
  | [] => pure ()
  | i :: is => do
    elf.relocateOne section_ m i
    relocateDynSymbol section_ m is

/-- The loop of `relocateDynSymbols`. -/
def relocateDynSymbols (m : Module) : List SectionObject → LoadM Unit
  | [] => pure ()
  | section_ :: sections =>
    let h := section_.header
    if h.type = ElfSection.shtRel ∨ h.type = ElfSection.shtRela then do
      elf.relocateDynSymbol section_ m (indexRange h.getNumberOfRelocations)
      relocateDynSymbols m sections
    else relocateDynSymbols m sections

/-- `loadElfModule`, after the file was opened; `none` is `null`. -/
def loadElfModule : LoadM (Option Module) := do
  if elf.header.fileType ≠ ElfFile.ftDyn then pure none
  else
    let (loadBase, size) ← elf.writeSegmentsToMemory
    let arrays ← liftFile (elf.initArrays memoised loadBase)
    let sections ← liftFile (elf.getSections memoised)
    let m ← elf.resloveDynSymbols sections (.unlinked loadBase size arrays)
    let sections ← liftFile (elf.getSections memoised)
    elf.relocateDynSymbols m sections
    pure (some m)

end LazyElf

/-- `loadElfModule` of a file that was opened; the parser has read the header. -/
def loadOpened (elf : LazyElf) (pos : ℕ) : EmuM (Option Module) := fun emu =>
  match elf.loadElfModule.run { emu, file := Memo.fresh pos, taken := fun _ => 0 } with
  | .ok m s => .ok m s.emu
  | .error err s => .error err s.emu

/-- `loadElfModule` of the bytes of a file. -/
def loadElfModuleFrom (buffer : ByteBuffer) (decode : List UInt8 → String) :
    EmuM (Option Module) :=
  match (ElfHeader.read buffer).run 0 with
  | .error err _ => throw err
  | .ok header pos => loadOpened { buffer, header, decode } pos

/-- `loadModule` of the bytes of a file. -/
def loadModuleFrom (buffer : ByteBuffer) (decode : List UInt8 → String) :
    EmuM (Option Module) := do
  let m ← loadElfModuleFrom buffer decode
  modify fun emu => { emu with modules := emu.modules ++ [m] }
  pure m

end Tank
