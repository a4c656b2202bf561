import Tank.Module.Segments
import Tank.Utils.DigitUtils

/-!
# Loading and linking modules

`Modules`: the list of loaded modules, the symbols of each of them, and `loadModule`, which maps
the segments of a file, enters its symbols into the module's table and relocates it. Symbols are
entered from every symbol table in the order of the sections, and a later entry replaces an
earlier one; an undefined symbol is looked up in the modules loaded before.
-/

namespace Tank

open ToMathlib MemoryManager

/-- `ReslovedSymbol` -/
structure ReslovedSymbol where
  address : Int64
  symbol : ElfSymbol
deriving DecidableEq, Repr

/-- `Module`; the symbol table is a `HashMap`, in which `null` is a key like any other. -/
structure Module where
  loadBase : Int64
  size : Int64
  /-- `init_array`; `none` is `null`. -/
  initArray : Option (List Int64)
  /-- `pre_init_array`; `none` is `null`. -/
  preInitArray : Option (List Int64)
  reslovedSymbols : Option String → Option ReslovedSymbol

namespace Module

/-- A module before its symbols are entered. -/
def unlinked (loadBase size : Int64) (arrays : Option (List Int64) × Option (List Int64)) :
    Module where
  loadBase := loadBase
  size := size
  initArray := arrays.1
  preInitArray := arrays.2
  reslovedSymbols := fun _ => none

/-- `addSymbol` -/
def addSymbol (m : Module) (name : Option String) (reslovedSymbol : ReslovedSymbol) : Module :=
  { m with reslovedSymbols := Function.update m.reslovedSymbols name (some reslovedSymbol) }

/-- `lookupSymbol` -/
def lookupSymbol (m : Module) (name : Option String) : Option ReslovedSymbol :=
  m.reslovedSymbols name

end Module

/-- The emulator, as far as loading modules is concerned. -/
structure Emulator where
  memory : MemoryManager
  /-- `modules`; loading a file that is no shared object adds `null`. -/
  modules : List (Option Module)
  /-- `hookedSymbols` -/
  hookedSymbols : String → Option Int64

/-- Code of the emulator. -/
abbrev EmuM := EStateM JavaException Emulator

/-- `SYMBOL_UNDEF` -/
def symbolUndef : Int64 := -1

/-! ## Symbols -/

/-- `lookupSymbol`: the entry of the first module that has one. -/
def lookupSymbol : List (Option Module) → String → Except JavaException (Option ReslovedSymbol)
  | [], _ => .ok none
  -- A file that was no shared object left `null` in the list.
  | none :: _, _ => .error .nullPointer
  | some m :: modules, name =>
    match m.lookupSymbol (some name) with
    | some symbol => .ok (some symbol)
    | none => lookupSymbol modules name

/-- `findCSymbol`: the address of a symbol, or `0`. -/
def findCSymbol (modules : List (Option Module)) (name : String) : Except JavaException Int64 :=
  match lookupSymbol modules name with
  | .error err => .error err
  | .ok none => .ok 0
  | .ok (some symbol) => .ok symbol.address

/-- `addSymbolHook` -/
def addSymbolHook (emu : Emulator) (name : String) (addr : Int64) : Emulator :=
  { emu with hookedSymbols := Function.update emu.hookedSymbols name (some addr) }

/-- `getSymValue` -/
def getSymValue (emu : Emulator) (loadBase : Int64) (symbol : ElfSymbol) :
    Except JavaException Int64 :=
  match symbol.name with
  | none => .ok symbolUndef
  | some name =>
    match emu.hookedSymbols name with
    | some address => .ok address
    | none =>
      if symbol.isUndef then
        match lookupSymbol emu.modules name with
        | .error err => .error err
        -- A weak symbol that nobody defines has the address `0`, which is entered like any other.
        | .ok none =>
          if symbol.getBinding = ElfSymbol.bindingWeak then .ok 0 else .ok symbolUndef
        | .ok (some target) => .ok target.address
      else .ok (loadBase + symbol.value)

/-- The loop of `resloveSectionSymbols`. -/
def resloveSymbols (emu : Emulator) : List ElfSymbol → Module → Except JavaException Module
  | [], m => .ok m
  | sym :: syms, m =>
    match getSymValue emu m.loadBase sym with
    | .error err => .error err
    | .ok symbolAddress =>
      if symbolAddress ≠ symbolUndef then
        resloveSymbols emu syms (m.addSymbol sym.name ⟨symbolAddress, sym⟩)
      else resloveSymbols emu syms m

/-- `resloveSectionSymbols` -/
def resloveSectionSymbols (emu : Emulator) (section_ : ElfSection) (m : Module) :
    Except JavaException Module :=
  resloveSymbols emu (section_.symbols.getD []) m

/-- `resloveDynSymbols` -/
def resloveDynSymbols (emu : Emulator) : List ElfSection → Module → Except JavaException Module
  | [], m => .ok m
  | section_ :: sections, m =>
    if section_.type = ElfSection.shtDynsym ∨ section_.type = ElfSection.shtSymtab then
      match resloveSectionSymbols emu section_ m with
      | .error err => .error err
      | .ok m => resloveDynSymbols emu sections m
    else resloveDynSymbols emu sections m

/-! ## Relocations -/

/-- `R_ARM_ABS32` -/
def rArmAbs32 : Int32 := 2
/-- `R_ARM_GLOB_DAT` -/
def rArmGlobDat : Int32 := 21
/-- `R_ARM_JUMP_SLOT` -/
def rArmJumpSlot : Int32 := 22
/-- `R_ARM_RELATIVE` -/
def rArmRelative : Int32 := 23

/-- The four low bytes of a `long` are written. -/
def writeWord (address value : Int64) : UcM Unit :=
  Unicorn.memWrite address (cut (longToBytesLittle value) 4)

/-- The body of the loop of `relocateDynSymbol`. -/
def relocate (m : Module) (symbol : ElfSymbol) (relocation : ElfRelocation) : UcM Unit := do
  let relAddr := m.loadBase + relocation.offset
  if relocation.type = rArmAbs32 then
    let bytes ← Unicorn.memRead relAddr 4
    let offset := (bytes2IntLittle bytes).toInt64
    -- The value of the symbol is taken as it stands, also if the symbol is undefined here.
    writeWord relAddr (offset + m.loadBase + symbol.value)
  else if relocation.type = rArmJumpSlot ∨ relocation.type = rArmGlobDat then
    match m.lookupSymbol symbol.name with
    | some rs => writeWord relAddr rs.address
    -- The word of a symbol that is not in the table stays as it is.
    | none => pure ()
  else if relocation.type = rArmRelative then
    -- Otherwise only a message is logged.
    if symbol.value = 0 then
      let bytes ← Unicorn.memRead relAddr 4
      let offset := (bytes2IntLittle bytes).toInt64
      writeWord relAddr (m.loadBase + offset)
    else pure ()
  else pure ()

/-- The symbol of a relocation: an entry of the section that `link` names. -/
def relocationSymbol (elf : ElfFile) (section_ : ElfSection) (relocation : ElfRelocation) :
    Except JavaException ElfSymbol :=
  match elf.getSection section_.link with
  | .error err => .error err
  | .ok symtab => symtab.getElfSymbol relocation.sym

/-- `relocateDynSymbol` -/
def relocateDynSymbol (elf : ElfFile) (section_ : ElfSection) (m : Module) :
    List ElfRelocation → UcM Unit
  | [] => pure ()
  | relocation :: relocations => do
    let symbol ← getOrThrow (relocationSymbol elf section_ relocation)
    relocate m symbol relocation
    relocateDynSymbol elf section_ m relocations

/-- `relocateDynSymbols` -/
def relocateDynSymbols (elf : ElfFile) (m : Module) : List ElfSection → UcM Unit
  | [] => pure ()
  | section_ :: sections =>
    if section_.type = ElfSection.shtRel ∨ section_.type = ElfSection.shtRela then do
      relocateDynSymbol elf section_ m section_.relocations
      relocateDynSymbols elf m sections
    else relocateDynSymbols elf m sections

/-! ## Loading a file -/

/-- Runs code of the memory manager. -/
def liftMem {α : Type} (m : MemM α) : EmuM α := fun emu =>
  match m.run emu.memory with
  | .ok a memory => .ok a { emu with memory }
  | .error err memory => .error err { emu with memory }

theorem liftMem_eq_zoom {α : Type} (m : MemM α) :
    liftMem m = zoom Emulator.memory (fun memory emu => { emu with memory }) m := by
  funext emu
  simp only [liftMem, zoom]
  cases m.run emu.memory <;> rfl

theorem liftMem_eq_ok {α : Type} {code : MemM α} {a : α} {emu emu' : Emulator}
    (h : (liftMem code).run emu = .ok a emu') :
    ∃ memory, code.run emu.memory = .ok a memory ∧ emu' = { emu with memory } := by
  simp only [EStateM.run, liftMem] at h ⊢
  split at h
  next a' memory hrun =>
    cases h
    exact ⟨memory, hrun, rfl⟩
  next => cases h

/-- `resloveInitArray`: the init array and the pre-init array of a module. -/
def resloveInitArray (elf : ElfFile) (loadBase : Int64) :
    Except JavaException (Option (List Int64) × Option (List Int64)) := do
  let some structure_ ← elf.dynamicStructure | pure (none, none)
  let initArray ← structure_.initArray
  let preInitArray ← structure_.preInitArray
  pure (initArray.map (·.map (loadBase + ·)), preInitArray.map (·.map (loadBase + ·)))

/-- `loadElfModule` of a file that was parsed; `none` is `null`. -/
def loadElfModule (elf : ElfFile) : EmuM (Option Module) := do
  if elf.fileType ≠ ElfFile.ftDyn then pure none
  else
    let (loadBase, size) ← liftMem (writeSegmentsToMemory elf)
    let arrays ← getOrThrow (resloveInitArray elf loadBase)
    let emu ← get
    let m ← getOrThrow (resloveDynSymbols emu elf.sections (.unlinked loadBase size arrays))
    liftMem (liftUc (relocateDynSymbols elf m elf.sections))
    pure (some m)

/-- `loadModule` -/
def loadModule (elf : ElfFile) : EmuM (Option Module) := do
  let m ← loadElfModule elf
  modify fun emu => { emu with modules := emu.modules ++ [m] }
  pure m

end Tank
