import Tank.Module.Relocation

/-!
# Hook interposition

A symbol hook takes the place of a name in every module that is loaded after it was registered.
All symbols of the name are entered with the address of the hook, whatever they are and whichever
modules were loaded before, so no order of symbols can undo the hook, and the relocations through
the table write that address.

`-1` is the address that stands for undefined: a hook there is never entered.

## Main results

* `slot_of_table`: what the relocations of a loaded module leave in its slots.
* `hook_interposes`: a hooked name stands for the hook in the table and in all slots.
* `hook_at_symbolUndef` is a hook at `-1`.
-/

namespace Tank

open ToMathlib

variable {emu emu' : Emulator} {elf : ElfFile} {m : Module} {name : String} {address : Int64}
  {sym : ElfSymbol}

/-- The file that gave a module was a shared object. -/
theorem loadModule_eq_ok {result : Option Module}
    (h : (loadModule elf).run emu = .ok result emu') :
    ∃ emu₁, (loadElfModule elf).run emu = .ok result emu₁ ∧
      emu' = { emu₁ with modules := emu₁.modules ++ [result] } := by
  rw [loadModule] at h
  obtain ⟨result', emu₁, hload, hrest⟩ := bind_eq_ok h
  obtain ⟨_, emu₂, hmodify, hpure⟩ := bind_eq_ok hrest
  cases hmodify
  cases hpure
  exact ⟨emu₁, hload, rfl⟩

theorem fileType_of_loadElfModule (h : (loadElfModule elf).run emu = .ok (some m) emu') :
    elf.fileType = ElfFile.ftDyn := by
  by_contra hdyn
  rw [loadElfModule, if_pos hdyn] at h
  cases h

/-- A module is loaded against the hooks and the modules of the emulator. -/
theorem loadModule_table (h : (loadModule elf).run emu = .ok (some m) emu') :
    ∃ emu₁, SameLinks emu emu₁ ∧ ∀ name, m.lookupSymbol (some name) =
      (entries emu₁ m.loadBase (tableSymbols elf.sections) (some name)).getLast? := by
  obtain ⟨emu₂, hload, -⟩ := loadModule_eq_ok h
  obtain ⟨m', heq, emu₁, hsame, htable⟩ :=
    loadElfModule_table (fileType_of_loadElfModule hload) hload
  cases heq
  exact ⟨emu₁, hsame, htable⟩

/-- The relocation has the type of a slot, which is filled with the address of a symbol. -/
def ElfRelocation.IsSlot (relocation : ElfRelocation) : Prop :=
  relocation.type = rArmJumpSlot ∨ relocation.type = rArmGlobDat

/-- The slots of a name in the memory of a loaded module hold an address. -/
def SlotsHold (uc : Unicorn) (elf : ElfFile) (m : Module) (name : String) (address : Int64) :
    Prop :=
  ∀ e ∈ relocations elf.sections, e.2.IsSlot → ∀ symbol,
    relocationSymbol elf e.1 e.2 = .ok symbol → symbol.name = some name →
      uc.wordAt (target m e.2) = some (low32 address)

/-- The slots of a name hold what the table of the module has for it. -/
theorem slot_of_table {r : ReslovedSymbol} (h : (loadModule elf).run emu = .ok (some m) emu')
    (hapart : (relocations elf.sections).Pairwise (TargetsApart m))
    (hentry : m.lookupSymbol (some name) = some r) :
    SlotsHold emu'.memory.uc elf m name r.address := by
  obtain ⟨emu₂, hload, rfl⟩ := loadModule_eq_ok h
  obtain ⟨m', loadBase, size, memory, -, heq, -, -, -, hrun⟩ :=
    loadElfModule_stages (fileType_of_loadElfModule hload) hload
  cases heq
  have hrel := relocates_of_run hrun hapart
  intro e he hslot symbol hsymbol hname
  show emu₂.memory.uc.wordAt (target m e.2) = some (low32 r.address)
  rw [hrel.words e he (Or.inr (Or.inl hslot)) symbol hsymbol, wordAfter_of_slot hslot, hname,
    hentry]

/-- The table of a module has the address of the hook for a name that is hooked. -/
theorem lookupSymbol_of_hooked (hload : (loadModule elf).run emu = .ok (some m) emu')
    (hhook : emu.hookedSymbols name = some address) (hne : address ≠ symbolUndef)
    (hsym : sym ∈ tableSymbols elf.sections) (hname : sym.name = some name) :
    ∃ r, m.lookupSymbol (some name) = some r ∧ r.address = address := by
  obtain ⟨emu₁, hsame, htable⟩ := loadModule_table hload
  rw [← hsame.2] at hhook
  rw [htable name]
  exact exists_getLast?_entries_of_hooked hhook hne hsym hname

/-- In a module loaded after a hook was registered, every name that is hooked and occurs in a symbol
table stands for the address of the hook. -/
theorem hook_interposes (hload : (loadModule elf).run emu = .ok (some m) emu')
    (hhook : emu.hookedSymbols name = some address) (hne : address ≠ symbolUndef)
    (hsym : sym ∈ tableSymbols elf.sections) (hname : sym.name = some name) :
    (∃ r, m.lookupSymbol (some name) = some r ∧ r.address = address) ∧
      ((relocations elf.sections).Pairwise (TargetsApart m) →
        SlotsHold emu'.memory.uc elf m name address) := by
  obtain ⟨r, hentry, haddress⟩ := lookupSymbol_of_hooked hload hhook hne hsym hname
  refine ⟨⟨r, hentry, haddress⟩, fun hapart => ?_⟩
  rw [← haddress]
  exact slot_of_table hload hapart hentry

/-- A file with one page and a slot for its only symbol. -/
def slotFile (symbol : ElfSymbol) : ElfFile :=
  { relocFile [symbol] [⟨.class32, 0, 0x116, 0⟩] with
    segments := [⟨ElfSegment.ptLoad, 0, 0, 0, 0x10, 7⟩] }

/-- Whether a load returns a module. -/
def loads (emu : Emulator) (elf : ElfFile) : Bool :=
  match (loadModule elf).run emu with
  | .ok (some _) _ => true
  | _ => false

theorem exists_of_loads (h : loads emu elf = true) :
    ∃ m emu', (loadModule elf).run emu = .ok (some m) emu' := by
  rw [loads] at h
  split at h
  next m emu' hrun => exact ⟨m, emu', hrun⟩
  next => cases h

theorem not_loads (h : loads emu elf = false) : (loadModule elf).run emu ≠ .ok (some m) emu' := by
  intro hrun
  rw [loads, hrun] at h
  cases h

theorem hook_interposes_slotFile :
    let emu := freshEmulator fun name => if name = "f" then some 0x20000001 else none
    let elf := slotFile ⟨some "f", 0x40, 0x12, 1⟩
    ∃ m emu', (loadModule elf).run emu = .ok (some m) emu' ∧
      (∃ r, m.lookupSymbol (some "f") = some r ∧ r.address = 0x20000001) ∧
      SlotsHold emu'.memory.uc elf m "f" 0x20000001 := by
  intro emu elf
  obtain ⟨m, emu', hload⟩ := exists_of_loads (show loads emu elf = true by decide +kernel)
  have hmem : ⟨some "f", 0x40, 0x12, 1⟩ ∈ tableSymbols elf.sections := by decide +kernel
  obtain ⟨htable, hslots⟩ := hook_interposes hload rfl (by decide) hmem rfl
  exact ⟨m, emu', hload, htable, hslots (List.pairwise_singleton _ _)⟩

/-- The symbol is defined in the file and hooked, but the address of the hook stands for undefined.
The table has no entry for the name. -/
theorem hook_at_symbolUndef :
    let emu := addSymbolHook (freshEmulator fun _ => none) "f" (-1)
    ∃ m emu', (loadModule (symbolFile [⟨some "f", 0x40, 0x12, 1⟩])).run emu = .ok (some m) emu' ∧
      emu.hookedSymbols "f" = some (-1) ∧ m.lookupSymbol (some "f") = none :=
  ⟨_, _, rfl, rfl, rfl⟩

end Tank
