import Tank.Module.Interposition
import Mathlib.Data.Set.Finite.Lattice

/-!
# The registry of modules

What `lookupSymbol` finds over a run of loads and hook registrations, with the guest changing memory
in between. A load adds at most one entry at the end of the list of modules, and the tables of the
modules in it do not change any more (`registryStep_modules`).

A file that is no shared object adds `null`, and every lookup that goes past that entry throws.

## Main results

* `resolved_name_stable`: a name that is found keeps its address, and all later modules that import
  it take that address.
* `failed_load_iff`: a load that gives no module leaves all lookups as they were, exactly if the
  file does not add `null` and no file before it did.
* `null_module_breaks_lookups` is a load of an executable.
-/

namespace Tank

open ToMathlib

/-! ## Runs -/

/-- `loadModule` of a file, which may already fail to be read or parsed. -/
def loadFile (file : Except JavaException ElfFile) : EmuM (Option Module) := do
  let elf ← getOrThrow file
  loadModule elf

/-- What can happen between two lookups. -/
inductive RegistryStep where
  | load (file : Except JavaException ElfFile)
  | addSymbolHook (name : String) (addr : Int64)
  | guest (memory : MemoryManager)

/-- The emulator after a step; a load may also have thrown. -/
def registryStep (emu : Emulator) : RegistryStep → Emulator
  | .load file => finalState ((loadFile file).run emu)
  | .addSymbolHook name addr => addSymbolHook emu name addr
  | .guest memory => { emu with memory }

/-- The emulator after a sequence of steps. -/
def registryRun (emu : Emulator) (steps : List RegistryStep) : Emulator :=
  steps.foldl registryStep emu

variable {emu emu' : Emulator} {file : Except JavaException ElfFile} {elf : ElfFile} {m : Module}
  {modules : List (Option Module)} {name : String} {r : ReslovedSymbol}

/-! ## One load -/

theorem loadFile_eq_ok {result : Option Module}
    (h : (loadFile file).run emu = .ok result emu') :
    ∃ elf, file = .ok elf ∧ (loadModule elf).run emu = .ok result emu' := by
  rw [loadFile] at h
  obtain ⟨elf, emu₁, hget, hload⟩ := bind_eq_ok h
  obtain ⟨hfile, rfl⟩ := getOrThrow_eq_ok.1 hget
  exact ⟨elf, hfile, hload⟩

/-- A load that returns adds what it returns, and nothing else changes. -/
theorem loadModule_modules {result : Option Module}
    (h : (loadModule elf).run emu = .ok result emu') :
    emu'.modules = emu.modules ++ [result] ∧ emu'.hookedSymbols = emu.hookedSymbols := by
  obtain ⟨emu₁, hload, rfl⟩ := loadModule_eq_ok h
  have hsame := keeps_loadElfModule elf emu
  rw [hload] at hsame
  exact ⟨congrArg (· ++ [result]) hsame.1, hsame.2⟩

/-- A load that throws adds nothing. -/
theorem loadFile_error {err : JavaException} (h : (loadFile file).run emu = .error err emu') :
    SameLinks emu emu' := by
  cases file with
  | error err' =>
    cases h
    exact Std.Refl.refl emu
  | ok elf =>
    have hget : (getOrThrow (.ok elf) : EmuM ElfFile).run emu = .ok elf emu := rfl
    rw [loadFile, bind_of_ok hget, loadModule] at h
    have hsame := keeps_loadElfModule elf emu
    cases hload : (loadElfModule elf).run emu with
    | ok result emu₁ =>
      rw [bind_of_ok hload] at h
      cases h
    | error err' emu₁ =>
      rw [bind_of_error hload] at h
      cases h
      rw [hload] at hsame
      exact hsame

/-- The table of a module was made of symbols. -/
def HasTable (m : Module) : Prop :=
  ∃ emu syms, ∀ name, m.lookupSymbol (some name) =
    (entries emu m.loadBase syms (some name)).getLast?

/-- A step adds modules at the end only, and these have tables. -/
theorem registryStep_modules (emu : Emulator) (step : RegistryStep) :
    ∃ more, (registryStep emu step).modules = emu.modules ++ more ∧
      ∀ m, some m ∈ more → HasTable m := by
  cases step with
  | addSymbolHook name addr => exact ⟨[], (List.append_nil _).symm, by simp⟩
  | guest memory => exact ⟨[], (List.append_nil _).symm, by simp⟩
  | load file =>
    rw [registryStep]
    cases hrun : (loadFile file).run emu with
    | error err emu' => exact ⟨[], by rw [List.append_nil]; exact (loadFile_error hrun).1, by simp⟩
    | ok result emu' =>
      obtain ⟨elf, -, hload⟩ := loadFile_eq_ok hrun
      refine ⟨[result], (loadModule_modules hload).1, fun m hm => ?_⟩
      obtain rfl := List.mem_singleton.1 hm
      obtain ⟨emu₁, -, htable⟩ := loadModule_table hload
      exact ⟨emu₁, _, htable⟩

/-- All modules of a list have tables. -/
def Tabled (modules : List (Option Module)) : Prop := ∀ m, some m ∈ modules → HasTable m

/-- The run lemma of the registry: the list only grows at its end. -/
theorem registryRun_modules (htabled : Tabled emu.modules) (steps : List RegistryStep) :
    (∃ more, (registryRun emu steps).modules = emu.modules ++ more) ∧
      Tabled (registryRun emu steps).modules := by
  induction steps generalizing emu with
  | nil => exact ⟨⟨[], (List.append_nil _).symm⟩, htabled⟩
  | cons step steps ih =>
    obtain ⟨more, hmore, hnew⟩ := registryStep_modules emu step
    have htabled' : Tabled (registryStep emu step).modules := by
      intro m hm
      rw [hmore] at hm
      exact (List.mem_append.1 hm).elim (htabled m) (hnew m)
    obtain ⟨⟨more', hmore'⟩, hrest⟩ := ih htabled'
    refine ⟨⟨more ++ more', ?_⟩, hrest⟩
    rw [← List.append_assoc, ← hmore]
    exact hmore'

theorem tabled_of_nil (h : emu.modules = []) : Tabled emu.modules := by
  rw [h]
  exact fun _ hm => absurd hm List.not_mem_nil

/-! ## Names that are found -/

theorem lookupSymbol_append (more : List (Option Module))
    (h : lookupSymbol modules name = .ok (some r)) :
    lookupSymbol (modules ++ more) name = .ok (some r) := by
  induction modules with
  | nil => cases h
  | cons m modules ih =>
    cases m with
    | none => cases h
    | some m =>
      rw [List.cons_append, lookupSymbol]
      rw [lookupSymbol] at h
      cases hentry : m.lookupSymbol (some name) with
      | none =>
        rw [hentry] at h
        exact ih h
      | some r' =>
        -- The first module that has the name answers, whatever follows.
        rw [hentry] at h
        exact h

/-- What is found is the entry of a module. -/
theorem exists_of_lookupSymbol (h : lookupSymbol modules name = .ok (some r)) :
    ∃ m, some m ∈ modules ∧ m.lookupSymbol (some name) = some r := by
  induction modules with
  | nil => cases h
  | cons m modules ih =>
    cases m with
    | none => cases h
    | some m =>
      rw [lookupSymbol] at h
      cases hentry : m.lookupSymbol (some name) with
      | none =>
        rw [hentry] at h
        obtain ⟨m', hm', hr⟩ := ih h
        exact ⟨m', List.mem_cons_of_mem _ hm', hr⟩
      | some r' =>
        rw [hentry] at h
        cases h
        exact ⟨m, List.mem_cons_self, hentry⟩

/-- The address that stands for undefined is never entered. -/
theorem HasTable.address_ne (h : HasTable m) (hentry : m.lookupSymbol (some name) = some r) :
    r.address ≠ symbolUndef := by
  obtain ⟨emu, syms, htable⟩ := h
  rw [htable] at hentry
  obtain ⟨sym, -, hsym⟩ := List.mem_filterMap.1 (List.mem_of_getLast? hentry)
  rw [symbolEntry] at hsym
  split at hsym
  next address hvalue =>
    split at hsym
    next hne =>
      cases hsym
      exact hne
    next => cases hsym
  next => cases hsym

/-- The file imports the name: it has symbols of the name, and all of them are undefined. -/
structure Imports (elf : ElfFile) (name : String) : Prop where
  occurs : ∃ sym ∈ tableSymbols elf.sections, sym.name = some name
  undefined : ∀ sym ∈ tableSymbols elf.sections, sym.name = some name → sym.isUndef = true

/-- An import is bound to what the lookup finds. -/
theorem Imports.bound (h : Imports elf name) (htabled : Tabled emu.modules)
    (hlookup : lookupSymbol emu.modules name = .ok (some r))
    (hhook : emu.hookedSymbols name = none)
    (hload : (loadModule elf).run emu = .ok (some m) emu') :
    ∃ r', m.lookupSymbol (some name) = some r' ∧ r'.address = r.address := by
  obtain ⟨m₀, hm₀, hentry⟩ := exists_of_lookupSymbol hlookup
  have hne := (htabled m₀ hm₀).address_ne hentry
  obtain ⟨emu₁, ⟨hmodules, hhooks⟩, htable⟩ := loadModule_table hload
  obtain ⟨sym, hsym, hname⟩ := h.occurs
  rw [htable]
  refine exists_getLast?_entries (fun sym' hsym' hname' => ?_) hsym hname
  -- The symbol is looked up in the modules before, and the address is entered.
  simp [symbolEntry, getSymValue, hname', hmodules, hhooks, hhook, h.undefined sym' hsym' hname',
    hlookup, hne]

/-- A name that is found keeps its address whatever is loaded or hooked later, and every module that
imports it, in its table and in its slots, has that address. -/
theorem resolved_name_stable (hmodules : emu.modules = []) (steps : List RegistryStep)
    (hfound : lookupSymbol (registryRun emu steps).modules name = .ok (some r))
    (later : List RegistryStep) :
    lookupSymbol (registryRun emu (steps ++ later)).modules name = .ok (some r) ∧
      ∀ elf m emu', (loadModule elf).run (registryRun emu (steps ++ later)) = .ok (some m) emu' →
        (registryRun emu (steps ++ later)).hookedSymbols name = none → Imports elf name →
          (∃ r', m.lookupSymbol (some name) = some r' ∧ r'.address = r.address) ∧
          ((relocations elf.sections).Pairwise (TargetsApart m) →
            SlotsHold emu'.memory.uc elf m name r.address) := by
  have htabled := (registryRun_modules (tabled_of_nil hmodules) steps).2
  obtain ⟨⟨more, hmore⟩, htabled'⟩ := registryRun_modules htabled later
  have happend : registryRun emu (steps ++ later) = registryRun (registryRun emu steps) later :=
    List.foldl_append
  rw [happend]
  have hlookup : lookupSymbol (registryRun (registryRun emu steps) later).modules name =
      .ok (some r) := by
    rw [hmore]
    exact lookupSymbol_append more hfound
  refine ⟨hlookup, fun elf m emu' hload hhook himports => ?_⟩
  obtain ⟨r', hentry, haddress⟩ := himports.bound htabled' hlookup hhook hload
  refine ⟨⟨r', hentry, haddress⟩, fun hapart => ?_⟩
  rw [← haddress]
  exact slot_of_table hload hapart hentry

/-- The name is defined by the first module and imported by another one, with a hook for another
name registered in between. -/
theorem resolved_name_stable_small :
    let run := registryRun (freshEmulator fun _ => none)
      ([.load (.ok (symbolFile [⟨some "f", 0x40, 0x12, 1⟩]))] ++ [.addSymbolHook "g" 0x20000001])
    lookupSymbol run.modules "f" = .ok (some ⟨0xA0000040, ⟨some "f", 0x40, 0x12, 1⟩⟩) ∧
      ∃ m emu', (loadModule (symbolFile [⟨some "f", 0, 0x12, 0⟩])).run run = .ok (some m) emu' ∧
        ∃ r, m.lookupSymbol (some "f") = some r ∧ r.address = 0xA0000040 := by
  intro run
  have hfound : lookupSymbol (registryRun (freshEmulator fun _ => none)
      [.load (.ok (symbolFile [⟨some "f", 0x40, 0x12, 1⟩]))]).modules "f" =
        .ok (some ⟨0xA0000040, ⟨some "f", 0x40, 0x12, 1⟩⟩) := by decide +kernel
  obtain ⟨hlookup, himport⟩ := resolved_name_stable rfl _ hfound [.addSymbolHook "g" 0x20000001]
  obtain ⟨m, emu', hload⟩ := exists_of_loads
    (show loads run (symbolFile [⟨some "f", 0, 0x12, 0⟩]) = true by decide +kernel)
  refine ⟨hlookup, m, emu', hload, (himport _ m emu' hload rfl ⟨?_, by decide⟩).1⟩
  exact ⟨⟨some "f", 0, 0x12, 0⟩, by decide, rfl⟩

/-! ## Loads that give no module -/

/-- The tables of modules loaded one after the other at given places; a load that throws adds no
module. -/
def linkLater (emu : Emulator) :
    List (ElfFile × Int64 × Int64) → List (Except JavaException Module)
  | [] => []
  | (elf, loadBase, size) :: files =>
    match resloveDynSymbols emu elf.sections (.unlinked loadBase size (none, none)) with
    -- Later files find the symbols of this one.
    | .ok m => .ok m :: linkLater { emu with modules := emu.modules ++ [some m] } files
    | .error err => .error err :: linkLater emu files

/-- From outside, the registries cannot be told apart, and no lookup in them throws. -/
structure SameRegistry (emu emu' : Emulator) : Prop where
  lookup : ∀ name, ∃ r, lookupSymbol emu.modules name = .ok r ∧
    lookupSymbol emu'.modules name = .ok r
  find : ∀ name, ∃ address, findCSymbol emu.modules name = .ok address ∧
    findCSymbol emu'.modules name = .ok address
  later : ∀ files, linkLater emu' files = linkLater emu files

theorem getSymValue_congr (hsame : SameLinks emu emu') (loadBase : Int64) (sym : ElfSymbol) :
    getSymValue emu' loadBase sym = getSymValue emu loadBase sym := by
  simp only [getSymValue, hsame.1, hsame.2]

theorem resloveDynSymbols_congr (hsame : SameLinks emu emu') (sections : List ElfSection)
    (m : Module) : resloveDynSymbols emu' sections m = resloveDynSymbols emu sections m := by
  rw [resloveDynSymbols_eq, resloveDynSymbols_eq]
  induction tableSymbols sections generalizing m with
  | nil => rfl
  | cons sym syms ih => simp only [resloveSymbols, getSymValue_congr hsame, ih]

theorem linkLater_congr (hsame : SameLinks emu emu') (files : List (ElfFile × Int64 × Int64)) :
    linkLater emu' files = linkLater emu files := by
  induction files generalizing emu emu' with
  | nil => rfl
  | cons file files ih =>
    rw [linkLater, linkLater, resloveDynSymbols_congr hsame]
    split
    · congr 1
      apply ih
      exact ⟨congrArg (· ++ _) hsame.1, hsame.2⟩
    · rw [ih hsame]

/-- Without `null` in the list, lookups return. -/
theorem exists_lookupSymbol (h : none ∉ modules) (name : String) :
    ∃ r, lookupSymbol modules name = .ok r := by
  induction modules with
  | nil => exact ⟨none, rfl⟩
  | cons m modules ih =>
    cases m with
    | none => exact absurd List.mem_cons_self h
    | some m =>
      rw [lookupSymbol]
      cases m.lookupSymbol (some name) with
      | some r => exact ⟨some r, rfl⟩
      | none => exact ih fun hm => h (List.mem_cons_of_mem _ hm)

theorem SameRegistry.of_sameLinks (hsame : SameLinks emu emu') (h : none ∉ emu.modules) :
    SameRegistry emu emu' := by
  refine ⟨fun name => ?_, fun name => ?_, linkLater_congr hsame⟩
  · obtain ⟨r, hr⟩ := exists_lookupSymbol h name
    exact ⟨r, hr, by rw [hsame.1, hr]⟩
  · obtain ⟨r, hr⟩ := exists_lookupSymbol h name
    rw [hsame.1, findCSymbol, hr]
    cases r with
    | none => exact ⟨0, rfl, rfl⟩
    | some r => exact ⟨r.address, rfl, rfl⟩

/-- A lookup that no module answers goes through the whole list. -/
theorem lookupSymbol_of_null (h : none ∈ modules)
    (hnone : ∀ m, some m ∈ modules → m.lookupSymbol (some name) = none) :
    lookupSymbol modules name = .error .nullPointer := by
  induction modules with
  | nil => exact absurd h List.not_mem_nil
  | cons m modules ih =>
    cases m with
    | none => rfl
    | some m =>
      rw [lookupSymbol, hnone m List.mem_cons_self]
      refine ih ?_ fun m' hm' => hnone m' (List.mem_cons_of_mem _ hm')
      exact (List.mem_cons.1 h).resolve_left (by simp)

/-- A table has finitely many names. -/
theorem HasTable.finite (h : HasTable m) :
    Set.Finite {name | m.lookupSymbol (some name) ≠ none} := by
  obtain ⟨emu, syms, htable⟩ := h
  refine (syms.filterMap ElfSymbol.name).finite_toSet.subset fun name hname => ?_
  obtain ⟨r, hr⟩ := Option.ne_none_iff_exists'.1 hname
  rw [htable] at hr
  obtain ⟨sym, hsym, -⟩ := List.mem_filterMap.1 (List.mem_of_getLast? hr)
  obtain ⟨hin, hname'⟩ := List.mem_filter.1 hsym
  exact List.mem_filterMap.2 ⟨sym, hin, by simpa using hname'⟩

/-- There are names that no module has. -/
theorem Tabled.exists_unlisted (h : Tabled modules) :
    ∃ name, ∀ m, some m ∈ modules → m.lookupSymbol (some name) = none := by
  -- There are infinitely many names.
  have hfinite : Set.Finite {name | ∃ m, some m ∈ modules ∧ m.lookupSymbol (some name) ≠ none} := by
    induction modules with
    | nil => simp
    | cons m modules ih =>
      have hrest := ih fun m' hm' => h m' (List.mem_cons_of_mem _ hm')
      cases m with
      | none => simpa using hrest
      | some m =>
        refine ((h m List.mem_cons_self).finite.union hrest).subset ?_
        rintro name ⟨m', hm', hname⟩
        rcases List.mem_cons.1 hm' with heq | hin
        · cases heq
          exact Or.inl hname
        · exact Or.inr ⟨m', hin, hname⟩
  obtain ⟨name, hname⟩ := hfinite.exists_notMem
  refine ⟨name, fun m hm => ?_⟩
  by_contra hne
  exact hname ⟨m, hm, hne⟩

/-- Where no lookup throws, the list has no `null`. -/
theorem Tabled.not_mem_null (h : Tabled modules)
    (hreturns : ∀ name, ∃ r, lookupSymbol modules name = .ok r) : none ∉ modules := by
  intro hnull
  obtain ⟨name, hname⟩ := h.exists_unlisted
  obtain ⟨r, hr⟩ := hreturns name
  rw [lookupSymbol_of_null hnull hname] at hr
  cases hr

/-- In every state that is reached, a load that gives no module leaves the registry as it was
exactly if the list has no `null` yet and the file, if it was parsed, is a shared object. -/
theorem failed_load_iff (hmodules : emu.modules = []) (steps : List RegistryStep)
    (file : Except JavaException ElfFile)
    (hfailed : ∀ m emu', (loadFile file).run (registryRun emu steps) ≠ .ok (some m) emu') :
    SameRegistry (registryRun emu steps)
        (finalState ((loadFile file).run (registryRun emu steps))) ↔
      none ∉ (registryRun emu steps).modules ∧
        ∀ elf, file = .ok elf → elf.fileType = ElfFile.ftDyn := by
  have htabled := (registryRun_modules (tabled_of_nil hmodules) steps).2
  generalize registryRun emu steps = emu₁ at hfailed htabled ⊢
  constructor
  · intro hsame
    refine ⟨htabled.not_mem_null fun name => ?_, fun elf hfile => ?_⟩
    · obtain ⟨r, hr, -⟩ := hsame.lookup name
      exact ⟨r, hr⟩
    · by_contra hdyn
      -- The file adds `null`, so that some lookup throws.
      have htabled' : Tabled (registryStep emu₁ (.load file)).modules :=
        (registryRun_modules htabled [.load file]).2
      refine htabled'.not_mem_null (fun name => ?_) ?_
      · obtain ⟨r, -, hr⟩ := hsame.lookup name
        exact ⟨r, hr⟩
      · have hload : (loadElfModule elf).run emu₁ = .ok none emu₁ := by
          rw [loadElfModule, if_pos hdyn]
          rfl
        have hget : (getOrThrow file : EmuM ElfFile).run emu₁ = .ok elf emu₁ :=
          getOrThrow_eq_ok.2 ⟨hfile, rfl⟩
        rw [registryStep, loadFile, bind_of_ok hget, loadModule, bind_of_ok hload]
        exact List.mem_append_right _ List.mem_cons_self
  · rintro ⟨hnull, hdyn⟩
    apply SameRegistry.of_sameLinks _ hnull
    cases hrun : (loadFile file).run emu₁ with
    | error err emu' => exact loadFile_error hrun
    | ok result emu' =>
      -- A shared object that loads gives a module.
      obtain ⟨elf, hfile, hload⟩ := loadFile_eq_ok hrun
      obtain ⟨emu₂, helf, -⟩ := loadModule_eq_ok hload
      obtain ⟨m, rfl, -⟩ := loadElfModule_table (hdyn elf hfile) helf
      exact absurd hrun (hfailed m emu')

/-- A relocation of the second file names a symbol that does not exist, so its load throws. -/
theorem failed_load_small :
    let run := registryRun (freshEmulator fun _ => none)
      [.load (.ok (symbolFile [⟨some "f", 0x40, 0x12, 1⟩]))]
    SameRegistry run
      (finalState ((loadFile (.ok (relocFile [] [⟨.class32, 0, 0x902, 0⟩]))).run run)) := by
  intro run
  have hloads : loads run (relocFile [] [⟨.class32, 0, 0x902, 0⟩]) = false := by decide +kernel
  have hall : run.modules.all Option.isSome = true := by decide +kernel
  refine (failed_load_iff rfl _ _ fun m emu' hrun => ?_).2
    ⟨fun hnull => absurd (List.all_eq_true.1 hall none hnull) (by decide), fun elf helf => ?_⟩
  · obtain ⟨elf, helf, hload⟩ := loadFile_eq_ok hrun
    cases helf
    exact not_loads hloads hload
  · cases helf
    rfl

/-- An executable is refused, but `null` stays in the list, and a lookup that found nothing before
throws now. -/
theorem null_module_breaks_lookups :
    let emu := freshEmulator fun _ => none
    let executable : ElfFile := { symbolFile [] with fileType := 2 }
    let emu' := finalState ((loadFile (.ok executable)).run emu)
    (loadFile (.ok executable)).run emu = .ok none emu' ∧
      lookupSymbol emu.modules "f" = .ok none ∧
      lookupSymbol emu'.modules "f" = .error .nullPointer :=
  ⟨rfl, rfl, rfl⟩

end Tank
