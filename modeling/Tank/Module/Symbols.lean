import Tank.Module.Modules

/-!
# Symbol resolution

Which address `lookupSymbol` finds for a name after a run of module loads. A module's table has
for each name the last symbol, in the order of the sections, that has an address
(`reslovedSymbols_eq`). Undefined symbols get the address found in the modules before, a weak one
that is not found gets `0`, and local symbols are entered like exported ones.

* `lookupSymbol_finds`: the first module that defines a name is found, as long as no module before
  it mentions the name with an address and the exported symbol is the last one in its own table.
* `weak_reference_hides` is a run in which an earlier weak reference hides the definition.
-/

namespace Tank

open ToMathlib MemoryManager

/-! ## The table of a module -/

/-- The symbols of all symbol tables, in the order they are entered. -/
def tableSymbols (sections : List ElfSection) : List ElfSymbol :=
  (sections.filter fun s => s.type = ElfSection.shtDynsym ∨ s.type = ElfSection.shtSymtab).flatMap
    fun s => s.symbols.getD []

/-- The entry that a symbol makes, if it has an address. -/
def symbolEntry (emu : Emulator) (loadBase : Int64) (sym : ElfSymbol) : Option ReslovedSymbol :=
  match getSymValue emu loadBase sym with
  | .ok address => if address ≠ symbolUndef then some ⟨address, sym⟩ else none
  | .error _ => none

/-- The entries made for a name, in order. -/
def entries (emu : Emulator) (loadBase : Int64) (syms : List ElfSymbol) (name : Option String) :
    List ReslovedSymbol :=
  (syms.filter fun sym => sym.name = name).filterMap (symbolEntry emu loadBase)

variable {emu : Emulator} {m m' : Module} {name : String} {syms : List ElfSymbol}
  {sections : List ElfSection}

theorem entries_cons_of_some {loadBase : Int64} {sym : ElfSymbol} {name : Option String}
    {r : ReslovedSymbol} (hname : sym.name = name)
    (hentry : symbolEntry emu loadBase sym = some r) :
    entries emu loadBase (sym :: syms) name = r :: entries emu loadBase syms name := by
  simp [entries, hname, hentry]

theorem entries_cons_of_ne {loadBase : Int64} {sym : ElfSymbol} {name : Option String}
    (hname : sym.name ≠ name) :
    entries emu loadBase (sym :: syms) name = entries emu loadBase syms name := by
  simp [entries, hname]

theorem entries_cons_of_none {loadBase : Int64} {sym : ElfSymbol} (name : Option String)
    (hentry : symbolEntry emu loadBase sym = none) :
    entries emu loadBase (sym :: syms) name = entries emu loadBase syms name := by
  by_cases hname : sym.name = name <;> simp [entries, hname, hentry]

theorem resloveSymbols_append {syms' : List ElfSymbol} :
    resloveSymbols emu (syms ++ syms') m =
      match resloveSymbols emu syms m with
      | .error err => .error err
      | .ok m => resloveSymbols emu syms' m := by
  induction syms generalizing m with
  | nil => rfl
  | cons sym syms ih =>
    rw [List.cons_append, resloveSymbols, resloveSymbols]
    cases getSymValue emu m.loadBase sym with
    | error err => rfl
    | ok address =>
      dsimp only
      split
      next => rw [ih]
      next => rw [ih]

/-- The loop over the sections is one loop over all symbols. -/
theorem resloveDynSymbols_eq :
    resloveDynSymbols emu sections m = resloveSymbols emu (tableSymbols sections) m := by
  induction sections generalizing m with
  | nil => rfl
  | cons s sections ih =>
    rw [resloveDynSymbols]
    split
    next htype =>
      have hsyms : tableSymbols (s :: sections) = s.symbols.getD [] ++ tableSymbols sections := by
        simp [tableSymbols, htype]
      -- The symbols of this section come first; an exception there ends both loops.
      rw [hsyms, resloveSymbols_append, resloveSectionSymbols]
      cases resloveSymbols emu (s.symbols.getD []) m with
      | error err => rfl
      | ok m => exact ih
    next htype =>
      have hsyms : tableSymbols (s :: sections) = tableSymbols sections := by
        simp [tableSymbols, htype]
      rw [hsyms, ih]

/-- The table has the last entry made for a name. -/
theorem reslovedSymbols_eq (name : Option String) (h : resloveSymbols emu syms m = .ok m') :
    m'.loadBase = m.loadBase ∧ m'.reslovedSymbols name =
      ((entries emu m.loadBase syms name).getLast?).or (m.reslovedSymbols name) := by
  induction syms generalizing m with
  | nil =>
    cases h
    exact ⟨rfl, rfl⟩
  | cons sym syms ih =>
    -- Later entries win, and without any the table keeps what it had.
    rw [resloveSymbols] at h
    cases hval : getSymValue emu m.loadBase sym with
    | error err =>
      rw [hval] at h
      cases h
    | ok address =>
      rw [hval] at h
      dsimp only at h
      split at h
      next hne =>
        obtain ⟨hbase, htable⟩ := ih h
        have hentry : symbolEntry emu m.loadBase sym = some ⟨address, sym⟩ := by
          simp [symbolEntry, hval, hne]
        refine ⟨hbase, htable.trans ?_⟩
        by_cases hname : sym.name = name
        · -- The new entry is what later symbols fall back to.
          have hput : (m.addSymbol sym.name ⟨address, sym⟩).reslovedSymbols name =
              some ⟨address, sym⟩ := by
            simp [Module.addSymbol, hname]
          rw [entries_cons_of_some hname hentry, List.getLast?_cons, hput]
          change (entries emu m.loadBase syms name).getLast?.or _ = _
          cases (entries emu m.loadBase syms name).getLast? <;> rfl
        · have hput : (m.addSymbol sym.name ⟨address, sym⟩).reslovedSymbols name =
              m.reslovedSymbols name :=
            Function.update_of_ne (Ne.symm hname) _ _
          rw [entries_cons_of_ne hname, hput]
          rfl
      next hne =>
        obtain ⟨hbase, htable⟩ := ih h
        have hentry : symbolEntry emu m.loadBase sym = none := by
          simp [symbolEntry, hval, not_not.1 hne]
        refine ⟨hbase, htable.trans ?_⟩
        rw [entries_cons_of_none name hentry]

/-! ## Runs of loads -/

/-- Between loads the guest runs and changes memory. -/
inductive LoadStep where
  | load (elf : ElfFile)
  | guest (memory : MemoryManager)

/-- One step, with the files of the modules loaded so far. -/
def loadStep (st : Emulator × List (ElfFile × Module)) :
    LoadStep → Emulator × List (ElfFile × Module)
  | .load elf =>
    match (loadModule elf).run st.1 with
    | .ok (some m) emu => (emu, st.2 ++ [(elf, m)])
    | .ok none emu => (emu, st.2)
    | .error _ emu => (emu, st.2)
  | .guest memory => ({ st.1 with memory }, st.2)

/-- The emulator and the loaded modules after a sequence of steps. -/
def loadAll (emu : Emulator) (steps : List LoadStep) : Emulator × List (ElfFile × Module) :=
  steps.foldl loadStep (emu, [])

/-- The step loads no file but a shared object. -/
def LoadStep.Shared : LoadStep → Prop
  | .load elf => elf.fileType = ElfFile.ftDyn
  | .guest _ => True

/-- The modules and hooks are the same. -/
def SameLinks (emu emu' : Emulator) : Prop :=
  emu'.modules = emu.modules ∧ emu'.hookedSymbols = emu.hookedSymbols

instance SameLinks.isPreorder : IsPreorder Emulator SameLinks where
  refl _ := ⟨rfl, rfl⟩
  trans _ _ _ h₁₂ h₂₃ := ⟨h₂₃.1.trans h₁₂.1, h₂₃.2.trans h₁₂.2⟩

theorem keeps_liftMem {α : Type} (x : MemM α) : Keeps SameLinks (liftMem x) := by
  intro emu
  simp only [EStateM.run, liftMem]
  split <;> exact ⟨rfl, rfl⟩

/-- Loading a file adds the module only at the end. -/
theorem keeps_loadElfModule (elf : ElfFile) : Keeps SameLinks (loadElfModule elf) := by
  rw [loadElfModule]
  split
  · exact Keeps.pure _
  · refine Keeps.bind (keeps_liftMem _) fun _ => ?_
    refine Keeps.bind (Keeps.getOrThrow _) fun _ => ?_
    refine Keeps.get_bind fun _ => ?_
    refine Keeps.bind (Keeps.getOrThrow _) fun _ => ?_
    exact Keeps.bind (keeps_liftMem _) fun _ => Keeps.pure _

/-- The stages of a load that returned: the segments are written, the arrays of constructors are
read, the symbols are entered, and then the words are relocated. -/
theorem loadElfModule_stages {elf : ElfFile} {emu' : Emulator} {result : Option Module}
    (hdyn : elf.fileType = ElfFile.ftDyn)
    (h : (loadElfModule elf).run emu = .ok result emu') :
    ∃ m loadBase size memory arrays, result = some m ∧
      (writeSegmentsToMemory elf).run emu.memory = .ok (loadBase, size) memory ∧
      resloveInitArray elf loadBase = .ok arrays ∧
      resloveDynSymbols { emu with memory } elf.sections (.unlinked loadBase size arrays) = .ok m ∧
      (relocateDynSymbols elf m elf.sections).run memory.uc = .ok () emu'.memory.uc := by
  rw [loadElfModule, if_neg (not_not.2 hdyn)] at h
  obtain ⟨⟨loadBase, size⟩, emu₁, hwrite, h₁⟩ := bind_eq_ok h
  obtain ⟨memory, hsegments, rfl⟩ := liftMem_eq_ok hwrite
  obtain ⟨arrays, emu₂, hinit, h₂⟩ := bind_eq_ok h₁
  obtain ⟨harrays, rfl⟩ := getOrThrow_eq_ok.1 hinit
  -- The symbols are looked up in the modules as they are before this one is registered.
  obtain ⟨_, emu₃, hget, h₃⟩ := bind_eq_ok h₂
  cases hget
  obtain ⟨m, emu₄, hreslove, h₄⟩ := bind_eq_ok h₃
  obtain ⟨hsyms, rfl⟩ := getOrThrow_eq_ok.1 hreslove
  obtain ⟨_, emu₅, hlift, h₅⟩ := bind_eq_ok h₄
  cases h₅
  obtain ⟨memory', hrelocate, rfl⟩ := liftMem_eq_ok hlift
  refine ⟨m, loadBase, size, memory, arrays, rfl, hsegments, harrays, hsyms, ?_⟩
  simp only [EStateM.run, liftUc] at hrelocate ⊢
  split at hrelocate
  next u uc' hrun =>
    cases hrelocate
    exact hrun
  next => cases hrelocate

/-- The table that the symbols make of an empty one. -/
theorem resloveDynSymbols_table {unlinked : Module}
    (hempty : unlinked.reslovedSymbols = fun _ => none)
    (h : resloveDynSymbols emu sections unlinked = .ok m) (name : Option String) :
    m.loadBase = unlinked.loadBase ∧ m.reslovedSymbols name =
      (entries emu m.loadBase (tableSymbols sections) name).getLast? := by
  rw [resloveDynSymbols_eq] at h
  obtain ⟨hbase, htable⟩ := reslovedSymbols_eq name h
  refine ⟨hbase, ?_⟩
  rw [htable, hbase, hempty]
  simp

/-- The table of a module that was loaded, made against the modules before it. -/
theorem loadElfModule_table {elf : ElfFile} {emu' : Emulator} {result : Option Module}
    (hdyn : elf.fileType = ElfFile.ftDyn)
    (h : (loadElfModule elf).run emu = .ok result emu') :
    ∃ m, result = some m ∧ ∃ emu₁, SameLinks emu emu₁ ∧ ∀ name,
      m.reslovedSymbols (some name) =
        (entries emu₁ m.loadBase (tableSymbols elf.sections) (some name)).getLast? := by
  obtain ⟨m, loadBase, size, memory, arrays, hresult, -, -, hsyms, -⟩ := loadElfModule_stages hdyn h
  exact ⟨m, hresult, { emu with memory }, ⟨rfl, rfl⟩,
    fun name => (resloveDynSymbols_table rfl hsyms (some name)).2⟩

/-- The emulator has loaded the modules `loaded`, each with the table made for it. -/
structure Linked (hooks : String → Option Int64) (emu : Emulator)
    (loaded : List (ElfFile × Module)) : Prop where
  hooked : emu.hookedSymbols = hooks
  modules : emu.modules = loaded.map fun e => some e.2
  table : ∀ before e after, loaded = before ++ e :: after →
    ∃ emu₁ : Emulator, emu₁.hookedSymbols = hooks ∧
      emu₁.modules = (before.map fun e => some e.2) ∧ ∀ name,
        e.2.reslovedSymbols (some name) =
          (entries emu₁ e.2.loadBase (tableSymbols e.1.sections) (some name)).getLast?

variable {hooks : String → Option Int64} {loaded : List (ElfFile × Module)}

theorem Linked.congr {emu' : Emulator} (h : Linked hooks emu loaded) (hsame : SameLinks emu emu') :
    Linked hooks emu' loaded :=
  ⟨hsame.2.trans h.hooked, hsame.1.trans h.modules, h.table⟩

theorem Linked.step {step : LoadStep} (h : Linked hooks emu loaded) (hshared : step.Shared) :
    Linked hooks (loadStep (emu, loaded) step).1 (loadStep (emu, loaded) step).2 := by
  cases step with
  | guest memory => exact h.congr ⟨rfl, rfl⟩
  | load elf =>
    have hkeeps := keeps_loadElfModule elf emu
    rw [loadStep, loadModule]
    cases hrun : (loadElfModule elf).run emu with
    | error err emu' =>
      rw [hrun] at hkeeps
      rw [bind_of_error hrun]
      exact h.congr hkeeps
    | ok result emu' =>
      rw [hrun] at hkeeps
      replace hkeeps : SameLinks emu emu' := hkeeps
      obtain ⟨m, rfl, emu₁, hsame, htable⟩ := loadElfModule_table hshared hrun
      rw [bind_of_ok hrun]
      -- The module is appended, so that the ones before it keep their predecessors.
      refine ⟨hkeeps.2.trans h.hooked, ?_, fun before e after heq => ?_⟩
      · change emu'.modules ++ [some m] = (loaded ++ [(elf, m)]).map fun e => some e.2
        rw [hkeeps.1, h.modules]
        simp
      · change loaded ++ [(elf, m)] = before ++ e :: after at heq
        -- Either `e` is the new module, or it was loaded before and `h` knows its table.
        rcases List.eq_nil_or_concat' after with rfl | ⟨after, last, rfl⟩
        · obtain ⟨rfl, hlast⟩ := List.append_inj' heq rfl
          cases hlast
          exact ⟨emu₁, hsame.2.trans h.hooked, hsame.1.trans h.modules, htable⟩
        · rw [← List.cons_append, ← List.append_assoc] at heq
          exact h.table before e after (List.append_inj' heq rfl).1

/-- The run lemma of `Linked`. -/
theorem linked_loadAll {steps : List LoadStep} (hmodules : emu.modules = [])
    (hshared : ∀ step ∈ steps, step.Shared) :
    Linked emu.hookedSymbols (loadAll emu steps).1 (loadAll emu steps).2 := by
  suffices h : ∀ st : Emulator × List (ElfFile × Module), Linked emu.hookedSymbols st.1 st.2 →
      Linked emu.hookedSymbols (steps.foldl loadStep st).1 (steps.foldl loadStep st).2 by
    refine h (emu, []) ⟨rfl, hmodules, fun before e after heq => ?_⟩
    simp at heq
  induction steps with
  | nil => exact fun st hst => hst
  | cons step steps ih =>
    intro st hst
    exact ih (fun s hs => hshared s (List.mem_cons_of_mem _ hs)) _
      (hst.step (hshared step List.mem_cons_self))

/-! ## What a module mentions and exports -/

/-- The symbols that define a name for other modules: named so in a dynamic symbol table, neither
undefined nor local. -/
def exported (elf : ElfFile) (name : String) : List ElfSymbol :=
  ((elf.sections.filter fun s => s.type = ElfSection.shtDynsym).flatMap
    fun s => s.symbols.getD []).filter fun sym =>
      sym.name = some name ∧ sym.isUndef = false ∧ sym.getBinding ≠ ElfSymbol.bindingLocal

/-- The symbols of any symbol table that may enter an address of their own for a name: definitions,
also local ones, and weak references. -/
def mentions (elf : ElfFile) (name : String) : List ElfSymbol :=
  (tableSymbols elf.sections).filter fun sym =>
    sym.name = some name ∧ (sym.isUndef = false ∨ sym.getBinding = ElfSymbol.bindingWeak)

variable {elf : ElfFile} {loadBase : Int64} {sym : ElfSymbol}

theorem mem_tableSymbols_of_exported (h : sym ∈ exported elf name) :
    sym ∈ tableSymbols elf.sections ∧ sym.name = some name := by
  simp only [exported, List.mem_filter, List.mem_flatMap, decide_eq_true_eq] at h
  obtain ⟨⟨s, ⟨hs, htype⟩, hsym⟩, hname, -⟩ := h
  refine ⟨List.mem_flatMap.2 ⟨s, List.mem_filter.2 ⟨hs, ?_⟩, hsym⟩, hname⟩
  simp [htype]

/-- A strong reference to a name that is not found makes no entry, so that the entries of a table
come from what the file mentions. -/
theorem entries_eq_filterMap_mentions (hhook : emu.hookedSymbols name = none)
    (hlookup : lookupSymbol emu.modules name = .ok none) :
    entries emu loadBase (tableSymbols elf.sections) (some name) =
      (mentions elf name).filterMap (symbolEntry emu loadBase) := by
  rw [entries, mentions]
  generalize tableSymbols elf.sections = syms
  induction syms with
  | nil => rfl
  | cons sym syms ih =>
    -- Only symbols of this name count, and of these all but strong references are mentions.
    by_cases hname : sym.name = some name
    · by_cases hmention : sym.isUndef = false ∨ sym.getBinding = ElfSymbol.bindingWeak
      · simp [hname, hmention, List.filterMap_cons, ih]
      · have hundef : sym.isUndef = true := by
          simpa using (not_or.1 hmention).1
        have hentry : symbolEntry emu loadBase sym = none := by
          simp [symbolEntry, getSymValue, hname, hhook, hundef, hlookup, (not_or.1 hmention).2]
        simp [hname, hmention, hentry, ih]
    · simp [hname, ih]

/-- A definition is entered with its own address. -/
theorem symbolEntry_of_defined (hname : sym.name = some name)
    (hhook : emu.hookedSymbols name = none) (hdef : sym.isUndef = false)
    (hne : loadBase + sym.value ≠ symbolUndef) :
    symbolEntry emu loadBase sym = some ⟨loadBase + sym.value, sym⟩ := by
  simp [symbolEntry, getSymValue, hname, hhook, hdef, hne]

/-- A hooked name is entered with the address of the hook. -/
theorem symbolEntry_of_hooked {address : Int64} (hname : sym.name = some name)
    (hhook : emu.hookedSymbols name = some address) (hne : address ≠ symbolUndef) :
    symbolEntry emu loadBase sym = some ⟨address, sym⟩ := by
  simp [symbolEntry, getSymValue, hname, hhook, hne]

/-! ## Lookups -/

theorem lookupSymbol_loaded :
    lookupSymbol (loaded.map fun e => some e.2) name =
      .ok (loaded.findSome? fun e => e.2.reslovedSymbols (some name)) := by
  induction loaded with
  | nil => rfl
  | cons e loaded ih =>
    rw [List.map_cons, lookupSymbol, Module.lookupSymbol, List.findSome?_cons]
    cases e.2.reslovedSymbols (some name) with
    | none => exact ih
    | some r => rfl

/-- Modules that do not mention a name have no entry for it. -/
theorem Linked.not_entered {before : List (ElfFile × Module)} (h : Linked hooks emu loaded)
    (hhook : hooks name = none) (after : List (ElfFile × Module))
    (hsplit : loaded = before ++ after) (hnone : ∀ e ∈ before, mentions e.1 name = []) :
    ∀ e ∈ before, e.2.reslovedSymbols (some name) = none := by
  induction before using List.reverseRecOn generalizing after with
  | nil => simp
  | append_singleton before e ih =>
    -- The modules before `e` have no entry, so the references of `e` find nothing.
    have hold := ih (e :: after) (by rw [hsplit]; simp)
      fun e' he' => hnone e' (List.mem_append_left _ he')
    intro e' he'
    rcases List.mem_append.1 he' with hin | hlast
    · exact hold e' hin
    obtain rfl := List.mem_singleton.1 hlast
    obtain ⟨emu₁, hhooks, hmodules, htable⟩ := h.table before e' after (by rw [hsplit]; simp)
    have hlookup : lookupSymbol emu₁.modules name = .ok none := by
      rw [hmodules, lookupSymbol_loaded, List.findSome?_eq_none_iff.2 hold]
    rw [htable name, entries_eq_filterMap_mentions (by rw [hhooks]; exact hhook) hlookup,
      hnone e' he']
    rfl

/-- Whatever is entered for a name that is hooked has the address of the hook. -/
theorem getLast?_entries_of_hooked {address : Int64} {r : ReslovedSymbol}
    (hhook : emu.hookedSymbols name = some address)
    (h : (entries emu loadBase syms (some name)).getLast? = some r) : r.address = address := by
  obtain ⟨sym, hsym, hentry⟩ := List.mem_filterMap.1 (List.mem_of_getLast? h)
  have hname : sym.name = some name := by
    simpa using (List.mem_filter.1 hsym).2
  by_cases hne : address = symbolUndef
  · simp [symbolEntry, getSymValue, hname, hhook, hne] at hentry
  · rw [symbolEntry_of_hooked hname hhook hne] at hentry
    cases hentry
    rfl

/-- If all symbols of a name are entered with one address, the table has that address for it. -/
theorem exists_getLast?_entries {address : Int64}
    (hall : ∀ sym ∈ syms, sym.name = some name →
      symbolEntry emu loadBase sym = some ⟨address, sym⟩)
    (hsym : sym ∈ syms) (hname : sym.name = some name) :
    ∃ r, (entries emu loadBase syms (some name)).getLast? = some r ∧ r.address = address := by
  have hmem : (⟨address, sym⟩ : ReslovedSymbol) ∈ entries emu loadBase syms (some name) := by
    refine List.mem_filterMap.2 ⟨sym, List.mem_filter.2 ⟨hsym, ?_⟩, hall sym hsym hname⟩
    simpa using hname
  have hlast := List.getLast?_eq_some_getLast (List.ne_nil_of_mem hmem)
  refine ⟨_, hlast, ?_⟩
  obtain ⟨sym', hsym', hentry⟩ := List.mem_filterMap.1 (List.mem_of_getLast? hlast)
  obtain ⟨hin, hname'⟩ := List.mem_filter.1 hsym'
  rw [hall sym' hin (by simpa using hname')] at hentry
  exact congrArg ReslovedSymbol.address (Option.some.inj hentry).symm

/-- A table has an entry for a name that is hooked as soon as one of its symbols has the name,
whatever symbol it is: a hook comes before everything else. -/
theorem exists_getLast?_entries_of_hooked {address : Int64}
    (hhook : emu.hookedSymbols name = some address) (hne : address ≠ symbolUndef)
    (hsym : sym ∈ syms) (hname : sym.name = some name) :
    ∃ r, (entries emu loadBase syms (some name)).getLast? = some r ∧ r.address = address :=
  exists_getLast?_entries (fun _ _ hname' => symbolEntry_of_hooked hname' hhook hne) hsym hname

/-! ## Finding the definition -/

/-- The address that a name defined in `m` stands for: its hook, or the place of an exported symbol
in the loaded module. -/
def DefinedAt (hooks : String → Option Int64) (elf : ElfFile) (m : Module) (name : String)
    (address : Int64) : Prop :=
  match hooks name with
  | some hook => address = hook
  | none => ∃ sym ∈ exported elf name, address = m.loadBase + sym.value

/-- Nothing takes the place of the definition of a name in `m`. -/
structure Unshadowed (hooks : String → Option Int64) (before : List (ElfFile × Module))
    (elf : ElfFile) (m : Module) (name : String) : Prop where
  /-- The hook, if there is one, is not at the address that stands for undefined. -/
  hook : ∀ address, hooks name = some address → address ≠ symbolUndef
  /-- The modules before have neither a definition, be it local, nor a weak reference. -/
  earlier : hooks name = none → ∀ e ∈ before, mentions e.1 name = []
  /-- The last symbol with an address in the module's own tables is a definition with the value of
  the exported one, and is not placed at the address that stands for undefined. -/
  last : hooks name = none → ∃ sym, (mentions elf name).getLast? = some sym ∧
    sym.isUndef = false ∧ (∃ sym' ∈ exported elf name, sym'.value = sym.value) ∧
    m.loadBase + sym.value ≠ symbolUndef

variable {before after : List (ElfFile × Module)}

/-- A hooked name is found as soon as a loaded module has a symbol of that name. -/
theorem Linked.lookupSymbol_of_hooked {address : Int64} (h : Linked hooks emu loaded)
    (hhook : hooks name = some address) (hne : address ≠ symbolUndef)
    (hsplit : loaded = before ++ (elf, m) :: after) (hsym : sym ∈ tableSymbols elf.sections)
    (hname : sym.name = some name) :
    ∃ r, lookupSymbol emu.modules name = .ok (some r) ∧ r.address = address := by
  obtain ⟨emu₁, hhooks, -, htable⟩ := h.table before (elf, m) after hsplit
  have hentered : m.reslovedSymbols (some name) ≠ none := by
    obtain ⟨r, hr, -⟩ := exists_getLast?_entries_of_hooked (by rw [hhooks]; exact hhook) hne
      hsym hname
    rw [htable name, hr]
    exact Option.some_ne_none r
  rw [h.modules, lookupSymbol_loaded]
  cases hfind : loaded.findSome? fun e => e.2.reslovedSymbols (some name) with
  | none =>
    refine absurd (List.findSome?_eq_none_iff.1 hfind (elf, m) ?_) hentered
    rw [hsplit]
    exact List.mem_append_right _ List.mem_cons_self
  | some r =>
    -- Whichever module is found, its entry has the address of the hook.
    obtain ⟨e, he, hentry⟩ := List.exists_of_findSome?_eq_some hfind
    obtain ⟨before', after', hsplit'⟩ := List.append_of_mem he
    obtain ⟨emu₂, hhooks₂, -, htable₂⟩ := h.table before' e after' hsplit'
    rw [htable₂ name] at hentry
    exact ⟨r, rfl, getLast?_entries_of_hooked (by rw [hhooks₂]; exact hhook) hentry⟩

/-- A name that is not hooked is found in the first module that mentions it. -/
theorem Linked.lookupSymbol_of_first (h : Linked hooks emu loaded) (hhook : hooks name = none)
    (hsplit : loaded = before ++ (elf, m) :: after)
    (hnone : ∀ e ∈ before, mentions e.1 name = [])
    (hlast : (mentions elf name).getLast? = some sym) (hdef : sym.isUndef = false)
    (hne : m.loadBase + sym.value ≠ symbolUndef) :
    lookupSymbol emu.modules name = .ok (some ⟨m.loadBase + sym.value, sym⟩) := by
  have hbefore := h.not_entered hhook _ hsplit hnone
  obtain ⟨emu₁, hhooks, hmodules, htable⟩ := h.table before (elf, m) after hsplit
  have hhook₁ : emu₁.hookedSymbols name = none := by rw [hhooks]; exact hhook
  have hlookup : lookupSymbol emu₁.modules name = .ok none := by
    rw [hmodules, lookupSymbol_loaded, List.findSome?_eq_none_iff.2 hbefore]
  have hname : sym.name = some name := by
    have hmem := (List.mem_filter.1 (List.mem_of_getLast? hlast)).2
    simp only [decide_eq_true_eq] at hmem
    exact hmem.1
  have hentered : m.reslovedSymbols (some name) = some ⟨m.loadBase + sym.value, sym⟩ := by
    -- The last mention is a definition and makes the last entry.
    obtain ⟨syms, hsyms⟩ := List.getLast?_eq_some_iff.1 hlast
    rw [htable name, entries_eq_filterMap_mentions hhook₁ hlookup, hsyms, List.filterMap_append,
      List.filterMap_cons_some (symbolEntry_of_defined hname hhook₁ hdef hne)]
    simp
  rw [h.modules, lookupSymbol_loaded, hsplit, List.findSome?_append,
    List.findSome?_eq_none_iff.2 hbefore]
  simp [hentered]

/-- After any run of loads of shared objects, a lookup finds the definition of a name, if nothing
takes its place. -/
theorem lookupSymbol_finds (name : String) {steps : List LoadStep} (hmodules : emu.modules = [])
    (hshared : ∀ step ∈ steps, step.Shared)
    (hloaded : (loadAll emu steps).2 = before ++ (elf, m) :: after)
    (hdef : exported elf name ≠ [])
    (h : Unshadowed emu.hookedSymbols before elf m name) :
    ∃ r, lookupSymbol (loadAll emu steps).1.modules name = .ok (some r) ∧
      DefinedAt emu.hookedSymbols elf m name r.address := by
  have hlinked := linked_loadAll hmodules hshared
  cases hhook : emu.hookedSymbols name with
  | some address =>
    obtain ⟨sym, hsym⟩ := List.exists_mem_of_ne_nil _ hdef
    obtain ⟨hmem, hname⟩ := mem_tableSymbols_of_exported hsym
    obtain ⟨r, hr, haddress⟩ := hlinked.lookupSymbol_of_hooked hhook (h.hook address hhook)
      hloaded hmem hname
    refine ⟨r, hr, ?_⟩
    rw [DefinedAt, hhook]
    exact haddress
  | none =>
    -- The entry may come from another symbol than the exported one, but has its value.
    obtain ⟨sym, hlast, hdefined, ⟨sym', hsym', hvalue⟩, hne⟩ := h.last hhook
    refine ⟨_, hlinked.lookupSymbol_of_first hhook hloaded (h.earlier hhook) hlast hdefined hne, ?_⟩
    rw [DefinedAt, hhook]
    exact ⟨sym', hsym', by rw [hvalue]⟩

/-- A file with a dynamic symbol table, which starts with the null symbol. -/
def symbolFile (symbols : List ElfSymbol) : ElfFile where
  buffer := .empty
  fileType := ElfFile.ftDyn
  segments := []
  sections :=
    [{  type := ElfSection.shtDynsym
        link := 0
        symbols := some (⟨none, 0, 0, 0⟩ :: symbols)
        relocations := [] }]

/-- The emulator before any module is loaded. -/
def freshEmulator (hookedSymbols : String → Option Int64) : Emulator :=
  ⟨fresh, [], hookedSymbols⟩

theorem lookupSymbol_finds_small :
    ∃ r, lookupSymbol (loadAll (freshEmulator fun _ => none)
        [.load (symbolFile [⟨some "g", 0x20, 0x12, 1⟩]),
          .load (symbolFile [⟨some "f", 0x40, 0x12, 1⟩])]).1.modules "f" = .ok (some r) ∧
      r.address = 0xA0001040 := by
  obtain ⟨r, hr, sym, hsym, haddress⟩ := lookupSymbol_finds "f" rfl
    (by
      intro step hstep
      simp only [List.mem_cons, List.not_mem_nil, or_false] at hstep
      rcases hstep with rfl | rfl <;> rfl)
    (show (loadAll (freshEmulator fun _ => none)
      [.load (symbolFile [⟨some "g", 0x20, 0x12, 1⟩]),
        .load (symbolFile [⟨some "f", 0x40, 0x12, 1⟩])]).2 = [_] ++ (_, _) :: [] from rfl)
    (by decide) ⟨nofun, fun _ => by decide, fun _ => ⟨_, rfl, by decide +kernel⟩⟩
  rw [List.mem_singleton.1 (show sym ∈ [⟨some "f", 0x40, 0x12, 1⟩] from hsym)] at haddress
  exact ⟨r, hr, haddress⟩

/-- The first module has a weak reference to `f`, which is entered with the address `0`. The
lookup finds that entry, and not the definition in the second module. -/
theorem weak_reference_hides :
    let loaded := loadAll (freshEmulator fun _ => none)
      [.load (symbolFile [⟨some "f", 0, 0x22, 0⟩]), .load (symbolFile [⟨some "f", 0x40, 0x12, 1⟩])]
    ∃ e₁ e₂, loaded.2 = [e₁, e₂] ∧ exported e₁.1 "f" = [] ∧ exported e₂.1 "f" ≠ [] ∧
      lookupSymbol loaded.1.modules "f" = .ok (some ⟨0, ⟨some "f", 0, 0x22, 0⟩⟩) ∧
      ¬DefinedAt (fun _ => none) e₂.1 e₂.2 "f" 0 := by
  refine ⟨_, _, rfl, rfl, by decide, rfl, ?_⟩
  rintro ⟨sym, hsym, haddress⟩
  rw [List.mem_singleton.1 (show sym ∈ [⟨some "f", 0x40, 0x12, 1⟩] from hsym)] at haddress
  exact absurd haddress (by decide +kernel)

end Tank
