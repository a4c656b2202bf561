import Tank.Jelf.Refinement
import Tank.ToMathlib.Returns

/-!
# A load that gives a module has parsed the file

The loader asks for all program headers when it looks for the load segments, for every section, for
every symbol with its name, and for every relocation. So a load that comes to its end could not have
done so in a file of which one of these cannot be parsed.

## Main results

* `returns_loadElfModule`: a load that gives a module only ends if the view is there.
* `loadModuleFrom_eq_ok_iff`: the loads of a file that give a module are the loads of its view that
  do.
-/

namespace Tank

open ToMathlib MemoryManager

namespace LazyElf

variable {elf : LazyElf} {α : Type} {object : SectionObject} {objects : List SectionObject}
  {is : List ℕ}

/-- What is memoised is what the file has. -/
abbrev SoundState (elf : LazyElf) (s : LoadState) : Prop := Memo.Sound elf.contents s.file

/-- Code of the file that returns has what the file has. -/
theorem returns_liftFile {m : FileM α} {r : Except JavaException α} (h : elf.Denotes m r) :
    IfReturns elf.SoundState (LoadM.liftFile m) fun a => r = .ok a := by
  intro s hs a s' hrun
  obtain ⟨hout, hsound⟩ := h s.file hs
  cases hm : m.run s.file with
  | ok b file =>
    rw [LoadM.liftFile, zoom_of_ok hm] at hrun
    rw [hm] at hout hsound
    cases hrun
    exact ⟨hsound, hout.symm⟩
  | error err file =>
    rw [LoadM.liftFile, zoom_of_error hm] at hrun
    cases hrun

/-- Code of the emulator parses nothing. -/
theorem returns_liftEmu (m : EmuM α) :
    IfReturns elf.SoundState (LoadM.liftEmu m) fun _ => True := by
  intro s hs a s' hrun
  cases hm : m.run s.emu with
  | ok b emu =>
    rw [LoadM.liftEmu, zoom_of_ok hm] at hrun
    cases hrun
    exact ⟨hs, trivial⟩
  | error err emu =>
    rw [LoadM.liftEmu, zoom_of_error hm] at hrun
    cases hrun

theorem returns_getData (o : SegmentObject) (data : List UInt8) :
    IfReturns elf.SoundState (LoadM.getData o data) fun _ => True := by
  intro s hs a s' hrun
  simp only [EStateM.run, LoadM.getData] at hrun
  split at hrun
  next => cases hrun
  next =>
    split at hrun
    next => cases hrun
    next =>
      cases hrun
      exact ⟨hs, trivial⟩

theorem returns_writeSegments (loadBase : Int64) {objects : List SegmentObject}
    (hobjects : ∀ o ∈ objects, elf.IsSegment o) :
    IfReturns elf.SoundState (elf.writeSegments loadBase objects) fun _ => True := by
  induction objects with
  | nil => exact .pure trivial
  | cons o objects ih =>
    have ih := ih fun o ho => hobjects o (List.mem_cons_of_mem _ ho)
    rw [writeSegments]
    split
    next => exact ih
    next =>
      have hdenotes := denotes_getPtLoadData (hobjects o List.mem_cons_self)
      refine (returns_liftEmu _).bind fun _ _ => (returns_liftFile hdenotes).bind fun pt _ => ?_
      cases pt with
      | none => exact ih
      | some data =>
        exact (returns_getData o data).bind fun _ _ => (returns_liftEmu _).bind fun _ _ => ih

/-- The segments that are loaded are of the file, and all program headers were read for them. -/
theorem viewSegments_of_loadSegments {objects : List SegmentObject}
    (h : elf.loadSegments direct is = .ok objects) :
    (∀ o ∈ objects, elf.IsSegment o) ∧ ∃ segments, elf.viewSegments is = .ok segments := by
  induction is generalizing objects with
  | nil =>
    cases h
    exact ⟨by simp, [], rfl⟩
  | cons i is ih =>
    obtain ⟨object, hobject, hrest⟩ := except_bind_eq_ok_iff.1 h
    obtain ⟨rest, hloads, hpure⟩ := except_bind_eq_ok_iff.1 hrest
    obtain ⟨hmem, segments, hsegments⟩ := ih hloads
    refine ⟨?_, object.header.toSegment :: segments, ?_⟩
    · cases hpure
      intro o ho
      split at ho
      next =>
        obtain rfl | ho := List.mem_cons.1 ho
        · exact isSegment_of_eq_ok hobject
        · exact hmem o ho
      next => exact hmem o ho
    · rw [viewSegments, hobject]
      change (elf.viewSegments is >>= _) = _
      rw [hsegments]
      rfl

/-- To map the segments, all program headers are parsed. -/
theorem returns_writeSegmentsToMemory :
    IfReturns elf.SoundState elf.writeSegmentsToMemory fun _ =>
      ∃ segments, elf.viewSegments (indexRange elf.header.numPh.toInt32) = .ok segments := by
  refine (returns_liftFile (denotes_loadSegments _)).bind fun loads hloads => ?_
  obtain ⟨hmem, hview⟩ := viewSegments_of_loadSegments hloads
  refine (returns_liftEmu _).bind fun chunk _ => ?_
  exact (returns_writeSegments chunk.addr hmem).bind fun _ _ => .pure hview

/-- To enter a symbol, it is parsed with its name. -/
theorem returns_resloveSymbol (hsection : elf.IsSection object) {i : ℕ}
    (hi : i ∈ indexRange object.header.numEntries) (m : Module) :
    IfReturns elf.SoundState (elf.resloveSymbol object i m) fun _ =>
      ∃ symbol, elf.IsSymbolView object i symbol := by
  obtain ⟨hnonneg, hlt, htoNat⟩ := mem_indexRange hi
  refine (returns_liftFile (denotes_getElfSymbol hsection _)).bind fun sym hsym => ?_
  refine (returns_liftFile (denotes_symbolName sym)).bind fun name hname => ?_
  have hview : ∃ symbol, elf.IsSymbolView object i symbol := by
    rw [getElfSymbol] at hsym
    split at hsym
    next => cases hsym
    next =>
      rw [if_pos ⟨hnonneg, hlt⟩, htoNat] at hsym
      exact ⟨_, sym, name, hsym, hname, rfl⟩
  refine IfReturns.get.bind fun s _ => (IfReturns.getOrThrow _).bind fun symbolAddress _ => ?_
  split
  next => exact (returns_liftFile (denotes_symbolName sym)).bind fun _ _ => .pure hview
  next => exact .pure hview

/-- Every symbol of a section. -/
theorem returns_resloveSymbols (hsection : elf.IsSection object)
    (his : ∀ i ∈ is, i ∈ indexRange object.header.numEntries) (m : Module) :
    IfReturns elf.SoundState (elf.resloveSymbols object is m) fun _ =>
      ∀ i ∈ is, ∃ symbol, elf.IsSymbolView object i symbol := by
  induction is generalizing m with
  | nil => exact .pure (by simp)
  | cons i is ih =>
    exact .cons (returns_resloveSymbol hsection (his i List.mem_cons_self) m) fun m =>
      ih (fun i hi => his i (List.mem_cons_of_mem _ hi)) m

theorem mem_indexRange_zero (i : ℕ) : i ∉ indexRange 0 := by simp [indexRange]

/-- Every symbol of every symbol table. -/
theorem returns_resloveDynSymbols (hobjects : ∀ o ∈ objects, elf.IsSection o) (m : Module) :
    IfReturns elf.SoundState (elf.resloveDynSymbols objects m) fun _ =>
      ∀ o ∈ objects, ∀ i ∈ indexRange o.header.getNumberOfSymbols,
        ∃ symbol, elf.IsSymbolView o i symbol := by
  induction objects generalizing m with
  | nil => exact .pure (by simp)
  | cons o objects ih =>
    have ih := ih fun o ho => hobjects o (List.mem_cons_of_mem _ ho)
    have htable : o.header.isSymbolTable = true ↔
        o.header.type = ElfSection.shtDynsym ∨ o.header.type = ElfSection.shtSymtab := by
      simp [SectionHeader.isSymbolTable, or_comm]
    rw [resloveDynSymbols]
    split
    next htype =>
      have hnumber : o.header.getNumberOfSymbols = o.header.numEntries := if_pos (htable.2 htype)
      exact .cons (returns_resloveSymbols (hobjects o List.mem_cons_self)
        (fun i hi => hnumber ▸ hi) m) ih
    next htype =>
      have hnumber : o.header.getNumberOfSymbols = 0 := if_neg fun h => htype (htable.1 h)
      refine (ih m).imp fun _ htail => List.forall_mem_cons.2 ⟨?_, htail⟩
      rw [hnumber]
      exact fun i hi => absurd hi (mem_indexRange_zero i)

/-- To relocate a word, its entry is parsed. -/
theorem returns_relocateOne (hsection : elf.IsSection object) {i : ℕ}
    (hi : i ∈ indexRange object.header.numEntries) (m : Module) :
    IfReturns elf.SoundState (elf.relocateOne object m i) fun _ =>
      ∃ relocation, elf.IsRelocationView object i relocation := by
  obtain ⟨-, -, htoNat⟩ := mem_indexRange hi
  refine (returns_liftFile (denotes_getElfRelocation hsection _)).bind fun r hr => ?_
  have hr : elf.relocation direct object i = .ok r := by
    rw [← relocation_of_getElfRelocation hr, htoNat]
  have hview : ∃ relocation, elf.IsRelocationView object i relocation := ⟨_, r, hr, rfl⟩
  refine (returns_liftFile (denotes_relocationSymbol hsection hr)).bind fun sym _ => ?_
  split
  next =>
    exact (returns_liftFile (denotes_symbolName sym)).bind fun _ _ =>
      (returns_liftEmu _).const hview
  next => exact (returns_liftEmu _).const hview

/-- Every relocation of a section. -/
theorem returns_relocateDynSymbol (hsection : elf.IsSection object)
    (his : ∀ i ∈ is, i ∈ indexRange object.header.numEntries) (m : Module) :
    IfReturns elf.SoundState (elf.relocateDynSymbol object m is) fun _ =>
      ∀ i ∈ is, ∃ relocation, elf.IsRelocationView object i relocation := by
  induction is with
  | nil => exact .pure (by simp)
  | cons i is ih =>
    exact .cons (returns_relocateOne hsection (his i List.mem_cons_self) m) fun _ =>
      ih fun i hi => his i (List.mem_cons_of_mem _ hi)

/-- Every relocation of every table. -/
theorem returns_relocateDynSymbols (hobjects : ∀ o ∈ objects, elf.IsSection o) (m : Module) :
    IfReturns elf.SoundState (elf.relocateDynSymbols m objects) fun _ =>
      ∀ o ∈ objects, ∀ i ∈ indexRange o.header.getNumberOfRelocations,
        ∃ relocation, elf.IsRelocationView o i relocation := by
  induction objects with
  | nil => exact .pure (by simp)
  | cons o objects ih =>
    have ih := ih fun o ho => hobjects o (List.mem_cons_of_mem _ ho)
    have htable : o.header.isRelocationTable = true ↔
        o.header.type = ElfSection.shtRel ∨ o.header.type = ElfSection.shtRela := by
      simp [SectionHeader.isRelocationTable, or_comm]
    rw [relocateDynSymbols]
    split
    next htype =>
      have hnumber : o.header.getNumberOfRelocations = o.header.numEntries :=
        if_pos (htable.2 htype)
      exact .cons (returns_relocateDynSymbol (hobjects o List.mem_cons_self)
        (fun i hi => hnumber ▸ hi) m) fun _ => ih
    next htype =>
      have hnumber : o.header.getNumberOfRelocations = 0 := if_neg fun h => htype (htable.1 h)
      refine ih.imp fun _ htail => List.forall_mem_cons.2 ⟨?_, htail⟩
      rw [hnumber]
      exact fun i hi => absurd hi (mem_indexRange_zero i)

/-- Symbols that can be parsed one by one. -/
theorem exists_viewSymbols (h : ∀ i ∈ is, ∃ symbol, elf.IsSymbolView object i symbol) :
    ∃ symbols, elf.viewSymbols object is = .ok symbols := by
  induction is with
  | nil => exact ⟨[], rfl⟩
  | cons i is ih =>
    obtain ⟨⟨symbol, sym, name, hsym, hname, rfl⟩, htail⟩ := List.forall_mem_cons.1 h
    obtain ⟨symbols, hsymbols⟩ := ih htail
    exact ⟨_, except_bind_eq_ok_iff.2 ⟨sym, hsym, except_bind_eq_ok_iff.2
      ⟨name, hname, except_bind_eq_ok_iff.2 ⟨symbols, hsymbols, rfl⟩⟩⟩⟩

/-- Relocations that can be parsed one by one. -/
theorem exists_viewRelocations
    (h : ∀ i ∈ is, ∃ relocation, elf.IsRelocationView object i relocation) :
    ∃ relocations, elf.viewRelocations object is = .ok relocations := by
  induction is with
  | nil => exact ⟨[], rfl⟩
  | cons i is ih =>
    obtain ⟨⟨relocation, r, hr, rfl⟩, htail⟩ := List.forall_mem_cons.1 h
    obtain ⟨relocations, hrelocations⟩ := ih htail
    exact ⟨_, except_bind_eq_ok_iff.2 ⟨r, hr, except_bind_eq_ok_iff.2
      ⟨relocations, hrelocations, rfl⟩⟩⟩

/-- Sections whose symbols and relocations can be parsed. -/
theorem exists_viewSections (h : elf.sections direct is = .ok objects)
    (hsymbols : ∀ o ∈ objects, ∀ i ∈ indexRange o.header.getNumberOfSymbols,
      ∃ symbol, elf.IsSymbolView o i symbol)
    (hrelocations : ∀ o ∈ objects, ∀ i ∈ indexRange o.header.getNumberOfRelocations,
      ∃ relocation, elf.IsRelocationView o i relocation) :
    ∃ sections, elf.viewSections is = .ok sections := by
  induction is generalizing objects with
  | nil => exact ⟨[], rfl⟩
  | cons i is ih =>
    obtain ⟨object, hobject, hrest⟩ := except_bind_eq_ok_iff.1 h
    obtain ⟨rest, hsections, hpure⟩ := except_bind_eq_ok_iff.1 hrest
    cases hpure
    obtain ⟨hsymbol, hsymbols⟩ := List.forall_mem_cons.1 hsymbols
    obtain ⟨hrelocation, hrelocations⟩ := List.forall_mem_cons.1 hrelocations
    obtain ⟨symbols, hsymbol⟩ := exists_viewSymbols hsymbol
    obtain ⟨relocations, hrelocation⟩ := exists_viewRelocations hrelocation
    obtain ⟨sections, hview⟩ := ih hsections hsymbols hrelocations
    have hsection : ∃ section_, elf.viewSection object = .ok section_ :=
      ⟨_, except_bind_eq_ok_iff.2 ⟨symbols, hsymbol, except_bind_eq_ok_iff.2
        ⟨relocations, hrelocation, rfl⟩⟩⟩
    obtain ⟨section_, hsection⟩ := hsection
    exact ⟨_, except_bind_eq_ok_iff.2 ⟨object, hobject, except_bind_eq_ok_iff.2
      ⟨section_, hsection, except_bind_eq_ok_iff.2 ⟨sections, hview, rfl⟩⟩⟩⟩

theorem isSection_of_sections (h : elf.sections direct is = .ok objects) :
    ∀ o ∈ objects, elf.IsSection o := by
  induction is generalizing objects with
  | nil =>
    cases h
    simp
  | cons i is ih =>
    obtain ⟨object, hobject, hrest⟩ := except_bind_eq_ok_iff.1 h
    obtain ⟨rest, hsections, hpure⟩ := except_bind_eq_ok_iff.1 hrest
    cases hpure
    exact List.forall_mem_cons.2 ⟨isSection_of_eq_ok hobject, ih hsections⟩

/-- A load that gives a module has parsed everything that is in the view. -/
theorem returns_loadElfModule :
    IfReturns elf.SoundState elf.loadElfModule fun m =>
      m.isSome = true → ∃ view, elf.view = .ok view := by
  rw [loadElfModule]
  split
  next => exact .pure (by rintro ⟨⟩)
  next =>
    refine returns_writeSegmentsToMemory.bind fun bounds hsegments => ?_
    refine (returns_liftFile (denotes_initArrays bounds.1)).bind fun _ _ => ?_
    refine (returns_liftFile (denotes_sections _)).bind fun objects hobjects => ?_
    have hsections := isSection_of_sections hobjects
    refine (returns_resloveDynSymbols hsections _).bind fun m hsymbols => ?_
    refine (returns_liftFile (denotes_sections _)).bind fun objects' hobjects' => ?_
    obtain rfl : objects' = objects := Except.ok.inj (hobjects'.symm.trans hobjects)
    refine (returns_relocateDynSymbols hsections m).bind fun _ hrelocations => .pure fun _ => ?_
    obtain ⟨segments, hsegments⟩ := hsegments
    obtain ⟨sections, hview⟩ := exists_viewSections hobjects hsymbols hrelocations
    exact ⟨_, except_bind_eq_ok_iff.2 ⟨segments, hsegments, except_bind_eq_ok_iff.2
      ⟨sections, hview, rfl⟩⟩⟩

end LazyElf

theorem loadOpened_eq_ok {elf : LazyElf} {pos : ℕ} {emu emu' : Emulator} {m : Module}
    (h : (loadOpened elf pos).run emu = .ok (some m) emu') : ∃ view, elf.view = .ok view := by
  simp only [EStateM.run, loadOpened] at h
  split at h
  next m' s hrun =>
    cases h
    exact (LazyElf.returns_loadElfModule _ (Memo.sound_fresh pos) _ s hrun).2 rfl
  next => cases h

/-- A load from the bytes of a file gives a module exactly if the whole file can be parsed and the
load of the parsed file gives it; the emulator is then the same, too. -/
theorem loadModuleFrom_eq_ok_iff {buffer : ByteBuffer} {decode : List UInt8 → String}
    {emu emu' : Emulator} {m : Module} :
    (loadModuleFrom buffer decode).run emu = .ok (some m) emu' ↔
      ∃ view, parseElf buffer decode = .ok view ∧
        (loadModule view).run emu = .ok (some m) emu' := by
  constructor
  · intro h
    have hparse : ∃ view, parseElf buffer decode = .ok view := by
      obtain ⟨result, emu₁, hload, hrest⟩ := bind_eq_ok h
      obtain rfl : result = some m := by
        cases hrest
        rfl
      rw [loadElfModuleFrom] at hload
      split at hload
      next => cases hload
      next header pos hread =>
        obtain ⟨view, hview⟩ := loadOpened_eq_ok hload
        exact ⟨view, except_bind_eq_ok_iff.2 ⟨header, outcome_eq_ok_iff.2 ⟨pos, hread⟩, hview⟩⟩
    obtain ⟨view, hview⟩ := hparse
    rw [loadModuleFrom, loadElfModuleFrom_eq_view hview] at h
    exact ⟨view, hview, h⟩
  · rintro ⟨view, hview, h⟩
    rw [loadModuleFrom, loadElfModuleFrom_eq_view hview]
    exact h

end Tank
