import Tank.Jelf.Loading
import Tank.ToMathlib.TwoRuns
import Tank.ToMathlib.Unicode

/-!
# Loading on demand is loading the parsed file

If all of a file can be parsed, `loadModule` of its bytes does what the loader of `Modules` does
with the parsed view: the same module or the same exception, and the same emulator afterwards.

The two loaders run side by side: their emulators stay equal, and what the first one has memoised is
what the file has (`Sim`). A value that is asked for on demand is replaced by its value in the file
(`sameEnd_liftFile_bind`), which the view has at the place where the second loader looks. The data
of a segment is there only once, so the load segments must have different numbers.

## Main results

* `sameEnd_writeSegments`, `sameEnd_resloveDynSymbols`, `alike_relocateDynSymbols`: the three
  stages.
* `loadModuleFrom_eq_view`: the whole load.
-/

namespace Tank

open ToMathlib MemoryManager

/-- The two emulators are equal, and what is memoised is what the file has; `P` says what else is
known about the data that was taken and about the emulator. -/
structure Sim (elf : LazyElf) (P : (ℕ → ℕ) → Emulator → Prop) (s : LoadState) (emu : Emulator) :
    Prop where
  emu_eq : s.emu = emu
  sound : Memo.Sound elf.contents s.file
  known : P s.taken emu

/-! ## Code of the engine and of the file -/

section Lifting

variable {elf : LazyElf} {α β γ : Type} {P : (ℕ → ℕ) → Emulator → Prop}

theorem liftMem_bind (m : MemM α) (f : α → MemM β) :
    liftMem (m >>= f) = liftMem m >>= fun a => liftMem (f a) := by
  simp only [liftMem_eq_zoom]
  rw [zoom_bind]
  all_goals
    intros
    rfl

/-- Code of the engine that runs in the emulator, step by step. -/
theorem liftMem_liftUc_bind (m : UcM α) (f : α → UcM β) :
    liftMem (liftUc (m >>= f)) = liftMem (liftUc m) >>= fun a => liftMem (liftUc (f a)) := by
  rw [← liftMem_bind]
  simp only [liftUc_eq_zoom]
  rw [zoom_bind]
  all_goals
    intros
    rfl

theorem liftMem_liftUc_getOrThrow (x : Except JavaException α) :
    liftMem (liftUc (getOrThrow x)) = getOrThrow x := by
  rw [liftMem_eq_zoom, liftUc_eq_zoom, zoom_getOrThrow, zoom_getOrThrow]
  all_goals
    intros
    rfl

theorem alike_liftEmu (T : (ℕ → ℕ) → Prop) (m : EmuM α) :
    Alike (Sim elf fun taken _ => T taken) Eq (LoadM.liftEmu m) m := by
  rintro s _ ⟨rfl, hsound, hT⟩
  cases hrun : m.run s.emu with
  | ok a emu =>
    rw [LoadM.liftEmu, zoom_of_ok hrun]
    exact .ok rfl ⟨rfl, hsound, hT⟩
  | error err emu =>
    rw [LoadM.liftEmu, zoom_of_error hrun]
    exact .error ⟨rfl, hsound, hT⟩

/-- Code of the file ends as it does in every other state. -/
theorem alike_liftFile {m : FileM α} {r : Except JavaException α} (h : elf.Denotes m r) :
    Alike (Sim elf P) Eq (LoadM.liftFile m) (getOrThrow r) := by
  rintro s _ ⟨rfl, hs, hP⟩
  obtain ⟨hout, hsound⟩ := h s.file hs
  cases hrun : m.run s.file with
  | ok a file =>
    rw [hrun] at hout hsound
    rw [LoadM.liftFile, zoom_of_ok hrun, ← hout]
    exact .ok rfl ⟨rfl, hsound, hP⟩
  | error err file =>
    rw [hrun] at hout hsound
    rw [LoadM.liftFile, zoom_of_error hrun, ← hout]
    exact .error ⟨rfl, hsound, hP⟩

/-- A value of the file that is there is replaced by what it is. -/
theorem sameEnd_liftFile_bind {V : LoadState → Emulator → Prop} {R : β → γ → Prop} {m : FileM α}
    {a : α} (h : elf.Denotes m (.ok a)) {f : α → LoadM β} {s : LoadState} {emu : Emulator}
    (hs : Sim elf P s emu) {r : EStateM.Result JavaException Emulator γ}
    (hrest : ∀ s, Sim elf P s emu → SameEnd V R ((f a).run s) r) :
    SameEnd V R ((LoadM.liftFile m >>= f).run s) r := by
  have hend := alike_liftFile h s emu hs
  generalize hrun : (LoadM.liftFile m).run s = r' at hend
  generalize hget : (getOrThrow (.ok a) : EmuM α).run emu = r'' at hend
  cases hend with
  | ok hresult hstate =>
    cases hget
    cases hresult
    rw [bind_of_ok hrun]
    exact hrest _ hstate
  | error hstate => cases hget

theorem sameEnd_liftFile_bind_error {V : LoadState → Emulator → Prop} {R : β → γ → Prop}
    {m : FileM α} {err : JavaException} (h : elf.Denotes m (.error err)) {f : α → LoadM β}
    {s : LoadState} {emu : Emulator} (hs : Sim elf P s emu)
    (hrest : ∀ s, Sim elf P s emu → V s emu) :
    SameEnd V R ((LoadM.liftFile m >>= f).run s) (.error err emu) := by
  have hend := alike_liftFile h s emu hs
  generalize hrun : (LoadM.liftFile m).run s = r' at hend
  generalize hget : (getOrThrow (.error err) : EmuM α).run emu = r'' at hend
  cases hend with
  | ok hresult hstate => cases hget
  | error hstate =>
    cases hget
    rw [bind_of_error hrun]
    exact .error (hrest _ hstate)

theorem getOrThrow_bind {σ : Type} (x : Except JavaException α) (f : α → Except JavaException β) :
    (getOrThrow (x >>= f) : EStateM JavaException σ β) =
      getOrThrow x >>= fun a => getOrThrow (f a) := by
  cases x <;> rfl

end Lifting

/-! ## Segments -/

namespace LazyElf

variable {elf : LazyElf} {view : ElfFile} {object : SectionObject} {objects : List SectionObject}
  {section_ : ElfSection} {is : List ℕ} {s : LoadState} {emu : Emulator}

/-- The load segments of the view are those of the file, each with its own number. -/
theorem loadSegments_of_view {segments : List ElfSegment} (h : elf.viewSegments is = .ok segments) :
    ∃ objects, elf.loadSegments direct is = .ok objects ∧
      objects.map (·.header.toSegment) = segments.filter (·.type == ElfSegment.ptLoad) ∧
      (∀ o ∈ objects, elf.IsSegment o ∧ o.header.type = ElfSegment.ptLoad) ∧
      (objects.map (·.ndx)).Sublist is := by
  induction is generalizing segments with
  | nil =>
    cases h
    exact ⟨[], rfl, rfl, by simp, List.Sublist.refl _⟩
  | cons i is ih =>
    obtain ⟨object, hobject, hrest⟩ := except_bind_eq_ok_iff.1 h
    obtain ⟨rest, hview, hpure⟩ := except_bind_eq_ok_iff.1 hrest
    cases hpure
    obtain ⟨objects, hobjects, hmap, hmem, hsub⟩ := ih hview
    have hload : elf.loadSegments direct (i :: is) =
        .ok (if object.header.type = ElfSegment.ptLoad then object :: objects else objects) := by
      rw [loadSegments, hobject]
      change (elf.loadSegments direct is >>= _) = _
      rw [hobjects]
      rfl
    have htype : object.header.toSegment.type = object.header.type := rfl
    refine ⟨_, hload, ?_⟩
    by_cases hpt : object.header.type = ElfSegment.ptLoad
    · rw [if_pos hpt, List.filter_cons_of_pos (by simpa [htype] using hpt), List.map_cons, hmap]
      refine ⟨rfl, ?_, ?_⟩
      · intro o ho
        obtain rfl | ho := List.mem_cons.1 ho
        · exact ⟨isSegment_of_eq_ok hobject, hpt⟩
        · exact hmem o ho
      · rw [List.map_cons, ndx_of_programHeader hobject]
        exact hsub.cons_cons i
    · rw [if_neg hpt, List.filter_cons_of_neg (by simpa [htype] using hpt)]
      exact ⟨hmap, hmem, hsub.cons i⟩

/-- The buffer of `ptLoad` and the bytes that are taken from it: either the buffer cannot be made,
or the length is negative, or all of the buffer is taken. -/
theorem readPtLoad_cases (elf : LazyElf) (h : ProgramHeader) :
    (∃ err, direct.read (elf.readPtLoad h) = .error err ∧
      h.toSegment.getData elf.buffer = .error err) ∨
    (∃ data, direct.read (elf.readPtLoad h) = .ok data ∧ h.fileSize.toInt32 < 0 ∧
      h.toSegment.getData elf.buffer = .error .negativeArraySize) ∨
    ∃ data, direct.read (elf.readPtLoad h) = .ok data ∧ ¬h.fileSize.toInt32 < 0 ∧
      data.length = h.fileSize.toInt32.toInt.toNat ∧
      h.toSegment.getData elf.buffer = .ok data := by
  have hneg (x : Int32) : x < 0 ↔ x.toInt < 0 := Int32.lt_iff_toInt_lt
  have hlen := elf.buffer.length_lt
  set offset := h.offset.toInt32 with hoffset
  set size := h.fileSize.toInt32 with hsize
  have hdata : h.toSegment.getData elf.buffer =
      if offset < 0 ∨ (elf.buffer.bytes.length : ℤ) < offset.toInt then .error .illegalArgument
      else if offset + size < 0 ∨ (elf.buffer.bytes.length : ℤ) < (offset + size).toInt then
        .error .illegalArgument
      else if size < 0 then .error .negativeArraySize
      else .ok ((elf.buffer.bytes.drop offset.toInt.toNat).take size.toInt.toNat) := rfl
  rw [hdata]
  by_cases hseek : offset.toInt < 0 ∨ (elf.buffer.bytes.length : ℤ) < offset.toInt
  · have hrun : (elf.parser.seek h.offset).run 0 = .error .illegalArgument 0 := if_pos hseek
    refine .inl ⟨.illegalArgument, ?_, if_pos (by rwa [hneg])⟩
    change outcome ((elf.parser.seek h.offset >>= _).run 0) = _
    rw [bind_of_error hrun]
    rfl
  have hrun : (elf.parser.seek h.offset).run 0 = .ok () offset.toInt.toNat := if_neg hseek
  have hread : direct.read (elf.readPtLoad h) =
      outcome ((elf.parser.readBuffer size).run offset.toInt.toNat) := by
    change outcome ((elf.parser.seek h.offset >>= _).run 0) = _
    rw [bind_of_ok hrun]
  have hpos : Int32.ofNat offset.toInt.toNat = offset := by
    apply Int32.toInt_inj.1
    rw [Int32.toInt_ofNat_of_lt (by omega)]
    omega
  rw [if_neg (by rwa [hneg]), hread]
  by_cases hlimit : (offset + size).toInt < 0 ∨
      (elf.buffer.bytes.length : ℤ) < (offset + size).toInt
  · have hbuffer : (elf.parser.readBuffer size).run offset.toInt.toNat =
        .error .illegalArgument offset.toInt.toNat := by
      rw [EStateM.run, ElfParser.readBuffer, hpos]
      exact if_pos hlimit
    rw [hbuffer]
    exact .inl ⟨.illegalArgument, rfl, if_pos (by rwa [hneg])⟩
  have hbuffer : outcome ((elf.parser.readBuffer size).run offset.toInt.toNat) =
      .ok ((elf.buffer.bytes.drop offset.toInt.toNat).take
        ((offset + size).toInt - offset.toInt.toNat).toNat) := by
    rw [EStateM.run, ElfParser.readBuffer, hpos]
    exact congrArg outcome (if_neg hlimit)
  rw [hbuffer, if_neg (by rwa [hneg])]
  right
  by_cases hsign : size < 0
  · exact .inl ⟨_, rfl, hsign, if_pos hsign⟩
  -- A sum of two numbers that are not negative is right unless it is negative.
  have hsum : (offset + size).toInt = offset.toInt + size.toInt := by
    rw [hneg] at hsign
    have hlt := size.toInt_lt
    rw [Int32.toInt_add] at hlimit ⊢
    rw [Int.bmod_def] at hlimit ⊢
    omega
  rw [hneg] at hsign
  have hcut : ((offset + size).toInt - (offset.toInt.toNat : ℤ)).toNat = size.toInt.toNat := by
    omega
  refine .inr ⟨_, rfl, by rwa [hneg], ?_, ?_⟩
  · rw [hcut, List.length_take, List.length_drop]
    omega
  · rw [if_neg (by rwa [hneg]), hcut]

/-- The data of a segment that was not taken yet. -/
theorem run_getData {o : SegmentObject} {data : List UInt8} (htaken : s.taken o.ndx = 0)
    (hsign : ¬o.header.fileSize.toInt32 < 0)
    (hlen : data.length = o.header.fileSize.toInt32.toInt.toNat) :
    (LoadM.getData o data).run s =
      .ok data { s with taken := Function.update s.taken o.ndx data.length } := by
  simp only [EStateM.run, LoadM.getData, if_neg hsign, htaken, Nat.zero_add, ← hlen]
  rw [if_neg (Nat.lt_irrefl _), List.drop_zero, List.take_length]

/-- Nothing was taken yet from the segments. -/
def Untaken (objects : List SegmentObject) (taken : ℕ → ℕ) : Prop :=
  ∀ o ∈ objects, taken o.ndx = 0

/-- The stage that maps and writes the segments. -/
theorem sameEnd_writeSegments {objects : List SegmentObject}
    (hobjects : ∀ o ∈ objects, elf.IsSegment o ∧ o.header.type = ElfSegment.ptLoad)
    (hnodup : (objects.map (·.ndx)).Nodup) (loadBase : Int64)
    (hs : Sim elf (fun taken _ => Untaken objects taken) s emu) :
    SameEnd (Sim elf fun _ _ => True) Eq ((elf.writeSegments loadBase objects).run s)
      ((liftMem (liftUc (Tank.writeSegments elf.buffer loadBase
        (objects.map (·.header.toSegment))))).run emu) := by
  induction objects generalizing s emu with
  | nil => exact .ok rfl ⟨hs.emu_eq, hs.sound, trivial⟩
  | cons o objects ih =>
    obtain ⟨hsegment, hpt⟩ := hobjects o List.mem_cons_self
    have hweaken (s emu) (h : Sim elf (fun taken _ => Untaken (o :: objects) taken) s emu) :
        Sim elf (fun _ _ => True) s emu := ⟨h.emu_eq, h.sound, trivial⟩
    have htail (o') (ho' : o' ∈ objects) := hobjects o' (List.mem_cons_of_mem _ ho')
    obtain ⟨hfresh, hnodup⟩ := List.nodup_cons.1 hnodup
    rw [List.map_cons, Tank.writeSegments, writeSegments]
    split
    next =>
      exact ih htail hnodup
        ⟨hs.emu_eq, hs.sound, fun o ho => hs.known o (List.mem_cons_of_mem _ ho)⟩
    next =>
      rw [writeSegment, bind_assoc, liftMem_liftUc_bind]
      refine (alike_liftEmu _ _ s emu hs).bind_of_imp hweaken fun _ _ s emu _ hs => ?_
      simp only [bind_assoc, liftMem_liftUc_bind, liftMem_liftUc_getOrThrow]
      have hdenotes := denotes_getPtLoadData hsegment
      have hdirect : elf.getPtLoadData direct o =
          direct.read (elf.readPtLoad o.header) >>= fun data => pure (some data) := if_pos hpt
      rw [hdirect] at hdenotes
      obtain ⟨err, hread, hdata⟩ | ⟨data, hread, hsign, hdata⟩ |
        ⟨data, hread, hsign, hlen, hdata⟩ := readPtLoad_cases elf o.header
      · rw [hdata]
        rw [hread] at hdenotes
        exact sameEnd_liftFile_bind_error hdenotes hs (hweaken · emu)
      · rw [hdata]
        rw [hread] at hdenotes
        refine sameEnd_liftFile_bind hdenotes hs fun s hs => ?_
        have hrun : (LoadM.getData o data).run s = .error .negativeArraySize s := if_pos hsign
        change SameEnd _ _ ((LoadM.getData o data >>= _).run s) _
        rw [bind_of_error hrun]
        exact .error (hweaken s emu hs)
      · rw [hdata]
        rw [hread] at hdenotes
        refine sameEnd_liftFile_bind hdenotes hs fun s hs => ?_
        change SameEnd _ _ ((LoadM.getData o data >>= _).run s) _
        rw [bind_of_ok (run_getData (hs.known o List.mem_cons_self) hsign hlen)]
        -- The other segments have other numbers.
        have hs' : Sim elf (fun taken _ => Untaken objects taken)
            { s with taken := Function.update s.taken o.ndx data.length } emu := by
          refine ⟨hs.emu_eq, hs.sound, fun o' ho' => ?_⟩
          have hne : o'.ndx ≠ o.ndx := fun heq => hfresh (List.mem_map.2 ⟨o', ho', heq⟩)
          change Function.update s.taken o.ndx data.length o'.ndx = 0
          rw [Function.update_of_ne hne]
          exact hs.known o' (List.mem_cons_of_mem _ ho')
        refine (alike_liftEmu _ _ _ emu hs').bind_of_imp ?_ fun _ _ s emu _ hs => ih htail hnodup hs
        exact fun s emu h => ⟨h.emu_eq, h.sound, trivial⟩

/-! ## The arrays of constructors -/

theorem denotes_initArrays (loadBase : Int64) :
    elf.Denotes (elf.initArrays memoised loadBase) (elf.initArrays direct loadBase) := by
  refine .bind (denotes_findSegment _ _) fun segment hsegment => ?_
  cases segment with
  | none => exact .pure _
  | some segment =>
    have hsegment := isSegment_of_findSegment hsegment
    refine .bind (denotes_getDynamicStructure hsegment) fun structure_ hstructure => ?_
    cases structure_ with
    | none => exact .throw _
    | some structure_ =>
      have hdynamic := isDynamic_of_getDynamicStructure hsegment hstructure
      exact .bind (denotes_getInitArray hdynamic) fun _ _ =>
        .bind (denotes_getPreInitArray hdynamic) fun _ _ => .pure _

/-- The view has the arrays that are read on demand. -/
theorem initArrays_eq (view : ElfFile) (hview : view.dynamicStructure = elf.viewDynamic)
    (loadBase : Int64) : elf.initArrays direct loadBase = resloveInitArray view loadBase := by
  rw [resloveInitArray, hview, viewDynamic, initArrays]
  cases elf.getDynamicSegment direct with
  | error err => rfl
  | ok segment =>
    cases segment with
    | none => rfl
    | some segment =>
      change (elf.getDynamicStructure direct segment >>= _) =
        ((elf.getDynamicStructure direct segment >>= _) >>= _)
      cases elf.getDynamicStructure direct segment with
      | error err => rfl
      | ok structure_ =>
        cases structure_ with
        | none => rfl
        | some structure_ => rfl

/-! ## Sections and symbols -/

/-- A parsed section next to the section of the file that it comes from. -/
def IsView (elf : LazyElf) (object : SectionObject) (section_ : ElfSection) : Prop :=
  elf.IsSection object ∧ elf.viewSection object = .ok section_

theorem sections_of_view {sections : List ElfSection} (h : elf.viewSections is = .ok sections) :
    ∃ objects, elf.sections direct is = .ok objects ∧
      List.Forall₂ elf.IsView objects sections ∧ objects.map (·.ndx) = is := by
  induction is generalizing sections with
  | nil =>
    cases h
    exact ⟨[], rfl, .nil, rfl⟩
  | cons i is ih =>
    obtain ⟨object, hobject, hrest⟩ := except_bind_eq_ok_iff.1 h
    obtain ⟨section_, hsection, hrest⟩ := except_bind_eq_ok_iff.1 hrest
    obtain ⟨rest, hview, hpure⟩ := except_bind_eq_ok_iff.1 hrest
    cases hpure
    obtain ⟨objects, hobjects, hforall, hndx⟩ := ih hview
    refine ⟨object :: objects, ?_, .cons ⟨isSection_of_eq_ok hobject, hsection⟩ hforall, ?_⟩
    · rw [LazyElf.sections, hobject]
      change (elf.sections direct is >>= _) = _
      rw [hobjects]
      rfl
    · rw [List.map_cons, hndx, ndx_of_sectionHeader hobject]

theorem mem_indexRange {i : ℕ} {n : Int32} (h : i ∈ indexRange n) :
    0 ≤ Int32.ofNat i ∧ Int32.ofNat i < n ∧ (Int32.ofNat i).toInt.toNat = i := by
  have hlt := n.toInt_lt
  have hi : i < n.toInt.toNat := List.mem_range.1 h
  have htoInt : (Int32.ofNat i).toInt = i := Int32.toInt_ofNat_of_lt (by omega)
  rw [Int32.le_iff_toInt_le, Int32.lt_iff_toInt_lt, htoInt]
  exact ⟨Int.natCast_nonneg i, by omega, Int.toNat_natCast i⟩

/-- A parsed symbol next to the number of the symbol of the file that it comes from. -/
def IsSymbolView (elf : LazyElf) (object : SectionObject) (i : ℕ) (symbol : ElfSymbol) : Prop :=
  ∃ sym name, elf.symbol direct object i = .ok sym ∧ elf.symbolName direct sym = .ok name ∧
    symbol = toElfSymbol sym name

theorem symbols_of_view {symbols : List ElfSymbol} (h : elf.viewSymbols object is = .ok symbols) :
    List.Forall₂ (elf.IsSymbolView object) is symbols := by
  induction is generalizing symbols with
  | nil =>
    cases h
    exact .nil
  | cons i is ih =>
    obtain ⟨sym, hsym, hrest⟩ := except_bind_eq_ok_iff.1 h
    obtain ⟨name, hname, hrest⟩ := except_bind_eq_ok_iff.1 hrest
    obtain ⟨rest, hview, hpure⟩ := except_bind_eq_ok_iff.1 hrest
    cases hpure
    exact .cons ⟨sym, name, hsym, hname, rfl⟩ (ih hview)

/-- A parsed relocation next to the number of the one of the file that it comes from. -/
def IsRelocationView (elf : LazyElf) (object : SectionObject) (i : ℕ) (relocation : ElfRelocation) :
    Prop :=
  ∃ r, elf.relocation direct object i = .ok r ∧ relocation = r.relocation

theorem relocations_of_view {relocations : List ElfRelocation}
    (h : elf.viewRelocations object is = .ok relocations) :
    List.Forall₂ (elf.IsRelocationView object) is relocations := by
  induction is generalizing relocations with
  | nil =>
    cases h
    exact .nil
  | cons i is ih =>
    obtain ⟨r, hr, hrest⟩ := except_bind_eq_ok_iff.1 h
    obtain ⟨rest, hview, hpure⟩ := except_bind_eq_ok_iff.1 hrest
    cases hpure
    exact .cons ⟨r, hr, rfl⟩ (ih hview)

/-- What is in a parsed section. -/
structure SectionView (elf : LazyElf) (object : SectionObject) (section_ : ElfSection) : Prop where
  isSection : elf.IsSection object
  type_eq : section_.type = object.header.type
  link_eq : section_.link = object.header.link
  symbols_eq : ∃ symbols, section_.symbols = (if object.header.isSymbolTable then some symbols
    else none) ∧
      List.Forall₂ (elf.IsSymbolView object) (indexRange object.header.getNumberOfSymbols) symbols
  relocations : List.Forall₂ (elf.IsRelocationView object)
    (indexRange object.header.getNumberOfRelocations) section_.relocations

theorem IsView.sectionView (h : elf.IsView object section_) : elf.SectionView object section_ := by
  obtain ⟨hsection, hview⟩ := h
  obtain ⟨symbols, hsymbols, hrest⟩ := except_bind_eq_ok_iff.1 hview
  obtain ⟨relocations, hrelocations, hpure⟩ := except_bind_eq_ok_iff.1 hrest
  cases hpure
  exact ⟨hsection, rfl, rfl, ⟨symbols, rfl, symbols_of_view hsymbols⟩,
    relocations_of_view hrelocations⟩

/-- The loop of the second loader, symbol by symbol. -/
theorem resloveSymbols_cons (emu : Emulator) (symbol : ElfSymbol) (symbols : List ElfSymbol)
    (m : Module) :
    Tank.resloveSymbols emu (symbol :: symbols) m =
      Tank.resloveSymbols emu [symbol] m >>= Tank.resloveSymbols emu symbols := by
  simp only [Tank.resloveSymbols]
  cases getSymValue emu m.loadBase symbol with
  | error err => rfl
  | ok symbolAddress =>
    dsimp only
    split <;> rfl

/-- One symbol. -/
theorem sameEnd_resloveSymbol (hsection : elf.IsSection object)
    (htable : object.header.isSymbolTable = true) {i : ℕ}
    (hi : i ∈ indexRange object.header.numEntries) {symbol : ElfSymbol}
    (hsymbol : elf.IsSymbolView object i symbol) (m : Module)
    (hs : Sim elf (fun _ emu' => emu' = emu) s emu) :
    SameEnd (Sim elf fun _ emu' => emu' = emu) Eq ((elf.resloveSymbol object i m).run s)
      ((getOrThrow (Tank.resloveSymbols emu [symbol] m)).run emu) := by
  obtain ⟨sym, name, hsym, hname, rfl⟩ := hsymbol
  obtain ⟨hnonneg, hlt, htoNat⟩ := mem_indexRange hi
  have hget : elf.getElfSymbol direct object (Int32.ofNat i) = .ok sym := by
    rw [getElfSymbol, if_neg (not_not_intro htable), if_pos ⟨hnonneg, hlt⟩, htoNat, hsym]
  have hsymDenotes := denotes_getElfSymbol hsection (Int32.ofNat i)
  have hnameDenotes := @denotes_symbolName elf sym
  rw [hget] at hsymDenotes
  rw [hname] at hnameDenotes
  rw [resloveSymbol, Tank.resloveSymbols]
  refine sameEnd_liftFile_bind hsymDenotes hs fun s hs => ?_
  refine sameEnd_liftFile_bind hnameDenotes hs fun s hs => ?_
  rw [get_bind, hs.emu_eq]
  cases getSymValue emu m.loadBase (toElfSymbol sym name) with
  | error err => exact .error hs
  | ok symbolAddress =>
    change SameEnd _ _ ((if symbolAddress ≠ symbolUndef then _ else _ : LoadM Module).run s) _
    dsimp only
    split
    next => exact sameEnd_liftFile_bind hnameDenotes hs fun s hs => .ok rfl hs
    next => exact .ok rfl hs

/-- The loop over the symbols of a section. -/
theorem sameEnd_resloveSymbols (hsection : elf.IsSection object)
    (htable : object.header.isSymbolTable = true)
    (his : ∀ i ∈ is, i ∈ indexRange object.header.numEntries) {symbols : List ElfSymbol}
    (hsymbols : List.Forall₂ (elf.IsSymbolView object) is symbols) (m : Module)
    (hs : Sim elf (fun _ emu' => emu' = emu) s emu) :
    SameEnd (Sim elf fun _ emu' => emu' = emu) Eq ((elf.resloveSymbols object is m).run s)
      ((getOrThrow (Tank.resloveSymbols emu symbols m)).run emu) := by
  induction hsymbols generalizing m s with
  | nil => exact .ok rfl hs
  | cons hhead htail ih =>
    rw [resloveSymbols_cons, getOrThrow_bind, resloveSymbols]
    have hone := sameEnd_resloveSymbol hsection htable (his _ List.mem_cons_self) hhead m hs
    refine hone.bind_of_imp (fun _ _ h => h) ?_
    rintro m _ s emu' rfl hs
    obtain rfl := hs.known
    exact ih (fun i hi => his i (List.mem_cons_of_mem _ hi)) m hs

/-- The loop over the sections. -/
theorem sameEnd_resloveDynSymbols {sections : List ElfSection}
    (h : List.Forall₂ elf.SectionView objects sections) (m : Module)
    (hs : Sim elf (fun _ emu' => emu' = emu) s emu) :
    SameEnd (Sim elf fun _ emu' => emu' = emu) Eq ((elf.resloveDynSymbols objects m).run s)
      ((getOrThrow (Tank.resloveDynSymbols emu sections m)).run emu) := by
  induction h generalizing m s with
  | nil => exact .ok rfl hs
  | @cons object section_ objects sections hview _ ih =>
    have hstep : Tank.resloveDynSymbols emu (section_ :: sections) m =
        if section_.type = ElfSection.shtDynsym ∨ section_.type = ElfSection.shtSymtab then
          resloveSectionSymbols emu section_ m >>= Tank.resloveDynSymbols emu sections
        else Tank.resloveDynSymbols emu sections m := by
      rw [Tank.resloveDynSymbols]
      cases resloveSectionSymbols emu section_ m <;> rfl
    rw [hstep, hview.type_eq, resloveDynSymbols]
    split
    next htype =>
      have htable : object.header.isSymbolTable = true := by
        simpa [SectionHeader.isSymbolTable, or_comm] using htype
      obtain ⟨symbols, hsymbols, hforall⟩ := hview.symbols_eq
      have hnumber : object.header.getNumberOfSymbols = object.header.numEntries := if_pos htable
      rw [if_pos htable] at hsymbols
      rw [getOrThrow_bind, resloveSectionSymbols, hsymbols, Option.getD_some]
      refine (sameEnd_resloveSymbols hview.isSection htable ?_ hforall m hs).bind_of_imp
        (fun _ _ h => h) ?_
      · exact fun i hi => hnumber ▸ hi
      · rintro m _ s emu' rfl hs
        obtain rfl := hs.known
        exact ih m hs
    next => exact ih m hs

/-! ## Relocations -/

/-- The view has a symbol where the file has one, with its name. -/
theorem getElfSymbol_cases (h : elf.SectionView object section_) (index : Int32) :
    (∃ err, elf.getElfSymbol direct object index = .error err ∧
      section_.getElfSymbol index = .error err) ∨
    ∃ sym name, elf.getElfSymbol direct object index = .ok sym ∧
      elf.symbolName direct sym = .ok name ∧
      section_.getElfSymbol index = .ok (toElfSymbol sym name) := by
  obtain ⟨symbols, hsymbols, hforall⟩ := h.symbols_eq
  rw [getElfSymbol, ElfSection.getElfSymbol, hsymbols]
  by_cases htable : object.header.isSymbolTable = true
  · have hnumber : object.header.getNumberOfSymbols = object.header.numEntries := if_pos htable
    have hneg : index < 0 ↔ index.toInt < 0 := Int32.lt_iff_toInt_lt
    have hnonneg : 0 ≤ index ↔ 0 ≤ index.toInt := Int32.le_iff_toInt_le
    have hlt : index < object.header.numEntries ↔
      index.toInt < object.header.numEntries.toInt := Int32.lt_iff_toInt_lt
    have hlen : symbols.length = object.header.numEntries.toInt.toNat := by
      rw [← hforall.length_eq, hnumber, indexRange, List.length_range]
    rw [if_neg (not_not_intro htable), if_pos htable]
    dsimp only
    by_cases hin : 0 ≤ index ∧ index < object.header.numEntries
    · have hpos : index.toInt.toNat < symbols.length := by
        rw [hnonneg, hlt] at hin
        omega
      have hpos' : index.toInt.toNat < (indexRange object.header.getNumberOfSymbols).length := by
        rwa [hforall.length_eq]
      obtain ⟨sym, name, hsym, hname, heq⟩ := hforall.get hpos' hpos
      have hindex : (indexRange object.header.getNumberOfSymbols).get ⟨_, hpos'⟩ =
          index.toInt.toNat := List.getElem_range hpos'
      rw [hindex] at hsym
      rw [if_pos hin, if_neg (by rw [hnonneg, hlt] at hin; rw [hneg]; omega),
        List.getElem?_eq_getElem hpos]
      exact .inr ⟨sym, name, hsym, hname, congrArg Except.ok heq⟩
    · refine .inl ⟨.arrayIndexOutOfBounds, if_neg hin, ?_⟩
      rw [hnonneg, hlt] at hin
      split
      next => rfl
      next hsign =>
        rw [hneg] at hsign
        rw [List.getElem?_eq_none (by omega)]
  · rw [if_pos htable, if_neg htable]
    exact .inl ⟨.nullPointer, rfl, rfl⟩

/-- The view has a section where the file has one. -/
theorem getSection_of_view (h : List.Forall₂ elf.SectionView objects view.sections)
    (hndx : objects.map (·.ndx) = indexRange elf.header.numSh.toInt32) {index : Int32}
    (hobject : elf.getSection direct index = .ok object) :
    ∃ section_, view.getSection index = .ok section_ ∧ elf.SectionView object section_ := by
  rw [getSection] at hobject
  split at hobject
  next hin =>
    have hnonneg : 0 ≤ index ↔ 0 ≤ index.toInt := Int32.le_iff_toInt_le
    have hneg : index < 0 ↔ index.toInt < 0 := Int32.lt_iff_toInt_lt
    have hlt : index < elf.header.numSh.toInt32 ↔
      index.toInt < elf.header.numSh.toInt32.toInt := Int32.lt_iff_toInt_lt
    rw [hnonneg, hlt] at hin
    have hlen : objects.length = elf.header.numSh.toInt32.toInt.toNat := by
      rw [← List.length_map, hndx, indexRange, List.length_range]
    have hpos : index.toInt.toNat < objects.length := by omega
    have hpos' : index.toInt.toNat < view.sections.length := by rwa [← h.length_eq]
    have hview := h.get hpos hpos'
    -- The section with the number is the only one with it.
    have hsame : objects.get ⟨index.toInt.toNat, hpos⟩ = object := by
      have hnumber : (objects.get ⟨index.toInt.toNat, hpos⟩).ndx = index.toInt.toNat := by
        have hget : (objects.map (·.ndx))[index.toInt.toNat]? = some index.toInt.toNat := by
          rw [hndx, indexRange, List.getElem?_range (by omega)]
        rw [List.getElem?_map, List.getElem?_eq_getElem hpos] at hget
        exact Option.some.inj hget
      have hsection := hview.isSection
      rw [IsSection, hnumber, hobject] at hsection
      exact (Except.ok.inj hsection).symm
    refine ⟨view.sections.get ⟨_, hpos'⟩, ?_, hsame ▸ hview⟩
    rw [ElfFile.getSection, if_neg (by rw [hneg]; omega), List.getElem?_eq_getElem hpos']
    rfl
  next => cases hobject

/-- A relocation that does not ask for the name of its symbol does not depend on it. -/
theorem relocate_of_not_asksName {r : ElfRelocation} {sym : SymbolObject}
    (h : asksName r sym = false) (m : Module) (name : Option String) :
    relocate m (toElfSymbol sym name) r = relocate m (toElfSymbol sym none) r := by
  have hslot : ¬(r.type = rArmJumpSlot ∨ r.type = rArmGlobDat) := by
    rintro (htype | htype) <;> simp [asksName, htype] at h
  simp only [relocate, if_neg hslot]
  rfl

/-- One relocation. -/
theorem alike_relocateOne (hviews : List.Forall₂ elf.SectionView objects view.sections)
    (hndx : objects.map (·.ndx) = indexRange elf.header.numSh.toInt32)
    (hview : elf.SectionView object section_) (htable : object.header.isRelocationTable = true)
    (m : Module) {i : ℕ} (hi : i ∈ indexRange object.header.numEntries) {relocation : ElfRelocation}
    (hrelocation : elf.IsRelocationView object i relocation) :
    Alike (Sim elf fun _ _ => True) Eq (elf.relocateOne object m i)
      (getOrThrow (Tank.relocationSymbol view section_ relocation) >>= fun symbol =>
        liftMem (liftUc (relocate m symbol relocation))) := by
  intro s emu hs
  obtain ⟨r, hr, rfl⟩ := hrelocation
  obtain ⟨hnonneg, hlt, htoNat⟩ := mem_indexRange hi
  have hget : elf.getElfRelocation direct object (Int32.ofNat i) = .ok r := by
    rw [getElfRelocation, if_neg (not_not_intro htable), if_pos ⟨hnonneg, hlt⟩, htoNat, hr]
  have hdenotes := denotes_getElfRelocation hview.isSection (Int32.ofNat i)
  rw [hget] at hdenotes
  -- The symbols of the relocation are in the section that the view has for `link`.
  obtain ⟨symtab, hsymtab, hrest⟩ := except_bind_eq_ok_iff.1 hr
  obtain ⟨_, -, hpure⟩ := except_bind_eq_ok_iff.1 hrest
  obtain ⟨symtab', hsymtab', hsymtabView⟩ := getSection_of_view hviews hndx hsymtab
  have hlookup : Tank.relocationSymbol view section_ r.relocation =
      symtab'.getElfSymbol r.relocation.sym := by
    rw [Tank.relocationSymbol, hview.link_eq, hsymtab']
  have hsame : r.symtab = symtab := by
    cases hpure
    rfl
  have hsymbolDenotes := denotes_relocationSymbol hview.isSection hr
  have hsymbol : elf.relocationSymbol direct object i r =
      elf.getElfSymbol direct symtab r.relocation.sym := hsame ▸ rfl
  rw [hsymbol] at hsymbolDenotes
  rw [relocateOne, hlookup]
  refine sameEnd_liftFile_bind hdenotes hs fun s hs => ?_
  obtain ⟨err, hfile, hparsed⟩ | ⟨sym, name, hfile, hname, hparsed⟩ :=
    getElfSymbol_cases hsymtabView r.relocation.sym
  · rw [hparsed]
    rw [hfile] at hsymbolDenotes
    exact sameEnd_liftFile_bind_error hsymbolDenotes hs fun _ h => h
  · rw [hparsed]
    rw [hfile] at hsymbolDenotes
    refine sameEnd_liftFile_bind hsymbolDenotes hs fun s hs => ?_
    change SameEnd _ _ _
      ((liftMem (liftUc (relocate m (toElfSymbol sym name) r.relocation))).run emu)
    cases hasks : asksName r.relocation sym with
    | true =>
      have hnameDenotes := @denotes_symbolName elf sym
      rw [hname] at hnameDenotes
      exact sameEnd_liftFile_bind hnameDenotes hs fun s hs => alike_liftEmu _ _ s emu hs
    | false =>
      rw [relocate_of_not_asksName hasks m name, if_neg Bool.false_ne_true]
      exact alike_liftEmu _ _ s emu hs

/-- The loop over the relocations of a section. -/
theorem alike_relocateDynSymbol (hviews : List.Forall₂ elf.SectionView objects view.sections)
    (hndx : objects.map (·.ndx) = indexRange elf.header.numSh.toInt32)
    (hview : elf.SectionView object section_) (htable : object.header.isRelocationTable = true)
    (m : Module) (his : ∀ i ∈ is, i ∈ indexRange object.header.numEntries)
    {relocations : List ElfRelocation}
    (hrelocations : List.Forall₂ (elf.IsRelocationView object) is relocations) :
    Alike (Sim elf fun _ _ => True) Eq (elf.relocateDynSymbol object m is)
      (liftMem (liftUc (Tank.relocateDynSymbol view section_ m relocations))) := by
  induction hrelocations with
  | nil => exact fun _ _ hs => .ok rfl hs
  | cons hhead htail ih =>
    rw [relocateDynSymbol, Tank.relocateDynSymbol]
    simp only [liftMem_liftUc_bind, liftMem_liftUc_getOrThrow]
    rw [← bind_assoc]
    refine (alike_relocateOne hviews hndx hview htable m (his _ List.mem_cons_self) hhead).bind ?_
    exact fun _ _ _ => ih fun i hi => his i (List.mem_cons_of_mem _ hi)

/-- The loop over the sections. -/
theorem alike_relocateDynSymbols (hviews : List.Forall₂ elf.SectionView objects view.sections)
    (hndx : objects.map (·.ndx) = indexRange elf.header.numSh.toInt32) (m : Module)
    {objects' : List SectionObject} {sections : List ElfSection}
    (h : List.Forall₂ elf.SectionView objects' sections) :
    Alike (Sim elf fun _ _ => True) Eq (elf.relocateDynSymbols m objects')
      (liftMem (liftUc (Tank.relocateDynSymbols view m sections))) := by
  induction h with
  | nil => exact fun _ _ hs => .ok rfl hs
  | @cons object section_ objects' sections hview _ ih =>
    rw [relocateDynSymbols, Tank.relocateDynSymbols, hview.type_eq]
    split
    next htype =>
      have htable : object.header.isRelocationTable = true := by
        simpa [SectionHeader.isRelocationTable, or_comm] using htype
      have hnumber : object.header.getNumberOfRelocations = object.header.numEntries :=
        if_pos htable
      rw [liftMem_liftUc_bind]
      refine (alike_relocateDynSymbol hviews hndx hview htable m ?_ hview.relocations).bind ?_
      · exact fun i hi => hnumber ▸ hi
      · exact fun _ _ _ => ih
    next => exact ih

/-! ## The whole load -/

/-- The first stage, with the load segments of the view. -/
theorem sameEnd_writeSegmentsToMemory (hbuffer : view.buffer = elf.buffer)
    (hsegments : elf.viewSegments (indexRange elf.header.numPh.toInt32) = .ok view.segments)
    (hs : Sim elf (fun taken _ => ∀ i, taken i = 0) s emu) :
    SameEnd (Sim elf fun _ _ => True) Eq (elf.writeSegmentsToMemory.run s)
      ((liftMem (Tank.writeSegmentsToMemory view)).run emu) := by
  obtain ⟨loads, hloads, hmap, hmem, hsub⟩ := loadSegments_of_view hsegments
  have hdenotes : elf.Denotes (elf.getLoadSegments memoised) (.ok loads) := by
    rw [← hloads]
    exact denotes_loadSegments _
  have hnodup : (loads.map (·.ndx)).Nodup := hsub.nodup List.nodup_range
  have hs' : Sim elf (fun taken _ => Untaken loads taken) s emu :=
    ⟨hs.emu_eq, hs.sound, fun o _ => hs.known o.ndx⟩
  have hweaken (s emu) (h : Sim elf (fun taken _ => Untaken loads taken) s emu) :
      Sim elf (fun _ _ => True) s emu := ⟨h.emu_eq, h.sound, trivial⟩
  rw [writeSegmentsToMemory, Tank.writeSegmentsToMemory, moduleSize, ElfFile.getLoadSegments,
    ← hmap, hbuffer, liftMem_bind]
  refine sameEnd_liftFile_bind hdenotes hs' fun s hs => ?_
  refine (alike_liftEmu _ _ s emu hs).bind_of_imp hweaken ?_
  rintro chunk _ s emu rfl hs
  rw [liftMem_bind]
  refine (sameEnd_writeSegments hmem hnodup chunk.addr hs).bind_of_imp (fun _ _ h => h) ?_
  exact fun _ _ s emu _ hs => .ok rfl hs

theorem view_eq_ok_iff :
    elf.view = .ok view ↔
      elf.viewSegments (indexRange elf.header.numPh.toInt32) = .ok view.segments ∧
      elf.viewSections (indexRange elf.header.numSh.toInt32) = .ok view.sections ∧
      view.buffer = elf.buffer ∧ view.fileType = elf.header.fileType ∧
      view.dynamicStructure = elf.viewDynamic := by
  rw [LazyElf.view, except_bind_eq_ok_iff]
  simp only [except_bind_eq_ok_iff]
  constructor
  · rintro ⟨segments, hsegments, sections, hsections, hpure⟩
    cases hpure
    exact ⟨hsegments, hsections, rfl, rfl, rfl⟩
  · obtain ⟨buffer, fileType, segments, sections, dynamicStructure⟩ := view
    rintro ⟨hsegments, hsections, rfl, rfl, rfl⟩
    exact ⟨segments, hsegments, sections, hsections, rfl⟩

/-- `loadElfModule` of a file all of which can be parsed. -/
theorem sameEnd_loadElfModule (hview : elf.view = .ok view) (pos : ℕ) (emu : Emulator) :
    SameEnd (Sim elf fun _ _ => True) Eq
      (elf.loadElfModule.run { emu, file := Memo.fresh pos, taken := fun _ => 0 })
      ((Tank.loadElfModule view).run emu) := by
  obtain ⟨hsegments, hsections, hbuffer, htype, hdynamic⟩ := view_eq_ok_iff.1 hview
  obtain ⟨objects, hobjects, hforall, hndx⟩ := sections_of_view hsections
  have hviews := hforall.imp fun _ _ h => h.sectionView
  have hdenotes : elf.Denotes (elf.getSections memoised) (.ok objects) := by
    rw [← hobjects]
    exact denotes_sections _
  rw [loadElfModule, Tank.loadElfModule, htype]
  split
  next => exact .ok rfl ⟨rfl, Memo.sound_fresh pos, trivial⟩
  next =>
    have hs : Sim elf (fun taken _ => ∀ i, taken i = 0)
        { emu, file := Memo.fresh pos, taken := fun _ => 0 } emu :=
      ⟨rfl, Memo.sound_fresh pos, fun _ => rfl⟩
    refine (sameEnd_writeSegmentsToMemory hbuffer hsegments hs).bind_of_imp (fun _ _ h => h) ?_
    rintro ⟨loadBase, size⟩ _ s emu rfl hs
    dsimp only
    rw [← initArrays_eq view hdynamic]
    refine (alike_liftFile (denotes_initArrays loadBase) s emu hs).bind_of_imp (fun _ _ h => h)
      ?_
    rintro arrays _ s emu rfl hs
    refine sameEnd_liftFile_bind hdenotes hs fun s hs => ?_
    -- From here on the emulator does not change until all symbols are entered.
    have hs' : Sim elf (fun _ emu' => emu' = emu) s emu := ⟨hs.emu_eq, hs.sound, rfl⟩
    rw [get_bind]
    refine (sameEnd_resloveDynSymbols hviews _ hs').bind_of_imp
      (fun _ _ h => ⟨h.emu_eq, h.sound, trivial⟩) ?_
    rintro m _ s emu rfl hs
    have hs : Sim elf (fun _ _ => True) s emu := ⟨hs.emu_eq, hs.sound, trivial⟩
    refine sameEnd_liftFile_bind hdenotes hs fun s hs => ?_
    refine (alike_relocateDynSymbols hviews hndx m hviews s emu hs).bind ?_
    exact fun _ _ _ => .pure rfl

end LazyElf

/-- The file parsed beforehand. -/
def parseElf (buffer : ByteBuffer) (decode : List UInt8 → String) :
    Except JavaException ElfFile := do
  let header ← ElfHeader.fromBuffer buffer
  LazyElf.view { buffer, header, decode }

theorem loadElfModuleFrom_eq_view {buffer : ByteBuffer} {decode : List UInt8 → String}
    {view : ElfFile} (h : parseElf buffer decode = .ok view) :
    loadElfModuleFrom buffer decode = loadElfModule view := by
  obtain ⟨header, hheader, hview⟩ := except_bind_eq_ok_iff.1 h
  obtain ⟨pos, hread⟩ := outcome_eq_ok_iff.1 hheader
  rw [loadElfModuleFrom, hread]
  funext emu
  have hend := LazyElf.sameEnd_loadElfModule hview pos emu
  change loadOpened { buffer, header, decode } pos emu = (loadElfModule view).run emu
  rw [loadOpened]
  generalize (loadElfModule view).run emu = r' at hend ⊢
  generalize EStateM.run _ _ = r at hend ⊢
  cases hend with
  | ok hresult hstate => exact congrArg₂ EStateM.Result.ok hresult hstate.emu_eq
  | error hstate => exact congrArg (EStateM.Result.error _) hstate.emu_eq

/-- Loading a file all of which can be parsed is loading what it is parsed to: the same module or
the same exception, and the same emulator afterwards. -/
theorem loadModuleFrom_eq_view {buffer : ByteBuffer} {decode : List UInt8 → String} {view : ElfFile}
    (h : parseElf buffer decode = .ok view) : loadModuleFrom buffer decode = loadModule view := by
  rw [loadModuleFrom, loadModule, loadElfModuleFrom_eq_view h]

/-- A 32-bit shared object with a function `f`, a relocation of a word with its address, and an init
array. The lines are the identification, the rest of the header, two program headers, the strings,
two symbols, the relocation, the dynamic structure, the array and the word, and four sections. -/
def sharedObjectBytes : List UInt8 :=
  [0x7f, 0x45, 0x4c, 0x46, 1, 1, 1, 0, 0, 0, 0, 0, 0, 0, 0, 0] ++
  [3, 0, 40, 0, 1, 0, 0, 0, 0, 0, 0, 0, 52, 0, 0, 0, 200, 0, 0, 0, 0, 0, 0, 5, 52, 0, 32, 0, 2, 0,
    40, 0, 4, 0, 1, 0] ++
  [1, 0, 0, 0, 0, 0, 0, 0, 0, 0, 0, 0, 0, 0, 0, 0, 200, 0, 0, 0, 200, 0, 0, 0, 5, 0, 0, 0,
    0, 16, 0, 0] ++
  [2, 0, 0, 0, 168, 0, 0, 0, 168, 0, 0, 0, 168, 0, 0, 0, 24, 0, 0, 0, 24, 0, 0, 0, 4, 0, 0, 0,
    4, 0, 0, 0] ++
  [0, 46, 100, 121, 110, 115, 116, 114, 0, 102, 0, 0] ++
  List.replicate 16 0 ++
  [9, 0, 0, 0, 64, 0, 0, 0, 0, 0, 0, 0, 18, 0, 1, 0] ++
  [196, 0, 0, 0, 21, 1, 0, 0] ++
  [25, 0, 0, 0, 192, 0, 0, 0, 27, 0, 0, 0, 4, 0, 0, 0, 0, 0, 0, 0, 0, 0, 0, 0] ++
  [64, 0, 0, 0, 0, 0, 0, 0] ++
  List.replicate 40 0 ++
  [1, 0, 0, 0, 3, 0, 0, 0, 0, 0, 0, 0, 0, 0, 0, 0, 116, 0, 0, 0, 11, 0, 0, 0, 0, 0, 0, 0,
    0, 0, 0, 0, 1, 0, 0, 0, 0, 0, 0, 0] ++
  [0, 0, 0, 0, 11, 0, 0, 0, 0, 0, 0, 0, 0, 0, 0, 0, 128, 0, 0, 0, 32, 0, 0, 0, 1, 0, 0, 0,
    1, 0, 0, 0, 4, 0, 0, 0, 16, 0, 0, 0] ++
  [0, 0, 0, 0, 9, 0, 0, 0, 0, 0, 0, 0, 0, 0, 0, 0, 160, 0, 0, 0, 8, 0, 0, 0, 2, 0, 0, 0,
    0, 0, 0, 0, 4, 0, 0, 0, 8, 0, 0, 0]

set_option maxRecDepth 10000 in
theorem length_sharedObjectBytes : sharedObjectBytes.length < 2 ^ 31 := by
  have hlength : sharedObjectBytes.length = 360 := rfl
  rw [hlength]
  decide

/-- The buffer of the file. -/
def sharedObject : ByteBuffer := ⟨sharedObjectBytes, length_sharedObjectBytes⟩

/-- What it is parsed to. -/
def sharedObjectView : ElfFile where
  buffer := sharedObject
  fileType := ElfFile.ftDyn
  segments := [⟨ElfSegment.ptLoad, 0, 0, 200, 200, 5⟩, ⟨ptDynamic, 168, 168, 24, 24, 4⟩]
  sections := [⟨0, 0, none, []⟩, ⟨shtStrtab, 0, none, []⟩,
    ⟨ElfSection.shtDynsym, 1, some [⟨none, 0, 0, 0⟩, ⟨some "f", 0x40, 0x12, 1⟩], []⟩,
    ⟨ElfSection.shtRel, 2, none, [⟨.class32, 196, 0x115, 0⟩]⟩]
  dynamicStructure := .ok (some ⟨.ok (some [0x40]), .ok none⟩)

set_option maxRecDepth 100000 in
theorem parseElf_sharedObject : parseElf sharedObject decodeUTF8 = .ok sharedObjectView := by
  rfl

theorem loadModuleFrom_sharedObject :
    parseElf sharedObject decodeUTF8 = .ok sharedObjectView ∧
      loadModuleFrom sharedObject decodeUTF8 = loadModule sharedObjectView :=
  ⟨parseElf_sharedObject, loadModuleFrom_eq_view parseElf_sharedObject⟩

end Tank
