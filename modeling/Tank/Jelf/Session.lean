import Tank.Jelf.LazyFile

/-!
# Reading on demand is reading the file

Every accessor of a file, run over the position of the parser and the values computed so far, has
the outcome of the accessor that reads everything anew. So what an accessor returns or throws does
not depend on what was asked for before, whether that succeeded or not.

Each constructor starts with `seek`, which makes the position irrelevant (`outcome_seek_bind`), and
the arguments that need other objects are computed before it. The lemmas follow the accessors; an
accessor of an object needs that the object is the one of the file with its number.
-/

namespace Tank

open ToMathlib

/-- After a `seek` it does not matter where the parser was. -/
theorem outcome_seek_bind {α : Type} (parser : ElfParser) (offset : Int64) (f : Unit → ParseM α)
    (pos : ℕ) :
    outcome ((parser.seek offset >>= f).run pos) = outcome ((parser.seek offset >>= f).run 0) := by
  by_cases h : offset.toInt32.toInt < 0 ∨ (parser.buffer.bytes.length : ℤ) < offset.toInt32.toInt
  · have hseek (pos : ℕ) : (parser.seek offset).run pos = .error .illegalArgument pos := by
      simp only [EStateM.run, ElfParser.seek, if_pos h]
    rw [bind_of_error (hseek pos), bind_of_error (hseek 0)]
    rfl
  · have hseek (pos : ℕ) : (parser.seek offset).run pos = .ok () offset.toInt32.toInt.toNat := by
      simp only [EStateM.run, ElfParser.seek, if_neg h]
    rw [bind_of_ok (hseek pos), bind_of_ok (hseek 0)]

namespace LazyElf

variable (elf : LazyElf)

/-- The dynamic structure of a segment or of a section. -/
def dynamicStructureAt : DynamicAt → Except JavaException DynamicStructure
  | .ofSegment i => do
    let segment ← elf.programHeader direct i
    let offset ← elf.virtualMemoryAddrToFileOffset direct segment.header.virtualAddress
    elf.elfDynamicStructure direct offset segment.header.memSize.toInt32
  | .ofSection i => do
    let section_ ← elf.sectionHeader direct i
    elf.elfDynamicStructure direct section_.header.sectionOffset section_.header.size.toInt32

/-- What the file has for a memoised object. -/
def contents : (k : Cell) → Except JavaException k.Val
  | .programHeader i => direct.read (elf.elfSegment i)
  | .sectionHeader i => direct.read (elf.elfSection i)
  | .symbol s i => do
    let section_ ← elf.sectionHeader direct s
    elf.symbol direct section_ i
  | .relocation s i => do
    let section_ ← elf.sectionHeader direct s
    elf.relocation direct section_ i
  | .relocationSymbol s i => do
    let section_ ← elf.sectionHeader direct s
    let r ← elf.relocation direct section_ i
    elf.getElfSymbol direct r.symtab r.relocation.sym
  | .stringTable s => do
    let section_ ← elf.sectionHeader direct s
    let h := section_.header
    direct.read (StringTable.read elf.parser h.sectionOffset h.size.toInt32)
  | .ptInterpreter s => do
    let segment ← elf.programHeader direct s
    direct.read (elf.readInterpreter segment.header.offset)
  | .ptLoad s => do
    let segment ← elf.programHeader direct s
    direct.read (elf.readPtLoad segment.header)
  | .dynamicStructure d => elf.dynamicStructureAt d
  | .dtStringTable d => do
    let tags := (← elf.dynamicStructureAt d).tags
    let offset ← elf.virtualMemoryAddrToFileOffset direct tags.strtabOffset
    direct.read (StringTable.read elf.parser offset tags.strtabSize)
  | .initArray d => do
    let tags := (← elf.dynamicStructureAt d).tags
    let offset ← elf.virtualMemoryAddrToFileOffset direct tags.initArrayOffset
    direct.read (elf.parser.elfInitArray offset tags.initArraySize)
  | .preInitArray d => do
    let tags := (← elf.dynamicStructureAt d).tags
    let offset ← elf.virtualMemoryAddrToFileOffset direct tags.preInitArrayOffset
    direct.read (elf.parser.elfInitArray offset tags.preInitArraySize)

/-- Every accessor's code denotes what the file has. -/
abbrev Denotes {α : Type} (m : FileM α) (r : Except JavaException α) : Prop :=
  Memo.Denotes elf.contents m r

variable {elf} {α : Type} {section_ : SectionObject} {segment : SegmentObject}

/-! ## Reading -/

/-- A read that seeks first does not depend on the position. -/
theorem denotes_read {offset : Int64} {f : Unit → ParseM α} :
    elf.Denotes (memoised.read (elf.parser.seek offset >>= f))
      (direct.read (elf.parser.seek offset >>= f)) :=
  Memo.Denotes.onBase fun pos => outcome_seek_bind elf.parser offset f pos

/-- A memoised object whose `computeValue` gives what the file has for it. -/
theorem denotes_getValue {k : Cell} {compute : FileM k.Val} {r : Except JavaException k.Val}
    (hcontents : elf.contents k = r) (h : elf.Denotes compute r) :
    elf.Denotes (memoised.getValue k compute) r := by
  subst hcontents
  exact .getValue h

/-- Nothing is memoised by throwing or returning. -/
theorem denotes_orThrow (x : Except JavaException α) :
    elf.Denotes (orThrow x) (orThrow x) := by
  cases x with
  | ok a => exact .pure a
  | error err => exact .throw err

/-- A condition on what was parsed. -/
theorem denotes_ite {c : Prop} [Decidable c] {m m' : FileM α} {r r' : Except JavaException α}
    (h : c → elf.Denotes m r) (h' : ¬c → elf.Denotes m' r') :
    elf.Denotes (if c then m else m') (if c then r else r') := by
  split
  next hc => exact h hc
  next hc => exact h' hc

/-! ## Segments -/

/-- A program header is parsed once. -/
theorem denotes_programHeader (i : ℕ) :
    elf.Denotes (elf.programHeader memoised i) (elf.programHeader direct i) :=
  .bind (.getValue denotes_read) fun _ _ => .pure _

/-- A segment object knows its number. -/
theorem ndx_of_programHeader {i : ℕ} (h : elf.programHeader direct i = .ok segment) :
    segment.ndx = i := by
  obtain ⟨header, -, hpure⟩ := except_bind_eq_ok_iff.1 h
  cases hpure
  rfl

/-- A segment object of the file. -/
def IsSegment (elf : LazyElf) (segment : SegmentObject) : Prop :=
  elf.programHeader direct segment.ndx = .ok segment

/-- What is parsed is an object of the file. -/
theorem isSegment_of_eq_ok {i : ℕ} (h : elf.programHeader direct i = .ok segment) :
    elf.IsSegment segment := by
  rw [IsSegment, ndx_of_programHeader h, h]

/-- `getProgramHeader` checks the number first. -/
theorem denotes_getProgramHeader (index : Int32) :
    elf.Denotes (elf.getProgramHeader memoised index) (elf.getProgramHeader direct index) :=
  denotes_ite (fun _ => denotes_programHeader _) fun _ => .throw _

/-- The load segments, one header after the other. -/
theorem denotes_loadSegments (is : List ℕ) :
    elf.Denotes (elf.loadSegments memoised is) (elf.loadSegments direct is) := by
  induction is with
  | nil => exact .pure _
  | cons i is ih => exact .bind (denotes_programHeader i) fun _ _ => .bind ih fun _ _ => .pure _

/-- The first segment of a type. -/
theorem denotes_findSegment (type : Int32) (is : List ℕ) :
    elf.Denotes (elf.findSegment memoised type is) (elf.findSegment direct type is) := by
  induction is with
  | nil => exact .pure _
  | cons i is ih =>
    exact .bind (denotes_programHeader i) fun _ _ => denotes_ite (fun _ => .pure _) fun _ => ih

/-- The loop over the segments that looks for an address. -/
theorem denotes_addrToOffset (address : Int64) (is : List ℕ) :
    elf.Denotes (elf.addrToOffset memoised address is) (elf.addrToOffset direct address is) := by
  induction is with
  | nil => exact .throw _
  | cons i is ih =>
    refine .bind (denotes_programHeader i) fun _ _ => denotes_ite (fun _ => ?_) fun _ => ih
    exact denotes_ite (fun _ => .throw _) fun _ => .pure _

/-- The offset of an address. -/
theorem denotes_virtualMemoryAddrToFileOffset (address : Int64) :
    elf.Denotes (elf.virtualMemoryAddrToFileOffset memoised address)
      (elf.virtualMemoryAddrToFileOffset direct address) :=
  denotes_addrToOffset address _

/-- The data of a load segment. -/
theorem denotes_getPtLoadData (h : elf.IsSegment segment) :
    elf.Denotes (elf.getPtLoadData memoised segment) (elf.getPtLoadData direct segment) := by
  refine denotes_ite (fun _ => .bind ?_ fun _ _ => .pure _) fun _ => .pure _
  exact denotes_getValue (by rw [contents, h]; rfl) denotes_read

/-- The interpreter of a segment. -/
theorem denotes_interpreterOf (h : elf.IsSegment segment) :
    elf.Denotes (elf.interpreterOf memoised segment) (elf.interpreterOf direct segment) := by
  refine denotes_ite (fun _ => .bind ?_ fun _ _ => .pure _) fun _ => .pure _
  exact denotes_getValue (by rw [contents, h]; rfl) denotes_read

/-- A search of segments finds a segment of the file. -/
theorem isSegment_of_findSegment {type : Int32} {is : List ℕ}
    (h : elf.findSegment direct type is = .ok (some segment)) : elf.IsSegment segment := by
  induction is with
  | nil => cases h
  | cons i is ih =>
    obtain ⟨segment', hhead, hrest⟩ := except_bind_eq_ok_iff.1 h
    split at hrest
    next =>
      cases hrest
      exact isSegment_of_eq_ok hhead
    next => exact ih hrest

/-- The interpreter of the file. -/
theorem denotes_getInterpreter :
    elf.Denotes (elf.getInterpreter memoised) (elf.getInterpreter direct) := by
  refine .bind (denotes_findSegment _ _) fun segment hsegment => ?_
  cases segment with
  | none => exact .pure _
  | some segment => exact denotes_interpreterOf (isSegment_of_findSegment hsegment)

/-! ## Sections -/

/-- A section header is parsed once. -/
theorem denotes_sectionHeader (i : ℕ) :
    elf.Denotes (elf.sectionHeader memoised i) (elf.sectionHeader direct i) :=
  .bind (.getValue denotes_read) fun _ _ => .pure _

/-- A section object of the file. -/
def IsSection (elf : LazyElf) (section_ : SectionObject) : Prop :=
  elf.sectionHeader direct section_.ndx = .ok section_

/-- A section object knows its number. -/
theorem ndx_of_sectionHeader {i : ℕ} (h : elf.sectionHeader direct i = .ok section_) :
    section_.ndx = i := by
  obtain ⟨header, -, hpure⟩ := except_bind_eq_ok_iff.1 h
  cases hpure
  rfl

/-- What is parsed is an object of the file. -/
theorem isSection_of_eq_ok {i : ℕ} (h : elf.sectionHeader direct i = .ok section_) :
    elf.IsSection section_ := by
  rw [IsSection, ndx_of_sectionHeader h, h]

/-- `getSection` checks the number first. -/
theorem denotes_getSection (index : Int32) :
    elf.Denotes (elf.getSection memoised index) (elf.getSection direct index) :=
  denotes_ite (fun _ => denotes_sectionHeader _) fun _ => .throw _

/-- `getSection` gives objects of the file. -/
theorem isSection_of_getSection {index : Int32} (h : elf.getSection direct index = .ok section_) :
    elf.IsSection section_ := by
  rw [getSection] at h
  split at h
  next => exact isSection_of_eq_ok h
  next => cases h

/-- The sections, one header after the other. -/
theorem denotes_sections (is : List ℕ) :
    elf.Denotes (elf.sections memoised is) (elf.sections direct is) := by
  induction is with
  | nil => exact .pure _
  | cons i is ih => exact .bind (denotes_sectionHeader i) fun _ _ => .bind ih fun _ _ => .pure _

/-- The string table of a section. -/
theorem denotes_stringTableOf (h : elf.IsSection section_) :
    elf.Denotes (elf.stringTableOf memoised section_) (elf.stringTableOf direct section_) := by
  refine denotes_ite (fun _ => .bind ?_ fun _ _ => .pure _) fun _ => .pure _
  exact denotes_getValue (by rw [contents, h]; rfl) denotes_read

/-- A string of a table is not memoised. -/
theorem denotes_stringAt (table : Option StringTable) (index : Int32) :
    elf.Denotes (elf.stringAt table index) (elf.stringAt table index) := by
  cases table with
  | none => exact .throw _
  | some table => exact .bind (denotes_orThrow _) fun _ _ => .pure _

/-- The table of the names of sections. -/
theorem denotes_getSectionNameStringTable :
    elf.Denotes (elf.getSectionNameStringTable memoised) (elf.getSectionNameStringTable direct) :=
  .bind (denotes_getSection _) fun _ h => denotes_stringTableOf (isSection_of_getSection h)

/-- The name of a section. -/
theorem denotes_sectionName (section_ : SectionObject) :
    elf.Denotes (elf.sectionName memoised section_) (elf.sectionName direct section_) := by
  refine denotes_ite (fun _ => .pure _) fun _ => ?_
  exact .bind denotes_getSectionNameStringTable fun _ _ =>
    .bind (denotes_stringAt _ _) fun _ _ => .pure _

/-- The loop that looks for a string table by its name. -/
theorem denotes_findStringTable (tableName : String) (is : List ℕ) :
    elf.Denotes (elf.findStringTable memoised tableName is)
      (elf.findStringTable direct tableName is) := by
  induction is with
  | nil => exact .pure _
  | cons i is ih =>
    refine .bind (denotes_sectionHeader i) fun section_ h => .bind (denotes_sectionName _) ?_
    exact fun _ _ => denotes_ite (fun _ => denotes_stringTableOf (isSection_of_eq_ok h)) fun _ => ih

/-! ## Symbols and relocations -/

/-- A symbol is parsed once. -/
theorem denotes_symbol (h : elf.IsSection section_) (i : ℕ) :
    elf.Denotes (elf.symbol memoised section_ i) (elf.symbol direct section_ i) :=
  denotes_getValue (by rw [contents, h]; rfl) denotes_read

/-- `getELFSymbol` checks the table and the number first. -/
theorem denotes_getElfSymbol (h : elf.IsSection section_) (index : Int32) :
    elf.Denotes (elf.getElfSymbol memoised section_ index)
      (elf.getElfSymbol direct section_ index) :=
  denotes_ite (fun _ => .throw _) fun _ =>
    denotes_ite (fun _ => denotes_symbol h _) fun _ => .throw _

/-- The name of a symbol. -/
theorem denotes_symbolName (sym : SymbolObject) :
    elf.Denotes (elf.symbolName memoised sym) (elf.symbolName direct sym) := by
  refine denotes_ite (fun _ => .pure _) fun _ => denotes_ite (fun _ => ?_) fun _ =>
    denotes_ite (fun _ => ?_) fun _ => .pure _
  all_goals
    exact .bind (denotes_findStringTable _ _) fun _ _ =>
      .bind (denotes_stringAt _ _) fun _ _ => .pure _

/-- A relocation is parsed once. -/
theorem denotes_relocation (h : elf.IsSection section_) (i : ℕ) :
    elf.Denotes (elf.relocation memoised section_ i) (elf.relocation direct section_ i) := by
  refine denotes_getValue (by rw [contents, h]; rfl) ?_
  exact .bind (denotes_getSection _) fun _ _ => .bind denotes_read fun _ _ => .pure _

/-- `getELFRelocation` checks the table first. -/
theorem denotes_getElfRelocation (h : elf.IsSection section_) (index : Int32) :
    elf.Denotes (elf.getElfRelocation memoised section_ index)
      (elf.getElfRelocation direct section_ index) :=
  denotes_ite (fun _ => .throw _) fun _ =>
    denotes_ite (fun _ => denotes_relocation h _) fun _ => .throw _

/-- The symbols of a relocation of the file are in a section of the file. -/
theorem isSection_symtab {i : ℕ} {r : RelocationObject}
    (h : elf.relocation direct section_ i = .ok r) : elf.IsSection r.symtab := by
  obtain ⟨symtab, hsymtab, hrest⟩ := except_bind_eq_ok_iff.1 h
  obtain ⟨relocation, -, hpure⟩ := except_bind_eq_ok_iff.1 hrest
  cases hpure
  exact isSection_of_getSection hsymtab

/-- The symbol of a relocation is looked up once. -/
theorem denotes_relocationSymbol (h : elf.IsSection section_) {i : ℕ} {r : RelocationObject}
    (hr : elf.relocation direct section_ i = .ok r) :
    elf.Denotes (elf.relocationSymbol memoised section_ i r)
      (elf.relocationSymbol direct section_ i r) := by
  refine denotes_getValue ?_ (denotes_getElfSymbol (isSection_symtab hr) _)
  rw [contents, h]
  change (elf.relocation direct section_ i >>= _) = _
  rw [hr]
  rfl

/-! ## The dynamic structure -/

/-- The relocations that a dynamic segment points to. -/
theorem denotes_relocationArray (offset : Int64) (size entrySize : Int32) :
    elf.Denotes (elf.relocationArray memoised offset size entrySize)
      (elf.relocationArray direct offset size entrySize) := by
  refine denotes_ite (fun _ => denotes_ite (fun _ => .throw _) fun _ => ?_) fun _ => .pure _
  refine denotes_ite (fun _ => .throw _) fun _ => ?_
  exact .bind (denotes_virtualMemoryAddrToFileOffset _) fun _ _ => .pure _

/-- The entries of a dynamic segment. -/
theorem denotes_elfDynamicStructure (offset : Int64) (size : Int32) :
    elf.Denotes (elf.elfDynamicStructure memoised offset size)
      (elf.elfDynamicStructure direct offset size) :=
  .bind denotes_read fun _ _ => .bind (denotes_relocationArray _ _ _) fun _ _ =>
    .bind (denotes_relocationArray _ _ _) fun _ _ => .pure _

/-- The dynamic structure of a segment is parsed once. -/
theorem denotes_getDynamicStructure (h : elf.IsSegment segment) :
    elf.Denotes (elf.getDynamicStructure memoised segment)
      (elf.getDynamicStructure direct segment) := by
  refine denotes_ite (fun _ => .bind (denotes_getValue ?_ ?_) fun _ _ => .pure _) fun _ => .pure _
  · rw [contents, dynamicStructureAt, h]
    rfl
  · exact .bind (denotes_virtualMemoryAddrToFileOffset _) fun _ _ => denotes_elfDynamicStructure _ _

/-- The dynamic structure of a section is parsed once. -/
theorem denotes_getDynamicSection (h : elf.IsSection section_) :
    elf.Denotes (elf.getDynamicSection memoised section_)
      (elf.getDynamicSection direct section_) := by
  refine denotes_ite (fun _ => .bind (denotes_getValue ?_ ?_) fun _ _ => .pure _) fun _ => .pure _
  · rw [contents, dynamicStructureAt, h]
    rfl
  · exact denotes_elfDynamicStructure _ _

/-- Tags of a dynamic structure of the file. -/
def IsDynamic (elf : LazyElf) (d : DynamicAt) (tags : DynamicTags) : Prop :=
  ∃ structure_, elf.dynamicStructureAt d = .ok structure_ ∧ structure_.tags = tags

/-- The tags are those of the structure at the segment. -/
theorem isDynamic_of_getDynamicStructure (hsegment : elf.IsSegment segment)
    {structure_ : DynamicStructure}
    (h : elf.getDynamicStructure direct segment = .ok (some structure_)) :
    elf.IsDynamic (.ofSegment segment.ndx) structure_.tags := by
  rw [getDynamicStructure] at h
  split at h
  next =>
    obtain ⟨structure', hstructure, hpure⟩ := except_bind_eq_ok_iff.1 h
    cases hpure
    refine ⟨structure_, ?_, rfl⟩
    rw [dynamicStructureAt, hsegment]
    exact hstructure
  next => cases h

variable {d : DynamicAt} {tags : DynamicTags}

/-- The string table of a dynamic structure. -/
theorem denotes_dtStringTable (h : elf.IsDynamic d tags) :
    elf.Denotes (elf.dtStringTable memoised d tags) (elf.dtStringTable direct d tags) := by
  obtain ⟨structure_, hstructure, rfl⟩ := h
  refine denotes_ite (fun _ => denotes_getValue ?_ ?_) fun _ => .throw _
  · rw [contents, hstructure]
    rfl
  · exact .bind (denotes_virtualMemoryAddrToFileOffset _) fun _ _ => denotes_read

/-- The name of a shared object. -/
theorem denotes_getSOName (h : elf.IsDynamic d tags) (fileName : String) :
    elf.Denotes (elf.getSOName memoised d tags fileName)
      (elf.getSOName direct d tags fileName) :=
  .bind (denotes_dtStringTable h) fun _ _ =>
    denotes_ite (fun _ => .pure _) fun _ => denotes_stringAt _ _

/-- The strings of a table, one after the other. -/
theorem denotes_stringsAt (table : StringTable) (needed : List Int32) :
    elf.Denotes (elf.stringsAt table needed) (elf.stringsAt table needed) := by
  induction needed with
  | nil => exact .pure _
  | cons index rest ih =>
    exact .bind (denotes_stringAt _ _) fun _ _ => .bind ih fun _ _ => .pure _

/-- The names of the libraries that a file needs. -/
theorem denotes_getNeededLibraries (h : elf.IsDynamic d tags) :
    elf.Denotes (elf.getNeededLibraries memoised d tags) (elf.getNeededLibraries direct d tags) :=
  .bind (denotes_dtStringTable h) fun _ _ => denotes_stringsAt _ _

/-- The array of constructors is parsed once. -/
theorem denotes_getInitArray (h : elf.IsDynamic d tags) :
    elf.Denotes (elf.getInitArray memoised d tags) (elf.getInitArray direct d tags) := by
  obtain ⟨structure_, hstructure, rfl⟩ := h
  refine denotes_ite (fun _ => .bind (denotes_getValue ?_ ?_) fun _ _ => .pure _) fun _ => .pure _
  · rw [contents, hstructure]
    rfl
  · exact .bind (denotes_virtualMemoryAddrToFileOffset _) fun _ _ => denotes_read

/-- So is that of the early constructors. -/
theorem denotes_getPreInitArray (h : elf.IsDynamic d tags) :
    elf.Denotes (elf.getPreInitArray memoised d tags) (elf.getPreInitArray direct d tags) := by
  obtain ⟨structure_, hstructure, rfl⟩ := h
  refine denotes_ite (fun _ => .bind (denotes_getValue ?_ ?_) fun _ _ => .pure _) fun _ => .pure _
  · rw [contents, hstructure]
    rfl
  · exact .bind (denotes_virtualMemoryAddrToFileOffset _) fun _ _ => denotes_read

/-! ## Sessions -/

end LazyElf

/-- What a client of a file can ask for, from the file on. -/
inductive FileCall where
  | programHeader (index : Int32)
  | loadSegments
  | dynamicSegment
  | fileOffset (address : Int64)
  /-- The `PtLoadData` of a segment. Its own `getData`, which takes the bytes out of the buffer and
  so gives them once, is no call of a session. -/
  | ptLoadData (segment : Int32)
  | interpreter
  | getSection (index : Int32)
  | sections
  | sectionName (index : Int32)
  | symbol (section_ index : Int32)
  | symbolName (section_ index : Int32)
  | relocation (section_ index : Int32)
  | relocationSymbol (section_ index : Int32)
  | dynamicSection (section_ : Int32)
  | dynamicStructure
  | soName (fileName : String)
  | neededLibraries
  | initArray
  | preInitArray

/-- What the calls return. -/
def FileCall.Result : FileCall → Type
  | programHeader _ => SegmentObject
  | loadSegments => List SegmentObject
  | dynamicSegment => Option SegmentObject
  | fileOffset _ => Int64
  | ptLoadData _ => Option (List UInt8)
  | interpreter => Option (List UInt8)
  | getSection _ => SectionObject
  | sections => List SectionObject
  | sectionName _ => Option String
  | symbol _ _ => SymbolObject
  | symbolName _ _ => Option String
  | relocation _ _ => RelocationObject
  | relocationSymbol _ _ => SymbolObject
  | dynamicSection _ => Option DynamicStructure
  | dynamicStructure => DynamicAt × DynamicStructure
  | soName _ => String
  | neededLibraries => List String
  | initArray => Option (List Int64)
  | preInitArray => Option (List Int64)

namespace LazyElf

section Calls

variable {m : Type → Type} [Monad m] [MonadExcept JavaException m] (A : FileAccess m)
  (elf : LazyElf)

/-- The dynamic structure of the dynamic segment, which must not be `null`. -/
def dynamicOf : m (DynamicAt × DynamicStructure) := do
  let segment ← elf.getDynamicSegment A
  match segment with
  | none => throw .nullPointer
  | some segment => do
    let structure_ ← elf.getDynamicStructure A segment
    match structure_ with
    | none => throw .nullPointer
    | some structure_ => pure (.ofSegment segment.ndx, structure_)

/-- The accessors that a call goes through. -/
def call : (c : FileCall) → m c.Result
  | .programHeader index => elf.getProgramHeader A index
  | .loadSegments => elf.getLoadSegments A
  | .dynamicSegment => elf.getDynamicSegment A
  | .fileOffset address => elf.virtualMemoryAddrToFileOffset A address
  | .ptLoadData index => do
    let segment ← elf.getProgramHeader A index
    elf.getPtLoadData A segment
  | .interpreter => elf.getInterpreter A
  | .getSection index => elf.getSection A index
  | .sections => elf.getSections A
  | .sectionName index => do
    let section_ ← elf.getSection A index
    elf.sectionName A section_
  | .symbol s index => do
    let section_ ← elf.getSection A s
    elf.getElfSymbol A section_ index
  | .symbolName s index => do
    let section_ ← elf.getSection A s
    let sym ← elf.getElfSymbol A section_ index
    elf.symbolName A sym
  | .relocation s index => do
    let section_ ← elf.getSection A s
    elf.getElfRelocation A section_ index
  | .relocationSymbol s index => do
    let section_ ← elf.getSection A s
    let r ← elf.getElfRelocation A section_ index
    elf.relocationSymbol A section_ index.toInt.toNat r
  | .dynamicSection s => do
    let section_ ← elf.getSection A s
    elf.getDynamicSection A section_
  | .dynamicStructure => elf.dynamicOf A
  | .soName fileName => do
    let (d, structure_) ← elf.dynamicOf A
    elf.getSOName A d structure_.tags fileName
  | .neededLibraries => do
    let (d, structure_) ← elf.dynamicOf A
    elf.getNeededLibraries A d structure_.tags
  | .initArray => do
    let (d, structure_) ← elf.dynamicOf A
    elf.getInitArray A d structure_.tags
  | .preInitArray => do
    let (d, structure_) ← elf.dynamicOf A
    elf.getPreInitArray A d structure_.tags

end Calls

variable {elf : LazyElf}

/-- The dynamic structure that a client asks for. -/
theorem denotes_dynamicOf : elf.Denotes (elf.dynamicOf memoised) (elf.dynamicOf direct) := by
  refine .bind (denotes_findSegment _ _) fun segment hsegment => ?_
  cases segment with
  | none => exact .throw _
  | some segment =>
    refine .bind (denotes_getDynamicStructure (isSegment_of_findSegment hsegment)) fun st _ => ?_
    cases st with
    | none => exact .throw _
    | some st => exact .pure _

/-- Its tags are those of the file. -/
theorem isDynamic_of_dynamicOf {d : DynamicAt} {structure_ : DynamicStructure}
    (h : elf.dynamicOf direct = .ok (d, structure_)) : elf.IsDynamic d structure_.tags := by
  obtain ⟨segment, hsegment, hrest⟩ := except_bind_eq_ok_iff.1 h
  cases segment with
  | none => cases hrest
  | some segment =>
    obtain ⟨st, hst, hpure⟩ := except_bind_eq_ok_iff.1 hrest
    cases st with
    | none => cases hpure
    | some st =>
      cases hpure
      exact isDynamic_of_getDynamicStructure (isSegment_of_findSegment hsegment) hst

/-- `getProgramHeader` gives objects of the file. -/
theorem isSegment_of_getProgramHeader {index : Int32} {segment : SegmentObject}
    (h : elf.getProgramHeader direct index = .ok segment) : elf.IsSegment segment := by
  rw [getProgramHeader] at h
  split at h
  next => exact isSegment_of_eq_ok h
  next => cases h

/-- A relocation that `getELFRelocation` gives is the one with the number. -/
theorem relocation_of_getElfRelocation {section_ : SectionObject} {index : Int32}
    {r : RelocationObject} (h : elf.getElfRelocation direct section_ index = .ok r) :
    elf.relocation direct section_ index.toInt.toNat = .ok r := by
  rw [getElfRelocation] at h
  split at h
  next => cases h
  next =>
    split at h
    next => exact h
    next => cases h

/-- Every call of a client denotes what the file has for it. -/
theorem denotes_call (c : FileCall) : elf.Denotes (elf.call memoised c) (elf.call direct c) := by
  cases c with
  | programHeader index => exact denotes_getProgramHeader index
  | loadSegments => exact denotes_loadSegments _
  | dynamicSegment => exact denotes_findSegment _ _
  | fileOffset address => exact denotes_virtualMemoryAddrToFileOffset address
  | ptLoadData index =>
    exact .bind (denotes_getProgramHeader _) fun _ h =>
      denotes_getPtLoadData (isSegment_of_getProgramHeader h)
  | interpreter => exact denotes_getInterpreter
  | getSection index => exact denotes_getSection index
  | sections => exact denotes_sections _
  | sectionName index => exact .bind (denotes_getSection _) fun _ _ => denotes_sectionName _
  | symbol s index =>
    exact .bind (denotes_getSection _) fun _ h =>
      denotes_getElfSymbol (isSection_of_getSection h) _
  | symbolName s index =>
    exact .bind (denotes_getSection _) fun _ h =>
      .bind (denotes_getElfSymbol (isSection_of_getSection h) _) fun _ _ => denotes_symbolName _
  | relocation s index =>
    exact .bind (denotes_getSection _) fun _ h =>
      denotes_getElfRelocation (isSection_of_getSection h) _
  | relocationSymbol s index =>
    refine .bind (denotes_getSection _) fun section_ h => ?_
    refine .bind (denotes_getElfRelocation (isSection_of_getSection h) _) fun r hr => ?_
    exact denotes_relocationSymbol (isSection_of_getSection h) (relocation_of_getElfRelocation hr)
  | dynamicSection s =>
    exact .bind (denotes_getSection _) fun _ h =>
      denotes_getDynamicSection (isSection_of_getSection h)
  | dynamicStructure => exact denotes_dynamicOf
  | soName fileName =>
    exact .bind denotes_dynamicOf fun _ h => denotes_getSOName (isDynamic_of_dynamicOf h) _
  | neededLibraries =>
    exact .bind denotes_dynamicOf fun _ h => denotes_getNeededLibraries (isDynamic_of_dynamicOf h)
  | initArray =>
    exact .bind denotes_dynamicOf fun _ h => denotes_getInitArray (isDynamic_of_dynamicOf h)
  | preInitArray =>
    exact .bind denotes_dynamicOf fun _ h => denotes_getPreInitArray (isDynamic_of_dynamicOf h)

/-- In every session with a file, whatever its calls are, in which order they come and which of them
fail, each call returns or throws what a direct reading of the file gives. -/
theorem session_results (elf : LazyElf) (calls : List FileCall) (pos : ℕ) :
    Memo.results (elf.call memoised) calls (Memo.fresh pos) =
      calls.map fun c => ⟨c, elf.call direct c⟩ :=
  Memo.results_eq denotes_call calls (Memo.sound_fresh pos)

end LazyElf

end Tank
