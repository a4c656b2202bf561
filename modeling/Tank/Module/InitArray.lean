import Tank.Helper.CallNative
import Tank.Module.ElfParser
import Tank.Module.Image
import Tank.Module.Interposition

/-!
# Constructors

The loader reads the array of constructors from the file and adds the load base to every word
(`resloveInitArray`), before anything is relocated, and `callModuleInit` calls all of them. A linker
calls the words that the array has in memory after relocation, except for `0` and `0xFFFFFFFF`.

* `wordAt_entryAddr`: the array in memory before relocation is the one in the file;
* `wordAt_eq_iff`: when the relocations make of an entry what adding the load base does;
* `calls_constructors_iff`: the two lists are the same exactly if that is so for all entries, and
  none of them is one that a linker skips;
* `terminator_called` is an array that ends with `0`.
-/

namespace Tank

open ToMathlib

/-! ## The calls -/

/-- The calls of `callModuleInit`, none of which has arguments. What `callNative` does not get from
its caller is in `stops`. -/
def initCalls (array : List Int64) (stops : ℕ → Int64 × UInt32) : List NativeCall :=
  array.mapIdx fun i func => ⟨func, [], (stops i).1, (stops i).2⟩

/-- `callModuleInit`; an exception ends the loop. -/
def callModuleInit (emuStart : Int64 → Int64 → UcM Unit) (initArray : Option (List Int64))
    (stops : ℕ → Int64 × UInt32) : UcM Unit :=
  match initArray with
  | some array => (initCalls array stops).forM fun call => discard (callNative emuStart call)
  | none => pure ()

/-- The constructors leave the stack as they find it, since they have no arguments. -/
theorem sp_callModuleInit {emuStart : Int64 → Int64 → UcM Unit} (hcallee : RestoresSp emuStart)
    {initArray : Option (List Int64)} {stops : ℕ → Int64 × UInt32} {uc uc' : Unicorn}
    (h : (callModuleInit emuStart initArray stops).run uc = .ok () uc') :
    uc'.regs .sp = uc.regs .sp := by
  -- A run of calls without arguments, by induction over the calls.
  have hcalls : ∀ (calls : List NativeCall) (uc : Unicorn), (∀ call ∈ calls, call.args = []) →
      (calls.forM fun call => discard (callNative emuStart call)).run uc = .ok () uc' →
        uc'.regs .sp = uc.regs .sp := by
    intro calls
    induction calls with
    | nil =>
      intro uc _ hrun
      obtain ⟨-, rfl⟩ := EStateM.Result.ok.inj hrun
      rfl
    | cons call calls ih =>
      intro uc hargs hrun
      obtain ⟨harg, hargs⟩ := List.forall_mem_cons.1 hargs
      obtain ⟨_, uc₁, hcall, hrest⟩ := bind_eq_ok hrun
      obtain ⟨ret, hcall⟩ := discard_eq_ok hcall
      rw [ih _ hargs hrest, sp_callNative hcallee hcall, harg]
      simp [spDrop]
  cases initArray with
  | none =>
    obtain ⟨-, rfl⟩ := EStateM.Result.ok.inj h
    rfl
  | some array =>
    refine hcalls _ uc (fun call hcall => ?_) h
    obtain ⟨i, hi, rfl⟩ := List.mem_mapIdx.1 hcall
    rfl

/-! ## The array in memory -/

/-- The number of entries of an array of words. -/
def ArrayTags.count (tags : ArrayTags) : ℕ := (tags.size / 4).toInt.toNat

/-- The address of an entry. -/
def entryAddr (m : Module) (tags : ArrayTags) (i : ℕ) : UInt64 :=
  (m.loadBase + tags.offset).toUInt64 + UInt64.ofNat (4 * i)

/-- What a linker calls. -/
def constructors (uc : Unicorn) (m : Module) (tags : ArrayTags) : List (Option UInt32) :=
  ((List.range tags.count).map fun i => uc.wordAt (entryAddr m tags i)).filter
    fun w => w ≠ some 0 ∧ w ≠ some 0xFFFFFFFF

/-- `callModuleInit` calls what a linker calls, in the same order. -/
def CallsConstructors (uc : Unicorn) (elf : ElfFile) (m : Module) (tags : ArrayTags)
    (stops : ℕ → Int64 × UInt32) : Prop :=
  ∃ array preInitArray, resloveInitArray elf m.loadBase = .ok (some array, preInitArray) ∧
    (initCalls array stops).map (fun call => some (low32 call.addr)) = constructors uc m tags

/-- A 32-bit little-endian file with an array of constructors, which lies in the part of a loaded
segment that the file has. -/
structure HasInitArray (elf : ElfFile) (tags : ArrayTags) (segment : ElfSegment) : Prop where
  parsed : ∃ d, elf.dynamicStructure = .ok (some d) ∧
    d.initArray = ElfParser.getInitArray ⟨elf.buffer, .class32, true⟩ elf.segments tags
  size_pos : 0 < tags.size.toInt
  mem : segment ∈ elf.getLoadSegments
  backed : segment.Backed elf.buffer
  first : segment.virtualAddress.toInt ≤ tags.offset.toInt
  last : tags.offset.toInt + tags.size.toInt ≤
    segment.virtualAddress.toInt + segment.fileSize.toInt
  /-- The parser finds this segment, or another program header with the same part of the file. -/
  fileOffset : virtualMemoryAddrToFileOffset tags.offset elf.segments =
    .ok (segment.offset + (tags.offset - segment.virtualAddress))

/-- The place of the array in the file. -/
def arrayPos (tags : ArrayTags) (segment : ElfSegment) : ℕ :=
  segment.offset.toInt.toNat + (tags.offset - segment.virtualAddress).toInt.toNat

/-- An entry as the file has it. -/
def arrayWord (elf : ElfFile) (tags : ArrayTags) (segment : ElfSegment) (i : ℕ) : UInt32 :=
  fileWord elf.buffer (arrayPos tags segment + 4 * i)

variable {elf : ElfFile} {tags : ArrayTags} {segment : ElfSegment} {m : Module} {uc uc' : Unicorn}
  {loadBase : Int64} {i : ℕ}

theorem resloveInitArray_eq_ok {d : ElfDynamicStructure}
    {arrays : Option (List Int64) × Option (List Int64)}
    (hd : elf.dynamicStructure = .ok (some d))
    (h : resloveInitArray elf loadBase = .ok arrays) :
    ∃ array, d.initArray = .ok array ∧ arrays.1 = array.map (·.map (loadBase + ·)) := by
  simp only [resloveInitArray, hd, bind, Except.bind] at h
  split at h
  next => cases h
  next array hinit =>
    split at h
    next => cases h
    next preInitArray hpre =>
      cases h
      exact ⟨array, hinit, rfl⟩

section HasInitArray

variable (h : HasInitArray elf tags segment)

include h

/-- The array starts in the segment, and its place in the file is an `int`. -/
theorem HasInitArray.start_bounds :
    0 ≤ segment.offset.toInt ∧ 0 ≤ tags.offset.toInt - segment.virtualAddress.toInt ∧
      segment.offset.toInt + (tags.offset.toInt - segment.virtualAddress.toInt) < 2 ^ 31 := by
  have hfirst := h.first
  have hlast := h.last
  have hpos := h.size_pos
  have hin := h.backed.in_file
  have hoff := h.backed.offset_nonneg
  have hlen := elf.buffer.length_lt
  omega

theorem HasInitArray.toInt_sub :
    (tags.offset - segment.virtualAddress).toInt =
      tags.offset.toInt - segment.virtualAddress.toInt := by
  obtain ⟨hoff, hfirst, hlt⟩ := h.start_bounds
  exact toInt_sub_of_bounds (by omega) (by omega)

theorem HasInitArray.four_mul_count_le : (4 * tags.count : ℤ) ≤ tags.size.toInt := by
  have hpos := h.size_pos
  have hfour : (4 : Int32).toInt = 4 := rfl
  have hdiv : (tags.size / 4).toInt = tags.size.toInt / 4 := by
    rw [Int32.toInt_div_of_ne_right _ _ (by decide), hfour, Int.tdiv_eq_ediv_of_nonneg hpos.le]
  rw [ArrayTags.count, hdiv]
  omega

/-- The casts to `int` are harmless for an array that is in the file. -/
theorem HasInitArray.toNat_fileOffset :
    (segment.offset + (tags.offset - segment.virtualAddress)).toInt32.toInt.toNat =
      arrayPos tags segment := by
  have hsub := h.toInt_sub
  obtain ⟨hoff, hfirst, hlt⟩ := h.start_bounds
  have hadd : (segment.offset + (tags.offset - segment.virtualAddress)).toInt =
      segment.offset.toInt + (tags.offset - segment.virtualAddress).toInt :=
    toInt_add_of_bounds (by omega) (by omega)
  rw [toInt_toInt32_of_bounds (by omega) (by omega), hadd, arrayPos]
  omega

/-- The array that is stored. -/
theorem HasInitArray.stored_eq {arrays : Option (List Int64) × Option (List Int64)}
    (hreslove : resloveInitArray elf loadBase = .ok arrays) :
    arrays.1 = some ((List.range tags.count).map fun i =>
      loadBase + (arrayWord elf tags segment i).toInt32.toInt64) := by
  obtain ⟨d, hd, hparse⟩ := h.parsed
  obtain ⟨array, hget, harrays⟩ := resloveInitArray_eq_ok hd hreslove
  -- The array is not `null`, as its size is not zero.
  have hsize : 0 < tags.size := Int32.lt_iff_toInt_lt.2 h.size_pos
  rw [hparse] at hget
  cases array with
  | none =>
    rw [ElfParser.getInitArray, if_pos hsize, h.fileOffset] at hget
    dsimp only at hget
    split at hget <;> cases hget
  | some array =>
    rw [harrays, ElfParser.getInitArray_eq_ok rfl rfl h.fileOffset hget, h.toNat_fileOffset]
    simp only [Option.map_some, List.map_map]
    rfl

/-- Before relocation the array in memory is the one of the file. -/
theorem HasInitArray.wordAt_entryAddr
    (hholds : HoldsSegment uc elf.buffer m.loadBase segment) (hi : i < tags.count) :
    uc.wordAt (entryAddr m tags i) = some (arrayWord elf tags segment i) := by
  have hcount := h.four_mul_count_le
  have hsub := h.toInt_sub
  have hfirst := h.first
  have hlast := h.last
  have hin := h.backed.in_file
  have hoff := h.backed.offset_nonneg
  -- The distance of the array from the start of the segment.
  generalize hdelta : (tags.offset - segment.virtualAddress).toInt.toNat = delta
  have hbase : (m.loadBase + tags.offset).toUInt64 =
      (m.loadBase + segment.virtualAddress).toUInt64 + UInt64.ofNat delta := by
    have hsplit : tags.offset = segment.virtualAddress + Int64.ofNat delta := by
      have hofNat : Int64.ofNat delta = tags.offset - segment.virtualAddress := by
        apply Int64.toInt_inj.1
        rw [Int64.toInt_ofNat_of_lt] <;>
          have := (tags.offset - segment.virtualAddress).toInt_lt <;> omega
      rw [hofNat, Int64.add_comm, Int64.sub_add_cancel]
    rw [hsplit, ← Int64.add_assoc]
    rfl
  have hpos : arrayPos tags segment = segment.offset.toInt.toNat + delta := by
    rw [arrayPos, hdelta]
  refine Unicorn.wordAt_of_guestByte ?_ fun k hk => ?_
  · rw [List.length_take, List.length_drop]
    omega
  · have hbyte := hholds.data (delta + 4 * i + k) (by omega)
    rw [segByte] at hbyte
    rw [entryAddr, hbase, List.getElem?_take_of_lt hk, List.getElem?_drop, hpos]
    rw [UInt64.add_assoc, UInt64.add_assoc, ← UInt64.ofNat_add, ← UInt64.ofNat_add,
      show delta + (4 * i + k) = delta + 4 * i + k by omega, hbyte]
    congr 1
    omega

end HasInitArray

/-! ## What the relocations make of an entry -/

/-- The relocation makes of a word what adding the load base does. -/
def AddsBase (m : Module) (symbol : ElfSymbol) (relocation : ElfRelocation) (w : UInt32) : Prop :=
  if relocation.type = rArmAbs32 then low32 symbol.value = 0
  else if relocation.type = rArmJumpSlot ∨ relocation.type = rArmGlobDat then
    match m.lookupSymbol symbol.name with
    | some rs => low32 rs.address = low32 m.loadBase + w
    | none => low32 m.loadBase = 0
  else symbol.value = 0 ∨ low32 m.loadBase = 0

theorem wordAfter_eq_iff {symbol : ElfSymbol} {relocation : ElfRelocation} {w : UInt32}
    (hh : relocation.Handled) (hold : uc.wordAt (target m relocation) = some w) :
    wordAfter m symbol relocation uc = some (low32 m.loadBase + w) ↔
      AddsBase m symbol relocation w := by
  have hstays : some w = some (low32 m.loadBase + w) ↔ low32 m.loadBase = 0 := by
    rw [Option.some.injEq]
    exact UInt32.right_eq_add
  rcases hh with habs | hslot | hrel
  · rw [AddsBase, if_pos habs, wordAfter_of_abs32 habs hold, Option.some.injEq, low32_add]
    rw [UInt32.add_left_inj, UInt32.add_eq_left]
  · have hne : relocation.type ≠ rArmAbs32 := by
      rcases hslot with htype | htype <;> rw [htype] <;> decide
    rw [AddsBase, if_neg hne, if_pos hslot, wordAfter_of_slot hslot]
    cases m.lookupSymbol symbol.name with
    | none =>
      dsimp only
      rw [hold, hstays]
    | some rs => exact Option.some_inj
  · have hne : relocation.type ≠ rArmAbs32 := by rw [hrel]; decide
    have hne' : ¬(relocation.type = rArmJumpSlot ∨ relocation.type = rArmGlobDat) := by
      rw [hrel]
      decide
    rw [AddsBase, if_neg hne, if_neg hne', wordAfter_of_relative hrel hold]
    split_ifs with hzero
    · simp [hzero]
    · simp [hzero, hstays]

/-- The relocations of an entry make of it what adding the load base does; without one the load base
has to add nothing. -/
structure EntryRelocated (elf : ElfFile) (m : Module) (a : UInt64) (w : UInt32) : Prop where
  relocated : ∀ e ∈ relocations elf.sections, e.2.Handled → target m e.2 = a → ∀ symbol,
    relocationSymbol elf e.1 e.2 = .ok symbol → AddsBase m symbol e.2 w
  plain : (∀ e ∈ relocations elf.sections, e.2.Handled → target m e.2 ≠ a) →
    low32 m.loadBase = 0

/-- The word at an address that the relocations do not cut in two. -/
theorem wordAt_eq_iff {a : UInt64} {w : UInt32}
    (hrun : (relocateDynSymbols elf m elf.sections).run uc = .ok () uc')
    (hapart : (relocations elf.sections).Pairwise (TargetsApart m))
    (hwhole : ∀ e ∈ relocations elf.sections, e.2.Handled →
      target m e.2 = a ∨ WordsApart (target m e.2) a)
    (hold : uc.wordAt a = some w) :
    uc'.wordAt a = some (low32 m.loadBase + w) ↔ EntryRelocated elf m a w := by
  have hrel := relocates_of_run hrun hapart
  rw [relocateDynSymbols_eq] at hrun
  have hcan := canRelocate_of_run hrun
  -- An entry with a relocation has the word that this one leaves.
  have hentry : ∀ e ∈ relocations elf.sections, e.2.Handled → target m e.2 = a → ∀ symbol,
      relocationSymbol elf e.1 e.2 = .ok symbol →
        (uc'.wordAt a = some (low32 m.loadBase + w) ↔ AddsBase m symbol e.2 w) := by
    rintro e he hh rfl symbol hsymbol
    rw [hrel.words e he hh symbol hsymbol]
    exact wordAfter_eq_iff hh hold
  by_cases hex : ∃ e ∈ relocations elf.sections, e.2.Handled ∧ target m e.2 = a
  · obtain ⟨e, he, hh, htarget⟩ := hex
    obtain ⟨symbol, hsymbol, -⟩ := hcan e he
    constructor
    · intro hword
      exact ⟨fun e' he' hh' ht' symbol' hs' => (hentry e' he' hh' ht' symbol' hs').1 hword,
        fun hnone => absurd htarget (hnone e he hh)⟩
    · intro h
      exact (hentry e he hh htarget symbol hsymbol).2 (h.relocated e he hh htarget symbol hsymbol)
  · have hnone : ∀ e ∈ relocations elf.sections, e.2.Handled → target m e.2 ≠ a :=
      fun e he hh ht => hex ⟨e, he, hh, ht⟩
    have hsame : uc'.wordAt a = uc.wordAt a := by
      refine Unicorn.wordAt_congr hrel.regions fun x hx => hrel.frame x fun e he hh => ?_
      exact ((hwhole e he hh).resolve_left (hnone e he hh)).not_within hx
    rw [hsame, hold, Option.some.injEq, UInt32.right_eq_add]
    exact ⟨fun hzero => ⟨fun e he hh ht => absurd ht (hnone e he hh), fun _ => hzero⟩,
      fun h => h.plain hnone⟩

/-! ## The two lists -/

/-- A list is what a filter leaves of another one of the same length only if it leaves all. -/
theorem map_eq_filter_map_iff {ι β : Type} {l : List ι} {f g : ι → β} {p : β → Bool} :
    l.map f = (l.map g).filter p ↔ ∀ i ∈ l, f i = g i ∧ p (g i) = true := by
  constructor
  · intro h
    have hlen : ((l.map g).filter p).length = (l.map g).length := by
      rw [← h, List.length_map, List.length_map]
    have hall : ∀ b ∈ l.map g, p b = true := List.length_filter_eq_length_iff.1 hlen
    rw [List.filter_eq_self.2 hall] at h
    intro i hi
    exact ⟨List.map_inj_left.1 h i hi, hall _ (List.mem_map_of_mem hi)⟩
  · intro h
    have hall : ∀ b ∈ l.map g, p b = true := by
      rw [List.forall_mem_map]
      exact fun i hi => (h i hi).2
    rw [List.filter_eq_self.2 hall]
    exact List.map_congr_left fun i hi => (h i hi).1

theorem callsConstructors_iff {arrays : Option (List Int64) × Option (List Int64)}
    {array : List Int64} {stops : ℕ → Int64 × UInt32}
    (hreslove : resloveInitArray elf m.loadBase = .ok arrays) (harray : arrays.1 = some array) :
    CallsConstructors uc elf m tags stops ↔
      array.map (fun func => some (low32 func)) = constructors uc m tags := by
  have hcalls : ∀ array : List Int64, (initCalls array stops).map
      (fun call => some (low32 call.addr)) = array.map fun func => some (low32 func) := by
    intro array
    refine List.ext_getElem (by simp [initCalls]) fun i hi hi' => ?_
    simp [initCalls]
  obtain ⟨initArray, preInitArray⟩ := arrays
  obtain rfl : initArray = some array := harray
  constructor
  · rintro ⟨array', preInitArray', hreslove', heq⟩
    rw [hreslove] at hreslove'
    cases hreslove'
    rw [← hcalls, heq]
  · intro heq
    exact ⟨array, preInitArray, hreslove, (hcalls array).trans heq⟩

/-- An entry for which the code and a linker agree, by its word in the file. -/
structure EntryAgrees (elf : ElfFile) (m : Module) (a : UInt64) (w : UInt32) : Prop
    extends EntryRelocated elf m a w where
  ne_zero : low32 m.loadBase + w ≠ 0
  ne_ones : low32 m.loadBase + w ≠ 0xFFFFFFFF

/-- For a module whose segments were loaded with their contents, and whose relocations are about
whole words that do not overlap: `callModuleInit` calls what a linker calls exactly if every entry
of the array is relocated as by adding the load base and is none that a linker skips. -/
theorem calls_constructors_iff {emu emu' : Emulator}
    (hload : (loadModule elf).run emu = .ok (some m) emu')
    (himage : LoadsImage emu.memory elf) (harray : HasInitArray elf tags segment)
    (hapart : (relocations elf.sections).Pairwise (TargetsApart m))
    (hwhole : ∀ e ∈ relocations elf.sections, e.2.Handled → ∀ i < tags.count,
      target m e.2 = entryAddr m tags i ∨ WordsApart (target m e.2) (entryAddr m tags i))
    (stops : ℕ → Int64 × UInt32) :
    CallsConstructors emu'.memory.uc elf m tags stops ↔
      ∀ i < tags.count,
        EntryAgrees elf m (entryAddr m tags i) (arrayWord elf tags segment i) := by
  obtain ⟨emu₁, hload', rfl⟩ := loadModule_eq_ok hload
  obtain ⟨m', loadBase, size, memory, arrays, heq, hwrite, harrays, hsyms, hrelocate⟩ :=
    loadElfModule_stages (fileType_of_loadElfModule hload') hload'
  cases heq
  obtain rfl : m.loadBase = loadBase := (resloveDynSymbols_table rfl hsyms none).1
  -- The segments are in memory when the words are relocated.
  obtain ⟨chunk, t, -, hwrite', hholds, -⟩ := himage
  rw [hwrite] at hwrite'
  obtain ⟨hchunk, rfl⟩ := EStateM.Result.ok.inj hwrite'
  have hbase : m.loadBase = chunk.addr := congrArg Prod.fst hchunk
  have hsegment := hholds segment harray.mem
  rw [← hbase] at hsegment
  rw [callsConstructors_iff harrays (harray.stored_eq harrays), constructors, List.map_map,
    map_eq_filter_map_iff]
  refine forall_congr' fun i => ?_
  rw [List.mem_range]
  refine imp_congr_right fun hi => ?_
  have hword := wordAt_eq_iff hrelocate hapart (fun e he hh => hwhole e he hh i hi)
    (harray.wordAt_entryAddr hsegment hi)
  have hlow : low32 (m.loadBase + (arrayWord elf tags segment i).toInt32.toInt64) =
      low32 m.loadBase + arrayWord elf tags segment i := by
    rw [low32_add, low32_toInt64, UInt32.toUInt32_toInt32]
  rw [Function.comp_apply, hlow]
  constructor
  · rintro ⟨heq, hkept⟩
    rw [← heq] at hkept
    simp only [decide_eq_true_iff, ne_eq, Option.some.injEq] at hkept
    exact ⟨hword.1 heq.symm, hkept.1, hkept.2⟩
  · intro hagrees
    have heq := hword.2 hagrees.toEntryRelocated
    refine ⟨heq.symm, ?_⟩
    rw [heq]
    simp only [decide_eq_true_iff, ne_eq, Option.some.injEq]
    exact ⟨hagrees.ne_zero, hagrees.ne_ones⟩

/-- What can be seen of a load that returned a module. -/
def loadedWith {α : Type} (emu : Emulator) (elf : ElfFile) (f : Module → Emulator → α) : Option α :=
  match (loadModule elf).run emu with
  | .ok (some m) emu' => some (f m emu')
  | _ => none

theorem exists_of_loadedWith {α : Type} {emu : Emulator} {f : Module → Emulator → α} {a : α}
    (h : loadedWith emu elf f = some a) :
    ∃ m emu', (loadModule elf).run emu = .ok (some m) emu' ∧ f m emu' = a := by
  rw [loadedWith] at h
  split at h
  next m emu' hrun => exact ⟨m, emu', hrun, Option.some.inj h⟩
  next => cases h

/-- A file that is an array of constructors, the first of which has a relocation of type
`R_ARM_RELATIVE`. -/
def initArrayFile (buffer : ByteBuffer) : ElfFile :=
  { oneSegmentFile 0 0x10 buffer with
    sections := (relocFile [] [⟨.class32, 0, 0x17, 0⟩]).sections
    dynamicStructure := .ok (some
      { initArray := ElfParser.getInitArray ⟨buffer, .class32, true⟩
          (oneSegmentFile 0 0x10 buffer).segments ⟨0, Int32.ofNat buffer.bytes.length⟩
        preInitArray := .ok none }) }

theorem calls_constructors_relative :
    let elf := initArrayFile ⟨[1, 1, 0, 0], by decide⟩
    ∃ m emu', (loadModule elf).run (freshEmulator fun _ => none) = .ok (some m) emu' ∧
      CallsConstructors emu'.memory.uc elf m ⟨0, 4⟩ fun _ => (0x1000, 0) := by
  intro elf
  obtain ⟨m, emu', hload, hbase⟩ := exists_of_loadedWith
    (show loadedWith (freshEmulator fun _ => none) elf (fun m _ => m.loadBase) = some 0xA0000000 by
      decide +kernel)
  have hback : ElfSegment.Backed elf.buffer ⟨ElfSegment.ptLoad, 0, 0, 4, 0x10, 6⟩ :=
    ⟨by decide, by decide, by decide, by decide⟩
  have hready : Ready MemoryManager.fresh := ready_of_fresh rfl
  have hfits : Fits MemoryManager.fresh.incrementalAllocator.pos.toInt elf.getLoadSegments :=
    ⟨by decide +kernel, by decide +kernel, by decide +kernel⟩
  have himage : LoadsImage MemoryManager.fresh elf :=
    loadsImage_of_free hready hfits (List.forall_mem_singleton.2 hback)
      ⟨fun c hc => segmentRanges_low_paged hready.nonneg hready.page hfits hc, by decide +kernel,
        by decide +kernel⟩
  have harray : HasInitArray elf ⟨0, 4⟩ ⟨ElfSegment.ptLoad, 0, 0, 4, 0x10, 6⟩ :=
    ⟨⟨_, rfl, rfl⟩, by decide, by decide, hback, by decide, by decide, by decide⟩
  have hrelocs : relocations elf.sections = [(⟨ElfSection.shtRel, 0, none,
      [⟨.class32, 0, 0x17, 0⟩]⟩, ⟨.class32, 0, 0x17, 0⟩)] := rfl
  have htarget : target m ⟨.class32, 0, 0x17, 0⟩ = entryAddr m ⟨0, 4⟩ 0 :=
    (UInt64.add_zero _).symm
  refine ⟨m, emu', hload, (calls_constructors_iff hload himage harray ?_ ?_ _).2 ?_⟩
  · rw [hrelocs]
    exact List.pairwise_singleton _ _
  · rw [hrelocs, List.forall_mem_singleton]
    intro _ i hi
    obtain rfl : i = 0 := Nat.lt_one_iff.1 hi
    exact .inl htarget
  · intro i hi
    obtain rfl : i = 0 := Nat.lt_one_iff.1 hi
    refine ⟨⟨?_, ?_⟩, by rw [hbase]; decide, by rw [hbase]; decide⟩
    · rw [hrelocs, List.forall_mem_singleton]
      intro _ _ symbol hsymbol
      cases hsymbol
      exact .inl rfl
    · rw [hrelocs, List.forall_mem_singleton]
      intro hne
      exact absurd htarget (hne (.inr (.inr rfl)))

/-- The second entry of the array is `0`, which ends it. The loader adds its load base and calls
the start of the module. -/
theorem terminator_called :
    let elf := initArrayFile ⟨[1, 1, 0, 0, 0, 0, 0, 0], by decide⟩
    ∃ m emu', (loadModule elf).run (freshEmulator fun _ => none) = .ok (some m) emu' ∧
      constructors emu'.memory.uc m ⟨0, 8⟩ = [some 0xA0000101] ∧
      resloveInitArray elf m.loadBase = .ok (some [0xA0000101, 0xA0000000], none) ∧
      ¬CallsConstructors emu'.memory.uc elf m ⟨0, 8⟩ fun _ => (0x1000, 0) := by
  intro elf
  obtain ⟨m, emu', hload, hseen⟩ := exists_of_loadedWith
    (show loadedWith (freshEmulator fun _ => none) elf
      (fun m emu' => (m.loadBase, constructors emu'.memory.uc m ⟨0, 8⟩)) =
        some (0xA0000000, [some 0xA0000101]) by decide +kernel)
  obtain ⟨hbase, hwords⟩ := Prod.mk.inj hseen
  have hstored : resloveInitArray elf m.loadBase =
      .ok (some [0xA0000101, 0xA0000000], none) := by
    rw [hbase]
    rfl
  refine ⟨m, emu', hload, hwords, hstored, fun hcalls => ?_⟩
  rw [callsConstructors_iff hstored rfl, hwords] at hcalls
  exact absurd hcalls (by decide)

end Tank
