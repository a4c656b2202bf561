import Tank.Module.Symbols
import Tank.Utils.Words

/-!
# Relocation

What `relocateDynSymbols` leaves in guest memory. The loops over the relocation tables are one
loop over their entries (`relocateDynSymbols_eq`), and when no two target words overlap each entry
works on the word that was there before the loop (`run_relocateAll`).

The formulas of ELF for ARM are stated with `resolves`, the address that a symbol stands for, and
`addendWord`, the addend of an entry (`RelocatedEntry`). The code has its own: it adds the value
of the symbol and the load base for `R_ARM_ABS32`, takes the table entry of the symbol's name for
`R_ARM_GLOB_DAT` and `R_ARM_JUMP_SLOT`, and never reads the addend of a `SHT_RELA` table.

* `relocated_iff`: all entries are relocated by the formulas exactly when each of them is one for
  which the two agree (`Supported`).
* `relocated_external_abs32` is a file with a relocation against a symbol of an earlier module.
-/

namespace Tank

open ToMathlib

variable {uc uc' : Unicorn} {a b x : UInt64}

/-! ## One relocation -/

/-- The address of the word that a relocation is about. -/
def target (m : Module) (relocation : ElfRelocation) : UInt64 :=
  (m.loadBase + relocation.offset).toUInt64

/-- The relocation is of one of the types that the loader handles. -/
def ElfRelocation.Handled (relocation : ElfRelocation) : Prop :=
  relocation.type = rArmAbs32 ∨
    (relocation.type = rArmJumpSlot ∨ relocation.type = rArmGlobDat) ∨
    relocation.type = rArmRelative

instance (relocation : ElfRelocation) : Decidable relocation.Handled :=
  inferInstanceAs (Decidable (_ ∨ _))

/-- What the body of the loop makes of the word that it reads, widened to a `long`; `none` if it
leaves the word alone. -/
def relocatedValue (m : Module) (symbol : ElfSymbol) (relocation : ElfRelocation) :
    Option (Int64 → Int64) :=
  if relocation.type = rArmAbs32 then some fun offset => offset + m.loadBase + symbol.value
  else if relocation.type = rArmJumpSlot ∨ relocation.type = rArmGlobDat then
    (m.lookupSymbol symbol.name).map fun rs _ => rs.address
  else if relocation.type = rArmRelative then
    if symbol.value = 0 then some fun offset => m.loadBase + offset else none
  else none

/-- The word that is left at the target of a relocation. -/
def wordAfter (m : Module) (symbol : ElfSymbol) (relocation : ElfRelocation) (uc : Unicorn) :
    Option UInt32 :=
  match relocatedValue m symbol relocation with
  | none => uc.wordAt (target m relocation)
  | some f =>
    some (low32 (f (bytes2IntLittle (readBytes uc.mem (target m relocation) 4)).toInt64))

variable {m : Module} {symbol : ElfSymbol} {relocation : ElfRelocation} {f : Int64 → Int64}

/-- A relocation of type `R_ARM_JUMP_SLOT` or `R_ARM_GLOB_DAT` writes what the table has for the
name. -/
theorem relocatedValue_of_slot
    (htype : relocation.type = rArmJumpSlot ∨ relocation.type = rArmGlobDat) :
    relocatedValue m symbol relocation =
      (m.lookupSymbol symbol.name).map fun rs _ => rs.address := by
  have hne : relocation.type ≠ rArmAbs32 := by
    rcases htype with h | h <;> rw [h] <;> decide
  rw [relocatedValue, if_neg hne, if_pos htype]

theorem handled_of_relocatedValue (h : relocatedValue m symbol relocation = some f) :
    relocation.Handled := by
  rw [relocatedValue] at h
  split_ifs at h with habs hslot hrel
  · exact Or.inl habs
  · exact Or.inr (Or.inl hslot)
  · exact Or.inr (Or.inr hrel)

theorem run_writeWord {address value : Int64} (h : uc.checkMemArea address.toUInt64 4 = true) :
    (writeWord address value).run uc =
      .ok () (uc.store address.toUInt64 (cut (longToBytesLittle value) 4)) := by
  exact Unicorn.run_memWrite_of_mapped h

theorem run_relocate_of_none (h : relocatedValue m symbol relocation = none) :
    (relocate m symbol relocation).run uc = .ok () uc := by
  rw [relocatedValue] at h
  rw [relocate]
  split_ifs at h ⊢ with habs hslot hrel hzero
  · rw [Option.map_eq_none_iff.1 h]
    rfl
  · rfl
  · rfl

/-- The body of the loop stores one word, if the target is mapped. -/
theorem run_relocate_of_some (h : relocatedValue m symbol relocation = some f)
    (hmapped : uc.checkMemArea (target m relocation) 4 = true) :
    (relocate m symbol relocation).run uc = .ok () (uc.store (target m relocation)
      (cut (longToBytesLittle
        (f (bytes2IntLittle (readBytes uc.mem (target m relocation) 4)).toInt64)) 4)) := by
  have hread : (Unicorn.memRead (m.loadBase + relocation.offset) 4).run uc =
      .ok (readBytes uc.mem (target m relocation) 4) uc := Unicorn.run_memRead_of_mapped hmapped
  rw [relocatedValue] at h
  rw [relocate]
  split_ifs at h ⊢ with habs hslot hrel hzero
  · cases h
    exact (bind_of_ok hread).trans (run_writeWord hmapped)
  · -- Without a read: the old word does not matter here.
    obtain ⟨rs, hrs, rfl⟩ := Option.map_eq_some_iff.1 h
    rw [hrs]
    exact run_writeWord hmapped
  · cases h
    exact (bind_of_ok hread).trans (run_writeWord hmapped)

/-- A relocation at an unmapped word throws. -/
theorem run_relocate_of_unmapped (h : relocatedValue m symbol relocation = some f)
    (hunmapped : uc.checkMemArea (target m relocation) 4 = false) :
    ∃ err, (relocate m symbol relocation).run uc = .error err uc := by
  have hread : (Unicorn.memRead (m.loadBase + relocation.offset) 4).run uc =
      .error (.unicornException .readUnmapped) uc := Unicorn.run_memRead_of_unmapped hunmapped
  rw [relocatedValue] at h
  rw [relocate]
  split_ifs at h ⊢ with habs hslot hrel hzero
  · exact ⟨_, bind_of_error hread⟩
  · obtain ⟨rs, hrs, rfl⟩ := Option.map_eq_some_iff.1 h
    -- The other types fail when they read the word, this one when it writes it.
    refine ⟨.unicornException .writeUnmapped, ?_⟩
    rw [hrs]
    exact Unicorn.run_memWrite_of_unmapped hunmapped
  · exact ⟨_, bind_of_error hread⟩

/-- The word at the target after a relocation, and the bytes around it. -/
theorem run_relocate (hmapped : (relocatedValue m symbol relocation).isSome →
      uc.checkMemArea (target m relocation) 4 = true) :
    ∃ uc', (relocate m symbol relocation).run uc = .ok () uc' ∧ uc'.regions = uc.regions ∧
      uc'.wordAt (target m relocation) = wordAfter m symbol relocation uc ∧
      ∀ x, (relocation.Handled → ¬Within (target m relocation) 4 x) → uc'.mem x = uc.mem x := by
  cases hvalue : relocatedValue m symbol relocation with
  | none =>
    refine ⟨uc, run_relocate_of_none hvalue, rfl, ?_, fun _ _ => rfl⟩
    rw [wordAfter, hvalue]
  | some f =>
    rw [hvalue] at hmapped
    have harea := hmapped rfl
    refine ⟨_, run_relocate_of_some hvalue harea, rfl, ?_, fun x hx => ?_⟩
    · rw [wordAfter, hvalue]
      exact Unicorn.wordAt_store harea _
    · exact overwrite_of_not_within (hx (handled_of_relocatedValue hvalue))

/-! ## The loop over the entries -/

/-- The entries of all relocation tables, with the tables they come from. -/
def relocations (sections : List ElfSection) : List (ElfSection × ElfRelocation) :=
  (sections.filter fun s => s.type = ElfSection.shtRel ∨ s.type = ElfSection.shtRela).flatMap
    fun s => s.relocations.map fun relocation => (s, relocation)

/-- The loops of `relocateDynSymbols` as one. -/
def relocateAll (elf : ElfFile) (m : Module) : List (ElfSection × ElfRelocation) → UcM Unit
  | [] => pure ()
  | e :: es => do
    let symbol ← getOrThrow (relocationSymbol elf e.1 e.2)
    relocate m symbol e.2
    relocateAll elf m es

variable {elf : ElfFile} {e e' : ElfSection × ElfRelocation}
  {es : List (ElfSection × ElfRelocation)}

theorem relocateDynSymbol_append (section_ : ElfSection) (relocs : List ElfRelocation) :
    (do
      relocateDynSymbol elf section_ m relocs
      relocateAll elf m es) =
      relocateAll elf m (relocs.map (fun relocation => (section_, relocation)) ++ es) := by
  induction relocs with
  | nil => exact pure_bind _ _
  | cons relocation relocs ih =>
    simp only [relocateDynSymbol, List.map_cons, List.cons_append, relocateAll, bind_assoc, ih]

theorem relocateDynSymbols_eq (sections : List ElfSection) :
    relocateDynSymbols elf m sections = relocateAll elf m (relocations sections) := by
  induction sections with
  | nil => rfl
  | cons s sections ih =>
    rw [relocateDynSymbols]
    split
    next htype =>
      have hentries : relocations (s :: sections) =
          s.relocations.map (fun relocation => (s, relocation)) ++ relocations sections := by
        simp [relocations, htype]
      rw [hentries, ← relocateDynSymbol_append, ih]
    next htype =>
      have hentries : relocations (s :: sections) = relocations sections := by
        simp [relocations, htype]
      rw [hentries, ih]

/-- The relocation of the entry returns: it has a symbol, and the word is mapped if it is
written. -/
def CanRelocate (uc : Unicorn) (elf : ElfFile) (m : Module) (e : ElfSection × ElfRelocation) :
    Prop :=
  ∃ symbol, relocationSymbol elf e.1 e.2 = .ok symbol ∧
    ((relocatedValue m symbol e.2).isSome → uc.checkMemArea (target m e.2) 4 = true)

/-- The target words of the two entries do not overlap, if both are of a type that is handled. -/
def TargetsApart (m : Module) (e e' : ElfSection × ElfRelocation) : Prop :=
  e.2.Handled → e'.2.Handled → WordsApart (target m e.2) (target m e'.2)

instance : Decidable (TargetsApart m e e') := inferInstanceAs (Decidable (_ → _))

/-- What the loop does: each target gets its word, made of what was there before the loop, and no
other byte changes. -/
structure Relocates (elf : ElfFile) (m : Module) (es : List (ElfSection × ElfRelocation))
    (uc uc' : Unicorn) : Prop where
  regions : uc'.regions = uc.regions
  words : ∀ e ∈ es, e.2.Handled → ∀ symbol, relocationSymbol elf e.1 e.2 = .ok symbol →
    uc'.wordAt (target m e.2) = wordAfter m symbol e.2 uc
  frame : ∀ x, (∀ e ∈ es, e.2.Handled → ¬Within (target m e.2) 4 x) → uc'.mem x = uc.mem x

theorem CanRelocate.congr (h : CanRelocate uc elf m e) (hregions : uc'.regions = uc.regions) :
    CanRelocate uc' elf m e := by
  obtain ⟨symbol, hsymbol, hmapped⟩ := h
  refine ⟨symbol, hsymbol, fun hsome => ?_⟩
  rw [Unicorn.checkMemArea_congr hregions]
  exact hmapped hsome

theorem wordAfter_congr (hregions : uc'.regions = uc.regions)
    (hmem : ∀ x, Within (target m relocation) 4 x → uc'.mem x = uc.mem x) :
    wordAfter m symbol relocation uc' = wordAfter m symbol relocation uc := by
  rw [wordAfter, wordAfter, readBytes_congr hmem (by decide), Unicorn.wordAt_congr hregions hmem]

/-- The run lemma of the loop. -/
theorem run_relocateAll (hcan : ∀ e ∈ es, CanRelocate uc elf m e)
    (hapart : es.Pairwise (TargetsApart m)) :
    ∃ uc', (relocateAll elf m es).run uc = .ok () uc' ∧ Relocates elf m es uc uc' := by
  induction es generalizing uc with
  | nil => exact ⟨uc, rfl, rfl, by simp, fun _ _ => rfl⟩
  | cons e es ih =>
    obtain ⟨hhead, htail⟩ := List.pairwise_cons.1 hapart
    obtain ⟨symbol, hsymbol, hmapped⟩ := hcan e List.mem_cons_self
    obtain ⟨uc₁, hrun, hregions, hword, hframe⟩ := run_relocate hmapped
    obtain ⟨uc', hrest, hrel⟩ := ih
      (fun e' he' => (hcan e' (List.mem_cons_of_mem _ he')).congr hregions) htail
    have hget : (getOrThrow (relocationSymbol elf e.1 e.2) : UcM ElfSymbol).run uc =
        .ok symbol uc := getOrThrow_eq_ok.2 ⟨hsymbol, rfl⟩
    refine ⟨uc', ?_, hrel.regions.trans hregions, fun e' he' hh' symbol' hsymbol' => ?_,
      fun x hx => ?_⟩
    · rw [relocateAll, bind_of_ok hget, bind_of_ok hrun, hrest]
    · rcases List.mem_cons.1 he' with rfl | he'
      · -- The entries after this one leave its word alone.
        rw [hsymbol] at hsymbol'
        cases hsymbol'
        rw [← hword]
        exact Unicorn.wordAt_congr hrel.regions fun x hx => hrel.frame x fun e'' he'' hh'' =>
          (hhead e'' he'' hh' hh'').symm.not_within hx
      · -- They read what this entry has not touched.
        rw [hrel.words e' he' hh' symbol' hsymbol']
        exact wordAfter_congr hregions fun x hx => hframe x fun hh =>
          (hhead e' he' hh hh').not_within hx
    · rw [hrel.frame x fun e' he' => hx e' (List.mem_cons_of_mem _ he')]
      exact hframe x (hx e List.mem_cons_self)

/-- The loop returns only if every entry can be relocated. -/
theorem canRelocate_of_run (h : (relocateAll elf m es).run uc = .ok () uc') :
    ∀ e ∈ es, CanRelocate uc elf m e := by
  induction es generalizing uc with
  | nil => simp
  | cons e es ih =>
    rw [relocateAll] at h
    obtain ⟨symbol, uc₁, hget, hbody⟩ := bind_eq_ok h
    obtain ⟨⟨⟩, uc₂, hrun, hrest⟩ := bind_eq_ok hbody
    obtain ⟨hsymbol, rfl⟩ := getOrThrow_eq_ok.1 hget
    -- The run would have ended at an unmapped word.
    have hmapped : (relocatedValue m symbol e.2).isSome →
        uc₁.checkMemArea (target m e.2) 4 = true := by
      intro hsome
      obtain ⟨f, hf⟩ := Option.isSome_iff_exists.1 hsome
      by_contra hno
      obtain ⟨err, herr⟩ := run_relocate_of_unmapped hf (Bool.eq_false_iff.2 hno)
      rw [hrun] at herr
      cases herr
    obtain ⟨uc₃, hrun', hregions, -, -⟩ := run_relocate hmapped
    rw [hrun] at hrun'
    cases hrun'
    intro e' he'
    rcases List.mem_cons.1 he' with rfl | he'
    · exact ⟨symbol, hsymbol, hmapped⟩
    · -- The later entries ran on another state, with the same memory mapped.
      exact (ih hrest e' he').congr hregions.symm

/-- What `relocateDynSymbols` has done when it has returned. -/
theorem relocates_of_run (h : (relocateDynSymbols elf m elf.sections).run uc = .ok () uc')
    (hapart : (relocations elf.sections).Pairwise (TargetsApart m)) :
    Relocates elf m (relocations elf.sections) uc uc' := by
  rw [relocateDynSymbols_eq] at h
  obtain ⟨uc'', hrun, hrel⟩ := run_relocateAll (canRelocate_of_run h) hapart
  rw [h] at hrun
  cases hrun
  exact hrel

/-! ## The formulas -/

/-- The address that a symbol stands for: its hook, its place in the module if it is defined there,
or what an earlier module has for its name. -/
def resolves (emu : Emulator) (loadBase : Int64) (symbol : ElfSymbol) : Option Int64 :=
  match symbol.name.bind emu.hookedSymbols with
  | some hook => some hook
  | none =>
    if symbol.isUndef then
      match symbol.name.map (lookupSymbol emu.modules) with
      | some (.ok (some reslovedSymbol)) => some reslovedSymbol.address
      | _ => none
    else some (loadBase + symbol.value)

/-- The addend of an entry: stored with the entry in a `SHT_RELA` table, otherwise the word at the
target before the relocation. -/
def addendWord (e : ElfSection × ElfRelocation) (old : UInt32) : UInt32 :=
  if e.1.type = ElfSection.shtRela then low32 e.2.addend else old

/-- The entry is relocated as ELF for ARM says, from the memory `uc` to the memory `uc'`. -/
structure RelocatedEntry (emu : Emulator) (m : Module) (e : ElfSection × ElfRelocation)
    (symbol : ElfSymbol) (uc uc' : Unicorn) : Prop where
  abs32 : e.2.type = rArmAbs32 → ∃ old, uc.wordAt (target m e.2) = some old ∧
    ∀ s, resolves emu m.loadBase symbol = some s →
      uc'.wordAt (target m e.2) = some (low32 s + addendWord e old)
  slot : e.2.type = rArmJumpSlot ∨ e.2.type = rArmGlobDat →
    ∀ s, resolves emu m.loadBase symbol = some s → uc'.wordAt (target m e.2) = some (low32 s)
  relative : e.2.type = rArmRelative → ∃ old, uc.wordAt (target m e.2) = some old ∧
    uc'.wordAt (target m e.2) = some (low32 m.loadBase + addendWord e old)

/-- The entry is one for which the code does the same as the formulas. -/
structure Supported (emu : Emulator) (elf : ElfFile) (m : Module)
    (e : ElfSection × ElfRelocation) (symbol : ElfSymbol) (uc : Unicorn) : Prop where
  /-- The symbol stands for its place in this module. In a `SHT_RELA` table the word in memory has
  to make up for the addend as well. -/
  abs32 : e.2.type = rArmAbs32 → ∃ old, uc.wordAt (target m e.2) = some old ∧
    ∀ s, resolves emu m.loadBase symbol = some s →
      if e.1.type = ElfSection.shtRela then
        low32 s + low32 e.2.addend = low32 (m.loadBase + symbol.value) + old
      else low32 s = low32 (m.loadBase + symbol.value)
  /-- The last symbol of that name in the file, of those that have an address, has the address that
  the symbol stands for. -/
  slot : e.2.type = rArmJumpSlot ∨ e.2.type = rArmGlobDat →
    match (entries emu m.loadBase (tableSymbols elf.sections) symbol.name).getLast? with
    | some rs => uc.checkMemArea (target m e.2) 4 = true ∧
      ∀ s, resolves emu m.loadBase symbol = some s → low32 rs.address = low32 s
    | none => ∀ s, resolves emu m.loadBase symbol = some s →
      uc.wordAt (target m e.2) = some (low32 s)
  /-- The symbol has the value `0`, as otherwise nothing is written. In a `SHT_RELA` table the word
  in memory has to be the addend. -/
  relative : e.2.type = rArmRelative → ∃ old, uc.wordAt (target m e.2) = some old ∧
    if e.1.type = ElfSection.shtRela then
      old = if symbol.value = 0 then low32 e.2.addend else low32 m.loadBase + low32 e.2.addend
    else symbol.value = 0 ∨ low32 m.loadBase = 0

variable {old : UInt32} {rs : ReslovedSymbol}

/-! ## The words that the code writes -/

theorem wordAfter_of_abs32 (htype : relocation.type = rArmAbs32)
    (hold : uc.wordAt (target m relocation) = some old) :
    wordAfter m symbol relocation uc = some (low32 (m.loadBase + symbol.value) + old) := by
  have hvalue : relocatedValue m symbol relocation =
      some fun offset => offset + m.loadBase + symbol.value := if_pos htype
  obtain ⟨-, hword⟩ := Unicorn.checkMemArea_of_wordAt hold
  rw [wordAfter, hvalue]
  dsimp only
  -- The word was read with its sign, which is lost again in the low half.
  rw [Int64.add_assoc, low32_add, low32_bytes2IntLittle length_readBytes, hword, UInt32.add_comm]

theorem wordAfter_of_slot (htype : relocation.type = rArmJumpSlot ∨ relocation.type = rArmGlobDat) :
    wordAfter m symbol relocation uc =
      match m.lookupSymbol symbol.name with
      | some rs => some (low32 rs.address)
      | none => uc.wordAt (target m relocation) := by
  rw [wordAfter, relocatedValue_of_slot htype]
  cases m.lookupSymbol symbol.name <;> rfl

theorem wordAfter_of_relative (htype : relocation.type = rArmRelative)
    (hold : uc.wordAt (target m relocation) = some old) :
    wordAfter m symbol relocation uc =
      some (if symbol.value = 0 then low32 m.loadBase + old else old) := by
  have hne : relocation.type ≠ rArmAbs32 := by rw [htype]; decide
  have hne' : ¬(relocation.type = rArmJumpSlot ∨ relocation.type = rArmGlobDat) := by
    rw [htype]
    decide
  obtain ⟨-, hword⟩ := Unicorn.checkMemArea_of_wordAt hold
  rw [wordAfter, relocatedValue, if_neg hne, if_neg hne', if_pos htype]
  split_ifs with hzero
  · dsimp only
    rw [low32_add, low32_bytes2IntLittle length_readBytes, hword]
  · exact hold

theorem add_addendWord_eq_iff {s v : UInt32} :
    s + addendWord e old = v + old ↔
      if e.1.type = ElfSection.shtRela then s + low32 e.2.addend = v + old else s = v := by
  rw [addendWord]
  split_ifs
  · rfl
  · exact UInt32.add_left_inj old

theorem relative_eq_iff {base : UInt32} {p : Prop} [Decidable p] :
    (if p then base + old else old) = base + addendWord e old ↔
      if e.1.type = ElfSection.shtRela then
        old = if p then low32 e.2.addend else base + low32 e.2.addend
      else p ∨ base = 0 := by
  rw [addendWord]
  split_ifs with hp hrela hrela
  · exact UInt32.add_right_inj base
  · simp [hp]
  · rfl
  · -- Nothing was written: the word is relocated only if the load base adds nothing.
    simp [hp]

/-- An entry for which the code agrees with the formulas can be relocated. -/
theorem Supported.canRelocate {emu : Emulator} (h : Supported emu elf m e symbol uc)
    (hsymbol : relocationSymbol elf e.1 e.2 = .ok symbol)
    (htable : m.lookupSymbol symbol.name =
      (entries emu m.loadBase (tableSymbols elf.sections) symbol.name).getLast?) :
    CanRelocate uc elf m e := by
  refine ⟨symbol, hsymbol, fun hsome => ?_⟩
  obtain ⟨f, hf⟩ := Option.isSome_iff_exists.1 hsome
  rcases handled_of_relocatedValue hf with htype | htype | htype
  · -- The word has to be there to be read.
    obtain ⟨old, hold, -⟩ := h.abs32 htype
    exact (Unicorn.checkMemArea_of_wordAt hold).1
  · have hslot := h.slot htype
    rw [← htable] at hslot
    cases hlookup : m.lookupSymbol symbol.name with
    | some rs =>
      rw [hlookup] at hslot
      exact hslot.1
    | none =>
      -- Nothing is written for a name that is not in the table.
      rw [relocatedValue_of_slot htype, hlookup] at hf
      cases hf
  · obtain ⟨old, hold, -⟩ := h.relative htype
    exact (Unicorn.checkMemArea_of_wordAt hold).1

/-! ## When the code follows the formulas -/

section Iff

variable {emu : Emulator}

/-- The word that the code leaves is the one of the formulas exactly if the entry is supported. -/
theorem relocatedEntry_iff
    (hmapped : (relocatedValue m symbol e.2).isSome → uc.checkMemArea (target m e.2) 4 = true)
    (hword : e.2.Handled → uc'.wordAt (target m e.2) = wordAfter m symbol e.2 uc)
    (htable : m.lookupSymbol symbol.name =
      (entries emu m.loadBase (tableSymbols elf.sections) symbol.name).getLast?) :
    RelocatedEntry emu m e symbol uc uc' ↔ Supported emu elf m e symbol uc := by
  constructor
  · intro h
    refine ⟨fun htype => ?_, fun htype => ?_, fun htype => ?_⟩
    · obtain ⟨old, hold, hs⟩ := h.abs32 htype
      refine ⟨old, hold, fun s hres => ?_⟩
      have hafter := hs s hres
      rw [hword (Or.inl htype), wordAfter_of_abs32 htype hold] at hafter
      exact add_addendWord_eq_iff.1 (Option.some.inj hafter).symm
    · -- A symbol that is not found leaves the slot as it is.
      have hs := h.slot htype
      rw [hword (Or.inr (Or.inl htype)), wordAfter_of_slot htype] at hs
      rw [← htable]
      cases hlookup : m.lookupSymbol symbol.name with
      | none =>
        rw [hlookup] at hs
        exact hs
      | some rs =>
        rw [hlookup] at hs
        refine ⟨hmapped ?_, fun s hres => Option.some.inj (hs s hres)⟩
        rw [relocatedValue_of_slot htype, hlookup]
        rfl
    · obtain ⟨old, hold, hafter⟩ := h.relative htype
      refine ⟨old, hold, ?_⟩
      rw [hword (Or.inr (Or.inr htype)), wordAfter_of_relative htype hold] at hafter
      exact relative_eq_iff.1 (Option.some.inj hafter)
  · intro h
    refine ⟨fun htype => ?_, fun htype s hres => ?_, fun htype => ?_⟩
    · obtain ⟨old, hold, hs⟩ := h.abs32 htype
      refine ⟨old, hold, fun s hres => ?_⟩
      rw [hword (Or.inl htype), wordAfter_of_abs32 htype hold,
        add_addendWord_eq_iff.2 (hs s hres)]
    · have hs := h.slot htype
      rw [hword (Or.inr (Or.inl htype)), wordAfter_of_slot htype]
      rw [← htable] at hs
      cases hlookup : m.lookupSymbol symbol.name with
      | none =>
        rw [hlookup] at hs
        exact hs s hres
      | some rs =>
        rw [hlookup] at hs
        exact congrArg some (hs.2 s hres)
    · obtain ⟨old, hold, hs⟩ := h.relative htype
      refine ⟨old, hold, ?_⟩
      rw [hword (Or.inr (Or.inr htype)), wordAfter_of_relative htype hold, relative_eq_iff.2 hs]

/-- `relocateDynSymbols` returns, relocates every entry by the formulas and leaves all other bytes
alone. -/
def RelocatesAll (emu : Emulator) (elf : ElfFile) (m : Module) (uc : Unicorn) : Prop :=
  ∃ uc', (relocateDynSymbols elf m elf.sections).run uc = .ok () uc' ∧
    (∀ e ∈ relocations elf.sections, ∀ symbol, relocationSymbol elf e.1 e.2 = .ok symbol →
      RelocatedEntry emu m e symbol uc uc') ∧
    ∀ x, (∀ e ∈ relocations elf.sections, e.2.Handled → ¬Within (target m e.2) 4 x) →
      uc'.guestByte x = uc.guestByte x

/-- A module whose target words do not overlap is relocated by the formulas of ELF for ARM exactly
when every entry has a symbol and is supported. -/
theorem relocated_iff (emu : Emulator) (elf : ElfFile) (m : Module) (uc : Unicorn)
    (hreslove : resloveDynSymbols emu elf.sections
      { m with reslovedSymbols := fun _ => none } = .ok m)
    (hapart : (relocations elf.sections).Pairwise (TargetsApart m)) :
    RelocatesAll emu elf m uc ↔
      ∀ e ∈ relocations elf.sections, ∃ symbol, relocationSymbol elf e.1 e.2 = .ok symbol ∧
        Supported emu elf m e symbol uc := by
  constructor
  · rintro ⟨uc', hrun, hentries, -⟩ e he
    have hrel := relocates_of_run hrun hapart
    -- That it returned tells that every word was mapped.
    rw [relocateDynSymbols_eq] at hrun
    obtain ⟨symbol, hsymbol, hmapped⟩ := canRelocate_of_run hrun e he
    exact ⟨symbol, hsymbol, (relocatedEntry_iff hmapped
      (fun hh => hrel.words e he hh symbol hsymbol)
      (resloveDynSymbols_table rfl hreslove _).2).1 (hentries e he symbol hsymbol)⟩
  · intro hall
    have hcan : ∀ e ∈ relocations elf.sections, CanRelocate uc elf m e := by
      intro e he
      obtain ⟨symbol, hsymbol, hsupported⟩ := hall e he
      exact hsupported.canRelocate hsymbol (resloveDynSymbols_table rfl hreslove _).2
    obtain ⟨uc', hrun, hrel⟩ := run_relocateAll hcan hapart
    refine ⟨uc', ?_, fun e he symbol hsymbol => ?_, fun x hx => ?_⟩
    · rw [relocateDynSymbols_eq, hrun]
    · obtain ⟨symbol', hsymbol', hsupported⟩ := hall e he
      obtain ⟨symbol'', hsymbol'', hmapped⟩ := hcan e he
      -- There is one symbol for the entry, whichever way it was found.
      rw [hsymbol] at hsymbol' hsymbol''
      cases hsymbol'
      cases hsymbol''
      exact (relocatedEntry_iff hmapped (fun hh => hrel.words e he hh symbol hsymbol)
        (resloveDynSymbols_table rfl hreslove _).2).2 hsupported
    · rw [Unicorn.guestByte, Unicorn.guestByte, Unicorn.mapped_congr hrel.regions,
        hrel.frame x hx]

end Iff

/-- A file with a symbol table and a `SHT_REL` table for it. -/
def relocFile (symbols : List ElfSymbol) (relocs : List ElfRelocation) : ElfFile where
  buffer := .empty
  fileType := ElfFile.ftDyn
  segments := []
  sections :=
    [{  type := ElfSection.shtDynsym
        link := 0
        symbols := some (⟨none, 0, 0, 0⟩ :: symbols)
        relocations := [] },
     {  type := ElfSection.shtRel
        link := 0
        symbols := none
        relocations := relocs }]

/-- The pages of two modules; those of the second one start with the word `0x10`. -/
def relocPages : Unicorn :=
  (Unicorn.blank.addBlock ⟨0xA0000000, 0x2000⟩).store 0xA0001000 [0x10, 0, 0, 0]

theorem relocated_small :
    RelocatesAll (freshEmulator fun _ => none)
      (relocFile [⟨some "f", 0x40, 0x12, 1⟩]
        [⟨.class32, 0, 0x102, 0⟩, ⟨.class32, 4, 0x115, 0⟩, ⟨.class32, 8, 0x17, 0⟩])
      (Module.addSymbol (.unlinked 0xA0001000 0 (none, none)) (some "f")
        ⟨0xA0001040, ⟨some "f", 0x40, 0x12, 1⟩⟩) relocPages := by
  refine (relocated_iff _ _ _ _ rfl (by decide +kernel)).2 fun e he => ?_
  have he' : e ∈ [(_, ⟨.class32, 0, 0x102, 0⟩), (_, ⟨.class32, 4, 0x115, 0⟩),
    (_, ⟨.class32, 8, 0x17, 0⟩)] := he
  simp only [List.mem_cons, List.not_mem_nil, or_false] at he'
  rcases he' with rfl | rfl | rfl
  · refine ⟨_, rfl, fun _ => ⟨0x10, by decide +kernel, fun s hs => ?_⟩,
      fun h => absurd h (by decide), fun h => absurd h (by decide)⟩
    cases hs
    decide
  · refine ⟨_, rfl, fun h => absurd h (by decide), fun _ => ⟨by decide +kernel, fun s hs => ?_⟩,
      fun h => absurd h (by decide)⟩
    cases hs
    decide
  · exact ⟨_, rfl, fun h => absurd h (by decide), fun h => absurd h (by decide),
      fun _ => ⟨0, by decide +kernel, by decide⟩⟩

/-- The symbol is defined at `0xA0000040` in an earlier module, so that the word `0x10` should
become `0xA0000050`. The code adds the load base and the value `0` of the symbol. -/
theorem relocated_external_abs32 :
    let f : ElfSymbol := ⟨some "f", 0, 0x12, 0⟩
    let earlier := Module.addSymbol (.unlinked 0xA0000000 0 (none, none)) (some "f")
      ⟨0xA0000040, ⟨some "f", 0x40, 0x12, 1⟩⟩
    let emu : Emulator := ⟨MemoryManager.fresh, [some earlier], fun _ => none⟩
    let elf := relocFile [f] [⟨.class32, 0, 0x102, 0⟩]
    let m := Module.addSymbol (.unlinked 0xA0001000 0 (none, none)) (some "f") ⟨0xA0000040, f⟩
    resloveDynSymbols emu elf.sections { m with reslovedSymbols := fun _ => none } = .ok m ∧
      (relocations elf.sections).Pairwise (TargetsApart m) ∧
      ¬RelocatesAll emu elf m relocPages := by
  refine ⟨rfl, by decide +kernel, ?_⟩
  rintro ⟨uc', hrun, hentries, -⟩
  obtain ⟨old, hold, hs⟩ := (hentries _ List.mem_cons_self _ rfl).abs32 rfl
  have hafter := hs 0xA0000040 rfl
  have huc : uc' = finalState ((relocateDynSymbols (relocFile [⟨some "f", 0, 0x12, 0⟩]
      [⟨.class32, 0, 0x102, 0⟩]) (Module.addSymbol (.unlinked 0xA0001000 0 (none, none)) (some "f")
        ⟨0xA0000040, ⟨some "f", 0, 0x12, 0⟩⟩) (relocFile [⟨some "f", 0, 0x12, 0⟩]
      [⟨.class32, 0, 0x102, 0⟩]).sections).run relocPages) := by
    rw [hrun]
    rfl
  have hten : relocPages.wordAt 0xA0001000 = some 0x10 := by decide +kernel
  have hold' : old = 0x10 := Option.some.inj (hold.symm.trans hten)
  rw [huc, hold'] at hafter
  exact absurd hafter (by decide +kernel)

end Tank
