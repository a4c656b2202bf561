import Tank.Module.Relocation

/-!
# The order of relocations

Relocations whose target words do not overlap may be processed in any order. An entry whose target
is mapped is one change of the word there (`relocStep`), the loop is the fold of these changes
(`run_relocateAll_eq`), and two changes of words that are apart commute (`relocStep_comm`), so the
fold is the same for every permutation of the entries. Moving an entry to another table may change
the symbol it names; what has to be the same are the entries together with their symbols
(`lookedUp`).

An entry whose symbol does not exist ends the loop with an exception, and then the order decides
which words are relocated.

## Main results

* `relocateDynSymbols_perm`: any two orders end alike, and only target words change.
* `order_matters_without_symbol` is a file in which an entry has no symbol.
-/

namespace Tank

open ToMathlib

/-! ## What a loop may touch -/

/-- Only memory changes, and only at addresses of `P`. -/
def Touches (P : UInt64 → Prop) (uc uc' : Unicorn) : Prop :=
  ∃ mem, uc' = { uc with mem } ∧ ∀ x, ¬P x → mem x = uc.mem x

variable {P Q : UInt64 → Prop} {uc uc' : Unicorn}

instance Touches.isPreorder : IsPreorder Unicorn (Touches P) where
  refl uc := ⟨uc.mem, rfl, fun _ _ => rfl⟩
  trans _ _ _ h₁₂ h₂₃ := by
    obtain ⟨mem, rfl, hmem⟩ := h₁₂
    obtain ⟨mem', rfl, hmem'⟩ := h₂₃
    exact ⟨mem', rfl, fun x hx => (hmem' x hx).trans (hmem x hx)⟩

theorem Touches.mono (h : Touches P uc uc') (hPQ : ∀ x, P x → Q x) : Touches Q uc uc' := by
  obtain ⟨mem, rfl, hmem⟩ := h
  exact ⟨mem, rfl, fun x hx => hmem x fun hp => hx (hPQ x hp)⟩

/-- The address belongs to the target word of one of the entries. -/
def IsTarget (m : Module) (es : List (ElfSection × ElfRelocation)) (x : UInt64) : Prop :=
  ∃ e ∈ es, e.2.Handled ∧ Within (target m e.2) 4 x

variable {elf elf' : ElfFile} {m : Module} {es es' : List (ElfSection × ElfRelocation)}

/-- One entry touches its target only, also if it throws. -/
theorem keeps_relocate (symbol : ElfSymbol) (relocation : ElfRelocation) :
    Keeps (Touches fun x => relocation.Handled ∧ Within (target m relocation) 4 x)
      (relocate m symbol relocation) := by
  intro uc
  cases hvalue : relocatedValue m symbol relocation with
  | none =>
    rw [run_relocate_of_none hvalue]
    exact Std.Refl.refl uc
  | some f =>
    by_cases hmapped : uc.checkMemArea (target m relocation) 4 = true
    · rw [run_relocate_of_some hvalue hmapped]
      refine ⟨_, rfl, fun x hx => overwrite_of_not_within fun hwithin => hx ⟨?_, hwithin⟩⟩
      exact handled_of_relocatedValue hvalue
    · obtain ⟨err, herr⟩ := run_relocate_of_unmapped hvalue (Bool.eq_false_iff.2 hmapped)
      rw [herr]
      exact Std.Refl.refl uc

theorem keeps_relocateAll (elf : ElfFile) (m : Module)
    (es : List (ElfSection × ElfRelocation)) :
    Keeps (Touches (IsTarget m es)) (relocateAll elf m es) := by
  induction es with
  | nil => exact Keeps.pure ()
  | cons e es ih =>
    refine Keeps.bind (Keeps.getOrThrow _) fun symbol => ?_
    refine Keeps.bind (fun uc => ?_) fun _ uc => ?_
    · exact (keeps_relocate symbol e.2 uc).mono fun x hx => ⟨e, List.mem_cons_self, hx⟩
    · apply (ih uc).mono
      rintro x ⟨e', he', hx⟩
      exact ⟨e', List.mem_cons_of_mem _ he', hx⟩

/-! ## The loop as a fold -/

/-- The entries, each with what the lookup of its symbol gives. -/
def lookedUp (elf : ElfFile) (es : List (ElfSection × ElfRelocation)) :
    List (Except JavaException ElfSymbol × ElfRelocation) :=
  es.map fun e => (relocationSymbol elf e.1 e.2, e.2)

/-- What an entry makes of the bytes of its target, if it changes them. -/
def newBytes (m : Module) (e : Except JavaException ElfSymbol × ElfRelocation) :
    Option (List UInt8 → List UInt8) :=
  match e.1 with
  | .error _ => none
  | .ok symbol => (relocatedValue m symbol e.2).map fun f bytes =>
      cut (longToBytesLittle (f (bytes2IntLittle bytes).toInt64)) 4

/-- The engine after an entry whose target is mapped. -/
def relocStep (m : Module) (uc : Unicorn) (e : Except JavaException ElfSymbol × ElfRelocation) :
    Unicorn :=
  match newBytes m e with
  | none => uc
  | some g => { uc with mem := modifyBytes uc.mem (target m e.2) 4 g }

variable {e e' : Except JavaException ElfSymbol × ElfRelocation} {g : List UInt8 → List UInt8}

theorem newBytes_eq_some (h : newBytes m e = some g) :
    e.2.Handled ∧ ∀ bytes, (g bytes).length = 4 := by
  rw [newBytes] at h
  cases hsymbol : e.1 with
  | error err =>
    rw [hsymbol] at h
    cases h
  | ok symbol =>
    rw [hsymbol] at h
    obtain ⟨f, hf, rfl⟩ := Option.map_eq_some_iff.1 h
    exact ⟨handled_of_relocatedValue hf, fun _ => rfl⟩

theorem regions_relocStep : (relocStep m uc e).regions = uc.regions := by
  rw [relocStep]
  split <;> rfl

theorem run_relocate_eq (symbol : ElfSymbol) {relocation : ElfRelocation}
    (hmapped : relocation.Handled → uc.checkMemArea (target m relocation) 4 = true) :
    (relocate m symbol relocation).run uc = .ok () (relocStep m uc (.ok symbol, relocation)) := by
  cases hvalue : relocatedValue m symbol relocation with
  | none =>
    have hnew : newBytes m (.ok symbol, relocation) = none := by simp [newBytes, hvalue]
    rw [run_relocate_of_none hvalue, relocStep, hnew]
  | some f =>
    have hnew : newBytes m (.ok symbol, relocation) = some fun bytes =>
        cut (longToBytesLittle (f (bytes2IntLittle bytes).toInt64)) 4 := by
      simp [newBytes, hvalue]
    rw [run_relocate_of_some hvalue (hmapped (handled_of_relocatedValue hvalue)), relocStep, hnew]
    rfl

/-- The symbols of all entries exist. -/
def AllFound (elf : ElfFile) (es : List (ElfSection × ElfRelocation)) : Prop :=
  ∀ e ∈ es, ∃ symbol, relocationSymbol elf e.1 e.2 = .ok symbol

/-- If all symbols exist and all targets are mapped, the loop goes through all entries. -/
theorem run_relocateAll_eq (hfound : AllFound elf es)
    (hmapped : ∀ e ∈ es, e.2.Handled → uc.checkMemArea (target m e.2) 4 = true) :
    (relocateAll elf m es).run uc = .ok () ((lookedUp elf es).foldl (relocStep m) uc) := by
  induction es generalizing uc with
  | nil => rfl
  | cons e es ih =>
    obtain ⟨symbol, hsymbol⟩ := hfound e List.mem_cons_self
    have hget : (getOrThrow (relocationSymbol elf e.1 e.2) : UcM ElfSymbol).run uc =
        .ok symbol uc := getOrThrow_eq_ok.2 ⟨hsymbol, rfl⟩
    have hrun := run_relocate_eq symbol (hmapped e List.mem_cons_self)
    rw [relocateAll, bind_of_ok hget, bind_of_ok hrun, lookedUp, List.map_cons, List.foldl_cons,
      hsymbol]
    refine ih (fun e' he' => hfound e' (List.mem_cons_of_mem _ he')) fun e' he' hh => ?_
    -- What is mapped does not change, so the other targets stay mapped.
    rw [Unicorn.checkMemArea_congr regions_relocStep]
    exact hmapped e' (List.mem_cons_of_mem _ he') hh

/-- Entries whose targets are apart can change places. -/
theorem relocStep_comm (hapart : e.2.Handled → e'.2.Handled →
      WordsApart (target m e.2) (target m e'.2)) (uc : Unicorn) :
    relocStep m (relocStep m uc e) e' = relocStep m (relocStep m uc e') e := by
  cases hnew : newBytes m e with
  | none => simp only [relocStep, hnew]
  | some g =>
    cases hnew' : newBytes m e' with
    | none => simp only [relocStep, hnew, hnew']
    | some g' =>
      obtain ⟨hh, hlen⟩ := newBytes_eq_some hnew
      obtain ⟨hh', hlen'⟩ := newBytes_eq_some hnew'
      have hcomm := modifyBytes_comm (m := uc.mem) hlen hlen' (by decide) (by decide)
        fun x => (hapart hh hh').symm.not_within
      simp only [relocStep, hnew, hnew', hcomm]

/-- The fold does not depend on the order. -/
theorem foldl_relocStep_perm (hperm : (lookedUp elf es).Perm (lookedUp elf' es'))
    (hapart : es.Pairwise (TargetsApart m)) (uc : Unicorn) :
    (lookedUp elf es).foldl (relocStep m) uc = (lookedUp elf' es').foldl (relocStep m) uc := by
  have hpairs : (lookedUp elf es).Pairwise fun e e' =>
      e.2.Handled → e'.2.Handled → WordsApart (target m e.2) (target m e'.2) :=
    List.pairwise_map.2 hapart
  have : Std.Symm fun e e' : Except JavaException ElfSymbol × ElfRelocation =>
      e.2.Handled → e'.2.Handled → WordsApart (target m e.2) (target m e'.2) :=
    ⟨fun _ _ h hh' hh => (h hh hh').symm⟩
  apply hperm.foldl_eq'
  intro e he e' he' uc
  -- An entry commutes with itself; two of them are apart.
  by_cases heq : e = e'
  · rw [heq]
  · exact relocStep_comm (hpairs.forall he he' heq) uc

/-! ## Any two orders -/

theorem exists_mem_of_perm (hperm : (lookedUp elf es).Perm (lookedUp elf' es'))
    {e : ElfSection × ElfRelocation} (he : e ∈ es') :
    ∃ e₀ ∈ es, relocationSymbol elf e₀.1 e₀.2 = relocationSymbol elf' e.1 e.2 ∧ e₀.2 = e.2 := by
  have hmem : (relocationSymbol elf' e.1 e.2, e.2) ∈ lookedUp elf es :=
    hperm.mem_iff.2 (List.mem_map_of_mem he)
  obtain ⟨e₀, he₀, heq⟩ := List.mem_map.1 hmem
  exact ⟨e₀, he₀, Prod.ext_iff.1 heq⟩

theorem allFound_of_perm (hperm : (lookedUp elf es).Perm (lookedUp elf' es'))
    (hfound : AllFound elf es) : AllFound elf' es' := by
  intro e he
  obtain ⟨e₀, he₀, heq, -⟩ := exists_mem_of_perm hperm he
  rw [← heq]
  exact hfound e₀ he₀

theorem throws_of_not_allFound (h : ¬AllFound elf es) (uc : Unicorn) :
    ∃ err uc', (relocateAll elf m es).run uc = .error err uc' := by
  cases hrun : (relocateAll elf m es).run uc with
  | error err uc' => exact ⟨err, uc', rfl⟩
  | ok u uc' =>
    refine absurd (fun e he => ?_) h
    obtain ⟨symbol, hsymbol, -⟩ := canRelocate_of_run hrun e he
    exact ⟨symbol, hsymbol⟩

/-- Two orders of the same entries, with mapped targets that do not overlap, end in the same state
of the engine, or both throw if the symbol of an entry does not exist. In both cases only target
words are modified. -/
theorem relocateDynSymbols_perm {sections sections' : List ElfSection}
    (hperm : (lookedUp elf (relocations sections)).Perm (lookedUp elf' (relocations sections')))
    (hmapped : ∀ e ∈ relocations sections,
      e.2.Handled → uc.checkMemArea (target m e.2) 4 = true)
    (hapart : (relocations sections).Pairwise (TargetsApart m)) :
    (AllFound elf (relocations sections) →
      ∃ uc', (relocateDynSymbols elf m sections).run uc = .ok () uc' ∧
        (relocateDynSymbols elf' m sections').run uc = .ok () uc') ∧
    (¬AllFound elf (relocations sections) →
      (∃ err uc', (relocateDynSymbols elf m sections).run uc = .error err uc') ∧
        ∃ err uc', (relocateDynSymbols elf' m sections').run uc = .error err uc') ∧
    Touches (IsTarget m (relocations sections)) uc
      (finalState ((relocateDynSymbols elf m sections).run uc)) ∧
    Touches (IsTarget m (relocations sections)) uc
      (finalState ((relocateDynSymbols elf' m sections').run uc)) := by
  rw [relocateDynSymbols_eq, relocateDynSymbols_eq]
  refine ⟨fun hfound => ?_, fun hnot => ⟨?_, ?_⟩, keeps_relocateAll _ _ _ uc, ?_⟩
  · refine ⟨_, run_relocateAll_eq hfound hmapped, ?_⟩
    rw [foldl_relocStep_perm hperm hapart]
    refine run_relocateAll_eq (allFound_of_perm hperm hfound) fun e he hh => ?_
    obtain ⟨e₀, he₀, -, heq⟩ := exists_mem_of_perm hperm he
    rw [← heq] at hh ⊢
    exact hmapped e₀ he₀ hh
  · exact throws_of_not_allFound hnot uc
  · exact throws_of_not_allFound (fun hfound => hnot (allFound_of_perm hperm.symm hfound)) uc
  · apply (keeps_relocateAll elf' m (relocations sections') uc).mono
    rintro x ⟨e, he, hx⟩
    obtain ⟨e₀, he₀, -, heq⟩ := exists_mem_of_perm hperm he
    exact ⟨e₀, he₀, heq ▸ hx⟩

/-- Two entries of different types, in both orders. -/
theorem relocateDynSymbols_perm_small :
    let abs : ElfRelocation := ⟨.class32, 0, 0x102, 0⟩
    let relative : ElfRelocation := ⟨.class32, 4, 0x17, 0⟩
    let m : Module := (.unlinked 0xA0001000 0 (none, none))
    let elf := relocFile [⟨some "f", 0x40, 0x12, 1⟩] [abs, relative]
    let elf' := relocFile [⟨some "f", 0x40, 0x12, 1⟩] [relative, abs]
    ∃ uc', (relocateDynSymbols elf m elf.sections).run relocPages = .ok () uc' ∧
      (relocateDynSymbols elf' m elf'.sections).run relocPages = .ok () uc' := by
  intro abs relative m elf elf'
  have hperm : (lookedUp elf (relocations elf.sections)).Perm
      (lookedUp elf' (relocations elf'.sections)) := .swap _ _ []
  have hmapped : ∀ e ∈ relocations elf.sections,
      e.2.Handled → relocPages.checkMemArea (target m e.2) 4 = true := by decide +kernel
  refine (relocateDynSymbols_perm hperm hmapped (by decide +kernel)).1 fun e he => ?_
  have he' : e ∈ [(_, abs), (_, relative)] := he
  simp only [List.mem_cons, List.not_mem_nil, or_false] at he'
  rcases he' with rfl | rfl
  · exact ⟨⟨some "f", 0x40, 0x12, 1⟩, by decide +kernel⟩
  · exact ⟨⟨none, 0, 0, 0⟩, by decide +kernel⟩

/-- The second entry names a symbol that is not in the table. In the order of the file the first
word is relocated before the exception, in the other order it is not. -/
theorem order_matters_without_symbol :
    let abs : ElfRelocation := ⟨.class32, 0, 0x102, 0⟩
    let broken : ElfRelocation := ⟨.class32, 4, 0x902, 0⟩
    let m : Module := (.unlinked 0xA0001000 0 (none, none))
    let elf := relocFile [⟨some "f", 0x40, 0x12, 1⟩] [abs, broken]
    let elf' := relocFile [⟨some "f", 0x40, 0x12, 1⟩] [broken, abs]
    (lookedUp elf (relocations elf.sections)).Perm (lookedUp elf' (relocations elf'.sections)) ∧
      (∀ e ∈ relocations elf.sections, relocPages.checkMemArea (target m e.2) 4 = true) ∧
      (relocations elf.sections).Pairwise (TargetsApart m) ∧
      (finalState ((relocateDynSymbols elf m elf.sections).run relocPages)).wordAt 0xA0001000 ≠
        (finalState ((relocateDynSymbols elf' m elf'.sections).run relocPages)).wordAt
          0xA0001000 :=
  ⟨.swap _ _ [], by decide +kernel, by decide +kernel, by decide +kernel⟩

end Tank
