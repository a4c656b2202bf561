import Tank.Hook.Dispatch
import Tank.Hook.FunctionTable
import Tank.Module.Interposition

/-!
# The instruction set of the stubs

The stubs are Thumb code, and a branch to an address executes Thumb code if bit 0 of the address is
set (`bx`). `JHandler` writes the addresses of its stubs with bit 0 set into its tables. `SymHooker`
registers the plain addresses, which are even, so that a call through a slot of a hooked symbol
executes the bytes of the stub as ARM code.

* `keeps_published`, `published_run`: whatever is installed, each hooked symbol is registered with
  the even address of a stub of its function;
* `tables_thumb`: the words of the tables are entries of Thumb code;
* `symHooks_thumb_iff`: the registered addresses are entries of Thumb code exactly if there are
  none.
-/

namespace Tank

open ToMathlib StubWriter

/-! ## Interworking branches -/

/-- Where a branch goes. -/
structure BranchTarget where
  thumb : Bool
  pc : UInt32
deriving DecidableEq, Repr

/-- `BX` and `BLX` with an address in a register: bit 0 selects the instruction set. -/
def bx (v : UInt32) : BranchTarget := ⟨v &&& 1 == 1, v &&& ~~~1⟩

/-- A branch to `v` executes the Thumb code at `stub`. -/
def EntersThumb (stub : Int64) (v : UInt32) : Prop := bx v = ⟨true, low32 stub⟩

/-- A branch to `v` executes the bytes at `stub` as ARM code. -/
def EntersArm (stub : Int64) (v : UInt32) : Prop := bx v = ⟨false, low32 stub⟩

theorem bx_eq_iff {v pc : UInt32} {thumb : Bool} :
    bx v = ⟨thumb, pc⟩ ↔ decide (v.toNat % 2 = 1) = thumb ∧ v.toNat / 2 * 2 = pc.toNat := by
  have hthumb : (v &&& 1 == 1) = decide (v.toNat % 2 = 1) := by
    rw [Bool.eq_iff_iff, beq_iff_eq, decide_eq_true_iff, ← UInt32.toNat_inj, UInt32.toNat_and]
    exact Eq.congr_left (Nat.and_one_is_mod _)
  -- Clearing bit 0 is shifting it out and back.
  have hpc : (v &&& ~~~1).toNat = v.toNat / 2 * 2 := by
    have hshift : (v &&& ~~~1).toBitVec = v.toBitVec >>> 1 <<< 1 := by
      rw [BitVec.shiftLeft_ushiftRight]
      rfl
    have hlt := v.toNat_lt
    have hv : v.toBitVec.toNat = v.toNat := rfl
    rw [← UInt32.toNat_toBitVec, hshift, BitVec.toNat_shiftLeft, BitVec.toNat_ushiftRight,
      Nat.shiftLeft_eq, Nat.shiftRight_eq_div_pow, hv]
    omega
  rw [bx, BranchTarget.mk.injEq, hthumb, ← UInt32.toNat_inj, hpc]

/-- Bit 0 of the address is not set. -/
def IsEven (a : Int64) : Prop := a.toUInt64.toNat % 2 = 0

instance (a : Int64) : Decidable (IsEven a) := inferInstanceAs (Decidable (_ = _))

variable {a : Int64}

theorem IsEven.toNat_low32 (h : IsEven a) : (low32 a).toNat % 2 = 0 := by
  rw [Tank.toNat_low32]
  unfold IsEven at h
  omega

/-- The address itself leads to ARM code. -/
theorem IsEven.entersArm (h : IsEven a) : EntersArm a (low32 a) := by
  have hlow := h.toNat_low32
  rw [EntersArm, bx_eq_iff, decide_eq_false_iff_not]
  omega

/-- The address with bit 0 set leads to Thumb code. -/
theorem IsEven.entersThumb (h : IsEven a) : EntersThumb a (low32 (a + 1)) := by
  have hlow := h.toNat_low32
  have hlt := (low32 a).toNat_lt
  have hone : (low32 1).toNat = 1 := rfl
  rw [EntersThumb, bx_eq_iff, decide_eq_true_iff, low32_add, UInt32.toNat_add, hone]
  omega

theorem EntersArm.not_entersThumb {stub : Int64} {v : UInt32} (h : EntersArm a v) :
    ¬EntersThumb stub v := by
  intro hthumb
  have hmode := congrArg BranchTarget.thumb (h.symm.trans hthumb)
  cases hmode

/-! ## Symbol hooks -/

/-- Each hooked symbol has the even address of a stub of its function. -/
structure Published (env : HookEnv) : Prop where
  cursor : IsEven env.symHooker.hookCurrent
  stubs : ∀ stub ∈ env.symHooker.stubs, IsEven stub.1
  hooked : ∀ name addr, env.hookedSymbols name = some addr →
    ∃ stub ∈ env.symHooker.stubs, stub.1 = addr ∧ stub.2.name = name

variable {env env' : HookEnv}

/-- What `writeCFunction` does: it throws and has only used up an id, or it returns the address of a
new stub and moves on by twelve bytes. -/
theorem writeCFunction_cases {F : Type} [DecidableEq F] (is : F) (uc : Unicorn) (w : StubWriter F) :
    (∃ err uc', (writeCFunction is).run (uc, w) =
        .error err (uc', { w with currentId := w.currentId + 1 })) ∨
      ∃ uc' w', (writeCFunction is).run (uc, w) = .ok w.hookCurrent (uc', w') ∧
        w'.hookCurrent = w.hookCurrent + 12 ∧ w'.stubs = w.stubs ++ [(w.hookCurrent, is)] := by
  simp only [EStateM.run, writeCFunction, bind, EStateM.bind, getNextId, getHookCurrent, writeStub]
  cases Unicorn.memWrite w.hookCurrent (asmCode w.currentId) uc with
  | error err uc' => exact .inl ⟨err, uc', rfl⟩
  | ok _ uc' => exact .inr ⟨uc', _, rfl, rfl, rfl⟩

/-- What `addHook` does. -/
theorem addHook_cases (name : String) (size : Int32) (ic : IC) (env : HookEnv) :
    (∃ uc, finalState ((HookEnv.addHook name size ic).run env) = { env with
        uc, symHooker := { env.symHooker with currentId := env.symHooker.currentId + 1 } }) ∨
      ∃ uc w, finalState ((HookEnv.addHook name size ic).run env) =
          { env with
            uc
            symHooker := w
            hookedSymbols :=
              Function.update env.hookedSymbols name (some env.symHooker.hookCurrent) } ∧
        w.hookCurrent = env.symHooker.hookCurrent + 12 ∧
        w.stubs = env.symHooker.stubs ++ [(env.symHooker.hookCurrent, ⟨name, size, ic⟩)] := by
  rcases writeCFunction_cases (⟨name, size, ic⟩ : IS) env.uc env.symHooker with
    ⟨err, uc, hrun⟩ | ⟨uc, w, hrun, hcursor, hstubs⟩
  · -- Without a stub the name is not entered, but its id is used up.
    have hlift : (HookEnv.liftSym (writeCFunction ⟨name, size, ic⟩)).run env = .error err { env with
        uc, symHooker := { env.symHooker with currentId := env.symHooker.currentId + 1 } } := by
      simp only [EStateM.run, HookEnv.liftSym] at hrun ⊢
      rw [hrun]
    refine .inl ⟨uc, ?_⟩
    rw [HookEnv.addHook, bind_of_error hlift]
    rfl
  · have hlift : (HookEnv.liftSym (writeCFunction ⟨name, size, ic⟩)).run env =
        .ok env.symHooker.hookCurrent { env with uc, symHooker := w } := by
      simp only [EStateM.run, HookEnv.liftSym] at hrun ⊢
      rw [hrun]
    refine .inr ⟨uc, w, ?_, hcursor, hstubs⟩
    rw [HookEnv.addHook, bind_of_ok hlift]
    rfl

theorem keeps_published (name : String) (size : Int32) (ic : IC) :
    Keeps (fun env env' => Published env → Published env') (HookEnv.addHook name size ic) := by
  intro env h
  rcases addHook_cases name size ic env with ⟨uc, hfinal⟩ | ⟨uc, w, hfinal, hcursor, hstubs⟩
  · rw [hfinal]
    exact ⟨h.cursor, h.stubs, h.hooked⟩
  · rw [hfinal]
    refine ⟨?_, ?_, ?_⟩
    · have heven := h.cursor
      have htwelve : (12 : Int64).toUInt64.toNat = 12 := rfl
      show IsEven w.hookCurrent
      unfold IsEven at heven ⊢
      rw [hcursor, Int64.toUInt64_add, UInt64.toNat_add, htwelve]
      omega
    · show ∀ stub ∈ w.stubs, IsEven stub.1
      rw [hstubs, List.forall_mem_append, List.forall_mem_singleton]
      exact ⟨h.stubs, h.cursor⟩
    · intro name' addr hhook
      show ∃ stub ∈ w.stubs, stub.1 = addr ∧ stub.2.name = name'
      rw [hstubs]
      by_cases hname : name' = name
      · -- The name stands for the new stub from now on.
        subst hname
        dsimp only at hhook
        rw [Function.update_self] at hhook
        exact ⟨_, List.mem_append_right _ List.mem_cons_self, Option.some.inj hhook, rfl⟩
      · dsimp only at hhook
        rw [Function.update_of_ne hname] at hhook
        obtain ⟨stub, hmem, hstub⟩ := h.hooked name' addr hhook
        exact ⟨stub, List.mem_append_left _ hmem, hstub⟩

theorem published_create (uc : Unicorn) : Published (HookEnv.create uc) := by
  have hinit : Keeps (fun env env' => Published env → Published env') HookEnv.init :=
    (keeps_published _ _ _).bind fun _ => keeps_published _ _ _
  exact hinit _ ⟨show IsEven (cHookMemoryBase + 4) by decide, nofun, nofun⟩

theorem Published.step (h : Published env) (step : HookStep) : Published (hookStep env step) := by
  cases step with
  | engine uc => exact ⟨h.cursor, h.stubs, h.hooked⟩
  | addHook name size ic => exact keeps_published name size ic env h
  | writeFunctionTable table =>
    -- `JHandler` has its own cursor and registers no symbol.
    rw [hookStep, HookEnv.writeFunctionTable]
    simp only [EStateM.run, HookEnv.liftJvm]
    split
    · exact ⟨h.cursor, h.stubs, h.hooked⟩
    · exact ⟨h.cursor, h.stubs, h.hooked⟩

theorem published_run (h : Published env) (steps : List HookStep) :
    Published (steps.foldl hookStep env) :=
  foldl_invariant (I := Published) (H := fun _ _ => True) (fun _ step h _ => h.step step) h
    fun _ _ => trivial

theorem Published.isEven (h : Published env) {name : String} {addr : Int64}
    (hhook : env.hookedSymbols name = some addr) : IsEven addr := by
  obtain ⟨stub, hmem, rfl, -⟩ := h.hooked name addr hhook
  exact h.stubs stub hmem

/-- Every symbol is hooked with an entry of the Thumb code of its stub. -/
def SymHooksThumb (env : HookEnv) : Prop :=
  ∀ name addr, env.hookedSymbols name = some addr →
    ∃ stub ∈ env.symHooker.stubs, stub.2.name = name ∧ EntersThumb stub.1 (low32 addr)

/-- Every symbol is hooked with the plain address of its stub. That is what the slots of the modules
hold which are loaded with these hooks, and a branch to it executes the stub as ARM code. -/
def SymHooksArm (env : HookEnv) : Prop :=
  ∀ name addr, env.hookedSymbols name = some addr →
    (∃ stub ∈ env.symHooker.stubs, stub.1 = addr ∧ stub.2.name = name) ∧
      EntersArm addr (low32 addr) ∧
      ∀ emu elf m emu', emu.hookedSymbols = env.hookedSymbols →
        (loadModule elf).run emu = .ok (some m) emu' →
        (relocations elf.sections).Pairwise (TargetsApart m) →
        (∃ sym ∈ tableSymbols elf.sections, sym.name = some name) →
          SlotsHold emu'.memory.uc elf m name addr

theorem Published.symHooksArm (h : Published env) : SymHooksArm env := by
  intro name addr hhook
  have heven := h.isEven hhook
  -- The address that stands for undefined is odd.
  have hne : addr ≠ symbolUndef := by
    rintro rfl
    exact absurd heven (by decide)
  refine ⟨h.hooked name addr hhook, heven.entersArm, ?_⟩
  rintro emu elf m emu' hhooks hload hapart ⟨sym, hsym, hname⟩
  rw [← hhooks] at hhook
  obtain ⟨r, hentry, rfl⟩ := lookupSymbol_of_hooked hload hhook hne hsym hname
  exact slot_of_table hload hapart hentry

theorem SymHooksArm.symHooksThumb_iff (h : SymHooksArm env) :
    SymHooksThumb env ↔ ∀ name, env.hookedSymbols name = none := by
  constructor
  · intro hthumb name
    rw [Option.eq_none_iff_forall_ne_some]
    intro addr hhook
    obtain ⟨-, harm, -⟩ := h name addr hhook
    obtain ⟨stub, -, -, henters⟩ := hthumb name addr hhook
    exact harm.not_entersThumb henters
  · intro hnone name addr hhook
    rw [hnone name] at hhook
    cases hhook

/-! ## Function tables -/

/-- For tables that fit into the mapped region of the JVM hooks, the word of every function is an
entry of the Thumb code of its stub. -/
def TablesThumb : Prop :=
  ∀ (uc : Unicorn) (tables : List (List (Int64 × IJFunc))),
    (∀ x : UInt64, jvmHookMemoryBase.toInt ≤ x.toNat →
      (x.toNat : ℤ) < jvmHookMemoryBase.toInt + jvmHookMemorySize.toInt → uc.mapped x = true) →
    (∀ table ∈ tables, IsTable table) → tables.Pairwise Apart →
    4 + (tables.map tableBytes).sum ≤ jvmHookMemorySize.toInt →
    ∃ rets s, (writeTables tables).run (uc, StubWriter.start (jvmHookMemoryBase + 4)) =
        .ok rets s ∧
      List.Forall₂ (fun table ret => ∀ i f, table.lookup i = some f →
        ∃ v, s.1.wordAt (ret.table + Int64.ofNat (4 * i.toInt.toNat)).toUInt64 = some v ∧
          EntersThumb (s.2.hookAddr f) v) tables rets

theorem StubAt.isEven {F : Type} {s : Unicorn × StubWriter F} {f : F} {id stub : Int64}
    (h : StubAt s f id stub) : IsEven stub := by
  have haligned := h.aligned
  have hnat : (stub.toUInt64.toNat : ℤ) = stub.toInt := toNat_toUInt64 h.low
  unfold IsEven
  omega

theorem tables_thumb : TablesThumb := by
  intro uc tables hmapped htables hapart hfit
  have hbounds := toInt_jvmHookMemory
  obtain ⟨rets, s, hrun, -, -, -, hbelow⟩ := run_writeTables isRegion32_jvm htables hapart
    (writerReady_jvm hmapped) (show (jvmHookMemoryBase + 4).toInt + _ ≤ _ by omega)
  have hboth := (List.forall₂_and_left _ _).2 ⟨fun t (ht : t ∈ tables) => ht, hbelow⟩
  refine ⟨rets, s, hrun, hboth.imp ?_⟩
  rintro table ret ⟨htable, h⟩ i f hf
  have hmem := mem_of_lookup hf
  have hword := h.words i ((htables table htable).nonneg _ hmem) ⟨_, hmem, le_rfl⟩
  obtain ⟨id, hstub⟩ := h.stubs i f hf
  rw [tableEntry_of_some hf] at hword
  exact ⟨_, hword.word, hstub.isEven.entersThumb⟩

/-- After any run of installations the symbols are hooked with entries of Thumb code only if there
are none: a call through a slot of a hooked symbol executes its stub as ARM code. The tables of the
JVM have entries of Thumb code. -/
theorem symHooks_thumb_iff (uc : Unicorn) (steps : List HookStep) :
    let env := steps.foldl hookStep (HookEnv.create uc)
    (SymHooksThumb env ↔ ∀ name, env.hookedSymbols name = none) ∧ SymHooksArm env ∧
      TablesThumb := by
  intro env
  have harm : SymHooksArm env := (published_run (published_create uc) steps).symHooksArm
  exact ⟨harm.symHooksThumb_iff, harm, tables_thumb⟩

/-- A table with one function. -/
theorem symHooks_thumb_small :
    ∃ rets s, (writeTables [[(3, ⟨0, 3⟩)]]).run
        (MemoryManager.fresh.uc, StubWriter.start (jvmHookMemoryBase + 4)) = .ok rets s ∧
      List.Forall₂ (fun table ret => ∀ i f, table.lookup i = some f →
        ∃ v, s.1.wordAt (ret.table + Int64.ofNat (4 * i.toInt.toNat)).toUInt64 = some v ∧
          EntersThumb (s.2.hookAddr f) v) [[((3 : Int64), (⟨0, 3⟩ : IJFunc))]] rets :=
  (symHooks_thumb_iff MemoryManager.fresh.uc []).2.2 MemoryManager.fresh.uc [[(3, ⟨0, 3⟩)]]
    mapped_jvm_fresh (List.forall_mem_singleton.2 ⟨by decide, by decide⟩)
    (List.pairwise_singleton _ _) (by decide +kernel)

/-- `dlopen` is hooked with the address of its stub, the slot of a module that imports it has that
address, and a call through the slot executes ARM code. -/
theorem dlopen_enters_arm :
    let env := HookEnv.create MemoryManager.fresh.uc
    let elf := slotFile ⟨some "dlopen", 0, 0x12, 0⟩
    env.hookedSymbols "dlopen" = some 0x21000010 ∧ ¬SymHooksThumb env ∧
      ∃ m emu', (loadModule elf).run (freshEmulator env.hookedSymbols) = .ok (some m) emu' ∧
        SlotsHold emu'.memory.uc elf m "dlopen" 0x21000010 ∧
        bx (low32 0x21000010) = ⟨false, 0x21000010⟩ := by
  intro env elf
  have hhook : env.hookedSymbols "dlopen" = some 0x21000010 := by decide +kernel
  have harm : SymHooksArm env := (published_create _).symHooksArm
  obtain ⟨m, emu', hload⟩ :=
    exists_of_loads (show loads (freshEmulator env.hookedSymbols) elf = true by decide +kernel)
  refine ⟨hhook, fun hthumb => ?_, m, emu', hload, ?_, by decide⟩
  · have hnone := harm.symHooksThumb_iff.1 hthumb "dlopen"
    rw [hhook] at hnone
    cases hnone
  · have hslots := (harm "dlopen" _ hhook).2.2
    have hmem : ⟨some "dlopen", 0, 0x12, 0⟩ ∈ tableSymbols elf.sections := by decide +kernel
    exact hslots _ elf m emu' rfl hload (List.pairwise_singleton _ _) ⟨_, hmem, rfl⟩

end Tank
