import Tank.Hook.StubExecution
import Tank.Hook.TableIds

/-!
# From the constructors to the first call

The constructor of `Jvm` writes the function table of the invocation interface and then, in the
constructor of `JniEnv`, the one of the JNI environment. Native code gets a pointer to the first one
and asks `GetEnv` for the second one. From there on it calls Java functions through the entries of
the table, which are stubs.

* `exists_boot`: what the constructors leave;
* `leads_jni`, `leads_jvm`: as long as the guest does not write to the region of the stubs, the
  entries of both tables lead to stubs of their own functions and of no others, except for the two
  functions of the JVM that share their ids with symbol hooks.
-/

namespace Tank

open ToMathlib StubWriter

/-! ## The two tables -/

/-- The functions of the invocation interface, by their indices. -/
def jvmFunc (idx : ℕ) : IJFunc := ⟨idx, 3⟩

/-- `Jvm.initTables`: `DestroyJavaVM`, `AttachCurrentThread`, `DetachCurrentThread`, `GetEnv` and
`AttachCurrentThreadAsDaemon`. -/
def jvmTable : List (Int64 × IJFunc) := tableFrom 3 5 jvmFunc

/-- The numbers of arguments in `initJniTables`; all others are zero. -/
def jniAcounts : List (ℕ × Int32) := List.flatten [
  [(6, 2), (9, 4), (21, 1), (22, 2), (23, 2), (24, 2), (25, 2), (28, 4), (29, 4), (30, 4), (31, 2),
    (32, 3), (33, 4)],
  [35, 38, 41, 44, 47, 50, 53, 56, 59, 61, 62, 94].map (·, 4),
  (List.range' 95 9).map (·, 3),
  (List.range' 104 9).map (·, 4),
  [113, 114, 115, 117, 118, 121, 124, 127, 130, 133, 136, 139, 141, 142, 144].map (·, 4),
  (List.range' 145 9).map (·, 3),
  (List.range' 154 9).map (·, 4),
  [(163, 3), (164, 2), (165, 3), (166, 3), (167, 2), (171, 2), (172, 4), (173, 3), (174, 4),
    (175, 2), (183, 3), (191, 4), (199, 5), (207, 5), (215, 4), (219, 2)]]

/-- The functions of the JNI environment, by their indices. -/
def jniFunc (idx : ℕ) : IJFunc := ⟨0x100 + idx, (jniAcounts.lookup idx).getD 0⟩

/-- `initJniTables` has a function for every index from 4 to 232. -/
def jniTable : List (Int64 × IJFunc) := tableFrom 4 229 jniFunc

/-- The part of the constructors of `Jvm` and `JniEnv` that writes the tables. -/
def bootTables : EnvM (TableRet × TableRet) := do
  let jvm ← HookEnv.writeFunctionTable jvmTable
  let jni ← HookEnv.writeFunctionTable jniTable
  pure (jvm, jni)

theorem indexMax_jvmTable : indexMax jvmTable = .ok 8 := rfl

theorem indexMax_jniTable : indexMax jniTable = .ok 233 := by decide +kernel

theorem isTable_jvmTable : IsTable jvmTable := ⟨by decide, by decide⟩

theorem isTable_jniTable : IsTable jniTable := ⟨by decide, by decide +kernel⟩

/-- Each function is in one of the tables only. -/
theorem apart_tables : Apart jvmTable jniTable := by
  rintro f ⟨i, hi⟩ ⟨j, hj⟩
  obtain ⟨k, hk, hik⟩ := List.mem_map.1 (mem_of_lookup hi)
  obtain ⟨l, -, hjl⟩ := List.mem_map.1 (mem_of_lookup hj)
  have hlt : k < 3 + 5 := (List.mem_range'_1.1 hk).2
  have href : k = 0x100 + l :=
    congrArg IJFunc.ref ((Prod.mk.inj hik).2.trans (Prod.mk.inj hjl).2.symm)
  omega

theorem tableBytes_jvmTable : tableBytes jvmTable = 96 := by decide

/-- There is plenty of room. -/
theorem tableBytes_jniTable_le : tableBytes jniTable ≤ 3732 := by
  have hmax : maxIndex jniTable = 232 := by decide +kernel
  have hcount : stubCount jniTable (tableIndices jniTable) ≤ 233 := by
    have hlen : (tableIndices jniTable).length = 233 := by
      rw [tableIndices, List.length_map, List.length_range, hmax]
      rfl
    exact hlen ▸ List.countP_le_length
  rw [tableBytes, hmax]
  omega

/-! ## The constructors -/

/-- Only `SymHooker` has been at work, and its functions have ids below `next`. -/
structure SymsOnly (uc : Unicorn) (next : ℤ) (env : HookEnv) : Prop where
  regions : env.uc.regions = uc.regions
  perms : env.uc.perms = uc.perms
  jHandler : env.jHandler = StubWriter.start (jvmHookMemoryBase + 4)
  nextId : env.symHooker.currentId.toInt ≤ next
  hooks : ∀ id : Int64, next ≤ id.toInt → env.symHooker.hooks id = none

variable {uc : Unicorn} {env : HookEnv}

theorem SymsOnly.mono {next next' : ℤ} (h : SymsOnly uc next env) (hle : next ≤ next') :
    SymsOnly uc next' env :=
  ⟨h.regions, h.perms, h.jHandler, h.nextId.trans hle, fun id hid => h.hooks id (hle.trans hid)⟩

theorem SymsOnly.addHook {next : ℤ} (h : SymsOnly uc next env) (hnext : next + 1 < 2 ^ 63)
    (name : String) (size : Int32) (ic : IC) :
    SymsOnly uc (next + 1) (finalState ((HookEnv.addHook name size ic).run env)) := by
  have hlast := h.nextId
  have hid : (env.symHooker.currentId + 1).toInt ≤ next + 1 := by
    have hsucc : (env.symHooker.currentId + 1).toInt = env.symHooker.currentId.toInt + 1 :=
      toInt_add_ofNat_of_lt (n := 1) (by omega)
    omega
  have hwrite := Unicorn.run_memWrite env.symHooker.hookCurrent (asmCode env.symHooker.currentId)
    env.uc
  simp only [EStateM.run] at hwrite
  simp only [EStateM.run, HookEnv.addHook, bind, EStateM.bind, HookEnv.liftSym, writeCFunction,
    getNextId, getHookCurrent, writeStub, hwrite]
  by_cases hmapped : env.uc.checkMemArea env.symHooker.hookCurrent.toUInt64
      (asmCode env.symHooker.currentId).length = true
  · rw [if_pos hmapped]
    refine ⟨h.regions, h.perms, h.jHandler, hid, fun id hle => ?_⟩
    have hne : id ≠ env.symHooker.currentId := by
      rintro rfl
      omega
    exact (Function.update_of_ne hne _ _).trans (h.hooks id (by omega))
  · -- A stub that cannot be written uses up its id.
    rw [if_neg hmapped]
    exact ⟨h.regions, h.perms, h.jHandler, hid, fun id hle => h.hooks id (by omega)⟩

/-- The constructor of `SymHooker` uses the ids `0xFF00` and `0xFF01`. -/
theorem symsOnly_create (uc : Unicorn) : SymsOnly uc 0xFF02 (HookEnv.create uc) := by
  have hstart : SymsOnly uc 0xFF00 (HookEnv.start uc) := ⟨rfl, rfl, rfl, le_rfl, fun _ _ => rfl⟩
  have hfirst := hstart.addHook (by decide) "__system_property_get" 2 HookEnv.systemPropertyGet
  rw [HookEnv.create, HookEnv.init]
  refine finalState_bind_cases (P := SymsOnly uc 0xFF02) (fun e env' hrun => ?_)
    fun a env' hrun => ?_
  · rw [hrun] at hfirst
    exact hfirst.mono (by decide)
  · rw [hrun] at hfirst
    exact hfirst.addHook (by decide) "dlopen" 2 HookEnv.dlopen

/-- The region of the stubs of `JHandler`. -/
def InJvmRegion (x : UInt64) : Prop :=
  jvmHookMemoryBase.toInt ≤ x.toNat ∧
    (x.toNat : ℤ) < jvmHookMemoryBase.toInt + jvmHookMemorySize.toInt

/-- The region of the stubs is mapped, and its code can be read and executed. -/
def RegionReady (uc : Unicorn) : Prop :=
  ∀ x, InJvmRegion x → uc.mapped x = true ∧ uc.perms x &&& 5 = 5

/-- What the constructors leave: both tables, and the ids of their functions. -/
structure Booted (env : HookEnv) (jvm jni : TableRet) : Prop where
  ready : WriterReady (jvmHookMemoryBase + 4) (jvmHookMemoryBase + jvmHookMemorySize)
    (env.uc, env.jHandler)
  cursor : env.jHandler.hookCurrent.toInt ≤ jvmHookMemoryBase.toInt + jvmHookMemorySize.toInt
  rights : ∀ x, InJvmRegion x → env.uc.perms x &&& 5 = 5
  jvmTable : TableBelow (env.uc, env.jHandler) jvmTable jvm
  jvmAbove : TableAbove jvmHookMemoryBase.toInt env.jHandler Tank.jvmTable jvm
  jniTable : TableBelow (env.uc, env.jHandler) jniTable jni
  jniAbove : TableAbove jvmHookMemoryBase.toInt env.jHandler Tank.jniTable jni
  symIds : ∀ id : Int64, 0xFF02 ≤ id.toInt → env.symHooker.hooks id = none
  jvmIds : ∀ id : Int64, env.jHandler.hooks id =
    (((List.range' 4 229).map jniFunc)[(id - 0xFF05).toUInt64.toNat]?).or
      (((List.range' 3 5).map jvmFunc)[(id - 0xFF00).toUInt64.toNat]?)

theorem run_liftJvm_of_ok {α : Type} {m : StubM IJFunc α} {a : α}
    {s : Unicorn × StubWriter IJFunc} (h : m.run (env.uc, env.jHandler) = .ok a s) :
    (HookEnv.liftJvm m).run env = .ok a { env with uc := s.1, jHandler := s.2 } := by
  simp only [EStateM.run, HookEnv.liftJvm] at h ⊢
  rw [h]

/-- The constructors return if the region of the stubs is mapped. -/
theorem exists_boot (hregion : RegionReady uc) :
    ∃ jvm jni env, bootTables.run (HookEnv.create uc) = .ok (jvm, jni) env ∧
      Booted env jvm jni ∧ env.uc.regions = uc.regions ∧ env.uc.perms = uc.perms := by
  obtain ⟨hregions, hperms, hhandler, -, hsyms⟩ := symsOnly_create uc
  have hmapped' : ∀ x : UInt64, jvmHookMemoryBase.toInt ≤ x.toNat →
      (x.toNat : ℤ) < jvmHookMemoryBase.toInt + jvmHookMemorySize.toInt →
        (HookEnv.create uc).uc.mapped x = true := by
    intro x hlow hhigh
    rw [Unicorn.mapped_congr hregions]
    exact (hregion x ⟨hlow, hhigh⟩).1
  have hready := writerReady_jvm (F := IJFunc) hmapped'
  have hbounds := toInt_jvmHookMemory
  have hbase : jvmHookMemoryBase.toInt ≤ (jvmHookMemoryBase + 4).toInt := by decide
  have hbytes := tableBytes_jvmTable
  have hbytes' := tableBytes_jniTable_le
  obtain ⟨jvm, s₁, hrun₁, hready₁, hwrites₁, hcursor₁, hbelow₁⟩ :=
    run_writeFunctionTable isRegion32_jvm isTable_jvmTable hready
      (show (jvmHookMemoryBase + 4).toInt + _ ≤ _ by omega)
  have hcursor₁' : s₁.2.hookCurrent.toInt = 0x30000004 + 96 := by
    rw [hcursor₁, hbytes]
    rfl
  obtain ⟨jni, s₂, hrun₂, hready₂, hwrites₂, hcursor₂, hbelow₂⟩ :=
    run_writeFunctionTable isRegion32_jvm isTable_jniTable hready₁ (by omega)
  obtain ⟨hhooks₁, hid₁⟩ := hooks_writeFunctionTable indexMax_jvmTable hrun₁
  obtain ⟨hhooks₂, -⟩ := hooks_writeFunctionTable indexMax_jniTable hrun₂
  have hfuncs₁ : tableFuncs jvmTable (indices 8) = (List.range' 3 5).map jvmFunc :=
    tableFuncs_tableFrom (by decide)
  have hfuncs₂ : tableFuncs jniTable (indices 233) = (List.range' 4 229).map jniFunc :=
    tableFuncs_tableFrom (by decide)
  have hnext : s₁.2.currentId = 0xFF05 := by
    rw [hid₁, hfuncs₁]
    rfl
  rw [hfuncs₁] at hhooks₁
  rw [hfuncs₂, hnext, hhooks₁] at hhooks₂
  have habove₁ := tableAbove_writeFunctionTable isRegion32_jvm indexMax_jvmTable hready
    (fun i f => mem_indices_of_lookup)
    (show (jvmHookMemoryBase + 4).toInt + 16 * 8 + 4 ≤ _ by omega) hrun₁
  have hlen : (indices 233).length = 233 := by
    rw [indices, List.length_map, List.length_range]
    rfl
  have habove₂ := tableAbove_writeFunctionTable isRegion32_jvm indexMax_jniTable hready₁
    (fun i f => mem_indices_of_lookup)
    (by rw [hlen]; omega) hrun₂
  rw [← hhandler] at hrun₁
  let env₁ : HookEnv := { HookEnv.create uc with uc := s₁.1, jHandler := s₁.2 }
  let env₂ : HookEnv := { HookEnv.create uc with uc := s₂.1, jHandler := s₂.2 }
  have hlift₁ : (HookEnv.writeFunctionTable jvmTable).run (HookEnv.create uc) = .ok jvm env₁ :=
    run_liftJvm_of_ok hrun₁
  have hlift₂ : (HookEnv.writeFunctionTable jniTable).run env₁ = .ok jni env₂ :=
    run_liftJvm_of_ok hrun₂
  have hperms₂ : env₂.uc.perms = uc.perms := hwrites₂.perms.trans (hwrites₁.perms.trans hperms)
  refine ⟨jvm, jni, env₂, ?_, ?_, ?_, hperms₂⟩
  · rw [bootTables, bind_of_ok hlift₁, bind_of_ok hlift₂]
    rfl
  · refine ⟨hready₂, ?_, fun x hx => ?_, ?_, ?_, hbelow₂, ?_, hsyms, fun id => ?_⟩
    · show s₂.2.hookCurrent.toInt ≤ 0x30200000
      omega
    · rw [hperms₂]
      exact (hregion x hx).2
    · exact hbelow₁.mono hwrites₂ apart_tables
    · refine ⟨hbase.trans habove₁.ptrLow, hbase.trans habove₁.tableLow, fun i f hf => ?_⟩
      show _ ≤ (s₂.2.hookAddr f).toInt
      rw [hwrites₂.addrs f (apart_tables f ⟨i, hf⟩)]
      exact hbase.trans (habove₁.stubLow i f hf)
    · have hle : jvmHookMemoryBase.toInt ≤ s₁.2.hookCurrent.toInt := by
        show 0x30000000 ≤ _
        omega
      exact ⟨hle.trans habove₂.ptrLow, hle.trans habove₂.tableLow,
        fun i f hf => hle.trans (habove₂.stubLow i f hf)⟩
    · show s₂.2.hooks id = _
      have hlen₁ : ((List.range' 3 5).map jvmFunc).length < 2 ^ 64 := by
        rw [List.length_map, List.length_range']
        decide
      have hlen₂ : ((List.range' 4 229).map jniFunc).length < 2 ^ 64 := by
        rw [List.length_map, List.length_range']
        decide
      rw [hhooks₂, registerFrom_apply _ _ hlen₂, registerFrom_apply _ _ hlen₁]
      exact congrArg _ Option.or_none
  · exact hwrites₂.regions.trans (hwrites₁.regions.trans hregions)

theorem booted_of_run (hregion : RegionReady uc) {jvm jni : TableRet}
    (hrun : bootTables.run (HookEnv.create uc) = .ok (jvm, jni) env) : Booted env jvm jni := by
  obtain ⟨jvm', jni', env', hrun', hbooted, -⟩ := exists_boot hregion
  cases hrun.symm.trans hrun'
  exact hbooted

/-! ## What the guest finds in the tables -/

/-- What native code calls for `(*p)->f`, where `f` has the index `idx`. -/
def entryOf (uc : Unicorn) (p : UInt32) (idx : ℕ) : Option UInt32 := do
  let table ← uc.wordAt p.toUInt64
  uc.wordAt (table + 4 * UInt32.ofNat idx).toUInt64

/-- A stub that calls a function of `JHandler`, and none of `SymHooker`. -/
structure OwnStub (env : HookEnv) (uc : Unicorn) (func : IJFunc) (stub : UInt32) (id : Int64) :
    Prop where
  aligned : 4 ∣ stub.toNat
  low : jvmHookMemoryBase.toInt ≤ stub.toNat
  high : stub.toNat + 12 ≤ jvmHookMemoryBase.toInt + jvmHookMemorySize.toInt
  code : uc.Holds stub (asmCode id)
  rights : ∀ x, Within stub.toUInt64 12 x → uc.perms x &&& 5 = 5
  idLow : 0 ≤ id.toInt
  idHigh : id.toInt < 2 ^ 32
  jvm : env.jHandler.hooks id = some func
  sym : env.symHooker.hooks id = none

/-- An entry of a table leads to a stub of the function. -/
def Leads (env : HookEnv) (uc : Unicorn) (p : UInt32) (idx : ℕ) (func : IJFunc) : Prop :=
  ∃ entry stub id, entryOf uc p idx = some entry ∧ bx entry = ⟨true, stub⟩ ∧
    OwnStub env uc func stub id

/-- The guest has neither written to the region of the stubs nor changed its permissions. -/
def Intact (env : HookEnv) (uc : Unicorn) : Prop :=
  ∀ x, InJvmRegion x → env.uc.SameAt uc x

section Leads

variable {jvm jni ret : TableRet} {table : List (Int64 × IJFunc)} {idx : ℕ} {func : IJFunc}
  {uc' : Unicorn}

theorem toUInt64_low32 {a : Int64} (hlow : 0 ≤ a.toInt) (hhigh : a.toInt < 2 ^ 32) :
    (low32 a).toUInt64 = a.toUInt64 := by
  apply UInt64.toNat_inj.1
  have hnat : (a.toUInt64.toNat : ℤ) = a.toInt := toNat_toUInt64 hlow
  rw [UInt32.toNat_toUInt64, toNat_low32]
  omega

/-- Bytes of the region are as they were written. -/
theorem Intact.sameAt (h : Intact env uc') {a : Int64} {n : ℕ}
    (hlow : jvmHookMemoryBase.toInt ≤ a.toInt)
    (hhigh : a.toInt + n ≤ jvmHookMemoryBase.toInt + jvmHookMemorySize.toInt) (x : UInt64)
    (hx : Within a.toUInt64 n x) : InJvmRegion x ∧ env.uc.SameAt uc' x := by
  have hbounds := toInt_jvmHookMemory
  have hnat : (a.toUInt64.toNat : ℤ) = a.toInt := toNat_toUInt64 (by omega)
  rw [within_iff (by omega)] at hx
  have hin : InJvmRegion x := ⟨by omega, by omega⟩
  exact ⟨hin, h x hin⟩

/-- A word below the cursor is still there. -/
theorem Intact.wordAt (h : Intact env uc') (hbooted : Booted env jvm jni) {a : Int64} {v : UInt32}
    (hword : WordBelow (env.uc, env.jHandler) a v) (hlow : jvmHookMemoryBase.toInt ≤ a.toInt) :
    uc'.wordAt (low32 a).toUInt64 = some v := by
  have hbounds := toInt_jvmHookMemory
  have hhigh : a.toInt + (4 : ℕ) ≤ jvmHookMemoryBase.toInt + jvmHookMemorySize.toInt :=
    hword.high.trans hbooted.cursor
  obtain ⟨hmapped, hvalue⟩ := Unicorn.checkMemArea_of_wordAt hword.word
  rw [toUInt64_low32 (by omega) (by omega), ← hvalue]
  refine Unicorn.wordAt_of_guestByte length_readBytes fun k hk => ?_
  have hin : Within a.toUInt64 4 (a.toUInt64 + UInt64.ofNat k) := within_add hk (by decide)
  rw [(h.sameAt hlow hhigh _ hin).2.1, Unicorn.guestByte,
    if_pos (Unicorn.mapped_of_checkMemArea hmapped hin),
    List.getElem?_eq_getElem (by rw [length_readBytes]; exact hk), getElem_readBytes]

/-- A stub is still there, and the two hooks agree on whose it is. -/
theorem Intact.ownStub (h : Intact env uc') (hbooted : Booted env jvm jni) {id stub : Int64}
    (hstub : StubAt (env.uc, env.jHandler) func id stub)
    (hlow : jvmHookMemoryBase.toInt ≤ stub.toInt) (hid : 0xFF02 ≤ id.toInt) :
    OwnStub env uc' func (low32 stub) id := by
  have hbounds := toInt_jvmHookMemory
  have hcursor := hbooted.cursor
  have hlast := hbooted.ready.lastId
  have hidlt := hstub.lastId
  have haligned := hstub.aligned
  have hhigh : stub.toInt + (12 : ℕ) ≤ jvmHookMemoryBase.toInt + jvmHookMemorySize.toInt :=
    hstub.high.trans hcursor
  have haddr := toUInt64_low32 (a := stub) (by omega) (by omega)
  have hnat : ((low32 stub).toNat : ℤ) = stub.toInt := by
    have hnat' : (stub.toUInt64.toNat : ℤ) = stub.toInt := toNat_toUInt64 (by omega)
    rw [toNat_low32]
    omega
  have hheld : env.uc.Holds (low32 stub) (asmCode id) :=
    ⟨haddr ▸ hstub.mapped, haddr ▸ hstub.code⟩
  refine ⟨by omega, by omega, by omega, ?_, fun x hx => ?_, hstub.firstId, ?_, hstub.hook,
    hbooted.symIds id hid⟩
  · refine hheld.congr (show 12 ≤ 2 ^ 64 by decide) fun x hx => ?_
    rw [haddr] at hx
    exact (h.sameAt hlow hhigh x hx).2.1
  · rw [haddr] at hx
    obtain ⟨hin, -, hperms⟩ := h.sameAt hlow hhigh x hx
    rw [hperms]
    exact hbooted.rights x hin
  · dsimp only at hlast hidlt
    omega

/-- An id at a distance from another one. -/
theorem toInt_of_sub {id first : Int64} {k : ℕ} (h : (id - first).toUInt64.toNat = k)
    (hfirst : first.toInt + k < 2 ^ 63) (hk : k < 2 ^ 63) : id.toInt = first.toInt + k := by
  have hsub : id - first = Int64.ofNat k := by
    have hnat : (id - first).toUInt64 = UInt64.ofNat k := by
      rw [← UInt64.toNat_inj, h, UInt64.toNat_ofNat', Nat.mod_eq_of_lt (by omega)]
    exact congrArg UInt64.toInt64 hnat
  have hadd : id = first + Int64.ofNat k := by
    rw [← hsub, Int64.add_comm, Int64.sub_add_cancel]
  rw [hadd]
  exact toInt_add_ofNat_of_lt hfirst

/-- The ids of `JHandler`. -/
theorem Booted.ids (h : Booted env jvm jni) {id : Int64} (hid : env.jHandler.hooks id = some func) :
    (∃ k : ℕ, k < 229 ∧ id.toInt = 0xFF05 + k ∧ func = jniFunc (4 + k)) ∨
      ∃ k : ℕ, k < 5 ∧ id.toInt = 0xFF00 + k ∧ func = jvmFunc (3 + k) := by
  have hjniFirst : (0xFF05 : Int64).toInt = 0xFF05 := rfl
  have hjvmFirst : (0xFF00 : Int64).toInt = 0xFF00 := rfl
  rw [h.jvmIds, Option.or_eq_some_iff] at hid
  rcases hid with hjni | ⟨-, hjvm⟩
  · obtain ⟨hlt, hget⟩ := List.getElem?_eq_some_iff.1 hjni
    rw [List.getElem_map, List.getElem_range', Nat.one_mul] at hget
    rw [List.length_map, List.length_range'] at hlt
    have htoInt : id.toInt = (0xFF05 : Int64).toInt + (id - 0xFF05).toUInt64.toNat :=
      toInt_of_sub rfl (by omega) (by omega)
    exact .inl ⟨_, hlt, htoInt, hget.symm⟩
  · obtain ⟨hlt, hget⟩ := List.getElem?_eq_some_iff.1 hjvm
    rw [List.getElem_map, List.getElem_range', Nat.one_mul] at hget
    rw [List.length_map, List.length_range'] at hlt
    have htoInt : id.toInt = (0xFF00 : Int64).toInt + (id - 0xFF00).toUInt64.toNat :=
      toInt_of_sub rfl (by omega) (by omega)
    exact .inr ⟨_, hlt, htoInt, hget.symm⟩

theorem low32_ofNat (n : ℕ) : low32 (Int64.ofNat n) = UInt32.ofNat n := by
  apply UInt32.toNat_inj.1
  have hnat : (Int64.ofNat n).toUInt64 = UInt64.ofNat n := rfl
  rw [toNat_low32, hnat, UInt64.toNat_ofNat', UInt32.toNat_ofNat']
  omega

/-- An entry of a table. -/
theorem Intact.leads (h : Intact env uc') (hbooted : Booted env jvm jni)
    (hbelow : TableBelow (env.uc, env.jHandler) table ret)
    (habove : TableAbove jvmHookMemoryBase.toInt env.jHandler table ret) (hidx : idx < 2 ^ 32)
    (hlook : table.lookup (Int64.ofNat idx) = some func)
    (hids : ∀ id, env.jHandler.hooks id = some func → 0xFF02 ≤ id.toInt) :
    Leads env uc' (low32 ret.ptr) idx func := by
  have hbounds := toInt_jvmHookMemory
  have hcursor := hbooted.cursor
  have hhigh : ret.table.toInt ≤ env.jHandler.hookCurrent.toInt := hbelow.high
  have htableLow := habove.tableLow
  have htoInt : (Int64.ofNat idx).toInt = idx := Int64.toInt_ofNat_of_lt (by omega)
  obtain ⟨id, hstub⟩ := hbelow.stubs _ _ hlook
  have hstubLow := habove.stubLow _ _ hlook
  have hown := h.ownStub hbooted hstub hstubLow (hids id hstub.hook)
  refine ⟨low32 (env.jHandler.hookAddr func + 1), low32 (env.jHandler.hookAddr func), id, ?_, ?_,
    hown⟩
  · -- The pointer leads to the table, and the table has the address of the stub.
    have hword := hbelow.words (Int64.ofNat idx) (by omega) ⟨_, mem_of_lookup hlook, le_rfl⟩
    rw [htoInt, Int.toNat_natCast, tableEntry_of_some hlook] at hword
    have haddr : (ret.table + Int64.ofNat (4 * idx)).toInt = ret.table.toInt + (4 * idx : ℕ) :=
      toInt_add_ofNat_of_lt (by omega)
    have hentry := h.wordAt hbooted hword (by omega)
    have hoffset : UInt32.ofNat (4 * idx) = 4 * UInt32.ofNat idx := UInt32.ofNat_mul _ _
    rw [low32_add, low32_ofNat, hoffset] at hentry
    rw [entryOf, h.wordAt hbooted hbelow.ptr habove.ptrLow]
    exact hentry
  · have haligned : 4 ∣ (env.jHandler.hookAddr func).toInt := hstub.aligned
    have hnat : ((env.jHandler.hookAddr func).toUInt64.toNat : ℤ) =
        (env.jHandler.hookAddr func).toInt := toNat_toUInt64 (by omega)
    have heven : IsEven (env.jHandler.hookAddr func) := by
      unfold IsEven
      omega
    exact heven.entersThumb

/-- Every function of the JNI environment is reached. -/
theorem leads_jni (hbooted : Booted env jvm jni) (h : Intact env uc') (hlow : 4 ≤ idx)
    (hhigh : idx ≤ 232) : Leads env uc' (low32 jni.ptr) idx (jniFunc idx) := by
  have hlook : jniTable.lookup (Int64.ofNat idx) = some (jniFunc idx) := by
    rw [jniTable, lookup_tableFrom (by decide) (by omega), if_pos (by omega)]
  refine h.leads hbooted hbooted.jniTable hbooted.jniAbove (by omega) hlook fun id hid => ?_
  rcases hbooted.ids hid with ⟨k, -, htoInt, -⟩ | ⟨k, hk, htoInt, hfunc⟩
  · omega
  · have href : 0x100 + idx = 3 + k := congrArg IJFunc.ref hfunc
    omega

/-- The functions of the invocation interface are reached, but for the first two, which share their
ids with `__system_property_get` and `dlopen`. -/
theorem leads_jvm (hbooted : Booted env jvm jni) (h : Intact env uc') (hlow : 5 ≤ idx)
    (hhigh : idx ≤ 7) : Leads env uc' (low32 jvm.ptr) idx (jvmFunc idx) := by
  have hlook : jvmTable.lookup (Int64.ofNat idx) = some (jvmFunc idx) := by
    rw [jvmTable, lookup_tableFrom (by decide) (by omega), if_pos (by omega)]
  refine h.leads hbooted hbooted.jvmTable hbooted.jvmAbove (by omega) hlook fun id hid => ?_
  rcases hbooted.ids hid with ⟨k, -, htoInt, -⟩ | ⟨k, hk, htoInt, hfunc⟩
  · omega
  · have href : idx = 3 + k := congrArg IJFunc.ref hfunc
    omega

end Leads

end Tank
