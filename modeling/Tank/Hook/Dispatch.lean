import Tank.Hook.Hookers
import Tank.ToMathlib.Trace

/-!
# Which functions an instruction calls

Each function that was installed has a stub, and is meant to be called by the `MOV R4, R4` of its
own stub and by nothing else (`RunsOwnStub`). But both hooks react to every such instruction, look
only at the id in `R4`, and number their functions from the same id on.

* `delivered_eq`: an instruction calls the function that `SymHooker` has registered for the id in
  `R4`, and then the one that `JHandler` has for it.
* `runsOwnStub_iff`: after any run of installations, an instruction behaves as it should exactly
  if `R4` selects the function of the stub it belongs to, and none in the other table (`OwnOnly`).
* `shared_id_calls_both` is the first stub of each table: its id is the same.
-/

namespace Tank

open ToMathlib NativeCallHelper

/-! ## The calls of one hook -/

/-- The instruction is a `MOV R4, R4` in Thumb code. -/
def isTrap (uc : Unicorn) (address : Int64) (size : Int32) : Bool :=
  size == 2 && uc.checkMemArea address.toUInt64 2 && isMovR4 (readBytes uc.mem address.toUInt64 2)

/-- The function that is registered for the id in `R4`, if its arguments can be read. -/
def registered {F : Type} (hooks : Int64 → Option F) (amount : F → Int32) (uc : Unicorn) :
    Option F :=
  (hooks (uc.regRead .r4)).filter fun func => argsReadable uc (amount func)

/-- The function that a hook calls. -/
def callee {F : Type} (hooks : Int64 → Option F) (amount : F → Int32) (uc : Unicorn)
    (address : Int64) (size : Int32) : Option F :=
  if isTrap uc address size then registered hooks amount uc else none

section TrapHook

variable {F : Type} {callback : Func → Option (List Int64) → UcM CallRet}
  {hooks : Int64 → Option F} {toFunc : F → Func} {amount : F → Int32} {s : Delivery}
  {address : Int64} {size : Int32}

theorem callFunc_of_readable {func : Func} {n : Int32} (h : argsReadable s.uc n = true) :
    (callFunc callback func (readArgs n) s).calls = s.calls ++ [func] := by
  obtain ⟨args, hargs⟩ := run_readArgs_of_readable h
  rw [callFunc, hargs]
  dsimp only
  split <;> rfl

theorem callFunc_of_not_readable {func : Func} {n : Int32} (h : argsReadable s.uc n = false) :
    callFunc callback func (readArgs n) s = { s with stopped := true } := by
  obtain ⟨err, herr⟩ := run_readArgs_of_not_readable h
  rw [callFunc, herr]

/-- `MOV R4, R4`: the function for the id in `R4` is called, if there is one. -/
theorem run_trapHook_of_isTrap {readArgs : F → UcM (Option (List Int64))}
    (h : isTrap s.uc address size = true) :
    (trapHook callback hooks toFunc readArgs address size).run s =
      .ok () (match hooks (s.uc.regRead .r4) with
        | some func => callFunc callback (toFunc func) (readArgs func) s
        | none => s) := by
  simp only [isTrap, Bool.and_eq_true, beq_iff_eq] at h
  obtain ⟨⟨rfl, hmapped⟩, hmov⟩ := h
  simp only [EStateM.run, trapHook, Unicorn.memRead, ne_eq, not_true_eq_false, if_false]
  -- The two bytes are read from mapped memory, and compared.
  rw [show (2 : Int32).toInt.toNat = 2 from rfl, if_pos hmapped]
  simp only [hmov, if_true]
  cases hooks (s.uc.regRead .r4) <;> rfl

/-- Any other instruction is ignored. -/
theorem run_trapHook_of_not_isTrap {readArgs : F → UcM (Option (List Int64))}
    (h : isTrap s.uc address size = false) :
    finalState ((trapHook callback hooks toFunc readArgs address size).run s) = s ∧
      ((size = 2 → s.uc.checkMemArea address.toUInt64 2 = true) →
        (trapHook callback hooks toFunc readArgs address size).run s = .ok () s) := by
  simp only [EStateM.run, trapHook, Unicorn.memRead]
  by_cases hsize : size = 2
  · subst hsize
    rw [if_neg (not_not.2 rfl), show (2 : Int32).toInt.toNat = 2 from rfl]
    -- A read that fails throws; it leaves the state as it was, too.
    by_cases hmapped : s.uc.checkMemArea address.toUInt64 2 = true
    · have hmov : isMovR4 (readBytes s.uc.mem address.toUInt64 2) = false := by
        simpa [isTrap, hmapped] using h
      simp only [hmapped, hmov, if_true]
      exact ⟨rfl, fun _ => rfl⟩
    · rw [if_neg hmapped]
      exact ⟨rfl, fun hexec => absurd (hexec rfl) hmapped⟩
  · rw [if_pos hsize]
    exact ⟨rfl, fun _ => rfl⟩

/-- The hook returns, unless the instruction is not mapped. -/
theorem run_trapHook_eq_ok {readArgs : F → UcM (Option (List Int64))}
    (hmapped : size = 2 → s.uc.checkMemArea address.toUInt64 2 = true) :
    ∃ s', (trapHook callback hooks toFunc readArgs address size).run s = .ok () s' := by
  cases htrap : isTrap s.uc address size with
  | true => exact ⟨_, run_trapHook_of_isTrap htrap⟩
  | false => exact ⟨s, (run_trapHook_of_not_isTrap htrap).2 hmapped⟩

/-- A hook that calls no function leaves the engine alone, up to stopping it. -/
theorem run_trapHook_of_none (toFunc : F → Func) (s : Delivery)
    (h : callee hooks amount s.uc address size = none) :
    ∃ stopped, finalState ((trapHook callback hooks toFunc (fun func => readArgs (amount func))
      address size).run s) = { s with stopped } := by
  cases htrap : isTrap s.uc address size with
  | false => exact ⟨s.stopped, (run_trapHook_of_not_isTrap htrap).1⟩
  | true =>
    rw [callee, if_pos htrap, registered] at h
    rw [run_trapHook_of_isTrap htrap]
    cases hhook : hooks (s.uc.regRead .r4) with
    | none => exact ⟨s.stopped, rfl⟩
    | some func =>
      rw [hhook] at h
      -- The function is registered, but reading its arguments stops the engine.
      have hno : argsReadable s.uc (amount func) = false := by
        simpa [Option.filter] using h
      exact ⟨true, callFunc_of_not_readable hno⟩

/-- A hook calls its function once. -/
theorem run_trapHook_of_some {func : F} (h : callee hooks amount s.uc address size = some func) :
    (finalState ((trapHook callback hooks toFunc (fun func => readArgs (amount func))
      address size).run s)).calls = s.calls ++ [toFunc func] := by
  cases htrap : isTrap s.uc address size with
  | false =>
    rw [callee, htrap] at h
    cases h
  | true =>
    rw [callee, if_pos htrap, registered, Option.filter_eq_some_iff] at h
    obtain ⟨hhook, hread⟩ := h
    rw [run_trapHook_of_isTrap htrap, hhook]
    exact callFunc_of_readable hread

/-- The calls of a hook, in both cases. -/
theorem calls_trapHook (toFunc : F → Func) (amount : F → Int32) (s : Delivery) :
    (finalState ((trapHook callback hooks toFunc (fun func => readArgs (amount func))
      address size).run s)).calls =
      s.calls ++ ((callee hooks amount s.uc address size).map toFunc).toList := by
  cases h : callee hooks amount s.uc address size with
  | none =>
    obtain ⟨stopped, hfinal⟩ := run_trapHook_of_none toFunc s h
    rw [hfinal]
    simp
  | some func => exact run_trapHook_of_some h

end TrapHook

/-! ## The calls of an instruction -/

section Deliver

variable (env : HookEnv) (callback : Func → Option (List Int64) → UcM CallRet) (uc : Unicorn)
  (address : Int64) (size : Int32)

/-- The instruction that the engine executes has been fetched. -/
def Executed : Prop := uc.checkMemArea address.toUInt64 size.toInt.toNat = true

/-- The functions that are called when an instruction is executed. -/
def delivered : List Func :=
  (finalState ((env.deliver callback address size).run ⟨uc, false, []⟩)).calls

/-- The engine as `SymHooker`, and a function that it calls, leave it to `JHandler`. -/
def afterSym : Unicorn :=
  (finalState ((env.symHook callback address size).run ⟨uc, false, []⟩)).uc

/-- The function that `SymHooker` has for the id in `R4`. -/
def symRegistered : Option IS := registered env.symHooker.hooks IS.size uc

/-- The function that `JHandler` has for the id in `R4`; it always reads twelve arguments. -/
def jvmRegistered : Option IJFunc := registered env.jHandler.hooks (fun _ => 12) uc

variable {env callback uc address size}

theorem run_deliver (s : Delivery) :
    (env.deliver callback address size).run s =
      (env.invokeCodeCallbacks callback address size).run s := by
  have hbound : HookEnv.hookBoundCheck 1 0 address.toUInt64 = true :=
    Bool.or_eq_true_iff.2 (Or.inr rfl)
  rw [HookEnv.deliver, if_pos hbound]

theorem calls_symHook (s : Delivery) :
    (finalState ((env.symHook callback address size).run s)).calls =
      s.calls ++ ((callee env.symHooker.hooks IS.size s.uc address size).map
        fun is => Func.sym is.ic).toList :=
  calls_trapHook (fun is : IS => Func.sym is.ic) IS.size s

theorem calls_jvmHook (s : Delivery) :
    (finalState ((env.jvmHook callback address size).run s)).calls =
      s.calls ++ ((callee env.jHandler.hooks (fun _ => 12) s.uc address size).map
        Func.jvm).toList :=
  calls_trapHook Func.jvm (fun _ : IJFunc => 12) s

/-- An instruction calls at most one function of each table. -/
theorem delivered_eq (hexec : Executed uc address size) :
    delivered env callback uc address size =
      ((callee env.symHooker.hooks IS.size uc address size).map fun is => .sym is.ic).toList ++
        ((callee env.jHandler.hooks (fun _ => 12) (afterSym env callback uc address size)
          address size).map .jvm).toList := by
  -- `SymHooker` returns, and `JHandler` runs on what it leaves.
  have hmapped : size = 2 → uc.checkMemArea address.toUInt64 2 = true := by
    rintro rfl
    exact hexec
  obtain ⟨s', hs'⟩ : ∃ s', (env.symHook callback address size).run ⟨uc, false, []⟩ = .ok () s' :=
    run_trapHook_eq_ok hmapped
  have hsym : (finalState ((env.symHook callback address size).run ⟨uc, false, []⟩)).calls =
      [] ++ ((callee env.symHooker.hooks IS.size uc address size).map
        fun is => Func.sym is.ic).toList := calls_symHook _
  have huc : s'.uc = afterSym env callback uc address size := by
    rw [afterSym, hs']
    rfl
  rw [hs'] at hsym
  change s'.calls = _ at hsym
  rw [delivered, run_deliver, HookEnv.invokeCodeCallbacks, bind_of_ok hs', calls_jvmHook, huc, hsym,
    List.nil_append]

/-- If `SymHooker` calls no function, `JHandler` sees the engine unchanged. -/
theorem afterSym_of_none (h : callee env.symHooker.hooks IS.size uc address size = none) :
    afterSym env callback uc address size = uc := by
  obtain ⟨stopped, hfinal⟩ := run_trapHook_of_none (fun is : IS => Func.sym is.ic)
    ⟨uc, false, []⟩ h
  exact congrArg Delivery.uc hfinal

end Deliver

/-! ## What an instruction should call -/

section Own

variable (env : HookEnv) (callback : Func → Option (List Int64) → UcM CallRet) (uc : Unicorn)
  (address : Int64) (size : Int32)

/-- The stubs of both tables, with their functions. -/
def HookEnv.stubs : List (Int64 × Func) :=
  env.symHooker.stubs.map (fun stub => (stub.1, .sym stub.2.ic)) ++
    env.jHandler.stubs.map fun stub => (stub.1, .jvm stub.2)

/-- The function of the stub whose third instruction is at the address. -/
def HookEnv.movStub : Option Func :=
  (env.stubs.find? fun stub => stub.1 + 4 = address).map Prod.snd

/-- The instruction is the `MOV R4, R4` of a stub for the function. -/
def IsMovOf (func : Func) : Prop :=
  isTrap uc address size = true ∧ ∃ stub ∈ env.stubs, stub.1 + 4 = address ∧ stub.2 = func

instance (func : Func) : Decidable (IsMovOf env uc address size func) :=
  inferInstanceAs (Decidable (_ ∧ _))

/-- Every function is called once if the instruction is the `MOV R4, R4` of one of its stubs, and
otherwise not at all. -/
def RunsOwnStub : Prop :=
  ∀ func, (delivered env callback uc address size).count func =
    if IsMovOf env uc address size func then 1 else 0

/-- The id in `R4` selects the function of the stub that `address` belongs to, and no other one. -/
def OwnOnly : Prop :=
  match env.movStub address with
  | some (.sym ic) =>
    -- `JHandler` looks at the id again when the function has returned.
    (symRegistered env uc).map IS.ic = some ic ∧
      (isTrap (afterSym env callback uc address 2) address 2 = true →
        jvmRegistered env (afterSym env callback uc address 2) = none)
  | some (.jvm func) => symRegistered env uc = none ∧ jvmRegistered env uc = some func
  | none => symRegistered env uc = none ∧ jvmRegistered env uc = none

variable {env callback uc address size}

/-- No two stubs have the same address. -/
def HookEnv.StubsDistinct (env : HookEnv) : Prop := (env.stubs.map Prod.fst).Nodup

theorem isMovOf_iff (hdistinct : env.StubsDistinct) {func : Func} :
    IsMovOf env uc address size func ↔
      isTrap uc address size = true ∧ env.movStub address = some func := by
  refine and_congr_right fun _ => ⟨?_, ?_⟩
  · rintro ⟨stub, hmem, haddr, rfl⟩
    cases hfind : env.stubs.find? fun stub => stub.1 + 4 = address with
    | none =>
      have hno := List.find?_eq_none.1 hfind stub hmem
      exact absurd (decide_eq_true haddr) hno
    | some found =>
      -- The stub that is found has the same address, so it is this one.
      have hfound : found.1 + 4 = address := by simpa using List.find?_some hfind
      have haddr' : found.1 = stub.1 := Int64.add_left_inj 4 |>.1 (hfound.trans haddr.symm)
      have hsame : found = stub :=
        List.inj_on_of_nodup_map hdistinct (List.mem_of_find?_eq_some hfind) hmem haddr'
      rw [HookEnv.movStub, hfind, hsame]
      rfl
  · intro hstub
    obtain ⟨stub, hfind, rfl⟩ := Option.map_eq_some_iff.1 hstub
    exact ⟨stub, List.mem_of_find?_eq_some hfind, by simpa using List.find?_some hfind, rfl⟩

/-- A list in which one element is counted once is that element. -/
theorem count_eq_ite_iff {α : Type} [DecidableEq α] {l : List α} {o : Option α} :
    (∀ a, l.count a = if o = some a then 1 else 0) ↔ l = o.toList := by
  have hcount : ∀ a, o.toList.count a = if o = some a then 1 else 0 := by
    intro a
    cases o with
    | none => rfl
    | some b =>
      rw [Option.toList_some, List.count_singleton]
      simp
  constructor
  · intro h
    -- Equal counts make a permutation, and lists of length at most one have no other.
    have hperm : l.Perm o.toList := List.perm_iff_count.2 fun a => (h a).trans (hcount a).symm
    cases o with
    | none => exact hperm.eq_nil
    | some b => exact hperm.eq_singleton
  · rintro rfl
    exact hcount

/-- The calls of an instruction that is no `MOV R4, R4`. -/
theorem runsOwnStub_of_not_isTrap (hexec : Executed uc address size)
    (htrap : isTrap uc address size = false) : RunsOwnStub env callback uc address size := by
  have hsym : callee env.symHooker.hooks IS.size uc address size = none := by
    rw [callee, htrap]
    rfl
  have hjvm : callee env.jHandler.hooks (fun _ => 12) uc address size = none := by
    rw [callee, htrap]
    rfl
  intro func
  have hnot : ¬IsMovOf env uc address size func := fun h => by
    rw [h.1] at htrap
    cases htrap
  rw [if_neg hnot, delivered_eq hexec, afterSym_of_none hsym, hsym, hjvm]
  rfl

/-- An executed `MOV R4, R4` calls what it should exactly if the id in `R4` does not select anything
else. -/
theorem runsOwnStub_iff_of_isTrap (hdistinct : env.StubsDistinct) (hexec : Executed uc address 2)
    (htrap : isTrap uc address 2 = true) :
    RunsOwnStub env callback uc address 2 ↔ OwnOnly env callback uc address := by
  have hsym : callee env.symHooker.hooks IS.size uc address 2 = symRegistered env uc :=
    if_pos htrap
  have hjvm : callee env.jHandler.hooks (fun _ => 12) uc address 2 = jvmRegistered env uc :=
    if_pos htrap
  have hafter : callee env.jHandler.hooks (fun _ => 12) (afterSym env callback uc address 2)
        address 2 = none ↔
      (isTrap (afterSym env callback uc address 2) address 2 = true →
        jvmRegistered env (afterSym env callback uc address 2) = none) := by
    rw [callee]
    split
    next h => exact ⟨fun hnone _ => hnone, fun hnone => hnone h⟩
    next h => exact ⟨fun _ h' => absurd h' h, fun _ => rfl⟩
  -- Counting calls is comparing lists: the one of the stub's function, or the empty one.
  have hcount : RunsOwnStub env callback uc address 2 ↔
      delivered env callback uc address 2 = (env.movStub address).toList := by
    rw [← count_eq_ite_iff]
    refine forall_congr' fun func => ?_
    rw [if_congr ((isMovOf_iff hdistinct).trans (and_iff_right htrap)) rfl rfl]
  rw [hcount, delivered_eq hexec, OwnOnly, hsym]
  -- If `SymHooker` calls nothing, `JHandler` decides alone, on the same state.
  cases hreg : symRegistered env uc with
  | none =>
    rw [afterSym_of_none (hsym.trans hreg), hjvm]
    cases hstub : env.movStub address with
    | none => cases jvmRegistered env uc <;> simp
    | some func =>
      cases func with
      | sym ic => cases jvmRegistered env uc <;> simp
      | jvm func => cases jvmRegistered env uc <;> simp
  | some is =>
    -- `SymHooker` calls a function, so that `JHandler` must not.
    cases hstub : env.movStub address with
    | none => simp
    | some func =>
      cases func with
      | jvm func => simp
      | sym ic =>
        dsimp only
        rw [← hafter]
        cases callee env.jHandler.hooks (fun _ => 12) (afterSym env callback uc address 2) address 2
          <;> simp

end Own

/-! ## Runs of installations -/

/-- What happens to the hooks: functions are installed, and in between the engine changes. -/
inductive HookStep where
  | addHook (name : String) (size : Int32) (ic : IC)
  | writeFunctionTable (table : List (Int64 × IJFunc))
  | engine (uc : Unicorn)

/-- One step; an installation that throws leaves what it has done. -/
def hookStep (env : HookEnv) : HookStep → HookEnv
  | .addHook name size ic => finalState ((HookEnv.addHook name size ic).run env)
  | .writeFunctionTable table => finalState ((HookEnv.writeFunctionTable table).run env)
  | .engine uc => { env with uc }

/-- Nothing is mapped right after the two regions of the stubs. -/
def RegionsBounded (uc : Unicorn) : Prop :=
  uc.mapped (cHookMemoryBase + cHookMemorySize).toUInt64 = false ∧
    uc.mapped (jvmHookMemoryBase + jvmHookMemorySize).toUInt64 = false

instance (uc : Unicorn) : Decidable (RegionsBounded uc) := inferInstanceAs (Decidable (_ ∧ _))

/-- The step does not map memory right after the regions. -/
def HookStep.Bounded : HookStep → Prop
  | .engine uc => RegionsBounded uc
  | _ => True

/-- The stubs of both tables lie in their regions. -/
structure Installed (env : HookEnv) : Prop where
  bounded : RegionsBounded env.uc
  sym : StubsIn (cHookMemoryBase + 4) (cHookMemoryBase + cHookMemorySize) env.symHooker
  jvm : StubsIn (jvmHookMemoryBase + 4) (jvmHookMemoryBase + jvmHookMemorySize) env.jHandler

theorem isRegion_sym : IsRegion (cHookMemoryBase + 4) (cHookMemoryBase + cHookMemorySize) :=
  ⟨by decide, by decide⟩

theorem isRegion_jvm : IsRegion (jvmHookMemoryBase + 4) (jvmHookMemoryBase + jvmHookMemorySize) :=
  ⟨by decide, by decide⟩

theorem stubsIn_start {F : Type} {lo hi : Int64} (h : lo.toInt ≤ hi.toInt) :
    StubsIn lo hi (StubWriter.start lo : StubWriter F) :=
  ⟨le_rfl, h, nofun, List.Pairwise.nil⟩

variable {env : HookEnv}

theorem RegionsBounded.congr {uc uc' : Unicorn} (h : RegionsBounded uc)
    (hregions : uc'.regions = uc.regions) : RegionsBounded uc' := by
  rw [RegionsBounded, Unicorn.mapped_congr hregions, Unicorn.mapped_congr hregions]
  exact h

theorem Installed.liftSym {α : Type} {m : StubM IS α} (h : Installed env)
    (hm : Keeps (Extends (cHookMemoryBase + 4) (cHookMemoryBase + cHookMemorySize)) m) :
    Installed (finalState ((HookEnv.liftSym m).run env)) := by
  have hext := hm (env.uc, env.symHooker)
  -- The other table and the names are not touched.
  have hfinal : finalState ((HookEnv.liftSym m).run env) =
      { env with
        uc := (finalState (m.run (env.uc, env.symHooker))).1
        symHooker := (finalState (m.run (env.uc, env.symHooker))).2 } := by
    simp only [EStateM.run, HookEnv.liftSym]
    split <;> simp only [*, finalState]
  rw [hfinal]
  exact ⟨h.bounded.congr hext.1, hext.2 h.bounded.1 h.sym, h.jvm⟩

theorem Installed.liftJvm {α : Type} {m : StubM IJFunc α} (h : Installed env)
    (hm : Keeps (Extends (jvmHookMemoryBase + 4) (jvmHookMemoryBase + jvmHookMemorySize)) m) :
    Installed (finalState ((HookEnv.liftJvm m).run env)) := by
  have hext := hm (env.uc, env.jHandler)
  have hfinal : finalState ((HookEnv.liftJvm m).run env) =
      { env with
        uc := (finalState (m.run (env.uc, env.jHandler))).1
        jHandler := (finalState (m.run (env.uc, env.jHandler))).2 } := by
    simp only [EStateM.run, HookEnv.liftJvm]
    split <;> simp only [*, finalState]
  rw [hfinal]
  exact ⟨h.bounded.congr hext.1, h.sym, hext.2 h.bounded.2 h.jvm⟩

theorem keeps_addHook (name : String) (size : Int32) (ic : IC) :
    Keeps (fun env env' => Installed env → Installed env') (HookEnv.addHook name size ic) := by
  refine Keeps.bind (fun _ h => ?_) fun _ _ h => ?_
  · exact h.liftSym (keeps_writeCFunction isRegion_sym _)
  · exact ⟨h.bounded, h.sym, h.jvm⟩

theorem installed_create {uc : Unicorn} (h : RegionsBounded uc) :
    Installed (HookEnv.create uc) := by
  have hinit : Keeps (fun env env' => Installed env → Installed env') HookEnv.init :=
    (keeps_addHook _ _ _).bind fun _ => keeps_addHook _ _ _
  exact hinit _ ⟨h, stubsIn_start (by decide), stubsIn_start (by decide)⟩

/-- The step lemma of `Installed`. -/
theorem Installed.step (h : Installed env) {step : HookStep} (hstep : step.Bounded) :
    Installed (hookStep env step) := by
  cases step with
  | engine uc => exact ⟨hstep, h.sym, h.jvm⟩
  | writeFunctionTable table => exact h.liftJvm (keeps_writeFunctionTable isRegion_jvm table)
  | addHook name size ic => exact keeps_addHook name size ic env h

/-- The run lemma of `Installed`. -/
theorem installed_run {steps : List HookStep} (h : Installed env)
    (hsteps : ∀ step ∈ steps, step.Bounded) : Installed (steps.foldl hookStep env) := by
  refine foldl_invariant (I := Installed) (H := fun _ step => step.Bounded) ?_ h fun c hc => ?_
  · intro env step h hstep
    exact h.step hstep
  · exact hsteps c.2 (mem_of_mem_trace hc)

/-- Stubs in the two regions have different addresses. -/
theorem Installed.stubsDistinct (h : Installed env) : env.StubsDistinct := by
  have hbase : (cHookMemoryBase + cHookMemorySize).toInt < (jvmHookMemoryBase + 4).toInt := by
    decide
  rw [HookEnv.StubsDistinct, HookEnv.stubs, List.map_append, List.map_map, List.map_map]
  refine List.nodup_append.2 ⟨h.sym.nodup, h.jvm.nodup, fun a ha b hb hab => ?_⟩
  -- A common address would be in both regions.
  obtain ⟨s, hs, rfl⟩ := List.mem_map.1 ha
  obtain ⟨t, ht, rfl⟩ := List.mem_map.1 hb
  have hab' : s.1 = t.1 := hab
  have hsin := h.sym.each s hs
  have htin := h.jvm.each t ht
  have hshigh := h.sym.high
  rw [hab'] at hsin
  omega

/-- After any run of installations, for functions that do whatever they want: an instruction that
is executed calls what it should exactly if it is no `MOV R4, R4` or the id in `R4` selects the
function of its own stub only. -/
theorem runsOwnStub_iff (uc₀ : Unicorn) (hbounded : RegionsBounded uc₀) (steps : List HookStep)
    (hsteps : ∀ step ∈ steps, step.Bounded)
    (callback : Func → Option (List Int64) → UcM CallRet) (uc : Unicorn) (address : Int64)
    (size : Int32) (hexec : Executed uc address size) :
    let env := steps.foldl hookStep (HookEnv.create uc₀)
    RunsOwnStub env callback uc address size ↔
      (isTrap uc address size = true → OwnOnly env callback uc address) := by
  intro env
  have hdistinct : env.StubsDistinct :=
    (installed_run (installed_create hbounded) hsteps).stubsDistinct
  cases htrap : isTrap uc address size with
  | false =>
    simp only [Bool.false_eq_true, false_imp_iff, iff_true]
    exact runsOwnStub_of_not_isTrap hexec htrap
  | true =>
    -- Only instructions of two bytes are compared with `MOV R4, R4`.
    have hsize : size = 2 := by
      simp only [isTrap, Bool.and_eq_true, beq_iff_eq] at htrap
      exact htrap.1.1
    subst hsize
    rw [runsOwnStub_iff_of_isTrap hdistinct hexec htrap]
    simp

/-- The engine with an id in `R4` and a stack. -/
def withId (uc : Unicorn) (id : UInt32) : Unicorn :=
  { uc with regs := Function.update (Function.update uc.regs .r4 id) .sp 0x000FFF00 }

/-- The stub of `dlopen`, whose id is not one of `JHandler` as long as that has only one
function. -/
theorem runsOwnStub_dlopen :
    let env := hookStep (HookEnv.create MemoryManager.fresh.uc) (.writeFunctionTable [(3, ⟨0, 3⟩)])
    RunsOwnStub env (fun _ _ => pure ⟨true, 0⟩) (withId env.uc 0xFF01) 0x21000014 2 :=
  (runsOwnStub_iff MemoryManager.fresh.uc (by decide +kernel) [.writeFunctionTable [(3, ⟨0, 3⟩)]]
    (by simp [HookStep.Bounded]) _ _ _ _ (show _ = true by decide +kernel)).2
    fun _ => ⟨by decide +kernel, fun _ => by decide +kernel⟩

/-- The first stub of `SymHooker` and the first one of `JHandler` have the same id: the `MOV R4, R4`
of the former also calls the function of the latter. -/
theorem shared_id_calls_both :
    let env := hookStep (HookEnv.create MemoryManager.fresh.uc) (.writeFunctionTable [(3, ⟨0, 3⟩)])
    Executed (withId env.uc 0xFF00) 0x21000008 2 ∧
      delivered env (fun _ _ => pure ⟨true, 0⟩) (withId env.uc 0xFF00) 0x21000008 2 =
        [.sym HookEnv.systemPropertyGet, .jvm ⟨0, 3⟩] ∧
      ¬RunsOwnStub env (fun _ _ => pure ⟨true, 0⟩) (withId env.uc 0xFF00) 0x21000008 2 := by
  refine ⟨show _ = true by decide +kernel, by decide +kernel, fun h => ?_⟩
  exact absurd (h (.jvm ⟨0, 3⟩)) (by decide +kernel)

end Tank
