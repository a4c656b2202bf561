import Tank.Hook.Hookers

/-!
# Function hooks

`Hooker` calls a Java function when the engine comes to the address of a native one. Every
`addFuncHook` adds the same `Hooker` to the hooks for executed code once more, and the ranges that
they are added with have no effect, so that each instruction is passed to it as often as functions
were registered. Each time it looks up the value that `PC` has by then.

`fires_once_iff` says for which instructions the function of their address is called exactly once.

What the functions do is a parameter `callback`; `none` is `null`. The hooks of `SymHooker` and
`JHandler` come before these ones.
-/

namespace Tank

open ToMathlib

/-- `IFunc`: a Java function for a native one, by its identity. -/
structure IFunc where
  ref : ℕ
  addr : Int64
deriving DecidableEq, Repr

/-- `Hooker` -/
structure Hooker where
  hookers : Int64 → Option IFunc
  /-- How often it is in the list of the hooks for executed code. -/
  added : ℕ

/-- The engine during the delivery of an instruction to the `Hooker`. -/
structure FuncDelivery where
  uc : Unicorn
  /-- `emu_stop` was called. -/
  stopped : Bool
  /-- The functions that were called. -/
  calls : List IFunc

/-- Code of the `Hooker`. -/
abbrev FuncM := EStateM JavaException FuncDelivery

/-- `reg_write` of `PC`: the lowest bit selects Thumb code and is not part of the address. -/
def Unicorn.setPc (uc : Unicorn) (value : Int64) : Unicorn :=
  { uc with regs := Function.update uc.regs .pc (value.toUInt64.toUInt32 &&& ~~~1) }

namespace Hooker

/-- The constructor. -/
def create : Hooker := ⟨fun _ => none, 0⟩

/-- `addFuncHook` -/
def addFuncHook (h : Hooker) (func : IFunc) : Hooker where
  hookers := Function.update h.hookers func.addr (some func)
  added := h.added + 1

/-- The `Hooker` with these functions. -/
def ofFuncs (funcs : List IFunc) : Hooker := funcs.foldl addFuncHook create

/-- The function that is registered for the value of `PC`, of which `AlignUtils.pc` keeps the low
32 bits. -/
def atPc (h : Hooker) (uc : Unicorn) : Option IFunc := h.hookers (uc.regRead .pc)

variable (callback : IFunc → UcM (Option CallRet))

/-- `hook`. Without a result of the function, asking it for `hasReturn` throws. -/
def hook (h : Hooker) : FuncM Unit := fun s =>
  let lr := s.uc.regRead .lr
  match h.atPc s.uc with
  | none => .ok () s
  | some f =>
    match (callback f).run s.uc with
    | .error _ uc => .error .nullPointer { uc, stopped := true, calls := s.calls ++ [f] }
    | .ok none uc => .error .nullPointer { s with uc, calls := s.calls ++ [f] }
    | .ok (some ret) uc =>
      if ret.hasReturn then
        let uc := finalState ((Unicorn.regWrite .r0 ret.value).run uc)
        .ok () { s with uc := uc.setPc lr, calls := s.calls ++ [f] }
      else .ok () { s with uc, calls := s.calls ++ [f] }

/-- The entries of the `Hooker` in `invokeCodeCallbacks`; an exception ends the loop. -/
def invoke (h : Hooker) : ℕ → FuncM Unit
  | 0 => pure ()
  | n + 1 => do
    h.hook callback
    h.invoke n

/-- The functions that are called for an instruction. -/
def delivered (h : Hooker) (uc : Unicorn) : List IFunc :=
  (finalState ((h.invoke callback h.added).run ⟨uc, false, []⟩)).calls

/-- The functions that are registered for the address of the instruction are called once each, and
no other one. -/
def FiresOnce (funcs : List IFunc) (uc : Unicorn) : Prop :=
  (ofFuncs funcs).delivered callback uc = funcs.filter fun f => f.addr = uc.regRead .pc

/-- After the function of the address has returned, `PC` is at no registered address. -/
def LeavesHooks (h : Hooker) (uc : Unicorn) : Prop :=
  ∀ s, (h.hook callback).run ⟨uc, false, []⟩ = .ok () s → h.atPc s.uc = none

variable {callback} {h : Hooker} {s : FuncDelivery} {f : IFunc}

theorem added_ofFuncs (funcs : List IFunc) : (ofFuncs funcs).added = funcs.length := by
  have hfold : ∀ h : Hooker, (funcs.foldl addFuncHook h).added = h.added + funcs.length := by
    induction funcs with
    | nil => exact fun _ => rfl
    | cons func funcs ih =>
      intro h
      have hadd : (h.addFuncHook func).added = h.added + 1 := rfl
      rw [List.foldl_cons, ih, List.length_cons]
      omega
  rw [ofFuncs, hfold]
  exact Nat.zero_add _

/-- With distinct addresses an address has the one function that was registered for it. -/
theorem toList_hookers_ofFuncs {funcs : List IFunc} (hdistinct : (funcs.map IFunc.addr).Nodup)
    (a : Int64) : ((ofFuncs funcs).hookers a).toList = funcs.filter fun f => f.addr = a := by
  induction funcs using List.reverseRecOn with
  | nil => rfl
  | append_singleton funcs func ih =>
    rw [List.map_append, List.nodup_append] at hdistinct
    obtain ⟨hdistinct, -, hne⟩ := hdistinct
    have hadd : (ofFuncs (funcs ++ [func])).hookers =
        Function.update (ofFuncs funcs).hookers func.addr (some func) := by
      rw [ofFuncs, List.foldl_append]
      rfl
    rw [hadd, List.filter_append]
    by_cases ha : a = func.addr
    · subst ha
      -- No function before it has the address.
      have hnone : funcs.filter (fun f => f.addr = func.addr) = [] := by
        rw [List.filter_eq_nil_iff]
        intro f hf
        simpa using hne f.addr (List.mem_map_of_mem hf) func.addr (by simp)
      rw [Function.update_self, hnone]
      simp
    · rw [Function.update_of_ne ha, ih hdistinct]
      simp [Ne.symm ha]

theorem leavesHooks_of_ok {uc : Unicorn} (hrun : (h.hook callback).run ⟨uc, false, []⟩ = .ok () s) :
    h.LeavesHooks callback uc ↔ h.atPc s.uc = none :=
  ⟨fun hleaves => hleaves s hrun, fun hnone s' hrun' => by
    obtain ⟨-, rfl⟩ := EStateM.Result.ok.inj (hrun.symm.trans hrun')
    exact hnone⟩

theorem run_hook_of_none (hnone : h.atPc s.uc = none) : (h.hook callback).run s = .ok () s := by
  simp only [EStateM.run, hook, hnone]

/-- The function of the address is called. -/
theorem calls_hook_of_some (hsome : h.atPc s.uc = some f) :
    (finalState ((h.hook callback).run s)).calls = s.calls ++ [f] := by
  simp only [EStateM.run, hook, hsome]
  split
  · rfl
  · rfl
  · split_ifs <;> rfl

/-- Where no function is registered nothing is called, however often the instruction is
delivered. -/
theorem run_invoke_of_none (hnone : h.atPc s.uc = none) (n : ℕ) :
    (h.invoke callback n).run s = .ok () s := by
  induction n with
  | zero => rfl
  | succ n ih => rw [invoke, bind_of_ok (run_hook_of_none hnone), ih]

/-- Functions that were called stay called. -/
theorem calls_prefix_invoke (n : ℕ) (s : FuncDelivery) :
    s.calls <+: (finalState ((h.invoke callback n).run s)).calls := by
  have hhook : Keeps (fun s s' => s.calls <+: s'.calls) (h.hook callback) := by
    intro s
    cases hpc : h.atPc s.uc with
    | none =>
      rw [run_hook_of_none hpc]
      exact List.prefix_rfl
    | some f =>
      rw [calls_hook_of_some hpc]
      exact List.prefix_append _ _
  induction n generalizing s with
  | zero => exact List.prefix_rfl
  | succ n ih =>
    have : IsTrans FuncDelivery fun s s' => s.calls <+: s'.calls :=
      ⟨fun _ _ _ => List.IsPrefix.trans⟩
    exact rel_finalState_bind (R := fun s s' => s.calls <+: s'.calls) (hhook s) fun _ s => ih s

/-- The function of the address is called, and that is not taken back. -/
theorem calls_append_prefix_invoke (hsome : h.atPc s.uc = some f) (n : ℕ) :
    s.calls ++ [f] <+: (finalState ((h.invoke callback (n + 1)).run s)).calls := by
  rw [← calls_hook_of_some hsome, invoke]
  cases hrun : (h.hook callback).run s with
  | ok a s' =>
    rw [bind_of_ok hrun]
    exact calls_prefix_invoke n s'
  | error err s' => simpa only [bind_of_error hrun] using List.prefix_rfl

/-- The calls for an instruction, if it is delivered at least once. -/
theorem calls_invoke_succ_iff (uc : Unicorn) (n : ℕ) :
    (finalState ((h.invoke callback (n + 1)).run ⟨uc, false, []⟩)).calls = (h.atPc uc).toList ↔
      n = 0 ∨ h.LeavesHooks callback uc := by
  rw [invoke]
  cases hpc : h.atPc uc with
  | none =>
    have hrun : (h.hook callback).run ⟨uc, false, []⟩ = .ok () ⟨uc, false, []⟩ :=
      run_hook_of_none (s := ⟨uc, false, []⟩) hpc
    rw [bind_of_ok hrun, run_invoke_of_none hpc]
    exact ⟨fun _ => .inr ((leavesHooks_of_ok hrun).2 hpc), fun _ => rfl⟩
  | some f =>
    have hcalls : (finalState ((h.hook callback).run ⟨uc, false, []⟩)).calls = [f] :=
      calls_hook_of_some (s := ⟨uc, false, []⟩) hpc
    cases hrun : (h.hook callback).run ⟨uc, false, []⟩ with
    | error err s =>
      -- The exception keeps the instruction from being delivered again.
      rw [hrun] at hcalls
      rw [bind_of_error hrun]
      have hleaves : h.LeavesHooks callback uc := by
        intro s' hok
        rw [hrun] at hok
        cases hok
      exact ⟨fun _ => .inr hleaves, fun _ => hcalls⟩
    | ok a s =>
      rw [hrun] at hcalls
      have hcalls : s.calls = [f] := hcalls
      rw [bind_of_ok hrun, leavesHooks_of_ok hrun]
      cases hpc' : h.atPc s.uc with
      | none =>
        rw [run_invoke_of_none hpc']
        exact ⟨fun _ => .inr rfl, fun _ => hcalls⟩
      | some g =>
        cases n with
        | zero => exact ⟨fun _ => .inl rfl, fun _ => hcalls⟩
        | succ n =>
          -- The next delivery calls `g` as well.
          have hmore : s.calls ++ [g] <+: (finalState ((h.invoke callback (n + 1)).run s)).calls :=
            calls_append_prefix_invoke hpc' n
          rw [hcalls] at hmore
          constructor
          · intro honly
            rw [honly] at hmore
            exact absurd hmore.length_le (by simp)
          · rintro (hzero | hnone)
            · cases hzero
            · cases hnone

/-- The function that is registered for the address of an instruction is called exactly once, and no
other one, exactly if it is the only function or if `PC` is at no registered address when it has
returned. -/
theorem fires_once_iff (callback : IFunc → UcM (Option CallRet)) {funcs : List IFunc}
    (hdistinct : (funcs.map IFunc.addr).Nodup) (uc : Unicorn) :
    FiresOnce callback funcs uc ↔
      funcs.length = 1 ∨ (ofFuncs funcs).LeavesHooks callback uc := by
  rw [FiresOnce, ← toList_hookers_ofFuncs hdistinct, delivered, added_ofFuncs]
  cases hlen : funcs.length with
  | zero =>
    obtain rfl := List.eq_nil_of_length_eq_zero hlen
    have hleaves : (ofFuncs []).LeavesHooks callback uc := fun s _ => rfl
    exact ⟨fun _ => .inr hleaves, fun _ => rfl⟩
  | succ n =>
    rw [Nat.add_eq_right]
    exact calls_invoke_succ_iff uc n

/-- A function that returns for the native one. -/
def answer (_ : IFunc) : UcM (Option CallRet) := pure (some ⟨true, 7⟩)

/-- A function that looks at the arguments and lets the native one run, as `testSample` has it. -/
def observe (_ : IFunc) : UcM (Option CallRet) := pure (some ⟨false, 0⟩)

/-- Two functions at different addresses. -/
def twoFuncs : List IFunc := [⟨0, 0x1000⟩, ⟨1, 0x2000⟩]

/-- The engine at the first function, called from `0x3000`. -/
def atFirst : Unicorn where
  regions := []
  mem := fun _ => 0
  perms := fun _ => 0
  upper := fun _ => 0
  mapCalls := []
  regs
    | .pc => 0x1000
    | .lr => 0x3001
    | _ => 0

theorem fires_once_answer :
    FiresOnce answer twoFuncs atFirst ∧
      (ofFuncs twoFuncs).delivered answer atFirst = [⟨0, 0x1000⟩] :=
  ⟨(fires_once_iff answer (by decide) atFirst).2 <| .inr fun _ hrun => by cases hrun; decide,
    by decide⟩

/-- With two functions, one that asks for no return is called twice. -/
theorem observe_fires_twice :
    (twoFuncs.map IFunc.addr).Nodup ∧ ¬FiresOnce observe twoFuncs atFirst ∧
      (ofFuncs twoFuncs).delivered observe atFirst = [⟨0, 0x1000⟩, ⟨0, 0x1000⟩] := by
  refine ⟨by decide, ?_, by decide⟩
  rw [FiresOnce]
  decide

end Hooker

end Tank
