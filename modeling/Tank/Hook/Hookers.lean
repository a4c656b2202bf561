import Tank.Helper.NativeCallHelper
import Tank.Hook.Stubs
import Tank.Memory.MemoryManager

/-!
# Symbol hooks and Java functions

`SymHooker` replaces symbols of native libraries by functions written in Java, `JHandler` does the
same for the function tables of the JVM. Both are hooks for executed code: when the engine executes
`MOV R4, R4` they look up the id in `R4` and call the function that is registered for it.

The binding has one hook in the engine for all of them. It is added with the range `1 .. 0`, which
stands for all addresses, and every executed instruction is passed to every hook in the order in
which they were added (`deliver`): first `SymHooker`, then `JHandler`.

What the functions themselves do is a parameter `callback`. The functions that an instruction has
called are logged in the order of the calls.
-/

namespace Tank

open ToMathlib

/-- A Java object with the code of a symbol's function, by its identity. -/
structure IC where
  ref : ℕ
deriving DecidableEq, Repr

/-- `IS`: the function of a symbol. -/
structure IS where
  name : String
  /-- The number of arguments. -/
  size : Int32
  ic : IC
deriving DecidableEq, Repr

/-- `IJFunc`: a function of the JVM, by its identity. -/
structure IJFunc where
  ref : ℕ
  acount : Int32
deriving DecidableEq, Repr

/-- A function that guest code can call through a stub. -/
inductive Func where
  | sym (ic : IC)
  | jvm (func : IJFunc)
deriving DecidableEq, Repr

/-! ## Installing functions -/

/-- The emulator, as far as its hooks are concerned. -/
structure HookEnv where
  uc : Unicorn
  symHooker : StubWriter IS
  jHandler : StubWriter IJFunc
  hookedSymbols : String → Option Int64

/-- Code that installs functions. -/
abbrev EnvM := EStateM JavaException HookEnv

namespace HookEnv

/-- The emulator with no function installed. -/
def start (uc : Unicorn) : HookEnv where
  uc
  symHooker := StubWriter.start (cHookMemoryBase + 4)
  jHandler := StubWriter.start (jvmHookMemoryBase + 4)
  hookedSymbols := fun _ => none

/-- Runs code of the `SymHooker`. -/
def liftSym {α : Type} (m : StubM IS α) : EnvM α := fun env =>
  match m.run (env.uc, env.symHooker) with
  | .ok a (uc, symHooker) => .ok a { env with uc, symHooker }
  | .error err (uc, symHooker) => .error err { env with uc, symHooker }

/-- Runs code of the `JHandler`. -/
def liftJvm {α : Type} (m : StubM IJFunc α) : EnvM α := fun env =>
  match m.run (env.uc, env.jHandler) with
  | .ok a (uc, jHandler) => .ok a { env with uc, jHandler }
  | .error err (uc, jHandler) => .error err { env with uc, jHandler }

/-- `addSymbolHook` -/
def addSymbolHook (symbol : String) (addr : Int64) : EnvM Unit := fun env =>
  .ok () { env with hookedSymbols := Function.update env.hookedSymbols symbol (some addr) }

/-- `addHook` -/
def addHook (name : String) (size : Int32) (ic : IC) : EnvM Unit := do
  let addr ← liftSym (StubWriter.writeCFunction ⟨name, size, ic⟩)
  addSymbolHook name addr

/-- The functions that `init` installs. -/
def systemPropertyGet : IC := ⟨0⟩
def dlopen : IC := ⟨1⟩

/-- `init` -/
def init : EnvM Unit := do
  addHook "__system_property_get" 2 systemPropertyGet
  addHook "dlopen" 2 dlopen

/-- The emulator after the constructors of `SymHooker` and `JHandler`. -/
def create (uc : Unicorn) : HookEnv := finalState (init.run (start uc))

/-- `writeFunctionTable` -/
def writeFunctionTable (table : List (Int64 × IJFunc)) : EnvM StubWriter.TableRet :=
  liftJvm (StubWriter.writeFunctionTable table)

end HookEnv

/-! ## Calling functions -/

/-- `CallRet` and `JRet`: what a function returns. -/
structure CallRet where
  hasReturn : Bool
  value : Int64
deriving DecidableEq, Repr

/-- The engine during the delivery of an instruction. -/
structure Delivery where
  uc : Unicorn
  /-- `emu_stop` was called. -/
  stopped : Bool
  /-- The functions that were called. -/
  calls : List Func

/-- Code of the hooks. -/
abbrev HookM := EStateM JavaException Delivery

section Hooks

variable (callback : Func → Option (List Int64) → UcM CallRet)

/-- The body of the `try` block of both hooks: the arguments are read, the function is called, and
its result goes to `R0`. An exception stops the engine. -/
def callFunc (func : Func) (readArgs : UcM (Option (List Int64))) (s : Delivery) : Delivery :=
  match readArgs.run s.uc with
  -- The function is not called if its arguments cannot be read.
  | .error _ uc => { s with uc, stopped := true }
  | .ok args uc =>
    match (callback func args).run uc with
    | .error _ uc => { uc, stopped := true, calls := s.calls ++ [func] }
    | .ok ret uc =>
      let uc := if ret.hasReturn then finalState ((Unicorn.regWrite .r0 ret.value).run uc) else uc
      { s with uc, calls := s.calls ++ [func] }

/-- The bytes are those of `MOV R4, R4`. -/
def isMovR4 (h : List UInt8) : Bool := h.getD 0 0 == 0x24 && h.getD 1 0 == 0x46

/-- `hook`, for functions that are found in `hooks` and read their arguments with `readArgs`. -/
def trapHook {F : Type} (hooks : Int64 → Option F) (toFunc : F → Func)
    (readArgs : F → UcM (Option (List Int64))) (address : Int64) (size : Int32) : HookM Unit :=
  fun s =>
    if size ≠ 2 then .ok () s
    else
      match (Unicorn.memRead address size.toInt.toNat).run s.uc with
      | .error err uc => .error err { s with uc }
      | .ok h uc =>
        if isMovR4 h then
          -- The address is not looked at: any `MOV R4, R4` will do.
          match hooks (uc.regRead .r4) with
          | some func => .ok () (callFunc callback (toFunc func) (readArgs func) { s with uc })
          | none => .ok () { s with uc }
        else .ok () { s with uc }

/-- `JCallHelper.readVaArgs` reads twelve arguments, whatever the function takes. -/
def JCallHelper.readVaArgs (_acount : Int32) : UcM (Option (List Int64)) :=
  NativeCallHelper.readVaArgs 12

namespace HookEnv

variable (env : HookEnv)

/-- `SymHooker.hook` -/
def symHook : Int64 → Int32 → HookM Unit :=
  trapHook callback env.symHooker.hooks (fun is => .sym is.ic)
    fun is => NativeCallHelper.readArgs is.size

/-- `JHandler.hook` -/
def jvmHook : Int64 → Int32 → HookM Unit :=
  trapHook callback env.jHandler.hooks .jvm fun func => JCallHelper.readVaArgs func.acount

/-- `invokeCodeCallbacks` -/
def invokeCodeCallbacks (address : Int64) (size : Int32) : HookM Unit := do
  env.symHook callback address size
  env.jvmHook callback address size

/-- `HOOK_BOUND_CHECK` -/
def hookBoundCheck (begin_ end_ addr : UInt64) : Bool :=
  (begin_ ≤ addr && addr ≤ end_) || begin_ > end_

/-- What the engine does with its hooks for an instruction that it is about to execute.
`registerHook` gives the range `1 .. 0` to the one hook that the binding adds, so that the ranges
of `hook_add` have no effect. -/
def deliver (address : Int64) (size : Int32) : HookM Unit :=
  if hookBoundCheck 1 0 address.toUInt64 then env.invokeCodeCallbacks callback address size
  else pure ()

end HookEnv

end Hooks

end Tank
