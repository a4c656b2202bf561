import Tank.ToMathlib.EState
import Tank.Unicorn
import Tank.Utils.DigitUtils

/-!
# Stubs

`SymHooker` and `JHandler` give guest code an address for a function that is written in Java: a
stub of twelve bytes that loads the id of the function into `R4` and then executes `MOV R4, R4`.
Both count ids from `0xFF00` up and write their stubs one after the other into a region of their
own; here they are one `StubWriter`, which also keeps a history of its stubs.

A stub that does not fit into the region is not written, as the memory after the region is not
mapped, and the writer throws. `StubsIn` says that the stubs lie in the region and do not overlap;
`Extends` is what every run of the writers' code does to it (`keeps_writeCFunction`,
`keeps_writeFunctionTable`).
-/

namespace Tank

open ToMathlib

/-- `asmCode`: `PUSH {R4,LR}; LDR R4, =id; MOV R4, R4; POP {R4,PC}` in Thumb code, and the id. -/
def asmCode (addr : Int64) : List UInt8 :=
  [0x10, 0xB5, 0x01, 0x4C, 0x24, 0x46, 0x10, 0xBD] ++ long2bytes addr 4

/-- The part of a `SymHooker` or `JHandler` that writes stubs for functions of type `F`. -/
structure StubWriter (F : Type) where
  hookCurrent : Int64
  currentId : Int64
  /-- The functions by id. -/
  hooks : Int64 → Option F
  /-- The address that is stored in the object of a function. -/
  hookAddr : F → Int64
  /-- Addresses and functions of the stubs so far. A history that nothing reads. -/
  stubs : List (Int64 × F)

/-- Code of a stub writer. -/
abbrev StubM (F : Type) := EStateM JavaException (Unicorn × StubWriter F)

variable {F : Type}

namespace StubWriter

/-- A writer for the region that starts four bytes before `hookStart`. -/
def start (hookStart : Int64) : StubWriter F where
  hookCurrent := hookStart
  currentId := 0xFF00
  hooks := fun _ => none
  hookAddr := fun _ => 0
  stubs := []

/-! ## Writing stubs -/

/-- `getNextId` -/
def getNextId : StubM F Int64 := fun (uc, w) =>
  .ok w.currentId (uc, { w with currentId := w.currentId + 1 })

def getHookCurrent : StubM F Int64 := fun (uc, w) => .ok w.hookCurrent (uc, w)

/-- `setAddr` of a symbol's function and `setHookAddr` of a Java function. -/
def setHookAddr [DecidableEq F] (func : F) (addr : Int64) : StubM F Unit := fun (uc, w) =>
  .ok () (uc, { w with hookAddr := Function.update w.hookAddr func addr })

/-- Writes the code of a stub, moves on by its length and registers the function. -/
def writeStub (hookIdx : Int64) (func : F) : StubM F Unit := fun (uc, w) =>
  match (Unicorn.memWrite w.hookCurrent (asmCode hookIdx)).run uc with
  | .error err uc => .error err (uc, w)
  | .ok _ uc => .ok () (uc,
    { w with
      hookCurrent := w.hookCurrent + Int64.ofNat (asmCode hookIdx).length
      hooks := Function.update w.hooks hookIdx (some func)
      stubs := w.stubs ++ [(w.hookCurrent, func)] })

/-- `write_u32` at `hook_current`, which moves on. -/
def writeU32 (value : Int64) : StubM F Unit := fun (uc, w) =>
  match (Unicorn.memWrite w.hookCurrent (long2bytes value 4)).run uc with
  | .error err uc => .error err (uc, w)
  | .ok _ uc => .ok () (uc, { w with hookCurrent := w.hookCurrent + 4 })

/-- `SymHooker.writeCFunction` -/
def writeCFunction [DecidableEq F] (is : F) : StubM F Int64 := do
  let hookIdx ← getNextId
  let hookAddr ← getHookCurrent
  writeStub hookIdx is
  setHookAddr is hookAddr
  pure hookAddr

/-- `JHandler.writeFunction`; here the object knows the address before the stub is written. -/
def writeFunction [DecidableEq F] (func : F) : StubM F Bool := do
  let hookIdx ← getNextId
  let hookAddr ← getHookCurrent
  setHookAddr func hookAddr
  writeStub hookIdx func
  pure true

/-! ## Function tables -/

/-- `Collections.max(table.keySet())+1` -/
def indexMax (table : List (Int64 × F)) : Except JavaException Int64 :=
  match (table.map Prod.fst).max? with
  | none => .error .noSuchElement
  | some idx => .ok (idx + 1)

/-- The indices below a bound, as the loops count them. -/
def indices (bound : Int64) : List Int64 := (List.range bound.toInt.toNat).map Int64.ofNat

/-- The first loop of `writeFunctionTable`. -/
def writeFunctions [DecidableEq F] (table : List (Int64 × F)) : List Int64 → StubM F Unit
  | [] => pure ()
  | idx :: idxs =>
    match table.lookup idx with
    | some func => do
      let _ ← writeFunction func
      writeFunctions table idxs
    | none => writeFunctions table idxs

/-- The second loop of `writeFunctionTable`; the addresses are those of Thumb code. -/
def writeTable (table : List (Int64 × F)) : List Int64 → StubM F Unit
  | [] => pure ()
  | idx :: idxs => do
    let s ← get
    writeU32 (match table.lookup idx with
      | some func => s.2.hookAddr func + 1
      | none => 0)
    writeTable table idxs

/-- `TableRet` -/
structure TableRet where
  ptr : Int64
  table : Int64
deriving DecidableEq, Repr

/-- `writeFunctionTable` -/
def writeFunctionTable [DecidableEq F] (table : List (Int64 × F)) : StubM F TableRet := do
  let bound ← getOrThrow (indexMax table)
  writeFunctions table (indices bound)
  let tableAddress ← getHookCurrent
  writeTable table (indices bound)
  let ptrAddress ← getHookCurrent
  writeU32 tableAddress
  pure ⟨ptrAddress, tableAddress⟩

end StubWriter

/-! ## Stubs stay in their region -/

/-- The stubs lie one after the other between `lo` and `hi`. -/
structure StubsIn (lo hi : Int64) (w : StubWriter F) : Prop where
  low : lo.toInt ≤ w.hookCurrent.toInt
  high : w.hookCurrent.toInt ≤ hi.toInt
  each : ∀ stub ∈ w.stubs,
    lo.toInt ≤ stub.1.toInt ∧ stub.1.toInt + 12 ≤ w.hookCurrent.toInt
  apart : w.stubs.Pairwise fun s t => s.1.toInt + 12 ≤ t.1.toInt

/-- The mapped regions are the same, and the stubs still lie in theirs, if nothing is mapped at its
end. -/
def Extends (lo hi : Int64) (s s' : Unicorn × StubWriter F) : Prop :=
  s'.1.regions = s.1.regions ∧
    (s.1.mapped hi.toUInt64 = false → StubsIn lo hi s.2 → StubsIn lo hi s'.2)

/-- Bytes that are all mapped do not reach an address that is not. -/
theorem end_le_of_checkMemArea {uc : Unicorn} {a hi : Int64} {n : ℕ} (ha : 0 ≤ a.toInt)
    (hle : a.toInt ≤ hi.toInt) (harea : uc.checkMemArea a.toUInt64 n = true)
    (hhi : uc.mapped hi.toUInt64 = false) : a.toInt + n ≤ hi.toInt := by
  by_contra hlt
  -- The address `hi` is the byte at this distance.
  have hk : (hi.toInt - a.toInt).toNat < n := by omega
  have hmapped := List.all_eq_true.1 harea _ (List.mem_range.2 hk)
  have hhia : a.toUInt64 + UInt64.ofNat (hi.toInt - a.toInt).toNat = hi.toUInt64 := by
    have hanat : (a.toUInt64.toNat : ℤ) = a.toInt := toNat_toUInt64 ha
    have hhinat : (hi.toUInt64.toNat : ℤ) = hi.toInt := toNat_toUInt64 (by omega)
    have hbound := hi.toUInt64.toNat_lt
    rw [← UInt64.toNat_inj, UInt64.toNat_add, UInt64.toNat_ofNat']
    omega
  rw [hhia, hhi] at hmapped
  cases hmapped

section Keeps

variable {lo hi : Int64}

/-- Stubs that do not overlap have different addresses. -/
theorem StubsIn.nodup {w : StubWriter F} (h : StubsIn lo hi w) :
    (w.stubs.map Prod.fst).Nodup := by
  refine List.pairwise_map.2 (h.apart.imp fun {s t} hst heq => ?_)
  rw [heq] at hst
  omega

instance Extends.isPreorder : IsPreorder (Unicorn × StubWriter F) (Extends lo hi) where
  refl _ := ⟨rfl, fun _ h => h⟩
  trans _ _ _ h₁₂ h₂₃ := by
    refine ⟨h₂₃.1.trans h₁₂.1, fun hun hin => h₂₃.2 ?_ (h₁₂.2 hun hin)⟩
    rw [Unicorn.mapped_congr h₁₂.1]
    exact hun

theorem keeps_getNextId : Keeps (Extends lo hi) (StubWriter.getNextId : StubM F Int64) :=
  fun _ => ⟨rfl, fun _ h => ⟨h.low, h.high, h.each, h.apart⟩⟩

theorem keeps_getHookCurrent : Keeps (Extends lo hi) (StubWriter.getHookCurrent : StubM F Int64) :=
  fun _ => ⟨rfl, fun _ h => h⟩

theorem keeps_setHookAddr [DecidableEq F] (func : F) (addr : Int64) :
    Keeps (Extends lo hi) (StubWriter.setHookAddr func addr) :=
  fun _ => ⟨rfl, fun _ h => ⟨h.low, h.high, h.each, h.apart⟩⟩

/-- Moving on in the region. -/
theorem StubsIn.advance {w w' : StubWriter F} {n : ℕ} (h : StubsIn lo hi w)
    (hnext : w'.hookCurrent.toInt = w.hookCurrent.toInt + n)
    (hend : w.hookCurrent.toInt + n ≤ hi.toInt) (hstubs : w'.stubs = w.stubs) :
    StubsIn lo hi w' := by
  have hlow := h.low
  refine ⟨by omega, by omega, fun stub hstub => ?_, ?_⟩
  · rw [hstubs] at hstub
    have hin := h.each stub hstub
    omega
  · rw [hstubs]
    exact h.apart

/-- A stub written at `hook_current` is the last one. -/
theorem StubsIn.append {w w' : StubWriter F} {func : F} (h : StubsIn lo hi w)
    (hnext : w'.hookCurrent.toInt = w.hookCurrent.toInt + (12 : ℕ))
    (hend : w.hookCurrent.toInt + (12 : ℕ) ≤ hi.toInt)
    (hstubs : w'.stubs = w.stubs ++ [(w.hookCurrent, func)]) : StubsIn lo hi w' := by
  have hlow := h.low
  refine ⟨by omega, by omega, fun stub hstub => ?_, ?_⟩
  · rw [hstubs] at hstub
    -- Older stubs end at or before the old position, the new one begins there.
    rcases List.mem_append.1 hstub with hold | hnew
    · have hin := h.each stub hold
      omega
    · obtain rfl := List.mem_singleton.1 hnew
      dsimp only
      omega
  · rw [hstubs]
    refine List.pairwise_append.2 ⟨h.apart, List.pairwise_singleton _ _, fun s hs t ht => ?_⟩
    rw [List.mem_singleton.1 ht]
    exact (h.each s hs).2

/-- The region has room for a stub below `2 ^ 63`, and no negative addresses. -/
structure IsRegion (lo hi : Int64) : Prop where
  low : 0 ≤ lo.toInt
  high : hi.toInt + 12 < 2 ^ 63

variable (hregion : IsRegion lo hi)

include hregion

/-- A successful write at `hook_current` ends in the region. -/
theorem StubsIn.add_le {w : StubWriter F} {uc : Unicorn} {n : ℕ} (h : StubsIn lo hi w)
    (hn : n ≤ 12) (hun : uc.mapped hi.toUInt64 = false)
    (harea : uc.checkMemArea w.hookCurrent.toUInt64 n = true) :
    (w.hookCurrent + Int64.ofNat n).toInt = w.hookCurrent.toInt + n ∧
      w.hookCurrent.toInt + n ≤ hi.toInt := by
  have hlow := hregion.low
  have hhigh := hregion.high
  have hle := h.low
  -- The end of the region is not mapped, and so not part of what was written.
  have hend := end_le_of_checkMemArea (by omega) h.high harea hun
  have hcast : (Int64.ofNat n).toInt = n := Int64.toInt_ofNat_of_lt (by omega)
  refine ⟨?_, hend⟩
  rw [toInt_add_of_bounds] <;> rw [hcast] <;> omega

theorem keeps_writeStub (hookIdx : Int64) (func : F) :
    Keeps (Extends lo hi) (StubWriter.writeStub hookIdx func) := by
  rintro ⟨uc, w⟩
  simp only [EStateM.run, StubWriter.writeStub, Unicorn.memWrite]
  have hlen : (asmCode hookIdx).length = 12 := rfl
  rw [hlen]
  -- If the stub does not fit, the write fails before anything has changed.
  by_cases harea : uc.checkMemArea w.hookCurrent.toUInt64 12 = true
  · rw [if_pos harea]
    refine ⟨rfl, fun hun (h : StubsIn lo hi w) => ?_⟩
    obtain ⟨hnext, hend⟩ := h.add_le hregion le_rfl hun harea
    exact h.append hnext hend rfl
  · rw [if_neg harea]
    exact Std.Refl.refl (uc, w)

theorem keeps_writeU32 (value : Int64) :
    Keeps (Extends lo hi) (StubWriter.writeU32 value : StubM F Unit) := by
  rintro ⟨uc, w⟩
  simp only [EStateM.run, StubWriter.writeU32, Unicorn.memWrite]
  have hlen : (long2bytes value 4).length = 4 := rfl
  rw [hlen]
  by_cases harea : uc.checkMemArea w.hookCurrent.toUInt64 4 = true
  · rw [if_pos harea]
    refine ⟨rfl, fun hun (h : StubsIn lo hi w) => ?_⟩
    obtain ⟨hnext, hend⟩ := h.add_le hregion (by omega) hun harea
    exact h.advance hnext hend rfl
  · rw [if_neg harea]
    exact Std.Refl.refl (uc, w)

variable [DecidableEq F]

theorem keeps_writeCFunction (is : F) :
    Keeps (Extends lo hi) (StubWriter.writeCFunction is) := by
  rw [StubWriter.writeCFunction]
  refine Keeps.bind keeps_getNextId fun _ => ?_
  refine Keeps.bind keeps_getHookCurrent fun _ => ?_
  refine Keeps.bind (keeps_writeStub hregion _ _) fun _ => ?_
  exact Keeps.bind (keeps_setHookAddr _ _) fun _ => Keeps.pure _

theorem keeps_writeFunction (func : F) :
    Keeps (Extends lo hi) (StubWriter.writeFunction func) := by
  rw [StubWriter.writeFunction]
  refine Keeps.bind keeps_getNextId fun _ => ?_
  refine Keeps.bind keeps_getHookCurrent fun _ => ?_
  refine Keeps.bind (keeps_setHookAddr _ _) fun _ => ?_
  exact Keeps.bind (keeps_writeStub hregion _ _) fun _ => Keeps.pure _

theorem keeps_writeFunctions (table : List (Int64 × F)) (idxs : List Int64) :
    Keeps (Extends lo hi) (StubWriter.writeFunctions table idxs) := by
  induction idxs with
  | nil => exact Keeps.pure _
  | cons idx idxs ih =>
    rw [StubWriter.writeFunctions]
    split
    · exact Keeps.bind (keeps_writeFunction hregion _) fun _ => ih
    · exact ih

omit [DecidableEq F] in
theorem keeps_writeTable (table : List (Int64 × F)) (idxs : List Int64) :
    Keeps (Extends lo hi) (StubWriter.writeTable table idxs) := by
  induction idxs with
  | nil => exact Keeps.pure _
  | cons idx idxs ih =>
    rw [StubWriter.writeTable]
    refine Keeps.get_bind fun _ => ?_
    exact Keeps.bind (keeps_writeU32 hregion _) fun _ => ih

theorem keeps_writeFunctionTable (table : List (Int64 × F)) :
    Keeps (Extends lo hi) (StubWriter.writeFunctionTable table) := by
  rw [StubWriter.writeFunctionTable]
  refine Keeps.bind (Keeps.getOrThrow _) fun _ => ?_
  refine Keeps.bind (keeps_writeFunctions hregion _ _) fun _ => ?_
  refine Keeps.bind keeps_getHookCurrent fun _ => ?_
  refine Keeps.bind (keeps_writeTable hregion _ _) fun _ => ?_
  refine Keeps.bind keeps_getHookCurrent fun _ => ?_
  exact Keeps.bind (keeps_writeU32 hregion _) fun _ => Keeps.pure _

end Keeps

end Tank
