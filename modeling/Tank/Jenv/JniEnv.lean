import Tank.Jenv.References
import Tank.ToMathlib.EState
import Tank.Unicorn

/-!
# References of the JNI environment

`JniEnv` gives native code handles for Java objects: local ones from a table that starts at 1 and
global ones from a table that starts at 4096. `getReference` finds out from the range of a handle
which table it belongs to. The ranges end at 2049 and at 516096, but the tables give out indices
beyond them.

The JNI functions that make or delete references are modelled. All functions that hand a new object
to native code do it in the same way (`newReference`).
-/

namespace Tank

open ToMathlib

variable {O : Type}

/-- `JniEnv`, as far as references are concerned. -/
structure JniEnv (O : Type) where
  locals : References O
  globals : References O

/-- Code of the JNI functions. -/
abbrev JniM (O : Type) := EStateM JavaException (JniEnv O)

namespace JniEnv

/-- The constructor. -/
def create : JniEnv O := ⟨.create 1 2048, .create 4096 512000⟩

/-- `getReference`; `none` is `null`. -/
def getReference (env : JniEnv O) (idx : ℤ) : Except JavaException (Option O) :=
  if idx = 0 then .ok none
  -- A free index in range is `null`; only one out of range throws.
  else if env.locals.table.inRange idx then .ok (env.locals.table.get idx)
  else if env.globals.table.inRange idx then .ok (env.globals.table.get idx)
  else .error (.exception ("Invalid reference(" ++ toString idx ++ ")"))

/-- `getLocalReference` -/
def getLocalReference (env : JniEnv O) (idx : ℤ) : Option O := env.locals.resolve idx

/-- `addLocalReference` -/
def addLocalReference (env : JniEnv O) (ref : O) : JniEnv O × ℤ :=
  let (locals, idx) := env.locals.add ref
  ({ env with locals }, idx)

/-- `addGlobalReference` -/
def addGlobalReference (env : JniEnv O) (ref : O) : JniEnv O × ℤ :=
  let (globals, idx) := env.globals.add ref
  ({ env with globals }, idx)

theorem live_addLocalReference (env : JniEnv O) (ref : O) :
    (env.addLocalReference ref).1.locals.live =
      (env.locals.table.freeIndex, ref) :: env.locals.live := rfl

/-! ### JNI functions

They return the value of their `JRet`, or `none` if it has none. -/

/-- How `FindClass`, `NewObjectV`, `NewString`, `NewBooleanArray`, `NewObjectArray`,
`GetObjectArrayElement` and, by `genJRet`, the functions that read a field or call a method return
an object. -/
def newReference (object : O) : JniM O (Option ℤ) := fun env =>
  let (env, ref) := env.addLocalReference object
  .ok (some ref) env

/-- `NewLocalRef` -/
def newLocalRef (refIdx : ℤ) : JniM O (Option ℤ) := fun env =>
  match env.getReference refIdx with
  | .error err => .error err env
  | .ok none => .ok none env
  | .ok (some object) =>
    let (env, ref) := env.addLocalReference object
    .ok (some ref) env

/-- `NewGlobalRef` -/
def newGlobalRef (refIdx : ℤ) : JniM O (Option ℤ) := fun env =>
  if refIdx = 0 then .ok none env
  -- A global reference to the object of a global handle cannot be made.
  else match env.getLocalReference refIdx with
    | none => .error (.exception "Invalid local reference obj.") env
    | some object =>
      let (env, ref) := env.addGlobalReference object
      .ok (some ref) env

/-- `deleteLocalRef`, with `getLocalReference` and `deleteLocalReference`. -/
def deleteLocalRef [DecidableEq O] (order : List ℤ) (refIdx : ℤ) : JniM O (Option ℤ) := fun env =>
  if refIdx = 0 then .ok none env
  else .ok none { env with locals := env.locals.delete order refIdx }

/-- `deleteGlobalRef`, with `getGlobalReference` and `deleteGlobalReference`. -/
def deleteGlobalRef [DecidableEq O] (order : List ℤ) (refIdx : ℤ) : JniM O (Option ℤ) := fun env =>
  if refIdx = 0 then .ok none env
  else .ok none { env with globals := env.globals.delete order refIdx }

end JniEnv

/-- A call of one of the JNI functions. A deletion comes with the order in which it meets the
indices of its table. -/
inductive JniOp (O : Type) where
  | newReference (object : O)
  | newLocalRef (refIdx : ℤ)
  | newGlobalRef (refIdx : ℤ)
  | deleteLocalRef (order : List ℤ) (refIdx : ℤ)
  | deleteGlobalRef (order : List ℤ) (refIdx : ℤ)

def JniOp.code [DecidableEq O] : JniOp O → JniM O (Option ℤ)
  | .newReference object => JniEnv.newReference object
  | .newLocalRef refIdx => JniEnv.newLocalRef refIdx
  | .newGlobalRef refIdx => JniEnv.newGlobalRef refIdx
  | .deleteLocalRef order refIdx => JniEnv.deleteLocalRef order refIdx
  | .deleteGlobalRef order refIdx => JniEnv.deleteGlobalRef order refIdx

namespace JniEnv

/-- The environment after a call. -/
def step [DecidableEq O] (env : JniEnv O) (op : JniOp O) : JniEnv O :=
  finalState (op.code.run env)

/-! ## Resolution by range -/

/-- The handle is one of an object. -/
def Resolves (env : JniEnv O) (idx : ℤ) : Prop := ∃ object, env.getReference idx = .ok (some object)

instance (env : JniEnv O) (idx : ℤ) : Decidable (env.Resolves idx) :=
  match h : env.getReference idx with
  | .ok (some object) => .isTrue ⟨object, h⟩
  | .ok none => .isFalse fun ⟨_, h'⟩ => by cases h.symm.trans h'
  | .error _ => .isFalse fun ⟨_, h'⟩ => by cases h.symm.trans h'

/-- The ranges of the tables. -/
structure Ranged (env : JniEnv O) : Prop where
  localStart : env.locals.table.start = 1
  localSize : env.locals.table.size = 2048
  globalStart : env.globals.table.start = 4096
  globalSize : env.globals.table.size = 512000

variable {env : JniEnv O} {idx : ℤ}

/-- Between the tables and above them nothing resolves. -/
theorem Ranged.getReference_outside (h : Ranged env) (hlow : 2049 < idx)
    (hout : idx < 4096 ∨ 516096 < idx) :
    env.getReference idx = .error (.exception ("Invalid reference(" ++ toString idx ++ ")")) := by
  have hlocal : ¬env.locals.table.inRange idx = true := by
    rw [JReferencTable.inRange_iff, h.localStart, h.localSize]
    omega
  have hglobal : ¬env.globals.table.inRange idx = true := by
    rw [JReferencTable.inRange_iff, h.globalStart, h.globalSize]
    omega
  rw [getReference, if_neg (by omega), if_neg hlocal, if_neg hglobal]

/-- Above the range of the global table nothing resolves. -/
theorem Ranged.not_resolves_above (h : Ranged env) (hstart : env.globals.table.start ≤ idx)
    (hout : ¬env.globals.table.inRange idx = true) : ¬env.Resolves idx := by
  rintro ⟨object, hobject⟩
  rw [JReferencTable.inRange_iff, h.globalSize] at hout
  rw [h.globalStart] at hout hstart
  rw [h.getReference_outside (by omega) (.inr (by omega))] at hobject
  cases hobject

end JniEnv

/-- The two kinds of references. -/
inductive RefKind where
  | locals
  | globals

namespace JniEnv

variable {env : JniEnv O} {idx : ℤ} {kind : RefKind} {refs' : References O}

/-- The references of a kind. -/
def refs (env : JniEnv O) : RefKind → References O
  | .locals => env.locals
  | .globals => env.globals

/-- The environment with other references of a kind. -/
def withRefs (env : JniEnv O) (kind : RefKind) (refs' : References O) : JniEnv O :=
  match kind with
  | .locals => { env with locals := refs' }
  | .globals => { env with globals := refs' }

@[simp]
theorem refs_withRefs : (env.withRefs kind refs').refs kind = refs' := by
  cases kind <;> rfl

theorem Ranged.start_pos (h : Ranged env) (kind : RefKind) : 0 < (env.refs kind).table.start := by
  cases kind with
  | locals =>
    rw [refs, h.localStart]
    decide
  | globals =>
    rw [refs, h.globalStart]
    decide

theorem Ranged.not_inRange_zero (h : Ranged env) (kind : RefKind) :
    ¬(env.refs kind).table.inRange 0 = true := by
  have hpos := h.start_pos kind
  rw [JReferencTable.inRange_iff]
  omega

/-- A handle in the range of a table is looked up in that table. -/
theorem Ranged.getReference_of_inRange (h : Ranged env) (kind : RefKind)
    (hin : (env.refs kind).table.inRange idx = true) :
    env.getReference idx = .ok ((env.refs kind).table.get idx) := by
  have hbounds := JReferencTable.inRange_iff.1 hin
  have hpos := h.start_pos kind
  rw [getReference, if_neg (by omega)]
  cases kind with
  | locals =>
    rw [refs] at hin
    rw [if_pos hin, refs]
  | globals =>
    rw [refs, h.globalStart] at hbounds
    rw [refs] at hin
    -- The range of the local table ends below.
    have hlocal : ¬env.locals.table.inRange idx = true := by
      rw [JReferencTable.inRange_iff, h.localStart, h.localSize]
      omega
    rw [if_neg hlocal, if_pos hin, refs]

/-- The handle after the last one of a table does not resolve. -/
theorem Ranged.not_resolves_after (h : Ranged env) (kind : RefKind) :
    ¬env.Resolves ((env.refs kind).table.start + (env.refs kind).table.size + 1) := by
  rintro ⟨object, hobject⟩
  rw [h.getReference_outside] at hobject
  · cases hobject
  · cases kind with
    | locals => rw [refs, h.localStart, h.localSize]; decide
    | globals => rw [refs, h.globalStart, h.globalSize]; decide
  · cases kind with
    | locals => rw [refs, h.localStart, h.localSize]; decide
    | globals => rw [refs, h.globalStart, h.globalSize]; decide

theorem Ranged.withRefs (h : Ranged env)
    (hstart : refs'.table.start = (env.refs kind).table.start)
    (hsize : refs'.table.size = (env.refs kind).table.size) : Ranged (env.withRefs kind refs') := by
  cases kind with
  | locals =>
    exact ⟨hstart.trans h.localStart, hsize.trans h.localSize, h.globalStart, h.globalSize⟩
  | globals =>
    exact ⟨h.localStart, h.localSize, hstart.trans h.globalStart, hsize.trans h.globalSize⟩

/-- A handle whose range and entry stay the same resolves as before. -/
theorem getReference_withRefs
    (hrange : refs'.table.inRange idx = (env.refs kind).table.inRange idx)
    (hget : refs'.table.get idx = (env.refs kind).table.get idx) :
    (env.withRefs kind refs').getReference idx = env.getReference idx := by
  cases kind with
  | locals =>
    rw [refs] at hrange hget
    rw [getReference, getReference, withRefs, hrange, hget]
  | globals =>
    rw [refs] at hrange hget
    rw [getReference, getReference, withRefs, hrange, hget]

/-! ## What a call does -/

end JniEnv

/-- What a call does to the references. -/
inductive RefEffect (O : Type) where
  | nothing
  | add (kind : RefKind) (object : O)
  | delete (kind : RefKind) (order : List ℤ) (idx : ℤ)

namespace JniEnv

variable [DecidableEq O]

/-- The environment after an effect. -/
def apply (env : JniEnv O) : RefEffect O → JniEnv O
  | .nothing => env
  | .add kind object => env.withRefs kind ((env.refs kind).add object).1
  | .delete kind order idx => env.withRefs kind ((env.refs kind).delete order idx)

/-- The effect of a call. -/
def effect (env : JniEnv O) : JniOp O → RefEffect O
  | .newReference object => .add .locals object
  | .newLocalRef refIdx =>
    match env.getReference refIdx with
    | .ok (some object) => .add .locals object
    | _ => .nothing
  | .newGlobalRef refIdx =>
    match env.getLocalReference refIdx with
    | some object => .add .globals object
    | none => .nothing
  | .deleteLocalRef order refIdx => if refIdx = 0 then .nothing else .delete .locals order refIdx
  | .deleteGlobalRef order refIdx => if refIdx = 0 then .nothing else .delete .globals order refIdx

theorem step_eq_apply (env : JniEnv O) (op : JniOp O) :
    env.step op = env.apply (env.effect op) := by
  cases op with
  | newReference object => rfl
  | newLocalRef refIdx =>
    simp only [step, JniOp.code, newLocalRef, EStateM.run, effect]
    rcases env.getReference refIdx with err | _ | object <;> rfl
  | newGlobalRef refIdx =>
    simp only [step, JniOp.code, newGlobalRef, EStateM.run, effect]
    rcases hget : env.getLocalReference refIdx with _ | object
    · split <;> rfl
    · -- Zero has no object.
      have hne : refIdx ≠ 0 := by
        rintro rfl
        simp [getLocalReference, References.resolve] at hget
      rw [if_neg hne]
      rfl
  | deleteLocalRef order refIdx =>
    simp only [step, JniOp.code, deleteLocalRef, EStateM.run, effect]
    split <;> rfl
  | deleteGlobalRef order refIdx =>
    simp only [step, JniOp.code, deleteGlobalRef, EStateM.run, effect]
    split <;> rfl

end JniEnv

end Tank
