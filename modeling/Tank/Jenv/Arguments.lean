import Tank.Jenv.CallVariants
import Tank.Jenv.SameObject

/-!
# Arguments of Java methods

Native code passes the arguments of a Java method after the environment, the object and the id of
the method. Types smaller than a word take a word, and a `long` takes two, of which the first has an
even number (`LaidOut`). `readArgsV` takes the element `3 + i` of the twelve arguments of a call for
the parameter `i`, and makes a `Long` of every primitive type but `int` and `boolean`.

* `Stands` says that a Java value is the one of an argument;
* `Decodes` says that the `long` that is read gives this value;
* `decoded_args_iff`: the decoder yields the arguments exactly if there are at most nine, none of
  them is a `byte`, a `char` or a `short`, and what is read for each of them stands for it.
-/

namespace Tank

open ToMathlib NativeCallHelper

/-- An argument of a Java method, as native code has it. -/
inductive JArg where
  | boolean (v : Bool)
  | byte (v : Int8)
  | char (v : UInt16)
  | short (v : Int16)
  | int (v : Int32)
  | long (v : Int64)
  | handle (r : UInt32)
deriving DecidableEq

namespace JArg

/-- The words of an argument. Small types are widened to an `int`. -/
def words : JArg → List UInt32
  | .boolean v => [if v then 1 else 0]
  | .byte v => [v.toInt32.toUInt32]
  | .char v => [v.toUInt32]
  | .short v => [v.toInt32.toUInt32]
  | .int v => [v.toUInt32]
  | .long v => [v.toUInt64.toUInt32, (v.toUInt64 >>> 32).toUInt32]
  | .handle r => [r]

/-- The arguments are in words with numbers from `k` on. A `long` begins at an even number, and the
word before it may be left out. -/
inductive LaidOut : ℕ → List JArg → List UInt32 → Prop where
  | nil {k : ℕ} : LaidOut k [] []
  | cons {k : ℕ} {a : JArg} {args : List JArg} {ws : List UInt32}
      (haligned : a.words.length = 2 → k % 2 = 0) (hrest : LaidOut (k + a.words.length) args ws) :
      LaidOut k (a :: args) (a.words ++ ws)
  | skip {k : ℕ} {a : JArg} {args : List JArg} {ws : List UInt32} {unused : UInt32}
      (hlong : a.words.length = 2) (hodd : k % 2 = 1) (hrest : LaidOut (k + 1) (a :: args) ws) :
      LaidOut k (a :: args) (unused :: ws)

theorem length_words_pos (a : JArg) : 0 < a.words.length := by
  cases a <;> exact Nat.succ_pos _

theorem LaidOut.length_le {k : ℕ} {args : List JArg} {ws : List UInt32} (h : LaidOut k args ws) :
    args.length ≤ ws.length := by
  induction h with
  | nil => exact le_rfl
  | @cons k a args ws haligned hrest ih =>
    have hpos := a.length_words_pos
    rw [List.length_cons, List.length_append]
    omega
  | skip hlong hodd hrest ih =>
    exact ih.trans (Nat.le_succ _)

end JArg

namespace JniState

open Jni

/-- The argument is one for a parameter of the type. -/
def Fits (s : JniState) : JArg → Klass → Prop
  | .boolean _, type => type = .primitive .boolean
  | .byte _, type => type = .primitive .byte
  | .char _, type => type = .primitive .char
  | .short _, type => type = .primitive .short
  | .int _, type => type = .primitive .int
  | .long _, type => type = .primitive .long
  | .handle r, type => type.isPrimitive = false ∧ ∃ ref, s.HandleOf r.toUInt64.toInt64 ref

/-- The Java value is the one of the argument. -/
def Stands (s : JniState) : JArg → JavaValue → Prop
  | .boolean v, param => param = .boolean v
  | .byte v, param => param = .byte v
  | .char v, param => param = .char v
  | .short v, param => param = .short v
  | .int v, param => param = .int v
  | .long v, param => param = .long v
  | .handle r, param => ∃ o, param = .ref o ∧ .ofValue o = s.denotesHandle r.toUInt64.toInt64

/-- What is read for an argument gives its value. Nothing gives a `byte`, a `char` or a `short`. A
reference must be read as a live handle, which is not zero, and its wrapper must hold the object. -/
def Decodes (s : JniState) (value : Int64) : JArg → Prop
  | .boolean v => value = 1 ↔ v = true
  | .byte _ => False
  | .char _ => False
  | .short _ => False
  | .int v => value.toInt32 = v
  | .long v => value = v
  | .handle r => ∃ n object, s.refs.getReference value.toInt = .ok (some n) ∧
      s.objects n = some object ∧ .ofValue object.value = s.denotesHandle r.toUInt64.toInt64

variable {s s' : JniState} {a : JArg} {type : Klass} {types : List Klass} {args : List JArg}
  {value : Int64} {param : JavaValue}

theorem pure_stands_iff {param : JavaValue} :
    (∃ p, (pure param : JniCode JavaValue).run s = .ok p s ∧ s.Stands a p) ↔ s.Stands a param := by
  constructor
  · rintro ⟨p, hrun, hstands⟩
    obtain ⟨rfl, -⟩ := EStateM.Result.ok.inj hrun
    exact hstands
  · intro hstands
    exact ⟨param, rfl, hstands⟩

theorem handle_stands_iff {r : UInt32} :
    (∃ p, (do
        let object ← objectOf value
        pure (.ref object.value) : JniCode JavaValue).run s = .ok p s ∧ s.Stands (.handle r) p) ↔
      s.Decodes value (.handle r) := by
  constructor
  · rintro ⟨p, hrun, o, rfl, hdenotes⟩
    obtain ⟨-, n, object, hget, hobject, hvalue⟩ := readArg_reference_eq_ok_iff.1 hrun
    obtain rfl := JavaValue.ref.inj hvalue
    exact ⟨n, object, hget, hobject, hdenotes⟩
  · rintro ⟨n, object, hget, hobject, hdenotes⟩
    exact ⟨_, readArg_reference_eq_ok_iff.2 ⟨rfl, n, object, hget, hobject, rfl⟩, _, rfl, hdenotes⟩

/-- One parameter. -/
theorem readArg_stands_iff (h : s.Fits a type) :
    (∃ param, (readArg value type).run s = .ok param s ∧ s.Stands a param) ↔ s.Decodes value a := by
  cases a with
  | boolean v =>
    obtain rfl : type = .primitive .boolean := h
    refine pure_stands_iff.trans ?_
    rw [Stands, Decodes, JavaValue.boolean.injEq, Bool.eq_iff_iff, beq_iff_eq]
  | byte v =>
    obtain rfl : type = .primitive .byte := h
    exact pure_stands_iff.trans (iff_of_false JavaValue.noConfusion id)
  | char v =>
    obtain rfl : type = .primitive .char := h
    exact pure_stands_iff.trans (iff_of_false JavaValue.noConfusion id)
  | short v =>
    obtain rfl : type = .primitive .short := h
    exact pure_stands_iff.trans (iff_of_false JavaValue.noConfusion id)
  | int v =>
    obtain rfl : type = .primitive .int := h
    refine pure_stands_iff.trans ?_
    rw [Stands, Decodes, JavaValue.int.injEq]
  | long v =>
    obtain rfl : type = .primitive .long := h
    refine pure_stands_iff.trans ?_
    rw [Stands, Decodes, JavaValue.long.injEq]
  | handle r =>
    rw [readArg_of_reference h.1]
    exact handle_stands_iff

/-- Decoding a parameter changes nothing. -/
theorem eq_of_readArg_eq_ok (h : (readArg value type).run s = .ok param s') : s' = s := by
  cases type with
  | primitive primitive =>
    cases primitive <;>
    · cases h
      rfl
  | ofName name => exact (readArg_reference_eq_ok_iff.1 h).1
  | array type => exact (readArg_reference_eq_ok_iff.1 h).1

/-- The loop over the parameters. -/
theorem readArgsFrom_stands_iff (argv : List Int64) (offset : ℕ)
    (h : List.Forall₂ s.Fits args types) :
    (∃ params, (readArgsFrom argv offset types).run s = .ok params s ∧
        List.Forall₂ s.Stands args params) ↔
      ∀ i a, args[i]? = some a → ∃ value, argv[offset + i]? = some value ∧ s.Decodes value a := by
  induction h generalizing offset with
  | nil =>
    refine iff_of_true ⟨[], rfl, .nil⟩ fun i a ha => ?_
    cases ha
  | @cons a type args types hfits hrest ih =>
    -- The place in the vector moves by one for each parameter, whatever its width.
    constructor
    · rintro ⟨params, hrun, hstands⟩
      obtain ⟨value, param, rest, s₁, hvalue, hparam, hparams, rfl⟩ :=
        readArgsFrom_cons_eq_ok_iff.1 hrun
      obtain rfl := eq_of_readArg_eq_ok hparam
      obtain ⟨hfirst, hothers⟩ := List.forall₂_cons.1 hstands
      intro i b hb
      cases i with
      | zero =>
        cases hb
        exact ⟨value, hvalue, (readArg_stands_iff hfits).1 ⟨param, hparam, hfirst⟩⟩
      | succ i =>
        have hnext := (ih (offset + 1)).1 ⟨rest, hparams, hothers⟩ i b hb
        rwa [Nat.add_assoc, Nat.add_comm 1 i] at hnext
    · intro hall
      obtain ⟨value, hvalue, hdecodes⟩ := hall 0 a rfl
      obtain ⟨param, hparam, hfirst⟩ := (readArg_stands_iff hfits).2 hdecodes
      obtain ⟨rest, hparams, hothers⟩ := (ih (offset + 1)).2 fun i b hb => by
        rw [Nat.add_assoc, Nat.add_comm 1 i]
        exact hall (i + 1) b hb
      exact ⟨param :: rest, readArgsFrom_cons_eq_ok_iff.2
        ⟨value, param, rest, s, hvalue, hparam, hparams, rfl⟩, .cons hfirst hothers⟩

variable {uc : Unicorn} {spc owner id : UInt32} {words : List UInt32} {argv : List Int64}

/-- The decoder, for the arguments that are read in a call. -/
theorem readArgsV_stands_iff (hpassed : Passed uc spc owner id words .inline)
    (hlaid : JArg.LaidOut 3 args words) (hfits : List.Forall₂ s.Fits args types)
    (hargs : (JCallHelper.readVaArgs 12).run uc = .ok (some argv) uc) :
    (∃ params, (readArgsV 3 argv types).run { s with uc } = .ok params { s with uc } ∧
        List.Forall₂ s.Stands args params) ↔
      ∀ i a, args[i]? = some a →
        ∃ value, valueRead uc words .inline i = some value ∧ s.Decodes value a := by
  have hfits' : List.Forall₂ (Fits { s with uc }) args types := hfits
  refine (readArgsFrom_stands_iff argv 3 hfits').trans (forall₃_congr fun i a ha => ?_)
  have hi : i < args.length := (List.getElem?_eq_some_iff.1 ha).1
  rw [getElem?_args hpassed hargs (hi.trans_le hlaid.length_le)]
  exact Iff.rfl

/-- The decoder yields a Java value for each of the arguments. -/
def YieldsArgs (s : JniState) (uc : Unicorn) (args : List JArg) (types : List Klass) : Prop :=
  ∃ argv params, (JCallHelper.readVaArgs 12).run uc = .ok (some argv) uc ∧
    (readArgsV 3 argv types).run { s with uc } = .ok params { s with uc } ∧
    List.Forall₂ s.Stands args params

/-- The decoder yields the arguments exactly if what is read for them stands for them. -/
theorem decoded_args_iff (hpassed : Passed uc spc owner id words .inline)
    (hlaid : JArg.LaidOut 3 args words) (hfits : List.Forall₂ s.Fits args types) :
    YieldsArgs s uc args types ↔
      argsReadable uc 12 = true ∧ ∀ i a, args[i]? = some a →
        ∃ value, valueRead uc words .inline i = some value ∧ s.Decodes value a := by
  constructor
  · rintro ⟨argv, params, hargs, hparams⟩
    exact ⟨(args_of_run hargs).1,
      (readArgsV_stands_iff hpassed hlaid hfits hargs).1 ⟨params, hparams⟩⟩
  · rintro ⟨hreadable, hall⟩
    obtain ⟨argv, hargs, -⟩ := exists_args hreadable
    obtain ⟨params, hparams⟩ := (readArgsV_stands_iff hpassed hlaid hfits hargs).2 hall
    exact ⟨argv, params, hargs, hparams⟩

theorem passed_inCall (word : UInt32) :
    Passed (.inCall 0 1 2 word) 0x10010 1 2 [word] .inline := by
  refine argsPassed_of_registers le_rfl rfl ?_
  simp [Unicorn.inCall]

theorem decoded_args_int :
    YieldsArgs (start .blank .blank) (.inCall 0 1 2 5) [.int 5] [.primitive .int] := by
  have hlaid : JArg.LaidOut 3 [.int 5] [5] := .cons (by decide) .nil
  have hfits : List.Forall₂ (Fits (start .blank .blank)) [.int 5] [.primitive .int] :=
    .cons rfl .nil
  refine (decoded_args_iff (passed_inCall 5) hlaid hfits).2 ⟨by decide +kernel, fun i a ha => ?_⟩
  cases i with
  | zero =>
    cases ha
    exact ⟨5, rfl, rfl⟩
  | succ i => cases ha

/-- If the first argument is not read as what it is, the decoder does not yield it. -/
theorem not_yieldsArgs (hpassed : Passed uc spc owner id words .inline)
    (hlaid : JArg.LaidOut 3 (a :: args) words) (hfits : List.Forall₂ s.Fits (a :: args) types)
    (hno : ∀ value, words[0]? = some value → ¬s.Decodes value.toUInt64.toInt64 a) :
    ¬YieldsArgs s uc (a :: args) types := by
  rintro ⟨argv, params, hargs, hparams⟩
  obtain ⟨value, hvalue, hdecodes⟩ :=
    (readArgsV_stands_iff hpassed hlaid hfits hargs).1 ⟨params, hparams⟩ 0 a rfl
  obtain ⟨word, hword, rfl⟩ := Option.map_eq_some_iff.1 hvalue
  exact hno word hword hdecodes

/-- The engine in a call with the `long` 7. It is on the stack, and the word before it is not
used. -/
def passingLong : Unicorn :=
  { Unicorn.inCall 0 1 2 0 with mem := fun x => if x = 0x10010 then 7 else 0 }

theorem passed_passingLong : Passed passingLong 0x10010 1 2 [0, 7, 0] .inline := by
  refine ⟨rfl, fun i reg a hreg ha => ?_, fun i a hi ha => ?_⟩
  · rcases i with _ | _ | _ | _ | i <;> cases hreg <;> cases ha <;> rfl
  · obtain ⟨k, rfl⟩ := Nat.exists_eq_add_of_le hi
    rcases k with _ | _ | k
    · cases ha
      decide +kernel
    · cases ha
      decide +kernel
    · have hlength : [passingLong.regs .r0, 1, 2, 0, 7, 0].length ≤ 4 + (k + 1 + 1) := by
        simp only [List.length_cons, List.length_nil]
        omega
      rw [List.getElem?_eq_none hlength] at ha
      cases ha

/-- A `byte` becomes a `Long`, the word before a `long` is read in its place, and `null` throws. -/
theorem not_decoded_args_small :
    (Passed (.inCall 0 1 2 5) 0x10010 1 2 [5] .inline ∧ JArg.LaidOut 3 [.byte 5] [5] ∧
        ¬YieldsArgs (start .blank .blank) (.inCall 0 1 2 5) [.byte 5] [.primitive .byte]) ∧
      (Passed passingLong 0x10010 1 2 [0, 7, 0] .inline ∧ JArg.LaidOut 3 [.long 7] [0, 7, 0] ∧
        ¬YieldsArgs (start .blank .blank) passingLong [.long 7] [.primitive .long]) ∧
      Passed (.inCall 0 1 2 0) 0x10010 1 2 [0] .inline ∧ JArg.LaidOut 3 [.handle 0] [0] ∧
        ¬YieldsArgs (start .blank .blank) (.inCall 0 1 2 0) [.handle 0] [.ofName .sample] := by
  have hbyte : JArg.LaidOut 3 [.byte 5] [5] := .cons (by decide) .nil
  have hlong : JArg.LaidOut 3 [.long 7] [0, 7, 0] := .skip rfl rfl (.cons (fun _ => rfl) .nil)
  have hnull : JArg.LaidOut 3 [.handle 0] [0] := .cons (by decide) .nil
  refine ⟨⟨passed_inCall 5, hbyte, ?_⟩, ⟨passed_passingLong, hlong, ?_⟩, passed_inCall 0, hnull, ?_⟩
  · exact not_yieldsArgs (passed_inCall 5) hbyte (.cons rfl .nil) fun value _ => id
  · refine not_yieldsArgs passed_passingLong hlong (.cons rfl .nil) fun value hvalue => ?_
    cases hvalue
    have hne : ¬(0 : Int64) = 7 := by decide
    exact hne
  · refine not_yieldsArgs (passed_inCall 0) hnull (.cons ⟨rfl, none, .inl ⟨rfl, rfl⟩⟩ .nil)
      fun value hvalue => ?_
    cases hvalue
    rintro ⟨n, object, hget, -⟩
    cases hget

end JniState

end Tank
