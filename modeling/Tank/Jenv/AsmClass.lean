import Tank.ToMathlib.PrefixCode

/-!
# Descriptors of types and methods

`AsmClass` turns a type into its descriptor: a letter for a primitive type, `L…;` with slashes in
the name for a class, and a bracket in front for an array. The descriptors form a prefix code
(`prefixCode_getSignature`), and those of parameters stand in front of a parenthesis that begins no
descriptor, so that the signature of a method determines its types (`methodSignature_inj`).
-/

namespace Tank

open ToMathlib

/-- The primitive types and `void`. -/
inductive Primitive where
  | int | void | boolean | char | byte | short | float | long | double
deriving DecidableEq, Repr

/-- A binary name: segments between dots that are not empty and have none of `/`, `;` and `[`. -/
def IsBinaryName (name : String) : Prop :=
  ∀ segment ∈ name.toList.splitOn '.',
    segment ≠ [] ∧ '/' ∉ segment ∧ ';' ∉ segment ∧ '[' ∉ segment

instance (name : String) : Decidable (IsBinaryName name) :=
  inferInstanceAs (Decidable (∀ _ ∈ _, _))

/-- The name of a class that is neither primitive nor an array. -/
structure ClassName where
  name : String
  isBinaryName : IsBinaryName name
deriving DecidableEq

/-- `Class`, as far as descriptors are concerned. -/
inductive Klass where
  | primitive (type : Primitive)
  | ofName (className : ClassName)
  | array (componentType : Klass)
deriving DecidableEq

namespace AsmClass

/-- `getPrimitiveLetter` -/
def getPrimitiveLetter : Primitive → String
  | .int => "I"
  | .void => "V"
  | .boolean => "Z"
  | .char => "C"
  | .byte => "B"
  | .short => "S"
  | .float => "F"
  | .long => "J"
  | .double => "D"

/-- `clsName.replaceAll("\\.", "/")` -/
def slashed (clsName : String) : String :=
  String.ofList (clsName.toList.map fun c => if c = '.' then '/' else c)

/-- `getSignature` of a type. -/
def getSignature : Klass → String
  | .primitive type => getPrimitiveLetter type
  | .array componentType => "[" ++ getSignature componentType
  | .ofName className => "L" ++ slashed className.name ++ ";"

/-- `getType` -/
def getType : Klass → String
  | .array componentType => "[" ++ getSignature componentType
  | .ofName className => slashed className.name
  | .primitive type => getPrimitiveLetter type

/-- `getSignature` of a constructor. -/
def constructorSignature (parameterTypes : List Klass) : String :=
  "(" ++ String.join (parameterTypes.map getSignature) ++ ")"

/-- `getSignature` of a method. -/
def methodSignature (parameterTypes : List Klass) (returnType : Klass) : String :=
  "(" ++ String.join (parameterTypes.map getSignature) ++ ")" ++ getSignature returnType

end AsmClass

/-! ## Names -/

/-- A character of a joined list that is not the separator is one of a part. -/
theorem exists_mem_of_mem_intercalate {x c : Char} {parts : List (List Char)}
    (hc : c ∈ [x].intercalate parts) (hne : c ≠ x) : ∃ part ∈ parts, c ∈ part := by
  induction parts with
  | nil => simp at hc
  | cons part parts ih =>
    rcases parts with _ | ⟨part', parts⟩
    · simpa using hc
    · rw [List.intercalate_cons_cons] at hc
      simp only [List.mem_append, List.mem_singleton, hne, or_false] at hc
      rcases hc with hc | hc
      · exact ⟨part, List.mem_cons_self, hc⟩
      · obtain ⟨part₁, hmem, hc₁⟩ := ih hc
        exact ⟨part₁, List.mem_cons_of_mem _ hmem, hc₁⟩

theorem IsBinaryName.notMem {name : String} (h : IsBinaryName name) :
    '/' ∉ name.toList ∧ ';' ∉ name.toList := by
  have hpart : ∀ c ∈ name.toList, c ≠ '.' →
      ∃ segment ∈ name.toList.splitOn '.', c ∈ segment := by
    intro c hc hdot
    have hjoin : ['.'].intercalate (name.toList.splitOn '.') = name.toList :=
      List.intercalate_splitOn '.'
    rw [← hjoin] at hc
    exact exists_mem_of_mem_intercalate hc hdot
  constructor
  · intro hc
    obtain ⟨segment, hsegment, hmem⟩ := hpart _ hc (by decide)
    exact (h segment hsegment).2.1 hmem
  · intro hc
    obtain ⟨segment, hsegment, hmem⟩ := hpart _ hc (by decide)
    exact (h segment hsegment).2.2.1 hmem

namespace AsmClass

theorem toList_slashed (clsName : String) :
    (slashed clsName).toList = clsName.toList.map fun c => if c = '.' then '/' else c :=
  String.toList_ofList

/-- Without slashes of its own a name can be read off the one with slashes for dots. -/
theorem slashed_inj {x y : String} (hx : '/' ∉ x.toList) (hy : '/' ∉ y.toList)
    (heq : slashed x = slashed y) : x = y := by
  -- Turning the slashes back into dots undoes the replacement.
  have hback : ∀ z : String, '/' ∉ z.toList →
      ((slashed z).toList.map fun c => if c = '/' then '.' else c) = z.toList := by
    intro z hz
    rw [toList_slashed, List.map_map, List.map_congr_left (g := id), List.map_id]
    intro c hc
    have hne : c ≠ '/' := fun h => hz (h ▸ hc)
    by_cases hdot : c = '.' <;> simp [hdot, hne]
  rw [← String.toList_inj, ← hback x hx, ← hback y hy, heq]

theorem notMem_slashed (className : ClassName) : ';' ∉ (slashed className.name).toList := by
  rw [toList_slashed]
  intro hmem
  obtain ⟨c, hc, heq⟩ := List.mem_map.1 hmem
  split_ifs at heq
  · cases heq
  · exact className.isBinaryName.notMem.2 (heq ▸ hc)

/-! ## Descriptors as words -/

/-- The characters of a descriptor. -/
def descriptor (klass : Klass) : List Char := (getSignature klass).toList

theorem descriptor_array (klass : Klass) : descriptor (.array klass) = '[' :: descriptor klass :=
  String.toList_append

theorem descriptor_ofName (className : ClassName) :
    descriptor (.ofName className) = 'L' :: ((slashed className.name).toList ++ [';']) := by
  simp [descriptor, getSignature]

/-- The letter of a primitive type. -/
theorem descriptor_primitive (type : Primitive) :
    ∃ c, descriptor (.primitive type) = [c] ∧ c ≠ '[' ∧ c ≠ 'L' ∧ c ≠ ')' := by
  cases type <;> exact ⟨_, rfl, by decide, by decide, by decide⟩

theorem descriptor_primitive_inj {type type' : Primitive}
    (h : descriptor (.primitive type) = descriptor (.primitive type')) : type = type' := by
  cases type <;> cases type' <;> first | rfl | exact absurd h (by decide)

/-- Descriptors form a prefix code. The first character tells primitive types, classes and arrays
apart; the name of a class ends with the first semicolon. -/
theorem prefixCode_descriptor : PrefixCode descriptor := by
  intro a
  induction a with
  | primitive type =>
    intro b s t heq
    obtain ⟨c, hc, hbracket, hletter, -⟩ := descriptor_primitive type
    cases b with
    | primitive type' =>
      -- One letter each, and different types have different letters.
      obtain ⟨c', hc', -⟩ := descriptor_primitive type'
      rw [hc, hc'] at heq
      rw [(List.cons.inj heq).1, ← hc'] at hc
      rw [descriptor_primitive_inj hc]
    | ofName className' =>
      rw [hc, descriptor_ofName] at heq
      exact absurd (List.cons.inj heq).1 hletter
    | array componentType' =>
      rw [hc, descriptor_array] at heq
      exact absurd (List.cons.inj heq).1 hbracket
  | ofName className =>
    intro b s t heq
    cases b with
    | primitive type' =>
      obtain ⟨c', hc', -, hletter', -⟩ := descriptor_primitive type'
      rw [hc', descriptor_ofName] at heq
      exact absurd (List.cons.inj heq).1.symm hletter'
    | ofName className' =>
      simp only [descriptor_ofName, List.cons_append, List.append_assoc, List.nil_append,
        List.cons.injEq, true_and] at heq
      -- Neither name has a semicolon, so both end at the same one.
      obtain ⟨hname, -⟩ :=
        append_mark_inj (notMem_slashed className) (notMem_slashed className') heq
      have hsame : className.name = className'.name :=
        slashed_inj className.isBinaryName.notMem.1 className'.isBinaryName.notMem.1
          (String.toList_inj.1 hname)
      obtain ⟨name, hbinary⟩ := className
      obtain ⟨name', hbinary'⟩ := className'
      obtain rfl := hsame
      rfl
    | array componentType' =>
      rw [descriptor_ofName, descriptor_array] at heq
      exact absurd (List.cons.inj heq).1 (by decide)
  | array componentType ih =>
    intro b s t heq
    cases b with
    | primitive type' =>
      obtain ⟨c', hc', hbracket', -⟩ := descriptor_primitive type'
      rw [hc', descriptor_array] at heq
      exact absurd (List.cons.inj heq).1.symm hbracket'
    | ofName className' =>
      rw [descriptor_ofName, descriptor_array] at heq
      exact absurd (List.cons.inj heq).1 (by decide)
    | array componentType' =>
      rw [descriptor_array, descriptor_array] at heq
      rw [ih componentType' s t (List.cons.inj heq).2]

theorem avoids_descriptor : Avoids descriptor ')' := by
  intro klass
  cases klass with
  | primitive type =>
    obtain ⟨c, hc, -, -, hmark⟩ := descriptor_primitive type
    exact ⟨c, [], hc, hmark⟩
  | ofName className => exact ⟨_, _, descriptor_ofName className, by decide⟩
  | array componentType => exact ⟨_, _, descriptor_array componentType, by decide⟩

theorem toList_constructorSignature (parameterTypes : List Klass) :
    (constructorSignature parameterTypes).toList =
      '(' :: (parameterTypes.flatMap descriptor ++ [')']) := by
  simp only [constructorSignature, String.toList_append, String.toList_join, List.flatMap_map]
  rfl

theorem methodSignature_eq (parameterTypes : List Klass) (returnType : Klass) :
    methodSignature parameterTypes returnType =
      constructorSignature parameterTypes ++ getSignature returnType := rfl

/-- The signature of a method determines the types of its parameters and its result. -/
theorem methodSignature_inj {types types' : List Klass} {returnType returnType' : Klass}
    (h : methodSignature types returnType = methodSignature types' returnType') :
    types = types' ∧ returnType = returnType' := by
  rw [← String.toList_inj, methodSignature_eq, methodSignature_eq, String.toList_append,
    String.toList_append, toList_constructorSignature, toList_constructorSignature] at h
  simp only [List.cons_append, List.append_assoc, List.nil_append, List.cons.injEq,
    true_and] at h
  obtain ⟨htypes, hreturn⟩ := prefixCode_descriptor.flatMap_inj avoids_descriptor h
  exact ⟨htypes, prefixCode_descriptor _ _ [] [] (congrArg (· ++ []) hreturn)⟩

end AsmClass

end Tank
