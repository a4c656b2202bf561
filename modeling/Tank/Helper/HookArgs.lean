import Tank.Helper.NativeCallHelper
import Tank.Utils.Words

/-!
# Arguments of hooked functions

A function that native code calls through a stub gets its arguments from `readArgs` or `readVaArgs`.
By the AAPCS the first four are in registers, and the argument `i` after them is the word at
`SP + 4 * (i - 4)`, where `SP` is the stack pointer of the caller. The code takes the words from
`SP + 4 * i` on, and reads them with a sign.

* `readStackArgs_eq_ok`: the words that the loop reads;
* `hooked_args_iff`: all arguments are as they were passed exactly if the words that are read
  instead happen to be the same, and none of them has its highest bit set.
-/

namespace Tank

open ToMathlib NativeCallHelper

/-- The arguments are where the AAPCS has them for a caller with stack pointer `spc`, and a stub has
pushed two registers since. -/
structure ArgsPassed (uc : Unicorn) (spc : UInt32) (args : List UInt32) : Prop where
  sp : uc.regs .sp = spc - 8
  registers : ∀ (i : ℕ) reg a, [ArmReg.r0, .r1, .r2, .r3][i]? = some reg → args[i]? = some a →
    uc.regs reg = a
  stack : ∀ (i : ℕ) a, 4 ≤ i → args[i]? = some a →
    uc.wordAt (spc + UInt32.ofNat (4 * (i - 4))).toUInt64 = some a

/-- The function sees every argument as an unsigned number. -/
def SeesArgs (read : Int32 → UcM (Option (List Int64))) (uc : Unicorn) (args : List UInt32) :
    Prop :=
  ∀ (i : ℕ) a, args[i]? = some a → ∃ values uc',
    (read (Int32.ofNat args.length)).run uc = .ok (some values) uc' ∧
      values[i]? = some a.toUInt64.toInt64

/-- The words that are read for the arguments on the stack are the arguments, and their highest bits
are clear. -/
def StackWordsAgree (uc : Unicorn) (args : List UInt32) : Prop :=
  ∀ (i : ℕ) a, 4 ≤ i → args[i]? = some a →
    uc.wordAt (stackArg uc i).toUInt64 = some a ∧ a < 0x80000000

variable {uc uc' uc'' : Unicorn} {spc : UInt32} {args : List UInt32}

/-- The addresses of arguments on the stack stay in the range of a `long`. -/
theorem toUInt64_stackArg (uc : Unicorn) {i : ℕ} (hi : i < 2 ^ 29) :
    (stackArg uc i).toUInt64 = (uc.regs .sp).toUInt64 + 8 + UInt64.ofNat (4 * i) := by
  have hint : (Int32.ofNat i * 4).toInt64.toInt = 4 * i := by
    rw [Int32.toInt_toInt64, Int32.toInt_mul, Int32.toInt_ofNat_of_lt (by omega)]
    have hfour : (4 : Int32).toInt = 4 := rfl
    rw [hfour, Int.bmod_eq_of_le (by omega) (by omega)]
    omega
  have hoffset : (Int32.ofNat i * 4).toInt64.toUInt64 = UInt64.ofNat (4 * i) := by
    rw [← UInt64.toNat_inj, UInt64.toNat_ofNat_of_lt' (show 4 * i < 2 ^ 64 by omega)]
    have hnat := toNat_toUInt64 (show 0 ≤ (Int32.ofNat i * 4).toInt64.toInt by omega)
    omega
  rw [stackArg, Int64.toUInt64_add, Int64.toUInt64_add, hoffset]
  rfl

/-- The address of an argument that is read: 16 bytes above the one that was passed. -/
theorem toNat_stackArg (hsp : uc.regs .sp = spc - 8) (hspc : 8 ≤ spc.toNat) {i : ℕ}
    (hi : i < 2 ^ 29) : (stackArg uc i).toUInt64.toNat = spc.toNat + 4 * i := by
  have hlt := spc.toNat_lt
  have height : (8 : UInt32).toNat = 8 := rfl
  have height' : (8 : UInt64).toNat = 8 := rfl
  rw [toUInt64_stackArg uc hi, hsp, UInt64.toNat_add, UInt64.toNat_add, UInt32.toNat_toUInt64,
    UInt32.toNat_sub, height, height', UInt64.toNat_ofNat_of_lt' (show 4 * i < 2 ^ 64 by omega)]
  omega

/-- The words that the loop of `readArgs` reads. -/
theorem readStackArgs_eq_ok {is : List ℕ} {values : List Int64}
    (h : (readStackArgs uc' is).run uc = .ok values uc'') :
    uc'' = uc ∧ List.Forall₂ (fun i value => ∃ w,
      uc.wordAt (stackArg uc' i).toUInt64 = some w ∧ value = w.toInt32.toInt64) is values := by
  induction is generalizing values with
  | nil =>
    cases h
    exact ⟨rfl, .nil⟩
  | cons i is ih =>
    rw [readStackArgs] at h
    obtain ⟨bytes, uc₁, hread, h⟩ := bind_eq_ok h
    obtain ⟨rest, uc₂, hrest, h⟩ := bind_eq_ok h
    cases h
    rw [Unicorn.run_memRead] at hread
    split_ifs at hread with hmapped
    cases hread
    obtain ⟨rfl, hwords⟩ := ih hrest
    refine ⟨rfl, .cons ⟨_, Unicorn.wordAt_of_checkMemArea hmapped, ?_⟩ hwords⟩
    exact bytes2Long_four length_readBytes

theorem readArgs_eq_ok_iff {n : ℕ} (hpos : 0 < n) (hlt : n < 2 ^ 31) {values : List Int64} :
    (readArgs (Int32.ofNat n)).run uc = .ok (some values) uc' ↔
      ∃ stackArgs, (readStackArgs uc (List.range' 4 (n - 4))).run uc = .ok stackArgs uc' ∧
        values = ([ArmReg.r0, .r1, .r2, .r3].take n).map uc.regRead ++ stackArgs := by
  have hint : (Int32.ofNat n).toInt = n := Int32.toInt_ofNat_of_lt (by omega)
  have hzero : Int32.ofNat n ≠ 0 := by
    have hzero : (0 : Int32).toInt = 0 := rfl
    rw [ne_eq, ← Int32.toInt_inj, hint, hzero]
    omega
  have hneg : ¬Int32.ofNat n < 0 := by
    rw [Int32.lt_iff_toInt_lt, hint]
    exact not_lt.2 (Int.natCast_nonneg n)
  have htoNat : (Int32.ofNat n).toInt.toNat = n := by rw [hint, Int.toNat_natCast]
  rw [readArgs, if_neg hzero, if_neg hneg, get_bind, htoNat]
  constructor
  · intro h
    obtain ⟨stackArgs, uc₁, hstack, h⟩ := bind_eq_ok h
    cases h
    exact ⟨stackArgs, hstack, rfl⟩
  · rintro ⟨stackArgs, hstack, rfl⟩
    rw [bind_of_ok hstack]
    rfl

/-- Arguments that can be read are the registers and as many words of the stack as are missing. -/
theorem exists_readArgs {n : ℕ} (hpos : 0 < n) (hlt : n < 2 ^ 31)
    (h : argsReadable uc (Int32.ofNat n) = true) :
    ∃ stackArgs, stackArgs.length = n - 4 ∧ (readArgs (Int32.ofNat n)).run uc =
      .ok (some (([ArmReg.r0, .r1, .r2, .r3].take n).map uc.regRead ++ stackArgs)) uc := by
  rw [argsReadable, Bool.and_eq_true, Int32.toInt_ofNat_of_lt hlt, Int.toNat_natCast] at h
  obtain ⟨stackArgs, hstack⟩ := run_readStackArgs_of_mapped (List.all_eq_true.1 h.2)
  refine ⟨stackArgs, ?_, (readArgs_eq_ok_iff hpos hlt).2 ⟨stackArgs, hstack, rfl⟩⟩
  rw [← (readStackArgs_eq_ok hstack).2.length_eq, List.length_range']

/-- A word read with a sign is an unsigned number if its highest bit is clear. -/
theorem toInt64_eq_unsigned_iff {w a : UInt32} :
    w.toInt32.toInt64 = a.toUInt64.toInt64 ↔ w = a ∧ a < 0x80000000 := by
  have hlow : ∀ v : UInt32, low32 v.toInt32.toInt64 = v := fun v => low32_toInt64 _
  have hlow' : low32 a.toUInt64.toInt64 = a := by
    have hbits : low32 a.toUInt64.toInt64 = a.toUInt64.toUInt32 := rfl
    rw [hbits]
    simp
  have hsign : w.toInt32.toInt64.toInt = (w.toNat : ℤ).bmod (2 ^ 32) := by
    rw [Int32.toInt_toInt64]
    exact BitVec.toInt_eq_toNat_bmod _
  have hbound : (0x80000000 : UInt32).toNat = 2 ^ 31 := rfl
  have hlt := w.toNat_lt
  rw [UInt32.lt_iff_toNat_lt, hbound]
  constructor
  · intro h
    have hw : w = a := by rw [← hlow w, h, hlow']
    subst hw
    have hint := congrArg Int64.toInt h
    rw [hsign, toInt_toInt64_toUInt64, Int.bmod_def] at hint
    refine ⟨rfl, ?_⟩
    split at hint <;> omega
  · rintro ⟨rfl, hclear⟩
    rw [← Int64.toInt_inj, hsign, toInt_toInt64_toUInt64, Int.bmod_eq_of_le (by omega) (by omega)]

/-- The registers that `readArgs` returns. -/
theorem readArgs_getElem?_register {n i : ℕ} (hi : i < 4) (hin : i < n) (hlt : n < 2 ^ 31)
    {values : List Int64} (h : (readArgs (Int32.ofNat n)).run uc = .ok (some values) uc') :
    values[i]? = [ArmReg.r0, .r1, .r2, .r3][i]?.map uc.regRead := by
  obtain ⟨stackArgs, -, rfl⟩ := (readArgs_eq_ok_iff (by omega) hlt).1 h
  rw [List.getElem?_append_left (by simp; omega), List.getElem?_map, List.getElem?_take_of_lt hin]

/-- The words of the stack that `readArgs` returns. -/
theorem readArgs_getElem?_stack {n i : ℕ} (hi : 4 ≤ i) (hin : i < n) (hlt : n < 2 ^ 31)
    {values : List Int64} (h : (readArgs (Int32.ofNat n)).run uc = .ok (some values) uc') :
    ∃ w, uc.wordAt (stackArg uc i).toUInt64 = some w ∧ values[i]? = some w.toInt32.toInt64 := by
  obtain ⟨stackArgs, hstack, rfl⟩ := (readArgs_eq_ok_iff (by omega) hlt).1 h
  obtain ⟨hlength, hwords⟩ := List.forall₂_iff_get.1 (readStackArgs_eq_ok hstack).2
  rw [List.length_range'] at hlength
  -- All four registers are in front of the words from the stack.
  have hidx : i - 4 < stackArgs.length := by omega
  obtain ⟨w, hw, hvalue⟩ := hwords (i - 4) (by rw [List.length_range']; omega) hidx
  have hplace : (List.range' 4 (n - 4)).get ⟨i - 4, by rw [List.length_range']; omega⟩ = i := by
    rw [List.get_eq_getElem, List.getElem_range']
    dsimp only
    omega
  rw [hplace] at hw
  refine ⟨w, hw, ?_⟩
  rw [List.take_of_length_le (show 4 ≤ n by omega),
    List.getElem?_append_right (show 4 ≤ i from hi), ← hvalue]
  exact List.getElem?_eq_getElem hidx

theorem seesArgs_iff (hlen : args.length < 2 ^ 31) (h : ArgsPassed uc spc args) :
    SeesArgs readArgs uc args ↔ StackWordsAgree uc args := by
  constructor
  · intro hsees i a hi ha
    have hin : i < args.length := (List.getElem?_eq_some_iff.1 ha).1
    obtain ⟨values, uc', hrun, hvalue⟩ := hsees i a ha
    obtain ⟨w, hw, hvalue'⟩ := readArgs_getElem?_stack hi hin hlen hrun
    rw [hvalue] at hvalue'
    obtain ⟨rfl, hclear⟩ := toInt64_eq_unsigned_iff.1 (Option.some.inj hvalue').symm
    exact ⟨hw, hclear⟩
  · intro hagree i a ha
    have hin : i < args.length := (List.getElem?_eq_some_iff.1 ha).1
    -- The words that agree are mapped, so that the loop returns.
    have hmapped : ∀ j ∈ List.range' 4 (args.length - 4),
        uc.checkMemArea (stackArg uc j).toUInt64 4 = true := by
      intro j hj
      rw [List.mem_range'_1] at hj
      obtain ⟨b, hb⟩ : ∃ b, args[j]? = some b := ⟨_, List.getElem?_eq_getElem (by omega)⟩
      exact (Unicorn.checkMemArea_of_wordAt (hagree j b hj.1 hb).1).1
    obtain ⟨stackArgs, hstack⟩ := run_readStackArgs_of_mapped hmapped
    have hrun := (readArgs_eq_ok_iff (by omega) hlen).2 ⟨stackArgs, hstack, rfl⟩
    refine ⟨_, uc, hrun, ?_⟩
    rcases lt_or_ge i 4 with hi | hi
    · have hreg : [ArmReg.r0, .r1, .r2, .r3][i]? = some ([ArmReg.r0, .r1, .r2, .r3][i]) :=
        List.getElem?_eq_getElem hi
      rw [readArgs_getElem?_register hi hin hlen hrun, hreg, Option.map_some, Unicorn.regRead,
        h.registers i _ a hreg ha]
    · obtain ⟨w, hw, hvalue⟩ := readArgs_getElem?_stack hi hin hlen hrun
      obtain ⟨hword, hclear⟩ := hagree i a hi ha
      rw [hword] at hw
      cases hw
      rw [hvalue, toInt64_eq_unsigned_iff.2 ⟨rfl, hclear⟩]

/-- A hooked function, whether it reads its arguments with `readArgs` or with `readVaArgs`, sees the
arguments that were passed exactly if the words that are read for those on the stack agree with
them. These are the words four places up. -/
theorem hooked_args_iff (hlen : args.length < 2 ^ 31) (h : ArgsPassed uc spc args) :
    (SeesArgs readArgs uc args ↔ StackWordsAgree uc args) ∧
      (SeesArgs readVaArgs uc args ↔ StackWordsAgree uc args) ∧
      (8 ≤ spc.toNat → ∀ i < 2 ^ 29, (stackArg uc i).toUInt64.toNat = spc.toNat + 4 * i) :=
  ⟨seesArgs_iff hlen h, seesArgs_iff hlen h, fun hspc _ hi => toNat_stackArg h.sp hspc hi⟩

/-- An engine in a stub whose caller had its stack pointer at `0x10010`, with `1` to `4` in the
argument registers. -/
def inStub (mem : UInt64 → UInt8) : Unicorn :=
  { Unicorn.blank with
    regions := [⟨0x10000, 0x1000⟩]
    mem
    regs := fun reg => match reg with
      | .r0 => 1
      | .r1 => 2
      | .r2 => 3
      | .r3 => 4
      | .sp => 0x10008
      | _ => 0 }

/-- Up to four arguments are all in registers. -/
theorem argsPassed_of_registers (hlen : args.length ≤ 4) (hsp : uc.regs .sp = spc - 8)
    (hregs : ∀ p ∈ [ArmReg.r0, .r1, .r2, .r3].zip args, uc.regs p.1 = p.2) :
    ArgsPassed uc spc args := by
  refine ⟨hsp, fun i reg a hreg ha => ?_, fun i a hi ha => ?_⟩
  · exact hregs (reg, a) (List.mem_of_getElem? (List.getElem?_zip_eq_some.2 ⟨hreg, ha⟩))
  · rw [List.getElem?_eq_none (hlen.trans hi)] at ha
    cases ha

theorem hooked_args_registers :
    ArgsPassed (inStub fun _ => 0) 0x10010 [1, 2, 3, 4] ∧
      SeesArgs readArgs (inStub fun _ => 0) [1, 2, 3, 4] := by
  have hpassed : ArgsPassed (inStub fun _ => 0) 0x10010 [1, 2, 3, 4] :=
    argsPassed_of_registers (by decide) (by decide) (by decide)
  refine ⟨hpassed, (hooked_args_iff (by decide) hpassed).1.2 fun i a hi ha => ?_⟩
  rw [List.getElem?_eq_none (show 4 ≤ i from hi)] at ha
  cases ha

/-- The fifth argument is read from the wrong place, and with a sign. In the first engine it is `5`
and `0` is read, in the second one the word that is read is the same, but it becomes negative. -/
theorem fifth_arg_misread :
    let uc := inStub fun x => if x = 0x10010 then 5 else 0
    let uc' := inStub fun x => if x = 0x10013 ∨ x = 0x10023 then 0x80 else 0
    (uc.wordAt 0x10010 = some 5 ∧
      outcome ((readArgs 5).run uc) = .ok (some [1, 2, 3, 4, 0]) ∧
      ¬SeesArgs readArgs uc [1, 2, 3, 4, 5]) ∧
    uc'.wordAt 0x10010 = some 0x80000000 ∧ uc'.wordAt 0x10020 = some 0x80000000 ∧
      outcome ((readVaArgs 5).run uc') = .ok (some [1, 2, 3, 4, -0x80000000]) ∧
      ¬SeesArgs readVaArgs uc' [1, 2, 3, 4, 0x80000000] := by
  intro uc uc'
  have hrun : outcome ((readArgs 5).run uc) = .ok (some [1, 2, 3, 4, 0]) := by decide +kernel
  have hrun' : outcome ((readVaArgs 5).run uc') = .ok (some [1, 2, 3, 4, -0x80000000]) := by
    decide +kernel
  refine ⟨⟨by decide +kernel, hrun, fun h => ?_⟩, by decide +kernel, by decide +kernel, hrun',
    fun h => ?_⟩
  · obtain ⟨values, uc₁, hvalues, hlast⟩ := h 4 5 rfl
    have hread : (readArgs 5).run uc = .ok (some values) uc₁ := hvalues
    rw [hread] at hrun
    cases hrun
    exact absurd hlast (by decide)
  · obtain ⟨values, uc₁, hvalues, hlast⟩ := h 4 0x80000000 rfl
    have hread : (readVaArgs 5).run uc' = .ok (some values) uc₁ := hvalues
    rw [hread] at hrun'
    cases hrun'
    exact absurd hlast (by decide)

end Tank
