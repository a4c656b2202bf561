import Tank.Helper.UpperHalves
import Tank.Utils.Words

/-!
# Passing arguments on the stack

By the AAPCS a function finds its first four arguments in `R0` to `R3`, and each further one in its
own word from the stack pointer on. `writeArgs` moves the stack pointer down far enough, but then it
writes all of these words to the same address, so that only the last one stays. The address also has
the upper half that `reg_read` returned for the stack pointer.

* `run_writeArgs_registers` and `run_writeArgs_stack`: the engine after `writeArgs`;
* `passes_args_iff`: the arguments are where the function looks for them, and nothing else has
  changed, exactly if there are at most four, or the missing words were there before.
-/

namespace Tank

open ToMathlib Binding

/-- The stack pointer after so many arguments were written. -/
def newSp (uc : Unicorn) (n : ℕ) : UInt32 := uc.regs .sp - UInt32.ofNat (spDrop n)

/-- The address of the argument `i`, `4 ≤ i`, for a function that is entered with this stack
pointer. -/
def argSlot (sp : UInt32) (i : ℕ) : UInt64 := sp.toUInt64 + UInt64.ofNat (4 * (i - 4))

/-- There is enough stack for the arguments. -/
structure StackRoom (uc : Unicorn) (n : ℕ) : Prop where
  below : spDrop n ≤ (uc.regs .sp).toNat
  mapped : uc.checkMemArea (newSp uc n).toUInt64 (4 * (n - 4)) = true

/-- The arguments are passed by the AAPCS in `uc'`, and nothing else has changed since `uc`. -/
structure PassesArgs (uc uc' : Unicorn) (args : List Int64) : Prop where
  registers : ∀ (i : ℕ) reg arg, [ArmReg.r0, .r1, .r2, .r3][i]? = some reg →
    args[i]? = some arg → uc'.regs reg = low32 arg
  stack : ∀ (i : ℕ) arg, 4 ≤ i → args[i]? = some arg →
    uc'.wordAt (argSlot (uc'.regs .sp) i) = some (low32 arg)
  sp : args.length ≤ 4 → uc'.regs .sp = uc.regs .sp
  memory : ∀ x, ¬Within (uc'.regs .sp).toUInt64 (4 * (args.length - 4)) x →
    uc'.guestByte x = uc.guestByte x
  others : ∀ reg, reg ∉ [ArmReg.r0, .r1, .r2, .r3].take args.length → reg ≠ .sp →
    uc'.regs reg = uc.regs reg

/-- The last argument may stand for the first one on the stack, and all words that are not written
are in memory already. With an upper half that is not zero no word on the stack is written, and the
place that is written instead has the last argument already. -/
structure MissingWordsThere (uc : Unicorn) (high : UInt32) (args : List Int64) : Prop where
  first : high = 0 → args[4]?.map low32 = args.getLast?.map low32
  elsewhere : high ≠ 0 →
    uc.wordAt (argArea uc high args.length).toUInt64 = args.getLast?.map low32
  rest : ∀ (i : ℕ) arg, 4 ≤ i → (i = 4 → high ≠ 0) → args[i]? = some arg →
    uc.wordAt (argSlot (newSp uc args.length) i) = some (low32 arg)

variable {uc : Unicorn} {high : UInt32} {args : List Int64} {n i : ℕ} {x : UInt64}

/-! ## The engine after `writeArgs` -/

/-- Each register has the value that was written to it, if no other was written later. -/
theorem setRegs_of_mem {regArgs : List (ArmReg × Int64)} (hnodup : (regArgs.map Prod.fst).Nodup)
    {reg : ArmReg} {arg : Int64} (h : (reg, arg) ∈ regArgs) (regs : ArmReg → UInt32) :
    setRegs regs regArgs reg = low32 arg := by
  induction regArgs generalizing regs with
  | nil => cases h
  | cons regArg regArgs ih =>
    rw [List.map_cons, List.nodup_cons] at hnodup
    rw [setRegs, List.foldl_cons]
    rcases List.mem_cons.1 h with rfl | h
    · have hlater : ∀ later ∈ regArgs, later.1 ≠ reg := by
        rintro later hmem rfl
        exact hnodup.1 (List.mem_map.2 ⟨later, hmem, rfl⟩)
      refine (setRegs_of_ne hlater _).trans ?_
      exact Function.update_self ..
    · exact ih hnodup.2 h _

theorem map_fst_zip_eq_take {α β : Type} (l : List α) (l' : List β) :
    (l.zip l').map Prod.fst = l.take l'.length := by
  induction l generalizing l' with
  | nil => simp
  | cons a l ih =>
    cases l' with
    | nil => rfl
    | cons b l' => simp [ih]

/-- The registers after `writeArgs`, apart from the stack pointer. -/
theorem setRegs_zip {reg : ArmReg} {arg : Int64}
    (hreg : [ArmReg.r0, .r1, .r2, .r3][i]? = some reg) (harg : args[i]? = some arg)
    (regs : ArmReg → UInt32) :
    setRegs regs ([ArmReg.r0, .r1, .r2, .r3].zip args) reg = low32 arg := by
  refine setRegs_of_mem ?_ (List.mem_of_getElem? (List.getElem?_zip_eq_some.2 ⟨hreg, harg⟩)) regs
  rw [map_fst_zip_eq_take]
  exact (show [ArmReg.r0, .r1, .r2, .r3].Nodup by decide).sublist (List.take_sublist _ _)

theorem setRegs_zip_of_not_mem {reg : ArmReg}
    (h : reg ∉ [ArmReg.r0, .r1, .r2, .r3].take args.length) (regs : ArmReg → UInt32) :
    setRegs regs ([ArmReg.r0, .r1, .r2, .r3].zip args) reg = regs reg := by
  refine setRegs_of_ne (fun arg harg heq => h ?_) regs
  rw [← map_fst_zip_eq_take, ← heq]
  exact List.mem_map_of_mem harg

/-- Of all words that are written to the same address the last one stays. -/
theorem foldl_store_eq {a : UInt64} {last : Int64} (h : args.getLast? = some last)
    (uc : Unicorn) :
    args.foldl (fun uc arg => uc.store a (argBytes arg)) uc = uc.store a (argBytes last) := by
  induction args generalizing uc with
  | nil => cases h
  | cons arg args ih =>
    rw [List.foldl_cons]
    cases args with
    | nil =>
      cases h
      rfl
    | cons arg' args =>
      rw [ih (by simpa using h), Unicorn.store_store]
      rw [length_argBytes, length_argBytes]

/-- Up to four arguments go to registers. -/
theorem run_writeArgs_registers (hlen : args.length ≤ 4) :
    (NativeCallHelper.writeArgs high args).run uc =
      .ok () { uc with regs := setRegs uc.regs ([ArmReg.r0, .r1, .r2, .r3].zip args) } := by
  have hrun : (writeArgs args).run (start uc fun _ => high) = .ok ()
      ((start uc fun _ => high).withRegs ([ArmReg.r0, .r1, .r2, .r3].zip args)) := by
    rw [writeArgs, bind_of_ok (run_writeRegArgs _ _), if_neg (by omega)]
    rfl
  have hsame := implements_writeArgs args (start uc fun _ => high)
  rw [hrun] at hsame
  exact hsame.eq_ok

/-- The engine after arguments were written to the stack. -/
def afterStackArgs (uc : Unicorn) (high : UInt32) (args : List Int64) (last : Int64) : Unicorn :=
  { uc.store (argArea uc high args.length).toUInt64 (argBytes last) with
    regs := Function.update (setRegs uc.regs ([ArmReg.r0, .r1, .r2, .r3].zip args)) .sp
      (newSp uc args.length) }

/-- With more arguments, the last one is written below the stack pointer. -/
theorem run_writeArgs_stack (hlen : 5 ≤ args.length) {last : Int64}
    (hlast : args.getLast? = some last) :
    (NativeCallHelper.writeArgs high args).run uc =
      if uc.checkMemArea (argArea uc high args.length).toUInt64 4 then
        .ok () (afterStackArgs uc high args last)
      else .error (.unicornException .writeUnmapped)
        { uc with regs := setRegs uc.regs ([ArmReg.r0, .r1, .r2, .r3].zip args) } := by
  have hsame := implements_writeArgs args (start uc fun _ => high)
  have huc : (start uc fun _ => high).uc = uc := rfl
  have hhigh : (start uc fun _ => high).highs 0 = high := rfl
  rw [run_writeArgs hlen, huc, hhigh] at hsame
  split_ifs at hsame ⊢ with hmapped
  · have hdrop : (args.drop 4).getLast? = some last := by
      rw [List.getLast?_drop, if_neg (by omega), hlast]
    have hsp : (argArea uc high args.length).toUInt64.toUInt32 = newSp uc args.length := by
      rw [argArea, low_sp hlen, toUInt32_regReadRaw, newSp]
    -- All words go to the same address.
    have hstack := foldl_store_eq (a := (argArea uc high args.length).toUInt64) hdrop
      { uc with regs := setRegs uc.regs ([ArmReg.r0, .r1, .r2, .r3].zip args) }
    refine hsame.eq_ok.trans (congrArg (EStateM.Result.ok ()) ?_)
    rw [afterStackArgs, ← hsp]
    exact congrArg (fun uc' => finalState ((Unicorn.regWrite .sp (argArea uc high args.length)).run
      uc')) hstack
  · exact hsame.eq_error

/-! ## Where the words are -/

theorem toNat_newSp (h : StackRoom uc n) :
    (newSp uc n).toNat = (uc.regs .sp).toNat - spDrop n := by
  have hbelow := h.below
  have hlt := (uc.regs .sp).toNat_lt
  have hdrop : (UInt32.ofNat (spDrop n)).toNat = spDrop n :=
    UInt32.toNat_ofNat_of_lt' (show spDrop n < 2 ^ 32 by omega)
  rw [newSp, UInt32.toNat_sub_of_le _ _ (UInt32.le_iff_toNat_le.2 (by omega)), hdrop]

/-- The words for the arguments end eight bytes below the old stack pointer. -/
theorem newSp_add (hn : 5 ≤ n) (h : StackRoom uc n) :
    (newSp uc n).toNat + 4 * (n - 4) + 8 = (uc.regs .sp).toNat := by
  have hsp := toNat_newSp h
  have hbelow := h.below
  rw [spDrop, if_neg (by omega)] at hsp hbelow
  omega

/-- The address that is written has the upper half that was read. -/
theorem toNat_argArea (hn : 5 ≤ n) (h : StackRoom uc n) (high : UInt32) :
    (argArea uc high n).toUInt64.toNat = high.toNat * 2 ^ 32 + (newSp uc n).toNat := by
  have harea : (argArea uc high n).toUInt64 =
      high.toUInt64 * 0x100000000 + (uc.regs .sp).toUInt64 - 8 - 4 * (UInt64.ofNat n - 4) := rfl
  have hsp := newSp_add hn h
  have hlt := (uc.regs .sp).toNat_lt
  have hhigh := high.toNat_lt
  have hbig : (0x100000000 : UInt64).toNat = 0x100000000 := rfl
  have hfour : (4 : UInt64).toNat = 4 := rfl
  have height : (8 : UInt64).toNat = 8 := rfl
  rw [harea]
  simp only [UInt64.toNat_sub, UInt64.toNat_mul, UInt64.toNat_add, UInt32.toNat_toUInt64,
    UInt64.toNat_ofNat', hbig, hfour, height]
  omega

theorem toNat_argSlot (hn : 5 ≤ n) (h : StackRoom uc n) (hin : i < n) :
    (argSlot (newSp uc n) i).toNat = (newSp uc n).toNat + 4 * (i - 4) := by
  have hsp := newSp_add hn h
  have hlt := (uc.regs .sp).toNat_lt
  rw [argSlot, UInt64.toNat_add, UInt32.toNat_toUInt64,
    UInt64.toNat_ofNat_of_lt' (show 4 * (i - 4) < 2 ^ 64 by omega)]
  omega

/-- Only the first word on the stack is written, and that only if the upper half is zero. -/
theorem not_within_argArea (h : StackRoom uc n) (hi : 4 ≤ i) (hin : i < n)
    (hfirst : i = 4 → high ≠ 0) (hx : Within (argSlot (newSp uc n) i) 4 x) :
    ¬Within (argArea uc high n).toUInt64 4 x := by
  have hn : 5 ≤ n := by omega
  have hsp := newSp_add hn h
  have hlt := (uc.regs .sp).toNat_lt
  have hhigh := high.toNat_lt
  have harea := toNat_argArea hn h high
  have hslot := toNat_argSlot hn h hin
  rw [within_iff (by omega)] at hx
  rw [within_iff (by omega)]
  by_cases hi4 : i = 4
  · have hpos : 0 < high.toNat := Nat.pos_of_ne_zero fun h0 => hfirst hi4 (UInt32.toNat_inj.1 h0)
    omega
  · rcases Nat.eq_zero_or_pos high.toNat with h0 | hpos <;> omega

/-- With the upper half zero the write stays in the words for the arguments. -/
theorem argArea_zero (hn : 5 ≤ n) (h : StackRoom uc n) :
    (argArea uc 0 n).toUInt64 = (newSp uc n).toUInt64 := by
  have harea := toNat_argArea hn h 0
  have hzero : (0 : UInt32).toNat = 0 := rfl
  rw [← UInt64.toNat_inj, harea, hzero, UInt32.toNat_toUInt64]
  omega

/-- With another upper half it is outside of them. -/
theorem not_within_slots (hn : 5 ≤ n) (h : StackRoom uc n) (hhigh : high ≠ 0)
    (hx : Within (argArea uc high n).toUInt64 4 x) :
    ¬Within (newSp uc n).toUInt64 (4 * (n - 4)) x := by
  have hsp := newSp_add hn h
  have hlt := (uc.regs .sp).toNat_lt
  have hlt' := high.toNat_lt
  have harea := toNat_argArea hn h high
  have hnew : (newSp uc n).toUInt64.toNat = (newSp uc n).toNat := UInt32.toNat_toUInt64 _
  have hpos : 0 < high.toNat := Nat.pos_of_ne_zero fun h0 => hhigh (UInt32.toNat_inj.1 h0)
  rw [within_iff (by omega)] at hx
  rw [within_iff (by omega)]
  omega

/-! ## Whether the arguments are passed -/

section AfterStackArgs

variable {last : Int64}

theorem sp_afterStackArgs (uc : Unicorn) (high : UInt32) (args : List Int64) (last : Int64) :
    (afterStackArgs uc high args last).regs .sp = newSp uc args.length := by
  simp only [afterStackArgs, Function.update_self]

theorem regs_afterStackArgs_of_ne {reg : ArmReg} (h : reg ≠ .sp) :
    (afterStackArgs uc high args last).regs reg =
      setRegs uc.regs ([ArmReg.r0, .r1, .r2, .r3].zip args) reg := by
  simp only [afterStackArgs, Function.update_of_ne h]

-- For any address: with the one above, comparing the two engines by `rfl` would compute it.
theorem regions_store_with (uc : Unicorn) (a : UInt64) (bytes : List UInt8)
    (regs : ArmReg → UInt32) : { uc.store a bytes with regs }.regions = uc.regions := rfl

theorem regions_afterStackArgs : (afterStackArgs uc high args last).regions = uc.regions :=
  regions_store_with ..

theorem mem_afterStackArgs : (afterStackArgs uc high args last).mem =
    overwrite uc.mem (argArea uc high args.length).toUInt64 (argBytes last) := rfl

/-- Only four bytes are written. -/
theorem mem_afterStackArgs_of_not_within
    (hx : ¬Within (argArea uc high args.length).toUInt64 4 x) :
    (afterStackArgs uc high args last).mem x = uc.mem x := by
  rw [mem_afterStackArgs]
  refine overwrite_of_not_within ?_
  rw [length_argBytes]
  exact hx

/-- The word that is written. -/
theorem wordAt_argArea
    (hmapped : uc.checkMemArea (argArea uc high args.length).toUInt64 4 = true) :
    (afterStackArgs uc high args last).wordAt (argArea uc high args.length).toUInt64 =
      some (low32 last) := by
  rw [← Unicorn.checkMemArea_congr regions_afterStackArgs] at hmapped
  exact Unicorn.wordAt_of_overwrite hmapped mem_afterStackArgs

/-- The words that are not written. -/
theorem wordAt_argSlot (last : Int64) (h : StackRoom uc args.length) (hi : 4 ≤ i)
    (hin : i < args.length) (hfirst : i = 4 → high ≠ 0) :
    (afterStackArgs uc high args last).wordAt (argSlot (newSp uc args.length) i) =
      uc.wordAt (argSlot (newSp uc args.length) i) :=
  Unicorn.wordAt_congr regions_afterStackArgs fun _ hx =>
    mem_afterStackArgs_of_not_within (not_within_argArea h hi hin hfirst hx)

/-- The word at the address that is written is the last argument already exactly if none of its
bytes changes. -/
theorem wordAt_argArea_iff
    (hmapped : uc.checkMemArea (argArea uc high args.length).toUInt64 4 = true) :
    uc.wordAt (argArea uc high args.length).toUInt64 = some (low32 last) ↔
      ∀ x, Within (argArea uc high args.length).toUInt64 4 x →
        (afterStackArgs uc high args last).mem x = uc.mem x := by
  constructor
  · intro hword x _
    rw [Unicorn.wordAt_of_checkMemArea hmapped, ← leWord_cut_longToBytesLittle] at hword
    -- The word determines its bytes, so that the store makes no difference.
    have hbytes : readBytes uc.mem (argArea uc high args.length).toUInt64 4 = argBytes last :=
      leWord_injective length_readBytes (length_argBytes last) (Option.some.inj hword)
    have hlen : (argBytes last).length ≤ 2 ^ 64 := by
      rw [length_argBytes]
      decide
    rw [← length_argBytes last, ← overwrite_eq_self_iff hlen] at hbytes
    exact congrFun hbytes x
  · intro hsame
    rw [← wordAt_argArea hmapped]
    exact (Unicorn.wordAt_congr regions_afterStackArgs hsame).symm

theorem guestByte_afterStackArgs_iff :
    (afterStackArgs uc high args last).guestByte x = uc.guestByte x ↔
      (uc.mapped x = true → (afterStackArgs uc high args last).mem x = uc.mem x) := by
  rw [Unicorn.guestByte, Unicorn.guestByte, Unicorn.mapped_congr regions_afterStackArgs]
  split_ifs with hmapped <;> simp [hmapped]

/-- Memory is as before, apart from the words for the arguments, if the write stays in these words
or makes no difference. -/
theorem memory_unchanged_iff (last : Int64) (hlen : 5 ≤ args.length) (h : StackRoom uc args.length)
    (hmapped : uc.checkMemArea (argArea uc high args.length).toUInt64 4 = true) :
    (∀ x, ¬Within (newSp uc args.length).toUInt64 (4 * (args.length - 4)) x →
      (afterStackArgs uc high args last).guestByte x = uc.guestByte x) ↔
      (high ≠ 0 → uc.wordAt (argArea uc high args.length).toUInt64 = some (low32 last)) := by
  constructor
  · intro hmemory hhigh
    refine (wordAt_argArea_iff hmapped).2 fun x hx => ?_
    have hout := hmemory x (not_within_slots hlen h hhigh hx)
    exact guestByte_afterStackArgs_iff.1 hout (Unicorn.mapped_of_checkMemArea hmapped hx)
  · intro hword x hx
    refine guestByte_afterStackArgs_iff.2 fun _ => ?_
    by_cases hwithin : Within (argArea uc high args.length).toUInt64 4 x
    · have hhigh : high ≠ 0 := by
        -- With the upper half zero, the bytes that are written are those of the first word.
        rintro rfl
        rw [argArea_zero hlen h] at hwithin
        refine hx (lt_of_lt_of_le hwithin ?_)
        omega
      exact (wordAt_argArea_iff hmapped).1 (hword hhigh) x hwithin
    · exact mem_afterStackArgs_of_not_within hwithin

/-- The words on the stack are the arguments exactly if the first one is the last argument, and the
words that are not written were the arguments before. -/
theorem stackWords_iff (hlen : 5 ≤ args.length) (h : StackRoom uc args.length)
    (hlast : args.getLast? = some last)
    (hmapped : uc.checkMemArea (argArea uc high args.length).toUInt64 4 = true) :
    (∀ (i : ℕ) arg, 4 ≤ i → args[i]? = some arg →
      (afterStackArgs uc high args last).wordAt (argSlot (newSp uc args.length) i) =
        some (low32 arg)) ↔
      (high = 0 → args[4]?.map low32 = args.getLast?.map low32) ∧
        ∀ (i : ℕ) arg, 4 ≤ i → (i = 4 → high ≠ 0) → args[i]? = some arg →
          uc.wordAt (argSlot (newSp uc args.length) i) = some (low32 arg) := by
  -- The first word on the stack, if it is the one that is written.
  have hfirst : high = 0 → (afterStackArgs uc high args last).wordAt
      (argSlot (newSp uc args.length) 4) = some (low32 last) := by
    rintro rfl
    have hslot : argSlot (newSp uc args.length) 4 = (argArea uc 0 args.length).toUInt64 := by
      rw [argArea_zero hlen h]
      exact UInt64.add_zero _
    rw [hslot, wordAt_argArea hmapped]
  have hlt : ∀ {i : ℕ} {arg : Int64}, args[i]? = some arg → i < args.length :=
    fun harg => (List.getElem?_eq_some_iff.1 harg).1
  constructor
  · intro hstack
    refine ⟨fun hhigh => ?_, fun i arg hi hne harg => ?_⟩
    · have harg : args[4]? = some args[4] := List.getElem?_eq_getElem hlen
      have hword := hstack 4 _ le_rfl harg
      rw [hfirst hhigh] at hword
      rw [harg, hlast, Option.map_some, Option.map_some, hword]
    · rw [← wordAt_argSlot last h hi (hlt harg) hne]
      exact hstack i arg hi harg
  · rintro ⟨hsame, hrest⟩ i arg hi harg
    by_cases hwritten : i = 4 ∧ high = 0
    · obtain ⟨rfl, hhigh⟩ := hwritten
      have hword := hsame hhigh
      rw [harg, hlast, Option.map_some, Option.map_some] at hword
      rw [hfirst hhigh, hword]
    · have hne : i = 4 → high ≠ 0 := fun hi4 hhigh => hwritten ⟨hi4, hhigh⟩
      rw [wordAt_argSlot last h hi (hlt harg) hne]
      exact hrest i arg hi hne harg

theorem passesArgs_afterStackArgs_iff (hlen : 5 ≤ args.length) (h : StackRoom uc args.length)
    (hlast : args.getLast? = some last)
    (hmapped : uc.checkMemArea (argArea uc high args.length).toUInt64 4 = true) :
    PassesArgs uc (afterStackArgs uc high args last) args ↔ MissingWordsThere uc high args := by
  have hsp := sp_afterStackArgs uc high args last
  have hwords := stackWords_iff hlen h hlast hmapped
  have hmemory := memory_unchanged_iff last hlen h hmapped
  constructor
  · intro hpasses
    have hstack := hpasses.stack
    have hkept := hpasses.memory
    rw [hsp] at hstack hkept
    obtain ⟨hfirst, hrest⟩ := hwords.1 hstack
    refine ⟨hfirst, fun hhigh => ?_, hrest⟩
    rw [hmemory.1 hkept hhigh, hlast, Option.map_some]
  · rintro ⟨hfirst, helsewhere, hrest⟩
    refine ⟨fun i reg arg hreg harg => ?_, ?_, fun hfew => by omega, ?_, fun reg hreg hne => ?_⟩
    · have hne : reg ≠ .sp := by
        rintro rfl
        exact absurd (List.mem_of_getElem? hreg) (by decide)
      rw [regs_afterStackArgs_of_ne hne, setRegs_zip hreg harg]
    · rw [hsp]
      exact hwords.2 ⟨hfirst, hrest⟩
    · rw [hsp]
      refine hmemory.2 fun hhigh => ?_
      rw [helsewhere hhigh, hlast, Option.map_some]
    · rw [regs_afterStackArgs_of_ne hne, setRegs_zip_of_not_mem hreg]

end AfterStackArgs

/-- Arguments in registers are passed. -/
theorem passesArgs_registers (hlen : args.length ≤ 4) :
    PassesArgs uc { uc with regs := setRegs uc.regs ([ArmReg.r0, .r1, .r2, .r3].zip args) }
      args := by
  refine ⟨fun i reg arg hreg harg => setRegs_zip hreg harg _, fun i arg hi harg => ?_, fun _ => ?_,
    fun _ _ => rfl, fun reg hreg _ => setRegs_zip_of_not_mem hreg _⟩
  · rw [List.getElem?_eq_none (hlen.trans hi)] at harg
    cases harg
  · exact setRegs_of_ne (fun _ => ne_sp_of_mem_zip) _

/-- With enough stack, `writeArgs` passes the arguments and changes nothing else exactly if there
are at most four, or the words that it should have written are there already. With five arguments
and the upper half zero the latter is always so. -/
theorem passes_args_iff (h : StackRoom uc args.length) :
    (∃ uc', (NativeCallHelper.writeArgs high args).run uc = .ok () uc' ∧ PassesArgs uc uc' args) ↔
      args.length ≤ 4 ∨ MissingWordsThere uc high args := by
  rcases Nat.lt_or_ge 4 args.length with hlen | hlen
  · obtain ⟨last, hlast⟩ : ∃ last, args.getLast? = some last :=
      Option.isSome_iff_exists.1 (by rw [List.getLast?_isSome]; rintro rfl; cases hlen)
    rw [run_writeArgs_stack hlen hlast, or_iff_right (by omega)]
    split_ifs with hmapped
    · rw [← passesArgs_afterStackArgs_iff hlen h hlast hmapped]
      constructor
      · rintro ⟨uc', ⟨⟩, hpasses⟩
        exact hpasses
      · intro hpasses
        exact ⟨_, rfl, hpasses⟩
    · -- The address is not mapped, so its upper half is not zero and no word can be there.
      constructor
      · rintro ⟨uc', ⟨⟩, -⟩
      · intro hthere
        refine absurd ?_ hmapped
        by_cases hhigh : high = 0
        · rw [hhigh, argArea_zero hlen h]
          have hroom := h.mapped
          rw [show 4 * (args.length - 4) = 4 + 4 * (args.length - 5) by omega,
            Unicorn.checkMemArea_add, Bool.and_eq_true] at hroom
          exact hroom.1
        · have hword := hthere.elsewhere hhigh
          rw [hlast, Option.map_some] at hword
          exact (Unicorn.checkMemArea_of_wordAt hword).1
  · rw [run_writeArgs_registers hlen]
    exact ⟨fun _ => .inl hlen, fun _ => ⟨_, rfl, passesArgs_registers hlen⟩⟩

/-- Five arguments are passed. -/
theorem passes_five_args :
    ∃ uc', (NativeCallHelper.writeArgs 0 [1, 2, 3, 4, 5]).run onePageStack = .ok () uc' ∧
      PassesArgs onePageStack uc' [1, 2, 3, 4, 5] := by
  refine (passes_args_iff ⟨by decide, by decide +kernel⟩).2 (.inr ⟨fun _ => rfl, nofun, ?_⟩)
  intro i arg hi hfirst harg
  rcases Nat.lt_or_ge 4 i with hlt | hle
  · rw [List.getElem?_eq_none (show 5 ≤ i from hlt)] at harg
    cases harg
  · exact absurd rfl (hfirst (le_antisymm hle hi))

/-- Of six arguments the fifth one is lost: the sixth is in its place, and the word for the sixth is
not written. -/
theorem sixth_arg_overwrites_fifth :
    let uc' := finalState ((NativeCallHelper.writeArgs 0 [1, 2, 3, 4, 5, 6]).run onePageStack)
    StackRoom onePageStack 6 ∧
      outcome ((NativeCallHelper.writeArgs 0 [1, 2, 3, 4, 5, 6]).run onePageStack) = .ok () ∧
      uc'.wordAt (argSlot (uc'.regs .sp) 4) = some 6 ∧
      uc'.wordAt (argSlot (uc'.regs .sp) 5) = some 0 ∧
      ¬PassesArgs onePageStack uc' [1, 2, 3, 4, 5, 6] := by
  intro uc'
  have hfifth : uc'.wordAt (argSlot (uc'.regs .sp) 4) = some 6 := by decide +kernel
  refine ⟨⟨by decide, by decide +kernel⟩, by decide +kernel, hfifth, by decide +kernel, ?_⟩
  intro hpasses
  have hword := hpasses.stack 4 5 le_rfl rfl
  rw [hfifth] at hword
  exact absurd hword (by decide)

end Tank
