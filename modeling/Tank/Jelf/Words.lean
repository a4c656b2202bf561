import Tank.Module.ElfParser
import Tank.ToMathlib.Reader

/-!
# The numbers of an ELF file

`ElfParser` reads shorts, ints and longs in the byte order of the file. `numberBytes` is how a file
spells a number, and each reader is characterised by the spelling of what it returns:

* `readShort_eq_ok_iff`, `readInt_eq_ok_iff`: shorts and ints are read as they are spelled;
* `readLong_eq_ok_iff`: a long is read as it is spelled if the first byte is the highest one; in the
  other order `signSpread` is made of it;
* `readIntOrLong_eq_ok_iff`: the same for the words whose width depends on the class of the file.
-/

namespace Tank

open ToMathlib

/-! ## Bytes and numbers -/

/-- The lowest bytes of a number, lowest first. -/
def leBytes : ℕ → ℕ → List UInt8
  | 0, _ => []
  | width + 1, n => UInt8.ofNat n :: leBytes width (n / 256)

theorem length_leBytes (width n : ℕ) : (leBytes width n).length = width := by
  induction width generalizing n with
  | zero => rfl
  | succ width ih => rw [leBytes, List.length_cons, ih]

theorem leNat_leBytes (width n : ℕ) : leNat (leBytes width n) = n % 256 ^ width := by
  induction width generalizing n with
  | zero => rw [leBytes, leNat, pow_zero, Nat.mod_one]
  | succ width ih =>
    have hbyte : 2 ^ 8 = 256 := rfl
    rw [leBytes, leNat, ih, UInt8.toNat_ofNat', hbyte, pow_succ', Nat.mod_mul]

/-- The bytes of a number in the order of a file. -/
def numberBytes (lsb : Bool) (width n : ℕ) : List UInt8 :=
  if lsb then leBytes width n else (leBytes width n).reverse

/-- The number that bytes of a file spell. -/
def bytesNumber (lsb : Bool) (bytes : List UInt8) : ℕ :=
  leNat (if lsb then bytes else bytes.reverse)

@[simp] theorem length_numberBytes (lsb : Bool) (width n : ℕ) :
    (numberBytes lsb width n).length = width := by
  rw [numberBytes]
  split
  · exact length_leBytes width n
  · rw [List.length_reverse, length_leBytes]

theorem bytesNumber_numberBytes (lsb : Bool) (width n : ℕ) :
    bytesNumber lsb (numberBytes lsb width n) = n % 256 ^ width := by
  rw [bytesNumber, numberBytes]
  split
  · exact leNat_leBytes width n
  · rw [List.reverse_reverse, leNat_leBytes]

theorem bytesNumber_lt (lsb : Bool) (bytes : List UInt8) :
    bytesNumber lsb bytes < 256 ^ bytes.length := by
  rw [bytesNumber]
  split
  · exact leNat_lt bytes
  · rw [← List.length_reverse]
    exact leNat_lt bytes.reverse

theorem bytesNumber_injective {lsb : Bool} {bytes bytes' : List UInt8}
    (hlen : bytes.length = bytes'.length) (h : bytesNumber lsb bytes = bytesNumber lsb bytes') :
    bytes = bytes' := by
  rw [bytesNumber, bytesNumber] at h
  cases lsb with
  | true => exact leNat_injective hlen h
  | false =>
    have hrev : bytes.reverse.length = bytes'.reverse.length := by
      rw [List.length_reverse, List.length_reverse, hlen]
    exact List.reverse_injective (leNat_injective hrev h)

/-- Only one list of a given length spells a number. -/
theorem bytesNumber_eq_iff {lsb : Bool} {bytes : List UInt8} {width n : ℕ}
    (hlen : bytes.length = width) (hn : n < 256 ^ width) :
    bytesNumber lsb bytes = n ↔ bytes = numberBytes lsb width n := by
  have hback : bytesNumber lsb (numberBytes lsb width n) = n := by
    rw [bytesNumber_numberBytes, Nat.mod_eq_of_lt hn]
  constructor
  · intro h
    have hlen' : bytes.length = (numberBytes lsb width n).length := by
      rw [hlen, length_numberBytes]
    exact bytesNumber_injective hlen' (h.trans hback.symm)
  · rintro rfl
    exact hback

/-- The bytes of a long are those of its two halves. -/
theorem bytesNumber_append (lsb : Bool) {bytes bytes' : List UInt8} (hlen : bytes.length = 4)
    (hlen' : bytes'.length = 4) :
    bytesNumber lsb (bytes ++ bytes') =
      if lsb then bytesNumber lsb bytes + 2 ^ 32 * bytesNumber lsb bytes'
      else bytesNumber lsb bytes' + 2 ^ 32 * bytesNumber lsb bytes := by
  have hpow : 256 ^ 4 = 2 ^ 32 := rfl
  cases lsb with
  | true =>
    simp only [bytesNumber, if_true]
    rw [leNat_append, hlen, hpow]
  | false =>
    simp only [bytesNumber, Bool.false_eq_true, if_false]
    rw [List.reverse_append, leNat_append, List.length_reverse, hlen', hpow]

/-! ## Shorts and ints -/

/-- The `short` with the given bytes, first byte on top. -/
def beShort (a b : UInt8) : UInt16 := (a.toUInt16 <<< 8) + b.toUInt16

theorem toNat_beShort (a b : UInt8) : (beShort a b).toNat = a.toNat * 256 + b.toNat := by
  have ha := a.toNat_lt
  have hb := b.toNat_lt
  have h8 : (8 : UInt16).toNat % 16 = 8 := rfl
  simp only [beShort, UInt16.toNat_add, UInt16.toNat_shiftLeft, UInt8.toNat_toUInt16, h8,
    Nat.shiftLeft_eq]
  omega

/-- Swapping or not, the `short` is the one that the bytes spell. -/
theorem toNat_orderedShort (lsb : Bool) (a b : UInt8) :
    (if lsb then byteSwapShort (beShort a b) else beShort a b).toNat = bytesNumber lsb [a, b] := by
  cases lsb with
  | true =>
    rw [if_pos rfl, toNat_byteSwapShort a.toNat_lt b.toNat_lt (toNat_beShort a b), bytesNumber,
      if_pos rfl]
    simp only [leNat]
    omega
  | false =>
    rw [if_neg Bool.false_ne_true, toNat_beShort, bytesNumber, if_neg Bool.false_ne_true]
    simp only [List.reverse_cons, List.reverse_nil, List.nil_append, List.cons_append, leNat]
    omega

theorem toNat_orderedInt (lsb : Bool) (a b c d : UInt8) :
    (if lsb then byteSwapInt (beInt a b c d) else beInt a b c d).toNat =
      bytesNumber lsb [a, b, c, d] := by
  cases lsb with
  | true =>
    rw [if_pos rfl, toNat_byteSwapInt a.toNat_lt b.toNat_lt c.toNat_lt d.toNat_lt
      (toNat_beInt a b c d), bytesNumber, if_pos rfl]
    simp only [leNat]
    omega
  | false =>
    rw [if_neg Bool.false_ne_true, toNat_beInt, bytesNumber, if_neg Bool.false_ne_true]
    simp only [List.reverse_cons, List.reverse_nil, List.nil_append, List.cons_append, leNat]
    omega

theorem orderedShort_eq_iff {lsb : Bool} {a b : UInt8} {v : UInt16} :
    (if lsb then byteSwapShort (beShort a b) else beShort a b) = v ↔
      [a, b] = numberBytes lsb 2 v.toNat := by
  rw [← UInt16.toNat_inj, toNat_orderedShort]
  exact bytesNumber_eq_iff rfl v.toNat_lt

theorem orderedInt_eq_iff {lsb : Bool} {a b c d : UInt8} {v : UInt32} :
    (if lsb then byteSwapInt (beInt a b c d) else beInt a b c d) = v ↔
      [a, b, c, d] = numberBytes lsb 4 v.toNat := by
  rw [← UInt32.toNat_inj, toNat_orderedInt]
  exact bytesNumber_eq_iff rfl v.toNat_lt

/-- How a file spells a `short`. -/
def shortBytes (lsb : Bool) (v : Int16) : List UInt8 := numberBytes lsb 2 v.toUInt16.toNat

/-- How a file spells an `int`. -/
def intBytes (lsb : Bool) (v : Int32) : List UInt8 := numberBytes lsb 4 v.toUInt32.toNat

@[simp] theorem length_shortBytes (lsb : Bool) (v : Int16) : (shortBytes lsb v).length = 2 :=
  length_numberBytes ..

@[simp] theorem length_intBytes (lsb : Bool) (v : Int32) : (intBytes lsb v).length = 4 :=
  length_numberBytes ..

namespace ElfParser

variable {parser : ElfParser} {α : Type} {pos pos' : ℕ}

/-- `readShort` -/
def readShort (parser : ElfParser) : ParseM Int16 := do
  let ch1 ← parser.readUnsignedByte
  let ch2 ← parser.readUnsignedByte
  let val := beShort ch1 ch2
  pure (if parser.dataLsb then byteSwapShort val else val).toInt16

/-- `readInt`, kept in a `long`. -/
def readIntWide (parser : ElfParser) : ParseM Int64 := do
  let v ← parser.readInt
  pure v.toInt64

/-- `readIntOrLong` -/
def readIntOrLong (parser : ElfParser) : ParseM Int64 :=
  match parser.objectSize with
  | .class32 => parser.readIntWide
  | .class64 => parser.readLong

/-- The parser's file has the byte at the position. -/
def ByteAt (parser : ElfParser) (pos : ℕ) (b : UInt8) : Prop := Spells parser.buffer.bytes pos [b]

/-- The parser's file spells the `short` at the position. -/
def ShortAt (parser : ElfParser) (pos : ℕ) (v : Int16) : Prop :=
  Spells parser.buffer.bytes pos (shortBytes parser.dataLsb v)

/-- The parser's file spells the `int` at the position. -/
def IntAt (parser : ElfParser) (pos : ℕ) (v : Int32) : Prop :=
  Spells parser.buffer.bytes pos (intBytes parser.dataLsb v)

theorem readUnsignedByte_eq_ok_iff {b : UInt8} :
    parser.readUnsignedByte.run pos = .ok b pos' ↔ parser.ByteAt pos b ∧ pos' = pos + 1 := by
  rw [ByteAt, spells_singleton]
  refine ⟨readUnsignedByte_eq_ok, ?_⟩
  rintro ⟨hb, rfl⟩
  simp only [EStateM.run, readUnsignedByte, hb]

theorem readUnsignedByte_bind_iff {f : UInt8 → ParseM α} {r : α} :
    (parser.readUnsignedByte >>= f).run pos = .ok r pos' ↔
      ∃ b, parser.ByteAt pos b ∧ (f b).run (pos + 1) = .ok r pos' :=
  bind_eq_ok_iff_of_reads fun _ _ _ => readUnsignedByte_eq_ok_iff

theorem readShort_eq_ok_iff {v : Int16} :
    parser.readShort.run pos = .ok v pos' ↔ parser.ShortAt pos v ∧ pos' = pos + 2 := by
  simp only [readShort, readUnsignedByte_bind_iff, pure_eq_ok_iff]
  constructor
  · rintro ⟨a, ha, b, hb, rfl, rfl⟩
    refine ⟨?_, rfl⟩
    have hspells : Spells parser.buffer.bytes pos [a, b] := spells_cons.2 ⟨ha, hb⟩
    rwa [orderedShort_eq_iff.1 rfl] at hspells
  · rintro ⟨hspells, rfl⟩
    -- The two bytes that are spelled are read one after the other.
    obtain ⟨a, b, hab⟩ := List.length_eq_two.1 (length_shortBytes parser.dataLsb v)
    rw [ShortAt, hab] at hspells
    obtain ⟨ha, hb⟩ := spells_cons.1 hspells
    exact ⟨a, ha, b, hb, by rw [orderedShort_eq_iff.2 hab.symm]; rfl, rfl⟩

theorem readShort_bind_iff {f : Int16 → ParseM α} {r : α} :
    (parser.readShort >>= f).run pos = .ok r pos' ↔
      ∃ v, parser.ShortAt pos v ∧ (f v).run (pos + 2) = .ok r pos' :=
  bind_eq_ok_iff_of_reads fun _ _ _ => readShort_eq_ok_iff

/-- Four bytes that are read one after the other. -/
theorem read_four_iff {f : UInt8 → UInt8 → UInt8 → UInt8 → ParseM α} {r : α} :
    (do
      let ch1 ← parser.readUnsignedByte
      let ch2 ← parser.readUnsignedByte
      let ch3 ← parser.readUnsignedByte
      let ch4 ← parser.readUnsignedByte
      f ch1 ch2 ch3 ch4 : ParseM α).run pos = .ok r pos' ↔
      ∃ a b c d, Spells parser.buffer.bytes pos [a, b, c, d] ∧
        (f a b c d).run (pos + 4) = .ok r pos' := by
  simp only [readUnsignedByte_bind_iff]
  constructor
  · rintro ⟨a, ha, b, hb, c, hc, d, hd, hf⟩
    exact ⟨a, b, c, d, spells_cons.2 ⟨ha, spells_cons.2 ⟨hb, spells_cons.2 ⟨hc, hd⟩⟩⟩, hf⟩
  · rintro ⟨a, b, c, d, hspells, hf⟩
    obtain ⟨ha, hspells⟩ := spells_cons.1 hspells
    obtain ⟨hb, hspells⟩ := spells_cons.1 hspells
    obtain ⟨hc, hd⟩ := spells_cons.1 hspells
    exact ⟨a, ha, b, hb, c, hc, d, hd, hf⟩

theorem readInt_eq_ok_iff {v : Int32} :
    parser.readInt.run pos = .ok v pos' ↔ parser.IntAt pos v ∧ pos' = pos + 4 := by
  rw [readInt, read_four_iff]
  simp only [pure_eq_ok_iff]
  constructor
  · rintro ⟨a, b, c, d, hspells, rfl, rfl⟩
    refine ⟨?_, rfl⟩
    rwa [orderedInt_eq_iff.1 rfl] at hspells
  · rintro ⟨hspells, rfl⟩
    obtain ⟨a, b, c, d, habcd⟩ := List.length_eq_four.1 (length_intBytes parser.dataLsb v)
    rw [IntAt, habcd] at hspells
    exact ⟨a, b, c, d, hspells, by rw [orderedInt_eq_iff.2 habcd.symm]; rfl, rfl⟩

theorem readInt_bind_iff {f : Int32 → ParseM α} {r : α} :
    (parser.readInt >>= f).run pos = .ok r pos' ↔
      ∃ v, parser.IntAt pos v ∧ (f v).run (pos + 4) = .ok r pos' :=
  bind_eq_ok_iff_of_reads fun _ _ _ => readInt_eq_ok_iff

theorem readIntWide_eq_ok_iff {v : Int64} :
    parser.readIntWide.run pos = .ok v pos' ↔
      (∃ w, parser.IntAt pos w ∧ v = w.toInt64) ∧ pos' = pos + 4 := by
  simp only [readIntWide, readInt_bind_iff, pure_eq_ok_iff]
  constructor
  · rintro ⟨w, hw, hv, hpos⟩
    exact ⟨⟨w, hw, hv⟩, hpos⟩
  · rintro ⟨⟨w, hw, hv⟩, hpos⟩
    exact ⟨w, hw, hv, hpos⟩

end ElfParser

/-! ## Longs -/

/-- The `long` with the given bits. -/
def longOfNat (n : ℕ) : Int64 := (UInt64.ofNat n).toInt64

/-- How a file spells a `long`. -/
def longBytes (lsb : Bool) (v : Int64) : List UInt8 := numberBytes lsb 8 v.toUInt64.toNat

@[simp] theorem length_longBytes (lsb : Bool) (v : Int64) : (longBytes lsb v).length = 8 :=
  length_numberBytes ..

/-- What `byteSwap` makes of a `long` of a little-endian file: the sign of the lower `int` is spread
over the upper one. -/
def signSpread (v : Int64) : Int64 := if v.toInt32 < 0 then v.toInt32.toInt64 else v

theorem longOfNat_toUInt64 (v : Int64) : longOfNat v.toUInt64.toNat = v := by
  rw [longOfNat, UInt64.ofNat_toNat]
  rfl

theorem toNat_longOfNat {n : ℕ} (hn : n < 2 ^ 64) : (longOfNat n).toUInt64.toNat = n := by
  have hbits : (longOfNat n).toUInt64 = UInt64.ofNat n := rfl
  rw [hbits, UInt64.toNat_ofNat_of_lt' hn]

/-- The bits of an `int` that is widened with its sign. -/
theorem toNat_toInt64 (w : UInt32) :
    w.toInt32.toInt64.toUInt64.toNat =
      if w.toNat < 2 ^ 31 then w.toNat else w.toNat + 2 ^ 32 * (2 ^ 32 - 1) := by
  have hw := w.toNat_lt
  have hbits : w.toInt32.toInt64.toUInt64.toNat = (w.toBitVec.signExtend 64).toNat := rfl
  have hnat : w.toBitVec.toNat = w.toNat := rfl
  rw [hbits, BitVec.toNat_signExtend, BitVec.toNat_setWidth, BitVec.msb_eq_decide, hnat]
  split <;> rename_i hmsb <;> simp only [decide_eq_true_eq] at hmsb <;> split <;> omega

theorem toNat_shiftLeft_32 (w : UInt32) :
    (w.toInt32.toInt64 <<< 32).toUInt64.toNat = w.toNat <<< 32 := by
  have hbits : (w.toInt32.toInt64 <<< 32).toUInt64 = w.toInt32.toInt64.toUInt64 <<< 32 := rfl
  have h32 : (32 : UInt64).toNat % 64 = 32 := rfl
  have hw := w.toNat_lt
  rw [hbits, UInt64.toNat_shiftLeft, h32, toNat_toInt64, Nat.shiftLeft_eq, Nat.shiftLeft_eq]
  split <;> omega

/-- The `long` that is put together with the first byte on top. -/
theorem beLong_eq (high low : UInt32) :
    (high.toInt32.toInt64 <<< 32) + (low.toInt32.toInt64 &&& 0xFFFFFFFF) =
      longOfNat (low.toNat + 2 ^ 32 * high.toNat) := by
  have hhigh := high.toNat_lt
  have hlow := low.toNat_lt
  have hmask : (low.toInt32.toInt64 &&& 0xFFFFFFFF).toUInt64 = low.toUInt64 := by
    rw [and_mask32, low32_toInt64]
    rfl
  rw [← longOfNat_toUInt64 (_ + _), Int64.toUInt64_add, UInt64.toNat_add, toNat_shiftLeft_32,
    hmask, UInt32.toNat_toUInt64, Nat.shiftLeft_eq]
  congr 1
  omega

theorem or_ones {n : ℕ} (hn : n < 2 ^ 32) : n ||| (2 ^ 32 - 1) = 2 ^ 32 - 1 := by
  apply Nat.eq_of_testBit_eq
  intro i
  rw [Nat.testBit_or, Nat.testBit_two_pow_sub_one]
  by_cases hi : i < 32
  · simp [hi]
  · have hle : 2 ^ 32 ≤ 2 ^ i := Nat.pow_le_pow_right (by omega) (by omega)
    rw [Nat.testBit_lt_two_pow (by omega)]
    rfl

/-- The two halves as `byteSwap` joins them: a lower half with its top bit set covers the upper
one. -/
theorem joined_eq (high low : UInt32) :
    (high.toInt32.toInt64 <<< 32) ||| low.toInt32.toInt64 =
      longOfNat (low.toNat + 2 ^ 32 * if low.toNat < 2 ^ 31 then high.toNat else 2 ^ 32 - 1) := by
  have hhigh := high.toNat_lt
  have hlow := low.toNat_lt
  have hor : ((high.toInt32.toInt64 <<< 32) ||| low.toInt32.toInt64).toUInt64 =
      (high.toInt32.toInt64 <<< 32).toUInt64 ||| low.toInt32.toInt64.toUInt64 := rfl
  rw [← longOfNat_toUInt64 (_ ||| _), hor, UInt64.toNat_or, toNat_shiftLeft_32, toNat_toInt64]
  congr 1
  split
  · rw [← Nat.shiftLeft_add_eq_or_of_lt hlow, Nat.shiftLeft_eq]
    omega
  · have hones : low.toNat + 2 ^ 32 * (2 ^ 32 - 1) = (2 ^ 32 - 1) <<< 32 ||| low.toNat := by
      rw [← Nat.shiftLeft_add_eq_or_of_lt hlow, Nat.shiftLeft_eq]
      omega
    rw [hones, ← Nat.or_assoc, ← Nat.shiftLeft_or_distrib, or_ones hhigh]

/-- The halves of a `long`, as `byteSwap` takes it apart. -/
theorem low32_longOfNat (high low : UInt32) :
    low32 (longOfNat (low.toNat + 2 ^ 32 * high.toNat)) = low := by
  have hhigh := high.toNat_lt
  have hlow := low.toNat_lt
  apply UInt32.toNat_inj.1
  rw [toNat_low32, toNat_longOfNat (by omega)]
  omega

theorem toNat_low32_shiftRight (v : Int64) :
    (low32 (v >>> 32)).toNat = v.toUInt64.toNat / 2 ^ 32 := by
  have hv := v.toUInt64.toNat_lt
  have hbits : (low32 (v >>> 32)).toBitVec = (v.toBitVec.sshiftRight 32).setWidth 32 := rfl
  -- The sign that is shifted in does not reach the lower half.
  have hextract : (v.toBitVec.sshiftRight 32).setWidth 32 = v.toBitVec.extractLsb' 32 32 := by
    apply BitVec.eq_of_getLsbD_eq
    intro i hi
    have h₁ : ¬64 ≤ i := by omega
    have h₂ : 32 + i < 64 := by omega
    rw [BitVec.getLsbD_setWidth, BitVec.getLsbD_sshiftRight, BitVec.getLsbD_extractLsb']
    simp [hi, h₁, h₂]
  have hnat : v.toBitVec.toNat = v.toUInt64.toNat := rfl
  rw [← UInt32.toNat_toBitVec, hbits, hextract, BitVec.extractLsb'_toNat, hnat,
    Nat.shiftRight_eq_div_pow]
  omega

theorem low32_shiftRight_longOfNat (high low : UInt32) :
    low32 (longOfNat (low.toNat + 2 ^ 32 * high.toNat) >>> 32) = high := by
  have hhigh := high.toNat_lt
  have hlow := low.toNat_lt
  apply UInt32.toNat_inj.1
  rw [toNat_low32_shiftRight, toNat_longOfNat (by omega)]
  omega

/-- Casting to `int` keeps the low half. -/
theorem toInt32_eq_low32 (v : Int64) : v.toInt32 = (low32 v).toInt32 := by
  apply Int32.toBitVec_inj.1
  have hcast : v.toInt32.toBitVec = v.toBitVec.signExtend 32 := rfl
  rw [hcast, BitVec.signExtend_eq_setWidth_of_le _ (by decide)]
  rfl

/-- The two halves as `byteSwap` joins them again. -/
theorem byteSwapLong_eq (high low : UInt32) :
    (high.toInt32.toInt64 <<< 32) ||| low.toInt32.toInt64 =
      signSpread (longOfNat (low.toNat + 2 ^ 32 * high.toNat)) := by
  have hint : (longOfNat (low.toNat + 2 ^ 32 * high.toNat)).toInt32 = low.toInt32 := by
    rw [toInt32_eq_low32, low32_longOfNat]
  have hsign : low.toInt32 < 0 ↔ ¬low.toNat < 2 ^ 31 := by
    rw [Int32.lt_iff_toInt_lt]
    have hlow := low.toNat_lt
    have hbits : low.toInt32.toInt = (low.toNat : ℤ).bmod (2 ^ 32) := by
      rw [← UInt32.toNat_toBitVec, ← BitVec.toInt_eq_toNat_bmod]
      rfl
    have hzero : (0 : Int32).toInt = 0 := rfl
    rw [hbits, hzero, Int.bmod_def]
    omega
  rw [joined_eq, signSpread, hint]
  by_cases hlow : low.toNat < 2 ^ 31
  · rw [if_pos hlow, if_neg fun h => hsign.1 h hlow]
  · rw [if_neg hlow, if_pos (hsign.2 hlow), ← longOfNat_toUInt64 low.toInt32.toInt64, toNat_toInt64,
      if_neg hlow]

/-- The `long` that the bytes of a file spell. -/
theorem longOfNat_bytesNumber_iff {lsb : Bool} {bytes : List UInt8} (hlen : bytes.length = 8)
    {v : Int64} : longOfNat (bytesNumber lsb bytes) = v ↔ bytes = longBytes lsb v := by
  have hlt : bytesNumber lsb bytes < 2 ^ 64 :=
    (bytesNumber_lt lsb bytes).trans_eq (by rw [hlen]; rfl)
  rw [longBytes, ← bytesNumber_eq_iff hlen v.toUInt64.toNat_lt]
  constructor
  · rintro rfl
    exact (toNat_longOfNat hlt).symm
  · intro h
    rw [h, longOfNat_toUInt64]

namespace ElfParser

variable {parser : ElfParser} {α : Type} {pos pos' : ℕ}

/-- The parser's file spells the `long` at the position. -/
def LongAt (parser : ElfParser) (pos : ℕ) (v : Int64) : Prop :=
  Spells parser.buffer.bytes pos (longBytes parser.dataLsb v)

/-- What `readLong` makes of the `long` that is spelled. -/
def longRead (parser : ElfParser) (v : Int64) : Int64 :=
  if parser.dataLsb then signSpread v else v

/-- What is made of the two `int`s of a file. -/
theorem orderedLong_eq {lsb : Bool} {a b c d a' b' c' d' : UInt8} :
    (if lsb then
        byteSwapLong (((beInt a b c d).toInt32.toInt64 <<< 32) +
          ((beInt a' b' c' d').toInt32.toInt64 &&& 0xFFFFFFFF))
      else ((beInt a b c d).toInt32.toInt64 <<< 32) +
        ((beInt a' b' c' d').toInt32.toInt64 &&& 0xFFFFFFFF)) =
      if lsb then signSpread (longOfNat (bytesNumber lsb ([a, b, c, d] ++ [a', b', c', d'])))
      else longOfNat (bytesNumber lsb ([a, b, c, d] ++ [a', b', c', d'])) := by
  have hfirst := toNat_orderedInt lsb a b c d
  have hsecond := toNat_orderedInt lsb a' b' c' d'
  rw [bytesNumber_append lsb rfl rfl]
  cases lsb with
  | false =>
    simp only [Bool.false_eq_true, if_false] at hfirst hsecond ⊢
    rw [beLong_eq, hfirst, hsecond]
  | true =>
    simp only [if_true] at hfirst hsecond ⊢
    rw [beLong_eq, byteSwapLong, low32_longOfNat, low32_shiftRight_longOfNat, byteSwapLong_eq,
      hfirst, hsecond]

theorem readLong_eq_ok_iff {v : Int64} :
    parser.readLong.run pos = .ok v pos' ↔
      (∃ u, parser.LongAt pos u ∧ v = parser.longRead u) ∧ pos' = pos + 8 := by
  rw [readLong, read_four_iff]
  simp only [read_four_iff, pure_eq_ok_iff, orderedLong_eq]
  constructor
  · rintro ⟨a, b, c, d, hfirst, a', b', c', d', hsecond, rfl, rfl⟩
    refine ⟨⟨longOfNat (bytesNumber parser.dataLsb ([a, b, c, d] ++ [a', b', c', d'])), ?_, rfl⟩,
      rfl⟩
    rw [LongAt, ← (longOfNat_bytesNumber_iff rfl).1 rfl]
    exact spells_append.2 ⟨hfirst, hsecond⟩
  · rintro ⟨⟨u, hspells, rfl⟩, rfl⟩
    have hlen := length_longBytes parser.dataLsb u
    have hlow : ((longBytes parser.dataLsb u).take 4).length = 4 := by
      rw [List.length_take, hlen]
      rfl
    have hhigh : ((longBytes parser.dataLsb u).drop 4).length = 4 := by rw [List.length_drop, hlen]
    obtain ⟨a, b, c, d, habcd⟩ := List.length_eq_four.1 hlow
    obtain ⟨a', b', c', d', habcd'⟩ := List.length_eq_four.1 hhigh
    have hbytes : [a, b, c, d] ++ [a', b', c', d'] = longBytes parser.dataLsb u := by
      rw [← habcd, ← habcd', List.take_append_drop]
    rw [LongAt, ← hbytes] at hspells
    obtain ⟨hfirst, hsecond⟩ := spells_append.1 hspells
    refine ⟨a, b, c, d, hfirst, a', b', c', d', hsecond, ?_, rfl⟩
    rw [(longOfNat_bytesNumber_iff rfl).2 hbytes]
    rfl

end ElfParser

/-! ## Words of the class of the file -/

/-- Bytes of a word of the class. -/
def ObjectSize.wordSize : ObjectSize → ℕ
  | .class32 => 4
  | .class64 => 8

namespace ElfParser

variable {parser : ElfParser} {α : Type} {pos pos' : ℕ} {v : Int64}

/-- The parser's file spells the word of the class at the position: an `int`, with its sign, or a
`long`. -/
def WordAt (parser : ElfParser) (pos : ℕ) (v : Int64) : Prop :=
  match parser.objectSize with
  | .class32 => ∃ w, parser.IntAt pos w ∧ v = w.toInt64
  | .class64 => parser.LongAt pos v

/-- What `readIntOrLong` makes of the word that is spelled. -/
def wordRead (parser : ElfParser) (v : Int64) : Int64 :=
  match parser.objectSize with
  | .class32 => v
  | .class64 => parser.longRead v

theorem readIntOrLong_eq_ok_iff :
    parser.readIntOrLong.run pos = .ok v pos' ↔
      (∃ u, parser.WordAt pos u ∧ v = parser.wordRead u) ∧
        pos' = pos + parser.objectSize.wordSize := by
  rw [readIntOrLong]
  unfold WordAt wordRead
  cases parser.objectSize with
  | class32 =>
    refine readIntWide_eq_ok_iff.trans (and_congr_left fun _ => ?_)
    constructor
    · rintro ⟨w, hw, rfl⟩
      exact ⟨_, ⟨w, hw, rfl⟩, rfl⟩
    · rintro ⟨u, ⟨w, hw, rfl⟩, rfl⟩
      exact ⟨w, hw, rfl⟩
  | class64 => exact readLong_eq_ok_iff

theorem readIntOrLong_bind_iff {f : Int64 → ParseM α} {r : α} :
    (parser.readIntOrLong >>= f).run pos = .ok r pos' ↔
      ∃ u, parser.WordAt pos u ∧
        (f (parser.wordRead u)).run (pos + parser.objectSize.wordSize) = .ok r pos' := by
  rw [bind_eq_ok_iff_of_reads fun _ _ _ => readIntOrLong_eq_ok_iff]
  constructor
  · rintro ⟨_, ⟨u, hu, rfl⟩, hf⟩
    exact ⟨u, hu, hf⟩
  · rintro ⟨u, hu, hf⟩
    exact ⟨_, ⟨u, hu, rfl⟩, hf⟩

end ElfParser

end Tank
