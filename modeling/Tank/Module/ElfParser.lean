import Tank.Module.ElfFile
import Tank.ToMathlib.EState
import Tank.Utils.DigitUtils

/-!
# Reading words of an ELF file

`ElfParser` reads numbers from the buffer of a file at a position that moves on. Numbers are put
together with the first byte on top and swapped for little-endian files. `ElfInitArray` reads an
array of constructors at the place in the file that the program headers give for its address.

`getInitArray_eq_ok` says which words of a 32-bit little-endian file an array consists of.
-/

namespace Tank

open ToMathlib

/-! ## Swapping bytes -/

/-- `byteSwap` of a `short`, as its bits. -/
def byteSwapShort (arg : UInt16) : UInt16 := (arg <<< 8) ||| ((arg >>> 8) &&& 0xFF)

/-- `byteSwap` of an `int`, as its bits: what a `short` has as sign is shifted out or masked. -/
def byteSwapInt (arg : UInt32) : UInt32 :=
  ((byteSwapShort arg.toUInt16).toUInt32 <<< 16) |||
    ((byteSwapShort (arg >>> 16).toUInt16).toUInt32 &&& 0xFFFF)

/-- `byteSwap` of a `long`. The sign of the second `int` is not masked. -/
def byteSwapLong (arg : Int64) : Int64 :=
  ((byteSwapInt (low32 arg)).toInt32.toInt64 <<< 32) |||
    (byteSwapInt (low32 (arg >>> 32))).toInt32.toInt64

theorem toNat_byteSwapShort {arg : UInt16} {a b : ℕ} (ha : a < 256) (hb : b < 256)
    (h : arg.toNat = a * 256 + b) : (byteSwapShort arg).toNat = b * 256 + a := by
  have h8 : (8 : UInt16).toNat % 16 = 8 := rfl
  have hmask : (0xFF : UInt16).toNat = 2 ^ 8 - 1 := rfl
  have hleft : (a * 256 + b) <<< 8 % 2 ^ 16 = b <<< 8 := by
    rw [Nat.shiftLeft_eq, Nat.shiftLeft_eq]
    omega
  have hright : (a * 256 + b) / 2 ^ 8 % 2 ^ 8 = a := by omega
  rw [byteSwapShort, UInt16.toNat_or, UInt16.toNat_shiftLeft, UInt16.toNat_and,
    UInt16.toNat_shiftRight, h8, hmask, h, Nat.and_two_pow_sub_one_eq_mod,
    Nat.shiftRight_eq_div_pow, hleft, hright, ← Nat.shiftLeft_add_eq_or_of_lt ha, Nat.shiftLeft_eq]

theorem toNat_byteSwapInt {arg : UInt32} {a b c d : ℕ} (ha : a < 256) (hb : b < 256) (hc : c < 256)
    (hd : d < 256) (h : arg.toNat = ((a * 256 + b) * 256 + c) * 256 + d) :
    (byteSwapInt arg).toNat = a + 256 * (b + 256 * (c + 256 * d)) := by
  have h16 : (16 : UInt32).toNat % 32 = 16 := rfl
  have hmask : (0xFFFF : UInt32).toNat = 2 ^ 16 - 1 := rfl
  -- The two halves are swapped, and the bytes of each.
  have hlow : (byteSwapShort arg.toUInt16).toNat = d * 256 + c := by
    apply toNat_byteSwapShort hc hd
    rw [UInt32.toNat_toUInt16, h]
    omega
  have hhigh : (byteSwapShort (arg >>> 16).toUInt16).toNat = b * 256 + a := by
    apply toNat_byteSwapShort ha hb
    rw [UInt32.toNat_toUInt16, UInt32.toNat_shiftRight, h16, Nat.shiftRight_eq_div_pow, h]
    omega
  have hleft : (d * 256 + c) <<< 16 % 2 ^ 32 = (d * 256 + c) <<< 16 := by
    rw [Nat.shiftLeft_eq]
    omega
  rw [byteSwapInt, UInt32.toNat_or, UInt32.toNat_shiftLeft, UInt32.toNat_and, h16, hmask,
    Nat.and_two_pow_sub_one_eq_mod, UInt16.toNat_toUInt32, UInt16.toNat_toUInt32, hlow, hhigh,
    hleft, Nat.mod_eq_of_lt (by omega), ← Nat.shiftLeft_add_eq_or_of_lt (by omega),
    Nat.shiftLeft_eq]
  omega

/-- The `int` with the given bytes, first byte on top. -/
def beInt (a b c d : UInt8) : UInt32 :=
  (a.toUInt32 <<< 24) + (b.toUInt32 <<< 16) + (c.toUInt32 <<< 8) + d.toUInt32

theorem toNat_beInt (a b c d : UInt8) :
    (beInt a b c d).toNat = ((a.toNat * 256 + b.toNat) * 256 + c.toNat) * 256 + d.toNat := by
  have ha := a.toNat_lt
  have hb := b.toNat_lt
  have hc := c.toNat_lt
  have hd := d.toNat_lt
  have h8 : (8 : UInt32).toNat % 32 = 8 := rfl
  have h16 : (16 : UInt32).toNat % 32 = 16 := rfl
  have h24 : (24 : UInt32).toNat % 32 = 24 := rfl
  simp only [beInt, UInt32.toNat_add, UInt32.toNat_shiftLeft, UInt8.toNat_toUInt32, h8, h16, h24,
    Nat.shiftLeft_eq]
  omega

/-- Swapped, the first byte is the lowest. -/
theorem byteSwapInt_beInt (a b c d : UInt8) :
    byteSwapInt (beInt a b c d) = leWord [a, b, c, d] := by
  apply UInt32.toNat_inj.1
  rw [toNat_byteSwapInt a.toNat_lt b.toNat_lt c.toNat_lt d.toNat_lt (toNat_beInt a b c d), leWord,
    UInt32.toNat_ofNat']
  have hlt := leNat_lt [a, b, c, d]
  simp only [leNat, List.length_cons, List.length_nil] at hlt ⊢
  omega

/-! ## The parser -/

/-- `ElfParser`, with what it asks the `ElfFile` for. -/
structure ElfParser where
  buffer : ByteBuffer
  objectSize : ObjectSize
  /-- The encoding is `DATA_LSB`. -/
  dataLsb : Bool

/-- Code that reads a file; the state is the position in the buffer. -/
abbrev ParseM := EStateM JavaException ℕ

namespace ElfParser

variable (parser : ElfParser)

/-- `seek` -/
def seek (offset : Int64) : ParseM Unit := fun pos =>
  let newPosition := offset.toInt32.toInt
  if newPosition < 0 ∨ (parser.buffer.bytes.length : ℤ) < newPosition then
    .error .illegalArgument pos
  else .ok () newPosition.toNat

/-- `readUnsignedByte` -/
def readUnsignedByte : ParseM UInt8 := fun pos =>
  match parser.buffer.bytes[pos]? with
  | none => .error .bufferUnderflow pos
  | some b => .ok b (pos + 1)

/-- `readInt` -/
def readInt : ParseM Int32 := do
  let ch1 ← parser.readUnsignedByte
  let ch2 ← parser.readUnsignedByte
  let ch3 ← parser.readUnsignedByte
  let ch4 ← parser.readUnsignedByte
  let val := beInt ch1 ch2 ch3 ch4
  pure (if parser.dataLsb then byteSwapInt val else val).toInt32

/-- `readLong` -/
def readLong : ParseM Int64 := do
  let ch1 ← parser.readUnsignedByte
  let ch2 ← parser.readUnsignedByte
  let ch3 ← parser.readUnsignedByte
  let ch4 ← parser.readUnsignedByte
  let val1 := (beInt ch1 ch2 ch3 ch4).toInt32
  let ch5 ← parser.readUnsignedByte
  let ch6 ← parser.readUnsignedByte
  let ch7 ← parser.readUnsignedByte
  let ch8 ← parser.readUnsignedByte
  let val2 := (beInt ch5 ch6 ch7 ch8).toInt32
  let val := (val1.toInt64 <<< 32) + (val2.toInt64 &&& 0xFFFFFFFF)
  pure (if parser.dataLsb then byteSwapLong val else val)

/-- `new long[length]`, filled by reading. -/
def readArray (read : ParseM Int64) : ℕ → ParseM (List Int64)
  | 0 => pure []
  | n + 1 => do
    let value ← read
    let values ← readArray read n
    pure (value :: values)

/-- The constructor of `ElfInitArray`. -/
def elfInitArray (offset : Int64) (size : Int32) : ParseM (List Int64) := do
  parser.seek offset
  let length := match parser.objectSize with
    | .class32 => size / 4
    | .class64 => size / 8
  if length < 0 then throw .negativeArraySize
  else
    match parser.objectSize with
    | .class32 => readArray (do pure (← parser.readInt).toInt64) length.toInt.toNat
    | .class64 => readArray parser.readLong length.toInt.toNat

end ElfParser

/-- `virtualMemoryAddrToFileOffset`: the place of an address in the file, by the first program
header that has the address in memory. -/
def virtualMemoryAddrToFileOffset (address : Int64) :
    List ElfSegment → Except JavaException Int64
  | [] => .error .elfException
  | ph :: phs =>
    if ph.virtualAddress ≤ address ∧ address < ph.virtualAddress + ph.memSize then
      let relativeOffset := address - ph.virtualAddress
      if ph.fileSize ≤ relativeOffset then .error .elfException
      else .ok (ph.offset + relativeOffset)
    else virtualMemoryAddrToFileOffset address phs

/-- What the dynamic structure has for an array of constructors: its address before the load base is
added, and its number of bytes. -/
structure ArrayTags where
  offset : Int64
  size : Int32

/-- `getInitArray`; `none` is `null`. -/
def ElfParser.getInitArray (parser : ElfParser) (segments : List ElfSegment) (tags : ArrayTags) :
    Except JavaException (Option (List Int64)) :=
  if 0 < tags.size then
    match virtualMemoryAddrToFileOffset tags.offset segments with
    | .error err => .error err
    | .ok offset =>
      match (parser.elfInitArray offset tags.size).run 0 with
      | .error err _ => .error err
      | .ok array _ => .ok (some array)
  else .ok none

/-! ## The words of an array -/

/-- The little-endian word at a place in the file. -/
def fileWord (buffer : ByteBuffer) (pos : ℕ) : UInt32 := leWord ((buffer.bytes.drop pos).take 4)

namespace ElfParser

variable {parser : ElfParser} {pos pos' : ℕ}

theorem readUnsignedByte_eq_ok {b : UInt8} (h : parser.readUnsignedByte.run pos = .ok b pos') :
    parser.buffer.bytes[pos]? = some b ∧ pos' = pos + 1 := by
  simp only [EStateM.run, readUnsignedByte] at h
  split at h
  next => cases h
  next b' hb =>
    cases h
    exact ⟨hb, rfl⟩

/-- `readInt` in a little-endian file. -/
theorem readInt_eq_ok (hlsb : parser.dataLsb = true) {v : Int32}
    (h : parser.readInt.run pos = .ok v pos') :
    v = (fileWord parser.buffer pos).toInt32 ∧ pos' = pos + 4 := by
  rw [readInt] at h
  obtain ⟨a, pos₁, hread₁, h₁⟩ := bind_eq_ok h
  obtain ⟨b, pos₂, hread₂, h₂⟩ := bind_eq_ok h₁
  obtain ⟨c, pos₃, hread₃, h₃⟩ := bind_eq_ok h₂
  obtain ⟨d, pos₄, hread₄, h₄⟩ := bind_eq_ok h₃
  obtain ⟨ha, rfl⟩ := readUnsignedByte_eq_ok hread₁
  obtain ⟨hb, rfl⟩ := readUnsignedByte_eq_ok hread₂
  obtain ⟨hc, rfl⟩ := readUnsignedByte_eq_ok hread₃
  obtain ⟨hd, rfl⟩ := readUnsignedByte_eq_ok hread₄
  dsimp only at h₄
  rw [if_pos hlsb, byteSwapInt_beInt] at h₄
  cases h₄
  -- The four bytes are what the file has from the position on.
  have hbytes : (parser.buffer.bytes.drop pos).take 4 = [a, b, c, d] := by
    rw [List.drop_eq_getElem?_toList_append, ha, List.drop_eq_getElem?_toList_append, hb,
      List.drop_eq_getElem?_toList_append, hc, List.drop_eq_getElem?_toList_append, hd]
    rfl
  exact ⟨by rw [fileWord, hbytes], rfl⟩

/-- The loop of `ElfInitArray` in a 32-bit little-endian file. -/
theorem readArray_eq_ok (hlsb : parser.dataLsb = true) {n : ℕ} {array : List Int64}
    (h : (readArray (do pure (← parser.readInt).toInt64) n).run pos = .ok array pos') :
    array = (List.range n).map fun i =>
      (fileWord parser.buffer (pos + 4 * i)).toInt32.toInt64 := by
  induction n generalizing pos array with
  | zero =>
    cases h
    rfl
  | succ n ih =>
    rw [readArray] at h
    obtain ⟨value, pos₁, hread, h⟩ := bind_eq_ok h
    obtain ⟨values, pos₂, hrest, h⟩ := bind_eq_ok h
    cases h
    obtain ⟨v, pos₃, hv, hpure⟩ := bind_eq_ok hread
    cases hpure
    obtain ⟨rfl, rfl⟩ := readInt_eq_ok hlsb hv
    rw [ih hrest, List.range_succ_eq_map, List.map_cons, List.map_map]
    refine congrArg₂ List.cons rfl (List.map_congr_left fun i _ => ?_)
    rw [Function.comp_apply, show pos + 4 + 4 * i = pos + 4 * i.succ by omega]

/-- The array of constructors of a 32-bit little-endian file. -/
theorem getInitArray_eq_ok (hclass : parser.objectSize = .class32) (hlsb : parser.dataLsb = true)
    {segments : List ElfSegment} {tags : ArrayTags} {offset : Int64} {array : List Int64}
    (hoffset : virtualMemoryAddrToFileOffset tags.offset segments = .ok offset)
    (h : parser.getInitArray segments tags = .ok (some array)) :
    array = (List.range (tags.size / 4).toInt.toNat).map fun i =>
      (fileWord parser.buffer (offset.toInt32.toInt.toNat + 4 * i)).toInt32.toInt64 := by
  rw [getInitArray, hoffset] at h
  split_ifs at h with hsize
  swap
  · cases h
  dsimp only at h
  split at h
  next => cases h
  next array' pos' hrun =>
    cases h
    rw [elfInitArray] at hrun
    obtain ⟨_, pos, hseek, hrun⟩ := bind_eq_ok hrun
    -- The seek stayed inside the buffer, and the length was not negative.
    simp only [EStateM.run, seek] at hseek
    split_ifs at hseek
    cases hseek
    simp only [hclass] at hrun
    split_ifs at hrun
    · cases hrun
    · exact readArray_eq_ok hlsb hrun

end ElfParser

end Tank
