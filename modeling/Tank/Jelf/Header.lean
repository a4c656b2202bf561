import Tank.Jelf.Records

/-!
# The header of an ELF file

The constructor of `ElfFile`: sixteen bytes of identification, then the fields of the header in the
class and the byte order that the identification gives. A file without section headers, or one that
keeps the number of the string table elsewhere, is refused, and the arrays for the headers need
numbers that are not negative.

`fromBuffer_eq_ok_iff` says which files are accepted, and as which header: the one that the file
spells, but for the addresses and offsets of a little-endian file of 64 bits, which `byteSwap` can
change.
-/

namespace Tank

open ToMathlib

/-! ## Fields -/

/-- A field of a record. -/
inductive ElfField where
  | byte (b : UInt8)
  | short (v : Int16)
  | int (v : Int32)
  /-- A field of the class's width. -/
  | word (v : Int64)
deriving DecidableEq, Repr

namespace ElfField

/-- Bytes of a field. -/
def size (objectSize : ObjectSize) : ElfField → ℕ
  | byte _ => 1
  | short _ => 2
  | int _ => 4
  | word _ => objectSize.wordSize

/-- The parser's file has the field at the position. -/
def At (parser : ElfParser) (pos : ℕ) : ElfField → Prop
  | byte b => parser.ByteAt pos b
  | short v => parser.ShortAt pos v
  | int v => parser.IntAt pos v
  | word v => parser.WordAt pos v

end ElfField

/-- The parser's file has the fields one after the other from the position on. -/
def FieldsAt (parser : ElfParser) : ℕ → List ElfField → Prop
  | _, [] => True
  | pos, f :: fields => f.At parser pos ∧ FieldsAt parser (pos + f.size parser.objectSize) fields

/-- Bytes of fields. -/
def fieldsSize (objectSize : ObjectSize) (fields : List ElfField) : ℕ :=
  (fields.map (ElfField.size objectSize)).sum

/-! ## The header -/

/-- The fields of `ElfFile` that its constructor reads. -/
structure ElfHeader where
  objectSize : ObjectSize
  /-- `encoding` is `DATA_LSB`, and not `DATA_MSB`. -/
  dataLsb : Bool
  fileType : Int16
  arch : Int16
  version : Int32
  entryPoint : Int64
  phOffset : Int64
  shOffset : Int64
  flags : Int32
  ehSize : Int16
  phEntrySize : Int16
  numPh : Int16
  shEntrySize : Int16
  numSh : Int16
  shStringNdx : Int32
deriving DecidableEq, Repr

/-- `CLASS_32` and `CLASS_64`. -/
def ObjectSize.ofIdent : UInt8 → Option ObjectSize
  | 1 => some .class32
  | 2 => some .class64
  | _ => none

/-- The byte of the class. -/
def ObjectSize.ident : ObjectSize → UInt8
  | .class32 => 1
  | .class64 => 2

/-- `DATA_LSB` and `DATA_MSB`. -/
def dataLsbOfIdent : UInt8 → Option Bool
  | 1 => some true
  | 2 => some false
  | _ => none

/-- `0x7f`, `E`, `L`, `F`. -/
def elfMagic : List UInt8 := [0x7f, 0x45, 0x4c, 0x46]

/-- `read` of a byte array: all of its bytes, or none. -/
def ByteBuffer.get (buffer : ByteBuffer) (length : ℕ) : ParseM (List UInt8) := fun pos =>
  if pos + length ≤ buffer.bytes.length then
    .ok ((buffer.bytes.drop pos).take length) (pos + length)
  else .error .bufferUnderflow pos

theorem ByteBuffer.get_eq_ok_iff {buffer : ByteBuffer} {length pos pos' : ℕ} {bytes : List UInt8} :
    (buffer.get length).run pos = .ok bytes pos' ↔
      (bytes.length = length ∧ Spells buffer.bytes pos bytes ∧
        pos + length ≤ buffer.bytes.length) ∧ pos' = pos + length := by
  simp only [EStateM.run, ByteBuffer.get]
  split
  next hle =>
    have hlen : ((buffer.bytes.drop pos).take length).length = length := by
      rw [List.length_take, List.length_drop]
      omega
    constructor
    · intro h
      obtain ⟨rfl, rfl⟩ := EStateM.Result.ok.inj h
      exact ⟨⟨hlen, List.take_prefix _ _, hle⟩, rfl⟩
    · rintro ⟨⟨hlen', hspells, -⟩, rfl⟩
      rw [hspells.eq_of_length (List.take_prefix _ _) (hlen'.trans hlen.symm)]
  next hle => exact iff_of_false nofun fun h => hle h.1.2.2

namespace ElfHeader

/-- The parser of the file. -/
def parser (h : ElfHeader) (buffer : ByteBuffer) : ElfParser where
  buffer := buffer
  objectSize := h.objectSize
  dataLsb := h.dataLsb

/-- The class and the byte order, from the identification. -/
def readIdent (ident : List UInt8) : Except JavaException (ObjectSize × Bool) :=
  if ident.take 4 ≠ elfMagic then .error .elfException
  else
    match ObjectSize.ofIdent (ident.getD 4 0) with
    | none => .error .elfException
    | some objectSize =>
      match dataLsbOfIdent (ident.getD 5 0) with
      | none => .error .elfException
      | some dataLsb =>
        if ident.getD 6 0 ≠ 1 then .error .elfException else .ok (objectSize, dataLsb)

/-- The fields after the identification. -/
def readFields (parser : ElfParser) : ParseM ElfHeader := do
  let fileType ← parser.readShort
  let arch ← parser.readShort
  let version ← parser.readInt
  let entryPoint ← parser.readIntOrLong
  let phOffset ← parser.readIntOrLong
  let shOffset ← parser.readIntOrLong
  let flags ← parser.readInt
  let ehSize ← parser.readShort
  let phEntrySize ← parser.readShort
  let numPh ← parser.readShort
  let shEntrySize ← parser.readShort
  let numSh ← parser.readShort
  throwIf (numSh = 0) .elfException
  let shString ← parser.readShort
  let shStringNdx := shString.toInt32 &&& 0xffff
  throwIf (shStringNdx = 0xffff) .elfException
  -- The arrays of memoised section and program headers.
  throwIf (numSh < 0) .negativeArraySize
  throwIf (numPh < 0) .negativeArraySize
  pure { objectSize := parser.objectSize, dataLsb := parser.dataLsb
         fileType, arch, version, entryPoint, phOffset, shOffset, flags, ehSize, phEntrySize
         numPh, shEntrySize, numSh, shStringNdx }

/-- The constructor of `ElfFile`. -/
def read (buffer : ByteBuffer) : ParseM ElfHeader := do
  let ident ← buffer.get 16
  let (objectSize, dataLsb) ← getOrThrow (readIdent ident)
  readFields { buffer, objectSize, dataLsb }

/-- `fromBuffer` -/
def fromBuffer (buffer : ByteBuffer) : Except JavaException ElfHeader :=
  outcome ((read buffer).run 0)

/-- `Elf32_Ehdr` and `Elf64_Ehdr` after the identification. -/
def fields (h : ElfHeader) : List ElfField :=
  [.short h.fileType, .short h.arch, .int h.version, .word h.entryPoint, .word h.phOffset,
    .word h.shOffset, .int h.flags, .short h.ehSize, .short h.phEntrySize, .short h.numPh,
    .short h.shEntrySize, .short h.numSh, .short h.shStringNdx.toInt16]

/-- What a header has to satisfy besides its layout. -/
structure Valid (h : ElfHeader) : Prop where
  numSh_pos : 0 < h.numSh
  numPh_nonneg : 0 ≤ h.numPh
  shStringNdx_eq : h.shStringNdx = h.shStringNdx.toInt16.toInt32 &&& 0xffff
  shStringNdx_ne : h.shStringNdx ≠ 0xffff

/-- The bytes that identify the class and the byte order. -/
def identBytes (h : ElfHeader) : List UInt8 :=
  elfMagic ++ [h.objectSize.ident, if h.dataLsb then 1 else 2, 1]

/-- What the parser makes of the header of a file: `byteSwap` spreads the sign of the lower half of
a `long` over the upper one. -/
def asRead (e : ElfHeader) : ElfHeader :=
  match e.objectSize, e.dataLsb with
  | .class64, true => { e with
      entryPoint := signSpread e.entryPoint
      phOffset := signSpread e.phOffset
      shOffset := signSpread e.shOffset }
  | _, _ => e

variable {h e : ElfHeader} {buffer : ByteBuffer} {parser : ElfParser} {pos pos' : ℕ}

/-- Masking a widened `short` with 16 bits drops the sign that was spread, and nothing else. -/
theorem toInt16_and_mask (v : Int16) : (v.toInt32 &&& 0xffff).toInt16 = v := by
  have hcast : (v.toInt32 &&& 0xffff).toInt16.toBitVec =
      (v.toBitVec.signExtend 32 &&& 0xffff#32).signExtend 16 := rfl
  have hmask (i : ℕ) (hi : i < 16) : (0xffff#32).getLsbD i = true := by
    have hall : ∀ i < 16, (0xffff#32).getLsbD i = true := by decide
    exact hall i hi
  apply Int16.toBitVec_inj.1
  rw [hcast, BitVec.signExtend_eq_setWidth_of_le _ (by decide)]
  apply BitVec.eq_of_getLsbD_eq
  intro i hi
  have hi32 : i < 32 := by omega
  rw [BitVec.getLsbD_setWidth, BitVec.getLsbD_and, hmask i hi, BitVec.getLsbD_signExtend]
  simp [hi, hi32]

theorem pos_iff_int16 {v : Int16} : 0 < v ↔ v ≠ 0 ∧ ¬v < 0 := by
  have hzero : (0 : Int16).toInt = 0 := rfl
  rw [Ne, ← Int16.toInt_inj, Int16.lt_iff_toInt_lt, Int16.lt_iff_toInt_lt, hzero]
  omega

/-- Only the words of the class are changed. -/
theorem asRead_eq (hobjectSize : e.objectSize = parser.objectSize)
    (hdataLsb : e.dataLsb = parser.dataLsb) :
    e.asRead = { e with
      entryPoint := parser.wordRead e.entryPoint
      phOffset := parser.wordRead e.phOffset
      shOffset := parser.wordRead e.shOffset } := by
  obtain ⟨_, _, _⟩ := parser
  obtain ⟨_ | _, _ | _, _⟩ := e <;> cases hobjectSize <;> cases hdataLsb <;> rfl

theorem readFields_eq_ok_iff :
    (readFields parser).run pos = .ok h pos' ↔
      ∃ e : ElfHeader, (e.objectSize = parser.objectSize ∧ e.dataLsb = parser.dataLsb) ∧ e.Valid ∧
        FieldsAt parser pos e.fields ∧ h = e.asRead ∧
        pos' = pos + fieldsSize parser.objectSize e.fields := by
  simp only [readFields, ElfParser.readShort_bind_iff, ElfParser.readInt_bind_iff,
    ElfParser.readIntOrLong_bind_iff, throwIf_bind_iff, pure_eq_ok_iff, fields, FieldsAt,
    ElfField.At, ElfField.size, fieldsSize, List.map_cons, List.map_nil, List.sum_cons,
    List.sum_nil]
  constructor
  · rintro ⟨fileType, h₁, arch, h₂, version, h₃, entryPoint, h₄, phOffset, h₅, shOffset, h₆, flags,
      h₇, ehSize, h₈, phEntrySize, h₉, numPh, h₁₀, shEntrySize, h₁₁, numSh, h₁₂, hzero, shString,
      h₁₃, hlast, hnumSh, hnumPh, rfl, rfl⟩
    refine ⟨⟨parser.objectSize, parser.dataLsb, fileType, arch, version, entryPoint, phOffset,
        shOffset, flags, ehSize, phEntrySize, numPh, shEntrySize, numSh,
        shString.toInt32 &&& 0xffff⟩,
      ⟨rfl, rfl⟩, ⟨pos_iff_int16.2 ⟨hzero, hnumSh⟩, Int16.not_lt.1 hnumPh, ?_, hlast⟩, ?_,
      ?_, ?_⟩
    · rw [toInt16_and_mask]
    · rw [toInt16_and_mask]
      exact ⟨h₁, h₂, h₃, h₄, h₅, h₆, h₇, h₈, h₉, h₁₀, h₁₁, h₁₂, h₁₃, trivial⟩
    · symm
      exact asRead_eq rfl rfl
    · omega
  · rintro ⟨e, ⟨hobjectSize, hdataLsb⟩, hvalid,
      ⟨h₁, h₂, h₃, h₄, h₅, h₆, h₇, h₈, h₉, h₁₀, h₁₁, h₁₂, h₁₃, -⟩, rfl, rfl⟩
    obtain ⟨hzero, hnumSh⟩ := pos_iff_int16.1 hvalid.numSh_pos
    have hstring := hvalid.shStringNdx_eq
    refine ⟨_, h₁, _, h₂, _, h₃, _, h₄, _, h₅, _, h₆, _, h₇, _, h₈, _, h₉, _, h₁₀, _, h₁₁, _, h₁₂,
      hzero, _, h₁₃, ?_, hnumSh, Int16.not_lt.2 hvalid.numPh_nonneg, ?_, ?_⟩
    · rw [← hstring]
      exact hvalid.shStringNdx_ne
    · rw [← hstring, asRead_eq hobjectSize hdataLsb, ← hobjectSize, ← hdataLsb]
    · omega

/-! ## The identification -/

theorem ofIdent_eq_some_iff {b : UInt8} {objectSize : ObjectSize} :
    ObjectSize.ofIdent b = some objectSize ↔ b = objectSize.ident := by
  unfold ObjectSize.ofIdent
  split
  next => cases objectSize <;> decide
  next => cases objectSize <;> decide
  next h₁ h₂ => exact iff_of_false nofun (by cases objectSize; exacts [h₁, h₂])

theorem dataLsbOfIdent_eq_some_iff {b : UInt8} {lsb : Bool} :
    dataLsbOfIdent b = some lsb ↔ b = if lsb then 1 else 2 := by
  unfold dataLsbOfIdent
  split
  next => cases lsb <;> decide
  next => cases lsb <;> decide
  next h₁ h₂ => exact iff_of_false nofun (by cases lsb; exacts [h₂, h₁])

theorem readIdent_eq_ok_iff {ident : List UInt8} (hlen : ident.length = 16)
    {objectSize : ObjectSize} {lsb : Bool} :
    readIdent ident = .ok (objectSize, lsb) ↔
      elfMagic ++ [objectSize.ident, if lsb then 1 else 2, 1] <+: ident := by
  obtain ⟨a, b, c, d, e, f, g, rest, rfl⟩ : ∃ a b c d e f g rest,
      ident = a :: b :: c :: d :: e :: f :: g :: rest := by
    match ident, hlen with
    | a :: b :: c :: d :: e :: f :: g :: rest, _ => exact ⟨a, b, c, d, e, f, g, rest, rfl⟩
  have hfour : List.take 4 (a :: b :: c :: d :: e :: f :: g :: rest) = [a, b, c, d] := rfl
  have hstart : elfMagic ++ [objectSize.ident, if lsb then 1 else 2, 1] <+:
      a :: b :: c :: d :: e :: f :: g :: rest ↔
      [a, b, c, d] = elfMagic ∧ e = objectSize.ident ∧ f = (if lsb then 1 else 2) ∧ g = 1 := by
    simp only [elfMagic, List.cons_append, List.nil_append, List.cons_prefix_cons,
      List.nil_prefix, List.cons.injEq, and_true, eq_comm]
    tauto
  rw [hstart, ← ofIdent_eq_some_iff, ← dataLsbOfIdent_eq_some_iff, readIdent, hfour]
  simp only [List.getD_cons_succ, List.getD_cons_zero]
  split
  next hmagic => simp [hmagic]
  next hmagic =>
    rw [not_not] at hmagic
    split
    next hclass => simp [hclass]
    next o hclass =>
      split
      next horder => simp [horder]
      next l horder =>
        split
        next hversion => simp [hversion]
        next hversion =>
          rw [not_not] at hversion
          simp [hmagic, hclass, horder, hversion]

/-- The files that `fromBuffer` accepts, and the header it gives for them. -/
theorem fromBuffer_eq_ok_iff :
    fromBuffer buffer = .ok h ↔
      ∃ e : ElfHeader, e.Valid ∧ Spells buffer.bytes 0 e.identBytes ∧
        FieldsAt (e.parser buffer) 16 e.fields ∧ h = e.asRead := by
  simp only [fromBuffer, outcome_eq_ok_iff, read, ByteBuffer.get_eq_ok_iff, bind_eq_ok_iff,
    getOrThrow_eq_ok]
  constructor
  · rintro ⟨pos', ident, _, ⟨⟨hlen, hspells, -⟩, rfl⟩, ⟨objectSize, lsb⟩, _, ⟨hident, rfl⟩, hfields⟩
    obtain ⟨e, ⟨hobjectSize, hlsb⟩, hvalid, hat, hread, -⟩ := readFields_eq_ok_iff.1 hfields
    dsimp only at hobjectSize hlsb
    subst hobjectSize hlsb
    exact ⟨e, hvalid, ((readIdent_eq_ok_iff hlen).1 hident).trans hspells, hat, hread⟩
  · rintro ⟨e, hvalid, hident, hat, hread⟩
    -- The file goes on after the identification, so that all of it can be read.
    have htype : 16 + (shortBytes e.dataLsb e.fileType).length ≤ buffer.bytes.length :=
      Spells.length_le hat.1 (List.ne_nil_of_length_pos (by simp))
    have hrest : 0 + 16 ≤ buffer.bytes.length := by
      rw [length_shortBytes] at htype
      omega
    obtain ⟨ident, hlen, hspells⟩ := exists_spells hrest
    have hshort : e.identBytes.length ≤ ident.length := by
      rw [hlen]
      exact (by decide : 7 ≤ 16)
    have hstart : e.identBytes <+: ident := List.prefix_of_prefix_length_le hident hspells hshort
    exact ⟨_, ident, _, ⟨⟨hlen, hspells, hrest⟩, rfl⟩, (e.objectSize, e.dataLsb), _,
      ⟨(readIdent_eq_ok_iff hlen).2 hstart, rfl⟩,
      readFields_eq_ok_iff.2 ⟨e, ⟨rfl, rfl⟩, hvalid, hat, hread, rfl⟩⟩

end ElfHeader

end Tank
