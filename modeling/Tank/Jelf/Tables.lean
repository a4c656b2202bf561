import Tank.Jelf.Header

/-!
# String tables and the dynamic structure

What the parser cuts out of a file: `ElfStringTable`, whose strings end with a zero byte, and
`ElfDynamicStructure`, whose constructor goes through the entries of the dynamic segment up to
`DT_NULL` and remembers the values of the tags it knows.
-/

namespace Tank

open ToMathlib

/-- `ArithmeticException`, which Java throws for a division by zero. -/
def divisionByZero : JavaException := .exception "/ by zero"

/-- `readBuffer`: the bytes from the position up to the new limit. A limit before the position takes
the position along. -/
def ElfParser.readBuffer (parser : ElfParser) (length : Int32) : ParseM (List UInt8) := fun pos =>
  let limit := (Int32.ofNat pos + length).toInt
  if limit < 0 ∨ (parser.buffer.bytes.length : ℤ) < limit then .error .illegalArgument pos
  else .ok ((parser.buffer.bytes.drop pos).take (limit - pos).toNat) (min pos limit.toNat)

/-! ## String tables -/

/-- The bytes up to the first zero. -/
def cString : List UInt8 → Except JavaException (List UInt8)
  | [] => .error .bufferUnderflow
  | b :: bytes =>
    if b = 0 then .ok []
    else match cString bytes with
      | .error err => .error err
      | .ok rest => .ok (b :: rest)

/-- `ElfStringTable`: the bytes of the table. -/
structure StringTable where
  bytes : List UInt8
deriving DecidableEq, Repr

namespace StringTable

/-- The constructor of `ElfStringTable`. -/
def read (parser : ElfParser) (offset : Int64) (length : Int32) : ParseM StringTable := do
  parser.seek offset
  let bytes ← parser.readBuffer length
  pure { bytes }

/-- `get`, as bytes of the platform's charset. -/
def get (table : StringTable) (index : Int32) : Except JavaException (List UInt8) :=
  if index < 0 ∨ (table.bytes.length : ℤ) < index.toInt then .error .illegalArgument
  else cString (table.bytes.drop index.toInt.toNat)

end StringTable

/-! ## The entries of the dynamic structure -/

/-- What `ElfDynamicStructure` remembers of its entries. -/
structure DynamicTags where
  strtabOffset : Int64 := 0
  strtabSize : Int32 := 0
  needed : List Int32 := []
  soName : Int32 := -1
  init : Int32 := 0
  initArrayOffset : Int64 := 0
  initArraySize : Int32 := 0
  preInitArrayOffset : Int64 := 0
  preInitArraySize : Int32 := 0
  symbolEntrySize : Int32 := 0
  symbolOffset : Int64 := 0
  hashOffset : Int64 := 0
  gnuHashOffset : Int64 := 0
  relOffset : Int64 := 0
  relSize : Int32 := 0
  relEntrySize : Int32 := 0
  pltRelOffset : Int64 := 0
  pltRelSize : Int32 := 0
  androidRelOffset : Int64 := 0
  androidRelSize : Int32 := 0
  androidRelAOffset : Int64 := 0
  androidRelASize : Int32 := 0
deriving DecidableEq, Repr

/-- The tags that `ElfDynamicStructure` looks for. -/
inductive DynamicTag where
  | null | needed | strtab | strsz | soname | init | initArray | initArraysz | preinitArray
  | preinitArraysz | syment | symtab | hash | gnuHash | rel | relsz | relent | pltrelsz | jmprel
  | androidRelasz | androidRelsz | androidRela | androidRel
  /-- A tag without a value that is remembered. -/
  | other
deriving DecidableEq, Repr

namespace DynamicTag

/-- The cases of the `switch`. `DT_RELA` and `DT_REL` are one case, and so are their sizes. -/
def ofTag (tag : Int32) : DynamicTag :=
  if tag = 0 then null
  else if tag = 1 then needed
  else if tag = 5 then strtab
  else if tag = 10 then strsz
  else if tag = 14 then soname
  else if tag = 12 then init
  else if tag = 25 then initArray
  else if tag = 27 then initArraysz
  else if tag = 32 then preinitArray
  else if tag = 33 then preinitArraysz
  else if tag = 11 then syment
  else if tag = 6 then symtab
  else if tag = 4 then hash
  else if tag = 0x6ffffef5 then gnuHash
  else if tag = 7 ∨ tag = 17 then rel
  else if tag = 8 ∨ tag = 18 then relsz
  else if tag = 9 ∨ tag = 19 then relent
  else if tag = 2 then pltrelsz
  else if tag = 23 then jmprel
  else if tag = 0x60000012 then androidRelasz
  else if tag = 0x60000010 then androidRelsz
  else if tag = 0x60000011 then androidRela
  else if tag = 0x6000000f then androidRel
  else other

end DynamicTag

/-- An entry: `d_tag` and `d_val_or_ptr`. -/
structure DynamicEntry where
  tag : Int64
  value : Int64
deriving DecidableEq, Repr

namespace DynamicTags

/-- The body of the `switch`, for an entry that does not end the loop. -/
def put (tags : DynamicTags) (entry : DynamicEntry) : Except JavaException DynamicTags :=
  let value := entry.value
  match DynamicTag.ofTag entry.tag.toInt32 with
  | .null | .other => .ok tags
  | .needed => .ok { tags with needed := tags.needed ++ [value.toInt32] }
  | .strtab => .ok { tags with strtabOffset := value }
  | .strsz =>
    if 0x7fffffff < value then .error .elfException
    else .ok { tags with strtabSize := value.toInt32 }
  | .soname => .ok { tags with soName := value.toInt32 }
  | .init => .ok { tags with init := value.toInt32 }
  | .initArray => .ok { tags with initArrayOffset := value }
  | .initArraysz => .ok { tags with initArraySize := value.toInt32 }
  | .preinitArray => .ok { tags with preInitArrayOffset := value }
  | .preinitArraysz => .ok { tags with preInitArraySize := value.toInt32 }
  | .syment => .ok { tags with symbolEntrySize := value.toInt32 }
  | .symtab => .ok { tags with symbolOffset := value }
  | .hash => .ok { tags with hashOffset := value }
  | .gnuHash => .ok { tags with gnuHashOffset := value }
  | .rel => .ok { tags with relOffset := value }
  | .relsz => .ok { tags with relSize := value.toInt32 }
  | .relent => .ok { tags with relEntrySize := value.toInt32 }
  | .pltrelsz => .ok { tags with pltRelSize := value.toInt32 }
  | .jmprel => .ok { tags with pltRelOffset := value }
  | .androidRelasz => .ok { tags with androidRelASize := value.toInt32 }
  | .androidRelsz => .ok { tags with androidRelSize := value.toInt32 }
  | .androidRela => .ok { tags with androidRelAOffset := value }
  | .androidRel => .ok { tags with androidRelOffset := value }

/-- The loop over the entries. -/
def readEntries (parser : ElfParser) : ℕ → DynamicTags → ParseM DynamicTags
  | 0, tags => pure tags
  | n + 1, tags => do
    let tag ← parser.readIntOrLong
    let value ← parser.readIntOrLong
    if DynamicTag.ofTag tag.toInt32 = .null then pure tags
    else
      let tags ← getOrThrow (tags.put { tag, value })
      readEntries parser n tags

/-- The first part of the constructor of `ElfDynamicStructure`. -/
def read (parser : ElfParser) (offset : Int64) (size : Int32) : ParseM DynamicTags := do
  parser.seek offset
  let numEntries := match parser.objectSize with
    | .class32 => size / 8
    | .class64 => size / 16
  readEntries parser numEntries.toInt.toNat {}

end DynamicTags

end Tank
