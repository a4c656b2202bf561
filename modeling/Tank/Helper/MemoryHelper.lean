import Tank.ToMathlib.EState
import Tank.Unicorn
import Tank.Utils.DigitUtils

/-!
# Access to guest memory

`MemoryHelper`: bytes, integers and strings in guest memory. `readUTF8` reads a string in pieces of
32 bytes up to the first zero byte; it can be read only if all of the last piece is mapped.
`readCString` reads byte by byte. How strings are encoded and decoded are parameters `encode` and
`decode`.
-/

namespace Tank

open ToMathlib

namespace MemoryHelper

/-- `readByteArray`: the size of a Java array is an `int`. -/
def readByteArray (addr size : Int64) : UcM (List UInt8) :=
  if size.toInt32 < 0 then throw .negativeArraySize
  else Unicorn.memRead addr size.toInt32.toInt.toNat

/-- `writeBytes` -/
def writeBytes (buffer : Int64) (bytes : List UInt8) : UcM Unit := Unicorn.memWrite buffer bytes

/-- `writeValue` -/
def writeValue (addr value : Int64) (size : ℕ) : UcM Unit :=
  Unicorn.memWrite addr (long2bytes value size)

/-- `readPtr32`, which is `read_u32` of `MemoryAccess`. -/
def readPtr32 (addr : Int64) : UcM Int64 := do
  let bytes ← Unicorn.memRead addr 4
  pure (bytes2Long bytes &&& 0xFFFFFFFF)

/-- `readLong` -/
def readLong (addr : Int64) (size : ℕ) : UcM Int64 := do
  let bb ← Unicorn.memRead addr size
  pure (bytes2Long bb)

/-- `nullPos`: the position of the first zero byte, or the length. -/
def nullPos (buffer : List UInt8) : ℕ := buffer.findIdx (· == 0)

/-- The loop of `readUTF8`. The array with the bytes read so far cannot have `2 ^ 31` bytes, which
bounds the number of pieces. -/
def readPieces : ℕ → Int64 → UcM (List UInt8)
  | 0, _ => throw .outOfMemory
  | pieces + 1, bufferAddr => do
    let buffer ← Unicorn.memRead bufferAddr 32
    if nullPos buffer < buffer.length then pure (buffer.take (nullPos buffer))
    else do
      let rest ← readPieces pieces (bufferAddr + 32)
      pure (buffer ++ rest)

/-- `readUTF8` -/
def readUTF8 (decode : List UInt8 → String) (addr : Int64) : UcM String := do
  let utf ← readPieces (2 ^ 26) addr
  pure (decode utf)

/-- `CString` -/
structure CString where
  addr : Int64
  data : List UInt8
  len : Int32
deriving DecidableEq

/-- The loop of `readCString`. As for `readPieces`, the length of an array bounds the number of
bytes. -/
def readUntilNull : ℕ → Int64 → UcM (List UInt8)
  | 0, _ => throw .outOfMemory
  | size + 1, bufferAddr => do
    let buffer ← Unicorn.memRead bufferAddr 1
    if buffer.getD 0 0 = 0 then pure []
    else do
      let rest ← readUntilNull size (bufferAddr + 1)
      pure (buffer ++ rest)

/-- `readCString` -/
def readCString (addr : Int64) : UcM CString := do
  let data ← readUntilNull (2 ^ 31) addr
  pure ⟨addr, data, Int32.ofNat data.length⟩

/-- `writeUTF8`. The array for the bytes and the zero byte must not be too long. Every exception is
caught. -/
def writeUTF8 (encode : String → List UInt8) (addr : Int64) (value : String) : UcM Unit :=
  fun uc =>
    let bytes := encode value
    if (Int32.ofNat bytes.length + 1) < 0 then .ok () uc
    else
      match (Unicorn.memWrite addr (bytes ++ [0])).run uc with
      | .ok _ uc' => .ok () uc'
      | .error _ uc' => .ok () uc'

/-- `writeCString`. The new array is filled with zeros. -/
def writeCString (cstr : CString) : UcM Unit :=
  if cstr.len + 1 < 0 then throw .negativeArraySize
  else if (cstr.len + 1).toInt ≤ cstr.data.length then throw .arrayIndexOutOfBounds
  else
    Unicorn.memWrite cstr.addr
      (cstr.data ++ List.replicate ((cstr.len + 1).toInt.toNat - cstr.data.length) 0)

section Sequences

variable {α : Type} {uc uc' : Unicorn} {addr : Int64} {size : ℕ} {a : α}

/-- Code that begins with a read returns only if the bytes are mapped. -/
theorem memRead_bind_eq_ok_iff {f : List UInt8 → UcM α} :
    (Unicorn.memRead addr size >>= f).run uc = .ok a uc' ↔
      uc.checkMemArea addr.toUInt64 size = true ∧
        (f (readBytes uc.mem addr.toUInt64 size)).run uc = .ok a uc' :=
  bind_eq_ok_iff_of_ok_iff fun _ _ => Unicorn.memRead_eq_ok

theorem readLong_eq_ok_iff {v : Int64} :
    (readLong addr size).run uc = .ok v uc' ↔
      uc.checkMemArea addr.toUInt64 size = true ∧
        v = bytes2Long (readBytes uc.mem addr.toUInt64 size) ∧ uc' = uc := by
  rw [readLong, memRead_bind_eq_ok_iff, pure_eq_ok_iff]

theorem writeBytes_eq_ok_iff {bytes : List UInt8} {u : Unit} :
    (writeBytes addr bytes).run uc = .ok u uc' ↔
      uc.checkMemArea addr.toUInt64 bytes.length = true ∧ u = () ∧
        uc' = uc.store addr.toUInt64 bytes := by
  rw [writeBytes, Unicorn.memWrite_eq_ok, eq_self_iff_true, true_and]

theorem writeValue_eq_ok_iff {value : Int64} {u : Unit} :
    (writeValue addr value size).run uc = .ok u uc' ↔
      uc.checkMemArea addr.toUInt64 size = true ∧ u = () ∧
        uc' = uc.store addr.toUInt64 (long2bytes value size) := by
  have hwrite : (writeBytes addr (long2bytes value size)).run uc = .ok u uc' ↔ _ :=
    writeBytes_eq_ok_iff
  rwa [length_long2bytes] at hwrite

end Sequences

/-- Code that leaves the engine as it is. -/
def OnlyReads {α : Type} (m : UcM α) : Prop := Keeps (fun uc uc' => uc' = uc) m

theorem onlyReads_memRead (addr : Int64) (size : ℕ) : OnlyReads (Unicorn.memRead addr size) := by
  intro uc
  rw [Unicorn.run_memRead]
  split <;> rfl

theorem onlyReads_readPieces (pieces : ℕ) (addr : Int64) : OnlyReads (readPieces pieces addr) := by
  induction pieces generalizing addr with
  | zero => exact fun _ => rfl
  | succ pieces ih =>
    rw [readPieces]
    refine (onlyReads_memRead addr 32).bind fun buffer => ?_
    split
    · exact .pure _
    · exact (ih (addr + 32)).bind fun _ => .pure _

theorem onlyReads_readUTF8 (decode : List UInt8 → String) (addr : Int64) :
    OnlyReads (readUTF8 decode addr) :=
  (onlyReads_readPieces _ addr).bind fun _ => .pure _

end MemoryHelper

end Tank
