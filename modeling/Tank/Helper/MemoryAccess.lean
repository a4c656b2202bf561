import Tank.Helper.MemoryHelper

/-!
# Integers in guest memory

`MemoryAccess`: the lowest bytes of a `long` are written to guest memory, and read back from there.
`long2bytes` writes every width as it should. `bytes2Long` shifts each byte as an `int`, so that the
fifth byte and those after it are put over the first ones, and a fourth byte above `0x7F` makes the
result negative. `read` then keeps 32 bits, also for `read_u64`.

* `guest_integers_iff`: for which values the two functions are inverse at a width.
-/

namespace Tank

open ToMathlib

namespace MemoryAccess

/-- `LONG_MAX` -/
def longMax : Int64 := 0xFFFFFFFF

/-- `write` -/
def write (addr value : Int64) (size : ℕ) : UcM Unit :=
  Unicorn.memWrite addr (long2bytes value size)

/-- `read` -/
def read (addr : Int64) (size : ℕ) : UcM Int64 := do
  let bytes ← Unicorn.memRead addr size
  pure (bytes2Long bytes &&& longMax)

/-- `write_u64` -/
def writeU64 (addr value : Int64) : UcM Unit := write addr value 8

/-- `read_u64` -/
def readU64 (addr : Int64) : UcM Int64 := read addr 8

/-! ## What the functions are for -/

/-- The lowest bytes of a `long` as a number without a sign. -/
def unsignedBytes (value : Int64) (size : ℕ) : ℕ := value.toUInt64.toNat % 2 ^ (8 * size)

/-- That number as a `long`; all eight bytes are the `long` they were taken from. -/
def lowBytes (value : Int64) (size : ℕ) : Int64 := Int64.ofNat (unsignedBytes value size)

/-- The lowest bytes of a value are written and read back. No other byte changes, and nothing else
of the engine. -/
def ReadsBack (uc : Unicorn) (addr value : Int64) (size : ℕ) : Prop :=
  ∃ uc', (write addr value size).run uc = .ok () uc' ∧
    (read addr size).run uc' = .ok (lowBytes value size) uc' ∧
    uc' = { uc with mem := uc'.mem } ∧
    ∀ x, ¬Within addr.toUInt64 size x → uc'.mem x = uc.mem x

/-- In addition, `bytes2Long` is the inverse of `long2bytes`. -/
def RoundTrips (uc : Unicorn) (addr value : Int64) (size : ℕ) : Prop :=
  ReadsBack uc addr value size ∧ bytes2Long (long2bytes value size) = lowBytes value size

variable {uc uc' : Unicorn} {addr value : Int64} {size n : ℕ}

/-! ## Values -/

/-- A word with the sign of an `int`. -/
theorem toInt_signed_word (hn : n < 2 ^ 32) :
    (UInt32.ofNat n).toInt32.toInt64.toInt = if n < 2 ^ 31 then (n : ℤ) else n - 2 ^ 32 := by
  have hsigned : (UInt32.ofNat n).toInt32.toInt64.toInt = (n : ℤ).bmod (2 ^ 32) := by
    rw [Int32.toInt_toInt64]
    have hbits : (UInt32.ofNat n).toInt32.toInt = ((UInt32.ofNat n).toNat : ℤ).bmod (2 ^ 32) :=
      BitVec.toInt_eq_toNat_bmod _
    rw [hbits, UInt32.toNat_ofNat_of_lt' hn]
  rw [hsigned, Int.bmod_def]
  split <;> split <;> omega

/-- The mask of `read` takes the sign away. -/
theorem toInt_and_longMax (hn : n < 2 ^ 32) :
    ((UInt32.ofNat n).toInt32.toInt64 &&& longMax).toInt = n := by
  have hword : (UInt32.ofNat n).toInt32.toUInt32.toNat = n := UInt32.toNat_ofNat_of_lt' hn
  rw [longMax, and_mask32, low32_toInt64, toInt_toInt64_toUInt64, hword]

/-- What `bytes2Long` makes of a number: its high word is put over its low word. -/
def merged (n : ℕ) : ℕ := n % 2 ^ 32 ||| n / 2 ^ 32

theorem merged_lt (hn : n < 2 ^ 64) : merged n < 2 ^ 32 := by
  have hlow : n % 2 ^ 32 < 2 ^ 32 := Nat.mod_lt _ (by omega)
  have hhigh : n / 2 ^ 32 < 2 ^ 32 := by omega
  exact Nat.or_lt_two_pow hlow hhigh

theorem merged_of_lt (hn : n < 2 ^ 32) : merged n = n := by
  rw [merged, Nat.mod_eq_of_lt hn, Nat.div_eq_of_lt hn, Nat.or_zero]

theorem unsignedBytes_lt (value : Int64) (size : ℕ) : unsignedBytes value size < 2 ^ 64 :=
  (Nat.mod_le _ _).trans_lt value.toUInt64.toNat_lt

theorem toInt_lowBytes (value : Int64) (size : ℕ) :
    (lowBytes value size).toInt =
      if unsignedBytes value size < 2 ^ 63 then (unsignedBytes value size : ℤ)
      else unsignedBytes value size - 2 ^ 64 := by
  have hlt := unsignedBytes_lt value size
  have hsize : Int64.size = 2 ^ 64 := rfl
  rw [lowBytes, Int64.toInt_ofNat', Int.bmod_def, hsize]
  generalize unsignedBytes value size = n at hlt
  split <;> split <;> omega

theorem bytes2Long_long2bytes (hsize : size ≤ 8) :
    bytes2Long (long2bytes value size) =
      (UInt32.ofNat (merged (unsignedBytes value size))).toInt32.toInt64 := by
  have hlen : (long2bytes value size).length ≤ 8 := (length_long2bytes value size).trans_le hsize
  have hbyte : 2 ^ 8 = 256 := rfl
  have hpow : 256 ^ size = 2 ^ (8 * size) := by rw [pow_mul, hbyte]
  rw [bytes2Long_eq hlen, leNat_long2bytes value hsize, hpow]
  rfl

/-- `bytes2Long` gives a value below `2 ^ 32` back unless the fourth byte gives it a sign. -/
theorem bytes2Long_long2bytes_eq_iff (hsize : size ≤ 8) (hn : unsignedBytes value size < 2 ^ 32) :
    bytes2Long (long2bytes value size) = lowBytes value size ↔
      unsignedBytes value size < 2 ^ 31 := by
  rw [bytes2Long_long2bytes hsize, ← Int64.toInt_inj, merged_of_lt hn, toInt_signed_word hn,
    toInt_lowBytes]
  split <;> split <;> omega

/-- What `read` returns of the bytes of a value is that value exactly if it has one word. -/
theorem and_longMax_eq_lowBytes_iff (hsize : size ≤ 8) :
    bytes2Long (long2bytes value size) &&& longMax = lowBytes value size ↔
      unsignedBytes value size < 2 ^ 32 := by
  have hlt := unsignedBytes_lt value size
  have hmerged := merged_lt hlt
  rw [bytes2Long_long2bytes hsize, ← Int64.toInt_inj, toInt_and_longMax hmerged, toInt_lowBytes]
  constructor
  · intro heq
    split at heq <;> omega
  · intro hword
    rw [merged_of_lt hword, if_pos (by omega)]

/-! ## Guest memory -/

theorem write_eq_ok_iff {u : Unit} :
    (write addr value size).run uc = .ok u uc' ↔
      uc.checkMemArea addr.toUInt64 size = true ∧ u = () ∧
        uc' = uc.store addr.toUInt64 (long2bytes value size) :=
  MemoryHelper.writeValue_eq_ok_iff

theorem read_eq_ok_iff {v : Int64} :
    (read addr size).run uc = .ok v uc' ↔
      uc.checkMemArea addr.toUInt64 size = true ∧
        v = bytes2Long (readBytes uc.mem addr.toUInt64 size) &&& longMax ∧ uc' = uc := by
  rw [read, MemoryHelper.memRead_bind_eq_ok_iff, pure_eq_ok_iff]

theorem readBytes_store_long2bytes (hsize : size ≤ 8) :
    readBytes (uc.store addr.toUInt64 (long2bytes value size)).mem addr.toUInt64 size =
      long2bytes value size := by
  have hlen := length_long2bytes value size
  have hread : readBytes (overwrite uc.mem addr.toUInt64 (long2bytes value size)) addr.toUInt64
      (long2bytes value size).length = long2bytes value size := readBytes_overwrite (by omega)
  rwa [hlen] at hread

/-- Where the bytes are mapped, only the value that is read can be wrong. -/
theorem readsBack_iff (hsize : size ≤ 8)
    (hmapped : uc.checkMemArea addr.toUInt64 size = true) :
    ReadsBack uc addr value size ↔
      bytes2Long (long2bytes value size) &&& longMax = lowBytes value size := by
  constructor
  · rintro ⟨uc', hwrite, hread, -, -⟩
    obtain ⟨-, -, rfl⟩ := write_eq_ok_iff.1 hwrite
    obtain ⟨-, hvalue, -⟩ := read_eq_ok_iff.1 hread
    rw [hvalue, readBytes_store_long2bytes hsize]
  · intro hvalue
    refine ⟨_, write_eq_ok_iff.2 ⟨hmapped, rfl, rfl⟩, read_eq_ok_iff.2 ⟨hmapped, ?_, rfl⟩, rfl, ?_⟩
    · rw [readBytes_store_long2bytes hsize, hvalue]
    · intro x hx
      rw [← length_long2bytes value size] at hx
      exact overwrite_of_not_within hx

/-- An integer of at most eight bytes comes back from mapped memory exactly if it has one word. The
bytes alone give it back as well exactly if that word has no sign. -/
theorem guest_integers_iff (hsize : size ≤ 8)
    (hmapped : uc.checkMemArea addr.toUInt64 size = true) :
    (RoundTrips uc addr value size ↔ unsignedBytes value size < 2 ^ 31) ∧
      (ReadsBack uc addr value size ↔ unsignedBytes value size < 2 ^ 32) := by
  have hreads : ReadsBack uc addr value size ↔ unsignedBytes value size < 2 ^ 32 :=
    (readsBack_iff hsize hmapped).trans (and_longMax_eq_lowBytes_iff hsize)
  refine ⟨?_, hreads⟩
  constructor
  · rintro ⟨hread, hbytes⟩
    exact (bytes2Long_long2bytes_eq_iff hsize (hreads.1 hread)).1 hbytes
  · intro hvalue
    have hword : unsignedBytes value size < 2 ^ 32 := lt_trans hvalue (by omega)
    exact ⟨hreads.2 hword, (bytes2Long_long2bytes_eq_iff hsize hword).2 hvalue⟩

/-- An engine with one page. -/
def guestPage : Unicorn := { Unicorn.blank with regions := [⟨0x1000, 0x1000⟩] }

theorem guest_integers_word :
    RoundTrips guestPage 0x1000 0x7FFFFFFF 4 ∧ ReadsBack guestPage 0x1000 0x80000000 4 :=
  ⟨(guest_integers_iff (by decide) (by decide)).1.2 (by decide),
    (guest_integers_iff (by decide) (by decide)).2.2 (by decide)⟩

/-- `write_u64` of `2 ^ 32` is read back as 1, and four bytes `0x80000000` are a negative number for
`bytes2Long`. -/
theorem guest_integers_lost :
    (∃ uc', (do writeU64 0x1000 0x100000000; readU64 0x1000).run guestPage = .ok 1 uc') ∧
      lowBytes 0x100000000 8 = 0x100000000 ∧ ¬ReadsBack guestPage 0x1000 0x100000000 8 ∧
      bytes2Long (long2bytes 0x80000000 4) = -0x80000000 ∧
      lowBytes 0x80000000 4 = 0x80000000 := by
  have hmapped : guestPage.checkMemArea (0x1000 : Int64).toUInt64 8 = true := by decide
  have hvalue : bytes2Long (long2bytes 0x100000000 8) &&& longMax = 1 := by decide
  have hwrite : (writeU64 0x1000 0x100000000).run guestPage =
      .ok () (guestPage.store (0x1000 : Int64).toUInt64 (long2bytes 0x100000000 8)) :=
    write_eq_ok_iff.2 ⟨hmapped, rfl, rfl⟩
  refine ⟨⟨_, (bind_of_ok hwrite).trans (read_eq_ok_iff.2 ⟨hmapped, ?_, rfl⟩)⟩, by decide, ?_,
    by decide, by decide⟩
  · rw [readBytes_store_long2bytes (by decide), hvalue]
  · rw [readsBack_iff (by decide) hmapped, hvalue]
    decide

end MemoryAccess

end Tank
