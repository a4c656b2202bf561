import Tank.Helper.MemoryHelper
import Tank.ToMathlib.Unicode

/-!
# Strings in guest memory

What `readUTF8` and `readCString` collect is what stands before the first zero byte
(`ToMathlib.Terminated`). They differ in what has to be mapped: `readCString` reads no byte after
the zero byte, `readUTF8` reads up to 31 more.

* `readPieces_eq_ok_iff`, `readUntilNull_eq_ok_iff`: when the two loops return, and what;
* `string_reads_agree_iff`: for a string that `readCString` can read, `readUTF8` agrees exactly if
  the rest of the last piece is mapped;
* `string_round_trip`: strings that were written are read back, wherever the zero byte stands in its
  piece.
-/

namespace Tank

open ToMathlib

namespace MemoryHelper

variable {uc uc' : Unicorn} {a : Int64} {bytes : List UInt8} {k : ℕ}

/-- The number of bytes in the pieces up to the one in which a string of this length ends. -/
def piecesLength (length : ℕ) : ℕ := 32 * (length / 32 + 1)

theorem piecesLength_add (length : ℕ) : piecesLength (32 + length) = 32 + piecesLength length := by
  rw [piecesLength, piecesLength]
  omega

theorem length_lt_piecesLength (length : ℕ) : length < piecesLength length := by
  rw [piecesLength]
  omega

theorem toUInt64_add_32 (a : Int64) : (a + 32).toUInt64 = a.toUInt64 + UInt64.ofNat 32 := rfl

/-- The string ends in the first piece if the piece has a zero byte. -/
theorem terminated_of_nullPos_lt {m : UInt64 → UInt8} {x : UInt64}
    (h : nullPos (readBytes m x 32) < 32) :
    Terminated m x ((readBytes m x 32).take (nullPos (readBytes m x 32))) := by
  have hlen : ((readBytes m x 32).take (nullPos (readBytes m x 32))).length =
      nullPos (readBytes m x 32) := by
    rw [List.length_take, length_readBytes]
    omega
  rw [terminated_iff_of_lt (hlen.trans_lt h), hlen]
  exact ⟨rfl, rfl⟩

/-- Without a zero byte in the first piece the string goes on after it. -/
theorem exists_rest_of_terminated {m : UInt64 → UInt8} {x : UInt64} (h : Terminated m x bytes)
    (hnull : ¬nullPos (readBytes m x 32) < 32) :
    ∃ rest, bytes = readBytes m x 32 ++ rest ∧ Terminated m (x + UInt64.ofNat 32) rest := by
  have hlen : 32 ≤ bytes.length := by
    by_contra hlt
    have hidx := ((terminated_iff_of_lt (not_le.1 hlt)).1 h).1
    rw [nullPos, hidx] at hnull
    exact hnull (not_le.1 hlt)
  have htake : (bytes.take 32).length = 32 := List.length_take_of_le hlen
  rw [← List.take_append_drop 32 bytes] at h
  obtain ⟨-, hread, hrest⟩ := terminated_append.1 h
  rw [htake] at hread hrest
  exact ⟨bytes.drop 32, by rw [hread, List.take_append_drop], hrest⟩

theorem notMem_of_nullPos {m : UInt64 → UInt8} {x : UInt64}
    (hnull : ¬nullPos (readBytes m x 32) < 32) : 0 ∉ readBytes m x 32 := by
  intro hmem
  refine hnull ?_
  have hlt := List.findIdx_lt_length_of_exists (p := (· == (0 : UInt8))) ⟨0, hmem, rfl⟩
  rwa [length_readBytes] at hlt

/-- The pieces of a string begin with the first one. -/
theorem mapped_of_piecesLength {x : UInt64} {length : ℕ}
    (h : uc.checkMemArea x (piecesLength length) = true) : uc.checkMemArea x 32 = true := by
  have hsplit : piecesLength length = 32 + 32 * (length / 32) := by
    rw [piecesLength]
    omega
  rw [hsplit, Unicorn.checkMemArea_add, Bool.and_eq_true] at h
  exact h.1

/-- What the loop of `readUTF8` collects, and what has to be mapped for it. -/
theorem readPieces_eq_ok_iff :
    (readPieces k a).run uc = .ok bytes uc' ↔
      uc' = uc ∧ Terminated uc.mem a.toUInt64 bytes ∧
        uc.checkMemArea a.toUInt64 (piecesLength bytes.length) = true ∧ bytes.length < 32 * k := by
  induction k generalizing a bytes uc' with
  | zero =>
    refine iff_of_false (fun h => by cases h) ?_
    rintro ⟨-, -, -, hlt⟩
    omega
  | succ k ih =>
    rw [readPieces, memRead_bind_eq_ok_iff, length_readBytes]
    by_cases hnull : nullPos (readBytes uc.mem a.toUInt64 32) < 32
    · -- The string ends in this piece.
      have hfound := terminated_of_nullPos_lt hnull
      have hlen : ((readBytes uc.mem a.toUInt64 32).take
          (nullPos (readBytes uc.mem a.toUInt64 32))).length < 32 := by
        rw [List.length_take]
        omega
      rw [if_pos hnull, pure_eq_ok_iff]
      constructor
      · rintro ⟨hmapped, rfl, rfl⟩
        refine ⟨rfl, hfound, ?_, by omega⟩
        rw [piecesLength, Nat.div_eq_of_lt hlen]
        exact hmapped
      · rintro ⟨rfl, hstring, harea, -⟩
        exact ⟨mapped_of_piecesLength harea, hstring.unique hfound, rfl⟩
    · -- It goes on in the next piece.
      rw [if_neg hnull, bind_eq_ok_iff]
      constructor
      · rintro ⟨hmapped, rest, uc₁, hrest, hpure⟩
        obtain ⟨rfl, hstring, harea, hlt⟩ := ih.1 hrest
        obtain ⟨rfl, rfl⟩ := pure_eq_ok_iff.1 hpure
        rw [toUInt64_add_32] at hstring harea
        rw [List.length_append, length_readBytes, piecesLength_add, Unicorn.checkMemArea_add,
          hmapped, harea]
        refine ⟨rfl, terminated_append.2 ⟨notMem_of_nullPos hnull, ?_, ?_⟩, rfl, by omega⟩
        · rw [length_readBytes]
        · rw [length_readBytes]
          exact hstring
      · rintro ⟨rfl, hstring, harea, hlt⟩
        obtain ⟨rest, rfl, hrest⟩ := exists_rest_of_terminated hstring hnull
        rw [List.length_append, length_readBytes] at harea hlt
        rw [piecesLength_add, Unicorn.checkMemArea_add, Bool.and_eq_true] at harea
        exact ⟨harea.1, rest, uc', (ih (a := a + 32)).2 ⟨rfl, hrest, harea.2, by omega⟩, rfl⟩

theorem getD_readBytes_one (m : UInt64 → UInt8) (x : UInt64) :
    (readBytes m x 1).getD 0 0 = m x := by
  rw [readBytes_one]
  rfl

/-- What the loop of `readCString` collects; it reads up to the zero byte. -/
theorem readUntilNull_eq_ok_iff :
    (readUntilNull k a).run uc = .ok bytes uc' ↔
      uc' = uc ∧ Terminated uc.mem a.toUInt64 bytes ∧
        uc.checkMemArea a.toUInt64 (bytes.length + 1) = true ∧ bytes.length < k := by
  induction k generalizing a bytes uc' with
  | zero =>
    refine iff_of_false (fun h => by cases h) ?_
    rintro ⟨-, -, -, hlt⟩
    omega
  | succ k ih =>
    have hnext : (a + 1).toUInt64 = a.toUInt64 + UInt64.ofNat 1 := rfl
    have hareas : uc.checkMemArea a.toUInt64 (bytes.length + 1) = true ↔
        uc.checkMemArea a.toUInt64 1 = true ∧
          uc.checkMemArea (a.toUInt64 + UInt64.ofNat 1) bytes.length = true := by
      rw [Nat.add_comm, Unicorn.checkMemArea_add, Bool.and_eq_true]
    rw [readUntilNull, memRead_bind_eq_ok_iff, getD_readBytes_one, hareas]
    by_cases hzero : uc.mem a.toUInt64 = 0
    · rw [if_pos hzero, pure_eq_ok_iff]
      constructor
      · rintro ⟨hmapped, rfl, rfl⟩
        exact ⟨rfl, terminated_nil.2 hzero, ⟨hmapped, rfl⟩, Nat.succ_pos k⟩
      · rintro ⟨rfl, hstring, harea, -⟩
        exact ⟨harea.1, hstring.unique (terminated_nil.2 hzero), rfl⟩
    · rw [if_neg hzero, readBytes_one, bind_eq_ok_iff]
      constructor
      · rintro ⟨hmapped, rest, uc₁, hrest, hpure⟩
        obtain ⟨rfl, hstring, harea, hlt⟩ := ih.1 hrest
        obtain ⟨rfl, rfl⟩ := pure_eq_ok_iff.1 hpure
        rw [hnext] at hstring harea
        rw [List.singleton_append, List.length_cons]
        exact ⟨rfl, terminated_cons.2 ⟨hzero, rfl, hstring⟩, ⟨hmapped, harea⟩, by omega⟩
      · rintro ⟨rfl, hstring, harea, hlt⟩
        cases bytes with
        | nil => exact absurd (terminated_nil.1 hstring) hzero
        | cons b bytes =>
          obtain ⟨-, rfl, hrest⟩ := terminated_cons.1 hstring
          rw [List.length_cons] at hlt harea
          exact ⟨harea.1, bytes, uc', (ih (a := a + 1)).2 ⟨rfl, hrest, harea.2, by omega⟩, rfl⟩

/-! ## The two ways to read a string -/

theorem readCString_eq_ok_iff {cstr : CString} :
    (readCString a).run uc = .ok cstr uc' ↔
      uc' = uc ∧ Terminated uc.mem a.toUInt64 cstr.data ∧
        uc.checkMemArea a.toUInt64 (cstr.data.length + 1) = true ∧ cstr.data.length < 2 ^ 31 ∧
        cstr = ⟨a, cstr.data, Int32.ofNat cstr.data.length⟩ := by
  rw [readCString, bind_eq_ok_iff]
  constructor
  · rintro ⟨data, uc₁, hdata, hpure⟩
    obtain ⟨rfl, hstring, harea, hlt⟩ := readUntilNull_eq_ok_iff.1 hdata
    obtain ⟨rfl, rfl⟩ := pure_eq_ok_iff.1 hpure
    exact ⟨rfl, hstring, harea, hlt, rfl⟩
  · rintro ⟨rfl, hstring, harea, hlt, heq⟩
    exact ⟨_, _, readUntilNull_eq_ok_iff.2 ⟨rfl, hstring, harea, hlt⟩,
      pure_eq_ok_iff.2 ⟨heq, rfl⟩⟩

theorem readUTF8_eq_ok_iff {decode : List UInt8 → String} {value : String} :
    (readUTF8 decode a).run uc = .ok value uc' ↔
      uc' = uc ∧ ∃ utf, value = decode utf ∧ Terminated uc.mem a.toUInt64 utf ∧
        uc.checkMemArea a.toUInt64 (piecesLength utf.length) = true ∧ utf.length < 2 ^ 31 := by
  rw [readUTF8, bind_eq_ok_iff]
  constructor
  · rintro ⟨utf, uc₁, hutf, hpure⟩
    obtain ⟨rfl, hstring, harea, hlt⟩ := readPieces_eq_ok_iff.1 hutf
    obtain ⟨rfl, rfl⟩ := pure_eq_ok_iff.1 hpure
    exact ⟨rfl, utf, rfl, hstring, harea, by omega⟩
  · rintro ⟨rfl, utf, rfl, hstring, harea, hlt⟩
    exact ⟨utf, _, readPieces_eq_ok_iff.2 ⟨rfl, hstring, harea, by omega⟩, rfl⟩

/-- For a string that `readCString` reads, `readUTF8` returns, and decodes the same bytes, exactly
if all of the piece in which the string ends is mapped. -/
theorem string_reads_agree_iff (decode : List UInt8 → String) {cstr : CString}
    (hread : (readCString a).run uc = .ok cstr uc') :
    (readUTF8 decode a).run uc = .ok (decode cstr.data) uc ↔
      uc.checkMemArea a.toUInt64 (piecesLength cstr.data.length) = true := by
  obtain ⟨-, hstring, -, hlt, -⟩ := readCString_eq_ok_iff.1 hread
  rw [readUTF8_eq_ok_iff]
  constructor
  · rintro ⟨-, utf, -, hutf, harea, -⟩
    rwa [hutf.unique hstring] at harea
  · intro harea
    exact ⟨rfl, cstr.data, rfl, hstring, harea, hlt⟩

/-- A page with the string "ab" at its start. -/
def stringPage : Unicorn :=
  Unicorn.store { Unicorn.blank with regions := [⟨0x1000, 0x1000⟩] } 0x1000 [97, 98]

theorem string_reads_agree_page :
    (readCString 0x1000).run stringPage = .ok ⟨0x1000, [97, 98], 2⟩ stringPage ∧
      (readUTF8 decodeUTF8 0x1000).run stringPage = .ok "ab" stringPage := by
  have hread : (readCString 0x1000).run stringPage = .ok ⟨0x1000, [97, 98], 2⟩ stringPage :=
    readCString_eq_ok_iff.2 ⟨rfl, by decide +kernel, by decide +kernel, by decide, rfl⟩
  have hdecode : decodeUTF8 [97, 98] = "ab" := by decide +kernel
  have hagree := (string_reads_agree_iff decodeUTF8 hread).2 (by decide +kernel)
  rw [hdecode] at hagree
  exact ⟨hread, hagree⟩

/-- The empty string in the last byte of the page can be read byte by byte only. -/
theorem string_at_page_end :
    (readCString 0x1FFF).run stringPage = .ok ⟨0x1FFF, [], 0⟩ stringPage ∧
      ∀ value uc', (readUTF8 decodeUTF8 0x1FFF).run stringPage ≠ .ok value uc' := by
  constructor
  · exact readCString_eq_ok_iff.2 ⟨rfl, by decide +kernel, by decide +kernel, by decide, rfl⟩
  · intro value uc' h
    obtain ⟨-, utf, -, hutf, harea, -⟩ := readUTF8_eq_ok_iff.1 h
    have hempty : Terminated stringPage.mem (0x1FFF : Int64).toUInt64 [] := by decide +kernel
    rw [hutf.unique hempty] at harea
    exact absurd harea (by decide +kernel)

/-! ## Writing and reading -/

/-- A string that can be written: an array holds its bytes together with the zero byte. -/
structure GuestString where
  bytes : List UInt8
  notMem : 0 ∉ bytes
  length_lt : bytes.length + 1 < 2 ^ 31

/-- The string at an address is collected by both loops, and decoded. -/
structure ReadsAs (decode : List UInt8 → String) (uc : Unicorn) (a : Int64) (bytes : List UInt8) :
    Prop where
  pieces : (readPieces (2 ^ 26) a).run uc = .ok bytes uc
  utf8 : (readUTF8 decode a).run uc = .ok (decode bytes) uc
  cString : (readCString a).run uc = .ok ⟨a, bytes, Int32.ofNat bytes.length⟩ uc

theorem readsAs_of_terminated (decode : List UInt8 → String)
    (hstring : Terminated uc.mem a.toUInt64 bytes)
    (harea : uc.checkMemArea a.toUInt64 (piecesLength bytes.length) = true)
    (hlt : bytes.length < 2 ^ 31) : ReadsAs decode uc a bytes where
  pieces := readPieces_eq_ok_iff.2 ⟨rfl, hstring, harea, by omega⟩
  utf8 := readUTF8_eq_ok_iff.2 ⟨rfl, bytes, rfl, hstring, harea, hlt⟩
  cString := by
    refine readCString_eq_ok_iff.2 ⟨rfl, hstring, ?_, hlt, rfl⟩
    obtain ⟨k, hk⟩ := Nat.exists_eq_add_of_lt (length_lt_piecesLength bytes.length)
    rw [hk, Nat.add_right_comm, Unicorn.checkMemArea_add, Bool.and_eq_true] at harea
    exact harea.1

/-- The length of the array with the zero byte, as an `int`. -/
theorem GuestString.toInt_length_add_one (b : GuestString) :
    (Int32.ofNat b.bytes.length + 1).toInt = b.bytes.length + 1 := by
  have hlt := b.length_lt
  have hlen : (Int32.ofNat b.bytes.length).toInt = b.bytes.length :=
    Int32.toInt_ofNat_of_lt (by omega)
  have hone : (1 : Int32).toInt = 1 := rfl
  rw [Int32.toInt_add, hlen, hone, Int.bmod_eq_of_le (by omega) (by omega)]

theorem run_writeUTF8 {encode : String → List UInt8} {value : String} (b : GuestString)
    (hvalue : encode value = b.bytes)
    (harea : uc.checkMemArea a.toUInt64 (b.bytes ++ [0]).length = true) :
    (writeUTF8 encode a value).run uc = .ok () (uc.store a.toUInt64 (b.bytes ++ [0])) := by
  have hsize : ¬(Int32.ofNat b.bytes.length + 1) < 0 := by
    rw [Int32.lt_iff_toInt_lt, b.toInt_length_add_one]
    exact not_lt.2 (by positivity)
  have hwrite := Unicorn.run_memWrite_of_mapped harea
  simp only [EStateM.run] at hwrite ⊢
  simp only [writeUTF8, EStateM.run, hvalue, if_neg hsize, hwrite]

theorem run_writeCString (b : GuestString)
    (harea : uc.checkMemArea a.toUInt64 (b.bytes ++ [0]).length = true) :
    (writeCString ⟨a, b.bytes, Int32.ofNat b.bytes.length⟩).run uc =
      .ok () (uc.store a.toUInt64 (b.bytes ++ [0])) := by
  have hint := b.toInt_length_add_one
  have hsize : ¬(Int32.ofNat b.bytes.length + 1) < 0 := by
    rw [Int32.lt_iff_toInt_lt, hint]
    exact not_lt.2 (by positivity)
  have hfits : ¬(Int32.ofNat b.bytes.length + 1).toInt ≤ b.bytes.length := by
    rw [hint]
    omega
  have hzeros : (Int32.ofNat b.bytes.length + 1).toInt.toNat - b.bytes.length = 1 := by
    rw [hint]
    omega
  rw [writeCString, if_neg hsize, if_neg hfits, hzeros]
  exact Unicorn.run_memWrite_of_mapped harea

/-- The first zero byte at or after an address. -/
structure FirstNull (m : UInt64 → UInt8) (a : UInt64) (n : ℕ) : Prop where
  null : m (a + UInt64.ofNat n) = 0
  first : ∀ k < n, m (a + UInt64.ofNat k) ≠ 0

theorem FirstNull.terminated {m : UInt64 → UInt8} {x : UInt64} {n : ℕ} (h : FirstNull m x n) :
    Terminated m x (readBytes m x n) := by
  constructor
  · intro hmem
    obtain ⟨k, hk, hzero⟩ := List.mem_map.1 hmem
    exact h.first k (List.mem_range.1 hk) hzero
  · rw [length_readBytes, readBytes_add, readBytes_one, h.null]

/-- A string that was written, by `writeUTF8` or by `writeCString`, is read back, and in any memory
the loop of `readUTF8` ends at the first zero byte, after enough pieces. -/
theorem string_round_trip (encode : String → List UInt8) (decode : List UInt8 → String)
    (b : GuestString) (value : String) (hvalue : encode value = b.bytes) (uc : Unicorn) (a : Int64)
    (hmapped : uc.checkMemArea a.toUInt64 (piecesLength b.bytes.length) = true) :
    (∃ uc', (writeUTF8 encode a value).run uc = .ok () uc' ∧
        (writeCString ⟨a, b.bytes, Int32.ofNat b.bytes.length⟩).run uc = .ok () uc' ∧
        ReadsAs decode uc' a b.bytes) ∧
      ∀ (mem : Unicorn) (addr : Int64) (n pieces : ℕ), FirstNull mem.mem addr.toUInt64 n →
        mem.checkMemArea addr.toUInt64 (piecesLength n) = true → n < 32 * pieces →
        (readPieces pieces addr).run mem = .ok (readBytes mem.mem addr.toUInt64 n) mem := by
  constructor
  · have hlt := b.length_lt
    have harea : uc.checkMemArea a.toUInt64 (b.bytes ++ [0]).length = true := by
      obtain ⟨k, hk⟩ := Nat.exists_eq_add_of_lt (length_lt_piecesLength b.bytes.length)
      rw [hk, Nat.add_right_comm, Unicorn.checkMemArea_add, Bool.and_eq_true] at hmapped
      rw [List.length_append]
      exact hmapped.1
    refine ⟨_, run_writeUTF8 b hvalue harea, run_writeCString b harea, ?_⟩
    refine readsAs_of_terminated decode (terminated_overwrite b.notMem (by omega)) ?_ (by omega)
    -- Stores do not change what is mapped.
    exact hmapped
  · intro mem addr n pieces hnull harea hlt
    refine readPieces_eq_ok_iff.2 ⟨rfl, hnull.terminated, ?_, ?_⟩
    · rwa [length_readBytes]
    · rwa [length_readBytes]

/-- A string of 32 bytes: the zero byte is the first one of the second piece. -/
theorem string_round_trip_piece :
    ∃ b : GuestString, b.bytes = List.replicate 32 97 ∧ stringPage.checkMemArea
        (0x1010 : Int64).toUInt64 (piecesLength b.bytes.length) = true ∧
      ∃ uc', (writeUTF8 (fun s => encodeUTF8 (utf16 s)) 0x1010
          "aaaaaaaaaaaaaaaaaaaaaaaaaaaaaaaa").run stringPage = .ok () uc' ∧
        ReadsAs decodeUTF8 uc' 0x1010 b.bytes := by
  let b : GuestString := ⟨List.replicate 32 97, by decide, by decide⟩
  have hmapped : stringPage.checkMemArea (0x1010 : Int64).toUInt64
      (piecesLength b.bytes.length) = true := by
    decide +kernel
  obtain ⟨uc', hwrite, -, hreads⟩ := (string_round_trip (fun s => encodeUTF8 (utf16 s)) decodeUTF8
    b "aaaaaaaaaaaaaaaaaaaaaaaaaaaaaaaa" (by decide +kernel) stringPage 0x1010 hmapped).1
  exact ⟨b, rfl, hmapped, uc', hwrite, hreads⟩

end MemoryHelper

end Tank
