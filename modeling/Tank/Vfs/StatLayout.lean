import Tank.Vfs.VirtualFileSystem

/-!
# The layout of `struct stat64`

`writeStat2Memory` writes a stat record to guest memory with one `mem_write` for each field. Here
the result is compared with the structure of the ARM kernel, which is given independently of the
code by the offsets and widths of its fields (`stat64Fields`, `stat64Times`, `stat64Padding`).

The fields are written in the order of their offsets, each where the one before it ends
(`consecutive`). So all writes together are one store of the bytes of the fields (`statBytes`), of
which each field is a part (`statBytes_split`).

* `writeStat2Memory_eq_ok_iff`: when the code returns, and what it has stored then;
* `writeStat2Memory_encodes`: the 104 bytes of the structure are written and no others, and each
  field is found at its place.
-/

namespace Tank

open ToMathlib

/-! ## The structure -/

/-- The named fields of `struct stat64` on ARM, with their offsets and widths. -/
def stat64Fields : List (String × ℕ × ℕ) :=
  [("st_dev", 0, 8), ("__st_ino", 12, 4), ("st_mode", 16, 4), ("st_nlink", 20, 4),
    ("st_uid", 24, 4), ("st_gid", 28, 4), ("st_rdev", 32, 8), ("st_size", 48, 8),
    ("st_blksize", 56, 4), ("st_blocks", 64, 8), ("st_ino", 96, 8)]

/-- The fields for the three times, each in seconds and nanoseconds. -/
def stat64Times : List (String × ℕ × ℕ) :=
  [("st_atime", 72, 4), ("st_atime_ns", 76, 4), ("st_mtime", 80, 4), ("st_mtime_ns", 84, 4),
    ("st_ctime", 88, 4), ("st_ctime_ns", 92, 4)]

/-- The padding. -/
def stat64Padding : List (ℕ × ℕ) := [(8, 4), (40, 4), (44, 4), (60, 4)]

/-- The fields that get a value. -/
def statNamed (writeTimes : Bool) : List (String × ℕ × ℕ) :=
  stat64Fields ++ if writeTimes then stat64Times else []

/-- The ranges that are to be zero. -/
def statZero (writeTimes : Bool) : List (ℕ × ℕ) :=
  stat64Padding ++ if writeTimes then [] else stat64Times.map Prod.snd

/-- The little-endian number in so many bytes. -/
def Unicorn.numberAt (uc : Unicorn) (a : UInt64) (width : ℕ) : ℕ :=
  leNat (readBytes uc.mem a width)

/-- A stat record was written: exactly 104 bytes, with each field in its place. -/
structure Stat64Written (stat : String → Option Int64) (ptr : UInt64) (writeTimes : Bool)
    (uc uc' : Unicorn) : Prop where
  written : ∃ bytes, bytes.length = 104 ∧ uc' = uc.store ptr bytes
  named : ∀ field ∈ statNamed writeTimes, ∃ value, stat field.1 = some value ∧
    (uc'.numberAt (ptr + UInt64.ofNat field.2.1) field.2.2 : ℤ) = value.toInt % 2 ^ (8 * field.2.2)
  zero : ∀ range ∈ statZero writeTimes, uc'.numberAt (ptr + UInt64.ofNat range.1) range.2 = 0

/-! ## Fields one after the other -/

/-- Each field begins where the one before it ends, and is not wider than a `long`. -/
def consecutive : ℕ → List (Int64 × Option String × ℕ) → Bool
  | _, [] => true
  | n, (offset, _, size) :: fields =>
    offset == Int64.ofNat n && decide (size ≤ 8) && consecutive (n + size) fields

/-- The bytes of the fields, one after the other. -/
def statBytes (stat : String → Option Int64) :
    List (Int64 × Option String × ℕ) → Except JavaException (List UInt8)
  | [] => .ok []
  | (_, field, size) :: fields => do
    let value ← statValue stat field
    let bytes ← statBytes stat fields
    pure (long2bytes value size ++ bytes)

variable {stat : String → Option Int64} {fields : List (Int64 × Option String × ℕ)} {n : ℕ}
  {ptr offset value : Int64} {field : Option String} {size : ℕ} {bytes : List UInt8}
  {uc uc' : Unicorn}

theorem statBytes_cons_eq_ok :
    statBytes stat ((offset, field, size) :: fields) = .ok bytes ↔
      ∃ value rest, statValue stat field = .ok value ∧ statBytes stat fields = .ok rest ∧
        bytes = long2bytes value size ++ rest := by
  rw [statBytes]
  cases statValue stat field with
  | error err => simp [bind, Except.bind]
  | ok value => cases statBytes stat fields <;> simp [bind, Except.bind, pure, Except.pure, eq_comm]

theorem length_statBytes (h : statBytes stat fields = .ok bytes) :
    bytes.length = (fields.map fun field => field.2.2).sum := by
  induction fields generalizing bytes with
  | nil =>
    cases h
    rfl
  | cons first fields ih =>
    obtain ⟨value, rest, -, hrest, rfl⟩ := statBytes_cons_eq_ok.1 h
    rw [List.length_append, length_long2bytes, ih hrest, List.map_cons, List.sum_cons]

/-- The bytes of a field lie as far from the start as its offset says. -/
theorem statBytes_split (hfields : consecutive n fields = true)
    (h : statBytes stat fields = .ok bytes) (hmem : (offset, field, size) ∈ fields) :
    ∃ before value after, bytes = before ++ (long2bytes value size ++ after) ∧
      statValue stat field = .ok value ∧ offset = Int64.ofNat (n + before.length) ∧ size ≤ 8 := by
  induction fields generalizing n bytes with
  | nil => cases hmem
  | cons first fields ih =>
    obtain ⟨value, rest, hvalue, hrest, rfl⟩ := statBytes_cons_eq_ok.1 h
    simp only [consecutive, Bool.and_eq_true, beq_iff_eq, decide_eq_true_eq] at hfields
    obtain ⟨⟨hoffset, hsize⟩, hafter⟩ := hfields
    rcases List.mem_cons.1 hmem with rfl | hmem
    · exact ⟨[], value, rest, rfl, hvalue, hoffset, hsize⟩
    · obtain ⟨before, value', after, rfl, hvalue', hoffset', hsize'⟩ := ih hafter hrest hmem
      refine ⟨long2bytes value first.2.2 ++ before, value', after, ?_, hvalue', ?_, hsize'⟩
      · rw [List.append_assoc]
      · rw [hoffset', List.length_append, length_long2bytes, Nat.add_assoc]

/-- The record has all fields exactly if its bytes can be given. -/
theorem statBytes_eq_ok_iff : (∃ bytes, statBytes stat fields = .ok bytes) ↔
    ∀ field ∈ fields, ∀ name, field.2.1 = some name → (stat name).isSome = true := by
  induction fields with
  | nil => simp [statBytes]
  | cons first fields ih =>
    obtain ⟨offset, field, size⟩ := first
    rw [List.forall_mem_cons, ← ih]
    have hvalue : (∃ value, statValue stat field = .ok value) ↔
        ∀ name, field = some name → (stat name).isSome = true := by
      cases field with
      | none => simp [statValue]
      | some name => cases hname : stat name <;> simp [statValue, hname]
    rw [← hvalue]
    constructor
    · rintro ⟨bytes, h⟩
      obtain ⟨value, rest, hvalue, hrest, -⟩ := statBytes_cons_eq_ok.1 h
      exact ⟨⟨value, hvalue⟩, rest, hrest⟩
    · rintro ⟨⟨value, hvalue⟩, rest, hrest⟩
      exact ⟨_, statBytes_cons_eq_ok.2 ⟨value, rest, hvalue, hrest, rfl⟩⟩

/-! ## The writes as one store -/

/-- One field is written if it is there and can be stored, and then the others. -/
theorem writeStat2Memory_cons_eq_ok {u : Unit} :
    (writeStat2Memory stat ptr ((offset, field, size) :: fields)).run uc = .ok u uc' ↔
      ∃ value, statValue stat field = .ok value ∧
        uc.checkMemArea (ptr + offset).toUInt64 (long2bytes value size).length = true ∧
        (writeStat2Memory stat ptr fields).run
          (uc.store (ptr + offset).toUInt64 (long2bytes value size)) = .ok u uc' := by
  constructor
  · intro h
    obtain ⟨value, uc₁, hget, hwrites⟩ := bind_eq_ok h
    obtain ⟨hvalue, rfl⟩ := getOrThrow_eq_ok.1 hget
    obtain ⟨_, uc₂, hwrite, hothers⟩ := bind_eq_ok hwrites
    obtain ⟨hmapped, rfl⟩ := Unicorn.memWrite_eq_ok.1 hwrite
    exact ⟨value, hvalue, hmapped, hothers⟩
  · rintro ⟨value, hvalue, hmapped, hothers⟩
    have hwrite : (MemoryHelper.writeValue (ptr + offset) value size).run uc =
        .ok () (uc.store (ptr + offset).toUInt64 (long2bytes value size)) :=
      Unicorn.memWrite_eq_ok.2 ⟨hmapped, rfl⟩
    rw [writeStat2Memory, bind_of_ok (getOrThrow_eq_ok.2 ⟨hvalue, rfl⟩), bind_of_ok hwrite]
    exact hothers

/-- Fields that follow each other are written exactly if all of them can be, and then like one
array. -/
theorem writeStat2Memory_eq_ok_iff {u : Unit} (hfields : consecutive n fields = true)
    (hlen : (fields.map fun field => field.2.2).sum ≤ 2 ^ 64) :
    (writeStat2Memory stat ptr fields).run uc = .ok u uc' ↔
      ∃ bytes, statBytes stat fields = .ok bytes ∧
        uc.checkMemArea (ptr.toUInt64 + UInt64.ofNat n) bytes.length = true ∧
        uc' = uc.store (ptr.toUInt64 + UInt64.ofNat n) bytes := by
  induction fields generalizing n uc with
  | nil =>
    have hrun : (writeStat2Memory stat ptr []).run uc = .ok () uc := rfl
    constructor
    · intro h
      rw [hrun] at h
      cases h
      exact ⟨[], rfl, rfl, rfl⟩
    · rintro ⟨bytes, h, -, rfl⟩
      cases h
      exact hrun
  | cons first fields ih =>
    obtain ⟨offset, field, size⟩ := first
    simp only [consecutive, Bool.and_eq_true, beq_iff_eq, decide_eq_true_eq] at hfields
    obtain ⟨⟨rfl, -⟩, hafter⟩ := hfields
    rw [List.map_cons, List.sum_cons] at hlen
    dsimp only at hlen
    have ih' := fun uc => @ih (n + size) uc hafter (by omega)
    have hstart : (ptr + Int64.ofNat n).toUInt64 = ptr.toUInt64 + UInt64.ofNat n := rfl
    -- The first field and the bytes of the others make one store.
    have hone : ∀ value rest, statBytes stat fields = .ok rest →
        uc.store (ptr.toUInt64 + UInt64.ofNat n) (long2bytes value size ++ rest) =
          (uc.store (ptr.toUInt64 + UInt64.ofNat n) (long2bytes value size)).store
            (ptr.toUInt64 + UInt64.ofNat (n + size)) rest := by
      intro value rest hrest
      have hrestLen := length_statBytes hrest
      rw [Unicorn.store_append _ _ (by rw [List.length_append, length_long2bytes]; omega),
        length_long2bytes, add_ofNat_add]
    rw [writeStat2Memory_cons_eq_ok, hstart]
    constructor
    · rintro ⟨value, hvalue, hmapped, hothers⟩
      obtain ⟨rest, hrest, hrestMapped, rfl⟩ := (ih' _).1 hothers
      refine ⟨_, statBytes_cons_eq_ok.2 ⟨value, rest, hvalue, hrest, rfl⟩, ?_,
        (hone value rest hrest).symm⟩
      rw [List.length_append, Unicorn.checkMemArea_add, Bool.and_eq_true, length_long2bytes,
        ← add_ofNat_add]
      exact ⟨by rwa [length_long2bytes] at hmapped, hrestMapped⟩
    · rintro ⟨bytes, hbytes, hmapped, rfl⟩
      obtain ⟨value, rest, hvalue, hrest, rfl⟩ := statBytes_cons_eq_ok.1 hbytes
      rw [List.length_append, Unicorn.checkMemArea_add, Bool.and_eq_true] at hmapped
      obtain ⟨hfirst, hothers⟩ := hmapped
      rw [length_long2bytes, ← add_ofNat_add] at hothers
      exact ⟨value, hvalue, hfirst, (ih' _).2 ⟨rest, hrest, hothers, hone value rest hrest⟩⟩

/-! ## The record -/

theorem consecutive_statFields (writeTimes : Bool) :
    consecutive 0 (statFields writeTimes) = true := by
  cases writeTimes <;> rfl

theorem sum_sizes_statFields (writeTimes : Bool) :
    ((statFields writeTimes).map fun field => field.2.2).sum = 104 := by
  cases writeTimes <;> rfl

/-- The code writes each named field at the place that it has in the structure. -/
theorem mem_statFields_of_named (writeTimes : Bool) : ∀ field ∈ statNamed writeTimes,
    (Int64.ofNat field.2.1, some field.1, field.2.2) ∈ statFields writeTimes := by
  cases writeTimes <;> decide

theorem mem_statFields_of_zero (writeTimes : Bool) : ∀ range ∈ statZero writeTimes,
    (Int64.ofNat range.1, none, range.2) ∈ statFields writeTimes := by
  cases writeTimes <;> decide

/-- It reads no field of the record but these. -/
theorem mem_statNamed (writeTimes : Bool) : ∀ field ∈ statFields writeTimes,
    ∀ name ∈ field.2.1, name ∈ (statNamed writeTimes).map Prod.fst := by
  cases writeTimes <;> decide

/-- The bytes of a `long` are its value modulo a power of two, also if it is negative. -/
theorem leNat_long2bytes_eq_emod (value : Int64) (hsize : size ≤ 8) :
    (leNat (long2bytes value size) : ℤ) = value.toInt % 2 ^ (8 * size) := by
  have hdvd : (2 : ℤ) ^ (8 * size) ∣ 2 ^ 64 := pow_dvd_pow 2 (by omega)
  have hpow : ((256 ^ size : ℕ) : ℤ) = 2 ^ (8 * size) := by
    rw [pow_mul]
    norm_num
  rw [leNat_long2bytes value hsize, Int.natCast_mod, hpow, toNat_toUInt64_emod,
    Int.emod_emod_of_dvd _ hdvd]

/-- A field is read back from the store as a number. -/
theorem numberAt_store (uc : Unicorn) (a : UInt64) (hfields : consecutive 0 fields = true)
    (h : statBytes stat fields = .ok bytes) (hlen : bytes.length ≤ 2 ^ 64)
    (hmem : (Int64.ofNat n, field, size) ∈ fields) :
    ∃ value, statValue stat field = .ok value ∧
      ((uc.store a bytes).numberAt (a + UInt64.ofNat n) size : ℤ) =
        value.toInt % 2 ^ (8 * size) := by
  obtain ⟨before, value, after, rfl, hvalue, hoffset, hsize⟩ := statBytes_split hfields h hmem
  refine ⟨value, hvalue, ?_⟩
  have hn : UInt64.ofNat n = UInt64.ofNat before.length := by
    have hlong := congrArg Int64.toUInt64 hoffset
    rwa [Nat.zero_add] at hlong
  have hread := readBytes_overwrite_append (m := uc.mem) (a := a) hlen
  rw [length_long2bytes, ← hn] at hread
  have hnumber : (uc.store a (before ++ (long2bytes value size ++ after))).numberAt
      (a + UInt64.ofNat n) size = leNat (long2bytes value size) := congrArg leNat hread
  rw [hnumber, leNat_long2bytes_eq_emod value hsize]

theorem stat64Written_store {writeTimes : Bool} {ptr : UInt64} (uc : Unicorn)
    (h : statBytes stat (statFields writeTimes) = .ok bytes) :
    Stat64Written stat ptr writeTimes uc (uc.store ptr bytes) := by
  have hfields := consecutive_statFields writeTimes
  have hlen : bytes.length = 104 := (length_statBytes h).trans (sum_sizes_statFields writeTimes)
  refine ⟨⟨bytes, hlen, rfl⟩, ?_, ?_⟩
  · intro field hfield
    obtain ⟨value, hvalue, hnumber⟩ := numberAt_store uc ptr hfields h (by omega)
      (mem_statFields_of_named writeTimes field hfield)
    refine ⟨value, ?_, hnumber⟩
    cases hname : stat field.1 with
    | none => simp [statValue, hname] at hvalue
    | some value' => simpa [statValue, hname] using hvalue
  · intro range hrange
    obtain ⟨value, hvalue, hnumber⟩ := numberAt_store uc ptr hfields h (by omega)
      (mem_statFields_of_zero writeTimes range hrange)
    cases hvalue
    have hzero : (0 : Int64).toInt = 0 := rfl
    rw [hzero, Int.zero_emod] at hnumber
    exact_mod_cast hnumber

/-- The bytes of the record can be given exactly if it has the fields. -/
theorem statBytes_statFields_eq_ok_iff (writeTimes : Bool) :
    (∃ bytes, statBytes stat (statFields writeTimes) = .ok bytes) ↔
      ∀ field ∈ statNamed writeTimes, (stat field.1).isSome = true := by
  rw [statBytes_eq_ok_iff]
  constructor
  · intro h field hfield
    exact h _ (mem_statFields_of_named writeTimes field hfield) _ rfl
  · intro h field hfield name hname
    obtain ⟨named, hnamed, rfl⟩ :=
      List.mem_map.1 (mem_statNamed writeTimes field hfield name hname)
    exact h named hnamed

/-- The code returns exactly if the record has the fields and the area of the structure is mapped.
Then the structure is there, and nothing else has changed. -/
theorem writeStat2Memory_encodes (stat : String → Option Int64) (ptr : Int64) (writeTimes : Bool)
    (uc : Unicorn) :
    ((∃ uc', (writeStat2Memory stat ptr (statFields writeTimes)).run uc = .ok () uc') ↔
      (∀ field ∈ statNamed writeTimes, (stat field.1).isSome = true) ∧
        uc.checkMemArea ptr.toUInt64 104 = true) ∧
    ∀ uc', (writeStat2Memory stat ptr (statFields writeTimes)).run uc = .ok () uc' →
      Stat64Written stat ptr.toUInt64 writeTimes uc uc' := by
  have hsum := sum_sizes_statFields writeTimes
  have hptr : ptr.toUInt64 + UInt64.ofNat 0 = ptr.toUInt64 := UInt64.add_zero _
  have hok : ∀ uc', (writeStat2Memory stat ptr (statFields writeTimes)).run uc = .ok () uc' ↔
      ∃ bytes, statBytes stat (statFields writeTimes) = .ok bytes ∧
        uc.checkMemArea ptr.toUInt64 bytes.length = true ∧ uc' = uc.store ptr.toUInt64 bytes := by
    intro uc'
    rw [writeStat2Memory_eq_ok_iff (consecutive_statFields writeTimes) (by omega), hptr]
  have hlen : ∀ bytes, statBytes stat (statFields writeTimes) = .ok bytes → bytes.length = 104 :=
    fun _ h => (length_statBytes h).trans hsum
  rw [← statBytes_statFields_eq_ok_iff]
  refine ⟨⟨?_, ?_⟩, ?_⟩
  · rintro ⟨uc', hrun⟩
    obtain ⟨bytes, hbytes, hmapped, -⟩ := (hok uc').1 hrun
    rw [hlen bytes hbytes] at hmapped
    exact ⟨⟨bytes, hbytes⟩, hmapped⟩
  · rintro ⟨⟨bytes, hbytes⟩, hmapped⟩
    rw [← hlen bytes hbytes] at hmapped
    exact ⟨_, (hok _).2 ⟨bytes, hbytes, hmapped, rfl⟩⟩
  · intro uc' hrun
    obtain ⟨bytes, hbytes, -, rfl⟩ := (hok uc').1 hrun
    exact stat64Written_store uc hbytes

end Tank
