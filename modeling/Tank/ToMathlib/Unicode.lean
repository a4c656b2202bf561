import Mathlib.Data.List.Basic
import Mathlib.Tactic.IntervalCases

/-!
# UTF-16 and UTF-8

Text as a list of UTF-16 code units, in which surrogates need not be paired, and its bytes in UTF-8.
`encodeUTF8` writes a question mark for a surrogate without a partner. `decodeUTF8` reads any bytes;
for a sequence that encodes no character it reads the replacement character, and goes on after the
longest part that could have been the beginning of one.

* `length_flatMap_decodeUpTo_le`: bytes decode to at most as many units;
* `length_le_length_encodeUTF8`: text has at least as many bytes as units;
* `decode_take_encode_iff`: reading as many bytes as there are units gives the text back exactly if
  it is ASCII, or ASCII up to one replacement character at its end.
-/

namespace ToMathlib

/-! ## Code units -/

/-- The units of a character: one, or a pair of surrogates. -/
def utf16Units (c : Char) : List UInt16 :=
  if c.toNat < 0x10000 then [UInt16.ofNat c.toNat]
  else
    [UInt16.ofNat (0xD800 + (c.toNat - 0x10000) / 0x400),
      UInt16.ofNat (0xDC00 + (c.toNat - 0x10000) % 0x400)]

/-- The units of a string. -/
def utf16 (s : String) : List UInt16 := s.toList.flatMap utf16Units

def isHighSurrogate (u : UInt16) : Bool := 0xD800 ≤ u.toNat && u.toNat < 0xDC00

def isLowSurrogate (u : UInt16) : Bool := 0xDC00 ≤ u.toNat && u.toNat < 0xE000

/-- The character of a pair of surrogates. -/
def ofSurrogates (u v : UInt16) : Char :=
  Char.ofNat (0x10000 + (u.toNat - 0xD800) * 0x400 + (v.toNat - 0xDC00))

/-! ## Encoding -/

/-- The bytes of a unit that stands for itself. -/
def encodeUnit (u : UInt16) : List UInt8 :=
  if isHighSurrogate u || isLowSurrogate u then [0x3F]
  else String.utf8EncodeChar (Char.ofNat u.toNat)

/-- The bytes of a text. -/
def encodeUTF8 : List UInt16 → List UInt8
  | [] => []
  | [u] => encodeUnit u
  | u :: v :: us =>
    if isHighSurrogate u && isLowSurrogate v then
      String.utf8EncodeChar (ofSurrogates u v) ++ encodeUTF8 us
    else encodeUnit u ++ encodeUTF8 (v :: us)

/-! ## Decoding -/

/-- The replacement character, with the number of bytes that it stands for. -/
def replaced (length : ℕ) : Char × ℕ := (Char.ofNat 0xFFFD, length)

/-- A byte after the first one of a character. -/
def isContinuation (b : UInt8) : Bool := 0x80 ≤ b.toNat && b.toNat < 0xC0

/-- The bits of a byte after the first one. -/
def continuationBits (b : UInt8) : ℕ := b.toNat % 0x40

/-- A character of two bytes. -/
def decodeTwo (b₁ : UInt8) : List UInt8 → Char × ℕ
  | [] => replaced 1
  | b₂ :: _ =>
    if isContinuation b₂ then (Char.ofNat (b₁.toNat % 0x20 * 0x40 + continuationBits b₂), 2)
    else replaced 1

/-- A character of three bytes. The bytes of a surrogate are replaced together. -/
def decodeThree (b₁ : UInt8) : List UInt8 → Char × ℕ
  | [] => replaced 1
  | b₂ :: rest =>
    if !isContinuation b₂ || b₁.toNat == 0xE0 && b₂.toNat < 0xA0 then replaced 1
    else
      match rest with
      | [] => replaced 2
      | b₃ :: _ =>
        if isContinuation b₃ then
          let n := b₁.toNat % 0x10 * 0x1000 + continuationBits b₂ * 0x40 + continuationBits b₃
          if 0xD800 ≤ n ∧ n < 0xE000 then replaced 3 else (Char.ofNat n, 3)
        else replaced 2

/-- A character of four bytes. -/
def decodeFour (b₁ : UInt8) : List UInt8 → Char × ℕ
  | [] => replaced 1
  | b₂ :: rest =>
    if !isContinuation b₂ || b₁.toNat == 0xF0 && b₂.toNat < 0x90 ||
        b₁.toNat == 0xF4 && 0x90 ≤ b₂.toNat then
      replaced 1
    else
      match rest with
      | [] => replaced 2
      | b₃ :: rest =>
        if isContinuation b₃ then
          match rest with
          | [] => replaced 3
          | b₄ :: _ =>
            if isContinuation b₄ then
              (Char.ofNat (b₁.toNat % 0x08 * 0x40000 + continuationBits b₂ * 0x1000 +
                continuationBits b₃ * 0x40 + continuationBits b₄), 4)
            else replaced 3
        else replaced 2

/-- The first character, and the number of its bytes. -/
def decodeFirst (b₁ : UInt8) (rest : List UInt8) : Char × ℕ :=
  if b₁.toNat < 0x80 then (Char.ofNat b₁.toNat, 1)
  else if b₁.toNat < 0xC2 then replaced 1
  else if b₁.toNat < 0xE0 then decodeTwo b₁ rest
  else if b₁.toNat < 0xF0 then decodeThree b₁ rest
  else if b₁.toNat < 0xF5 then decodeFour b₁ rest
  else replaced 1

/-- The characters of bytes, at most `count` of them. -/
def decodeUpTo : ℕ → List UInt8 → List Char
  | 0, _ => []
  | _, [] => []
  | count + 1, b :: rest =>
    (decodeFirst b rest).1 :: decodeUpTo count ((b :: rest).drop (decodeFirst b rest).2)

/-- The text of bytes; each character takes at least one byte. -/
def decodeUTF8 (bytes : List UInt8) : String := String.ofList (decodeUpTo bytes.length bytes)

variable {b : UInt8} {u : UInt16} {us : List UInt16} {bytes rest : List UInt8} {c : Char}

example : decodeUTF8 [0x61, 0xC3, 0xA9, 0xEF, 0xBF] = "aé�" := by decide +kernel

/-! ## Lengths -/

theorem length_utf16Units_le (c : Char) : (utf16Units c).length ≤ 2 := by
  rw [utf16Units]
  split <;> simp

theorem toNat_ofNat_of_isValidChar {n : ℕ} (h : n.isValidChar) : (Char.ofNat n).toNat = n := by
  rw [Char.ofNat, dif_pos h]
  rfl

theorem toNat_ofNat_le (n : ℕ) : (Char.ofNat n).toNat ≤ n := by
  by_cases h : n.isValidChar
  · exact (toNat_ofNat_of_isValidChar h).le
  · rw [Char.ofNat, dif_neg h]
    exact Nat.zero_le n

theorem length_utf16Units_ofNat {n : ℕ} (h : n < 0x10000) :
    (utf16Units (Char.ofNat n)).length = 1 := by
  rw [utf16Units, if_pos ((toNat_ofNat_le n).trans_lt h)]
  rfl

/-- A character is read from the given number of bytes. If it is read from one byte it is one unit,
and one that is read from more bytes has fewer units. -/
structure ReadFrom (length : ℕ) (x : Char × ℕ) : Prop where
  le : x.2 ≤ length
  shrinks : x.2 = 1 ∧ (utf16Units x.1).length = 1 ∨ 2 ≤ x.2 ∧ (utf16Units x.1).length < x.2

theorem readFrom_replaced {n length : ℕ} (hpos : 0 < n) (hle : n ≤ length) :
    ReadFrom length (replaced n) := by
  have hone : (utf16Units (Char.ofNat 0xFFFD)).length = 1 := length_utf16Units_ofNat (by decide)
  refine ⟨hle, ?_⟩
  rcases Nat.lt_or_ge n 2 with hlt | hge
  · exact .inl ⟨by rw [replaced]; omega, hone⟩
  · exact .inr ⟨hge, by rw [replaced, hone]; omega⟩

theorem readFrom_of_three_le {n length : ℕ} (h : 3 ≤ n) (hle : n ≤ length) :
    ReadFrom length (c, n) := by
  have hunits := length_utf16Units_le c
  exact ⟨hle, .inr ⟨by dsimp only; omega, by dsimp only; omega⟩⟩

theorem readFrom_decodeTwo (b : UInt8) (rest : List UInt8) :
    ReadFrom (rest.length + 1) (decodeTwo b rest) := by
  unfold decodeTwo
  split
  · exact readFrom_replaced Nat.one_pos le_rfl
  · split
    · refine ⟨by simp, .inr ⟨le_rfl, ?_⟩⟩
      rw [length_utf16Units_ofNat (by rw [continuationBits]; omega)]
      exact Nat.one_lt_two
    · exact readFrom_replaced Nat.one_pos (by simp)

theorem readFrom_decodeThree (b : UInt8) (rest : List UInt8) :
    ReadFrom (rest.length + 1) (decodeThree b rest) := by
  unfold decodeThree
  split
  · exact readFrom_replaced Nat.one_pos le_rfl
  · split
    · exact readFrom_replaced Nat.one_pos (by simp)
    · split
      · exact readFrom_replaced Nat.two_pos (by simp)
      · split
        · dsimp only
          split
          · exact readFrom_replaced (by decide) (by simp)
          · exact readFrom_of_three_le le_rfl (by simp)
        · exact readFrom_replaced Nat.two_pos (by simp)

theorem readFrom_decodeFour (b : UInt8) (rest : List UInt8) :
    ReadFrom (rest.length + 1) (decodeFour b rest) := by
  unfold decodeFour
  split
  · exact readFrom_replaced Nat.one_pos le_rfl
  · split
    · exact readFrom_replaced Nat.one_pos (by simp)
    · split
      · exact readFrom_replaced Nat.two_pos (by simp)
      · split
        · split
          · exact readFrom_replaced (by decide) (by simp)
          · split
            · exact readFrom_of_three_le (by decide) (by simp)
            · exact readFrom_replaced (by decide) (by simp)
        · exact readFrom_replaced Nat.two_pos (by simp)

theorem readFrom_decodeFirst (b : UInt8) (rest : List UInt8) :
    ReadFrom (rest.length + 1) (decodeFirst b rest) := by
  have hone : 1 ≤ rest.length + 1 := Nat.le_add_left 1 _
  unfold decodeFirst
  split
  next hb => exact ⟨hone, .inl ⟨rfl, length_utf16Units_ofNat (by omega)⟩⟩
  next =>
    split
    · exact readFrom_replaced Nat.one_pos hone
    · split
      · exact readFrom_decodeTwo b rest
      · split
        · exact readFrom_decodeThree b rest
        · split
          · exact readFrom_decodeFour b rest
          · exact readFrom_replaced Nat.one_pos hone

theorem decodeUpTo_cons (count : ℕ) (b : UInt8) (rest : List UInt8) :
    decodeUpTo (count + 1) (b :: rest) =
      (decodeFirst b rest).1 :: decodeUpTo count ((b :: rest).drop (decodeFirst b rest).2) := rfl

/-- Bytes decode to at most as many units. -/
theorem length_flatMap_decodeUpTo_le (count : ℕ) (bytes : List UInt8) :
    ((decodeUpTo count bytes).flatMap utf16Units).length ≤ bytes.length := by
  induction count generalizing bytes with
  | zero => exact Nat.zero_le _
  | succ count ih =>
    cases bytes with
    | nil => exact le_rfl
    | cons b rest =>
      have hrest := ih ((b :: rest).drop (decodeFirst b rest).2)
      obtain ⟨hle, hshrinks⟩ := readFrom_decodeFirst b rest
      rw [decodeUpTo_cons, List.flatMap_cons, List.length_append]
      rw [List.length_drop, List.length_cons] at hrest
      rw [List.length_cons]
      omega

/-- If the first character takes more than one byte, there are fewer units than bytes. -/
theorem length_flatMap_decodeUpTo_lt (count : ℕ) (h : 2 ≤ (decodeFirst b rest).2) :
    ((decodeUpTo (count + 1) (b :: rest)).flatMap utf16Units).length < (b :: rest).length := by
  have hrest := length_flatMap_decodeUpTo_le count ((b :: rest).drop (decodeFirst b rest).2)
  obtain ⟨hle, hshrinks⟩ := readFrom_decodeFirst b rest
  rw [decodeUpTo_cons, List.flatMap_cons, List.length_append]
  rw [List.length_drop, List.length_cons] at hrest
  rw [List.length_cons]
  omega

theorem one_le_length_encodeUnit (u : UInt16) : 1 ≤ (encodeUnit u).length := by
  rw [encodeUnit]
  split
  · exact le_rfl
  · rw [String.length_utf8EncodeChar]
    exact Char.utf8Size_pos _

theorem isValidChar_surrogates {u v : UInt16} (hu : isHighSurrogate u = true)
    (hv : isLowSurrogate v = true) :
    (0x10000 + (u.toNat - 0xD800) * 0x400 + (v.toNat - 0xDC00)).isValidChar := by
  rw [isHighSurrogate, Bool.and_eq_true, decide_eq_true_eq, decide_eq_true_eq] at hu
  rw [isLowSurrogate, Bool.and_eq_true, decide_eq_true_eq, decide_eq_true_eq] at hv
  exact .inr ⟨by omega, by omega⟩

theorem le_toNat_ofSurrogates {u v : UInt16} (hu : isHighSurrogate u = true)
    (hv : isLowSurrogate v = true) : 0x10000 ≤ (ofSurrogates u v).toNat := by
  rw [ofSurrogates, toNat_ofNat_of_isValidChar (isValidChar_surrogates hu hv)]
  omega

/-! ## Characters that are not ASCII -/

/-- A byte that begins a character, in front of one that goes on with it. -/
structure Begins (b₁ b₂ : UInt8) : Prop where
  not_ascii : 0x80 ≤ b₁.toNat
  goes_on : ∀ rest, 2 ≤ (decodeFirst b₁ (b₂ :: rest)).2

theorem toNat_ofNat_byte {n : ℕ} (h : n < 256) : (UInt8.ofNat n).toNat = n :=
  UInt8.toNat_ofNat_of_lt' h

theorem isContinuation_ofNat (n : ℕ) : isContinuation (UInt8.ofNat (n % 0x40 + 0x80)) = true := by
  rw [isContinuation, toNat_ofNat_byte (by omega), Bool.and_eq_true, decide_eq_true_eq,
    decide_eq_true_eq]
  omega

theorem two_le_decodeThree {b₁ b₂ : UInt8} (hcont : isContinuation b₂ = true)
    (hfirst : b₁.toNat = 0xE0 → 0xA0 ≤ b₂.toNat) (rest : List UInt8) :
    2 ≤ (decodeThree b₁ (b₂ :: rest)).2 := by
  have hcheck : ¬(!isContinuation b₂ || b₁.toNat == 0xE0 && b₂.toNat < 0xA0) = true := by
    simpa [hcont] using hfirst
  unfold decodeThree
  dsimp only
  rw [if_neg hcheck]
  cases rest with
  | nil => exact le_rfl
  | cons b₃ rest =>
    dsimp only
    split
    · split
      · exact Nat.le_succ 2
      · exact Nat.le_succ 2
    · exact le_rfl

theorem two_le_decodeFour {b₁ b₂ : UInt8} (hcont : isContinuation b₂ = true)
    (hfirst : b₁.toNat = 0xF0 → 0x90 ≤ b₂.toNat) (hlast : b₁.toNat = 0xF4 → b₂.toNat < 0x90)
    (rest : List UInt8) : 2 ≤ (decodeFour b₁ (b₂ :: rest)).2 := by
  have hcheck : ¬(!isContinuation b₂ || b₁.toNat == 0xF0 && b₂.toNat < 0x90 ||
      b₁.toNat == 0xF4 && 0x90 ≤ b₂.toNat) = true := by
    simpa [hcont] using ⟨hfirst, hlast⟩
  unfold decodeFour
  dsimp only
  rw [if_neg hcheck]
  cases rest with
  | nil => exact le_rfl
  | cons b₃ rest =>
    dsimp only
    split
    · cases rest with
      | nil => exact Nat.le_succ 2
      | cons b₄ rest =>
        dsimp only
        split
        · exact Nat.le_add_left 2 2
        · exact Nat.le_succ 2
    · exact le_rfl

/-- The encoding of a character that is not ASCII has two bytes at least, and the first two are not
taken for anything shorter. -/
theorem exists_begins (h : 0x80 ≤ c.toNat) :
    ∃ b₁ b₂ tail, String.utf8EncodeChar c = b₁ :: b₂ :: tail ∧ Begins b₁ b₂ := by
  have hvalid : c.toNat < 0x110000 := by
    rcases c.valid with hlow | hhigh
    · exact hlow.trans (by decide)
    · exact hhigh.2
  change 0x80 ≤ c.val.toNat at h
  change c.val.toNat < 0x110000 at hvalid
  rw [String.utf8EncodeChar]
  generalize c.val.toNat = v at h hvalid ⊢
  have hcont := isContinuation_ofNat
  rw [if_neg (by omega)]
  by_cases htwo : v ≤ 0x7FF
  · rw [if_pos htwo]
    have hb : (UInt8.ofNat (v / 64 % 0x20 + 0xC0)).toNat = v / 64 % 0x20 + 0xC0 :=
      toNat_ofNat_byte (by omega)
    refine ⟨_, _, _, rfl, by rw [hb]; omega, fun rest => ?_⟩
    rw [decodeFirst, hb, if_neg (by omega), if_neg (by omega), if_pos (by omega), decodeTwo,
      if_pos (hcont v)]
  · rw [if_neg htwo]
    by_cases hthree : v ≤ 0xFFFF
    · rw [if_pos hthree]
      have hb : (UInt8.ofNat (v / 4096 % 0x10 + 0xE0)).toNat = v / 4096 % 0x10 + 0xE0 :=
        toNat_ofNat_byte (by omega)
      have hb' : (UInt8.ofNat (v / 64 % 0x40 + 0x80)).toNat = v / 64 % 0x40 + 0x80 :=
        toNat_ofNat_byte (by omega)
      refine ⟨_, _, _, rfl, by rw [hb]; omega, fun rest => ?_⟩
      rw [decodeFirst, hb, if_neg (by omega), if_neg (by omega), if_neg (by omega),
        if_pos (by omega)]
      exact two_le_decodeThree (hcont _) (by rw [hb, hb']; omega) rest
    · rw [if_neg hthree]
      have hb : (UInt8.ofNat (v / 262144 % 0x08 + 0xF0)).toNat = v / 262144 % 0x08 + 0xF0 :=
        toNat_ofNat_byte (by omega)
      have hb' : (UInt8.ofNat (v / 4096 % 0x40 + 0x80)).toNat = v / 4096 % 0x40 + 0x80 :=
        toNat_ofNat_byte (by omega)
      refine ⟨_, _, _, rfl, by rw [hb]; omega, fun rest => ?_⟩
      rw [decodeFirst, hb, if_neg (by omega), if_neg (by omega), if_neg (by omega),
        if_neg (by omega), if_pos (by omega)]
      exact two_le_decodeFour (hcont _) (by rw [hb, hb']; omega) (by rw [hb, hb']; omega) rest

/-- Text has at least as many bytes as units. -/
theorem length_le_length_encodeUTF8 (us : List UInt16) : us.length ≤ (encodeUTF8 us).length := by
  fun_induction encodeUTF8 us with
  | case1 => exact le_rfl
  | case2 u => exact one_le_length_encodeUnit u
  | case3 u v us hpair ih =>
    rw [Bool.and_eq_true] at hpair
    have hchar := le_toNat_ofSurrogates hpair.1 hpair.2
    obtain ⟨b₁, b₂, tail, hbytes, -⟩ := exists_begins (c := ofSurrogates u v) (by omega)
    rw [hbytes]
    simp only [List.cons_append, List.length_cons, List.length_append]
    omega
  | case4 u v us hpair ih =>
    have hunit := one_le_length_encodeUnit u
    rw [List.length_append, List.length_cons]
    omega

/-! ## As many bytes as units -/

/-- What the first unit of a text becomes, if it is not ASCII. -/
theorem encodeUTF8_cons_cases (h : 0x80 ≤ u.toNat) (us : List UInt16) :
    (∃ bytes, encodeUTF8 (u :: us) = 0x3F :: bytes) ∨
      ∃ b₁ b₂ bytes, encodeUTF8 (u :: us) = b₁ :: b₂ :: bytes ∧ Begins b₁ b₂ := by
  -- The unit alone
  have hunit : (encodeUnit u = [0x3F]) ∨
      ∃ b₁ b₂ tail, encodeUnit u = b₁ :: b₂ :: tail ∧ Begins b₁ b₂ := by
    rw [encodeUnit]
    split
    · exact .inl rfl
    next hsurrogate =>
      right
      apply exists_begins
      have hlt := u.toNat_lt
      rw [toNat_ofNat_of_isValidChar]
      · exact h
      · simp only [isHighSurrogate, isLowSurrogate, Bool.or_eq_true, Bool.and_eq_true,
          decide_eq_true_eq] at hsurrogate
        rcases Nat.lt_or_ge u.toNat 0xD800 with hlow | hhigh
        · exact .inl hlow
        · exact .inr ⟨by omega, by omega⟩
  have happend : ∀ rest, (∃ bytes, encodeUnit u ++ rest = 0x3F :: bytes) ∨
      ∃ b₁ b₂ bytes, encodeUnit u ++ rest = b₁ :: b₂ :: bytes ∧ Begins b₁ b₂ := by
    intro rest
    rcases hunit with hone | ⟨b₁, b₂, tail, hbytes, hbegins⟩
    · exact .inl ⟨rest, by rw [hone]; rfl⟩
    · exact .inr ⟨b₁, b₂, tail ++ rest, by rw [hbytes]; rfl, hbegins⟩
  cases us with
  | nil =>
    have hnil := happend []
    rwa [List.append_nil] at hnil
  | cons v us =>
    rw [encodeUTF8]
    split
    next hpair =>
      rw [Bool.and_eq_true] at hpair
      have hchar := le_toNat_ofSurrogates hpair.1 hpair.2
      obtain ⟨b₁, b₂, tail, hbytes, hbegins⟩ := exists_begins (c := ofSurrogates u v) (by omega)
      exact .inr ⟨b₁, b₂, tail ++ encodeUTF8 us, by rw [hbytes]; rfl, hbegins⟩
    next => exact happend (encodeUTF8 (v :: us))

theorem encodeUTF8_cons_of_ascii (h : u.toNat < 0x80) (us : List UInt16) :
    encodeUTF8 (u :: us) = UInt8.ofNat u.toNat :: encodeUTF8 us := by
  have hhigh : isHighSurrogate u = false := by
    simp only [isHighSurrogate, Bool.and_eq_false_iff, decide_eq_false_iff_not]
    omega
  have hlow : isLowSurrogate u = false := by
    simp only [isLowSurrogate, Bool.and_eq_false_iff, decide_eq_false_iff_not]
    omega
  have hvalid : u.toNat.isValidChar := .inl (by omega)
  have hunit : encodeUnit u = [UInt8.ofNat u.toNat] := by
    have hchar : (Char.ofNat u.toNat).val.toNat = u.toNat := toNat_ofNat_of_isValidChar hvalid
    rw [encodeUnit, hhigh, hlow, if_neg (by simp), String.utf8EncodeChar, hchar,
      if_pos (by omega)]
  cases us with
  | nil => exact hunit
  | cons v us =>
    rw [encodeUTF8, hhigh, if_neg (by simp), hunit]
    rfl

theorem decodeFirst_of_ascii (h : b.toNat < 0x80) (rest : List UInt8) :
    decodeFirst b rest = (Char.ofNat b.toNat, 1) := by
  rw [decodeFirst, if_pos h]

theorem utf16_decodeUTF8 (bytes : List UInt8) :
    utf16 (decodeUTF8 bytes) = (decodeUpTo bytes.length bytes).flatMap utf16Units := by
  rw [utf16, decodeUTF8, String.toList_ofList]

/-- An ASCII byte is read as the unit with its number. -/
theorem utf16_decodeUTF8_cons_of_ascii (h : b.toNat < 0x80) (rest : List UInt8) :
    utf16 (decodeUTF8 (b :: rest)) = UInt16.ofNat b.toNat :: utf16 (decodeUTF8 rest) := by
  have hchar : (Char.ofNat b.toNat).toNat = b.toNat :=
    toNat_ofNat_of_isValidChar (.inl (by omega))
  rw [utf16_decodeUTF8, utf16_decodeUTF8, List.length_cons, decodeUpTo_cons,
    decodeFirst_of_ascii h, List.flatMap_cons, utf16Units, if_pos (by rw [hchar]; omega), hchar]
  rfl

/-- A text that begins with a unit that is not ASCII is read back only if the unit is a replacement
character, and the only one. -/
theorem decode_take_encode_of_not_ascii (h : 0x80 ≤ u.toNat)
    (hback : utf16 (decodeUTF8 ((encodeUTF8 (u :: us)).take (us.length + 1))) = u :: us) :
    u = 0xFFFD ∧ us = [] := by
  rcases encodeUTF8_cons_cases h us with ⟨bytes, hbytes⟩ | ⟨b₁, b₂, bytes, hbytes, hbegins⟩
  · -- A question mark is not what was there.
    rw [hbytes, List.take_succ_cons, utf16_decodeUTF8_cons_of_ascii (by decide)] at hback
    rw [← (List.cons.inj hback).1] at h
    exact absurd h (by decide)
  · rw [hbytes, List.take_succ_cons] at hback
    cases us with
    | nil =>
      refine ⟨?_, rfl⟩
      have hfirst : decodeFirst b₁ [] = replaced 1 := by
        have hge := hbegins.not_ascii
        rw [decodeFirst, if_neg (by omega)]
        split
        · rfl
        · split
          · rfl
          · split
            · rfl
            · split <;> rfl
      rw [utf16_decodeUTF8, List.length_nil, List.take_zero, List.length_singleton,
        decodeUpTo_cons, hfirst] at hback
      exact (List.cons.inj hback).1.symm
    | cons v us =>
      -- The first character takes two bytes at least, so the units do not suffice.
      have hlen := congrArg List.length hback
      have henough := length_le_length_encodeUTF8 (u :: v :: us)
      rw [hbytes] at henough
      simp only [List.length_cons] at henough
      rw [List.length_cons, List.take_succ_cons, utf16_decodeUTF8, List.length_cons] at hlen
      have hlt := length_flatMap_decodeUpTo_lt (b₂ :: bytes.take us.length).length
        (hbegins.goes_on (bytes.take us.length))
      simp only [List.length_cons, List.length_take] at hlen hlt
      omega

/-- Text is read back from as many of its bytes as it has units exactly if it is ASCII, or ASCII
with one replacement character at the end. -/
theorem decode_take_encode_iff (us : List UInt16) :
    utf16 (decodeUTF8 ((encodeUTF8 us).take us.length)) = us ↔
      (∀ u ∈ us, u.toNat < 0x80) ∨
        ∃ ascii, us = ascii ++ [0xFFFD] ∧ ∀ u ∈ ascii, u.toNat < 0x80 := by
  induction us with
  | nil => exact iff_of_true rfl (.inl (by simp))
  | cons u us ih =>
    by_cases hu : u.toNat < 0x80
    · have hbyte : (UInt8.ofNat u.toNat).toNat = u.toNat := toNat_ofNat_byte (by omega)
      rw [encodeUTF8_cons_of_ascii hu, List.length_cons, List.take_succ_cons,
        utf16_decodeUTF8_cons_of_ascii (by rw [hbyte]; exact hu), hbyte, UInt16.ofNat_toNat,
        List.cons.injEq, and_iff_right rfl, ih, List.forall_mem_cons, and_iff_right hu]
      refine or_congr_right ?_
      constructor
      · rintro ⟨ascii, rfl, hascii⟩
        exact ⟨u :: ascii, rfl, List.forall_mem_cons.2 ⟨hu, hascii⟩⟩
      · rintro ⟨ascii, heq, hascii⟩
        cases ascii with
        | nil =>
          obtain ⟨rfl, -⟩ := List.cons.inj heq
          exact absurd hu (by decide)
        | cons u' ascii =>
          obtain ⟨rfl, rfl⟩ := List.cons.inj heq
          exact ⟨ascii, rfl, (List.forall_mem_cons.1 hascii).2⟩
    · rw [List.length_cons]
      constructor
      · intro hback
        obtain ⟨rfl, rfl⟩ := decode_take_encode_of_not_ascii (not_lt.1 hu) hback
        exact .inr ⟨[], rfl, by simp⟩
      · rintro (hascii | ⟨ascii, heq, hascii⟩)
        · exact absurd (hascii u List.mem_cons_self) hu
        · cases ascii with
          | nil =>
            obtain ⟨rfl, rfl⟩ := List.cons.inj heq
            decide +kernel
          | cons u' ascii =>
            obtain ⟨rfl, -⟩ := List.cons.inj heq
            exact absurd (hascii u List.mem_cons_self) hu

end ToMathlib
