import Tank.Unicorn
import Tank.Utils.DigitUtils

/-!
# Words of guest memory

The little-endian word at an address (`Unicorn.wordAt`), what writing one changes, and when two
words share no byte (`WordsApart`). The loader writes words with `longToBytesLittle`, the hooks with
`long2bytes`; both write the low half of a `long`.
-/

namespace Tank

open ToMathlib

/-- The little-endian word at an address, if all of it is mapped. -/
def Unicorn.wordAt (uc : Unicorn) (a : UInt64) : Option UInt32 :=
  if uc.checkMemArea a 4 then some (leWord (readBytes uc.mem a 4)) else none

/-- The words at the two addresses share no byte. -/
def WordsApart (a b : UInt64) : Prop := 4 ≤ (b - a).toNat ∧ 4 ≤ (a - b).toNat

instance (a b : UInt64) : Decidable (WordsApart a b) := inferInstanceAs (Decidable (_ ∧ _))

variable {uc uc' : Unicorn} {a b x : UInt64}

theorem WordsApart.not_within (h : WordsApart a b) (hx : Within b 4 x) : ¬Within a 4 x := by
  obtain ⟨hab, hba⟩ := h
  have ha := a.toNat_lt
  have hb := b.toNat_lt
  have hx' := x.toNat_lt
  rw [Within, UInt64.toNat_sub] at hx ⊢
  rw [UInt64.toNat_sub] at hab hba
  omega

theorem WordsApart.symm (h : WordsApart a b) : WordsApart b a := ⟨h.2, h.1⟩

theorem Unicorn.wordAt_of_checkMemArea (h : uc.checkMemArea a 4 = true) :
    uc.wordAt a = some (leWord (readBytes uc.mem a 4)) :=
  if_pos h

theorem Unicorn.checkMemArea_of_wordAt {old : UInt32} (h : uc.wordAt a = some old) :
    uc.checkMemArea a 4 = true ∧ leWord (readBytes uc.mem a 4) = old := by
  rw [Unicorn.wordAt] at h
  split at h
  next hmapped => exact ⟨hmapped, Option.some.inj h⟩
  next => cases h

/-- A word is made of the bytes that the guest sees. -/
theorem Unicorn.wordAt_of_guestByte {bytes : List UInt8} (hlen : bytes.length = 4)
    (h : ∀ k < 4, uc.guestByte (a + UInt64.ofNat k) = bytes[k]?) :
    uc.wordAt a = some (leWord bytes) := by
  have hbyte : ∀ k (hk : k < 4), uc.mapped (a + UInt64.ofNat k) = true ∧
      uc.mem (a + UInt64.ofNat k) = bytes[k] := by
    intro k hk
    have hk' := h k hk
    rw [List.getElem?_eq_getElem (by omega), Unicorn.guestByte] at hk'
    split at hk'
    next hmapped => exact ⟨hmapped, Option.some.inj hk'⟩
    next => cases hk'
  have harea : uc.checkMemArea a 4 = true :=
    List.all_eq_true.2 fun k hk => (hbyte k (List.mem_range.1 hk)).1
  have hread : readBytes uc.mem a 4 = bytes := by
    refine List.ext_getElem (length_readBytes.trans hlen.symm) fun k hk hk' => ?_
    rw [getElem_readBytes, (hbyte k (by omega)).2]
  rw [Unicorn.wordAt_of_checkMemArea harea, hread]

/-- A word depends on its own bytes only. -/
theorem Unicorn.wordAt_congr (hregions : uc'.regions = uc.regions)
    (hmem : ∀ x, Within a 4 x → uc'.mem x = uc.mem x) : uc'.wordAt a = uc.wordAt a := by
  rw [Unicorn.wordAt, Unicorn.wordAt, Unicorn.checkMemArea_congr hregions,
    readBytes_congr hmem (by decide)]

/-- A word that was stored is in memory. -/
theorem Unicorn.wordAt_of_overwrite {m : UInt64 → UInt8} {value : Int64}
    (hmapped : uc.checkMemArea a 4 = true)
    (hmem : uc.mem = overwrite m a (cut (longToBytesLittle value) 4)) :
    uc.wordAt a = some (low32 value) := by
  have hlen : (cut (longToBytesLittle value) 4).length ≤ 2 ^ 64 := show 4 ≤ 2 ^ 64 by decide
  have hread : readBytes uc.mem a 4 = cut (longToBytesLittle value) 4 := by
    rw [hmem]
    exact readBytes_overwrite hlen
  rw [Unicorn.wordAt_of_checkMemArea hmapped, hread, leWord_cut_longToBytesLittle]

/-- A word is read back as it was written. -/
theorem Unicorn.wordAt_store (h : uc.checkMemArea a 4 = true) (value : Int64) :
    (uc.store a (cut (longToBytesLittle value) 4)).wordAt a = some (low32 value) :=
  -- Stores do not change what is mapped.
  Unicorn.wordAt_of_overwrite h rfl

end Tank
