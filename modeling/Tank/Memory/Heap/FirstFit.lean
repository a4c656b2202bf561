import Tank.Memory.Heap.Invariant

/-!
# First fit

`allocate` takes the first free block of the list that is large enough. The list is in address
order, so this is the lowest one; if there is none, the bytes are appended at `pos`.

* `FirstFit` says what that means for the blocks and for every byte;
* `first_fit_run_iff`: in every state that is reached without an overflow of a `long`, a request is
  served so exactly if it does not move `pos` beyond the largest `long`.
-/

namespace Tank

open ToMathlib

namespace HeapAllocator

/-- A free block with at least `n` bytes. -/
def Fitting (h : HeapAllocator) (n : Int64) (b : Block) : Prop :=
  b ∈ h.blocks ∧ b.free = true ∧ n.toInt ≤ b.size

/-- The bytes from `p` on that a request for `n` bytes takes. -/
def takes (p n : Int64) : Block := ⟨p.toInt, n.toInt, false⟩

/-- A request for `n` bytes is served by the lowest block that fits, or at `pos`. The bytes at the
returned address become used, and nothing else changes. -/
structure FirstFit (h : HeapAllocator) (n p : Int64) : Prop where
  returns : (h.allocate n).2 = .ok p
  lowest : (∃ b, h.Fitting n b) → (∃ b, h.Fitting n b ∧ b.address = p.toInt) ∧
    (∀ b, h.Fitting n b → p.toInt ≤ b.address) ∧ (h.allocate n).1.pos = h.pos
  appended : (¬∃ b, h.Fitting n b) →
    p = h.pos ∧ (h.allocate n).1.pos.toInt = h.pos.toInt + n.toInt
  unused : ∀ x, (takes p n).Contains x → ¬UsedAt h.blocks x
  usedAt : ∀ x, UsedAt (h.allocate n).1.blocks x ↔ UsedAt h.blocks x ∨ (takes p n).Contains x
  freeAt : ∀ x, FreeAt (h.allocate n).1.blocks x ↔ FreeAt h.blocks x ∧ ¬(takes p n).Contains x
  usedBlocks : (used (h.allocate n).1.blocks).Perm (takes p n :: used h.blocks)

variable {lo hi : Int64} {h : HeapAllocator} {bs : List Block} {e : ℤ} {n p : Int64} {b : Block}

/-- The blocks do not overflow a `long`, and neither does the end. -/
def NoOverflow (bs : List Block) (e : ℤ) : Prop :=
  e < 2 ^ 63 ∧ ∀ b ∈ bs, b.address < 2 ^ 63 ∧ b.size < 2 ^ 63

theorem noOverflow_of_le_lastPos (himp : Implements lo hi h bs e) (he : e ≤ lastPos lo) :
    NoOverflow bs e := by
  obtain ⟨hend, hsize⟩ := lt_of_le_lastPos he
  refine ⟨hend, fun b hb => ?_⟩
  have hbounds := himp.tiles.bounds hb
  omega

/-! ## Where a request is served

This holds in every state, also after an overflow. -/

/-- The address that `allocate` returns. -/
def place (h : HeapAllocator) (n : Int64) : Int64 :=
  if n < 0 then 0 else Int64.ofInt (takenAt (fits n) h.pos.toInt h.blocks)

theorem fits_inLongs (n : Int64) (b : Block) : fits n (inLongs b) = fits n b := by
  rw [fits, inLongs, Int64.ofInt_toInt, fits]

theorem Implements.place_eq (himp : Implements lo hi h bs e) (hn : 0 ≤ n) :
    h.place n = Int64.ofInt (takenAt (fits n) e bs) := by
  rw [place, if_neg (Int64.not_lt.2 hn), himp.blocks_eq_map, himp.pos, takenAt, takenAt,
    List.find?_map]
  have hfits : fits n ∘ inLongs = fits n := funext fun b => fits_inLongs n b
  rw [hfits]
  cases bs.find? (fits n) with
  | none => exact Int64.ofInt_toInt _
  | some b => exact Int64.ofInt_toInt _

theorem Implements.allocate_place (himp : Implements lo hi h bs e) (n : Int64) :
    (h.allocate n).2 = .ok (h.place n) := by
  by_cases hn : n < 0
  · rw [allocate_of_neg hn, place, if_pos hn]
  · have hn' := Int64.not_lt.1 hn
    rw [himp.place_eq hn']
    exact (himp.allocate hn').1

/-- A request adds a block to the used ones. -/
theorem Implements.used_allocate (himp : Implements lo hi h bs e) (hn : 0 ≤ n) :
    (used (h.allocate n).1.blocks).Perm (takes (h.place n) n :: used h.blocks) := by
  have hused : ∀ cs : List Block, used (cs.map inLongs) = (used cs).map inLongs := fun cs =>
    List.filter_map
  have htaken : inLongs ⟨takenAt (fits n) e bs, n.toInt, false⟩ = takes (h.place n) n := by
    rw [inLongs, himp.place_eq hn, Int64.ofInt_toInt, takes]
  have hperm := (used_takeFirst_fits n e bs).map inLongs
  rw [(himp.allocate hn).2.blocks_eq_map, himp.blocks_eq_map, hused, hused, ← htaken]
  exact hperm

/-! ## What is served -/

/-- The code's test for a block that fits. -/
theorem fits_iff (hsize : 0 ≤ b.size) (hlt : b.size < 2 ^ 63) :
    fits n b = true ↔ b.free = true ∧ n.toInt ≤ b.size := by
  rw [fits, Bool.and_eq_true, decide_eq_true_eq, Int64.le_iff_toInt_le,
    Int64.toInt_ofInt_of_le (by omega) hlt]

theorem Implements.fitting_iff (himp : Implements lo hi h bs e) (hbs : NoOverflow bs e) :
    h.Fitting n b ↔ b ∈ bs ∧ fits n b = true := by
  rw [Fitting, himp.blocks_eq_of_lt hbs.2]
  refine and_congr_right fun hb => ?_
  exact (fits_iff (himp.tiles.bounds hb).2.1 (hbs.2 b hb).2).symm

theorem Implements.exists_fitting_iff (himp : Implements lo hi h bs e) (hbs : NoOverflow bs e) :
    (∃ b, h.Fitting n b) ↔ h.hasFit n = true := by
  simp only [himp.fitting_iff hbs, himp.hasFit_eq, List.any_eq_true]

/-- Nothing overflows either after a request that moves `pos` no further than the largest `long`. -/
theorem Implements.noOverflow_allocate (himp : Implements lo hi h bs e) (hbs : NoOverflow bs e)
    (hn : 0 ≤ n) (hend : (if h.hasFit n then e else e + n.toInt) < 2 ^ 63) :
    NoOverflow (takeFirst (fits n) n.toInt e bs) (if h.hasFit n then e else e + n.toInt) := by
  have hn' := toInt_nonneg hn
  have hnlt := Int64.toInt_lt n
  have htiles := (himp.allocate hn).2.tiles
  refine ⟨hend, fun b hb => ?_⟩
  have hbounds := htiles.bounds hb
  refine ⟨by omega, ?_⟩
  -- A block after the request is an old one, the new one or what is left of an old one.
  rcases forall_not_or_first (fits n) bs with hnot | ⟨pre, c, post, rfl, hc, hpre⟩
  · rw [takeFirst_of_forall_not hnot] at hb
    rcases List.mem_append.1 hb with hb | hb
    · exact (hbs.2 b hb).2
    · rw [List.mem_singleton.1 hb]
      exact hnlt
  · rw [takeFirst_of_first hpre hc] at hb
    have hold : ∀ b ∈ pre ++ c :: post, b.size < 2 ^ 63 := fun b hb => (hbs.2 b hb).2
    have hcsize := hold c (by simp)
    rcases List.mem_append.1 hb with hb | hb
    · exact hold b (by simp [hb])
    · rcases List.mem_cons.1 hb with rfl | hb
      · exact hnlt
      · rcases List.mem_cons.1 hb with rfl | hb
        · dsimp only
          omega
        · exact hold b (by simp [hb])

/-- A request that does not overflow is served first fit. -/
theorem Implements.firstFit (himp : Implements lo hi h bs e) (hbs : NoOverflow bs e) (hn : 0 ≤ n)
    (hend : (if h.hasFit n then e else e + n.toInt) < 2 ^ 63) : ∃ p, FirstFit h n p := by
  obtain ⟨hreturns, himp'⟩ := himp.allocate hn
  have hblocks := himp.blocks_eq_of_lt hbs.2
  have hblocks' := himp'.blocks_eq_of_lt (himp.noOverflow_allocate hbs hn hend).2
  have htaken := himp.takenAt_toInt hn hend
  have hn' := toInt_nonneg hn
  have hfree : ∀ b ∈ bs, fits n b = true → b.free = true := fun b _ => free_of_fits
  have hsize : ∀ b ∈ bs, fits n b = true → n.toInt ≤ b.size := fun b hb =>
    le_size_of_fits (himp.tiles.bounds hb).2.1
  have htakes : takes (Int64.ofInt (takenAt (fits n) e bs)) n =
      ⟨takenAt (fits n) e bs, n.toInt, false⟩ := by
    rw [takes, htaken]
  refine ⟨Int64.ofInt (takenAt (fits n) e bs), hreturns, fun hfit => ?_, fun hfit => ?_, ?_, ?_, ?_,
    ?_⟩
  · rw [htaken]
    simp only [himp.fitting_iff hbs] at hfit ⊢
    obtain ⟨b, hb, hbfits, haddress⟩ := exists_takenAt (e := e) hfit
    refine ⟨⟨b, ⟨hb, hbfits⟩, haddress.symm⟩, fun c hc => himp.tiles.takenAt_le hc.1 hc.2, ?_⟩
    rw [himp'.pos, himp.pos, if_pos]
    rw [himp.hasFit_eq, List.any_eq_true]
    exact hfit
  · rw [himp.exists_fitting_iff hbs] at hfit
    rw [if_neg hfit] at himp' hend
    have hnot : ∀ b ∈ bs, fits n b = false := by
      rw [himp.hasFit_eq] at hfit
      simpa using hfit
    rw [takenAt_of_forall_not hnot, ← himp.pos, himp'.pos_toInt hend, himp.pos_toInt hbs.1]
    exact ⟨rfl, rfl⟩
  · rw [htakes, hblocks]
    exact fun x => himp.tiles.not_usedAt_of_taken hn' hfree hsize
  · rw [htakes, hblocks, hblocks']
    exact fun x => usedAt_takeFirst hfree
  · rw [htakes, hblocks, hblocks']
    exact fun x => himp.tiles.freeAt_takeFirst hn' hfree hsize
  · have hused := himp.used_allocate hn
    rwa [himp.place_eq hn] at hused

/-- In every state that is reached without an overflow of a `long`, a request is served first fit
exactly if a free block meets it or `pos` stays a `long`. -/
theorem first_fit_run_iff (lo hi : Int64) (calls : List Call)
    (hroom : AllCalls (RoomUpTo (lastPos lo)) (init lo hi) calls) (n : Int64) (hn : 0 ≤ n) :
    (∃ p, FirstFit ((init lo hi).run calls) n p) ↔
      RoomFor (2 ^ 63 - 1) ((init lo hi).run calls) n := by
  obtain ⟨bs, himp, hle⟩ := exists_implements_run (le_lastPos lo) (lt_of_le_lastPos le_rfl).1 hroom
  have hbs := noOverflow_of_le_lastPos himp hle
  constructor
  · rintro ⟨p, hfirst⟩
    by_cases hfit : ((init lo hi).run calls).hasFit n = true
    · exact .inl hfit
    · -- The new `pos` is a `long`.
      have hpos := (hfirst.appended (by rwa [himp.exists_fitting_iff hbs])).2
      have hlt := Int64.toInt_lt (((init lo hi).run calls).allocate n).1.pos
      exact .inr (by omega)
  · intro hroom
    refine himp.firstFit hbs hn ?_
    have hend : (if ((init lo hi).run calls).hasFit n then _ else _) ≤ (2 : ℤ) ^ 63 - 1 :=
      himp.end_le (by have := hbs.1; omega) (by norm_num) hroom
    omega

/-- A free block of exactly the size that is asked for, behind one that is too small. -/
theorem first_fit_exact :
    0 ≤ (8 : Int64) ∧ ∃ p, FirstFit ((init 0xD0000000 0xD0200000).run
      [.allocate 4, .allocate 8, .allocate 8, .allocate 4, .free 0xD0000000, .free 0xD000000C]) 8
      p :=
  ⟨by decide, (first_fit_run_iff 0xD0000000 0xD0200000 _ (by decide +kernel) 8 (by decide)).2
    (by decide +kernel)⟩

/-- `allocate` does not look whether there is room: a request for `2 ^ 63 - 1` bytes is granted, and
`pos` becomes negative. -/
theorem not_first_fit_overflow :
    ¬∃ p, FirstFit (init 0xD0000000 0xD0200000) 0x7FFFFFFFFFFFFFFF p := by
  rintro ⟨p, hfirst⟩
  have hnone : ¬∃ b, (init 0xD0000000 0xD0200000).Fitting 0x7FFFFFFFFFFFFFFF b := by
    rintro ⟨b, hb, -⟩
    cases hb
  have hpos := (hfirst.appended hnone).2
  have hcode : ((init 0xD0000000 0xD0200000).allocate 0x7FFFFFFFFFFFFFFF).1.pos.toInt =
      -0x7FFFFFFF30000001 := by
    decide +kernel
  rw [hcode] at hpos
  exact absurd hpos (by decide +kernel)

end HeapAllocator

end Tank
