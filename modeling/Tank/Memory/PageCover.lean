import Mathlib.Order.Bounds.Basic
import Tank.Memory.MemoryManager

/-!
# The pages of a range

The least range of whole pages around a range of bytes starts at the last page boundary before it
and ends at the first one after it (`IsPageCover`). `MemUtils.align` is meant to compute it. It
counts one page more than the page of the end, so a range that ends with a page gets the next page
as well. Its results are such ranges: aligning one again always adds a page.

* `page_cover_never`: `align` is not idempotent, and computes the least range exactly if the end is
  not a page boundary.
-/

namespace Tank

open ToMathlib

/-- The least range of whole pages that contains `[addr, addr + size)`. -/
structure IsPageCover (addr size : ℤ) (c : MemChunk) : Prop where
  start : IsGreatest {x : ℤ | 0x1000 ∣ x ∧ x ≤ addr} c.addr.toInt
  stop : IsLeast {x : ℤ | 0x1000 ∣ x ∧ addr + size ≤ x} (c.addr.toInt + c.size.toInt)

/-- Aligning a range gives its pages, and aligning those changes nothing. -/
structure ComputesPageCover (addr size : Int64) : Prop where
  cover : IsPageCover addr.toInt size.toInt (align addr size true)
  idempotent : align (align addr size true).addr (align addr size true).size true =
    align addr size true

/-- The first page boundary from `x` on. -/
def pageUp (x : ℤ) : ℤ := (x + 0xFFF) / 0x1000 * 0x1000

/-! ## Page boundaries -/

section Boundaries

variable (x : ℤ)

theorem isGreatest_pageDown : IsGreatest {y : ℤ | 0x1000 ∣ y ∧ y ≤ x} (x / 0x1000 * 0x1000) := by
  constructor
  · exact ⟨Int.dvd_mul_left _ _, by omega⟩
  · rintro y ⟨hdvd, hle⟩
    omega

theorem isLeast_pageUp : IsLeast {y : ℤ | 0x1000 ∣ y ∧ x ≤ y} (pageUp x) := by
  rw [pageUp]
  constructor
  · exact ⟨Int.dvd_mul_left _ _, by omega⟩
  · rintro y ⟨hdvd, hle⟩
    omega

theorem pageEnd_of_dvd (hdvd : 0x1000 ∣ x) : pageEnd x = pageUp x + 0x1000 := by
  rw [pageEnd, pageUp]
  omega

theorem pageEnd_of_not_dvd (hdvd : ¬0x1000 ∣ x) : pageEnd x = pageUp x := by
  rw [pageEnd, pageUp]
  omega

end Boundaries

/-! ## Whole pages -/

/-- Division loses nothing of a page boundary, whatever its sign. -/
theorem div_mul_ucMemAlign {x : Int64} (hdvd : 0x1000 ∣ x.toInt) :
    x / ucMemAlign * ucMemAlign = x := by
  have hpage : ucMemAlign.toInt = 0x1000 := rfl
  apply Int64.toInt_inj.1
  rw [Int64.toInt_mul, Int64.toInt_div_of_ne_right _ _ (by decide), hpage, Int.tdiv_mul_cancel hdvd]
  exact Int64.toInt_bmod_size x

/-- Whole pages get one page more. -/
theorem align_of_isPaged {c : MemChunk} (hpaged : c.IsPaged) :
    align c.addr c.size true = ⟨c.addr, c.size + 0x1000⟩ := by
  obtain ⟨haddr, hsize⟩ := hpaged
  have hsum : 0x1000 ∣ (c.addr + c.size).toInt := by
    rw [Int64.toInt_add, Int.bmod_def]
    split <;> omega
  have hlast : ((c.addr + c.size) / ucMemAlign + 1) * ucMemAlign = c.addr + c.size + 0x1000 := by
    rw [Int64.add_mul, div_mul_ucMemAlign hsum, Int64.one_mul]
    rfl
  have hdiff : c.addr + c.size + 0x1000 - c.addr = c.size + 0x1000 := by
    rw [Int64.add_assoc, Int64.add_comm, Int64.add_sub_cancel]
  simp only [align, if_true, div_mul_ucMemAlign haddr, hlast, hdiff]

theorem align_ne_of_isPaged {c : MemChunk} (hpaged : c.IsPaged) : align c.addr c.size true ≠ c := by
  intro heq
  have hsize : c.size + 0x1000 = c.size := by
    rw [align_of_isPaged hpaged] at heq
    exact (MemChunk.mk.inj heq).2
  have hzero : (0x1000 : Int64) = 0 := Int64.add_eq_left.1 hsize
  exact absurd hzero (by decide)

/-! ## `align` -/

section Align

variable {addr size : Int64} (haddr : 0 ≤ addr.toInt) (hsize : 0 < size.toInt)
  (hlast : addr.toInt + size.toInt < 2 ^ 63)
  (hcover : pageUp (addr.toInt + size.toInt) - addr.toInt / 0x1000 * 0x1000 < 2 ^ 63)

include haddr hsize hlast hcover

/-- The size is the one of the least range unless the end is a page boundary. The page that is then
too many may make the size overflow, but never gives it back. -/
theorem isPageCover_align_iff :
    IsPageCover addr.toInt size.toInt (align addr size true) ↔
      ¬0x1000 ∣ addr.toInt + size.toInt := by
  have hstart := align_addr haddr size
  have hdiff := align_size haddr hsize.le hlast
  have hup := isLeast_pageUp (addr.toInt + size.toInt)
  have hge : addr.toInt + size.toInt ≤ pageUp (addr.toInt + size.toInt) := hup.1.2
  constructor
  · intro hleast hdvd
    have hstop := hleast.stop.unique hup
    rw [pageEnd_of_dvd _ hdvd, Int.bmod_def] at hdiff
    split at hdiff <;> omega
  · intro hdvd
    rw [pageEnd_of_not_dvd _ hdvd, bmod_eq_self (by omega) hcover] at hdiff
    refine ⟨?_, ?_⟩
    · rw [hstart]
      exact isGreatest_pageDown addr.toInt
    · rw [hstart, hdiff, add_sub_cancel]
      exact hup

/-- No range is aligned as it should be: aligning the result again adds a page. The result itself
is the least range of pages exactly if the end of the range is not a page boundary. -/
theorem page_cover_never :
    ¬ComputesPageCover addr size ∧
      (IsPageCover addr.toInt size.toInt (align addr size true) ↔
        ¬0x1000 ∣ addr.toInt + size.toInt) ∧
      align (align addr size true).addr (align addr size true).size true ≠
        align addr size true := by
  have hagain := align_ne_of_isPaged (align_isPaged haddr hsize.le hlast)
  exact ⟨fun h => hagain h.idempotent, isPageCover_align_iff haddr hsize hlast hcover, hagain⟩

end Align

theorem page_cover_never_ten_bytes :
    ¬ComputesPageCover 0x1FF0 10 ∧
      IsPageCover (0x1FF0 : Int64).toInt (10 : Int64).toInt (align 0x1FF0 10 true) := by
  have hnever := page_cover_never (show 0 ≤ (0x1FF0 : Int64).toInt by decide)
    (show 0 < (10 : Int64).toInt by decide) (by decide) (by decide)
  exact ⟨hnever.1, hnever.2.1.2 (by decide)⟩

/-- One whole page becomes two. -/
theorem align_one_page :
    align 0 0x1000 true = ⟨0, 0x2000⟩ ∧
      ¬IsPageCover (0 : Int64).toInt (0x1000 : Int64).toInt (align 0 0x1000 true) ∧
      align 0 1 true = ⟨0, 0x1000⟩ ∧ ¬ComputesPageCover 0 1 := by
  refine ⟨by decide, ?_, by decide, ?_⟩
  · intro hcover
    have hle := hcover.stop.2 (show (0x1000 : ℤ) ∈ _ from ⟨dvd_rfl, by decide⟩)
    exact absurd hle (by decide)
  · intro hcover
    exact absurd hcover.idempotent (by decide)

end Tank
