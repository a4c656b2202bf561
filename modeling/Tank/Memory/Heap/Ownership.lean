import Tank.Memory.Heap.Invariant

/-!
# Owners of heap memory

The heap as its clients see it: each returned address is live until it is given up, and `free`
is called to give up a live allocation or with an address that no live allocation has.

* `OwnedRun lim ok lo hi h live`: such a use of the allocator over `[lo, hi)` reaches `h` with
  the allocations `live`.
* `Owns`: the invariant. Zero-size blocks share their address with the block after them, so
  `free` may hit another block than the one its caller means; what survives is that there are at
  least as many used blocks at an address as live allocations (`Owns.release`).
* `live_disjoint`: live allocations never overlap and lie in `[begin_, pos)`.
* `givesBack_iff`: `free` gives exactly the bytes of a live allocation back if and only if no
  zero-size block stands at its address; `not_givesBack` is a run that leaks one.
-/

namespace Tank

open ToMathlib

/-- An address that `allocate` returned, with the size that was asked for. -/
structure Allocation where
  address : Int64
  size : Int64
deriving DecidableEq, Repr

/-- The used block that belongs to an allocation. -/
def Allocation.toBlock (a : Allocation) : Block := ⟨a.address.toInt, a.size.toInt, false⟩

theorem Allocation.contains_address (a : Allocation) (hsize : 0 < a.size.toInt) :
    a.toBlock.Contains a.address.toInt := by
  constructor
  · exact le_rfl
  · simp only [Allocation.toBlock]
    omega

namespace HeapAllocator

/-! ## Runs with owners -/

/-- The live allocations after `allocate` was called for `n` bytes. -/
def record (n : Int64) (live : List Allocation) : Except HeapFault Int64 → List Allocation
  | .ok p => ⟨p, n⟩ :: live
  | .error _ => live

/-- The allocator over `[lo, hi)` reaches `h` while `live` are the allocations not given up.
Appending a block keeps `pos` at or below `lim`, and giving up an allocation meets `ok`. -/
inductive OwnedRun (lim : ℤ) (ok : HeapAllocator → Allocation → Prop) (lo hi : Int64) :
    HeapAllocator → List Allocation → Prop where
  | init : OwnedRun lim ok lo hi (init lo hi) []
  | allocate {h live} (n : Int64) : OwnedRun lim ok lo hi h live → 0 ≤ n → RoomFor lim h n →
      OwnedRun lim ok lo hi (h.allocate n).1 (record n live (h.allocate n).2)
  | giveUp {h live} (a : Allocation) : OwnedRun lim ok lo hi h live → a ∈ live → ok h a →
      OwnedRun lim ok lo hi (h.free a.address).1 (live.erase a)
  | stray {h live} (p : Int64) : OwnedRun lim ok lo hi h live → (∀ a ∈ live, a.address ≠ p) →
      OwnedRun lim ok lo hi (h.free p).1 live

/-- The invariant of `OwnedRun`. -/
structure Owns (lo : Int64) (bs : List Block) (e : ℤ) (live : List Allocation) : Prop where
  /-- Live allocations lie in the tiled region. -/
  within : ∀ a ∈ live, lo.toInt ≤ a.address.toInt ∧ a.address.toInt + a.size.toInt ≤ e
  /-- At each address there are at least as many used blocks as live allocations. -/
  count_le : ∀ p, live.countP (fun a => a.address == p) ≤ (used bs).countP (isAt p)
  /-- A live allocation that is not empty has its block. -/
  mem_used : ∀ a ∈ live, 0 < a.size.toInt → a.toBlock ∈ used bs
  /-- Live allocations do not overlap. -/
  disjoint : live.Pairwise fun a b => ∀ x, ¬(a.toBlock.Contains x ∧ b.toBlock.Contains x)

variable {lo hi : Int64} {h : HeapAllocator} {bs pre post : List Block} {e lim : ℤ} {n p : Int64}
  {b : Block} {live live' : List Allocation} {a : Allocation}
  {ok : HeapAllocator → Allocation → Prop}

theorem owns_nil (lo : Int64) (bs : List Block) (e : ℤ) : Owns lo bs e [] where
  within := by simp
  count_le := by simp
  mem_used := by simp
  disjoint := List.Pairwise.nil

/-! ## Addresses of blocks -/

/-- On a tiling below `2 ^ 63` the code compares addresses faithfully. -/
theorem isAt_iff_of_tiles (htiles : Tiles lo.toInt bs e) (he : e < 2 ^ 63) (hb : b ∈ bs) :
    isAt p b = true ↔ b.address = p.toInt := by
  have hlo := Int64.le_toInt lo
  have hbounds := htiles.bounds hb
  rw [isAt_iff, ← Int64.toInt_inj, Int64.toInt_ofInt_of_le (by omega) (by omega)]

/-- A block that is not empty is the last one at its address. -/
theorem countP_isAt_le_one (htiles : Tiles lo.toInt (pre ++ b :: post) e) (he : e < 2 ^ 63)
    (hpre : ∀ c ∈ pre, isAt p c = false) (hb : isAt p b = true) (hsize : 0 < b.size) :
    (used (pre ++ b :: post)).countP (isAt p) ≤ 1 := by
  have hpost : ∀ c ∈ post, isAt p c = false := by
    intro c hc
    have hcmem : c ∈ pre ++ b :: post := by simp [hc]
    -- `c` starts behind the last byte of `b`.
    have hle := (List.pairwise_cons.1 (List.pairwise_append.1 htiles.pairwise).2.1).1 c hc
    have hbp := (isAt_iff_of_tiles htiles he (by simp)).1 hb
    rw [← Bool.not_eq_true, isAt_iff_of_tiles htiles he hcmem]
    omega
  have hzero : ∀ l : List Block, (∀ c ∈ l, isAt p c = false) → l.countP (isAt p) = 0 := by
    intro l hl
    exact List.countP_eq_zero.2 fun c hc => by simp [hl c hc]
  calc (used (pre ++ b :: post)).countP (isAt p)
      ≤ (pre ++ b :: post).countP (isAt p) := List.filter_sublist.countP_le
    _ = 1 := by
      rw [List.countP_append, List.countP_cons_of_pos hb, hzero pre hpre, hzero post hpost]

/-! ## The invariant of a step -/

theorem Owns.sublist (ho : Owns lo bs e live) (hsub : live'.Sublist live) :
    Owns lo bs e live' where
  within a ha := ho.within a (hsub.subset ha)
  count_le p := (hsub.countP_le).trans (ho.count_le p)
  mem_used a ha := ho.mem_used a (hsub.subset ha)
  disjoint := ho.disjoint.sublist hsub

/-- The block taken is new to the used ones, so it overlaps no live allocation. -/
theorem Owns.allocate (ho : Owns lo bs e live) (himp : Implements lo hi h bs e) (hn : 0 ≤ n)
    (hend : (if h.hasFit n then e else e + n.toInt) < 2 ^ 63) :
    Owns lo (takeFirst (fits n) n.toInt e bs) (if h.hasFit n then e else e + n.toInt)
      (⟨Int64.ofInt (takenAt (fits n) e bs), n⟩ :: live) := by
  have hperm := used_takeFirst_fits n e bs
  obtain ⟨hge, hle⟩ := himp.takenAt_bounds hn
  have haddr := himp.takenAt_toInt hn hend
  have hgrow : e ≤ if h.hasFit n then e else e + n.toInt := by
    have hn' := toInt_nonneg hn
    split <;> omega
  constructor
  · rintro a (_ | ⟨_, ha⟩)
    · rw [haddr]
      exact ⟨hge, hle⟩
    · have hwithin := ho.within a ha
      exact ⟨hwithin.1, hwithin.2.trans hgrow⟩
  · intro p
    have hcount := ho.count_le p
    -- Both sides grow by one at the address of the new block and nowhere else.
    rw [hperm.countP_eq, List.countP_cons, List.countP_cons]
    exact Nat.add_le_add hcount le_rfl
  · rintro a (_ | ⟨_, ha⟩) hsize
    · refine hperm.symm.subset (List.mem_cons.2 (.inl ?_))
      rw [Allocation.toBlock, haddr]
    · exact hperm.symm.subset (List.mem_cons_of_mem _ (ho.mem_used a ha hsize))
  · refine List.pairwise_cons.2 ⟨fun a ha x hx => ?_, ho.disjoint⟩
    -- Both blocks are in the new tiling, whose used blocks contain `x` at most once.
    have hmem : a.toBlock ∈ used bs := ho.mem_used a ha (by
      have := hx.2.1
      have := hx.2.2
      simp only [Allocation.toBlock] at *
      omega)
    have htiles := (himp.allocate hn).2.tiles
    have hnew : Block.Contains ⟨takenAt (fits n) e bs, n.toInt, false⟩ x := by
      have := hx.1
      rwa [Allocation.toBlock, haddr] at this
    exact htiles.not_contains_of_perm hperm hnew a.toBlock hmem hx.2

/-- Releasing the first block at `p` costs one allocation at `p`, if there is one. -/
theorem Owns.release (ho : Owns lo bs e live) (htiles : Tiles lo.toInt bs e) (he : e < 2 ^ 63)
    (hsub : live'.Sublist live)
    (hcount : live'.countP (fun a => a.address == p) ≤
      live.countP (fun a => a.address == p) - 1) :
    Owns lo (release (isAt p) bs) e live' := by
  rcases forall_not_or_first (isAt p) bs with hnot | ⟨pre, b, post, rfl, hb, hpre⟩
  · rw [release_of_forall_not hnot]
    exact ho.sublist hsub
  obtain ⟨hwithin, hle, hmem, hdisj⟩ := ho.sublist hsub
  rcases used_release_cases post hpre hb with ⟨-, heq⟩ | ⟨-, hperm⟩
  · -- The first block at `p` was free already.
    exact ⟨hwithin, by rwa [heq], by rwa [heq], hdisj⟩
  refine ⟨hwithin, fun q => ?_, fun a ha hsize => ?_, hdisj⟩
  · have hq := hle q
    rw [hperm.countP_eq, List.countP_cons] at hq
    by_cases hpq : isAt q b = true
    · -- At `p` a used block is gone, and so is an allocation if there was one.
      obtain rfl : p = q := (isAt_iff.1 hb).symm.trans (isAt_iff.1 hpq)
      have hp := ho.count_le p
      rw [hperm.countP_eq, List.countP_cons_of_pos hb] at hp
      omega
    · rwa [if_neg hpq, Nat.add_zero] at hq
  · rcases List.mem_cons.1 (hperm.subset (hmem a ha hsize)) with rfl | hmem'
    · -- The only used block at `p` is released, so no allocation is left there.
      have hone := (ho.count_le p).trans (countP_isAt_le_one htiles he hpre hb hsize)
      have haddr : a.address = p := by
        rw [isAt_iff, Allocation.toBlock, Int64.ofInt_toInt] at hb
        exact hb
      have hpos : 0 < live'.countP (fun a => a.address == p) :=
        List.countP_pos_iff.2 ⟨a, ha, by simp [haddr]⟩
      omega
    · exact hmem'

/-- `Owns` after `free`, whichever block it hits. -/
theorem Owns.free (ho : Owns lo bs e live) (htiles : Tiles lo.toInt bs e) (he : e < 2 ^ 63)
    (hsub : live'.Sublist live)
    (hcount : live'.countP (fun a => a.address == p) ≤
      live.countP (fun a => a.address == p) - 1) :
    Owns lo (if 0 < p then ToMathlib.release (isAt p) bs else bs) e live' := by
  split
  next => exact ho.release htiles he hsub hcount
  next => exact ho.sublist hsub

/-! ## The invariant of a run -/

/-- Every state of a run stores a tiling that its owners' allocations are part of. -/
theorem OwnedRun.invariant (hrun : OwnedRun lim ok lo hi h live) (hlo : lo.toInt ≤ lim)
    (hlim : lim < 2 ^ 63) :
    ∃ bs e, Implements lo hi h bs e ∧ e ≤ lim ∧ Owns lo bs e live := by
  induction hrun with
  | init => exact ⟨[], lo.toInt, implements_init lo hi, hlo, owns_nil ..⟩
  | @allocate h live n _ hn hroom ih =>
    obtain ⟨bs, e, himp, he, ho⟩ := ih
    have hend := himp.end_le he hlim hroom
    obtain ⟨hok, himp'⟩ := himp.allocate hn
    rw [hok]
    exact ⟨_, _, himp', hend, ho.allocate himp hn (hend.trans_lt hlim)⟩
  | @giveUp h live a _ ha _ ih =>
    obtain ⟨bs, e, himp, he, ho⟩ := ih
    refine ⟨_, e, himp.free, he,
      ho.free himp.tiles (he.trans_lt hlim) List.erase_sublist (le_of_eq ?_)⟩
    -- `erase` drops one allocation at this address, even if several share it.
    rw [(List.perm_cons_erase ha).countP_eq, List.countP_cons_of_pos (by simp)]
    rfl
  | @stray h live p _ hne ih =>
    obtain ⟨bs, e, himp, he, ho⟩ := ih
    refine ⟨_, e, himp.free, he,
      ho.free himp.tiles (he.trans_lt hlim) (List.Sublist.refl live) ?_⟩
    -- Nobody owns `p`; whatever block is hit there, no allocation loses its own.
    have hzero : live.countP (fun a => a.address == p) = 0 :=
      List.countP_eq_zero.2 fun a ha => by simpa using hne a ha
    omega

/-- At every point of a run the live allocations are pairwise disjoint and lie in
`[begin_, pos)`, as long as `pos` does not overflow. -/
theorem live_disjoint (lo hi : Int64) (h : HeapAllocator) (live : List Allocation)
    (hrun : OwnedRun (2 ^ 63 - 1) (fun _ _ => True) lo hi h live) :
    live.Pairwise (fun a b => ∀ x, ¬(a.toBlock.Contains x ∧ b.toBlock.Contains x)) ∧
      ∀ a ∈ live, h.begin_.toInt ≤ a.address.toInt ∧
        a.address.toInt + a.size.toInt ≤ h.pos.toInt := by
  have hlo := Int64.toInt_lt lo
  obtain ⟨bs, e, himp, he, ho⟩ := hrun.invariant (by omega) (by omega)
  rw [himp.begin_, himp.pos_toInt (by omega)]
  exact ⟨ho.disjoint, ho.within⟩

/-- Two allocations, the first of them given up, and an unknown address. -/
theorem live_disjoint_small :
    ∃ h live, OwnedRun (2 ^ 63 - 1) (fun _ _ => True) 0xD0000000 0xD0200000 h live ∧
      live = [⟨0xD0000000, 0⟩, ⟨0xD0000008, 8⟩] ∧
      (live.Pairwise (fun a b => ∀ x, ¬(a.toBlock.Contains x ∧ b.toBlock.Contains x)) ∧
        ∀ a ∈ live, h.begin_.toInt ≤ a.address.toInt ∧
          a.address.toInt + a.size.toInt ≤ h.pos.toInt) := by
  have hrun : OwnedRun (2 ^ 63 - 1) (fun _ _ => True) 0xD0000000 0xD0200000 _ _ :=
    (((((OwnedRun.init.allocate 8 (by decide) (by decide +kernel)).allocate 8 (by decide)
      (by decide +kernel)).giveUp ⟨0xD0000000, 8⟩ (by decide +kernel) trivial).stray 5
      (by decide +kernel)).allocate 0 (by decide) (by decide +kernel))
  exact ⟨_, _, hrun, by decide +kernel, live_disjoint _ _ _ _ hrun⟩

/-! ## Giving memory back -/

/-- `free` turns exactly the bytes of the allocation from used to free, and leaves the status of
every other byte alone. -/
structure GivesBack (h : HeapAllocator) (a : Allocation) : Prop where
  freed : ∀ x, a.toBlock.Contains x →
    UsedAt h.blocks x ∧ FreeAt (h.free a.address).1.blocks x
  kept : ∀ x, ¬a.toBlock.Contains x →
    (UsedAt (h.free a.address).1.blocks x ↔ UsedAt h.blocks x) ∧
      (FreeAt (h.free a.address).1.blocks x ↔ FreeAt h.blocks x)

/-- `p` is an address that `free` accepts, and no zero-size block stands at it. -/
def CleanAt (h : HeapAllocator) (p : Int64) : Prop :=
  0 < p ∧ ∀ b ∈ h.blocks, b.address = p.toInt → b.size ≠ 0

instance (h : HeapAllocator) (p : Int64) : Decidable (CleanAt h p) :=
  inferInstanceAs (Decidable (_ ∧ _))

/-- On a list without zero-size blocks at `p`, the first block at `p` is the one that contains
the byte `p`. -/
theorem isAt_eq_false_of_clean (htiles : Tiles lo.toInt (pre ++ b :: post) e) (he : e < 2 ^ 63)
    (hclean : ∀ c ∈ pre ++ b :: post, c.address = p.toInt → c.size ≠ 0)
    (hb : b.address = p.toInt) : ∀ c ∈ pre, isAt p c = false := by
  intro c hc
  have hcmem : c ∈ pre ++ b :: post := by simp [hc]
  rw [← Bool.not_eq_true, isAt_iff_of_tiles htiles he hcmem]
  intro haddr
  -- A block before `b` at the same address would be empty.
  have hle := (List.pairwise_append.1 htiles.pairwise).2.2 c hc b List.mem_cons_self
  have hsize := (htiles.bounds hcmem).2.1
  have hne := hclean c hcmem haddr
  omega

/-- Releasing the block of an allocation at a clean address. -/
theorem usedAt_release_of_clean (htiles : Tiles lo.toInt bs e) (he : e < 2 ^ 63)
    (hmem : a.toBlock ∈ used bs)
    (hclean : ∀ b ∈ bs, b.address = a.address.toInt → b.size ≠ 0) (x : ℤ) :
    UsedAt (release (isAt a.address) bs) x ↔ UsedAt bs x ∧ ¬a.toBlock.Contains x := by
  obtain ⟨pre, post, rfl⟩ := List.append_of_mem (mem_used.1 hmem).1
  have hat : isAt a.address a.toBlock = true := by simp [isAt, Allocation.toBlock]
  have hpre := isAt_eq_false_of_clean htiles he hclean rfl
  obtain ⟨hfree, -⟩ | ⟨-, hperm⟩ := used_release_cases post hpre hat
  · exact absurd hfree (by simp [Allocation.toBlock])
  · have hnot := fun hx => htiles.not_contains_of_perm (x := x) hperm hx
    rw [usedAt_iff, usedAt_iff]
    constructor
    · rintro ⟨b, hb, hbx⟩
      exact ⟨⟨b, hperm.symm.subset (List.mem_cons_of_mem _ hb), hbx⟩, fun hx => hnot hx b hb hbx⟩
    · rintro ⟨⟨b, hb, hbx⟩, hax⟩
      rcases List.mem_cons.1 (hperm.subset hb) with rfl | hb'
      · exact absurd hbx hax
      · exact ⟨b, hb', hbx⟩

/-- A zero-size block at the address of a live allocation is found first, so that `free` leaves
the block of the allocation used. -/
theorem mem_used_release_of_zero (htiles : Tiles lo.toInt bs e) (he : e < 2 ^ 63)
    (hsize : 0 < a.size.toInt) (hmem : a.toBlock ∈ used bs) {z : Block} (hz : z ∈ bs)
    (hzaddr : z.address = a.address.toInt) (hzsize : z.size = 0) :
    a.toBlock ∈ used (release (isAt a.address) bs) := by
  rcases forall_not_or_first (isAt a.address) bs with hnot | ⟨pre, b, post, rfl, hb, hpre⟩
  · rwa [release_of_forall_not hnot]
  -- The first hit is not the block of `a`: after that one no block has its address.
  have hne : a.toBlock ≠ b := by
    rintro rfl
    have hzat := (isAt_iff_of_tiles htiles he hz).2 hzaddr
    have hpw := (List.pairwise_append.1 htiles.pairwise).2.1
    rcases List.mem_append.1 hz with hz | hz
    · rw [hpre z hz] at hzat
      exact Bool.false_ne_true hzat
    rcases List.mem_cons.1 hz with rfl | hz
    · exact absurd hzsize (ne_of_gt hsize)
    · have hle := (List.pairwise_cons.1 hpw).1 z hz
      simp only [Allocation.toBlock] at hle
      omega
  rcases used_release_cases post hpre hb with ⟨-, heq⟩ | ⟨-, hperm⟩
  · rwa [heq]
  · exact (List.mem_cons.1 (hperm.subset hmem)).resolve_left hne

/-- The block list of a run that overflows nothing. -/
theorem OwnedRun.blocks (hrun : OwnedRun (lastPos lo) ok lo hi h live) :
    ∃ e, Implements lo hi h h.blocks e ∧ e ≤ lastPos lo ∧ Owns lo h.blocks e live := by
  obtain ⟨bs, e, himp, he, ho⟩ := hrun.invariant (le_lastPos lo) (lt_of_le_lastPos le_rfl).1
  rw [himp.blocks_eq (lt_of_le_lastPos he).1 (lt_of_le_lastPos he).2]
  exact ⟨e, himp, he, ho⟩

/-- `free` gives a live allocation back exactly at a clean address. -/
theorem OwnedRun.givesBack_iff_cleanAt (hrun : OwnedRun (lastPos lo) ok lo hi h live)
    (ha : a ∈ live) (hsize : 0 < a.size) : GivesBack h a ↔ CleanAt h a.address := by
  obtain ⟨e, himp, hlast, ho⟩ := hrun.blocks
  obtain ⟨he, hspan⟩ := lt_of_le_lastPos hlast
  have hsize' : 0 < a.size.toInt := Int64.lt_iff_toInt_lt.1 hsize
  have hmem := ho.mem_used a ha hsize'
  have hfree : (h.free a.address).1.blocks = _ := himp.free.blocks_eq he hspan
  have htiles' := (himp.free (p := a.address)).tiles
  constructor
  · -- The byte at the address is free afterwards, so the block of `a` is not used any more.
    intro hgives
    have hbyte := (hgives.freed _ (a.contains_address hsize')).2
    rw [hfree, htiles'.freeAt_iff] at hbyte
    have hgone := fun hin => hbyte.2.2 (usedAt_iff.2 ⟨_, hin, a.contains_address hsize'⟩)
    by_cases hp : 0 < a.address
    · rw [if_pos hp] at hgone
      exact ⟨hp, fun z hz hzaddr hzsize =>
        hgone (mem_used_release_of_zero himp.tiles he hsize' hmem hz hzaddr hzsize)⟩
    · rw [if_neg hp] at hgone
      exact absurd hmem hgone
  · -- `release` removes the block of `a` from the used ones and no other.
    rintro ⟨hp, hclean⟩
    rw [if_pos hp] at hfree htiles'
    have hused := usedAt_release_of_clean himp.tiles he hmem hclean
    constructor
    · intro x hx
      have hin : UsedAt h.blocks x := usedAt_iff.2 ⟨_, hmem, hx⟩
      have hb := himp.tiles.bounds (mem_used.1 hmem).1
      refine ⟨hin, ?_⟩
      rw [hfree, htiles'.freeAt_iff, hused]
      exact ⟨hb.1.trans hx.1, hx.2.trans_le hb.2.2, fun hno => hno.2 hx⟩
    · intro x hx
      rw [hfree, htiles'.freeAt_iff, himp.tiles.freeAt_iff, hused]
      simp [hx]

/-- Every used block that is not empty belongs to a live allocation. -/
def Tight (bs : List Block) (live : List Allocation) : Prop :=
  ∀ b ∈ used bs, 0 < b.size → ∃ a ∈ live, a.toBlock = b

theorem Tight.mono {bs' : List Block} (ht : Tight bs live) (hsub : used bs' ⊆ used bs)
    (hgone : ∀ a ∈ live, a ∉ live' → 0 < a.size.toInt → a.toBlock ∉ used bs') :
    Tight bs' live' := by
  intro b hb hsize
  obtain ⟨a, ha, rfl⟩ := ht b (hsub hb) hsize
  exact ⟨a, by_contra fun hnot => hgone a ha hnot hsize hb, rfl⟩

/-- An allocation is given up at a clean address, unless it is empty. -/
def CleanOwner (h : HeapAllocator) (a : Allocation) : Prop := 0 < a.size → CleanAt h a.address

theorem used_free_subset :
    used (if 0 < p then release (isAt p) bs else bs) ⊆ used bs := by
  split
  next =>
    rcases forall_not_or_first (isAt p) bs with hnot | ⟨pre, b, post, rfl, hb, hpre⟩
    · rw [release_of_forall_not hnot]
      exact List.Subset.refl _
    · rcases used_release_cases post hpre hb with ⟨-, heq⟩ | ⟨-, hperm⟩
      · rw [heq]
        exact List.Subset.refl _
      · exact fun c hc => hperm.symm.subset (List.mem_cons_of_mem b hc)
  next => exact List.Subset.refl _

/-- When every allocation is given up at a clean address, no memory is lost. -/
theorem OwnedRun.tight (hrun : OwnedRun (lastPos lo) CleanOwner lo hi h live) :
    Tight h.blocks live := by
  induction hrun with
  | init =>
    obtain ⟨he, hspan⟩ := lt_of_le_lastPos (le_lastPos lo)
    rw [(implements_init lo hi).blocks_eq he hspan]
    exact fun b hb => absurd hb (by simp)
  | @allocate h live n hprev hn hroom ih =>
    obtain ⟨e, himp, hlast, -⟩ := hprev.blocks
    obtain ⟨he, hspan⟩ :=
      lt_of_le_lastPos (himp.end_le hlast (lt_of_le_lastPos le_rfl).1 hroom)
    obtain ⟨hok, himp'⟩ := himp.allocate hn
    rw [himp'.blocks_eq he hspan, hok]
    intro b hb hsize
    rcases List.mem_cons.1 ((used_takeFirst_fits n e h.blocks).subset hb) with rfl | hb'
    · refine ⟨_, List.mem_cons_self, ?_⟩
      rw [Allocation.toBlock, himp.takenAt_toInt hn he]
    · obtain ⟨a, ha, heq⟩ := ih b hb' hsize
      exact ⟨a, List.mem_cons_of_mem _ ha, heq⟩
  | @giveUp h live a hprev ha hclean ih =>
    obtain ⟨e, himp, hlast, ho⟩ := hprev.blocks
    obtain ⟨he, hspan⟩ := lt_of_le_lastPos hlast
    rw [himp.free.blocks_eq he hspan]
    refine ih.mono used_free_subset fun a' ha' hgone hsize hin => ?_
    -- The only allocation that may be gone is `a` itself, whose block is no longer used.
    have heq : a' = a := by
      by_contra hne
      exact hgone ((List.mem_erase_of_ne hne).2 ha')
    subst heq
    obtain ⟨hp, hclean'⟩ := hclean (Int64.lt_iff_toInt_lt.2 hsize)
    rw [if_pos hp] at hin
    have hbyte := usedAt_iff.2 ⟨_, hin, a'.contains_address hsize⟩
    rw [usedAt_release_of_clean himp.tiles he (ho.mem_used a' ha' hsize) hclean'] at hbyte
    exact hbyte.2 (a'.contains_address hsize)
  | @stray h live p hprev hne ih =>
    obtain ⟨e, himp, hlast, -⟩ := hprev.blocks
    obtain ⟨he, hspan⟩ := lt_of_le_lastPos hlast
    rw [himp.free.blocks_eq he hspan]
    exact ih.mono used_free_subset fun a ha hgone => absurd ha hgone

/-- `free` gives the bytes of a live allocation back if and only if no zero-size block stands at
its address; and if this is so whenever an allocation is given up, then all of `[begin_, pos)` is
free once nothing is live. -/
theorem givesBack_iff (lo hi : Int64) :
    (∀ h live, OwnedRun (lastPos lo) (fun _ _ => True) lo hi h live →
        ∀ a ∈ live, 0 < a.size → (GivesBack h a ↔ CleanAt h a.address)) ∧
      ∀ h, OwnedRun (lastPos lo) CleanOwner lo hi h [] →
        ∀ x, h.begin_.toInt ≤ x → x < h.pos.toInt → FreeAt h.blocks x := by
  refine ⟨fun h live hrun a ha hsize => hrun.givesBack_iff_cleanAt ha hsize, ?_⟩
  intro h hrun x hge hlt
  obtain ⟨e, himp, hlast, -⟩ := hrun.blocks
  rw [himp.begin_] at hge
  rw [himp.pos_toInt (lt_of_le_lastPos hlast).1] at hlt
  refine himp.tiles.freeAt_iff.2 ⟨hge, hlt, fun hused => ?_⟩
  -- A used byte would belong to a live allocation, and there is none.
  obtain ⟨b, hb, hbx⟩ := usedAt_iff.1 hused
  have hsize : 0 < b.size := by
    have hleft := hbx.1
    have hright := hbx.2
    omega
  obtain ⟨a, ha, -⟩ := hrun.tight b hb hsize
  exact absurd ha List.not_mem_nil

/-- Two allocations given up in the order they were made. -/
theorem givesBack_small :
    ∃ h, OwnedRun (lastPos 0xD0000000) CleanOwner 0xD0000000 0xD0200000 h [] ∧
      h.pos = 0xD0000010 ∧
      ∀ x, h.begin_.toInt ≤ x → x < h.pos.toInt → FreeAt h.blocks x := by
  have hrun : OwnedRun (lastPos 0xD0000000) CleanOwner 0xD0000000 0xD0200000 _ [] :=
    ((((OwnedRun.init.allocate 8 (by decide) (by decide +kernel)).allocate 8 (by decide)
      (by decide +kernel)).giveUp ⟨0xD0000000, 8⟩ (by decide +kernel)
      fun _ => by decide +kernel).giveUp ⟨0xD0000008, 8⟩ (by decide +kernel)
      fun _ => by decide +kernel)
  exact ⟨_, hrun, by decide +kernel, (givesBack_iff _ _).2 _ hrun⟩

/-- Reusing a freed block exactly leaves a zero-size free block in front of the next allocation,
and giving that one up frees nothing. -/
theorem not_givesBack :
    ∃ h live, OwnedRun (lastPos 0xD0000000) (fun _ _ => True) 0xD0000000 0xD0200000 h live ∧
      ⟨0xD0000008, 8⟩ ∈ live ∧ ¬GivesBack h ⟨0xD0000008, 8⟩ := by
  have hrun : OwnedRun (lastPos 0xD0000000) (fun _ _ => True) 0xD0000000 0xD0200000 _ _ :=
    ((((OwnedRun.init.allocate 8 (by decide) (by decide +kernel)).allocate 8 (by decide)
      (by decide +kernel)).giveUp ⟨0xD0000000, 8⟩ (by decide +kernel) trivial).allocate 8
      (by decide) (by decide +kernel))
  refine ⟨_, _, hrun, by decide +kernel, fun hgives => ?_⟩
  exact absurd (hgives.freed 0xD0000008 (by decide)).2 (by decide +kernel)

end HeapAllocator

end Tank
