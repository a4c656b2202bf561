import Tank.Memory.Heap.Refinement
import Tank.ToMathlib.Int64

/-!
# The representation invariant of the heap

Sequences of `allocate` and `free` calls on a fresh allocator, with any arguments and with a
thrown `HeapError` caught.

* `Implements h bs e`: `h` stores the block list `bs`, which tiles `[begin_, e)` and has no two
  adjacent free blocks; `pos` is `e` reduced to a `long`. Every call keeps it
  (`Implements.allocate`, `Implements.free`), so every reachable state has it.
* `RoomUpTo lim`: a call that has to append a block keeps `pos` at or below `lim`. While all
  calls do so and `lim` is a `long`, `e` is `pos` itself (`exists_implements_run`).
* `wellFormed_run`: what this says of the objects themselves, as long as no `long` overflows;
  `not_wellFormed_overflow` is a run in which one does.
-/

namespace Tank

open ToMathlib

namespace HeapAllocator

/-! ## Runs -/

/-- A call of the allocator's interface. -/
inductive Call where
  | allocate (size : Int64)
  | free (addr : Int64)
deriving DecidableEq, Repr

/-- The allocator after a call; a thrown `HeapError` is caught by the caller. -/
def step (h : HeapAllocator) : Call → HeapAllocator
  | .allocate size => (h.allocate size).1
  | .free addr => (h.free addr).1

/-- The allocator after a sequence of calls. -/
def run (h : HeapAllocator) (calls : List Call) : HeapAllocator := calls.foldl step h

/-- Every call of the sequence meets `cond` in the state it is made in. -/
def AllCalls (cond : HeapAllocator → Call → Prop) : HeapAllocator → List Call → Prop
  | _, [] => True
  | h, c :: calls => cond h c ∧ AllCalls cond (h.step c) calls

/-- Whether `findFreeBlock` finds a block for `size` bytes. -/
def hasFit (h : HeapAllocator) (size : Int64) : Bool :=
  (h.findFreeBlock size).any fun holder => holder.block.isSome

/-- A request for `size` bytes is met by a free block, or by a new one that ends at or below
`lim`. -/
def RoomFor (lim : ℤ) (h : HeapAllocator) (size : Int64) : Prop :=
  h.hasFit size = true ∨ h.pos.toInt + size.toInt ≤ lim

/-- `RoomFor` at every call that allocates. -/
def RoomUpTo (lim : ℤ) (h : HeapAllocator) : Call → Prop
  | .allocate size => 0 ≤ size → RoomFor lim h size
  | .free _ => True

instance (lim : ℤ) (h : HeapAllocator) (size : Int64) : Decidable (RoomFor lim h size) :=
  inferInstanceAs (Decidable (_ ∨ _))

instance (lim : ℤ) (h : HeapAllocator) : ∀ c, Decidable (RoomUpTo lim h c)
  | .allocate size => inferInstanceAs (Decidable (0 ≤ size → RoomFor lim h size))
  | .free _ => inferInstanceAs (Decidable True)

instance decidableAllCalls (cond : HeapAllocator → Call → Prop) [∀ h c, Decidable (cond h c)] :
    ∀ h calls, Decidable (AllCalls cond h calls)
  | _, [] => inferInstanceAs (Decidable True)
  | h, c :: calls =>
    have := decidableAllCalls cond (h.step c) calls
    inferInstanceAs (Decidable (cond h c ∧ AllCalls cond (h.step c) calls))

/-! ## The invariant of a step -/

/-- The allocator over `[lo, hi)` stores the block list `bs`, which tiles `[lo, e)`. -/
structure Implements (lo hi : Int64) (h : HeapAllocator) (bs : List Block) (e : ℤ) : Prop where
  represents : ∃ refs abs, Represents h refs abs ∧ refs.map abs = bs
  tiles : Tiles lo.toInt bs e
  coalesced : Coalesced bs
  pos : h.pos = Int64.ofInt e
  begin_ : h.begin_ = lo
  end_ : h.end_ = hi

variable {lo hi : Int64} {h : HeapAllocator} {bs : List Block} {e lim : ℤ} {n p : Int64}
  {b : Block} {calls : List Call}

theorem implements_init (lo hi : Int64) : Implements lo hi (init lo hi) [] lo.toInt where
  represents := ⟨[], fun _ => ⟨0, 0, false⟩, ⟨rfl, by simp, by simp⟩, rfl⟩
  tiles := rfl
  coalesced := List.IsChain.nil
  pos := (Int64.ofInt_toInt lo).symm
  begin_ := rfl
  end_ := rfl

theorem le_size_of_fits (hsize : 0 ≤ b.size) (hfit : fits n b = true) : n.toInt ≤ b.size := by
  rw [fits, Bool.and_eq_true, decide_eq_true_eq, Int64.le_iff_toInt_le] at hfit
  exact hfit.2.trans (toInt_ofInt_le hsize)

theorem free_of_fits (hfit : fits n b = true) : b.free = true := by
  rw [fits, Bool.and_eq_true] at hfit
  exact hfit.1

theorem Implements.hasFit_eq (himp : Implements lo hi h bs e) : h.hasFit n = bs.any (fits n) := by
  obtain ⟨refs, abs, hr, rfl⟩ := himp.represents
  rw [hasFit, findFreeBlock]
  -- `findFreeBlock` and `any` make the same test on the same blocks.
  rcases forall_not_or_first (fun r => fits n (abs r)) refs with
    hnot | ⟨pre, r, post, rfl, hfit, hpre⟩
  · rw [hr.find_of_forall_not fun r hmem => (hr.fits_eq hmem).trans (hnot r hmem)]
    exact (List.any_eq_false.2 (by simpa using hnot)).symm
  · rw [hr.find_of_first (fun s hs => (hr.fits_eq (by simp [hs])).trans (hpre s hs))
      ((hr.fits_eq (by simp)).trans hfit)]
    simp [hfit]

theorem allocate_of_neg (hn : n < 0) : h.allocate n = (h, .ok 0) := by
  rw [allocate, if_pos hn]

/-- One `allocate`, which never fails on a size that is not negative. -/
theorem Implements.allocate (himp : Implements lo hi h bs e) (hn : 0 ≤ n) :
    (h.allocate n).2 = .ok (Int64.ofInt (takenAt (fits n) e bs)) ∧
      Implements lo hi (h.allocate n).1 (takeFirst (fits n) n.toInt e bs)
        (if h.hasFit n then e else e + n.toInt) := by
  have hfit := himp.hasFit_eq (n := n)
  obtain ⟨refs, abs, hr, rfl⟩ := himp.represents
  obtain ⟨hok, refs', abs', hr', hbs, hfields⟩ := allocate_refines hn hr himp.pos
  have hsize : ∀ b ∈ refs.map abs, fits n b = true → n.toInt ≤ b.size := fun b hb =>
    le_size_of_fits (himp.tiles.bounds hb).2.1
  obtain ⟨e', htiles, he'⟩ := himp.tiles.takeFirst (toInt_nonneg hn) hsize
  -- The new end is the one `hasFit` predicts, and `pos` follows it modulo `2 ^ 64`.
  rw [← hfit] at he' hfields
  rw [← he']
  refine ⟨hok, ⟨refs', abs', hr', hbs⟩, htiles, himp.coalesced.takeFirst fun b _ => free_of_fits,
    ?_, hfields.begin_.trans himp.begin_, hfields.end_.trans himp.end_⟩
  rw [hfields.pos, he', himp.pos]
  cases h.hasFit n <;> simp [Int64.ofInt_add]

theorem used_takeFirst_fits (n : Int64) (e : ℤ) (bs : List Block) :
    (used (takeFirst (fits n) n.toInt e bs)).Perm
      (⟨takenAt (fits n) e bs, n.toInt, false⟩ :: used bs) :=
  used_takeFirst_perm fun _ _ => free_of_fits

/-- The bytes that `allocate` hands out lie in the tiled region. -/
theorem Implements.takenAt_bounds (himp : Implements lo hi h bs e) (hn : 0 ≤ n) :
    lo.toInt ≤ takenAt (fits n) e bs ∧
      takenAt (fits n) e bs + n.toInt ≤ if h.hasFit n then e else e + n.toInt := by
  have hmem := mem_used.1 ((used_takeFirst_fits n e bs).symm.subset List.mem_cons_self)
  have hb := (himp.allocate hn).2.tiles.bounds hmem.1
  exact ⟨hb.1, hb.2.2⟩

theorem Implements.takenAt_toInt (himp : Implements lo hi h bs e) (hn : 0 ≤ n)
    (hend : (if h.hasFit n then e else e + n.toInt) < 2 ^ 63) :
    (Int64.ofInt (takenAt (fits n) e bs)).toInt = takenAt (fits n) e bs := by
  have hbounds := himp.takenAt_bounds hn
  have hlo := Int64.le_toInt lo
  have hn' := toInt_nonneg hn
  exact Int64.toInt_ofInt_of_le (by omega) (by omega)

theorem isAt_iff : isAt p b = true ↔ Int64.ofInt b.address = p := by
  simp [isAt]

/-- One `free`. -/
theorem Implements.free (himp : Implements lo hi h bs e) :
    Implements lo hi (h.free p).1 (if 0 < p then release (isAt p) bs else bs) e := by
  obtain ⟨refs, abs, hr, rfl⟩ := himp.represents
  by_cases hp : 0 < p
  · rw [if_pos hp]
    by_cases hmem : ∃ r ∈ refs, isAt p (abs r) = true
    · obtain ⟨-, refs', abs', hr', hbs, hfields⟩ := free_refines hr hp hmem
      exact ⟨⟨refs', abs', hr', hbs⟩, himp.tiles.release, himp.coalesced.release,
        hfields.pos.trans himp.pos, hfields.begin_.trans himp.begin_, hfields.end_.trans himp.end_⟩
    · -- No block is at `p`: `free` throws, and `release` finds nothing to do.
      have hnot : ∀ r ∈ refs, isAt p (abs r) = false := by
        simpa using hmem
      rw [free_of_forall_ne hr (.inr hnot), release_of_forall_not (by simpa using hnot)]
      exact himp
  · -- An address that is not positive is ignored.
    rw [if_neg hp, free_of_forall_ne hr (.inl (Int64.not_lt.1 hp))]
    exact himp

/-! ## Runs that stay below a limit -/

/-- As long as `e` is a `long` it is `pos` itself. -/
theorem Implements.pos_toInt (himp : Implements lo hi h bs e) (he : e < 2 ^ 63) :
    h.pos.toInt = e := by
  have hlo := Int64.le_toInt lo
  have hle := himp.tiles.le
  rw [himp.pos]
  exact Int64.toInt_ofInt_of_le (by omega) he

/-- A request that there is room for leaves the end of the tiling at or below the limit. -/
theorem Implements.end_le (himp : Implements lo hi h bs e) (he : e ≤ lim) (hlim : lim < 2 ^ 63)
    (hroom : RoomFor lim h n) : (if h.hasFit n then e else e + n.toInt) ≤ lim := by
  rw [RoomFor, himp.pos_toInt (he.trans_lt hlim)] at hroom
  split
  next => exact he
  next hnot => exact hroom.resolve_left hnot

/-- One call. It keeps a limit that there is room up to. -/
theorem Implements.step (himp : Implements lo hi h bs e) (c : Call) :
    ∃ bs' e', Implements lo hi (h.step c) bs' e' ∧
      ∀ lim, e ≤ lim → lim < 2 ^ 63 → RoomUpTo lim h c → e' ≤ lim := by
  cases c with
  | free p => exact ⟨_, e, himp.free, fun _ he _ _ => he⟩
  | allocate n =>
    by_cases hn : n < 0
    · -- A negative request returns `0` and changes nothing.
      rw [HeapAllocator.step, allocate_of_neg hn]
      exact ⟨bs, e, himp, fun _ he _ _ => he⟩
    · have hn' := Int64.not_lt.1 hn
      exact ⟨_, _, (himp.allocate hn').2, fun _ he hlim hroom => himp.end_le he hlim (hroom hn')⟩

/-- Every run keeps the invariant, also one in which a `long` overflows. -/
theorem exists_implements_of_run (himp : Implements lo hi h bs e) (calls : List Call) :
    ∃ bs' e', Implements lo hi (h.run calls) bs' e' := by
  induction calls generalizing h bs e with
  | nil => exact ⟨bs, e, himp⟩
  | cons c calls ih =>
    obtain ⟨bs', e', himp', -⟩ := himp.step c
    exact ih himp'

theorem exists_implements_run_of (himp : Implements lo hi h bs e) (he : e ≤ lim)
    (hlim : lim < 2 ^ 63) (hroom : AllCalls (RoomUpTo lim) h calls) :
    ∃ bs' e', Implements lo hi (h.run calls) bs' e' ∧ e' ≤ lim := by
  induction calls generalizing h bs e with
  | nil => exact ⟨bs, e, himp, he⟩
  | cons c calls ih =>
    obtain ⟨bs', e', himp', hle⟩ := himp.step c
    exact ih himp' (hle lim he hlim hroom.1) hroom.2

/-- Every state that is reached while the calls stay below a limit stores a tiling of
`[begin_, pos)`, and `pos` is at most the limit. -/
theorem exists_implements_run (hlo : lo.toInt ≤ lim) (hlim : lim < 2 ^ 63)
    (hroom : AllCalls (RoomUpTo lim) (init lo hi) calls) :
    ∃ bs, Implements lo hi ((init lo hi).run calls) bs ((init lo hi).run calls).pos.toInt ∧
      ((init lo hi).run calls).pos.toInt ≤ lim := by
  obtain ⟨bs, e, himp', he⟩ := exists_implements_run_of (implements_init lo hi) hlo hlim hroom
  rw [himp'.pos_toInt (he.trans_lt hlim)]
  exact ⟨bs, himp', he⟩

/-! ## The objects of the block list -/

/-- The block objects reached from `head`. -/
def blockRefs (h : HeapAllocator) : List ℕ := walk (fun r => (h.objects r).next) h.count h.head

/-- The block that an object stores. -/
def block (h : HeapAllocator) (r : ℕ) : Block :=
  ⟨(h.objects r).address.toInt, (h.objects r).size.toInt, (h.objects r).free⟩

/-- The block list of the allocator. -/
def blocks (h : HeapAllocator) : List Block := h.blockRefs.map h.block

theorem size_lt_of_mem_blocks (hb : b ∈ h.blocks) : b.size < 2 ^ 63 := by
  obtain ⟨r, -, rfl⟩ := List.mem_map.1 hb
  exact Int64.toInt_lt _

/-- The representation invariant: the list from `head` ends, visits no object twice, tiles
`[begin_, pos)` and has no two consecutive free blocks. -/
structure WellFormed (h : HeapAllocator) : Prop where
  ends : IsChain (fun r => (h.objects r).next) h.head h.blockRefs
  acyclic : h.blockRefs.Nodup
  tiles : Tiles h.begin_.toInt h.blocks h.pos.toInt
  coalesced : Coalesced h.blocks

theorem Represents.blockRefs_eq {refs : List ℕ} {abs : ℕ → Block} (hr : Represents h refs abs) :
    h.blockRefs = refs :=
  walk_eq hr.chain (Nat.le_of_lt_succ hr.length_lt)

/-- A block as the fields of an object store it. -/
def inLongs (b : Block) : Block :=
  ⟨(Int64.ofInt b.address).toInt, (Int64.ofInt b.size).toInt, b.free⟩

theorem Implements.blocks_eq_map (himp : Implements lo hi h bs e) : h.blocks = bs.map inLongs := by
  obtain ⟨refs, abs, hr, rfl⟩ := himp.represents
  rw [blocks, hr.blockRefs_eq, List.map_map]
  refine List.map_congr_left fun r hmem => ?_
  have hm := hr.models r hmem
  rw [block, hm.address, hm.size, hm.free]
  rfl

/-- The objects store the abstract blocks themselves as long as these fit into `long`s. -/
theorem Implements.blocks_eq_of_lt (himp : Implements lo hi h bs e)
    (hlt : ∀ b ∈ bs, b.address < 2 ^ 63 ∧ b.size < 2 ^ 63) : h.blocks = bs := by
  have hself : ∀ b ∈ bs, inLongs b = b := by
    intro b hmem
    have hb := himp.tiles.bounds hmem
    obtain ⟨haddress, hsize⟩ := hlt b hmem
    have hlo := Int64.le_toInt lo
    rw [inLongs, Int64.toInt_ofInt_of_le (by omega) haddress,
      Int64.toInt_ofInt_of_le (by omega) hsize]
  rw [himp.blocks_eq_map, List.map_congr_left hself, List.map_id']

theorem Implements.blocks_eq (himp : Implements lo hi h bs e) (he : e < 2 ^ 63)
    (hsize : e - lo.toInt < 2 ^ 63) : h.blocks = bs := by
  refine himp.blocks_eq_of_lt fun b hmem => ?_
  -- Address and size of a block are at most `e`, respectively `e - lo`.
  have hb := himp.tiles.bounds hmem
  omega

theorem Implements.wellFormed (himp : Implements lo hi h bs e) (he : e < 2 ^ 63)
    (hsize : e - lo.toInt < 2 ^ 63) : WellFormed h := by
  obtain ⟨refs, abs, hr, hbs⟩ := himp.represents
  have hrefs := hr.blockRefs_eq
  have hblocks := himp.blocks_eq he hsize
  constructor
  · rw [hrefs]
    exact hr.chain
  · rw [hrefs]
    exact hr.chain.nodup
  · rw [hblocks, himp.begin_, himp.pos_toInt he]
    exact himp.tiles
  · rw [hblocks]
    exact himp.coalesced

/-- The largest end of the heap for which neither `pos` nor a block size overflows a `long`. -/
def lastPos (lo : Int64) : ℤ := min (2 ^ 63 - 1) (lo.toInt + (2 ^ 63 - 1))

theorem le_lastPos (lo : Int64) : lo.toInt ≤ lastPos lo := by
  have hlo := Int64.toInt_lt lo
  exact le_min (by omega) (by omega)

theorem lt_of_le_lastPos (he : e ≤ lastPos lo) : e < 2 ^ 63 ∧ e - lo.toInt < 2 ^ 63 := by
  have hleft := he.trans (min_le_left _ _)
  have hright := he.trans (min_le_right _ _)
  omega

/-- The representation invariant holds in every state of a run whose calls do not overflow. -/
theorem wellFormed_run (lo hi : Int64) (calls : List Call)
    (hroom : AllCalls (RoomUpTo (lastPos lo)) (init lo hi) calls) :
    WellFormed ((init lo hi).run calls) := by
  obtain ⟨bs, himp, hle⟩ := exists_implements_run (le_lastPos lo) (lt_of_le_lastPos le_rfl).1 hroom
  exact himp.wellFormed (lt_of_le_lastPos hle).1 (lt_of_le_lastPos hle).2

/-- A run with splits, a merge on either side and an unknown address meets the condition. -/
theorem wellFormed_run_small :
    WellFormed ((init 0xD0000000 0xD0200000).run
      [.allocate 16, .allocate 8, .allocate 8, .free 0xD0000000, .allocate 4, .free 5,
        .free 0xD0000018, .free 0xD0000010, .allocate (-1)]) :=
  wellFormed_run _ _ _ (by decide +kernel)

/-- `allocate` never looks at `end_`: two requests of `2 ^ 62` bytes are granted, and joining
them after both are freed overflows the size of the block. -/
theorem not_wellFormed_overflow :
    ¬WellFormed ((init 0xD0000000 0xD0200000).run
      [.allocate 0x4000000000000000, .allocate 0x4000000000000000, .free 0xD0000000,
        .free 0x40000000D0000000]) := by
  intro hwf
  have hblocks : ((init 0xD0000000 0xD0200000).run
      [.allocate 0x4000000000000000, .allocate 0x4000000000000000, .free 0xD0000000,
        .free 0x40000000D0000000]).blocks = [⟨0xD0000000, -2 ^ 63, true⟩] := by
    decide +kernel
  -- The joined block has a negative size, which no block of a tiling has.
  have htiles := hwf.tiles
  rw [hblocks] at htiles
  exact absurd htiles.2.1 (by norm_num)

/-! ## The mapped region -/

/-- `allocate` refuses a request: an error or `0`, and nothing changes. -/
def Refuses (h : HeapAllocator) (n : Int64) : Prop :=
  (h.allocate n).1 = h ∧ ((h.allocate n).2 = .ok 0 ∨ ∃ fault, (h.allocate n).2 = .error fault)

/-- A request is met inside `[begin_, end_)`, and refused if that is not possible. -/
structure StaysInRegion (h : HeapAllocator) (n : Int64) : Prop where
  inside : ∀ p, (h.allocate n).2 = .ok p →
    Refuses h n ∨ h.begin_.toInt ≤ p.toInt ∧ p.toInt + n.toInt ≤ h.end_.toInt
  refused : ¬RoomFor h.end_.toInt h n → Refuses h n

/-- While every request so far could be met inside the region, the next one is treated properly
exactly if it can be met inside it too: the others are granted past `end_`. -/
theorem staysInRegion_run_iff (lo hi : Int64) (hlohi : lo ≤ hi) (calls : List Call)
    (hroom : AllCalls (RoomUpTo hi.toInt) (init lo hi) calls) (n : Int64) (hn : 0 ≤ n) :
    StaysInRegion ((init lo hi).run calls) n ↔ RoomFor hi.toInt ((init lo hi).run calls) n := by
  obtain ⟨bs, himp, hpos⟩ := exists_implements_run (Int64.le_iff_toInt_le.1 hlohi)
    (Int64.toInt_lt hi) hroom
  generalize (init lo hi).run calls = h at himp hpos ⊢
  have hhi := Int64.toInt_lt hi
  constructor
  · -- A request without room is granted by moving `pos`.
    intro hstays
    rw [← himp.end_]
    by_contra hno
    have hsame : (h.allocate n).1.pos = h.pos := by rw [(hstays.refused hno).1]
    rw [(himp.allocate hn).2.pos, himp.pos] at hsame
    rw [RoomFor, himp.end_, not_or] at hno
    rw [if_neg hno.1, Int64.ofInt_add, Int64.ofInt_toInt, Int64.ofInt_toInt] at hsame
    have hzero : n = 0 := by simpa using hsame
    subst hzero
    exact hno.2 (by simpa using hpos)
  · intro hfit
    constructor
    · intro p hp
      right
      rw [(himp.allocate hn).1, Except.ok.injEq] at hp
      obtain ⟨hge, hle⟩ := himp.takenAt_bounds hn
      have hend := himp.end_le hpos hhi hfit
      rw [← hp, himp.begin_, himp.end_, himp.takenAt_toInt hn (hend.trans_lt hhi)]
      exact ⟨hge, hle.trans hend⟩
    · intro hno
      rw [himp.end_] at hno
      exact absurd hfit hno

theorem staysInRegion_run_small :
    StaysInRegion ((init 0xD0000000 0xD0200000).run
      [.allocate 0x100000, .allocate 0x100000, .free 0xD0000000]) 0x80000 :=
  (staysInRegion_run_iff 0xD0000000 0xD0200000 (by decide) _ (by decide +kernel) 0x80000
    (by decide)).2 (by decide +kernel)

/-- The first request of a fresh heap is granted even if it is larger than the heap. -/
theorem not_staysInRegion_init : ¬StaysInRegion (init 0xD0000000 0xD0200000) 0x200001 := by
  intro hstays
  have hgrant : ((init 0xD0000000 0xD0200000).allocate 0x200001).2 = .ok 0xD0000000 := by
    decide +kernel
  rcases hstays.inside 0xD0000000 hgrant with hrefuse | hinside
  · rcases hrefuse.2 with hzero | ⟨fault, herror⟩
    · rw [hgrant] at hzero
      exact absurd (Except.ok.inj hzero) (by decide)
    · rw [hgrant] at herror
      exact absurd herror (by simp)
  · exact absurd hinside.2 (by decide)

end HeapAllocator

end Tank
