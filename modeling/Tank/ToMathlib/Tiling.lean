import Tank.ToMathlib.Chain
import Mathlib.Data.List.Chain
import Mathlib.Data.List.Pairwise
import Mathlib.Tactic.Linarith

/-!
# Block lists that tile an interval

The abstract view of an address-ordered allocator: a list of blocks, each free or used, that
tiles an integer interval `[a, e)` without gaps. Blocks may be empty. The two operations are

* `takeFirst ok n e`: cut `n` bytes off the front of the first block that `ok` selects and mark
  them used, or append a used block at the end `e` when no block is selected;
* `release hit`: mark the first block that `hit` selects free and join it with a free neighbour
  on either side.

Both keep the tiling (`Tiles.takeFirst`, `Tiles.release`) and the absence of adjacent free blocks
(`Coalesced.takeFirst`, `Coalesced.release`). What they do to the used blocks is read off the
sublist `used` (`used_takeFirst_of_first`, `used_release_of_first`), and on a tiling the used
blocks determine the status of every byte (`Tiles.freeAt_iff`). `takeFirst` takes from the lowest
selected block (`Tiles.takenAt_le`) and changes the status of the bytes it takes and of no other
(`usedAt_takeFirst`, `Tiles.freeAt_takeFirst`).
-/

namespace ToMathlib

/-- A block of addresses `[address, address + size)`, free or used. -/
structure Block where
  /-- First address of the block. -/
  address : ℤ
  /-- Number of addresses in the block. -/
  size : ℤ
  /-- Whether the block is free. -/
  free : Bool
deriving DecidableEq, Repr

/-- The address `x` lies in the block. -/
def Block.Contains (b : Block) (x : ℤ) : Prop := b.address ≤ x ∧ x < b.address + b.size

/-- The blocks `bs` tile `[a, e)`: the first starts at `a`, each starts where the one before
ends, the last ends at `e`, and no size is negative. -/
def Tiles : ℤ → List Block → ℤ → Prop
  | a, [], e => a = e
  | a, b :: bs, e => b.address = a ∧ 0 ≤ b.size ∧ Tiles (a + b.size) bs e

/-- No two adjacent blocks are both free. -/
def Coalesced (bs : List Block) : Prop :=
  bs.IsChain fun b c => ¬(b.free = true ∧ c.free = true)

/-- The used blocks, in address order. -/
def used (bs : List Block) : List Block := bs.filter fun b => !b.free

/-- The address `x` belongs to a used block. -/
def UsedAt (bs : List Block) (x : ℤ) : Prop := ∃ b ∈ bs, b.free = false ∧ b.Contains x

/-- The address `x` belongs to a free block. -/
def FreeAt (bs : List Block) (x : ℤ) : Prop := ∃ b ∈ bs, b.free = true ∧ b.Contains x

instance (b : Block) (x : ℤ) : Decidable (b.Contains x) := inferInstanceAs (Decidable (_ ∧ _))

instance (bs : List Block) (x : ℤ) : Decidable (UsedAt bs x) :=
  inferInstanceAs (Decidable (∃ b ∈ bs, _))

instance (bs : List Block) (x : ℤ) : Decidable (FreeAt bs x) :=
  inferInstanceAs (Decidable (∃ b ∈ bs, _))

/-- Cut `n` bytes off the first block that `ok` selects, or append `n` bytes at `e`. -/
def takeFirst (ok : Block → Bool) (n e : ℤ) : List Block → List Block
  | [] => [⟨e, n, false⟩]
  | b :: bs =>
    if ok b then ⟨b.address, n, false⟩ :: ⟨b.address + n, b.size - n, true⟩ :: bs
    else b :: takeFirst ok n e bs

/-- The address that `takeFirst ok n e` takes its bytes from. -/
def takenAt (ok : Block → Bool) (e : ℤ) (bs : List Block) : ℤ :=
  ((bs.find? ok).map Block.address).getD e

/-- Join the first two blocks if both are free. -/
def mergeHead : List Block → List Block
  | b :: c :: bs =>
    if b.free && c.free then { b with size := b.size + c.size } :: bs else b :: c :: bs
  | bs => bs

/-- Mark the first block that `hit` selects free, then join it with its successor and with its
predecessor where these are free. -/
def release (hit : Block → Bool) : List Block → List Block
  | [] => []
  | b :: bs =>
    if hit b then mergeHead ({ b with free := true } :: bs)
    else
      match bs with
      | [] => [b]
      | c :: cs =>
        if hit c then mergeHead (b :: mergeHead ({ c with free := true } :: cs))
        else b :: release hit (c :: cs)

variable {a e n x : ℤ} {b c : Block} {bs pre post : List Block} {ok hit : Block → Bool}

/-! ## The operations on a list split at the selected block -/

theorem mergeHead_cons_cons :
    mergeHead (b :: c :: bs) =
      if b.free && c.free then { b with size := b.size + c.size } :: bs else b :: c :: bs := rfl

/-- If no block fits, one is added at the end. -/
theorem takeFirst_of_forall_not (h : ∀ b ∈ bs, ok b = false) :
    takeFirst ok n e bs = bs ++ [⟨e, n, false⟩] := by
  induction bs with
  | nil => rfl
  | cons b bs ih =>
    have hb : ok b = false := h b List.mem_cons_self
    rw [takeFirst, if_neg (by simp [hb]), ih fun c hc => h c (List.mem_cons_of_mem b hc)]
    rfl

/-- The first block that fits is split. -/
theorem takeFirst_of_first (hpre : ∀ c ∈ pre, ok c = false) (hb : ok b = true) :
    takeFirst ok n e (pre ++ b :: post) =
      pre ++ ⟨b.address, n, false⟩ :: ⟨b.address + n, b.size - n, true⟩ :: post := by
  induction pre with
  | nil => simp [takeFirst, hb]
  | cons c pre ih =>
    have hc : ok c = false := hpre c List.mem_cons_self
    rw [List.cons_append, takeFirst, if_neg (by simp [hc]),
      ih fun d hd => hpre d (List.mem_cons_of_mem c hd)]
    rfl

theorem takenAt_of_forall_not (h : ∀ b ∈ bs, ok b = false) : takenAt ok e bs = e := by
  have hfind : bs.find? ok = none := List.find?_eq_none.2 fun b hb => by simp [h b hb]
  rw [takenAt, hfind]
  rfl

/-- The block is taken at the start of the first one that fits. -/
theorem takenAt_of_first (hpre : ∀ c ∈ pre, ok c = false) (hb : ok b = true) :
    takenAt ok e (pre ++ b :: post) = b.address := by
  have hfind : (pre ++ b :: post).find? ok = some b :=
    List.find?_eq_some_iff_append.2 ⟨hb, pre, post, rfl, fun c hc => by simp [hpre c hc]⟩
  rw [takenAt, hfind]
  rfl

/-- If no block is hit, nothing happens. -/
theorem release_of_forall_not (h : ∀ b ∈ bs, hit b = false) : release hit bs = bs := by
  fun_induction release hit bs with
  | case1 => rfl
  | case2 b bs hb => simp [h b List.mem_cons_self] at hb
  | case3 b hb => rfl
  | case4 b hb c cs hc => simp [h c (by simp)] at hc
  | case5 b hb c cs hc ih => rw [ih fun d hd => h d (List.mem_cons_of_mem b hd)]

theorem release_of_first_nil (hb : hit b = true) :
    release hit (b :: post) = mergeHead ({ b with free := true } :: post) := by
  unfold release
  rw [if_pos hb]

/-- A freed block is merged with the next one, and then the one before with both. -/
theorem release_of_first_snoc {q : Block} (hpre : ∀ c ∈ pre, hit c = false) (hq : hit q = false)
    (hb : hit b = true) :
    release hit (pre ++ q :: b :: post) =
      pre ++ mergeHead (q :: mergeHead ({ b with free := true } :: post)) := by
  induction pre with
  | nil => simp [release, hq, hb]
  | cons c pre ih =>
    have hc : hit c = false := hpre c List.mem_cons_self
    have ih := ih fun d hd => hpre d (List.mem_cons_of_mem c hd)
    -- The block after `c` is not the selected one either: it is the head of `pre` or `q`.
    cases pre with
    | nil => simp [release, hc, hq, hb]
    | cons d pre =>
      have hd : hit d = false := hpre d (by simp)
      rw [List.cons_append] at ih
      simp [release, hc, hd, ih]

/-! ## Tilings -/

@[simp]
theorem tiles_nil : Tiles a [] e ↔ a = e := Iff.rfl

@[simp]
theorem tiles_cons :
    Tiles a (b :: bs) e ↔ b.address = a ∧ 0 ≤ b.size ∧ Tiles (a + b.size) bs e := Iff.rfl

/-- Tilings one after the other. -/
theorem tiles_append :
    Tiles a (pre ++ post) e ↔ ∃ m, Tiles a pre m ∧ Tiles m post e := by
  induction pre generalizing a with
  | nil => simp
  | cons b pre ih => simp [ih, and_assoc]

theorem Tiles.le (h : Tiles a bs e) : a ≤ e := by
  induction bs generalizing a with
  | nil => exact le_of_eq h
  | cons b bs ih =>
    have := ih h.2.2
    have := h.2.1
    linarith

/-- Every block of a tiling lies inside the tiled interval. -/
theorem Tiles.bounds (h : Tiles a bs e) (hb : b ∈ bs) :
    a ≤ b.address ∧ 0 ≤ b.size ∧ b.address + b.size ≤ e := by
  obtain ⟨pre, post, rfl⟩ := List.append_of_mem hb
  obtain ⟨m, hpre, rfl, hsize, hpost⟩ := tiles_append.1 h
  exact ⟨hpre.le, hsize, hpost.le⟩

/-- The blocks of a tiling are laid out in address order. -/
theorem Tiles.pairwise (h : Tiles a bs e) :
    bs.Pairwise fun b c => b.address + b.size ≤ c.address := by
  induction bs generalizing a with
  | nil => exact List.Pairwise.nil
  | cons b bs ih =>
    refine List.pairwise_cons.2 ⟨fun c hc => ?_, ih h.2.2⟩
    rw [h.1]
    exact (h.2.2.bounds hc).1

/-- The blocks of a tiling cover the tiled interval. -/
theorem Tiles.exists_contains (h : Tiles a bs e) (hx : a ≤ x) (hx' : x < e) :
    ∃ b ∈ bs, b.Contains x := by
  induction bs generalizing a with
  | nil => exact absurd (h ▸ hx) (not_le.2 hx')
  | cons b bs ih =>
    -- `x` is in the first block or in the interval that the others tile.
    by_cases hlt : x < a + b.size
    · exact ⟨b, List.mem_cons_self, by rw [h.1]; exact hx, by rw [h.1]; exact hlt⟩
    · obtain ⟨c, hc, hcx⟩ := ih h.2.2 (not_lt.1 hlt)
      exact ⟨c, List.mem_cons_of_mem b hc, hcx⟩

/-- No address lies in two different blocks of a tiling, even if the blocks are equal as records:
the blocks before and after a containing one do not contain it. -/
theorem Tiles.not_contains_of_split (h : Tiles a (pre ++ b :: post) e) (hx : b.Contains x) :
    ∀ c ∈ pre ++ post, ¬c.Contains x := by
  have hpw := List.pairwise_append.1 h.pairwise
  have hpost := (List.pairwise_cons.1 hpw.2.1).1
  intro c hc hcx
  rcases List.mem_append.1 hc with hc | hc
  · have := hpw.2.2 c hc b List.mem_cons_self
    exact absurd (lt_of_lt_of_le hcx.2 this) (not_lt.2 hx.1)
  · have := hpost c hc
    exact absurd (lt_of_lt_of_le hx.2 this) (not_lt.2 hcx.1)

/-- An address is in one block only. -/
theorem Tiles.eq_of_contains (h : Tiles a bs e) (hb : b ∈ bs) (hc : c ∈ bs)
    (hbx : b.Contains x) (hcx : c.Contains x) : b = c := by
  obtain ⟨pre, post, rfl⟩ := List.append_of_mem hb
  have hnot := h.not_contains_of_split hbx
  rcases List.mem_append.1 hc with hc | hc
  · exact absurd hcx (hnot c (List.mem_append_left _ hc))
  · rcases List.mem_cons.1 hc with rfl | hc
    · rfl
    · exact absurd hcx (hnot c (List.mem_append_right _ hc))

/-- On a tiling, an address is free exactly when it is inside the tiled interval and not used. -/
theorem Tiles.freeAt_iff (h : Tiles a bs e) : FreeAt bs x ↔ a ≤ x ∧ x < e ∧ ¬UsedAt bs x := by
  constructor
  · rintro ⟨b, hb, hfree, hbx⟩
    have hbounds := h.bounds hb
    refine ⟨hbounds.1.trans hbx.1, lt_of_lt_of_le hbx.2 hbounds.2.2, ?_⟩
    -- The one block that contains `x` cannot be free and used.
    rintro ⟨c, hc, hused, hcx⟩
    rw [h.eq_of_contains hb hc hbx hcx, hused] at hfree
    exact Bool.false_ne_true hfree
  · rintro ⟨hx, hx', hnot⟩
    obtain ⟨b, hb, hbx⟩ := h.exists_contains hx hx'
    refine ⟨b, hb, ?_, hbx⟩
    by_contra hfree
    exact hnot ⟨b, hb, Bool.eq_false_iff.2 hfree, hbx⟩

/-! ## The operations keep the tiling -/

/-- Merging keeps the tiling. -/
theorem Tiles.mergeHead (h : Tiles a bs e) : Tiles a (mergeHead bs) e := by
  unfold ToMathlib.mergeHead
  split
  next b c bs =>
    obtain ⟨hb, hbsize, hc, hcsize, hrest⟩ := h
    split
    · exact ⟨hb, add_nonneg hbsize hcsize, by simpa [add_assoc] using hrest⟩
    · exact ⟨hb, hbsize, hc, hcsize, hrest⟩
  next => exact h

/-- So does taking a block. -/
theorem Tiles.takeFirst (h : Tiles a bs e) (hn : 0 ≤ n)
    (hok : ∀ b ∈ bs, ok b = true → n ≤ b.size) :
    ∃ e', Tiles a (takeFirst ok n e bs) e' ∧
      e' = if bs.any ok then e else e + n := by
  induction bs generalizing a with
  | nil => exact ⟨e + n, ⟨h.symm, hn, by rw [tiles_nil, h]⟩, by simp⟩
  | cons b bs ih =>
    obtain ⟨hb, hsize, hrest⟩ := h
    rw [ToMathlib.takeFirst]
    by_cases hsel : ok b = true
    · rw [if_pos hsel]
      have hle := hok b List.mem_cons_self hsel
      -- The two halves cover what `b` covered, so the tail starts where it did.
      refine ⟨e, ⟨hb, hn, by simp [hb], by simpa using hle, ?_⟩, by simp [hsel]⟩
      simpa [add_assoc] using hrest
    · rw [if_neg hsel]
      obtain ⟨e', htiles, he'⟩ := ih hrest fun c hc => hok c (List.mem_cons_of_mem b hc)
      exact ⟨e', ⟨hb, hsize, htiles⟩, by simpa [hsel] using he'⟩

theorem Tiles.markFree (h : Tiles a (b :: bs) e) :
    Tiles a (ToMathlib.mergeHead ({ b with free := true } :: bs)) e := by
  apply Tiles.mergeHead
  exact h

/-- So does giving one back. -/
theorem Tiles.release (h : Tiles a bs e) : Tiles a (release hit bs) e := by
  fun_induction ToMathlib.release hit bs generalizing a with
  | case1 => exact h
  | case2 b bs hb => exact h.markFree
  | case3 b hb => exact h
  | case4 b hb c cs hc => exact Tiles.mergeHead ⟨h.1, h.2.1, Tiles.markFree h.2.2⟩
  | case5 b hb c cs hc ih => exact ⟨h.1, h.2.1, ih h.2.2⟩

/-! ## The operations keep free blocks apart -/

theorem Coalesced.tail (h : Coalesced (b :: bs)) : Coalesced bs := List.IsChain.tail h

theorem coalesced_cons_cons :
    Coalesced (b :: c :: bs) ↔ ¬(b.free = true ∧ c.free = true) ∧ Coalesced (c :: bs) :=
  List.isChain_cons_cons

/-- A block list whose head has the free flag of `c` may follow whatever `c` may follow. -/
theorem Coalesced.cons_of_head {bs' : List Block} (h : Coalesced (b :: c :: bs))
    (h' : Coalesced bs') (hhead : ∀ d ∈ bs'.head?, d.free = true → c.free = true) :
    Coalesced (b :: bs') :=
  List.isChain_cons.2 ⟨fun d hd hfree =>
    (coalesced_cons_cons.1 h).1 ⟨hfree.1, hhead d hd hfree.2⟩, h'⟩

theorem head?_mergeHead_cons : ∃ d, (mergeHead (b :: bs)).head? = some d ∧ d.free = b.free := by
  cases bs with
  | nil => exact ⟨b, rfl, rfl⟩
  | cons c bs =>
    rw [mergeHead_cons_cons]
    split
    · exact ⟨_, rfl, rfl⟩
    · exact ⟨b, rfl, rfl⟩

/-- Joining the first two blocks repairs the only place where free blocks could meet. -/
theorem Coalesced.mergeHead_cons (h : Coalesced bs) : Coalesced (mergeHead (b :: bs)) := by
  cases bs with
  | nil => exact List.isChain_singleton b
  | cons c bs =>
    rw [mergeHead_cons_cons]
    split
    next hfree =>
      rw [Bool.and_eq_true] at hfree
      exact List.isChain_cons.2 ⟨fun d hd hboth =>
        (List.isChain_cons.1 h).1 d hd ⟨hfree.2, hboth.2⟩, h.tail⟩
    next hfree =>
      rw [Bool.and_eq_true] at hfree
      exact coalesced_cons_cons.2 ⟨hfree, h⟩

theorem head?_release_cons (hb : hit b = false) :
    ∃ d, (release hit (b :: bs)).head? = some d ∧ d.free = b.free := by
  unfold release
  rw [if_neg (by simp [hb])]
  cases bs with
  | nil => exact ⟨b, rfl, rfl⟩
  | cons c bs =>
    by_cases hc : hit c = true
    · simpa [hc] using head?_mergeHead_cons
    · exact ⟨b, by simp [hc], rfl⟩

/-- After a release no free blocks are neighbours. -/
theorem Coalesced.release (h : Coalesced bs) : Coalesced (release hit bs) := by
  fun_induction ToMathlib.release hit bs with
  | case1 => exact h
  | case2 b bs hb => exact h.tail.mergeHead_cons
  | case3 b hb => exact h
  | case4 b hb c cs hc => exact h.tail.tail.mergeHead_cons.mergeHead_cons
  | case5 b hb c cs hc ih =>
    -- Releasing a later block never turns `c`, the block after `b`, free.
    refine h.cons_of_head (ih h.tail) fun d hd hfree => ?_
    obtain ⟨d', hd', hfree'⟩ := head?_release_cons (Bool.eq_false_iff.2 hc)
    obtain rfl : d' = d := Option.some.inj (hd'.symm.trans hd)
    rw [← hfree', hfree]

/-- Nor after a block was taken. -/
theorem Coalesced.takeFirst (h : Coalesced bs) (hok : ∀ b ∈ bs, ok b = true → b.free = true) :
    Coalesced (takeFirst ok n e bs) := by
  induction bs with
  | nil => exact List.isChain_singleton _
  | cons b bs ih =>
    rw [ToMathlib.takeFirst]
    by_cases hsel : ok b = true
    · rw [if_pos hsel]
      have hfree := hok b List.mem_cons_self hsel
      -- The taken half is used, and the free rest follows nothing that `b` did not precede.
      refine coalesced_cons_cons.2 ⟨by simp, List.isChain_cons.2 ⟨fun d hd hboth => ?_, h.tail⟩⟩
      exact (List.isChain_cons.1 h).1 d hd ⟨hfree, hboth.2⟩
    · rw [if_neg hsel]
      have ih := ih h.tail fun c hc => hok c (List.mem_cons_of_mem b hc)
      -- `b` stays; its new successor is free only if the old one was.
      cases bs with
      | nil => exact coalesced_cons_cons.2 ⟨by simp, List.isChain_singleton _⟩
      | cons c bs =>
        refine h.cons_of_head ih fun d hd hfree => ?_
        rw [ToMathlib.takeFirst] at hd
        by_cases hc : ok c = true
        · exact hok c (by simp) hc
        · rw [if_neg hc, List.head?_cons, Option.mem_some_iff] at hd
          rw [hd, hfree]

/-! ## The used blocks -/

@[simp]
theorem used_nil : used [] = [] := rfl

@[simp]
theorem used_append : used (pre ++ post) = used pre ++ used post := List.filter_append ..

theorem used_cons_of_free (h : b.free = true) : used (b :: bs) = used bs := by
  simp [used, h]

theorem used_cons_of_used (h : b.free = false) : used (b :: bs) = b :: used bs := by
  simp [used, h]

theorem mem_used : b ∈ used bs ↔ b ∈ bs ∧ b.free = false := by
  simp [used]

theorem usedAt_iff : UsedAt bs x ↔ ∃ b ∈ used bs, b.Contains x := by
  simp only [UsedAt, mem_used, and_assoc]

/-- Merging free blocks does not concern the used ones. -/
theorem used_mergeHead : used (mergeHead bs) = used bs := by
  unfold mergeHead
  split
  next b c bs =>
    split
    next hfree =>
      rw [Bool.and_eq_true] at hfree
      have hjoined : ({ b with size := b.size + c.size } : Block).free = true := hfree.1
      rw [used_cons_of_free hjoined, used_cons_of_free hfree.1, used_cons_of_free hfree.2]
    next => rfl
  next => rfl

theorem used_takeFirst_of_forall_not (h : ∀ b ∈ bs, ok b = false) :
    used (takeFirst ok n e bs) = used bs ++ [⟨e, n, false⟩] := by
  rw [takeFirst_of_forall_not h, used_append, used_cons_of_used rfl, used_nil]

/-- The block that was taken is used. -/
theorem used_takeFirst_of_first (hpre : ∀ c ∈ pre, ok c = false) (hb : ok b = true) :
    used (takeFirst ok n e (pre ++ b :: post)) =
      used pre ++ ⟨b.address, n, false⟩ :: used post := by
  rw [takeFirst_of_first hpre hb, used_append, used_cons_of_used rfl, used_cons_of_free rfl]

/-- Taking adds one used block and leaves the other used blocks alone. -/
theorem used_takeFirst_perm (hok : ∀ b ∈ bs, ok b = true → b.free = true) :
    (used (takeFirst ok n e bs)).Perm (⟨takenAt ok e bs, n, false⟩ :: used bs) := by
  rcases forall_not_or_first ok bs with hnot | ⟨pre, b, post, rfl, hb, hpre⟩
  · rw [used_takeFirst_of_forall_not hnot, takenAt_of_forall_not hnot]
    exact List.perm_append_singleton _ _
  · rw [used_takeFirst_of_first hpre hb, takenAt_of_first hpre hb, used_append,
      used_cons_of_free (hok b (by simp) hb)]
    exact List.perm_middle

/-- Releasing removes at most the selected block from the used ones; joining free blocks leaves
the used ones alone. -/
theorem used_release_of_first (hpre : ∀ c ∈ pre, hit c = false) (hb : hit b = true) :
    used (release hit (pre ++ b :: post)) = used pre ++ used post := by
  have hmark : used (mergeHead ({ b with free := true } :: post)) = used post := by
    rw [used_mergeHead, used_cons_of_free rfl]
  -- The selected block is the first one, or there is a block `q` before it to join with.
  rcases List.eq_nil_or_concat' pre with rfl | ⟨pre, q, rfl⟩
  · rw [List.nil_append, release_of_first_nil hb, hmark, used_nil, List.nil_append]
  · have hq : hit q = false := hpre q (by simp)
    rw [List.append_assoc, List.singleton_append,
      release_of_first_snoc (fun c hc => hpre c (List.mem_append_left _ hc)) hq hb,
      used_append, used_mergeHead, used_append, List.append_assoc]
    -- Whether `q` is used decides if it survives the filter on both sides.
    congr 1
    cases hfree : q.free
    · rw [used_cons_of_used hfree, hmark, used_cons_of_used hfree, used_nil, List.singleton_append]
    · rw [used_cons_of_free hfree, hmark, used_cons_of_free hfree, used_nil, List.nil_append]

/-- Releasing a free block keeps the used blocks, releasing a used one removes it. -/
theorem used_release_cases (post : List Block) (hpre : ∀ c ∈ pre, hit c = false)
    (hb : hit b = true) :
    b.free = true ∧ used (release hit (pre ++ b :: post)) = used (pre ++ b :: post) ∨
      b.free = false ∧
        (used (pre ++ b :: post)).Perm (b :: used (release hit (pre ++ b :: post))) := by
  rw [used_release_of_first hpre hb, used_append]
  cases hfree : b.free with
  | true => exact .inl ⟨rfl, by rw [used_cons_of_free hfree]⟩
  | false =>
    rw [used_cons_of_used hfree]
    exact .inr ⟨rfl, List.perm_middle⟩

/-- The used blocks of a tiling do not overlap. -/
theorem Tiles.pairwise_used (h : Tiles a bs e) :
    (used bs).Pairwise fun b c => ∀ x, ¬(b.Contains x ∧ c.Contains x) := by
  refine (h.pairwise.sublist List.filter_sublist).imp fun hle x hx => ?_
  have hb := hx.1.2
  have hc := hx.2.1
  omega

theorem Tiles.not_contains_of_perm {us : List Block} (h : Tiles a bs e)
    (hperm : (used bs).Perm (b :: us)) (hx : b.Contains x) : ∀ c ∈ us, ¬c.Contains x := by
  have hsymm : ∀ {b c : Block}, (∀ x, ¬(b.Contains x ∧ c.Contains x)) →
      ∀ x, ¬(c.Contains x ∧ b.Contains x) := fun hne x hcb => hne x hcb.symm
  have hpw := (hperm.pairwise_iff hsymm).1 h.pairwise_used
  exact fun c hc hcx => (List.pairwise_cons.1 hpw).1 c hc x ⟨hx, hcx⟩

/-! ## What taking a block changes -/

theorem exists_takenAt (h : ∃ b ∈ bs, ok b = true) :
    ∃ b ∈ bs, ok b = true ∧ takenAt ok e bs = b.address := by
  rcases forall_not_or_first ok bs with hnot | ⟨pre, b, post, rfl, hb, hpre⟩
  · obtain ⟨b, hb, hok⟩ := h
    rw [hnot b hb] at hok
    cases hok
  · exact ⟨b, by simp, hb, takenAt_of_first hpre hb⟩

/-- The block that is taken from is the lowest of the selected ones. -/
theorem Tiles.takenAt_le (h : Tiles a bs e) (hb : b ∈ bs) (hok : ok b = true) :
    takenAt ok e bs ≤ b.address := by
  rcases forall_not_or_first ok bs with hnot | ⟨pre, c, post, rfl, hc, hpre⟩
  · rw [hnot b hb] at hok
    cases hok
  · rw [takenAt_of_first hpre hc]
    rcases List.mem_append.1 hb with hb | hb
    · rw [hpre b hb] at hok
      cases hok
    · rcases List.mem_cons.1 hb with rfl | hb
      · exact le_rfl
      · have hle := (List.pairwise_cons.1 (List.pairwise_append.1 h.pairwise).2.1).1 b hb
        have hsize := (h.bounds (b := c) (by simp)).2.1
        omega

variable (hn : 0 ≤ n) (hfree : ∀ b ∈ bs, ok b = true → b.free = true)
  (hsize : ∀ b ∈ bs, ok b = true → n ≤ b.size)

include hfree in
/-- The used addresses are those from before and the new ones. -/
theorem usedAt_takeFirst :
    UsedAt (takeFirst ok n e bs) x ↔
      UsedAt bs x ∨ (⟨takenAt ok e bs, n, false⟩ : Block).Contains x := by
  have hperm := used_takeFirst_perm (n := n) (e := e) hfree
  simp only [usedAt_iff, hperm.mem_iff, List.exists_mem_cons_iff]
  exact or_comm

include hn hfree hsize in
/-- The addresses that are taken were not used. -/
theorem Tiles.not_usedAt_of_taken (h : Tiles a bs e)
    (hx : (⟨takenAt ok e bs, n, false⟩ : Block).Contains x) : ¬UsedAt bs x := by
  obtain ⟨e', htiles, -⟩ := h.takeFirst hn hsize
  rw [usedAt_iff]
  rintro ⟨b, hb, hbx⟩
  exact htiles.not_contains_of_perm (used_takeFirst_perm hfree) hx b hb hbx

include hn hfree hsize in
/-- The addresses that are taken were free, or beyond the end, and the other ones stay what they
are. -/
theorem Tiles.freeAt_takeFirst (h : Tiles a bs e) :
    FreeAt (ToMathlib.takeFirst ok n e bs) x ↔
      FreeAt bs x ∧ ¬(⟨takenAt ok e bs, n, false⟩ : Block).Contains x := by
  obtain ⟨e', htiles, he'⟩ := h.takeFirst hn hsize
  rw [htiles.freeAt_iff, h.freeAt_iff, usedAt_takeFirst hfree]
  rcases forall_not_or_first ok bs with hnot | ⟨pre, b, post, rfl, hb, hpre⟩
  · -- The new block lies behind the tiled interval.
    have hany : bs.any ok = false := List.any_eq_false.2 (by simpa using hnot)
    rw [hany] at he'
    simp only [Block.Contains, takenAt_of_forall_not hnot, if_neg Bool.false_ne_true] at he' ⊢
    have hle := h.le
    constructor
    · rintro ⟨hx, hx', hused⟩
      rw [not_or] at hused
      exact ⟨⟨hx, by omega, hused.1⟩, hused.2⟩
    · rintro ⟨⟨hx, hx', hused⟩, hout⟩
      exact ⟨hx, by omega, not_or.2 ⟨hused, hout⟩⟩
  · have hany : (pre ++ b :: post).any ok = true := by simp [hb]
    rw [hany, if_pos rfl] at he'
    rw [he', not_or]
    simp only [and_assoc]

end ToMathlib
