import Tank.Memory.Heap.HeapAllocator
import Tank.ToMathlib.Tiling
import Mathlib.Data.List.Perm.Subperm

/-!
# The heap allocator refines the block-list model

`Represents h refs abs`: the block list of `h` visits the references `refs`, and the object `r`
stores the block `abs r`, its address and size reduced to a `long`. Under this relation

* `allocate n` is `takeFirst` with the code's own test `fits n` (`allocate_refines`);
* `free p` is `release` at the first block whose address is `p` (`free_refines`), and does
  nothing when `p ≤ 0` or no block has that address (`free_of_forall_ne`).

No absence of overflow is assumed here: addition and subtraction of `long`s commute with the
reduction, and the two comparisons of the code are kept as tests on the reduced values.
-/

namespace Tank

open ToMathlib

/-- The object stores the block, its address and size reduced to 64 bits. -/
structure HeapBlock.Models (o : HeapBlock) (b : Block) : Prop where
  address : o.address = Int64.ofInt b.address
  size : o.size = Int64.ofInt b.size
  free : o.free = b.free

theorem HeapBlock.Models.setFree {o : HeapBlock} {b : Block} (hm : o.Models b) (flag : Bool) :
    HeapBlock.Models { o with free := flag } { b with free := flag } :=
  ⟨hm.address, hm.size, rfl⟩

theorem HeapBlock.Models.setSize {o : HeapBlock} {b : Block} (hm : o.Models b) (n : Int64) :
    HeapBlock.Models { o with size := n } { b with size := n.toInt } :=
  ⟨hm.address, (Int64.ofInt_toInt n).symm, hm.free⟩

namespace HeapAllocator

/-- The block list of `h` visits `refs`, and each of these objects stores its block `abs r`. -/
structure Represents (h : HeapAllocator) (refs : List ℕ) (abs : ℕ → Block) : Prop where
  chain : IsChain (fun r => (h.objects r).next) h.head refs
  lt_count : ∀ r ∈ refs, r < h.count
  models : ∀ r ∈ refs, (h.objects r).Models (abs r)

/-- The code's test for a free block with at least `n` bytes, on an abstract block. -/
def fits (n : Int64) (b : Block) : Bool := b.free && decide (n ≤ Int64.ofInt b.size)

/-- The code's test for a block at address `p`, on an abstract block. -/
def isAt (p : Int64) (b : Block) : Bool := Int64.ofInt b.address == p

variable {h : HeapAllocator} {refs pre post : List ℕ} {abs : ℕ → Block} {r : ℕ} {n p : Int64}

/-! ## Searching the list -/

theorem Represents.length_lt (hr : Represents h refs abs) : refs.length < h.count + 1 := by
  -- A chain without repetition has at most as many objects as were created.
  have hsub : refs ⊆ List.range h.count := fun r hmem => List.mem_range.2 (hr.lt_count r hmem)
  have hle := (List.Nodup.subperm hr.chain.nodup hsub).length_le
  rw [List.length_range] at hle
  omega

theorem Represents.find_of_forall_not (hr : Represents h refs abs) {test : HeapBlock → Bool}
    (hnot : ∀ r ∈ refs, test (h.objects r) = false) :
    h.find test = some { block := none, prev := refs.getLast? } := by
  rw [find, search_eq_of_forall_not hr.chain hr.length_lt none hnot]
  simp

theorem Represents.find_of_first (hr : Represents h (pre ++ r :: post) abs)
    {test : HeapBlock → Bool} (hpre : ∀ s ∈ pre, test (h.objects s) = false)
    (htest : test (h.objects r) = true) :
    h.find test = some { block := some r, prev := pre.getLast? } := by
  rw [find, search_eq_of_first hr.chain hr.length_lt none hpre htest]
  simp

/-! ## Edits of the list -/

/-- The list does not read objects it does not visit. -/
theorem Represents.congr {h' : HeapAllocator} {abs' : ℕ → Block} (hr : Represents h refs abs)
    (hhead : h'.head = h.head) (hcount : h.count ≤ h'.count)
    (hobj : ∀ r ∈ refs, (h'.objects r).next = (h.objects r).next)
    (hmod : ∀ r ∈ refs, (h'.objects r).Models (abs' r)) : Represents h' refs abs' where
  chain := by
    rw [hhead]
    exact hr.chain.congr hobj
  lt_count r hmem := lt_of_lt_of_le (hr.lt_count r hmem) hcount
  models := hmod

/-- Setting fields other than `next` of one object changes the block it stores. -/
theorem Represents.modify (hr : Represents h refs abs) {f : HeapBlock → HeapBlock} {b : Block}
    (hnext : (f (h.objects r)).next = (h.objects r).next) (hmod : (f (h.objects r)).Models b) :
    Represents (h.modify r f) refs (Function.update abs r b) := by
  refine hr.congr rfl le_rfl (fun s hs => ?_) (fun s hs => ?_)
  · -- The links, and then the blocks, at `r` and elsewhere.
    rcases eq_or_ne s r with rfl | hne
    · simpa [HeapAllocator.modify] using hnext
    · simp [HeapAllocator.modify, hne]
  · rcases eq_or_ne s r with rfl | hne
    · simpa [HeapAllocator.modify] using hmod
    · simpa [HeapAllocator.modify, hne] using hr.models s hs

theorem Represents.count_notMem (hr : Represents h refs abs) : h.count ∉ refs :=
  fun hmem => lt_irrefl _ (hr.lt_count _ hmem)

/-- Creating an object that takes over the successor of `r` and linking it after `r`. -/
theorem Represents.insertAfter (hr : Represents h (pre ++ r :: post) abs) {o : HeapBlock}
    {b : Block} (ho : o.Models b) (hnext : o.next = (h.objects r).next) :
    Represents ((h.newBlock o).1.setNext r (some h.count)) (pre ++ r :: h.count :: post)
      (Function.update abs h.count b) := by
  have hfresh := hr.count_notMem
  have hrne : r ≠ h.count := fun heq => hfresh (by simp [heq])
  refine ⟨?_, fun s hs => ?_, fun s hs => ?_⟩
  · refine hr.chain.insert hfresh ?_ ?_ fun s hsr hsn => ?_
    · -- The new object is reached from `r`, and leads to where `r` led before.
      simp [newBlock, setNext, HeapAllocator.modify]
    · simp [newBlock, setNext, HeapAllocator.modify, hrne.symm, hnext]
    · simp [newBlock, setNext, HeapAllocator.modify, hsr, hsn]
  · -- The new object has the largest valid reference.
    change s < h.count + 1
    by_cases hsn : s = h.count
    · omega
    · have hold : s ∈ pre ++ r :: post := by
        simpa [hsn] using hs
      exact Nat.lt_succ_of_lt (hr.lt_count s hold)
  · by_cases hsn : s = h.count
    · -- Only `r` and the new object were written, and `r` only in its `next`.
      subst hsn
      simpa [newBlock, setNext, HeapAllocator.modify, hrne.symm] using ho
    · have hold : s ∈ pre ++ r :: post := by
        simpa [hsn] using hs
      have hm := hr.models s hold
      rw [Function.update_of_ne hsn]
      by_cases hsr : s = r
      · subst hsr
        simpa [newBlock, setNext, HeapAllocator.modify, hsn] using
          (⟨hm.address, hm.size, hm.free⟩ : HeapBlock.Models { h.objects s with
            next := some h.count } (abs s))
      · simpa [newBlock, setNext, HeapAllocator.modify, hsr, hsn] using hm

/-- Unlinking the successor `s` of `r`, while `r` takes over its bytes. -/
theorem Represents.unlinkNext {s : ℕ} (hr : Represents h (pre ++ r :: s :: post) abs) {b : Block}
    {size : Int64}
    (hb : HeapBlock.Models { h.objects r with size, next := (h.objects s).next } b) :
    Represents ((h.setSize r size).setNext r (h.objects s).next) (pre ++ r :: post)
      (Function.update abs r b) := by
  have hsub : ∀ t ∈ pre ++ r :: post, t ∈ pre ++ r :: s :: post := by
    intro t ht
    simp only [List.mem_append, List.mem_cons] at ht ⊢
    tauto
  refine ⟨?_, fun t ht => hr.lt_count t (hsub t ht), fun t ht => ?_⟩
  · refine hr.chain.unlink ?_ fun t hne => ?_
    · simp [setSize, setNext, HeapAllocator.modify]
    · simp [setSize, setNext, HeapAllocator.modify, hne]
  · by_cases htr : t = r
    · subst htr
      simpa [setSize, setNext, HeapAllocator.modify] using hb
    · simpa [setSize, setNext, HeapAllocator.modify, htr] using hr.models t (hsub t ht)

/-- Maps that differ only at references outside `l` give the same list of blocks. -/
theorem map_update_of_notMem {l : List ℕ} {b : Block} (hmem : r ∉ l) :
    l.map (Function.update abs r b) = l.map abs :=
  List.map_congr_left fun _ hs => Function.update_of_ne (ne_of_mem_of_not_mem hs hmem) _ _

/-! ## Joining blocks -/

/-- Fields that `mergeBlock` and the setters leave alone. -/
structure SameFields (h h' : HeapAllocator) : Prop where
  begin_ : h'.begin_ = h.begin_
  end_ : h'.end_ = h.end_
  pos : h'.pos = h.pos

/-- `mergeBlock` at `r` joins the first two blocks of the list that starts at `r`. The part of
the list before `r`, and `r` itself, stay where they are. -/
theorem mergeBlock_refines (hr : Represents h (pre ++ r :: post) abs) :
    ∃ post' abs', Represents (h.mergeBlock (some r)) (pre ++ r :: post') abs' ∧
      (∀ s ∈ pre, abs' s = abs s) ∧
      (r :: post').map abs' = mergeHead ((r :: post).map abs) ∧
      SameFields h (h.mergeBlock (some r)) := by
  -- No object is visited twice, so that writing `r` touches no other block of the list.
  have hnd := List.nodup_append.1 hr.chain.nodup
  have hrpre : ∀ s ∈ pre, s ≠ r := fun s hs => hnd.2.2 s hs r List.mem_cons_self
  have hm := hr.models r (by simp)
  obtain ⟨mid, -, -, hnext⟩ := isChain_append.1 hr.chain
  cases post with
  | nil =>
    -- The last block of the list has nothing to join with.
    have hnext : (h.objects r).next = none := hnext
    refine ⟨[], abs, ?_, fun s hs => rfl, rfl, ?_⟩
    · simpa [mergeBlock, hnext] using hr
    · simp only [mergeBlock, hnext, ite_self]
      exact ⟨rfl, rfl, rfl⟩
  | cons s post =>
    have hnext : (h.objects r).next = some s := hnext.1
    have hms := hr.models s (by simp)
    have hrs : r ∉ s :: post := (List.nodup_cons.1 hnd.2.1).1
    by_cases hfree : (h.objects r).free = true ∧ (h.objects s).free = true
    · -- Both are free: `r` takes over the bytes and the successor of `s`.
      have hsize : (h.objects r).size + (h.objects s).size =
          Int64.ofInt ((abs r).size + (abs s).size) := by
        rw [hm.size, hms.size, Int64.ofInt_add]
      refine ⟨post, Function.update abs r { abs r with size := (abs r).size + (abs s).size },
        ?_, fun t ht => Function.update_of_ne (hrpre t ht) _ _, ?_, ?_⟩
      · rw [mergeBlock, if_pos hfree.1, hnext]
        simp only [hfree.2, if_true]
        exact hr.unlinkNext ⟨hm.address, hsize, hm.free⟩
      · have hfree' : ((abs r).free && (abs s).free) = true := by
          rw [← hm.free, ← hms.free, hfree.1, hfree.2, Bool.and_self]
        rw [List.map_cons, List.map_cons, List.map_cons, mergeHead_cons_cons, if_pos hfree',
          Function.update_self, map_update_of_notMem fun ht => hrs (List.mem_cons_of_mem s ht)]
      · simp only [mergeBlock, hfree.1, hnext, hfree.2, if_true]
        exact ⟨rfl, rfl, rfl⟩
    · -- One of them is in use: nothing happens, here and in `mergeHead`.
      have hsame : h.mergeBlock (some r) = h := by
        rw [mergeBlock, hnext]
        by_cases hrf : (h.objects r).free = true
        · have hsf : ¬(h.objects s).free = true := fun hsf => hfree ⟨hrf, hsf⟩
          simp [hrf, hsf]
        · simp [hrf]
      have hfree' : ¬((abs r).free && (abs s).free) = true := by
        rw [← hm.free, ← hms.free, Bool.and_eq_true]
        exact hfree
      refine ⟨s :: post, abs, by rw [hsame]; exact hr, fun t ht => rfl, ?_, ?_⟩
      · rw [List.map_cons, List.map_cons, mergeHead_cons_cons, if_neg hfree']
      · rw [hsame]
        exact ⟨rfl, rfl, rfl⟩

theorem SameFields.trans {h₁ h₂ h₃ : HeapAllocator} (h₁₂ : SameFields h₁ h₂)
    (h₂₃ : SameFields h₂ h₃) : SameFields h₁ h₃ :=
  ⟨h₂₃.begin_.trans h₁₂.begin_, h₂₃.end_.trans h₁₂.end_, h₂₃.pos.trans h₁₂.pos⟩

/-! ## `free` -/

theorem Represents.isAt_eq (hr : Represents h refs abs) (hmem : r ∈ refs) :
    ((h.objects r).address == p) = isAt p (abs r) := by
  rw [isAt, (hr.models r hmem).address]

/-- `free` changes nothing when its argument is not positive, or when no block has that address
and it throws a `HeapError`. -/
theorem free_of_forall_ne (hr : Represents h refs abs)
    (hne : p ≤ 0 ∨ ∀ r ∈ refs, isAt p (abs r) = false) : (h.free p).1 = h := by
  rw [free]
  split
  next => rfl
  next hp =>
    have hnot : ∀ r ∈ refs, ((h.objects r).address == p) = false := fun r hmem => by
      rw [hr.isAt_eq hmem]
      exact hne.resolve_left hp r hmem
    rw [findBlock, hr.find_of_forall_not hnot]

/-- `free p` releases the first block at address `p`. -/
theorem free_refines (hr : Represents h refs abs) (hp : 0 < p)
    (hmem : ∃ r ∈ refs, isAt p (abs r) = true) :
    (h.free p).2 = .ok () ∧ ∃ refs' abs', Represents (h.free p).1 refs' abs' ∧
      refs'.map abs' = release (isAt p) (refs.map abs) ∧ SameFields h (h.free p).1 := by
  rcases forall_not_or_first (fun r => isAt p (abs r)) refs with
    hnot | ⟨pre, r, post, rfl, hat, hpre⟩
  · obtain ⟨r, hr', hat⟩ := hmem
    rw [hnot r hr'] at hat
    exact absurd hat Bool.false_ne_true
  have hnd := List.nodup_append.1 hr.chain.nodup
  -- `findBlock` stops at the first block with the address.
  have hfind : h.findBlock p = some { block := some r, prev := pre.getLast? } := by
    refine hr.find_of_first (fun s hs => ?_) ?_
    · rw [hr.isAt_eq (List.mem_append_left _ hs)]
      exact hpre s hs
    · rw [hr.isAt_eq (by simp)]
      exact hat
  have hfree : h.free p =
      (((h.setFree r true).mergeBlock (some r)).mergeBlock pre.getLast?, .ok ()) := by
    have hp' : ¬p ≤ 0 := Int64.not_le.2 hp
    simp only [free, if_neg hp', hfind]
  rw [hfree]
  refine ⟨rfl, ?_⟩
  -- Mark the block free, then join it with its successor.
  have hmark : Represents (h.setFree r true) (pre ++ r :: post)
      (Function.update abs r { abs r with free := true }) := by
    have hm := hr.models r (by simp)
    exact hr.modify rfl ⟨hm.address, hm.size, rfl⟩
  obtain ⟨post', abs₁, hrep₁, hpre₁, hmap₁, hsame₁⟩ := mergeBlock_refines hmark
  have hrpre : r ∉ pre := fun hs => hnd.2.2 r hs r List.mem_cons_self rfl
  have hrpost : r ∉ post := (List.nodup_cons.1 hnd.2.1).1
  have habs₁ : ∀ s ∈ pre, abs₁ s = abs s := fun s hs => by
    rw [hpre₁ s hs, Function.update_of_ne (ne_of_mem_of_not_mem hs hrpre)]
  rw [List.map_cons, List.map_cons, Function.update_self, map_update_of_notMem hrpost] at hmap₁
  have hsame : SameFields h (h.setFree r true) := ⟨rfl, rfl, rfl⟩
  rcases List.eq_nil_or_concat' pre with rfl | ⟨pre, q, rfl⟩
  · -- No predecessor: the second call of `mergeBlock` gets `null`.
    refine ⟨r :: post', abs₁, hrep₁, ?_, hsame.trans hsame₁⟩
    rw [List.nil_append, List.map_cons, hmap₁, List.map_cons, release_of_first_nil hat]
  · -- Join the predecessor with the result.
    rw [List.getLast?_concat]
    rw [List.append_assoc, List.singleton_append] at hrep₁
    obtain ⟨post'', abs₂, hrep₂, hpre₂, hmap₂, hsame₂⟩ := mergeBlock_refines hrep₁
    refine ⟨pre ++ q :: post'', abs₂, hrep₂, ?_, (hsame.trans hsame₁).trans hsame₂⟩
    have habs₂ : ∀ s ∈ pre, abs₂ s = abs s := fun s hs => by
      rw [hpre₂ s hs, habs₁ s (List.mem_append_left _ hs)]
    -- Put the three pieces together: before `q`, `q` with its successor, and the rest.
    rw [List.map_append, hmap₂, List.map_cons, List.map_cons, hmap₁, habs₁ q (by simp),
      List.map_congr_left habs₂, List.append_assoc, List.singleton_append, List.map_append,
      List.map_cons, List.map_cons, release_of_first_snoc _ (hpre q (by simp)) hat]
    intro b hb
    obtain ⟨s, hs, rfl⟩ := List.mem_map.1 hb
    exact hpre s (List.mem_append_left _ hs)

/-! ## `allocate` -/

theorem Represents.fits_eq (hr : Represents h refs abs) (hmem : r ∈ refs) :
    ((h.objects r).free && decide ((h.objects r).size ≥ n)) = fits n (abs r) := by
  rw [fits, (hr.models r hmem).free, (hr.models r hmem).size]

/-- What `allocate` does to the fields besides the block list. -/
structure AllocFields (n : Int64) (bump : Bool) (h h' : HeapAllocator) : Prop where
  begin_ : h'.begin_ = h.begin_
  end_ : h'.end_ = h.end_
  pos : h'.pos = if bump then h.pos + n else h.pos

theorem Represents.exists_head (hr : Represents h (pre ++ r :: post) abs) :
    ∃ first, h.head = some first := by
  refine Option.ne_none_iff_exists'.1 fun hnone => ?_
  have hnil := hr.chain.unique (show IsChain _ h.head [] from hnone)
  simp at hnil

section Allocate

variable {e : ℤ} (hn : 0 ≤ n)

include hn

/-- The first block of an empty list. -/
theorem allocate_of_nil (hr : Represents h [] abs) (hpos : h.pos = Int64.ofInt e) :
    (h.allocate n).2 = .ok (Int64.ofInt e) ∧
      Represents (h.allocate n).1 [h.count]
        (Function.update abs h.count ⟨e, n.toInt, false⟩) ∧
      AllocFields n true h (h.allocate n).1 := by
  have hhead : h.head = none := hr.chain
  have hn' : ¬n < 0 := Int64.not_lt.2 hn
  simp only [allocate, if_neg hn', hhead, createBlock, incrementAddress, newBlock]
  refine ⟨by simp [hpos], ⟨?_, ?_, ?_⟩, rfl, rfl, rfl⟩
  · simp
  · simp
  · simp only [List.mem_singleton, forall_eq, Function.update_self]
    exact ⟨hpos, by simp, rfl⟩

/-- No block fits: a used block is appended at `pos`. -/
theorem allocate_of_forall_not {q : ℕ} (hr : Represents h (pre ++ [q]) abs)
    (hpos : h.pos = Int64.ofInt e) (hnot : ∀ r ∈ pre ++ [q], fits n (abs r) = false) :
    (h.allocate n).2 = .ok (Int64.ofInt e) ∧
      Represents (h.allocate n).1 (pre ++ [q, h.count])
        (Function.update abs h.count ⟨e, n.toInt, false⟩) ∧
      AllocFields n true h (h.allocate n).1 := by
  have hn' : ¬n < 0 := Int64.not_lt.2 hn
  obtain ⟨mid, -, -, hlast⟩ := isChain_append.1 hr.chain
  obtain ⟨first, hfirst⟩ := hr.exists_head
  have hfind : h.findFreeBlock n = some { block := none, prev := some q } := by
    rw [findFreeBlock, hr.find_of_forall_not fun r hmem => (hr.fits_eq hmem).trans (hnot r hmem),
      List.getLast?_concat]
  have hstep : h.allocate n =
      (((h.createBlock n (some q)).1.setFree h.count false), .ok h.pos) := by
    have hqne : h.count ≠ q := fun heq => hr.count_notMem (by simp [heq])
    rw [allocate, if_neg hn', hfirst]
    dsimp only
    rw [hfind]
    simp [createBlock, incrementAddress, newBlock, setNext, setFree, HeapAllocator.modify, hqne]
  -- The new block is linked in; `setFree` then stores the flag it already has.
  have hbump : Represents { h with pos := h.pos + n } (pre ++ [q]) abs :=
    hr.congr rfl le_rfl (fun _ _ => rfl) hr.models
  have hnew : HeapBlock.Models { address := h.pos, size := n, free := false, next := none }
      ⟨e, n.toInt, false⟩ := ⟨hpos, by simp, rfl⟩
  have hins := hbump.insertAfter hnew hlast.symm
  have hset := hins.modify (r := h.count) (f := fun b => { b with free := false }) rfl
    ((hins.models h.count (by simp)).setFree false)
  rw [hstep]
  refine ⟨by rw [hpos], ?_, rfl, rfl, rfl⟩
  simp only [Function.update_self, Function.update_idem] at hset
  exact hset

/-- A block fits: it is cut to `n` bytes and used, the rest of it is a free block after it. -/
theorem allocate_of_first (hr : Represents h (pre ++ r :: post) abs)
    (hpre : ∀ s ∈ pre, fits n (abs s) = false) (hfit : fits n (abs r) = true) :
    (h.allocate n).2 = .ok (Int64.ofInt (abs r).address) ∧
      Represents (h.allocate n).1 (pre ++ r :: h.count :: post)
        (Function.update
          (Function.update abs h.count
            ⟨(abs r).address + n.toInt, (abs r).size - n.toInt, true⟩)
          r ⟨(abs r).address, n.toInt, false⟩) ∧
      AllocFields n false h (h.allocate n).1 := by
  have hn' : ¬n < 0 := Int64.not_lt.2 hn
  have hm := hr.models r (by simp)
  obtain ⟨hfree, hle⟩ : (h.objects r).free = true ∧ (h.objects r).size ≥ n := by
    have := (hr.fits_eq (n := n) (r := r) (by simp)).trans hfit
    simpa using this
  obtain ⟨first, hfirst⟩ := hr.exists_head
  have hfind : h.findFreeBlock n = some { block := some r, prev := pre.getLast? } := by
    rw [findFreeBlock, hr.find_of_first (fun s hs => (hr.fits_eq (by simp [hs])).trans (hpre s hs))
      ((hr.fits_eq (by simp)).trans hfit)]
  have hrne : r ≠ h.count := fun heq => hr.count_notMem (by simp [← heq])
  have hstep : h.allocate n =
      (((h.splitBlock r n).1.setFree r false), .ok (h.objects r).address) := by
    rw [allocate, if_neg hn', hfirst]
    dsimp only
    rw [hfind]
    simp [splitBlock, hfree, hle, newBlock, setNext, setSize, setFree, HeapAllocator.modify, hrne]
  -- The rest is linked in after `r`, then `r` gets its new size and its flag.
  have hrest : HeapBlock.Models
      { address := (h.objects r).address + n, size := (h.objects r).size - n, free := true,
        next := (h.objects r).next }
      ⟨(abs r).address + n.toInt, (abs r).size - n.toInt, true⟩ := by
    refine ⟨?_, ?_, rfl⟩
    · rw [Int64.ofInt_add, Int64.ofInt_toInt, ← hm.address]
    · rw [Int64.ofInt_sub, Int64.ofInt_toInt, ← hm.size]
  have hins := hr.insertAfter hrest rfl
  have hcut := hins.modify (r := r) (f := fun b => { b with size := n }) rfl
    ((hins.models r (by simp)).setSize n)
  have hset := hcut.modify (r := r) (f := fun b => { b with free := false }) rfl
    ((hcut.models r (by simp)).setFree false)
  rw [hstep]
  refine ⟨by rw [hm.address], ?_, ?_⟩
  · simp only [Function.update_self, Function.update_idem, Function.update_of_ne hrne] at hset
    simp only [splitBlock, hfree]
    exact hset
  · simp only [splitBlock, hfree]
    exact ⟨rfl, rfl, rfl⟩

/-- `allocate n` takes the first block that fits, or a new one at `pos`. -/
theorem allocate_refines (hr : Represents h refs abs) (hpos : h.pos = Int64.ofInt e) :
    (h.allocate n).2 = .ok (Int64.ofInt (takenAt (fits n) e (refs.map abs))) ∧
      ∃ refs' abs', Represents (h.allocate n).1 refs' abs' ∧
        refs'.map abs' = takeFirst (fits n) n.toInt e (refs.map abs) ∧
        AllocFields n (!(refs.map abs).any (fits n)) h (h.allocate n).1 := by
  rcases forall_not_or_first (fun r => fits n (abs r)) refs with
    hnot | ⟨pre, r, post, rfl, hfit, hpre⟩
  · have hnot' : ∀ b ∈ refs.map abs, fits n b = false := by
      simpa using hnot
    have hany : (refs.map abs).any (fits n) = false := List.any_eq_false.2 (by simpa using hnot)
    rw [takenAt_of_forall_not hnot', takeFirst_of_forall_not hnot', hany]
    -- The source has a branch of its own for the empty list.
    rcases List.eq_nil_or_concat' refs with rfl | ⟨pre, q, rfl⟩
    · obtain ⟨hok, hrep, hfields⟩ := allocate_of_nil hn hr hpos
      exact ⟨hok, _, _, hrep, by simp, hfields⟩
    · obtain ⟨hok, hrep, hfields⟩ := allocate_of_forall_not hn hr hpos hnot
      refine ⟨hok, _, _, hrep, ?_, hfields⟩
      have happ : pre ++ [q, h.count] = (pre ++ [q]) ++ [h.count] := by simp
      rw [happ, List.map_append, map_update_of_notMem hr.count_notMem]
      simp
  · have hpre' : ∀ b ∈ pre.map abs, fits n b = false := by
      simpa using hpre
    have hany : ((pre ++ r :: post).map abs).any (fits n) = true := by simp [hfit]
    obtain ⟨hok, hrep, hfields⟩ := allocate_of_first hn hr hpre hfit
    have hfresh := hr.count_notMem
    have hnd := hr.chain.nodup
    rw [List.map_append, List.map_cons, takenAt_of_first hpre' hfit,
      takeFirst_of_first hpre' hfit, ← List.map_cons, ← List.map_append, hany]
    refine ⟨hok, _, _, hrep, ?_, hfields⟩
    simp only [List.mem_append, List.mem_cons, not_or] at hfresh
    have hr' := List.nodup_append.1 hnd
    -- The two updates are invisible to the blocks before `r` and after the new one.
    rw [List.map_append, List.map_cons, List.map_cons,
      map_update_of_notMem fun hmem => hr'.2.2 r hmem r List.mem_cons_self rfl,
      map_update_of_notMem hfresh.1,
      map_update_of_notMem (List.nodup_cons.1 hr'.2.1).1, map_update_of_notMem hfresh.2.2,
      Function.update_self, Function.update_of_ne hfresh.2.1, Function.update_self]

end Allocate

end HeapAllocator

end Tank
