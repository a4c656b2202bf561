import Mathlib.Algebra.Order.BigOperators.Group.List
import Tank.Hook.Stubs
import Tank.Memory.MemoryManager
import Tank.ToMathlib.AssocList
import Tank.Utils.Words

/-!
# Function tables

`writeFunctionTable` writes the stubs of the functions of a table, then a word for every index, then
a pointer to the words, all at one cursor that only moves up. This module follows a sequence of
calls that fit into the region.

Everything is written between the old and the new position of the cursor (`WritesBetween`), so what
one call has written stays, and the cursor stays aligned to four bytes (`WriterReady`), which is
what the load of the id in a stub relies on.

## Main definitions

* `WriterReady`: the writer between two writes.
* `StubAt`: a stub of a function, with its id.
* `WrittenTable`: what a call promises for its table.

## Main results

* `run_writeFunctionTable`: one call.
* `function_tables_written`: after any sequence of calls all tables are as promised.
-/

namespace Tank

open ToMathlib StubWriter

variable {F : Type} {lo hi : Int64} {uc : Unicorn} {s s' s'' : Unicorn × StubWriter F}

/-! ## Writing at the cursor -/

/-- The writer and its region between two writes. -/
structure WriterReady (lo hi : Int64) (s : Unicorn × StubWriter F) : Prop where
  low : lo.toInt ≤ s.2.hookCurrent.toInt
  aligned : 4 ∣ s.2.hookCurrent.toInt
  mapped : ∀ x : UInt64, lo.toInt ≤ x.toNat → (x.toNat : ℤ) < hi.toInt → s.1.mapped x = true
  firstId : 0xFF00 ≤ s.2.currentId.toInt
  /-- There are at most as many ids as stubs fit below the cursor. -/
  lastId : 12 * (s.2.currentId.toInt - 0xFF00) ≤ s.2.hookCurrent.toInt - lo.toInt

/-- Memory changes only between the old and the new position of the cursor, ids that are in use stay
as they are, and only functions of `P` get another address. -/
structure WritesBetween (P : F → Prop) (s s' : Unicorn × StubWriter F) : Prop where
  regions : s'.1.regions = s.1.regions
  perms : s'.1.perms = s.1.perms
  cursor : s.2.hookCurrent.toInt ≤ s'.2.hookCurrent.toInt
  mem : ∀ x : UInt64, (x.toNat : ℤ) < s.2.hookCurrent.toInt ∨
    s'.2.hookCurrent.toInt ≤ x.toNat → s'.1.mem x = s.1.mem x
  ids : s.2.currentId.toInt ≤ s'.2.currentId.toInt
  hooks : ∀ id : Int64, id.toInt < s.2.currentId.toInt → s'.2.hooks id = s.2.hooks id
  addrs : ∀ f, ¬P f → s'.2.hookAddr f = s.2.hookAddr f

variable {P Q : F → Prop}

theorem WritesBetween.refl (s : Unicorn × StubWriter F) : WritesBetween P s s :=
  ⟨rfl, rfl, le_rfl, fun _ _ => rfl, le_rfl, fun _ _ => rfl, fun _ _ => rfl⟩

theorem WritesBetween.trans (h : WritesBetween P s s') (h' : WritesBetween P s' s'') :
    WritesBetween P s s'' := by
  have hc := h.cursor
  have hc' := h'.cursor
  have hi := h.ids
  refine ⟨h'.regions.trans h.regions, h'.perms.trans h.perms, hc.trans hc', fun x hx => ?_,
    hi.trans h'.ids, fun id hid => ?_, fun f hf => (h'.addrs f hf).trans (h.addrs f hf)⟩
  · rw [h'.mem x (by omega), h.mem x (by omega)]
  · rw [h'.hooks id (by omega), h.hooks id hid]

theorem WritesBetween.mono (h : WritesBetween P s s') (hPQ : ∀ f, P f → Q f) :
    WritesBetween Q s s' :=
  ⟨h.regions, h.perms, h.cursor, h.mem, h.ids, h.hooks,
    fun f hf => h.addrs f fun hp => hf (hPQ f hp)⟩

/-- The addresses of the region are those of 32-bit words. -/
structure IsRegion32 (lo hi : Int64) : Prop where
  low : 0 ≤ lo.toInt
  high : hi.toInt < 2 ^ 32

section Writes

variable (hregion : IsRegion32 lo hi)

include hregion

theorem WriterReady.checkMemArea (h : WriterReady lo hi s) {a : Int64} {n : ℕ}
    (ha : lo.toInt ≤ a.toInt) (hn : a.toInt + n ≤ hi.toInt) :
    s.1.checkMemArea a.toUInt64 n = true := by
  have hlow := hregion.low
  have hhigh := hregion.high
  have hnat : (a.toUInt64.toNat : ℤ) = a.toInt := toNat_toUInt64 (by omega)
  refine List.all_eq_true.2 fun k hk => h.mapped _ ?_ ?_ <;>
  · have hk' := List.mem_range.1 hk
    rw [UInt64.toNat_add, UInt64.toNat_ofNat']
    omega

/-- The bytes from `a` on, as an interval. -/
theorem IsRegion32.within_iff {a : Int64} {n : ℕ} {x : UInt64} (ha : lo.toInt ≤ a.toInt)
    (hn : a.toInt + n ≤ hi.toInt) :
    Within a.toUInt64 n x ↔ a.toInt ≤ x.toNat ∧ (x.toNat : ℤ) < a.toInt + n := by
  have hlow := hregion.low
  have hhigh := hregion.high
  have hnat : (a.toUInt64.toNat : ℤ) = a.toInt := toNat_toUInt64 (by omega)
  rw [ToMathlib.within_iff (by omega)]
  omega

/-- A store at the cursor, which moves past it. -/
theorem WritesBetween.of_store {w w' : StubWriter F} {bytes : List UInt8}
    (h : WriterReady lo hi (uc, w))
    (hfit : w.hookCurrent.toInt + bytes.length ≤ hi.toInt)
    (hnext : w'.hookCurrent.toInt = w.hookCurrent.toInt + bytes.length)
    (hids : w.currentId.toInt ≤ w'.currentId.toInt)
    (hhooks : ∀ id : Int64, id.toInt < w.currentId.toInt → w'.hooks id = w.hooks id)
    (haddrs : ∀ f, ¬P f → w'.hookAddr f = w.hookAddr f) :
    WritesBetween P (uc, w) (uc.store w.hookCurrent.toUInt64 bytes, w') := by
  refine ⟨rfl, rfl, ?_, fun x hx => overwrite_of_not_within ?_, hids, hhooks, haddrs⟩
  · show w.hookCurrent.toInt ≤ w'.hookCurrent.toInt
    omega
  · have hlow : lo.toInt ≤ w.hookCurrent.toInt := h.low
    rw [hregion.within_iff hlow hfit]
    dsimp only at hx
    omega

omit hregion in
/-- Moving the cursor by whole words. -/
theorem WriterReady.next {w w' : StubWriter F} {bytes : List UInt8} (h : WriterReady lo hi (uc, w))
    (hlen : 4 ∣ bytes.length)
    (hnext : w'.hookCurrent.toInt = w.hookCurrent.toInt + bytes.length)
    (hids : w.currentId.toInt ≤ w'.currentId.toInt)
    (hcount : 12 * (w'.currentId.toInt - w.currentId.toInt) ≤ bytes.length) :
    WriterReady lo hi (uc.store w.hookCurrent.toUInt64 bytes, w') := by
  obtain ⟨hlow, haligned, hmapped, hfirst, hlast⟩ := h
  dsimp only at hlow haligned hfirst hlast
  refine ⟨?_, ?_, hmapped, ?_, ?_⟩ <;> dsimp only <;> omega

theorem WriterReady.add_toInt (h : WriterReady lo hi s) {n : ℕ}
    (hfit : s.2.hookCurrent.toInt + n ≤ hi.toInt) :
    (s.2.hookCurrent + Int64.ofNat n).toInt = s.2.hookCurrent.toInt + n := by
  have hlow := hregion.low
  have hhigh := hregion.high
  have hle := h.low
  have hcast : (Int64.ofNat n).toInt = n := Int64.toInt_ofNat_of_lt (by omega)
  rw [toInt_add_of_bounds] <;> rw [hcast] <;> omega

end Writes

/-! ## Words and stubs -/

/-- A word below the cursor. -/
structure WordBelow (s : Unicorn × StubWriter F) (a : Int64) (v : UInt32) : Prop where
  low : 0 ≤ a.toInt
  high : a.toInt + 4 ≤ s.2.hookCurrent.toInt
  word : s.1.wordAt a.toUInt64 = some v

/-- A stub of a function below the cursor, with the id of that function. -/
structure StubAt (s : Unicorn × StubWriter F) (func : F) (id stub : Int64) : Prop where
  low : 0 ≤ stub.toInt
  high : stub.toInt + 12 ≤ s.2.hookCurrent.toInt
  aligned : 4 ∣ stub.toInt
  mapped : s.1.checkMemArea stub.toUInt64 12 = true
  code : readBytes s.1.mem stub.toUInt64 12 = asmCode id
  hook : s.2.hooks id = some func
  firstId : 0 ≤ id.toInt
  lastId : id.toInt < s.2.currentId.toInt

/-- Bytes below the cursor stay. -/
theorem WritesBetween.mem_eq (h : WritesBetween P s s') {a : Int64} {n : ℕ} (ha : 0 ≤ a.toInt)
    (hn : a.toInt + n ≤ s.2.hookCurrent.toInt) (x : UInt64) (hx : Within a.toUInt64 n x) :
    s'.1.mem x = s.1.mem x := by
  have hlt := s.2.hookCurrent.toInt_lt
  have hnat : (a.toUInt64.toNat : ℤ) = a.toInt := toNat_toUInt64 ha
  rw [within_iff (by omega)] at hx
  exact h.mem x (Or.inl (by omega))

theorem WordBelow.mono {a : Int64} {v : UInt32} (hword : WordBelow s a v)
    (h : WritesBetween P s s') : WordBelow s' a v := by
  have hc := h.cursor
  refine ⟨hword.low, hword.high.trans hc, ?_⟩
  rw [← hword.word]
  exact Unicorn.wordAt_congr h.regions (h.mem_eq hword.low hword.high)

theorem StubAt.mono {func : F} {id stub : Int64} (hstub : StubAt s func id stub)
    (h : WritesBetween P s s') : StubAt s' func id stub := by
  have hc := h.cursor
  refine ⟨hstub.low, hstub.high.trans hc, hstub.aligned, ?_, ?_, ?_, hstub.firstId,
    hstub.lastId.trans_le h.ids⟩
  · rw [Unicorn.checkMemArea_congr h.regions]
    exact hstub.mapped
  · rw [← hstub.code]
    exact readBytes_congr (h.mem_eq hstub.low hstub.high) (by decide)
  · rw [h.hooks id hstub.lastId]
    exact hstub.hook

section Steps

variable (hregion : IsRegion32 lo hi)

include hregion

/-- One word at the cursor. -/
theorem run_writeU32 (h : WriterReady lo hi s) (value : Int64)
    (hfit : s.2.hookCurrent.toInt + 4 ≤ hi.toInt) :
    ∃ s', (writeU32 value).run s = .ok () s' ∧ WriterReady lo hi s' ∧
      WritesBetween (fun _ => False) s s' ∧ s'.2.hookCurrent = s.2.hookCurrent + 4 ∧
      s'.2.hookCurrent.toInt = s.2.hookCurrent.toInt + 4 ∧
      WordBelow s' s.2.hookCurrent (low32 value) := by
  obtain ⟨uc, w⟩ := s
  have hlow : lo.toInt ≤ w.hookCurrent.toInt := h.low
  have harea : uc.checkMemArea w.hookCurrent.toUInt64 4 = true := h.checkMemArea hregion hlow hfit
  have hnext : (w.hookCurrent + 4).toInt = w.hookCurrent.toInt + 4 := h.add_toInt hregion hfit
  refine ⟨(uc.store w.hookCurrent.toUInt64 (long2bytes value 4),
    { w with hookCurrent := w.hookCurrent + 4 }), ?_, ?_, ?_, rfl, hnext, ?_⟩
  · have hwrite : (Unicorn.memWrite w.hookCurrent (long2bytes value 4)).run uc = _ :=
      Unicorn.run_memWrite_of_mapped harea
    simp only [EStateM.run] at hwrite ⊢
    simp only [writeU32, EStateM.run, hwrite]
  · exact h.next (dvd_refl 4) hnext le_rfl (by simp)
  · exact WritesBetween.of_store hregion h hfit hnext le_rfl (fun _ _ => rfl) fun _ _ => rfl
  · refine ⟨hregion.low.trans hlow, hnext.ge, ?_⟩
    rw [long2bytes_four]
    exact Unicorn.wordAt_store harea value

variable [DecidableEq F]

/-- One stub at the cursor. -/
theorem run_writeFunction (h : WriterReady lo hi s) (func : F)
    (hfit : s.2.hookCurrent.toInt + 12 ≤ hi.toInt) :
    ∃ s', (writeFunction func).run s = .ok true s' ∧ WriterReady lo hi s' ∧
      WritesBetween (· = func) s s' ∧
      s'.2.hookCurrent.toInt = s.2.hookCurrent.toInt + 12 ∧
      s'.2.hookAddr func = s.2.hookCurrent ∧
      StubAt s' func s.2.currentId s.2.hookCurrent := by
  obtain ⟨uc, w⟩ := s
  have hlow : lo.toInt ≤ w.hookCurrent.toInt := h.low
  have hfirst : 0xFF00 ≤ w.currentId.toInt := h.firstId
  have hlast : 12 * (w.currentId.toInt - 0xFF00) ≤ w.hookCurrent.toInt - lo.toInt := h.lastId
  have hlo := hregion.low
  have hhi := hregion.high
  dsimp only at hfit
  have harea : uc.checkMemArea w.hookCurrent.toUInt64 12 = true := h.checkMemArea hregion hlow hfit
  have hnext : (w.hookCurrent + 12).toInt = w.hookCurrent.toInt + 12 := h.add_toInt hregion hfit
  have hone : (1 : Int64).toInt = 1 := rfl
  -- The counter of ids cannot overflow: every id has a stub below the cursor.
  have hid : (w.currentId + 1).toInt = w.currentId.toInt + 1 := by
    rw [toInt_add_of_bounds] <;> rw [hone] <;> omega
  refine ⟨(uc.store w.hookCurrent.toUInt64 (asmCode w.currentId),
    { hookCurrent := w.hookCurrent + 12
      currentId := w.currentId + 1
      hooks := Function.update w.hooks w.currentId (some func)
      hookAddr := Function.update w.hookAddr func w.hookCurrent
      stubs := w.stubs ++ [(w.hookCurrent, func)] }), ?_, ?_, ?_, hnext, ?_, ?_⟩
  · have hwrite : (Unicorn.memWrite w.hookCurrent (asmCode w.currentId)).run uc = _ :=
      Unicorn.run_memWrite_of_mapped harea
    simp only [EStateM.run] at hwrite ⊢
    simp only [writeFunction, bind, EStateM.bind, getNextId, getHookCurrent, setHookAddr,
      writeStub, EStateM.run, hwrite]
    rfl
  · exact h.next (show 4 ∣ 12 by decide) hnext (by rw [hid]; omega)
      (show 12 * ((w.currentId + 1).toInt - w.currentId.toInt) ≤ 12 by omega)
  · refine WritesBetween.of_store hregion h hfit hnext (by rw [hid]; omega) (fun id hlt => ?_)
      fun f hf => ?_
    · -- The new id is none of those in use.
      exact Function.update_of_ne (by rintro rfl; omega) _ _
    · exact Function.update_of_ne hf _ _
  · exact Function.update_self _ _ _
  · refine ⟨hlo.trans hlow, hnext.ge, h.aligned, harea, ?_, ?_, ?_, ?_⟩
    · exact readBytes_overwrite (show 12 ≤ 2 ^ 64 by decide)
    · exact Function.update_self _ _ _
    · show 0 ≤ w.currentId.toInt
      omega
    · show w.currentId.toInt < (w.currentId + 1).toInt
      omega

/-- The functions that a loop over indices meets. -/
def Met (table : List (Int64 × F)) (idxs : List Int64) (f : F) : Prop :=
  ∃ idx ∈ idxs, table.lookup idx = some f

/-- The number of stubs that a loop over indices writes. -/
def stubCount (table : List (Int64 × F)) (idxs : List Int64) : ℕ :=
  idxs.countP fun idx => (table.lookup idx).isSome

/-- The word that the second loop writes for an index. -/
def tableEntry (w : StubWriter F) (table : List (Int64 × F)) (idx : Int64) : Int64 :=
  match table.lookup idx with
  | some func => w.hookAddr func + 1
  | none => 0

omit [DecidableEq F] hregion in
theorem tableEntry_of_none {w : StubWriter F} {table : List (Int64 × F)} {idx : Int64}
    (h : table.lookup idx = none) : tableEntry w table idx = 0 := by
  rw [tableEntry, h]

omit [DecidableEq F] hregion in
theorem tableEntry_of_some {w : StubWriter F} {table : List (Int64 × F)} {idx : Int64} {f : F}
    (h : table.lookup idx = some f) : tableEntry w table idx = w.hookAddr f + 1 := by
  rw [tableEntry, h]

/-- The first loop: afterwards every function that it met has a stub. -/
theorem run_writeFunctions (table : List (Int64 × F)) (idxs : List Int64) (h : WriterReady lo hi s)
    (hfit : s.2.hookCurrent.toInt + 12 * stubCount table idxs ≤ hi.toInt) :
    ∃ s', (writeFunctions table idxs).run s = .ok () s' ∧ WriterReady lo hi s' ∧
      WritesBetween (Met table idxs) s s' ∧
      s'.2.hookCurrent.toInt = s.2.hookCurrent.toInt + 12 * stubCount table idxs ∧
      ∀ f, Met table idxs f → ∃ id, StubAt s' f id (s'.2.hookAddr f) := by
  induction idxs generalizing s with
  | nil =>
    refine ⟨s, rfl, h, WritesBetween.refl s, by simp [stubCount], ?_⟩
    rintro f ⟨idx, hidx, -⟩
    exact absurd hidx List.not_mem_nil
  | cons idx idxs ih =>
    have hmet : ∀ f, Met table idxs f → Met table (idx :: idxs) f :=
      fun f ⟨i, hi, hf⟩ => ⟨i, List.mem_cons_of_mem _ hi, hf⟩
    rw [writeFunctions]
    rcases hlook : table.lookup idx with _ | func
    · -- An index without a function is passed over.
      have hcount : stubCount table (idx :: idxs) = stubCount table idxs :=
        List.countP_cons_of_neg (by simp [hlook])
      rw [hcount] at hfit ⊢
      obtain ⟨s', hrun, hready, hwrites, hcursor, hstubs⟩ := ih h hfit
      refine ⟨s', hrun, hready, hwrites.mono hmet, hcursor, ?_⟩
      rintro f ⟨i, hi, hf⟩
      rcases List.mem_cons.1 hi with rfl | hin
      · rw [hlook] at hf
        exact absurd hf (by simp)
      · exact hstubs f ⟨i, hin, hf⟩
    · have hcount : stubCount table (idx :: idxs) = stubCount table idxs + 1 :=
        List.countP_cons_of_pos (by simp [hlook])
      rw [hcount] at hfit ⊢
      push_cast at hfit ⊢
      obtain ⟨s₁, hrun₁, hready₁, hwrites₁, hcursor₁, haddr₁, hstub₁⟩ :=
        run_writeFunction hregion h func (by omega)
      obtain ⟨s', hrun, hready, hwrites, hcursor, hstubs⟩ := ih hready₁ (by omega)
      refine ⟨s', ?_, hready, ?_, by omega, fun f hf => ?_⟩
      · rw [bind_of_ok hrun₁]
        exact hrun
      · refine (hwrites₁.mono ?_).trans (hwrites.mono hmet)
        rintro f rfl
        exact ⟨idx, List.mem_cons_self, hlook⟩
      · -- A function that comes again gets another stub; otherwise it keeps the one from here.
        by_cases hagain : Met table idxs f
        · exact hstubs f hagain
        · obtain ⟨i, hi, hf⟩ := hf
          rcases List.mem_cons.1 hi with rfl | hin
          · rw [hlook] at hf
            obtain rfl := Option.some.inj hf
            rw [hwrites.addrs func hagain, haddr₁]
            exact ⟨_, hstub₁.mono hwrites⟩
          · exact absurd ⟨i, hin, hf⟩ hagain

omit [DecidableEq F] in
/-- The second loop: a word for every index. -/
theorem run_writeTable (table : List (Int64 × F)) (idxs : List Int64) (h : WriterReady lo hi s)
    (hfit : s.2.hookCurrent.toInt + 4 * idxs.length ≤ hi.toInt) :
    ∃ s', (writeTable table idxs).run s = .ok () s' ∧ WriterReady lo hi s' ∧
      WritesBetween (fun _ => False) s s' ∧
      s'.2.hookCurrent.toInt = s.2.hookCurrent.toInt + 4 * idxs.length ∧
      ∀ k (hk : k < idxs.length), WordBelow s' (s.2.hookCurrent + Int64.ofNat (4 * k))
        (low32 (tableEntry s.2 table idxs[k])) := by
  induction idxs generalizing s with
  | nil => exact ⟨s, rfl, h, WritesBetween.refl s, by simp, fun k hk => absurd hk (by simp)⟩
  | cons idx idxs ih =>
    rw [List.length_cons] at hfit
    push_cast at hfit
    obtain ⟨s₁, hrun₁, hready₁, hwrites₁, hcursor₁, hnext₁, hword₁⟩ :=
      run_writeU32 hregion h (tableEntry s.2 table idx) (by omega)
    obtain ⟨s', hrun, hready, hwrites, hcursor, hwords⟩ := ih hready₁ (by omega)
    refine ⟨s', ?_, hready, hwrites₁.trans hwrites, ?_, fun k hk => ?_⟩
    · rw [writeTable, get_bind]
      exact (bind_of_ok hrun₁).trans hrun
    · rw [hcursor, hnext₁, List.length_cons]
      omega
    · rcases k with _ | k
      · simpa using hword₁.mono hwrites
      · -- No address changes in this loop.
        have hentry : tableEntry s₁.2 table = tableEntry s.2 table := by
          have haddrs : s₁.2.hookAddr = s.2.hookAddr := funext fun f => hwrites₁.addrs f id
          ext i
          simp only [tableEntry, haddrs]
        have hoff : s.2.hookCurrent + Int64.ofNat (4 * (k + 1)) =
            s₁.2.hookCurrent + Int64.ofNat (4 * k) := by
          rw [hcursor₁, Nat.mul_add, Int64.ofNat_add, Int64.add_assoc]
          congr 1
          exact Int64.add_comm _ _
        rw [hoff, ← hentry]
        exact hwords k (by simpa using hk)

end Steps

/-! ## One table -/

/-- The largest index of a table. -/
def maxIndex (table : List (Int64 × F)) : ℤ :=
  match (table.map Prod.fst).max? with
  | none => -1
  | some idx => idx.toInt

/-- The indices that the loops run over. -/
def tableIndices (table : List (Int64 × F)) : List Int64 :=
  (List.range (maxIndex table + 1).toNat).map Int64.ofNat

/-- The number of bytes that a call writes. -/
def tableBytes (table : List (Int64 × F)) : ℤ :=
  12 * stubCount table (tableIndices table) + 4 * (maxIndex table + 1) + 4

/-- A table has a function, and no negative index. -/
structure IsTable (table : List (Int64 × F)) : Prop where
  nonempty : table ≠ []
  nonneg : ∀ e ∈ table, 0 ≤ e.1.toInt

theorem IsTable.exists_max {table : List (Int64 × F)} (h : IsTable table) :
    ∃ idx : Int64, (table.map Prod.fst).max? = some idx ∧ maxIndex table = idx.toInt ∧
      0 ≤ idx.toInt ∧ ∀ e ∈ table, e.1.toInt ≤ idx.toInt := by
  have hsome : (table.map Prod.fst).max?.isSome = true :=
    List.isSome_max?_iff.2 fun hnil => h.nonempty (List.map_eq_nil_iff.1 hnil)
  obtain ⟨idx, hmax⟩ := Option.isSome_iff_exists.1 hsome
  obtain ⟨hmem, hle⟩ := List.max?_eq_some_iff.1 hmax
  obtain ⟨e, he, rfl⟩ := List.mem_map.1 hmem
  refine ⟨e.1, hmax, ?_, h.nonneg e he, fun e' he' => ?_⟩
  · rw [maxIndex, hmax]
  · exact Int64.le_iff_toInt_le.1 (hle e'.1 (List.mem_map_of_mem he'))

/-- An index up to the largest one is met by the loops. -/
theorem IsTable.getElem_indices {table : List (Int64 × F)} (h : IsTable table) {i : Int64}
    (hi : 0 ≤ i.toInt) (hle : ∃ e ∈ table, i.toInt ≤ e.1.toInt) :
    ∃ hlt : i.toInt.toNat < (tableIndices table).length,
      (tableIndices table)[i.toInt.toNat] = i := by
  obtain ⟨idx, -, hmax, -, hall⟩ := h.exists_max
  obtain ⟨e, he, hie⟩ := hle
  have hbound := hall e he
  have hlt : i.toInt.toNat < (tableIndices table).length := by
    rw [tableIndices, List.length_map, List.length_range]
    omega
  refine ⟨hlt, ?_⟩
  have hget : (tableIndices table)[i.toInt.toNat] = Int64.ofNat i.toInt.toNat := by
    simp [tableIndices]
  rw [hget]
  apply Int64.toInt_inj.1
  rw [Int64.toInt_ofNat_of_lt] <;> have := i.toInt_lt <;> omega

/-- What a call leaves for its table, all of it below the cursor. -/
structure TableBelow (s : Unicorn × StubWriter F) (table : List (Int64 × F)) (ret : TableRet) :
    Prop where
  ptr : WordBelow s ret.ptr (low32 ret.table)
  low : 0 ≤ ret.table.toInt
  high : ret.table.toInt ≤ s.2.hookCurrent.toInt
  words : ∀ i : Int64, 0 ≤ i.toInt → (∃ e ∈ table, i.toInt ≤ e.1.toInt) →
    WordBelow s (ret.table + Int64.ofNat (4 * i.toInt.toNat)) (low32 (tableEntry s.2 table i))
  stubs : ∀ i f, table.lookup i = some f → ∃ id, StubAt s f id (s.2.hookAddr f)

/-- The functions of a table. -/
def InTable (table : List (Int64 × F)) (f : F) : Prop := ∃ idx, table.lookup idx = some f

theorem TableBelow.mono {table : List (Int64 × F)} {ret : TableRet}
    (htable : TableBelow s table ret) (h : WritesBetween P s s')
    (hP : ∀ f, InTable table f → ¬P f) : TableBelow s' table ret := by
  have haddr : ∀ i f, table.lookup i = some f → s'.2.hookAddr f = s.2.hookAddr f :=
    fun i f hf => h.addrs f (hP f ⟨i, hf⟩)
  refine ⟨htable.ptr.mono h, htable.low, htable.high.trans h.cursor, fun i hi hle => ?_,
    fun i f hf => ?_⟩
  · have hentry : tableEntry s'.2 table i = tableEntry s.2 table i := by
      rw [tableEntry, tableEntry]
      split
      next f hf => rw [haddr i f hf]
      next => rfl
    rw [hentry]
    exact (htable.words i hi hle).mono h
  · rw [haddr i f hf]
    obtain ⟨id, hstub⟩ := htable.stubs i f hf
    exact ⟨id, hstub.mono h⟩

section Calls

variable [DecidableEq F]

/-- One call that fits. -/
theorem run_writeFunctionTable (hregion : IsRegion32 lo hi) {table : List (Int64 × F)}
    (htable : IsTable table) (h : WriterReady lo hi s)
    (hfit : s.2.hookCurrent.toInt + tableBytes table ≤ hi.toInt) :
    ∃ ret s', (writeFunctionTable table).run s = .ok ret s' ∧ WriterReady lo hi s' ∧
      WritesBetween (InTable table) s s' ∧
      s'.2.hookCurrent.toInt = s.2.hookCurrent.toInt + tableBytes table ∧
      TableBelow s' table ret := by
  obtain ⟨idx, hmax, hmaxIndex, hnonneg, hall⟩ := htable.exists_max
  have hlo := hregion.low
  have hhi := hregion.high
  have hlow := h.low
  have hlen : ((tableIndices table).length : ℤ) = maxIndex table + 1 := by
    rw [tableIndices, List.length_map, List.length_range]
    omega
  rw [tableBytes] at hfit ⊢
  -- The bound of the loops does not overflow.
  have hone : (1 : Int64).toInt = 1 := rfl
  have hbound : (idx + 1).toInt = idx.toInt + 1 := by
    rw [toInt_add_of_bounds] <;> rw [hone] <;> omega
  have hindices : indices (idx + 1) = tableIndices table := by
    rw [indices, tableIndices, hbound, hmaxIndex]
  -- The stubs, then the words, then the pointer to the words.
  obtain ⟨s₁, hrun₁, hready₁, hwrites₁, hcursor₁, hstubs₁⟩ :=
    run_writeFunctions hregion table (tableIndices table) h (by omega)
  obtain ⟨s₂, hrun₂, hready₂, hwrites₂, hcursor₂, hwords₂⟩ :=
    run_writeTable hregion table (tableIndices table) hready₁ (by omega)
  obtain ⟨s₃, hrun₃, hready₃, hwrites₃, -, hcursor₃, hword₃⟩ :=
    run_writeU32 hregion hready₂ s₁.2.hookCurrent (by omega)
  refine ⟨⟨s₂.2.hookCurrent, s₁.2.hookCurrent⟩, s₃, ?_, hready₃, ?_, by omega, ?_⟩
  · have hget : (getOrThrow (indexMax table) : StubM F Int64).run s = .ok (idx + 1) s :=
      getOrThrow_eq_ok.2 ⟨by rw [indexMax, hmax], rfl⟩
    have hcur₁ : (getHookCurrent : StubM F Int64).run s₁ = .ok s₁.2.hookCurrent s₁ := rfl
    have hcur₂ : (getHookCurrent : StubM F Int64).run s₂ = .ok s₂.2.hookCurrent s₂ := rfl
    rw [writeFunctionTable, bind_of_ok hget, hindices, bind_of_ok hrun₁, bind_of_ok hcur₁,
      bind_of_ok hrun₂, bind_of_ok hcur₂, bind_of_ok hrun₃]
    rfl
  · have hmet : ∀ f, Met table (tableIndices table) f → InTable table f := by
      rintro f ⟨i, -, hf⟩
      exact ⟨i, hf⟩
    exact (hwrites₁.mono hmet).trans
      ((hwrites₂.mono fun _ => False.elim).trans (hwrites₃.mono fun _ => False.elim))
  · -- The words refer to the addresses of the stubs, which the second loop does not change.
    have hkeep : ∀ f, s₃.2.hookAddr f = s₁.2.hookAddr f := fun f =>
      (hwrites₃.addrs f id).trans (hwrites₂.addrs f id)
    refine ⟨hword₃, by dsimp only; omega, by dsimp only; omega, fun i hi hle => ?_,
      fun i f hf => ?_⟩
    · obtain ⟨hlt, hget⟩ := htable.getElem_indices hi hle
      have hword := (hwords₂ i.toInt.toNat hlt).mono hwrites₃
      have hentry : tableEntry s₃.2 table i = tableEntry s₁.2 table i := by
        simp only [tableEntry, hkeep]
      rwa [hget, ← hentry] at hword
    · have hmem := mem_of_lookup hf
      obtain ⟨hlt, hget⟩ := htable.getElem_indices (htable.nonneg _ hmem) ⟨_, hmem, le_rfl⟩
      obtain ⟨id, hstub⟩ := hstubs₁ f ⟨i, List.mem_of_getElem hget, hf⟩
      rw [hkeep f]
      exact ⟨id, (hstub.mono hwrites₂).mono hwrites₃⟩

/-! ## Sequences of calls -/

/-- `writeFunctionTable` for one table after the other. -/
def writeTables : List (List (Int64 × F)) → StubM F (List TableRet)
  | [] => pure []
  | table :: tables => do
    let ret ← writeFunctionTable table
    let rets ← writeTables tables
    pure (ret :: rets)

/-- The tables have no function in common. -/
def Apart (table table' : List (Int64 × F)) : Prop := ∀ f, InTable table f → ¬InTable table' f

omit [DecidableEq F] in
theorem sum_tableBytes_nonneg {tables : List (List (Int64 × F))}
    (htables : ∀ table ∈ tables, IsTable table) : 0 ≤ (tables.map tableBytes).sum := by
  apply List.sum_nonneg
  intro bytes hbytes
  obtain ⟨table, htable, rfl⟩ := List.mem_map.1 hbytes
  obtain ⟨idx, -, hmax, hnonneg, -⟩ := (htables table htable).exists_max
  rw [tableBytes]
  omega

/-- The run lemma: a sequence of calls that fit. -/
theorem run_writeTables (hregion : IsRegion32 lo hi) {tables : List (List (Int64 × F))}
    (htables : ∀ table ∈ tables, IsTable table) (hapart : tables.Pairwise Apart)
    (h : WriterReady lo hi s)
    (hfit : s.2.hookCurrent.toInt + (tables.map tableBytes).sum ≤ hi.toInt) :
    ∃ rets s', (writeTables tables).run s = .ok rets s' ∧ WriterReady lo hi s' ∧
      WritesBetween (fun f => ∃ table ∈ tables, InTable table f) s s' ∧
      s'.2.hookCurrent.toInt = s.2.hookCurrent.toInt + (tables.map tableBytes).sum ∧
      List.Forall₂ (TableBelow s') tables rets := by
  induction tables generalizing s with
  | nil => exact ⟨[], s, rfl, h, WritesBetween.refl s, by simp, List.Forall₂.nil⟩
  | cons table tables ih =>
    obtain ⟨hhead, htail⟩ := List.pairwise_cons.1 hapart
    have hrest := sum_tableBytes_nonneg fun t ht => htables t (List.mem_cons_of_mem _ ht)
    rw [List.map_cons, List.sum_cons] at hfit ⊢
    obtain ⟨ret, s₁, hrun₁, hready₁, hwrites₁, hcursor₁, hbelow₁⟩ :=
      run_writeFunctionTable hregion (htables table List.mem_cons_self) h (by omega)
    obtain ⟨rets, s', hrun, hready, hwrites, hcursor, hbelow⟩ :=
      ih (fun t ht => htables t (List.mem_cons_of_mem _ ht)) htail hready₁ (by omega)
    refine ⟨ret :: rets, s', ?_, hready, ?_, by omega, List.Forall₂.cons ?_ hbelow⟩
    · rw [writeTables, bind_of_ok hrun₁, bind_of_ok hrun]
      rfl
    · refine (hwrites₁.mono fun f hf => ?_).trans (hwrites.mono ?_)
      · exact ⟨table, List.mem_cons_self, hf⟩
      · rintro f ⟨t, ht, hf⟩
        exact ⟨t, List.mem_cons_of_mem _ ht, hf⟩
    · -- The later tables have none of the functions of this one.
      apply hbelow₁.mono hwrites
      rintro f hf ⟨t, ht, hf'⟩
      exact hhead t ht f hf hf'

theorem writeTables_append (before after : List (List (Int64 × F))) :
    writeTables (before ++ after) = (do
      let rets ← writeTables before
      let rets' ← writeTables after
      pure (rets ++ rets')) := by
  induction before with
  | nil => simp [writeTables]
  | cons table before ih => simp [writeTables, ih]

/-- The run of a sequence of calls, with a stop in between. -/
theorem exists_run_before (hregion : IsRegion32 lo hi) {before after : List (List (Int64 × F))}
    (htables : ∀ table ∈ before ++ after, IsTable table)
    (hapart : (before ++ after).Pairwise Apart) (h : WriterReady lo hi s)
    (hfit : s.2.hookCurrent.toInt + ((before ++ after).map tableBytes).sum ≤ hi.toInt)
    {rets : List TableRet} (hrun : (writeTables (before ++ after)).run s = .ok rets s') :
    ∃ rets₁ s₁, (writeTables before).run s = .ok rets₁ s₁ ∧
      WritesBetween (fun _ => True) s s₁ ∧ WritesBetween (fun _ => True) s₁ s' := by
  obtain ⟨hbefore, hafter⟩ := List.forall_mem_append.1 htables
  obtain ⟨hapart₁, hapart₂, -⟩ := List.pairwise_append.1 hapart
  have hnonneg := sum_tableBytes_nonneg hafter
  rw [List.map_append, List.sum_append] at hfit
  obtain ⟨rets₁, s₁, hrun₁, hready₁, hwrites₁, hcursor₁, -⟩ :=
    run_writeTables hregion hbefore hapart₁ h (by omega)
  obtain ⟨rets₂, s₂, hrun₂, -, hwrites₂, -, -⟩ :=
    run_writeTables hregion hafter hapart₂ hready₁ (by omega)
  -- The rest of the calls ends where the whole sequence does.
  rw [writeTables_append, bind_of_ok hrun₁, bind_of_ok hrun₂] at hrun
  cases hrun
  exact ⟨rets₁, s₁, hrun₁, hwrites₁.mono fun _ _ => trivial, hwrites₂.mono fun _ _ => trivial⟩

end Calls

/-- Every function of the tables has an id. -/
theorem exists_ids {tables : List (List (Int64 × F))} {rets : List TableRet}
    (h : List.Forall₂ (TableBelow s) tables rets) :
    ∃ ids : F → Int64, ∀ f, (∃ table ∈ tables, InTable table f) →
      StubAt s f (ids f) (s.2.hookAddr f) := by
  have hstubs : ∀ table ∈ tables, ∀ i f, table.lookup i = some f →
      ∃ id, StubAt s f id (s.2.hookAddr f) :=
    ((List.forall₂_and_left _ _).1 (h.imp fun table ret hbelow => ⟨hbelow.stubs, hbelow⟩)).1
  have hexists : ∀ f, ∃ id, (∃ table ∈ tables, InTable table f) →
      StubAt s f id (s.2.hookAddr f) := by
    intro f
    by_cases hf : ∃ table ∈ tables, InTable table f
    · obtain ⟨table, htable, i, hi⟩ := hf
      obtain ⟨id, hstub⟩ := hstubs table htable i f hi
      exact ⟨id, fun _ => hstub⟩
    · exact ⟨0, fun h => absurd h hf⟩
  choose ids hids using hexists
  exact ⟨ids, hids⟩

/-- No id belongs to two functions. -/
theorem StubAt.func_unique {f f' : F} {id stub stub' : Int64} (h : StubAt s f id stub)
    (h' : StubAt s f' id stub') : f = f' :=
  Option.some.inj (h.hook.symm.trans h'.hook)

/-! ## What the guest finds -/

/-- The word at an address is a number. -/
def HoldsWord (uc : Unicorn) (a v : Int64) : Prop :=
  ∃ w, uc.wordAt a.toUInt64 = some w ∧ (w.toNat : ℤ) = v.toInt

/-- `Align(PC, 4)`, the base of a load relative to the program counter. -/
def align4 (a : Int64) : Int64 := a / 4 * 4

/-- A stub that works: its second instruction, at `stub + 2` where the program counter reads as
`stub + 6`, loads the id of the function. -/
structure IsStub (s : Unicorn × StubWriter F) (f : F) (id stub : Int64) : Prop where
  aligned : 4 ∣ stub.toInt
  code : readBytes s.1.mem stub.toUInt64 12 = asmCode id
  literal : HoldsWord s.1 (align4 (stub + 6) + 4) id
  hook : s.2.hooks id = some f

/-- A table as the guest uses it, with the ids of its functions. -/
structure WrittenTable (s : Unicorn × StubWriter F) (ids : F → Int64)
    (table : List (Int64 × F)) (ret : TableRet) : Prop where
  ptr : HoldsWord s.1 ret.ptr ret.table
  absent : ∀ i : Int64, 0 ≤ i.toInt → (∃ e ∈ table, i.toInt ≤ e.1.toInt) →
    table.lookup i = none → HoldsWord s.1 (ret.table + 4 * i) 0
  present : ∀ i f, table.lookup i = some f →
    HoldsWord s.1 (ret.table + 4 * i) (s.2.hookAddr f + 1) ∧ IsStub s f (ids f) (s.2.hookAddr f)

theorem WordBelow.holdsWord {a v : Int64} (h : WordBelow s a (low32 v)) (hlow : 0 ≤ v.toInt)
    (hhigh : v.toInt < 2 ^ 32) : HoldsWord s.1 a v := by
  refine ⟨low32 v, h.word, ?_⟩
  have hnat : (v.toUInt64.toNat : ℤ) = v.toInt := toNat_toUInt64 hlow
  rw [toNat_low32]
  omega

/-- The id is the last word of a stub. -/
theorem StubAt.wordAt {f : F} {id stub : Int64} (h : StubAt s f id stub) :
    s.1.wordAt (stub + 8).toUInt64 = some (low32 id) := by
  have haddr : (stub + 8).toUInt64 = stub.toUInt64 + UInt64.ofNat 8 := rfl
  have hcode := h.code
  rw [show 12 = 8 + 4 from rfl, readBytes_add, asmCode] at hcode
  have hid := (List.append_inj hcode length_readBytes).2
  have hmapped : s.1.checkMemArea (stub.toUInt64 + UInt64.ofNat 8) 4 = true := by
    refine List.all_eq_true.2 fun k hk => ?_
    have hk' := List.mem_range.1 hk
    have hall := List.all_eq_true.1 h.mapped (8 + k) (List.mem_range.2 (by omega))
    rwa [UInt64.ofNat_add, ← UInt64.add_assoc] at hall
  rw [haddr, Unicorn.wordAt_of_checkMemArea hmapped, hid, long2bytes_four,
    leWord_cut_longToBytesLittle]

theorem StubAt.isStub {f : F} {id stub : Int64} (h : StubAt s f id stub)
    (hid : id.toInt < 2 ^ 32) (hhigh : stub.toInt < 2 ^ 32) : IsStub s f id stub := by
  have hlow := h.low
  have haligned := h.aligned
  have hfour : (4 : Int64).toInt = 4 := rfl
  have hsix : (6 : Int64).toInt = 6 := rfl
  have height : (8 : Int64).toInt = 8 := rfl
  -- `stub + 6` is rounded down to `stub + 4`.
  have hbase : (stub + 6).toInt = stub.toInt + 6 := by
    rw [toInt_add_of_bounds] <;> rw [hsix] <;> omega
  have hdiv : ((stub + 6) / 4).toInt = (stub.toInt + 6) / 4 := by
    rw [toInt_div_of_nonneg (by omega) (by decide), hbase, hfour]
  have hround : (align4 (stub + 6)).toInt = stub.toInt + 4 := by
    rw [align4, toInt_mul_of_bounds] <;> rw [hdiv, hfour] <;> omega
  have hload : align4 (stub + 6) + 4 = stub + 8 := by
    apply Int64.toInt_inj.1
    rw [toInt_add_of_bounds (by omega) (by omega), toInt_add_of_bounds (by omega) (by omega),
      hround, hfour, height]
    omega
  refine ⟨haligned, h.code, ⟨low32 id, ?_, ?_⟩, h.hook⟩
  · rw [hload]
    exact h.wordAt
  · have hnat : (id.toUInt64.toNat : ℤ) = id.toInt := toNat_toUInt64 h.firstId
    have hfirst := h.firstId
    rw [toNat_low32]
    omega

/-- In a small region, what a call leaves below the cursor is what the guest needs. -/
theorem TableBelow.written (hregion : IsRegion32 lo hi) {table : List (Int64 × F)}
    {ret : TableRet} (h : TableBelow s table ret) (htable : IsTable table)
    (hready : WriterReady lo hi s) (hend : s.2.hookCurrent.toInt ≤ hi.toInt) {ids : F → Int64}
    (hids : ∀ f, InTable table f → StubAt s f (ids f) (s.2.hookAddr f)) :
    WrittenTable s ids table ret := by
  have hlo := hregion.low
  have hhi := hregion.high
  have hlow := hready.low
  have hlast := hready.lastId
  have hoffset : ∀ i : Int64, 0 ≤ i.toInt →
      ret.table + Int64.ofNat (4 * i.toInt.toNat) = ret.table + 4 * i := by
    intro i hi
    have hofNat : Int64.ofNat i.toInt.toNat = i := by
      apply Int64.toInt_inj.1
      rw [Int64.toInt_ofNat_of_lt] <;> have := i.toInt_lt <;> omega
    rw [Int64.ofNat_mul, hofNat]
    rfl
  refine ⟨h.ptr.holdsWord h.low (by have := h.high; omega), fun i hi hle hnone => ?_,
    fun i f hf => ?_⟩
  · have hword := h.words i hi hle
    rw [hoffset i hi, tableEntry_of_none hnone] at hword
    exact hword.holdsWord le_rfl (by decide)
  · have hmem := mem_of_lookup hf
    have hi := htable.nonneg _ hmem
    have hword := h.words i hi ⟨_, hmem, le_rfl⟩
    have hstub := hids f ⟨i, hf⟩
    have hslow := hstub.low
    have hshigh := hstub.high
    have hidlt := hstub.lastId
    have hone : (1 : Int64).toInt = 1 := rfl
    have hthumb : (s.2.hookAddr f + 1).toInt = (s.2.hookAddr f).toInt + 1 := by
      rw [toInt_add_of_bounds] <;> rw [hone] <;> omega
    rw [hoffset i hi, tableEntry_of_some hf] at hword
    exact ⟨hword.holdsWord (by omega) (by omega), hstub.isStub (by omega) (by omega)⟩

/-! ## The tables of the JVM -/

/-- The bounds of the region of the JVM hooks. -/
theorem toInt_jvmHookMemory :
    jvmHookMemoryBase.toInt = 0x30000000 ∧ jvmHookMemorySize.toInt = 0x200000 ∧
      (jvmHookMemoryBase + 4).toInt = 0x30000004 ∧
      (jvmHookMemoryBase + jvmHookMemorySize).toInt = 0x30200000 :=
  ⟨rfl, rfl, rfl, rfl⟩

/-- The region of the JVM hooks after its first word. -/
theorem isRegion32_jvm :
    IsRegion32 (jvmHookMemoryBase + 4) (jvmHookMemoryBase + jvmHookMemorySize) :=
  ⟨by decide, by decide⟩

theorem writerReady_jvm (hmapped : ∀ x : UInt64, jvmHookMemoryBase.toInt ≤ x.toNat →
      (x.toNat : ℤ) < jvmHookMemoryBase.toInt + jvmHookMemorySize.toInt → uc.mapped x = true) :
    WriterReady (jvmHookMemoryBase + 4) (jvmHookMemoryBase + jvmHookMemorySize)
      (uc, (StubWriter.start (jvmHookMemoryBase + 4) : StubWriter F)) := by
  have hbounds := toInt_jvmHookMemory
  have hid : (0xFF00 : Int64).toInt = 0xFF00 := rfl
  constructor
  case mapped => exact fun x hx hx' => hmapped x (by omega) (by omega)
  all_goals simp only [StubWriter.start]
  all_goals omega

/-- For every sequence of tables that fit into the mapped region of the JVM hooks, all calls return;
afterwards every table is written, functions have different ids, and what some of the calls have
written is not touched by the later ones. -/
theorem function_tables_written [DecidableEq F]
    (hmapped : ∀ x : UInt64, jvmHookMemoryBase.toInt ≤ x.toNat →
      (x.toNat : ℤ) < jvmHookMemoryBase.toInt + jvmHookMemorySize.toInt → uc.mapped x = true)
    {tables : List (List (Int64 × F))} (htables : ∀ table ∈ tables, IsTable table)
    (hapart : tables.Pairwise Apart)
    (hfit : 4 + (tables.map tableBytes).sum ≤ jvmHookMemorySize.toInt) :
    ∃ rets s ids, (writeTables tables).run (uc, StubWriter.start (jvmHookMemoryBase + 4)) =
        .ok rets s ∧
      List.Forall₂ (WrittenTable s ids) tables rets ∧
      (∀ f f', (∃ t ∈ tables, InTable t f) → (∃ t ∈ tables, InTable t f') → f ≠ f' →
        ids f ≠ ids f') ∧
      ∀ before after, tables = before ++ after → ∃ rets₁ s₁,
        (writeTables before).run (uc, StubWriter.start (jvmHookMemoryBase + 4)) = .ok rets₁ s₁ ∧
          WritesBetween (fun _ => True) (uc, StubWriter.start (jvmHookMemoryBase + 4)) s₁ ∧
          WritesBetween (fun _ => True) s₁ s := by
  have hbounds := toInt_jvmHookMemory
  have hready := writerReady_jvm (F := F) hmapped
  obtain ⟨rets, s, hrun, hready', hwrites, hcursor, hbelow⟩ := run_writeTables isRegion32_jvm
    htables hapart hready (show (jvmHookMemoryBase + 4).toInt + _ ≤ _ by omega)
  have hend : s.2.hookCurrent.toInt ≤ (jvmHookMemoryBase + jvmHookMemorySize).toInt := by
    rw [hcursor]
    show (jvmHookMemoryBase + 4).toInt + _ ≤ _
    omega
  obtain ⟨ids, hids⟩ := exists_ids hbelow
  refine ⟨rets, s, ids, hrun, ?_, fun f f' hf hf' hne heq => ?_, ?_⟩
  · have hboth := (List.forall₂_and_left _ _).2 ⟨fun t (ht : t ∈ tables) => ht, hbelow⟩
    exact hboth.imp fun t ret ⟨ht, h⟩ => h.written isRegion32_jvm (htables t ht) hready' hend
      fun f hf => hids f ⟨t, ht, hf⟩
  · have hstub := hids f hf
    rw [heq] at hstub
    exact hne (hstub.func_unique (hids f' hf'))
  · rintro before after rfl
    exact exists_run_before isRegion32_jvm htables hapart hready
      (show (jvmHookMemoryBase + 4).toInt + _ ≤ _ by omega) hrun

/-- The memory manager has mapped the region. -/
theorem mapped_jvm_fresh (x : UInt64) (hlow : jvmHookMemoryBase.toInt ≤ x.toNat)
    (hhigh : (x.toNat : ℤ) < jvmHookMemoryBase.toInt + jvmHookMemorySize.toInt) :
    MemoryManager.fresh.uc.mapped x = true := by
  have hchunk : MemChunk.IsLow ⟨jvmHookMemoryBase, jvmHookMemorySize⟩ :=
    ⟨by decide, by decide, by decide⟩
  exact List.any_eq_true.2 ⟨MemChunk.region ⟨jvmHookMemoryBase, jvmHookMemorySize⟩,
    by decide +kernel, (MemChunk.contains_region hchunk).2 ⟨hlow, hhigh⟩⟩

/-- A table with a gap, and another one. -/
theorem function_tables_written_small :
    ∃ rets s ids, (writeTables [[(0, 10), (2, 11)], [(1, 12)]]).run
        (MemoryManager.fresh.uc, StubWriter.start (jvmHookMemoryBase + 4)) = .ok rets s ∧
      List.Forall₂ (WrittenTable s ids) [[(0, 10), (2, 11)], [(1, (12 : ℕ))]] rets := by
  have htables : ∀ table ∈ [[(0, 10), (2, 11)], [(1, (12 : ℕ))]], IsTable table := by
    intro table htable
    simp only [List.mem_cons, List.not_mem_nil, or_false] at htable
    rcases htable with rfl | rfl
    · exact ⟨by decide, by decide⟩
    · exact ⟨by decide, by decide⟩
  have hapart : List.Pairwise Apart [[(0, 10), (2, 11)], [(1, (12 : ℕ))]] := by
    refine List.pairwise_pair.2 ?_
    rintro f ⟨i, hi⟩ ⟨j, hj⟩
    have hi' := mem_of_lookup hi
    have hj' := mem_of_lookup hj
    simp only [List.mem_cons, Prod.mk.injEq, List.not_mem_nil, or_false] at hi' hj'
    omega
  obtain ⟨rets, s, ids, hrun, hwritten, -⟩ :=
    function_tables_written mapped_jvm_fresh htables hapart (by decide +kernel)
  exact ⟨rets, s, ids, hrun, hwritten⟩

end Tank
