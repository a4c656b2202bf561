import Tank.Hook.FunctionTable

/-!
# Ids and addresses of the functions of a table

`writeFunctionTable` gives its functions consecutive ids, in the order of their indices, and writes
all of the table above the position of the cursor.

* `hooks_writeFunctionTable`: the functions by id after a call;
* `tableAbove_writeFunctionTable`: where the table, its pointer and its stubs are.

Both tables of the JVM have a function for each index from the first one on (`tableFrom`).
-/

namespace Tank

open ToMathlib StubWriter

/-! ## Ids -/

section Ids

variable {F : Type}

/-- The functions by id after some more of them got consecutive ids. -/
def registerFrom (hooks : Int64 → Option F) (id : Int64) : List F → Int64 → Option F
  | [] => hooks
  | f :: fs => registerFrom (Function.update hooks id (some f)) (id + 1) fs

/-- The id is the position. -/
theorem registerFrom_apply (hooks : Int64 → Option F) (id : Int64) {fs : List F}
    (hlen : fs.length < 2 ^ 64) (x : Int64) :
    registerFrom hooks id fs x = (fs[(x - id).toUInt64.toNat]?).or (hooks x) := by
  induction fs generalizing hooks id with
  | nil => simp [registerFrom]
  | cons f fs ih =>
    rw [List.length_cons] at hlen
    rw [registerFrom, ih _ _ (by omega)]
    -- The distance from the next id is one less, and the largest one if this is the id itself.
    have hx := x.toUInt64.toNat_lt
    have hid := id.toUInt64.toNat_lt
    have hsub : ∀ y : Int64, (x - y).toUInt64.toNat =
        (2 ^ 64 - y.toUInt64.toNat + x.toUInt64.toNat) % 2 ^ 64 := fun y => UInt64.toNat_sub _ _
    have hone : (id + 1).toUInt64.toNat = (id.toUInt64.toNat + 1) % 2 ^ 64 := UInt64.toNat_add _ _
    rw [hsub, hsub, hone]
    by_cases heq : x = id
    · subst heq
      have hfirst : (2 ^ 64 - x.toUInt64.toNat + x.toUInt64.toNat) % 2 ^ 64 = 0 := by omega
      rw [hfirst, Function.update_self, List.getElem?_eq_none (by omega)]
      rfl
    · have hne : x.toUInt64.toNat ≠ id.toUInt64.toNat := fun h =>
        heq (congrArg UInt64.toInt64 (UInt64.toNat_inj.1 h))
      have hsucc : (2 ^ 64 - id.toUInt64.toNat + x.toUInt64.toNat) % 2 ^ 64 =
          (2 ^ 64 - (id.toUInt64.toNat + 1) % 2 ^ 64 + x.toUInt64.toNat) % 2 ^ 64 + 1 := by omega
      rw [Function.update_of_ne heq, hsucc, List.getElem?_cons_succ]

variable {s s' : Unicorn × StubWriter F} {table : List (Int64 × F)}

theorem hooks_writeStub {id : Int64} {func : F} (h : (writeStub id func).run s = .ok () s') :
    s'.2.hooks = Function.update s.2.hooks id (some func) ∧ s'.2.currentId = s.2.currentId := by
  obtain ⟨uc, w⟩ := s
  simp only [EStateM.run, writeStub] at h
  split at h
  · cases h
  · cases h
    exact ⟨rfl, rfl⟩

variable [DecidableEq F]

theorem hooks_writeFunction {func : F} {b : Bool} (h : (writeFunction func).run s = .ok b s') :
    s'.2.hooks = Function.update s.2.hooks s.2.currentId (some func) ∧
      s'.2.currentId = s.2.currentId + 1 := by
  obtain ⟨uc, w⟩ := s
  have hnext : (getNextId : StubM F Int64).run (uc, w) =
      .ok w.currentId (uc, { w with currentId := w.currentId + 1 }) := rfl
  rw [writeFunction, bind_of_ok hnext] at h
  obtain ⟨hookAddr, s₁, hcurrent, h⟩ := bind_eq_ok h
  cases hcurrent
  obtain ⟨_, s₂, hset, h⟩ := bind_eq_ok h
  cases hset
  obtain ⟨_, s₃, hstub, h⟩ := bind_eq_ok h
  cases h
  exact hooks_writeStub hstub

/-- The functions of a table in the order of their indices. -/
def tableFuncs (table : List (Int64 × F)) (idxs : List Int64) : List F :=
  idxs.filterMap fun idx => table.lookup idx

/-- Functions get consecutive ids, in the order of their indices. -/
theorem hooks_writeFunctions {idxs : List Int64}
    (h : (writeFunctions table idxs).run s = .ok () s') :
    s'.2.hooks = registerFrom s.2.hooks s.2.currentId (tableFuncs table idxs) ∧
      s'.2.currentId = s.2.currentId + Int64.ofNat (tableFuncs table idxs).length := by
  induction idxs generalizing s with
  | nil =>
    cases h
    exact ⟨rfl, (Int64.add_zero _).symm⟩
  | cons idx idxs ih =>
    rw [writeFunctions] at h
    cases hlook : table.lookup idx with
    | none =>
      rw [hlook] at h
      have hfuncs : tableFuncs table (idx :: idxs) = tableFuncs table idxs :=
        List.filterMap_cons_none hlook
      rw [hfuncs]
      exact ih h
    | some func =>
      rw [hlook] at h
      obtain ⟨_, s₁, hfunc, h⟩ := bind_eq_ok h
      obtain ⟨hhooks, hid⟩ := hooks_writeFunction hfunc
      obtain ⟨hhooks', hid'⟩ := ih h
      have hfuncs : tableFuncs table (idx :: idxs) = func :: tableFuncs table idxs :=
        List.filterMap_cons_some hlook
      rw [hhooks', hid', hhooks, hid, hfuncs, List.length_cons, Int64.add_assoc,
        Int64.ofNat_add _ 1, Int64.add_comm 1]
      exact ⟨rfl, rfl⟩

/-- The words of a table register nothing. -/
def SameIds (s s' : Unicorn × StubWriter F) : Prop :=
  s'.2.hooks = s.2.hooks ∧ s'.2.currentId = s.2.currentId

omit [DecidableEq F] in
theorem sameIds_writeU32 (value : Int64) : Keeps SameIds (writeU32 value : StubM F Unit) := by
  rintro ⟨uc, w⟩
  simp only [EStateM.run, writeU32]
  split <;> exact ⟨rfl, rfl⟩

omit [DecidableEq F] in
theorem sameIds_writeTable (idxs : List Int64) : Keeps SameIds (writeTable table idxs) := by
  induction idxs with
  | nil => exact fun _ => ⟨rfl, rfl⟩
  | cons idx idxs ih =>
    have : IsTrans (Unicorn × StubWriter F) SameIds :=
      ⟨fun s t u hst htu => ⟨htu.1.trans hst.1, htu.2.trans hst.2⟩⟩
    rw [writeTable]
    refine Keeps.bind (fun _ => ⟨rfl, rfl⟩) fun _ => ?_
    exact Keeps.bind (sameIds_writeU32 _) fun _ => ih

/-- The parts of `writeFunctionTable`: the stubs, the words, and the pointer. -/
theorem exists_stages {ret : TableRet} {bound : Int64} (hbound : indexMax table = .ok bound)
    (h : (writeFunctionTable table).run s = .ok ret s') :
    ∃ s₁ s₂, (writeFunctions table (indices bound)).run s = .ok () s₁ ∧
      (writeTable table (indices bound)).run s₁ = .ok () s₂ ∧
      (writeU32 s₁.2.hookCurrent).run s₂ = .ok () s' ∧
      ret = ⟨s₂.2.hookCurrent, s₁.2.hookCurrent⟩ := by
  rw [writeFunctionTable, hbound] at h
  obtain ⟨_, s₀, hget, h⟩ := bind_eq_ok h
  cases hget
  obtain ⟨_, s₁, hfuncs, h⟩ := bind_eq_ok h
  obtain ⟨_, _, hcurrent, h⟩ := bind_eq_ok h
  cases hcurrent
  obtain ⟨_, s₂, hwords, h⟩ := bind_eq_ok h
  obtain ⟨_, _, hcurrent, h⟩ := bind_eq_ok h
  cases hcurrent
  obtain ⟨_, s₃, hptr, h⟩ := bind_eq_ok h
  cases h
  exact ⟨s₁, s₂, hfuncs, hwords, hptr, rfl⟩

/-- The ids of one table. -/
theorem hooks_writeFunctionTable {ret : TableRet} {bound : Int64}
    (hbound : indexMax table = .ok bound)
    (h : (writeFunctionTable table).run s = .ok ret s') :
    s'.2.hooks = registerFrom s.2.hooks s.2.currentId (tableFuncs table (indices bound)) ∧
      s'.2.currentId =
        s.2.currentId + Int64.ofNat (tableFuncs table (indices bound)).length := by
  obtain ⟨s₁, s₂, hfuncs, hwords, hptr, -⟩ := exists_stages hbound h
  have hsame₁ : SameIds s₁ (finalState ((writeTable table (indices bound)).run s₁)) :=
    sameIds_writeTable _ s₁
  have hsame₂ := sameIds_writeU32 s₁.2.hookCurrent s₂
  rw [hwords] at hsame₁
  rw [hptr] at hsame₂
  obtain ⟨hhooks, hid⟩ := hooks_writeFunctions hfuncs
  exact ⟨hsame₂.1.trans (hsame₁.1.trans hhooks), hsame₂.2.trans (hsame₁.2.trans hid)⟩

end Ids

/-! ## Addresses -/

section Addresses

variable {F : Type} [DecidableEq F] {lo hi : Int64} {s s' : Unicorn × StubWriter F}
  {table : List (Int64 × F)}

/-- Stubs are written at the cursor, so they are above its first position. -/
theorem le_hookAddr_writeFunctions (hregion : IsRegion32 lo hi) {idxs : List Int64}
    (h : WriterReady lo hi s)
    (hfit : s.2.hookCurrent.toInt + 12 * stubCount table idxs ≤ hi.toInt)
    (hrun : (writeFunctions table idxs).run s = .ok () s') {f : F} (hf : Met table idxs f) :
    s.2.hookCurrent.toInt ≤ (s'.2.hookAddr f).toInt := by
  induction idxs generalizing s with
  | nil =>
    obtain ⟨idx, hidx, -⟩ := hf
    cases hidx
  | cons idx idxs ih =>
    rw [writeFunctions] at hrun
    cases hlook : table.lookup idx with
    | none =>
      have hcount : stubCount table (idx :: idxs) = stubCount table idxs :=
        List.countP_cons_of_neg (by simp [hlook])
      rw [hlook] at hrun
      rw [hcount] at hfit
      refine ih h hfit hrun ?_
      obtain ⟨i, hi, hf⟩ := hf
      rcases List.mem_cons.1 hi with rfl | hin
      · rw [hlook] at hf
        cases hf
      · exact ⟨i, hin, hf⟩
    | some func =>
      have hcount : stubCount table (idx :: idxs) = stubCount table idxs + 1 :=
        List.countP_cons_of_pos (by simp [hlook])
      rw [hlook] at hrun
      rw [hcount, Nat.cast_add, Nat.cast_one] at hfit
      obtain ⟨s₁, hrun₁, hready₁, -, hcursor₁, haddr₁, -⟩ :=
        run_writeFunction hregion h func (by omega)
      rw [bind_of_ok hrun₁] at hrun
      obtain ⟨s₂, hrun₂, -, hwrites, -, -⟩ :=
        run_writeFunctions hregion table idxs hready₁ (by omega)
      cases hrun.symm.trans hrun₂
      by_cases hagain : Met table idxs f
      · have hle := ih hready₁ (by omega) hrun hagain
        omega
      · -- A function that does not come again keeps the stub from here.
        obtain ⟨i, hi, hf⟩ := hf
        rcases List.mem_cons.1 hi with rfl | hin
        · rw [hlook] at hf
          rw [hwrites.addrs f hagain, ← Option.some.inj hf, haddr₁]
        · exact absurd ⟨i, hin, hf⟩ hagain

/-- A table, its pointer and its stubs are above an address. -/
structure TableAbove (low : ℤ) (w : StubWriter F) (table : List (Int64 × F)) (ret : TableRet) :
    Prop where
  ptrLow : low ≤ ret.ptr.toInt
  tableLow : low ≤ ret.table.toInt
  stubLow : ∀ i f, table.lookup i = some f → low ≤ (w.hookAddr f).toInt

/-- A table is written above the first position of the cursor, if there is room for a stub and a
word for every index. -/
theorem tableAbove_writeFunctionTable (hregion : IsRegion32 lo hi) {bound : Int64}
    (hbound : indexMax table = .ok bound) (h : WriterReady lo hi s)
    (hindices : ∀ i f, table.lookup i = some f → i ∈ indices bound)
    (hfit : s.2.hookCurrent.toInt + 16 * (indices bound).length + 4 ≤ hi.toInt)
    {ret : TableRet} (hrun : (writeFunctionTable table).run s = .ok ret s') :
    TableAbove s.2.hookCurrent.toInt s'.2 table ret := by
  obtain ⟨s₁, s₂, hfuncs, hwords, hptr, rfl⟩ := exists_stages hbound hrun
  have hcount : stubCount table (indices bound) ≤ (indices bound).length := List.countP_le_length
  obtain ⟨s₁', hfuncs', hready₁, hwrites₁, hcursor₁, -⟩ :=
    run_writeFunctions hregion table (indices bound) h (by omega)
  cases hfuncs.symm.trans hfuncs'
  obtain ⟨s₂', hwords', hready₂, hwrites₂, hcursor₂, -⟩ :=
    run_writeTable hregion table (indices bound) hready₁ (by omega)
  cases hwords.symm.trans hwords'
  obtain ⟨s₃, hptr', -, hwrites₃, -⟩ :=
    run_writeU32 hregion hready₂ s₁.2.hookCurrent (by omega)
  cases hptr.symm.trans hptr'
  have hle₁ := hwrites₁.cursor
  have hle₂ := hwrites₂.cursor
  refine ⟨hle₁.trans hle₂, hle₁, fun i f hf => ?_⟩
  rw [hwrites₃.addrs f id, hwrites₂.addrs f id]
  exact le_hookAddr_writeFunctions hregion h (by omega) hfuncs ⟨i, hindices i f hf, hf⟩

end Addresses

/-! ## Tables without gaps -/

section TableFrom

variable {F : Type} {g : ℕ → F} {first n : ℕ}

/-- A table with a function for each of `n` indices. -/
def tableFrom (first n : ℕ) (g : ℕ → F) : List (Int64 × F) :=
  (List.range' first n).map fun idx => (Int64.ofNat idx, g idx)

theorem lookup_tableFrom (hn : first + n < 2 ^ 63) {idx : ℕ} (hidx : idx < 2 ^ 63) :
    (tableFrom first n g).lookup (Int64.ofNat idx) =
      if first ≤ idx ∧ idx < first + n then some (g idx) else none := by
  induction n generalizing first with
  | zero => rw [if_neg (by omega)]; rfl
  | succ n ih =>
    have hcons : tableFrom first (n + 1) g =
        (Int64.ofNat first, g first) :: tableFrom (first + 1) n g := rfl
    rw [hcons, List.lookup_cons]
    by_cases heq : idx = first
    · subst heq
      rw [if_pos (by omega), beq_self_eq_true]
    · have hne : (Int64.ofNat idx == Int64.ofNat first) = false := by
        rw [beq_eq_false_iff_ne]
        intro h
        have hnat := congrArg Int64.toInt h
        rw [Int64.toInt_ofNat_of_lt hidx, Int64.toInt_ofNat_of_lt (by omega)] at hnat
        omega
      have hiff : (first + 1 ≤ idx ∧ idx < first + 1 + n) ↔
          (first ≤ idx ∧ idx < first + (n + 1)) := by omega
      rw [hne]
      exact (ih (by omega)).trans (if_congr hiff rfl rfl)

/-- The functions of such a table. -/
theorem tableFuncs_tableFrom (hn : first + n < 2 ^ 63) :
    tableFuncs (tableFrom first n g) ((List.range (first + n)).map Int64.ofNat) =
      (List.range' first n).map g := by
  have hlook : ∀ idx < first + n, (tableFrom first n g).lookup (Int64.ofNat idx) =
      if first ≤ idx then some (g idx) else none := by
    intro idx hidx
    rw [lookup_tableFrom hn (by omega)]
    exact if_congr (and_iff_left hidx) rfl rfl
  rw [tableFuncs, List.filterMap_map, List.range_add, List.filterMap_append]
  -- The indices before the first one have no function.
  have hbefore : (List.range first).filterMap
      ((fun idx => (tableFrom first n g).lookup idx) ∘ Int64.ofNat) = [] := by
    refine List.filterMap_eq_nil_iff.2 fun idx hidx => ?_
    have hlt := List.mem_range.1 hidx
    rw [Function.comp_apply, hlook idx (by omega), if_neg (by omega)]
  have hafter : ((List.range n).map (first + ·)).filterMap
      ((fun idx => (tableFrom first n g).lookup idx) ∘ Int64.ofNat) =
        ((List.range n).map (first + ·)).map g := by
    refine (List.filterMap_congr fun idx hidx => ?_).trans (congrFun List.filterMap_eq_map _)
    obtain ⟨k, hk, rfl⟩ := List.mem_map.1 hidx
    have hlt := List.mem_range.1 hk
    rw [Function.comp_apply, hlook (first + k) (by omega), if_pos (by omega)]
    rfl
  rw [hbefore, hafter, List.nil_append, ← List.range'_eq_map_range]

/-- The loops meet every index of a table without gaps. -/
theorem mem_indices_of_lookup {i : Int64} {f : F}
    (h : (tableFrom first n g).lookup i = some f) :
    i ∈ (List.range (first + n)).map Int64.ofNat := by
  obtain ⟨k, hk, hik⟩ := List.mem_map.1 (mem_of_lookup h)
  have hlt : k < first + n := (List.mem_range'_1.1 hk).2
  exact List.mem_map.2 ⟨k, List.mem_range.2 hlt, (Prod.mk.inj hik).1⟩

end TableFrom

end Tank
