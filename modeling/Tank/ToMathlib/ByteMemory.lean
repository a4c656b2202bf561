import Mathlib.Logic.Function.Basic
import Mathlib.Data.List.Range
import Mathlib.Tactic.Linarith

/-!
# Byte memories over 64-bit addresses

A memory `m : UInt64 → UInt8` and the two operations of a debugger on it: `readBytes m a n`
reads the `n` bytes from address `a` on, `overwrite m a bytes` stores a list of bytes there.
Addresses wrap, so the bytes from `a` on are those at a distance `x - a` below the length
(`Within`).

* `readBytes_overwrite`: what was stored is read back, also part by part
  (`readBytes_overwrite_append`);
* `overwrite_of_not_within`, `readBytes_congr`: a store changes nothing else;
* `overwrite_append`: a store in two parts;
* `overwrite_eq_self_iff`, `overwrite_append_eq_iff`: when bytes make no difference;
* `modifyBytes_comm`: changes of ranges that share no address commute.

A string in memory ends before the first zero byte (`Terminated`). It is found byte by byte
(`terminated_nil`, `terminated_cons`) or piece by piece (`terminated_iff_of_lt`,
`terminated_append`).
-/

namespace ToMathlib

/-- The address `x` is one of the `n` addresses from `a` on. -/
def Within (a : UInt64) (n : ℕ) (x : UInt64) : Prop := (x - a).toNat < n

instance (a : UInt64) (n : ℕ) (x : UInt64) : Decidable (Within a n x) :=
  inferInstanceAs (Decidable (_ < _))

/-- Store `bytes` at the addresses from `a` on. -/
def overwrite (m : UInt64 → UInt8) (a : UInt64) (bytes : List UInt8) : UInt64 → UInt8 :=
  fun x => if h : (x - a).toNat < bytes.length then bytes[(x - a).toNat] else m x

/-- The `n` bytes from `a` on. -/
def readBytes (m : UInt64 → UInt8) (a : UInt64) (n : ℕ) : List UInt8 :=
  (List.range n).map fun k => m (a + UInt64.ofNat k)

/-- Replace the `n` bytes from `a` on by what `g` makes of them. -/
def modifyBytes (m : UInt64 → UInt8) (a : UInt64) (n : ℕ) (g : List UInt8 → List UInt8) :
    UInt64 → UInt8 :=
  overwrite m a (g (readBytes m a n))

variable {m m' : UInt64 → UInt8} {a b x : UInt64} {n n' k : ℕ} {bytes bytes' : List UInt8}
  {g g' : List UInt8 → List UInt8}

theorem toNat_add_sub (hk : k < 2 ^ 64) : (a + UInt64.ofNat k - a).toNat = k := by
  rw [UInt64.add_comm, UInt64.add_sub_cancel, UInt64.toNat_ofNat_of_lt' hk]

theorem within_add (hk : k < n) (hn : n ≤ 2 ^ 64) : Within a n (a + UInt64.ofNat k) := by
  rw [Within, toNat_add_sub (by omega)]
  exact hk

/-- An address of a range is the start plus a distance below the length. -/
theorem Within.exists_add (h : Within a n x) : ∃ k < n, x = a + UInt64.ofNat k := by
  refine ⟨(x - a).toNat, h, ?_⟩
  rw [UInt64.ofNat_toNat, UInt64.add_comm, UInt64.sub_add_cancel]

theorem add_ofNat_add (a : UInt64) (n k : ℕ) :
    a + UInt64.ofNat (n + k) = a + UInt64.ofNat n + UInt64.ofNat k := by
  rw [UInt64.ofNat_add, UInt64.add_assoc]

/-- The part of a range after its first `n` addresses. -/
theorem Within.toNat_sub_of_after (h : Within (a + UInt64.ofNat n) k x) (hn : n + k ≤ 2 ^ 64) :
    n ≤ (x - a).toNat ∧ (x - a).toNat < n + k := by
  obtain ⟨i, hi, rfl⟩ := h.exists_add
  rw [← add_ofNat_add, toNat_add_sub (by omega)]
  omega

/-- A range that does not wrap is an interval. -/
theorem within_iff (h : a.toNat + n ≤ 2 ^ 64) :
    Within a n x ↔ a.toNat ≤ x.toNat ∧ x.toNat < a.toNat + n := by
  have ha := a.toNat_lt
  have hx := x.toNat_lt
  rw [Within, UInt64.toNat_sub]
  omega

theorem overwrite_of_not_within (h : ¬Within a bytes.length x) : overwrite m a bytes x = m x :=
  dif_neg h

theorem overwrite_add (hk : k < bytes.length) (hlen : bytes.length ≤ 2 ^ 64) :
    overwrite m a bytes (a + UInt64.ofNat k) = bytes[k] := by
  have hoff : (a + UInt64.ofNat k - a).toNat = k := toNat_add_sub (by omega)
  simp only [overwrite, hoff, hk, dif_pos]

@[simp]
theorem length_readBytes : (readBytes m a n).length = n := by
  simp [readBytes]

theorem getElem_readBytes (hk : k < (readBytes m a n).length) :
    (readBytes m a n)[k] = m (a + UInt64.ofNat k) := by
  simp [readBytes]

theorem readBytes_congr (h : ∀ x, Within a n x → m' x = m x) (hn : n ≤ 2 ^ 64) :
    readBytes m' a n = readBytes m a n :=
  List.map_congr_left fun _ hk => h _ (within_add (List.mem_range.1 hk) hn)

/-- A range is read as its first part and the rest. -/
theorem readBytes_add (m : UInt64 → UInt8) (a : UInt64) (n k : ℕ) :
    readBytes m a (n + k) = readBytes m a n ++ readBytes m (a + UInt64.ofNat n) k := by
  simp only [readBytes, List.range_add, List.map_append, List.map_map]
  congr 2
  ext i
  simp [UInt64.ofNat_add, UInt64.add_assoc]

/-- Reading back the first bytes of what was stored. -/
theorem readBytes_overwrite_take (hn : n ≤ bytes.length) (hlen : bytes.length ≤ 2 ^ 64) :
    readBytes (overwrite m a bytes) a n = bytes.take n := by
  refine List.ext_getElem (by simp [hn]) fun k hk _ => ?_
  rw [length_readBytes] at hk
  rw [getElem_readBytes, overwrite_add (by omega) hlen, List.getElem_take]

/-- Reading back what was stored. -/
theorem readBytes_overwrite (hlen : bytes.length ≤ 2 ^ 64) :
    readBytes (overwrite m a bytes) a bytes.length = bytes := by
  rw [readBytes_overwrite_take le_rfl hlen, List.take_length]

/-- A range is stored as its first part and the rest. -/
theorem overwrite_append (hlen : (bytes ++ bytes').length ≤ 2 ^ 64) :
    overwrite m a (bytes ++ bytes') =
      overwrite (overwrite m a bytes) (a + UInt64.ofNat bytes.length) bytes' := by
  rw [List.length_append] at hlen
  funext x
  by_cases hrest : Within (a + UInt64.ofNat bytes.length) bytes'.length x
  · obtain ⟨k, hk, rfl⟩ := hrest.exists_add
    rw [overwrite_add hk (by omega), ← add_ofNat_add,
      overwrite_add (by rw [List.length_append]; omega) (by rw [List.length_append]; omega)]
    simp
  · rw [overwrite_of_not_within hrest]
    by_cases hx : Within a bytes.length x
    · obtain ⟨k, hk, rfl⟩ := hx.exists_add
      rw [overwrite_add (by rw [List.length_append]; omega) (by rw [List.length_append]; omega),
        overwrite_add hk (by omega), List.getElem_append_left hk]
    · -- Neither part contains the address.
      have hboth : ¬Within a (bytes ++ bytes').length x := by
        intro hin
        obtain ⟨k, hk, rfl⟩ := hin.exists_add
        rw [List.length_append] at hk
        rw [Within, toNat_add_sub (by omega)] at hx
        obtain ⟨i, rfl⟩ := Nat.exists_eq_add_of_le (not_lt.1 hx)
        rw [add_ofNat_add] at hrest
        exact hrest (within_add (by omega) (by omega))
      rw [overwrite_of_not_within hx, overwrite_of_not_within hboth]

/-- Of two stores to the same address the second one stays, if it is not shorter. -/
theorem overwrite_overwrite (h : bytes.length ≤ bytes'.length) :
    overwrite (overwrite m a bytes) a bytes' = overwrite m a bytes' := by
  funext x
  by_cases hx : Within a bytes'.length x
  · simp only [overwrite, dif_pos (show (x - a).toNat < bytes'.length from hx)]
  · have hx' : ¬Within a bytes.length x := fun hx' => hx (hx'.trans_le h)
    rw [overwrite_of_not_within hx, overwrite_of_not_within hx, overwrite_of_not_within hx']

/-- Storing bytes makes no difference exactly if they are there already. -/
theorem overwrite_eq_self_iff (hlen : bytes.length ≤ 2 ^ 64) :
    overwrite m a bytes = m ↔ readBytes m a bytes.length = bytes := by
  constructor
  · intro h
    have hread := readBytes_overwrite (m := m) (a := a) hlen
    rwa [h] at hread
  · intro h
    funext x
    by_cases hx : Within a bytes.length x
    · obtain ⟨k, hk, rfl⟩ := hx.exists_add
      rw [overwrite_add hk hlen]
      simpa [readBytes, hk] using (congrArg (·[k]?) h).symm
    · exact overwrite_of_not_within hx

theorem overwrite_apply_add (hk : k < 2 ^ 64) :
    overwrite m a bytes (a + UInt64.ofNat k) = bytes[k]?.getD (m (a + UInt64.ofNat k)) := by
  have hoff : (a + UInt64.ofNat k - a).toNat = k := toNat_add_sub hk
  by_cases hlt : k < bytes.length
  · simp only [overwrite, hoff, hlt, dif_pos, List.getElem?_eq_getElem, Option.getD_some]
  · rw [overwrite_of_not_within (by rwa [Within, hoff]), List.getElem?_eq_none (not_lt.1 hlt)]
    rfl

/-- Two stores to the same address make the same memory if they do so byte by byte. -/
theorem overwrite_eq_overwrite_iff :
    overwrite m a bytes = overwrite m a bytes' ↔
      ∀ k < 2 ^ 64, bytes[k]?.getD (m (a + UInt64.ofNat k)) =
        bytes'[k]?.getD (m (a + UInt64.ofNat k)) := by
  constructor
  · intro h k hk
    rw [← overwrite_apply_add hk, h, overwrite_apply_add hk]
  · intro h
    funext x
    obtain ⟨k, hk, rfl⟩ : ∃ k < 2 ^ 64, x = a + UInt64.ofNat k :=
      Within.exists_add (x - a).toNat_lt
    rw [overwrite_apply_add hk, h k hk, overwrite_apply_add hk]

/-- Each part of a store is read back. -/
theorem readBytes_overwrite_append {before after : List UInt8}
    (hlen : (before ++ (bytes ++ after)).length ≤ 2 ^ 64) :
    readBytes (overwrite m a (before ++ (bytes ++ after))) (a + UInt64.ofNat before.length)
      bytes.length = bytes := by
  refine List.ext_getElem (by simp) fun k _ hk => ?_
  have hbound : before.length + k < (before ++ (bytes ++ after)).length := by
    simp only [List.length_append]
    omega
  rw [getElem_readBytes, ← add_ofNat_add, overwrite_add hbound hlen,
    List.getElem_append_right (by omega), List.getElem_append_left (by omega)]
  simp

/-- A store does not reach the bytes after it. -/
theorem readBytes_overwrite_after (hlen : bytes.length + k ≤ 2 ^ 64) :
    readBytes (overwrite m a bytes) (a + UInt64.ofNat bytes.length) k =
      readBytes m (a + UInt64.ofNat bytes.length) k := by
  refine readBytes_congr (fun x hx => overwrite_of_not_within ?_) (by omega)
  exact not_lt.2 (hx.toNat_sub_of_after hlen).1

/-- Storing more bytes makes no difference exactly if they are there already. -/
theorem overwrite_append_eq_iff (hlen : (bytes ++ bytes').length ≤ 2 ^ 64) :
    overwrite m a (bytes ++ bytes') = overwrite m a bytes ↔
      readBytes m (a + UInt64.ofNat bytes.length) bytes'.length = bytes' := by
  have hlens := hlen
  rw [List.length_append] at hlens
  rw [overwrite_append hlen, overwrite_eq_self_iff (by omega), readBytes_overwrite_after hlens]

/-- Stores to ranges that share no address commute. -/
theorem overwrite_comm (h : ∀ x, Within a bytes.length x → ¬Within b bytes'.length x) :
    overwrite (overwrite m a bytes) b bytes' = overwrite (overwrite m b bytes') a bytes := by
  ext x
  by_cases ha : Within a bytes.length x
  · have hb := h x ha
    rw [overwrite_of_not_within hb]
    simp only [overwrite, dif_pos (show (x - a).toNat < bytes.length from ha)]
  · rw [overwrite_of_not_within ha]
    by_cases hb : Within b bytes'.length x
    · simp only [overwrite, dif_pos (show (x - b).toNat < bytes'.length from hb)]
    · rw [overwrite_of_not_within hb, overwrite_of_not_within hb, overwrite_of_not_within ha]

theorem modifyBytes_of_not_within (hg : ∀ l, (g l).length = n) (h : ¬Within a n x) :
    modifyBytes m a n g x = m x :=
  overwrite_of_not_within (by rwa [hg])

/-- Neither change reads what the other one writes. -/
theorem modifyBytes_comm (hg : ∀ l, (g l).length = n) (hg' : ∀ l, (g' l).length = n')
    (hn : n ≤ 2 ^ 64) (hn' : n' ≤ 2 ^ 64) (h : ∀ x, Within a n x → ¬Within b n' x) :
    modifyBytes (modifyBytes m a n g) b n' g' = modifyBytes (modifyBytes m b n' g') a n g := by
  have hread : readBytes (modifyBytes m a n g) b n' = readBytes m b n' :=
    readBytes_congr (fun x hx => modifyBytes_of_not_within hg fun ha => h x ha hx) hn'
  have hread' : readBytes (modifyBytes m b n' g') a n = readBytes m a n :=
    readBytes_congr (fun x hx => modifyBytes_of_not_within hg' (h x hx)) hn
  calc modifyBytes (modifyBytes m a n g) b n' g'
      = overwrite (modifyBytes m a n g) b (g' (readBytes m b n')) := by rw [modifyBytes, hread]
    _ = overwrite (overwrite m b (g' (readBytes m b n'))) a (g (readBytes m a n)) := by
      apply overwrite_comm
      rw [hg, hg']
      exact h
    _ = modifyBytes (modifyBytes m b n' g') a n g := by
      rw [modifyBytes, hread', modifyBytes]

/-! ## Terminated strings -/

/-- The bytes from `a` on up to the first zero byte. -/
def Terminated (m : UInt64 → UInt8) (a : UInt64) (bytes : List UInt8) : Prop :=
  0 ∉ bytes ∧ readBytes m a (bytes.length + 1) = bytes ++ [0]

instance (m : UInt64 → UInt8) (a : UInt64) (bytes : List UInt8) :
    Decidable (Terminated m a bytes) :=
  inferInstanceAs (Decidable (_ ∧ _))

theorem readBytes_one (m : UInt64 → UInt8) (a : UInt64) : readBytes m a 1 = [m a] := by
  simp [readBytes]

theorem terminated_append :
    Terminated m a (bytes ++ bytes') ↔
      0 ∉ bytes ∧ readBytes m a bytes.length = bytes ∧
        Terminated m (a + UInt64.ofNat bytes.length) bytes' := by
  rw [Terminated, Terminated, List.mem_append, not_or, List.length_append, Nat.add_assoc,
    readBytes_add, List.append_assoc]
  constructor
  · rintro ⟨⟨hnul, hnul'⟩, hread⟩
    obtain ⟨hfirst, hrest⟩ := List.append_inj hread length_readBytes
    exact ⟨hnul, hfirst, hnul', hrest⟩
  · rintro ⟨hnul, hfirst, hnul', hrest⟩
    exact ⟨⟨hnul, hnul'⟩, by rw [hfirst, hrest]⟩

theorem terminated_nil : Terminated m a [] ↔ m a = 0 := by
  rw [Terminated, List.length_nil, readBytes_one]
  simp

theorem terminated_cons {b : UInt8} :
    Terminated m a (b :: bytes) ↔ b ≠ 0 ∧ m a = b ∧ Terminated m (a + 1) bytes := by
  rw [← List.singleton_append, terminated_append, List.length_singleton, readBytes_one]
  simp [eq_comm]

/-- A memory has one string at an address. -/
theorem Terminated.unique (h : Terminated m a bytes) (h' : Terminated m a bytes') :
    bytes = bytes' := by
  induction bytes generalizing a bytes' with
  | nil =>
    cases bytes' with
    | nil => rfl
    | cons b' bytes' =>
      obtain ⟨hne, hb, -⟩ := terminated_cons.1 h'
      exact absurd (hb.symm.trans (terminated_nil.1 h)) hne
  | cons b bytes ih =>
    obtain ⟨hne, hb, hrest⟩ := terminated_cons.1 h
    cases bytes' with
    | nil => exact absurd (hb.symm.trans (terminated_nil.1 h')) hne
    | cons b' bytes' =>
      obtain ⟨-, hb', hrest'⟩ := terminated_cons.1 h'
      rw [← hb, ← hb', ih hrest hrest']

/-- A string that was stored with a zero byte after it. -/
theorem terminated_overwrite (hnul : 0 ∉ bytes) (hlen : bytes.length < 2 ^ 64) :
    Terminated (overwrite m a (bytes ++ [0])) a bytes := by
  have hread : readBytes (overwrite m a (bytes ++ [0])) a (bytes ++ [0]).length = bytes ++ [0] :=
    readBytes_overwrite (by rw [List.length_append]; exact hlen)
  rw [List.length_append] at hread
  exact ⟨hnul, hread⟩

/-- The string ends in a piece of memory exactly if the first zero byte is there. -/
theorem terminated_iff_of_lt (hlt : bytes.length < n) :
    Terminated m a bytes ↔
      (readBytes m a n).findIdx (· == 0) = bytes.length ∧ (readBytes m a n).take bytes.length =
        bytes := by
  obtain ⟨k, rfl⟩ := Nat.exists_eq_add_of_le hlt
  have hsplit : readBytes m a (bytes.length + 1 + k) =
      readBytes m a bytes.length ++
        m (a + UInt64.ofNat bytes.length) ::
          readBytes m (a + UInt64.ofNat (bytes.length + 1)) k := by
    rw [readBytes_add, readBytes_add, readBytes_one]
    simp
  have hfirst : Terminated m a bytes ↔ 0 ∉ bytes ∧ readBytes m a bytes.length = bytes ∧
      m (a + UInt64.ofNat bytes.length) = 0 := by
    conv_lhs => rw [← List.append_nil bytes, terminated_append, terminated_nil]
  have htake : (readBytes m a (bytes.length + 1 + k)).take bytes.length =
      readBytes m a bytes.length := by
    rw [hsplit, List.take_left' length_readBytes]
  rw [hfirst, htake]
  constructor
  · rintro ⟨hnul, hread, hzero⟩
    refine ⟨?_, hread⟩
    rw [hsplit, hread, hzero, List.findIdx_append, if_neg]
    · simp [List.findIdx_cons]
    · rw [not_lt]
      refine (List.findIdx_eq_length.2 fun b hb => ?_).ge
      simpa using ne_of_mem_of_not_mem hb hnul
  · rintro ⟨hidx, hread⟩
    have hlen : (readBytes m a (bytes.length + 1 + k)).findIdx (· == 0) <
        (readBytes m a (bytes.length + 1 + k)).length := by
      rw [hidx, length_readBytes]
      omega
    refine ⟨fun hmem => ?_, hread, ?_⟩
    · obtain ⟨i, hi, hzero⟩ := List.mem_iff_getElem.1 hmem
      have hne := List.not_of_lt_findIdx (hidx.symm ▸ hi)
      simp only [hsplit, hread, List.getElem_append_left hi, hzero] at hne
      cases hne
    · have hzero := List.findIdx_getElem (w := hlen)
      rw [getElem_readBytes, beq_iff_eq, hidx] at hzero
      exact hzero

end ToMathlib
