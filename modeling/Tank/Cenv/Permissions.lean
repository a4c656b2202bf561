import Tank.Cenv.Handler
import Tank.Module.Layout
import Tank.Module.Registry
import Tank.Module.RelocationOrder
import Tank.ToMathlib.Trace

/-!
# Permissions of pages over runs

A page should have no more rights than were last requested for it: by the flags of the segment it
was mapped for, by `mmap2`, or by `mprotect`. This fails for every segment that does not ask for all
rights, because `get_segment_protection` tests its flags with `|`; for calls that do nothing outside
of the mapping area; and for the page after a range that ends with a page.

## Main results

* `rights_within_requests`: in runs without these cases, every mapped page has at most the rights
  that were last requested.
* `too_many_rights` are two runs in which this fails.
-/

namespace Tank

open ToMathlib MemoryManager

/-! ## Requests -/

/-- The rights `p` are among the rights `q`. -/
def SubRights (p q : UInt32) : Prop := p &&& ~~~q = 0

instance (p q : UInt32) : Decidable (SubRights p q) := inferInstanceAs (Decidable (_ = _))

theorem SubRights.refl (p : UInt32) : SubRights p p := UInt32.and_not_self

/-- The rights that the flags of a segment ask for: `PF_R` is 4, `PF_W` is 2 and `PF_X` is 1. -/
def segmentRights (flags : Int32) : UInt32 :=
  (if flags &&& 4 ≠ 0 then 1 else 0) ||| (if flags &&& 2 ≠ 0 then 2 else 0) |||
    (if flags &&& 1 ≠ 0 then 4 else 0)

/-- The rights asked for by the first segment that is mapped at the address. -/
def loadRights (loadBase : Int64) (elf : ElfFile) (x : UInt64) : UInt32 :=
  match (occupied elf.getLoadSegments).find?
      fun segment => (segmentRange loadBase segment).region.contains x with
  | some segment => segmentRights segment.flags
  | none => 0

/-- The emulator and the rights that were last requested for each address. -/
structure RightsState where
  emu : Emulator
  /-- A history that nothing reads. -/
  requested : UInt64 → UInt32

/-- What can change the mapping of a page or its permissions. -/
inductive RightsStep where
  | load (file : Except JavaException ElfFile)
  | syscall (call : MemSyscall)

namespace RightsState

/-- The state of an emulator for whose pages nothing else was requested yet. -/
def start (emu : Emulator) : RightsState := ⟨emu, emu.uc.perms⟩

/-- The emulator after a step, which may also have thrown. -/
def emuAfter (emu : Emulator) : RightsStep → Emulator
  | .load file => finalState ((loadFile file).run emu)
  | .syscall call => finalState (call.code.run emu)

/-- The address was mapped by the step from `emu` to `emu'`. -/
def newlyMapped (emu emu' : Emulator) (x : UInt64) : Bool := emu'.uc.mapped x && !emu.uc.mapped x

/-- The call returned a value other than `-1`. -/
def succeeds (call : MemSyscall) (emu : Emulator) : Bool :=
  match call.code.run emu with
  | .ok ret _ => ret.value ≠ -1
  | .error _ _ => false

/-- The rights a step requests for an address. A file requests them for the addresses that are
mapped for it, and so does `mmap2`; with `MAP_FIXED` it requests them for the pages that it returns.
`mprotect` requests them for the pages that meet its range, whatever it returns. -/
def request (emu : Emulator) (x : UInt64) : RightsStep → Option UInt32
  | .load (.error _) => none
  | .load (.ok elf) =>
    if newlyMapped emu (emuAfter emu (.load (.ok elf))) x then
      some (loadRights emu.memory.incrementalAllocator.pos elf x)
    else none
  | .syscall (.mmap2 addr size prot flags) =>
    let call := MemSyscall.mmap2 addr size prot flags
    if newlyMapped emu (emuAfter emu (.syscall call)) x ∨
        isFixed flags = true ∧ succeeds call emu = true ∧ MeetsPage addr.toNat size.toNat x then
      some prot
    else none
  | .syscall (.mprotect addr len prot) =>
    if MeetsPage addr.toNat len.toNat x then some prot else none
  | .syscall (.munmap _ _) => none

/-- The state after a step. -/
def step (s : RightsState) (a : RightsStep) : RightsState :=
  ⟨emuAfter s.emu a, fun x => (request s.emu x a).getD (s.requested x)⟩

/-- No mapped page has more rights than were last requested for it. -/
def WithinRequests (s : RightsState) : Prop :=
  ∀ x, s.emu.uc.mapped x = true → SubRights (s.emu.uc.perms x) (s.requested x)

/-- The call changes the permissions of the pages of its range. -/
structure Protects (s : RightsState) (addr len prot : UInt32) : Prop where
  aligned : 0x1000 ∣ addr.toNat
  managed : Managed addr.toNat (pageEnd (addr.toNat + len.toNat))
  can : CanProtect s.emu.uc addr len prot

/-- If the range ends with a page, then the new rights were requested for the page after it too. -/
def PageAfterAllows (s : RightsState) (addr len prot : UInt32) : Prop :=
  ∀ x, InPageAfter addr.toNat len.toNat x → SubRights prot (s.requested x)

/-- The mapped pages that meet the range have none but the new rights already. -/
def AlreadyWithin (s : RightsState) (addr len prot : UInt32) : Prop :=
  ∀ x, s.emu.uc.mapped x = true → MeetsPage addr.toNat len.toNat x →
    SubRights (s.emu.uc.perms x) prot

/-- The segments of a file ask for all rights. A call that changes permissions may change those of
the page after its range, and one that does not finds them within the new ones. -/
def Regular (s : RightsState) : RightsStep → Prop
  | .load file => ∀ elf, file = .ok elf →
      ∀ segment ∈ occupied elf.getLoadSegments, segmentRights segment.flags = 7
  | .syscall (.mmap2 addr size prot flags) => isFixed flags = true →
      (s.Protects addr size prot → s.PageAfterAllows addr size prot) ∧
      (0x1000 ∣ addr.toNat → ¬Managed addr.toNat (pageEnd (addr.toNat + size.toNat)) →
        s.AlreadyWithin addr size prot)
  | .syscall (.mprotect addr len prot) =>
      (s.Protects addr len prot → s.PageAfterAllows addr len prot) ∧
      (¬s.Protects addr len prot → s.AlreadyWithin addr len prot)
  | .syscall (.munmap _ _) => True

variable {s : RightsState}

/-! ## Loads -/

section Load

variable {P : UInt64 → UInt32 → Prop}

theorem keeps_writeSegments_acquires (buffer : ByteBuffer) (loadBase : Int64)
    (segments : List ElfSegment)
    (hP : ∀ segment ∈ occupied segments, ∀ x,
      (segmentRange loadBase segment).region.contains x = true → P x 7) :
    Keeps (Unicorn.Acquires P) (writeSegments buffer loadBase segments) := by
  induction segments with
  | nil => exact Keeps.pure ()
  | cons segment segments ih =>
    rw [writeSegments]
    split
    next hzero =>
      rw [occupied, List.filter_cons_of_neg (by simpa using hzero)] at hP
      exact ih hP
    next hne =>
      rw [occupied, List.filter_cons_of_pos (by simpa using hne)] at hP
      obtain ⟨hhead, htail⟩ := List.forall_mem_cons.1 hP
      refine Keeps.bind ?_ fun _ => ih htail
      -- The flags of the segment do not matter.
      rw [writeSegment, getSegmentProtection_eq]
      refine Keeps.bind (Unicorn.keeps_memMap_acquires hhead) fun _ => ?_
      refine Keeps.bind (Keeps.getOrThrow _) fun _ => ?_
      exact Unicorn.keeps_memWrite_acquires _ _

theorem keeps_relocateDynSymbols_acquires (elf : ElfFile) (m : Module)
    (sections : List ElfSection) :
    Keeps (Unicorn.Acquires P) (relocateDynSymbols elf m sections) := by
  intro uc
  rw [relocateDynSymbols_eq]
  obtain ⟨mem, hmem, -⟩ := keeps_relocateAll elf m (relocations sections) uc
  rw [hmem]
  exact .of_eq rfl rfl

/-- The segments are mapped from the position of the allocator on. -/
theorem acquires_writeSegmentsToMemory (memory : MemoryManager) (elf : ElfFile)
    (hP : ∀ segment ∈ occupied elf.getLoadSegments, ∀ x,
      (segmentRange memory.incrementalAllocator.pos segment).region.contains x = true → P x 7) :
    Unicorn.Acquires P memory.uc (finalState ((writeSegmentsToMemory elf).run memory)).uc := by
  rcases hreserve : (memory.incrementalAllocator.reserve (moduleSize elf)).2 with err | chunk
  · rw [run_writeSegmentsToMemory_of_error hreserve]
    exact Std.Refl.refl memory.uc
  · have haddr : chunk.addr = memory.incrementalAllocator.pos := by
      rw [IncrementalAllocator.eq_of_reserve_eq_ok hreserve]
    have hkeeps := keeps_writeSegments_acquires elf.buffer chunk.addr elf.getLoadSegments
      (by rwa [haddr]) memory.uc
    rw [run_writeSegmentsToMemory hreserve]
    rcases hrun : (writeSegments elf.buffer chunk.addr elf.getLoadSegments).run memory.uc with _ | _
    · rwa [hrun] at hkeeps
    · rwa [hrun] at hkeeps

/-- A load maps the ranges of segments, with all permissions. -/
theorem acquires_loadFile (emu : Emulator) (elf : ElfFile)
    (hP : ∀ segment ∈ occupied elf.getLoadSegments, ∀ x,
      (segmentRange emu.memory.incrementalAllocator.pos segment).region.contains x = true →
        P x 7) :
    Emulator.Acquires P emu (finalState ((loadFile (.ok elf)).run emu)) := by
  have hload : Emulator.Acquires P emu (finalState ((loadElfModule elf).run emu)) := by
    rw [loadElfModule]
    split
    · exact .of_eq rfl rfl
    · refine rel_finalState_bind ?_ fun _ => ?_
      · have hwrite := acquires_writeSegmentsToMemory emu.memory elf hP
        simp only [EStateM.run, liftMem] at hwrite ⊢
        split
        next heq => rwa [heq] at hwrite
        next heq => rwa [heq] at hwrite
      -- Nothing is mapped after the segments.
      refine Keeps.bind (Keeps.getOrThrow _) fun _ => ?_
      refine Keeps.get_bind fun _ => ?_
      refine Keeps.bind (Keeps.getOrThrow _) fun m => ?_
      refine Keeps.bind ?_ fun _ => Keeps.pure _
      exact keeps_liftMem_uc (keeps_liftUc (keeps_relocateDynSymbols_acquires elf m elf.sections))
  have hget : (getOrThrow (.ok elf) : EmuM ElfFile).run emu = .ok elf emu := rfl
  rw [loadFile, bind_of_ok hget, loadModule]
  refine rel_finalState_bind hload fun m => ?_
  exact Keeps.bind (fun emu => .of_eq rfl rfl) fun _ => Keeps.pure _

end Load

/-- Segments that all ask for all rights do so together. -/
theorem loadRights_of_regular {loadBase : Int64} {elf : ElfFile} {segment : ElfSegment} {x : UInt64}
    (hregular : ∀ segment ∈ occupied elf.getLoadSegments, segmentRights segment.flags = 7)
    (hmem : segment ∈ occupied elf.getLoadSegments)
    (hx : (segmentRange loadBase segment).region.contains x = true) :
    loadRights loadBase elf x = 7 := by
  rw [loadRights]
  split
  next segment' hfind => exact hregular segment' (List.mem_of_find?_eq_some hfind)
  next hnone => exact absurd hx (List.find?_eq_none.1 hnone segment hmem)

/-! ## One step -/

/-- A step that maps pages requests at least the rights they get. -/
theorem WithinRequests.acquires {P : UInt64 → UInt32 → Prop} {a : RightsStep}
    (h : WithinRequests s) (hacquires : Emulator.Acquires P s.emu (emuAfter s.emu a))
    (hold : ∀ x, s.emu.uc.mapped x = true → request s.emu x a = none)
    (hnew : ∀ x p, newlyMapped s.emu (emuAfter s.emu a) x = true → P x p →
      SubRights p ((request s.emu x a).getD (s.requested x))) :
    WithinRequests (s.step a) := by
  intro x hx
  show SubRights ((emuAfter s.emu a).uc.perms x) ((request s.emu x a).getD (s.requested x))
  -- A page that was mapped before keeps its permissions, and nothing is requested for it.
  rcases hmapped : s.emu.uc.mapped x with _ | _
  · apply hnew x
    · rw [newlyMapped, hmapped, Bool.not_false, Bool.and_true]
      exact hx
    · exact (hacquires x).2 hmapped hx
  · rw [hold x hmapped, Option.getD_none, ((hacquires x).1 hmapped).2]
    exact h x hmapped

theorem not_newlyMapped_of_mapped {emu emu' : Emulator} {x : UInt64}
    (hx : emu.uc.mapped x = true) : ¬newlyMapped emu emu' x = true := by
  rw [newlyMapped, hx]
  simp

theorem WithinRequests.load (h : WithinRequests s) {file : Except JavaException ElfFile}
    (hregular : Regular s (.load file)) : WithinRequests (s.step (.load file)) := by
  rcases file with err | elf
  · exact h
  -- What is newly mapped has all rights and belongs to a segment.
  let P (x : UInt64) (p : UInt32) : Prop :=
    p = 7 ∧ ∃ segment ∈ occupied elf.getLoadSegments,
      (segmentRange s.emu.memory.incrementalAllocator.pos segment).region.contains x = true
  have hload := acquires_loadFile (P := P) s.emu elf fun segment hmem x hx =>
    ⟨rfl, segment, hmem, hx⟩
  refine h.acquires hload (fun x hx => ?_) ?_
  · rw [request, if_neg (not_newlyMapped_of_mapped hx)]
  · rintro x p hnew ⟨rfl, segment, hmem, hin⟩
    rw [request, if_pos hnew, Option.getD_some,
      loadRights_of_regular (hregular elf rfl) hmem hin]
    exact SubRights.refl 7

variable {addr size prot flags : UInt32}

theorem WithinRequests.mmap2_of_not_isFixed (h : WithinRequests s)
    (hfixed : isFixed flags = false) :
    WithinRequests (s.step (.syscall (.mmap2 addr size prot flags))) := by
  have hkeeps := keeps_mmap2_of_not_isFixed addr size prot hfixed s.emu
  refine h.acquires hkeeps (fun x hx => ?_) ?_
  · rw [request, if_neg]
    simp [not_newlyMapped_of_mapped hx, hfixed]
  · rintro x p hnew rfl
    rw [request, if_pos (.inl hnew), Option.getD_some]
    exact SubRights.refl p

/-- The rights requested with a range are those of its pages, and otherwise as they were. -/
theorem withinRequests_of_same {a : RightsStep} (h : WithinRequests s)
    (hsame : emuAfter s.emu a = s.emu)
    (hrequest : ∀ x p, s.emu.uc.mapped x = true → request s.emu x a = some p →
      SubRights (s.emu.uc.perms x) p) : WithinRequests (s.step a) := by
  intro x hx
  show SubRights ((emuAfter s.emu a).uc.perms x) ((request s.emu x a).getD (s.requested x))
  have hx' : (emuAfter s.emu a).uc.mapped x = true := hx
  rw [hsame] at hx' ⊢
  rcases hreq : request s.emu x a with _ | p
  · exact h x hx'
  · exact hrequest x p hx' hreq

/-- The pages of a range that is protected have the new rights; only those that meet the range were
requested to. -/
theorem withinRequests_of_protects {a : RightsStep} (h : WithinRequests s)
    (hprotects : s.Protects addr size prot) (hafter : s.PageAfterAllows addr size prot)
    (hemu : emuAfter s.emu a =
      s.emu.withUc (s.emu.uc.setPerms (syscallPages addr size).region prot))
    (hrequest : ∀ x, request s.emu x a =
      if MeetsPage addr.toNat size.toNat x then some prot else none) :
    WithinRequests (s.step a) := by
  intro x hx
  show SubRights ((emuAfter s.emu a).uc.perms x) ((request s.emu x a).getD (s.requested x))
  have hx' : (emuAfter s.emu a).uc.mapped x = true := hx
  rw [hemu] at hx' ⊢
  have hx'' : s.emu.uc.mapped x = true := hx'
  show SubRights (if (syscallPages addr size).region.contains x then prot else s.emu.uc.perms x) _
  simp only [hrequest, contains_syscallPages_iff hprotects.aligned]
  split_ifs with hor hmeets hmeets
  · exact SubRights.refl prot
  · -- The page after the range, which `align` has added.
    exact hafter x (hor.resolve_left hmeets)
  · exact absurd (.inl hmeets) hor
  · exact h x hx''

theorem WithinRequests.mprotect (h : WithinRequests s)
    (hregular : Regular s (.syscall (.mprotect addr size prot))) :
    WithinRequests (s.step (.syscall (.mprotect addr size prot))) := by
  have hrequest : ∀ x p, s.emu.uc.mapped x = true →
      request s.emu x (.syscall (.mprotect addr size prot)) = some p →
        s.AlreadyWithin addr size prot → SubRights (s.emu.uc.perms x) p := by
    intro x p hx hreq hwithin
    rw [request] at hreq
    split_ifs at hreq with hmeets
    cases hreq
    exact hwithin x hx hmeets
  have houtcome := protectOutcome_mprotect s.emu addr size prot
  by_cases hprotects : s.Protects addr size prot
  · exact withinRequests_of_protects h hprotects (hregular.1 hprotects)
      (houtcome.finalState_of_can hprotects.aligned hprotects.managed hprotects.can) fun x => rfl
  · have hsame := houtcome.finalState_eq fun hdvd hmanaged hcan =>
      hprotects ⟨hdvd, hmanaged, hcan⟩
    exact withinRequests_of_same h hsame fun x p hx hreq =>
      hrequest x p hx hreq (hregular.2 hprotects)

/-- The request of `mmap2` with `MAP_FIXED`, which maps nothing. -/
theorem request_mmap2_of_isFixed {x : UInt64} (hfixed : isFixed flags = true)
    (hmapped : (emuAfter s.emu (.syscall (.mmap2 addr size prot flags))).uc.mapped x =
      s.emu.uc.mapped x) :
    request s.emu x (.syscall (.mmap2 addr size prot flags)) =
      if succeeds (.mmap2 addr size prot flags) s.emu = true ∧
          MeetsPage addr.toNat size.toNat x then some prot
      else none := by
  have hnew : ¬newlyMapped s.emu (emuAfter s.emu (.syscall (.mmap2 addr size prot flags))) x =
      true := by
    rw [newlyMapped, hmapped, Bool.and_not_self]
    decide
  simp only [request, hnew, hfixed, true_and, Bool.false_eq_true, false_or]

theorem WithinRequests.mmap2_of_isFixed (h : WithinRequests s) (hfixed : isFixed flags = true)
    (hregular : Regular s (.syscall (.mmap2 addr size prot flags))) :
    WithinRequests (s.step (.syscall (.mmap2 addr size prot flags))) := by
  obtain ⟨hprotects, hwithin⟩ := hregular hfixed
  have houtcome := protectOutcome_mmap2 s.emu addr size prot hfixed
  by_cases hcan : s.Protects addr size prot
  · have hemu := houtcome.finalState_of_can hcan.aligned hcan.managed hcan.can
    refine withinRequests_of_protects h hcan (hprotects hcan) hemu fun x => ?_
    have hsucceeds : succeeds (.mmap2 addr size prot flags) s.emu = true := by
      rw [succeeds]
      generalize (MemSyscall.mmap2 addr size prot flags).code.run s.emu = r at houtcome
      cases houtcome with
      | unaligned hdvd => exact absurd hcan.aligned hdvd
      | ignored => exact decide_eq_true (syscallArg_ne_neg_one addr)
      | changed => exact decide_eq_true (syscallArg_ne_neg_one addr)
      | refused _ _ hnot => exact absurd hcan.can hnot
    rw [request_mmap2_of_isFixed hfixed (by rw [emuAfter, hemu]; rfl), hsucceeds]
    simp only [true_and]
  · have hsame := houtcome.finalState_eq fun hdvd hmanaged hgranted =>
      hcan ⟨hdvd, hmanaged, hgranted⟩
    refine withinRequests_of_same h hsame fun x p hx hreq => ?_
    rw [request_mmap2_of_isFixed hfixed (by rw [emuAfter, hsame]), succeeds] at hreq
    generalize (MemSyscall.mmap2 addr size prot flags).code.run s.emu = r at houtcome hreq
    cases houtcome with
    | ignored hdvd hmanaged =>
      -- Nothing is done, but the address is returned.
      split_ifs at hreq with hmeets
      cases hreq
      exact hwithin hdvd hmanaged x hx hmeets.2
    | changed hdvd hmanaged hgranted => exact absurd ⟨hdvd, hmanaged, hgranted⟩ hcan
    | unaligned => simp at hreq
    | refused => simp at hreq

theorem WithinRequests.munmap (h : WithinRequests s) :
    WithinRequests (s.step (.syscall (.munmap addr size))) := by
  intro x hx
  have hx' : (emuAfter s.emu (.syscall (.munmap addr size))).uc.mapped x = true := hx
  show SubRights ((emuAfter s.emu (.syscall (.munmap addr size))).uc.perms x) (s.requested x)
  have houtcome := unmapOutcome_munmap s.emu addr size
  rw [emuAfter] at hx' ⊢
  generalize (MemSyscall.munmap addr size).code.run s.emu = r at houtcome hx'
  cases houtcome with
  | ignored => exact h x hx'
  | removed =>
    have hbefore : (s.emu.uc.mapped x && !(unmapRange addr size).region.contains x) = true :=
      (Unicorn.mapped_removeBlock _ _ _).symm.trans hx'
    exact h x (Bool.and_eq_true_iff.1 hbefore).1
  | refused => exact h x hx'

theorem WithinRequests.step {a : RightsStep} (h : WithinRequests s) (hregular : Regular s a) :
    WithinRequests (s.step a) := by
  rcases a with file | ⟨addr, size, prot, flags⟩ | ⟨addr, len, prot⟩ | ⟨addr, size⟩
  · exact h.load hregular
  · rcases hfixed : isFixed flags with _ | _
    · exact h.mmap2_of_not_isFixed hfixed
    · exact h.mmap2_of_isFixed hfixed hregular
  · exact h.mprotect hregular
  · exact h.munmap

/-- In every state of a run of regular steps, no mapped page has more rights than were last
requested for it. -/
theorem rights_within_requests (emu : Emulator) (steps : List RightsStep)
    (hregular : ∀ c ∈ trace step (start emu) steps, Regular c.1 c.2) :
    (∀ c ∈ trace step (start emu) steps, WithinRequests c.1) ∧
      WithinRequests (steps.foldl step (start emu)) := by
  have hstart : WithinRequests (start emu) := fun x _ => SubRights.refl _
  exact ⟨forall_trace (fun s a h => h.step) hstart hregular,
    foldl_invariant (fun s a h => h.step) hstart hregular⟩

/-- A file with one page. -/
def pageFile (flags : Int32) : ElfFile :=
  { symbolFile [] with segments := [⟨ElfSegment.ptLoad, 0, 0, 0, 0x10, flags⟩] }

theorem alreadyWithin_page (s : RightsState)
    (hfree : s.emu.uc.memoryOverlap ⟨0xA0000000, 0x2000⟩ = false) :
    AlreadyWithin (s.step (.syscall (.mmap2 0 0x1000 3 0x22))) 0xA0000000 0x1000 3 := by
  intro x hx hmeets
  have hin : (Region.mk 0xA0000000 0x2000).contains x = true := by
    have haddr : (0xA0000000 : UInt64).toNat = 0xA0000000 := rfl
    have hsize : (0x2000 : UInt64).toNat = 0x2000 := rfl
    have haddr' : (0xA0000000 : UInt32).toNat = 0xA0000000 := rfl
    have hsize' : (0x1000 : UInt32).toNat = 0x1000 := rfl
    rw [Region.contains_iff (by decide) (by decide), haddr, hsize]
    rw [MeetsPage, pageEnd, haddr', hsize'] at hmeets
    omega
  have hnew := keeps_mmap2_of_not_isFixed 0 0x1000 3 (show isFixed 0x22 = false by decide) s.emu x
  have hperms := hnew.2 (Unicorn.not_mapped_of_memoryOverlap hfree hin) hx
  have hperms' : (s.step (.syscall (.mmap2 0 0x1000 3 0x22))).emu.uc.perms x = 3 := hperms
  rw [hperms']
  exact SubRights.refl 3

/-- A new emulator. -/
def fresh : RightsState := start (freshEmulator fun _ => none)

theorem rights_within_requests_small :
    let steps : List RightsStep := [.syscall (.mmap2 0 0x1000 3 0x22),
      .syscall (.mprotect 0xA0000000 0x1000 3), .load (.ok (pageFile 7))]
    WithinRequests (steps.foldl step fresh) := by
  refine (rights_within_requests _ _ ?_).2
  simp only [forall_trace_cons]
  refine ⟨?_, ⟨?_, fun _ => ?_⟩, ?_, by simp [trace]⟩
  · intro hfixed
    exact absurd hfixed (by decide)
  · intro hprotects
    exact absurd hprotects.managed (by decide)
  · exact alreadyWithin_page _ (by decide +kernel)
  · intro elf helf
    cases helf
    decide

/-- The state after loading a page to be read and executed. -/
def codePage : RightsState := fresh.step (.load (.ok (pageFile 5)))

/-- The state after mapping a page to be read and written, and taking the right to write away. -/
def readOnlyPage : RightsState :=
  [RightsStep.syscall (.mmap2 0 0x1000 3 0x22), .syscall (.mprotect 0xA0000000 0x1000 1)].foldl
    step fresh

/-- The page of a segment without `PF_W` is writable after the load. A page stays writable when
`mprotect` takes the right away. -/
theorem too_many_rights :
    (codePage.emu.uc.mapped 0xA0000000 = true ∧ codePage.requested 0xA0000000 = 5 ∧
      codePage.emu.uc.perms 0xA0000000 = 7 ∧ ¬WithinRequests codePage) ∧
    (readOnlyPage.emu.uc.mapped 0xA0000000 = true ∧ readOnlyPage.requested 0xA0000000 = 1 ∧
      readOnlyPage.emu.uc.perms 0xA0000000 = 3 ∧ ¬WithinRequests readOnlyPage) := by
  refine ⟨⟨by decide +kernel, by decide +kernel, by decide +kernel, fun h => ?_⟩,
    ⟨by decide +kernel, by decide +kernel, by decide +kernel, fun h => ?_⟩⟩
  · exact absurd (h 0xA0000000 (by decide +kernel)) (by decide +kernel)
  · exact absurd (h 0xA0000000 (by decide +kernel)) (by decide +kernel)

end RightsState

end Tank
