import Tank.Cenv.KernelFrames
import Tank.Module.Symbols
import Tank.ToMathlib.AssocList
import Tank.ToMathlib.Projection

/-!
# Runs with all system calls

The guest runs and causes interrupts in any order. What holds of one group of system calls taken by
itself holds of it in every such run:

* `registers_interrupt`: a system call returns in `R0`, and all other registers are kept for the
  guest;
* `files_run`: the file system goes through exactly the system calls on files, each of them with the
  engine that it meets;
* `descriptorLaws_run`: so descriptors keep their laws, whatever happens in between;
* `sockets_run`: the sockets are what the calls of `socket` and the successful calls of `bind` have
  made of them, and the guest gets their numbers one after the other.
-/

namespace Tank

open ToMathlib

namespace Kernel

variable {env : VfsEnv} {k : Kernel} {e : Event} {argSize : ℕ} {call : Syscall}

/-! ## An app that makes system calls -/

/-- The registers of a guest that makes the system call `no`, with the path `/a` of `appUc` as its
second argument. -/
def callRegs (no : UInt32) : ArmReg → UInt32
  | .r1 => 0x1000
  | .r7 => no
  | _ => 0

/-- The app of `appHost` before its first system call. -/
def appKernel : Kernel :=
  start ((freshEmulator fun _ => none).withUc (appUc 0 0x1000 0 0)) appHost 0

/-- The guest is about to make the system call `no`. -/
def appCalls (no : UInt32) : Event := .guest (appUc 0 0x1000 0 0).mem (callRegs no) fun _ => 0

/-- Time zero, and registers that can all be accessed. -/
def timeZero : Outside := ⟨0, 0, fun _ => 0, fun _ => 0, true, true⟩

/-- The interrupt of a system call, at time zero. -/
def appInterrupt : Event := .interrupt 2 timeZero

/-! ## Registers -/

/-- The registers after a system call, if it is not `exit_group`. -/
def returnedRegs (regs : ArmReg → UInt32) : Except JavaException CallRet → ArmReg → UInt32
  | .ok ret => if ret.hasReturn then Function.update regs .r0 ret.value.toUInt64.toUInt32 else regs
  | .error _ => regs

/-- The guest finds the result of a system call in `R0`, and all other registers as it left them.
After an exception, and after `munmap`, also `R0` is what it was. -/
theorem registers_interrupt (env : VfsEnv) (k : Kernel) (outside : Outside) {argSize : ℕ}
    {call : Syscall} (hsel : syscalls k.number = some (argSize, call)) (hexit : call ≠ .exitgroup) :
    (k.step env (.interrupt 2 outside)).emu.uc.regs = returnedRegs k.emu.uc.regs
        (outcome ((call.code env outside (k.syscallArgs argSize)).run k)) ∧
      (k.step env (.interrupt 2 outside)).emu.uc.upper = k.emu.uc.upper := by
  obtain ⟨hregs, hupper⟩ := Prod.mk.inj
    ((Syscall.framed_code env outside (k.syscallArgs argSize) call k).registers hexit)
  rw [step_interrupt env outside hsel, ← hregs, ← hupper]
  cases hrun : (call.code env outside (k.syscallArgs argSize)).run k with
  | ok ret k' =>
    rw [afterCall, outcome, returnedRegs]
    split <;> exact ⟨rfl, rfl⟩
  | error err k' => cases err <;> exact ⟨rfl, rfl⟩

/-- `socket` returns the number of the first socket, and keeps the path in `R1`. -/
theorem registers_interrupt_socket :
    ((appKernel.step appEnv (appCalls 0x119)).step appEnv appInterrupt).emu.uc.regs =
      Function.update (callRegs 0x119) .r0 0x100001 := by
  have hsel : syscalls (appKernel.step appEnv (appCalls 0x119)).number = some (3, .socket) := rfl
  exact (registers_interrupt appEnv _ _ hsel (by decide)).1

/-! ## Files -/

/-- The system call on files that an event is, with the engine that it meets. -/
def fileCall (c : Kernel × Event) : Option EngineCall :=
  match c.1.selected c.2 with
  | some (_, .file call) => some (call, c.1.emu.uc)
  | _ => none

/-- The number of arguments with which a system call on files or on memory is registered. -/
def sizeMatches : ℕ × Syscall → Bool
  | (argSize, .file call) => argSize == call.argSize
  | (argSize, .munmap) => argSize == 2
  | (argSize, .mprotect) => argSize == 3
  | (argSize, .mmap2) => argSize == 6
  | _ => true

theorem all_sizeMatches : (registrations.all fun r => sizeMatches r.2) = true := rfl

theorem sizeMatches_of_selected (h : k.selected e = some (argSize, call)) :
    sizeMatches (argSize, call) = true := by
  obtain ⟨-, hsyscall⟩ := selected_eq_some_iff.1 h
  have hmem : (k.number, argSize, call) ∈ registrations :=
    List.mem_reverse.1 (mem_of_lookup hsyscall)
  exact List.all_eq_true.1 all_sizeMatches _ hmem

/-- The arguments of a system call on files are in the first four registers. -/
theorem syscallArgs_eq (k : Kernel) (call : FileSyscall) :
    k.syscallArgs call.argSize = FileSyscall.readSyscallArgs k.emu.uc call.argSize := by
  cases call <;> rfl

/-- The file system, without the engine. -/
def filesAndHost (k : Kernel) : FileTable × Host := (k.files, k.host)

/-- The file system goes on by itself. -/
theorem projects_files (env : VfsEnv) :
    Projects (step env) fileCall filesAndHost (VfsState.step env) fun s => (s.files, s.host) where
  observed k e c s hcall hks := by
    rw [fileCall] at hcall
    split at hcall
    next argSize call hsel =>
      cases hcall
      obtain ⟨outside, k', regs, stopped, hk', -, -, hstep⟩ := exists_framed env hsel
      have hvfs : k.vfs = s.meets k.emu.uc := by
        obtain ⟨hfiles, hhost⟩ := Prod.mk.inj hks
        rw [vfs, hfiles, hhost]
        rfl
      rw [eq_of_beq (sizeMatches_of_selected hsel), syscallArgs_eq] at hk'
      have hrun : k' = k.withVfs (s.step env (call, k.emu.uc)) := by
        rw [hk', VfsState.step, ← hvfs, FileSyscall.run_call]
        exact finalState_zoom _ k
      rw [hstep, hrun]
      rfl
    next => cases hcall
  hidden k e hcall := by
    refine view_step env filesAndHost (fun _ _ _ _ _ => rfl)
      fun argSize call outside hsel k' _ hframed => ?_
    have hother (c : FileSyscall) : call ≠ .file c := by
      rintro rfl
      rw [fileCall, hsel] at hcall
      cases hcall
    obtain ⟨hfiles, hhost⟩ := hframed.files hother
    exact congrArg₂ Prod.mk hfiles hhost

/-- In every run the table of open files and the host are at each system call on files what the
system calls on files before it have made of them. -/
theorem files_run (env : VfsEnv) (k : Kernel) (events : List Event) :
    (trace (step env) k events).filterMap
        (fun c => (fileCall c).map fun call => (c.1.filesAndHost, call)) =
      (trace (VfsState.step env) k.vfs (observed (step env) fileCall k events)).map
        (fun c => ((c.1.files, c.1.host), c.2)) ∧
    (k.run env events).filesAndHost =
      (((observed (step env) fileCall k events).foldl (VfsState.step env) k.vfs).files,
        ((observed (step env) fileCall k events).foldl (VfsState.step env) k.vfs).host) :=
  ⟨project_trace (projects_files env) rfl events, project_foldl (projects_files env) rfl events⟩

/-- Descriptors keep their laws in every run. -/
theorem descriptorLaws_run (env : VfsEnv) (emu : Emulator) (host : Host) (clockStart : Int64)
    (events : List Event) :
    ∀ c ∈ trace (step env) (start emu host clockStart) events,
      ∀ call ∈ fileCall c, DescriptorLaws env c.1.vfs call := by
  intro c hc call hcall
  have hown : ∀ c ∈ trace (step env) (start emu host clockStart) events, c.1.files.OwnFds := by
    refine forall_trace (I := fun k : Kernel => k.files.OwnFds) (H := fun _ _ => True)
      (fun k e h _ => ?_) FileTable.ownFds_create fun _ _ => trivial
    cases hobs : fileCall (k, e) with
    | none =>
      have hfiles : (k.step env e).files = k.files :=
        congrArg Prod.fst ((projects_files env).hidden k e hobs)
      rw [hfiles]
      exact h
    | some b =>
      have hfiles : (k.step env e).files = (k.vfs.step env b).files :=
        congrArg Prod.fst ((projects_files env).observed k e b k.vfs hobs rfl)
      rw [hfiles]
      exact ownFds_step (s := k.vfs) h b
  exact descriptorLaws_of_ownFds (hown c hc) call

/-- A file is opened after a socket, and gets the first descriptor. -/
theorem descriptorLaws_run_openat :
    ∃ c ∈ trace (step appEnv) appKernel
        [appCalls 0x119, appInterrupt, appCalls 0x142, appInterrupt],
      ∃ call ∈ fileCall c, call.1 = .openat ∧ DescriptorLaws appEnv c.1.vfs call ∧
        (c.1.step appEnv c.2).emu.uc.regRead .r0 = 3 := by
  let k := appKernel.run appEnv [appCalls 0x119, appInterrupt, appCalls 0x142]
  have hmem : (k, appInterrupt) ∈ trace (step appEnv) appKernel
      [appCalls 0x119, appInterrupt, appCalls 0x142, appInterrupt] :=
    List.mem_of_getElem? (i := 3) rfl
  have hcall : (.openat, k.emu.uc) ∈ fileCall (k, appInterrupt) := rfl
  exact ⟨_, hmem, _, hcall, rfl, descriptorLaws_run _ _ _ _ _ _ hmem _ hcall, by decide⟩

/-! ## Sockets -/

end Kernel

/-- What can happen to the sockets. -/
inductive SocketOp where
  | make (info : SocketInfo)
  /-- An address is given to a socket. -/
  | name (id : Int64) (addr : String)

/-- The sockets by their numbers, and the last number that was given out. -/
structure SocketTable where
  last : Int64
  sockets : Int64 → Option SocketInfo

namespace SocketTable

def step (t : SocketTable) : SocketOp → SocketTable
  | .make info => ⟨t.last + 1, Function.update t.sockets (t.last + 1) (some info)⟩
  | .name id addr => ⟨t.last, Function.update t.sockets id
      ((t.sockets id).map fun info => { info with addr := some addr })⟩

/-- The number of sockets that are made. -/
def madeBy : List SocketOp → ℕ
  | [] => 0
  | .make _ :: ops => madeBy ops + 1
  | .name _ _ :: ops => madeBy ops

/-- The number after the next one, counted from the next one. -/
theorem number_succ (last : Int64) (i : ℕ) :
    last + 1 + 1 + Int64.ofNat i = last + 1 + Int64.ofNat (i + 1) := by
  rw [Int64.ofNat_add, Int64.add_assoc (last + 1), Int64.add_comm 1]
  rfl

theorem number_zero (last : Int64) : last + 1 + Int64.ofNat 0 = last + 1 := by
  have hzero : Int64.ofNat 0 = 0 := rfl
  rw [hzero, Int64.add_zero]

/-- Only `make` makes sockets. -/
theorem isSome_step_name (t : SocketTable) (id : Int64) (addr : String) (id' : Int64) :
    ((t.step (.name id addr)).sockets id').isSome = (t.sockets id').isSome := by
  rw [step]
  dsimp only
  rcases eq_or_ne id' id with rfl | hid
  · rw [Function.update_self, Option.isSome_map]
  · rw [Function.update_of_ne hid]

/-- The numbers of the sockets follow one another. -/
theorem isSome_foldl_iff (t : SocketTable) (ops : List SocketOp) (id : Int64) :
    ((ops.foldl step t).sockets id).isSome = true ↔
      (t.sockets id).isSome = true ∨ ∃ i < madeBy ops, id = t.last + 1 + Int64.ofNat i := by
  induction ops generalizing t with
  | nil => simp [madeBy]
  | cons op ops ih =>
    rw [List.foldl_cons, ih]
    cases op with
    | name id' addr =>
      rw [isSome_step_name]
      rfl
    | make info =>
      have hmade : madeBy (.make info :: ops) = madeBy ops + 1 := rfl
      have hnext : (t.step (.make info)).last = t.last + 1 := rfl
      have hset : ((t.step (.make info)).sockets id).isSome = true ↔
          id = t.last + 1 ∨ (t.sockets id).isSome = true := by
        rw [step]
        dsimp only
        rcases eq_or_ne id (t.last + 1) with rfl | hid
        · simp
        · rw [Function.update_of_ne hid]
          simp [hid]
      rw [hset, hmade, hnext]
      constructor
      · rintro ((rfl | hid) | ⟨i, hi, rfl⟩)
        · exact .inr ⟨0, Nat.succ_pos _, (number_zero _).symm⟩
        · exact .inl hid
        · exact .inr ⟨i + 1, Nat.succ_lt_succ hi, number_succ _ i⟩
      · rintro (hid | ⟨i, hi, rfl⟩)
        · exact .inl (.inr hid)
        · cases i with
          | zero => exact .inl (.inl (number_zero _))
          | succ i => exact .inr ⟨i, Nat.lt_of_succ_lt_succ hi, (number_succ _ i).symm⟩

end SocketTable

namespace Kernel

variable {env : VfsEnv} {k : Kernel} {e : Event} {argSize : ℕ} {call : Syscall}

/-- The sockets of the emulator. -/
def socketTable (k : Kernel) : SocketTable := ⟨k.socketIdx, k.sockets⟩

/-- The address that `bind` sets: the socket is there, of the domain or type that is expected, and
the bytes of the address can be read. -/
def boundAddr (env : VfsEnv) (k : Kernel) (args : List Int64) : Option String :=
  match k.sockets (args.getD 0 0) with
  | none => none
  | some info =>
    if info.domain ≠ afUnix ∧ info.domain ≠ sockStream then none
    else
      match (MemoryHelper.readByteArray (args.getD 1 0 + 3) (args.getD 2 0 - 3)).run k.emu.uc with
      | .ok bytes _ => some (env.decodeUTF8 bytes)
      | .error _ _ => none

/-- What an event does to the sockets: a call of `socket` makes one, and a call of `bind` that
succeeds names one. -/
def socketOp (env : VfsEnv) (c : Kernel × Event) : Option SocketOp :=
  match c.1.selected c.2 with
  | some (argSize, .socket) =>
    let args := c.1.syscallArgs argSize
    some (.make ⟨args.getD 0 0, args.getD 1 0, args.getD 2 0, none⟩)
  | some (argSize, .bind) =>
    let args := c.1.syscallArgs argSize
    (boundAddr env c.1 args).map (.name (args.getD 0 0))
  | _ => none

/-- The number in `R0` after a call of `socket`. -/
def givenNumber (env : VfsEnv) (c : Kernel × Event) : Option UInt32 :=
  match c.1.selected c.2 with
  | some (_, .socket) => some ((c.1.step env c.2).emu.uc.regs .r0)
  | _ => none

/-- `bind` names the socket, or changes none. -/
theorem socketTable_bind (env : VfsEnv) (args : List Int64) (k : Kernel) :
    (finalState ((bind env args).run k)).socketTable =
      match boundAddr env k args with
      | some addr => k.socketTable.step (.name (args.getD 0 0) addr)
      | none => k.socketTable := by
  rw [bind, ToMathlib.get_bind, boundAddr]
  cases hinfo : k.sockets (args.getD 0 0) with
  | none => rfl
  | some info =>
    dsimp only
    split
    · rfl
    · cases hread : (MemoryHelper.readByteArray (args.getD 1 0 + 3)
        (args.getD 2 0 - 3)).run k.emu.uc with
      | error err uc =>
        have hrun : (onUc (MemoryHelper.readByteArray (args.getD 1 0 + 3)
            (args.getD 2 0 - 3))).run k = .error err (k.withUc uc) := zoom_of_error hread
        rw [bind_of_error hrun]
        rfl
      | ok bytes uc =>
        have hrun : (onUc (MemoryHelper.readByteArray (args.getD 1 0 + 3)
            (args.getD 2 0 - 3))).run k = .ok bytes (k.withUc uc) := zoom_of_ok hread
        rw [bind_of_ok hrun]
        -- The address is put into what the table has for the socket.
        have hname : (k.sockets (args.getD 0 0)).map
            (fun info => { info with addr := some (env.decodeUTF8 bytes) }) =
            some { info with addr := some (env.decodeUTF8 bytes) } := by
          rw [hinfo]
          rfl
        show SocketTable.mk _ _ = SocketTable.mk _ _
        exact congrArg (fun entry => SocketTable.mk k.socketIdx
          (Function.update k.sockets (args.getD 0 0) entry)) hname.symm

/-- The sockets go on by themselves. -/
theorem projects_sockets (env : VfsEnv) :
    Projects (step env) (socketOp env) socketTable SocketTable.step id where
  observed k e op t hop hkt := by
    subst hkt
    cases hsel : k.selected e with
    | none =>
      rw [socketOp, hsel] at hop
      cases hop
    | some selected =>
      obtain ⟨argSize, call⟩ := selected
      obtain ⟨outside, k', regs, stopped, hk', -, -, hstep⟩ := exists_framed env hsel
      have htable : (k.step env e).socketTable = k'.socketTable := by
        rw [hstep]
        rfl
      rw [htable, hk']
      cases call with
      | socket =>
        rw [socketOp, hsel] at hop
        cases hop
        rfl
      | bind =>
        rw [socketOp, hsel] at hop
        obtain ⟨addr, haddr, rfl⟩ := Option.map_eq_some_iff.1 hop
        refine (socketTable_bind env (k.syscallArgs argSize) k).trans ?_
        rw [haddr]
        rfl
      | _ =>
        rw [socketOp, hsel] at hop
        cases hop
  hidden k e hop := by
    refine view_step env socketTable (fun _ _ _ _ _ => rfl)
      fun argSize call outside hsel k' hk' hframed => ?_
    by_cases hbind : call = .bind
    · subst hbind
      rw [socketOp, hsel] at hop
      rw [hk']
      refine (socketTable_bind env (k.syscallArgs argSize) k).trans ?_
      rw [Option.map_eq_none_iff.1 hop]
    · have hsocket : call ≠ .socket := by
        rintro rfl
        rw [socketOp, hsel] at hop
        cases hop
      rw [socketTable, socketTable, hframed.sockets hsocket hbind, hframed.socketIdx hsocket]

/-- A call of `socket` returns the next number. -/
theorem givenNumber_eq (h : k.selected e = some (argSize, .socket)) :
    givenNumber env (k, e) = some (k.socketIdx + 1).toUInt64.toUInt32 := by
  obtain ⟨outside, hstep⟩ := step_of_selected env h
  rw [givenNumber, h]
  dsimp only
  have hrun : (Syscall.code env outside (k.syscallArgs argSize) .socket).run k =
      .ok ⟨true, k.socketIdx + 1⟩ { k with
        socketIdx := k.socketIdx + 1
        sockets := Function.update k.sockets (k.socketIdx + 1)
          (some ⟨(k.syscallArgs argSize).getD 0 0, (k.syscallArgs argSize).getD 1 0,
            (k.syscallArgs argSize).getD 2 0, none⟩) } := rfl
  rw [hstep, hrun, afterCall, if_pos rfl]
  exact congrArg some (Function.update_self ArmReg.r0 _ k.emu.uc.regs)

/-- The numbers that the guest gets, from any state. -/
theorem givenNumbers_eq (env : VfsEnv) (k : Kernel) (events : List Event) :
    observed (step env) (givenNumber env) k events =
      (List.range (SocketTable.madeBy (observed (step env) (socketOp env) k events))).map fun i =>
        (k.socketIdx + 1 + Int64.ofNat i).toUInt64.toUInt32 := by
  induction events generalizing k with
  | nil => rfl
  | cons e events ih =>
    by_cases hsocket : ∃ argSize, k.selected e = some (argSize, .socket)
    · obtain ⟨argSize, hsel⟩ := hsocket
      have hop : ∃ info, socketOp env (k, e) = some (.make info) := by
        rw [socketOp, hsel]
        exact ⟨_, rfl⟩
      obtain ⟨info, hop⟩ := hop
      have hnext : (k.step env e).socketIdx = k.socketIdx + 1 :=
        congrArg SocketTable.last ((projects_sockets env).observed k e _ _ hop rfl)
      have hmade : SocketTable.madeBy
          (.make info :: observed (step env) (socketOp env) (k.step env e) events) =
          SocketTable.madeBy (observed (step env) (socketOp env) (k.step env e) events) + 1 := rfl
      rw [observed_cons_some (givenNumber_eq hsel), observed_cons_some hop, hmade, ih, hnext,
        List.range_succ_eq_map, List.map_cons, List.map_map]
      refine congrArg₂ List.cons ?_ (List.map_congr_left fun i _ => ?_)
      · rw [SocketTable.number_zero]
      · rw [SocketTable.number_succ]
        rfl
    · -- No socket is made, and the last number is the same.
      have hgiven : givenNumber env (k, e) = none := by
        rw [givenNumber]
        split
        next hsel => exact absurd ⟨_, hsel⟩ hsocket
        next => rfl
      rw [observed_cons_none hgiven, ih]
      cases hop : socketOp env (k, e) with
      | none =>
        have hsame : (k.step env e).socketIdx = k.socketIdx :=
          congrArg SocketTable.last ((projects_sockets env).hidden k e hop)
        rw [observed_cons_none hop, hsame]
      | some op =>
        obtain ⟨id, addr, rfl⟩ : ∃ id addr, op = .name id addr := by
          rw [socketOp] at hop
          split at hop
          next hsel => exact absurd ⟨_, hsel⟩ hsocket
          next =>
            obtain ⟨addr, -, rfl⟩ := Option.map_eq_some_iff.1 hop
            exact ⟨_, addr, rfl⟩
          next => cases hop
        have hsame : (k.step env e).socketIdx = k.socketIdx :=
          congrArg SocketTable.last ((projects_sockets env).observed k e _ _ hop rfl)
        rw [observed_cons_some hop, hsame]
        rfl

/-- In every run the guest gets the numbers of the sockets in `R0`, one after the other. The sockets
at the end are what the calls of `socket` and the successful calls of `bind` have made of them, with
their contents; an event that is none of these changes no socket; and the numbers that exist are the
ones that were given out. -/
theorem sockets_run (env : VfsEnv) (emu : Emulator) (host : Host) (clockStart : Int64)
    (events : List Event) :
    let k := start emu host clockStart
    let ops := observed (step env) (socketOp env) k events
    observed (step env) (givenNumber env) k events =
        (List.range (SocketTable.madeBy ops)).map (fun i => UInt32.ofNat (0x100001 + i)) ∧
      (k.run env events).socketTable = ops.foldl SocketTable.step ⟨0x100000, fun _ => none⟩ ∧
      (∀ c ∈ trace (step env) k events, socketOp env c = none →
        (c.1.step env c.2).socketTable = c.1.socketTable) ∧
      ∀ id, ((k.run env events).sockets id).isSome = true ↔
        ∃ i < SocketTable.madeBy ops, id = 0x100001 + Int64.ofNat i := by
  intro k ops
  have htable : (k.run env events).socketTable =
      ops.foldl SocketTable.step ⟨0x100000, fun _ => none⟩ :=
    project_foldl (projects_sockets env) rfl events
  refine ⟨(givenNumbers_eq env k events).trans ?_, htable, fun c _ => ?_, fun id => ?_⟩
  · refine List.map_congr_left fun i _ => ?_
    show UInt64.toUInt32 (0x100000 + 1 + UInt64.ofNat i) = _
    simp [UInt32.ofNat_add]
  · exact (projects_sockets env).hidden c.1 c.2
  · have hsockets : (k.run env events).sockets =
        (ops.foldl SocketTable.step ⟨0x100000, fun _ => none⟩).sockets :=
      congrArg SocketTable.sockets htable
    rw [hsockets, SocketTable.isSome_foldl_iff]
    simp only [Option.isSome_none, Bool.false_eq_true, false_or]
    rfl

end Kernel

end Tank
