import Tank.Vfs.Descriptors

/-!
# Reading files

A descriptor is read through a stream of its own, so that it should deliver the contents of its file
piece by piece, whatever is read through others in between. `ReadState` counts what each descriptor
has delivered by that account.

* `StreamAt`: a stream has come as far as the count says.
* `deliversNext_iff`: what a call needs to return the next bytes and store nothing else. It fails at
  the end of the file, where `read` returns `-1`, and if it stores zeros after the last bytes.
* `reads_deliver_iff`: the same for runs; what a descriptor delivers is then the beginning of the
  file.
* `read_stores_returned_iff`: for any descriptor, when exactly as many bytes are stored as the call
  returns.
-/

namespace Tank

open ToMathlib VirtualFileSystem

/-! ## The arguments of `read` -/

def readFd (uc : Unicorn) : ℤ := (uc.regRead .r0).toInt

def readBuffer (uc : Unicorn) : UInt64 := (uc.regRead .r1).toUInt64

def readCount (uc : Unicorn) : ℕ := (uc.regs .r2).toNat

theorem toInt_count (uc : Unicorn) :
    (uc.regRead .r2).toInt32.toInt = (readCount uc : ℤ).bmod (2 ^ 32) := by
  rw [Int64.toInt_toInt32, Unicorn.toInt_regRead]
  rfl

/-- Sizes from `2 ^ 31` on are negative as an `int`. -/
theorem count_neg_iff (uc : Unicorn) : (uc.regRead .r2).toInt32 < 0 ↔ 2 ^ 31 ≤ readCount uc := by
  have hlt : readCount uc < 2 ^ 32 := UInt32.toNat_lt _
  have hzero : (0 : Int32).toInt = 0 := rfl
  rw [Int32.lt_iff_toInt_lt, toInt_count, hzero, Int.bmod_def]
  split <;> omega

theorem toNat_count {uc : Unicorn} (h : readCount uc < 2 ^ 31) :
    (uc.regRead .r2).toInt32.toInt.toNat = readCount uc := by
  rw [toInt_count, Int.bmod_eq_of_le (by omega) (by omega), Int.toNat_natCast]

/-! ## What is required of a read -/

/-- The file system with the number of bytes that each descriptor has delivered. -/
structure ReadState where
  vfs : VfsState
  delivered : ℤ → ℕ

namespace ReadState

variable (env : VfsEnv) (content : List UInt8) (t : ReadState) (uc : Unicorn)

/-- The bytes that a call has to deliver. -/
def due : List UInt8 := (content.drop (t.delivered (readFd uc))).take (readCount uc)

/-- A call of `read`. -/
def call : EStateM.Result JavaException VfsState CallRet :=
  (FileSyscall.read.call env).run (t.vfs.meets uc)

/-- The state after a call of `read`. -/
def step : ReadState where
  vfs := t.vfs.step env (.read, uc)
  delivered := Function.update t.delivered (readFd uc)
    (t.delivered (readFd uc) + (t.due content uc).length)

/-- The call returns the number of bytes asked for, or of those that are left, and stores these
bytes and nothing else. -/
structure DeliversNext : Prop where
  returns : outcome (t.call env uc) = .ok ⟨true, Int64.ofNat
    (min (readCount uc) (content.length - t.delivered (readFd uc)))⟩
  stores : (finalState (t.call env uc)).uc = uc.store (readBuffer uc) (t.due content uc)

/-- The bytes at the buffer after a call, as many as it has returned. -/
def deliveredBy : List UInt8 :=
  match t.call env uc with
  | .ok ret s => readBytes s.uc.mem (readBuffer uc) ret.value.toInt.toNat
  | .error _ _ => []

/-- What a call needs for that. -/
structure CanRead : Prop where
  count : readCount uc < 2 ^ 31
  mapped : uc.checkMemArea (readBuffer uc) (readCount uc) = true
  /-- The file is not at its end. -/
  left : t.delivered (readFd uc) < content.length
  /-- Where bytes are missing the buffer holds zeros already. -/
  rest : readBytes uc.mem (readBuffer uc + UInt64.ofNat (t.due content uc).length)
      (readCount uc - (t.due content uc).length) =
    List.replicate (readCount uc - (t.due content uc).length) 0

end ReadState

/-! ## One read -/

/-- The descriptor `d` is read from a file with these contents, from `pos` on. -/
def StreamAt (env : VfsEnv) (s : VfsState) (content : List UInt8) (d : ℤ) (pos : ℕ) : Prop :=
  ∃ file fis, s.files.get d = some file ∧ file.name ≠ "/dev/urandom" ∧
    streamOf env s.host file = some fis ∧ s.host.contents fis.inode = content ∧ fis.pos = pos

namespace ReadState

variable {env : VfsEnv} {content : List UInt8} {t : ReadState} {uc : Unicorn}

theorem length_due : (t.due content uc).length =
    min (readCount uc) (content.length - t.delivered (readFd uc)) := by
  rw [due, List.length_take, List.length_drop]

/-- What a call on a stream can end in. -/
inductive CallOutcome (env : VfsEnv) (content : List UInt8) (t : ReadState) (uc : Unicorn) :
    EStateM.Result JavaException VfsState CallRet → Prop where
  | negative (err : JavaException) (s : VfsState) (hcount : 2 ^ 31 ≤ readCount uc) :
    CallOutcome env content t uc (.error err s)
  | unmapped (err : JavaException) (s : VfsState)
      (hmapped : uc.checkMemArea (readBuffer uc) (readCount uc) = false) :
    CallOutcome env content t uc (.error err s)
  | atEnd (s : VfsState) (hleft : content.length ≤ t.delivered (readFd uc)) :
    CallOutcome env content t uc (.ok ⟨true, -1⟩ s)
  | delivered {files : FileTable} {file : VirtualFile} {fis : FileInputStream}
      (hcount : readCount uc < 2 ^ 31)
      (hmapped : uc.checkMemArea (readBuffer uc) (readCount uc) = true)
      (hleft : t.delivered (readFd uc) < content.length)
      (hfile : t.vfs.files.get (readFd uc) = some file)
      (hfis : streamOf env t.vfs.host file = some fis)
      (hfiles : t.vfs.files.Streamed (readFd uc) file
        { fis with pos := fis.pos + (t.due content uc).length } files) :
    CallOutcome env content t uc (.ok ⟨true, Int64.ofNat (t.due content uc).length⟩
      { t.vfs with
        files
        uc := uc.store (readBuffer uc) (t.due content uc ++
          List.replicate (readCount uc - (t.due content uc).length) 0) })

/-- What is left of the stream is what is left of the file. -/
theorem readStream_eq {host : Host} {fis : FileInputStream} (hpos : 0 < readCount uc)
    (hcontent : host.contents fis.inode = content) (hfis : fis.pos = t.delivered (readFd uc)) :
    host.readStream fis (readCount uc) =
      if t.delivered (readFd uc) < content.length then some (t.due content uc) else none := by
  have hnil : host.remaining fis = [] ↔ ¬t.delivered (readFd uc) < content.length := by
    rw [Host.remaining, hcontent, hfis, List.drop_eq_nil_iff, not_lt]
  rw [Host.readStream, if_neg hpos.ne']
  split_ifs with hempty hleft hleft
  · exact absurd hleft (hnil.1 hempty)
  · rfl
  · rw [Host.remaining, hcontent, hfis]
    rfl
  · exact absurd (hnil.2 hleft) hempty

theorem call_eq : t.call env uc =
    (read env [uc.regRead .r0, uc.regRead .r1, uc.regRead .r2]).run (t.vfs.meets uc) :=
  FileSyscall.run_call FileSyscall.read

theorem call_outcome (hfd : 2 < readFd uc) (hpos : 0 < readCount uc)
    (hstream : StreamAt env t.vfs content (readFd uc) (t.delivered (readFd uc))) :
    CallOutcome env content t uc (t.call env uc) := by
  obtain ⟨file, fis, hfile, hname, hfis, hcontent, hat⟩ := hstream
  have hread := read_outcome env (t.vfs.meets uc)
    [uc.regRead .r0, uc.regRead .r1, uc.regRead .r2]
  have hbytes := readStream_eq hpos hcontent hat
  rw [← call_eq] at hread
  generalize t.call env uc = r at hread ⊢
  -- The first cases are those of descriptors that have no stream.
  cases hread with
  | unsupported _ hle =>
    have hle' : readFd uc ≤ 2 := Int64.le_iff_toInt_le.1 hle
    omega
  | unknown hnone => exact absurd (hnone.symm.trans hfile) (by simp)
  | negative _ hneg => exact .negative _ _ ((count_neg_iff uc).1 hneg)
  | random hfile' hrandom =>
    obtain rfl := Option.some.inj (hfile.symm.trans hfile')
    exact absurd hrandom hname
  | file hfile' _ hneg _ h =>
    obtain rfl := Option.some.inj (hfile.symm.trans hfile')
    have hcount : readCount uc < 2 ^ 31 := not_le.1 fun hle => hneg ((count_neg_iff uc).2 hle)
    have hsize : ([uc.regRead .r0, uc.regRead .r1, uc.regRead .r2].getD 2 0).toInt32.toInt.toNat =
        readCount uc := toNat_count hcount
    rw [hsize] at h
    -- The bytes come from the stream, before it is known whether they can be stored.
    cases h with
    | noFile hnone => exact absurd (hnone.symm.trans hfis) (by simp)
    | atEnd hfis' hread' _ =>
      obtain rfl := Option.some.inj (hfis.symm.trans hfis')
      have hnone := hbytes.symm.trans hread'
      split_ifs at hnone with hleft
      exact .atEnd _ (not_lt.1 hleft)
    | unmapped _ _ _ hmapped => exact .unmapped _ _ hmapped
    | delivered hfis' hread' hfiles hmapped =>
      obtain rfl := Option.some.inj (hfis.symm.trans hfis')
      have hsome := hbytes.symm.trans hread'
      split_ifs at hsome with hleft
      obtain rfl := Option.some.inj hsome
      exact .delivered hcount hmapped hleft hfile hfis hfiles

/-- A call that returns some of the bytes asked for does not return `-1`. -/
theorem ofNat_ne_neg_one {n : ℕ} (h : n < 2 ^ 63) : Int64.ofNat n ≠ -1 := by
  intro heq
  have hint := congrArg Int64.toInt heq
  rw [Int64.toInt_ofNat_of_lt h] at hint
  have hneg : (-1 : Int64).toInt = -1 := rfl
  omega

theorem deliversNext_iff (hfd : 2 < readFd uc) (hpos : 0 < readCount uc)
    (hstream : StreamAt env t.vfs content (readFd uc) (t.delivered (readFd uc))) :
    DeliversNext env content t uc ↔ CanRead content t uc := by
  have hcall := call_outcome hfd hpos hstream
  have hle : (t.due content uc).length ≤ readCount uc := by
    rw [length_due]
    exact min_le_left _ _
  have hlt : readCount uc < 2 ^ 32 := UInt32.toNat_lt _
  have hsize : (t.due content uc ++
      List.replicate (readCount uc - (t.due content uc).length) 0).length ≤ 2 ^ 64 := by
    rw [List.length_append, List.length_replicate]
    omega
  -- The rest of the buffer is filled with zeros, which shows unless there were zeros before.
  have hzeros := uc.store_append_eq_iff (readBuffer uc) hsize
  rw [List.length_replicate] at hzeros
  constructor
  · rintro ⟨hreturns, hstores⟩
    rw [← length_due] at hreturns
    generalize t.call env uc = r at hcall hreturns hstores
    cases hcall with
    | negative => cases hreturns
    | unmapped => cases hreturns
    | atEnd =>
      -- At the end of the file `-1` is returned where `0` is due.
      simp only [outcome, Except.ok.injEq, CallRet.mk.injEq, true_and] at hreturns
      exact absurd hreturns.symm (ofNat_ne_neg_one (by omega))
    | delivered hcount hmapped hleft _ _ _ => exact ⟨hcount, hmapped, hleft, hzeros.1 hstores⟩
  · rintro ⟨hcount, hmapped, hleft, hrest⟩
    suffices outcome (t.call env uc) = .ok ⟨true, Int64.ofNat (t.due content uc).length⟩ ∧
        (finalState (t.call env uc)).uc = uc.store (readBuffer uc) (t.due content uc) from
      ⟨by rw [← length_due]; exact this.1, this.2⟩
    generalize t.call env uc = r at hcall ⊢
    cases hcall with
    | negative _ _ hneg => exact absurd hcount (not_lt.2 hneg)
    | unmapped _ _ hunmapped => exact absurd (hmapped.symm.trans hunmapped) (by decide)
    | atEnd _ hend => exact absurd hleft (not_lt.2 hend)
    | delivered => exact ⟨rfl, hzeros.2 hrest⟩

/-- A call that can read moves its own stream and no other one. -/
theorem streamAt_step (hfd : 2 < readFd uc) (hpos : 0 < readCount uc)
    (hstream : StreamAt env t.vfs content (readFd uc) (t.delivered (readFd uc)))
    (hcan : CanRead content t uc) {d : ℤ} (h : StreamAt env t.vfs content d (t.delivered d)) :
    StreamAt env (t.step env content uc).vfs content d ((t.step env content uc).delivered d) := by
  have hcall := call_outcome hfd hpos hstream
  have hvfs : (t.step env content uc).vfs = finalState (t.call env uc) := rfl
  have hdelivered : (t.step env content uc).delivered = Function.update t.delivered (readFd uc)
      (t.delivered (readFd uc) + (t.due content uc).length) := rfl
  rw [hvfs, hdelivered]
  generalize t.call env uc = r at hcall ⊢
  cases hcall with
  | negative _ _ hneg => exact absurd hcan.count (not_lt.2 hneg)
  | unmapped _ _ hunmapped => exact absurd (hcan.mapped.symm.trans hunmapped) (by decide)
  | atEnd _ hend => exact absurd hcan.left (not_lt.2 hend)
  | delivered _ _ _ hfile hfis hfiles =>
    by_cases hd : d = readFd uc
    · subst hd
      obtain ⟨file', fis', hfile', hname, hfis', hcontent, hat⟩ := h
      obtain rfl := Option.some.inj (hfile.symm.trans hfile')
      obtain rfl := Option.some.inj (hfis.symm.trans hfis')
      refine ⟨_, _, (hfiles _).trans (if_pos rfl), hname, rfl, hcontent, ?_⟩
      rw [Function.update_self, ← hat]
    · obtain ⟨file', fis', hfile', hrest⟩ := h
      rw [Function.update_of_ne hd]
      exact ⟨file', fis', (hfiles d).trans ((if_neg hd).trans hfile'), hrest⟩

/-- The bytes that are due are those that are found at the buffer. -/
theorem DeliversNext.deliveredBy_eq (h : DeliversNext env content t uc) :
    t.deliveredBy env uc = t.due content uc := by
  obtain ⟨hreturns, hstores⟩ := h
  rw [← length_due] at hreturns
  have hle : (t.due content uc).length < 2 ^ 32 := by
    rw [length_due]
    exact lt_of_le_of_lt (min_le_left _ _) (UInt32.toNat_lt _)
  rw [deliveredBy]
  generalize t.call env uc = r at hreturns hstores
  cases r with
  | error => cases hreturns
  | ok ret s =>
    obtain rfl := Except.ok.inj hreturns
    have hmem : s.uc.mem = overwrite uc.mem (readBuffer uc) (t.due content uc) :=
      congrArg Unicorn.mem hstores
    dsimp only
    rw [hmem, Int64.toInt_ofNat_of_lt (by omega), Int.toNat_natCast,
      readBytes_overwrite (by omega)]

/-! ## Runs -/

/-- Nothing has been read. -/
def start (s : VfsState) : ReadState := ⟨s, fun _ => 0⟩

/-- What a run has delivered through a descriptor. -/
def deliveredThrough (env : VfsEnv) (content : List UInt8) (t : ReadState) (ucs : List Unicorn)
    (d : ℤ) : List UInt8 :=
  ((trace (step env content) t ucs).filter fun c => readFd c.2 = d).flatMap fun c =>
    c.1.deliveredBy env c.2

theorem deliveredThrough_cons (t : ReadState) (uc : Unicorn) (ucs : List Unicorn) (d : ℤ) :
    t.deliveredThrough env content (uc :: ucs) d =
      (if readFd uc = d then t.deliveredBy env uc else []) ++
        (t.step env content uc).deliveredThrough env content ucs d := by
  rw [deliveredThrough, trace, List.filter_cons]
  split_ifs with hd hd' hd'
  · rfl
  · exact absurd (of_decide_eq_true hd) hd'
  · exact absurd (decide_eq_true hd') hd
  · rfl

/-- If all calls deliver the next bytes, they deliver the file from where the descriptor was. -/
theorem take_append_deliveredThrough {ucs : List Unicorn} {d : ℤ}
    (h : ∀ c ∈ trace (step env content) t ucs, DeliversNext env content c.1 c.2) :
    content.take (t.delivered d) ++ t.deliveredThrough env content ucs d <+: content := by
  -- Each call moves the boundary between what was delivered before and what the rest delivers.
  induction ucs generalizing t with
  | nil =>
    rw [deliveredThrough, trace, List.filter_nil, List.flatMap_nil, List.append_nil]
    exact List.take_prefix _ _
  | cons uc ucs ih =>
    obtain ⟨hhead, htail⟩ := forall_trace_cons.1 h
    have hrest := ih htail
    have hdelivered : (t.step env content uc).delivered = Function.update t.delivered (readFd uc)
        (t.delivered (readFd uc) + (t.due content uc).length) := rfl
    rw [hdelivered] at hrest
    rw [deliveredThrough_cons, ← List.append_assoc]
    split_ifs with hd
    · subst hd
      rw [Function.update_self] at hrest
      have htake : content.take (t.delivered (readFd uc)) ++ t.deliveredBy env uc =
          content.take (t.delivered (readFd uc) + (t.due content uc).length) := by
        rw [hhead.deliveredBy_eq, List.take_add]
        exact congrArg _ (List.prefix_iff_eq_take.1 (List.take_prefix _ _))
      rw [htake]
      exact hrest
    · rw [Function.update_of_ne (Ne.symm hd)] at hrest
      rw [List.append_nil]
      exact hrest

end ReadState

/-- The descriptor was opened on a file with these contents and has not been read. A descriptor of
`/dev/urandom` is not read from a file. -/
def OpenedOn (env : VfsEnv) (s : VfsState) (content : List UInt8) (d : ℤ) : Prop :=
  2 < d ∧ ∃ file inode, s.files.get d = some file ∧ file.name ≠ "/dev/urandom" ∧ file.fis = none ∧
    s.host.inodeOf (virtualPath env file.name) = some inode ∧ s.host.contents inode = content

variable {env : VfsEnv} {s s' : VfsState} {content : List UInt8} {d : ℤ}

theorem OpenedOn.streamAt (h : OpenedOn env s content d) : StreamAt env s content d 0 := by
  obtain ⟨-, file, inode, hfile, hname, hfis, hinode, hcontent⟩ := h
  refine ⟨file, ⟨inode, 0⟩, hfile, hname, ?_, hcontent, rfl⟩
  rw [streamOf, hfis, hinode]
  rfl

/-- Every call of a run delivers the next bytes, and what a descriptor delivers is the beginning of
the file. -/
structure DeliversFile (env : VfsEnv) (s : VfsState) (content : List UInt8) (ucs : List Unicorn) :
    Prop where
  next : ∀ c ∈ trace (ReadState.step env content) (.start s) ucs,
    ReadState.DeliversNext env content c.1 c.2
  beginning : ∀ d, (ReadState.start s).deliveredThrough env content ucs d <+: content

/-- Reads through descriptors that were opened on a file, in any order, deliver it exactly if no
call comes to the end of the file, asks for `2 ^ 31` bytes, has a buffer that is not mapped, or
stores zeros after the last bytes. -/
theorem reads_deliver_iff (ucs : List Unicorn)
    (hopened : ∀ uc ∈ ucs, OpenedOn env s content (readFd uc))
    (hpos : ∀ uc ∈ ucs, 0 < readCount uc) :
    DeliversFile env s content ucs ↔
      ∀ c ∈ trace (ReadState.step env content) (.start s) ucs,
        ReadState.CanRead content c.1 c.2 := by
  have hcalls : ∀ c ∈ trace (ReadState.step env content) (.start s) ucs,
      OpenedOn env s content (readFd c.2) ∧ 0 < readCount c.2 :=
    fun c hc => ⟨hopened _ (mem_of_mem_trace hc), hpos _ (mem_of_mem_trace hc)⟩
  -- Along the run every stream is where the count says.
  have hiff : (∀ c ∈ trace (ReadState.step env content) (.start s) ucs,
      ReadState.DeliversNext env content c.1 c.2) ↔
        ∀ c ∈ trace (ReadState.step env content) (.start s) ucs,
          ReadState.CanRead content c.1 c.2 :=
    forall_trace_iff (I := fun t : ReadState =>
        ∀ d, OpenedOn env s content d → StreamAt env t.vfs content d (t.delivered d))
      (H := fun _ uc => OpenedOn env s content (readFd uc) ∧ 0 < readCount uc)
      (fun t uc hI hH => ReadState.deliversNext_iff hH.1.1 hH.2 (hI _ hH.1))
      (fun t uc hI hH hQ d hd => ReadState.streamAt_step hH.1.1 hH.2 (hI _ hH.1) hQ (hI d hd))
      (fun d hd => hd.streamAt) hcalls
  constructor
  · intro h
    exact hiff.1 h.next
  · intro h
    refine ⟨hiff.2 h, fun d => ?_⟩
    simpa [ReadState.start] using
      ReadState.take_append_deliveredThrough (t := .start s) (d := d) (hiff.2 h)

/-- The app with two descriptors of its file. -/
def appTwice : VfsState := appOpened.step appEnv (.openat, appUc 0 0x1000 0 0)

theorem openedOn_appTwice :
    OpenedOn appEnv appTwice [1, 2, 3] 3 ∧ OpenedOn appEnv appTwice [1, 2, 3] 4 :=
  ⟨⟨by decide, ⟨"/a", 3, none⟩, 0, by decide, by decide, rfl, by decide, by decide⟩,
    ⟨by decide, ⟨"/a", 4, none⟩, 0, by decide, by decide, rfl, by decide, by decide⟩⟩

/-- Two descriptors of a file deliver it independently of each other. -/
theorem reads_deliver_interleaved :
    let ucs := [appUc 3 0x1800 2 0, appUc 4 0x1800 3 0, appUc 3 0x1900 1 0]
    (∀ uc ∈ ucs, OpenedOn appEnv appTwice [1, 2, 3] (readFd uc)) ∧
      DeliversFile appEnv appTwice [1, 2, 3] ucs := by
  obtain ⟨h3, h4⟩ := openedOn_appTwice
  have hopened : ∀ uc ∈ [appUc 3 0x1800 2 0, appUc 4 0x1800 3 0, appUc 3 0x1900 1 0],
      OpenedOn appEnv appTwice [1, 2, 3] (readFd uc) := by
    simp only [List.forall_mem_cons]
    exact ⟨h3, h4, h3, fun _ h => absurd h List.not_mem_nil⟩
  refine ⟨hopened, (reads_deliver_iff _ hopened ?_).2 ?_⟩
  · simp only [List.forall_mem_cons]
    exact ⟨by decide, by decide, by decide, fun _ h => absurd h List.not_mem_nil⟩
  · simp only [trace, List.forall_mem_cons]
    exact ⟨⟨by decide, by decide, by decide, by decide⟩,
      ⟨by decide, by decide, by decide, by decide⟩,
      ⟨by decide, by decide, by decide, by decide⟩, fun _ h => absurd h List.not_mem_nil⟩

/-- Two runs that do not deliver the file: a read at its end returns `-1`, and one that asks for
more than there is clears the byte after the last one. -/
theorem reads_fail_at_end :
    let content := [1, 2, 3]
    let all := appUc 3 0x1800 3 0
    let more := { appUc 3 0x1800 4 0 with mem := fun _ => 7 }
    OpenedOn appEnv appTwice content 3 ∧
      (outcome (((ReadState.start appTwice).step appEnv content all).call appEnv all) =
          .ok ⟨true, -1⟩ ∧
        ¬DeliversFile appEnv appTwice content [all, all]) ∧
      (finalState ((ReadState.start appTwice).call appEnv more)).uc.mem 0x1803 = 0 ∧
        ¬DeliversFile appEnv appTwice content [more] := by
  refine ⟨openedOn_appTwice.1, ⟨by decide, fun h => ?_⟩, by decide, fun h => ?_⟩
  · have hlast := h.next _ (List.mem_cons_of_mem _ List.mem_cons_self)
    exact absurd hlast.returns (by decide)
  · have honly := h.next _ List.mem_cons_self
    exact absurd (congrArg (fun uc : Unicorn => uc.mem 0x1803) honly.stores) (by decide)

/-! ## What a read changes -/

/-- The bytes that a read of so many takes from the file of a descriptor. Nothing is taken at the
end of the file, nor for `/dev/urandom`. -/
def taken (env : VfsEnv) (s : VfsState) (d : ℤ) (size : ℕ) : Option (List UInt8) := do
  let file ← s.files.get d
  if file.name = "/dev/urandom" then none
  else
    let fis ← streamOf env s.host file
    s.host.readStream fis size

/-- Exactly the bytes of a buffer that a call says it has read were stored; for a negative result
none. -/
def StoresReturned (buffer : UInt64) (ret : CallRet) (uc uc' : Unicorn) : Prop :=
  ∃ bytes, bytes.length = ret.value.toInt.toNat ∧ uc' = uc.store buffer bytes

/-- The part of the buffer that a read has nothing for holds zeros already. -/
def RestIsZero (env : VfsEnv) (s : VfsState) (d : ℤ) (buffer : UInt64) (size : ℕ) : Prop :=
  ∀ bytes, taken env s d size = some bytes → s.uc.checkMemArea buffer size = true →
    readBytes s.uc.mem (buffer + UInt64.ofNat bytes.length) (size - bytes.length) =
      List.replicate (size - bytes.length) 0

theorem taken_of_file {d : ℤ} {size : ℕ} {file : VirtualFile} {fis : FileInputStream}
    (hfile : s.files.get d = some file) (hname : file.name ≠ "/dev/urandom")
    (hfis : streamOf env s.host file = some fis) :
    taken env s d size = s.host.readStream fis size := by
  simp [taken, hfile, hname, hfis]

/-- An array was stored where only its first bytes are reported. -/
theorem storesReturned_append_iff (uc : Unicorn) (buffer : UInt64) (bytes rest : List UInt8)
    (hlen : bytes.length + rest.length < 2 ^ 63) :
    StoresReturned buffer ⟨true, Int64.ofNat bytes.length⟩ uc (uc.store buffer (bytes ++ rest)) ↔
      readBytes uc.mem (buffer + UInt64.ofNat bytes.length) rest.length = rest := by
  have hvalue : (Int64.ofNat bytes.length).toInt.toNat = bytes.length := by
    rw [Int64.toInt_ofNat_of_lt (by omega), Int.toNat_natCast]
  constructor
  · rintro ⟨bytes', hlen', hstore⟩
    have hbytes' : bytes'.length = bytes.length := hlen'.trans hvalue
    have hmem : overwrite uc.mem buffer (bytes ++ rest) = overwrite uc.mem buffer bytes' :=
      congrArg Unicorn.mem hstore
    -- The rest is found after the buffer, where a store of the reported bytes changes nothing.
    have hread : readBytes (overwrite uc.mem buffer (bytes ++ (rest ++ [])))
        (buffer + UInt64.ofNat bytes.length) rest.length = rest :=
      readBytes_overwrite_append (by simp only [List.length_append, List.length_nil]; omega)
    rw [List.append_nil, hmem, ← hbytes', readBytes_overwrite_after (by omega), hbytes'] at hread
    exact hread
  · intro hread
    refine ⟨bytes, hvalue.symm, (uc.store_append_eq_iff buffer ?_).2 hread⟩
    rw [List.length_append]
    omega

/-- A result without bytes, with the memory as it was. -/
theorem storesReturned_of_nonpos {ret : CallRet} (h : ret.value.toInt ≤ 0) (buffer : UInt64)
    (uc : Unicorn) : StoresReturned buffer ret uc uc :=
  ⟨[], (Int.toNat_of_nonpos h).symm, rfl⟩

/-- What a file gives: only this can be shorter than the buffer. -/
theorem readFile_stores_iff {d : ℤ} {file : VirtualFile} {buffer : Int64} {size : ℕ}
    {r : EStateM.Result JavaException VfsState CallRet} (hsize : size < 2 ^ 31)
    (hfile : s.files.get d = some file) (hname : file.name ≠ "/dev/urandom")
    (h : ReadFileOutcome env s d file buffer size r) :
    (∀ ret s', r = .ok ret s' → StoresReturned buffer.toUInt64 ret s.uc s'.uc) ↔
      RestIsZero env s d buffer.toUInt64 size := by
  cases h with
  | noFile hnone =>
    refine iff_of_true (forall_ok_of_error rfl) ?_
    intro bytes htaken
    simp [taken, hfile, hname, hnone] at htaken
  | atEnd hfis hend _ =>
    refine iff_of_true ?_ ?_
    · rintro ret s' ⟨⟩
      exact storesReturned_of_nonpos (by decide) _ _
    · intro bytes htaken
      rw [taken_of_file hfile hname hfis, hend] at htaken
      cases htaken
  | unmapped _ _ _ hunmapped =>
    refine iff_of_true (forall_ok_of_error rfl) ?_
    intro bytes _ hmapped
    exact absurd (hmapped.symm.trans hunmapped) (by decide)
  | @delivered fis bytes files hfis hbytes _ hmapped =>
    have hle := Host.length_le_of_readStream hbytes
    have hiff := storesReturned_append_iff s.uc buffer.toUInt64 bytes
      (List.replicate (size - bytes.length) 0) (by rw [List.length_replicate]; omega)
    rw [List.length_replicate] at hiff
    constructor
    · intro hall bytes' htaken _
      rw [taken_of_file hfile hname hfis, hbytes] at htaken
      obtain rfl := Option.some.inj htaken
      exact hiff.1 (hall _ _ rfl)
    · rintro hrest ret s' ⟨⟩
      exact hiff.2 (hrest bytes ((taken_of_file hfile hname hfis).trans hbytes) hmapped)

/-- A read through an open descriptor stores exactly the bytes that it returns if and only if the
rest of the buffer, for which the file has no bytes, holds zeros: these are stored, too. -/
theorem read_stores_returned_iff (env : VfsEnv) (s : VfsState) (fd buffer count : Int64)
    (hfd : 3 ≤ fd.toInt) (hopen : (s.files.get fd.toInt).isSome = true) :
    (∀ ret s', (read env [fd, buffer, count]).run s = .ok ret s' →
        StoresReturned buffer.toUInt64 ret s.uc s'.uc) ↔
      RestIsZero env s fd.toInt buffer.toUInt64 count.toInt32.toInt.toNat := by
  have hread : ReadOutcome env s fd buffer count ((read env [fd, buffer, count]).run s) :=
    read_outcome env s [fd, buffer, count]
  have hzero : (0 : Int32).toInt = 0 := rfl
  have hlt := count.toInt32.toInt_lt
  generalize (read env [fd, buffer, count]).run s = r at hread
  cases hread with
  | unsupported err hle =>
    have htwo : (2 : Int64).toInt = 2 := rfl
    have hle' := Int64.le_iff_toInt_le.1 hle
    omega
  | unknown hnone =>
    rw [hnone] at hopen
    cases hopen
  | negative hfile hneg =>
    have hneg' := Int32.lt_iff_toInt_lt.1 hneg
    have hsize : count.toInt32.toInt.toNat = 0 := by omega
    refine iff_of_true (forall_ok_of_error rfl) ?_
    intro bytes _ _
    rw [hsize, Nat.zero_sub]
    rfl
  | random hfile hname =>
    refine iff_of_true ?_ ?_
    · rintro ret s' ⟨⟩
      exact storesReturned_of_nonpos le_rfl _ _
    · intro bytes htaken
      simp [taken, hfile, hname] at htaken
  | file hfile _ _ hname h => exact readFile_stores_iff (by omega) hfile hname h

/-- A read of all bytes of a file. -/
theorem read_stores_returned_whole :
    (appTwice.files.get 3).isSome = true ∧
      ∀ ret s', (read appEnv [3, 0x1800, 3]).run (appTwice.meets (appUc 3 0x1800 3 0)) =
          .ok ret s' →
        StoresReturned 0x1800 ret (appUc 3 0x1800 3 0) s'.uc := by
  refine ⟨by decide, (read_stores_returned_iff appEnv (appTwice.meets (appUc 3 0x1800 3 0)) 3 0x1800
    3 (by decide) (by decide)).2 ?_⟩
  have htaken : taken appEnv (appTwice.meets (appUc 3 0x1800 3 0)) 3 3 = some [1, 2, 3] := by decide
  intro bytes hbytes _
  obtain rfl := Option.some.inj (htaken.symm.trans hbytes)
  rfl

/-- A read of four bytes from a file of three returns three, and clears the byte after them. -/
theorem short_read_clears_rest :
    let uc := { appUc 3 0x1800 4 0 with mem := fun _ => 7 }
    let r := (read appEnv [3, 0x1800, 4]).run (appTwice.meets uc)
    (appTwice.files.get 3).isSome = true ∧ outcome r = .ok ⟨true, 3⟩ ∧
      uc.guestByte 0x1803 = some 7 ∧ (finalState r).uc.guestByte 0x1803 = some 0 ∧
      ¬∀ ret s', r = .ok ret s' → StoresReturned 0x1800 ret uc s'.uc := by
  intro uc r
  have hreturns : outcome r = .ok ⟨true, 3⟩ := by decide
  have hlast : (finalState r).uc.guestByte 0x1803 = some 0 := by decide
  refine ⟨by decide, hreturns, by decide, hlast, ?_⟩
  clear_value r
  intro hall
  cases r with
  | error => cases hreturns
  | ok ret s' =>
    obtain rfl := Except.ok.inj hreturns
    obtain ⟨bytes, hlen, hstore⟩ := hall _ s' rfl
    have hthree : bytes.length = 3 := hlen
    -- The fourth byte of the buffer is not among the three that were read.
    have hout : ¬Within 0x1800 bytes.length 0x1803 := by
      rw [hthree]
      decide
    have hsame : s'.uc.guestByte 0x1803 = uc.guestByte 0x1803 := by
      rw [hstore, Unicorn.guestByte_store_of_not_within hout]
    exact absurd (hlast.symm.trans hsame) (by decide)

end Tank
