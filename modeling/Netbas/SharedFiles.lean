import Netbas.InodeCounts

/-!
Files that several descriptors share. The loop of `FS_EXEC` closes nothing (`exec_iff`); `sys_dup` and
`sys_dup2` follow the null pointer of a descriptor that is not open, and `sys_dup2` keeps the inode of
the one that it closes (`dups_iff`); `do_close` sets the offset back that the other descriptors use,
and `iput` frees the inode by its own count (`close_keeps_iff`).
-/
namespace Netbas.SharedFiles
open FileTable List
structure Mark where
 setup : Bool
 fd : Fin NR_FILES

/-- `FD_CLOEXEC << fd`; the processor takes the number of places modulo 32. -/
def cloexec_bit (fd : Nat) : BitVec 32 := 1#32 <<< (fd % 32)
def fd_close_exec_set (fp_cloexec : BitVec 32) (fd : Nat) : Bool := fp_cloexec &&& cloexec_bit fd ≠ 0
def fd_mark (fp_cloexec : BitVec 32) (m : Mark) : BitVec 32 :=
 if m.setup then fp_cloexec ||| cloexec_bit m.fd else fp_cloexec &&& ~~~ cloexec_bit m.fd

section
variable {Inode : Type}

section
variable (s : Tables Inode)
/-- `clone_fd` with `FS_EXEC`. The test comes after the loop, with the index after the last. -/
def exec (t dstfd : Nat) (fp_cloexec : BitVec 32) : Option (Tables Inode) :=
 if fd_close_exec_set fp_cloexec NR_FILES then clone_fd s t dstfd dstfd .FS_EXEC else some s
def lastSetup (marks : List Mark) (fd : Fin NR_FILES) : Bool := (marks.reverse.find? (fun m => m.fd = fd)).any Mark.setup

/-- The exec closes the open descriptors that were marked last, and no others. -/
def ExecRight (t dstfd : Nat) (fp_cloexec : BitVec 32) (marks : List Mark) : Prop :=
 ∃ s', exec s t dstfd (marks.foldl fd_mark fp_cloexec) = some s' ∧ ∀ fd : Fin NR_FILES,
  ((s'.proc dstfd).fp fd).isSome ↔ ((s.proc dstfd).fp fd).isSome ∧ lastSetup marks fd = false
lemma exec_eq (t : Nat) (dstfd : Fin MAX_PROC) (w : BitVec 32) : exec s t dstfd w = some s := by
 have refused : clone_fd s t dstfd dstfd .FS_EXEC = some s := by
  rw [clone_fd,if_neg (by omega)]
  simp [sys_close,do_close]
 rw [exec,refused]
 exact ite_self _
theorem exec_iff (t : Nat) (dstfd : Fin MAX_PROC) (fp_cloexec : BitVec 32) (marks : List Mark) :
 ExecRight s t dstfd fp_cloexec marks ↔
  ∀ fd : Fin NR_FILES, ((s.proc dstfd).fp fd).isSome -> lastSetup marks fd = false := by
 constructor
 · rintro ⟨s',done,right⟩ fd isOpen
   rw [exec_eq] at done
   cases done
   exact ((right fd).mp isOpen).2
 intro none
 exact ⟨s,exec_eq ..,fun fd => ⟨fun isOpen => ⟨isOpen,none fd isOpen⟩,And.left⟩⟩
end
theorem marked_stays_open : ¬ ExecRight (init_process.set_fp 2 3 (some 0) : Tables Nat) 2 2 0 [⟨true,3,by decide⟩] := by
 rintro ⟨s',done,right⟩
 rw [exec_eq _ 2 ⟨2,by decide⟩] at done
 cases done
 exact absurd (right ⟨3,by decide⟩) (by decide)

end

/-- A task that calls, in a state with counts that do not wrap around. -/
structure Situation where
 s : InodeCounts.State
 t : Nat
 current : t < MAX_PROC
 files : ∃ lost, Valid s.files lost
 opened : EachFile (fun f => (s.files.FilePool f).f_inode.isSome) s.files
 room : ∀ v, (s.vnode v).i_count + 1 < 65536
inductive Call where
 | sys_dup (fildes : Nat)
 | sys_dup2 (oldfd from_fd : Nat)

namespace Situation
variable (c : Situation)
def fp (fd : Nat) : Option Nat := (c.s.files.proc c.t).fp fd
def inode (fd : Nat) : Option Nat := InodeCounts.fd_inode c.s.files.FilePool (c.s.files.proc c.t) fd
def Open (fd : Nat) : Prop := fd < NR_FILES ∧ c.fp fd ≠ none

/-- The new descriptor refers to the file, and what it referred to has been given up. -/
structure Moved (oldfd from_fd : Nat) (s' : InodeCounts.State) : Prop where
 slot : (s'.files.proc c.t).fp from_fd = c.fp oldfd
 others : ∀ u i, (u,i) ≠ (c.t,from_fd) -> (s'.files.proc u).fp i = (c.s.files.proc u).fp i
 files : ∀ f, (s'.files.FilePool f).f_count + (c.fp from_fd).toList.count f =
  (c.s.files.FilePool f).f_count + (c.fp oldfd).toList.count f
 inodes : ∀ v, (s'.vnode v).i_count + (c.inode from_fd).toList.count v = (c.s.vnode v).i_count + (c.inode oldfd).toList.count v
def Right : Call -> Prop
 | .sys_dup fd => ¬ c.Open fd -> ∃ rc < 0, InodeCounts.sys_dup c.s c.t fd = some (rc,c.s)
 | .sys_dup2 fd nfd =>
  (¬ c.Open fd -> ∃ rc < 0, InodeCounts.sys_dup2 c.s c.t fd nfd = some (rc,c.s)) ∧
  (c.Open fd -> nfd = fd -> InodeCounts.sys_dup2 c.s c.t fd nfd = some ((fd : Int),c.s)) ∧
  (c.Open fd -> nfd ≠ fd -> ∃ s', InodeCounts.sys_dup2 c.s c.t fd nfd = some ((nfd : Int),s') ∧ c.Moved fd nfd s')
def Allowed : Call -> Prop
 | .sys_dup fd => c.Open fd ∨ NR_FILES ≤ fd
 | .sys_dup2 fd nfd => c.Open fd ∧ nfd ≠ fd ∧ nfd < NR_FILES ∧ c.fp nfd = none

end Situation

variable {c : Situation} {s : Tables Nat} {task : FileTable.Task Nat} {fd nfd : Nat}
@[simp] lemma proc_set_count {Inode : Type} (s : Tables Inode) (f n : Nat) : (s.set_count f n).proc = s.proc := rfl
@[simp] lemma pool_set_fp {Inode : Type} (s : Tables Inode) (t i : Nat) (x : Option Nat) : (s.set_fp t i x).FilePool = s.FilePool := rfl
lemma fp_set_fp {Inode : Type} (s : Tables Inode) (t j : Nat) (x : Option Nat) (u i : Nat) :
 ((s.set_fp t j x).proc u).fp i = if (u,i) = (t,j) then x else (s.proc u).fp i := by
 by_cases own : u = t
 · subst own
   by_cases slot : i = j
   · simp [Tables.set_fp,Tables.set_task,Task.set_fp,slot]
   · simp [Tables.set_fp,Tables.set_task,Task.set_fp,slot]
 · simp [Tables.set_fp,Tables.set_task,own]
lemma empty_fd_self (lt : fd < NR_FILES) (free : task.fp fd = none) : task.empty_fd fd = some fd := by
 rw [Task.empty_fd,find?_range_eq_some]
 simp [free,lt]
 omega
lemma dup_closed (lt : fd < NR_FILES) (closed : c.fp fd = none) : InodeCounts.sys_dup c.s c.t fd = none := by
 have hit : (c.s.files.proc c.t).empty_fd 0 ≠ none := by
  intro full
  have used := find?_eq_none.mp full fd (mem_range.mpr lt)
  simp [show (c.s.files.proc c.t).fp fd = none from closed] at used
 obtain ⟨i,hit⟩ := Option.ne_none_iff_exists'.mp hit
 have refused : FileTable.dupfd c.s.files c.t fd 0 = none := by
  rw [FileTable.dupfd,if_neg (by simp [NR_FILES] at *; omega),hit]
  simp [show (c.s.files.proc c.t).fp fd = none from closed]
 rw [InodeCounts.sys_dup,InodeCounts.dupfd,refused]
lemma dupfd_eq {s : InodeCounts.State} {t f : Nat} (lt : fd < NR_FILES) (in' : nfd < NR_FILES)
  (free : (s.files.proc t).fp nfd = none) (file : (s.files.proc t).fp fd = some f) :
  InodeCounts.dupfd s t fd nfd = some ((nfd : Int),{ s with
   files := (s.files.set_fp t nfd (some f)).incr f,
   vnode := Inodes.dup_inode s.vnode (s.files.FilePool f).f_inode }) := by
 have ran : FileTable.dupfd s.files t fd nfd = some ((nfd : Int),(s.files.set_fp t nfd (some f)).incr f) := by
  rw [FileTable.dupfd,if_neg (by omega),empty_fd_self in' free]
  simp [file]
 have node : InodeCounts.fd_inode ((s.files.set_fp t nfd (some f)).incr f).FilePool
   (((s.files.set_fp t nfd (some f)).incr f).proc t) nfd = (s.files.FilePool f).f_inode := by
  simp [InodeCounts.fd_inode,Tables.incr,fp_set_fp,InodeCounts.f_inode_set_count]
 rw [InodeCounts.dupfd,ran]
 simp only [if_neg (show ¬ (nfd : Int) < 0 by omega),Int.toNat_natCast,node]
lemma dup_inode_count (room : ∀ v, (c.s.vnode v).i_count + 1 < 65536) (x : Option Nat) (v : Nat) :
 (Inodes.dup_inode c.s.vnode x v).i_count = (c.s.vnode v).i_count + x.toList.count v := by
 cases x with
 | none => simp [Inodes.dup_inode]
 | some w =>
  by_cases eq : v = w
  · subst eq
    simp [Inodes.dup_inode,Inodes.set_count,Nat.mod_eq_of_lt (room v)]
  · simp [Inodes.dup_inode,Inodes.set_count,eq,Ne.symm eq]
lemma dup2_undefined (closed : ¬ c.Open fd ∨ nfd = fd) : InodeCounts.sys_dup2 c.s c.t fd nfd = none := by
 by_cases isOpen : c.Open fd
 · obtain rfl := closed.resolve_left (not_not.mpr isOpen)
   obtain ⟨mem,some⟩ := isOpen
   obtain ⟨f,file⟩ := Option.ne_none_iff_exists'.mp some
   have file : (c.s.files.proc c.t).fp nfd = Option.some f := file
   have done : do_close c.s.files c.t nfd =
     .ok (f,(c.s.files.set_count f (if 0 < (c.s.files.FilePool f).f_count then (c.s.files.FilePool f).f_count - 1
      else (c.s.files.FilePool f).f_count)).set_fp c.t nfd none) := by
    rw [do_close,if_neg (by omega)]
    simp [file]
   have refused : ∀ files : Tables Nat, (files.proc c.t).fp nfd = none -> FileTable.dupfd files c.t nfd nfd = none := by
    intro files free
    rw [FileTable.dupfd,if_neg (by omega),empty_fd_self mem free]
    simp [free]
   rw [InodeCounts.sys_dup2]
   split
   · rfl
   simp only [done]
   rw [InodeCounts.dupfd,refused]
   · rfl
   · simp [fp_set_fp]
 refine if_pos ?_
 rw [Situation.Open,not_and_or,not_not] at isOpen
 rcases isOpen with out | closed
 · exact .inl (Nat.le_of_not_lt out)
 · exact .inr (.inl closed)
lemma dup2_eq {f : Nat} (lt : fd < NR_FILES) (file : (c.s.files.proc c.t).fp fd = some f) (in' : nfd < NR_FILES)
  (ne : nfd ≠ fd) : ∃ files, InodeCounts.sys_dup2 c.s c.t fd nfd =
   some ((nfd : Int),{c.s with files := files, vnode := Inodes.dup_inode c.s.vnode (c.s.files.FilePool f).f_inode}) ∧
   ((c.s.files.proc c.t).fp nfd = none -> files = (c.s.files.set_fp c.t nfd (some f)).incr f) := by
 have small : NR_FILES ≤ 2^31 := by decide
 rw [InodeCounts.sys_dup2,if_neg (by rw [file]; simp; omega)]
 cases old : (c.s.files.proc c.t).fp nfd with
 | none =>
  have closed : do_close c.s.files c.t nfd = .error (-1) := by
   rw [do_close,if_neg (by omega)]
   simp [old]
  simp only [closed]
  rw [dupfd_eq lt in' old file]
  exact ⟨_,by simp,fun _ => rfl⟩
 | some g =>
  obtain ⟨files,isFiles⟩ : ∃ files, files = (c.s.files.set_count g (if 0 < (c.s.files.FilePool g).f_count then
   (c.s.files.FilePool g).f_count - 1 else (c.s.files.FilePool g).f_count)).set_fp c.t nfd none := ⟨_,rfl⟩
  have closed : do_close c.s.files c.t nfd = .ok (g,files) := by
   rw [do_close,if_neg (by omega),isFiles]
   simp [old]
  have free : (files.proc c.t).fp nfd = none := by simp [isFiles,fp_set_fp]
  have kept : (files.proc c.t).fp fd = some f := by
   simpa [isFiles,fp_set_fp,ne.symm] using file
  have node : (files.FilePool f).f_inode = (c.s.files.FilePool f).f_inode := by
   rw [isFiles]
   exact InodeCounts.f_inode_set_count ..
  have done := dupfd_eq (s := {c.s with files := files}) lt in' free kept
  simp only [closed,done,node]
  exact ⟨(files.set_fp c.t nfd (some f)).incr f,by simp,fun free => by simp at free⟩
lemma dup2_outside (out : NR_FILES ≤ nfd) (s' : InodeCounts.State) :
 InodeCounts.sys_dup2 c.s c.t fd nfd ≠ some ((nfd : Int),s') := by
 rw [InodeCounts.sys_dup2]
 split
 · simp
 have closed : do_close c.s.files c.t nfd = .error (-EINVAL) := if_pos (by omega)
 have refused : InodeCounts.dupfd c.s c.t fd nfd = some (-EINVAL,c.s) := by
  rw [InodeCounts.dupfd,FileTable.dupfd,if_pos (.inl out)]
  rfl
 simp only [closed,refused]
 simp [EINVAL]
lemma moved_of_closed {f : Nat} (lt : fd < NR_FILES) (file : (c.s.files.proc c.t).fp fd = some f)
  (free : (c.s.files.proc c.t).fp nfd = none) : c.Moved fd nfd { c.s with
   files := (c.s.files.set_fp c.t nfd (some f)).incr f,
   vnode := Inodes.dup_inode c.s.vnode (c.s.files.FilePool f).f_inode } := by
 obtain ⟨lost,valid⟩ := c.files
 have few := valid.f_count_lt (valid.inside c.t c.current fd lt f file)
 refine ⟨?_,?_,?_,?_⟩
 · simp [Situation.fp,Tables.incr,fp_set_fp,file]
 · intro u i ne
   simp only [Tables.incr,proc_set_count,fp_set_fp,if_neg ne]
 · intro g
   simp only [Situation.fp,free,file,Option.toList_none,Option.toList_some,count_nil,Nat.add_zero]
   by_cases eq : g = f
   · subst eq
     simp [Tables.incr,Tables.set_count,Nat.mod_eq_of_lt (show (c.s.files.FilePool g).f_count + 1 < 65536 by omega)]
   · simp [Tables.incr,Tables.set_count,eq,Ne.symm eq]
 intro v
 simp [dup_inode_count c.room,Situation.inode,InodeCounts.fd_inode,free,file]
theorem dups_iff (c : Situation) (call : Call) : c.Right call ↔ c.Allowed call := by
 cases call with
 | sys_dup fd =>
  constructor
  · intro right
    by_contra ne
    obtain ⟨closed,inside⟩ := not_or.mp ne
    have inside := Nat.lt_of_not_le inside
    obtain ⟨rc,_,returns⟩ := right closed
    have free : c.fp fd = none := by
     by_contra some
     exact closed ⟨inside,some⟩
    rw [dup_closed inside free] at returns
    cases returns
  rintro (isOpen | out) closed
  · exact absurd isOpen closed
  refine ⟨-EINVAL,by decide,?_⟩
  rw [InodeCounts.sys_dup,InodeCounts.dupfd,FileTable.dupfd,if_pos (.inr out)]
  rfl
 | sys_dup2 fd nfd =>
  constructor
  · rintro ⟨fst,snd,third⟩
    have isOpen : c.Open fd := by
     by_contra closed
     obtain ⟨rc,_,returns⟩ := fst closed
     rw [dup2_undefined (.inl closed)] at returns
     cases returns
    have ne : nfd ≠ fd := by
     intro eq
     have returns := snd isOpen eq
     rw [dup2_undefined (.inr eq)] at returns
     cases returns
    obtain ⟨s',returns,moved⟩ := third isOpen ne
    have inside' : nfd < NR_FILES := by
     by_contra out
     exact dup2_outside (Nat.le_of_not_lt out) s' returns
    refine ⟨isOpen,ne,inside',?_⟩
    obtain ⟨f,file⟩ := Option.ne_none_iff_exists'.mp isOpen.2
    obtain ⟨files,returns',_⟩ := dup2_eq isOpen.1 file inside' ne
    cases returns.symm.trans returns'
    -- the inode of the descriptor that was open stays counted
    by_contra used
    obtain ⟨g,old⟩ := Option.ne_none_iff_exists'.mp used
    obtain ⟨v,node⟩ := Option.isSome_iff_exists.mp (c.opened c.t c.current nfd inside' g old)
    have old : (c.s.files.proc c.t).fp nfd = some g := old
    have file : (c.s.files.proc c.t).fp fd = some f := file
    have counts := moved.inodes v
    simp [dup_inode_count c.room,Situation.inode,InodeCounts.fd_inode,old,file,node] at counts
  rintro ⟨isOpen,ne,inside',free⟩
  refine ⟨fun closed => absurd isOpen closed,fun _ eq => absurd eq ne,fun _ _ => ?_⟩
  obtain ⟨f,file⟩ := Option.ne_none_iff_exists'.mp isOpen.2
  obtain ⟨files,returns,eq⟩ := dup2_eq isOpen.1 file inside' ne
  obtain rfl := eq free
  exact ⟨_,returns,moved_of_closed isOpen.1 file free⟩

/-- A task without descriptors. -/
def started : Situation where
 s := ⟨init_process,fun _ => ⟨0,0,1,0,0⟩,[]⟩
 t := 2
 current := by decide
 files := ⟨[],Valid.init_process⟩
 opened := by simp [EachFile,init_process]
 room := by simp
theorem dup_of_closed : ¬ started.Right (.sys_dup 3) := by
 intro right
 obtain ⟨rc,_,eq⟩ := right (fun isOpen => isOpen.2 rfl)
 have none : InodeCounts.sys_dup started.s started.t 3 = none := by decide +kernel
 cases none.symm.trans eq

structure Offsets where
 state : InodeCounts.State
 f_pos : Nat -> Nat
 f_mode : Nat -> Nat
 /-- Whether the file has an object of a driver, a socket or a process. -/
 f_iob : Nat -> Bool

/-- `vfs_release` closes the object of a socket, a device or a process (`S_ISWHT`). What the file
  systems store when a file is released is not part of the state. -/
def vfs_release (node : Inodes.Vnode) : Bool :=
 let kind := node.i_mode &&& 0o170000
 (kind = 0o140000 && node.i_count ≤ 1) || ((kind = 0o060000 || kind = 0o020000 || kind = 0o160000) && node.i_count = 1)
section
variable (s : Offsets)
def sys_close (t : Nat) (fd : Int) : Option (Int × Offsets) :=
 match do_close s.state.files t fd with
 | .error rc => some (rc,s)
 | .ok (f,files) =>
  match (files.FilePool f).f_inode with
  | none => none
  | some v => some (0,{ s with
   state := {s.state with files := files, vnode := (Inodes.iput s.state.vnode v).2}
   f_pos := Function.update s.f_pos f 0
   f_iob := if vfs_release (s.state.vnode v) then Function.update s.f_iob f false else s.f_iob })
def identity (node : Inodes.Vnode) : Nat × Nat × Nat := (node.i_dev,node.i_number,node.i_mode)
def view (f_pos : Nat -> Nat) (f_iob : Nat -> Bool) (vnode : Nat -> Nat × Nat × Nat) (f : Nat) :
  Nat × Nat × Bool × Option (Nat × Nat × Nat × Nat) :=
 (f_pos f,s.f_mode f,f_iob f,(s.state.files.FilePool f).f_inode.map (fun v => (v,vnode v)))

/-- The offset, the mode, the object and the inode that a descriptor leads to. -/
def seen (u i : Nat) : Option (Nat × Nat × Bool × Option (Nat × Nat × Nat × Nat)) :=
 ((s.state.files.proc u).fp i).map (view s s.f_pos s.f_iob (fun v => identity (s.state.vnode v)))

/-- What is seen through the other descriptors of the tasks stays. -/
def CloseKeeps (t : Nat) (fd : Int) : Prop :=
 ∀ rc s', sys_close s t fd = some (rc,s') -> ∀ u < MAX_PROC, ∀ i < NR_FILES, (u,i) ≠ (t,fd.toNat) -> seen s' u i = seen s u i

/-- Another descriptor has a file with the property. -/
def Elsewhere (t : Nat) (fd : Int) (P : Nat -> Prop) : Prop :=
 ∃ u < MAX_PROC, ∃ i < NR_FILES, (u,i) ≠ (t,fd.toNat) ∧ ∃ g, (s.state.files.proc u).fp i = some g ∧ P g
lemma identity_iput (vnode : Inodes.Table) (v w : Nat) :
 identity ((Inodes.iput vnode v).2 w) = if w = v ∧ (vnode v).i_count ≤ 1 then (0,0,0) else identity (vnode w) := by
 rw [Inodes.iput]
 by_cases eq : w = v
 · subst eq
   by_cases more : 1 < (vnode w).i_count
   · simp [more,Nat.not_le.mpr more,Inodes.set_count,identity]
   · simp [more,Nat.le_of_not_lt more,identity]
 · split_ifs <;> simp_all [Inodes.set_count,identity]

lemma vfs_release_last {node : Inodes.Vnode} (releases : vfs_release node) : node.i_count ≤ 1 ∧ node.i_mode ≠ 0 := by
 constructor
 · simp only [vfs_release,Bool.or_eq_true,Bool.and_eq_true,decide_eq_true_eq] at releases
   omega
 intro mode
 simp [vfs_release,mode] at releases
variable {s} {t f v : Nat} {fd : Int}
lemma close_refused {rc : Int} (refused : sys_close s t fd = some (rc,s)) : CloseKeeps s t fd := by
 intro _ _ closed _ _ _ _ _
 cases refused.symm.trans closed
 rfl
lemma do_close_eq (low : 0 ≤ fd) (high : fd < NR_FILES) (held : (s.state.files.proc t).fp fd.toNat = some f) :
 ∃ n, do_close s.state.files t fd = .ok (f,(s.state.files.set_count f n).set_fp t fd.toNat none) :=
 ⟨_,by rw [do_close,if_neg (by omega),held]⟩
lemma close_seen (low : 0 ≤ fd) (high : fd < NR_FILES) (held : (s.state.files.proc t).fp fd.toNat = some f)
 (node : (s.state.files.FilePool f).f_inode = some v) : ∃ s', sys_close s t fd = some (0,s') ∧ ∀ u i, (u,i) ≠ (t,fd.toNat) ->
  seen s' u i = ((s.state.files.proc u).fp i).map (view s (Function.update s.f_pos f 0)
   (if vfs_release (s.state.vnode v) then Function.update s.f_iob f false else s.f_iob)
   (fun w => if w = v ∧ (s.state.vnode v).i_count ≤ 1 then (0,0,0) else identity (s.state.vnode w))) := by
 obtain ⟨n,shut⟩ := do_close_eq low high held
 simp only [sys_close,shut,pool_set_fp,InodeCounts.f_inode_set_count,node]
 refine ⟨_,rfl,fun u i ne => ?_⟩
 simp only [seen,fp_set_fp,if_neg ne,proc_set_count,identity_iput]
 congr 1
 funext g
 simp [view,InodeCounts.f_inode_set_count]

/-- A descriptor that shares the file sees the offset, and one that shares the inode sees it go
  when `i_count` is not above 1. -/
theorem close_keeps_iff (s : Offsets) (t : Nat) (fd : Int) : CloseKeeps s t fd ↔
 ∀ f v, 0 ≤ fd -> fd < NR_FILES -> (s.state.files.proc t).fp fd.toNat = some f -> (s.state.files.FilePool f).f_inode = some v ->
  (Elsewhere s t fd (· = f) -> s.f_pos f = 0) ∧
  (Elsewhere s t fd (fun g => (s.state.files.FilePool g).f_inode = some v) -> (s.state.vnode v).i_count ≤ 1 ->
   identity (s.state.vnode v) = (0,0,0)) := by
 by_cases out : NR_FILES ≤ fd ∨ fd < 0
 · exact ⟨fun _ _ _ _ _ => by omega,fun _ => close_refused (by rw [sys_close,do_close,if_pos out])⟩
 cases held : (s.state.files.proc t).fp fd.toNat with
 | none =>
  exact ⟨fun _ _ _ _ _ eq => (by cases eq),fun _ => close_refused (by rw [sys_close,do_close,if_neg out,held])⟩
 | some f =>
  cases node : (s.state.files.FilePool f).f_inode with
  | none =>
   obtain ⟨n,closing⟩ := do_close_eq (by omega) (by omega) held
   refine ⟨fun _ _ _ _ _ eq eq' => ?_,fun _ rc s' closed => ?_⟩
   · cases eq
     cases node.symm.trans eq'
   · simp [sys_close,closing,InodeCounts.f_inode_set_count,node] at closed
  | some v =>
   obtain ⟨s',closed,after⟩ := close_seen (by omega) (by omega) held node
   constructor
   · rintro keeps _ w _ _ ⟨⟩ is
     cases node.symm.trans is
     refine ⟨?_,?_⟩
     · rintro ⟨u,low,i,low',unlike,_,refers,rfl⟩
       have eq := keeps 0 s' closed u low i low' unlike
       rw [after u i unlike,seen,refers] at eq
       simpa [view] using (congrArg Prod.fst (Option.some.inj eq)).symm
     rintro ⟨u,low,i,low',unlike,g,refers,same⟩ last
     have eq := keeps 0 s' closed u low i low' unlike
     rw [after u i unlike,seen,refers] at eq
     have eq := congrArg (·.2.2.2) (Option.some.inj eq)
     simpa [view,same,last] using eq.symm
   intro cond rc s'' closed' u low i low' unlike
   cases closed.symm.trans closed'
   obtain ⟨offset,inode⟩ := cond f v (by omega) (by omega) rfl node
   rw [after u i unlike,seen]
   cases refers : (s.state.files.proc u).fp i with
   | none => rfl
   | some g =>
    have kept : ∀ w, (s.state.files.FilePool g).f_inode = some w ->
      (if w = v ∧ (s.state.vnode v).i_count ≤ 1 then (0,0,0) else identity (s.state.vnode w)) = identity (s.state.vnode w) := by
     intro w same
     split_ifs with last
     · obtain ⟨rfl,last⟩ := last
       exact (inode ⟨u,low,i,low',unlike,g,refers,same⟩ last).symm
     · rfl
    have object : (if vfs_release (s.state.vnode v) then Function.update s.f_iob f false else s.f_iob) g = s.f_iob g := by
     split_ifs with releases
     · refine Function.update_of_ne (fun eq => ?_) ..
       subst eq
       -- the object is only closed for the last reference, and then the inode has no kind any more
       obtain ⟨last,mode⟩ := vfs_release_last releases
       exact mode (congrArg (·.2.2) (inode ⟨u,low,i,low',unlike,g,refers,node⟩ last))
     · rfl
    have position : Function.update s.f_pos f 0 g = s.f_pos g := by
     by_cases eq : g = f
     · subst eq
       simp [offset ⟨u,low,i,low',unlike,g,refers,rfl⟩]
     · exact Function.update_of_ne eq ..
    cases same : (s.state.files.FilePool g).f_inode with
    | none => simp [view,position,object,same]
    | some w => simp [view,position,object,same,kept w same]
end

/-- Two descriptors of one file at offset 5, whose inode has been given up once too often. -/
def shared (i_count : Nat) : Offsets where
 state := ⟨⟨fun _ => ⟨2,some 0⟩,fun _ => ⟨fun i => if i = 3 ∨ i = 4 then some 7 else none,none,none⟩⟩,fun _ => ⟨1,2,i_count,0o100644,0⟩,[]⟩
 f_pos := fun _ => 5
 f_mode := fun _ => 0
 f_iob := fun _ => false
theorem close_resets : ¬ CloseKeeps (shared 2) 2 3 ∧
 (sys_close (shared 1) 2 3).map (fun r => seen r.2 2 4) = some (some (0,0,false,some (0,0,0,0))) := by
 refine ⟨fun keeps => ?_,rfl⟩
 have eq := congrArg (Option.map Prod.fst) (keeps 0 _ rfl 2 (by decide) 4 (by decide) (by decide))
 exact absurd eq (by decide)

end Netbas.SharedFiles
