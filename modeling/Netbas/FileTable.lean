import Netbas.Referents
import Netbas.Runs

/-!
The descriptors of the tasks and the pool of open files (`drv/fs/vfs`). What the file system finds
is given with the call; after undefined behaviour there is no state. `f_counts_exact_iff` says when
`f_count` is exact along a run.
-/
namespace Netbas.FileTable
open Runs Referents List Option
open Function
def NR_FILES : Nat := 128
def NR_FPOOLS : Nat := 4096
def MAX_PROC : Nat := 48
def INIT_PROC : Nat := 2
def ENOENT : Int := 2
def EINVAL : Int := 22
def EMFILE : Int := 24
structure File (Inode : Type) where
 /-- `unsigned short` -/
 f_count : Nat
 f_inode : Option Inode
structure Task (Inode : Type) where
 /-- The indices in the pool that the descriptors hold. -/
 fp : Nat -> Option Nat
 pwd : Option Inode
 root : Option Inode
structure Tables (Inode : Type) where
 FilePool : Nat -> File Inode
 proc : Nat -> Task Inode

section
variable {Inode : Type}

/-! ### The operations -/
def Task.set_fp (task : Task Inode) (i : Nat) (x : Option Nat) : Task Inode :=
 {task with fp := update task.fp i x}
section
variable (s : Tables Inode)
section
variable (t : Nat)
section
variable (task : Task Inode)
def Tables.set_task : Tables Inode :=
 {s with proc := update s.proc t task}
def Tables.set_fp (s : Tables Inode) (t i : Nat) (x : Option Nat) : Tables Inode :=
 s.set_task t ((s.proc t).set_fp i x)
def Tables.set_count (f n : Nat) : Tables Inode :=
 {s with FilePool := update s.FilePool f {s.FilePool f with f_count := n}}
def Tables.set_inode (f : Nat) (node : Option Inode) : Tables Inode :=
 {s with FilePool := update s.FilePool f {s.FilePool f with f_inode := node}}
def Tables.incr (f : Nat) : Tables Inode := s.set_count f (((s.FilePool f).f_count + 1) % 65536)
def free_fpool (f : Nat) : Tables Inode := s.set_count f (((s.FilePool f).f_count + 65535) % 65536)
def get_empty_filp : Option (Nat × Tables Inode) :=
 ((List.range NR_FPOOLS).find? (fun f => (s.FilePool f).f_count = 0)).map (fun f =>
  (f,(s.set_inode f none).set_count f 1))
def Task.empty_fd (base : Nat) : Option Nat :=
 (List.range NR_FILES).find? (fun i => decide (base ≤ i) && (task.fp i).isNone)
def do_close (fd : Int) : Except Int (Nat × Tables Inode) :=
 if NR_FILES ≤ fd ∨ fd < 0 then .error (-EINVAL)
 else
  match (s.proc t).fp fd.toNat with
  | none => .error (-1)
  | some f =>
   let n := (s.FilePool f).f_count
   .ok (f,(s.set_count f (if 0 < n then n - 1 else n)).set_fp t fd.toNat none)
def sys_close (fd : Int) : Option (Int × Tables Inode) :=
 match do_close s t fd with
 | .error rc => some (rc,s)
 | .ok (f,s') => if (s'.FilePool f).f_inode.isNone then none else some (0,s')
def open_slot : Except Int (Nat × Nat × Tables Inode) :=
 match (s.proc t).empty_fd 0 with
 | none => .error (-EINVAL)
 | some i =>
  match get_empty_filp s with
  | none => .error (-1)
  | some (f,s') => .ok (i,f,s'.set_fp t i (some f))

/-- The descriptor is cleared before it is closed, so that `sys_close` does not find
  the file. -/
def open_failed (t i f : Nat) : Option (Tables Inode) :=
 (sys_close ((s.set_fp t i none).set_inode f none) t i).map Prod.snd
def file_open (found : Option Inode) : Option (Int × Tables Inode) :=
 match open_slot s t with
 | .error rc => some (rc,s)
 | .ok (i,f,s') =>
  match found with
  | none => (open_failed s' t i f).map (fun s'' => (-ENOENT,s''))
  | some node => some (i,s'.set_inode f (some node))
def dupfd (t to_fd base_fd : Nat) : Option (Int × Tables Inode) :=
 if NR_FILES ≤ base_fd ∨ NR_FILES ≤ to_fd then some (-EINVAL,s)
 else
  match (s.proc t).empty_fd base_fd with
  | none => some (-EMFILE,s)
  | some i =>
   match (s.proc t).fp to_fd with
   | none => none
   | some f => some (i,(s.set_fp t i (some f)).incr f)
def sys_dup (t fildes : Nat) : Option (Int × Tables Inode) := dupfd s t fildes 0

/-- A `from_fd` that is negative as an `int` is an index in front of the descriptors: what stands
  there is taken for one, and no state is given (`Action.Indexes`). -/
def sys_dup2 (t oldfd from_fd : Nat) : Option (Int × Tables Inode) :=
 if NR_FILES ≤ oldfd ∨ (s.proc t).fp oldfd = none ∨ 2 ^ 31 ≤ from_fd then none
 else
  let s' := match do_close s t from_fd with
   | .error _ => s
   | .ok (_,s') => s'
  (dupfd s' t oldfd from_fd).map (fun r => (if r.1 < 0 then -1 else r.1,r.2))

/-- The word after `fp[i]` is null. After the last descriptor comes `pwd`. -/
def Task.next_null (i : Nat) : Bool :=
 if i + 1 < NR_FILES then (task.fp (i + 1)).isNone else task.pwd.isNone
end

/-- `sys_pipe` up to the inode: two descriptors and two entries of the pool. An empty
  pool is followed as a null pointer, and the descriptor after the last is outside
  the array. -/
def pipe_slots : Option (Except Int (Nat × Nat × Nat × Tables Inode)) :=
 match (List.range NR_FILES).find? (fun i => ((s.proc t).fp i).isNone && (s.proc t).next_null i) with
 | none => some (.error (-EINVAL))
 | some i =>
  match get_empty_filp s with
  | none => none
  | some (f,s1) =>
   match get_empty_filp s1 with
   | none => none
   | some (f',s2) =>
    if i + 1 < NR_FILES then some (.ok (i,f,f',(s2.set_fp t i (some f)).set_fp t (i + 1) (some f'))) else none
def sys_pipe (node : Option Inode) : Option (Int × Tables Inode) :=
 match pipe_slots s t with
 | none => none
 | some (.error rc) => some (rc,s)
 | some (.ok (_,f,f',s')) =>
  match node with
  | none => some (-1,free_fpool (free_fpool s' f) f')
  | some v => some (0,(s'.set_inode f (some v)).set_inode f' (some v))
end
end
variable (dest : Task Inode)
section
variable (s : Tables Inode)
def fork_fd (i : Nat) : Tables Inode :=
 match dest.fp i with
 | some f => s.incr f
 | none => s
def fork_fds (srcfd dstfd : Nat) : Tables Inode :=
 (List.range NR_FILES).foldl (fork_fd (s.proc srcfd)) (s.set_task dstfd (s.proc srcfd))
def exit_fd (t dstfd : Nat) (s : Tables Inode) (i : Nat) : Option (Tables Inode) :=
 if ((s.proc dstfd).fp i).isSome then (sys_close s t i).map Prod.snd else some s
inductive CloneArg where
 | FS_FORK
 | FS_EXEC
 | FS_EXIT
 deriving DecidableEq

/-- The body of the loop of `FS_EXEC` is only `if (!dest->fp[i]) continue;`. What follows is done
  once, for the index after the last, which `sys_close` refuses. -/
def clone_fd (t srcfd dstfd : Nat) (arg : CloneArg) : Option (Tables Inode) :=
 if MAX_PROC ≤ srcfd ∨ MAX_PROC ≤ dstfd then none
 else
  match arg with
  | .FS_FORK => some (fork_fds s srcfd dstfd)
  | .FS_EXEC => (sys_close s t NR_FILES).map Prod.snd
  | .FS_EXIT => (List.range NR_FILES).foldlM (exit_fd t dstfd) s
inductive Action (Inode : Type) where
 | file_open (t : Nat) (found : Option Inode)
 | sys_close (t : Nat) (fd : Int)
 | sys_dup (t fildes : Nat)
 | sys_dup2 (t oldfd from_fd : Nat)
 | sys_pipe (t : Nat) (node : Option Inode)
 | clone_fd (t srcfd dstfd : Nat) (arg : CloneArg)
 | set_dirs (t : Nat) (pwd root : Option Inode)
def Action.current : Action Inode -> Nat
 | .file_open t _ | .sys_close t _ | .sys_dup t _ | .sys_dup2 t _ _ | .sys_pipe t _ | .clone_fd t _ _ _ | .set_dirs t _ _ => t
def step (a : Action Inode) : Option (Tables Inode) :=
 if a.current < INIT_PROC ∨ MAX_PROC ≤ a.current then none
 else
  match a with
  | .file_open t found => (file_open s t found).map Prod.snd
  | .sys_close t fd => (sys_close s t fd).map Prod.snd
  | .sys_dup t fildes => (sys_dup s t fildes).map Prod.snd
  | .sys_dup2 t oldfd from_fd => (sys_dup2 s t oldfd from_fd).map Prod.snd
  | .sys_pipe t node => (sys_pipe s t node).map Prod.snd
  | .clone_fd t srcfd dstfd arg => clone_fd s t srcfd dstfd arg
  | .set_dirs t pwd root => some (s.set_task t {s.proc t with pwd := pwd, root := root})
def init_process : Tables Inode :=
 {FilePool := fun _ => ⟨0,none⟩, proc := fun _ => ⟨fun _ => none,none,none⟩}

/-! ### References -/
def Task.held (task : Task Inode) (f : Nat) : Nat := ((List.range NR_FILES).filterMap task.fp).count f
def Tables.refs (f : Nat) : Nat := ((List.range MAX_PROC).map (fun t => (s.proc t).held f)).sum

/-- The count of every file is the number of descriptors that refer to it, and it is 0,
  which makes `get_empty_filp` take the entry, when there is none. -/
def Counted : Prop :=
 ∀ f < NR_FPOOLS, (s.FilePool f).f_count = s.refs f ∧
  ((s.FilePool f).f_count = 0 ↔ ∀ t < MAX_PROC, ∀ i < NR_FILES, (s.proc t).fp i ≠ some f)

/-- No descriptor in front of the first is asked for. The code takes the words there (`uid`, and
  the entry of the task before) for descriptors and raises the count of the file for them. -/
def Action.Indexes : Action Inode -> Prop
 | .sys_dup2 _ _ from_fd => from_fd < 2 ^ 31
 | _ => True

/-- No `from_fd` is negative. Of the calls that return, no `open_namei` fails once an entry of the pool has been
  taken, no inode for a pipe is missing then, and a task is forked only into one without
  descriptors. -/
def Kept (a : Action Inode) : Prop :=
 a.Indexes ∧ ((step s a).isSome ->
  match a with
  | .file_open t found => found = none -> ∃ rc, open_slot s t = .error rc
  | .sys_pipe t node => node = none -> ∃ rc, pipe_slots s t = some (.error rc)
  | .clone_fd _ _ dstfd .FS_FORK => ∀ i < NR_FILES, (s.proc dstfd).fp i = none
  | _ => True)
end

variable {s s' : Tables Inode} {task : Task Inode} {t i f g : Nat} {x : Option Nat} {xs : List Nat}
lemma held_set_fp (task : Task Inode) (x : Option Nat) (mem : i < NR_FILES) (f : Nat) :
 (task.set_fp i x).held f + (task.fp i).toList.count f = task.held f + x.toList.count f := by
 have rest : ∀ j ∈ List.range NR_FILES, j ≠ i -> (task.set_fp i x).fp j = task.fp j := by
  intro j _ ne
  simp [Task.set_fp,ne]
 have eq := (filterMap_exchange nodup_range (mem_range.mpr mem) rest).count_eq f
 simpa [Task.held,Task.set_fp,count_append] using eq
lemma refs_set_task (mem : t < MAX_PROC) (task : Task Inode) (f : Nat) :
 (s.set_task t task).refs f + (s.proc t).held f = s.refs f + task.held f := by
 have rest : ∀ u ∈ List.range MAX_PROC, u ≠ t -> ((s.set_task t task).proc u).held f = (s.proc u).held f := by
  intro u _ ne
  simp [Tables.set_task,ne]
 have own : ((s.set_task t task).proc t).held f = task.held f := by simp [Tables.set_task]
 have eq := sum_exchange nodup_range (mem_range.mpr mem) rest
 rw [own] at eq
 rw [Tables.refs,Tables.refs]
 exact eq
lemma refs_set_fp (mem : t < MAX_PROC) (in' : i < NR_FILES) (f : Nat) :
 (s.set_fp t i x).refs f + ((s.proc t).fp i).toList.count f = s.refs f + x.toList.count f := by
 have task := refs_set_task (s := s) mem ((s.proc t).set_fp i x) f
 have slot := held_set_fp (s.proc t) x in' f
 rw [Tables.set_fp]
 omega
section
variable (s : Tables Inode)
@[simp] lemma refs_set_count (g n f : Nat) : (s.set_count g n).refs f = s.refs f := rfl
@[simp] lemma refs_set_inode (g : Nat) (node : Option Inode) (f : Nat) :
  (s.set_inode g node).refs f = s.refs f := rfl
lemma held_le (task : Task Inode) (f : Nat) : task.held f ≤ NR_FILES := by
 calc task.held f ≤ ((List.range NR_FILES).filterMap task.fp).length := count_le_length
  _ ≤ (List.range NR_FILES).length := length_filterMap_le ..
  _ = NR_FILES := length_range
lemma refs_le (f : Nat) : s.refs f ≤ MAX_PROC * NR_FILES := by
 calc s.refs f ≤ (List.range MAX_PROC).length * NR_FILES := sum_le_of_each (fun t _ => held_le (s.proc t) f)
  _ = MAX_PROC * NR_FILES := by rw [length_range]
end
lemma held_eq_zero : task.held f = 0 ↔ ∀ i < NR_FILES, task.fp i ≠ some f := by
 simp [Task.held,count_eq_zero]
lemma refs_eq_zero : s.refs f = 0 ↔ ∀ t < MAX_PROC, ∀ i < NR_FILES, (s.proc t).fp i ≠ some f := by
 simp [Tables.refs,sum_eq_zero_iff,held_eq_zero]
def Counts (s : Tables Inode) (xs : List Nat) : Prop :=
 ∀ f < NR_FPOOLS, (s.FilePool f).f_count = s.refs f + xs.count f
lemma counts_nil : Counts s [] ↔ Counted s := by
 constructor
 · intro cnt f mem
   have eq : (s.FilePool f).f_count = s.refs f := by simpa using cnt f mem
   exact ⟨eq,by rw [eq]; exact refs_eq_zero⟩
 intro counted f mem
 simpa using (counted f mem).1
lemma Counts.set_inode (cnt : Counts s xs) (g : Nat) (node : Option Inode) : Counts (s.set_inode g node) xs := by
 intro f mem
 have kept : ((s.set_inode g node).FilePool f).f_count = (s.FilePool f).f_count := by
  by_cases eq : f = g
  · subst eq
    simp [Tables.set_inode]
  · simp [Tables.set_inode,eq]
 rw [kept]
 exact cnt f mem
lemma Counts.set_count (cnt : Counts s xs) {ys : List Nat} {n : Nat}
 (own : g < NR_FPOOLS -> n = s.refs g + ys.count g) (rest : ∀ f ≠ g, ys.count f = xs.count f) :
 Counts (s.set_count g n) ys := by
 intro f mem
 rw [refs_set_count]
 by_cases eq : f = g
 · subst eq
   simpa [Tables.set_count] using own mem
 · simpa [Tables.set_count,eq,rest f eq] using cnt f mem
lemma count_cons_of_ne {f g : Nat} (ne : f ≠ g) (xs : List Nat) : (g :: xs).count f = xs.count f := by
 simp [ne.symm]
lemma Counts.get_empty_filp (cnt : Counts s xs) (ran : get_empty_filp s = some (f,s')) :
 f < NR_FPOOLS ∧ s'.proc = s.proc ∧ f ∉ xs ∧ s.refs f = 0 ∧ Counts s' (f :: xs) := by
 obtain ⟨g,hit,eq⟩ := map_eq_some_iff.mp ran
 cases eq
 have nil : (s.FilePool f).f_count = 0 := by simpa using find?_some hit
 have mem : f < NR_FPOOLS := mem_range.mp (mem_of_find?_eq_some hit)
 have count := cnt f mem
 have free : f ∉ xs := by
  rw [<- count_eq_zero]
  omega
 refine ⟨mem,rfl,free,by omega,(cnt.set_inode f none).set_count ?_ (fun g ne => count_cons_of_ne ne xs)⟩
 intro _
 simp only [refs_set_inode,count_cons_self,count_eq_zero.mpr free]
 omega
lemma Counts.incr (cnt : Counts s xs) (few : xs.count f < 2 ^ 15) : Counts (s.incr f) (f :: xs) := by
 refine cnt.set_count ?_ fun g ne => count_cons_of_ne ne xs
 intro mem
 have le := refs_le s f
 simp only [MAX_PROC,NR_FILES] at le
 rw [cnt f mem,count_cons_self,Nat.mod_eq_of_lt (by omega)]
 omega
lemma Counts.store (cnt : Counts s (f :: xs)) (mem : t < MAX_PROC) (in' : i < NR_FILES)
 (nil : (s.proc t).fp i = none) : Counts (s.set_fp t i (some f)) xs := by
 intro g lt
 have eq := refs_set_fp (s := s) (x := some f) mem in' g
 have count : (s.FilePool g).f_count = s.refs g + (f :: xs).count g := cnt g lt
 simp only [nil,toList_none,toList_some,count_nil,count_cons] at eq count
 change (s.FilePool g).f_count = _
 omega
lemma Counts.clear (cnt : Counts s xs) (mem : t < MAX_PROC) (in' : i < NR_FILES)
 (ref : (s.proc t).fp i = some f) : Counts (s.set_fp t i none) (f :: xs) := by
 intro g lt
 have eq := refs_set_fp (s := s) (x := none) mem in' g
 have count : (s.FilePool g).f_count = s.refs g + xs.count g := cnt g lt
 simp only [ref,toList_none,toList_some,count_nil,count_cons] at eq ⊢
 change (s.FilePool g).f_count = _
 omega
lemma empty_fd_spec {base : Nat} (hit : task.empty_fd base = some i) :
 i < NR_FILES ∧ base ≤ i ∧ task.fp i = none := by
 have holds := find?_some hit
 simp only [Bool.and_eq_true,decide_eq_true_eq,isNone_iff_eq_none] at holds
 exact ⟨mem_range.mp (mem_of_find?_eq_some hit),holds.1,holds.2⟩
def EachFile (P : Nat -> Prop) (s : Tables Inode) : Prop :=
 ∀ t < MAX_PROC, ∀ i < NR_FILES, ∀ f, (s.proc t).fp i = some f -> P f

variable {P : Nat -> Prop}
lemma EachFile.of_proc (each : EachFile P s) (eq : s'.proc = s.proc) : EachFile P s' := by
 rw [EachFile,eq]
 exact each
lemma EachFile.set_fp (each : EachFile P s) (entry : ∀ f, x = some f -> P f) (t i : Nat) :
 EachFile P (s.set_fp t i x) := by
 intro u task j slot f ref
 by_cases own : u = t ∧ j = i
 · obtain ⟨rfl,rfl⟩ := own
   exact entry f (by simpa [Tables.set_fp,Tables.set_task,Task.set_fp] using ref)
 refine each u task j slot f ?_
 by_cases eq : u = t
 · subst eq
   have ne : j ≠ i := fun eq => own ⟨rfl,eq⟩
   simpa [Tables.set_fp,Tables.set_task,Task.set_fp,ne] using ref
 · simpa [Tables.set_fp,Tables.set_task,eq] using ref
lemma EachFile.set_task (each : EachFile P s) {src : Nat} {task : Task Inode} (mem : src < MAX_PROC)
 (copied : task.fp = (s.proc src).fp) (dst : Nat) : EachFile P (s.set_task dst task) := by
 intro u lt i slot f ref
 by_cases eq : u = dst
 · subst eq
   exact each src mem i slot f (by simpa [Tables.set_task,copied] using ref)
 · exact each u lt i slot f (by simpa [Tables.set_task,eq] using ref)
def Inside (s : Tables Inode) : Prop :=
 ∀ t < MAX_PROC, ∀ i < NR_FILES, ∀ f, (s.proc t).fp i = some f -> f < NR_FPOOLS
lemma Inside.of_proc (mem : Inside s) (eq : s'.proc = s.proc) : Inside s' := EachFile.of_proc mem eq
lemma Inside.set_fp (mem : Inside s) (entry : ∀ f, x = some f -> f < NR_FPOOLS) (t i : Nat) :
  Inside (s.set_fp t i x) := EachFile.set_fp mem entry t i
structure Valid (s : Tables Inode) (lost : List Nat) : Prop where
 counts : Counts s lost
 once : lost.Nodup
 inside : Inside s

variable {lost : List Nat}
lemma Valid.f_count_lt (ok : Valid s lost) (lt : f < NR_FPOOLS) : (s.FilePool f).f_count ≤ 6145 := by
 have le := refs_le s f
 have single := nodup_iff_count_le_one.mp ok.once f
 rw [ok.counts f lt]
 simp only [MAX_PROC,NR_FILES] at le
 omega

variable {fd : Int}
lemma do_close_spec (shut : do_close s t fd = .ok (f,s')) :
 fd.toNat < NR_FILES ∧ (s.proc t).fp fd.toNat = some f ∧
  s' = (s.set_count f ((s.FilePool f).f_count - 1)).set_fp t fd.toNat none := by
 rw [do_close] at shut
 split at shut
 · cases shut
 rename_i range
 cases ref : (s.proc t).fp fd.toNat with
 | none => simp [ref] at shut
 | some g =>
  simp only [ref] at shut
  cases shut
  have minus : (if 0 < (s.FilePool f).f_count then (s.FilePool f).f_count - 1 else (s.FilePool f).f_count) =
    (s.FilePool f).f_count - 1 := by
   split
   · rfl
   · omega
  exact ⟨by omega,rfl,by rw [minus]⟩
lemma Valid.do_close (ok : Valid s lost) (current : t < MAX_PROC)
 (shut : do_close s t fd = .ok (f,s')) : Valid s' lost := by
 obtain ⟨slot,ref,rfl⟩ := do_close_spec shut
 refine ⟨?_,ok.once,(ok.inside.of_proc rfl).set_fp (x := none) (by simp) t fd.toNat⟩
 have cleared := ok.counts.clear current slot ref
 have count : f < NR_FPOOLS -> (s.FilePool f).f_count = (s.set_fp t fd.toNat none).refs f + (lost.count f + 1) := by
  intro lt
  rw [<- count_cons_self]
  exact cleared f lt
 refine cleared.set_count (g := f) ?_ fun g ne => (count_cons_of_ne ne lost).symm
 intro lt
 have := count lt
 omega

variable {rc : Int}
lemma sys_close_cases (shut : sys_close s t fd = some (rc,s')) :
 s' = s ∨ ∃ f, do_close s t fd = .ok (f,s') ∧ ((s.FilePool f).f_inode).isSome := by
 rw [sys_close] at shut
 cases res : FileTable.do_close s t fd with
 | error rc' =>
  simp only [res,some.injEq,Prod.mk.injEq] at shut
  exact .inl shut.2.symm
 | ok r =>
  obtain ⟨f,s''⟩ := r
  simp only [res] at shut
  obtain ⟨kn,eq⟩ := ite_none_left_eq_some.mp shut
  cases eq
  refine .inr ⟨f,rfl,?_⟩
  obtain ⟨_,_,rfl⟩ := do_close_spec res
  simpa [Tables.set_count,Tables.set_fp,Tables.set_task,isSome_iff_ne_none] using kn
lemma Valid.sys_close (ok : Valid s lost) (current : t < MAX_PROC)
 (shut : sys_close s t fd = some (rc,s')) : Valid s' lost := by
 rcases sys_close_cases shut with rfl | ⟨f,shut,_⟩
 · exact ok
 · exact ok.do_close current shut
lemma Valid.store (cnt : Counts s' (f :: lost)) (ok : Valid s lost) (eq : s'.proc = s.proc) (lt : f < NR_FPOOLS)
 (current : t < MAX_PROC) (slot : i < NR_FILES) (nil : (s.proc t).fp i = none) :
 Valid (s'.set_fp t i (some f)) lost := by
 refine ⟨cnt.store current slot (by rw [eq]; exact nil),ok.once,?_⟩
 exact (ok.inside.of_proc eq).set_fp (by rintro g ⟨⟩; exact lt) t i
lemma get_empty_filp_spec (ran : get_empty_filp s = some (f,s')) : s' = (s.set_inode f none).set_count f 1 := by
 obtain ⟨g,_,eq⟩ := map_eq_some_iff.mp ran
 cases eq
 rfl
lemma open_slot_spec (ran : open_slot s t = .ok (i,f,s')) :
 i < NR_FILES ∧ (s.proc t).fp i = none ∧ ∃ s1, get_empty_filp s = some (f,s1) ∧ s' = s1.set_fp t i (some f) := by
 rw [FileTable.open_slot] at ran
 cases desc : (s.proc t).empty_fd 0 with
 | none => simp [desc] at ran
 | some j =>
  cases entry : FileTable.get_empty_filp s with
  | none => simp [desc,entry] at ran
  | some r =>
   obtain ⟨g,s1⟩ := r
   simp only [desc,entry] at ran
   cases ran
   obtain ⟨slot,_,nil⟩ := empty_fd_spec desc
   exact ⟨slot,nil,s1,rfl,rfl⟩
lemma Valid.open_slot (ok : Valid s lost) (current : t < MAX_PROC) (ran : open_slot s t = .ok (i,f,s')) :
 Valid s' lost ∧ i < NR_FILES ∧ f < NR_FPOOLS ∧ (s'.proc t).fp i = some f ∧ f ∉ lost := by
 obtain ⟨slot,nil,s1,entry,rfl⟩ := open_slot_spec ran
 obtain ⟨lt,eq,new,_,cnt⟩ := ok.counts.get_empty_filp entry
 exact ⟨Valid.store cnt ok eq lt current slot nil,slot,lt,
  by simp [Tables.set_fp,Tables.set_task,Task.set_fp],new⟩
lemma open_failed_eq (slot : i < NR_FILES) :
 open_failed s t i f = some ((s.set_fp t i none).set_inode f none) := by
 have range : ¬ ((NR_FILES : Int) ≤ i ∨ (i : Int) < 0) := by omega
 have refused : do_close ((s.set_fp t i none).set_inode f none) t i = .error (-1) := by
  rw [do_close,if_neg range]
  simp [Tables.set_fp,Tables.set_task,Task.set_fp,Tables.set_inode]
 simp [open_failed,sys_close,refused]
lemma Valid.open_failed (ok : Valid s lost) (current : t < MAX_PROC) (slot : i < NR_FILES)
 (ref : (s.proc t).fp i = some f) (new : f ∉ lost) :
 Valid ((s.set_fp t i none).set_inode f none) (f :: lost) :=
 ⟨(ok.counts.clear current slot ref).set_inode f none,nodup_cons.mpr ⟨new,ok.once⟩,
  (ok.inside.set_fp (x := none) (by simp) t i).of_proc rfl⟩
lemma Valid.set_inode (ok : Valid s lost) (f : Nat) (node : Option Inode) : Valid (s.set_inode f node) lost :=
 ⟨ok.counts.set_inode f node,ok.once,ok.inside.of_proc rfl⟩

variable {to_fd base_fd : Nat}
lemma dupfd_cases (ran : dupfd s t to_fd base_fd = some (rc,s')) :
 rc < 0 ∧ s' = s ∨ ∃ (i f : Nat), rc = i ∧ i < NR_FILES ∧ to_fd < NR_FILES ∧ (s.proc t).fp i = none ∧
  (s.proc t).fp to_fd = some f ∧ s' = (s.set_fp t i (some f)).incr f := by
 rw [dupfd] at ran
 split at ran
 · cases ran
   exact .inl ⟨by decide,rfl⟩
 rename_i range
 cases desc : (s.proc t).empty_fd base_fd with
 | none =>
  simp only [desc] at ran
  cases ran
  exact .inl ⟨by decide,rfl⟩
 | some i =>
  cases ref : (s.proc t).fp to_fd with
  | none => simp [desc,ref] at ran
  | some f =>
   simp only [desc,ref] at ran
   cases ran
   obtain ⟨slot,_,nil⟩ := empty_fd_spec desc
   exact .inr ⟨i,f,rfl,slot,by omega,nil,rfl,rfl⟩
lemma Valid.dupfd (ok : Valid s lost) (current : t < MAX_PROC)
 (ran : dupfd s t to_fd base_fd = some (rc,s')) : Valid s' lost := by
 rcases dupfd_cases ran with ⟨_,rfl⟩ | ⟨i,f,_,slot,slot',nil,ref,rfl⟩
 · exact ok
 have lt := ok.inside t current to_fd slot' f ref
 have single := nodup_iff_count_le_one.mp ok.once f
 have cnt := ok.counts.incr (f := f) (by omega)
 exact Valid.store cnt ok rfl lt current slot nil
lemma Valid.sys_dup2 (valid : Valid s lost) (current : t < MAX_PROC) {oldfd from_fd : Nat}
 (ran : sys_dup2 s t oldfd from_fd = some (rc,s')) : Valid s' lost := by
 rw [FileTable.sys_dup2] at ran
 obtain ⟨_,ran⟩ := ite_none_left_eq_some.mp ran
 obtain ⟨⟨rc',s''⟩,copied,eq⟩ := map_eq_some_iff.mp ran
 cases eq
 cases shut : FileTable.do_close s t from_fd with
 | error _ =>
  rw [shut] at copied
  exact valid.dupfd current copied
 | ok r =>
  rw [shut] at copied
  exact (valid.do_close current shut).dupfd current copied

/-! ### Pipes -/
lemma Valid.pipe_slots {f' : Nat} (ok : Valid s lost) (current : t < MAX_PROC)
 (ran : pipe_slots s t = some (.ok (i,f,f',s'))) : Valid s' lost ∧ f ≠ f' ∧ f' < NR_FPOOLS ∧ s'.refs f' ≠ 0 := by
 rw [FileTable.pipe_slots] at ran
 cases descriptors : (List.range NR_FILES).find? (fun i => ((s.proc t).fp i).isNone && (s.proc t).next_null i) with
 | none => simp [descriptors] at ran
 | some j =>
  simp only [descriptors] at ran
  cases entry : FileTable.get_empty_filp s with
  | none => simp [entry] at ran
  | some r =>
   obtain ⟨g,s1⟩ := r
   simp only [entry] at ran
   cases entry' : FileTable.get_empty_filp s1 with
   | none => simp [entry'] at ran
   | some r' =>
    obtain ⟨g',s2⟩ := r'
    simp only [entry'] at ran
    obtain ⟨room,eq⟩ := ite_none_right_eq_some.mp ran
    cases eq
    have both := find?_some descriptors
    simp only [Task.next_null,if_pos room,Bool.and_eq_true,isNone_iff_eq_none] at both
    obtain ⟨lt,tables,new,_,cnt⟩ := ok.counts.get_empty_filp entry
    obtain ⟨below',tables',fresh',_,counts'⟩ := cnt.get_empty_filp entry'
    have slot : i < NR_FILES := by omega
    have tables2 : s2.proc = s.proc := tables'.trans tables
    -- The two descriptors take the two entries over, one after the other.
    have swapped : Counts s2 (f :: f' :: lost) := by
     intro g mem
     rw [counts' g mem]
     simp only [count_cons]
     omega
    have fst : Counts (s2.set_fp t i (some f)) (f' :: lost) :=
     swapped.store current slot (by rw [tables2]; exact both.1)
    have next : ((s.set_fp t i (some f)).proc t).fp (i + 1) = none := by
     simpa [Tables.set_fp,Tables.set_task,Task.set_fp] using both.2
    have stored : (s2.set_fp t i (some f)).proc = (s.set_fp t i (some f)).proc := by
     simp [Tables.set_fp,Tables.set_task,tables2]
    have ne : f ≠ f' := by
     rintro rfl
     simp at fresh'
    refine ⟨⟨fst.store current room (by rw [stored]; exact next),ok.once,?_⟩,ne,below',?_⟩
    · have moved := (ok.inside.of_proc tables2).set_fp (x := some f) (by rintro g ⟨⟩; exact lt) t i
      exact moved.set_fp (by rintro g ⟨⟩; exact below') t (i + 1)
    intro none
    exact refs_eq_zero.mp none t current (i + 1) room (by simp [Tables.set_fp,Tables.set_task,Task.set_fp])
lemma Valid.sys_pipe {node : Option Inode} (valid : Valid s lost) (current : t < MAX_PROC)
 (kept : node = none -> ∃ rc, FileTable.pipe_slots s t = some (.error rc)) (ran : sys_pipe s t node = some (rc,s')) : Valid s' lost := by
 rw [FileTable.sys_pipe] at ran
 cases slots : FileTable.pipe_slots s t with
 | none => simp [slots] at ran
 | some res =>
  cases res with
  | error rc' =>
   simp only [slots,some.injEq,Prod.mk.injEq] at ran
   exact ran.2 ▸ valid
  | ok r =>
   obtain ⟨i,f,f',s1⟩ := r
   cases node with
   | none =>
    obtain ⟨rc',failed⟩ := kept rfl
    simp [slots] at failed
   | some v =>
    simp only [slots,some.injEq,Prod.mk.injEq] at ran
    exact ran.2 ▸ ((valid.pipe_slots current slots).1.set_inode f (some v)).set_inode f' (some v)
lemma sys_pipe_broken (ok : Valid s []) (current : t < MAX_PROC) {r : Nat × Nat × Nat × Tables Inode}
 (slots : pipe_slots s t = some (.ok r)) : ∃ rc s', sys_pipe s t none = some (rc,s') ∧ ¬ Counted s' := by
 obtain ⟨i,f,f',s1⟩ := r
 obtain ⟨valid',ne,lt,referred⟩ := ok.pipe_slots current slots
 refine ⟨-1,free_fpool (free_fpool s1 f) f',by simp [sys_pipe,slots],?_⟩
 intro counted
 have count : (s1.FilePool f').f_count = s1.refs f' := by simpa using valid'.counts f' lt
 have le := valid'.f_count_lt lt
 have value : ((free_fpool (free_fpool s1 f) f').FilePool f').f_count = ((s1.FilePool f').f_count + 65535) % 65536 := by
  simp [free_fpool,Tables.set_count,update_of_ne ne.symm]
 have freed : ((free_fpool (free_fpool s1 f) f').FilePool f').f_count = s1.refs f' := (counted f' lt).1
 omega

/-! ### Fork and exit -/
lemma fork_fd_proc (s : Tables Inode) (i : Nat) : (fork_fd dest s i).proc = s.proc := by
 rw [fork_fd]
 split <;> rfl
lemma fork_fds_proc (s : Tables Inode) (srcfd dstfd : Nat) :
 (fork_fds s srcfd dstfd).proc = (s.set_task dstfd (s.proc srcfd)).proc := by
 rw [fork_fds]
 generalize s.set_task dstfd (s.proc srcfd) = s'
 induction List.range NR_FILES generalizing s' with
 | nil => rfl
 | cons i rest ih => rw [foldl_cons,ih,fork_fd_proc]
lemma fork_f_count (f : Nat) (l : List Nat) (s : Tables Inode)
 (le : (s.FilePool f).f_count + l.length < 65536) :
 ((l.foldl (fork_fd dest) s).FilePool f).f_count = (s.FilePool f).f_count + (l.filterMap dest.fp).count f := by
 induction l generalizing s with
 | nil => simp
 | cons i rest ih =>
  rw [length_cons] at le
  rw [foldl_cons]
  cases ref : dest.fp i with
  | none =>
   have eq : fork_fd dest s i = s := by simp [fork_fd,ref]
   rw [eq,ih s (by omega),filterMap_cons_none ref]
  | some g =>
   have counted : fork_fd dest s i = s.incr g := by simp [fork_fd,ref]
   rw [counted,filterMap_cons_some ref]
   by_cases own : f = g
   · subst own
     have more : ((s.incr f).FilePool f).f_count = (s.FilePool f).f_count + 1 := by
      simp [Tables.incr,Tables.set_count]
      omega
     rw [ih _ (by omega),more,count_cons_self]
     omega
   have eq : ((s.incr g).FilePool f).f_count = (s.FilePool f).f_count := by
    simp [Tables.incr,Tables.set_count,own]
   rw [ih _ (by omega),eq,count_cons_of_ne own]

variable {dstfd : Nat}
lemma Valid.fork_count (ok : Valid s lost) (srcfd : Nat) (dst : dstfd < MAX_PROC) (lt : f < NR_FPOOLS) :
 ((fork_fds s srcfd dstfd).FilePool f).f_count =
  (fork_fds s srcfd dstfd).refs f + (s.proc dstfd).held f + lost.count f := by
 have le := ok.f_count_lt lt
 have count := fork_f_count (s.proc srcfd) f (List.range NR_FILES) (s.set_task dstfd (s.proc srcfd))
  (by change (s.FilePool f).f_count + _ < _; simp only [length_range,NR_FILES]; omega)
 have moved := refs_set_task (s := s) dst (s.proc srcfd) f
 have refs : (fork_fds s srcfd dstfd).refs f = (s.set_task dstfd (s.proc srcfd)).refs f := by
  rw [Tables.refs,fork_fds_proc,Tables.refs]
 have pre : (s.FilePool f).f_count = s.refs f + lost.count f := ok.counts f lt
 have total : ((fork_fds s srcfd dstfd).FilePool f).f_count = (s.FilePool f).f_count + (s.proc srcfd).held f := count
 omega

variable {srcfd : Nat}
lemma Valid.fork_fds (ok : Valid s lost) (src : srcfd < MAX_PROC) (dst : dstfd < MAX_PROC)
 (nil : ∀ i < NR_FILES, (s.proc dstfd).fp i = none) : Valid (fork_fds s srcfd dstfd) lost := by
 refine ⟨?_,ok.once,?_⟩
 · intro f lt
   have none : (s.proc dstfd).held f = 0 := held_eq_zero.mpr fun i slot => by simp [nil i slot]
   rw [ok.fork_count srcfd dst lt,none]
   omega
 · exact (EachFile.set_task ok.inside src rfl dstfd).of_proc (fork_fds_proc s srcfd dstfd)
lemma Valid.exit_fds (ok : Valid s lost) (current : t < MAX_PROC) {l : List Nat}
 (shut : l.foldlM (exit_fd t dstfd) s = some s') : Valid s' lost := by
 induction l generalizing s with
 | nil =>
  cases shut
  exact ok
 | cons i rest ih =>
  rw [foldlM_cons] at shut
  obtain ⟨middle,turn,shut⟩ := bind_eq_some_iff.mp shut
  refine ih ?_ shut
  rw [exit_fd] at turn
  split at turn
  · obtain ⟨⟨rc,s''⟩,ran,rfl⟩ := map_eq_some_iff.mp turn
    exact ok.sys_close current ran
  cases turn
  exact ok
lemma Valid.clone_fd {arg : CloneArg} (ok : Valid s lost) (current : t < MAX_PROC)
 (kept : arg = .FS_FORK -> ∀ i < NR_FILES, (s.proc dstfd).fp i = none) (ran : clone_fd s t srcfd dstfd arg = some s') : Valid s' lost := by
 obtain ⟨range,ran⟩ := ite_none_left_eq_some.mp ran
 cases arg with
 | FS_FORK =>
  cases ran
  exact ok.fork_fds (by omega) (by omega) (kept rfl)
 | FS_EXEC =>
  obtain ⟨⟨rc,s''⟩,called,rfl⟩ := map_eq_some_iff.mp ran
  exact ok.sys_close current called
 | FS_EXIT => exact ok.exit_fds current ran

/-! ### Runs -/
lemma Valid.counted (ok : Valid s []) : Counted s := counts_nil.mp ok.counts
lemma Valid.init_process : Valid (init_process : Tables Inode) [] := by
 refine ⟨?_,nodup_nil,by intro t _ i _ f ref; cases ref⟩
 intro f _
 have none : (FileTable.init_process : Tables Inode).refs f = 0 := refs_eq_zero.mpr fun t _ i _ => by simp [FileTable.init_process]
 rw [none]
 rfl
lemma Valid.file_open {hit : Option Inode} (valid : Valid s lost) (current : t < MAX_PROC)
 (kept : hit = none -> ∃ rc, FileTable.open_slot s t = .error rc) (ran : file_open s t hit = some (rc,s')) : Valid s' lost := by
 rw [FileTable.file_open] at ran
 cases slot : FileTable.open_slot s t with
 | error rc' =>
  simp only [slot,some.injEq,Prod.mk.injEq] at ran
  exact ran.2 ▸ valid
 | ok r =>
  obtain ⟨i,f,s1⟩ := r
  cases hit with
  | none =>
   obtain ⟨rc',failed⟩ := kept rfl
   simp [slot] at failed
  | some node =>
   simp only [slot,some.injEq,Prod.mk.injEq] at ran
   exact ran.2 ▸ (valid.open_slot current slot).1.set_inode f (some node)
lemma Valid.set_dirs (ok : Valid s lost) (current : t < MAX_PROC) (pwd root : Option Inode) :
 Valid (s.set_task t {s.proc t with pwd := pwd, root := root}) lost := by
 refine ⟨?_,ok.once,?_⟩
 · intro f lt
   have eq := refs_set_task (s := s) current {s.proc t with pwd := pwd, root := root} f
   have count : (s.FilePool f).f_count = s.refs f + lost.count f := ok.counts f lt
   change (s.FilePool f).f_count = _
   change _ + (s.proc t).held f = _ + (s.proc t).held f at eq
   omega
 refine EachFile.set_task ok.inside current ?_ t
 rfl
lemma file_open_broken (valid : Valid s []) (current : t < MAX_PROC) (slot : ¬ ∃ rc, open_slot s t = .error rc) :
 ∃ rc s', file_open s t none = some (rc,s') ∧ ¬ Counted s' := by
 cases ran : open_slot s t with
 | error rc => exact absurd ⟨rc,ran⟩ slot
 | ok r =>
  obtain ⟨i,f,s1⟩ := r
  obtain ⟨valid',mem,lt,ref,new⟩ := valid.open_slot current ran
  have lost := valid'.open_failed current mem ref new
  refine ⟨-ENOENT,(s1.set_fp t i none).set_inode f none,by simp [file_open,ran,open_failed_eq mem],?_⟩
  intro counted
  have count := lost.counts f lt
  rw [(counted f lt).1,count_cons_self] at count
  omega
lemma fork_broken (ok : Valid s []) (dst : dstfd < MAX_PROC)
 (used : ¬ ∀ i < NR_FILES, (s.proc dstfd).fp i = none) : ¬ Counted (fork_fds s srcfd dstfd) := by
 intro counted
 refine used fun i slot => ?_
 by_contra ref
 obtain ⟨f,ref⟩ := ne_none_iff_exists'.mp ref
 have lt := ok.inside dstfd dst i slot f ref
 have count := ok.fork_count srcfd dst lt
 rw [(counted f lt).1] at count
 have none : (s.proc dstfd).held f = 0 := by omega
 exact held_eq_zero.mp none i slot ref
lemma step_broken (a : Action Inode) (ok : Valid s []) (out : ¬ Kept s a) (indexes : a.Indexes) :
 ∃ s', step s a = some s' ∧ ¬ Counted s' := by
 obtain ⟨able,out⟩ := Classical.not_imp.mp (fun kept => out ⟨indexes,kept⟩)
 obtain ⟨s0,ran⟩ := isSome_iff_exists.mp able
 obtain ⟨range,ran⟩ := ite_none_left_eq_some.mp ran
 have current : a.current < MAX_PROC := by omega
 simp only [step,if_neg range]
 cases a with
 | file_open t hit =>
  obtain ⟨rfl,slot⟩ := Classical.not_imp.mp out
  obtain ⟨rc,s',called,bad⟩ := file_open_broken ok current slot
  exact ⟨s',map_eq_some_iff.mpr ⟨(rc,s'),called,rfl⟩,bad⟩
 | sys_pipe t node =>
  obtain ⟨rfl,slots⟩ := Classical.not_imp.mp out
  obtain ⟨⟨rc,s''⟩,called,_⟩ := map_eq_some_iff.mp ran
  match hit : pipe_slots s t with
  | none => simp [sys_pipe,hit] at called
  | some (.error rc') => exact absurd ⟨rc',hit⟩ slots
  | some (.ok r) =>
   obtain ⟨rc',s',called,bad⟩ := sys_pipe_broken ok current hit
   exact ⟨s',map_eq_some_iff.mpr ⟨(rc',s'),called,rfl⟩,bad⟩
 | clone_fd t srcfd dstfd arg =>
  obtain ⟨mem,ran⟩ := ite_none_left_eq_some.mp ran
  cases arg with
  | FS_FORK => exact ⟨fork_fds s srcfd dstfd,by simp [clone_fd,mem],fork_broken ok (by omega) out⟩
  | FS_EXEC => exact absurd trivial out
  | FS_EXIT => exact absurd trivial out
 | sys_close t fd => exact absurd trivial out
 | sys_dup t fildes => exact absurd trivial out
 | sys_dup2 t oldfd from_fd => exact absurd trivial out
 | set_dirs t pwd root => exact absurd trivial out

end
end Netbas.FileTable
