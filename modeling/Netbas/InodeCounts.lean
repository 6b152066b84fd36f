import Netbas.Inodes

/-!
The references to inodes (`drv/fs/vfs`): by descriptors, by the directories of tasks and by mounts.
`i_counts_exact_iff` says when `i_count` is their number along a run.
-/
namespace Netbas.InodeCounts
open Runs Referents FileTable Inodes List
open Option hiding or_self
def NR_SUPER : Nat := 8
def EACCES : Int := 13
def ENOTDIR : Int := 20
structure State where
 files : Tables Nat
 vnode : Table
 /-- The directory of every mount, and the root of its file system. -/
 mounts : List (Path × Option Nat)

/-! ### Paths -/
def stricmp (a b : Path) : Bool := a.map Char.toLower = b.map Char.toLower
def get_mount_dir (dirname : Path) : Path × Nat :=
 let name := (dirname.dropWhile (· = '/')).takeWhile (· ≠ '/')
 ('/' :: name,(dirname.takeWhile (· = '/')).length + name.length)
def find_mount_list (mounts : List (Path × Option Nat)) (mntdir : Path) : Option (Option Nat) :=
 (mounts.find? (fun mount => stricmp mount.1 mntdir)).map Prod.snd

section
variable (s : State)
/-- Where the walk starts, and how much of the path has been used. `vol` has 255 bytes. -/
def get_root_inode (t : Nat) (dirname : Path) : Option (Option Nat × Nat) :=
 if dirname.head? = some '/' then
  let (vol,c) := get_mount_dir dirname
  if 255 ≤ vol.length then none
  else
   match find_mount_list s.mounts vol with
   | some m_root => if vol.length = 1 then some ((s.files.proc t).root,0) else some (m_root,c)
   | none => some ((s.files.proc t).root,0)
 else some ((s.files.proc t).pwd,0)

section
variable (disk : Disk)
def open_namei (s : State) (t : Nat) (path : Path) : Option (Except Int Nat × Table) :=
 match get_root_inode s t path with
 | none => none
 | some (none,_) => some (.error (-1),s.vnode)
 | some (some tmp,pos) => some (do_namei disk s.vnode tmp (path.drop pos))
def S_ISDIR (m : Nat) : Bool := m &&& 0o170000 = 0o040000
def State.set_pwd (t v : Nat) : State :=
 {s with files := s.files.set_task t {s.files.proc t with pwd := some v}}
def sys_chdir (s : State) (t : Nat) (new_path : Option Path) : Option (Int × State) :=
 match new_path with
 | none => some (-EINVAL,s)
 | some path =>
  match open_namei disk s t path with
  | none => none
  | some (.error _,vnode) => some (-ENOENT,{s with vnode := vnode})
  | some (.ok v,vnode) =>
   if S_ISDIR (vnode v).i_mode then
    match iget disk vnode (vnode v).i_dev (vnode v).i_number with
    | none => some (-1,{s with vnode := (iput vnode v).2})
    | some (cnode,vnode') => some (0,{s.set_pwd t cnode with vnode := (iput vnode' v).2})
   else some (-ENOTDIR,{s with vnode := (iput vnode v).2})
def access_rc (uid i_uid inode_mode mode : Nat) : Int :=
 let i_mode := inode_mode &&& 0o777
 let res := if uid = i_uid then (i_mode >>> 6) >>> 6 else i_mode
 if res &&& 7 &&& mode = mode then 0
 else if uid = 0 ∧ (mode &&& 1 = 0 ∨ i_mode &&& 0o111 ≠ 0) then 0
 else -EACCES
def do_access (s : State) (t uid : Nat) (filename : Path) (mode : Nat) : Option (Int × State) :=
 match open_namei disk s t filename with
 | none => none
 | some (.error _,vnode) => some (-ENOENT,{s with vnode := vnode})
 | some (.ok v,vnode) =>
  let once := (iput vnode v).2
  some (access_rc uid (once v).i_uid (vnode v).i_mode (mode &&& 7),{s with vnode := (iput once v).2})

/-! ### Descriptors -/
def fd_inode (pool : Nat -> File Nat) (task : FileTable.Task Nat) (i : Nat) : Option Nat :=
 (task.fp i).bind (fun f => (pool f).f_inode)
def file_open (s : State) (t : Nat) (file_name : Path) : Option (Int × State) :=
 match open_slot s.files t with
 | .error rc => some (rc,s)
 | .ok (i,f,files) =>
  match open_namei disk {s with files := files} t file_name with
  | none => none
  | some (.error _,vnode) =>
   (open_failed files t i f).map (fun files' => (-ENOENT,{s with files := files', vnode := vnode}))
  | some (.ok node,vnode) => some (i,{s with files := files.set_inode f (some node), vnode := vnode})
end
def sys_close (t : Nat) (fd : Int) : Option (Int × State) :=
 match do_close s.files t fd with
 | .error rc => some (rc,s)
 | .ok (f,files) =>
  match (files.FilePool f).f_inode with
  | none => none
  | some v => some (0,{s with files := files, vnode := (iput s.vnode v).2})
def dupfd (s : State) (t to_fd base_fd : Nat) : Option (Int × State) :=
 match FileTable.dupfd s.files t to_fd base_fd with
 | none => none
 | some (rc,files) =>
  if rc < 0 then some (rc,s)
  else some (rc,{s with files := files, vnode := dup_inode s.vnode (fd_inode files.FilePool (files.proc t) rc.toNat)})
def sys_dup (t fildes : Nat) : Option (Int × State) := dupfd s t fildes 0
def sys_dup2 (t oldfd from_fd : Nat) : Option (Int × State) :=
 if NR_FILES ≤ oldfd ∨ (s.files.proc t).fp oldfd = none ∨ 2 ^ 31 ≤ from_fd then none
 else
  let s' := match do_close s.files t from_fd with
   | .error _ => s
   | .ok (_,files) => {s with files := files}
  (dupfd s' t oldfd from_fd).map (fun r => (if r.1 < 0 then -1 else r.1,r.2))
def fork_inodes (vnode : Table) (pool : Nat -> File Nat) (dest : FileTable.Task Nat) : Table :=
 (List.range NR_FILES).foldl (fun vnode i => dup_inode vnode (fd_inode pool dest i))
  (dup_inode (dup_inode vnode dest.pwd) dest.root)
def fork (srcfd dstfd : Nat) : Option State :=
 if MAX_PROC ≤ srcfd ∨ MAX_PROC ≤ dstfd then none
 else some { s with
  files := fork_fds s.files srcfd dstfd
  vnode := fork_inodes s.vnode s.files.FilePool (s.files.proc srcfd) }

/-! ### Runs -/
inductive Action where
 | file_open (t : Nat) (disk : Disk) (file_name : Path)
 | sys_close (t : Nat) (fd : Int)
 | sys_dup (t fildes : Nat)
 | sys_dup2 (t oldfd from_fd : Nat)
 | sys_chdir (t : Nat) (disk : Disk) (new_path : Option Path)
 | do_access (t : Nat) (disk : Disk) (uid : Nat) (filename : Path) (mode : Nat)
 | fork (t srcfd dstfd : Nat)
def Action.current : Action -> Nat
 | .file_open t _ _ | .sys_close t _ | .sys_dup t _ | .sys_dup2 t _ _ | .sys_chdir t _ _ | .do_access t _ _ _ _
 | .fork t _ _ => t
def step (a : Action) : Option State :=
 if a.current < INIT_PROC ∨ MAX_PROC ≤ a.current then none
 else
  match a with
  | .file_open t disk file_name => (file_open disk s t file_name).map Prod.snd
  | .sys_close t fd => (sys_close s t fd).map Prod.snd
  | .sys_dup t fildes => (sys_dup s t fildes).map Prod.snd
  | .sys_dup2 t oldfd from_fd => (sys_dup2 s t oldfd from_fd).map Prod.snd
  | .sys_chdir t disk new_path => (sys_chdir disk s t new_path).map Prod.snd
  | .do_access t disk uid filename mode => (do_access disk s t uid filename mode).map Prod.snd
  | .fork _ srcfd dstfd => fork s srcfd dstfd

/-! ### References -/
def inodes (pool : Nat -> File Nat) (task : FileTable.Task Nat) : List Nat :=
 (List.range NR_FILES).filterMap (fd_inode pool task) ++ task.pwd.toList ++ task.root.toList
def held (files : Tables Nat) (v : Nat) : Nat :=
 ((List.range MAX_PROC).map (fun t => (inodes files.FilePool (files.proc t)).count v)).sum
def State.refs (v : Nat) : Nat := held s.files v + (s.mounts.filterMap Prod.snd).count v
def Balanced : Prop := ∀ v < NR_INODE, (s.vnode v).i_count = s.refs v

/-- No descriptor in front of the first is asked for. The code takes the words there for descriptors
  and raises the count of the inode for them. -/
def Action.Indexes : Action -> Prop
 | .sys_dup2 _ _ from_fd => from_fd < 2 ^ 31
 | _ => True

/-- The path is one of a directory. -/
def ToDirectory (disk : Disk) (s : State) (t : Nat) (new_path : Option Path) : Prop :=
 ∃ path ∈ new_path, ∃ v vnode, open_namei disk s t path = some (.ok v,vnode) ∧ S_ISDIR (vnode v).i_mode

/-- No `from_fd` is negative. Of the calls that return, no `sys_chdir` of a task with a directory
  has a path that leads to a directory, no `do_access` finds an inode that is referred to, no `sys_dup2` closes a descriptor, and a
  task is forked only into one without descriptors and directories. -/
def Kept (a : Action) : Prop :=
 a.Indexes ∧ ((step s a).isSome ->
  match a with
  | .sys_chdir t disk new_path => ToDirectory disk s t new_path -> (s.files.proc t).pwd = none
  | .do_access t disk _ filename _ => ∀ v vnode, open_namei disk s t filename = some (.ok v,vnode) -> s.refs v = 0
  | .sys_dup2 t _ from_fd => ∀ r, do_close s.files t from_fd ≠ .ok r
  | .fork _ _ dstfd => (∀ i < NR_FILES, (s.files.proc dstfd).fp i = none) ∧ (s.files.proc dstfd).pwd = none ∧
    (s.files.proc dstfd).root = none
  | _ => True)
end
structure WellFormed (s : State) : Prop where
 files : ∃ lost, Valid s.files lost
 opened : EachFile (fun f => (s.files.FilePool f).f_inode.isSome) s.files
 inside : ∀ v, s.refs v ≠ 0 -> v < NR_INODE
 mounts : s.mounts.length ≤ NR_SUPER

section
variable {files files' : Tables Nat} {task : FileTable.Task Nat} {pool : Nat -> File Nat} {s s' : State} {t i f v : Nat}
 {x : Option Nat} {disk : Disk} {vnode : Table}

/-! ### How the references change -/
lemma inodes_set_fp (pool : Nat -> File Nat) (task : FileTable.Task Nat) (x : Option Nat) (mem : i < NR_FILES) (v : Nat) :
 (inodes pool (task.set_fp i x)).count v + (fd_inode pool task i).toList.count v =
  (inodes pool task).count v + (x.bind (fun f => (pool f).f_inode)).toList.count v := by
 have rest : ∀ j ∈ List.range NR_FILES, j ≠ i -> fd_inode pool (task.set_fp i x) j = fd_inode pool task j := by
  intro j _ ne
  simp [fd_inode,Task.set_fp,ne]
 have eq := (filterMap_exchange nodup_range (mem_range.mpr mem) rest).count_eq v
 have own : fd_inode pool (task.set_fp i x) i = x.bind (fun f => (pool f).f_inode) := by simp [fd_inode,Task.set_fp]
 rw [own] at eq
 simp only [count_append] at eq
 have pwd : (task.set_fp i x).pwd = task.pwd := rfl
 have root : (task.set_fp i x).root = task.root := rfl
 simp only [inodes,count_append,pwd,root]
 omega

variable (files) in
lemma held_set_task (mem : t < MAX_PROC) (task : FileTable.Task Nat) (v : Nat) :
 held (files.set_task t task) v + (inodes files.FilePool (files.proc t)).count v =
  held files v + (inodes files.FilePool task).count v := by
 have rest : ∀ u ∈ List.range MAX_PROC, u ≠ t ->
   (inodes files.FilePool ((files.set_task t task).proc u)).count v = (inodes files.FilePool (files.proc u)).count v := by
  intro u _ ne
  simp [Tables.set_task,ne]
 have own : (inodes files.FilePool ((files.set_task t task).proc t)).count v = (inodes files.FilePool task).count v := by
  simp [Tables.set_task]
 have eq := sum_exchange List.nodup_range (List.mem_range.mpr mem) rest
 rw [own] at eq
 rw [held,held]
 exact eq

variable (files) in
lemma held_set_fp (mem : t < MAX_PROC) (slot : i < NR_FILES) (x : Option Nat) (v : Nat) :
 held (files.set_fp t i x) v + (fd_inode files.FilePool (files.proc t) i).toList.count v =
  held files v + (x.bind (fun f => (files.FilePool f).f_inode)).toList.count v := by
 have task := held_set_task files mem ((files.proc t).set_fp i x) v
 have desc := inodes_set_fp files.FilePool (files.proc t) x slot v
 rw [Tables.set_fp]
 omega
lemma held_congr (eq : files'.proc = files.proc)
 (kept : EachFile (fun f => (files'.FilePool f).f_inode = (files.FilePool f).f_inode) files) (v : Nat) :
 held files' v = held files v := by
 rw [held,held,eq]
 congr 1
 apply map_congr_left
 intro t mem
 have each : (List.range NR_FILES).filterMap (fd_inode files'.FilePool (files.proc t)) =
   (List.range NR_FILES).filterMap (fd_inode files.FilePool (files.proc t)) := by
  apply filterMap_congr
  intro i slot
  cases ref : (files.proc t).fp i with
  | none => simp [fd_inode,ref]
  | some f => simpa [fd_inode,ref] using kept t (mem_range.mp mem) i (mem_range.mp slot) f ref
 rw [inodes,inodes,each]
section
variable (files : Tables Nat)
lemma f_inode_set_count (f n g : Nat) :
 ((files.set_count f n).FilePool g).f_inode = (files.FilePool g).f_inode := by
 by_cases eq : g = f
 · subst eq
   simp [Tables.set_count]
 · simp [Tables.set_count,eq]
lemma f_inode_set_inode (f g : Nat) (node : Option Nat) :
 ((files.set_inode f node).FilePool g).f_inode = if g = f then node else (files.FilePool g).f_inode := by
 by_cases eq : g = f
 · subst eq
   simp [Tables.set_inode]
 · simp [Tables.set_inode,eq]
lemma held_set_count (f n v : Nat) : held (files.set_count f n) v = held files v := by
 apply held_congr
 · rfl
 intro _ _ _ _ g _
 exact f_inode_set_count files f n g
end
lemma held_set_inode (unused : files.refs f = 0) (node : Option Nat) (v : Nat) :
 held (files.set_inode f node) v = held files v := by
 apply held_congr
 · rfl
 intro t mem i slot g ref
 have ne : g ≠ f := by
  rintro rfl
  exact refs_eq_zero.mp unused t mem i slot ref
 rw [f_inode_set_inode,if_neg ne]

/-! ### Exchanges -/
lemma inodes_length (pool : Nat -> File Nat) (task : FileTable.Task Nat) : (inodes pool task).length ≤ NR_FILES + 2 := by
 have slots : ((List.range NR_FILES).filterMap (fd_inode pool task)).length ≤ NR_FILES := by
  simpa only [length_range] using length_filterMap_le (fd_inode pool task) (List.range NR_FILES)
 have pwd : task.pwd.toList.length ≤ 1 := length_toList_le
 have root : task.root.toList.length ≤ 1 := length_toList_le
 simp only [inodes,length_append]
 omega
lemma WellFormed.refs_le (wf : WellFormed s) (v : Nat) : s.refs v ≤ 6248 := by
 have tasks : held s.files v ≤ (List.range MAX_PROC).length * (NR_FILES + 2) := by
  rw [held]
  exact sum_le_of_each fun t _ => count_le_length.trans (inodes_length _ _)
 have roots : (s.mounts.filterMap Prod.snd).count v ≤ s.mounts.length :=
  count_le_length.trans (length_filterMap_le ..)
 have few := wf.mounts
 simp only [length_range,MAX_PROC,NR_FILES,NR_SUPER] at tasks few
 rw [State.refs]
 omega
lemma exchange (gone new : List Nat) (wf : WellFormed s) (balanced : Balanced s) (mounts : s'.mounts = s.mounts)
 (files : ∃ lost, Valid s'.files lost) (opened : EachFile (fun f => (s'.files.FilePool f).f_inode.isSome) s'.files)
 (inside : ∀ v ∈ new, v < NR_INODE) (refs : ∀ v, held s'.files v + gone.count v = held s.files v + new.count v)
 (counts : ∀ v, (s'.vnode v).i_count + gone.count v = (s.vnode v).i_count + new.count v) :
 WellFormed s' ∧ Balanced s' := by
 have total : ∀ v, s'.refs v + gone.count v = s.refs v + new.count v := by
  intro v
  have := refs v
  rw [State.refs,State.refs,mounts]
  omega
 refine ⟨⟨files,opened,?_,by rw [mounts]; exact wf.mounts⟩,?_⟩
 · intro v referred
   by_contra out
   have pre : s.refs v = 0 := by
    by_contra referred
    exact out (wf.inside v referred)
   have fresh : new.count v = 0 := count_eq_zero.mpr fun mem => out (inside v mem)
   have := total v
   omega
 intro v lt
 have := total v
 have := counts v
 have := balanced v lt
 omega
lemma look (wf : WellFormed s) (balanced : Balanced s) (adds : Adds s.vnode vnode []) :
 WellFormed {s with vnode := vnode} ∧ Balanced {s with vnode := vnode} :=
 exchange [] [] wf balanced rfl wf.files wf.opened (by simp) (fun _ => rfl)
  (fun v => by simpa using adds v)
lemma few (wf : WellFormed s) (balanced : Balanced s) : ∀ v < NR_INODE, (s.vnode v).i_count < 65000 := by
 intro v lt
 have := wf.refs_le v
 rw [balanced v lt]
 omega

/-! ### Path names -/
lemma mem_refs (lt : t < MAX_PROC) (mem : v ∈ inodes s.files.FilePool (s.files.proc t)) : s.refs v ≠ 0 := by
 intro none
 have tasks : held s.files v = 0 := by
  rw [State.refs] at none
  omega
 have each := sum_eq_zero_iff.mp tasks _ (mem_map.mpr ⟨t,mem_range.mpr lt,rfl⟩)
 exact count_eq_zero.mp each mem

variable {path : Path}
lemma root_inside (wf : WellFormed s) (current : t < MAX_PROC) {tmp pos : Nat}
 (hit : get_root_inode s t path = some (some tmp,pos)) : tmp < NR_INODE := by
 have pwd : (s.files.proc t).pwd = some tmp -> tmp < NR_INODE := fun eq =>
  wf.inside tmp (mem_refs current (by simp [inodes,eq]))
 have root : (s.files.proc t).root = some tmp -> tmp < NR_INODE := fun eq =>
  wf.inside tmp (mem_refs current (by simp [inodes,eq]))
 rw [get_root_inode] at hit
 split at hit
 · simp only at hit
   split at hit
   · cases hit
   cases mount : find_mount_list s.mounts (get_mount_dir path).1 with
   | none =>
    simp only [mount,some.injEq,Prod.mk.injEq] at hit
    exact root hit.1
   | some m_root =>
    simp only [mount] at hit
    split at hit
    · simp only [some.injEq,Prod.mk.injEq] at hit
      exact root hit.1
    simp only [some.injEq,Prod.mk.injEq] at hit
    obtain ⟨entry,listed,eq⟩ := map_eq_some_iff.mp mount
    refine wf.inside tmp ?_
    have mem : tmp ∈ s.mounts.filterMap Prod.snd :=
     mem_filterMap.mpr ⟨entry,mem_of_find?_eq_some listed,eq.trans hit.1⟩
    have := count_pos_iff.mpr mem
    rw [State.refs]
    omega
 simp only [some.injEq,Prod.mk.injEq] at hit
 exact pwd hit.1
lemma open_namei_adds (wf : WellFormed s) (balanced : Balanced s) (current : t < MAX_PROC)
 {result : Except Int Nat} (looked : open_namei disk s t path = some (result,vnode)) : LookedUp s.vnode vnode result := by
 rw [open_namei] at looked
 cases start : get_root_inode s t path with
 | none => simp [start] at looked
 | some r =>
  obtain ⟨tmp,pos⟩ := r
  cases tmp with
  | none =>
   simp only [start,some.injEq,Prod.mk.injEq] at looked
   obtain ⟨rfl,rfl⟩ := looked
   exact adds_refl s.vnode
  | some tmp =>
   simp only [start,some.injEq] at looked
   exact do_namei_adds (few wf balanced) (root_inside wf current start) looked

/-! ### Opening and closing -/
lemma held_open {lost : List Nat} (ok : Valid files lost) (current : t < MAX_PROC)
 (ran : open_slot files t = .ok (i,f,files')) (v : Nat) :
 (∀ node, held (files'.set_inode f (some node)) v = held files v + [node].count v) ∧
  held ((files'.set_fp t i none).set_inode f none) v = held files v := by
 obtain ⟨slot,nil,s1,entry,rfl⟩ := open_slot_spec ran
 obtain ⟨_,eq,_,unused,_⟩ := ok.counts.get_empty_filp entry
 have unused' : s1.refs f = 0 := by
  rw [Tables.refs,eq]
  exact unused
 have pre : ∀ node, held (s1.set_inode f node) v = held files v := by
  intro node
  rw [held_set_inode unused',get_empty_filp_spec entry,held_set_count,held_set_inode unused]
 have stored : ∀ node, held ((s1.set_inode f node).set_fp t i (some f)) v = held files v + node.toList.count v := by
  intro node
  have moved := held_set_fp (s1.set_inode f node) current slot (some f) v
  have none : fd_inode (s1.set_inode f node).FilePool ((s1.set_inode f node).proc t) i = none := by
   have : (s1.proc t).fp i = none := by rw [eq]; exact nil
   simp [fd_inode,Tables.set_inode,this]
  rw [none,pre] at moved
  simpa [f_inode_set_inode] using moved
 constructor
 · intro node
   exact stored (some node)
 have moved := held_set_fp ((s1.set_inode f none).set_fp t i (some f)) current slot none v
 have none : fd_inode (s1.set_inode f none).FilePool (((s1.set_inode f none).set_fp t i (some f)).proc t) i = none := by
  simp [fd_inode,Tables.set_inode,Tables.set_fp,Tables.set_task,Task.set_fp]
 change _ + (fd_inode (s1.set_inode f Option.none).FilePool _ i).toList.count v = _ at moved
 rw [none,stored] at moved
 have order : ((s1.set_fp t i (some f)).set_fp t i Option.none).set_inode f Option.none =
   ((s1.set_inode f Option.none).set_fp t i (some f)).set_fp t i Option.none := rfl
 rw [order]
 simpa using moved
lemma open_namei_congr (eq : s'.vnode = s.vnode) (mounts : s'.mounts = s.mounts)
 (pwd : (s'.files.proc t).pwd = (s.files.proc t).pwd) (root : (s'.files.proc t).root = (s.files.proc t).root) :
 open_namei disk s' t path = open_namei disk s t path := by
 simp only [open_namei,get_root_inode,eq,mounts,pwd,root]

variable {rc : Int}
lemma file_open_sound {file_name : Path} (wf : WellFormed s) (balanced : Balanced s) (current : t < MAX_PROC)
 (ran : file_open disk s t file_name = some (rc,s')) : WellFormed s' ∧ Balanced s' := by
 rw [file_open] at ran
 cases opening : open_slot s.files t with
 | error rc' =>
  simp only [opening,some.injEq,Prod.mk.injEq] at ran
  exact ran.2 ▸ ⟨wf,balanced⟩
 | ok r =>
  obtain ⟨i,f,files⟩ := r
  simp only [opening] at ran
  obtain ⟨lost,valid⟩ := wf.files
  obtain ⟨valid',slot,_,ref,new⟩ := valid.open_slot current opening
  have refs := held_open valid current opening
  obtain ⟨_,nil,s1,entry,eq⟩ := open_slot_spec opening
  obtain ⟨_,tables,_,unused,_⟩ := valid.counts.get_empty_filp entry
  have walked : open_namei disk {s with files := files} t file_name = open_namei disk s t file_name := by
   have task : (files.proc t).pwd = (s.files.proc t).pwd ∧ (files.proc t).root = (s.files.proc t).root := by
    simp [eq,Tables.set_fp,Tables.set_task,Task.set_fp,tables]
   apply open_namei_congr
   · rfl
   · rfl
   · exact task.1
   · exact task.2
  rw [walked] at ran
  -- The files that were open before are rest than the one that has been ran.
  have rest : ∀ node, EachFile (fun g => ((files.set_inode f node).FilePool g).f_inode.isSome) s.files := by
   intro node u task j slot' g ref'
   have ne : g ≠ f := by
    rintro rfl
    exact refs_eq_zero.mp unused u task j slot' ref'
   rw [f_inode_set_inode,if_neg ne,eq,get_empty_filp_spec entry]
   change ((((s.files.set_inode f none).set_count f 1).FilePool g).f_inode).isSome
   rw [f_inode_set_count,f_inode_set_inode,if_neg ne]
   exact wf.opened u task j slot' g ref'
  cases hit : open_namei disk s t file_name with
  | none => simp [hit] at ran
  | some r =>
   obtain ⟨res,vnode⟩ := r
   have adds := open_namei_adds wf balanced current hit
   cases res with
   | error rc' =>
    simp only [hit,open_failed_eq slot,map_some,some.injEq,Prod.mk.injEq] at ran
    obtain ⟨_,rfl⟩ := ran
    refine exchange [] [] wf balanced rfl ⟨_,valid'.open_failed current slot ref new⟩ ?_ (by simp)
     (fun v => by simpa using (refs v).2) (fun v => by simpa using adds v)
    refine EachFile.of_proc (s := s1.set_fp t i none) (EachFile.set_fp ((rest none).of_proc tables) (by simp) t i) ?_
    simp [eq,Tables.set_fp,Tables.set_task,Task.set_fp,Tables.set_inode]
   | ok node =>
    simp only [hit,some.injEq,Prod.mk.injEq] at ran
    obtain ⟨_,rfl⟩ := ran
    obtain ⟨inside,adds⟩ := adds
    refine exchange [] [node] wf balanced rfl ⟨_,valid'.set_inode f (some node)⟩ ?_ ?_
     (fun v => by simpa using (refs v).1 node) (fun v => by simpa using adds v)
    · have stored : EachFile _ (s1.set_fp t i (some f)) := EachFile.set_fp ((rest (some node)).of_proc tables)
       (by rintro g ⟨⟩; simp [f_inode_set_inode]) t i
      exact stored.of_proc (by rw [eq]; rfl)
    intro v mem
    rw [mem_singleton.mp mem]
    exact inside

variable {fd : Int}
lemma held_close (current : t < MAX_PROC) (shut : do_close files t fd = .ok (f,files')) (v : Nat) :
 held files' v + (files.FilePool f).f_inode.toList.count v = held files v := by
 obtain ⟨slot,ref,rfl⟩ := do_close_spec shut
 have moved := held_set_fp (files.set_count f ((files.FilePool f).f_count - 1)) current slot none v
 have own : fd_inode (files.set_count f ((files.FilePool f).f_count - 1)).FilePool (files.proc t) fd.toNat =
   (files.FilePool f).f_inode := by
  simp [fd_inode,ref,f_inode_set_count]
 change _ + (fd_inode _ (files.proc t) fd.toNat).toList.count v = _ at moved
 rw [own,held_set_count] at moved
 simpa using moved
lemma opened_close (shut : do_close files t fd = .ok (f,files'))
 (opened : EachFile (fun g => (files.FilePool g).f_inode.isSome) files) :
 EachFile (fun g => (files'.FilePool g).f_inode.isSome) files' := by
 obtain ⟨_,_,rfl⟩ := do_close_spec shut
 refine EachFile.set_fp (s := files.set_count f ((files.FilePool f).f_count - 1)) (x := none) ?_ (by simp) t fd.toNat
 intro u task j slot g ref
 change (((files.set_count f ((files.FilePool f).f_count - 1)).FilePool g).f_inode).isSome
 rw [f_inode_set_count]
 exact opened u task j slot g ref
lemma f_inode_close (shut : do_close files t fd = .ok (f,files')) (g : Nat) :
 (files'.FilePool g).f_inode = (files.FilePool g).f_inode := by
 obtain ⟨_,_,rfl⟩ := do_close_spec shut
 exact f_inode_set_count files f _ g
lemma mem_inodes (slot : i < NR_FILES) (ref : task.fp i = some f) (node : (pool f).f_inode = some v) :
 v ∈ inodes pool task := by
 refine mem_append_left _ (mem_append_left _ (mem_filterMap.mpr ⟨i,mem_range.mpr slot,?_⟩))
 simp [fd_inode,ref,node]
lemma sys_close_sound (wf : WellFormed s) (balanced : Balanced s) (current : t < MAX_PROC)
 (ran : sys_close s t fd = some (rc,s')) : WellFormed s' ∧ Balanced s' := by
 rw [sys_close] at ran
 cases shut : do_close s.files t fd with
 | error rc' =>
  simp only [shut,some.injEq,Prod.mk.injEq] at ran
  exact ran.2 ▸ ⟨wf,balanced⟩
 | ok r =>
  obtain ⟨f,files⟩ := r
  obtain ⟨lost,valid⟩ := wf.files
  obtain ⟨slot,ref,_⟩ := do_close_spec shut
  simp only [shut,f_inode_close shut] at ran
  cases node : (s.files.FilePool f).f_inode with
  | none => simp [node] at ran
  | some v =>
   simp only [node,some.injEq,Prod.mk.injEq] at ran
   obtain ⟨_,rfl⟩ := ran
   have referred := mem_refs current (mem_inodes slot ref node)
   have counted := balanced v (wf.inside v referred)
   refine exchange [v] [] wf balanced rfl ⟨lost,valid.do_close current shut⟩
    (opened_close shut wf.opened) (by simp) ?_ ?_
   · intro w
     simpa [node] using held_close current shut w
   intro w
   change ((iput s.vnode v).2 w).i_count + _ = _
   rw [i_count_iput]
   by_cases eq : w = v
   · subst eq
     simp
     omega
   · simp [eq,Ne.symm eq]

/-! ### Duplicates -/
lemma dupfd_moves {to_fd base_fd : Nat} (current : t < MAX_PROC) (ok : ∃ lost, Valid s.files lost)
 (opened : EachFile (fun f => (s.files.FilePool f).f_inode.isSome) s.files)
 (mem : ∀ v ∈ inodes s.files.FilePool (s.files.proc t), v < NR_INODE)
 (few : ∀ v < NR_INODE, (s.vnode v).i_count < 65000) (ran : dupfd s t to_fd base_fd = some (rc,s')) :
 s'.mounts = s.mounts ∧ (∃ lost, Valid s'.files lost) ∧
  EachFile (fun f => (s'.files.FilePool f).f_inode.isSome) s'.files ∧
  ∃ new : List Nat, (∀ v ∈ new, v < NR_INODE) ∧ (∀ v, held s'.files v = held s.files v + new.count v) ∧
   Adds s.vnode s'.vnode new := by
 rw [dupfd] at ran
 cases copied : FileTable.dupfd s.files t to_fd base_fd with
 | none => simp [copied] at ran
 | some r =>
  obtain ⟨rc',files⟩ := r
  simp only [copied] at ran
  rcases dupfd_cases copied with ⟨refused,rfl⟩ | ⟨i,f,rfl,slot,slot',nil,ref,rfl⟩
  · rw [if_pos refused] at ran
    cases ran
    exact ⟨rfl,ok,opened,[],by simp,by simp,adds_refl s.vnode⟩
  rw [if_neg (by omega)] at ran
  cases ran
  obtain ⟨lost,ok⟩ := ok
  obtain ⟨v,node⟩ := isSome_iff_exists.mp (opened t current to_fd slot' f ref)
  have lt := mem v (mem_inodes slot' ref node)
  have eq : fd_inode ((s.files.set_fp t i (some f)).incr f).FilePool (((s.files.set_fp t i (some f)).incr f).proc t) i =
    some v := by
   have stored : (((s.files.set_fp t i (some f)).incr f).proc t).fp i = some f := by
    simp [Tables.incr,Tables.set_count,Tables.set_fp,Tables.set_task,Task.set_fp]
   rw [fd_inode,stored,bind_some,Tables.incr,f_inode_set_count]
   exact node
  refine ⟨rfl,⟨lost,ok.dupfd current copied⟩,?_,[v],by simpa using lt,?_,?_⟩
  · have kept : EachFile (fun g => (((s.files.set_fp t i (some f)).incr f).FilePool g).f_inode.isSome)
      (s.files.set_fp t i (some f)) := by
     refine EachFile.set_fp ?_ ?_ t i
     · intro u task j slot'' g ref'
       rw [Tables.incr,f_inode_set_count]
       exact opened u task j slot'' g ref'
     rintro g ⟨⟩
     rw [Tables.incr,f_inode_set_count]
     exact opened t current to_fd slot' f ref
    exact kept.of_proc rfl
  · intro w
    have moved := held_set_fp s.files current slot (some f) w
    have none : fd_inode s.files.FilePool (s.files.proc t) i = none := by simp [fd_inode,nil]
    rw [none] at moved
    rw [Tables.incr,held_set_count]
    simpa [node] using moved
  have room := few v lt
  have adds := (adds_refl s.vnode).dup_inode (v := v) (by omega)
  rw [Int.toNat_natCast,eq]
  exact adds

section
variable (wf : WellFormed s) (balanced : Balanced s) (current : t < MAX_PROC)
include wf balanced current
lemma dupfd_sound {to_fd base_fd : Nat}
 (ran : dupfd s t to_fd base_fd = some (rc,s')) : WellFormed s' ∧ Balanced s' := by
 obtain ⟨mounts,ok,opened,new,inside,refs,adds⟩ := dupfd_moves current wf.files wf.opened
  (fun v mem => wf.inside v (mem_refs current mem)) (few wf balanced) ran
 exact exchange [] _ wf balanced mounts ok opened inside (fun v => by simpa using refs v)
  (fun v => by simpa using adds v)
lemma sys_dup2_sound {oldfd from_fd : Nat}
 (closed : ∀ r, do_close s.files t from_fd ≠ .ok r) (ran : sys_dup2 s t oldfd from_fd = some (rc,s')) :
 WellFormed s' ∧ Balanced s' := by
 rw [sys_dup2] at ran
 obtain ⟨_,ran⟩ := ite_none_left_eq_some.mp ran
 obtain ⟨⟨rc',s''⟩,copied,eq⟩ := map_eq_some_iff.mp ran
 cases eq
 cases shut : do_close s.files t from_fd with
 | error _ =>
  rw [shut] at copied
  exact dupfd_sound wf balanced current copied
 | ok r => exact absurd shut (closed r)
lemma sys_dup2_broken {oldfd from_fd : Nat} {r : Nat × Tables Nat}
 (shut : do_close s.files t from_fd = .ok r)
 (ran : sys_dup2 s t oldfd from_fd = some (rc,s')) : ¬ Balanced s' := by
 obtain ⟨f,files⟩ := r
 rw [sys_dup2] at ran
 obtain ⟨_,ran⟩ := ite_none_left_eq_some.mp ran
 obtain ⟨⟨rc',s''⟩,copied,eq⟩ := map_eq_some_iff.mp ran
 cases eq
 rw [shut] at copied
 obtain ⟨lost,ok⟩ := wf.files
 obtain ⟨slot,ref,eq⟩ := do_close_spec shut
 obtain ⟨v,node⟩ := isSome_iff_exists.mp (wf.opened t current _ slot f ref)
 have closed : ∀ w, held files w + [v].count w = held s.files w := by
  intro w
  simpa [node] using held_close current shut w
 have inside : ∀ w ∈ inodes files.FilePool (files.proc t), w < NR_INODE := by
  intro w mem
  have referred : State.refs {s with files := files} w ≠ 0 := mem_refs current mem
  refine wf.inside w ?_
  have := closed w
  simp only [State.refs] at referred ⊢
  omega
 have room := few wf balanced
 obtain ⟨mounts,_,_,new,_,refs,adds⟩ := dupfd_moves (s := {s with files := files}) current
  ⟨lost,ok.do_close current shut⟩ (opened_close shut wf.opened) inside room copied
 intro after
 -- The new reference is counted, the one that was closed still is.
 have lt := wf.inside v (mem_refs current (mem_inodes slot ref node))
 have now := after v lt
 have pre := balanced v lt
 have gone := closed v
 simp only [count_singleton_self] at gone
 have count := adds v
 have eq := refs v
 simp only at now count eq mounts
 rw [State.refs,mounts] at now
 rw [State.refs] at pre
 omega

end

/-! ### Directories and access -/
lemma held_set_pwd (current : t < MAX_PROC) (c v : Nat) :
 held (s.set_pwd t c).files v + (s.files.proc t).pwd.toList.count v = held s.files v + [c].count v := by
 have moved := held_set_task s.files current {s.files.proc t with pwd := some c} v
 have task : (inodes s.files.FilePool {s.files.proc t with pwd := some c}).count v + (s.files.proc t).pwd.toList.count v =
   (inodes s.files.FilePool (s.files.proc t)).count v + [c].count v := by
  have slots : (List.range NR_FILES).filterMap (fd_inode s.files.FilePool {s.files.proc t with pwd := some c}) =
    (List.range NR_FILES).filterMap (fd_inode s.files.FilePool (s.files.proc t)) := rfl
  rw [inodes,inodes,slots]
  simp only [count_append,toList_some]
  omega
 have files : (s.set_pwd t c).files = s.files.set_task t {s.files.proc t with pwd := some c} := rfl
 rw [files]
 omega

variable {new_path : Option Path}
lemma iget_self (disk : Disk) (vnode : Table) (inside : v < NR_INODE) : ∃ r, iget disk vnode (vnode v).i_dev (vnode v).i_number = some r := by
 cases known : ifind vnode (vnode v).i_dev (vnode v).i_number with
 | some u => exact ⟨(u,dup_inode vnode (some u)),by simp only [Inodes.iget,known]⟩
 | none => exact absurd (find?_eq_none.mp known v (mem_range.mpr inside)) (by simp)

section
variable (wf : WellFormed s) (balanced : Balanced s) (current : t < MAX_PROC)
include wf balanced current
lemma sys_chdir_cases
  (ran : sys_chdir disk s t new_path = some (rc,s')) :
  (¬ ToDirectory disk s t new_path ∧ ∃ vnode, Adds s.vnode vnode [] ∧ s' = {s with vnode := vnode}) ∨
   ToDirectory disk s t new_path ∧ ∃ c vnode, c < NR_INODE ∧ Adds s.vnode vnode [c] ∧
    s' = {s.set_pwd t c with vnode := vnode} := by
 cases new_path with
 | none =>
  cases ran
  exact .inl ⟨by simp [ToDirectory],s.vnode,adds_refl s.vnode,rfl⟩
 | some path =>
  simp only [sys_chdir] at ran
  cases hit : open_namei disk s t path with
  | none => simp [hit] at ran
  | some r =>
   obtain ⟨res,vnode⟩ := r
   have looked := open_namei_adds wf balanced current hit
   cases res with
   | error rc' =>
    simp only [hit] at ran
    cases ran
    exact .inl ⟨by simp [ToDirectory,hit],vnode,looked,rfl⟩
   | ok v =>
    obtain ⟨mem,adds⟩ := looked
    simp only [hit] at ran
    split_ifs at ran with dir
    · obtain ⟨⟨c,vnode'⟩,again⟩ := iget_self disk vnode mem
      simp only [again] at ran
      cases ran
      have room : ∀ w < NR_INODE, (vnode w).i_count < 65535 := by
       intro w lt
       have := few wf balanced w lt
       have one : [v].count w ≤ 1 := count_le_length
       rw [adds w]
       omega
      obtain ⟨in',adds'⟩ := adds.iget room again
      have swapped : Adds s.vnode vnode' [v,c] := by
       intro w
       rw [adds' w]
       simp only [count_cons]
       omega
      exact .inr ⟨⟨path,rfl,v,vnode,hit,dir⟩,c,_,in',swapped.iput,rfl⟩
    cases ran
    exact .inl ⟨by simp [ToDirectory,hit,dir],_,adds.iput,rfl⟩
lemma sys_chdir_sound
 (kept : ToDirectory disk s t new_path -> (s.files.proc t).pwd = none)
 (ran : sys_chdir disk s t new_path = some (rc,s')) : WellFormed s' ∧ Balanced s' := by
 rcases sys_chdir_cases wf balanced current ran with ⟨_,vnode,adds,rfl⟩ | ⟨leads,c,vnode,mem,adds,rfl⟩
 · exact look wf balanced adds
 have nil := kept leads
 obtain ⟨lost,ok⟩ := wf.files
 refine exchange [] [c] wf balanced rfl ⟨lost,ok.set_dirs current (some c) _⟩ ?_
  (by simpa using mem) ?_ (fun v => by simpa using adds v)
 · apply EachFile.set_task wf.opened current
   rfl
 intro v
 have moved := held_set_pwd (s := s) current c v
 rw [nil] at moved
 simpa using moved
lemma sys_chdir_broken (leads : ToDirectory disk s t new_path)
 (ran : sys_chdir disk s t new_path = some (rc,s')) (dir : (s.files.proc t).pwd ≠ none) : ¬ Balanced s' := by
 rcases sys_chdir_cases wf balanced current ran with ⟨failed,_⟩ | ⟨_,c,vnode,_,adds,rfl⟩
 · exact absurd leads failed
 intro after
 obtain ⟨v,old⟩ := ne_none_iff_exists'.mp dir
 have lt := wf.inside v (mem_refs current (by simp [inodes,old]))
 have moved := held_set_pwd (s := s) current c v
 rw [old,toList_some,count_singleton_self] at moved
 have now : (vnode v).i_count = held (s.set_pwd t c).files v + (s.mounts.filterMap Prod.snd).count v := after v lt
 have pre := balanced v lt
 rw [State.refs] at pre
 rw [adds v] at now
 omega

end

variable {mode uid : Nat} {filename : Path}

section
variable (wf : WellFormed s) (balanced : Balanced s) (current : t < MAX_PROC)
include wf balanced current
lemma do_access_cases
  (ran : do_access disk s t uid filename mode = some (rc,s')) :
  ∃ vnode, s' = {s with vnode := vnode} ∧
   (Adds s.vnode vnode [] ∧ (∀ v vnode', open_namei disk s t filename ≠ some (.ok v,vnode')) ∨
    ∃ v vnode', open_namei disk s t filename = some (.ok v,vnode') ∧ v < NR_INODE ∧
     ∀ w, (vnode w).i_count = if w = v then (s.vnode v).i_count - 1 else (s.vnode w).i_count) := by
 rw [do_access] at ran
 cases hit : open_namei disk s t filename with
 | none => simp [hit] at ran
 | some r =>
  obtain ⟨res,vnode⟩ := r
  have looked := open_namei_adds wf balanced current hit
  cases res with
  | error rc' =>
   simp only [hit] at ran
   cases ran
   exact ⟨vnode,rfl,.inl ⟨looked,by simp⟩⟩
  | ok v =>
   obtain ⟨mem,adds⟩ := looked
   simp only [hit] at ran
   cases ran
   refine ⟨_,rfl,.inr ⟨v,vnode,rfl,mem,fun w => ?_⟩⟩
   have once : ∀ w, ((iput vnode v).2 w).i_count = (s.vnode w).i_count := fun w => by simpa using adds.iput w
   rw [i_count_iput,once,once]
lemma do_access_sound
 (kept : ∀ v vnode, open_namei disk s t filename = some (.ok v,vnode) -> s.refs v = 0)
 (ran : do_access disk s t uid filename mode = some (rc,s')) : WellFormed s' ∧ Balanced s' := by
 obtain ⟨vnode,rfl,⟨adds,_⟩ | ⟨v,vnode',hit,mem,counts⟩⟩ := do_access_cases wf balanced current ran
 · exact look wf balanced adds
 have none : (s.vnode v).i_count = 0 := by
  rw [balanced v mem]
  exact kept v vnode' hit
 refine look wf balanced fun w => ?_
 rw [counts w]
 by_cases eq : w = v
 · subst eq
   simp [none]
 · simp [eq]
lemma do_access_broken {v : Nat}
 (hit : open_namei disk s t filename = some (.ok v,vnode)) (referred : s.refs v ≠ 0)
 (ran : do_access disk s t uid filename mode = some (rc,s')) : ¬ Balanced s' := by
 obtain ⟨vnode1,rfl,⟨_,missing⟩ | ⟨w,vnode2,hit',mem,counts⟩⟩ := do_access_cases wf balanced current ran
 · exact absurd hit (missing v vnode)
 rw [hit] at hit'
 cases hit'
 intro after
 have now : (vnode1 v).i_count = s.refs v := after v mem
 have pre := balanced v mem
 have count := counts v
 rw [if_pos rfl] at count
 omega

end

/-! ### Fork -/
lemma dup_option_adds {vnode' : Table} {ys : List Nat} (mem : ∀ v ∈ x, v < NR_INODE)
 (few : ∀ v < NR_INODE, (vnode v).i_count < 65000) (le : ys.length < 500) (adds : Adds vnode vnode' ys) :
 Adds vnode (dup_inode vnode' x) (x.toList ++ ys) := by
 cases x with
 | none => exact adds
 | some v =>
  have room := few v (mem v rfl)
  have counted : ys.count v ≤ ys.length := count_le_length
  exact adds.dup_inode (by rw [adds v]; omega)
lemma dup_inodes_adds (l : List Nat) (node : Nat -> Option Nat) : ∀ {vnode' : Table} {ys : List Nat},
 (∀ i ∈ l, ∀ v ∈ node i, v < NR_INODE) -> (∀ v < NR_INODE, (vnode v).i_count < 65000) -> ys.length + l.length < 500 ->
 Adds vnode vnode' ys -> Adds vnode (l.foldl (fun vnode i => dup_inode vnode (node i)) vnode') (l.filterMap node ++ ys) := by
 induction l with
 | nil =>
  intro vnode' ys _ _ _ adds
  exact adds
 | cons i rest ih =>
  intro vnode' ys inside few le adds
  rw [length_cons] at le
  have fst := dup_option_adds (inside i (by simp)) few (by omega) adds
  have one : (node i).toList.length ≤ 1 := length_toList_le
  have later := ih (fun j mem => inside j (by simp [mem])) few (by simp only [length_append]; omega) fst
  intro v
  rw [foldl_cons,later v]
  cases ref : node i with
  | none => simp [filterMap_cons_none ref]
  | some w =>
   rw [filterMap_cons_some ref]
   simp only [toList_some,count_append,count_cons,count_nil]
   omega
lemma fork_inodes_adds (lt : ∀ v ∈ inodes pool task, v < NR_INODE) (few : ∀ v < NR_INODE, (vnode v).i_count < 65000) :
 Adds vnode (fork_inodes vnode pool task) (inodes pool task) := by
 have pwd := dup_option_adds (x := task.pwd) (fun v mem => lt v (by simp_all [inodes])) few (by simp) (adds_refl vnode)
 have one : task.pwd.toList.length ≤ 1 := length_toList_le
 have root := dup_option_adds (x := task.root) (fun v mem => lt v (by simp_all [inodes])) few
  (by simp only [length_append,length_nil]; omega) pwd
 have one' : task.root.toList.length ≤ 1 := length_toList_le
 have slots := dup_inodes_adds (List.range NR_FILES) (fd_inode pool task) (fun i slot v mem => lt v (by
  exact mem_append_left _ (mem_append_left _ (mem_filterMap.mpr ⟨i,slot,mem⟩)))) few
  (by simp only [length_append,length_nil,length_range,NR_FILES]; omega) root
 intro v
 rw [fork_inodes,slots v]
 simp only [inodes,count_append,count_nil]
 omega
lemma fork_fds_inode (files : Tables Nat) (srcfd dstfd f : Nat) :
 ((fork_fds files srcfd dstfd).FilePool f).f_inode = (files.FilePool f).f_inode := by
 have loop : ∀ (l : List Nat) (dest : FileTable.Task Nat) (files : Tables Nat),
   ((l.foldl (fork_fd dest) files).FilePool f).f_inode = (files.FilePool f).f_inode := by
  intro l dest
  induction l with
  | nil => intro _; rfl
  | cons i rest ih =>
   intro files
   rw [foldl_cons,ih,fork_fd]
   split
   · exact f_inode_set_count ..
   · rfl
 exact loop _ _ _

variable {dstfd srcfd : Nat}

section
variable (wf : WellFormed s)
include wf
lemma fork_moves (balanced : Balanced s) (src : srcfd < MAX_PROC)
 (dst : dstfd < MAX_PROC) (forked : fork s srcfd dstfd = some s') :
 s'.mounts = s.mounts ∧ s'.files = fork_fds s.files srcfd dstfd ∧
  (∀ v, held s'.files v + (inodes s.files.FilePool (s.files.proc dstfd)).count v =
   held s.files v + (inodes s.files.FilePool (s.files.proc srcfd)).count v) ∧
  Adds s.vnode s'.vnode (inodes s.files.FilePool (s.files.proc srcfd)) := by
 obtain ⟨_,forked⟩ := ite_none_left_eq_some.mp forked
 cases forked
 refine ⟨rfl,rfl,fun v => ?_,?_⟩
 · have moved := held_set_task s.files dst (s.files.proc srcfd) v
   have eq : held (fork_fds s.files srcfd dstfd) v = held (s.files.set_task dstfd (s.files.proc srcfd)) v := by
    apply held_congr
    · exact fork_fds_proc s.files srcfd dstfd
    intro _ _ _ _ f _
    exact fork_fds_inode s.files srcfd dstfd f
   rw [eq]
   exact moved
 · exact fork_inodes_adds (fun v mem => wf.inside v (mem_refs src mem)) (few wf balanced)
lemma fork_sound (balanced : Balanced s)
 (nil : ∀ i < NR_FILES, (s.files.proc dstfd).fp i = none) (pwd : (s.files.proc dstfd).pwd = none)
 (root : (s.files.proc dstfd).root = none) (forked : fork s srcfd dstfd = some s') : WellFormed s' ∧ Balanced s' := by
 obtain ⟨range,_⟩ := ite_none_left_eq_some.mp forked
 have src : srcfd < MAX_PROC := by omega
 have dst : dstfd < MAX_PROC := by omega
 obtain ⟨mounts,files,refs,adds⟩ := fork_moves wf balanced src dst forked
 obtain ⟨lost,ok⟩ := wf.files
 have none : inodes s.files.FilePool (s.files.proc dstfd) = [] := by
  have slots : (List.range NR_FILES).filterMap (fd_inode s.files.FilePool (s.files.proc dstfd)) = [] := by
   rw [filterMap_eq_nil_iff]
   intro i slot
   simp [fd_inode,nil i (mem_range.mp slot)]
  simp [inodes,slots,pwd,root]
 refine exchange [] _ wf balanced mounts ⟨lost,files ▸ ok.fork_fds src dst nil⟩ ?_
  (fun v mem => wf.inside v (mem_refs src mem)) ?_ (fun v => by simpa using adds v)
 · have kept : EachFile (fun f => (s'.files.FilePool f).f_inode.isSome) s.files := by
    intro t inside i slot f ref
    rw [files,fork_fds_inode]
    exact wf.opened t inside i slot f ref
   exact (kept.set_task src rfl dstfd).of_proc (by rw [files,fork_fds_proc])
 intro v
 have := refs v
 rw [none] at this
 exact this
lemma fork_broken (balanced : Balanced s) (forked : fork s srcfd dstfd = some s')
 (used : inodes s.files.FilePool (s.files.proc dstfd) ≠ []) : ¬ Balanced s' := by
 obtain ⟨range,_⟩ := ite_none_left_eq_some.mp forked
 have dst : dstfd < MAX_PROC := by omega
 obtain ⟨mounts,_,refs,adds⟩ := fork_moves wf balanced (by omega) dst forked
 obtain ⟨v,mem⟩ := exists_mem_of_ne_nil _ used
 intro after
 have lt := wf.inside v (mem_refs dst mem)
 have now := after v lt
 have pre := balanced v lt
 have moved := refs v
 have pos := count_pos_iff.mpr mem
 rw [adds v,State.refs,mounts] at now
 rw [State.refs] at pre
 omega

/-! ### The result -/
lemma inodes_ne_nil (mem : t < MAX_PROC)
 (used : ¬ ((∀ i < NR_FILES, (s.files.proc t).fp i = none) ∧ (s.files.proc t).pwd = none ∧ (s.files.proc t).root = none)) :
 inodes s.files.FilePool (s.files.proc t) ≠ [] := by
 intro none
 simp only [inodes,append_eq_nil_iff,toList_eq_nil_iff,filterMap_eq_nil_iff,mem_range] at none
 obtain ⟨⟨slots,pwd⟩,root⟩ := none
 refine used ⟨fun i slot => ?_,pwd,root⟩
 by_contra ref
 obtain ⟨f,ref⟩ := ne_none_iff_exists'.mp ref
 obtain ⟨v,node⟩ := isSome_iff_exists.mp (wf.opened t mem i slot f ref)
 have := slots i slot
 simp [fd_inode,ref,node] at this
end
lemma step_sound (a : Action) (wf : WellFormed s) (balanced : Balanced s) (kept : Kept s a) (ran : step s a = some s') :
 WellFormed s' ∧ Balanced s' := by
 have kept := kept.2 (by simp [ran])
 obtain ⟨range,ran⟩ := ite_none_left_eq_some.mp ran
 have current : a.current < MAX_PROC := by omega
 cases a with
 | file_open t disk file_name =>
  obtain ⟨⟨rc,s''⟩,called,rfl⟩ := map_eq_some_iff.mp ran
  exact file_open_sound wf balanced current called
 | sys_close t fd =>
  obtain ⟨⟨rc,s''⟩,called,rfl⟩ := map_eq_some_iff.mp ran
  exact sys_close_sound wf balanced current called
 | sys_dup t fildes =>
  obtain ⟨⟨rc,s''⟩,called,rfl⟩ := map_eq_some_iff.mp ran
  exact dupfd_sound wf balanced current called
 | sys_dup2 t oldfd from_fd =>
  obtain ⟨⟨rc,s''⟩,called,rfl⟩ := map_eq_some_iff.mp ran
  exact sys_dup2_sound wf balanced current kept called
 | sys_chdir t disk new_path =>
  obtain ⟨⟨rc,s''⟩,called,rfl⟩ := map_eq_some_iff.mp ran
  exact sys_chdir_sound wf balanced current kept called
 | do_access t disk uid filename mode =>
  obtain ⟨⟨rc,s''⟩,called,rfl⟩ := map_eq_some_iff.mp ran
  exact do_access_sound wf balanced current kept called
 | fork t srcfd dstfd => exact fork_sound wf balanced kept.1 kept.2.1 kept.2.2 ran
lemma step_broken (a : Action) (wf : WellFormed s) (balanced : Balanced s) (out : ¬ Kept s a)
 (indexes : a.Indexes) : ∃ s', step s a = some s' ∧ ¬ Balanced s' := by
 obtain ⟨able,out⟩ := Classical.not_imp.mp (fun kept => out ⟨indexes,kept⟩)
 obtain ⟨s0,ret⟩ := isSome_iff_exists.mp able
 refine ⟨s0,ret,?_⟩
 obtain ⟨range,ran⟩ := ite_none_left_eq_some.mp ret
 have current : a.current < MAX_PROC := by omega
 cases a with
 | file_open t disk file_name => exact absurd trivial out
 | sys_close t fd => exact absurd trivial out
 | sys_dup t fildes => exact absurd trivial out
 | sys_dup2 t oldfd from_fd =>
  obtain ⟨⟨rc,s''⟩,called,rfl⟩ := map_eq_some_iff.mp ran
  obtain ⟨r,shut⟩ := Classical.not_forall.mp out
  exact sys_dup2_broken wf balanced current (Classical.not_not.mp shut) called
 | sys_chdir t disk new_path =>
  obtain ⟨⟨rc,s''⟩,called,rfl⟩ := map_eq_some_iff.mp ran
  obtain ⟨leads,dir⟩ := Classical.not_imp.mp out
  exact sys_chdir_broken wf balanced current leads called dir
 | do_access t disk uid filename mode =>
  obtain ⟨⟨rc,s''⟩,called,rfl⟩ := map_eq_some_iff.mp ran
  obtain ⟨v,out⟩ := Classical.not_forall.mp out
  obtain ⟨vnode,out⟩ := Classical.not_forall.mp out
  obtain ⟨hit,referred⟩ := Classical.not_imp.mp out
  exact do_access_broken wf balanced current hit referred called
 | fork t srcfd dstfd =>
  obtain ⟨range',_⟩ := ite_none_left_eq_some.mp ran
  exact fork_broken wf balanced ran (inodes_ne_nil wf (by omega) out)
end
end Netbas.InodeCounts
