import Netbas.InodeCounts

/-!
Mounting (`drv/fs/vfs/devops.c`, `fs_server.c`). What the device and the file system answer is given
with the call. `mount_atomic_iff`: a call is undone only when it is refused at once.
-/
namespace Netbas.Mounts
open Inodes InodeCounts Option
def NO_MAGIC : Nat := 0
def PROC_MAGIC : Nat := 0x50524f43

/-- `mount_t` -/
structure Super where
 m_dev : Nat
 m_magic : Nat
 m_ops : Option Path
 deriving DecidableEq

/-- `struct mount_list` -/
structure Mount where
 m_dev_name : Path
 m_mnt_dir : Path
 m_super : Option Nat
 deriving DecidableEq
structure State where
 mount_list : List Mount
 superblk : Nat -> Option Super
 ramdev : Nat
structure Answers where
 /-- The number of the device, unless `dev_open` fails. -/
 dev_open : Option Nat
 known : Bool
 /-- The file system that `try_probe_fs` finds. -/
 probed : Option Path
 fs_mount : Int
def from_root_node (dirname : Path) : Bool := dirname.head? = some '/' || dirname.contains ':'
def find_mount_list (l : List Mount) (mntdir : Path) : Option Mount := l.find? (fun mount => stricmp mount.m_mnt_dir mntdir)

section
variable (s : State)
section
variable (devname mntdir : Path)
def add_mount_list : Option State :=
 if from_root_node mntdir ∧ find_mount_list s.mount_list mntdir = none then
  some {s with mount_list := s.mount_list ++ [⟨devname.take 255,mntdir.take 255,none⟩]}
 else none
def remove_mount_list (mntdir : Path) : State :=
 {s with mount_list := s.mount_list.eraseP (fun mount => stricmp mount.m_mnt_dir mntdir)}
def State.set_super (i : Nat) (mp : Super) : State :=
 {s with superblk := Function.update s.superblk i (some mp)}
def alloc_superblock (dev_nr : Nat) : Option (Nat × State) :=
 ((List.range NR_SUPER).find? (fun i => s.superblk i = none)).map (fun i => (i,s.set_super i ⟨dev_nr,NO_MAGIC,none⟩))
def mount_device (devname : Path) (answers : Answers) : Option (Nat × State) :=
 if devname.take 4 = ['/','d','e','v'] then answers.dev_open.map (fun devno => (devno,s))
 else some (s.ramdev,{s with ramdev := s.ramdev + 1})
def set_m_super (l : List Mount) (i : Nat) : List Mount :=
 l.modify (l.length - 1) (fun mount => {mount with m_super := some i})

/-- The end of `sys_mount`. After an error the entry is looked for under the name of the
  device. -/
def mount_end (devname : Path) (i : Nat) (err : Int) : Int × State :=
 if err < 0 then (-1,remove_mount_list s devname)
 else (err,{s with mount_list := set_m_super s.mount_list i})
def mount_super (devname : Path) (i devno : Nat) (fstype : Option Path) (answers : Answers) : Int × State :=
 let m_magic := if devname = ['p','r','o','c','f','s'] then PROC_MAGIC else NO_MAGIC
 match fstype with
 | some name =>
  if answers.known then mount_end (s.set_super i ⟨devno,m_magic,some name⟩) devname i answers.fs_mount
  else (-1,s.set_super i ⟨devno,m_magic,none⟩)
 | none =>
  match answers.probed with
  | none => mount_end (s.set_super i ⟨devno,m_magic,none⟩) devname i (-1)
  | some ops => mount_end (s.set_super i ⟨devno,m_magic,some ops⟩) devname i (if answers.fs_mount = 0 then 0 else -1)
def sys_mount (fstype : Option Path) (answers : Answers) : Int × State :=
 match add_mount_list s devname mntdir with
 | none => (-1,s)
 | some s1 =>
  match mount_device s1 devname answers with
  | none => (-1,s1)
  | some (devno,s2) =>
   match alloc_superblock s2 devno with
   | none => (-1,s2)
   | some (i,s3) => mount_super s3 devname i devno fstype answers

/-- The list entry is taken for a superblock, so that pointers made of the characters of the
  device name are followed. `survives` says whether that comes back. -/
def sys_unmount (dname : Path) (survives : Bool) : Option (Int × State) :=
 match find_mount_list s.mount_list dname with
 | none => some (-1,s)
 | some _ => if survives then some (0,remove_mount_list s dname) else none
def SameTables (s s' : State) : Prop := s'.mount_list = s.mount_list ∧ s'.superblk = s.superblk

/-- A mount that fails leaves the tables as they were, and one that succeeds is undone by
  `sys_unmount`. -/
def Atomic (fstype : Option Path) (answers : Answers) (survives : Bool) : Prop :=
 ((sys_mount s devname mntdir fstype answers).1 < 0 -> SameTables s (sys_mount s devname mntdir fstype answers).2) ∧
  (0 ≤ (sys_mount s devname mntdir fstype answers).1 ->
   ∃ s', sys_unmount (sys_mount s devname mntdir fstype answers).2 mntdir survives = some (0,s') ∧ SameTables s s')
end
end

variable {s s' s1 : State} {devname mntdir : Path} {fstype : Option Path} {answers : Answers}
lemma mount_device_tables {devno : Nat} (hit : mount_device s devname answers = some (devno,s')) : SameTables s s' := by
 rw [mount_device] at hit
 split at hit
 · obtain ⟨_,_,eq⟩ := map_eq_some_iff.mp hit
   cases eq
   exact ⟨rfl,rfl⟩
 cases hit
 exact ⟨rfl,rfl⟩
lemma mount_end_superblk (s : State) (devname : Path) (i : Nat) (err : Int) :
 (mount_end s devname i err).2.superblk = s.superblk := by
 rw [mount_end]
 split <;> rfl
lemma mount_super_taken (s : State) (devname : Path) (i devno : Nat) (fstype : Option Path) (answers : Answers) :
 ((mount_super s devname i devno fstype answers).2.superblk i).isSome := by
 cases fstype with
 | some name =>
  simp only [mount_super]
  split
  · simp [mount_end_superblk,State.set_super]
  · simp [State.set_super]
 | none =>
  cases hit : answers.probed with
  | none => simp [mount_super,hit,mount_end_superblk,State.set_super]
  | some ops => simp [mount_super,hit,mount_end_superblk,State.set_super]
lemma alloc_superblock_free {dev_nr i : Nat} (ran : alloc_superblock s dev_nr = some (i,s')) : s.superblk i = none := by
 obtain ⟨j,hit,eq⟩ := map_eq_some_iff.mp ran
 cases eq
 simpa using List.find?_some hit
lemma sys_mount_leaves (fstype : Option Path) (answers : Answers) (added : add_mount_list s devname mntdir = some s1) :
 (sys_mount s devname mntdir fstype answers).1 < 0 ∧
   (sys_mount s devname mntdir fstype answers).2.mount_list.length = s.mount_list.length + 1 ∨
  ∃ i, s.superblk i = none ∧ ((sys_mount s devname mntdir fstype answers).2.superblk i).isSome := by
 obtain ⟨_,entered⟩ := ite_none_right_eq_some.mp added
 cases entered
 rw [sys_mount,added]
 simp only
 cases device : mount_device {s with mount_list := s.mount_list ++ [⟨devname.take 255,mntdir.take 255,none⟩]} devname answers with
 | none => exact .inl ⟨by simp,by simp⟩
 | some r =>
  obtain ⟨devno,s2⟩ := r
  obtain ⟨list,table⟩ := mount_device_tables device
  simp only
  cases ran : alloc_superblock s2 devno with
  | none => exact .inl ⟨by simp,by simp [list]⟩
  | some r =>
   obtain ⟨i,s3⟩ := r
   have free := alloc_superblock_free ran
   rw [table] at free
   exact .inr ⟨i,free,mount_super_taken s3 devname i devno fstype answers⟩
lemma sys_unmount_superblk {dname : Path} {survives : Bool} {rc : Int} (done : sys_unmount s dname survives = some (rc,s')) :
 s'.superblk = s.superblk := by
 rw [sys_unmount] at done
 split at done
 · cases done
   rfl
 obtain ⟨_,done⟩ := ite_none_right_eq_some.mp done
 cases done
 rfl

/-- A call is undone exactly when it is refused at once: the directory is not one to mount on,
  or something is mounted there. -/
theorem mount_atomic_iff (s : State) (devname mntdir : Path) (fstype : Option Path) (answers : Answers) (survives : Bool) :
 Atomic s devname mntdir fstype answers survives ↔
  from_root_node mntdir = false ∨ (find_mount_list s.mount_list mntdir).isSome := by
 constructor
 · intro atomic
   by_contra accepted
   have new : from_root_node mntdir ∧ find_mount_list s.mount_list mntdir = none := by simpa using accepted
   obtain ⟨s1,added⟩ : ∃ s1, add_mount_list s devname mntdir = some s1 := ⟨_,if_pos new⟩
   obtain ⟨failing,succeeding⟩ := atomic
   rcases sys_mount_leaves fstype answers added with ⟨failed,longer⟩ | ⟨i,free,taken⟩
   · have eq := (failing failed).1
     rw [eq] at longer
     omega
   by_cases failed : (sys_mount s devname mntdir fstype answers).1 < 0
   · have eq := (failing failed).2
     rw [eq,free] at taken
     cases taken
   obtain ⟨s'',unmounted,eq⟩ := succeeding (by omega)
   have kept := sys_unmount_superblk unmounted
   rw [<- kept,eq.2,free] at taken
   cases taken
 intro refused
 have not_added : add_mount_list s devname mntdir = none := by
  apply if_neg
  rintro ⟨absolute,new⟩
  rcases refused with relative | mounted
  · rw [relative] at absolute
    cases absolute
  rw [new] at mounted
  cases mounted
 have result : sys_mount s devname mntdir fstype answers = (-1,s) := by rw [sys_mount,not_added]
 rw [Atomic,result]
 exact ⟨fun _ => ⟨rfl,rfl⟩,fun done => absurd (show (0 : Int) ≤ -1 from done) (by decide)⟩
def empty : State := {mount_list := [], superblk := fun _ => none, ramdev := 0x17a9}
def mount_ramfs (s : State) (known : Bool) : Int × State :=
 sys_mount s ['r','a','m'] ['/','r'] (some ['r','a','m','f','s']) ⟨none,known,none,0⟩
def pair (s : State) : State :=
 ((sys_unmount (mount_ramfs s true).2 ['/','r'] true).map Prod.snd).getD s
theorem mounts_not_undone :
 ((mount_ramfs empty false).1,(mount_ramfs empty false).2.mount_list.length,
   ((mount_ramfs empty false).2.superblk 0).isSome) = (-1,1,true) ∧
  ((Nat.iterate pair 8 empty).mount_list,(mount_ramfs (Nat.iterate pair 8 empty) true).1) = ([],-1) := by
 decide +kernel

end Netbas.Mounts
