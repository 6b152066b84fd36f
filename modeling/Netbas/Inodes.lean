import Netbas.FileTable

/-!
The table of inodes and the walk along a path (`drv/fs/vfs`). What the file systems hold is given as
a `Disk`. `do_namei_adds`: the walk leaves the counts as they were, but for the inode that it
returns.
-/
namespace Netbas.Inodes
open FileTable List Option
open Function
def NR_INODE : Nat := 64
def PATH_MAX : Nat := 4096
def EBUSY : Int := 16
def ENAMETOOLONG : Int := 36
structure Vnode where
 i_dev : Nat
 i_number : Nat
 /-- `unsigned short` -/
 i_count : Nat
 i_mode : Nat
 i_uid : Nat
abbrev Table := Nat -> Vnode
abbrev Path := List Char
structure Disk where
 /-- The device and the number that `fs_opendir` gives to `iget`. -/
 opendir : Nat -> Nat -> Path -> Option (Nat × Nat)
 ino_rw : Nat -> Nat -> Nat × Nat

section
variable (vnode : Table)
def set_count (v n : Nat) : Table := update vnode v {vnode v with i_count := n}
def dup_inode (ip : Option Nat) : Table :=
 match ip with
 | none => vnode
 | some v => set_count vnode v (((vnode v).i_count + 1) % 65536)
def ifind (dev blk : Nat) : Option Nat :=
 (range NR_INODE).find? (fun i => (vnode i).i_number = blk ∧ (vnode i).i_dev = dev)
def iget (disk : Disk) (vnode : Table) (dev blk : Nat) : Option (Nat × Table) :=
 match ifind vnode dev blk with
 | some v => some (v,dup_inode vnode (some v))
 | none =>
  ((range NR_INODE).find? (fun i => (vnode i).i_count = 0)).map (fun v =>
   let (mode,uid) := disk.ino_rw dev blk
   (v,update vnode v ⟨dev % 65536,blk,1,mode,uid⟩))
def iput (v : Nat) : Int × Table :=
 if 1 < (vnode v).i_count then (-EBUSY,set_count vnode v ((vnode v).i_count - 1))
 else (0,update vnode v {vnode v with i_dev := 0, i_number := 0, i_count := 0, i_mode := 0})
end

/-- The next name of the path, and what follows it. A name of `PATH_MAX` characters is cut. -/
def get_iname (path : Path) : Path × Path :=
 let start := (path.dropWhile (· = '/')).dropWhile (· = ' ')
 let name := start.takeWhile (· ≠ '/')
 (name.take PATH_MAX,start.drop (min name.length PATH_MAX + 1))
def vfs_opendir (disk : Disk) (vnode : Table) (v : Nat) (name : Path) : Option (Nat × Table) :=
 (disk.opendir (vnode v).i_dev (vnode v).i_number name).bind (fun (dev,blk) => iget disk vnode dev blk)

/-- The loop of `do_namei`. `inoptr` has been taken; a name that is not found ends the walk. -/
def walk (disk : Disk) : Nat -> Table -> Nat -> Path -> Option Nat × Table
 | 0, vnode, inoptr, _ => (some inoptr,vnode)
 | fuel + 1, vnode, inoptr, path =>
  let (name,rest) := get_iname path
  if name.length = 0 ∨ PATH_MAX ≤ name.length then (some inoptr,vnode)
  else if name = ['.'] then walk disk fuel vnode inoptr rest
  else
   match vfs_opendir disk vnode inoptr name with
   | none => (none,(iput vnode inoptr).2)
   | some (temp,vnode') => walk disk fuel (iput vnode' inoptr).2 temp rest
def do_namei (disk : Disk) (vnode : Table) (istart : Nat) (path : Path) : Except Int Nat × Table :=
 match walk disk (path.length + 1) (dup_inode vnode (some istart)) istart path with
 | (some v,vnode') => (.ok v,vnode')
 | (none,vnode') => (.error (-ENAMETOOLONG),vnode')
def Adds (vnode vnode' : Table) (xs : List Nat) : Prop := ∀ v, (vnode' v).i_count = (vnode v).i_count + xs.count v

variable {disk : Disk} {vnode vnode' vnode'' : Table} {xs : List Nat} {v w : Nat}
lemma adds_refl (vnode : Table) : Adds vnode vnode [] := fun v => by simp
lemma i_count_set_count (vnode : Table) (v n w : Nat) :
 (set_count vnode v n w).i_count = if w = v then n else (vnode w).i_count := by
 by_cases eq : w = v
 · subst eq
   simp [set_count]
 · simp [set_count,eq]
lemma Adds.dup_inode (adds : Adds vnode vnode' xs) (few : (vnode' v).i_count < 65535) :
 Adds vnode (dup_inode vnode' (some v)) (v :: xs) := by
 intro w
 rw [Inodes.dup_inode,i_count_set_count,count_cons,Nat.mod_eq_of_lt (by omega)]
 have count := adds w
 by_cases eq : w = v
 · subst eq
   simp only [if_true,BEq.rfl]
   omega
 simp only [eq,if_false,beq_eq_false_iff_ne.mpr (Ne.symm eq),Bool.false_eq_true]
 omega
lemma i_count_iput (vnode : Table) (v w : Nat) :
 ((iput vnode v).2 w).i_count = if w = v then (vnode v).i_count - 1 else (vnode w).i_count := by
 rw [iput]
 split
 · exact i_count_set_count vnode v _ w
 by_cases eq : w = v
 · subst eq
   simp
   omega
 · simp [eq]
lemma Adds.iput (adds : Adds vnode vnode' (v :: xs)) : Adds vnode (iput vnode' v).2 xs := by
 intro w
 rw [i_count_iput]
 have count := adds w
 rw [count_cons] at count
 by_cases eq : w = v
 · subst eq
   simp only [BEq.rfl,if_true] at count ⊢
   omega
 simp only [eq,if_false,beq_eq_false_iff_ne.mpr (Ne.symm eq),Bool.false_eq_true] at count ⊢
 omega

variable {dev blk : Nat}
lemma iget_cases (ran : iget disk vnode dev blk = some (v,vnode')) : v < NR_INODE ∧
 ((vnode v).i_number = blk ∧ vnode' = dup_inode vnode (some v) ∨
  (vnode v).i_count = 0 ∧ ∃ mode uid, vnode' = update vnode v ⟨dev % 65536,blk,1,mode,uid⟩) := by
 rw [iget] at ran
 cases known : ifind vnode dev blk with
 | some u =>
  simp only [known] at ran
  cases ran
  have hit := find?_some known
  simp only [decide_eq_true_eq] at hit
  exact ⟨mem_range.mp (mem_of_find?_eq_some known),.inl ⟨hit.1,rfl⟩⟩
 | none =>
  simp only [known] at ran
  obtain ⟨u,free,eq⟩ := map_eq_some_iff.mp ran
  cases eq
  exact ⟨mem_range.mp (mem_of_find?_eq_some free),.inr ⟨by simpa using find?_some free,_,_,rfl⟩⟩
lemma Adds.iget (adds : Adds vnode vnode' xs) (few : ∀ v < NR_INODE, (vnode' v).i_count < 65535)
 (ran : iget disk vnode' dev blk = some (v,vnode'')) : v < NR_INODE ∧ Adds vnode vnode'' (v :: xs) := by
 obtain ⟨mem,⟨_,rfl⟩ | ⟨empty,_,_,rfl⟩⟩ := iget_cases ran
 · exact ⟨mem,adds.dup_inode (few v mem)⟩
 refine ⟨mem,fun w => ?_⟩
 have count := adds w
 rw [count_cons]
 by_cases eq : w = v
 · subst eq
   simp only [update_self,BEq.rfl,if_true]
   omega
 simp only [update_of_ne eq,beq_eq_false_iff_ne.mpr (Ne.symm eq),Bool.false_eq_true,if_false]
 omega
lemma i_number_iget (ran : iget disk vnode dev blk = some (v,vnode')) : (vnode' v).i_number = blk := by
 obtain ⟨_,⟨number,rfl⟩ | ⟨_,_,_,rfl⟩⟩ := iget_cases ran
 · simp [dup_inode,set_count,number]
 · simp
lemma iget_apart {dev blk blk' : Nat} (few : ∀ v < NR_INODE, (vnode v).i_count < 65535)
 (fst : iget disk vnode dev blk = some (v,vnode')) (snd : iget disk vnode' dev blk' = some (w,vnode''))
 (ne : blk ≠ blk') : v ≠ w := by
 rintro rfl
 have number := i_number_iget fst
 obtain ⟨_,adds⟩ := (adds_refl vnode).iget few fst
 obtain ⟨_,⟨number',_⟩ | ⟨empty,_⟩⟩ := iget_cases snd
 · exact ne (number.symm.trans number')
 rw [adds v,count_singleton_self] at empty
 omega
lemma walk_adds (few : ∀ v < NR_INODE, (vnode v).i_count < 65000) (fuel : Nat) :
 ∀ {vnode' vnode'' : Table} {inoptr : Nat} {path : Path} {hit : Option Nat}, inoptr < NR_INODE ->
  Adds vnode vnode' [inoptr] -> walk disk fuel vnode' inoptr path = (hit,vnode'') ->
  (∀ v ∈ hit, v < NR_INODE) ∧ Adds vnode vnode'' hit.toList := by
 induction fuel with
 | zero =>
  intro vnode' vnode'' inoptr path hit mem adds ends
  cases ends
  exact ⟨by rintro v ⟨⟩; exact mem,adds⟩
 | succ fuel ih =>
  intro vnode' vnode'' inoptr path hit mem adds ends
  have room : ∀ v < NR_INODE, (vnode' v).i_count < 65535 := by
   intro v lt
   have := few v lt
   have one : [inoptr].count v ≤ 1 := count_le_length
   rw [adds v]
   omega
  rw [walk] at ends
  cases next : get_iname path with
  | mk name rest =>
   simp only [next] at ends
   split at ends
   · cases ends
     exact ⟨by rintro v ⟨⟩; exact mem,adds⟩
   split at ends
   · exact ih mem adds ends
   cases res : vfs_opendir disk vnode' inoptr name with
   | none =>
    simp only [res] at ends
    cases ends
    exact ⟨by simp,adds.iput⟩
   | some pair =>
    obtain ⟨temp,opened⟩ := pair
    simp only [res] at ends
    obtain ⟨⟨dev,blk⟩,_,ran⟩ := bind_eq_some_iff.mp res
    obtain ⟨in',adds'⟩ := adds.iget room ran
    have swapped : Adds vnode opened [inoptr,temp] := by
     intro v
     rw [adds' v]
     simp only [count_cons]
     omega
    exact ih in' swapped.iput ends
def LookedUp (vnode vnode' : Table) : Except Int Nat -> Prop
 | .ok v => v < NR_INODE ∧ Adds vnode vnode' [v]
 | .error _ => Adds vnode vnode' []
lemma do_namei_adds (few : ∀ v < NR_INODE, (vnode v).i_count < 65000) {istart : Nat} {path : Path}
 (mem : istart < NR_INODE) {result : Except Int Nat} (ends : do_namei disk vnode istart path = (result,vnode')) :
 LookedUp vnode vnode' result := by
 have started : Adds vnode (dup_inode vnode (some istart)) [istart] := by
  have := few istart mem
  exact (adds_refl vnode).dup_inode (by omega)
 rw [do_namei] at ends
 cases loop : walk disk (path.length + 1) (dup_inode vnode (some istart)) istart path with
 | mk hit vnode1 =>
  obtain ⟨lt,adds⟩ := walk_adds few _ mem started loop
  cases hit with
  | some v =>
   simp only [loop] at ends
   cases ends
   exact ⟨lt v rfl,adds⟩
  | none =>
   simp only [loop] at ends
   cases ends
   exact adds

end Netbas.Inodes
