import Netbas.Mounts
import Netbas.PathNames

/-!
Where the walk of a path starts, and the name of the working directory (`drv/fs/vfs/path.c`, `devops.c`).
The mounts that are found are those at one name behind one slash (`mounts_reached_iff`); `do_get_pwd`
stores no terminator behind the names, and is right for the root only (`pwd_iff`).
-/
namespace Netbas.Directories
open Inodes InodeCounts List
open Function
/-- The list after calls of `add_mount_list`, each with the root that was mounted, and of
  `remove_mount_list`. -/
inductive Listed : List (Path × Option Nat) -> Prop
 | nil : Listed []
 | add {l : List (Path × Option Nat)} {mntdir : Path} (m_root : Option Nat) : Listed l -> Mounts.from_root_node mntdir ->
   find_mount_list l mntdir = none -> Listed (l ++ [(mntdir.take 255,m_root)])
 | remove {l : List (Path × Option Nat)} (mntdir : Path) : Listed l -> Listed (l.eraseP (fun mount => stricmp mount.1 mntdir))

/-- The path is the directory or goes on behind it. Slashes in front and letter case do not matter. -/
def Lies (path d : Path) : Prop :=
 ∃ n head rest, path = replicate n '/' ++ '/' :: head ++ rest ∧ stricmp d ('/' :: head) ∧ Ends rest
def Reached (d : Path) : Prop := ∀ (s : State) (t r : Nat) (path : Path), Listed s.mounts -> (d.take 255,some r) ∈ s.mounts ->
 path = d ∨ (∃ rest, path = d ++ '/' :: rest) -> (∀ mount ∈ s.mounts, Lies path mount.1 -> mount.1.length ≤ d.length) ->
 get_root_inode s t path = some (some r,d.length)

/-- Away from all mounts the path starts at the root of the task. -/
def Local (path : Path) : Prop := ∀ (s : State) (t : Nat), (∀ mount ∈ s.mounts, ¬ Lies path mount.1) ->
 get_root_inode s t path = some ((s.files.proc t).root,0)
def Named (d : Path) : Prop := ∃ name, d = '/' :: name ∧ name ≠ [] ∧ '/' ∉ name ∧ d.length < 255

variable {l : List (Path × Option Nat)}
lemma listed_pairwise (listed : Listed l) :
 l.Pairwise (fun a b => stricmp a.1 b.1 -> 255 ≤ b.1.length) := by
 induction listed with
 | nil => exact Pairwise.nil
 | remove mntdir _ ih => exact ih.sublist (eraseP_sublist)
 | @add l mntdir _ _ _ missing ih =>
  refine pairwise_append.mpr ⟨ih,pairwise_singleton _ _,?_⟩
  intro a mem b added eq
  rw [mem_singleton.mp added] at eq ⊢
  by_contra le
  rw [length_take] at le
  rw [take_of_length_le (by omega)] at eq
  have := find?_eq_none.mp (Option.map_eq_none_iff.mp missing) a mem
  exact this eq
variable {d : Path}
lemma find_listed {r : Option Nat}
 (once : l.Pairwise (fun a b => stricmp a.1 b.1 -> 255 ≤ b.1.length)) (le : d.length < 255) (mem : (d,r) ∈ l) :
 find_mount_list l d = some r := by
 induction l with
 | nil => cases mem
 | cons a l ih =>
  obtain ⟨fst,once⟩ := pairwise_cons.mp once
  rw [find_mount_list,find?_cons]
  cases eq : stricmp a.1 d with
  | false =>
   rcases mem_cons.mp mem with rfl | mem
   · simp [stricmp] at eq
   · exact ih once mem
  | true =>
   rcases mem_cons.mp mem with rfl | mem
   · rfl
   have := fst _ mem eq
   exact absurd this (by simpa using le)
lemma takeWhile_cut {c d : Path} (plain : '/' ∉ c) (ends : Ends d) : (c ++ d).takeWhile (· ≠ '/') = c := by
 have ne : ∀ x ∈ c, decide (x ≠ '/') = true := fun x mem => decide_eq_true fun eq => plain (eq ▸ mem)
 rw [takeWhile_append_of_pos ne]
 rcases ends with rfl | ⟨more,rfl⟩ <;> simp
lemma get_mount_dir_named {name rest : Path} (some : name ≠ []) (plain : '/' ∉ name) (ends : Ends rest) :
 get_mount_dir ('/' :: name ++ rest) = ('/' :: name,name.length + 1) := by
 obtain ⟨c,cs,rfl⟩ := exists_cons_of_ne_nil some
 have slash : c ≠ '/' := fun eq => plain (eq ▸ mem_cons_self)
 have cut := takeWhile_cut plain ends
 rw [get_mount_dir]
 simp only [cons_append] at cut ⊢
 rw [dropWhile_cons_of_pos (by simp),dropWhile_cons_of_neg (by simpa using slash),cut]
 simp [slash,Nat.add_comm]
lemma named_reached (named : Named d) : Reached d := by
 obtain ⟨name,rfl,some,plain,le⟩ := named
 intro s t r path listed mem under _
 rw [take_of_length_le (by omega)] at mem
 obtain ⟨rest,rfl,ends⟩ : ∃ rest, path = '/' :: name ++ rest ∧ Ends rest := by
  rcases under with rfl | ⟨rest,rfl⟩
  · exact ⟨[],by simp,.inl rfl⟩
  · exact ⟨'/' :: rest,rfl,.inr ⟨rest,rfl⟩⟩
 have fst := length_pos_iff.mpr some
 rw [get_root_inode,if_pos (by rfl),get_mount_dir_named some plain ends]
 simp only
 rw [if_neg (by omega),find_listed (listed_pairwise listed) le mem]
 simp only [length_cons]
 rw [if_neg (by omega)]
def only (mounts : List (Path × Option Nat)) : State :=
 ⟨⟨fun _ => ⟨0,none⟩,fun _ => ⟨fun _ => none,none,none⟩⟩,fun _ => ⟨0,0,0,0,0⟩,mounts⟩
lemma reached_named (took : Mounts.from_root_node d) (reached : Reached d) : Named d := by
 have nonempty : 0 < d.length := by
  rw [length_pos_iff]
  rintro rfl
  simp [Mounts.from_root_node] at took
 -- With no other mount.
 have start := reached (only [(d.take 255,some 0)]) 0 0 d (.add (some 0) .nil took rfl) mem_cons_self (.inl rfl) (by
  intro mount mem _
  rw [mem_singleton.mp mem,length_take]
  omega)
 rw [get_root_inode] at start
 split at start
 · next slash =>
   obtain ⟨tail,rfl⟩ := head?_eq_some_iff.mp slash
   rw [get_mount_dir,dropWhile_cons_of_pos (by rfl),takeWhile_cons_of_pos (by rfl)] at start
   simp only [only] at start
   split at start
   · cases start
   next le =>
   split at start
   · next hit =>
     split at start
     · simp at start
     next several =>
     simp only [Option.some.injEq,Prod.mk.injEq,length_cons] at start le several
     obtain ⟨mount,listed,_⟩ := Option.map_eq_some_iff.mp hit
     have eq := find?_some listed
     rw [mem_singleton.mp (mem_of_find?_eq_some listed)] at eq
     have lengths := congrArg length (of_decide_eq_true eq)
     simp only [length_map,length_take,length_cons] at lengths
     have one : tail.takeWhile (· = '/') = [] := length_eq_zero_iff.mp (by omega)
     have rest := takeWhile_append_dropWhile (p := (· = '/')) (l := tail)
     rw [one,nil_append] at rest
     rw [rest] at lengths le several start
     have whole := ( takeWhile_prefix (l := tail) (· ≠ '/')).eq_of_length (by omega)
     refine ⟨tail,rfl,?_,?_,?_⟩
     · rintro rfl
       simp at several
     · intro mem
       have := takeWhile_eq_self_iff.mp whole _ mem
       simp at this
     rw [length_cons]
     omega
   simp only [Option.some.injEq,Prod.mk.injEq] at start
   omega
 simp only [Option.some.injEq,Prod.mk.injEq] at start
 omega
lemma local_iff {path : Path} (slash : path.head? = some '/') : Local path ↔ (get_mount_dir path).1.length < 255 := by
 constructor
 · intro right
   by_contra long
   have := right (only []) 0 (by simp [only])
   rw [get_root_inode,if_pos slash] at this
   simp only at this
   rw [if_pos (by omega)] at this
   cases this
 intro le s t away
 rw [get_root_inode,if_pos slash]
 simp only
 rw [if_neg (by omega)]
 split
 · next hit =>
   split
   · rfl
   next several =>
   exfalso
   obtain ⟨mount,listed,_⟩ := Option.map_eq_some_iff.mp hit
   have eq := find?_some listed
   obtain ⟨p,rfl⟩ := head?_eq_some_iff.mp slash
   obtain ⟨c,d,parts,plain,ends⟩ := cut_path (p.dropWhile (· = '/'))
   rw [get_mount_dir,dropWhile_cons_of_pos (by rfl),parts,takeWhile_cut plain ends] at eq
   have slashes : p.takeWhile (· = '/') = replicate (p.takeWhile (· = '/')).length '/' :=
    eq_replicate_of_mem (fun x mem => by simpa using mem_takeWhile_imp mem)
   refine away mount (mem_of_find?_eq_some listed) ⟨(p.takeWhile (· = '/')).length,c,d,?_,eq,ends⟩
   rw [append_cons,<- replicate_succ',replicate_succ,<- slashes,cons_append,cons_append,append_assoc,<- parts,takeWhile_append_dropWhile]
 · rfl
abbrev MountDir := {d : Path // Mounts.from_root_node d}
abbrev AbsolutePath := {path : Path // path.head? = some '/'}
theorem mounts_reached_iff (d : MountDir) (path : AbsolutePath) :
 (Reached d ↔ Named d) ∧ (Local path ↔ (get_mount_dir path).1.length < 255) :=
 ⟨⟨reached_named d.2,named_reached⟩,local_iff path.2⟩
theorem nested_mount_missed : Mounts.from_root_node ['/','a','/','b'] = true ∧
 get_root_inode (only [(['/','a','/','b'],some 5)]) 0 ['/','a','/','b','/','c'] = some (none,0) := by
 decide

/-- The directories of one mounted tree, where `..` and `vfs_readdir` are right. -/
structure Tree where
 Dir : Type
 same : DecidableEq Dir
 root : Dir
 parent : Dir -> Dir
 depth : Dir -> Nat
 lookup : Dir -> Path -> Option Dir
 readdir : Dir -> List (Dir × Path)
 up : ∀ d ≠ root, lookup d ['.','.'] = some (parent d) ∧ depth (parent d) < depth d
 listed : ∀ d ≠ root, ∃ name, (readdir (parent d)).find? (fun entry => entry.1 = d) = some (d,name) ∧
  lookup (parent d) name = some d ∧ '\x00' ∉ name
instance (t : Tree) : DecidableEq t.Dir := t.same
abbrev Buffer := Nat -> Char
def get_child_node_name (t : Tree) (istart ino : t.Dir) : Option Path :=
 ((t.readdir istart).find? (fun entry => entry.1 = ino)).map Prod.snd
def insert_name (pbuf : Buffer) (curlen : Nat) (name : Path) : Buffer := fun i =>
 if i = 0 then '/'
 else if i ≤ name.length then name.getD (i - 1) '/'
 else if i < name.length + 1 + curlen then pbuf (i - (name.length + 1))
 else pbuf i

variable (buff : Buffer)
def only_slash : Buffer := update (update buff 0 '/') 1 '\x00'

/-- The loop of `do_get_pwd`. After an error the path is a slash. -/
def climb (t : Tree) : Nat -> t.Dir -> Buffer -> Nat -> Option Buffer
 | 0, _, _, _ => none
 | fuel + 1, tmp, buff, curpos =>
  if tmp = t.root then some buff
  else
   match follow t.lookup 3 tmp ['.','.'] with
   | none => some (only_slash buff)
   | some fino =>
    match get_child_node_name t fino tmp with
    | none => some (only_slash buff)
    | some name => climb t fuel fino (insert_name buff curpos name) (curpos + name.length + 1)
def do_get_pwd (t : Tree) (pwd : t.Dir) (buff : Buffer) : Option Buffer :=
 let buff := update buff 0 '\x00'
 if pwd = t.root then some (only_slash buff) else climb t (t.depth pwd + 1) pwd buff 0
def open_namei (t : Tree) (path : Path) : Option t.Dir :=
 if 255 ≤ (get_mount_dir path).1.length then none else follow t.lookup (path.length + 1) t.root path
def Stored (path : Path) : Prop :=
 (∀ i, (h : i < path.length) -> buff i = path[i]) ∧ buff path.length = '\x00'

/-- Whatever the buffer holds, it gets a path to the directory. -/
def PwdRight (t : Tree) (pwd : t.Dir) : Prop := ∀ buff, ∃ buff' path, do_get_pwd t pwd buff = some buff' ∧ Stored buff' path ∧
 path.head? = some '/' ∧ open_namei t path = some pwd

variable {t : Tree}
lemma climb_step {d : t.Dir} (lt : d ≠ t.root) (fuel : Nat) (buff : Buffer) (curpos : Nat) : ∃ name, '\x00' ∉ name ∧
 climb t (fuel + 1) d buff curpos = climb t fuel (t.parent d) (insert_name buff curpos name) (curpos + name.length + 1) := by
 obtain ⟨name,entry,_,plain⟩ := t.listed d lt
 have walked : follow t.lookup 3 d ['.','.'] = some (t.parent d) := by
  simp [follow,get_iname,PATH_MAX,(t.up d lt).1]
 refine ⟨name,plain,?_⟩
 rw [climb,if_neg lt,walked]
 simp [get_child_node_name,entry]
lemma insert_name_plain {name : Path} (curlen : Nat) (rest : ∀ i, 0 < i ∨ 0 < curlen -> buff i ≠ '\x00')
 (plain : '\x00' ∉ name) (i : Nat) : insert_name buff curlen name i ≠ '\x00' := by
 rw [insert_name]
 split
 · decide
 split
 · next mem =>
   rw [getD_eq_getElem?_getD,getElem?_eq_getElem (by omega),Option.getD_some]
   exact fun eq => plain (eq ▸ getElem_mem _)
 split
 · exact rest _ (.inr (by omega))
 · exact rest _ (.inl (by omega))
lemma climb_plain (fuel : Nat) : ∀ (d : t.Dir) (buff : Buffer) (curpos : Nat), t.depth d < fuel -> (∀ i, buff i ≠ '\x00') ->
 ∃ buff', climb t fuel d buff curpos = some buff' ∧ ∀ i, buff' i ≠ '\x00' := by
 induction fuel with
 | zero =>
  intro d buff curpos lt
  omega
 | succ fuel ih =>
  intro d buff curpos lt plain
  by_cases top : d = t.root
  · exact ⟨buff,by rw [climb,if_pos top],plain⟩
  obtain ⟨name,letters,turn⟩ := climb_step top fuel buff curpos
  have := (t.up d top).2
  rw [turn]
  exact ih _ _ _ (by omega) (insert_name_plain buff curpos (fun i _ => plain i) letters)
theorem pwd_iff (t : Tree) (pwd : t.Dir) : PwdRight t pwd ↔ pwd = t.root := by
 constructor
 · intro right
   by_contra lt
   obtain ⟨buff,path,stored,⟨_,ends⟩,_⟩ := right fun _ => 'x'
   obtain ⟨name,letters,turn⟩ := climb_step lt (t.depth pwd) (update (fun _ => 'x') 0 '\x00') 0
   have := (t.up pwd lt).2
   rw [do_get_pwd,if_neg lt,turn] at stored
   obtain ⟨buff',eq,plain⟩ := climb_plain (t.depth pwd) (t.parent pwd) _ (0 + name.length + 1) this
    (insert_name_plain (update (fun _ => 'x') 0 '\x00') 0 (by
     intro i behind
     rw [update_of_ne (by omega)]
     decide) letters)
   rw [eq] at stored
   cases stored
   exact plain _ ends
 rintro rfl buff
 refine ⟨only_slash (update buff 0 '\x00'),['/'],by rw [do_get_pwd,if_pos rfl],⟨?_,rfl⟩,rfl,by rfl⟩
 intro i inside
 obtain rfl : i = 0 := by simpa using inside
 rfl
def two : Tree :=
 { Dir := Bool, same := inferInstance, root := false, parent := fun _ => false, depth := Bool.toNat
   lookup := fun _ name => some (name = ['a']), readdir := fun _ => [(true,['a'])]
   up := by decide, listed := fun d _ => ⟨['a'],by cases d <;> simp_all⟩ }
theorem pwd_unterminated : (do_get_pwd two true (fun _ => 'x')).map (fun buff => (range 4).map buff) = some ['/','a','x','x'] := by
 decide

end Netbas.Directories
