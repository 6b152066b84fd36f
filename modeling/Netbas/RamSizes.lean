import Netbas.RamNodes
import Netbas.RamFiles

/-!
The size of a volume of the memory file system, over the tree of `RamNodes` and the files of
`RamFiles`. A call whose `assert` fails has no result. `accounted_iff` says when `rv_nFSSize` is the sum of `fn_nSize`.
-/
namespace Netbas.RamSizes
open Runs RamNodes FileTable Option
open Function (update update_apply update_of_ne)
structure Volume where
 tree : RamNodes.Volume
 files : Nat -> RamFiles.FileNode
 fn_nLinkCount : Nat -> Int
 rv_nFSSize : Int

variable {v v' : Volume} {heap : Finset Nat} {p c a : Nat} {parent node : RamNodes.FileNode} {name : Name} {rc : Int}
def Volume.fn_nSize (v : Volume) (psNode : Nat) : Nat := (v.files psNode).fn_nSize
section
variable (v : Volume)
def Volume.zeroed (psNode : Nat) (tree : RamNodes.Volume) : Volume where
 tree := tree
 files := update v.files psNode RamFiles.empty
 fn_nLinkCount := update v.fn_nLinkCount psNode 1
 rv_nFSSize := v.rv_nFSSize

/-- `fn_nSize` is that of the node, which need not have a buffer yet. -/
def rfs_delete_node (v : Volume) (psNode fn_nSize : Nat) : Option Volume := do
 let node <- v.tree.nodes psNode
 let tree <- RamNodes.rfs_delete_node v.tree psNode
 match node.fn_psParent with
 | none => some v
 | some _ => some {v with tree := tree, rv_nFSSize := v.rv_nFSSize - fn_nSize}

section
variable (psParent : Nat)
section
variable (name : Name)
def make (nMode : Nat) (memory : Option Nat) (failure : Int)
  (finish : Nat -> Volume -> Option (Int × Volume)) : Option (Int × Volume) := do
 let parent <- v.tree.nodes psParent
 if (find_child v.tree parent name).isSome then some (-EEXIST,v)
 else
  match <- rfs_create_node v.tree psParent name nMode memory with
  | (none,_) => some (failure,v)
  | (some psNode,tree) => finish psNode (v.zeroed psNode tree)
def rfs_mkdir (nPerms : Nat) (memory : Option Nat) : Option (Int × Volume) :=
 make v psParent name (S_IFDIR ||| (nPerms &&& S_IRWXUGO)) memory (-1) (fun _ v' => some (0,v'))
def rfs_create (nPerms : Nat) (memory : Option Nat) : Option (Int × Volume) :=
 make v psParent name (S_IFREG ||| (nPerms &&& 0o777)) memory (-ENOMEM) (fun _ v' => some (0,v'))
abbrev Path := {path : List UInt8 // path.length + 1 < 2^32}
def link_file (path : Path) : RamFiles.FileNode where
 fn_nSize := path.val.length + 1
 fn_pBuffer := some (path.val ++ [0])
 fits := by simp
 small := by simpa using path.property
def rfs_symlink (path : Path) (memory : Option Nat) (stored : Bool) :
  Option (Int × Volume) :=
 make v psParent name (S_IFLNK ||| S_IRUGO ||| S_IWUGO) memory (-ENOMEM) (fun psNode v' =>
  let fn_nSize := path.val.length + 1
  if stored then
   some (0,{ v' with files := update v'.files psNode (link_file path)
                     rv_nFSSize := v'.rv_nFSSize + fn_nSize })
  else (rfs_delete_node v' psNode fn_nSize).map (fun v'' => (-ENOMEM,v'')))
def rfs_write (v : Volume) (psNode : Nat) (nPos : UInt32) (buf : List UInt8) (memory : Option (Nat -> UInt8)) :
  Option (Int × Volume) := do
 let _ <- v.tree.nodes psNode
 let (nError,file) <- RamFiles.rfs_write (v.files psNode) nPos.toNat buf memory
 if nError < 0 then some (nError,v)
 else
  some (nError,{ v with files := update v.files psNode file
                        rv_nFSSize := v.rv_nFSSize + RamFiles.added (v.files psNode) (nPos.toNat + buf.length) })
def remove (refuse : RamNodes.FileNode -> Option Int) : Option (Int × Volume) := do
 let parent <- v.tree.nodes psParent
 match find_child v.tree parent name with
 | none => some (-ENOENT,v)
 | some psNode =>
  let node <- v.tree.nodes psNode
  match refuse node with
  | some nError => some (nError,v)
  | none =>
   let fn_nLinkCount := update v.fn_nLinkCount psNode (v.fn_nLinkCount psNode - 1)
   if fn_nLinkCount psNode ≠ 0 then none
   else if node.fn_bIsLoaded then
    some (0,{ v with tree := v.tree.detach psParent psNode parent (some {node with fn_psParent := none})
                     fn_nLinkCount := fn_nLinkCount })
   else
    some (0,{ v with tree := v.tree.detach psParent psNode parent none
                     fn_nLinkCount := fn_nLinkCount
                     rv_nFSSize := v.rv_nFSSize - v.fn_nSize psNode })
def rfs_unlink : Option (Int × Volume) :=
 remove v psParent name (fun node => if S_ISDIR node.fn_nMode then some (-EISDIR) else none)
def rfs_rmdir : Option (Int × Volume) :=
 remove v psParent name (fun node =>
  if ¬ S_ISDIR node.fn_nMode then some (-ENOTDIR) else if node.children ≠ [] then some (-ENOTEMPTY) else none)
end
end
def Volume.set (psNode : Nat) (left : Option RamNodes.FileNode) : Volume :=
 {v with tree := {v.tree with nodes := update v.tree.nodes psNode left}}

/-- The number is an `ino_t`, and but for the root's it is the address of the node. -/
def rfs_read_inode (nInodeNum : UInt16) : Option (Int × Volume) := do
 let psNode := if nInodeNum.toNat = RFS_ROOT then v.tree.rv_psRootNode else nInodeNum.toNat
 let node <- v.tree.nodes psNode
 if nInodeNum.toNat ≠ RFS_ROOT ∧ node.fn_nInodeNum ≠ psNode then some (-RamFiles.EINVAL,v)
 else if node.fn_bIsLoaded then none
 else some (0,v.set psNode (some {node with fn_bIsLoaded := true}))
def rfs_write_inode (psNode : Nat) : Option (Int × Volume) := do
 let node <- v.tree.nodes psNode
 if v.fn_nLinkCount psNode = 0 then
  some (0,{v.set psNode none with rv_nFSSize := v.rv_nFSSize - v.fn_nSize psNode})
 else some (0,v.set psNode (some {node with fn_bIsLoaded := false}))
def rfs_mount (root : Nat) : Volume where
 tree := RamNodes.rfs_mount root
 files := fun _ => RamFiles.empty
 fn_nLinkCount := fun _ => 1
 rv_nFSSize := 0

/-! ### Runs -/
/-- The calls on a volume. `rfs_read_inode` is among them because only loaded nodes outlive their
  names. -/
inductive Action where
 | rfs_create (psParent : Nat) (name : Name) (nPerms : Nat) (memory : Option Nat)
 | rfs_mkdir (psParent : Nat) (name : Name) (nPerms : Nat) (memory : Option Nat)
 | rfs_symlink (psParent : Nat) (name : Name) (path : Path) (memory : Option Nat) (stored : Bool)
 | rfs_write (psNode : Nat) (nPos : UInt32) (buf : List UInt8) (memory : Option (Nat -> UInt8))
 | rfs_unlink (psParent : Nat) (name : Name)
 | rfs_rmdir (psParent : Nat) (name : Name)
 | rfs_read_inode (nInodeNum : UInt16)
 | rfs_write_inode (psNode : Nat)
def call : Action -> Option (Int × Volume)
 | .rfs_create psParent name nPerms memory => rfs_create v psParent name nPerms memory
 | .rfs_mkdir psParent name nPerms memory => rfs_mkdir v psParent name nPerms memory
 | .rfs_symlink psParent name path memory stored => rfs_symlink v psParent name path memory stored
 | .rfs_write psNode nPos buf memory => rfs_write v psNode nPos buf memory
 | .rfs_unlink psParent name => rfs_unlink v psParent name
 | .rfs_rmdir psParent name => rfs_rmdir v psParent name
 | .rfs_read_inode nInodeNum => rfs_read_inode v nInodeNum
 | .rfs_write_inode psNode => rfs_write_inode v psNode
def step (a : Action) : Option Volume := (call v a).map Prod.snd
def OnHeap (heap : Finset Nat) : Prop := ∀ a, a ∈ heap ↔ (v.tree.nodes a).isSome

/-- The total is the sum of the sizes of the nodes that have not been freed. -/
def Accounted : Prop := ∃ heap, OnHeap v heap ∧ v.rv_nFSSize = ∑ a ∈ heap, (v.fn_nSize a : Int)

/-- The bytes of a write go into the buffer of its node. -/
def Inside : Action -> Prop
 | .rfs_write psNode nPos buf memory =>
  (v.tree.nodes psNode).isSome -> (RamFiles.rfs_write (v.files psNode) nPos.toNat buf memory).isSome
 | _ => True

/-- What `make` needs: a parent without a child of that name, a name that fits and memory that is
  not in use. -/
def Makes (psParent : Nat) (name : Name) (memory : Option Nat) : Prop :=
 ∃ parent ∈ v.tree.nodes psParent, find_child v.tree parent name = none ∧
  (name ≠ [] ∧ name.length < RFS_MAX_NAME_LEN) ∧ ∃ a ∈ memory, a ≠ 0 ∧ v.tree.nodes a = none

/-- A symbolic link that can be made gets memory for its path. A write that is not refused, for its
  size or for lack of memory, does not wrap around and does not end before the end of the file. -/
def Kept : Action -> Prop
 | .rfs_symlink psParent name _ memory stored => Makes v psParent name memory -> stored = true
 | .rfs_write psNode nPos buf memory =>
  (v.tree.nodes psNode).isSome -> (v.files psNode).Accepts ((nPos.toNat + buf.length) % 2^32) memory ->
   nPos.toNat + buf.length < 2^32 ∧ v.fn_nSize psNode ≤ nPos.toNat + buf.length
 | _ => True
end

variable {nMode : Nat} {memory : Option Nat} (b : Action)

/-! ### The total and the sum -/
def gap (v : Volume) (heap : Finset Nat) : Int := v.rv_nFSSize - ∑ a ∈ heap, (v.fn_nSize a : Int)
lemma accounted_iff_gap (on : OnHeap v heap) : Accounted v ↔ gap v heap = 0 := by
 constructor
 · rintro ⟨heap',on',total⟩
   have eq : heap' = heap := Finset.ext fun a => (on' a).trans (on a).symm
   rw [gap,total,eq,sub_self]
 intro zero
 exact ⟨heap,on,sub_eq_zero.mp zero⟩
lemma OnHeap.fresh (on : OnHeap v heap) (out : v.tree.nodes a = none) : a ∉ heap := by
 rw [on,out]
 simp
lemma OnHeap.member (on : OnHeap v heap) (hit : v.tree.nodes a = some node) : a ∈ heap := by
 rw [on,hit]
 rfl
lemma gap_resize (member : a ∈ heap) (others : ∀ x, x ≠ a -> v'.fn_nSize x = v.fn_nSize x) :
 gap v' heap = gap v heap + (v'.rv_nFSSize - v.rv_nFSSize) - (v'.fn_nSize a - v.fn_nSize a) := by
 have rest : ∑ x ∈ heap.erase a, (v'.fn_nSize x : Int) = ∑ x ∈ heap.erase a, (v.fn_nSize x : Int) := by
  refine Finset.sum_congr rfl fun x mem => ?_
  rw [others x (Finset.ne_of_mem_erase mem)]
 have pre := Finset.add_sum_erase heap (fun x => (v.fn_nSize x : Int)) member
 have after := Finset.add_sum_erase heap (fun x => (v'.fn_nSize x : Int)) member
 simp only [gap]
 omega
lemma gap_insert (fresh : a ∉ heap) (others : ∀ x, x ≠ a -> v'.fn_nSize x = v.fn_nSize x) :
 gap v' (insert a heap) = gap v heap + (v'.rv_nFSSize - v.rv_nFSSize) - v'.fn_nSize a := by
 have rest : ∑ x ∈ heap, (v'.fn_nSize x : Int) = ∑ x ∈ heap, (v.fn_nSize x : Int) := by
  refine Finset.sum_congr rfl fun x mem => ?_
  rw [others x (ne_of_mem_of_not_mem mem fresh)]
 rw [gap,gap,Finset.sum_insert fresh,rest]
 omega
lemma gap_erase (mem : a ∈ heap) (eq : v'.fn_nSize = v.fn_nSize)
 (total : v'.rv_nFSSize = v.rv_nFSSize - v.fn_nSize a) : gap v' (heap.erase a) = gap v heap := by
 have pre := Finset.add_sum_erase heap (fun x => (v.fn_nSize x : Int)) mem
 rw [gap,gap,eq,total]
 omega
lemma OnHeap.insert (on : OnHeap v heap) (kn : v.tree.nodes p = some parent)
 (tree : v'.tree = v.tree.insert p a parent node) : OnHeap v' (insert a heap) := by
 intro x
 rw [tree,insert_nodes,Finset.mem_insert,on]
 by_cases fst : x = a
 · simp [fst]
 by_cases snd : x = p
 · subst snd
   simp [fst,kn]
 · simp [fst,snd]
lemma OnHeap.detach (on : OnHeap v heap) (kn : v.tree.nodes p = some parent) (hit : v.tree.nodes c = some node)
 (left : Option RamNodes.FileNode) (tree : v'.tree = v.tree.detach p c parent left) :
 OnHeap v' (if left.isSome then heap else heap.erase c) := by
 intro x
 rw [tree,detach_nodes]
 by_cases fst : x = c
 · cases left <;> simp [fst,on c,hit]
 by_cases snd : x = p
 · subst snd
   cases left <;> simp [fst,on x,kn]
 · cases left <;> simp [fst,snd,on x]
lemma OnHeap.set (on : OnHeap v heap) (hit : v.tree.nodes c = some node) (left : Option RamNodes.FileNode) :
 OnHeap (v.set c left) (if left.isSome then heap else heap.erase c) := by
 intro x
 simp only [Volume.set,update_apply]
 by_cases fst : x = c
 · cases left <;> simp [fst,on c,hit]
 · cases left <;> simp [fst,on x]

/-! ### One call -/
lemma make_made (makes : Makes v p name memory) (nMode : Nat) (failure : Int) :
 ∃ a parent, v.tree.nodes p = some parent ∧ v.tree.nodes a = none ∧
  ∀ finish, make v p name nMode memory failure finish =
   finish a (v.zeroed a (v.tree.insert p a parent (new_node p name nMode a))) := by
 obtain ⟨parent,kn,new,⟨nonempty,short⟩,a,rfl,nonzero,fresh⟩ := makes
 refine ⟨a,parent,kn,fresh,fun finish => ?_⟩
 have kn : v.tree.nodes p = some parent := kn
 have long : ¬ (name.length < 1 ∨ RFS_MAX_NAME_LEN ≤ name.length) := by
  have := List.length_pos_of_ne_nil nonempty
  omega
 have used : ¬ (a = 0 ∨ (v.tree.nodes a).isSome) := by simp [nonzero,fresh]
 simp only [make,kn,new,rfs_create_node,if_neg long,if_neg used,bind_eq_bind,bind_some,isSome_none,Bool.false_eq_true,
  if_false,map_some]
lemma make_refused {failure : Int} {finish : Nat -> Volume -> Option (Int × Volume)}
 (refused : ¬ Makes v p name memory) (ran : make v p name nMode memory failure finish = some (rc,v')) : v' = v := by
 rw [make,bind_eq_bind] at ran
 obtain ⟨parent,kn,ran⟩ := bind_eq_some_iff.mp ran
 split_ifs at ran with hit
 · cases ran
   rfl
 obtain ⟨⟨made,tree⟩,created,ran⟩ := bind_eq_some_iff.mp ran
 obtain ⟨rfl,rfl⟩ | ⟨a,given,_,nonzero,fresh,fits,_⟩ := create_node_cases kn created
 · cases ran
   rfl
 · exact absurd ⟨parent,kn,not_isSome_iff_eq_none.mp hit,fits,a,given,nonzero,fresh⟩ refused
lemma zeroed_size (tree : RamNodes.Volume) : ∀ x, x ≠ a -> (v.zeroed a tree).fn_nSize x = v.fn_nSize x := by
 intro x ne
 simp only [Volume.fn_nSize,Volume.zeroed,update_of_ne ne]
lemma make_gap {failure : Int} (on : OnHeap v heap)
 (ran : make v p name nMode memory failure (fun _ v' => some (0,v')) = some (rc,v')) :
 ∃ heap', OnHeap v' heap' ∧ gap v' heap' = gap v heap := by
 by_cases makes : Makes v p name memory
 swap
 · obtain rfl := make_refused makes ran
   exact ⟨heap,on,rfl⟩
 obtain ⟨a,parent,kn,fresh,made⟩ := make_made makes nMode failure
 rw [made] at ran
 cases ran
 refine ⟨insert a heap,on.insert kn rfl,?_⟩
 rw [gap_insert (on.fresh fresh) (zeroed_size _)]
 simp [Volume.fn_nSize,Volume.zeroed,RamFiles.empty]
lemma delete_zeroed (kn : v.tree.nodes p = some parent) (fresh : v.tree.nodes a = none) (fn_nSize : Nat) :
 rfs_delete_node (v.zeroed a (v.tree.insert p a parent (new_node p name nMode a))) a fn_nSize =
  some {v.zeroed a v.tree with rv_nFSSize := v.rv_nFSSize - fn_nSize} := by
 have hit : (v.tree.insert p a parent (new_node p name nMode a)).nodes a = some (new_node p name nMode a) := by
  simp [insert_nodes]
 have undone : RamNodes.rfs_delete_node (v.tree.insert p a parent (new_node p name nMode a)) a = some v.tree :=
  delete_insert kn fresh rfl
 simp only [rfs_delete_node,Volume.zeroed,hit,undone,bind_eq_bind,bind_some]
 rfl
lemma symlink_gap {path : Path} {stored : Bool} (on : OnHeap v heap)
 (ran : rfs_symlink v p name path memory stored = some (rc,v')) :
 ∃ heap', OnHeap v' heap' ∧ (gap v' heap' = gap v heap ↔ Kept v (.rfs_symlink p name path memory stored)) := by
 rw [Kept]
 by_cases makes : Makes v p name memory
 swap
 · obtain rfl := make_refused makes ran
   exact ⟨heap,on,iff_of_true rfl (fun made => absurd made makes)⟩
 obtain ⟨a,parent,kn,fresh,made⟩ := make_made makes (S_IFLNK ||| S_IRUGO ||| S_IWUGO) (-ENOMEM)
 rw [rfs_symlink,made] at ran
 cases stored with
 | true =>
  cases ran
  refine ⟨insert a heap,on.insert kn rfl,iff_of_true ?_ (fun _ => rfl)⟩
  rw [gap_insert (v := v) (on.fresh fresh)]
  · simp [Volume.fn_nSize,Volume.zeroed,link_file]
  intro x ne
  simp [Volume.fn_nSize,Volume.zeroed,ne]
 | false =>
  simp only [Bool.false_eq_true,if_false,delete_zeroed kn fresh,map_some,some.injEq] at ran
  cases ran
  refine ⟨heap,on,iff_of_false ?_ (fun kept => ?_)⟩
  · have rest : ∑ x ∈ heap, ((v.zeroed a v.tree).fn_nSize x : Int) = ∑ x ∈ heap, (v.fn_nSize x : Int) := by
     refine Finset.sum_congr rfl fun x mem => ?_
     rw [zeroed_size v.tree x (ne_of_mem_of_not_mem mem (on.fresh fresh))]
    have changed : gap {v.zeroed a v.tree with rv_nFSSize := v.rv_nFSSize - (path.val.length + 1 : Nat)} heap =
      gap v heap - (path.val.length + 1 : Nat) := by
     simp only [gap,Volume.fn_nSize] at rest ⊢
     rw [rest]
     omega
    rw [changed]
    omega
  · exact absurd (kept makes) (by decide)
lemma added_eq_iff (file : RamFiles.FileNode) (last : Nat) :
 RamFiles.added file last = (last : Int) - file.fn_nSize ↔ file.fn_nSize ≤ last := by
 have fits := file.fits
 rw [RamFiles.added]
 split_ifs with grows
 · refine iff_of_true rfl ?_
   obtain longer | absent := grows
   · exact longer.le
   simp only [absent,getD_none,List.length_nil] at fits
   omega
 have mem : ¬ file.fn_nSize < last := fun longer => grows (.inl longer)
 omega
lemma write_gap {nPos : UInt32} {buf : List UInt8} {memory : Option (Nat -> UInt8)} (on : OnHeap v heap)
 (ran : rfs_write v a nPos buf memory = some (rc,v')) :
 ∃ heap', OnHeap v' heap' ∧ (gap v' heap' = gap v heap ↔ Kept v (.rfs_write a nPos buf memory)) := by
 rw [rfs_write,bind_eq_bind] at ran
 obtain ⟨node,hit,ran⟩ := bind_eq_some_iff.mp ran
 rw [bind_eq_bind] at ran
 obtain ⟨⟨nError,file⟩,called,ran⟩ := bind_eq_some_iff.mp ran
 by_cases took : (v.files a).Accepts ((nPos.toNat + buf.length) % 2^32) memory
 swap
 · obtain ⟨err,code,refused⟩ := RamFiles.write_refused took
   rw [refused] at called
   cases called
   simp only [(RamFiles.refusal_moves code).1,if_true,some.injEq,Prod.mk.injEq] at ran
   obtain ⟨_,rfl⟩ := ran
   exact ⟨heap,on,iff_of_true rfl (fun _ goes => absurd goes took)⟩
 have lt : nPos.toNat + buf.length < 2^32 := by
  by_contra wraps
  rw [RamFiles.write_stray took (by omega)] at called
  cases called
 simp only [Kept,hit,isSome_some,took,lt,true_and,true_imp_iff]
 rw [Nat.mod_eq_of_lt lt] at took
 obtain ⟨file',made,contents⟩ := RamFiles.write_made took
 rw [made] at called
 cases called
 have succeeds : ¬ (buf.length : Int) < 0 := by omega
 simp only [succeeds,if_false,some.injEq,Prod.mk.injEq] at ran
 obtain ⟨rfl,rfl⟩ := ran
 have size : file.fn_nSize = nPos.toNat + buf.length := by
  rw [<- RamFiles.contents_length,contents]
  simp [RamFiles.written]
 have exact := added_eq_iff (v.files a) (nPos.toNat + buf.length)
 refine ⟨heap,on,?_⟩
 rw [gap_resize (v := v) (on.member hit)]
 · simp only [Volume.fn_nSize,Function.update_self,size]
   rw [<- exact]
   omega
 intro x ne
 simp only [Volume.fn_nSize,update_of_ne ne]
lemma remove_gap {refuse : RamNodes.FileNode -> Option Int} (on : OnHeap v heap)
 (ran : remove v p name refuse = some (rc,v')) : ∃ heap', OnHeap v' heap' ∧ gap v' heap' = gap v heap := by
 rw [remove,bind_eq_bind] at ran
 obtain ⟨parent,kn,ran⟩ := bind_eq_some_iff.mp ran
 cases hit : find_child v.tree parent name with
 | none =>
  simp only [hit] at ran
  cases ran
  exact ⟨heap,on,rfl⟩
 | some c =>
  simp only [hit] at ran
  obtain ⟨node,there,ran⟩ := bind_eq_some_iff.mp ran
  cases refused : refuse node with
  | some nError =>
   simp only [refused] at ran
   cases ran
   exact ⟨heap,on,rfl⟩
  | none =>
   simp only [refused] at ran
   obtain ⟨_,ran⟩ := ite_none_left_eq_some.mp ran
   split_ifs at ran with loaded
   · cases ran
     exact ⟨heap,on.detach kn there (some _) rfl,rfl⟩
   cases ran
   exact ⟨heap.erase c,on.detach kn there none rfl,gap_erase (on.member there) rfl rfl⟩
lemma set_gap (hit : v.tree.nodes c = some node) (on : OnHeap v heap) (left : RamNodes.FileNode) :
 ∃ heap', OnHeap (v.set c (some left)) heap' ∧ gap (v.set c (some left)) heap' = gap v heap :=
 ⟨heap,on.set hit (some left),rfl⟩
lemma read_inode_gap {nInodeNum : UInt16} (on : OnHeap v heap) (ran : rfs_read_inode v nInodeNum = some (rc,v')) :
 ∃ heap', OnHeap v' heap' ∧ gap v' heap' = gap v heap := by
 rw [rfs_read_inode,bind_eq_bind] at ran
 generalize (if nInodeNum.toNat = RFS_ROOT then v.tree.rv_psRootNode else nInodeNum.toNat) = psNode at ran
 obtain ⟨node,hit,ran⟩ := bind_eq_some_iff.mp ran
 split_ifs at ran with invalid
 · cases ran
   exact ⟨heap,on,rfl⟩
 cases ran
 exact set_gap hit on _
lemma write_inode_gap (on : OnHeap v heap) (ran : rfs_write_inode v a = some (rc,v')) :
 ∃ heap', OnHeap v' heap' ∧ gap v' heap' = gap v heap := by
 rw [rfs_write_inode,bind_eq_bind] at ran
 obtain ⟨node,hit,ran⟩ := bind_eq_some_iff.mp ran
 split_ifs at ran with last
 · cases ran
   exact ⟨heap.erase a,on.set hit none,gap_erase (on.member hit) rfl rfl⟩
 cases ran
 exact set_gap hit on _
lemma step_gap (on : OnHeap v heap) (ran : step v b = some v') :
 ∃ heap', OnHeap v' heap' ∧ (gap v' heap' = gap v heap ↔ Kept v b) := by
 obtain ⟨⟨rc,after⟩,called,eq⟩ := map_eq_some_iff.mp ran
 change after = v' at eq
 subst eq
 have always : (∃ heap', OnHeap after heap' ∧ gap after heap' = gap v heap) -> Kept v b ->
   ∃ heap', OnHeap after heap' ∧ (gap after heap' = gap v heap ↔ Kept v b) := by
  rintro ⟨heap',on',eq⟩ kept
  exact ⟨heap',on',iff_of_true eq kept⟩
 cases b with
 | rfs_create psParent name nPerms memory => exact always (make_gap on called) trivial
 | rfs_mkdir psParent name nPerms memory => exact always (make_gap on called) trivial
 | rfs_symlink psParent name path memory stored => exact symlink_gap on called
 | rfs_write psNode nPos buf memory => exact write_gap on called
 | rfs_unlink psParent name => exact always (remove_gap on called) trivial
 | rfs_rmdir psParent name => exact always (remove_gap on called) trivial
 | rfs_read_inode nInodeNum => exact always (read_inode_gap on called) trivial
 | rfs_write_inode psNode => exact always (write_inode_gap on called) trivial
lemma step_of_not_kept (out : ¬ Kept v b) (inside : Inside v b) : ∃ v', step v b = some v' := by
 cases b with
 | rfs_symlink psParent name path memory stored =>
  obtain ⟨makes,unstored⟩ := Classical.not_imp.mp out
  rw [Bool.not_eq_true] at unstored
  subst unstored
  obtain ⟨a,parent,kn,fresh,made⟩ := make_made makes (S_IFLNK ||| S_IRUGO ||| S_IWUGO) (-ENOMEM)
  simp [step,call,rfs_symlink,made,delete_zeroed kn fresh]
 | rfs_write psNode nPos buf memory =>
  obtain ⟨hit,_⟩ := Classical.not_imp.mp out
  obtain ⟨⟨nError,file⟩,ran⟩ := isSome_iff_exists.mp (inside hit)
  obtain ⟨node,hit⟩ := isSome_iff_exists.mp hit
  simp only [step,call,rfs_write,hit,ran,bind_eq_bind,bind_some]
  split_ifs <;> exact ⟨_,rfl⟩
 | _ => exact absurd trivial out
lemma inside_of_kept (kept : Kept v b) : Inside v b := by
 cases b with
 | rfs_write psNode nPos buf memory =>
  intro hit
  by_cases took : (v.files psNode).Accepts ((nPos.toNat + buf.length) % 2^32) memory
  · have lt := (kept hit took).1
    rw [Nat.mod_eq_of_lt lt] at took
    obtain ⟨_,made,_⟩ := RamFiles.write_made took
    simp [made]
  · obtain ⟨_,_,refused⟩ := RamFiles.write_refused took
    simp [refused]
 | _ => trivial

/-! ### Whole runs -/
lemma mount_on_heap (root : Nat) : OnHeap (rfs_mount root) {root} := by
 intro a
 rw [Finset.mem_singleton]
 by_cases eq : a = root <;> simp [rfs_mount,RamNodes.rfs_mount,eq]
theorem accounted_iff (root : Nat) (actions : List Action) :
 Along step Accounted Inside (rfs_mount root) actions ↔ Meets step Kept (rfs_mount root) actions := by
 refine along_iff (I := Accounted) (fun _ holds => holds) (fun _ b _ kept => inside_of_kept b kept) ?_ ?_ actions _ ?_
 · rintro v b v' ⟨heap,on,total⟩ kept taken
   obtain ⟨heap',on',eq⟩ := step_gap b on taken
   rw [accounted_iff_gap on',eq.mpr kept]
   exact sub_eq_zero.mpr total
 · rintro v b ⟨heap,on,total⟩ out inside
   obtain ⟨v',taken⟩ := step_of_not_kept b out inside
   obtain ⟨heap',on',eq⟩ := step_gap b on taken
   refine ⟨v',taken,fun holds => out (eq.mp ?_)⟩
   rw [(accounted_iff_gap on').mp holds]
   exact (sub_eq_zero.mpr total).symm
 · exact ⟨{root},mount_on_heap root,by simp [rfs_mount,Volume.fn_nSize,RamFiles.empty]⟩
theorem overwritten_counted :
 ∃ v, run step (rfs_mount 0x1000) [.rfs_create 0x1000 [97] 0 (some 0x2000),.rfs_write 0x2000 0 [1,2] (some fun _ => 0),
   .rfs_write 0x2000 0 [3] none] = some v ∧
  OnHeap v {0x1000,0x2000} ∧ v.rv_nFSSize = 2 ∧ v.fn_nSize 0x1000 = 0 ∧ v.fn_nSize 0x2000 = 1 := by
 refine ⟨_,rfl,?_,by decide +kernel,by decide +kernel,by decide +kernel⟩
 intro a
 simp only [rfs_mount,Volume.zeroed,RamNodes.rfs_mount,Volume.insert,update_apply]
 by_cases file : a = 0x2000
 · simp [file]
 by_cases directory : a = 0x1000
 · simp [directory]
 · simp [file,directory]

end Netbas.RamSizes
