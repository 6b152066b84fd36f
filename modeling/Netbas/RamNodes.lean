import Netbas.Runs
import Netbas.Inodes

/-!
The tree of the memory file system. The number of a node is the address that `kmalloc` gave it, but
`rfs_lookup` returns it as an `ino_t` of 16 bits in which 0 stands for a name that is not there
(`identified_iff`).
-/
namespace Netbas.RamNodes
open Runs Inodes FileTable Relation List Option
open Function
def RFS_MAX_NAME_LEN : Nat := 64
def RFS_ROOT : Nat := 1
def ENOMEM : Int := 12
def EEXIST : Int := 17
def ENOTDIR : Int := 20
def EISDIR : Int := 21
def ENOTEMPTY : Int := 39
def S_IFMT : Nat := 0o170000
def S_IFDIR : Nat := 0o040000
def S_IFREG : Nat := 0o100000
def S_IFLNK : Nat := 0o120000
def S_IRWXUGO : Nat := 0o777
def S_IRUGO : Nat := 0o444
def S_IWUGO : Nat := 0o222
def S_ISDIR (m : Nat) : Prop := m &&& S_IFMT = S_IFDIR
instance (m : Nat) : Decidable (S_ISDIR m) := inferInstanceAs (Decidable (m &&& S_IFMT = S_IFDIR))
abbrev Name := List UInt8
def isspace (c : UInt8) : Prop := c = 0x20 ∨ c = 0x0a ∨ c = 0x09
def isprint (c : UInt8) : Prop := isspace c ∨ 0x20 ≤ c ∧ c ≤ 0x7e
instance (c : UInt8) : Decidable (isspace c) := inferInstanceAs (Decidable (_ ∨ _ ∨ _))
instance (c : UInt8) : Decidable (isprint c) := inferInstanceAs (Decidable (_ ∨ _ ∧ _))
structure FileNode where
 fn_psParent : Option Nat
 children : List Nat
 fn_nInodeNum : Nat
 fn_nMode : Nat
 fn_bIsLoaded : Bool
 fn_zName : Name
structure Volume where
 nodes : Nat -> Option FileNode
 rv_psRootNode : Nat

variable {v v' : Volume} {p c a x : Nat} {parent node left : FileNode} {name : Name}
def ino_t (nInodeNum : Nat) : Nat := nInodeNum % 65536

section
variable (v : Volume)
/-- The first child with the name. Names on the heap end at their first zero, so that equal lengths
  and equal characters are equal names. -/
def find_child (parent : FileNode) (name : Name) : Option Nat :=
 parent.children.find? (fun c => (v.nodes c).map FileNode.fn_zName = some name)
def dot : Name := [46]
def dotdot : Name := [46,46]

section
variable (psParent : Nat)
section
variable (name : Name)
/-- No value stands for reading a node that has been freed; `some none` for `NULL`. -/
def rfs_find_node : Option (Option Nat) := do
 let parent <- v.nodes psParent
 if name = dot then some (some psParent)
 else if name = dotdot then some parent.fn_psParent
 else some (find_child v parent name)
def looked_up (nInodeNum : Nat) : Int × Nat :=
 if ino_t nInodeNum ≠ 0 then (0,ino_t nInodeNum) else (-ENOENT,0)
def rfs_lookup : Option (Int × Nat) := do
 let parent <- v.nodes psParent
 if name = dot then some (looked_up parent.fn_nInodeNum)
 else if name = dotdot then
  match parent.fn_psParent with
  | some up => (v.nodes up).map (fun up => looked_up up.fn_nInodeNum)
  | none => some (-ENOENT,0)
 else if name.length = 1 ∧ ¬ isprint (name.headD 0) then some (-ENOENT,0)
 else
  match find_child v parent name with
  | some c => (v.nodes c).map (fun child => looked_up child.fn_nInodeNum)
  | none => some (-ENOENT,0)
def ramfs_opendir (disk : Disk) (v : Volume) (vnode : Table) (dev pParent : Nat) (filepath : Name) :
  Option (Nat × Nat × Table) := do
 let (err,pnResInode) <- rfs_lookup v pParent filepath
 if err ≠ 0 then none
 else
  let found <- rfs_find_node v pParent filepath
  let pstNode <- found
  let (new,vnode') <- iget disk vnode dev pnResInode
  some (new,pstNode,vnode')

/-! ### Making and removing nodes -/
def Volume.insert (p a : Nat) (parent node : FileNode) : Volume where
 nodes := update (update v.nodes p (some {parent with children := a :: parent.children})) a (some node)
 rv_psRootNode := v.rv_psRootNode
def Volume.detach (p c : Nat) (parent : FileNode) (left : Option FileNode) : Volume where
 nodes := update (update v.nodes p (some {parent with children := parent.children.erase c})) c left
 rv_psRootNode := v.rv_psRootNode
def new_node (nMode a : Nat) : FileNode where
 fn_psParent := some psParent
 children := []
 fn_nInodeNum := a
 fn_nMode := nMode
 fn_bIsLoaded := false
 fn_zName := name.takeWhile (· ≠ 0)

/-- `memory` is the address that `kmalloc` gives, which is not that of another node. -/
def rfs_create_node (nMode : Nat) (memory : Option Nat) :
  Option (Option Nat × Volume) :=
 if name.length < 1 ∨ RFS_MAX_NAME_LEN ≤ name.length then some (none,v)
 else
  match memory with
  | none => some (none,v)
  | some a =>
   if a = 0 ∨ (v.nodes a).isSome then none
   else (v.nodes psParent).map (fun parent => (some a,v.insert psParent a parent (new_node psParent name nMode a)))
end
end
def rfs_delete_node (psNode : Nat) : Option Volume := do
 let node <- v.nodes psNode
 match node.fn_psParent with
 | none => some v
 | some psParent =>
  let parent <- v.nodes psParent
  some (v.detach psParent psNode parent none)
section
variable (psParent : Nat)
section
variable (name : Name)
def make (nMode : Nat) (memory : Option Nat) (failure : Int)
  (finish : Nat -> Volume -> Option (Int × Volume)) : Option (Int × Volume) := do
 let parent <- v.nodes psParent
 if (find_child v parent name).isSome then some (-EEXIST,v)
 else
  match <- rfs_create_node v psParent name nMode memory with
  | (none,v') => some (failure,v')
  | (some psNode,v') => finish psNode v'
def rfs_mkdir (nPerms : Nat) (memory : Option Nat) : Option (Int × Volume) :=
 make v psParent name (S_IFDIR ||| (nPerms &&& S_IRWXUGO)) memory (-1) (fun _ v' => some (0,v'))
def rfs_create (nPerms : Nat) (memory : Option Nat) : Option (Int × Volume) :=
 make v psParent name (S_IFREG ||| (nPerms &&& 0o777)) memory (-ENOMEM) (fun _ v' => some (0,v'))

/-- The path of the link needs memory of its own; `stored` says whether there was any. -/
def rfs_symlink (memory : Option Nat) (stored : Bool) : Option (Int × Volume) :=
 make v psParent name (S_IFLNK ||| S_IRUGO ||| S_IWUGO) memory (-ENOMEM) (fun psNode v' =>
  if stored then some (0,v') else (rfs_delete_node v' psNode).map (fun v'' => (-ENOMEM,v'')))
def remove (refuse : FileNode -> Option Int) : Option (Int × Volume) := do
 let parent <- v.nodes psParent
 match find_child v parent name with
 | none => some (-ENOENT,v)
 | some psNode =>
  let node <- v.nodes psNode
  match refuse node with
  | some nError => some (nError,v)
  | none => some (0,v.detach psParent psNode parent (if node.fn_bIsLoaded then some {node with fn_psParent := none} else none))
def rfs_unlink : Option (Int × Volume) :=
 remove v psParent name (fun node => if S_ISDIR node.fn_nMode then some (-EISDIR) else none)
def rfs_rmdir : Option (Int × Volume) :=
 remove v psParent name (fun node =>
  if ¬ S_ISDIR node.fn_nMode then some (-ENOTDIR) else if node.children ≠ [] then some (-ENOTEMPTY) else none)
end
end
end
def rfs_mount (root : Nat) : Volume where
 nodes := update (fun _ => none) root (some ⟨none,[],RFS_ROOT,0o777 ||| S_IFDIR,false,[]⟩)
 rv_psRootNode := root

/-! ### Runs -/
inductive Maker where
 | rfs_create (nPerms : Nat)
 | rfs_mkdir (nPerms : Nat)
 | rfs_symlink (stored : Bool)
inductive Action where
 | make (maker : Maker) (psParent : Nat) (name : Name) (memory : Option Nat)
 | rfs_unlink (psParent : Nat) (name : Name)
 | rfs_rmdir (psParent : Nat) (name : Name)
def Maker.call : Maker -> Volume -> Nat -> Name -> Option Nat -> Option (Int × Volume)
 | .rfs_create nPerms => fun v psParent name memory => RamNodes.rfs_create v psParent name nPerms memory
 | .rfs_mkdir nPerms => fun v psParent name memory => RamNodes.rfs_mkdir v psParent name nPerms memory
 | .rfs_symlink stored => fun v psParent name memory => RamNodes.rfs_symlink v psParent name memory stored
def call (v : Volume) : Action -> Option (Int × Volume)
 | .make maker psParent name memory => maker.call v psParent name memory
 | .rfs_unlink psParent name => rfs_unlink v psParent name
 | .rfs_rmdir psParent name => rfs_rmdir v psParent name
section
variable (v : Volume)
def step (a : Action) : Option Volume := (call v a).map Prod.snd
def Child (p c : Nat) : Prop := ∃ parent, v.nodes p = some parent ∧ c ∈ parent.children
def Live (a : Nat) : Prop := ReflTransGen (Child v) v.rv_psRootNode a
def ino (a : Nat) : Nat := (v.nodes a).elim 0 (fun node => ino_t node.fn_nInodeNum)
def expected : Option Nat -> Int × Nat
 | some a => (0,ino v a)
 | none => (-ENOENT,0)
end
structure Identified (v : Volume) : Prop where
 distinct : ∀ a b, Live v a -> Live v b -> ino v a = ino v b -> a = b
 lookup : ∀ psParent name, Live v psParent ->
  ∃ found, rfs_find_node v psParent name = some found ∧ rfs_lookup v psParent name = some (expected v found)
 /-- Two calls that find different nodes take different slots. -/
 slots : ∀ (disk : Disk) (vnode : Table) (dev p q : Nat) (name name' : Name) (first second : Nat × Nat × Table),
  (∀ i < NR_INODE, (vnode i).i_count < 65535) -> Live v p -> Live v q ->
  ramfs_opendir disk v vnode dev p name = some first -> ramfs_opendir disk v first.2.2 dev q name' = some second ->
  first.2.1 ≠ second.2.1 -> first.1 ≠ second.1
def Unprintable (name : Name) : Prop := name.length = 1 ∧ ¬ isprint (name.headD 0)

/-- A node made in a live directory is at an address whose low bits are not zero and not the number
  of a live node, and its name is not a single character that cannot be printed. -/
def Kept (v : Volume) : Action -> Prop
 | .make maker psParent name memory =>
  (maker.call v psParent name memory).map Prod.fst = some 0 -> Live v psParent ->
   (∀ a ∈ memory, ino_t a ≠ 0 ∧ ∀ b, Live v b -> ino v b ≠ ino_t a) ∧ ¬ Unprintable (name.takeWhile (· ≠ 0))
 | .rfs_unlink _ _ => True
 | .rfs_rmdir _ _ => True

/-! ### What a call does to the tree -/
lemma find_child_mem (hit : find_child v parent name = some c) : c ∈ parent.children :=
 mem_of_find?_eq_some hit
lemma find_child_name (hit : find_child v parent name = some c) :
 ∃ node, v.nodes c = some node ∧ node.fn_zName = name := by
 have eq := find?_some hit
 exact map_eq_some_iff.mp (by simpa using eq)
lemma create_node_cases {nMode : Nat} {memory made : Option Nat} (known : v.nodes p = some parent)
 (ran : rfs_create_node v p name nMode memory = some (made,v')) :
 (made = none ∧ v' = v) ∨ ∃ a, memory = some a ∧ made = some a ∧ a ≠ 0 ∧ v.nodes a = none ∧
  (name ≠ [] ∧ name.length < RFS_MAX_NAME_LEN) ∧ v' = v.insert p a parent (new_node p name nMode a) := by
 simp only [rfs_create_node] at ran
 split_ifs at ran with length
 · cases ran
   exact .inl ⟨rfl,rfl⟩
 cases memory with
 | none =>
  cases ran
  exact .inl ⟨rfl,rfl⟩
 | some a =>
  obtain ⟨new,ran⟩ := ite_none_left_eq_some.mp ran
  rw [known] at ran
  cases ran
  simp only [not_or,not_isSome_iff_eq_none] at new
  refine .inr ⟨a,rfl,rfl,new.1,new.2,⟨?_,by omega⟩,rfl⟩
  rintro rfl
  simp at length
lemma delete_insert (known : v.nodes p = some parent) (new : v.nodes a = none) (up : node.fn_psParent = some p) :
 rfs_delete_node (v.insert p a parent node) a = some v := by
 have ne : p ≠ a := by
  rintro rfl
  rw [new] at known
  cases known
 have hit : (v.insert p a parent node).nodes a = some node := by
  simp [Volume.insert]
 have above : (v.insert p a parent node).nodes p = some {parent with children := a :: parent.children} := by
  simp [Volume.insert,ne]
 simp only [rfs_delete_node,hit,bind_eq_bind,bind_some,up,above,Volume.detach,erase_cons_head]
 congr 1
 cases v with
 | mk nodes root =>
  simp only [Volume.insert,Volume.mk.injEq,and_true]
  funext x
  by_cases fst : x = a
  · subst fst
    simpa using new.symm
  by_cases snd : x = p
  · subst snd
    simpa [fst] using known.symm
  · simp [fst,snd]

variable {rc : Int}
lemma maker_cases {maker : Maker} {memory : Option Nat} (ran : maker.call v p name memory = some (rc,v')) :
 (rc ≠ 0 ∧ v' = v) ∨ (rc = 0 ∧ ∃ a parent nMode, memory = some a ∧ v.nodes p = some parent ∧ v.nodes a = none ∧
  find_child v parent name = none ∧ (name ≠ [] ∧ name.length < RFS_MAX_NAME_LEN) ∧
  v' = v.insert p a parent (new_node p name nMode a)) := by
 have common : ∀ (nMode : Nat) (failure : Int) (finish : Nat -> Volume -> Option (Int × Volume)), failure ≠ 0 ->
   (∀ a w, finish a w = some (0,w) ∨ finish a w = (rfs_delete_node w a).map (fun w' => (-ENOMEM,w'))) ->
   make v p name nMode memory failure finish = some (rc,v') ->
   (rc ≠ 0 ∧ v' = v) ∨ (rc = 0 ∧ ∃ a parent nMode, memory = some a ∧ v.nodes p = some parent ∧ v.nodes a = none ∧
    find_child v parent name = none ∧ (name ≠ [] ∧ name.length < RFS_MAX_NAME_LEN) ∧
    v' = v.insert p a parent (new_node p name nMode a)) := by
  intro nMode failure finish fails finishes ran
  rw [make,bind_eq_bind] at ran
  obtain ⟨parent,known,ran⟩ := bind_eq_some_iff.mp ran
  split_ifs at ran with hit
  · cases ran
    exact .inl ⟨by decide,rfl⟩
  rw [bind_eq_bind] at ran
  obtain ⟨⟨made,w⟩,created,finished⟩ := bind_eq_some_iff.mp ran
  obtain ⟨rfl,rfl⟩ | ⟨a,rfl,rfl,_,new,proper,rfl⟩ := create_node_cases known created
  · cases finished
    exact .inl ⟨fails,rfl⟩
  simp only at finished
  obtain done | undone := finishes a (v.insert p a parent (new_node p name nMode a))
  · rw [done] at finished
    cases finished
    exact .inr ⟨rfl,a,parent,nMode,rfl,known,new,not_isSome_iff_eq_none.mp hit,proper,rfl⟩
  rw [undone,delete_insert known new rfl] at finished
  cases finished
  exact .inl ⟨by decide,rfl⟩
 cases maker with
 | rfs_create nPerms => exact common _ _ _ (by decide) (fun _ _ => .inl rfl) ran
 | rfs_mkdir nPerms => exact common _ _ _ (by decide) (fun _ _ => .inl rfl) ran
 | rfs_symlink stored =>
  refine common _ _ _ (by decide) (fun a w => ?_) ran
  cases stored with
  | true => exact .inl rfl
  | false => exact .inr rfl
variable {refuse : FileNode -> Option Int}
lemma remove_cases (ran : remove v p name refuse = some (rc,v')) :
 v' = v ∨ rc = 0 ∧ ∃ c parent node left, v.nodes p = some parent ∧ c ∈ parent.children ∧ v.nodes c = some node ∧
  (left = none ∨ left = some {node with fn_psParent := none}) ∧ v' = v.detach p c parent left := by
 rw [remove,bind_eq_bind] at ran
 obtain ⟨parent,known,ran⟩ := bind_eq_some_iff.mp ran
 cases hit : find_child v parent name with
 | none =>
  simp only [hit] at ran
  cases ran
  exact .inl rfl
 | some c =>
  simp only [hit] at ran
  obtain ⟨node,there,ran⟩ := bind_eq_some_iff.mp ran
  cases refused : refuse node with
  | some nError =>
   simp only [refused] at ran
   cases ran
   exact .inl rfl
  | none =>
   simp only [refused] at ran
   cases ran
   refine .inr ⟨rfl,c,parent,node,_,known,find_child_mem hit,there,?_,rfl⟩
   split
   · exact .inr rfl
   · exact .inl rfl

/-! ### The tree -/
structure WellFormed (v : Volume) : Prop where
 root : ∃ node, v.nodes v.rv_psRootNode = some node ∧ node.fn_psParent = none
 child : ∀ p parent, v.nodes p = some parent -> ∀ c ∈ parent.children, ∃ node, v.nodes c = some node ∧ node.fn_psParent = some p
 nodup : ∀ p parent, v.nodes p = some parent -> parent.children.Nodup
 apart : ∀ p parent, v.nodes p = some parent -> p ∉ parent.children
lemma WellFormed.live_node (wf : WellFormed v) (live : Live v a) : ∃ node, v.nodes a = some node := by
 cases live with
 | refl =>
  obtain ⟨node,hit,_⟩ := wf.root
  exact ⟨node,hit⟩
 | tail _ edge =>
  obtain ⟨parent,known,mem⟩ := edge
  obtain ⟨node,hit,_⟩ := wf.child _ parent known _ mem
  exact ⟨node,hit⟩
lemma WellFormed.live_parent (wf : WellFormed v) (live : Live v a) (there : v.nodes a = some node) :
 ∀ up ∈ node.fn_psParent, Live v up := by
 intro up above
 cases live with
 | refl =>
  obtain ⟨root,known,none⟩ := wf.root
  rw [known] at there
  cases there
  rw [none] at above
  cases above
 | tail live edge =>
  obtain ⟨parent,known,mem⟩ := edge
  obtain ⟨child,hit,eq⟩ := wf.child _ parent known _ mem
  rw [there] at hit
  cases hit
  rw [eq] at above
  cases above
  exact live
lemma live_child (live : Live v p) (known : v.nodes p = some parent) (mem : c ∈ parent.children) : Live v c :=
 ReflTransGen.tail live ⟨parent,known,mem⟩
lemma insert_nodes (v : Volume) (p a : Nat) (parent node : FileNode) (x : Nat) :
 (v.insert p a parent node).nodes x =
  if x = a then some node else if x = p then some {parent with children := a :: parent.children} else v.nodes x := by
 simp only [Volume.insert,update_apply]
lemma detach_nodes (v : Volume) (p c : Nat) (parent : FileNode) (left : Option FileNode) (x : Nat) :
 (v.detach p c parent left).nodes x =
  if x = c then left else if x = p then some {parent with children := parent.children.erase c} else v.nodes x := by
 simp only [Volume.detach,update_apply]
def Same (node node' : FileNode) : Prop :=
 node'.fn_psParent = node.fn_psParent ∧ node'.fn_nInodeNum = node.fn_nInodeNum ∧ node'.fn_zName = node.fn_zName
lemma insert_same (node : FileNode) (known : v.nodes p = some parent) (new : v.nodes a = none) {old : FileNode} (hit : v.nodes x = some old) :
 ∃ old', (v.insert p a parent node).nodes x = some old' ∧ Same old old' ∧
  old'.children = if x = p then a :: parent.children else old.children := by
 have ne : x ≠ a := by
  rintro rfl
  rw [new] at hit
  cases hit
 rw [insert_nodes,if_neg ne]
 by_cases eq : x = p
 · subst eq
   rw [known] at hit
   cases hit
   exact ⟨_,if_pos rfl,⟨rfl,rfl,rfl⟩,by simp⟩
 · exact ⟨old,by rw [if_neg eq,hit],⟨rfl,rfl,rfl⟩,by simp [eq]⟩
lemma detach_same (left : Option FileNode) (known : v.nodes p = some parent) {old : FileNode} (hit : v.nodes x = some old)
 (ne : x ≠ c) : ∃ old', (v.detach p c parent left).nodes x = some old' ∧ Same old old' ∧
  old'.children = if x = p then parent.children.erase c else old.children := by
 rw [detach_nodes,if_neg ne]
 by_cases eq : x = p
 · subst eq
   rw [known] at hit
   cases hit
   exact ⟨_,if_pos rfl,⟨rfl,rfl,rfl⟩,by simp⟩
 · exact ⟨old,by rw [if_neg eq,hit],⟨rfl,rfl,rfl⟩,by simp [eq]⟩

section
variable (wf : WellFormed v) (known : v.nodes p = some parent)
include wf known
lemma WellFormed.insert (new : v.nodes a = none)
 (up : node.fn_psParent = some p) (leaf : node.children = []) : WellFormed (v.insert p a parent node) := by
 have ne : a ≠ p := by
  rintro rfl
  rw [new] at known
  cases known
 have unlisted : a ∉ parent.children := by
  intro mem
  obtain ⟨child,hit,_⟩ := wf.child p parent known a mem
  rw [new] at hit
  cases hit
 -- the node at an address is the new one, the parent with one more child, or an old one
 have split : ∀ q cur, (v.insert p a parent node).nodes q = some cur ->
   (q = a ∧ cur = node) ∨ (q = p ∧ cur = {parent with children := a :: parent.children}) ∨
    (q ≠ p ∧ v.nodes q = some cur) := by
  intro q cur hit
  rw [insert_nodes] at hit
  split_ifs at hit with fst snd
  · cases hit
    exact .inl ⟨fst,rfl⟩
  · cases hit
    exact .inr (.inl ⟨snd,rfl⟩)
  · exact .inr (.inr ⟨snd,hit⟩)
 -- children that were hit still name their parents
 have kept : ∀ c q, (∃ child, v.nodes c = some child ∧ child.fn_psParent = some q) ->
   ∃ child, (v.insert p a parent node).nodes c = some child ∧ child.fn_psParent = some q := by
  rintro c q ⟨child,hit,above⟩
  obtain ⟨child',hit',eq,_⟩ := insert_same node known new hit
  exact ⟨child',hit',eq.1.trans above⟩
 constructor
 · obtain ⟨root,hit,none⟩ := wf.root
   obtain ⟨root',hit',eq,_⟩ := insert_same node known new hit
   exact ⟨root',hit',eq.1.trans none⟩
 · intro q cur hit c mem
   obtain ⟨rfl,rfl⟩ | ⟨rfl,rfl⟩ | ⟨_,old⟩ := split q cur hit
   · rw [leaf] at mem
     cases mem
   · obtain rfl | before := mem_cons.mp mem
     · exact ⟨node,by simp [insert_nodes],up⟩
     · exact kept c q (wf.child q parent known c before)
   · exact kept c q (wf.child q cur old c mem)
 · intro q cur hit
   obtain ⟨rfl,rfl⟩ | ⟨rfl,rfl⟩ | ⟨_,old⟩ := split q cur hit
   · rw [leaf]
     exact nodup_nil
   · exact nodup_cons.mpr ⟨unlisted,wf.nodup q parent known⟩
   · exact wf.nodup q cur old
 intro q cur hit mem
 obtain ⟨rfl,rfl⟩ | ⟨rfl,rfl⟩ | ⟨_,old⟩ := split q cur hit
 · rw [leaf] at mem
   cases mem
 · obtain rfl | before := mem_cons.mp mem
   · exact ne rfl
   · exact wf.apart q parent known before
 · exact wf.apart q cur old mem
lemma WellFormed.detach_chain (child : c ∈ parent.children) (hit : v.nodes c = some node) {left : Option FileNode}
  (after : left = none ∨ left = some {node with fn_psParent := none}) {q : Nat} {current : FileNode}
  (now : (v.detach p c parent left).nodes q = some current) : ∃ old, v.nodes q = some old ∧
   current.children.Sublist old.children ∧ c ∉ current.children ∧ current.fn_nMode = old.fn_nMode := by
 rw [detach_nodes] at now
 split_ifs at now with fst snd
 · subst fst
   obtain rfl | rfl := after
   · cases now
   cases now
   exact ⟨node,hit,List.Sublist.refl _,wf.apart q node hit,rfl⟩
 · subst snd
   cases now
   exact ⟨parent,known,erase_sublist,(wf.nodup q parent known).not_mem_erase,rfl⟩
 refine ⟨current,now,List.Sublist.refl _,fun mem => snd ?_,rfl⟩
 obtain ⟨node',hit',above'⟩ := wf.child q current now c mem
 obtain ⟨node'',there'',above''⟩ := wf.child p parent known c child
 cases hit'.symm.trans there''
 exact some.inj (above'.symm.trans above'')
lemma WellFormed.detach (child : c ∈ parent.children)
 (there : v.nodes c = some node) {left : Option FileNode}
 (after : left = none ∨ left = some {node with fn_psParent := none}) : WellFormed (v.detach p c parent left) := by
 have above : node.fn_psParent = some p := by
  obtain ⟨node',there',above⟩ := wf.child p parent known c child
  rw [there] at there'
  cases there'
  exact above
 constructor
 · obtain ⟨root,hit,none⟩ := wf.root
   have ne : v.rv_psRootNode ≠ c := by
    rintro eq
    rw [eq,there] at hit
    cases hit
    rw [none] at above
    cases above
   obtain ⟨root',hit',eq,_⟩ := detach_same left known hit ne
   exact ⟨root',hit',eq.1.trans none⟩
 · intro q cur now x mem
   obtain ⟨old,pre,fewer,gone,_⟩ := wf.detach_chain known child there after now
   obtain ⟨child,hit,above⟩ := wf.child q old pre x (fewer.subset mem)
   have ne : x ≠ c := by
    rintro rfl
    exact gone mem
   obtain ⟨child',hit',eq,_⟩ := detach_same left known hit ne
   exact ⟨child',hit',eq.1.trans above⟩
 · intro q cur now
   obtain ⟨old,pre,fewer,_⟩ := wf.detach_chain known child there after now
   exact fewer.nodup (wf.nodup q old pre)
 intro q cur now mem
 obtain ⟨old,pre,fewer,_⟩ := wf.detach_chain known child there after now
 exact wf.apart q old pre (fewer.subset mem)
lemma live_insert (new : v.nodes a = none)
 (leaf : node.children = []) : Live (v.insert p a parent node) x ↔ Live v x ∨ (x = a ∧ Live v p) := by
 have grows : ∀ y, Live v y -> Live (v.insert p a parent node) y := by
  intro y live
  induction live with
  | refl => exact ReflTransGen.refl
  | tail _ edge ih =>
   obtain ⟨cur,there,mem⟩ := edge
   obtain ⟨current',hit',_,children⟩ := insert_same node known new there
   apply live_child ih hit'
   rw [children]
   split
   · rename_i eq
     subst eq
     rw [known] at there
     cases there
     exact mem_cons_of_mem _ mem
   · exact mem
 constructor
 · intro live
   induction live with
   | refl => exact .inl ReflTransGen.refl
   | tail _ edge ih =>
    obtain ⟨cur,there,mem⟩ := edge
    obtain old | ⟨rfl,_⟩ := ih
    · obtain ⟨pre,hit⟩ := wf.live_node old
      obtain ⟨current',hit',_,children⟩ := insert_same node known new hit
      rw [there] at hit'
      cases hit'
      rw [children] at mem
      split at mem
      · rename_i eq
        subst eq
        rw [known] at hit
        cases hit
        obtain rfl | inside := mem_cons.mp mem
        · exact .inr ⟨rfl,old⟩
        · exact .inl (live_child old known inside)
      · exact .inl (live_child old hit mem)
    rw [insert_nodes,if_pos rfl] at there
    cases there
    rw [leaf] at mem
    cases mem
 rintro (live | ⟨rfl,live⟩)
 · exact grows x live
 obtain ⟨parent',there,_,children⟩ := insert_same node known new known
 apply live_child (grows p live) there
 rw [children,if_pos rfl]
 exact mem_cons_self
lemma live_detach (child : c ∈ parent.children)
 {left : Option FileNode} (live : Live (v.detach p c parent left) x) : Live v x ∧ x ≠ c := by
 obtain ⟨node,there,above⟩ := wf.child p parent known c child
 induction live with
 | refl =>
  refine ⟨ReflTransGen.refl,?_⟩
  rintro eq
  obtain ⟨root,hit,none⟩ := wf.root
  have here : v.rv_psRootNode = c := eq
  rw [here,there] at hit
  cases hit
  rw [none] at above
  cases above
 | tail _ edge ih =>
  obtain ⟨old,ne⟩ := ih
  obtain ⟨cur,now,mem⟩ := edge
  obtain ⟨pre,hit⟩ := wf.live_node old
  obtain ⟨current',now',_,children⟩ := detach_same left known hit ne
  rw [now] at now'
  cases now'
  rw [children] at mem
  split at mem
  · rename_i eq
    subst eq
    rw [known] at hit
    cases hit
    refine ⟨live_child old known (mem_of_mem_erase mem),?_⟩
    rintro rfl
    exact (wf.nodup _ parent known).not_mem_erase mem
  rename_i elsewhere
  refine ⟨live_child old hit mem,?_⟩
  rintro rfl
  obtain ⟨node',hit',above'⟩ := wf.child _ pre hit _ mem
  rw [there] at hit'
  cases hit'
  exact elsewhere (some.inj (above'.symm.trans above))

end

/-! ### Numbers -/
structure Sound (v : Volume) : Prop where
 wf : WellFormed v
 nonzero : ∀ a, Live v a -> ino v a ≠ 0
 distinct : ∀ a b, Live v a -> Live v b -> ino v a = ino v b -> a = b
 printable : ∀ a node, Live v a -> v.nodes a = some node -> ¬ Unprintable node.fn_zName
lemma ino_eq (hit : v.nodes a = some node) : ino v a = ino_t node.fn_nInodeNum := by
 rw [ino,hit,elim_some]
lemma Same.ino_eq {node' : FileNode} (eq : Same node node') (hit : v.nodes a = some node)
 (hit' : v'.nodes a = some node') : ino v' a = ino v a := by
 rw [RamNodes.ino_eq hit,RamNodes.ino_eq hit',eq.2.1]
lemma looked_up_eq (hit : v.nodes a = some node) (ne0 : ino v a ≠ 0) :
 looked_up node.fn_nInodeNum = expected v (some a) := by
 rw [ino_eq hit] at ne0
 rw [looked_up,if_pos ne0,expected,ino_eq hit]
lemma WellFormed.find_live (wf : WellFormed v) (live : Live v p) (hit : rfs_find_node v p name = some (some a)) :
 Live v a := by
 obtain ⟨parent,known⟩ := wf.live_node live
 simp only [rfs_find_node,known,bind_eq_bind,bind_some] at hit
 split_ifs at hit with self up
 · cases hit
   exact live
 · exact wf.live_parent live known a (some.inj hit)
 · exact live_child live known (find_child_mem (some.inj hit))
lemma Sound.lookup (ok : Sound v) (name : Name) (live : Live v p) :
 ∃ hit, rfs_find_node v p name = some hit ∧ rfs_lookup v p name = some (expected v hit) := by
 obtain ⟨parent,known⟩ := ok.wf.live_node live
 simp only [rfs_find_node,rfs_lookup,known,bind_eq_bind,bind_some]
 by_cases self : name = dot
 · simp only [self,if_true]
   exact ⟨_,rfl,congrArg some (looked_up_eq known (ok.nonzero p live))⟩
 by_cases up : name = dotdot
 · subst up
   simp only [self,if_false,if_true]
   refine ⟨_,rfl,?_⟩
   cases above : parent.fn_psParent with
   | none => rfl
   | some q =>
    have liveUp := ok.wf.live_parent live known q above
    obtain ⟨node,there⟩ := ok.wf.live_node liveUp
    simp only [there,map_some]
    exact congrArg some (looked_up_eq there (ok.nonzero q liveUp))
 simp only [self,up,if_false]
 refine ⟨_,rfl,?_⟩
 cases hit : find_child v parent name with
 | none => simp [expected]
 | some c =>
  have liveChild := live_child live known (find_child_mem hit)
  obtain ⟨node,there,rfl⟩ := find_child_name hit
  have printable := ok.printable c node liveChild there
  rw [Unprintable] at printable
  rw [if_neg printable]
  simp only [there,map_some]
  exact congrArg some (looked_up_eq there (ok.nonzero c liveChild))
lemma Sound.opendir (ok : Sound v) {disk : Disk} {vnode : Table} {dev : Nat} {opened : Nat × Nat × Table} (live : Live v p)
 (called : ramfs_opendir disk v vnode dev p name = some opened) :
 Live v opened.2.1 ∧ iget disk vnode dev (ino v opened.2.1) = some (opened.1,opened.2.2) := by
 obtain ⟨hit,node,looked⟩ := ok.lookup name live
 simp only [ramfs_opendir,node,looked,bind_eq_bind,bind_some] at called
 cases hit with
 | none => simp [expected,ENOENT] at called
 | some a =>
  simp only [expected,ne_eq,not_true,if_false,bind_some] at called
  obtain ⟨⟨new,vnode'⟩,ran,eq⟩ := bind_eq_some_iff.mp called
  cases eq
  exact ⟨ok.wf.find_live live node,ran⟩
lemma Sound.identified (ok : Sound v) : Identified v where
 distinct := ok.distinct
 lookup := fun _ name live => ok.lookup name live
 slots := by
  intro disk vnode dev p q name name' fst snd few liveFirst liveSecond opened opened' ne
  obtain ⟨live,ran⟩ := ok.opendir liveFirst opened
  obtain ⟨live',taken'⟩ := ok.opendir liveSecond opened'
  apply iget_apart few ran taken'
  intro eq
  exact ne (ok.distinct _ _ live live' eq)
lemma Sound.detach (ok : Sound v) (known : v.nodes p = some parent) (child : c ∈ parent.children)
 (there : v.nodes c = some node) {left : Option FileNode}
 (after : left = none ∨ left = some {node with fn_psParent := none}) : Sound (v.detach p c parent left) := by
 -- a live node is as it was, but for its children
 have pre : ∀ x, Live (v.detach p c parent left) x -> ∃ old old', v.nodes x = some old ∧
   (v.detach p c parent left).nodes x = some old' ∧ Same old old' ∧ Live v x := by
  intro x live
  obtain ⟨live,ne⟩ := live_detach ok.wf known child live
  obtain ⟨old,hit⟩ := ok.wf.live_node live
  obtain ⟨old',hit',eq,_⟩ := detach_same left known hit ne
  exact ⟨old,old',hit,hit',eq,live⟩
 refine ⟨ok.wf.detach known child there after,?_,?_,?_⟩
 · intro x live
   obtain ⟨old,old',hit,hit',eq,live⟩ := pre x live
   rw [eq.ino_eq hit hit']
   exact ok.nonzero x live
 · intro x y liveX liveY equal
   obtain ⟨old,old',hit,hit',eq,liveX⟩ := pre x liveX
   obtain ⟨ne,other',foundY,foundY',sameY,liveY⟩ := pre y liveY
   rw [eq.ino_eq hit hit',sameY.ino_eq foundY foundY'] at equal
   exact ok.distinct x y liveX liveY equal
 intro x cur live now
 obtain ⟨old,old',hit,hit',eq,live⟩ := pre x live
 rw [hit'] at now
 cases now
 rw [eq.2.2]
 exact ok.printable x old live hit
lemma Sound.insert (ok : Sound v) (known : v.nodes p = some parent) (fresh : v.nodes a = none)
 (up : node.fn_psParent = some p) (leaf : node.children = [])
 (kept : Live v p -> ino_t node.fn_nInodeNum ≠ 0 ∧ (∀ b, Live v b -> ino v b ≠ ino_t node.fn_nInodeNum) ∧
  ¬ Unprintable node.fn_zName) : Sound (v.insert p a parent node) := by
 have here : (v.insert p a parent node).nodes a = some node := by
  simp [insert_nodes]
 have split : ∀ x, Live (v.insert p a parent node) x -> (∃ old old', v.nodes x = some old ∧
   (v.insert p a parent node).nodes x = some old' ∧ Same old old' ∧ Live v x) ∨ (x = a ∧ Live v p) := by
  intro x live
  obtain live | new := (live_insert ok.wf known fresh leaf).mp live
  · obtain ⟨old,hit⟩ := ok.wf.live_node live
    obtain ⟨old',hit',eq,_⟩ := insert_same node known fresh hit
    exact .inl ⟨old,old',hit,hit',eq,live⟩
  · exact .inr new
 refine ⟨ok.wf.insert known fresh up leaf,?_,?_,?_⟩
 · intro x live
   obtain ⟨old,old',hit,hit',eq,live⟩ | ⟨rfl,liveUp⟩ := split x live
   · rw [eq.ino_eq hit hit']
     exact ok.nonzero x live
   rw [ino_eq here]
   exact (kept liveUp).1
 · intro x y liveX liveY equal
   obtain ⟨old,old',hit,hit',eq,oldX⟩ | ⟨rfl,liveUp⟩ := split x liveX
   · rw [eq.ino_eq hit hit'] at equal
     obtain ⟨ne,other',foundY,foundY',sameY,oldY⟩ | ⟨rfl,liveUp⟩ := split y liveY
     · rw [sameY.ino_eq foundY foundY'] at equal
       exact ok.distinct x y oldX oldY equal
     rw [ino_eq here] at equal
     exact absurd equal ((kept liveUp).2.1 x oldX)
   obtain ⟨ne,other',foundY,foundY',sameY,oldY⟩ | ⟨rfl,_⟩ := split y liveY
   · rw [sameY.ino_eq foundY foundY',ino_eq here] at equal
     exact absurd equal.symm ((kept liveUp).2.1 y oldY)
   · rfl
 intro x cur live now
 obtain ⟨old,old',hit,hit',eq,live⟩ | ⟨rfl,liveUp⟩ := split x live
 · rw [hit'] at now
   cases now
   rw [eq.2.2]
   exact ok.printable x old live hit
 rw [here] at now
 cases now
 exact (kept liveUp).2.2

/-! ### Whole runs -/
lemma Sound.remove (ok : Sound v)
 (ran : remove v p name refuse = some (rc,v')) : Sound v' := by
 obtain rfl | ⟨_,c,parent,node,left,known,child,hit,after,rfl⟩ := remove_cases ran
 · exact ok
 · exact ok.detach known child hit after
lemma step_sound (a : Action) (ok : Sound v) (kept : Kept v a) (ran : step v a = some v') : Sound v' := by
 obtain ⟨⟨rc,w⟩,called,rfl⟩ := map_eq_some_iff.mp ran
 cases a with
 | make maker psParent name memory =>
  have returned : (maker.call v psParent name memory).map Prod.fst = some rc := by
   rw [show maker.call v psParent name memory = _ from called]
   rfl
  obtain ⟨_,rfl⟩ | ⟨rfl,a,parent,nMode,rfl,known,new,_,_,rfl⟩ := maker_cases called
  · exact ok
  refine ok.insert known new rfl rfl fun live => ?_
  obtain ⟨numbers,printable⟩ := kept returned live
  exact ⟨(numbers a rfl).1,(numbers a rfl).2,printable⟩
 | rfs_unlink psParent name => exact ok.remove called
 | rfs_rmdir psParent name => exact ok.remove called
lemma insert_broken (ok : Sound v) (known : v.nodes p = some parent) (fresh : v.nodes a = none)
 (leaf : node.children = []) (live : Live v p) (identified : Identified (v.insert p a parent node)) :
 ino_t node.fn_nInodeNum ≠ 0 ∧ (∀ b, Live v b -> ino v b ≠ ino_t node.fn_nInodeNum) ∧ ¬ Unprintable node.fn_zName := by
 have here : (v.insert p a parent node).nodes a = some node := by
  simp [insert_nodes]
 have new : Live (v.insert p a parent node) a := (live_insert ok.wf known fresh leaf).mpr (.inr ⟨rfl,live⟩)
 refine ⟨fun zero => ?_,fun b old eq => ?_,fun refused => ?_⟩
 · -- the node does not find itself
   obtain ⟨hit,node,looked⟩ := identified.lookup a dot new
   simp only [rfs_find_node,rfs_lookup,here,bind_eq_bind,bind_some,if_true,some.injEq] at node looked
   rw [<- node,looked_up,if_neg (not_not.mpr zero)] at looked
   exact absurd (congrArg Prod.fst looked) (by simp [expected,ENOENT])
 · obtain ⟨pre,there⟩ := ok.wf.live_node old
   obtain ⟨after,hit',kept,_⟩ := insert_same node known fresh there
   have equal := identified.distinct b a ((live_insert ok.wf known fresh leaf).mpr (.inl old)) new
    (by rw [kept.ino_eq there hit',eq,ino_eq here])
   subst equal
   rw [fresh] at there
   cases there
 -- the parent does not find the node by its name
 obtain ⟨parent',there,_,children⟩ := insert_same node known fresh known
 rw [if_pos rfl] at children
 obtain ⟨hit,reached,looked⟩ := identified.lookup p node.fn_zName
  ((live_insert ok.wf known fresh leaf).mpr (.inl live))
 have self : node.fn_zName ≠ dot := by
  intro eq
  rw [eq] at refused
  exact refused.2 (by decide)
 have up : node.fn_zName ≠ dotdot := by
  intro eq
  rw [eq] at refused
  exact absurd refused.1 (by decide)
 have fst : find_child (v.insert p a parent node) parent' node.fn_zName = some a := by
  rw [find_child,children,find?_cons_of_pos]
  simp [here]
 rw [Unprintable] at refused
 simp only [rfs_find_node,there,bind_eq_bind,bind_some,self,up,if_false,fst,some.injEq] at reached
 simp only [rfs_lookup,there,bind_eq_bind,bind_some,self,up,if_false,refused,not_false_eq_true,and_self,
  if_true,some.injEq,<- reached] at looked
 exact absurd (congrArg Prod.fst looked) (by simp [expected,ENOENT])
lemma step_broken (a : Action) (ok : Sound v) (out : ¬ Kept v a) : ∃ v', step v a = some v' ∧ ¬ Identified v' := by
 cases a with
 | make maker psParent name memory =>
  obtain ⟨returned,out⟩ := Classical.not_imp.mp out
  obtain ⟨live,out⟩ := Classical.not_imp.mp out
  obtain ⟨⟨rc,w⟩,ran,zero⟩ := map_eq_some_iff.mp returned
  refine ⟨w,map_eq_some_iff.mpr ⟨_,ran,rfl⟩,fun identified => out ?_⟩
  obtain ⟨failed,_⟩ | ⟨_,a,parent,nMode,rfl,known,new,_,_,rfl⟩ := maker_cases ran
  · exact absurd zero failed
  obtain ⟨ne0,distinct,printable⟩ := insert_broken ok known new rfl live identified
  refine ⟨?_,printable⟩
  rintro b ⟨⟩
  exact ⟨ne0,distinct⟩
 | rfs_unlink psParent name => exact absurd trivial out
 | rfs_rmdir psParent name => exact absurd trivial out
lemma mount_nodes {root : Nat} (hit : (rfs_mount root).nodes x = some node) :
 x = root ∧ node = ⟨none,[],RFS_ROOT,0o777 ||| S_IFDIR,false,[]⟩ := by
 by_cases eq : x = root
 · subst eq
   simp only [rfs_mount,Function.update_self,some.injEq] at hit
   exact ⟨rfl,hit.symm⟩
 · simp [rfs_mount,eq] at hit
lemma mount_sound (root : Nat) : Sound (rfs_mount root) := by
 have wf : WellFormed (rfs_mount root) := by
  refine ⟨⟨_,by simp [rfs_mount]; rfl,rfl⟩,?_,?_,?_⟩
  · intro p parent hit c mem
    rw [(mount_nodes hit).2] at mem
    cases mem
  · intro p parent hit
    rw [(mount_nodes hit).2]
    exact nodup_nil
  intro p parent hit mem
  rw [(mount_nodes hit).2] at mem
  cases mem
 refine ⟨wf,?_,?_,?_⟩
 · intro a live
   obtain ⟨node,hit⟩ := wf.live_node live
   rw [ino_eq hit,(mount_nodes hit).2]
   decide
 · intro a b liveA liveB _
   obtain ⟨node,hit⟩ := wf.live_node liveA
   obtain ⟨ne,hit'⟩ := wf.live_node liveB
   rw [(mount_nodes hit).1,(mount_nodes hit').1]
 intro a node _ hit
 rw [(mount_nodes hit).2]
 rintro ⟨one,_⟩
 cases one
theorem identified_iff (root : Nat) (actions : List Action) :
 Along step Identified (fun _ _ => True) (rfs_mount root) actions ↔ Meets step Kept (rfs_mount root) actions := by
 refine along_iff (I := Sound) (fun _ sound => sound.identified) (fun _ _ _ _ => trivial) ?_ ?_ actions _ (mount_sound root)
 · intro v a v' sound kept taken
   exact step_sound a sound kept taken
 intro v a sound out _
 exact step_broken a sound out
theorem numbers_shared :
 (run step (rfs_mount 0x100000) [.make (.rfs_create 0) 0x100000 [97] (some 0x100080),
  .make (.rfs_create 0) 0x100000 [98] (some 0x110080)]).map
   (fun v => [[97],[98]].map (fun name => (rfs_find_node v 0x100000 name,rfs_lookup v 0x100000 name))) =
  some [(some (some 0x100080),some (0,0x80)),(some (some 0x110080),some (0,0x80))] := by
 decide +kernel

end Netbas.RamNodes
