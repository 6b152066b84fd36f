import Mathlib.Data.List.TakeWhile
import Mathlib.Data.Set.Card
import Netbas.RamNodes

/-!
What the calls of the memory file system keep of its tree (`shape_kept`), what reading a directory
lists (`lists_directory`), and how a volume ends (`deletes_all`).
-/
namespace Netbas.RamNodes
open Runs Relation List Option
variable {v v' : Volume} {p c a x : Nat} {parent node : FileNode} {name : Name}

/-! ### The shape -/
def Volume.label (v : Volume) (c : Nat) : Option Name := (v.nodes c).map FileNode.fn_zName

/-- The names of siblings, and whose children they are. -/
structure Chain (v : Volume) (parent : FileNode) : Prop where
 distinct : parent.children.Pairwise (fun c d => v.label c ≠ v.label d)
 proper : ∀ c ∈ parent.children, ∀ name ∈ v.label c, name ≠ [] ∧ name.length < RFS_MAX_NAME_LEN
 directory : parent.children ≠ [] -> S_ISDIR parent.fn_nMode
structure Shape (v : Volume) : Prop extends WellFormed v where
 finite : {a | Live v a}.Finite
 chains : ∀ p parent, v.nodes p = some parent -> Chain v parent
def Tree (v : Volume) : Prop := Shape v ∧ ∀ a, Live v a -> ¬ TransGen (Child v) a a
def Action.directory : Action -> Nat × Name
 | .make _ psParent name _ => (psParent,name)
 | .rfs_unlink psParent name => (psParent,name)
 | .rfs_rmdir psParent name => (psParent,name)

/-- The call is for a directory of the tree, with the length of the name, and the heap gives memory that is not in use. -/
def OnDirectory (v : Volume) (b : Action) : Prop :=
 Live v b.directory.1 ∧ (∃ node, v.nodes b.directory.1 = some node ∧ S_ISDIR node.fn_nMode) ∧ 0 ∉ b.directory.2 ∧
  match b with
  | .make _ _ _ memory => ∀ a ∈ memory, a ≠ 0 ∧ v.nodes a = none
  | _ => True

/-- The call returns, and changes nothing when it fails. -/
def Returns (v : Volume) (b : Action) : Prop := ∃ rc v', call v b = some (rc,v') ∧ (rc ≠ 0 -> v' = v)
lemma WellFormed.acyclic (wf : WellFormed v) (live : Live v a) : ¬ TransGen (Child v) a a := by
 induction live with
 | refl =>
  intro cycle
  obtain ⟨q,_,parent,kn,mem⟩ := TransGen.tail'_iff.mp cycle
  obtain ⟨root,there,none⟩ := wf.root
  obtain ⟨node,hit',above⟩ := wf.child q parent kn _ mem
  cases there.symm.trans hit'
  cases none.symm.trans above
 | tail _ edge ih =>
  intro cycle
  obtain ⟨q,back,parent,kn,mem⟩ := TransGen.tail'_iff.mp cycle
  obtain ⟨parent',known',mem'⟩ := edge
  obtain ⟨node,there,above⟩ := wf.child q parent kn _ mem
  obtain ⟨node',hit',above'⟩ := wf.child _ parent' known' _ mem'
  cases there.symm.trans hit'
  cases above.symm.trans above'
  exact ih (TransGen.head' ⟨parent',known',mem'⟩ back)
lemma Chain.mono (chain : Chain v parent) (fewer : node.children.Sublist parent.children)
 (mode : node.fn_nMode = parent.fn_nMode) (eq : ∀ c ∈ node.children, v'.label c = v.label c) : Chain v' node := by
 refine ⟨?_,?_,?_⟩
 · refine (chain.distinct.sublist fewer).imp_of_mem fun first snd apart => ?_
   rwa [eq _ first,eq _ snd]
 · intro c mem name is
   rw [eq c mem] at is
   exact chain.proper c (fewer.subset mem) name is
 intro given
 rw [mode]
 exact chain.directory fun none => given (by simpa [none] using fewer)
lemma Shape.insert (shape : Shape v) (nMode : Nat) (kn : v.nodes p = some parent) (fresh : v.nodes a = none)
 (dir : S_ISDIR parent.fn_nMode) (unused : find_child v parent name = none) (plain : 0 ∉ name)
 (given : name ≠ []) (short : name.length < RFS_MAX_NAME_LEN) : Shape (v.insert p a parent (new_node p name nMode a)) := by
 have wf := shape.toWellFormed
 have new : (v.insert p a parent (new_node p name nMode a)).label a = some name := by
  have whole : name.takeWhile (· ≠ 0) = name :=
   takeWhile_eq_self_iff.mpr (fun x mem => decide_eq_true (fun zero => plain (zero ▸ mem)))
  rw [Volume.label,insert_nodes,if_pos rfl,map_some,new_node,whole]
 have old : ∀ q cur, v.nodes q = some cur -> ∀ c ∈ cur.children,
   (v.insert p a parent (new_node p name nMode a)).label c = v.label c := by
  intro q cur now c mem
  obtain ⟨child,hit,_⟩ := wf.child q cur now c mem
  obtain ⟨child',hit',eq,_⟩ := insert_same (new_node p name nMode a) kn fresh hit
  rw [Volume.label,Volume.label,hit,hit',map_some,map_some,eq.2.2]
 refine ⟨wf.insert kn fresh rfl rfl,(shape.finite.insert a).subset ?_,?_⟩
 · intro x live
   exact ((live_insert wf kn fresh rfl).mp live).symm.imp_left And.left
 intro q cur now
 rw [insert_nodes] at now
 split_ifs at now with first snd
 · cases now
   exact ⟨.nil,by simp [new_node],by simp [new_node]⟩
 · cases now
   have chain := (shape.chains p parent kn).mono (Sublist.refl _) rfl (old p parent kn)
   refine ⟨pairwise_cons.mpr ⟨fun c mem eq => ?_,chain.distinct⟩,forall_mem_cons.mpr ⟨?_,chain.proper⟩,fun _ => dir⟩
   · rw [new,old p parent kn c mem] at eq
     exact find?_eq_none.mp unused c mem (decide_eq_true eq.symm)
   rw [new]
   rintro _ ⟨⟩
   exact ⟨given,short⟩
 · exact (shape.chains q cur now).mono (Sublist.refl _) rfl (old q cur now)
lemma Shape.detach (shape : Shape v) (kn : v.nodes p = some parent) (child : c ∈ parent.children)
 (there : v.nodes c = some node) {left : Option FileNode}
 (after : left = none ∨ left = some { node with fn_psParent := none }) : Shape (v.detach p c parent left) := by
 have wf := shape.toWellFormed
 refine ⟨wf.detach kn child there after,shape.finite.subset fun x live => (live_detach wf kn child live).1,?_⟩
 intro q cur now
 obtain ⟨old,pre,fewer,gone,mode⟩ := wf.detach_chain kn child there after now
 refine (shape.chains q old pre).mono fewer mode fun d mem => ?_
 obtain ⟨child,hit,_⟩ := wf.child q old pre d (fewer.subset mem)
 have ne : d ≠ c := by
  rintro rfl
  exact gone mem
 obtain ⟨child',hit',eq,_⟩ := detach_same left kn hit ne
 rw [Volume.label,Volume.label,hit,hit',map_some,map_some,eq.2.2]
lemma call_shape (shape : Shape v) {b : Action} {rc : Int} (on : OnDirectory v b) (ran : call v b = some (rc,v')) :
 Shape v' ∧ (rc ≠ 0 -> v' = v) := by
 obtain ⟨_,⟨node,kn,dir⟩,plain,_⟩ := on
 have gone : ∀ {p name refuse}, remove v p name refuse = some (rc,v') -> Shape v' ∧ (rc ≠ 0 -> v' = v) := by
  intro p name refuse ran
  obtain rfl | ⟨done,c,parent,node,left,kn,child,there,after,rfl⟩ := remove_cases ran
  · exact ⟨shape,fun _ => rfl⟩
  · exact ⟨shape.detach kn child there after,fun failed => absurd done failed⟩
 cases b with
 | make maker psParent name memory =>
  obtain ⟨_,rfl⟩ | ⟨rfl,a,parent,nMode,_,known',new,unused,⟨given,short⟩,rfl⟩ := maker_cases ran
  · exact ⟨shape,fun _ => rfl⟩
  cases kn.symm.trans known'
  exact ⟨shape.insert nMode kn new dir unused plain given short,fun failed => absurd rfl failed⟩
 | rfs_unlink psParent name => exact gone ran
 | rfs_rmdir psParent name => exact gone ran
lemma remove_returns (wf : WellFormed v) (kn : v.nodes p = some parent) (name : Name)
 (refuse : FileNode -> Option Int) : ∃ r, remove v p name refuse = some r := by
 rw [remove,kn,bind_eq_bind,bind_some]
 cases hit : find_child v parent name with
 | none => exact ⟨_,rfl⟩
 | some c =>
  obtain ⟨node,there,_⟩ := wf.child p parent kn c (find_child_mem hit)
  simp only [there,bind_some]
  cases refuse node with
  | none => exact ⟨_,rfl⟩
  | some nError => exact ⟨_,rfl⟩
lemma make_returns {memory : Option Nat} {nMode : Nat} {failure : Int} {finish : Nat -> Volume -> Option (Int × Volume)}
 (kn : v.nodes p = some parent) (new : ∀ a ∈ memory, a ≠ 0 ∧ v.nodes a = none)
 (finishes : ∀ a, v.nodes a = none -> ∃ r, finish a (v.insert p a parent (new_node p name nMode a)) = some r) :
 ∃ r, make v p name nMode memory failure finish = some r := by
 rw [make,kn,bind_eq_bind,bind_some]
 split
 · exact ⟨_,rfl⟩
 simp only [rfs_create_node]
 split
 · exact ⟨_,rfl⟩
 cases memory with
 | none => exact ⟨_,rfl⟩
 | some a =>
  obtain ⟨ne0,free⟩ := new a rfl
  simpa [ne0,free,kn] using finishes a free
lemma call_returns (wf : WellFormed v) {b : Action} (on : OnDirectory v b) : ∃ r, call v b = some r := by
 obtain ⟨_,⟨parent,kn,_⟩,_,new⟩ := on
 cases b with
 | make maker psParent name memory =>
  cases maker with
  | rfs_create nPerms => exact make_returns kn new (fun a _ => ⟨_,rfl⟩)
  | rfs_mkdir nPerms => exact make_returns kn new (fun a _ => ⟨_,rfl⟩)
  | rfs_symlink stored =>
   refine make_returns kn new fun a free => ?_
   cases stored with
   | true => exact ⟨_,rfl⟩
   | false =>
    change v.nodes psParent = some parent at kn
    rw [delete_insert kn free rfl]
    exact ⟨_,rfl⟩
 | rfs_unlink psParent name => exact remove_returns wf kn name _
 | rfs_rmdir psParent name => exact remove_returns wf kn name _
lemma shape_mount (root : Nat) : Shape (rfs_mount root) := by
 refine ⟨(mount_sound root).wf,(Set.finite_singleton root).subset ?_,fun p parent kn => ?_⟩
 · intro x live
   obtain ⟨node,there⟩ := (mount_sound root).wf.live_node live
   exact (mount_nodes there).1
 rw [(mount_nodes kn).2]
 exact ⟨.nil,by simp,by simp⟩
theorem shape_kept (root : Nat) (actions : List Action) (on : Meets step OnDirectory (rfs_mount root) actions) :
 Along step Tree Returns (rfs_mount root) actions := by
 refine along_of_invariant (I := Shape) (fun v shape => ⟨shape,fun a live => shape.acyclic live⟩) ?_ ?_ actions _ ?_ on
 · intro v b shape on
   obtain ⟨⟨rc,v'⟩,called⟩ := call_returns shape.toWellFormed on
   exact ⟨rc,v',called,(call_shape shape on called).2⟩
 · intro v b v' shape on taken
   obtain ⟨⟨rc,v''⟩,called,rfl⟩ := map_eq_some_iff.mp taken
   exact (call_shape shape on called).1
 · exact shape_mount root

/-- Directories inside each other with files in them, a name that is taken already and a file that
  is removed again. -/
def nested : List Action :=
 [.make (.rfs_mkdir 0) 8 [97] (some 16),.make (.rfs_create 0) 16 [98] (some 24),.make (.rfs_mkdir 0) 16 [99] (some 32),
  .make (.rfs_create 0) 32 [100] (some 40),.make (.rfs_mkdir 0) 8 [97] (some 48),.make (.rfs_create 0) 8 [101] (some 48),
  .rfs_unlink 8 [101]]
def nestedVolume : Volume := (run step (rfs_mount 8) nested).getD (rfs_mount 8)
lemma meets_step {C : Volume -> Action -> Prop} {b : Action} {rest : List Action} (here : C v b) (ran : step v b = some v')
 (later : Meets step C v' rest) : Meets step C v (b :: rest) := by
 refine meets_cons.mpr ⟨here,fun w taken => ?_⟩
 cases ran.symm.trans taken
 exact later
lemma on_directory_make {maker : Maker} (live : Live v p) (there : v.nodes p = some node) (dir : S_ISDIR node.fn_nMode)
 (plain : 0 ∉ name) (nonzero : a ≠ 0) (fresh : v.nodes a = none) : OnDirectory v (.make maker p name (some a)) := by
 refine ⟨live,⟨node,there,dir⟩,plain,?_⟩
 rintro _ ⟨⟩
 exact ⟨nonzero,fresh⟩
lemma nested_meets : Meets step OnDirectory (rfs_mount 8) nested := by
 refine meets_step (on_directory_make .refl rfl (by decide) (by decide) (by decide) rfl) rfl ?_
 refine meets_step (on_directory_make (.single ⟨_,rfl,by decide⟩) rfl (by decide) (by decide) (by decide) rfl) rfl ?_
 refine meets_step (on_directory_make (.single ⟨_,rfl,by decide⟩) rfl (by decide) (by decide) (by decide) rfl) rfl ?_
 refine meets_step (on_directory_make ((ReflTransGen.single (b := 16) ⟨_,rfl,by decide⟩).tail ⟨_,rfl,by decide⟩) rfl
  (by decide) (by decide) (by decide) rfl) rfl ?_
 refine meets_step (on_directory_make .refl rfl (by decide) (by decide) (by decide) rfl) rfl ?_
 refine meets_step (on_directory_make .refl rfl (by decide) (by decide) (by decide) rfl) rfl ?_
 exact meets_step ⟨.refl,⟨_,rfl,by decide⟩,by decide,trivial⟩ rfl trivial
lemma nested_shape : Shape nestedVolume := by
 refine run_invariant (I := Shape) ?_ nested (rfs_mount 8) nestedVolume (shape_mount 8) nested_meets rfl
 intro v b v' shape on taken
 obtain ⟨⟨rc,v''⟩,ran,rfl⟩ := map_eq_some_iff.mp taken
 exact (call_shape shape on ran).1
lemma nested_edges : Child nestedVolume 8 16 ∧ Child nestedVolume 16 24 ∧ Child nestedVolume 16 32 ∧ Child nestedVolume 32 40 :=
 ⟨⟨_,rfl,by decide⟩,⟨_,rfl,by decide⟩,⟨_,rfl,by decide⟩,⟨_,rfl,by decide⟩⟩
theorem shape_kept_nested : Along step Tree Returns (rfs_mount 8) nested := shape_kept 8 nested nested_meets

/-! ### Reading a directory -/
def MSDOS_DIR : Nat := 16
def MSDOS_ARCH : Nat := 32

/-- The attribute is stored for children only. -/
structure Dirent where
 l_long_name : Name
 l_name_len : Nat
 l_ino : Nat
 l_attribute : Option Nat
def FileNode.dirent (node : FileNode) : Dirent :=
 ⟨node.fn_zName,node.fn_zName.length,node.fn_nInodeNum,some (if S_ISDIR node.fn_nMode then MSDOS_DIR else MSDOS_ARCH)⟩

/-- The loop over the children. No value stands for reading a node that has been freed. -/
def entry_at (v : Volume) : List Nat -> Int -> Option (Option Dirent)
 | [], _ => some none
 | psNode :: rest, nCurPos => (v.nodes psNode).bind (fun node =>
  if nCurPos = 0 then some (some node.dirent) else entry_at v rest (nCurPos - 1))
def rfs_readdir (v : Volume) (psParent : FileNode) (nPos : Int) : Option (Option Dirent) :=
 if nPos = 0 then some (some ⟨dot,1,psParent.fn_nInodeNum,none⟩)
 else
  match psParent.fn_psParent with
  | none => entry_at v psParent.children (nPos - 1)
  | some up =>
   if nPos = 1 then (v.nodes up).map (fun up => some ⟨dotdot,2,up.fn_nInodeNum,none⟩)
   else entry_at v psParent.children (nPos - 2)
def ramfs_readdir (v : Volume) (pstNode : FileNode) (f_pos : Int) : Option (Int × Option Dirent × Int) :=
 (rfs_readdir v pstNode f_pos).map (fun
  | none => (-1,none,f_pos)
  | some dirent => (0,some dirent,f_pos + 1))

/-- Reads until the end is signalled, at most `fuel` times. -/
def listing (v : Volume) (pstNode : FileNode) : Nat -> Int -> Option (List Dirent)
 | 0, _ => none
 | fuel + 1, f_pos =>
  match ramfs_readdir v pstNode f_pos with
  | some (_,some dirent,f_pos') => (listing v pstNode fuel f_pos').map (dirent :: ·)
  | some (_,none,_) => some []
  | none => none
def own_entries (v : Volume) (node : FileNode) : List Dirent :=
 ⟨dot,1,node.fn_nInodeNum,none⟩ ::
  ((node.fn_psParent.bind v.nodes).map (fun up => ⟨dotdot,2,up.fn_nInodeNum,none⟩)).toList
def entries (v : Volume) (children : List Nat) : List Dirent :=
 children.filterMap (fun c => (v.nodes c).map FileNode.dirent)
lemma entry_at_nth {children : List Nat} (kn : ∀ c ∈ children, ∃ child, v.nodes c = some child) :
 (entries v children).length = children.length ∧ ∀ i : Nat, entry_at v children i = some (entries v children)[i]? := by
 induction children with
 | nil => exact ⟨rfl,fun i => rfl⟩
 | cons c rest ih =>
  obtain ⟨⟨child,there⟩,later⟩ := forall_mem_cons.mp kn
  obtain ⟨count,reads⟩ := ih later
  have all : entries v (c :: rest) = child.dirent :: entries v rest := by simp [entries,there]
  refine ⟨by rw [all,length_cons,count,length_cons],fun i => ?_⟩
  rw [entry_at,there,bind_some,all]
  cases i with
  | zero => simp
  | succ i => rw [if_neg (by omega),show ((i + 1 : Nat) : Int) - 1 = i by omega,reads i,getElem?_cons_succ]

/-- Entries that stand at their positions are read one by one. -/
lemma listing_eq {all : List Dirent} (reads : ∀ i : Nat, rfs_readdir v node i = some all[i]?) (fuel : Nat) : ∀ i ≤ all.length,
 listing v node fuel i = if all.length - i < fuel then some (all.drop i) else none := by
 induction fuel with
 | zero => exact fun i _ => rfl
 | succ fuel ih =>
  intro i mem
  rw [listing,ramfs_readdir,reads i]
  rcases mem.lt_or_eq with lt | rfl
  · rw [getElem?_eq_getElem lt]
    simp only [map_some]
    rw [show (i : Int) + 1 = ((i + 1 : Nat) : Int) by omega,ih (i + 1) lt,drop_eq_getElem_cons lt]
    by_cases enough : all.length - (i + 1) < fuel
    · rw [if_pos enough,if_pos (by omega)]
      rfl
    rw [if_neg enough,if_neg (by omega)]
    rfl
  · simp
lemma WellFormed.children_known (wf : WellFormed v) (there : v.nodes p = some node) :
 ∀ c ∈ node.children, ∃ child, v.nodes c = some child := by
 intro c mem
 obtain ⟨child,hit,_⟩ := wf.child p node there c mem
 exact ⟨child,hit⟩
lemma readdir_nth (wf : WellFormed v) (live : Live v p) (there : v.nodes p = some node) (i : Nat) :
 rfs_readdir v node i = some (own_entries v node ++ entries v node.children)[i]? := by
 have reads := (entry_at_nth (wf.children_known there)).2
 rw [rfs_readdir,own_entries]
 cases i with
 | zero => rfl
 | succ i =>
  rw [if_neg (by omega),cons_append,getElem?_cons_succ]
  cases above : node.fn_psParent with
  | none =>
   simp only []
   rw [show ((i + 1 : Nat) : Int) - 1 = i by omega,reads i]
   rfl
  | some q =>
   obtain ⟨up,hit⟩ := wf.live_node (wf.live_parent live there q above)
   simp only [bind_some,hit,map_some,toList_some,singleton_append]
   cases i with
   | zero => rfl
   | succ i =>
    rw [if_neg (by omega),show ((i + 1 + 1 : Nat) : Int) - 2 = i by omega,reads i,getElem?_cons_succ]

lemma WellFormed.live_above (wf : WellFormed v) (live : Live v p) (ne : p ≠ v.rv_psRootNode) (there : v.nodes p = some node) :
 ∃ q, node.fn_psParent = some q := by
 rcases ReflTransGen.cases_tail live with root | ⟨q,_,parent,kn,mem⟩
 · exact absurd root.symm (Ne.symm ne)
 obtain ⟨node',hit',above⟩ := wf.child q parent kn p mem
 cases there.symm.trans hit'
 exact ⟨q,above⟩

/-- Every directory of a tree is listed with its own entries and then all its children in their order, and the end is
  signalled by the next call. -/
theorem lists_directory (wf : WellFormed v) (live : Live v p) (there : v.nodes p = some node) :
 (own_entries v node).map Dirent.l_long_name = (if p = v.rv_psRootNode then [dot] else [dot,dotdot]) ∧
  (entries v node.children).length = node.children.length ∧ ∀ fuel, listing v node fuel 0 =
   if (own_entries v node).length + node.children.length < fuel then some (own_entries v node ++ entries v node.children)
   else none := by
 have count := (entry_at_nth (wf.children_known there)).1
 refine ⟨?_,count,fun fuel => ?_⟩
 · split_ifs with root
   · obtain ⟨node',there',none⟩ := wf.root
     cases (root ▸ there).symm.trans there'
     simp [own_entries,none]
   obtain ⟨q,above⟩ := wf.live_above live root there
   obtain ⟨up,hit⟩ := wf.live_node (wf.live_parent live there q above)
   simp [own_entries,above,hit]
 have read := listing_eq (readdir_nth wf live there) fuel 0 (Nat.zero_le _)
 rw [length_append,count] at read
 exact read
theorem lists_nested : ∃ node, nestedVolume.nodes 16 = some node ∧
 (listing nestedVolume node 5 0).map (List.map Dirent.l_long_name) = some [dot,dotdot,[99],[98]] ∧
 (listing nestedVolume node 4 0).isNone := by
 have reads := (lists_directory nested_shape.toWellFormed (.single nested_edges.1) rfl).2.2
 refine ⟨_,rfl,?_,?_⟩
 · rw [reads]
   rfl
 · rw [reads]
   rfl

/-! ### The end of a volume -/
/-- The nodes that are freed, in their order, and the volume. The loop goes on with the same node. -/
def rfs_delete_all_files : Nat -> Volume -> Nat -> Option (List Nat × Volume)
 | 0, _, _ => none
 | fuel + 1, v, psRoot => (v.nodes psRoot).bind (fun node =>
  match node.children with
  | psFirstChild :: _ => (rfs_delete_all_files fuel v psFirstChild).bind (fun (freed,v') =>
   (rfs_delete_all_files fuel v' psRoot).map (fun (rest,v'') => (freed ++ rest,v'')))
  | [] => (rfs_delete_node v psRoot).map (fun v' => (if node.fn_psParent = none then [] else [psRoot],v')))
def Below (v : Volume) (x y : Nat) : Prop := ReflTransGen (Child v) x y

/-- Nothing is left below the node. -/
structure Emptied (v : Volume) (x : Nat) (w : Volume) : Prop where
 same : w.rv_psRootNode = v.rv_psRootNode
 here : w.nodes x = (v.nodes x).map (fun node => { node with children := [] })
 gone : ∀ y ≠ x, Below v x y -> w.nodes y = none
 kept : ∀ y, ¬ Below v x y -> w.nodes y = v.nodes y
lemma WellFormed.below_parent (wf : WellFormed v) {q y : Nat} (lt : Below v x y) (ne : y ≠ x) (edge : Child v q y) :
 Below v x q := by
 rcases ReflTransGen.cases_tail lt with rfl | ⟨q',below',parent',known',mem'⟩
 · exact absurd rfl ne
 obtain ⟨parent,kn,mem⟩ := edge
 obtain ⟨node,there,above⟩ := wf.child q parent kn y mem
 obtain ⟨node',hit',above'⟩ := wf.child q' parent' known' y mem'
 cases there.symm.trans hit'
 cases above.symm.trans above'
 exact below'
lemma WellFormed.emptied (wf : WellFormed v) {w : Volume} (emptied : Emptied v c w) : WellFormed w := by
 -- A node that is left is the emptied one or an old one.
 have old : ∀ q current, w.nodes q = some current -> q = c ∧ current.children = [] ∨ q ≠ c ∧ ¬ Below v c q ∧ v.nodes q = some current := by
  intro q current now
  by_cases eq : q = c
  · subst eq
    rw [emptied.here] at now
    obtain ⟨node,_,rfl⟩ := map_eq_some_iff.mp now
    exact .inl ⟨rfl,rfl⟩
  by_cases lt : Below v c q
  · rw [emptied.gone q eq lt] at now
    cases now
  rw [emptied.kept q lt] at now
  exact .inr ⟨eq,lt,now⟩
 -- Parents stay.
 have stays : ∀ d q, (d ≠ c -> ¬ Below v c d) -> (∃ node, v.nodes d = some node ∧ node.fn_psParent = q) ->
   ∃ node, w.nodes d = some node ∧ node.fn_psParent = q := by
  rintro d q out ⟨node,there,above⟩
  by_cases eq : d = c
  · subst eq
    exact ⟨{ node with children := [] },by rw [emptied.here,there]; rfl,above⟩
  · exact ⟨node,by rw [emptied.kept d (out eq),there],above⟩
 refine ⟨?_,?_,?_,?_⟩
 · rw [emptied.same]
   refine stays _ _ (fun ne lt => ?_) wf.root
   rcases ReflTransGen.cases_tail lt with eq | ⟨q,_,parent,kn,mem⟩
   · exact ne eq
   obtain ⟨root,there,none⟩ := wf.root
   obtain ⟨node,hit',above⟩ := wf.child q parent kn _ mem
   cases there.symm.trans hit'
   cases none.symm.trans above
 · intro q current now d mem
   rcases old q current now with ⟨_,none⟩ | ⟨_,out,pre⟩
   · rw [none] at mem
     cases mem
   refine stays d (some q) (fun ne lt => out ?_) (wf.child q current pre d mem)
   exact wf.below_parent lt ne ⟨current,pre,mem⟩
 · intro q current now
   rcases old q current now with ⟨_,none⟩ | ⟨_,_,pre⟩
   · rw [none]
     exact nodup_nil
   · exact wf.nodup q current pre
 intro q current now
 rcases old q current now with ⟨_,none⟩ | ⟨_,_,pre⟩
 · simp [none]
 · exact wf.apart q current pre

/-- The first child of `x` and all below it have left. -/
structure Dropped (v : Volume) (x c : Nat) (node : FileNode) (w : Volume) : Prop where
 same : w.rv_psRootNode = v.rv_psRootNode
 here : w.nodes x = some { node with children := node.children.tail }
 gone : ∀ y, Below v c y -> w.nodes y = none
 kept : ∀ y ≠ x, ¬ Below v c y -> w.nodes y = v.nodes y
lemma Dropped.child {w : Volume} (there : v.nodes x = some node) (dropped : Dropped v x c node w) {q y : Nat}
 (edge : Child w q y) : Child v q y := by
 obtain ⟨cur,now,mem⟩ := edge
 by_cases eq : q = x
 · subst eq
   cases dropped.here.symm.trans now
   exact ⟨node,there,mem_of_mem_tail mem⟩
 by_cases lt : Below v c q
 · cases (dropped.gone q lt).symm.trans now
 · exact ⟨cur,by rw [<- dropped.kept q eq lt,now],mem⟩

section
variable {rest : List Nat} {w : Volume} (there : v.nodes x = some node) (first : node.children = c :: rest)
  (apart : ¬ Below v c x)
include there first apart
lemma Emptied.drop (wf : WellFormed v) (emptied : Emptied v c w) :
 ∃ w', rfs_delete_node w c = some w' ∧ WellFormed w' ∧ Dropped v x c node w' := by
 have mem : c ∈ node.children := by simp [first]
 obtain ⟨child,hit,above⟩ := wf.child x node there c mem
 have here : w.nodes c = some { child with children := [] } := by rw [emptied.here,hit,map_some]
 have up : w.nodes x = some node := by rw [emptied.kept x apart,there]
 refine ⟨w.detach x c node none,?_,(wf.emptied emptied).detach up mem here (.inl rfl),emptied.same,?_,?_,?_⟩
 · simp [rfs_delete_node,here,above,up]
 · have ne : x ≠ c := by
    rintro rfl
    exact apart .refl
   rw [detach_nodes,if_neg ne,if_pos rfl,first,erase_cons_head,tail_cons]
 · intro y lt
   rw [detach_nodes]
   split_ifs with eq up
   · rfl
   · exact absurd (up ▸ lt) apart
   · exact emptied.gone y eq lt
 intro y ne out
 have different : y ≠ c := by
  rintro rfl
  exact out .refl
 rw [detach_nodes,if_neg different,if_neg ne,emptied.kept y out]
lemma Dropped.below_iff (dropped : Dropped v x c node w) (wf' : WellFormed w) {y : Nat} :
 Below w x y ↔ Below v x y ∧ ¬ Below v c y := by
 constructor
 · intro lt
   refine ⟨ReflTransGen.mono (r := Child w) (fun q z edge => dropped.child there edge) _ _ lt,fun left => ?_⟩
   rcases ReflTransGen.cases_tail lt with rfl | ⟨q,_,cur,now,mem⟩
   · exact apart left
   obtain ⟨child,hit,_⟩ := wf'.child q cur now y mem
   cases (dropped.gone y left).symm.trans hit
 rintro ⟨lt,out⟩
 induction lt with
 | refl => exact .refl
 | @tail q z _ edge ih =>
  have pre : ¬ Below v c q := fun left => out (left.tail edge)
  refine (ih pre).tail ?_
  obtain ⟨cur,now,mem⟩ := edge
  by_cases eq : q = x
  · subst eq
    cases there.symm.trans now
    refine ⟨_,dropped.here,?_⟩
    rw [first] at mem ⊢
    rcases mem_cons.mp mem with rfl | later
    · exact absurd .refl out
    · exact later
  · exact ⟨cur,by rw [dropped.kept q eq pre,now],mem⟩

end

/-- The nodes below `x` are freed in the order of the list. -/
structure Freed (v : Volume) (x : Nat) (freed : List Nat) : Prop where
 once : freed.Nodup
 all : ∀ y, y ∈ freed ↔ Below v x y ∧ y ≠ x
 order : ∀ q y, Child v q y -> q ∈ freed -> [y,q].Sublist freed
lemma Freed.join {rest first snd : List Nat} {w : Volume} (wf : WellFormed v) (wf' : WellFormed w)
 (there : v.nodes x = some node) (children : node.children = c :: rest) (apart : ¬ Below v c x)
 (dropped : Dropped v x c node w) (lt : Freed v c first) (later : Freed w x snd) :
 Freed v x (first ++ [c] ++ snd) := by
 have edge : Child v x c := ⟨node,there,by simp [children]⟩
 have left : ∀ y, y ∈ first ++ [c] ↔ Below v c y := by
  intro y
  rw [mem_append,mem_singleton,lt.all]
  by_cases eq : y = c
  · simp [eq,Below,ReflTransGen.refl]
  · simp [eq]
 have right : ∀ y, y ∈ snd ↔ (Below v x y ∧ ¬ Below v c y) ∧ y ≠ x := by
  intro y
  rw [later.all,dropped.below_iff there children apart wf']
 refine ⟨?_,?_,?_⟩
 · refine nodup_append.mpr ⟨nodup_append.mpr ⟨lt.once,nodup_singleton c,?_⟩,later.once,?_⟩
   · rintro y mem _ last rfl
     exact ((lt.all y).mp mem).2 (mem_singleton.mp last)
   rintro y mem _ mem' rfl
   exact ((right y).mp mem').1.2 ((left y).mp mem)
 · intro y
   rw [mem_append,left,right]
   constructor
   · rintro (under | ⟨⟨under,_⟩,ne⟩)
     · refine ⟨ReflTransGen.head edge under,?_⟩
       rintro rfl
       exact apart under
     · exact ⟨under,ne⟩
   rintro ⟨under,ne⟩
   by_cases inside : Below v c y
   · exact .inl inside
   · exact .inr ⟨⟨under,inside⟩,ne⟩
 intro q y edge mem
 rcases mem_append.mp mem with mem | mem
 · refine Sublist.trans ?_ (sublist_append_left _ snd)
   rcases mem_append.mp mem with mem | mem
   · exact (lt.order q y edge mem).trans (sublist_append_left _ _)
   rw [mem_singleton.mp mem] at edge ⊢
   have under : y ∈ first := (lt.all y).mpr ⟨.single edge,?_⟩
   · exact (singleton_sublist.mpr under).append (Sublist.refl [c])
   rintro rfl
   obtain ⟨cur,now,inside⟩ := edge
   exact wf.apart y cur now inside
 refine Sublist.trans ?_ (sublist_append_right _ snd)
 obtain ⟨⟨_,out⟩,ne⟩ := (right q).mp mem
 obtain ⟨cur,now,inside⟩ := edge
 exact later.order q y ⟨cur,by rw [dropped.kept q ne out,now],inside⟩ mem
lemma Emptied.leaf (there : v.nodes x = some node) (leaf : node.children = []) : Freed v x [] ∧ Emptied v x v := by
 have only : ∀ y, Below v x y -> y = x := by
  intro y lt
  rcases ReflTransGen.cases_head lt with eq | ⟨z,⟨cur,now,mem⟩,_⟩
  · exact eq.symm
  cases there.symm.trans now
  rw [leaf] at mem
  cases mem
 refine ⟨⟨nodup_nil,fun y => ?_,by simp⟩,rfl,?_,fun y ne lt => absurd (only y lt) ne,fun _ _ => rfl⟩
 · simpa using only y
 cases node
 cases leaf
 rw [there,map_some]
lemma Emptied.trans {w w' : Volume} (wf' : WellFormed w) {rest : List Nat} (there : v.nodes x = some node)
 (children : node.children = c :: rest) (apart : ¬ Below v c x) (dropped : Dropped v x c node w)
 (emptied : Emptied w x w') : Emptied v x w' := by
 have lt := fun y => dropped.below_iff there children apart wf' (y := y)
 refine ⟨emptied.same.trans dropped.same,?_,fun y ne under => ?_,fun y out => ?_⟩
 · rw [emptied.here,dropped.here,there,map_some,map_some]
 · by_cases left : Below v c y
   · rw [emptied.kept y (fun now => ((lt y).mp now).2 left),dropped.gone y left]
   · exact emptied.gone y ne ((lt y).mpr ⟨under,left⟩)
 have ne : y ≠ x := by
  rintro rfl
  exact out .refl
 rw [emptied.kept y (fun now => out ((lt y).mp now).1),dropped.kept y ne (fun left => out ?_)]
 exact ReflTransGen.head ⟨node,there,by simp [children]⟩ left

/-- By induction on the number of nodes below `x`: the subtree of the first child has fewer, and so has what is left. -/
lemma delete_all_spec (n : Nat) : ∀ {v : Volume} {x : Nat} {node : FileNode}, WellFormed v -> v.nodes x = some node ->
 (∀ y, Below v x y -> ¬ TransGen (Child v) y y) -> {y | Below v x y}.Finite -> {y | Below v x y}.ncard ≤ n ->
 ∃ freed w N, Freed v x freed ∧ Emptied v x w ∧ ∀ fuel ≥ N, rfs_delete_all_files fuel v x =
  (rfs_delete_node w x).map (fun v' => (freed ++ (if node.fn_psParent = none then [] else [x]),v')) := by
 induction n with
 | zero =>
  intro v x node _ _ _ finite few
  have none := (Set.ncard_eq_zero finite).mp (Nat.le_zero.mp few)
  exact absurd (show x ∈ {y | Below v x y} from .refl) (by simp [none])
 | succ n ih =>
  intro v x node wf there acyclic finite few
  cases children : node.children with
  | nil =>
   obtain ⟨freed,emptied⟩ := Emptied.leaf there children
   refine ⟨[],v,1,freed,emptied,fun fuel enough => ?_⟩
   obtain ⟨fuel,rfl⟩ := Nat.exists_eq_add_of_le' enough
   rw [rfs_delete_all_files,there,bind_some,children]
   rfl
  | cons c rest =>
   have edge : Child v x c := ⟨node,there,by simp [children]⟩
   have apart : ¬ Below v c x := fun back => acyclic x .refl (TransGen.head' edge back)
   have under : ∀ y, Below v c y -> Below v x y := fun y lt => ReflTransGen.head edge lt
   obtain ⟨child,hit,above⟩ := wf.child x node there c (by simp [children])
   have fewer : {y | Below v c y} ⊂ {y | Below v x y} := ⟨under,fun all => apart (all .refl)⟩
   obtain ⟨first,w,N,freed,emptied,runs⟩ := ih wf hit (fun y lt => acyclic y (under y lt))
    (finite.subset fewer.1) (by have := Set.ncard_lt_ncard fewer finite; omega)
   obtain ⟨w',deleted,wf',dropped⟩ := emptied.drop there children apart wf
   have mem := fun y => dropped.below_iff there children apart wf' (y := y)
   have fewer' : {y | Below w' x y} ⊂ {y | Below v x y} :=
    ⟨fun y lt => ((mem y).mp lt).1,fun all => ((mem c).mp (all (under c .refl))).2 .refl⟩
   obtain ⟨snd,w'',N',freed',emptied',runs'⟩ := ih wf' dropped.here
    (fun y lt cycle => acyclic y ((mem y).mp lt).1 (TransGen.mono (r := Child w') (fun q z edge => dropped.child there edge) _ _ cycle))
    (finite.subset fewer'.1) (by have := Set.ncard_lt_ncard fewer' finite; omega)
   refine ⟨_,w'',max N N' + 1,freed.join wf wf' there children apart dropped freed',
    emptied'.trans wf' there children apart dropped,fun fuel enough => ?_⟩
   obtain ⟨fuel,rfl⟩ := Nat.exists_eq_add_of_le' enough
   rw [show fuel + (max N N' + 1) = (fuel + max N N') + 1 from rfl,rfs_delete_all_files,there,bind_some,children]
   simp only [runs (fuel + max N N') (by omega),deleted,map_some,bind_some,runs' (fuel + max N N') (by omega),above]
   cases rfs_delete_node w'' x with
   | none => rfl
   | some v' => simp

/-- All nodes below the root are freed, each once and after its children, and the root is left alone. -/
theorem deletes_all (wf : WellFormed v) (finite : {a | Live v a}.Finite) : ∃ freed v' N,
 (∀ fuel ≥ N, rfs_delete_all_files fuel v v.rv_psRootNode = some (freed,v')) ∧ freed.Nodup ∧
 (∀ a, a ∈ freed ↔ Live v a ∧ a ≠ v.rv_psRootNode) ∧ (∀ p c, Child v p c -> p ∈ freed -> [c,p].Sublist freed) ∧
 (∀ a ∈ freed, v'.nodes a = none) ∧ ∃ root, v'.nodes v.rv_psRootNode = some root ∧ root.children = [] := by
 obtain ⟨root,there,none⟩ := wf.root
 obtain ⟨freed,w,N,⟨once,all,order⟩,emptied,runs⟩ := delete_all_spec _ wf there (fun y live => wf.acyclic live) finite le_rfl
 have here : w.nodes v.rv_psRootNode = some { root with children := [] } := by rw [emptied.here,there,map_some]
 refine ⟨freed,w,N,fun fuel enough => ?_,once,all,order,fun a mem => ?_,_,here,rfl⟩
 · rw [runs fuel enough,if_pos none,append_nil]
   simp [rfs_delete_node,here,none]
 obtain ⟨live,ne⟩ := (all a).mp mem
 exact emptied.gone a ne live

/-- The files and directories of `nested`, from the innermost. -/
theorem deletes_nested : ∃ freed v' N,
 (∀ fuel ≥ N, rfs_delete_all_files fuel nestedVolume 8 = some (freed,v')) ∧ freed.Nodup ∧
 [40,32].Sublist freed ∧ [32,16].Sublist freed ∧ [24,16].Sublist freed ∧ (∀ a ∈ [16,24,32,40], v'.nodes a = none) ∧
 (rfs_delete_all_files 9 nestedVolume 8).map Prod.fst = some [40,32,24,16] := by
 obtain ⟨top,file,inner,leaf⟩ := nested_edges
 obtain ⟨freed,v',N,runs,once,all,order,gone,_⟩ := deletes_all nested_shape.toWellFormed nested_shape.finite
 have live : Live nestedVolume 16 := .single top
 have outer : 16 ∈ freed := (all 16).mpr ⟨live,by decide⟩
 have between : 32 ∈ freed := (all 32).mpr ⟨live.tail inner,by decide⟩
 refine ⟨freed,v',N,runs,once,order 32 40 leaf between,order 16 32 inner outer,order 16 24 file outer,?_,rfl⟩
 simp only [forall_mem_cons,not_mem_nil,false_imp_iff,implies_true,and_true]
 exact ⟨gone 16 outer,gone 24 ((all 24).mpr ⟨live.tail file,by decide⟩),gone 32 between,
  gone 40 ((all 40).mpr ⟨(live.tail inner).tail leaf,by decide⟩)⟩

end Netbas.RamNodes
