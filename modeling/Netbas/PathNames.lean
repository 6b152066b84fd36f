import Mathlib.Data.List.TakeWhile
import Netbas.Inodes

/-!
The names of a path. A blank name ends the walk of `do_namei`, and so does one of `PATH_MAX`
characters, behind which the terminator is stored outside the buffer; `resolves_iff` says for which
paths `do_namei` is the fold over the components.
-/
namespace Netbas.Inodes
open List
def blank (c : Path) : Bool := c ≠ [] && c.all (· = ' ')
def names (components : List Path) : List Path :=
 (components.map (fun c => c.dropWhile (· = ' '))).filter (fun c => c ≠ [] ∧ c ≠ ['.'])
def components (path : Path) : List Path := path.splitOnP (· = '/')

section
variable {σ : Type}
def resolve (step : σ -> Path -> Option σ) : σ -> List Path -> Option σ
 | s, [] => some s
 | s, c :: cs => if PATH_MAX ≤ c.length then none else (step s c).bind (fun s' => resolve step s' cs)
def follow (step : σ -> Path -> Option σ) : Nat -> σ -> Path -> Option σ
 | 0, s, _ => some s
 | fuel + 1, s, path =>
  let (name,rest) := get_iname path
  if name.length = 0 ∨ PATH_MAX ≤ name.length then some s
  else if name = ['.'] then follow step fuel s rest
  else (step s name).bind (fun s' => follow step fuel s' rest)
def inside : Nat -> Path -> Bool
 | 0, _ => true
 | fuel + 1, path =>
  let (name,rest) := get_iname path
  name.length < PATH_MAX && (name.length = 0 || inside fuel rest)
variable (disk : Disk)
def openStep (s : Table × Nat) (name : Path) : Option (Table × Nat) :=
 (vfs_opendir disk s.1 s.2 name).map (fun r => ((iput r.2 s.2).2,r.1))
def PathRight (path : Path) : Prop :=
 inside (path.length + 1) path ∧ ∀ (disk : Disk) (vnode : Table) (istart v : Nat) (vnode' : Table),
  do_namei disk vnode istart path = (.ok v,vnode') ↔
   resolve (openStep disk) (dup_inode vnode (some istart),istart) (names (components path)) = some (vnode',v)
lemma walk_eq (fuel : Nat) : ∀ (vnode : Table) (v : Nat) (path : Path),
 (walk disk fuel vnode v path).1 = (follow (openStep disk) fuel (vnode,v) path).map Prod.snd ∧
  ∀ r, follow (openStep disk) fuel (vnode,v) path = some r -> (walk disk fuel vnode v path).2 = r.1 := by
 induction fuel with
 | zero =>
  intro vnode v path
  refine ⟨rfl,?_⟩
  rintro _ ⟨⟩
  rfl
 | succ fuel ih =>
  intro vnode v path
  rw [walk,follow]
  cases get_iname path with
  | mk name rest =>
   simp only
   split
   · refine ⟨rfl,?_⟩
     rintro _ ⟨⟩
     rfl
   split
   · exact ih vnode v rest
   rw [openStep]
   cases vfs_opendir disk vnode v name with
   | none => simp
   | some hit => exact ih (iput hit.2 v).2 hit.1 rest
def opened (step : σ -> Path -> Option σ) : σ -> List Path -> Option σ
 | s, [] => some s
 | s, c :: cs => if PATH_MAX ≤ c.length then some s else (step s c).bind (fun s' => opened step s' cs)
def reached (path : Path) : List Path := names ((components path).takeWhile (fun c => !blank c))
def unreached (path : Path) : List Path := names ((components path).dropWhile (fun c => !blank c))

variable {path : Path}
lemma names_components : names (components path) = reached path ++ unreached path := by
 rw [reached,unreached,names,names,names,<- filter_append,<- map_append,takeWhile_append_dropWhile]
lemma components_slash (path : Path) : components ('/' :: path) = [] :: components path := by
 simp [components,splitOnP_cons_eq_if_modifyHead]
lemma get_iname_slash (path : Path) : get_iname ('/' :: path) = get_iname path := by
 simp [get_iname]
def Ends (d : Path) : Prop := d = [] ∨ ∃ more, d = '/' :: more
lemma cut_path (path : Path) : ∃ c d, path = c ++ d ∧ '/' ∉ c ∧ Ends d := by
 induction path with
 | nil => exact ⟨[],[],rfl,by simp,.inl rfl⟩
 | cons x p ih =>
  by_cases slash : x = '/'
  · exact ⟨[],x :: p,rfl,by simp,.inr ⟨p,by rw [slash]⟩⟩
  obtain ⟨c,d,rfl,plain,ends⟩ := ih
  exact ⟨x :: c,d,rfl,by simp [plain,Ne.symm slash],ends⟩

variable {c d : Path}
lemma reached_append (plain : '/' ∉ c) (ends : Ends d) :
 reached (c ++ d) = if blank c then [] else names [c] ++ reached (d.drop 1) := by
 have none : ∀ x ∈ c, decide (x = '/') = false := by
  intro x mem
  exact decide_eq_false fun eq => plain (eq ▸ mem)
 have nothing : reached [] = [] := by decide
 rcases ends with rfl | ⟨more,rfl⟩
 · rw [reached,components,append_nil,splitOnP_eq_singleton none,drop_nil,nothing,append_nil]
   cases isBlank : blank c <;> simp [isBlank,names]
 rw [reached,components,splitOnP_append_cons_of_forall_mem none '/' (by decide),<- components,drop_one,tail_cons]
 cases isBlank : blank c with
 | true => simp [isBlank,names]
 | false =>
  rw [takeWhile_cons_of_pos (by simp [isBlank]),reached,names,names,names,if_neg (by decide),<- filter_append,<- map_append]
  rfl
lemma get_iname_append (plain : '/' ∉ c) (some : c ≠ []) (ends : Ends d) :
 (get_iname (c ++ d)).1 = (c.dropWhile (· = ' ')).take PATH_MAX ∧
  ((c.dropWhile (· = ' ')).length < PATH_MAX -> c.dropWhile (· = ' ') ≠ [] -> (get_iname (c ++ d)).2 = d.drop 1) := by
 have ne : ∀ y ∈ c.dropWhile (· = ' '), decide (y ≠ '/') = true := by
  intro y mem
  exact decide_eq_true fun eq => plain (eq ▸ (dropWhile_sublist _).mem mem)
 have slash : d.takeWhile (· ≠ '/') = [] ∧ d.dropWhile (· = ' ') = d := by
  rcases ends with rfl | ⟨more,rfl⟩ <;> simp
 have start : ((c ++ d).dropWhile (· = '/')).dropWhile (· = ' ') = c.dropWhile (· = ' ') ++ d := by
  obtain ⟨x,p,rfl⟩ := exists_cons_of_ne_nil some
  rw [cons_append,dropWhile_cons_of_neg (by simp at plain ⊢; tauto),<- cons_append,dropWhile_append,slash.2]
  split
  · rename_i empty
    rw [isEmpty_iff.mp empty,nil_append]
  · rfl
 have name : ((c.dropWhile (· = ' ')) ++ d).takeWhile (· ≠ '/') = c.dropWhile (· = ' ') := by
  rw [takeWhile_append_of_pos ne,slash.1,append_nil]
 rw [get_iname]
 simp only [start,name]
 refine ⟨trivial,fun short _ => ?_⟩
 rw [Nat.min_eq_left (by omega),<- drop_drop,drop_left]
lemma blank_iff (some : c ≠ []) : blank c = true ↔ c.dropWhile (· = ' ') = [] := by
 simp [blank,some,dropWhile_eq_nil_iff]

variable (step : σ -> Path -> Option σ)
lemma follow_eq (path : Path) : ∀ (fuel : Nat) (s : σ), path.length < fuel ->
 follow step fuel s path = opened step s (reached path) ∧
  (inside fuel path = true ↔ ∀ name ∈ reached path, name.length < PATH_MAX) := by
 induction size : path.length using Nat.strong_induction_on generalizing path with
 | _ n ih =>
  intro fuel s enough
  obtain ⟨fuel,rfl⟩ : ∃ m, fuel = m + 1 := ⟨fuel - 1,by omega⟩
  obtain ⟨c,d,rfl,plain,ends⟩ := cut_path path
  rw [length_append] at size
  by_cases empty : c = []
  · subst empty
    rcases ends with rfl | ⟨more,rfl⟩
    · have nothing : reached [] = [] := by decide
      exact ⟨rfl,iff_of_true rfl (by simp [nothing])⟩
    have eq : reached ('/' :: more) = reached more := by
     rw [reached,components_slash,takeWhile_cons_of_pos (by decide)]
     rfl
    have less := ih more.length (by simp at size; omega) more rfl (fuel + 1) s (by simp at size; omega)
    rw [nil_append,eq,<- less.1,<- less.2,follow,follow,inside,inside,get_iname_slash]
    exact ⟨rfl,Iff.rfl⟩
  have pos := length_pos_of_ne_nil empty
  obtain ⟨fst,rest⟩ := get_iname_append plain empty ends
  rw [follow,inside,reached_append plain ends]
  obtain ⟨w,isWord⟩ : ∃ w, w = c.dropWhile (· = ' ') := ⟨_,rfl⟩
  have stops := blank_iff empty
  rw [<- isWord] at fst rest stops
  have named : names [c] = if w = [] ∨ w = ['.'] then [] else [w] := by
   simp only [names,map_cons,map_nil,<- isWord,filter_cons,filter_nil]
   by_cases none : w = [] <;> by_cases dot : w = ['.'] <;> simp [none,dot]
  simp only [fst,length_take]
  by_cases none : w = []
  · rw [if_pos (by simp [none]),if_pos (stops.mpr none)]
    simp [none,opened,PATH_MAX]
  have some : w.length ≠ 0 := fun zero => none (length_eq_zero_iff.mp zero)
  rw [if_neg (fun isBlank => none (stops.mp isBlank)),named]
  by_cases short : w.length < PATH_MAX
  · have less := fun s => ih (d.drop 1).length (by rw [length_drop]; omega) (d.drop 1) rfl fuel s
     (by rw [length_drop]; omega)
    rw [if_neg (by omega),rest short none,take_of_length_le (by omega),(less s).1]
    by_cases dot : w = ['.']
    · rw [if_pos dot,if_pos (.inr dot),nil_append]
      refine ⟨rfl,?_⟩
      rw [<- (less s).2]
      simp [dot,PATH_MAX]
    rw [if_neg dot,if_neg (by tauto),singleton_append,opened,if_neg (by omega)]
    refine ⟨?_,?_⟩
    · congr 1
      funext s'
      exact (less s').1
    rw [forall_mem_cons,<- (less s).2]
    simp [some,PATH_MAX]
  have long : ['.'].length < PATH_MAX := by decide
  rw [if_pos (.inr (by omega)),if_neg (by rintro (zero | rfl) <;> contradiction),singleton_append,opened,if_pos (by omega)]
  refine ⟨rfl,?_⟩
  rw [forall_mem_cons]
  simp [short]
lemma resolve_eq (cs : List Path) (short : ∀ c ∈ cs, c.length < PATH_MAX) :
 ∀ s, resolve step s cs = opened step s cs := by
 induction cs with
 | nil => exact fun _ => rfl
 | cons c cs ih =>
  intro s
  have fst := short c (by simp)
  rw [resolve,opened,if_neg (by omega),if_neg (by omega)]
  congr 1
  funext s'
  exact ih (fun c mem => short c (by simp [mem])) s'
lemma do_namei_ok_iff (vnode : Table) (istart v : Nat) (vnode' : Table) :
 do_namei disk vnode istart path = (.ok v,vnode') ↔
  opened (openStep disk) (dup_inode vnode (some istart),istart) (reached path) = some (vnode',v) := by
 obtain ⟨hit,after⟩ := walk_eq disk (path.length + 1) (dup_inode vnode (some istart)) istart path
 rw [(follow_eq (openStep disk) path _ _ (Nat.lt_succ_self _)).1] at hit after
 rw [do_namei]
 cases walked : walk disk (path.length + 1) (dup_inode vnode (some istart)) istart path with
 | mk res table =>
  rw [walked] at hit after
  cases ends : opened (openStep disk) (dup_inode vnode (some istart),istart) (reached path) with
  | none =>
   rw [ends] at hit
   cases hit
   simp
  | some r =>
   rw [ends] at hit
   cases hit
   cases after r ends
   simp [Prod.ext_iff,and_comm]

/-- Under every directory but the last there is one more, whatever its name. -/
def nested (depth : Nat) : Disk where
 opendir := fun dev n _ => if n < depth then some (dev,n + 1) else none
 ino_rw := fun _ _ => (0,0)
def unused : Vnode := ⟨0,0,0,0,0⟩

/-- The inode is the only one in use. -/
structure Alone (n : Nat) (s : Table × Nat) : Prop where
 inside : s.2 < NR_INODE
 number : (s.1 s.2).i_number = n
 count : (s.1 s.2).i_count = 1
 others : ∀ w ≠ s.2, (s.1 w).i_number = 0 ∧ (s.1 w).i_count = 0
lemma alone_start : Alone 0 (dup_inode (fun _ => unused) (some 0),0) := by
 refine ⟨by decide,rfl,rfl,fun w ne => ?_⟩
 simp [dup_inode,set_count,ne,unused]

variable {n depth : Nat} {s : Table × Nat}
lemma openStep_nested (alone : Alone n s) (name : Path) (above : n < depth) :
 ∃ s', openStep (nested depth) s name = some s' ∧ Alone (n + 1) s' := by
 obtain ⟨vnode,v⟩ := s
 obtain ⟨inside,number,count,others⟩ := alone
 dsimp only at inside number count others
 have unknown : ifind vnode (vnode v).i_dev (n + 1) = none := by
  refine find?_eq_none.mpr fun w _ => ?_
  by_cases eq : w = v
  · simp [eq,number]
  · simp [(others w eq).1]
 -- The inode where the walk is takes one slot, so hit is another.
 obtain ⟨w,free⟩ : ∃ w, (range NR_INODE).find? (fun i => (vnode i).i_count = 0) = some w := by
  refine Option.isSome_iff_exists.mp (find?_isSome.mpr ?_)
  by_cases fst : v = 0
  · exact ⟨1,by decide,by simp [(others 1 (by omega)).2]⟩
  · exact ⟨0,by decide,by simp [(others 0 (Ne.symm fst)).2]⟩
 have ne : w ≠ v := by
  rintro rfl
  simpa [count] using find?_some free
 refine ⟨_,by simp only [openStep,vfs_opendir,nested,number,above,if_true,Option.bind_some,iget,unknown,free,
  Option.map_some]; rfl,?_⟩
 have last : ¬ 1 < (Function.update vnode w ⟨(vnode v).i_dev % 65536,n + 1,1,0,0⟩ v).i_count := by
  simp [Ne.symm ne,count]
 refine ⟨mem_range.mp (mem_of_find?_eq_some free),?_,?_,fun u apart => ?_⟩
 · simp [iput,last,ne]
 · simp [iput,last,ne]
 simp only [iput,if_neg last]
 by_cases here : u = v
 · simp [here]
 · simpa [here,apart] using others u here
lemma openStep_last (alone : Alone depth s) (name : Path) : openStep (nested depth) s name = none := by
 simp [openStep,vfs_opendir,nested,alone.number]
def short (c : Path) : Bool := c.length < PATH_MAX
lemma opened_nested (cs : List Path) : ∀ (n : Nat) (s : Table × Nat), Alone n s ->
 n + (cs.takeWhile short).length ≤ depth -> ∃ s', opened (openStep (nested depth)) s cs = some s' := by
 induction cs with
 | nil => exact fun n s _ _ => ⟨s,rfl⟩
 | cons c cs ih =>
  intro n s alone deep
  rw [opened]
  by_cases long : PATH_MAX ≤ c.length
  · exact ⟨s,if_pos long⟩
  rw [takeWhile_cons_of_pos (show short c from decide_eq_true (by omega)),length_cons] at deep
  obtain ⟨s',step,alone'⟩ := openStep_nested alone c (show n < depth by omega)
  rw [if_neg long,step]
  exact ih (n + 1) s' alone' (by omega)
lemma resolve_nested (cs : List Path) : ∀ (n : Nat) (s r : Table × Nat), Alone n s -> n ≤ depth ->
 resolve (openStep (nested depth)) s cs = some r -> (∀ c ∈ cs, c.length < PATH_MAX) ∧ n + cs.length ≤ depth := by
 induction cs with
 | nil => exact fun n s r _ lt _ => ⟨by simp,lt⟩
 | cons c cs ih =>
  intro n s r alone lt ends
  rw [resolve] at ends
  obtain ⟨small,ends⟩ := Option.ite_none_left_eq_some.mp ends
  rcases lt.lt_or_eq with above | rfl
  · obtain ⟨s',step,alone'⟩ := openStep_nested alone c above
    rw [step] at ends
    obtain ⟨all,deep⟩ := ih (n + 1) s' r alone' above ends
    refine ⟨forall_mem_cons.mpr ⟨by omega,all⟩,?_⟩
    rw [length_cons]
    omega
  rw [openStep_last alone] at ends
  cases ends

end

/-- For every path: `do_namei` is the fold over its components, on every disk and from every inode, and the buffer is
  not overrun, exactly when no name is too long and none comes behind a blank component. -/
theorem resolves_iff (path : Path) : PathRight path ↔
 (∀ c ∈ names (components path), c.length < PATH_MAX) ∧ unreached path = [] := by
 constructor
 · rintro ⟨_,right⟩
   -- As many directories as the walk opens: it ends well, and so the fold has no further name.
   obtain ⟨⟨vnode',v⟩,ends⟩ := opened_nested (reached path) 0 _ alone_start (Nat.zero_add _).le
   have found := (right _ _ _ v vnode').mp ((do_namei_ok_iff _ _ _ v vnode').mpr ends)
   obtain ⟨small,deep⟩ := resolve_nested _ 0 _ _ alone_start (Nat.zero_le _) found
   refine ⟨small,?_⟩
   have fewer := (takeWhile_sublist (l := reached path) short).length_le
   rw [names_components,length_append] at deep
   exact eq_nil_of_length_eq_zero (by omega)
 rintro ⟨small,none⟩
 have all : names (components path) = reached path := by rw [names_components,none,append_nil]
 rw [all] at small
 have inside := (follow_eq (openStep (nested 0)) path _ (fun _ => unused,0) (Nat.lt_succ_self _)).2.mpr small
 refine ⟨inside,fun disk vnode istart v vnode' => ?_⟩
 rw [do_namei_ok_iff,all,resolve_eq _ _ small]
theorem blank_ends_walk : (do_namei (nested 1) (fun _ => unused) 0 "a/ /b".toList).1 = .ok 1 ∧
 resolve (openStep (nested 1)) (dup_inode (fun _ => unused) (some 0),0) (names (components "a/ /b".toList)) = none :=
 ⟨rfl,rfl⟩

end Netbas.Inodes
