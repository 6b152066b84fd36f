import Netbas.FileTable

/-!
What `sys_pipe` (`drv/fs/vfs/pipe.c`) needs for a new pipe to be one (`pipe_right_iff`).
-/
namespace Netbas.PipeCreation
open FileTable List Option Function
variable {Inode : Type}
def PAGE_SIZE : Nat := 4096
def O_RDONLY : Nat := 0
def O_WRONLY : Nat := 1

/-- What the calls of `kmalloc` and `create_pipe_node` give. -/
structure Resources (Inode : Type) where
 f_iob : Bool × Bool
 /-- The words of the memory where the pipe has its head and its tail; nobody sets them. -/
 pipe : Option (Nat × Nat)
 node : Option Inode

variable (s : Tables Inode) (f_mode : Nat -> Nat) (t : Nat) (r : Resources Inode) {s1 s2 : Tables Inode} {i f f' : Nat}

/-- The result, `fildes`, the tables and the modes of the pool. `init_fiob` clears the memory of a null pointer. -/
def sys_pipe : Option (Int × Option (Nat × Nat) × Tables Inode × (Nat -> Nat)) :=
 match pipe_slots s t with
 | some (.ok (i,f,f',_)) =>
  if r.f_iob.1 && r.f_iob.2 then (FileTable.sys_pipe s t r.node).map (fun (rc,s') =>
   (rc,if rc = 0 then some (i,i + 1) else none,s',update (update f_mode f O_RDONLY) f' O_WRONLY))
  else none
 | _ => (FileTable.sys_pipe s t r.node).map (fun (rc,s') => (rc,none,s',f_mode))

/-- Descriptor `a` reads and `b` writes: they refer to different entries of the pool with the inode. -/
def Ends (s s' : Tables Inode) (f_mode : Nat -> Nat) (t : Nat) (node : Option Inode) (a b : Nat) : Prop :=
 a ≠ b ∧ a < NR_FILES ∧ b < NR_FILES ∧ (s.proc t).fp a = none ∧ (s.proc t).fp b = none ∧
  ∃ f f', f ≠ f' ∧ (s'.proc t).fp a = some f ∧ (s'.proc t).fp b = some f' ∧ node.isSome ∧
   (s'.FilePool f).f_inode = node ∧ (s'.FilePool f').f_inode = node ∧ f_mode f = O_RDONLY ∧ f_mode f' = O_WRONLY

/-- Two entries are free. -/
def Pool : Prop := ∃ f f', f ≠ f' ∧ f < NR_FPOOLS ∧ f' < NR_FPOOLS ∧ (s.FilePool f).f_count = 0 ∧ (s.FilePool f').f_count = 0

/-- Two descriptors, two entries of the pool, the inode and the memory are there. -/
def Available : Prop :=
 (∃ a b, a ≠ b ∧ a < NR_FILES ∧ b < NR_FILES ∧ (s.proc t).fp a = none ∧ (s.proc t).fp b = none) ∧
  Pool s ∧ r.node.isSome ∧ r.pipe.isSome ∧ r.f_iob = (true,true)

/-- An empty pipe is made, or an error leaves the tables; and it is made when everything is there. -/
def Right : Prop := ∃ rc fildes s' f_mode', sys_pipe s f_mode t r = some (rc,fildes,s',f_mode') ∧
 (rc = 0 ∧ (∃ a b, fildes = some (a,b) ∧ Ends s s' f_mode' t r.node a b) ∧ (∃ head < PAGE_SIZE, r.pipe = some (head,head)) ∨
  rc < 0 ∧ s' = s ∧ f_mode' = f_mode) ∧
 (Available s t r -> rc = 0)
def pair : Option Nat := (range NR_FILES).find? (fun i => ((s.proc t).fp i).isNone && (s.proc t).next_null i)
def Takes (i : Nat) : Prop := i + 1 < NR_FILES ∧ ∃ f s1 f' s2, get_empty_filp s = some (f,s1) ∧ get_empty_filp s1 = some (f',s2)
lemma empty_none : get_empty_filp s = none ↔ ∀ f < NR_FPOOLS, (s.FilePool f).f_count ≠ 0 := by
 simp [get_empty_filp]
variable {s} in
lemma empty_some (ran : get_empty_filp s = some (f,s1)) : f < NR_FPOOLS ∧ (s.FilePool f).f_count = 0 ∧
 s1 = (s.set_inode f none).set_count f 1 ∧ ∀ g, (s1.FilePool g).f_count = if g = f then 1 else (s.FilePool g).f_count := by
 have eq := get_empty_filp_spec ran
 rw [get_empty_filp] at ran
 obtain ⟨_,hit,rfl,-⟩ := map_eq_some_iff.mp ran
 refine ⟨mem_range.mp (mem_of_find?_eq_some hit),by simpa using find?_some hit,eq,fun g => ?_⟩
 rw [eq]
 by_cases here : g = f
 · simp [Tables.set_count,here]
 · simp [Tables.set_count,Tables.set_inode,here]
variable {s} in
lemma entries_apart (fst : get_empty_filp s = some (f,s1))
 (snd : get_empty_filp s1 = some (f',s2)) : f ≠ f' := by
 intro eq
 have free := (empty_some snd).2.1
 rw [(empty_some fst).2.2.2,if_pos eq.symm] at free
 omega
lemma two_entries : Pool s ↔
 ∃ f s1 f' s2, get_empty_filp s = some (f,s1) ∧ get_empty_filp s1 = some (f',s2) ∧ f ≠ f' := by
 constructor
 · rintro ⟨f,f',apart,mem,inside',free,free'⟩
   cases fst : get_empty_filp s with
   | none => exact ((empty_none s).mp fst f mem free).elim
   | some r =>
    obtain ⟨g,s1⟩ := r
    obtain ⟨-,-,-,counts⟩ := empty_some fst
    cases snd : get_empty_filp s1 with
    | none =>
     have used := (empty_none s1).mp snd
     have here := used f mem
     have here' := used f' inside'
     rw [counts] at here here'
     have : f = g := by
      by_contra ne
      exact here (by rw [if_neg ne,free])
     have : f' = g := by
      by_contra ne
      exact here' (by rw [if_neg ne,free'])
     omega
    | some r =>
     exact ⟨g,s1,r.1,r.2,rfl,snd,entries_apart fst snd⟩
 rintro ⟨f,s1,f',s2,fst,snd,apart⟩
 obtain ⟨mem,free,-,counts⟩ := empty_some fst
 obtain ⟨inside',free',-⟩ := empty_some snd
 rw [counts,if_neg (Ne.symm apart)] at free'
 exact ⟨f,f',apart,mem,inside',free,free'⟩
variable {s t} in
lemma pair_some (hit : pair s t = some i) : (s.proc t).fp i = none ∧ (i + 1 < NR_FILES -> (s.proc t).fp (i + 1) = none) := by
 have both := find?_some hit
 simp only [Bool.and_eq_true,isNone_iff_eq_none,Task.next_null] at both
 refine ⟨both.1,fun last => ?_⟩
 simpa [last] using both.2
lemma slots_none (hit : pair s t = none) : pipe_slots s t = some (.error (-EINVAL)) := by
 rw [pair] at hit
 simp only [pipe_slots,hit]
variable {s t} in
lemma slots_some (hit : pair s t = some i) (last : i + 1 < NR_FILES)
 (fst : get_empty_filp s = some (f,s1)) (snd : get_empty_filp s1 = some (f',s2)) :
 pipe_slots s t = some (.ok (i,f,f',(s2.set_fp t i (some f)).set_fp t (i + 1) (some f'))) := by
 rw [pair] at hit
 simp only [pipe_slots,hit,fst,snd,if_pos last]
variable {s t} in
lemma slots_fail (hit : pair s t = some i) (missing : ¬ Takes s i) :
 pipe_slots s t = none := by
 rw [pair] at hit
 cases fst : get_empty_filp s with
 | none => simp only [pipe_slots,hit,fst]
 | some x =>
  cases snd : get_empty_filp x.2 with
  | none => simp only [pipe_slots,hit,fst,snd]
  | some y =>
   have out : ¬ i + 1 < NR_FILES := fun last => missing ⟨last,x.1,x.2,y.1,y.2,fst,snd⟩
   simp only [pipe_slots,hit,fst,snd,if_neg out]
variable {s t} in
lemma ends_made {v : Inode} (hit : pair s t = some i) (last : i + 1 < NR_FILES) (ne : f ≠ f') :
 Ends s ((((s2.set_fp t i (some f)).set_fp t (i + 1) (some f')).set_inode f (some v)).set_inode f' (some v))
  (update (update f_mode f O_RDONLY) f' O_WRONLY) t (some v) i (i + 1) := by
 obtain ⟨free,next⟩ := pair_some hit
 refine ⟨by omega,by omega,last,free,next last,f,f',ne,?_,?_,rfl,?_,?_,?_,update_self ..⟩
 · simp [Tables.set_inode,Tables.set_fp,Tables.set_task,Task.set_fp]
 · simp [Tables.set_inode,Tables.set_fp,Tables.set_task,Task.set_fp]
 · simp [Tables.set_inode,ne]
 · simp [Tables.set_inode]
 · rw [update_of_ne ne,update_self]
lemma refused (hit : pair s t = none) : Right s f_mode t r ↔ ¬ Available s t r := by
 have made : sys_pipe s f_mode t r = some (-EINVAL,none,s,f_mode) := by simp [sys_pipe,FileTable.sys_pipe,slots_none s t hit]
 constructor
 · rintro ⟨rc,fildes,s',f_mode',made',-,needed⟩ available
   obtain ⟨rfl,-⟩ := Prod.mk.inj (some.inj (made.symm.trans made'))
   exact absurd (needed available) (by decide)
 · exact fun missing => ⟨_,_,_,_,made,.inr ⟨by decide,rfl,rfl⟩,fun available => (missing available).elim⟩
theorem pipe_right_iff : Right s f_mode t r ↔
 match pair s t with
 | none => ¬ Available s t r
 | some i => i + 1 < NR_FILES ∧ Available s t r ∧ ∃ head < PAGE_SIZE, r.pipe = some (head,head) := by
 cases found : pair s t with
 | none => exact refused s f_mode t r found
 | some i =>
  constructor
  · rintro ⟨rc,fildes,s',f_mode',made,outcome,-⟩
    by_cases taken : Takes s i
    · obtain ⟨last,f,s1,f',s2,fst,snd⟩ := taken
      have slots := slots_some found last fst snd
      simp only [sys_pipe,FileTable.sys_pipe,slots] at made
      obtain ⟨free,next⟩ := pair_some found
      by_cases memory : r.f_iob = (true,true)
      · cases node : r.node with
        | none =>
         simp only [memory,node,Bool.and_self,if_true,map_some,some.injEq,Prod.mk.injEq] at made
         obtain ⟨rfl,-,rfl,-⟩ := made
         obtain ⟨zero,-⟩ | ⟨-,eq,-⟩ := outcome
         · exact absurd zero (by decide)
         -- The descriptor is still set.
         have kept := congrArg (fun s : Tables Inode => (s.proc t).fp i) eq
         simp [free_fpool,Tables.set_count,Tables.set_fp,Tables.set_task,Task.set_fp,free] at kept
        | some v =>
         simp only [memory,node,Bool.and_self,if_true,map_some,some.injEq,Prod.mk.injEq] at made
         obtain ⟨rfl,-,-⟩ := made
         obtain ⟨-,-,empty⟩ | ⟨negative,-⟩ := outcome
         · obtain ⟨head,small,pipe⟩ := empty
           have entries := (two_entries s).mpr ⟨f,s1,f',s2,fst,snd,entries_apart fst snd⟩
           exact ⟨last,⟨⟨i,i + 1,by omega,by omega,last,free,next last⟩,entries,by simp [node],by simp [pipe],memory⟩,head,small,pipe⟩
         · exact absurd negative (by decide)
      have unset : (r.f_iob.1 && r.f_iob.2) = false := by
       by_contra set
       exact memory (by simpa [Prod.ext_iff] using set)
      simp [unset] at made
    · simp [sys_pipe,FileTable.sys_pipe,slots_fail found taken] at made
  rintro ⟨last,available,empty⟩
  obtain ⟨-,entries,node,-,memory⟩ := available
  obtain ⟨f,s1,f',s2,fst,snd,apart⟩ := (two_entries s).mp entries
  obtain ⟨v,node⟩ := isSome_iff_exists.mp node
  have slots := slots_some found last fst snd
  have made : sys_pipe s f_mode t r = some (0,some (i,i + 1),
    (((s2.set_fp t i (some f)).set_fp t (i + 1) (some f')).set_inode f (some v)).set_inode f' (some v),update (update f_mode f O_RDONLY) f' O_WRONLY) := by
   simp [sys_pipe,FileTable.sys_pipe,slots,memory,node]
  refine ⟨_,_,_,_,made,.inl ⟨rfl,⟨i,i + 1,rfl,?_⟩,empty⟩,fun _ => rfl⟩
  rw [node]
  exact ends_made f_mode found last apart
def scattered : Tables Nat := ⟨fun _ => ⟨0,none⟩,fun _ => ⟨fun i => if i % 2 = 0 then none else some 0,none,none⟩⟩
theorem scattered_refused : ¬ Right scattered (fun _ => 0) 0 ⟨(true,true),some (0,0),some 7⟩ := by
 intro right
 have found : pair scattered 0 = none := by decide
 refine (refused scattered _ 0 _ found).mp right ⟨⟨0,2,?_⟩,⟨0,1,?_⟩,rfl,rfl,rfl⟩
 · decide
 · decide

end Netbas.PipeCreation
