import Netbas.HeadLists
import Netbas.Runs

/-!
Address space ids (`core/kernel/process.c`). None is given back, as `put_as_id` has no caller;
`asids_reusable_iff` says which histories do not run out of them.
-/
namespace Netbas.AddressSpaces
open Runs HeadLists List
open Function
universe u
def MAX_ASID : Nat := 255
def EAGAIN : Int := -11

/-- The part of a process that the ids depend on. `p_asid` has 8 bits. -/
structure Kernel (Proc : Type u) where
 as_space_map : Nat -> Bool
 process_list_head : Links Unit Proc
 p_asid : Proc -> Nat
inductive Outcome where
 | done
 | arch_proc_init_fails
 | thread_new_fails
 deriving DecidableEq

section
variable {Proc : Type u}
def get_as_id (k : Kernel Proc) : Int × Kernel Proc :=
 match (range MAX_ASID).find? (fun i => !k.as_space_map i) with
 | some i => (i,{k with as_space_map := update k.as_space_map i true})
 | none => (EAGAIN,k)

variable [DecidableEq Proc] (k : Kernel Proc)
def alloc_pcb (rp : Proc) : Kernel Proc :=
 let (id,k) := get_as_id k
 { k with
   p_asid := update k.p_asid rp (id % 256).toNat
   process_list_head := LIST_INSERT_HEAD k.process_list_head () rp }
def free_pcb (rp : Proc) : Option (Kernel Proc) :=
 (LIST_REMOVE k.process_list_head rp).map (fun links => {k with process_list_head := links})

/-- Both failures give up the block and keep the id. The name is copied through the `NULL` of a failing
  `thread_new`, where a page is mapped. -/
def create_new_process (memory : Option Proc) (outcome : Outcome) : Option (Kernel Proc) :=
 match memory, outcome with
 | none, _ => some k
 | some rp, .done => some (alloc_pcb k rp)
 | some rp, .arch_proc_init_fails | some rp, .thread_new_fails => free_pcb (alloc_pcb k rp) rp

end
structure State (Proc : Type u) where
 kernel : Kernel Proc
 live : List Proc
inductive Action (Proc : Type u) where
 | create_new_process (memory : Option Proc) (outcome : Outcome)
 | destory_proc_space (rp : Proc)

section
variable {Proc : Type u}
def boot : State Proc :=
 {kernel := {as_space_map := fun _ => false, process_list_head := Links.empty, p_asid := fun _ => 0}, live := []}

variable [DecidableEq Proc]

section
variable (s : State Proc)
/-- Memory is handed out when no process occupies it; a process is destroyed once.
  Of `destory_proc_space` only `free_pcb` concerns the ids. -/
def step : Action Proc -> Option (State Proc)
 | .create_new_process none outcome =>
  (AddressSpaces.create_new_process s.kernel none outcome).map (fun k => {s with kernel := k})
 | .create_new_process (some rp) outcome =>
  if rp ∈ s.live then none
  else (AddressSpaces.create_new_process s.kernel (some rp) outcome).map (fun k =>
   {kernel := k, live := if outcome = .done then rp :: s.live else s.live})
 | .destory_proc_space rp =>
  if rp ∈ s.live then (free_pcb s.kernel rp).map (fun k => {kernel := k, live := s.live.erase rp}) else none

/-- The live processes have different ids, and there is one left for a further
  process unless `MAX_ASID` processes are alive. -/
def Reusable : Prop :=
 ∃ list, Linked s.kernel.process_list_head list ∧ (list.map s.kernel.p_asid).Nodup ∧
  (list.length < MAX_ASID -> ∃ i < MAX_ASID, s.kernel.as_space_map i = false)
def State.room : Nat := (range MAX_ASID).countP (fun i => !s.kernel.as_space_map i)

/-- The last entry is taken only when every process made so far is alive, and after
  that none is created or destroyed. -/
def Spare : Action Proc -> Prop
 | .create_new_process (some rp) .done => rp ∉ s.live -> 2 ≤ s.room ∨ s.room = 1 ∧ s.live.length + 1 = MAX_ASID
 | .create_new_process (some rp) _ => rp ∉ s.live -> s.room ≠ 1
 | .destory_proc_space rp => rp ∈ s.live -> s.room ≠ 0
 | _ => True
end
structure Taken (s : State Proc) (n : Nat) : Prop where
 few : n ≤ MAX_ASID
 taken : ∀ i < MAX_ASID, s.kernel.as_space_map i = decide (i < n)
 linked : Linked s.kernel.process_list_head s.live
 below : ∀ rp ∈ s.live, s.kernel.p_asid rp < n
 apart : (s.live.map s.kernel.p_asid).Nodup

variable {s s' : State Proc} {n : Nat} {rp : Proc}
lemma taken_boot : Taken (boot : State Proc) 0 :=
 { few := by simp [MAX_ASID], taken := by simp [boot], linked := linked_empty, below := by simp [boot],
   apart := by simp [boot] }
lemma Taken.room (taken : Taken s n) : s.room = MAX_ASID - n := by
 have general : ∀ m, (range m).countP (fun i => !decide (i < n)) = m - n := by
  intro m
  induction m with
  | zero => simp
  | succ m ih =>
   rw [range_succ,countP_append,ih]
   by_cases low : m < n
   · simp [low]
     omega
   simp [low]
   omega
 rw [State.room,<- general]
 refine countP_congr ?_
 intro i mem
 rw [taken.taken i (mem_range.mp mem)]
lemma Taken.get_as_id (taken : Taken s n) (left : n < MAX_ASID) :
 AddressSpaces.get_as_id s.kernel =
  ((n : Int),{s.kernel with as_space_map := update s.kernel.as_space_map n true}) := by
 have fst : (range MAX_ASID).find? (fun i => !s.kernel.as_space_map i) = some n := by
  rw [find?_range_eq_some]
  refine ⟨by simp [taken.taken n left],mem_range.mpr left,?_⟩
  intro i earlier
  simp [taken.taken i (earlier.trans left),earlier]
 simp only [AddressSpaces.get_as_id,fst]
lemma Taken.get_as_id_full (taken : Taken s MAX_ASID) : AddressSpaces.get_as_id s.kernel = (EAGAIN,s.kernel) := by
 have none : (range MAX_ASID).find? (fun i => !s.kernel.as_space_map i) = none := by
  rw [find?_eq_none]
  intro i mem
  simp [taken.taken i (mem_range.mp mem),mem_range.mp mem]
 simp only [AddressSpaces.get_as_id,none]
lemma asid_kept (p_asid : Proc -> Nat) {live : List Proc} (new : rp ∉ live) (id : Nat) :
 ∀ p ∈ live, update p_asid rp id p = p_asid p := by
 intro p mem
 have ne : p ≠ rp := by
  rintro rfl
  exact new mem
 exact update_of_ne ne ..
lemma Taken.alloc (taken : Taken s n) (left : n < MAX_ASID) (new : rp ∉ s.live) :
 Taken {kernel := alloc_pcb s.kernel rp, live := rp :: s.live} (n + 1) := by
 have asid : ((n : Int) % 256).toNat = n := by
  simp only [MAX_ASID] at left
  omega
 have old := asid_kept s.kernel.p_asid new n
 have ids : s.live.map (update s.kernel.p_asid rp n) = s.live.map s.kernel.p_asid := map_congr_left old
 simp only [alloc_pcb,taken.get_as_id left,asid]
 refine ⟨left,?_,taken.linked.insert_head new,?_,?_⟩
 · intro i inside
   by_cases eq : i = n
   · simp [eq]
   simp only [update_of_ne eq,taken.taken i inside,decide_eq_decide]
   omega
 · intro p inside
   rcases mem_cons.mp inside with rfl | inside
   · simp
   · exact ((old p inside).trans_lt (taken.below p inside)).trans (Nat.lt_succ_self n)
 simp only [map_cons,update_self,ids]
 refine nodup_cons.mpr ⟨?_,taken.apart⟩
 intro inside
 obtain ⟨p,mem,eq⟩ := mem_map.mp inside
 exact absurd (taken.below p mem) (by omega)
lemma Taken.free (taken : Taken s n) (used : rp ∈ s.live) :
 ∃ k, free_pcb s.kernel rp = some k ∧ Taken {kernel := k, live := s.live.erase rp} n := by
 obtain ⟨links,gone,link⟩ := taken.linked.remove used
 refine ⟨{s.kernel with process_list_head := links},by rw [free_pcb,gone]; rfl,
  taken.few,taken.taken,link,?_,?_⟩
 · exact fun p mem => taken.below p (mem_of_mem_erase mem)
 · exact taken.apart.sublist (erase_sublist.map _)
lemma alloc_full (taken : Taken s MAX_ASID) (rp : Proc) : alloc_pcb s.kernel rp =
  { s.kernel with p_asid := update s.kernel.p_asid rp 245
                  process_list_head := LIST_INSERT_HEAD s.kernel.process_list_head () rp } := by
 simp only [alloc_pcb,taken.get_as_id_full]
 rfl

section
variable (taken : Taken s n)
include taken
lemma Taken.give_up (new : rp ∉ s.live) :
 ∃ k, free_pcb (alloc_pcb s.kernel rp) rp = some k ∧
  Taken {kernel := k, live := s.live} (min (n + 1) MAX_ASID) := by
 by_cases left : n < MAX_ASID
 · obtain ⟨k,freed,taken'⟩ := (taken.alloc left new).free (mem_cons_self ..)
   rw [erase_cons_head] at taken'
   refine ⟨k,freed,?_⟩
   rwa [Nat.min_eq_left left]
 obtain rfl : n = MAX_ASID := Nat.le_antisymm taken.few (Nat.not_lt.mp left)
 obtain ⟨links,gone,link⟩ := (taken.linked.insert_head new).remove (x := rp) (by simp)
 rw [erase_cons_head] at link
 have old := asid_kept s.kernel.p_asid new 245
 refine ⟨{s.kernel with p_asid := update s.kernel.p_asid rp 245, process_list_head := links},?_,?_⟩
 · rw [alloc_full taken,free_pcb,gone]
   rfl
 rw [Nat.min_eq_right (Nat.le_succ _)]
 refine ⟨taken.few,taken.taken,link,?_,?_⟩
 · exact fun p mem => (old p mem).trans_lt (taken.below p mem)
 rw [map_congr_left old]
 exact taken.apart
lemma reusable_iff : Reusable s ↔ (s.live.length < MAX_ASID -> n < MAX_ASID) := by
 constructor
 · rintro ⟨list,link,_,free⟩ few
   obtain rfl := seg_unique taken.linked.1 link.1
   obtain ⟨i,mem,unused⟩ := free few
   rw [taken.taken i mem,decide_eq_false_iff_not] at unused
   omega
 intro left
 refine ⟨s.live,taken.linked,taken.apart,fun few => ⟨n,left few,?_⟩⟩
 simp [taken.taken n (left few)]
lemma Taken.within : (s.live.map s.kernel.p_asid).toFinset ⊆ Finset.range n := by
 intro j mem
 obtain ⟨p,used,rfl⟩ := mem_map.mp (mem_toFinset.mp mem)
 exact Finset.mem_range.mpr (taken.below p used)
lemma Taken.length_le : s.live.length ≤ n := by
 have bound := Finset.card_le_card taken.within
 rwa [toFinset_card_of_nodup taken.apart,length_map,Finset.card_range] at bound
end
lemma Taken.all_in_use (taken : Taken s MAX_ASID) (full : MAX_ASID ≤ s.live.length) {i : Nat} (mem : i < MAX_ASID) :
 i ∈ s.live.map s.kernel.p_asid := by
 have many : (Finset.range MAX_ASID).card ≤ (s.live.map s.kernel.p_asid).toFinset.card := by
  rw [toFinset_card_of_nodup taken.apart,length_map,Finset.card_range]
  exact full
 have eq := Finset.eq_of_subset_of_card_le taken.within many
 rw [<- mem_toFinset,eq]
 exact Finset.mem_range.mpr mem
def Left (s : State Proc) : Prop := ∃ n, Taken s n ∧ (s.live.length < MAX_ASID -> n < MAX_ASID)
lemma step_left {a : Action Proc} (left : Left s) (spare : Spare s a) (taken : step s a = some s') : Left s' := by
 obtain ⟨n,used,room⟩ := left
 have entries := used.room
 have few := used.few
 cases a with
 | create_new_process memory outcome =>
  cases memory with
  | none =>
   cases taken
   exact ⟨n,used,room⟩
  | some rp =>
   obtain ⟨new,taken⟩ := Option.ite_none_left_eq_some.mp taken
   cases outcome with
   | done =>
    cases taken
    rcases spare new with two | ⟨one,last⟩
    · exact ⟨n + 1,used.alloc (by omega) new,fun _ => by omega⟩
    refine ⟨n + 1,used.alloc (by omega) new,fun few => ?_⟩
    simp only [if_true,length_cons] at few
    omega
   | arch_proc_init_fails | thread_new_fails =>
    obtain ⟨k,freed,used'⟩ := used.give_up new
    simp only [create_new_process,freed] at taken
    cases taken
    have ne := spare new
    refine ⟨_,used',fun few => ?_⟩
    have pre := room few
    omega
 | destory_proc_space rp =>
  obtain ⟨used',taken⟩ := Option.ite_none_right_eq_some.mp taken
  obtain ⟨k,freed,after⟩ := used.free used'
  rw [freed] at taken
  cases taken
  have ne := spare used'
  exact ⟨n,after,fun _ => by omega⟩
lemma step_breaks {a : Action Proc} (left : Left s) (spent : ¬ Spare s a) :
 ∃ s', step s a = some s' ∧ ¬ Reusable s' := by
 obtain ⟨n,used,room⟩ := left
 have entries := used.room
 have few := used.few
 cases a with
 | create_new_process memory outcome =>
  cases memory with
  | none => exact absurd trivial spent
  | some rp =>
   cases outcome with
   | done =>
    obtain ⟨new,spent⟩ := Classical.not_imp.mp spent
    refine ⟨{kernel := alloc_pcb s.kernel rp, live := rp :: s.live},by simp [step,new,create_new_process],?_⟩
    by_cases full : n = MAX_ASID
    · -- the new process has the id 245, which a live one has already
      subst full
      rintro ⟨list,link,once,_⟩
      simp only [alloc_full used] at link once
      obtain rfl := seg_unique (used.linked.insert_head new).1 link.1
      have inUse := used.all_in_use (Nat.not_lt.mp (fun few => absurd (room few) (by omega)))
       (i := 245) (by simp [MAX_ASID])
      rw [map_cons,update_self,map_congr_left (asid_kept s.kernel.p_asid new 245)] at once
      exact (nodup_cons.mp once).1 inUse
    rw [reusable_iff (used.alloc (by omega) new)]
    intro after
    have bound := used.length_le
    simp only [length_cons] at after
    omega
   | arch_proc_init_fails | thread_new_fails =>
    obtain ⟨new,spent⟩ := Classical.not_imp.mp spent
    obtain ⟨k,freed,used'⟩ := used.give_up new
    refine ⟨{kernel := k, live := s.live},by simp [step,new,create_new_process,freed],?_⟩
    rw [reusable_iff used']
    intro after
    have bound := used.length_le
    simp only at after
    omega
 | destory_proc_space rp =>
  obtain ⟨used',spent⟩ := Classical.not_imp.mp spent
  obtain ⟨k,freed,after⟩ := used.free used'
  refine ⟨{kernel := k, live := s.live.erase rp},by simp [step,used',freed],?_⟩
  rw [reusable_iff after]
  intro left
  have bound := used.length_le
  have shorter := length_erase_of_mem used'
  have some := length_pos_of_mem used'
  simp only at left
  omega

/-- The ids are distinct and reusable along a history exactly when it meets the
  condition. -/
theorem asids_reusable_iff (actions : List (Action Proc)) :
 Along step Reusable (fun _ _ => True) boot actions ↔ Meets step Spare boot actions := by
 refine along_iff (I := Left) ?_ (fun _ _ _ _ => trivial) (fun _ _ _ left spare taken => step_left left spare taken)
  (fun _ _ left spent _ => step_breaks left spent) actions boot ⟨0,taken_boot,by simp [MAX_ASID]⟩
 rintro s ⟨n,used,room⟩
 exact (reusable_iff used).mpr room
def churn (rp : Proc) : Nat -> List (Action Proc)
 | 0 => []
 | n + 1 => .create_new_process (some rp) .done :: .destory_proc_space rp :: churn rp n
lemma churn_taken (rp : Proc) (m : Nat) (used : Taken s n) (new : rp ∉ s.live) (fits : n + m ≤ MAX_ASID) :
 ∃ s', run step s (churn rp m) = some s' ∧ Taken s' (n + m) ∧ s'.live = s.live := by
 induction m generalizing s n with
 | zero => exact ⟨s,rfl,used,rfl⟩
 | succ m ih =>
  obtain ⟨k,freed,used'⟩ := (used.alloc (by omega) new).free (mem_cons_self ..)
  rw [erase_cons_head] at used'
  obtain ⟨s',runs,final,eq⟩ := ih used' new (by omega)
  refine ⟨s',?_,by rwa [show n + (m + 1) = n + 1 + m by omega],eq⟩
  simpa [churn,run,step,new,create_new_process,freed] using runs
theorem asids_run_out :
 ∃ s, run step (boot : State Nat) (churn 0 255 ++
   [.create_new_process (some 1) .done,.create_new_process (some 2) .done]) = some s ∧
  s.live = [2,1] ∧ s.kernel.p_asid 1 = 245 ∧ s.kernel.p_asid 2 = 245 ∧ ¬ Reusable s := by
 obtain ⟨s,runs,used,empty⟩ := churn_taken 0 255 (taken_boot : Taken (boot : State Nat) 0) (by simp [boot]) (by decide)
 have linked := used.linked
 rw [empty] at linked
 have fst : Taken {kernel := alloc_pcb s.kernel 1, live := [1]} MAX_ASID := by
  rw [alloc_full used]
  refine ⟨used.few,used.taken,linked.insert_head (by simp [boot]),?_,by simp⟩
  intro p inside
  simp [mem_singleton.mp inside,MAX_ASID]
 have snd := alloc_full fst 2
 have list : Linked (alloc_pcb (alloc_pcb s.kernel 1) 2).process_list_head [2,1] := by
  rw [snd]
  exact fst.linked.insert_head (by simp)
 have ids : (alloc_pcb (alloc_pcb s.kernel 1) 2).p_asid 1 = 245 ∧
   (alloc_pcb (alloc_pcb s.kernel 1) 2).p_asid 2 = 245 := by
  rw [snd,alloc_full used]
  simp
 refine ⟨{kernel := alloc_pcb (alloc_pcb s.kernel 1) 2, live := [2,1]},?_,rfl,ids.1,ids.2,?_⟩
 · rw [run_append,runs]
   simp [run,step,empty,boot,create_new_process]
 rintro ⟨list',linked',once,_⟩
 obtain rfl := seg_unique list.1 linked'.1
 simp [ids.1,ids.2] at once

end
end Netbas.AddressSpaces
