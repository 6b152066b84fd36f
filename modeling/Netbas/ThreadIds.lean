import Netbas.HeadLists
import Netbas.Runs

/-!
Thread ids (`core/kernel/thread.c`). The counter does not look at the threads that are alive, so an
id comes back after `MAX_PID - 1` allocations (`tids_distinct_iff`).
-/
namespace Netbas.ThreadIds
open Runs Fuel HeadLists List Option
open Function (update update_eq_self update_idem update_of_ne update_self)
universe u
def MAX_PID : Nat := 20000
structure Kernel (Thread : Type u) where
 next_pid : Nat
 thread_list_head : Links Unit Thread
 tid : Thread -> Nat

section
variable {Thread : Type u}
def get_pid (k : Kernel Thread) : Nat × Kernel Thread :=
 let next_pid := (k.next_pid + 1) % 2 ^ 32
 if next_pid < MAX_PID then (next_pid,{k with next_pid := next_pid}) else (1,{k with next_pid := 1})
def find_thread_byid (k : Kernel Thread) (id fuel : Nat) : Option (Option Thread) :=
 find k.thread_list_head (fun t => decide (k.tid t = id)) fuel (.first ())

variable [DecidableEq Thread]
def alloc_tcb (k : Kernel Thread) (t : Thread) : Kernel Thread :=
 let (id,k) := get_pid k
 {k with thread_list_head := LIST_INSERT_HEAD k.thread_list_head () t, tid := update k.tid t id}
def free_tcb (k : Kernel Thread) (t : Thread) : Option (Kernel Thread) :=
 (LIST_REMOVE k.thread_list_head t).map (fun links => {k with thread_list_head := links})
def proc_setup (idle daemon init : Thread) : Kernel Thread :=
 let k : Kernel Thread := {next_pid := 0x80, thread_list_head := Links.empty, tid := fun _ => 0}
 let k := alloc_tcb (alloc_tcb (alloc_tcb k idle) daemon) init
 {k with tid := update k.tid init 1}

end
inductive Origin where
 | init
 | nth (n : Nat)
 deriving DecidableEq
structure State (Thread : Type u) where
 kernel : Kernel Thread
 allocated : Nat
 origin : Thread -> Option Origin
inductive Action (Thread : Type u) where
 | alloc_tcb (memory : Option Thread)
 | free_tcb (t : Thread)

section
variable {Thread : Type u} [DecidableEq Thread]
def boot (idle daemon init : Thread) : State Thread :=
 { kernel := proc_setup idle daemon init
   allocated := 3
   origin := update (update (update (fun _ => none) idle (some (.nth 1)))
    daemon (some (.nth 2))) init (some .init) }

section
variable (s : State Thread)
/-- Memory is handed out when no thread occupies it; a thread is freed once. -/
def step : Action Thread -> Option (State Thread)
 | .alloc_tcb none => some s
 | .alloc_tcb (some t) =>
  if s.origin t = none then some
   { kernel := ThreadIds.alloc_tcb s.kernel t
     allocated := s.allocated + 1
     origin := update s.origin t (some (.nth (s.allocated + 1))) }
  else none
 | .free_tcb t =>
  if s.origin t = none then none
  else (ThreadIds.free_tcb s.kernel t).map
   (fun k => {s with kernel := k, origin := update s.origin t none})

/-- The threads on the list have different ids and each is found by its own. -/
def Distinct : Prop :=
 ∃ list, Linked s.kernel.thread_list_head list ∧ (list.map s.kernel.tid).Nodup ∧
  ∀ t ∈ list, Returns (find_thread_byid s.kernel (s.kernel.tid t)) (some t)

/-- After this many allocations the next one gives the id of this origin again:
  a multiple of `MAX_PID - 1` allocations later, for `proc_setup` when the counter
  has come round to 1. -/
def Origin.Recurs (allocated : Nat) : Origin -> Prop
 | .init => MAX_PID - 1 ∣ allocated + 0x80
 | .nth n => MAX_PID - 1 ∣ allocated + 1 - n
def Unused : Action Thread -> Prop
 | .alloc_tcb (some t) => s.origin t = none -> ∀ u, ∀ o ∈ s.origin u, ¬ o.Recurs s.allocated
 | _ => True
end
def Origin.id : Origin -> Nat
 | .init => 1
 | .nth n => (0x7f + n) % (MAX_PID - 1) + 1
structure Listed (s : State Thread) : Prop where
 next_pid : s.kernel.next_pid = (Origin.nth s.allocated).id
 linked : ∃ list, Linked s.kernel.thread_list_head list ∧ ∀ t, t ∈ list ↔ s.origin t ≠ none
 tid : ∀ t o, s.origin t = some o -> s.kernel.tid t = o.id
 earlier : ∀ t n, s.origin t = some (.nth n) -> n ≤ s.allocated
def Apart (s : State Thread) : Prop :=
 ∀ t u o p, s.origin t = some o -> s.origin u = some p -> o.id = p.id -> t = u

variable {s s' : State Thread} {t : Thread}
lemma get_pid_eq {k : Kernel Thread} {n : Nat} (counter : k.next_pid = (Origin.nth n).id) :
 get_pid k = ((Origin.nth (n + 1)).id,{k with next_pid := (Origin.nth (n + 1)).id}) := by
 have small : (0x7f + n) % 19999 < 19999 := Nat.mod_lt _ (by omega)
 simp only [get_pid,counter,Origin.id,MAX_PID]
 by_cases last : (0x7f + n) % 19999 + 1 + 1 < 20000
 · have next : (0x7f + (n + 1)) % 19999 = (0x7f + n) % 19999 + 1 := by omega
   simp only [next]
   rw [Nat.mod_eq_of_lt (by omega),if_pos last]
 have next : (0x7f + (n + 1)) % 19999 = 0 := by omega
 simp only [next]
 rw [Nat.mod_eq_of_lt (by omega),if_neg last]
lemma born_new {origin : Thread -> Option Origin} {u : Thread} {n o : Origin}
 (born : update origin t (some n) u = some o) : u = t ∧ o = n ∨ u ≠ t ∧ origin u = some o := by
 by_cases eq : u = t
 · subst eq
   rw [update_self] at born
   exact .inl ⟨rfl,(some.inj born).symm⟩
 rw [update_of_ne eq] at born
 exact .inr ⟨eq,born⟩
lemma born_before {origin : Thread -> Option Origin} {u : Thread} {o : Origin}
 (born : update origin t none u = some o) : origin u = some o := by
 by_cases eq : u = t
 · simp [eq] at born
 · rwa [update_of_ne eq] at born
lemma Listed.alloc (inl : Listed s) (free : s.origin t = none) : Listed
  { kernel := alloc_tcb s.kernel t
    allocated := s.allocated + 1
    origin := update s.origin t (some (.nth (s.allocated + 1))) } := by
 obtain ⟨list,link,mems⟩ := inl.linked
 have new : t ∉ list := fun mem => (mems t).mp mem free
 refine ⟨?_,⟨t :: list,?_,?_⟩,?_,?_⟩
 · simp only [alloc_tcb,get_pid_eq inl.next_pid]
 · simpa only [alloc_tcb,get_pid_eq inl.next_pid] using link.insert_head new
 · intro u
   by_cases eq : u = t
   · simp [eq]
   · simpa [eq] using mems u
 · intro u o born
   simp only [alloc_tcb,get_pid_eq inl.next_pid]
   rcases born_new born with ⟨rfl,rfl⟩ | ⟨ne,born⟩
   · rw [update_self]
   rw [update_of_ne ne]
   exact inl.tid u o born
 intro u n born
 rcases born_new born with ⟨rfl,eq⟩ | ⟨ne,born⟩
 · cases eq
   exact le_rfl
 · exact (inl.earlier u n born).trans (Nat.le_succ _)
lemma Listed.free (inl : Listed s) (used : s.origin t ≠ none) :
 ∃ k, free_tcb s.kernel t = some k ∧ Listed {s with kernel := k, origin := update s.origin t none} := by
 obtain ⟨list,link,mems⟩ := inl.linked
 obtain ⟨links,gone,linked'⟩ := link.remove ((mems t).mpr used)
 refine ⟨{s.kernel with thread_list_head := links},by rw [free_tcb,gone]; rfl,
  inl.next_pid,⟨list.erase t,linked',?_⟩,?_,?_⟩
 · intro u
   by_cases eq : u = t
   · subst eq
     simpa using link.2.not_mem_erase
   · simpa [eq,mem_erase_of_ne] using mems u
 · exact fun u o born => inl.tid u o (born_before born)
 · exact fun u n born => inl.earlier u n (born_before born)
lemma step_listed {a : Action Thread} (inl : Listed s) (ran : step s a = some s') : Listed s' := by
 cases a with
 | alloc_tcb memory =>
  cases memory with
  | none =>
   cases ran
   exact inl
  | some t =>
   obtain ⟨free,ran⟩ := ite_none_right_eq_some.mp ran
   cases ran
   exact inl.alloc free
 | free_tcb t =>
  obtain ⟨used,ran⟩ := ite_none_left_eq_some.mp ran
  obtain ⟨k,freed,listed'⟩ := inl.free used
  rw [freed] at ran
  cases ran
  exact listed'
lemma id_eq_iff {n m : Nat} (earlier : n ≤ m) :
 (Origin.nth n).id = (Origin.nth m).id ↔ MAX_PID - 1 ∣ m - n := by
 simp only [Origin.id,MAX_PID]
 omega
lemma recurs_iff (inl : Listed s) {u : Thread} {o : Origin} (born : s.origin u = some o) :
 o.Recurs s.allocated ↔ o.id = (Origin.nth (s.allocated + 1)).id := by
 cases o with
 | init =>
  simp only [Origin.Recurs,Origin.id,MAX_PID]
  omega
 | nth n => exact (id_eq_iff ((inl.earlier u n born).trans (Nat.le_succ _))).symm
lemma apart_alloc (ne : Apart s) (unused : ∀ u o, s.origin u = some o -> o.id ≠ (Origin.nth (s.allocated + 1)).id)
  {k : Kernel Thread} : Apart
   { kernel := k, allocated := s.allocated + 1
     origin := update s.origin t (some (.nth (s.allocated + 1))) } := by
 intro v u o p born born' eq
 rcases born_new born with ⟨rfl,rfl⟩ | ⟨_,old⟩ <;> rcases born_new born' with ⟨rfl,rfl⟩ | ⟨_,old'⟩
 · rfl
 · exact absurd eq.symm (unused u p old')
 · exact absurd eq (unused v o old)
 · exact ne v u o p old old' eq
lemma step_apart {a : Action Thread} (inl : Listed s) (ne : Apart s) (unused : Unused s a)
 (ran : step s a = some s') : Apart s' := by
 cases a with
 | alloc_tcb memory =>
  cases memory with
  | none =>
   cases ran
   exact ne
  | some t =>
   obtain ⟨free,ran⟩ := ite_none_right_eq_some.mp ran
   cases ran
   exact apart_alloc ne fun u o born eq => unused free u o born ((recurs_iff inl born).mpr eq)
 | free_tcb t =>
  obtain ⟨_,ran⟩ := ite_none_left_eq_some.mp ran
  obtain ⟨k,_,rfl⟩ := map_eq_some_iff.mp ran
  exact fun v u o p born born' eq => ne v u o p (born_before born) (born_before born') eq
lemma distinct_iff (inl : Listed s) : Distinct s ↔ Apart s := by
 obtain ⟨list,link,mems⟩ := inl.linked
 constructor
 · rintro ⟨list',linked',once,_⟩ t u o p born born' eq
   obtain rfl := seg_unique link.1 linked'.1
   have ids : s.kernel.tid t = s.kernel.tid u := by rw [inl.tid t o born,inl.tid u p born',eq]
   exact inj_on_of_nodup_map once ((mems t).mpr (by simp [born])) ((mems u).mpr (by simp [born'])) ids
 intro ne
 have inj : ∀ t ∈ list, ∀ u ∈ list, s.kernel.tid t = s.kernel.tid u -> t = u := by
  intro t mem u in' eq
  obtain ⟨o,born⟩ := ne_none_iff_exists'.mp ((mems t).mp mem)
  obtain ⟨p,born'⟩ := ne_none_iff_exists'.mp ((mems u).mp in')
  rw [inl.tid t o born,inl.tid u p born'] at eq
  exact ne t u o p born born' eq
 refine ⟨list,link,List.Nodup.map_on inj link.2,?_⟩
 intro t mem
 have ret := find_returns (fun u => decide (s.kernel.tid u = s.kernel.tid t)) link
 have hit : list.find? (fun u => decide (s.kernel.tid u = s.kernel.tid t)) = some t := by
  obtain ⟨u,fst⟩ := isSome_iff_exists.mp
   (find?_isSome (p := fun u => decide (s.kernel.tid u = s.kernel.tid t)).mpr ⟨t,mem,by simp⟩)
  rw [fst,inj u (mem_of_find?_eq_some fst) t mem (by simpa using find?_some fst)]
 rwa [hit] at ret
lemma Listed.rename (inl : Listed s) (used : s.origin t ≠ none) : Listed
  { s with kernel := {s.kernel with tid := update s.kernel.tid t 1}
           origin := update s.origin t (some .init) } := by
 obtain ⟨list,link,mems⟩ := inl.linked
 refine ⟨inl.next_pid,⟨list,link,?_⟩,?_,?_⟩
 · intro u
   by_cases eq : u = t
   · subst eq
     simpa [used] using (mems u).mpr used
   · simpa [eq] using mems u
 · intro u o born
   rcases born_new born with ⟨rfl,rfl⟩ | ⟨ne,born⟩
   · exact update_self ..
   · exact (update_of_ne ne ..).trans (inl.tid u o born)
 intro u n born
 rcases born_new born with ⟨_,eq⟩ | ⟨_,born⟩
 · cases eq
 · exact inl.earlier u n born
lemma boot_listed {idle daemon init : Thread} (fst : idle ≠ daemon) (snd : idle ≠ init) (third : daemon ≠ init) :
 Listed (boot idle daemon init) := by
 have start : Listed ({ kernel := {next_pid := 0x80, thread_list_head := Links.empty, tid := fun _ => 0}
                        allocated := 0
                        origin := fun _ => none } : State Thread) :=
  ⟨rfl,⟨[],linked_empty,by simp⟩,by simp,by simp⟩
 have three := ((start.alloc (t := idle) rfl).alloc (t := daemon) (by simp [fst.symm])).alloc (t := init)
  (by simp [snd.symm,third.symm])
 have renamed := three.rename (t := init) (by simp)
 simp only [update_idem] at renamed
 exact renamed
lemma boot_apart {idle daemon init : Thread} : Apart (boot idle daemon init) := by
 have ids : ∀ t o, (boot idle daemon init).origin t = some o ->
   t = init ∧ o.id = 1 ∨ t = daemon ∧ o.id = 130 ∨ t = idle ∧ o.id = 129 := by
  intro t o born
  rcases born_new born with ⟨rfl,rfl⟩ | ⟨_,born⟩
  · exact .inl ⟨rfl,rfl⟩
  rcases born_new born with ⟨rfl,rfl⟩ | ⟨_,born⟩
  · exact .inr (.inl ⟨rfl,rfl⟩)
  rcases born_new born with ⟨rfl,rfl⟩ | ⟨_,born⟩
  · exact .inr (.inr ⟨rfl,rfl⟩)
  · simp at born
 intro t u o p born born' eq
 rcases ids t o born with ⟨rfl,_⟩ | ⟨rfl,_⟩ | ⟨rfl,_⟩ <;>
  rcases ids u p born' with ⟨rfl,_⟩ | ⟨rfl,_⟩ | ⟨rfl,_⟩ <;> first | rfl | omega

/-- The ids are distinct along a history exactly when it meets the condition. -/
theorem tids_distinct_iff (idle daemon init : Thread) (fst : idle ≠ daemon) (snd : idle ≠ init)
 (third : daemon ≠ init) (actions : List (Action Thread)) :
 Along step Distinct (fun _ _ => True) (boot idle daemon init) actions ↔
  Meets step Unused (boot idle daemon init) actions := by
 refine along_iff (I := fun s => Listed s ∧ Apart s) ?_ (fun _ _ _ _ => trivial) ?_ ?_ actions _
  ⟨boot_listed fst snd third,boot_apart⟩
 · rintro s ⟨listed,apart⟩
   exact (distinct_iff listed).mpr apart
 · rintro s a s' ⟨listed,apart⟩ unused taken
   exact ⟨step_listed listed taken,step_apart listed apart unused taken⟩
 rintro s a ⟨listed,apart⟩ reused _
 cases a with
 | free_tcb t => exact absurd trivial reused
 | alloc_tcb memory =>
  cases memory with
  | none => exact absurd trivial reused
  | some t =>
   obtain ⟨free,u,o,born,recurs⟩ : s.origin t = none ∧ ∃ u, ∃ o ∈ s.origin u, o.Recurs s.allocated := by
    simpa [Unused] using reused
   have eq := (recurs_iff listed born).mp recurs
   refine ⟨_,by rw [step,if_pos free],fun distinct => ?_⟩
   have clash := (distinct_iff (listed.alloc free)).mp distinct
   have ne : u ≠ t := by
    rintro rfl
    exact absurd (free.symm.trans born) (by simp)
   exact ne (clash u t o _ ((Function.update_of_ne ne ..).trans born) (Function.update_self ..) eq)
instance (allocated : Nat) : (o : Origin) -> Decidable (o.Recurs allocated)
 | .init => inferInstanceAs (Decidable (_ ∣ _))
 | .nth _ => inferInstanceAs (Decidable (_ ∣ _))
instance [Fintype Thread] (s : State Thread) : (a : Action Thread) -> Decidable (Unused s a)
 | .alloc_tcb (some _) => inferInstanceAs (Decidable (_ -> ∀ _, ∀ _ ∈ _, ¬ _))
 | .alloc_tcb none => .isTrue trivial
 | .free_tcb _ => .isTrue trivial
theorem tids_distinct_small : Along step Distinct (fun _ _ => True) (boot 0 1 2 : State (Fin 5))
 [.alloc_tcb (some 3),.alloc_tcb none,.free_tcb 3,.free_tcb 2,.alloc_tcb (some 4)] :=
 (tids_distinct_iff 0 1 2 (by decide) (by decide) (by decide) _).mpr (by decide)
def churn (t : Thread) : Nat -> List (Action Thread)
 | 0 => []
 | n + 1 => .alloc_tcb (some t) :: .free_tcb t :: churn t n
lemma churn_listed (n : Nat) (inl : Listed s) (free : s.origin t = none) :
 ∃ s', run step s (churn t n) = some s' ∧ Listed s' ∧ s'.allocated = s.allocated + n ∧ s'.origin = s.origin := by
 induction n generalizing s with
 | zero => exact ⟨s,rfl,inl,rfl,rfl⟩
 | succ n ih =>
  obtain ⟨k,freed,listed'⟩ := (inl.alloc free).free (t := t) (by simp)
  have back : update (update s.origin t (some (.nth (s.allocated + 1)))) t none = s.origin := by
   rw [update_idem,<- free,update_eq_self]
  rw [back] at listed'
  obtain ⟨s',runs,final,count,eq⟩ := ih listed' free
  refine ⟨s',?_,final,by rw [count]; simp only; omega,eq⟩
  simpa [churn,run,step,free,freed,back] using runs
theorem tid_of_init_reused :
 ∃ s, run step (boot 0 1 2 : State Nat) (churn 3 19868 ++ [.alloc_tcb (some 3)]) = some s ∧
  s.origin 2 = some .init ∧ s.kernel.tid 2 = 1 ∧ s.kernel.tid 3 = 1 ∧
  Returns (find_thread_byid s.kernel 1) (some 3) ∧ ¬ Distinct s := by
 have listed : Listed (boot 0 1 2 : State Nat) := boot_listed (by decide) (by decide) (by decide)
 obtain ⟨s,runs,listed',count,eq⟩ := churn_listed 19868 (t := 3) listed (by decide)
 have free : s.origin 3 = none := by
  rw [eq]
  decide
 have init : s.origin 2 = some .init := by
  rw [eq]
  decide
 have last := listed'.alloc free
 have reused : (Origin.nth (s.allocated + 1)).id = 1 := by
  rw [count]
  decide
 have newId : (alloc_tcb s.kernel 3).tid 3 = 1 :=
  (last.tid 3 (.nth (s.allocated + 1)) (by simp)).trans reused
 refine ⟨_,by rw [run_append,runs]; simp only [Option.bind_some,run,step,free,if_true]; rfl,?_,?_,?_,?_,?_⟩
 · simpa using init
 · exact last.tid 2 .init (by simpa using init)
 · exact newId
 · obtain ⟨list,linked,members⟩ := listed'.linked
   have new : 3 ∉ list := fun inside => (members 3).mp inside free
   have linked' : Linked (alloc_tcb s.kernel 3).thread_list_head (3 :: list) := by
    simpa only [alloc_tcb,get_pid_eq listed'.next_pid] using linked.insert_head new
   have returns := find_returns (fun t => decide ((alloc_tcb s.kernel 3).tid t = 1)) linked'
   rwa [List.find?_cons_of_pos (by simp [newId])] at returns
 intro distinct
 have apart := (distinct_iff last).mp distinct
 have clash := apart 2 3 .init (.nth (s.allocated + 1)) (by simpa using init) (by simp) reused.symm
 exact absurd clash (by decide)

end
end Netbas.ThreadIds
