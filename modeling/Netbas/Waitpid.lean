import Netbas.HeadLists
import Netbas.Runs
import Netbas.Threads

/-!
`do_waitpid` of `core/kernel/wait.c`. `pass` is one look at the thread table, and the table that the
next one finds is any. `waitpid_correct_iff` says when a call is right.
-/
namespace Netbas.Waitpid
open Runs Fuel HeadLists List
open Function (update)
open Threads (ThreadState)
universe u v
def WNOHANG : Nat := 1
def ECHILD : Int := -10
structure Tcb (Proc : Type v) where
 tid : Int
 ptid : Int
 state : ThreadState
 plink : Proc
 exit_code : Nat
 sticks : Nat
 waitpid : Bool
structure Kernel (Thread : Type u) (Proc : Type v) where
 thread_list_head : Links Unit Thread
 tcb : Thread -> Tcb Proc
 head : Proc -> List Thread
 idle_task : Thread
 daemon_task : Thread
inductive Target (Thread : Type u) where
 | null
 | minus_one
 | thread (t : Thread)
inductive Pass (Thread : Type u) (Proc : Type v) where
 | returned (value : Int) (state : Option Nat) (reaped : Option Thread) (k : Kernel Thread Proc)
 | thread_wait (k : Kernel Thread Proc)

section
variable {Thread : Type u} {Proc : Type v} [DecidableEq Thread] [DecidableEq Proc]
def Kernel.set_tcb (k : Kernel Thread Proc) (tcb : Thread -> Tcb Proc) : Kernel Thread Proc := {k with tcb := tcb}
def thread_mark_wait (tcb : Thread -> Tcb Proc) (t : Thread) : Thread -> Tcb Proc :=
 update tcb t {tcb t with waitpid := true}
def child_loop (k : Kernel Thread Proc) (pproc : Thread) :
  Nat -> Cell Unit Thread -> Bool -> (Thread -> Tcb Proc) -> Option (Target Thread × (Thread -> Tcb Proc))
 | 0, _, _, _ => none
 | fuel + 1, c, found, tcb =>
  match k.thread_list_head.cell c with
  | none => some (if found then .minus_one else .null,tcb)
  | some t =>
   if t = k.idle_task then child_loop k pproc fuel (.next t) found tcb
   else if t = k.daemon_task then child_loop k pproc fuel (.next t) found tcb
   else if (tcb t).ptid ≠ (tcb pproc).tid then child_loop k pproc fuel (.next t) found tcb
   else
    let tcb := thread_mark_wait tcb t
    if (tcb t).state ≠ .TS_DEAD then child_loop k pproc fuel (.next t) true tcb
    else some (.thread t,tcb)
variable (fuel : Nat)
section
variable (k : Kernel Thread Proc)
def wait_child_procs (pproc : Thread) :
  Option (Target Thread × Kernel Thread Proc) :=
 (child_loop k pproc fuel (.first ()) false k.tcb).map (fun r => (r.1,k.set_tcb r.2))
def find_thread_byid (id : Int) : Option (Option Thread) :=
 find k.thread_list_head (fun t => decide ((k.tcb t).tid = id)) fuel (.first ())
def wait_byid (pid : Int) : Option (Target Thread × Kernel Thread Proc) :=
 (find_thread_byid fuel k pid).map (fun r =>
  match r with
  | none => (.null,k)
  | some t => (.thread t,k.set_tcb (thread_mark_wait k.tcb t)))

/-- What becomes of the thread list: `thread_free` takes every thread of the
  process off it. -/
def destory_proc_space (rp : Proc) : Option (Kernel Thread Proc) :=
 ((k.head rp).foldlM LIST_REMOVE k.thread_list_head).map (fun links =>
  {k with thread_list_head := links, head := update k.head rp []})
def reap (pthread : Thread) (options : Nat) : Target Thread -> Option (Pass Thread Proc)
 | .null => some (.returned ECHILD none none k)
 | .minus_one => some (if options = WNOHANG then .returned 0 none none k else .thread_wait k)
 | .thread t =>
  if (k.tcb t).state ≠ .TS_DEAD then some (.thread_wait k)
  else
   let target := k.tcb t
   let own := k.tcb pthread
   let k := k.set_tcb (update k.tcb pthread {own with sticks := own.sticks + target.sticks})
   (if target.plink ≠ own.plink then destory_proc_space k target.plink else some k).map
    (fun k => .returned target.tid (some target.exit_code) (some t) k)
end
def pass (pthread : Thread) (pid : Int) (options fuel : Nat) (k : Kernel Thread Proc) : Option (Pass Thread Proc) :=
 if pid = -1 then (wait_child_procs fuel k pthread).bind (fun r => reap r.2 pthread options r.1)
 else if 0 < pid then (wait_byid fuel k pid).bind (fun r => reap r.2 pthread options r.1)
 else some (.returned ECHILD none none k)

end
structure Table (Thread : Type u) (Proc : Type v) extends Kernel Thread Proc where
 list : List Thread
 linked : Linked thread_list_head list
 once : ∀ rp, (head rp).Nodup
 chain : ∀ rp t, t ∈ head rp ↔ t ∈ list ∧ (tcb t).plink = rp

section
variable {Thread : Type u} {Proc : Type v} [DecidableEq Thread] [DecidableEq Proc]
/-- The thread is a child of the caller, and one that `pid` asks for. -/
def Child (table : Table Thread Proc) (pthread : Thread) (pid : Int) (t : Thread) : Prop :=
 t ∈ table.list ∧ (table.tcb t).ptid = (table.tcb pthread).tid ∧ (pid = -1 ∨ 0 < pid ∧ (table.tcb t).tid = pid)
def Reaped (table : Table Thread Proc) (pthread t : Thread) (k : Kernel Thread Proc) : Prop :=
 Linked k.thread_list_head (if (table.tcb t).plink = (table.tcb pthread).plink then table.list
  else table.list.filter (fun u => decide ((table.tcb u).plink ≠ (table.tcb t).plink)))

/-- A returned id is that of a dead child, and only its process is destroyed;
  without a child `ECHILD` is returned; with `WNOHANG` the caller does not sleep. -/
structure Right (table : Table Thread Proc) (pthread : Thread) (pid : Int) (options : Nat)
  (r : Pass Thread Proc) : Prop where
 reaped : ∀ value state target k, r = .returned value state target k -> 0 < value ->
  ∃ t, target = some t ∧ t ∈ table.list ∧ (table.tcb t).tid = value ∧ (table.tcb t).state = .TS_DEAD ∧
   (table.tcb t).ptid = (table.tcb pthread).tid ∧ Reaped table pthread t k
 childless : (∀ t, ¬ Child table pthread pid t) ->
  ∃ state k, r = .returned ECHILD state none k ∧ Linked k.thread_list_head table.list
 nohang : ∀ k, r = .thread_wait k -> ¬ options.testBit 0
inductive Call where
 | looping
 | returned
structure Look (Thread : Type u) (Proc : Type v) where
 table : Table Thread Proc
 fuel : Nat

section
variable (pthread : Thread)
def step (pid : Int) (options : Nat) : Call -> Look Thread Proc -> Option Call
 | .looping, look => (pass pthread pid options look.fuel look.table.toKernel).map (fun r =>
  match r with
  | .returned _ _ _ _ => .returned
  | .thread_wait _ => .looping)
 | .returned, _ => none
def Correct (pid : Int) (options : Nat) : Call -> Look Thread Proc -> Prop
 | .looping, look => ∃ r, Returns (fun fuel => pass pthread pid options fuel look.table.toKernel) r ∧
  Right look.table pthread pid options r
 | .returned, _ => True
def Table.first (table : Table Thread Proc) (pid : Int) : Option Thread :=
 table.list.find? (fun t => decide ((table.tcb t).tid = pid))
def Table.children (table : Table Thread Proc) (pthread : Thread) : List Thread :=
 table.list.filter (fun t => decide (t ≠ table.idle_task ∧ t ≠ table.daemon_task ∧
  (table.tcb t).ptid = (table.tcb pthread).tid))

/-- For a positive `pid`, the first thread with that id is a child of the caller
  when it is dead, and otherwise there is such a child and `WNOHANG` is not set;
  for -1, `WNOHANG` is the only option set, or none of the children is alive or
  one is dead. -/
def Expected (pid : Int) (options : Nat) : Call -> Look Thread Proc -> Prop
 | .looping, look =>
  (0 < pid -> ∀ t, look.table.first pid = some t ->
   if (look.table.tcb t).state = .TS_DEAD then (look.table.tcb t).ptid = (look.table.tcb pthread).tid
   else (∃ u, Child look.table pthread pid u) ∧ ¬ options.testBit 0) ∧
  (pid = -1 -> options.testBit 0 -> options = WNOHANG ∨ look.table.children pthread = [] ∨
   ∃ t ∈ look.table.children pthread, (look.table.tcb t).state = .TS_DEAD)
 | .returned, _ => True
end
def Marked (tcb tcb' : Thread -> Tcb Proc) : Prop := ∀ t, ∃ mark, tcb' t = {tcb t with waitpid := mark}
lemma Marked.refl (tcb : Thread -> Tcb Proc) : Marked tcb tcb := fun t => ⟨(tcb t).waitpid,rfl⟩

variable {tcb : Thread -> Tcb Proc}
lemma Marked.mark {tcb' : Thread -> Tcb Proc} (marked : Marked tcb tcb') (t : Thread) :
 Marked tcb (thread_mark_wait tcb' t) := by
 intro u
 obtain ⟨mark,eq⟩ := marked u
 by_cases own : u = t
 · subst own
   exact ⟨true,by rw [thread_mark_wait,Function.update_self,eq]⟩
 · exact ⟨mark,by rw [thread_mark_wait,Function.update_of_ne own,eq]⟩
lemma Marked.field {tcb' : Thread -> Tcb Proc} (marked : Marked tcb tcb') {α : Type*} (f : Tcb Proc -> α)
 (unmarked : ∀ b mark, f {b with waitpid := mark} = f b) (t : Thread) : f (tcb' t) = f (tcb t) := by
 obtain ⟨mark,eq⟩ := marked t
 rw [eq,unmarked]
def pick (dead : Thread -> Bool) (found : Bool) (children : List Thread) : Target Thread :=
 match children.find? dead with
 | some t => .thread t
 | none => if found || !children.isEmpty then .minus_one else .null
lemma child_loop_returns (k : Kernel Thread Proc) (pproc : Thread) {xs : List Thread} :
 ∀ {c : Cell Unit Thread} (hit : Bool) {tcb : Thread -> Tcb Proc}, Seg k.thread_list_head c xs -> Marked k.tcb tcb ->
 ∃ tcb', Marked k.tcb tcb' ∧ Returns (fun fuel => child_loop k pproc fuel c hit tcb)
  (pick (fun t => decide ((k.tcb t).state = .TS_DEAD)) hit
   (xs.filter (fun t => decide (t ≠ k.idle_task ∧ t ≠ k.daemon_task ∧ (k.tcb t).ptid = (k.tcb pproc).tid))),tcb') := by
 induction xs with
 | nil =>
  intro c hit tcb seg marked
  refine ⟨tcb,marked,.turn (g := fun _ => some (if hit then .minus_one else .null,tcb)) rfl (fun fuel => ?_) ?_⟩
  · simp [child_loop,show k.thread_list_head.cell c = none from seg]
  · simpa [pick] using returns_const (if hit then Target.minus_one else Target.null,tcb)
 | cons t rest ih =>
  intro c hit tcb seg marked
  obtain ⟨points,_,seg⟩ := seg
  have ptid : (tcb t).ptid = (k.tcb t).ptid := marked.field Tcb.ptid (fun _ _ => rfl) t
  have tid : (tcb pproc).tid = (k.tcb pproc).tid := marked.field Tcb.tid (fun _ _ => rfl) pproc
  have state : (thread_mark_wait tcb t t).state = (k.tcb t).state :=
   (marked.mark t).field Tcb.state (fun _ _ => rfl) t
  by_cases child : t ≠ k.idle_task ∧ t ≠ k.daemon_task ∧ (k.tcb t).ptid = (k.tcb pproc).tid
  · obtain ⟨idle,daemon,own⟩ := id child
    rw [filter_cons_of_pos (by simpa using child)]
    by_cases dead : (k.tcb t).state = .TS_DEAD
    · refine ⟨_,marked.mark t,.turn (g := fun _ => some (.thread t,thread_mark_wait tcb t)) rfl (fun fuel => ?_) ?_⟩
      · simp [child_loop,points,idle,daemon,ptid,tid,own,state,dead]
      · simpa [pick,dead] using returns_const (Target.thread t,thread_mark_wait tcb t)
    obtain ⟨tcb',marked',ret⟩ := ih true seg (marked.mark t)
    refine ⟨tcb',marked',.turn rfl (fun fuel => ?_) (g := fun fuel =>
     child_loop k pproc fuel (.next t) true (thread_mark_wait tcb t)) ?_⟩
    · simp [child_loop,points,idle,daemon,ptid,tid,own,state,dead]
    · simpa [pick,dead] using ret
  rw [filter_cons_of_neg (by simpa using child)]
  obtain ⟨tcb',marked',ret⟩ := ih hit seg marked
  refine ⟨tcb',marked',.turn rfl (fun fuel => ?_) ret⟩
  by_cases idle : t = k.idle_task
  · simp [child_loop,points,idle]
  by_cases daemon : t = k.daemon_task
  · simp [child_loop,points,daemon]
  have ne : (k.tcb t).ptid ≠ (k.tcb pproc).tid := fun own => child ⟨idle,daemon,own⟩
  simp [child_loop,points,idle,daemon,ptid,tid,ne]

variable {table : Table Thread Proc} {pthread : Thread} {pid : Int} {options : Nat}
lemma wait_child_procs_returns (table : Table Thread Proc) (pthread : Thread) : ∃ tcb, Marked table.tcb tcb ∧
 Returns (fun fuel => wait_child_procs fuel table.toKernel pthread)
  (pick (fun t => decide ((table.tcb t).state = .TS_DEAD)) false (table.children pthread),
   (table.toKernel.set_tcb tcb)) := by
 obtain ⟨tcb,marked,ret⟩ := child_loop_returns table.toKernel pthread false table.linked.1 (Marked.refl _)
 exact ⟨tcb,marked,ret.map (fun r : Target Thread × (Thread -> Tcb Proc) => (r.1,table.toKernel.set_tcb r.2))⟩
lemma wait_byid_returns (table : Table Thread Proc) (pid : Int) : ∃ tcb, Marked table.tcb tcb ∧
  Returns (fun fuel => wait_byid fuel table.toKernel pid)
   (match table.first pid with | some t => .thread t | none => .null,(table.toKernel.set_tcb tcb)) := by
 have ret := (find_returns (fun t => decide ((table.tcb t).tid = pid)) table.linked).map (fun r =>
  match r with
  | none => (Target.null,table.toKernel)
  | some t => (.thread t,table.toKernel.set_tcb (thread_mark_wait table.tcb t)))
 cases first : table.first pid with
 | none =>
  rw [show table.list.find? _ = none from first] at ret
  exact ⟨table.tcb,Marked.refl _,ret⟩
 | some t =>
  rw [show table.list.find? _ = some t from first] at ret
  exact ⟨_,(Marked.refl _).mark t,ret⟩

variable {t : Thread}
lemma reap_dead (pthread : Thread) (options : Nat) (marked : Marked table.tcb tcb)
 (dead : (table.tcb t).state = .TS_DEAD) :
 ∃ k, reap (table.toKernel.set_tcb tcb) pthread options (.thread t) =
  some (.returned (table.tcb t).tid (some (table.tcb t).exit_code) (some t) k) ∧ Reaped table pthread t k := by
 have state : (tcb t).state = .TS_DEAD := (marked.field Tcb.state (fun _ _ => rfl) t).trans dead
 have tid : (tcb t).tid = (table.tcb t).tid := marked.field Tcb.tid (fun _ _ => rfl) t
 have code : (tcb t).exit_code = (table.tcb t).exit_code := marked.field Tcb.exit_code (fun _ _ => rfl) t
 have space : (tcb t).plink = (table.tcb t).plink := marked.field Tcb.plink (fun _ _ => rfl) t
 have own : (tcb pthread).plink = (table.tcb pthread).plink := marked.field Tcb.plink (fun _ _ => rfl) pthread
 by_cases eq : (table.tcb t).plink = (table.tcb pthread).plink
 · refine ⟨_,by simp only [reap,Kernel.set_tcb,state,space,own,eq,tid,code,ne_eq,not_true_eq_false,if_false,Option.map_some]; rfl,?_⟩
   rw [Reaped,if_pos eq]
   exact table.linked
 obtain ⟨links,gone,linked⟩ := table.linked.remove_all (table.once (table.tcb t).plink)
  (fun u mem => ((table.chain _ u).mp mem).1)
 refine ⟨_,by simp only [reap,Kernel.set_tcb,state,space,own,eq,tid,code,destory_proc_space,gone,ne_eq,not_true_eq_false,
  not_false_eq_true,if_true,if_false,Option.map_some]; rfl,?_⟩
 rw [Reaped,if_neg eq]
 convert linked using 1
 refine filter_congr fun u mem => ?_
 simp [table.chain,mem]
lemma reap_alive (pthread : Thread) (options : Nat) (marked : Marked table.tcb tcb)
 (alive : (table.tcb t).state ≠ .TS_DEAD) : reap (table.toKernel.set_tcb tcb) pthread options (.thread t) =
  some (.thread_wait (table.toKernel.set_tcb tcb)) := by
 have state : (tcb t).state ≠ .TS_DEAD := by rwa [marked.field Tcb.state (fun _ _ => rfl) t]
 simp only [reap,Kernel.set_tcb,state,ne_eq,not_false_eq_true,if_true]

variable {k : Kernel Thread Proc}

variable {state : Option Nat}
lemma right_echild (linked : Linked k.thread_list_head table.list) :
 Right table pthread pid options (.returned ECHILD state none k) := by
 refine ⟨?_,fun _ => ⟨state,k,rfl,linked⟩,by simp⟩
 intro value state target k eq pos
 cases eq
 simp [ECHILD] at pos
lemma right_reaped (mem : t ∈ table.list) (dead : (table.tcb t).state = .TS_DEAD)
 (child : (table.tcb t).ptid = (table.tcb pthread).tid) (asked : pid = -1 ∨ 0 < pid ∧ (table.tcb t).tid = pid) (reaped : Reaped table pthread t k) :
 Right table pthread pid options (.returned (table.tcb t).tid state (some t) k) := by
 refine ⟨?_,fun none => absurd ⟨mem,child,asked⟩ (none t),by simp⟩
 intro value state target k' eq pos
 cases eq
 exact ⟨t,rfl,mem,rfl,dead,child,reaped⟩
lemma right_zero {u : Thread} (child : Child table pthread pid u) :
 Right table pthread pid options (.returned 0 none none k) := by
 refine ⟨?_,fun none => absurd child (none u),by simp⟩
 intro value state target k eq pos
 cases eq
 simp at pos
lemma right_wait : Right table pthread pid options (.thread_wait k) ↔
 (∃ u, Child table pthread pid u) ∧ ¬ options.testBit 0 := by
 constructor
 · intro right
   refine ⟨?_,right.nohang k rfl⟩
   by_contra none
   obtain ⟨_,_,eq,_⟩ := right.childless fun t child => none ⟨t,child⟩
   cases eq
 rintro ⟨⟨u,child⟩,hang⟩
 exact ⟨by simp,fun none => absurd child (none u),fun _ _ => hang⟩
lemma children_child (mem : t ∈ table.children pthread) : Child table pthread (-1) t := by
 obtain ⟨mem,child⟩ := mem_filter.mp mem
 simp only [decide_eq_true_eq] at child
 exact ⟨mem,child.2.2,.inl rfl⟩
lemma pass_any (table : Table Thread Proc) (pthread : Thread) (options : Nat) :
 ∃ r, Returns (fun fuel => pass pthread (-1) options fuel table.toKernel) r ∧
  (Right table pthread (-1) options r ↔ (options.testBit 0 -> options = WNOHANG ∨ table.children pthread = [] ∨
   ∃ t ∈ table.children pthread, (table.tcb t).state = .TS_DEAD)) := by
 obtain ⟨tcb,marked,ret⟩ := wait_child_procs_returns table pthread
 have bind : ∀ {r}, reap (table.toKernel.set_tcb tcb) pthread options
   (pick (fun t => decide ((table.tcb t).state = .TS_DEAD)) false (table.children pthread)) = some r ->
   Returns (fun fuel => pass pthread (-1) options fuel table.toKernel) r := by
  intro r eq
  have all := ret.bind (g := fun r _ => reap r.2 pthread options r.1) (b := r) (by
   rw [eq]
   exact returns_const r)
  simpa [pass] using all
 cases dead : (table.children pthread).find? (fun t => decide ((table.tcb t).state = .TS_DEAD)) with
 | some t =>
  have mem := mem_of_find?_eq_some dead
  have isDead : (table.tcb t).state = .TS_DEAD := by simpa using find?_some dead
  obtain ⟨k,reaped,only⟩ := reap_dead pthread options marked isDead
  refine ⟨_,bind (by simpa only [pick,dead] using reaped),?_⟩
  obtain ⟨listed,child,asked⟩ := children_child mem
  exact iff_of_true (right_reaped listed isDead child asked only) fun _ => .inr (.inr ⟨t,mem,isDead⟩)
 | none =>
  have alive : ∀ t ∈ table.children pthread, (table.tcb t).state ≠ .TS_DEAD := by
   simpa using dead
  cases kids : table.children pthread with
  | nil =>
   refine ⟨_,bind (by simp only [pick,dead]; rw [kids]; rfl),?_⟩
   exact iff_of_true (right_echild table.linked) fun _ => .inr (.inl rfl)
  | cons u rest =>
   have child : Child table pthread (-1) u := children_child (by simp [kids])
   have target : pick (fun t => decide ((table.tcb t).state = .TS_DEAD)) false (table.children pthread) =
     .minus_one := by
    simp only [pick,dead]
    simp [kids]
   rw [target] at bind
   by_cases only : options = WNOHANG
   · refine ⟨_,bind (by simp only [reap,only,if_true]; rfl),?_⟩
     exact iff_of_true (right_zero child) fun _ => .inl only
   refine ⟨_,bind (by simp only [reap,only,if_false]; rfl),?_⟩
   rw [right_wait,<- kids]
   constructor
   · exact fun right set => absurd set right.2
   intro expected
   refine ⟨⟨u,child⟩,fun set => ?_⟩
   rcases expected set with eq | empty | ⟨t,mem,isDead⟩
   · exact only eq
   · simp [kids] at empty
   · exact alive t mem isDead
lemma pass_byid (table : Table Thread Proc) (pthread : Thread) (options : Nat) (pos : 0 < pid) :
 ∃ r, Returns (fun fuel => pass pthread pid options fuel table.toKernel) r ∧
  (Right table pthread pid options r ↔ ∀ t, table.first pid = some t ->
   if (table.tcb t).state = .TS_DEAD then (table.tcb t).ptid = (table.tcb pthread).tid
   else (∃ u, Child table pthread pid u) ∧ ¬ options.testBit 0) := by
 obtain ⟨tcb,marked,ret⟩ := wait_byid_returns table pid
 have ne : pid ≠ -1 := by omega
 have bind : ∀ {r}, reap (table.toKernel.set_tcb tcb) pthread options
   (match table.first pid with | some t => .thread t | none => .null) = some r ->
   Returns (fun fuel => pass pthread pid options fuel table.toKernel) r := by
  intro r eq
  have all := ret.bind (g := fun r _ => reap r.2 pthread options r.1) (b := r) (by
   rw [eq]
   exact returns_const r)
  simpa [pass,ne,pos] using all
 cases first : table.first pid with
 | none =>
  rw [first] at bind
  exact ⟨_,bind rfl,iff_of_true (right_echild table.linked) (by simp)⟩
 | some t =>
  rw [first] at bind
  have mem : t ∈ table.list := mem_of_find?_eq_some first
  have id : (table.tcb t).tid = pid := by simpa using find?_some first
  simp only [Option.some.injEq,forall_eq']
  by_cases dead : (table.tcb t).state = .TS_DEAD
  · obtain ⟨k,reaped,only⟩ := reap_dead pthread options marked dead
    refine ⟨_,bind reaped,?_⟩
    rw [if_pos dead]
    constructor
    · intro right
      obtain ⟨u,eq,_,_,_,child,_⟩ := right.reaped _ _ _ _ rfl (by omega)
      cases eq
      exact child
    · exact fun child => right_reaped mem dead child (.inr ⟨pos,id⟩) only
  refine ⟨_,bind (reap_alive pthread options marked dead),?_⟩
  rw [if_neg dead]
  exact right_wait
lemma correct_iff (pthread : Thread) (pid : Int) (options : Nat) (c : Call) (look : Look Thread Proc) :
 Correct pthread pid options c look ↔ Expected pthread pid options c look := by
 cases c with
 | returned => exact Iff.rfl
 | looping =>
  have eq : ∀ {r}, Returns (fun fuel => pass pthread pid options fuel look.table.toKernel) r ->
    (Correct pthread pid options .looping look ↔ Right look.table pthread pid options r) := by
   intro r ret
   refine ⟨?_,fun right => ⟨r,ret,right⟩⟩
   rintro ⟨r',returns',right⟩
   rwa [ret.unique returns'] at right
  rw [Expected]
  by_cases any : pid = -1
  · subst any
    obtain ⟨r,ret,right⟩ := pass_any look.table pthread options
    rw [eq ret,right]
    simp
  by_cases pos : 0 < pid
  · obtain ⟨r,ret,right⟩ := pass_byid look.table pthread options pos
    rw [eq ret,right]
    simp [any,pos]
  have ret : Returns (fun fuel => pass pthread pid options fuel look.table.toKernel)
    (.returned ECHILD none none look.table.toKernel) := by
   simpa only [pass,any,pos,if_false] using returns_const _
  rw [eq ret]
  exact iff_of_true (right_echild look.table.linked) (by simp [any,pos])

/-- A call is right at every look exactly when every look finds what is expected. -/
theorem waitpid_correct_iff (pthread : Thread) (pid : Int) (options : Nat) (looks : List (Look Thread Proc)) :
 Along (step pthread pid options) (fun _ => True) (Correct pthread pid options) .looping looks ↔
  Meets (step pthread pid options) (Expected pthread pid options) .looping looks :=
 along_congr (correct_iff pthread pid options) looks .looping
def strangers : Table (Fin 2) (Fin 2) :=
 { thread_list_head := LIST_INSERT_HEAD (LIST_INSERT_HEAD Links.empty () 0) () 1
   tcb := fun t =>
    if t = 0 then {tid := 200, ptid := 1, state := .TS_READY, plink := 0, exit_code := 0, sticks := 5, waitpid := false}
    else {tid := 201, ptid := 1, state := .TS_DEAD, plink := 1, exit_code := 7, sticks := 3, waitpid := true}
   head := fun rp => [rp]
   idle_task := 0
   daemon_task := 0
   list := [1,0]
   linked := (linked_empty.insert_head (by simp)).insert_head (by decide)
   once := by simp
   chain := by decide }
theorem stranger_reaped :
  (pass 0 201 0 3 strangers.toKernel).map (fun r =>
   match r with
   | .returned value state reaped k => (value,state,reaped,k.thread_list_head.cell (.first ()))
   | .thread_wait _ => (0,none,none,none)) = some (201,some 7,some 1,some 0) ∧
  (strangers.tcb 1).ptid ≠ (strangers.tcb 0).tid ∧
  ¬ Along (step 0 201 0) (fun _ => True) (Correct 0 201 0) .looping [{table := strangers, fuel := 3}] := by
 refine ⟨by decide,by decide,?_⟩
 rintro ⟨_,correct,_⟩
 obtain ⟨expected,_⟩ := (correct_iff 0 201 0 .looping {table := strangers, fuel := 3}).mp correct
 have child := expected (by decide) 1 (by decide)
 rw [if_pos (by decide)] at child
 exact absurd child (by decide)

end
end Netbas.Waitpid
