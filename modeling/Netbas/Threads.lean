import Netbas.TailQueues

/-!
Threads that become ready, sleep and wake up. The interrupts are off in each function, so each is
one step, and `thread_sleep_on_timeout` is two. `Running` is the invariant of the run list.
-/
namespace Netbas.Threads
open TailQueues Option
open Function
universe u v
inductive ThreadState where
 | TS_READY
 | TS_WAITING
 | TS_DEAD
 | TS_IOPENDING
 deriving DecidableEq
structure Tcb where
 state : ThreadState
 ticks : Nat
 timeout_signaled : Int
 /-- The delay, in ticks, that the sleep timer was armed with. When it fires is
   up to the timer wheel. -/
 sleep_timer : Option Nat
 deriving DecidableEq
structure Kernel (Thread : Type u) (Waitq : Type v) where
 idle_task : Thread
 tcb : Thread -> Tcb
 thread_run_list : Links Unit Thread
 wait_lists : Links Waitq Thread
def HZ : Nat := 1000
def INFINITE : Nat := 2 ^ 32 - 1
def CPU_THREAD_RROI : Nat := HZ / 10
def msec2ticks (msec : Nat) : Nat := msec * HZ % 2 ^ 32 / 1000
def newTcb : Tcb :=
 {state := .TS_IOPENDING, ticks := CPU_THREAD_RROI, timeout_signaled := 0, sleep_timer := none}

section
variable {Thread : Type u} {Waitq : Type v} [DecidableEq Thread] [DecidableEq Waitq]
def Kernel.boot (idle : Thread) : Kernel Thread Waitq :=
 {idle_task := idle, tcb := fun _ => newTcb, thread_run_list := Links.empty, wait_lists := Links.empty}
section
variable (k : Kernel Thread Waitq)
section
variable (t : Thread)
def Kernel.set (f : Tcb -> Tcb) : Kernel Thread Waitq :=
 {k with tcb := update k.tcb t (f (k.tcb t))}
def thread_ready : Int × Kernel Thread Waitq :=
 if TAILQ_ENTRY_EMPTY k.thread_run_list t = false then (-1,k)
 else if (k.tcb t).state = .TS_DEAD then (-1,k)
 else
  let k := k.set t (fun b => {b with ticks := max 4 b.ticks, state := .TS_READY})
  (0,{k with thread_run_list := TAILQ_INSERT_TAIL k.thread_run_list () t})
def free_sleep_timer (sig : Int) : Kernel Thread Waitq :=
 match (k.tcb t).sleep_timer with
 | none => k
 | some _ => k.set t (fun b => {b with timeout_signaled := sig, sleep_timer := none})
def thread_sleep_timer : Kernel Thread Waitq :=
 free_sleep_timer (thread_ready k t).2 t 1

/-- `memory` tells whether `kmalloc` finds room for the timer. The idle thread
  panics; a removal through a null link has no value. -/
def thread_unready (timeout : Nat) (memory : Bool) :
  Option (Int × Kernel Thread Waitq) :=
 if t = k.idle_task then none
 else
  let k := free_sleep_timer k t 0
  let k := k.set t (fun b => {b with state := .TS_WAITING, ticks := max 4 b.ticks})
  let removed :=
   if TAILQ_ENTRY_EMPTY k.thread_run_list t then some k.thread_run_list
   else TAILQ_REMOVE k.thread_run_list () t
  removed.map (fun links =>
   let k := {k with thread_run_list := TAILQ_ENTRY_INIT links t}
   let k := k.set t (fun b => {b with timeout_signaled := -1})
   if timeout = INFINITE then (0,k)
   else if memory then (0,k.set t (fun b => {b with sleep_timer := some (msec2ticks timeout)}))
   else (-1,k))
end
def thread_wakeup (q : Waitq) : Option (Int × Kernel Thread Waitq) :=
 match TAILQ_FIRST k.wait_lists q with
 | none => some (-1,k)
 | some t =>
  (TAILQ_REMOVE k.wait_lists q t).map (fun links =>
   let k := {k with wait_lists := TAILQ_ENTRY_INIT links t}
   let k := k.set t (fun b => {b with timeout_signaled := 0})
   (0,(thread_ready k t).2))
section
variable (t : Thread)
def thread_sleep_on_timeout (q : Waitq) (timeout : Nat) (memory : Bool) :
  Option (Kernel Thread Waitq) :=
 (thread_unready k t timeout memory).map (fun r =>
  {r.2 with wait_lists := TAILQ_INSERT_TAIL r.2.wait_lists q t})
def thread_sleep_on_timeout_return (q : Waitq) :
  Option (Int × Kernel Thread Waitq) :=
 if (k.tcb t).timeout_signaled = -1 then
  (TAILQ_REMOVE k.wait_lists q t).map (fun links => (-1,{k with wait_lists := links}))
 else some (0,k)
def Kernel.Runs : Prop :=
 TAILQ_ENTRY_EMPTY k.thread_run_list t = false ∧ (k.tcb t).state = .TS_READY
instance (k : Kernel Thread Waitq) (t : Thread) : Decidable (k.Runs t) :=
 inferInstanceAs (Decidable (_ ∧ _))
def thread_new : Kernel Thread Waitq :=
 { k with
   tcb := update k.tcb t newTcb
   thread_run_list := TAILQ_ENTRY_INIT k.thread_run_list t
   wait_lists := TAILQ_ENTRY_INIT k.wait_lists t }
def thread_free : Option (Kernel Thread Waitq) :=
 (thread_unready (free_sleep_timer k t 2) t INFINITE true).map (fun r =>
  r.2.set t (fun b => {b with state := .TS_DEAD}))
end
end

end

section
variable {Thread : Type u} {Waitq : Type v} [DecidableEq Thread] {k : Kernel Thread Waitq} {t u : Thread}

section
variable (f : Tcb -> Tcb)
@[simp] lemma set_run_list : (k.set t f).thread_run_list = k.thread_run_list := rfl
@[simp] lemma set_wait_lists : (k.set t f).wait_lists = k.wait_lists := rfl
@[simp] lemma set_idle : (k.set t f).idle_task = k.idle_task := rfl
@[simp] lemma set_self : (k.set t f).tcb t = f (k.tcb t) := update_self ..
lemma set_other (ne : u ≠ t) : (k.set t f).tcb u = k.tcb u := update_of_ne ne ..
end
lemma set_field {α : Type} (field : Tcb -> α) {f : Tcb -> Tcb} (kept : ∀ b, field (f b) = field b) (u : Thread) :
 field ((k.set t f).tcb u) = field (k.tcb u) := by
 by_cases eq : u = t
 · rw [eq,set_self,kept]
 · rw [set_other f eq]
lemma thread_ready_cases (k : Kernel Thread Waitq) (t : Thread) :
  (thread_ready k t).2 = k ∧ (TAILQ_ENTRY_EMPTY k.thread_run_list t = false ∨ (k.tcb t).state = .TS_DEAD) ∨
  TAILQ_ENTRY_EMPTY k.thread_run_list t = true ∧ (k.tcb t).state ≠ .TS_DEAD ∧
   (thread_ready k t).2 =
    { idle_task := k.idle_task
      tcb := (k.set t (fun b => {b with ticks := max 4 b.ticks, state := .TS_READY})).tcb
      thread_run_list := TAILQ_INSERT_TAIL k.thread_run_list () t
      wait_lists := k.wait_lists } := by
 unfold thread_ready
 by_cases link : TAILQ_ENTRY_EMPTY k.thread_run_list t = false
 · exact .inl ⟨by rw [if_pos link],.inl link⟩
 by_cases dead : (k.tcb t).state = .TS_DEAD
 · exact .inl ⟨by rw [if_neg link,if_pos dead],.inr dead⟩
 · exact .inr ⟨by simpa using link,dead,by rw [if_neg link,if_neg dead]; rfl⟩
@[simp] lemma thread_ready_wait_lists : (thread_ready k t).2.wait_lists = k.wait_lists := by
 rcases thread_ready_cases k t with ⟨eq,_⟩ | ⟨_,_,eq⟩ <;> rw [eq]
@[simp] lemma thread_ready_idle : (thread_ready k t).2.idle_task = k.idle_task := by
 rcases thread_ready_cases k t with ⟨eq,_⟩ | ⟨_,_,eq⟩ <;> rw [eq]
lemma thread_ready_field {α : Type} (field : Tcb -> α)
  (kept : ∀ b : Tcb, field {b with ticks := max 4 b.ticks, state := .TS_READY} = field b) (u : Thread) :
  field ((thread_ready k t).2.tcb u) = field (k.tcb u) := by
 rcases thread_ready_cases k t with ⟨eq,_⟩ | ⟨_,_,eq⟩ <;> rw [eq]
 exact set_field field kept u
@[simp] lemma thread_ready_signaled (u : Thread) :
 ((thread_ready k t).2.tcb u).timeout_signaled = (k.tcb u).timeout_signaled :=
 thread_ready_field Tcb.timeout_signaled (fun _ => rfl) u
@[simp] lemma thread_ready_timer (u : Thread) :
 ((thread_ready k t).2.tcb u).sleep_timer = (k.tcb u).sleep_timer :=
 thread_ready_field Tcb.sleep_timer (fun _ => rfl) u
lemma thread_ready_other (ne : u ≠ t) : (thread_ready k t).2.tcb u = k.tcb u := by
 rcases thread_ready_cases k t with ⟨eq,_⟩ | ⟨_,_,eq⟩ <;> rw [eq]
 exact update_of_ne ne ..
lemma thread_ready_dead (dead : (k.tcb t).state = .TS_DEAD) : (thread_ready k t).2 = k := by
 rcases thread_ready_cases k t with ⟨eq,_⟩ | ⟨_,alive,_⟩
 · exact eq
 · exact absurd dead alive
lemma free_sleep_timer_cases (k : Kernel Thread Waitq) (t : Thread) (sig : Int) :
 (k.tcb t).sleep_timer = none ∧ free_sleep_timer k t sig = k ∨
 (k.tcb t).sleep_timer ≠ none ∧
  free_sleep_timer k t sig = k.set t (fun b => {b with timeout_signaled := sig, sleep_timer := none}) := by
 unfold free_sleep_timer
 cases armed : (k.tcb t).sleep_timer with
 | none => exact .inl ⟨rfl,rfl⟩
 | some delay => exact .inr ⟨by simp,rfl⟩

variable {sig : Int}
@[simp] lemma free_sleep_timer_run_list : (free_sleep_timer k t sig).thread_run_list = k.thread_run_list := by
 rcases free_sleep_timer_cases k t sig with ⟨_,eq⟩ | ⟨_,eq⟩ <;> rw [eq]
 rfl
@[simp] lemma free_sleep_timer_wait_lists : (free_sleep_timer k t sig).wait_lists = k.wait_lists := by
 rcases free_sleep_timer_cases k t sig with ⟨_,eq⟩ | ⟨_,eq⟩ <;> rw [eq]
 rfl
@[simp] lemma free_sleep_timer_idle : (free_sleep_timer k t sig).idle_task = k.idle_task := by
 rcases free_sleep_timer_cases k t sig with ⟨_,eq⟩ | ⟨_,eq⟩ <;> rw [eq]
 rfl
@[simp] lemma free_sleep_timer_state (u : Thread) :
 ((free_sleep_timer k t sig).tcb u).state = (k.tcb u).state := by
 rcases free_sleep_timer_cases k t sig with ⟨_,eq⟩ | ⟨_,eq⟩ <;> rw [eq]
 refine set_field Tcb.state ?_ u
 intro b
 rfl
lemma free_sleep_timer_other (ne : u ≠ t) : (free_sleep_timer k t sig).tcb u = k.tcb u := by
 rcases free_sleep_timer_cases k t sig with ⟨_,eq⟩ | ⟨_,eq⟩ <;> rw [eq]
 exact set_other _ ne
@[simp] lemma free_sleep_timer_timer : ((free_sleep_timer k t sig).tcb t).sleep_timer = none := by
 rcases free_sleep_timer_cases k t sig with ⟨none,eq⟩ | ⟨_,eq⟩ <;> rw [eq]
 · exact none
 · simp
lemma thread_sleep_timer_other (ne : u ≠ t) : (thread_sleep_timer k t).tcb u = k.tcb u := by
 rw [thread_sleep_timer,free_sleep_timer_other ne,thread_ready_other ne]

variable {r : Int × Kernel Thread Waitq}
lemma thread_unready_busy {timeout : Nat} {memory : Bool} (done : thread_unready k t timeout memory = some r) : t ≠ k.idle_task := by
 rintro rfl
 simp [thread_unready] at done

variable [DecidableEq Waitq] {q : Waitq}
lemma thread_sleep_on_timeout_busy {timeout : Nat} {memory : Bool} {k' : Kernel Thread Waitq}
 (slept : thread_sleep_on_timeout k t q timeout memory = some k') : t ≠ k.idle_task := by
 obtain ⟨r,done,_⟩ := map_eq_some_iff.mp slept
 exact thread_unready_busy done
lemma thread_wakeup_cases (woken : thread_wakeup k q = some r) :
 TAILQ_FIRST k.wait_lists q = none ∧ r = (-1,k) ∨
 ∃ t links, TAILQ_FIRST k.wait_lists q = some t ∧ TAILQ_REMOVE k.wait_lists q t = some links := by
 unfold thread_wakeup at woken
 cases fst : TAILQ_FIRST k.wait_lists q with
 | none =>
  simp only [fst,some.injEq] at woken
  exact .inl ⟨rfl,woken.symm⟩
 | some t =>
  simp only [fst,map_eq_some_iff] at woken
  obtain ⟨links,gone,_⟩ := woken
  exact .inr ⟨t,links,rfl,gone⟩

end

section
variable {Thread : Type u} {Waitq : Type v}
structure Running (k : Kernel Thread Waitq) (ready : List Thread) : Prop where
 tidy : Tidy k.thread_run_list (fun _ => ready)
 state : ∀ t, t ∈ ready ↔ (k.tcb t).state = .TS_READY

variable {k k' : Kernel Thread Waitq} {ready : List Thread} {t : Thread}
lemma running_boot (idle : Thread) : Running (Kernel.boot idle : Kernel Thread Waitq) [] :=
 {tidy := tidy_empty, state := fun t => by simp [Kernel.boot,newTcb]}

namespace Running
lemma entry_empty (inv : Running k ready) (t : Thread) :
 TAILQ_ENTRY_EMPTY k.thread_run_list t = true ↔ t ∉ ready := by
 simpa using inv.tidy.entry_empty t
lemma runs_iff (inv : Running k ready) (t : Thread) : k.Runs t ↔ t ∈ ready := by
 unfold Kernel.Runs
 rw [<- Bool.not_eq_true,inv.entry_empty,not_not,<- inv.state,and_self]
lemma congr (inv : Running k ready) (sameList : k'.thread_run_list = k.thread_run_list)
 (sameState : ∀ u, (k'.tcb u).state = (k.tcb u).state) : Running k' ready :=
 {tidy := sameList ▸ inv.tidy, state := fun u => by rw [sameState,inv.state]}

variable [DecidableEq Thread]

section
variable (inv : Running k ready)
include inv
lemma thread_ready (t : Thread) :
 ∃ rdy', Running (Threads.thread_ready k t).2 rdy' ∧ ready ⊆ rdy' ∧
  ((k.tcb t).state ≠ .TS_DEAD -> t ∈ rdy') := by
 rcases thread_ready_cases k t with ⟨eq,refused⟩ | ⟨nil,alive,eq⟩ <;> rw [eq]
 · refine ⟨ready,inv,fun _ => id,fun alive => ?_⟩
   have link := refused.resolve_right alive
   rw [<- Bool.not_eq_true,inv.entry_empty,not_not] at link
   exact link
 have new : t ∉ ready := (inv.entry_empty t).mp nil
 refine ⟨ready ++ [t],⟨?_,?_⟩,List.subset_append_left ready [t],fun _ => by simp⟩
 · have inserted := inv.tidy.insert_tail (q := ()) (fun _ => new)
   rwa [show update (fun _ : Unit => ready) () (ready ++ [t]) = fun _ => ready ++ [t] from
    funext (fun _ => rfl)] at inserted
 intro u
 by_cases own : u = t
 · simp [own]
 · simpa [own,set_other _ own] using inv.state u
lemma free_sleep_timer (t : Thread) (sig : Int) :
 Running (Threads.free_sleep_timer k t sig) ready :=
 inv.congr (by simp) (by simp)
lemma leave (t : Thread) :
 ∃ links, (if TAILQ_ENTRY_EMPTY k.thread_run_list t then some k.thread_run_list
  else TAILQ_REMOVE k.thread_run_list () t) = some links ∧
  Tidy (TAILQ_ENTRY_INIT links t) (fun _ => ready.erase t) := by
 by_cases mem : t ∈ ready
 · obtain ⟨links,gone,tidy⟩ := inv.tidy.remove_clear (q := ()) mem
   refine ⟨links,?_,?_⟩
   · rw [if_neg (fun nil => (inv.entry_empty t).mp nil mem),gone]
   rwa [show update (fun _ : Unit => ready) () (ready.erase t) = fun _ => ready.erase t from
    funext (fun _ => rfl)] at tidy
 refine ⟨k.thread_run_list,by rw [if_pos ((inv.entry_empty t).mpr mem)],?_⟩
 rw [List.erase_of_not_mem mem]
 refine ⟨inv.tidy.entry_init (fun _ => mem),?_⟩
 intro u loose
 by_cases own : u = t
 · simp [TAILQ_ENTRY_INIT,own]
 · simpa [TAILQ_ENTRY_INIT,own] using inv.tidy.clear u loose
lemma thread_unready (busy : t ≠ k.idle_task) (timeout : Nat) (memory : Bool) :
 ∃ r, Threads.thread_unready k t timeout memory = some r ∧ Running r.2 (ready.erase t) ∧
  r.2.wait_lists = k.wait_lists ∧ r.2.idle_task = k.idle_task ∧ (∀ u, u ≠ t -> r.2.tcb u = k.tcb u) ∧
  (r.2.tcb t).state = .TS_WAITING ∧ (r.2.tcb t).timeout_signaled = -1 ∧
  (timeout = INFINITE -> (r.2.tcb t).sleep_timer = none) := by
 obtain ⟨links,gone,tidy⟩ := inv.leave t
 have once : ready.Nodup := inv.tidy.once ()
 -- the invariant holds of every kernel with these links and these state words
 have waiting : ∀ k' : Kernel Thread Waitq, k'.thread_run_list = TAILQ_ENTRY_INIT links t ->
   (∀ u, u ≠ t -> k'.tcb u = k.tcb u) -> (k'.tcb t).state = .TS_WAITING -> Running k' (ready.erase t) := by
  intro k' sameList rest own
  refine ⟨sameList ▸ tidy,fun u => ?_⟩
  by_cases self : u = t
  · subst self
    simp [own,once.not_mem_erase]
  · rw [List.mem_erase_of_ne self,rest u self,inv.state]
 have rest : ∀ u, u ≠ t -> (Threads.free_sleep_timer k t 0).tcb u = k.tcb u :=
  fun u ne => free_sleep_timer_other ne
 unfold Threads.thread_unready
 rw [if_neg busy]
 simp only [set_run_list,free_sleep_timer_run_list,gone,map_some]
 refine ⟨_,rfl,?_⟩
 by_cases endless : timeout = INFINITE
 · simp only [if_pos endless]
   refine ⟨waiting _ rfl ?_ ?_,?_,?_,?_,?_,?_,?_⟩ <;> simp +contextual [Kernel.set,rest]
 cases memory with
 | true =>
  simp only [if_neg endless,if_true]
  refine ⟨waiting _ rfl ?_ ?_,?_,?_,?_,?_,?_,?_⟩ <;> simp +contextual [Kernel.set,rest,endless]
 | false =>
  simp only [if_neg endless]
  refine ⟨waiting _ rfl ?_ ?_,?_,?_,?_,?_,?_,?_⟩ <;> simp +contextual [Kernel.set,rest,endless]
lemma thread_sleep_timer (t : Thread) :
 ∃ rdy', Running (Threads.thread_sleep_timer k t) rdy' ∧ ready ⊆ rdy' ∧
  ((k.tcb t).state ≠ .TS_DEAD -> t ∈ rdy') := by
 obtain ⟨rdy',kept,more,own⟩ := inv.thread_ready t
 exact ⟨rdy',kept.free_sleep_timer t 1,more,own⟩
lemma thread_free (busy : t ≠ k.idle_task) :
 ∃ k', Threads.thread_free k t = some k' ∧ Running k' (ready.erase t) ∧ k'.wait_lists = k.wait_lists ∧
  k'.idle_task = k.idle_task ∧ (∀ u, u ≠ t -> k'.tcb u = k.tcb u) ∧ (k'.tcb t).state = .TS_DEAD ∧
  (k'.tcb t).sleep_timer = none := by
 obtain ⟨r,done,kept,waits,idle,rest,waiting,_,timer⟩ :=
  (inv.free_sleep_timer t 2).thread_unready (by simpa using busy) INFINITE true
 refine ⟨r.2.set t (fun b => {b with state := .TS_DEAD}),by rw [Threads.thread_free,done]; rfl,
  ⟨kept.tidy,?_⟩,by simpa using waits,by simpa using idle,?_,by simp,?_⟩
 · intro u
   by_cases own : u = t
   · subst own
     simp [(inv.tidy.once ()).not_mem_erase]
   · rw [set_other _ own,kept.state]
 · intro u ne
   rw [set_other _ ne,rest u ne,free_sleep_timer_other ne]
 · simpa using timer rfl

end

variable [DecidableEq Waitq] {q : Waitq}
lemma thread_sleep_on_timeout (inv : Running k ready) (busy : t ≠ k.idle_task) (q : Waitq) (timeout : Nat)
 (memory : Bool) :
 ∃ k', Threads.thread_sleep_on_timeout k t q timeout memory = some k' ∧ Running k' (ready.erase t) ∧
  k'.wait_lists = TAILQ_INSERT_TAIL k.wait_lists q t ∧ k'.idle_task = k.idle_task ∧
  (∀ u, u ≠ t -> k'.tcb u = k.tcb u) ∧ (k'.tcb t).state = .TS_WAITING ∧ (k'.tcb t).timeout_signaled = -1 ∧
  (timeout = INFINITE -> (k'.tcb t).sleep_timer = none) := by
 obtain ⟨r,done,kept,waits,rest⟩ := inv.thread_unready busy timeout memory
 refine ⟨{r.2 with wait_lists := TAILQ_INSERT_TAIL r.2.wait_lists q t},
  by rw [Threads.thread_sleep_on_timeout,done]; rfl,⟨kept.tidy,kept.state⟩,?_,rest⟩
 rw [<- waits]
lemma thread_wakeup (inv : Running k ready) {links : Links Waitq Thread}
 (fst : TAILQ_FIRST k.wait_lists q = some t) (gone : TAILQ_REMOVE k.wait_lists q t = some links) :
 ∃ k' rdy', Threads.thread_wakeup k q = some (0,k') ∧ Running k' rdy' ∧ ready ⊆ rdy' ∧
  ((k.tcb t).state ≠ .TS_DEAD -> t ∈ rdy') ∧ ((k.tcb t).state = .TS_DEAD -> (k'.tcb t).state = .TS_DEAD) ∧
  k'.wait_lists = TAILQ_ENTRY_INIT links t ∧ k'.idle_task = k.idle_task ∧
  (∀ u, u ≠ t -> k'.tcb u = k.tcb u) ∧ (k'.tcb t).timeout_signaled = 0 ∧
  (k'.tcb t).sleep_timer = (k.tcb t).sleep_timer := by
 -- the kernel in which `thread_ready` is ran
 let loose : Kernel Thread Waitq := {k with wait_lists := TAILQ_ENTRY_INIT links t}
 let unqueued := loose.set t (fun b => {b with timeout_signaled := 0})
 have rest : ∀ u, u ≠ t -> unqueued.tcb u = k.tcb u := fun u ne => set_other _ ne
 have own : unqueued.tcb t = {k.tcb t with timeout_signaled := 0} := set_self _
 have pre : Running unqueued ready := by
  refine inv.congr rfl fun u => ?_
  by_cases eq : u = t
  · rw [eq,own]
  · rw [rest u eq]
 obtain ⟨rdy',kept,more,listed⟩ := pre.thread_ready t
 refine ⟨(Threads.thread_ready unqueued t).2,rdy',?_,kept,more,?_,?_,?_,?_,?_,?_,?_⟩
 · simp only [Threads.thread_wakeup,fst,gone,map_some]
   rfl
 · intro alive
   exact listed (by rwa [own])
 · intro dead
   rw [thread_ready_dead (by rwa [own]),own]
   exact dead
 · rw [thread_ready_wait_lists]
   rfl
 · rw [thread_ready_idle]
   rfl
 · intro u ne
   rw [thread_ready_other ne,rest u ne]
 · rw [thread_ready_signaled,own]
 · rw [thread_ready_timer,own]

end Running
end
end Netbas.Threads
