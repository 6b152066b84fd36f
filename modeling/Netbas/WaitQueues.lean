import Netbas.Runs
import Netbas.Threads

/-!
Runs of threads that sleep on wait queues. `returns_iff`: a return finds its thread linked nowhere
and has the right value, unless the timer has expired without `thread_wakeup` having taken the
thread off its queue.
-/
namespace Netbas.WaitQueues
open Runs TailQueues Threads List Option
open Function
universe u v

section
variable {Thread : Type u} {Waitq : Type v}
structure Return (Thread : Type u) where
 thread : Thread
 value : Int
 removed : Bool
 deriving DecidableEq
structure State (Thread : Type u) (Waitq : Type v) where
 kernel : Kernel Thread Waitq
 /-- The queue of the call of `thread_sleep_on_timeout` that a thread is in. -/
 asleep : Thread -> Option Waitq
 /-- The threads that should be linked in a queue, in the order of their calls. -/
 order : Waitq -> List Thread
 /-- The sleepers that `thread_wakeup` took and that have not run since. -/
 woken : List Thread
 /-- The threads whose timer has expired since they last went to sleep. -/
 expired : List Thread
 /-- The return that the last step made. -/
 returned : Option (Return Thread)
inductive Action (Thread : Type u) (Waitq : Type v) where
 | thread_ready (t : Thread)
 | sleep (t : Thread) (q : Waitq) (timeout : Nat) (memory : Bool)
 | thread_wakeup (q : Waitq)
 | expire (t : Thread)
 | resume (t : Thread)
def boot (idle : Thread) : State Thread Waitq :=
 { kernel := Kernel.boot idle, asleep := fun _ => none, order := fun _ => [], woken := [], expired := [],
   returned := none }

variable [DecidableEq Thread] [DecidableEq Waitq]
/-- A running thread calls `thread_sleep_on_timeout`; a sleeper that the
  scheduler picks returns from it. Everything else happens at any moment. -/
def step (s : State Thread Waitq) : Action Thread Waitq -> Option (State Thread Waitq)
 | .thread_ready t => some {s with kernel := (Threads.thread_ready s.kernel t).2, returned := none}
 | .sleep t q timeout memory =>
  if s.kernel.Runs t ∧ s.asleep t = none then
   (thread_sleep_on_timeout s.kernel t q timeout memory).map (fun k =>
    { kernel := k
      asleep := update s.asleep t (some q)
      order := update s.order q (s.order q ++ [t])
      woken := s.woken.filter (· ≠ t)
      expired := s.expired.filter (· ≠ t)
      returned := none })
  else none
 | .thread_wakeup q =>
  (Threads.thread_wakeup s.kernel q).map (fun r =>
   { s with
     kernel := r.2
     order := update s.order q (s.order q).tail
     woken := (TAILQ_FIRST s.kernel.wait_lists q).toList ++ s.woken
     returned := none })
 | .expire t =>
  if (s.kernel.tcb t).sleep_timer = none then none
  else some {s with kernel := thread_sleep_timer s.kernel t, expired := t :: s.expired, returned := none}
 | .resume t =>
  match s.asleep t with
  | none => none
  | some q =>
   if s.kernel.Runs t then
    (thread_sleep_on_timeout_return s.kernel t q).map (fun r =>
     { kernel := r.2
       asleep := update s.asleep t none
       order := update s.order q ((s.order q).erase t)
       woken := s.woken.filter (· ≠ t)
       expired := s.expired
       returned := some {thread := t, value := r.1, removed := decide (t ∈ s.woken)} })
   else none

variable {t : Thread} {q : Waitq}
lemma step_sleep {s s' : State Thread Waitq} {timeout : Nat} {memory : Bool}
 (ran : step s (.sleep t q timeout memory) = some s') :
 s.asleep t = none ∧ s'.asleep = update s.asleep t (some q) ∧
  s'.order = update s.order q (s.order q ++ [t]) ∧ s'.woken = s.woken.filter (· ≠ t) := by
 obtain ⟨⟨_,awake⟩,ran⟩ := ite_none_right_eq_some.mp ran
 obtain ⟨k,_,rfl⟩ := map_eq_some_iff.mp ran
 exact ⟨awake,rfl,rfl,rfl⟩
lemma step_wakeup {s s' : State Thread Waitq} (ran : step s (.thread_wakeup q) = some s') :
 s'.asleep = s.asleep ∧ s'.order = update s.order q (s.order q).tail ∧
  s'.woken = (TAILQ_FIRST s.kernel.wait_lists q).toList ++ s.woken := by
 obtain ⟨r,_,rfl⟩ := map_eq_some_iff.mp ran
 exact ⟨rfl,rfl,rfl⟩
lemma step_resume {s s' : State Thread Waitq} (ran : step s (.resume t) = some s') :
 ∃ q value, s.asleep t = some q ∧ s'.asleep = update s.asleep t none ∧
  s'.order = update s.order q ((s.order q).erase t) ∧ s'.woken = s.woken.filter (· ≠ t) ∧
  s'.returned = some {thread := t, value := value, removed := decide (t ∈ s.woken)} := by
 cases called : s.asleep t with
 | none => simp [step,called] at ran
 | some q =>
  simp only [step,called] at ran
  obtain ⟨_,ran⟩ := ite_none_right_eq_some.mp ran
  obtain ⟨r,_,rfl⟩ := map_eq_some_iff.mp ran
  exact ⟨q,r.1,rfl,rfl,rfl,rfl,rfl⟩
section
variable (s : State Thread Waitq)
def Enabled : Action Thread Waitq -> Prop
 | .sleep t _ _ _ => s.kernel.Runs t ∧ s.asleep t = none ∧ t ≠ s.kernel.idle_task
 | .expire t => (s.kernel.tcb t).sleep_timer ≠ none
 | .resume t => s.kernel.Runs t ∧ s.asleep t ≠ none
 | _ => True
def Returned : Prop :=
 ∀ r, s.returned = some r ->
  (∀ q, r.thread ∉ s.order q) ∧ (∀ q, Queue s.kernel.wait_lists q (s.order q)) ∧
   (r.value ≠ 0 ↔ r.removed = false)

/-- A sleeper whose timer has expired has also been taken off its queue before
  it returns. -/
def Taken : Action Thread Waitq -> Prop
 | .resume t => s.asleep t ≠ none -> t ∈ s.expired -> t ∈ s.woken
 | _ => True
end
structure Good (s : State Thread Waitq) : Prop where
 running : ∃ ready, Running s.kernel ready
 alive : ∀ t, (s.kernel.tcb t).state ≠ .TS_DEAD
 waits : Represents s.kernel.wait_lists s.order
 queued : ∀ {q t}, t ∈ s.order q -> s.asleep t = some q ∧ t ∉ s.woken ∧
  (s.kernel.tcb t).timeout_signaled = if t ∈ s.expired then 1 else -1
 woken : ∀ {t}, t ∈ s.woken -> s.asleep t ≠ none ∧ (s.kernel.tcb t).timeout_signaled ≠ -1
 once : s.woken.Nodup
 asleep : ∀ {q t}, s.asleep t = some q -> t ∈ s.order q ∨ t ∈ s.woken
 ready : ∀ {t}, s.asleep t ≠ none -> t ∈ s.woken ∨ t ∈ s.expired -> (s.kernel.tcb t).state = .TS_READY
 returned : Returned s

variable {s s' : State Thread Waitq}
lemma good_boot (idle : Thread) : Good (boot idle : State Thread Waitq) where
 running := ⟨[],running_boot idle⟩
 alive := fun t => by simp [boot,Kernel.boot,newTcb]
 waits := represents_empty
 queued := fun mem => by simp [boot] at mem
 woken := fun mem => by simp [boot] at mem
 once := nodup_nil
 asleep := fun ran => by simp [boot] at ran
 ready := fun ran => by simp [boot] at ran
 returned := fun r ran => by simp [boot] at ran

variable {k : Kernel Thread Waitq}
lemma Good.alive_readied (good : Good s) (own : (k.tcb t).state = .TS_READY)
 (others : ∀ u, u ≠ t -> k.tcb u = s.kernel.tcb u) (u : Thread) : (k.tcb u).state ≠ .TS_DEAD := by
 by_cases eq : u = t
 · rw [eq,own]
   simp
 rw [others u eq]
 exact good.alive u
lemma Good.ready_readied (good : Good s) (own : (k.tcb t).state = .TS_READY)
 (others : ∀ u, u ≠ t -> k.tcb u = s.kernel.tcb u) {u : Thread} (ran : s.asleep u ≠ none)
 (reason : u ≠ t -> u ∈ s.woken ∨ u ∈ s.expired) : (k.tcb u).state = .TS_READY := by
 by_cases eq : u = t
 · rw [eq,own]
 rw [others u eq]
 exact good.ready ran (reason eq)
lemma Good.thread_ready (good : Good s) (t : Thread) :
 Good {s with kernel := (Threads.thread_ready s.kernel t).2, returned := none} := by
 obtain ⟨ready,runs⟩ := good.running
 obtain ⟨rdy',kept,more,own⟩ := runs.thread_ready t
 refine ⟨⟨rdy',kept⟩,?_,?_,?_,?_,good.once,good.asleep,?_,fun r ran => by simp at ran⟩
 · exact good.alive_readied ((kept.state t).mp (own (good.alive t))) fun u ne => thread_ready_other ne
 · simpa using good.waits
 · intro q u mem
   simpa using good.queued mem
 · intro u mem
   simpa using good.woken mem
 intro u ran reason
 rw [<- kept.state]
 exact more ((runs.state u).mpr (good.ready ran reason))
lemma Good.sleep (good : Good s) (awake : s.asleep t = none)
  {timeout : Nat} {memory : Bool}
  (slept : thread_sleep_on_timeout s.kernel t q timeout memory = some k) :
  Good { kernel := k, asleep := update s.asleep t (some q),
         order := update s.order q (s.order q ++ [t]), woken := s.woken.filter (· ≠ t),
         expired := s.expired.filter (· ≠ t), returned := none } := by
 obtain ⟨ready,runs⟩ := good.running
 obtain ⟨k',done,kept,waits,_,others,waiting,sig,_⟩ :=
  runs.thread_sleep_on_timeout (thread_sleep_on_timeout_busy slept) q timeout memory
 cases slept.symm.trans done
 have new : ∀ p, t ∉ s.order p := by
  intro p mem
  simpa [awake] using (good.queued mem).1
 -- who is linked afterwards
 have linked : ∀ p u, u ∈ update s.order q (s.order q ++ [t]) p ↔ u ∈ s.order p ∨ u = t ∧ p = q := by
  intro p u
  by_cases eq : p = q
  · subst eq
    simp
  · simp [eq]
 refine ⟨⟨_,kept⟩,?_,?_,?_,?_,good.once.filter _,?_,?_,fun r ran => by simp at ran⟩
 · intro u
   by_cases own : u = t
   · simp [own,waiting]
   · simpa [others u own] using good.alive u
 · simpa [waits] using good.waits.insert_tail new
 · intro p u mem
   rcases (linked p u).mp mem with old | ⟨rfl,rfl⟩
   · have ne : u ≠ t := fun own => new p (own ▸ old)
     simpa [ne,others u ne] using good.queued old
   · simp [sig]
 · intro u mem
   obtain ⟨mem,ne⟩ : u ∈ s.woken ∧ u ≠ t := by simpa using mem
   simpa [ne,others u ne] using good.woken mem
 · intro p u ran
   by_cases own : u = t
   · subst own
     obtain rfl : q = p := by simpa using ran
     simp
   rcases good.asleep (show s.asleep u = some p by simpa [own] using ran) with old | mem
   · exact .inl ((linked p u).mpr (.inl old))
   · exact .inr (by simp [mem,own])
 intro u ran reason
 by_cases own : u = t
 · simp [own] at reason
 rw [others u own]
 exact good.ready (by simpa [own] using ran) (by simpa [own] using reason)
lemma Good.thread_wakeup (good : Good s) {r : Int × Kernel Thread Waitq}
  (woken : Threads.thread_wakeup s.kernel q = some r) :
  Good { s with kernel := r.2, order := update s.order q (s.order q).tail,
                woken := (TAILQ_FIRST s.kernel.wait_lists q).toList ++ s.woken, returned := none } := by
 obtain ⟨ready,runs⟩ := good.running
 have head := queue_first (good.waits.queue q)
 rcases thread_wakeup_cases woken with ⟨fst,rfl⟩ | ⟨t,links,fst,removed⟩
 · rw [fst] at head
   have empty : s.order q = [] := head?_eq_none_iff.mp head.symm
   simp only [fst,empty,tail_nil,toList_none,nil_append]
   rw [show update s.order q [] = s.order by rw [<- empty,update_eq_self]]
   exact {good with returned := fun r ran => by simp at ran}
 rw [fst] at head
 obtain ⟨rest,line⟩ : ∃ rest, s.order q = t :: rest := by
  cases line : s.order q with
  | nil => simp [line] at head
  | cons x rest =>
   obtain rfl : t = x := by simpa [line] using head
   exact ⟨rest,rfl⟩
 have mem : t ∈ s.order q := by simp [line]
 obtain ⟨sleep1,notWoken,_⟩ := good.queued mem
 -- the links after the removal
 obtain ⟨links',removed',rep,_⟩ := good.waits.remove mem
 cases removed.symm.trans removed'
 have less : (s.order q).erase t = (s.order q).tail := by simp [line]
 rw [less] at rep
 have gone : ∀ p, t ∉ update s.order q (s.order q).tail p := by
  intro p inside
  by_cases eq : p = q
  · subst eq
    rw [update_self,<- less] at inside
    exact (good.waits.once p).not_mem_erase inside
  rw [update_of_ne eq] at inside
  exact eq (good.waits.apart inside mem)
 obtain ⟨k,rdy',done,kept,more,listed,_,waits,_,others,sig,_⟩ := runs.thread_wakeup fst removed
 cases woken.symm.trans done
 have readied := (kept.state t).mp (listed (good.alive t))
 have inside : ∀ p u, u ∈ update s.order q (s.order q).tail p -> u ≠ t ∧ u ∈ s.order p := by
  intro p u mem
  refine ⟨fun own => gone p (own ▸ mem),?_⟩
  by_cases eq : p = q
  · subst eq
    rw [update_self] at mem
    exact mem_of_mem_tail mem
  · rwa [update_of_ne eq] at mem
 simp only [fst,toList_some,singleton_append]
 refine ⟨⟨rdy',kept⟩,?_,?_,?_,?_,?_,?_,?_,fun r ran => by simp at ran⟩
 · exact good.alive_readied readied others
 · simpa [waits] using rep.entry_init gone
 · intro p u mem
   obtain ⟨ne,old⟩ := inside p u mem
   simpa [ne,others u ne] using good.queued old
 · intro u mem
   rcases mem_cons.mp mem with rfl | old
   · simp [sleep1,sig]
   have ne : u ≠ t := fun own => notWoken (own ▸ old)
   simpa [others u ne] using good.woken old
 · exact nodup_cons.mpr ⟨notWoken,good.once⟩
 · intro p u ran
   by_cases own : u = t
   · exact .inr (by simp [own])
   rcases good.asleep ran with old | old
   · left
     by_cases eq : p = q
     · subst eq
       rw [line] at old
       simpa [line,own] using old
     · simpa [eq] using old
   · exact .inr (by simp [old])
 intro u ran reason
 exact good.ready_readied readied others ran fun own => by simpa [own] using reason
lemma Good.expire (good : Good s) (t : Thread) (armed : (s.kernel.tcb t).sleep_timer ≠ none) :
 Good {s with kernel := thread_sleep_timer s.kernel t, expired := t :: s.expired, returned := none} := by
 obtain ⟨ready,runs⟩ := good.running
 obtain ⟨rdy',kept,more,listed⟩ := runs.thread_sleep_timer t
 have readied := (kept.state t).mp (listed (good.alive t))
 have others : ∀ u, u ≠ t -> (thread_sleep_timer s.kernel t).tcb u = s.kernel.tcb u :=
  fun u ne => thread_sleep_timer_other ne
 have sig : ((thread_sleep_timer s.kernel t).tcb t).timeout_signaled = 1 := by
  rcases free_sleep_timer_cases (Threads.thread_ready s.kernel t).2 t 1 with ⟨none,_⟩ | ⟨_,eq⟩
  · rw [thread_ready_timer] at none
    exact absurd none armed
  · rw [thread_sleep_timer,eq,set_self]
 refine ⟨⟨rdy',kept⟩,?_,?_,?_,?_,good.once,good.asleep,?_,fun r ran => by simp at ran⟩
 · exact good.alive_readied readied others
 · simpa [thread_sleep_timer] using good.waits
 · intro p u mem
   obtain ⟨sleep1,notWoken,signal⟩ := good.queued mem
   refine ⟨sleep1,notWoken,?_⟩
   by_cases own : u = t
   · simp [own,sig]
   · simpa [own,others u own] using signal
 · intro u mem
   refine ⟨(good.woken mem).1,?_⟩
   by_cases own : u = t
   · simp [own,sig]
   rw [others u own]
   exact (good.woken mem).2
 intro u ran reason
 exact good.ready_readied readied others ran fun own => by simpa [own] using reason
lemma Good.return_links (good : Good s) (called : s.asleep t = some q)
 (ran : t ∈ s.expired -> t ∈ s.woken) :
 ∃ r, thread_sleep_on_timeout_return s.kernel t q = some r ∧ (r.1 ≠ 0 ↔ t ∉ s.woken) ∧
  r.2.tcb = s.kernel.tcb ∧ r.2.thread_run_list = s.kernel.thread_run_list ∧
  Represents r.2.wait_lists (update s.order q ((s.order q).erase t)) := by
 rcases good.asleep called with mem | woken
 · obtain ⟨_,notWoken,signal⟩ := good.queued mem
   rw [if_neg (fun expired => notWoken (ran expired))] at signal
   obtain ⟨links,gone,rep,_⟩ := good.waits.remove mem
   exact ⟨(-1,{s.kernel with wait_lists := links}),by simp [thread_sleep_on_timeout_return,signal,gone],
    by simp [notWoken],rfl,rfl,rep⟩
 have unlinked : t ∉ s.order q := fun mem => (good.queued mem).2.1 woken
 refine ⟨(0,s.kernel),by simp [thread_sleep_on_timeout_return,(good.woken woken).2],by simp [woken],rfl,rfl,?_⟩
 rw [erase_of_not_mem unlinked,update_eq_self]
 exact good.waits
lemma Good.resume (good : Good s) (ran : s.asleep t = some q)
  {r : Int × Kernel Thread Waitq} (value : r.1 ≠ 0 ↔ t ∉ s.woken) (sameTcb : r.2.tcb = s.kernel.tcb)
  (sameRuns : r.2.thread_run_list = s.kernel.thread_run_list)
  (rep : Represents r.2.wait_lists (update s.order q ((s.order q).erase t))) :
  Good { kernel := r.2, asleep := update s.asleep t none,
         order := update s.order q ((s.order q).erase t), woken := s.woken.filter (· ≠ t),
         expired := s.expired,
         returned := some {thread := t, value := r.1, removed := decide (t ∈ s.woken)} } := by
 obtain ⟨ready,runs⟩ := good.running
 have linked : ∀ p u, u ∈ update s.order q ((s.order q).erase t) p ↔ u ≠ t ∧ u ∈ s.order p := by
  intro p u
  by_cases eq : p = q
  · subst eq
    rw [update_self,(good.waits.once p).mem_erase_iff]
  rw [update_of_ne eq,iff_and_self]
  rintro mem rfl
  exact eq (some.inj ((good.queued mem).1.symm.trans ran))
 refine ⟨⟨ready,runs.congr sameRuns (by simp [sameTcb])⟩,?_,rep,?_,?_,good.once.filter _,?_,?_,?_⟩
 · simpa [sameTcb] using good.alive
 · intro p u mem
   obtain ⟨ne,old⟩ := (linked p u).mp mem
   simpa [sameTcb,ne] using good.queued old
 · intro u mem
   obtain ⟨mem,ne⟩ : u ∈ s.woken ∧ u ≠ t := by simpa using mem
   simpa [sameTcb,ne] using good.woken mem
 · intro p u sleep1
   by_cases own : u = t
   · simp [own] at sleep1
   rcases good.asleep (show s.asleep u = some p by simpa [own] using sleep1) with old | old
   · exact .inl ((linked p u).mpr ⟨own,old⟩)
   · exact .inr (by simp [old,own])
 · intro u sleep1 reason
   by_cases own : u = t
   · simp [own] at sleep1
   rw [sameTcb]
   exact good.ready (by simpa [own] using sleep1) (by simpa [own] using reason)
 intro record eq
 cases eq
 refine ⟨fun p mem => ((linked p t).mp mem).1 rfl,rep.queue,?_⟩
 simpa using value

variable {a : Action Thread Waitq}
lemma step_good (good : Good s) (condition : Taken s a) (ran : step s a = some s') :
 Good s' := by
 cases a with
 | thread_ready t =>
  cases ran
  exact good.thread_ready t
 | sleep t q timeout memory =>
  obtain ⟨⟨_,awake⟩,ran⟩ := ite_none_right_eq_some.mp ran
  obtain ⟨k,slept,rfl⟩ := map_eq_some_iff.mp ran
  exact good.sleep awake slept
 | thread_wakeup q =>
  obtain ⟨r,woken,rfl⟩ := map_eq_some_iff.mp ran
  exact good.thread_wakeup woken
 | expire t =>
  obtain ⟨armed,ran⟩ := ite_none_left_eq_some.mp ran
  cases ran
  exact good.expire t armed
 | resume t =>
  cases called : s.asleep t with
  | none => simp [step,called] at ran
  | some q =>
   simp only [step,called] at ran
   obtain ⟨_,ran⟩ := ite_none_right_eq_some.mp ran
   obtain ⟨r,returned,rfl⟩ := map_eq_some_iff.mp ran
   obtain ⟨r',returned',value,sameTcb,sameRuns,rep⟩ := good.return_links called (condition (by simp [called]))
   cases returned.symm.trans returned'
   exact good.resume called value sameTcb sameRuns rep
lemma Good.wakeup_total (good : Good s) (q : Waitq) : ∃ r, Threads.thread_wakeup s.kernel q = some r := by
 obtain ⟨ready,runs⟩ := good.running
 have head := queue_first (good.waits.queue q)
 cases fst : TAILQ_FIRST s.kernel.wait_lists q with
 | none => exact ⟨(-1,s.kernel),by simp [Threads.thread_wakeup,fst]⟩
 | some t =>
  have mem : t ∈ s.order q := mem_of_mem_head? (head.symm.trans fst)
  obtain ⟨links,gone,_⟩ := good.waits.remove mem
  obtain ⟨k,_,done,_⟩ := runs.thread_wakeup fst gone
  exact ⟨(0,k),done⟩
lemma step_total (good : Good s) (condition : Taken s a) (enabled : Enabled s a) :
 (step s a).isSome := by
 obtain ⟨ready,running⟩ := good.running
 cases a with
 | thread_ready t => rfl
 | sleep t q timeout memory =>
  obtain ⟨runs,awake,busy⟩ := enabled
  obtain ⟨k,slept,_⟩ := running.thread_sleep_on_timeout busy q timeout memory
  simp [step,runs,awake,slept]
 | thread_wakeup q =>
  obtain ⟨r,woken⟩ := good.wakeup_total q
  simp [step,woken]
 | expire t =>
  have armed : (s.kernel.tcb t).sleep_timer ≠ none := enabled
  simp [step,armed]
 | resume t =>
  obtain ⟨runs,sleep1⟩ := enabled
  obtain ⟨q,ran⟩ := ne_none_iff_exists'.mp sleep1
  obtain ⟨r,returned,_⟩ := good.return_links ran (condition sleep1)
  simp [step,ran,runs,returned]
lemma return_expired (good : Good s) (sleep1 : s.asleep t ≠ none) (expired : t ∈ s.expired)
 (queued : t ∉ s.woken) : ∃ s', step s (.resume t) = some s' ∧ ¬ Returned s' := by
 obtain ⟨ready,running⟩ := good.running
 obtain ⟨q,ran⟩ := ne_none_iff_exists'.mp sleep1
 have runs : s.kernel.Runs t :=
  (running.runs_iff t).mpr ((running.state t).mpr (good.ready sleep1 (.inr expired)))
 have signal : (s.kernel.tcb t).timeout_signaled = 1 := by
  rw [(good.queued ((good.asleep ran).resolve_right queued)).2.2,if_pos expired]
 have returned : thread_sleep_on_timeout_return s.kernel t q = some (0,s.kernel) := by
  simp [thread_sleep_on_timeout_return,signal]
 refine ⟨_,by simp only [step,ran,if_pos runs,returned,map_some]; rfl,?_⟩
 intro property
 have value := (property _ rfl).2.2
 simp [queued] at value

/-- Every return of a run is as it should be, and nothing faults, exactly when no
  sleeper returns with its timer expired and its link still in the queue. -/
theorem returns_iff (idle : Thread) (actions : List (Action Thread Waitq)) :
 Along step Returned (fun s a => Taken s a -> Enabled s a -> (step s a).isSome) (boot idle) actions ↔
  Meets step Taken (boot idle) actions := by
 refine along_iff (I := Good) (fun s good => good.returned) (fun s a good taken _ enabled => ?_) ?_ ?_ actions _
  (good_boot idle)
 · exact step_total good taken enabled
 · exact fun s a s' good taken done => step_good good taken done
 intro s a good out _
 cases a with
 | resume t =>
  simp only [Taken,Classical.not_imp] at out
  exact return_expired good out.1 out.2.1 out.2.2
 | thread_ready t => exact absurd trivial out
 | sleep t q timeout memory => exact absurd trivial out
 | thread_wakeup q => exact absurd trivial out
 | expire t => exact absurd trivial out
theorem expired_stays_linked :
 ∃ s : State (Fin 2) Unit, run step (boot 0) [.thread_ready 1,.sleep 1 () 10 true,.expire 1,.resume 1] = some s ∧
  s.returned = some ⟨1,0,false⟩ ∧ TAILQ_FIRST s.kernel.wait_lists () = some 1 := by
 refine ⟨_,rfl,?_,?_⟩ <;> decide

end
end Netbas.WaitQueues
