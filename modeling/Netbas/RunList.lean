import Netbas.Runs
import Netbas.Threads

/-!
The run list over whole histories, in which nothing is assumed of the wait queues
(`run_list_exact`).
-/
namespace Netbas.RunList
open Runs TailQueues Threads Option
universe u v

section
variable {Thread : Type u} {Waitq : Type v}
structure State (Thread : Type u) (Waitq : Type v) where
 kernel : Kernel Thread Waitq
 made : List Thread
inductive Action (Thread : Type u) (Waitq : Type v) where
 | thread_new (t : Thread)
 | thread_ready (t : Thread)
 | thread_unready (t : Thread) (timeout : Nat) (memory : Bool)
 | sleep (t : Thread) (q : Waitq) (timeout : Nat) (memory : Bool)
 | sleep_return (t : Thread) (q : Waitq)
 | thread_wakeup (q : Waitq)
 | expire (t : Thread)
 | thread_free (t : Thread) (release : Bool)
def boot (idle : Thread) : State Thread Waitq := {kernel := Kernel.boot idle, made := []}

/-- The list of the scheduler holds every ready thread once and no waiting or
  dead one. -/
def Exact [DecidableEq Thread] (s : State Thread Waitq) : Prop :=
 ∃ list, Queue s.kernel.thread_run_list () list ∧ list.Nodup ∧
  (∀ t, (s.kernel.tcb t).state = .TS_READY -> list.count t = 1) ∧
  ∀ t ∈ list, (s.kernel.tcb t).state ≠ .TS_WAITING ∧ (s.kernel.tcb t).state ≠ .TS_DEAD

variable [DecidableEq Thread] [DecidableEq Waitq]
/-- `thread_new` gets memory that no thread occupies. The other calls name a
  thread that has been made; only `thread_wakeup` may find, through a stale
  link, one whose memory has been given back. A timer that is armed may expire
  at any moment. -/
def step (s : State Thread Waitq) : Action Thread Waitq -> Option (State Thread Waitq)
 | .thread_new t =>
  if t ∈ s.made then none else some {kernel := Threads.thread_new s.kernel t, made := t :: s.made}
 | .thread_ready t =>
  if t ∈ s.made then some {s with kernel := (Threads.thread_ready s.kernel t).2} else none
 | .thread_unready t timeout memory =>
  if t ∈ s.made then (Threads.thread_unready s.kernel t timeout memory).map (fun r => {s with kernel := r.2})
  else none
 | .sleep t q timeout memory =>
  if t ∈ s.made then (thread_sleep_on_timeout s.kernel t q timeout memory).map (fun k => {s with kernel := k})
  else none
 | .sleep_return t q =>
  if t ∈ s.made then (thread_sleep_on_timeout_return s.kernel t q).map (fun r => {s with kernel := r.2})
  else none
 | .thread_wakeup q => (Threads.thread_wakeup s.kernel q).map (fun r => {s with kernel := r.2})
 | .expire t =>
  if (s.kernel.tcb t).sleep_timer = none then none else some {s with kernel := thread_sleep_timer s.kernel t}
 | .thread_free t release =>
  if t ∈ s.made then
   (Threads.thread_free s.kernel t).map (fun k =>
    {kernel := k, made := if release then s.made.filter (· ≠ t) else s.made})
  else none
def Leaves (s : State Thread Waitq) : Action Thread Waitq -> Prop
 | .thread_unready t _ _ | .sleep t _ _ _ | .thread_free t _ => t ∈ s.made ∧ t ≠ s.kernel.idle_task
 | _ => False
structure Sound (s : State Thread Waitq) : Prop where
 running : ∃ ready, Running s.kernel ready ∧ ∀ t, t ∉ s.made -> t ∉ ready
 timers : ∀ t, t ∉ s.made -> (s.kernel.tcb t).sleep_timer = none
 waits : ∀ c t, s.kernel.wait_lists.cell c = some t -> t ∈ s.made ∨ (s.kernel.tcb t).state = .TS_DEAD

variable {s s' : State Thread Waitq}
lemma sound_boot (idle : Thread) : Sound (boot idle : State Thread Waitq) where
 running := ⟨[],running_boot idle,by simp⟩
 timers := fun _ _ => rfl
 waits := fun _ _ pts => by cases pts

section
variable (sound : Sound s)
include sound
lemma Sound.exact : Exact s := by
 obtain ⟨ready,runs,_⟩ := sound.running
 refine ⟨ready,runs.tidy.queue (),runs.tidy.once (),?_,?_⟩
 · intro t state
   exact List.count_eq_one_of_mem (runs.tidy.once ()) ((runs.state t).mpr state)
 intro t mem
 rw [(runs.state t).mp mem]
 simp

variable {ready : List Thread}
lemma Sound.next (runs : Running s'.kernel ready)
 (absent : ∀ u, u ∉ s'.made ->
  u ∉ s.made ∧ (s'.kernel.tcb u).state = (s.kernel.tcb u).state ∧
   (s'.kernel.tcb u).sleep_timer = (s.kernel.tcb u).sleep_timer ∨
  (s'.kernel.tcb u).state = .TS_DEAD ∧ (s'.kernel.tcb u).sleep_timer = none)
 (waits : ∀ c u, s'.kernel.wait_lists.cell c = some u ->
  u ∈ s'.made ∨ ∃ d, s.kernel.wait_lists.cell d = some u) : Sound s' := by
 obtain ⟨old,pre,out⟩ := sound.running
 refine ⟨⟨ready,runs,?_⟩,?_,?_⟩
 · intro u gone
   rcases absent u gone with ⟨absent,state,_⟩ | ⟨dead,_⟩
   · rw [runs.state,state,<- pre.state]
     exact out u absent
   rw [runs.state,dead]
   simp
 · intro u gone
   rcases absent u gone with ⟨absent,_,timer⟩ | ⟨_,timer⟩
   · rw [timer,sound.timers u absent]
   · exact timer
 intro c u pts
 by_cases made : u ∈ s'.made
 · exact .inl made
 obtain ⟨d,pts⟩ := (waits c u pts).resolve_left made
 rcases absent u made with ⟨absent,state,_⟩ | ⟨dead,_⟩
 · exact .inr (state.trans ((sound.waits d u pts).resolve_left absent))
 · exact .inr dead
lemma Sound.call {k : Kernel Thread Waitq} {t : Thread}
 (made : t ∈ s.made) (runs : Running k ready) (others : ∀ u, u ≠ t -> k.tcb u = s.kernel.tcb u)
 (waits : ∀ c u, k.wait_lists.cell c = some u -> u = t ∨ ∃ d, s.kernel.wait_lists.cell d = some u) :
 Sound {s with kernel := k} := by
 refine sound.next runs ?_ ?_
 · intro u gone
   have ne : u ≠ t := by
    rintro rfl
    exact gone made
   exact .inl ⟨gone,by rw [others u ne],by rw [others u ne]⟩
 intro c u pts
 rcases waits c u pts with rfl | old
 · exact .inl made
 · exact .inr old
lemma Sound.thread_wakeup {q : Waitq} {r : Int × Kernel Thread Waitq}
 (woken : Threads.thread_wakeup s.kernel q = some r) : Sound {s with kernel := r.2} := by
 obtain ⟨ready,runs,_⟩ := sound.running
 rcases thread_wakeup_cases woken with ⟨_,rfl⟩ | ⟨t,links,fst,gone⟩
 · exact sound
 obtain ⟨k,rdy',done,kept,_,_,dead,waits,_,others,_,timer⟩ := runs.thread_wakeup fst gone
 cases woken.symm.trans done
 refine sound.next kept ?_ ?_
 · intro u absent
   refine .inl ⟨absent,?_⟩
   by_cases own : u = t
   · -- a stale link: the thread is dead, and `thread_ready` refuses it
     subst own
     have pre := (sound.waits _ u fst).resolve_left absent
     exact ⟨(dead pre).trans pre.symm,timer⟩
   rw [others u own]
   exact ⟨rfl,rfl⟩
 intro c u pts
 rw [waits] at pts
 exact .inr (remove_cell gone (entry_init_cell pts))
lemma Sound.thread_new {t : Thread} (absent : t ∉ s.made) :
 Sound {kernel := Threads.thread_new s.kernel t, made := t :: s.made} := by
 obtain ⟨ready,runs,out⟩ := sound.running
 have new := out t absent
 have others : ∀ u, u ≠ t -> (Threads.thread_new s.kernel t).tcb u = s.kernel.tcb u :=
  fun u ne => Function.update_of_ne ne ..
 refine sound.next ⟨⟨runs.tidy.entry_init (fun _ => new),?_⟩,?_⟩ ?_ ?_
 · intro u unlinked
   by_cases own : u = t
   · simp [Threads.thread_new,TAILQ_ENTRY_INIT,own]
   · simpa [Threads.thread_new,TAILQ_ENTRY_INIT,own] using runs.tidy.clear u unlinked
 · intro u
   by_cases own : u = t
   · subst own
     simpa [Threads.thread_new,newTcb] using new
   · rw [others u own,runs.state]
 · intro u gone
   obtain ⟨ne,absent⟩ := not_or.mp (List.mem_cons.not.mp gone)
   exact .inl ⟨absent,by rw [others u ne],by rw [others u ne]⟩
 · exact fun c u pts => .inr ⟨c,entry_init_cell pts⟩
lemma Sound.thread_free {t : Thread} (busy : t ≠ s.kernel.idle_task)
 (release : Bool) {k : Kernel Thread Waitq} (freed : Threads.thread_free s.kernel t = some k) :
 Sound {kernel := k, made := if release then s.made.filter (· ≠ t) else s.made} := by
 obtain ⟨ready,runs,_⟩ := sound.running
 obtain ⟨k',done,kept,waits,_,others,dead,timer⟩ := runs.thread_free busy
 cases freed.symm.trans done
 refine sound.next kept ?_ ?_
 · intro u gone
   by_cases own : u = t
   · exact .inr ⟨own ▸ dead,own ▸ timer⟩
   refine .inl ⟨?_,by rw [others u own],by rw [others u own]⟩
   cases release
   · exact gone
   · simpa [own] using gone
 intro c u pts
 exact .inr ⟨c,waits ▸ pts⟩
variable {a : Action Thread Waitq}
lemma step_sound (ran : step s a = some s') : Sound s' := by
 obtain ⟨ready,runs,_⟩ := sound.running
 cases a with
 | thread_new t =>
  simp only [step] at ran
  split_ifs at ran with made
  cases ran
  exact sound.thread_new made
 | thread_ready t =>
  simp only [step] at ran
  split_ifs at ran with made
  cases ran
  obtain ⟨rdy',kept,_⟩ := runs.thread_ready t
  exact sound.call made kept (fun u => thread_ready_other) fun c u pts => .inr ⟨c,by simpa using pts⟩
 | thread_unready t timeout memory =>
  simp only [step] at ran
  split_ifs at ran with made
  obtain ⟨r,done,rfl⟩ := map_eq_some_iff.mp ran
  obtain ⟨r',done',kept,waits,_,others,_⟩ := runs.thread_unready (thread_unready_busy done) timeout memory
  cases done.symm.trans done'
  exact sound.call made kept others fun c u pts => .inr ⟨c,waits ▸ pts⟩
 | sleep t q timeout memory =>
  simp only [step] at ran
  split_ifs at ran with made
  obtain ⟨k,slept,rfl⟩ := map_eq_some_iff.mp ran
  obtain ⟨k',done,kept,waits,_,others,_⟩ :=
   runs.thread_sleep_on_timeout (thread_sleep_on_timeout_busy slept) q timeout memory
  cases slept.symm.trans done
  refine sound.call made kept others ?_
  intro c u pts
  rw [waits] at pts
  rcases insert_tail_cell pts with own | old
  · exact .inl own
  · exact .inr ⟨c,old⟩
 | sleep_return t q =>
  simp only [step] at ran
  split_ifs at ran with made
  obtain ⟨r,returned,rfl⟩ := map_eq_some_iff.mp ran
  unfold thread_sleep_on_timeout_return at returned
  split_ifs at returned with sig
  · obtain ⟨links,gone,rfl⟩ := map_eq_some_iff.mp returned
    exact sound.call made ⟨runs.tidy,runs.state⟩ (fun _ _ => rfl)
     (fun c u pts => .inr (remove_cell gone pts))
  cases returned
  exact sound
 | thread_wakeup q =>
  obtain ⟨r,woken,rfl⟩ := map_eq_some_iff.mp ran
  exact sound.thread_wakeup woken
 | expire t =>
  simp only [step] at ran
  split_ifs at ran with armed
  cases ran
  have made : t ∈ s.made := by
   by_contra absent
   exact armed (sound.timers t absent)
  obtain ⟨rdy',kept,_⟩ := runs.thread_sleep_timer t
  exact sound.call made kept (fun u => thread_sleep_timer_other)
   (fun c u pts => .inr ⟨c,by simpa [thread_sleep_timer] using pts⟩)
 | thread_free t release =>
  obtain ⟨_,ran⟩ := ite_none_right_eq_some.mp ran
  obtain ⟨k,freed,rfl⟩ := map_eq_some_iff.mp ran
  have busy : t ≠ s.kernel.idle_task := by
   obtain ⟨r,done,_⟩ := map_eq_some_iff.mp freed
   simpa using thread_unready_busy done
  exact sound.thread_free busy release freed
lemma step_leaves (leaves : Leaves s a) : (step s a).isSome := by
 obtain ⟨ready,runs,_⟩ := sound.running
 cases a with
 | thread_unready t timeout memory =>
  obtain ⟨r,done,_⟩ := runs.thread_unready leaves.2 timeout memory
  simp [step,leaves.1,done]
 | sleep t q timeout memory =>
  obtain ⟨k,done,_⟩ := runs.thread_sleep_on_timeout leaves.2 q timeout memory
  simp [step,leaves.1,done]
 | thread_free t release =>
  obtain ⟨k,done,_⟩ := runs.thread_free leaves.2
  simp [step,leaves.1,done]
 | thread_new t => exact leaves.elim
 | thread_ready t => exact leaves.elim
 | sleep_return t q => exact leaves.elim
 | thread_wakeup q => exact leaves.elim
 | expire t => exact leaves.elim

end

/-- In every run the list of the scheduler holds each ready thread once and no
  waiting or dead one, and taking a thread off it never faults. -/
theorem run_list_exact (idle : Thread) (actions : List (Action Thread Waitq)) :
 Along step Exact (fun s a => Leaves s a -> (step s a).isSome) (boot idle) actions :=
 along_invariant (I := Sound) (fun _ sound => sound.exact) (fun _ _ sound leaves => step_leaves sound leaves)
  (fun _ _ _ sound taken => step_sound sound taken) actions (boot idle) (sound_boot idle)

end
end Netbas.RunList
