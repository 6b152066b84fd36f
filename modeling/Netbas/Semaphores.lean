import Netbas.WaitQueues

/-!
The counting semaphore. A sleeper of `lock_semaphore_timeout` has already taken its unit, one of
`lock_semaphore` takes it when it runs again, without looking; `acquired_bounded` says when it is
safe.
-/
namespace Netbas.Semaphores
open Runs TailQueues Threads List Option
open Function
abbrev Thread := Fin (2 ^ 30)
def int32 (x : Int) : Int := (x + 2147483648) % 4294967296 - 2147483648
inductive Acquire where
 | lock
 | timed
 deriving DecidableEq
structure State where
 sched : WaitQueues.State Thread Unit
 counter : Int
 /-- The acquire call that a sleeper is in. -/
 call : Thread -> Option Acquire
 /-- The acquire calls that returned 0. -/
 acquired : Nat
 /-- The calls of `unlock_semaphore`. -/
 unlocked : Nat

variable (idle : Thread)
def create_semaphore (init_val : Int) : State :=
 {sched := WaitQueues.boot idle, counter := init_val, call := fun _ => none, acquired := 0, unlocked := 0}
section
variable (s : State)
def State.Calls (t : Thread) : Prop := s.sched.kernel.Runs t ∧ s.sched.asleep t = none
instance (s : State) (t : Thread) : Decidable (s.Calls t) := inferInstanceAs (Decidable (_ ∧ _))
def State.sleep (s : State) (t : Thread) (call : Acquire) (timeout : Nat) (memory : Bool) : Option State :=
 (WaitQueues.step s.sched (.sleep t () timeout memory)).map (fun w =>
  {s with sched := w, call := update s.call t (some call)})
def lock_semaphore (t : Thread) : Option State :=
 if s.counter ≤ 0 then s.sleep t .lock INFINITE true
 else some {s with counter := int32 (s.counter - 1), acquired := s.acquired + 1}
def lock_semaphore_timeout (t : Thread) (timeout : Nat) (memory : Bool) : Option State :=
 if timeout = INFINITE then lock_semaphore s t
 else
  let s := {s with counter := int32 (s.counter - 1)}
  if 0 ≤ s.counter then some {s with acquired := s.acquired + 1} else s.sleep t .timed timeout memory
def trylock_semaphore : State :=
 if s.counter ≤ 0 then s else {s with counter := int32 (s.counter - 1), acquired := s.acquired + 1}
def unlock_semaphore : Option State :=
 (WaitQueues.step s.sched (.thread_wakeup ())).map (fun w =>
  {s with sched := w, counter := int32 (s.counter + 1), unlocked := s.unlocked + 1})
def acquire_return (call : Acquire) (value : Int) : State :=
 match call with
 | .lock => {s with counter := int32 (s.counter - 1), acquired := s.acquired + 1}
 | .timed =>
  if value ≠ 0 then {s with counter := int32 (s.counter + 1)} else {s with acquired := s.acquired + 1}
inductive Action where
 | lock (t : Thread)
 | lock_timeout (t : Thread) (timeout : Nat) (memory : Bool)
 | trylock (t : Thread)
 | unlock
 | signal (t : Thread)
 | expire (t : Thread)
 | resume (t : Thread)
def step (s : State) : Action -> Option State
 | .lock t => if s.Calls t then lock_semaphore s t else none
 | .lock_timeout t timeout memory => if s.Calls t then lock_semaphore_timeout s t timeout memory else none
 | .trylock t => if s.Calls t then some (trylock_semaphore s) else none
 | .unlock => unlock_semaphore s
 | .signal t => (WaitQueues.step s.sched (.thread_ready t)).map (fun w => {s with sched := w})
 | .expire t => (WaitQueues.step s.sched (.expire t)).map (fun w => {s with sched := w})
 | .resume t =>
  match s.call t with
  | none => none
  | some call =>
   (WaitQueues.step s.sched (.resume t)).bind (fun w =>
    w.returned.map (fun r =>
     acquire_return {s with sched := w, call := update s.call t none} call r.value))
def Safe (k : Nat) (s : State) : Prop := (s.acquired : Int) - s.unlocked ≤ k
def State.wokenLocks : Nat := s.sched.woken.countP (fun t => decide (s.call t = some .lock))

/-- A sleeper goes on only if an unlock has taken it off the queue, unless it is
  one of `lock_semaphore_timeout` whose timer has not expired; and no call takes
  a unit at once that a woken sleeper of `lock_semaphore` will take. -/
def Served : Action -> Prop
 | .resume t =>
  (s.call t = some .lock -> t ∈ s.sched.woken) ∧
   (s.call t = some .timed -> t ∈ s.sched.expired -> t ∈ s.sched.woken)
 | .lock _ | .lock_timeout _ _ _ | .trylock _ => 0 < s.counter -> s.wokenLocks < s.counter
 | _ => True
def State.timedInside : Nat :=
 (s.sched.order () ++ s.sched.woken).countP (fun t => decide (s.call t = some .timed))
end
structure Fair (k : Nat) (s : State) : Prop where
 good : WaitQueues.Good s.sched
 calls : ∀ t, s.call t = none ↔ s.sched.asleep t = none
 counter : s.counter = int32 (k + s.unlocked - s.acquired - s.timedInside)
 covered : (s.sched.woken.length : Int) ≤ k + s.unlocked - s.acquired

section
variable {k : Nat} {s s' : State} {t : Thread}
lemma woken_length (calls : ∀ t ∈ s.sched.woken, s.call t ≠ none) :
 s.sched.woken.length = s.wokenLocks + s.sched.woken.countP (fun t => decide (s.call t = some .timed)) := by
 unfold State.wokenLocks
 generalize s.sched.woken = list at calls
 induction list with
 | nil => rfl
 | cons t rest ih =>
  have later := ih fun u mem => calls u (by simp [mem])
  cases call : s.call t with
  | none => exact absurd call (calls t (by simp))
  | some way =>
   cases way <;> simp [call,later] <;> omega
lemma countP_update {list : List Thread} (gone : t ∉ list) (f : Thread -> Option Acquire) (x y : Option Acquire) :
 list.countP (fun u => decide (update f t x u = y)) = list.countP (fun u => decide (f u = y)) := by
 refine countP_congr ?_
 intro u mem
 have ne : u ≠ t := fun own => gone (own ▸ mem)
 simp [ne]

namespace Fair
lemma safe (fair : Fair k s) : Safe k s := by
 have covered := fair.covered
 unfold Safe
 omega
lemma woken_call (fair : Fair k s) {t : Thread} (woken : t ∈ s.sched.woken) : s.call t ≠ none := by
 rw [Ne,fair.calls]
 exact (fair.good.woken woken).1
lemma once (fair : Fair k s) : (s.sched.order () ++ s.sched.woken).Nodup := by
 refine nodup_append.mpr ⟨fair.good.waits.once (),fair.good.once,?_⟩
 rintro t queued u woken rfl
 exact (fair.good.queued queued).2.1 woken
lemma few_timed (fair : Fair k s) : s.timedInside ≤ 2 ^ 30 := by
 calc s.timedInside ≤ (s.sched.order () ++ s.sched.woken).length := countP_le_length
  _ ≤ 2 ^ 30 := by simpa using fair.once.length_le_card
lemma left_of_counter (fair : Fair k s) (free : 0 ≤ int32 (s.counter - 1))
 (done : 0 < s.counter -> s.wokenLocks < s.counter) :
 s.wokenLocks < (k : Int) + s.unlocked - s.acquired - s.timedInside := by
 have few := fair.few_timed
 have locks : s.wokenLocks ≤ 2 ^ 30 := by
  calc s.wokenLocks ≤ s.sched.woken.length := countP_le_length
   _ ≤ 2 ^ 30 := by simpa using fair.good.once.length_le_card
 have covered := fair.covered
 have value := fair.counter
 unfold int32 at free value
 omega
lemma take (fair : Fair k s) (left : s.wokenLocks < (k : Int) + s.unlocked - s.acquired - s.timedInside) :
 Fair k {s with counter := int32 (s.counter - 1), acquired := s.acquired + 1} := by
 have length := woken_length fun t woken => fair.woken_call woken
 have mem : s.sched.woken.countP (fun t => decide (s.call t = some .timed)) ≤ s.timedInside := by
  unfold State.timedInside
  rw [countP_append]
  omega
 refine ⟨fair.good,fair.calls,?_,?_⟩
 · have value := fair.counter
   unfold State.timedInside at *
   simp only [int32] at *
   push_cast
   omega
 push_cast
 omega

variable {call : Acquire}
lemma sleep (fair : Fair k s) {timeout : Nat} {memory : Bool} {counter : Int}
  (ran : {s with counter := counter}.sleep t call timeout memory = some s')
  (value : counter = int32 (k + s.unlocked - s.acquired - s.timedInside - if call = .timed then 1 else 0)) :
  Fair k s' := by
 obtain ⟨w,slept,rfl⟩ := map_eq_some_iff.mp ran
 have good := WaitQueues.step_good fair.good (a := .sleep t () timeout memory) trivial slept
 obtain ⟨awake,asleep,order,woken⟩ := WaitQueues.step_sleep slept
 have unqueued : t ∉ s.sched.order () := by
  intro mem
  have called := (fair.good.queued mem).1
  rw [show s.sched.asleep t = none from awake] at called
  cases called
 have unwoken : t ∉ s.sched.woken := fun mem => (fair.good.woken mem).1 awake
 have sameWoken : w.woken = s.sched.woken := by
  rw [woken,filter_eq_self]
  intro u mem
  simpa using fun own : u = t => unwoken (own ▸ mem)
 refine ⟨good,?_,?_,?_⟩
 · intro u
   by_cases own : u = t
   · simp [asleep,own]
   · simpa [asleep,own] using fair.calls u
 · have inside : (w.order () ++ w.woken).countP
         (fun u => decide (update s.call t (some call) u = some .timed)) =
     s.timedInside + if call = .timed then 1 else 0 := by
    unfold State.timedInside
    simp only [sameWoken,order,update_self,countP_append,countP_update unqueued,
     countP_update unwoken,countP_singleton,some.injEq,decide_eq_true_eq]
    omega
   show counter = int32 (k + s.unlocked - s.acquired - ((w.order () ++ w.woken).countP _ : Nat))
   rw [inside,value]
   push_cast
   congr 1
   omega
 · simpa [sameWoken] using fair.covered
lemma unlock (fair : Fair k s) (ran : unlock_semaphore s = some s') : Fair k s' := by
 obtain ⟨w,woke,rfl⟩ := map_eq_some_iff.mp ran
 have good := WaitQueues.step_good fair.good (a := .thread_wakeup ()) trivial woke
 obtain ⟨asleep,order,woken⟩ := WaitQueues.step_wakeup woke
 rw [queue_first (fair.good.waits.queue ())] at woken
 have order : w.order () = (s.sched.order ()).tail := by simp [order]
 refine ⟨good,by simpa [asleep] using fair.calls,?_,?_⟩
 · have mem : (w.order () ++ w.woken).countP (fun u => decide (s.call u = some .timed)) = s.timedInside := by
    unfold State.timedInside
    rw [order,woken]
    cases s.sched.order () with
    | nil => rfl
    | cons u rest => exact perm_middle.countP_eq _
   show int32 (s.counter + 1) =
    int32 (k + (s.unlocked + 1 : Nat) - s.acquired - ((w.order () ++ w.woken).countP _ : Nat))
   have value := fair.counter
   rw [mem]
   simp only [int32] at *
   push_cast
   omega
 have covered := fair.covered
 have length : w.woken.length ≤ s.sched.woken.length + 1 := by
  rw [woken]
  cases s.sched.order () <;> simp
 show (w.woken.length : Int) ≤ k + (s.unlocked + 1 : Nat) - s.acquired
 push_cast
 omega

variable {w : WaitQueues.State Thread Unit}
lemma resume_inside (fair : Fair k s) (inCall : s.call t = some call)
 (resumed : WaitQueues.step s.sched (.resume t) = some w) :
 (w.order () ++ w.woken).countP (fun u => decide (update s.call t none u = some .timed)) +
  (if call = .timed then 1 else 0) = s.timedInside := by
 obtain ⟨q,_,asleep,_,order,woken,_⟩ := WaitQueues.step_resume resumed
 have rest : w.order () ++ w.woken = (s.sched.order () ++ s.sched.woken).erase t := by
  rw [fair.once.erase_eq_filter,filter_append,order,woken,update_self,
   (fair.good.waits.once ()).erase_eq_filter]
  simp only [ne_eq,decide_not]
  rfl
 have mem : t ∈ s.sched.order () ++ s.sched.woken := mem_append.mpr (fair.good.asleep asleep)
 rw [rest,countP_update fair.once.not_mem_erase,countP_erase]
 unfold State.timedInside
 by_cases timed : call = .timed
 · have pos : 0 < (s.sched.order () ++ s.sched.woken).countP (fun u => decide (s.call u = some .timed)) :=
    countP_pos_iff.mpr ⟨t,mem,by simp [inCall,timed]⟩
   simp only [mem,inCall,timed,decide_true,and_self,if_true]
   omega
 · simp [inCall,timed]
lemma resume (fair : Fair k s) (inCall : s.call t = some call) (done : Served s (.resume t))
 (resumed : WaitQueues.step s.sched (.resume t) = some w)
 {r : WaitQueues.Return Thread} (returned : w.returned = some r) :
 Fair k (acquire_return {s with sched := w, call := update s.call t none} call r.value) := by
 have inside := fair.resume_inside inCall resumed
 have ran : t ∈ s.sched.expired -> t ∈ s.sched.woken := by
  cases call with
  | lock => exact fun _ => done.1 inCall
  | timed => exact done.2 inCall
 have good := WaitQueues.step_good fair.good (a := .resume t) (fun _ => ran) resumed
 obtain ⟨q,value,_,asleep,_,woken,record⟩ := WaitQueues.step_resume resumed
 obtain rfl := some.inj (returned.symm.trans record)
 have failed : value ≠ 0 ↔ t ∉ s.sched.woken := by
  simpa using (good.returned _ record).2.2
 have calls : ∀ u, update s.call t none u = none ↔ w.asleep u = none := by
  intro u
  by_cases own : u = t
  · simp [asleep,own]
  · simpa [asleep,own] using fair.calls u
 have less : w.woken.length + (if t ∈ s.sched.woken then 1 else 0) = s.sched.woken.length := by
  have erased : w.woken = s.sched.woken.erase t := by
   rw [woken,fair.good.once.erase_eq_filter]
   simp only [ne_eq,decide_not]
   rfl
  by_cases mem : t ∈ s.sched.woken
  · have pos := length_pos_of_mem mem
    rw [erased,length_erase_of_mem mem,if_pos mem]
    omega
  rw [erased,erase_of_not_mem mem,if_neg mem]
  rfl
 have counter := fair.counter
 have covered := fair.covered
 -- what the state after the call must satisfy, whatever the call added to the counts
 have fairness : ∀ (change : Int) (more : Nat),
   int32 (s.counter + change) = int32 (k + s.unlocked - (s.acquired + more : Nat) -
    ((w.order () ++ w.woken).countP
     (fun u => decide (update s.call t none u = some .timed)) : Nat)) ->
   (w.woken.length : Int) ≤ k + s.unlocked - (s.acquired + more : Nat) ->
   Fair k { sched := w, counter := int32 (s.counter + change), call := update s.call t none,
            acquired := s.acquired + more, unlocked := s.unlocked } :=
  fun change more value covered => ⟨good,calls,value,covered⟩
 cases call with
 | lock =>
  have woken := done.1 inCall
  simp only [woken,if_true,reduceCtorEq,if_false] at less inside
  refine fairness (-1) 1 ?_ ?_
  · simp only [int32] at *
    push_cast
    omega
  push_cast
  omega
 | timed =>
  simp only [if_true] at inside
  by_cases woken : t ∈ s.sched.woken
  · have zero : value = 0 := by
     by_contra ne0
     exact failed.mp ne0 woken
    have eq : s.counter = int32 (s.counter + 0) := by
     simp only [int32] at *
     omega
    simp only [woken,if_true] at less
    simp only [acquire_return,zero,ne_eq,not_true_eq_false,if_false]
    rw [eq]
    refine fairness 0 1 ?_ ?_
    · simp only [int32] at *
      push_cast
      omega
    push_cast
    omega
  have ne0 : value ≠ 0 := failed.mpr woken
  simp only [woken,if_false] at less
  simp only [acquire_return,if_pos ne0]
  refine fairness 1 0 ?_ ?_
  · simp only [int32] at *
    push_cast
    omega
  push_cast
  omega
lemma lock (fair : Fair k s) (done : 0 < s.counter -> s.wokenLocks < s.counter)
 (ran : lock_semaphore s t = some s') : Fair k s' := by
 unfold lock_semaphore at ran
 split_ifs at ran with empty
 · exact fair.sleep ran (by simpa using fair.counter)
 cases ran
 refine fair.take (fair.left_of_counter ?_ done)
 have value := fair.counter
 simp only [int32] at *
 omega
lemma elsewhere (fair : Fair k s) (good : WaitQueues.Good w)
 (asleep : w.asleep = s.sched.asleep) (order : w.order = s.sched.order) (woken : w.woken = s.sched.woken) :
 Fair k {s with sched := w} := by
 refine ⟨good,by simpa [asleep] using fair.calls,?_,by simpa [woken] using fair.covered⟩
 have counter := fair.counter
 unfold State.timedInside at *
 simpa [order,woken] using counter

end Fair
lemma fair_create (fits : k < 2 ^ 31) : Fair k (create_semaphore idle k) where
 good := WaitQueues.good_boot idle
 calls := fun _ => by simp [create_semaphore,WaitQueues.boot]
 counter := by
  simp [create_semaphore,State.timedInside,WaitQueues.boot,int32]
  omega
 covered := by simp [create_semaphore,WaitQueues.boot]
lemma step_fair {a : Action} (fair : Fair k s) (done : Served s a) (ran : step s a = some s') : Fair k s' := by
 cases a with
 | lock t =>
  obtain ⟨_,ran⟩ := ite_none_right_eq_some.mp ran
  exact fair.lock done ran
 | lock_timeout t timeout memory =>
  obtain ⟨_,ran⟩ := ite_none_right_eq_some.mp ran
  simp only [lock_semaphore_timeout] at ran
  have counter := fair.counter
  split_ifs at ran with endless free
  · exact fair.lock done ran
  · cases ran
    exact fair.take (fair.left_of_counter free done)
  refine fair.sleep ran ?_
  simp only [if_true,int32] at *
  omega
 | trylock t =>
  obtain ⟨_,ran⟩ := ite_none_right_eq_some.mp ran
  cases ran
  unfold trylock_semaphore
  split_ifs with empty
  · exact fair
  refine fair.take (fair.left_of_counter ?_ done)
  have value := fair.counter
  simp only [int32] at *
  omega
 | unlock => exact fair.unlock ran
 | signal t =>
  cases ran
  exact fair.elsewhere (fair.good.thread_ready t) rfl rfl rfl
 | expire t =>
  obtain ⟨w,expired,rfl⟩ := map_eq_some_iff.mp ran
  have good := WaitQueues.step_good fair.good (a := .expire t) trivial expired
  obtain ⟨_,expired⟩ := ite_none_left_eq_some.mp expired
  cases expired
  exact fair.elsewhere good rfl rfl rfl
 | resume t =>
  cases inCall : s.call t with
  | none => simp [step,inCall] at ran
  | some call =>
   simp only [step,inCall] at ran
   obtain ⟨w,resumed,ran⟩ := bind_eq_some_iff.mp ran
   obtain ⟨r,returned,rfl⟩ := map_eq_some_iff.mp ran
   exact fair.resume inCall done resumed returned

/-- In every run whose steps leave the units of woken sleepers alone, the units
  that are out are covered by the initial value and the unlocks. -/
theorem acquired_bounded (k : Nat) (fits : k < 2 ^ 31) (actions : List Action)
 (served : Meets step Served (create_semaphore idle k) actions) :
 Along step (Safe k) (fun _ _ => True) (create_semaphore idle k) actions :=
 along_of_invariant (I := Fair k) (fun _ fair => fair.safe) (fun _ _ _ _ => trivial)
  (fun _ _ _ fair served taken => step_fair fair served taken) actions _ (fair_create idle fits) served
instance (s : State) : (a : Action) -> Decidable (Served s a)
 | .resume _ => inferInstanceAs (Decidable ((_ -> _) ∧ (_ -> _ -> _)))
 | .lock _ | .lock_timeout _ _ _ | .trylock _ => inferInstanceAs (Decidable (_ -> _))
 | .unlock | .signal _ | .expire _ => .isTrue trivial
theorem acquired_bounded_handover :
 Along step (Safe 1) (fun _ _ => True) (create_semaphore 0 1)
  [.signal 1,.signal 2,.lock 1,.lock_timeout 2 50 true,.unlock,.resume 2,.unlock,.trylock 1] :=
 acquired_bounded 0 1 (by decide) _ (by decide +kernel)
theorem acquired_by_timeout :
 ∃ s, run step (create_semaphore 0 0) [.signal 1,.lock_timeout 1 10 true,.expire 1,.resume 1] = some s ∧
  s.acquired = 1 ∧ s.unlocked = 0 ∧ ¬ Safe 0 s := by
 refine ⟨_,rfl,?_,?_,?_⟩
 · decide +kernel
 · decide +kernel
 unfold Safe
 decide +kernel

end
end Netbas.Semaphores
