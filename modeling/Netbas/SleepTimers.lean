import Netbas.TimerCalls

/-!
How long `thread_unready` puts a thread to sleep. The wheel fires no timer too early, but
`msec2ticks` multiplies in 32 bits (`sleeps_iff`).
-/
namespace Netbas.SleepTimers
open Runs TimerWheel TimerCalls Option
open Threads (INFINITE HZ msec2ticks)
universe u v

section
variable {Thread : Type u} {Other : Type v}
def NotEarly (timeout : Nat) (s : State Thread Other) : Prop :=
 ∀ f ∈ s.fired, ∀ since, f.sleep = some ⟨since,timeout⟩ -> since + timeout * HZ / 1000 ≤ f.tick

variable [DecidableEq Thread] [DecidableEq Other]

variable {timeout : Nat}
lemma exact_ticks (fits : timeout * HZ < 2 ^ 32) : msec2ticks timeout = timeout * HZ / 1000 := by
 rw [msec2ticks,Nat.mod_eq_of_lt fits]
lemma not_early (fits : timeout * HZ < 2 ^ 32)
 (handler : Other -> State Thread Other -> List (Op Thread Other)) (actions : List (Action Thread Other)) :
 Along (step handler) (NotEarly timeout) (Within handler (NotEarly timeout)) boot actions := by
 -- only the sleep timers have to keep their turns
 refine along_steady (fun t => t.isLeft = true) (fun _ => rfl) ?_ actions ?_
 · intro s real c lists steady f listed since asleep
   rw [<- exact_ticks fits]
   exact steady.woken f listed _ asleep
 have free : ∀ (s : State Thread Other) op, Allowed (fun t => t.isLeft = true) s op := by
  intro s op
  cases op with
  | install_timer o msec => exact fun _ keeps => (by cases keeps)
  | restart_timer _ _ => trivial
  | mod_timer _ _ => trivial
  | remove_timer _ => trivial
  | thread_unready _ _ _ => trivial
  | free_sleep_timer _ => trivial
 refine meets_always (fun s a => ?_) actions boot
 cases a with
 | call op => exact free s op
 | clock_handler fuel => exact fun o s' _ => meets_always free _ s'
lemma delay_at_boot {n : Nat} (small : n < 2 ^ 23) : delay (n % 2 ^ 32) 0 = n := by
 have due := delay_of_due (Nat.zero_le n) (by omega)
 omega
lemma asleep_at_boot (Other : Type v) [DecidableEq Other] (p : Thread) (finite : timeout ≠ INFINITE) :
 ∃ s real c lists, step silent (boot : State Thread Other) (.call (.thread_unready p timeout true)) = some s ∧
  Steady (fun _ => True) s real c lists ∧ TimerRuns.Ready c s.turns ∧ s.elapsed = 0 ∧ s.turns = 0 ∧
  Settles (.inl p) (msec2ticks timeout) (some (msec2ticks timeout)) (some ⟨0,timeout⟩) s real := by
 obtain ⟨s,real,lists,ran,steady,elapsed,turns⟩ :=
  (steady_boot (fun _ : Thread ⊕ Other => True)).unready_goes p timeout true
 have ready : TimerRuns.Ready (fun _ => 0) s.turns := by
  intro n _ _
  simp
 refine ⟨s,real,_,lists,ran,steady,ready,elapsed,turns,.inl ?_⟩
 rw [<- steady.same _ trivial]
 have freed : free_sleep_timer (boot : State Thread Other) p = some boot := if_pos rfl
 rw [thread_unready,freed,bind_some,if_neg finite,if_pos rfl] at ran
 obtain ⟨s2,moved,rfl⟩ := map_eq_some_iff.mp ran
 obtain ⟨s1,detached,held⟩ := bind_eq_some_iff.mp moved
 obtain ⟨r,gone,rfl⟩ := map_eq_some_iff.mp detached
 obtain ⟨wheel,_,rfl⟩ := map_eq_some_iff.mp held
 have idle : r.2.expires (.inl p) = msec2ticks timeout % 2 ^ 32 := by
  simp only [TimerWheel.detach_timer,State.set_expires,init_timer,Function.update_self,Bool.false_eq_true,
   if_false,some.injEq] at gone
  rw [<- gone]
  simp [boot,init_timers]
 have due : delay (r.2.expires (.inl p)) 0 = msec2ticks timeout := by
  rw [idle]
  exact delay_at_boot (msec2ticks_lt timeout)
 simpa [State.set_expires,init_timer,boot,State.sleepOf] using due
lemma early (Other : Type v) [DecidableEq Other] (finite : timeout ≠ INFINITE) (large : ¬ timeout * HZ < 2 ^ 32) (p : Thread) :
 ∃ actions, ¬ Along (step silent) (NotEarly timeout) (Within silent (NotEarly timeout))
  (boot : State Thread Other) actions := by
 obtain ⟨s,real,c,lists,ran,steady,ready,elapsed,turns,settles⟩ := asleep_at_boot Other p finite
 obtain ⟨actions,s',reached,f,listed,_,_,_,asleep,tick⟩ := left_alone (fun _ => trivial) (msec2ticks timeout + 1)
  steady ready (by omega) settles (by omega) (by omega)
 refine ⟨.call (.thread_unready p timeout true) :: actions,fun along => ?_⟩
 have visited : NotEarly timeout s' := along_run along (by rw [run,ran,bind_some,reached])
 have late := visited f listed 0 asleep
 rw [HZ] at late large
 rw [msec2ticks,HZ] at tick
 omega
theorem sleeps_iff (p : Thread) (timeout : Fin INFINITE) :
 (∀ (handler : Other -> State Thread Other -> List (Op Thread Other)) (acts : List (Action Thread Other)),
  Along (step handler) (NotEarly timeout) (Within handler (NotEarly timeout)) boot acts) ↔
 timeout.val * HZ < 2 ^ 32 := by
 constructor
 · intro never
   by_contra large
   obtain ⟨acts,broken⟩ := early Other (Nat.ne_of_lt timeout.isLt) large p
   exact broken (never silent acts)
 · exact fun fits handler acts => not_early fits handler acts

end
theorem hour_is_a_tick :
 ∃ s, run (step silent) (boot : State Unit Unit) [.call (.thread_unready () 4294968 true),.clock_handler 10] =
  some s ∧ ¬ NotEarly 4294968 s := by
 have evaluated : (run (step silent) (boot : State Unit Unit)
   [.call (.thread_unready () 4294968 true),.clock_handler 10]).map (fun s => s.fired.map (fun f => (f.sleep,f.tick)))
    = some [(some ⟨0,4294968⟩,1)] := by decide +kernel
 obtain ⟨s,reached,values⟩ := map_eq_some_iff.mp evaluated
 refine ⟨s,reached,fun held => ?_⟩
 obtain ⟨f,listed,eq⟩ := List.mem_map.mp (values ▸ List.mem_singleton_self (some (⟨0,4294968⟩ : Sleep),1))
 have asleep := congrArg Prod.fst eq
 have tick := congrArg Prod.snd eq
 simp only at asleep tick
 have late := held f listed 0 asleep
 rw [HZ] at late
 omega

end Netbas.SleepTimers
