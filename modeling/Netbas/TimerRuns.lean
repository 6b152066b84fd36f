import Netbas.Runs
import Netbas.TimerWheel

/-!
The timer wheel over whole histories. The log of a history is one of an alarm clock (`Stands`), so
every timer fires once and in its turn (`timers_on_time`), and `run_timer_list` always returns.
-/
namespace Netbas.TimerRuns
open Runs AlarmClock Fuel Rings TimerWheel List Option
open Function
universe u

/-- The wheel and what has happened to the timers. A timer is `set` when it is
  attached and `unset` when it is detached; it rings when its handler is called. -/
structure World (Timer : Type u) where
 wheel : Wheel Timer
 log : List (Event Timer Nat)

/-- The calls that other code and the handlers make. `mod_timer` is
  `detach_timer` and `attach_timer`, and so is `restart_timer`; `install_timer` is the
  latter, for a timer that is not active. -/
inductive Op (Timer : Type u) where
 | mod_timer (t : Timer) (expires : Nat)
 | detach_timer (t : Timer)
 | remove_timer (t : Timer)

section
variable {Timer : Type u} [DecidableEq Timer]
def detach_timer (w : World Timer) (t : Timer) : Option (World Timer) :=
 (TimerWheel.detach_timer w.wheel t).map (fun r =>
  {wheel := r.2, log := if r.1 = 1 then w.log ++ [.unset t] else w.log})
def attach_timer (w : World Timer) (t : Timer) : Option (World Timer) :=
 (TimerWheel.attach_timer w.wheel t).map (fun wheel =>
  {wheel := wheel, log := w.log ++ [.set t (w.wheel.expires t)]})
section
variable (w : World Timer)
def remove_timer (t : Timer) : Option (World Timer) :=
 (detach_timer w t).map (fun w => {w with wheel := {w.wheel with links := w.wheel.links.clear t}})
def World.set_expires (t : Timer) (expires : Nat) : World Timer :=
 {w with wheel := {w.wheel with expires := update w.wheel.expires t expires}}
def mod_timer (t : Timer) (expires : Nat) : Option (World Timer) :=
 (detach_timer (w.set_expires t ((w.wheel.ticks + expires) % 2 ^ 32)) t).bind (fun w => attach_timer w t)
def call : Op Timer -> Option (World Timer)
 | .mod_timer t expires => mod_timer w t expires
 | .detach_timer t => detach_timer w t
 | .remove_timer t => remove_timer w t
end
def calls : World Timer -> List (Op Timer) -> Option (World Timer) := run call

variable (handler : Timer -> World Timer -> List (Op Timer))
def fire (w : World Timer) (t : Timer) : Option (World Timer) :=
 (TimerWheel.detach_timer w.wheel t).map (fun r =>
  {wheel := {r.2 with links := r.2.links.clear t}, log := w.log ++ [.ring t]})
def World.first (w : World Timer) : Option (Node Slot Timer) := w.wheel.links.next (.head ⟨0,w.wheel.index 0⟩)
def fire_loop : Nat -> World Timer -> Option (World Timer)
 | 0, _ => none
 | fuel + 1, w =>
  match w.first with
  | none => none
  | some (.head head) => if head = ⟨0,w.wheel.index 0⟩ then some w else none
  | some (.elem t) => (fire w t).bind (fun w => (calls w (handler t w)).bind (fun w => fire_loop fuel w))
def cascades (fuel : Nat) (w : World Timer) : Option (World Timer) :=
 if w.wheel.index 0 = 0 then (cascade_from fuel 1 w.wheel).map (fun wheel => {w with wheel := wheel}) else some w
def turn (fuel : Nat) (w : World Timer) : Option (World Timer) :=
 (cascades fuel w).bind (fun w =>
  (fire_loop handler fuel w).map (fun w =>
   { wheel := { w.wheel with
      timer_ticks := (w.wheel.timer_ticks + 1) % 2 ^ 32
      index := update w.wheel.index 0 ((w.wheel.index 0 + 1) &&& TVR_MASK) }
     log := w.log ++ [.turn] }))
def World.behind (w : World Timer) : Prop := (w.wheel.ticks + 2 ^ 32 - w.wheel.timer_ticks) % 2 ^ 32 < 2 ^ 31
instance (w : World Timer) : Decidable w.behind := inferInstanceAs (Decidable (_ < _))
def run_timer_list : Nat -> World Timer -> Option (World Timer)
 | 0, _ => none
 | fuel + 1, w =>
  if w.behind then (turn handler fuel w).bind (fun w => run_timer_list fuel w) else some w
inductive Action (Timer : Type u) where
 | tick
 | call (op : Op Timer)
 | run_timer_list (fuel : Nat)
def step (w : World Timer) : Action Timer -> Option (World Timer)
 | .tick => some {w with wheel := {w.wheel with ticks := (w.wheel.ticks + 1) % 2 ^ 32}}
 | .call op => call w op
 | .run_timer_list fuel => run_timer_list handler fuel w

end

section
variable {Timer : Type u} {w : World Timer} {now : Nat} {c : Nat -> Nat} {lists : Slot -> List Timer}
def boot : World Timer := {wheel := init_timers, log := []}

/-- A call does not attach a timer that the turn under way would fire. -/
def Later (w : World Timer) : Op Timer -> Prop
 | .mod_timer _ expires =>
  0 < (w.wheel.ticks + expires + 2 ^ 32 - w.wheel.timer_ticks) % 2 ^ 32 ∧
  (w.wheel.ticks + expires + 2 ^ 32 - w.wheel.timer_ticks) % 2 ^ 32 < 2 ^ 31
 | _ => True
instance (w : World Timer) : (op : Op Timer) -> Decidable (Later w op)
 | .mod_timer _ _ => inferInstanceAs (Decidable (_ ∧ _))
 | .detach_timer _ => .isTrue trivial
 | .remove_timer _ => .isTrue trivial

variable [DecidableEq Timer] (handler : Timer -> World Timer -> List (Op Timer))
inductive Fires : World Timer -> Timer -> World Timer -> Prop where
 | first {w w' : World Timer} {t : Timer} : w.first = some (.elem t) -> fire w t = some w' -> Fires w t w'
 | next {w w1 w2 w' : World Timer} {t u : Timer} : w.first = some (.elem t) -> fire w t = some w1 ->
   calls w1 (handler t w1) = some w2 -> Fires w2 u w' -> Fires w u w'
inductive Runs : World Timer -> Timer -> World Timer -> Prop where
 | now {w w1 w' : World Timer} {t : Timer} (fuel : Nat) : w.behind -> cascades fuel w = some w1 ->
   Fires handler w1 t w' -> Runs w t w'
 | next {w w1 w' : World Timer} {t : Timer} (fuel : Nat) : w.behind -> turn handler fuel w = some w1 ->
   Runs w1 t w' -> Runs w t w'
def Timely (w : World Timer) : Action Timer -> Prop
 | .run_timer_list _ => ∀ t w', Runs handler w t w' -> ∀ op ∈ handler t w', Later w' op
 | _ => True

variable {handler}
def Stands (w : World Timer) (now : Nat) (c : Nat -> Nat) (lists : Slot -> List Timer) : Prop :=
 ∃ due, Accepts delay w.log {now := now, due := due} ∧ Placed w.wheel {now := now, due := due} c lists []
structure Steady (w w' : World Timer) (now : Nat) (lists lists' : Slot -> List Timer) : Prop where
 ticks : w'.wheel.ticks = w.wheel.ticks
 timer_ticks : w'.wheel.timer_ticks = w.wheel.timer_ticks
 hand : (lists' ⟨0,now % 256⟩).length ≤ (lists ⟨0,now % 256⟩).length
lemma Steady.trans {w w1 w2 : World Timer} {lists lists1 lists2 : Slot -> List Timer}
 (first : Steady w w1 now lists lists1) (snd : Steady w1 w2 now lists1 lists2) : Steady w w2 now lists lists2 :=
 ⟨snd.ticks.trans first.ticks,snd.timer_ticks.trans first.timer_ticks,snd.hand.trans first.hand⟩
lemma Steady.later {w w' : World Timer} {lists ls' : Slot -> List Timer} (ok : Steady w w' now lists ls')
 (op : Op Timer) : Later w op ↔ Later w' op := by
 cases op <;> simp only [Later,ok.ticks,ok.timer_ticks]
lemma detach_set_expires (w : World Timer) (t : Timer) (e : Nat) :
 detach_timer (w.set_expires t e) t = (detach_timer w t).map (fun w => w.set_expires t e) := by
 simp only [detach_timer,TimerWheel.detach_timer,World.set_expires]
 by_cases active : w.wheel.active t
 · simp only [active,if_true,Option.map_map]
   rfl
 · simp [active]
def Ready (c : Nat -> Nat) (now : Nat) : Prop := ∀ n, 1 ≤ n -> n ≤ 4 -> c n * 2 ^ shift n < now + 2 ^ shift n

namespace Stands

section
variable (stands : Stands w now c lists)
include stands
lemma timer_ticks : w.wheel.timer_ticks = now % 2 ^ 32 := by
 obtain ⟨due,acc,put⟩ := stands
 exact put.ticks
lemma detach_timer (t : Timer) :
 ∃ w' ls', TimerRuns.detach_timer w t = some w' ∧ Stands w' now c ls' ∧ Steady w w' now lists ls' ∧
  w'.wheel.expires = w.wheel.expires ∧ w'.wheel.active t = false := by
 obtain ⟨due,acc,put⟩ := stands
 by_cases active : w.wheel.active t
 · obtain ⟨links,v,gone,mem,put'⟩ := put.unlink active
   have set : due t ≠ none := put.is_due active
   refine ⟨{ wheel := {w.wheel with links := links, active := update w.wheel.active t false}
             log := w.log ++ [.unset t] },_,?_,⟨_,acc.step (.unset set),put'⟩,⟨rfl,rfl,?_⟩,rfl,by simp⟩
   · simp [TimerRuns.detach_timer,TimerWheel.detach_timer,active,gone]
   by_cases eq : ⟨0,now % 256⟩ = v
   · subst eq
     simpa using length_erase_le
   · rw [update_of_ne eq]
 refine ⟨w,lists,?_,⟨due,acc,put⟩,⟨rfl,rfl,le_rfl⟩,rfl,by simpa using active⟩
 simp [TimerRuns.detach_timer,TimerWheel.detach_timer,active]
lemma remove_timer (t : Timer) :
 ∃ w' lists', TimerRuns.remove_timer w t = some w' ∧ Stands w' now c lists' ∧ Steady w w' now lists lists' := by
 obtain ⟨w',lists',detached,⟨due,acc,put⟩,ok,_,idle⟩ := stands.detach_timer t
 refine ⟨{w' with wheel := {w'.wheel with links := w'.wheel.links.clear t}},lists',?_,
  ⟨due,acc,put.clear (put.not_due idle)⟩,ok.ticks,ok.timer_ticks,ok.hand⟩
 rw [TimerRuns.remove_timer,detached]
 rfl
lemma set_expires {t : Timer} (idle : w.wheel.active t = false) (e : Nat) :
 Stands (w.set_expires t e) now c lists := by
 obtain ⟨due,acc,put⟩ := stands
 exact ⟨due,acc,put.set_expires (put.not_due idle) e⟩
lemma attach_timer {t : Timer} (idle : w.wheel.active t = false)
 (word : w.wheel.expires t < 2 ^ 32) :
 ∃ w' ls', TimerRuns.attach_timer w t = some w' ∧ Stands w' now c ls' ∧
  (0 < delay (w.wheel.expires t) now -> Steady w w' now lists ls') := by
 obtain ⟨due,acc,put⟩ := stands
 have free := put.not_due idle
 obtain ⟨wheel,held,ticks,timerTicks,put'⟩ := put.attach word free
 refine ⟨{wheel := wheel, log := w.log ++ [.set t (w.wheel.expires t)]},_,?_,
  ⟨_,acc.step (.set (w.wheel.expires t) free),put'⟩,fun later => ⟨ticks,timerTicks,?_⟩⟩
 · rw [TimerRuns.attach_timer,held]
   rfl
 have holds := timer_vec_holds word put.ticks put.root put.counters
 have ne : ⟨0,now % 256⟩ ≠ timer_vec w.wheel t := by
  intro eq
  have onTime := holds.hand eq.symm
  simp only at onTime
  omega
 rw [update_of_ne ne]
lemma mod_timer (t : Timer) (expires : Nat) :
 ∃ w' ls', TimerRuns.mod_timer w t expires = some w' ∧ Stands w' now c ls' ∧
  (Later w (.mod_timer t expires) -> Steady w w' now lists ls') := by
 obtain ⟨w1,lists1,detached,stands1,ok1,_,idle⟩ := stands.detach_timer t
 obtain ⟨w2,lists2,held,stands2,ok2⟩ :=
  (stands1.set_expires idle ((w.wheel.ticks + expires) % 2 ^ 32)).attach_timer (t := t) idle
   (by simp only [World.set_expires,update_self]; omega)
 refine ⟨w2,lists2,?_,stands2,fun later => ?_⟩
 · rw [TimerRuns.mod_timer,detach_set_expires,detached,map_some,bind_some,held]
 obtain ⟨ticks,timerTicks,hand⟩ := ok2 (by
  have shows := stands.timer_ticks
  simp only [Later] at later
  simp only [World.set_expires,update_self,delay]
  have distance : ((w.wheel.ticks + expires) % 2 ^ 32 + 2 ^ 32 - now % 2 ^ 32) % 2 ^ 32 =
    (w.wheel.ticks + expires + 2 ^ 32 - w.wheel.timer_ticks) % 2 ^ 32 := by omega
  rw [distance,if_pos later.2]
  exact later.1)
 exact ok1.trans ⟨ticks,timerTicks,hand⟩
lemma call (op : Op Timer) :
 ∃ w' ls', TimerRuns.call w op = some w' ∧ Stands w' now c ls' ∧
  (Later w op -> Steady w w' now lists ls') := by
 cases op with
 | mod_timer t expires => exact stands.mod_timer t expires
 | detach_timer t =>
  obtain ⟨w',ls',detached,stands',ok,_⟩ := stands.detach_timer t
  exact ⟨w',ls',detached,stands',fun _ => ok⟩
 | remove_timer t =>
  obtain ⟨w',ls',gone,stands',ok⟩ := stands.remove_timer t
  exact ⟨w',ls',gone,stands',fun _ => ok⟩
lemma calls (ops : List (Op Timer)) (later : ∀ op ∈ ops, Later w op) :
 ∃ w' lists', TimerRuns.calls w ops = some w' ∧ Stands w' now c lists' ∧ Steady w w' now lists lists' := by
 induction ops generalizing w lists with
 | nil => exact ⟨w,lists,rfl,stands,⟨rfl,rfl,le_rfl⟩⟩
 | cons op rest ih =>
  obtain ⟨w1,lists1,ran,stands1,ok1⟩ := stands.call op
  have ok := ok1 (later op (by simp))
  have later' : ∀ op ∈ rest, Later w1 op :=
   fun op mem => (ok.later op).mp (later op (by simp [mem]))
  obtain ⟨w2,lists2,called2,stands2,ok2⟩ := ih stands1 later'
  refine ⟨w2,lists2,?_,stands2,ok.trans ok2⟩
  simpa only [TimerRuns.calls,run,ran,bind_some] using called2

end
lemma fire_loop (k : Nat) : ∀ {w : World Timer} {lists : Slot -> List Timer}, Stands w now c lists ->
 (∀ t w', Fires handler w t w' -> ∀ op ∈ handler t w', Later w' op) -> (lists ⟨0,now % 256⟩).length = k ->
 ∃ w' ls', Returns (fun fuel => TimerRuns.fire_loop handler fuel w) w' ∧ Stands w' now c ls' ∧
  w'.wheel.ticks = w.wheel.ticks ∧ ls' ⟨0,now % 256⟩ = [] := by
 induction k using Nat.strong_induction_on with
 | _ k ih =>
  intro w lists stands later length
  obtain ⟨due,acc,put⟩ := stands
  have first : w.first = some (initial (.head ⟨0,now % 256⟩) (lists ⟨0,now % 256⟩)) := by
   rw [World.first,put.root]
   exact linked_next (put.rings.ring ⟨0,now % 256⟩)
  cases wait : lists ⟨0,now % 256⟩ with
  | nil =>
   rw [wait] at first
   refine ⟨w,lists,?_,⟨due,acc,put⟩,rfl,wait⟩
   refine .turn (g := fun _ => some w) rfl (fun fuel => ?_) (returns_const w)
   simp [TimerRuns.fire_loop,first,initial,put.root]
  | cons t rest =>
   rw [wait] at first
   have inside : t ∈ lists ⟨0,now % 256⟩ := by simp [wait]
   obtain ⟨d,isDue,holds⟩ := put.held inside
   rw [holds.hand rfl] at isDue
   have active : w.wheel.active t = true := by
    rw [put.active t,isDue]
    rfl
   obtain ⟨links,v,gone,mem,put'⟩ := put.unlink active
   obtain rfl := put.rings.apart inside mem
   obtain ⟨w1,fired,ticks1,stands1⟩ : ∃ w1, fire w t = some w1 ∧ w1.wheel.ticks = w.wheel.ticks ∧
     Stands w1 now c (update lists ⟨0,now % 256⟩ ((lists ⟨0,now % 256⟩).erase t)) := by
    refine ⟨{ wheel := {w.wheel with links := links.clear t, active := update w.wheel.active t false}
              log := w.log ++ [.ring t] },?_,rfl,_,acc.step (.ring isDue),put'.clear (t := t) (by simp)⟩
    simp [fire,TimerWheel.detach_timer,active,gone]
   obtain ⟨w2,lists2,took,stands2,ok⟩ := stands1.calls (handler t w1) (later t w1 (.first first fired))
   have less : (lists2 ⟨0,now % 256⟩).length < k := by
    have hand := ok.hand
    rw [update_self,length_erase_of_mem inside,length] at hand
    rw [wait] at length
    simp only [length_cons] at length
    omega
   obtain ⟨w',ls',ret,stands',ticks,empty⟩ :=
    ih _ less stands2 (fun u w' fires => later u w' (.next first fired took fires)) rfl
   refine ⟨w',ls',.turn rfl (fun fuel => ?_) ret,stands',by rw [ticks,ok.ticks,ticks1],empty⟩
   simp only [TimerRuns.fire_loop,first,initial,fired,bind_some,took]
lemma cascades (stands : Stands w now c lists) (ready : Ready c now) :
 ∃ w' c' ls', Returns (fun fuel => TimerRuns.cascades fuel w) w' ∧ w'.wheel.ticks = w.wheel.ticks ∧
  Stands w' now c' ls' ∧ ∀ n, 1 ≤ n -> n ≤ 4 -> now < c' n * 2 ^ shift n := by
 obtain ⟨due,acc,put⟩ := stands
 obtain ⟨wheel,c',ls',ret,ticks,put',past⟩ := put.cascades ready
 refine ⟨{w with wheel := wheel},c',ls',?_,ticks,⟨due,acc,put'⟩,past⟩
 have eq : (fun fuel => TimerRuns.cascades fuel w) = fun fuel =>
   (if w.wheel.index 0 = 0 then cascade_from fuel 1 w.wheel else some w.wheel).map
    (fun wheel => {w with wheel := wheel}) := by
  funext fuel
  rw [TimerRuns.cascades]
  split <;> rfl
 rw [eq]
 exact ret.map _
lemma turn (stands : Stands w now c lists) (ready : Ready c now) (behind : w.behind)
 (later : ∀ t w', Runs handler w t w' -> ∀ op ∈ handler t w', Later w' op) :
 ∃ w' c' ls', Returns (fun fuel => TimerRuns.turn handler fuel w) w' ∧ Stands w' (now + 1) c' ls' ∧
  Ready c' (now + 1) ∧ w'.wheel.ticks = w.wheel.ticks := by
 obtain ⟨w1,c1,lists1,returns1,ticks1,stands1,past⟩ := stands.cascades ready
 obtain ⟨fuel,cascaded⟩ := returns1.some_fuel
 obtain ⟨w2,lists2,returns2,stands2,ticks2,empty⟩ :=
  fire_loop _ stands1 (fun t w' fires => later t w' (.now fuel behind cascaded fires)) rfl
 obtain ⟨due,acc,put⟩ := stands2
 refine ⟨_,c1,lists2,returns1.bind (returns2.map _),
  ⟨due,acc.step (.turn (put.quiet past empty)),put.next_turn past empty⟩,?_,ticks2.trans ticks1⟩
 intro n low high
 have bound := (put.counters n low high).2
 simp only at bound
 omega
lemma caught_up (stop : ¬ w.behind) : Returns (fun fuel => TimerRuns.run_timer_list handler fuel w) w := by
 refine .turn (g := fun _ => some w) rfl (fun fuel => ?_) (returns_const w)
 rw [TimerRuns.run_timer_list,if_neg stop]
lemma catch_up (k : Nat) : ∀ {w : World Timer} {now : Nat} {c : Nat -> Nat} {lists : Slot -> List Timer},
 Stands w now c lists -> Ready c now -> (∀ t w', Runs handler w t w' -> ∀ op ∈ handler t w', Later w' op) ->
 k < 2 ^ 31 -> (w.wheel.ticks + 2 ^ 32 - w.wheel.timer_ticks) % 2 ^ 32 = k ->
 ∃ w' now' c' ls', Returns (fun fuel => TimerRuns.run_timer_list handler fuel w) w' ∧
  Stands w' now' c' ls' ∧ Ready c' now' := by
 induction k with
 | zero =>
  intro w now c lists stands ready later near distance
  have behind : w.behind := by rw [World.behind,distance]; exact near
  obtain ⟨w1,c1,lists1,ret,stands1,ready1,ticks⟩ := stands.turn ready behind later
  have shown := stands.timer_ticks
  have shown1 := stands1.timer_ticks
  refine ⟨w1,now + 1,c1,lists1,.turn rfl (fun fuel => ?_)
   (ret.bind (g := fun w fuel => TimerRuns.run_timer_list handler fuel w) (caught_up ?_)),stands1,ready1⟩
  · rw [TimerRuns.run_timer_list,if_pos behind]
  rw [World.behind,ticks,shown1]
  omega
 | succ k ih =>
  intro w now c lists stands ready later near distance
  have behind : w.behind := by rw [World.behind,distance]; exact near
  obtain ⟨w1,c1,lists1,ret,stands1,ready1,ticks⟩ := stands.turn ready behind later
  obtain ⟨fuel,turned⟩ := ret.some_fuel
  have shown := stands.timer_ticks
  have shown1 := stands1.timer_ticks
  obtain ⟨w',now',c',ls',returns',stands',rdy'⟩ := ih stands1 ready1
   (fun t w' runs => later t w' (.next fuel behind turned runs)) (by omega) (by rw [ticks,shown1]; omega)
  refine ⟨w',now',c',ls',.turn rfl (fun fuel => ?_)
   (ret.bind (g := fun w fuel => TimerRuns.run_timer_list handler fuel w) returns'),stands',rdy'⟩
  rw [TimerRuns.run_timer_list,if_pos behind]
lemma run_timer_list (stands : Stands w now c lists) (ready : Ready c now)
 (later : ∀ t w', Runs handler w t w' -> ∀ op ∈ handler t w', Later w' op) :
 ∃ w' now' c' ls', Returns (fun fuel => TimerRuns.run_timer_list handler fuel w) w' ∧
  Stands w' now' c' ls' ∧ Ready c' now' := by
 by_cases goes : w.behind
 · exact catch_up _ stands ready later goes rfl
 · exact ⟨w,now,c,lists,caught_up goes,stands,ready⟩

end Stands
def Due (expires now n : Nat) : Prop :=
 if (expires + 2 ^ 32 - now % 2 ^ 32) % 2 ^ 32 < 2 ^ 31 then n < 2 ^ 31 ∧ (now + n) % 2 ^ 32 = expires % 2 ^ 32
 else n = 0
def Untouched (t : Timer) (log : List (Event Timer Nat)) : Prop :=
 ∀ e ∈ log, e ≠ .unset t ∧ ∀ expires, e ≠ .set t expires

/-- A timer that is attached and left alone fires once, in the turn in which it is
  due; it has fired when that turn is over; and no timer fires otherwise. -/
structure OnTime (log : List (Event Timer Nat)) : Prop where
 once : ∀ before t expires after, log = before ++ .set t expires :: after -> Untouched t after ->
  ∀ y z, after = y ++ .ring t :: z -> Due expires (turns before) (turns y) ∧ Event.ring t ∉ y ∧ Event.ring t ∉ z
 fires : ∀ before t expires after, log = before ++ .set t expires :: after -> Untouched t after ->
  ∀ n, Due expires (turns before) n -> n < turns after -> Event.ring t ∈ after
 only : ∀ y t z, log = y ++ .ring t :: z -> ∃ before expires after,
  y = before ++ .set t expires :: after ∧ Untouched t after ∧ Event.ring t ∉ after
structure Kept (handler : Timer -> World Timer -> List (Op Timer)) (w : World Timer) : Prop where
 timer_ticks : w.wheel.timer_ticks = turns w.log % 2 ^ 32
 on_time : OnTime w.log
 call : ∀ op, (TimerRuns.call w op).isSome
 run_timer_list : (∀ t w', Runs handler w t w' -> ∀ op ∈ handler t w', Later w' op) ->
  ∃ enough, ∀ fuel, enough < fuel -> (TimerRuns.run_timer_list handler fuel w).isSome
def Sound (w : World Timer) : Prop := ∃ now c lists, Stands w now c lists ∧ Ready c now
lemma sound_boot : Sound (boot : World Timer) :=
 ⟨0,fun _ => 0,fun _ => [],⟨_,.start,placed_init⟩,fun n _ _ => by simp⟩
lemma step_sound {a : Action Timer} {w' : World Timer} (ok : Sound w) (timely : Timely handler w a)
 (ran : step handler w a = some w') : Sound w' := by
 obtain ⟨now,c,lists,stands,ready⟩ := ok
 cases a with
 | tick =>
  obtain ⟨due,acc,put⟩ := stands
  cases ran
  exact ⟨now,c,lists,⟨due,acc,{put with}⟩,ready⟩
 | call op =>
  obtain ⟨w1,lists1,called,stands1,_⟩ := stands.call op
  obtain rfl := some.inj (called.symm.trans ran)
  exact ⟨now,c,lists1,stands1,ready⟩
 | run_timer_list fuel =>
  obtain ⟨w1,now1,c1,lists1,ret,stands1,ready1⟩ := stands.run_timer_list ready timely
  obtain rfl := ret.value ran
  exact ⟨now1,c1,lists1,stands1,ready1⟩
lemma due_iff {expires now n : Nat} : Due expires now n ↔ n = delay expires now := by
 rw [Due,delay]
 split <;> omega
lemma on_time {log : List (Event Timer Nat)} {clock : Clock Timer} (acc : Accepts delay log clock) :
 OnTime log := by
 refine ⟨?_,?_,?_⟩
 · intro pre t expires after split same y z fired
   rw [due_iff]
   exact (rings_when_due acc split same).1 y z fired
 · intro pre t expires after split same n due late
   rw [due_iff.mp due] at late
   exact (rings_when_due acc split same).2 late
 intro y t z split
 exact rings_only_set acc split
lemma sound_kept (ok : Sound w) : Kept handler w := by
 obtain ⟨now,c,lists,stands,ready⟩ := ok
 obtain ⟨due,acc,put⟩ := id stands
 refine ⟨?_,on_time acc,?_,?_⟩
 · rw [stands.timer_ticks,<- acc.now]
 · intro op
   obtain ⟨w',_,ran,_⟩ := stands.call op
   simp [ran]
 intro later
 obtain ⟨w',_,_,_,ret,_⟩ := stands.run_timer_list ready later
 obtain ⟨enough,done⟩ := ret.enough
 exact ⟨enough,fun fuel more => by simp [done fuel more]⟩

/-- Every timer fires once and in its turn, whatever is attached and detached. -/
theorem timers_on_time (handler : Timer -> World Timer -> List (Op Timer)) (actions : List (Action Timer))
 (timely : Meets (step handler) (Timely handler) boot actions) :
 Along (step handler) (Kept handler) (fun _ _ => True) boot actions :=
 along_of_invariant (fun _ sound => sound_kept sound) (fun _ _ _ _ => trivial)
  (fun _ _ _ sound timely taken => step_sound sound timely taken) actions boot sound_boot timely
def again (t : Unit) (w : World Unit) : List (Op Unit) :=
 if Later w (.mod_timer t 300) then [.mod_timer t 300] else []
lemma again_timely (w : World Unit) (a : Action Unit) : Timely again w a := by
 cases a with
 | run_timer_list fuel =>
  intro t w' _ op mem
  rw [again] at mem
  split at mem
  · rwa [mem_singleton.mp mem]
  · simp at mem
 | tick => trivial
 | call op => trivial
theorem timers_on_time_again :
  let acts : List (Action Unit) := [.call (.mod_timer () 1),.tick,.run_timer_list 10,.tick]
  Meets (step again) (Timely again) boot acts ∧
  Along (step again) (Kept again) (fun _ _ => True) boot acts ∧
  (run (step again) boot acts).map World.log =
   some [.set () 1,.turn,.ring (),.set () 301,.turn] :=
 ⟨meets_always again_timely _ _,timers_on_time again _ (meets_always again_timely _ _),by decide +kernel⟩

end
end Netbas.TimerRuns
