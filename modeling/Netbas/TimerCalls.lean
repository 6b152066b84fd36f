import Netbas.Threads
import Netbas.TimerRuns

/-!
The timer wheel with the calls that name milliseconds. `due` notes the turn that a timer asked for,
and `fired` what was known of it when its handler was called. `Steady` says which turn each timer
really waits for.
-/
namespace Netbas.TimerCalls
open Runs AlarmClock Fuel Rings TimerWheel List Option
open TimerRuns (Ready)
open Threads (INFINITE msec2ticks)
open Function
universe u v

/-! ### The code -/
structure Sleep where
 since : Nat
 timeout : Nat
 deriving DecidableEq
structure Firing (Thread : Type u) (Other : Type v) where
 timer : Thread ⊕ Other
 due : Option Nat
 turn : Nat
 tick : Nat
 sleep : Option Sleep

/-- The wheel, over the sleep timers of the threads and all other timers. Ticks and
  turns are counted from the start, without the wrap of `ticks` and `timer_ticks`. -/
structure State (Thread : Type u) (Other : Type v) where
 wheel : Wheel (Thread ⊕ Other)
 sleep_timer : Thread -> Option Sleep
 elapsed : Nat
 turns : Nat
 due : Thread ⊕ Other -> Option Nat
 fired : List (Firing Thread Other)

/-- The calls that other code and the handlers make. `memory` says whether `kmalloc`
  finds memory for a sleep timer; an exiting thread frees its own. -/
inductive Op (Thread : Type u) (Other : Type v) where
 | install_timer (o : Other) (msec : Nat)
 | restart_timer (o : Other) (msec : Nat)
 | mod_timer (o : Other) (expires : Nat)
 | remove_timer (o : Other)
 | thread_unready (p : Thread) (timeout : Nat) (memory : Bool)
 | free_sleep_timer (p : Thread)

section
variable {Thread : Type u} {Other : Type v} [DecidableEq Thread] [DecidableEq Other]
def detach_timer (s : State Thread Other) (t : Thread ⊕ Other) : Option (State Thread Other) :=
 (TimerWheel.detach_timer s.wheel t).map (fun r => {s with wheel := r.2, due := update s.due t none})
def attach_timer (s : State Thread Other) (t : Thread ⊕ Other) : Option (State Thread Other) :=
 (TimerWheel.attach_timer s.wheel t).map (fun wheel =>
  { s with wheel := wheel
           due := update s.due t (some (s.turns + delay (s.wheel.expires t) s.turns)) })
section
variable (s : State Thread Other)
section
variable (t : Thread ⊕ Other)
def State.set_expires (expires : Nat) : State Thread Other :=
 {s with wheel := {s.wheel with expires := update s.wheel.expires t expires}}
def init_timer : State Thread Other :=
 { s with wheel := { s.wheel with links := s.wheel.links.clear t
                                  expires := update s.wheel.expires t 0
                                  active := update s.wheel.active t false } }
def install_timer (msec : Nat) : Option (State Thread Other) :=
 let s := s.set_expires t ((s.wheel.ticks + msec2ticks msec) % 2 ^ 32)
 -- "timer is already active"
 if s.wheel.active t then some s else attach_timer s t
def remove_timer : Option (State Thread Other) :=
 (detach_timer s t).map (fun s => {s with wheel := {s.wheel with links := s.wheel.links.clear t}})
def mod_timer (expires : Nat) : Option (State Thread Other) :=
 (detach_timer (s.set_expires t ((s.wheel.ticks + expires) % 2 ^ 32)) t).bind (fun s => attach_timer s t)
def restart_timer (msec : Nat) : Option (State Thread Other) :=
 mod_timer s t (msec2ticks msec)
def free_sleep_timer (p : Thread) : Option (State Thread Other) :=
 if s.sleep_timer p = none then some s
 else (remove_timer s (.inl p)).map (fun s => {s with sleep_timer := update s.sleep_timer p none})
def thread_unready (p : Thread) (timeout : Nat) (memory : Bool) :
  Option (State Thread Other) :=
 (free_sleep_timer s p).bind (fun s =>
  if timeout = INFINITE then some s
  else if memory then
   (mod_timer (init_timer s (.inl p)) (.inl p) (msec2ticks timeout)).map (fun s =>
    {s with sleep_timer := update s.sleep_timer p (some ⟨s.elapsed,timeout⟩)})
  else some s)
def call : Op Thread Other -> Option (State Thread Other)
 | .install_timer o msec => install_timer s (.inr o) msec
 | .restart_timer o msec => restart_timer s (.inr o) msec
 | .mod_timer o expires => mod_timer s (.inr o) expires
 | .remove_timer o => remove_timer s (.inr o)
 | .thread_unready p timeout memory => thread_unready s p timeout memory
 | .free_sleep_timer p => free_sleep_timer s p
def State.sleepOf : Thread ⊕ Other -> Option Sleep
 | .inl p => s.sleep_timer p
 | .inr _ => none
def fire : Option (State Thread Other) :=
 (TimerWheel.detach_timer s.wheel t).map (fun r =>
  { s with wheel := {r.2 with links := r.2.links.clear t}
           due := update s.due t none
           fired := s.fired ++ [⟨t,s.due t,s.turns,s.elapsed,s.sleepOf t⟩] })
def State.firing (wheel : Wheel (Thread ⊕ Other)) : State Thread Other :=
 { s with wheel := wheel
          due := update s.due t none
          fired := s.fired ++ [⟨t,s.due t,s.turns,s.elapsed,s.sleepOf t⟩] }
end
def State.first : Option (Node Slot (Thread ⊕ Other)) :=
 s.wheel.links.next (.head ⟨0,s.wheel.index 0⟩)
end

variable (handler : Other -> State Thread Other -> List (Op Thread Other))
def handle (s : State Thread Other) : Thread ⊕ Other -> Option (State Thread Other)
 | .inl p => free_sleep_timer s p
 | .inr o => run call s (handler o s)
def fire_loop : Nat -> State Thread Other -> Option (State Thread Other)
 | 0, _ => none
 | fuel + 1, s =>
  match s.first with
  | none => none
  | some (.head head) => if head = ⟨0,s.wheel.index 0⟩ then some s else none
  | some (.elem t) => (fire s t).bind (fun s => (handle handler s t).bind (fun s => fire_loop fuel s))
def cascades (fuel : Nat) (s : State Thread Other) : Option (State Thread Other) :=
 (if s.wheel.index 0 = 0 then cascade_from fuel 1 s.wheel else some s.wheel).map
  (fun wheel => {s with wheel := wheel})
def State.advance (s : State Thread Other) : State Thread Other :=
 { s with wheel := { s.wheel with
            timer_ticks := (s.wheel.timer_ticks + 1) % 2 ^ 32
            index := update s.wheel.index 0 ((s.wheel.index 0 + 1) &&& TVR_MASK) }
          turns := s.turns + 1 }
def turn (fuel : Nat) (s : State Thread Other) : Option (State Thread Other) :=
 (cascades fuel s).bind (fun s => (fire_loop handler fuel s).map State.advance)
def State.behind (s : State Thread Other) : Prop := (s.wheel.ticks + 2 ^ 32 - s.wheel.timer_ticks) % 2 ^ 32 < 2 ^ 31
instance (s : State Thread Other) : Decidable s.behind := inferInstanceAs (Decidable (_ < _))
def run_timer_list : Nat -> State Thread Other -> Option (State Thread Other)
 | 0, _ => none
 | fuel + 1, s =>
  if s.behind then (turn handler fuel s).bind (fun s => run_timer_list fuel s) else some s
def State.tick (s : State Thread Other) : State Thread Other :=
 {s with wheel := {s.wheel with ticks := (s.wheel.ticks + 1) % 2 ^ 32}, elapsed := s.elapsed + 1}
def clock_handler (fuel : Nat) (s : State Thread Other) : Option (State Thread Other) :=
 run_timer_list handler fuel s.tick
inductive Action (Thread : Type u) (Other : Type v) where
 | call (op : Op Thread Other)
 | clock_handler (fuel : Nat)
def step (s : State Thread Other) : Action Thread Other -> Option (State Thread Other)
 | .call op => call s op
 | .clock_handler fuel => clock_handler handler fuel s

end

section
variable {Thread : Type u} {Other : Type v}
def boot : State Thread Other :=
 {wheel := init_timers, sleep_timer := fun _ => none, elapsed := 0, turns := 0, due := fun _ => none, fired := []}

/-! ### What holds in every state -/
structure Steady (kept : Thread ⊕ Other -> Prop) (s : State Thread Other) (real : Thread ⊕ Other -> Option Nat)
  (c : Nat -> Nat) (lists : Slot -> List (Thread ⊕ Other)) : Prop where
 placed : Placed s.wheel {now := s.turns, due := real} c lists []
 same : ∀ t, kept t -> s.due t = real t
 ticks : s.wheel.ticks = s.elapsed % 2 ^ 32
 low : s.turns ≤ s.elapsed + 1
 high : s.elapsed ≤ s.turns + 1
 idle : ∀ p, s.sleep_timer p = none -> s.wheel.active (.inl p) = false
 sleeping : ∀ p sleep d, s.sleep_timer p = some sleep -> s.due (.inl p) = some d ->
  sleep.since + msec2ticks sleep.timeout ≤ d
 in_turn : ∀ f ∈ s.fired, kept f.timer -> f.due = some f.turn
 woken : ∀ f ∈ s.fired, ∀ sleep, f.sleep = some sleep -> sleep.since + msec2ticks sleep.timeout ≤ f.tick
lemma steady_boot (kept : Thread ⊕ Other -> Prop) :
  Steady kept boot (fun _ => none) (fun _ => 0) (fun _ => []) where
 placed := placed_init
 same _ _ := rfl
 ticks := rfl
 low := Nat.zero_le _
 high := Nat.zero_le _
 idle _ _ := rfl
 sleeping _ _ _ asleep := by cases asleep
 in_turn := by simp [boot]
 woken := by simp [boot]

variable {kept : Thread ⊕ Other -> Prop} {s : State Thread Other} {real : Thread ⊕ Other -> Option Nat}
 {c : Nat -> Nat} {lists : Slot -> List (Thread ⊕ Other)}
lemma erase_shorter {α : Type u} [DecidableEq α] {xs : List α} {x : α} (mem : x ∈ xs) :
 (xs.erase x).length < xs.length := by
 rw [length_erase_of_mem mem]
 exact Nat.sub_one_lt (length_pos_of_mem mem).ne'
lemma msec2ticks_lt (msec : Nat) : msec2ticks msec < 2 ^ 23 := by
 rw [msec2ticks,Threads.HZ]
 omega

namespace Steady
variable (steady : Steady kept s real c lists)
include steady
lemma behind_iff : s.behind ↔ s.turns ≤ s.elapsed := by
 have shown := steady.placed.ticks
 have low := steady.low
 have high := steady.high
 simp only at shown
 rw [State.behind,steady.ticks,shown]
 omega
lemma due_le {n : Nat} (lt : n < 2 ^ 23) :
 s.elapsed + n ≤ s.turns + delay ((s.wheel.ticks + n) % 2 ^ 32) s.turns := by
 have low := steady.low
 have high := steady.high
 have distance : ((s.wheel.ticks + n) % 2 ^ 32 + 2 ^ 32 - s.turns % 2 ^ 32) % 2 ^ 32 =
   (s.elapsed + n + 2 ^ 32 - s.turns) % 2 ^ 32 := by
  rw [steady.ticks]
  omega
 rw [delay,distance]
 split <;> omega

variable [DecidableEq Thread] [DecidableEq Other]
lemma off (t : Thread ⊕ Other) {wheel : Wheel (Thread ⊕ Other)} {lists' : Slot -> List (Thread ⊕ Other)}
  (placed : Placed wheel {now := s.turns, due := update real t none} c lists' [])
  (ticks : wheel.ticks = s.wheel.ticks) (active : wheel.active = update s.wheel.active t false) :
  Steady kept {s with wheel := wheel, due := update s.due t none} (update real t none) c lists' := by
 refine {steady with placed := placed, ticks := ticks.trans steady.ticks, same := ?_, idle := ?_, sleeping := ?_}
 · intro u keeps
   by_cases equal : u = t
   · simp [equal]
   · simpa [equal] using steady.same u keeps
 · intro p freed
   rw [active]
   by_cases equal : Sum.inl p = t
   · simp [equal]
   · simpa [equal] using steady.idle p freed
 intro p sleep d asleep due
 by_cases equal : Sum.inl p = t
 · simp [equal] at due
 · exact steady.sleeping p sleep d asleep (by simpa [equal] using due)
lemma detach (t : Thread ⊕ Other) :
  ∃ wheel ls', detach_timer s t = some {s with wheel := wheel, due := update s.due t none} ∧
   Steady kept {s with wheel := wheel, due := update s.due t none} (update real t none) c ls' ∧
   wheel.active t = false ∧ wheel.expires = s.wheel.expires ∧ wheel.ticks = s.wheel.ticks := by
 by_cases active : s.wheel.active t
 · obtain ⟨links,v,gone,mem,put⟩ := steady.placed.unlink active
   refine ⟨_,_,?_,steady.off t put rfl rfl,by simp,rfl,rfl⟩
   simp [detach_timer,TimerWheel.detach_timer,active,gone]
 have idle : s.wheel.active t = false := by simpa using active
 have unset := steady.placed.not_due idle
 simp only at unset
 refine ⟨s.wheel,lists,?_,steady.off t ?_ rfl ?_,idle,rfl,rfl⟩
 · simp [detach_timer,TimerWheel.detach_timer,active]
 · rw [<- unset,update_eq_self]
   exact steady.placed
 · rw [<- idle,update_eq_self]
lemma set_expires {t : Thread ⊕ Other} (idle : s.wheel.active t = false)
 (e : Nat) : Steady kept (s.set_expires t e) real c lists :=
 {steady with placed := steady.placed.set_expires (steady.placed.not_due idle) e}
lemma clear {t : Thread ⊕ Other} (idle : s.wheel.active t = false) :
 Steady kept {s with wheel := {s.wheel with links := s.wheel.links.clear t}} real c lists :=
 {steady with placed := steady.placed.clear (steady.placed.not_due idle)}
lemma init {t : Thread ⊕ Other} (idle : s.wheel.active t = false) :
 Steady kept (init_timer s t) real c lists := by
 have unchanged : update s.wheel.active t false = s.wheel.active := by rw [<- idle,update_eq_self]
 rw [init_timer,unchanged]
 exact (steady.clear idle).set_expires idle 0
lemma forget {p : Thread} (idle : s.wheel.active (.inl p) = false) :
 Steady kept {s with sleep_timer := update s.sleep_timer p none} real c lists := by
 refine {steady with idle := ?_, sleeping := ?_}
 · intro q freed
   by_cases equal : q = p
   · rw [equal]
     exact idle
   · exact steady.idle q (by simpa [equal] using freed)
 intro q sleep d asleep due
 by_cases equal : q = p
 · simp [equal] at asleep
 · exact steady.sleeping q sleep d (by simpa [equal] using asleep) due
lemma attach {t : Thread ⊕ Other} (idle : s.wheel.active t = false)
  (word : s.wheel.expires t < 2 ^ 32) (sleep_timer : Thread -> Option Sleep)
  (rest : ∀ p, Sum.inl p ≠ t -> sleep_timer p = s.sleep_timer p)
  (own : ∀ p, Sum.inl p = t -> ∃ sleep, sleep_timer p = some sleep ∧
   sleep.since + msec2ticks sleep.timeout ≤ s.turns + delay (s.wheel.expires t) s.turns) :
  ∃ wheel lists' real', TimerWheel.attach_timer s.wheel t = some wheel ∧
   Steady kept { s with
    wheel := wheel
    sleep_timer := sleep_timer
    due := update s.due t (some (s.turns + delay (s.wheel.expires t) s.turns)) } real' c lists' := by
 obtain ⟨wheel,held,ticks,_,placed⟩ := steady.placed.attach word (steady.placed.not_due idle)
 have kind : wheel.active = update s.wheel.active t true := by
  obtain ⟨links,_,rfl⟩ := map_eq_some_iff.mp held
  rfl
 refine ⟨wheel,_,_,held,
  {steady with placed := placed, same := ?_, ticks := ticks.trans steady.ticks, idle := ?_, sleeping := ?_}⟩
 · intro u keeps
   by_cases equal : u = t
   · simp [equal]
   · simpa [equal] using steady.same u keeps
 · intro p freed
   by_cases equal : Sum.inl p = t
   · obtain ⟨sleep,noted,_⟩ := own p equal
     cases noted.symm.trans freed
   rw [kind,update_of_ne equal]
   exact steady.idle p ((rest p equal).symm.trans freed)
 intro p sleep d asleep due
 by_cases equal : Sum.inl p = t
 · obtain ⟨sleep',noted,le⟩ := own p equal
   obtain rfl := some.inj (noted.symm.trans asleep)
   simp only [equal,update_self] at due
   obtain rfl := some.inj due
   exact le
 · exact steady.sleeping p sleep d ((rest p equal).symm.trans asleep) (by simpa [equal] using due)

end Steady

/-! ### The calls -/
def Goes (kept : Thread ⊕ Other -> Prop) (s : State Thread Other) (c : Nat -> Nat)
  (result : Option (State Thread Other)) : Prop :=
 ∃ s' real lists, result = some s' ∧ Steady kept s' real c lists ∧ s'.elapsed = s.elapsed ∧ s'.turns = s.turns
def installed (s : State Thread Other) (msec : Nat) : Nat := (s.wheel.ticks + msec2ticks msec) % 2 ^ 32

/-- A refused call of `install_timer` writes the value that stands there, or the
  timer waits in `tv1`, whose timers are not attached again. -/
def Harmless (s : State Thread Other) (t : Thread ⊕ Other) (msec : Nat) : Prop :=
 s.wheel.expires t = installed s msec ∨ ∃ lists i, Represents s.wheel.links lists ∧ t ∈ lists ⟨0,i⟩
def Allowed (kept : Thread ⊕ Other -> Prop) (s : State Thread Other) : Op Thread Other -> Prop
 | .install_timer o msec => s.wheel.active (.inr o) = true -> kept (.inr o) -> Harmless s (.inr o) msec
 | _ => True
lemma mod_timer_frame [DecidableEq Thread] [DecidableEq Other] {t : Thread ⊕ Other} {n : Nat} {s' : State Thread Other}
 (ran : mod_timer s t n = some s') : s'.sleep_timer = s.sleep_timer ∧ s'.elapsed = s.elapsed := by
 obtain ⟨_,detached,held⟩ := bind_eq_some_iff.mp ran
 obtain ⟨_,_,rfl⟩ := map_eq_some_iff.mp detached
 obtain ⟨_,_,rfl⟩ := map_eq_some_iff.mp held
 exact ⟨rfl,rfl⟩

namespace Steady
variable [DecidableEq Thread] [DecidableEq Other] (steady : Steady kept s real c lists)
include steady
lemma remove_goes (t : Thread ⊕ Other) :
 Goes kept s c (remove_timer s t) ∧
  ∀ s', remove_timer s t = some s' -> s'.wheel.active t = false ∧ s'.sleep_timer = s.sleep_timer := by
 obtain ⟨wheel,ls',detached,ok',idle,_⟩ := steady.detach t
 rw [remove_timer,detached]
 refine ⟨⟨_,_,_,rfl,ok'.clear idle,rfl,rfl⟩,?_⟩
 intro s' eq
 obtain rfl := some.inj eq
 exact ⟨idle,rfl⟩
lemma mod_goes (t : Thread ⊕ Other) (n : Nat)
 (note : Thread -> Option Sleep) (rest : ∀ p, Sum.inl p ≠ t -> note p = s.sleep_timer p)
 (own : ∀ p, Sum.inl p = t -> n < 2 ^ 23 ∧ ∃ timeout, note p = some ⟨s.elapsed,timeout⟩ ∧ msec2ticks timeout = n) :
 Goes kept s c ((mod_timer s t n).map (fun s => {s with sleep_timer := note})) := by
 obtain ⟨wheel,ls',detached,ok',idle,expires,ticks⟩ := steady.detach t
 have moved : detach_timer (s.set_expires t ((s.wheel.ticks + n) % 2 ^ 32)) t =
   (detach_timer s t).map (fun s' => s'.set_expires t ((s.wheel.ticks + n) % 2 ^ 32)) := by
  simp only [detach_timer,TimerWheel.detach_timer,State.set_expires]
  by_cases active : s.wheel.active t
  · simp only [active,if_true,Option.map_map]
    rfl
  · simp [active]
 have set := ok'.set_expires (t := t) idle ((s.wheel.ticks + n) % 2 ^ 32)
 obtain ⟨wheel',lists'',real',held,final⟩ := set.attach (t := t) idle
  (by simp only [State.set_expires,update_self]; omega) note rest (by
   intro p equal
   obtain ⟨lt,timeout,noted,rfl⟩ := own p equal
   refine ⟨_,noted,?_⟩
   simp only [State.set_expires,update_self]
   exact steady.due_le lt)
 rw [mod_timer,moved,detached,map_some,bind_some,attach_timer,held]
 exact ⟨_,_,_,rfl,final,rfl,rfl⟩
lemma mod_other (o : Other) (n : Nat) :
 Goes kept s c (mod_timer s (.inr o) n) := by
 have goes := steady.mod_goes (.inr o) n s.sleep_timer (by simp) (by simp)
 obtain ⟨s',real',ls',res,ok',elapsed,turns⟩ := goes
 obtain ⟨s'',ran,rfl⟩ := map_eq_some_iff.mp res
 rw [<- (mod_timer_frame ran).1] at ok'
 exact ⟨s'',real',ls',ran,ok',elapsed,turns⟩
lemma free_goes (p : Thread) :
 Goes kept s c (free_sleep_timer s p) ∧ ∀ s', free_sleep_timer s p = some s' ->
  s'.wheel.active (.inl p) = false := by
 rw [free_sleep_timer]
 split
 · rename_i freed
   refine ⟨⟨s,real,lists,rfl,steady,rfl,rfl⟩,?_⟩
   intro s' eq
   obtain rfl := some.inj eq
   exact steady.idle p freed
 obtain ⟨⟨s',real',ls',gone,ok',elapsed,turns⟩,after⟩ := steady.remove_goes (.inl p)
 obtain ⟨idle,_⟩ := after s' gone
 rw [gone]
 refine ⟨⟨_,real',ls',rfl,ok'.forget idle,elapsed,turns⟩,?_⟩
 intro s'' eq
 obtain rfl := some.inj eq
 exact idle
lemma unready_goes (p : Thread) (timeout : Nat) (memory : Bool) :
 Goes kept s c (thread_unready s p timeout memory) := by
 obtain ⟨⟨s',real',ls',freed,ok',elapsed,turns⟩,after⟩ := steady.free_goes p
 have idle := after s' freed
 rw [thread_unready,freed,bind_some]
 split
 · exact ⟨s',real',ls',rfl,ok',elapsed,turns⟩
 split
 · have goes := (ok'.init idle).mod_goes (.inl p) (msec2ticks timeout)
    (update s'.sleep_timer p (some ⟨s'.elapsed,timeout⟩))
    (by
     intro q ne
     have differs : q ≠ p := fun eq => ne (by rw [eq])
     simp [init_timer,differs])
    (by
     intro q equal
     obtain rfl := Sum.inl_injective equal
     exact ⟨msec2ticks_lt timeout,timeout,by simp [init_timer],rfl⟩)
   obtain ⟨s'',real'',lists'',res,steady'',elapsed',turns'⟩ := goes
   refine ⟨s'',real'',lists'',?_,steady'',elapsed'.trans elapsed,turns'.trans turns⟩
   rw [<- res]
   refine map_congr ?_
   intro s1 ran
   obtain ⟨asleep,elapsed⟩ := mod_timer_frame ran
   rw [asleep,elapsed]
   rfl
 · exact ⟨s',real',ls',rfl,ok',elapsed,turns⟩
lemma refused_goes {o : Other} {msec : Nat}
 (active : s.wheel.active (.inr o) = true) (harmless : kept (.inr o) -> Harmless s (.inr o) msec) :
 Goes kept s c (some (s.set_expires (.inr o) (installed s msec))) := by
 by_cases at1 : s.wheel.expires (.inr o) = installed s msec
 · have unchanged : s.set_expires (.inr o) (installed s msec) = s := by
    rw [State.set_expires,<- at1,update_eq_self]
   rw [unchanged]
   exact ⟨s,real,lists,rfl,steady,rfl,rfl⟩
 obtain ⟨v,inside⟩ := (steady.placed.found (steady.placed.is_due active)).resolve_right (by simp)
 have word : installed s msec < 2 ^ 32 := Nat.mod_lt _ (by decide)
 obtain ⟨d,placed,root⟩ := steady.placed.move_expires inside word
 refine ⟨_,_,lists,rfl,{steady with placed := placed, same := ?_},rfl,rfl⟩
 intro t keeps
 by_cases equal : t = .inr o
 · subst equal
   obtain ⟨ls',i,rep,mem⟩ := (harmless keeps).resolve_left at1
   rw [represents_unique rep steady.placed.rings] at mem
   obtain rfl := steady.placed.rings.apart mem inside
   have due := root rfl
   simp only at due
   rw [update_self,<- due]
   exact steady.same _ keeps
 rw [update_of_ne equal]
 exact steady.same t keeps
lemma call_goes (op : Op Thread Other) (allowed : Allowed kept s op) :
 Goes kept s c (call s op) := by
 cases op with
 | install_timer o msec =>
  by_cases active : s.wheel.active (.inr o) = true
  · have refused : call s (.install_timer o msec) = some (s.set_expires (.inr o) (installed s msec)) := if_pos active
    rw [refused]
    exact steady.refused_goes active fun keeps => allowed active keeps
  have free : s.wheel.active (.inr o) = false := by simpa using active
  have took : call s (.install_timer o msec) =
    attach_timer (s.set_expires (.inr o) (installed s msec)) (.inr o) := if_neg active
  rw [took]
  obtain ⟨wheel,ls',real',held,ok'⟩ :=
   (steady.set_expires free (installed s msec)).attach (t := .inr o) free
    (by simp only [State.set_expires,update_self]; exact Nat.mod_lt _ (by decide)) s.sleep_timer
    (fun _ _ => rfl) (by simp)
  refine ⟨_,real',ls',?_,ok',rfl,rfl⟩
  rw [attach_timer]
  exact map_eq_some_iff.mpr ⟨wheel,held,rfl⟩
 | restart_timer o msec => exact steady.mod_other o _
 | mod_timer o expires => exact steady.mod_other o expires
 | remove_timer o => exact (steady.remove_goes (.inr o)).1
 | thread_unready p timeout memory => exact steady.unready_goes p timeout memory
 | free_sleep_timer p => exact (steady.free_goes p).1
lemma calls_go (ops : List (Op Thread Other))
 (allowed : Meets call (Allowed kept) s ops) : Goes kept s c (run call s ops) := by
 induction ops generalizing s real lists with
 | nil => exact ⟨s,real,lists,rfl,steady,rfl,rfl⟩
 | cons op rest ih =>
  obtain ⟨here,later⟩ := meets_cons.mp allowed
  obtain ⟨s1,real1,lists1,ran,ok1,late1,turns1⟩ := steady.call_goes op here
  obtain ⟨s2,real2,lists2,called2,ok2,late2,turns2⟩ := ih ok1 (later s1 ran)
  refine ⟨s2,real2,lists2,?_,ok2,late2.trans late1,turns2.trans turns1⟩
  rw [run,ran,bind_some,called2]

/-! ### A turn of the wheel -/
lemma first_eq :
 s.first = some (initial (.head ⟨0,s.turns % 256⟩) (lists ⟨0,s.turns % 256⟩)) := by
 rw [State.first,steady.placed.root]
 exact linked_next (steady.placed.rings.ring ⟨0,s.turns % 256⟩)
lemma first_inside {t : Thread ⊕ Other} (first : s.first = some (.elem t)) :
 t ∈ lists ⟨0,s.turns % 256⟩ := by
 have eq := steady.first_eq.symm.trans first
 cases wait : lists ⟨0,s.turns % 256⟩ with
 | nil => simp [wait,initial] at eq
 | cons u rest =>
  obtain rfl : u = t := by simpa [wait,initial] using eq
  exact mem_cons_self
lemma fire_steady (threads : ∀ p, kept (.inl p))
 (reached : s.turns ≤ s.elapsed) {t : Thread ⊕ Other} (inside : t ∈ lists ⟨0,s.turns % 256⟩) :
 ∃ wheel lists', fire s t = some (s.firing t wheel) ∧ real t = some s.turns ∧
  (lists' ⟨0,s.turns % 256⟩).length < (lists ⟨0,s.turns % 256⟩).length ∧
  Steady kept (s.firing t wheel) (update real t none) c lists' := by
 obtain ⟨d,isDue,holds⟩ := steady.placed.held inside
 rw [holds.hand rfl] at isDue
 simp only at isDue
 have active : s.wheel.active t = true := by
  rw [steady.placed.active t]
  simp only [isDue,isSome_some]
 obtain ⟨links,v,gone,mem,put⟩ := steady.placed.unlink active
 obtain rfl := steady.placed.rings.apart inside mem
 refine ⟨{s.wheel with links := links.clear t, active := update s.wheel.active t false},_,?_,isDue,
  by rw [update_self]; exact erase_shorter inside,
  {steady.off t (put.clear (t := t) (by simp)) rfl rfl with in_turn := ?_, woken := ?_}⟩
 · simp [fire,State.firing,TimerWheel.detach_timer,active,gone]
 · intro f listed keeps
   rcases mem_append.mp listed with old | last
   · exact steady.in_turn f old keeps
   obtain rfl := mem_singleton.mp last
   exact (steady.same t keeps).trans isDue
 intro f listed sleep asleep
 rcases mem_append.mp listed with old | last
 · exact steady.woken f old sleep asleep
 obtain rfl := mem_singleton.mp last
 cases t with
 | inl p =>
  have due := (steady.same (.inl p) (threads p)).trans isDue
  exact (steady.sleeping p sleep _ asleep due).trans reached
 | inr o => cases asleep
lemma advance (reached : s.turns ≤ s.elapsed)
 (past : ∀ n, 1 ≤ n -> n ≤ 4 -> s.turns < c n * 2 ^ shift n) (nil : lists ⟨0,s.turns % 256⟩ = []) :
 Steady kept s.advance real c lists ∧ Ready c (s.turns + 1) := by
 refine ⟨{steady with placed := steady.placed.next_turn past nil, low := ?_, high := ?_},?_⟩
 · simp only [State.advance]
   omega
 · have high := steady.high
   simp only [State.advance]
   omega
 intro n low high
 have le := (steady.placed.counters n low high).2
 simp only at le
 omega
lemma cascades_steady (ready : Ready c s.turns) :
 ∃ s' c' ls', Returns (fun fuel => cascades fuel s) s' ∧ s'.elapsed = s.elapsed ∧ s'.turns = s.turns ∧
  s'.due = s.due ∧ s'.sleep_timer = s.sleep_timer ∧ s'.fired = s.fired ∧ Steady kept s' real c' ls' ∧
  ∀ n, 1 ≤ n -> n ≤ 4 -> s.turns < c' n * 2 ^ shift n := by
 obtain ⟨wheel,c',ls',ret,ticks,placed,past⟩ := steady.placed.cascades ready
 refine ⟨{s with wheel := wheel},c',ls',ret.map _,rfl,rfl,rfl,rfl,rfl,
  {steady with placed := placed, ticks := ticks.trans steady.ticks, idle := ?_},past⟩
 intro p freed
 have unset := steady.placed.not_due (steady.idle p freed)
 simp only at unset
 simp only [placed.active,unset,isSome_none]

end Steady

/-! ### Whole runs -/
variable [DecidableEq Thread] [DecidableEq Other] (handler : Other -> State Thread Other -> List (Op Thread Other))
inductive Fires : State Thread Other -> Other -> State Thread Other -> Prop where
 | first {s s' : State Thread Other} {o : Other} : s.first = some (.elem (.inr o)) -> fire s (.inr o) = some s' ->
   Fires s o s'
 | next {s s1 s2 s' : State Thread Other} {t : Thread ⊕ Other} {o : Other} : s.first = some (.elem t) ->
   fire s t = some s1 -> handle handler s1 t = some s2 -> Fires s2 o s' -> Fires s o s'
inductive Handles : State Thread Other -> Other -> State Thread Other -> Prop where
 | now {s s1 s' : State Thread Other} {o : Other} (fuel : Nat) : s.behind -> cascades fuel s = some s1 ->
   Fires handler s1 o s' -> Handles s o s'
 | next {s s1 s' : State Thread Other} {o : Other} (fuel : Nat) : s.behind -> turn handler fuel s = some s1 ->
   Handles s1 o s' -> Handles s o s'

section
variable (kept : Thread ⊕ Other -> Prop)
def Permits (s : State Thread Other) : Action Thread Other -> Prop
 | .call op => Allowed kept s op
 | .clock_handler _ => ∀ o s', Handles handler s.tick o s' -> Meets call (Allowed kept) s' (handler o s')
def Rests (s : State Thread Other) : Prop :=
 ∃ real c lists, Steady kept s real c lists ∧ Ready c s.turns ∧ s.elapsed ≤ s.turns
lemma rests_boot : Rests kept (boot : State Thread Other) :=
 ⟨_,_,_,steady_boot kept,fun n _ _ => by simp,le_rfl⟩
end

variable {handler}

namespace Steady
lemma handle_goes (steady : Steady kept s real c lists) {t : Thread ⊕ Other}
 (allowed : ∀ o, t = .inr o -> Meets call (Allowed kept) s (handler o s)) : Goes kept s c (handle handler s t) := by
 cases t with
 | inl p => exact (steady.free_goes p).1
 | inr o => exact steady.calls_go _ (allowed o rfl)

section
variable (threads : ∀ p, kept (.inl p))
include threads
lemma round (steady : Steady kept s real c lists) (reached : s.turns ≤ s.elapsed)
 {t : Thread ⊕ Other} (first : s.first = some (.elem t))
 (allowed : ∀ o s', Fires handler s o s' -> Meets call (Allowed kept) s' (handler o s')) :
 ∃ s1 s2 real2 lists2, fire s t = some s1 ∧
  handle handler s1 t = some s2 ∧ Steady kept s2 real2 c lists2 ∧ s2.elapsed = s.elapsed ∧ s2.turns = s.turns := by
 obtain ⟨wheel,lists1,fired,_,_,ok1⟩ := steady.fire_steady threads reached (steady.first_inside first)
 obtain ⟨s2,real2,lists2,took,ok2,late2,turns2⟩ := ok1.handle_goes (t := t) (by
  rintro o rfl
  exact allowed o _ (.first first fired))
 exact ⟨_,s2,real2,lists2,fired,took,ok2,late2,turns2⟩
lemma fire_loop_steady (fuel : Nat) :
 ∀ {s s' : State Thread Other} {real : Thread ⊕ Other -> Option Nat} {lists : Slot -> List (Thread ⊕ Other)},
 Steady kept s real c lists -> s.turns ≤ s.elapsed ->
 (∀ o s', Fires handler s o s' -> Meets call (Allowed kept) s' (handler o s')) ->
 fire_loop handler fuel s = some s' ->
 ∃ real' ls', Steady kept s' real' c ls' ∧ s'.elapsed = s.elapsed ∧ s'.turns = s.turns ∧
  ls' ⟨0,s.turns % 256⟩ = [] := by
 induction fuel with
 | zero =>
  intro s s' real lists _ _ _ done
  cases done
 | succ fuel ih =>
  intro s s' real lists steady reached allowed done
  have first := steady.first_eq
  rw [fire_loop] at done
  cases wait : lists ⟨0,s.turns % 256⟩ with
  | nil =>
   rw [wait] at first
   have root := steady.placed.root
   simp only at root
   simp only [first,initial,root,if_true] at done
   obtain rfl := some.inj done
   exact ⟨real,lists,steady,rfl,rfl,wait⟩
  | cons t rest =>
   rw [wait] at first
   obtain ⟨_,_,_,_,fired,took,ok2,late2,turns2⟩ := steady.round threads reached first allowed
   simp only [first,initial,fired,bind_some,took] at done
   obtain ⟨real',ls',ok',elapsed,turns,empty⟩ := ih ok2 (by rw [late2,turns2]; exact reached)
    (fun o s' fires => allowed o s' (.next first fired took fires)) done
   rw [turns2] at empty turns
   exact ⟨real',ls',ok',elapsed.trans late2,turns,empty⟩
lemma turn_steady (steady : Steady kept s real c lists) (ready : Ready c s.turns)
 (behind : s.behind) (allowed : ∀ o s', Handles handler s o s' -> Meets call (Allowed kept) s' (handler o s'))
 {fuel : Nat} {s' : State Thread Other} (done : turn handler fuel s = some s') :
 ∃ real' c' ls', Steady kept s' real' c' ls' ∧ Ready c' s'.turns ∧ s'.elapsed = s.elapsed := by
 obtain ⟨s1,c1,lists1,ret,late1,turns1,_,_,_,ok1,past⟩ := steady.cascades_steady ready
 obtain ⟨s1',cascaded,done⟩ := bind_eq_some_iff.mp done
 obtain rfl := ret.value cascaded
 obtain ⟨s2,loop,rfl⟩ := map_eq_some_iff.mp done
 have reached : s1'.turns ≤ s1'.elapsed := by
  rw [turns1,late1]
  exact steady.behind_iff.mp behind
 obtain ⟨real2,lists2,ok2,late2,turns2,nil⟩ := fire_loop_steady threads fuel ok1 reached
  (fun o s' fires => allowed o s' (.now fuel behind cascaded fires)) loop
 obtain ⟨final,rdy'⟩ := ok2.advance (by rw [turns2,late2]; exact reached)
  (by rw [turns2,turns1]; exact past) (by rw [turns2]; exact nil)
 exact ⟨real2,c1,lists2,final,rdy',late2.trans late1⟩
lemma run_timer_list_rests (fuel : Nat) :
 ∀ {s s' : State Thread Other} {real : Thread ⊕ Other -> Option Nat} {c : Nat -> Nat}
  {lists : Slot -> List (Thread ⊕ Other)}, Steady kept s real c lists -> Ready c s.turns ->
 (∀ o s', Handles handler s o s' -> Meets call (Allowed kept) s' (handler o s')) ->
 run_timer_list handler fuel s = some s' -> Rests kept s' := by
 induction fuel with
 | zero =>
  intro s s' real c lists _ _ _ done
  cases done
 | succ fuel ih =>
  intro s s' real c lists steady ready allowed done
  rw [run_timer_list] at done
  split at done
  · rename_i behind
    obtain ⟨s1,turned,done⟩ := bind_eq_some_iff.mp done
    obtain ⟨real1,c1,lists1,ok1,ready1,_⟩ := steady.turn_steady threads ready behind allowed turned
    exact ih ok1 ready1 (fun o s' handles => allowed o s' (.next fuel behind turned handles)) done
  rename_i caughtUp
  obtain rfl := some.inj done
  rw [steady.behind_iff] at caughtUp
  exact ⟨real,c,lists,steady,ready,by omega⟩
lemma fires_steady {s s' : State Thread Other} {o : Other}
 (fires : Fires handler s o s') :
 ∀ {real : Thread ⊕ Other -> Option Nat} {lists : Slot -> List (Thread ⊕ Other)}, Steady kept s real c lists ->
 s.turns ≤ s.elapsed -> (∀ o s', Fires handler s o s' -> Meets call (Allowed kept) s' (handler o s')) ->
 ∃ real' lists', Steady kept s' real' c lists' := by
 induction fires with
 | first first fired =>
  intro real lists steady reached _
  obtain ⟨wheel,lists1,fired',_,_,ok1⟩ := steady.fire_steady threads reached (steady.first_inside first)
  obtain rfl := some.inj (fired.symm.trans fired')
  exact ⟨_,lists1,ok1⟩
 | @next s s1 s2 s' t o first fired took later ih =>
  intro real lists steady reached allowed
  obtain ⟨_,_,_,_,fired',handled',ok2,late2,turns2⟩ := steady.round threads reached first allowed
  obtain rfl := some.inj (fired.symm.trans fired')
  obtain rfl := some.inj (took.symm.trans handled')
  exact ih ok2 (by rw [late2,turns2]; exact reached)
   (fun o s' fires => allowed o s' (.next first fired took fires))
lemma handles_steady {s s' : State Thread Other} {o : Other}
 (handles : Handles handler s o s') :
 ∀ {real : Thread ⊕ Other -> Option Nat} {c : Nat -> Nat} {lists : Slot -> List (Thread ⊕ Other)},
 Steady kept s real c lists -> Ready c s.turns ->
 (∀ o s', Handles handler s o s' -> Meets call (Allowed kept) s' (handler o s')) ->
 ∃ real' c' lists', Steady kept s' real' c' lists' := by
 induction handles with
 | now fuel behind cascaded fires =>
  intro real c lists steady ready allowed
  obtain ⟨s1,c1,lists1,ret,late1,turns1,_,_,_,ok1,_⟩ := steady.cascades_steady ready
  obtain rfl := ret.value cascaded
  obtain ⟨real',lists',ok'⟩ := fires_steady threads fires ok1
   (by rw [turns1,late1]; exact steady.behind_iff.mp behind)
   (fun o s' fires => allowed o s' (.now fuel behind cascaded fires))
  exact ⟨real',c1,lists',ok'⟩
 | next fuel behind turned later ih =>
  intro real c lists steady ready allowed
  obtain ⟨real1,c1,lists1,ok1,ready1,_⟩ := steady.turn_steady threads ready behind allowed turned
  exact ih ok1 ready1 fun o s' handles => allowed o s' (.next fuel behind turned handles)

end
lemma tick (steady : Steady kept s real c lists) (caughtUp : s.elapsed ≤ s.turns) :
 Steady kept s.tick real c lists := by
 have low := steady.low
 refine {steady with placed := {steady.placed with}, ticks := ?_, low := ?_, high := ?_}
 · simp only [State.tick,steady.ticks]
   omega
 · simp only [State.tick]
   omega
 simp only [State.tick]
 omega

end Steady
lemma step_rests (threads : ∀ p, kept (.inl p)) {a : Action Thread Other} {s' : State Thread Other}
 (rests : Rests kept s) (permits : Permits handler kept s a) (ran : step handler s a = some s') :
 Rests kept s' := by
 obtain ⟨real,c,lists,steady,ready,caughtUp⟩ := rests
 cases a with
 | call op =>
  obtain ⟨s1,real1,lists1,called,ok1,elapsed,turns⟩ := steady.call_goes op permits
  obtain rfl := some.inj (called.symm.trans ran)
  exact ⟨real1,c,lists1,ok1,by rw [turns]; exact ready,by rw [elapsed,turns]; exact caughtUp⟩
 | clock_handler fuel => exact Steady.run_timer_list_rests threads fuel (steady.tick caughtUp) ready permits ran

variable (handler) in
def Within (P : State Thread Other -> Prop) (s : State Thread Other) : Action Thread Other -> Prop
 | .call _ => True
 | .clock_handler _ => ∀ o s', Handles handler s.tick o s' -> P s'
lemma along_steady (kept : Thread ⊕ Other -> Prop) (threads : ∀ p, kept (.inl p)) {P : State Thread Other -> Prop}
 (holds : ∀ {s real c lists}, Steady kept s real c lists -> P s) (actions : List (Action Thread Other))
 (permits : Meets (step handler) (Permits handler kept) boot actions) :
 Along (step handler) P (Within handler P) boot actions := by
 refine along_of_invariant (I := Rests kept) (C := Permits handler kept) ?_ ?_
  (fun _ _ _ rests permits ran => step_rests threads rests permits ran) actions boot (rests_boot kept) permits
 · rintro s ⟨real,c,lists,steady,_⟩
   exact holds steady
 rintro s a ⟨real,c,lists,steady,ready,caughtUp⟩ permits
 cases a with
 | call op => trivial
 | clock_handler fuel =>
  intro o s' handles
  obtain ⟨_,_,_,ok'⟩ := Steady.handles_steady threads handles (steady.tick caughtUp) ready permits
  exact holds ok'

/-! ### The wheel left alone -/
def silent (_ : Other) (_ : State Thread Other) : List (Op Thread Other) := []
def Settles (t : Thread ⊕ Other) (r : Nat) (d : Option Nat) (sleep : Option Sleep) (s : State Thread Other)
  (real : Thread ⊕ Other -> Option Nat) : Prop :=
 real t = some r ∧ s.due t = d ∧ s.sleepOf t = sleep ∨
 ∃ f ∈ s.fired, f.timer = t ∧ f.due = d ∧ f.turn = r ∧ f.sleep = sleep ∧ f.tick ≤ s.elapsed

variable {t : Thread ⊕ Other} {r : Nat} {d : Option Nat} {sleep : Option Sleep}

namespace Steady

section
variable (threads : ∀ p, kept (.inl p))
include threads
lemma free_idle (steady : Steady kept s real c lists) {p : Thread}
 (idle : s.wheel.active (.inl p) = false) : ∃ s', free_sleep_timer s p = some s' ∧ Steady kept s' real c lists ∧
  s'.elapsed = s.elapsed ∧ s'.turns = s.turns ∧ s'.due = s.due ∧ s'.fired = s.fired ∧
  ∀ q, q ≠ p -> s'.sleep_timer q = s.sleep_timer q := by
 rw [free_sleep_timer]
 split
 · exact ⟨s,rfl,steady,rfl,rfl,rfl,rfl,fun _ _ => rfl⟩
 have unset : s.due (.inl p) = none := (steady.same _ (threads p)).trans (steady.placed.not_due idle)
 have eq : update s.due (.inl p) none = s.due := by rw [<- unset,update_eq_self]
 refine ⟨{ s with wheel := {s.wheel with links := s.wheel.links.clear (.inl p)}
                  sleep_timer := update s.sleep_timer p none },?_,
  (steady.clear idle).forget idle,rfl,rfl,rfl,rfl,?_⟩
 · simp [remove_timer,detach_timer,TimerWheel.detach_timer,idle,eq]
 intro q ne
 simp [ne]
lemma fire_loop_silent (k : Nat) :
 ∀ {s : State Thread Other} {real : Thread ⊕ Other -> Option Nat} {lists : Slot -> List (Thread ⊕ Other)},
 Steady kept s real c lists -> s.turns ≤ s.elapsed -> Settles t r d sleep s real ->
 (lists ⟨0,s.turns % 256⟩).length = k ->
 ∃ s' real' ls', Returns (fun fuel => fire_loop silent fuel s) s' ∧ Steady kept s' real' c ls' ∧
  s'.elapsed = s.elapsed ∧ s'.turns = s.turns ∧ ls' ⟨0,s.turns % 256⟩ = [] ∧ Settles t r d sleep s' real' := by
 induction k using Nat.strong_induction_on with
 | _ k ih =>
  intro s real lists steady reached settles length
  have first := steady.first_eq
  cases wait : lists ⟨0,s.turns % 256⟩ with
  | nil =>
   rw [wait] at first
   have root := steady.placed.root
   simp only at root
   refine ⟨s,real,lists,?_,steady,rfl,rfl,wait,settles⟩
   refine .turn (g := fun _ => some s) rfl (fun fuel => ?_) (returns_const s)
   simp [fire_loop,first,initial,root]
  | cons u rest =>
   rw [wait] at first
   have mem : u ∈ lists ⟨0,s.turns % 256⟩ := by simp [wait]
   obtain ⟨wheel,lists1,fired,onTime,less,ok1⟩ := steady.fire_steady threads reached mem
   obtain ⟨s2,took,ok2,late2,turns2,due2,fired2,others⟩ : ∃ s2, handle silent (s.firing u wheel) u = some s2 ∧
     Steady kept s2 (update real u none) c lists1 ∧ s2.elapsed = s.elapsed ∧ s2.turns = s.turns ∧
     s2.due = update s.due u none ∧ s2.fired = (s.firing u wheel).fired ∧
     ∀ t, t ≠ u -> s2.sleepOf t = s.sleepOf t := by
    cases u with
    | inl p =>
     obtain ⟨s2,freed,ok2,elapsed,turns,due,fired,others⟩ := ok1.free_idle threads (p := p) (by
      rw [ok1.placed.active]
      simp)
     refine ⟨s2,freed,ok2,elapsed,turns,due,fired,?_⟩
     intro t ne
     cases t with
     | inl q => exact others q (fun eq => ne (by rw [eq]))
     | inr o => rfl
    | inr o =>
     refine ⟨_,rfl,ok1,rfl,rfl,rfl,rfl,?_⟩
     intro t _
     cases t <;> rfl
   have settles2 : Settles t r d sleep s2 (update real u none) := by
    rcases settles with ⟨waits,due,asleep⟩ | ⟨f,listed,timer,due,turn,asleep,tick⟩
    · by_cases eq : t = u
      · subst eq
        have turn := some.inj (waits.symm.trans onTime)
        refine .inr ⟨⟨t,s.due t,s.turns,s.elapsed,s.sleepOf t⟩,by simp [fired2,State.firing],rfl,due,turn.symm,asleep,?_⟩
        exact late2.ge
      refine .inl ⟨by rwa [update_of_ne eq],?_,(others t eq).trans asleep⟩
      rwa [due2,update_of_ne eq]
    · exact .inr ⟨f,by simp [fired2,State.firing,listed],timer,due,turn,asleep,by rwa [late2]⟩
   have fewer : (lists1 ⟨0,s2.turns % 256⟩).length < k := by rwa [turns2,<- length]
   obtain ⟨s',real',ls',ret,ok',elapsed,turns,empty,settles'⟩ :=
    ih _ fewer ok2 (by rw [late2,turns2]; exact reached) settles2 rfl
   rw [turns2] at empty
   refine ⟨s',real',ls',.turn rfl (fun fuel => ?_) ret,ok',elapsed.trans late2,
    turns.trans turns2,empty,settles'⟩
   simp only [fire_loop,first,initial,fired,bind_some,took]
lemma turn_silent (steady : Steady kept s real c lists) (ready : Ready c s.turns)
 (reached : s.turns ≤ s.elapsed) (settles : Settles t r d sleep s real) :
 ∃ s' real' c' ls', Returns (fun fuel => turn silent fuel s) s' ∧ Steady kept s' real' c' ls' ∧
  Ready c' s'.turns ∧ s'.elapsed = s.elapsed ∧ s'.turns = s.turns + 1 ∧ Settles t r d sleep s' real' := by
 obtain ⟨s1,c1,lists1,returns1,late1,turns1,due1,asleep1,fired1,ok1,past⟩ := steady.cascades_steady ready
 have settles1 : Settles t r d sleep s1 real := by
  have asleep : s1.sleepOf t = s.sleepOf t := by
   cases t with
   | inl p => exact congrFun asleep1 p
   | inr o => rfl
  rwa [Settles,due1,asleep,fired1,late1]
 have reached1 : s1.turns ≤ s1.elapsed := by rwa [turns1,late1]
 obtain ⟨s2,real2,lists2,returns2,ok2,late2,turns2,nil,settles2⟩ :=
  fire_loop_silent threads _ ok1 reached1 settles1 rfl
 obtain ⟨final,rdy'⟩ := ok2.advance (by rwa [turns2,late2]) (by rw [turns2,turns1]; exact past)
  (by rwa [turns2])
 refine ⟨s2.advance,real2,c1,lists2,returns1.bind (returns2.map _),final,rdy',late2.trans late1,?_,settles2⟩
 rw [State.advance,turns2,turns1]
lemma run_silent (k : Nat) :
 ∀ {s : State Thread Other} {real : Thread ⊕ Other -> Option Nat} {c : Nat -> Nat}
  {lists : Slot -> List (Thread ⊕ Other)}, Steady kept s real c lists -> Ready c s.turns ->
 Settles t r d sleep s real -> s.elapsed + 1 - s.turns = k ->
 ∃ s' real' c' ls', Returns (fun fuel => run_timer_list silent fuel s) s' ∧ Steady kept s' real' c' ls' ∧
  Ready c' s'.turns ∧ s'.elapsed = s.elapsed ∧ s'.turns = s.elapsed + 1 ∧ Settles t r d sleep s' real' := by
 induction k with
 | zero =>
  intro s real c lists steady ready settles distance
  have low := steady.low
  have stop : ¬ s.behind := by
   rw [steady.behind_iff]
   omega
  refine ⟨s,real,c,lists,?_,steady,ready,rfl,by omega,settles⟩
  refine .turn (g := fun _ => some s) rfl (fun fuel => ?_) (returns_const s)
  rw [run_timer_list,if_neg stop]
 | succ k ih =>
  intro s real c lists steady ready settles distance
  have reached : s.turns ≤ s.elapsed := by omega
  obtain ⟨s1,real1,c1,lists1,returns1,ok1,ready1,late1,turns1,settles1⟩ :=
   steady.turn_silent threads ready reached settles
  obtain ⟨s',real',c',ls',ret,ok',rdy',elapsed,turns,settles'⟩ :=
   ih ok1 ready1 settles1 (by rw [late1,turns1]; omega)
  refine ⟨s',real',c',ls',.turn rfl (fun fuel => ?_)
   (returns1.bind (g := fun s fuel => run_timer_list silent fuel s) ret),ok',rdy',
   elapsed.trans late1,by rw [turns,late1],settles'⟩
  rw [run_timer_list,if_pos (steady.behind_iff.mpr reached)]
end

end Steady
lemma left_alone (threads : ∀ p, kept (.inl p)) (n : Nat) :
 ∀ {s : State Thread Other} {real : Thread ⊕ Other -> Option Nat} {c : Nat -> Nat}
  {lists : Slot -> List (Thread ⊕ Other)}, Steady kept s real c lists -> Ready c s.turns -> s.elapsed ≤ s.turns ->
 Settles t r d sleep s real -> r ≤ s.elapsed + n -> 0 < n ->
 ∃ acts s', run (step silent) s acts = some s' ∧
  ∃ f ∈ s'.fired, f.timer = t ∧ f.due = d ∧ f.turn = r ∧ f.sleep = sleep ∧ f.tick ≤ s.elapsed + n := by
 induction n with
 | zero =>
  intro s real c lists _ _ _ _ _ pos
  omega
 | succ n ih =>
  intro s real c lists steady ready caughtUp settles late _
  have settles' : Settles t r d sleep s.tick real := by
   rcases settles with waits | ⟨f,inl,timer,due,turn,asleep,tick⟩
   · exact .inl waits
   · exact .inr ⟨f,inl,timer,due,turn,asleep,tick.trans (Nat.le_succ _)⟩
  obtain ⟨s1,real1,c1,lists1,ret,ok1,ready1,elapsed,turns,settles1⟩ :=
   Steady.run_silent threads _ (steady.tick caughtUp) ready settles' rfl
  obtain ⟨fuel,done⟩ := ret.some_fuel
  have ticked : s.tick.elapsed = s.elapsed + 1 := rfl
  rw [ticked] at elapsed turns
  by_cases more : 0 < n
  · obtain ⟨acts,s',reached,f,inl,timer,due,turn,asleep,tick⟩ :=
     ih ok1 ready1 (by omega) settles1 (by omega) more
    refine ⟨.clock_handler fuel :: acts,s',?_,f,inl,timer,due,turn,asleep,by omega⟩
    rw [run,step,clock_handler,done,bind_some,reached]
  refine ⟨[.clock_handler fuel],s1,by rw [run,step,clock_handler,done]; rfl,?_⟩
  rcases settles1 with ⟨waits,_,_⟩ | ⟨f,inl,timer,due,turn,asleep,tick⟩
  · -- a timer that still waits is due in a turn to come
    obtain ⟨v,mem⟩ := (ok1.placed.found (t := t) (by simp [waits])).resolve_right (by simp)
    obtain ⟨r',waits',holds⟩ := ok1.placed.held mem
    obtain rfl := some.inj (waits.symm.trans waits')
    have low := holds.low ok1.placed.counters
    simp only at low
    omega
  · exact ⟨f,inl,timer,due,turn,asleep,by omega⟩

end
end Netbas.TimerCalls
