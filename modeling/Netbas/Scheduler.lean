import Netbas.Threads

/-!
The choice that `schedule` makes: the ready thread with the most ticks left, after a recharge when
none has any. One counter guards all passes, and the 102nd thread that is looked at is a panic
(`selects_iff`).
-/
namespace Netbas.Scheduler
open List
open Threads (ThreadState)
universe u
structure Tcb where
 state : ThreadState
 ticks : UInt32
 prio : Int32
 deriving DecidableEq
structure System (Thread : Type u) where
 tcb : Thread -> Tcb
 thread_run_list : List Thread
 once : thread_run_list.Nodup
def CPU_THREAD_RROI : UInt32 := 100
def MAX_PRIO : Int32 := 50
def MAX (a b : UInt32) : UInt32 := if b < a then a else b
def thread_new : Tcb := {state := .TS_IOPENDING, ticks := CPU_THREAD_RROI, prio := 100}
def thread_prio_nice (b : Tcb) (newprio : Int32) : Tcb := if MAX_PRIO < newprio then b else {b with prio := newprio}
def thread_ready (b : Tcb) : Tcb := {b with ticks := MAX 4 b.ticks, state := .TS_READY}
def clock_handler (b : Tcb) : Tcb := if 0 < b.ticks then {b with ticks := b.ticks - 1} else b
structure Search (Thread : Type u) where
 i : Nat
 run_tims : UInt32
 pick_thread : Option Thread
inductive Outcome (Thread : Type u) where
 | picked (pick_thread : Option Thread) (tcb : Thread -> Tcb)
 | panic

section
variable {Thread : Type u}
def look (tcb : Thread -> Tcb) (a : Search Thread) (t : Thread) : Search Thread :=
 if (tcb t).state ≠ .TS_READY then {a with i := a.i + 1}
 else
  { i := a.i + 1
    run_tims := MAX (tcb t).ticks a.run_tims
    pick_thread := if a.run_tims < (tcb t).ticks then some t else a.pick_thread }
def search (tcb : Thread -> Tcb) : List Thread -> Search Thread -> Option (Search Thread)
 | [], a => some a
 | t :: rest, a => if 100 < a.i then none else search tcb rest (look tcb a t)
def recharge (b : Tcb) : Tcb := if b.state ≠ .TS_DEAD then {b with ticks := b.ticks / 2 + b.prio.toUInt32} else b

variable [DecidableEq Thread]
def recharge_all (list : List Thread) (tcb : Thread -> Tcb) : Thread -> Tcb :=
 list.foldl (fun tcb t => Function.update tcb t (recharge (tcb t))) tcb
def schedule_loop (list : List Thread) : Nat -> (Thread -> Tcb) -> Search Thread -> Option (Outcome Thread)
 | 0, _, _ => none
 | fuel + 1, tcb, a =>
  if list.isEmpty then some (.picked a.pick_thread tcb)
  else
   match search tcb list a with
   | none => some .panic
   | some a =>
    if a.run_tims ≠ 0 then some (.picked a.pick_thread tcb)
    else schedule_loop list fuel (recharge_all list tcb) a

/-- The guard stops the loop in its 102nd pass at the latest. -/
def schedule (s : System Thread) : Option (Outcome Thread) :=
 schedule_loop s.thread_run_list 102 s.tcb {i := 0, run_tims := 0, pick_thread := none}

end

section
variable {Thread : Type u}
/-- A right choice: a ready thread of the list with the most ticks, or the idle
  task when no thread of the list is ready. -/
def Best (list : List Thread) (tcb : Thread -> Tcb) : Option Thread -> Prop
 | some t => t ∈ list ∧ (tcb t).state = .TS_READY ∧
   ∀ u ∈ list, (tcb u).state = .TS_READY -> (tcb u).ticks ≤ (tcb t).ticks
 | none => ∀ t ∈ list, (tcb t).state ≠ .TS_READY

/-- `schedule` comes back and has chosen rightly after some recharges. -/
def Selects [DecidableEq Thread] (s : System Thread) : Prop :=
 ∃ passes pick, let tcb := (recharge_all s.thread_run_list)^[passes] s.tcb
  schedule s = some (.picked pick tcb) ∧ Best s.thread_run_list tcb pick

/-- The list is empty, or no longer than the guard allows for the one or two
  passes that are needed. -/
def Manageable (s : System Thread) : Prop :=
 s.thread_run_list = [] ∨
 s.thread_run_list.length ≤ 101 ∧ (∃ t ∈ s.thread_run_list, (s.tcb t).state = .TS_READY ∧ (s.tcb t).ticks ≠ 0) ∨
 s.thread_run_list.length ≤ 50 ∧ (∃ t ∈ s.thread_run_list, (s.tcb t).state = .TS_READY ∧ (s.tcb t).prio ≠ 0)

variable {list rest : List Thread} {tcb : Thread -> Tcb} {a : Search Thread} {t : Thread}
@[simp] lemma look_i : (look tcb a t).i = a.i + 1 := by
 rw [look]
 split <;> rfl
lemma search_within (le : a.i + list.length ≤ 101) :
 search tcb list a = some (list.foldl (look tcb) a) := by
 induction list generalizing a with
 | nil => rfl
 | cons t rest ih =>
  rw [length_cons] at le
  rw [search,if_neg (by omega),foldl_cons]
  exact ih (by rw [look_i]; omega)
lemma search_panics (long : 101 < a.i + list.length) (some : list ≠ []) : search tcb list a = none := by
 induction list generalizing a with
 | nil => exact absurd rfl some
 | cons t rest ih =>
  rw [search]
  split
  · rfl
  rename_i guard
  rw [length_cons] at long
  refine ih (by rw [look_i]; omega) ?_
  rintro rfl
  simp only [length_nil] at long
  omega
structure Found (tcb : Thread -> Tcb) (seen : List Thread) (a : Search Thread) : Prop where
 most : ∀ u ∈ seen, (tcb u).state = .TS_READY -> (tcb u).ticks ≤ a.run_tims
 idle : a.pick_thread = none -> a.run_tims = 0
 pick : ∀ t, a.pick_thread = some t -> t ∈ seen ∧ (tcb t).state = .TS_READY ∧ (tcb t).ticks = a.run_tims ∧ a.run_tims ≠ 0
lemma MAX_cases (a b : UInt32) : b < a ∧ MAX a b = a ∨ a ≤ b ∧ MAX a b = b := by
 rw [MAX]
 split
 · rename_i lt
   exact .inl ⟨lt,rfl⟩
 rename_i more
 exact .inr ⟨by simpa using more,rfl⟩
lemma Found.look {seen : List Thread} (hit : Found tcb seen a) (t : Thread) :
 Found tcb (seen ++ [t]) (look tcb a t) := by
 rw [Scheduler.look]
 split
 · rename_i ne
   refine ⟨?_,hit.idle,?_⟩
   · intro u mem ready
     rcases mem_append.mp mem with old | last
     · exact hit.most u old ready
     rw [mem_singleton.mp last] at ready
     exact absurd ready ne
   intro u picked
   obtain ⟨mem,facts⟩ := hit.pick u picked
   exact ⟨by simp [mem],facts⟩
 rename_i ready
 have isReady : (tcb t).state = .TS_READY := by simpa using ready
 rcases MAX_cases (tcb t).ticks a.run_tims with ⟨more,most⟩ | ⟨lt,most⟩
 · simp only [more,most,if_true]
   refine ⟨?_,by simp,?_⟩
   · intro u mem isReady
     rcases mem_append.mp mem with old | last
     · exact UInt32.le_trans (hit.most u old isReady) (UInt32.le_of_lt more)
     rw [mem_singleton.mp last]
     exact UInt32.le_refl _
   intro u picked
   obtain rfl := Option.some.inj picked
   refine ⟨by simp,isReady,rfl,?_⟩
   intro zero
   simp only at zero
   rw [zero] at more
   exact absurd more (by simp)
 have notMore : ¬ a.run_tims < (tcb t).ticks := by simpa using lt
 simp only [notMore,most,if_false]
 refine ⟨?_,hit.idle,?_⟩
 · intro u mem isReady
   rcases mem_append.mp mem with old | last
   · exact hit.most u old isReady
   rw [mem_singleton.mp last]
   exact lt
 intro u picked
 obtain ⟨mem,facts⟩ := hit.pick u picked
 exact ⟨by simp [mem],facts⟩
lemma found_all (list : List Thread) : ∀ {seen : List Thread} {a : Search Thread}, Found tcb seen a ->
 Found tcb (seen ++ list) (list.foldl (look tcb) a) ∧ (list.foldl (look tcb) a).i = a.i + list.length := by
 induction list with
 | nil =>
  intro seen a hit
  simpa using hit
 | cons t rest ih =>
  intro seen a hit
  obtain ⟨final,count⟩ := ih (hit.look t)
  rw [append_assoc] at final
  refine ⟨final,?_⟩
  rw [foldl_cons,count,look_i,length_cons]
  omega
def fresh (i : Nat) : Search Thread := {i := i, run_tims := 0, pick_thread := none}
lemma found_fresh (tcb : Thread -> Tcb) (i : Nat) : Found tcb [] (fresh i) :=
 ⟨by simp,fun _ => rfl,by simp [fresh]⟩
lemma pass_cases (tcb : Thread -> Tcb) {i : Nat} (le : i + list.length ≤ 101) :
 (∃ a t, search tcb list (fresh i) = some a ∧ a.run_tims ≠ 0 ∧ a.pick_thread = some t ∧ (tcb t).ticks ≠ 0 ∧
  Best list tcb (some t)) ∨
 search tcb list (fresh i) = some (fresh (i + list.length)) ∧
  ∀ u ∈ list, (tcb u).state = .TS_READY -> (tcb u).ticks = 0 := by
 obtain ⟨hit,count⟩ := found_all list (found_fresh tcb i)
 rw [search_within (a := fresh i) le]
 generalize list.foldl (look tcb) (fresh i) = a at hit count
 rw [nil_append] at hit
 cases picked : a.pick_thread with
 | some t =>
  obtain ⟨inside,ready,ticks,pos⟩ := hit.pick t picked
  refine .inl ⟨a,t,rfl,pos,picked,by rwa [ticks],inside,ready,?_⟩
  intro u mem isReady
  rw [ticks]
  exact hit.most u mem isReady
 | none =>
  have zero := hit.idle picked
  refine .inr ⟨?_,?_⟩
  · obtain ⟨i',run_tims,pick⟩ := a
    simp only at zero picked count
    rw [zero,picked,count]
    rfl
  intro u mem isReady
  have most := hit.most u mem isReady
  rw [zero] at most
  simpa using most
variable [DecidableEq Thread]
lemma recharge_all_at (once : list.Nodup) (tcb : Thread -> Tcb) (t : Thread) :
 recharge_all list tcb t = if t ∈ list then recharge (tcb t) else tcb t := by
 induction list generalizing tcb with
 | nil => rfl
 | cons u rest ih =>
  obtain ⟨fresh,once⟩ := nodup_cons.mp once
  have later : recharge_all (u :: rest) tcb = recharge_all rest (Function.update tcb u (recharge (tcb u))) := rfl
  rw [later,ih once]
  by_cases eq : t = u
  · subst eq
    simp [fresh]
  · simp [eq]
lemma recharge_state (b : Tcb) : (recharge b).state = b.state := by
 rw [recharge]
 split <;> rfl
lemma recharge_prio (b : Tcb) : (recharge b).prio = b.prio := by
 rw [recharge]
 split <;> rfl
lemma recharge_ticks {b : Tcb} (ready : b.state = .TS_READY) (zero : b.ticks = 0) :
 (recharge b).ticks = b.prio.toUInt32 := by
 rw [recharge,if_pos (by rw [ready]; simp)]
 simp [zero]
lemma toUInt32_eq_zero (p : Int32) : p.toUInt32 = 0 ↔ p = 0 := by
 obtain ⟨word⟩ := p
 constructor
 · intro zero
   simp only at zero
   rw [zero]
   rfl
 · exact congrArg Int32.toUInt32
lemma first_pass (fuel : Nat) {i : Nat} (le : i + list.length ≤ 101) {u : Thread} (mem : u ∈ list)
 (ready : (tcb u).state = .TS_READY) (left : (tcb u).ticks ≠ 0) :
 ∃ t, schedule_loop list (fuel + 1) tcb (fresh i) = some (.picked (some t) tcb) ∧ Best list tcb (some t) := by
 have ne : list.isEmpty = false := by
  cases list with
  | nil => cases mem
  | cons _ _ => rfl
 rcases pass_cases tcb le with ⟨a,t,searched,pos,picked,_,best⟩ | ⟨_,empty⟩
 · refine ⟨t,?_,best⟩
   simp only [schedule_loop,ne,searched,pos,picked,Bool.false_eq_true,if_false,ne_eq,
    not_false_eq_true,if_true]
 · exact absurd (empty u mem ready) left
lemma next_pass (fuel : Nat) {i : Nat} (ne : list.isEmpty = false) (le : i + list.length ≤ 101)
 (nil : ∀ u ∈ list, (tcb u).state = .TS_READY -> (tcb u).ticks = 0) :
 schedule_loop list (fuel + 1) tcb (fresh i) =
  schedule_loop list fuel (recharge_all list tcb) (fresh (i + list.length)) := by
 rcases pass_cases tcb le with ⟨a,t,_,_,_,left,mem,ready,_⟩ | ⟨searched,_⟩
 · exact absurd (nil t mem ready) left
 rw [schedule_loop]
 simp only [ne,searched,Bool.false_eq_true,if_false]
 exact if_neg (by simp [fresh])
lemma long_pass {i fuel : Nat} (ne : list ≠ []) (long : 101 < i + list.length) :
 schedule_loop list (fuel + 1) tcb (fresh i) = some .panic := by
 have filled : list.isEmpty = false := by simpa using ne
 rw [schedule_loop]
 simp only [filled,search_panics (a := fresh i) long ne,Bool.false_eq_true,if_false]
lemma never_recharged (ne : list ≠ []) (once : list.Nodup) (fuel : Nat) :
 ∀ {i : Nat} {tcb : Thread -> Tcb},
 (∀ u ∈ list, (tcb u).state = .TS_READY -> (tcb u).ticks = 0 ∧ (tcb u).prio = 0) ->
 ∀ pick tcb', schedule_loop list fuel tcb (fresh i) ≠ some (.picked pick tcb') := by
 induction fuel with
 | zero =>
  intro i tcb _ pick tcb' done
  cases done
 | succ fuel ih =>
  intro i tcb stuck pick tcb'
  by_cases le : i + list.length ≤ 101
  · rw [next_pass _ (by simpa using ne) le (fun u mem ready => (stuck u mem ready).1)]
    refine ih ?_ pick tcb'
    intro u mem ready
    rw [recharge_all_at once,if_pos mem] at ready ⊢
    rw [recharge_state] at ready
    obtain ⟨ticks,prio⟩ := stuck u mem ready
    rw [recharge_ticks ready ticks,recharge_prio,prio]
    exact ⟨rfl,rfl⟩
  rw [long_pass ne (by omega)]
  simp
section
variable (s : System Thread)
theorem schedule_ends : (schedule s).isSome := by
 have passes : ∀ (fuel i : Nat) (tcb : Thread -> Tcb), 102 ≤ fuel + i -> 0 < fuel ->
   (schedule_loop s.thread_run_list fuel tcb (fresh i)).isSome := by
  intro fuel
  induction fuel with
  | zero =>
   intro i tcb _ pos
   omega
  | succ fuel ih =>
   intro i tcb enough _
   by_cases ne : s.thread_run_list = []
   · rw [schedule_loop,ne]
     rfl
   by_cases short : i + s.thread_run_list.length ≤ 101
   · by_cases left : ∃ u ∈ s.thread_run_list, (tcb u).state = .TS_READY ∧ (tcb u).ticks ≠ 0
     · obtain ⟨u,mem,ready,left⟩ := left
       obtain ⟨t,picked,_⟩ := first_pass fuel short mem ready left
       rw [picked]
       rfl
     have pos := length_pos_iff.mpr ne
     rw [next_pass _ (by simpa using ne) short (by
      intro u mem ready
      by_contra ticks
      exact left ⟨u,mem,ready,ticks⟩)]
     exact ih _ _ (by omega) (by omega)
   rw [long_pass ne (by omega)]
   rfl
 exact passes 102 0 s.tcb (by omega) (by omega)
lemma selects_of_ticks (le : s.thread_run_list.length ≤ 101) {u : Thread}
 (mem : u ∈ s.thread_run_list) (ready : (s.tcb u).state = .TS_READY) (left : (s.tcb u).ticks ≠ 0) : Selects s := by
 obtain ⟨t,picked,best⟩ := first_pass 101 (i := 0) (by omega) mem ready left
 exact ⟨0,some t,picked,best⟩
lemma selects_of_prio (le : s.thread_run_list.length ≤ 50) {u : Thread}
 (mem : u ∈ s.thread_run_list) (ready : (s.tcb u).state = .TS_READY) (prio : (s.tcb u).prio ≠ 0)
 (nil : ∀ v ∈ s.thread_run_list, (s.tcb v).state = .TS_READY -> (s.tcb v).ticks = 0) : Selects s := by
 have ne : s.thread_run_list.isEmpty = false := by
  simpa using ne_nil_of_mem mem
 have again := next_pass 101 (i := 0) ne (by omega) nil
 have charged : recharge_all s.thread_run_list s.tcb u = recharge (s.tcb u) := by
  rw [recharge_all_at s.once,if_pos mem]
 have stillReady : (recharge_all s.thread_run_list s.tcb u).state = .TS_READY := by
  rw [charged,recharge_state,ready]
 have left : (recharge_all s.thread_run_list s.tcb u).ticks ≠ 0 := by
  rw [charged,recharge_ticks ready (nil u mem ready)]
  exact fun zero => prio ((toUInt32_eq_zero _).mp zero)
 obtain ⟨t,picked,best⟩ := first_pass 100 (i := 0 + s.thread_run_list.length) (by omega) mem stillReady left
 exact ⟨1,some t,again.trans picked,best⟩

/-- `schedule` makes the right choice exactly when the run list is manageable. -/
theorem selects_iff : Selects s ↔ Manageable s := by
 constructor
 · rintro ⟨passes,pick,picked,_⟩
   by_contra out
   rw [Manageable,not_or,not_or] at out
   obtain ⟨ne,noTicks,noPrio⟩ := out
   change schedule_loop s.thread_run_list 102 s.tcb (fresh 0) = _ at picked
   by_cases short : s.thread_run_list.length ≤ 101
   · have empty : ∀ u ∈ s.thread_run_list, (s.tcb u).state = .TS_READY -> (s.tcb u).ticks = 0 := by
      intro u inside ready
      by_contra left
      exact noTicks ⟨short,u,inside,ready,left⟩
     by_cases half : s.thread_run_list.length ≤ 50
     · have stuck : ∀ u ∈ s.thread_run_list, (s.tcb u).state = .TS_READY ->
         (s.tcb u).ticks = 0 ∧ (s.tcb u).prio = 0 := by
        intro u inside ready
        refine ⟨empty u inside ready,?_⟩
        by_contra prio
        exact noPrio ⟨half,u,inside,ready,prio⟩
       exact never_recharged ne s.once 102 stuck _ _ picked
     rw [next_pass _ (by simpa using ne) (by omega) empty,long_pass ne (by omega)] at picked
     cases picked
   rw [long_pass ne (by omega)] at picked
   cases picked
 rintro (empty | ⟨short,u,inside,ready,left⟩ | ⟨short,u,inside,ready,prio⟩)
 · refine ⟨0,none,?_,?_⟩
   · rw [schedule,schedule_loop,empty]
     rfl
   intro t inside
   rw [empty] at inside
   cases inside
 · exact selects_of_ticks s short inside ready left
 by_cases left : ∃ v ∈ s.thread_run_list, (s.tcb v).state = .TS_READY ∧ (s.tcb v).ticks ≠ 0
 · obtain ⟨v,mem,isReady,left⟩ := left
   exact selects_of_ticks s (by omega) mem isReady left
 refine selects_of_prio s short inside ready prio ?_
 intro v mem isReady
 by_contra ticks
 exact left ⟨v,mem,isReady,ticks⟩
end
theorem nice_zero_panics :
  let b := clock_handler^[100] (thread_prio_nice (thread_ready thread_new) 0)
  let s : System Unit := {tcb := fun _ => b, thread_run_list := [()], once := by decide}
  b.state = .TS_READY ∧ ¬ Selects s := by
 have used : clock_handler^[100] (thread_prio_nice (thread_ready thread_new) 0) =
   {state := .TS_READY, ticks := 0, prio := 0} := by decide +kernel
 rw [used]
 refine ⟨rfl,?_⟩
 rintro ⟨passes,pick,picked,_⟩
 exact never_recharged (by simp) (by decide) 102 (fun _ _ _ => ⟨rfl,rfl⟩) _ _ picked

end
end Netbas.Scheduler
