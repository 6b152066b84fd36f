import Mathlib.Tactic

/-!
What a timer facility is for: an alarm that is set rings in the turn that its request asks for,
unless it is unset before. `Accepts` are the histories of such a clock.
-/
namespace Netbas.AlarmClock
open List
open Function
universe u v
inductive Event (Alarm : Type u) (Request : Type v) where
 | set (x : Alarm) (request : Request)
 | unset (x : Alarm)
 | ring (x : Alarm)
 | turn
 deriving DecidableEq
structure Clock (Alarm : Type u) where
 now : Nat
 due : Alarm -> Option Nat

section
variable {Alarm : Type u} {Request : Type v} [DecidableEq Alarm]
def Event.isTurn : Event Alarm Request -> Bool
 | .turn => true
 | _ => false
def turns (log : List (Event Alarm Request)) : Nat := log.countP Event.isTurn
inductive Step (delay : Request -> Nat -> Nat) : Clock Alarm -> Event Alarm Request -> Clock Alarm -> Prop where
 | set {c : Clock Alarm} {x : Alarm} (request : Request) : c.due x = none ->
   Step delay c (.set x request) {c with due := update c.due x (some (c.now + delay request c.now))}
 | unset {c : Clock Alarm} {x : Alarm} : c.due x ≠ none ->
   Step delay c (.unset x) {c with due := update c.due x none}
 | ring {c : Clock Alarm} {x : Alarm} : c.due x = some c.now ->
   Step delay c (.ring x) {c with due := update c.due x none}
 | turn {c : Clock Alarm} : (∀ x, c.due x ≠ some c.now) -> Step delay c .turn {c with now := c.now + 1}
inductive Accepts (delay : Request -> Nat -> Nat) : List (Event Alarm Request) -> Clock Alarm -> Prop where
 | start : Accepts delay [] {now := 0, due := fun _ => none}
 | step {log : List (Event Alarm Request)} {c c' : Clock Alarm} {e : Event Alarm Request} :
   Accepts delay log c -> Step delay c e c' -> Accepts delay (log ++ [e]) c'

variable {delay : Request -> Nat -> Nat} {log : List (Event Alarm Request)} {c : Clock Alarm}

omit [DecidableEq Alarm] in
@[simp] lemma turns_append (fst second : List (Event Alarm Request)) :
  turns (fst ++ second) = turns fst + turns second := countP_append ..
lemma Accepts.now (accepts : Accepts delay log c) : c.now = turns log := by
 induction accepts with
 | start => rfl
 | step earlier step ih =>
  rw [turns_append,<- ih]
  cases step <;> rfl
variable {x : Alarm}
lemma Step.other {c' : Clock Alarm} {e : Event Alarm Request} (step : Step delay c e c')
 (unset : e ≠ .unset x) (set : ∀ r, e ≠ .set x r) (ring : e ≠ .ring x) : c'.due x = c.due x := by
 cases step with
 | @set w r free => exact update_of_ne (fun (eq : x = w) => set r (eq ▸ rfl)) ..
 | @unset w _ => exact update_of_ne (fun (eq : x = w) => unset (eq ▸ rfl)) ..
 | @ring w _ => exact update_of_ne (fun (eq : x = w) => ring (eq ▸ rfl)) ..
 | turn _ => rfl
def Outcome (delay : Request -> Nat -> Nat) (c : Clock Alarm) (x : Alarm) (request : Request) (before : Nat)
  (after : List (Event Alarm Request)) : Prop :=
 Event.ring x ∉ after ∧ c.due x = some (before + delay request before) ∧ turns after ≤ delay request before ∨
 ∃ y z, after = y ++ .ring x :: z ∧ turns y = delay request before ∧ Event.ring x ∉ y ∧ Event.ring x ∉ z ∧
  c.due x = none
variable {before after : List (Event Alarm Request)}
section
variable (accepts : Accepts delay log c)
include accepts
lemma Accepts.outcome
 {request : Request} (split : log = before ++ .set x request :: after)
 (same : ∀ e ∈ after, e ≠ .unset x ∧ ∀ r, e ≠ .set x r) : Outcome delay c x request (turns before) after := by
 induction accepts generalizing after with
 | start => simp at split
 | @step log c c' e earlier step ih =>
  rcases eq_nil_or_concat after with rfl | ⟨rest,e',rfl⟩
  · -- the alarm has just been set
    obtain ⟨rfl,eq⟩ := append_inj' split rfl
    obtain rfl := singleton_injective eq
    have now := earlier.now
    cases step with
    | set request free => exact .inl ⟨by simp,by simp [now],by simp [turns]⟩
  have less : log ++ [e] = (before ++ .set x request :: rest) ++ [e'] := by simpa using split
  obtain ⟨rfl,eq⟩ := append_inj' less rfl
  obtain rfl := singleton_injective eq
  have inside : ∀ e ∈ rest, e ≠ .unset x ∧ ∀ r, e ≠ .set x r :=
   fun e mem => same e (by simp [mem])
  obtain ⟨notUnset,notSet⟩ := same e (by simp)
  have now := earlier.now
  have length : turns (before ++ .set x request :: rest) = turns before + turns rest := by
   rw [turns_append,<- singleton_append,turns_append]
   simp [turns,Event.isTurn]
  rcases ih rfl inside with ⟨silent,due,early⟩ | ⟨y,z,rfl,turn,fst,snd,gone⟩
  · by_cases rung : e = .ring x
    · subst rung
      cases step with
      | ring rings =>
       refine .inr ⟨rest,[],by simp,?_,silent,by simp,by simp⟩
       have reached := Option.some.inj (due.symm.trans rings)
       omega
    refine .inl ⟨by simp [silent,Ne.symm rung],(step.other notUnset notSet rung).trans due,?_⟩
    rw [concat_eq_append,turns_append]
    cases step with
    | turn quiet =>
     -- the turn cannot end while the alarm is due in it
     have waits : turns before + delay request (turns before) ≠ turns before + turns rest := by
      intro eq
      exact quiet x (by rw [due,now,length,eq])
     have once : turns [(.turn : Event Alarm Request)] = 1 := rfl
     omega
    | set _ _ => exact early
    | unset _ => exact early
    | ring _ => exact early
  have unrung : e ≠ .ring x := by
   rintro rfl
   cases step with
   | ring rings => simp [gone] at rings
  exact .inr ⟨y,z ++ [e],by simp,turn,fst,by simp [snd,unrung.symm],
   (step.other notUnset notSet unrung).trans gone⟩
lemma rings_when_due
 {request : Request} (split : log = before ++ .set x request :: after)
 (same : ∀ e ∈ after, e ≠ .unset x ∧ ∀ r, e ≠ .set x r) :
 (∀ y z, after = y ++ .ring x :: z ->
  turns y = delay request (turns before) ∧ Event.ring x ∉ y ∧ Event.ring x ∉ z) ∧
 (delay request (turns before) < turns after -> Event.ring x ∈ after) := by
 rcases accepts.outcome split same with ⟨silent,_,early⟩ | ⟨y,z,rfl,turn,fst,snd,_⟩
 · exact ⟨fun y z eq => absurd (by simp [eq]) silent,fun late => by omega⟩
 refine ⟨?_,fun _ => by simp⟩
 intro y' z' eq
 obtain ⟨rfl,_,rfl⟩ := (append_cons_inj_of_notMem fst snd).mp eq
 exact ⟨turn,fst,snd⟩
lemma Accepts.was_set (isDue : c.due x ≠ none) :
 ∃ before request after, log = before ++ .set x request :: after ∧
  (∀ e ∈ after, e ≠ .unset x ∧ ∀ r, e ≠ .set x r) ∧ Event.ring x ∉ after := by
 induction accepts with
 | start => simp at isDue
 | @step log c c' e earlier step ih =>
  by_cases now : ∃ r, e = .set x r
  · obtain ⟨r,rfl⟩ := now
    exact ⟨log,r,[],rfl,by simp,by simp⟩
  have notSet : ∀ r, e ≠ .set x r := fun r eq => now ⟨r,eq⟩
  have notUnset : e ≠ .unset x := by
   rintro rfl
   cases step
   simp at isDue
  have notRung : e ≠ .ring x := by
   rintro rfl
   cases step
   simp at isDue
  rw [step.other notUnset notSet notRung] at isDue
  obtain ⟨before,request,after,rfl,same,silent⟩ := ih isDue
  refine ⟨before,request,after ++ [e],by simp,?_,by simp [silent,notRung.symm]⟩
  intro e' mem
  rcases mem_append.mp mem with old | last
  · exact same e' old
  rw [mem_singleton.mp last]
  exact ⟨notUnset,notSet⟩
lemma rings_only_set {y z : List (Event Alarm Request)}
 (split : log = y ++ .ring x :: z) : ∃ before request after, y = before ++ .set x request :: after ∧
  (∀ e ∈ after, e ≠ .unset x ∧ ∀ r, e ≠ .set x r) ∧ Event.ring x ∉ after := by
 induction accepts generalizing z with
 | start => simp at split
 | @step log c c' e earlier step ih =>
  rcases eq_nil_or_concat z with rfl | ⟨rest,e',rfl⟩
  · obtain ⟨rfl,eq⟩ := append_inj' split rfl
    obtain rfl := singleton_injective eq
    cases step with
    | ring due => exact earlier.was_set (by simp [due])
  have less : log ++ [e] = (y ++ .ring x :: rest) ++ [e'] := by simpa using split
  exact ih (append_inj' less rfl).1
end

end
end Netbas.AlarmClock
