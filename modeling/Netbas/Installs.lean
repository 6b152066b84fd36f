import Netbas.TimerCalls

/-!
Calls of `install_timer` for a timer that is active. The call is refused, but `expires` has been
overwritten by then; `installs_punctual` says when the timers fire all the same.
-/
namespace Netbas.Installs
open Runs Rings TimerWheel TimerCalls
universe u v

/-- Every handler has been called in the turn that the timer's `expires` asked for
  when it was attached, and no timer that is still attached has missed its turn. -/
structure Punctual {Thread : Type u} {Other : Type v} (s : State Thread Other) : Prop where
 fired : ∀ f ∈ s.fired, f.due = some f.turn
 noted : ∀ t, s.wheel.active t = (s.due t).isSome
 waits : ∀ t d, s.due t = some d -> s.turns ≤ d
lemma steady_punctual {Thread : Type u} {Other : Type v} {s : State Thread Other}
 {real : Thread ⊕ Other -> Option Nat} {c : Nat -> Nat} {lists : Slot -> List (Thread ⊕ Other)}
 (ok : Steady (fun _ => True) s real c lists) : Punctual s := by
 constructor
 · exact fun f listed => ok.in_turn f listed trivial
 · intro t
   rw [ok.same t trivial]
   exact ok.placed.active t
 intro t d due
 rw [ok.same t trivial] at due
 obtain ⟨v,mem⟩ := (ok.placed.found (t := t) (by simp [due])).resolve_right (by simp)
 obtain ⟨d',due',holds⟩ := ok.placed.held mem
 obtain rfl := Option.some.inj (due.symm.trans due')
 exact holds.low ok.placed.counters

section
variable {Thread : Type u} {Other : Type v} [DecidableEq Thread] [DecidableEq Other]
/-- In every run whose refused calls are harmless, those of the handlers included,
  every timer fires in the turn that it was attached for. -/
theorem installs_punctual (handler : Other -> State Thread Other -> List (Op Thread Other))
 (actions : List (Action Thread Other))
 (harmless : Meets (step handler) (Permits handler (fun _ => True)) boot actions) :
 Along (step handler) Punctual (Within handler Punctual) boot actions :=
 along_steady (fun _ => True) (fun _ => trivial) steady_punctual actions harmless

end
lemma silent_ticks (n : Nat) : ∀ s : State Unit Unit,
 Meets (step silent) (Permits silent (fun _ => True)) s (List.replicate n (.clock_handler 10)) := by
 induction n with
 | zero => intro s; trivial
 | succ n ih => exact fun s => meets_cons.mpr ⟨fun _ _ _ => trivial,fun s' _ => ih s'⟩
theorem installs_punctual_tv1 :
  let acts : List (TimerCalls.Action Unit Unit) :=
   .call (.install_timer () 5) :: .call (.install_timer () 900) :: List.replicate 6 (.clock_handler 10)
  Meets (step silent) (Permits silent (fun _ => True)) boot acts ∧
  Along (step silent) Punctual (Within silent Punctual) boot acts ∧
  (run (step silent) boot acts).map (fun s => s.fired.map (fun f => (f.due,f.turn))) = some [(some 5,5)] := by
 have harmless : Meets (step silent) (Permits silent (fun _ => True)) (boot : State Unit Unit)
   (.call (.install_timer () 5) :: .call (.install_timer () 900) :: List.replicate 6 (.clock_handler 10)) := by
  refine meets_cons.mpr ⟨fun active => (by cases active),fun s taken => ?_⟩
  refine meets_cons.mpr ⟨fun _ _ => .inr ?_,fun s' _ => silent_ticks 6 s'⟩
  have unlinked : Represents (Links.empty : Links Slot (Unit ⊕ Unit)) (fun _ => []) := represents_empty
  obtain ⟨links,inserted,rings⟩ := unlinked.insert_tail ⟨0,5⟩ (x := .inr ()) (by simp)
  have attached : (step silent boot (.call (.install_timer () 5))).map (fun s => s.wheel.links) =
    (Links.empty : Links Slot (Unit ⊕ Unit)).insertTail ⟨0,5⟩ (.inr ()) := by
   have chosen : timer_vec ((boot : State Unit Unit).set_expires (.inr ()) 5).wheel (.inr ()) = ⟨0,5⟩ := by decide
   change (TimerCalls.attach_timer ((boot : State Unit Unit).set_expires (.inr ()) 5) (.inr ())).map _ = _
   rw [TimerCalls.attach_timer,TimerWheel.attach_timer,chosen,Option.map_map,Option.map_map]
   exact Option.map_id'
  rw [taken,inserted] at attached
  refine ⟨_,5,(Option.some.inj attached).symm ▸ rings,by simp⟩
 exact ⟨harmless,installs_punctual silent _ harmless,by decide +kernel⟩
theorem refused_install_moves :
 ∃ s, run (step silent) (boot : State Unit Unit)
  (.call (.install_timer () 300) :: .call (.install_timer () 1000) :: List.replicate 301 (.clock_handler 10)) =
   some s ∧ s.due (.inr ()) = some 300 ∧ s.turns = 302 ∧ s.fired.length = 0 ∧ ¬ Punctual s := by
 have evaluated : (run (step silent) (boot : State Unit Unit)
   (.call (.install_timer () 300) :: .call (.install_timer () 1000) :: List.replicate 301 (.clock_handler 10))).map
    (fun s => (s.due (.inr ()),s.turns,s.fired.length)) = some (some 300,302,0) := by decide +kernel
 obtain ⟨s,reached,values⟩ := Option.map_eq_some_iff.mp evaluated
 simp only [Prod.mk.injEq] at values
 obtain ⟨due,turns,fired⟩ := values
 refine ⟨s,reached,due,turns,fired,fun punctual => ?_⟩
 have waits := punctual.waits _ _ due
 omega

end Netbas.Installs
