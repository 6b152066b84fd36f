import Netbas.HeadLists
import Netbas.Runs

/-!
The interrupt lines and their handlers. `free_irq_handler` disables the line whatever other handlers
it has; `lines_iff` says in which runs a line is enabled as long as it has handlers.
-/
namespace Netbas.IrqLines
open Runs HeadLists Fuel List Option
open Function (update update_of_ne)
universe u
def NR_IRQS : Int := 16
structure Handler where
 func : Nat
 arg : Nat
 interrupts : Nat
 name : String
structure State (Entry : Type u) where
 /-- `irq_act` and the `lists` fields of the entries -/
 links : Links Nat Entry
 /-- the memory that `kcalloc` has handed out -/
 entry : Entry -> Option Handler
 /-- the lines that the controller does not mask -/
 enabled : Nat -> Bool
 /-- the handlers put on a line and not freed since, the newest first -/
 registered : Nat -> List Entry

section
variable {Entry : Type u} [DecidableEq Entry]
/-- The index into `irq_act`; all functions panic when there is none. -/
def line (irq : Int) : Option Nat := if irq < 0 ∨ irq ≥ NR_IRQS then none else some irq.toNat

section
variable (s : State Entry)
def dis_irq (nr : Nat) : State Entry := {s with enabled := update s.enabled nr false}
def en_irq (nr : Nat) : State Entry := {s with enabled := update s.enabled nr true}

/-- The entry that is returned and the state; `memory` is what `kcalloc` returns. The
  zeros in the links of a new entry are overwritten at once, and the NUL of a name of 64
  characters is stored behind the array. -/
def put_irq_handler (irq : Int) (handler arg : Nat) (irq_name : String) (memory : Option Entry) :
  Option (Option Entry × State Entry) :=
 (line irq).bind (fun i =>
  match memory with
  | none => some (none,s)
  | some e =>
   if (s.entry e).isSome then none
   else
    let s := dis_irq s i
    let s := { s with
     entry := update s.entry e (some ⟨handler,arg,0,String.ofList (irq_name.toList.take 64)⟩)
     links := LIST_INSERT_HEAD s.links i e
     registered := update s.registered i (e :: s.registered i) }
    some (some e,en_irq s i))
def free_irq_handler (irq : Int) (entry : Option Entry) : Option (Int × State Entry) :=
 (line irq).bind (fun i =>
  match entry with
  | none => none
  | some e =>
   if (s.entry e).isNone then none
   else
    let s := dis_irq s i
    (LIST_REMOVE s.links e).map (fun links =>
     (0,{s with links := links, registered := fun r => (s.registered r).erase e})))
def intr_handler (irq : Int) (err : Entry -> Int) (fuel : Nat) : Option (State Entry) :=
 (line irq).bind (fun i =>
  if s.links.cell (.first i) = none then some s
  else
   (find s.links (fun item => err item == 0) fuel (.first i)).map (fun accepted =>
    match accepted with
    | none => s
    | some item =>
     let counted := (s.entry item).map (fun h => {h with interrupts := h.interrupts + 1})
     {s with entry := update s.entry item counted}))
inductive Action (Entry : Type u) where
 | put_irq_handler (irq : Int) (handler arg : Nat) (irq_name : String) (memory : Option Entry)
 | free_irq_handler (irq : Int) (entry : Option Entry)
 | intr_handler (irq : Int) (err : Entry -> Int) (fuel : Nat)
def step : Action Entry -> Option (State Entry)
 | .put_irq_handler irq handler arg irq_name memory => (put_irq_handler s irq handler arg irq_name memory).map Prod.snd
 | .free_irq_handler irq entry => (free_irq_handler s irq entry).map Prod.snd
 | .intr_handler irq err fuel => intr_handler s irq err fuel
end
def boot : State Entry :=
 {links := Links.empty, entry := fun _ => none, enabled := fun _ => false, registered := fun _ => []}

end

section
variable {Entry : Type u}
/-- A line is enabled exactly when it has handlers, and the links of every line spell
  out its handlers in order. -/
structure Right (s : State Entry) : Prop where
 enabled : ∀ i, s.enabled i = true ↔ s.registered i ≠ []
 reachable : ∀ i, Seg s.links (.first i) (s.registered i)

section
variable (s : State Entry)
def Served : Action Entry -> Prop
 | .intr_handler irq err _ => ∀ i ∈ line irq,
   Returns (fun fuel => find s.links (fun item => err item == 0) fuel (.first i))
    ((s.registered i).find? (fun item => err item == 0))
 | _ => True
def Registered : Action Entry -> Prop
 | .free_irq_handler _ (some e) => ∃ r, e ∈ s.registered r
 | _ => True

/-- A handler is freed from a line that has no other. When it is on a different line,
  this line has others. -/
def Sole : Action Entry -> Prop
 | .free_irq_handler irq (some e) => (∃ r, e ∈ s.registered r) ∧ ∀ i ∈ line irq, (∀ x ∈ s.registered i, x = e) ∧
   ∀ r ≠ i, e ∈ s.registered r -> ∃ x ∈ s.registered r, x ≠ e
 | _ => True
end
structure Kept (s : State Entry) : Prop where
 right : Right s
 rep : Represents s.links s.registered
 allocated : ∀ i, ∀ e ∈ s.registered i, (s.entry e).isSome
lemma kept_boot : Kept (boot : State Entry) :=
 ⟨⟨by simp [boot],fun _ => rfl⟩,represents_empty,by simp [boot]⟩

variable [DecidableEq Entry] {s s' : State Entry}

variable {irq : Int}
section
variable (kept : Kept s)
include kept
lemma put_kept {handler arg : Nat} {irq_name : String} {memory : Option Entry}
 {e : Option Entry} (ran : put_irq_handler s irq handler arg irq_name memory = some (e,s')) : Kept s' := by
 obtain ⟨i,_,ran⟩ := bind_eq_some_iff.mp ran
 cases memory with
 | none =>
  cases ran
  exact kept
 | some e =>
  obtain ⟨unused,ran⟩ := ite_none_left_eq_some.mp ran
  cases ran
  have new : ∀ r, e ∉ s.registered r := fun r mem => unused (kept.allocated r e mem)
  have rep := kept.rep.insert_head i new
  refine ⟨⟨?_,rep.seg⟩,rep,?_⟩
  · intro r
    by_cases eq : r = i
    · subst eq
      simp [en_irq,dis_irq]
    · simpa [en_irq,dis_irq,eq] using kept.right.enabled r
  intro r x mem
  by_cases own : x = e
  · simp [en_irq,dis_irq,own]
  have pre : x ∈ s.registered r := by
   by_cases eq : r = i
   · subst eq
     simpa [en_irq,dis_irq,own] using mem
   · simpa [en_irq,dis_irq,eq] using mem
  simpa [en_irq,dis_irq,own] using kept.allocated r x pre
lemma free_eq {i r : Nat} {e : Entry} (inside : line irq = some i)
  (mem : e ∈ s.registered r) : ∃ links, Represents links (fun r => (s.registered r).erase e) ∧
   free_irq_handler s irq (some e) = some (0,{ s with
    links := links
    enabled := update s.enabled i false
    registered := fun r => (s.registered r).erase e }) := by
 obtain ⟨links,gone,rep⟩ := kept.rep.remove mem
 have everywhere : update s.registered r ((s.registered r).erase e) = fun r => (s.registered r).erase e := by
  funext r'
  by_cases eq : r' = r
  · rw [eq,Function.update_self]
  rw [update_of_ne eq,erase_of_not_mem]
  exact fun ne => eq (kept.rep.apart ne mem)
 rw [everywhere] at rep
 refine ⟨links,rep,?_⟩
 have used : (s.entry e).isNone = false := by simpa using kept.allocated r e mem
 simp [free_irq_handler,inside,used,dis_irq,gone]
lemma free_kept {entry : Option Entry} (sole : Sole s (.free_irq_handler irq entry))
 (ran : step s (.free_irq_handler irq entry) = some s') : Kept s' := by
 obtain ⟨⟨value,_⟩,freed,rfl⟩ := map_eq_some_iff.mp ran
 obtain ⟨i,inside,result⟩ := bind_eq_some_iff.mp freed
 cases entry with
 | none => cases result
 | some e =>
  obtain ⟨⟨r,mem⟩,alone⟩ := sole
  obtain ⟨only,others⟩ := alone i inside
  obtain ⟨links,rep,result⟩ := free_eq kept inside mem
  obtain ⟨_,rfl⟩ := Prod.mk.inj (some.inj (freed.symm.trans result))
  refine ⟨⟨?_,rep.seg⟩,rep,fun r x left => kept.allocated r x (mem_of_mem_erase left)⟩
  intro r'
  by_cases eq : r' = i
  · subst eq
    have gone : (s.registered r').erase e = [] := by
     refine eq_nil_iff_forall_not_mem.mpr fun x left => ?_
     obtain ⟨ne,pre⟩ := (kept.rep.once r').mem_erase_iff.mp left
     exact ne (only x pre)
    simp [gone]
  simp only [update_of_ne eq]
  rw [kept.right.enabled r']
  by_cases here : e ∈ s.registered r'
  · obtain ⟨x,pre,ne⟩ := others r' eq here
    refine iff_of_true (ne_nil_of_mem pre) (ne_nil_of_mem (a := x) ?_)
    exact (mem_erase_of_ne ne).mpr pre
  · rw [erase_of_not_mem here]
lemma intr_kept {err : Entry -> Int} {fuel : Nat}
 (ran : intr_handler s irq err fuel = some s') : Kept s' := by
 obtain ⟨i,_,ran⟩ := bind_eq_some_iff.mp ran
 by_cases empty : s.links.cell (.first i) = none
 · rw [if_pos empty] at ran
   cases ran
   exact kept
 rw [if_neg empty] at ran
 obtain ⟨accepted,_,rfl⟩ := map_eq_some_iff.mp ran
 cases accepted with
 | none => exact kept
 | some item =>
  refine ⟨⟨kept.right.enabled,kept.right.reachable⟩,kept.rep,?_⟩
  intro r x mem
  have used := kept.allocated r x mem
  by_cases eq : x = item
  · subst eq
    simpa using used
  · simpa [eq] using used
lemma free_wrong {a : Action Entry} (registered : Registered s a) (shared : ¬ Sole s a) :
 ∃ s', step s a = some s' ∧ ¬ Right s' := by
 cases a with
 | free_irq_handler irq entry =>
  cases entry with
  | none => exact absurd trivial shared
  | some e =>
   obtain ⟨r,mem⟩ := registered
   obtain ⟨i,inside,wrong⟩ : ∃ i, line irq = some i ∧ ((∃ x ∈ s.registered i, x ≠ e) ∨
     r ≠ i ∧ ∀ x ∈ s.registered r, x = e) := by
    by_contra alone
    refine shared ⟨⟨r,mem⟩,fun i inside => ⟨?_,?_⟩⟩
    · intro x pre
      by_contra ne
      exact alone ⟨i,inside,.inl ⟨x,pre,ne⟩⟩
    intro r' apart here
    obtain rfl := kept.rep.apart here mem
    by_contra lone
    refine alone ⟨i,inside,.inr ⟨apart,fun x pre => ?_⟩⟩
    by_contra ne
    exact lone ⟨x,pre,ne⟩
   obtain ⟨links,_,result⟩ := free_eq kept inside mem
   refine ⟨_,by rw [step,result]; rfl,fun right => ?_⟩
   rcases wrong with ⟨x,pre,ne⟩ | ⟨apart,alone⟩
   · have on := (right.enabled i).mpr (ne_nil_of_mem ((mem_erase_of_ne ne).mpr pre))
     simp at on
   have enabled := (kept.right.enabled r).mpr (ne_nil_of_mem mem)
   have left := (right.enabled r).mp (by simpa [apart] using enabled)
   obtain ⟨x,still⟩ := exists_mem_of_ne_nil _ left
   obtain ⟨ne,pre⟩ := (kept.rep.once r).mem_erase_iff.mp still
   exact ne (alone x pre)
 | _ => exact absurd trivial shared
end

/-- The lines are right along a run that frees registered handlers exactly when no
  handler is freed from a shared line. -/
theorem lines_iff (actions : List (Action Entry)) :
 Meets step Registered (boot : State Entry) actions ∧ Along step Right Served boot actions ↔
  Meets step Sole boot actions := by
 have within : Meets step Registered (boot : State Entry) actions ->
   (Along step Right Served boot actions ↔ Meets step Sole boot actions) := by
  refine along_iff_within (I := Kept) (fun _ kept => kept.right) ?_ ?_ ?_ actions boot kept_boot
  · intro s a kept _ _
    cases a with
    | intr_handler irq err fuel => exact fun i _ => find_seg _ (kept.right.reachable i)
    | _ => trivial
  · intro s a s' kept _ sole taken
    cases a with
    | put_irq_handler irq handler arg irq_name memory =>
     obtain ⟨⟨e,_⟩,put,rfl⟩ := map_eq_some_iff.mp taken
     exact put_kept kept put
    | free_irq_handler irq entry => exact free_kept kept sole taken
    | intr_handler irq err fuel => exact intr_kept kept taken
  intro s a kept registered shared _
  exact free_wrong kept registered shared
 constructor
 · rintro ⟨registered,along⟩
   exact (within registered).mp along
 intro sole
 have registered : Meets step Registered (boot : State Entry) actions := by
  refine meets_mono actions boot ?_ sole
  intro a _ s sole
  cases a with
  | free_irq_handler irq entry =>
   cases entry with
   | none => trivial
   | some e => exact sole.1
  | _ => trivial
 exact ⟨registered,(within registered).mpr sole⟩

end
theorem shared_line_masked :
 ∃ s, run step (boot : State (Fin 2)) [.put_irq_handler 5 100 0 "first" (some 0),
   .put_irq_handler 5 200 0 "second" (some 1),.free_irq_handler 5 (some 1)] = some s ∧
  s.registered 5 = [0] ∧ s.enabled 5 = false ∧ ¬ Right s := by
 refine ⟨_,rfl,rfl,rfl,fun right => ?_⟩
 have on := (right.enabled 5).mpr (by simp [en_irq,dis_irq,boot])
 cases on

end Netbas.IrqLines
