import Mathlib.Tactic

/-!
Runs of a partial step function. `Along` states what holds in every state of a run and of every
action it takes, and `along_iff` reduces such a statement to one step.
-/
namespace Netbas.Runs
universe u v

section
variable {State : Type u} {Action : Type v} (step : State -> Action -> Option State)
/-- The state a run ends in, when every action can be taken. -/
def run : State -> List Action -> Option State
 | s, [] => some s
 | s, a :: rest => (step s a).bind (fun s' => run s' rest)

/-- `P` holds in every state that the run visits and `T` of every action that
  it attempts. -/
def Along (P : State -> Prop) (T : State -> Action -> Prop) : State -> List Action -> Prop
 | s, [] => P s
 | s, a :: rest => P s ∧ T s a ∧ ∀ s', step s a = some s' -> Along P T s' rest

/-- Every action that the run attempts meets the condition. -/
def Meets (C : State -> Action -> Prop) (s : State) (acts : List Action) : Prop :=
 Along step (fun _ => True) C s acts

variable {step}
lemma run_append (first second : List Action) (s : State) :
 run step s (first ++ second) = (run step s first).bind (fun s' => run step s' second) := by
 induction first generalizing s with
 | nil => rfl
 | cons a rest ih =>
  simp only [List.cons_append,run,ih]
  cases step s a <;> rfl

variable {C : State -> Action -> Prop} {s : State}
lemma meets_cons {a : Action} {rest : List Action} :
 Meets step C s (a :: rest) ↔ C s a ∧ ∀ s' ∈ step s a, Meets step C s' rest := by
 simp [Meets,Along]
variable {first second : List Action}
lemma meets_append {s' : State}
 (meets : Meets step C s (first ++ second)) (reached : run step s first = some s') : Meets step C s' second := by
 induction first generalizing s with
 | nil =>
  cases reached
  exact meets
 | cons a rest ih =>
  obtain ⟨middle,ran,reached⟩ := Option.bind_eq_some_iff.mp reached
  exact ih ((meets_cons.mp meets).2 middle ran) reached
lemma meets_left
 (meets : Meets step C s (first ++ second)) : Meets step C s first := by
 induction first generalizing s with
 | nil => trivial
 | cons a rest ih =>
  obtain ⟨here,later⟩ := meets_cons.mp meets
  exact meets_cons.mpr ⟨here,fun s' ran => ih (later s' ran)⟩
instance decidableMeets {C : State -> Action -> Prop} [∀ s a, Decidable (C s a)] :
  (s : State) -> (acts : List Action) -> Decidable (Meets step C s acts)
 | _, [] => .isTrue trivial
 | s, a :: rest =>
  match taken : step s a with
  | none => decidable_of_iff (C s a) (by simp [meets_cons,taken])
  | some s' =>
   have : Decidable (Meets step C s' rest) := decidableMeets s' rest
   decidable_of_iff (C s a ∧ Meets step C s' rest) (by simp [meets_cons,taken])
lemma meets_mono {D : State -> Action -> Prop} : ∀ (actions : List Action) (s : State),
 (∀ a ∈ actions, ∀ s, C s a -> D s a) -> Meets step C s actions -> Meets step D s actions := by
 intro actions
 induction actions with
 | nil => intro s _ _; trivial
 | cons a rest ih =>
  intro s weaker meets
  obtain ⟨here,later⟩ := meets_cons.mp meets
  exact meets_cons.mpr ⟨weaker a (by simp) s here,
   fun s' ran => ih s' (fun b mem => weaker b (by simp [mem])) (later s' ran)⟩

variable {P : State -> Prop} {T : State -> Action -> Prop}
lemma along_congr {T' : State -> Action -> Prop} (eq : ∀ s a, T s a ↔ T' s a) :
 ∀ (actions : List Action) (s : State), Along step P T s actions ↔ Along step P T' s actions := by
 intro actions
 induction actions with
 | nil => intro s; exact Iff.rfl
 | cons a rest ih =>
  intro s
  simp only [Along,eq,ih]

variable {I : State -> Prop}
lemma along_of_invariant (holds : ∀ s, I s -> P s)
 (allowed : ∀ s a, I s -> C s a -> T s a)
 (kept : ∀ s a s', I s -> C s a -> step s a = some s' -> I s') :
 ∀ (actions : List Action) (s : State), I s -> Meets step C s actions -> Along step P T s actions := by
 intro actions
 induction actions with
 | nil => intro s inv _; exact holds s inv
 | cons a rest ih =>
  rintro s inv ⟨_,meets,later⟩
  exact ⟨holds s inv,allowed s a inv meets,fun s' ran => ih s' (kept s a s' inv meets ran) (later s' ran)⟩
lemma meets_always (always : ∀ s a, C s a) :
 ∀ (actions : List Action) (s : State), Meets step C s actions := by
 intro actions
 induction actions with
 | nil => intro s; trivial
 | cons a rest ih =>
  intro s
  exact meets_cons.mpr ⟨always s a,fun s' _ => ih s'⟩
section
variable (holds : ∀ s, I s -> P s)
include holds
lemma along_invariant
 (allowed : ∀ s a, I s -> T s a) (kept : ∀ s a s', I s -> step s a = some s' -> I s')
 (actions : List Action) (s : State) (inv : I s) : Along step P T s actions :=
 along_of_invariant (C := fun _ _ => True) holds (fun s a inv _ => allowed s a inv)
  (fun s a s' inv _ => kept s a s' inv) actions s inv (meets_always (fun _ _ => trivial) actions s)
lemma along_iff_within {D : State -> Action -> Prop}
 (allowed : ∀ s a, I s -> D s a -> C s a -> T s a)
 (kept : ∀ s a s', I s -> D s a -> C s a -> step s a = some s' -> I s')
 (broken : ∀ s a, I s -> D s a -> ¬ C s a -> T s a -> ∃ s', step s a = some s' ∧ ¬ P s') :
 ∀ (acts : List Action) (s : State), I s -> Meets step D s acts ->
  (Along step P T s acts ↔ Meets step C s acts) := by
 intro acts
 induction acts with
 | nil =>
  intro s inv _
  exact iff_of_true (holds s inv) trivial
 | cons a rest ih =>
  intro s inv within
  obtain ⟨here,after⟩ := meets_cons.mp within
  rw [meets_cons]
  constructor
  · rintro ⟨_,transition,later⟩
    have meets : C s a := by
     by_contra out
     obtain ⟨s',ran,bad⟩ := broken s a inv here out transition
     have next := later s' ran
     cases rest with
     | nil => exact bad next
     | cons b rest => exact bad next.1
    refine ⟨meets,fun s' ran => ?_⟩
    exact (ih s' (kept s a s' inv here meets ran) (after s' ran)).mp (later s' ran)
  rintro ⟨meets,later⟩
  refine ⟨holds s inv,allowed s a inv here meets,fun s' ran => ?_⟩
  exact (ih s' (kept s a s' inv here meets ran) (after s' ran)).mpr (later s' ran)
lemma along_iff
 (allowed : ∀ s a, I s -> C s a -> T s a)
 (kept : ∀ s a s', I s -> C s a -> step s a = some s' -> I s')
 (broken : ∀ s a, I s -> ¬ C s a -> T s a -> ∃ s', step s a = some s' ∧ ¬ P s')
 (actions : List Action) (s : State) (inv : I s) : Along step P T s actions ↔ Meets step C s actions :=
 along_iff_within (D := fun _ _ => True) holds (fun s a inv _ => allowed s a inv) (fun s a s' inv _ => kept s a s' inv)
  (fun s a inv _ => broken s a inv) actions s inv (meets_always (fun _ _ => trivial) actions s)
end
lemma along_run : ∀ {acts : List Action} {s s' : State},
 Along step P T s acts -> run step s acts = some s' -> P s' := by
 intro acts
 induction acts with
 | nil =>
  intro s s' along ends
  cases ends
  exact along
 | cons a rest ih =>
  rintro s s' ⟨_,_,later⟩ ends
  obtain ⟨middle,ran,ends⟩ := Option.bind_eq_some_iff.mp ends
  exact ih (later middle ran) ends
lemma run_invariant
 (kept : ∀ s a s', I s -> C s a -> step s a = some s' -> I s') :
 ∀ (acts : List Action) (s s' : State), I s -> Meets step C s acts -> run step s acts = some s' ->
  I s' := by
 intro acts
 induction acts with
 | nil =>
  intro s s' inv _ ends
  cases ends
  exact inv
 | cons a rest ih =>
  rintro s s' inv ⟨_,meets,later⟩ ends
  obtain ⟨middle,ran,ends⟩ := Option.bind_eq_some_iff.mp ends
  exact ih middle s' (kept s a middle inv meets ran) (later middle ran) ends

end
end Netbas.Runs
