import Mathlib.Tactic

/-!
Loops with fuel. `Returns f a`: the computation returns `a` on every amount of fuel but for finitely
many, on which it runs out.
-/
namespace Netbas.Fuel
universe u v

section
variable {α : Type u} {β : Type v} {f : Nat -> Option α} {a : α}
def Returns (f : Nat -> Option α) (a : α) : Prop :=
 ∃ bound, ∀ fuel, f fuel = some a ∨ f fuel = none ∧ fuel ≤ bound
lemma returns_const (a : α) : Returns (fun _ => some a) a := ⟨0,fun _ => .inl rfl⟩

namespace Returns

section
variable (returns : Returns f a)
include returns
lemma value {fuel : Nat} {b : α} (done : f fuel = some b) : b = a := by
 obtain ⟨le,cases⟩ := returns
 rcases cases fuel with eq | ⟨out,_⟩
 · exact Option.some.inj (done.symm.trans eq)
 · simp [out] at done
lemma enough : ∃ le, ∀ fuel, le < fuel -> f fuel = some a := by
 obtain ⟨le,cases⟩ := returns
 refine ⟨le,fun fuel more => ?_⟩
 rcases cases fuel with eq | ⟨_,lt⟩
 · exact eq
 · omega
lemma some_fuel : ∃ fuel, f fuel = some a := by
 obtain ⟨le,done⟩ := returns.enough
 exact ⟨le + 1,done _ (Nat.lt_succ_self le)⟩
lemma unique {b : α} (ne : Returns f b) : b = a := by
 obtain ⟨fuel,done⟩ := ne.some_fuel
 exact returns.value done
end
lemma bind {g : α -> Nat -> Option β} {b : β} (fst : Returns f a) (snd : Returns (g a) b) :
 Returns (fun fuel => (f fuel).bind (fun x => g x fuel)) b := by
 obtain ⟨le,cases⟩ := fst
 obtain ⟨bound',cases'⟩ := snd
 refine ⟨max le bound',fun fuel => ?_⟩
 rcases cases fuel with eq | ⟨out,lt⟩
 · simp only [eq,Option.bind_some]
   rcases cases' fuel with same' | ⟨out',less'⟩
   · exact .inl same'
   · exact .inr ⟨out',by omega⟩
 simp only [out,Option.bind_none]
 exact .inr ⟨trivial,by omega⟩
lemma map (g : α -> β) (returns : Returns f a) : Returns (fun fuel => (f fuel).map g) (g a) := by
 obtain ⟨le,cases⟩ := returns
 refine ⟨le,fun fuel => ?_⟩
 rcases cases fuel with eq | ⟨out,lt⟩
 · exact .inl (by simp [eq])
 · exact .inr ⟨by simp [out],lt⟩
lemma turn {g : Nat -> Option α} (nil : f 0 = none) (next : ∀ fuel, f (fuel + 1) = g fuel)
 (returns : Returns g a) : Returns f a := by
 obtain ⟨le,cases⟩ := returns
 refine ⟨le + 1,fun fuel => ?_⟩
 cases fuel with
 | zero => exact .inr ⟨nil,by omega⟩
 | succ fuel =>
  rw [next]
  rcases cases fuel with eq | ⟨out,lt⟩
  · exact .inl eq
  · exact .inr ⟨out,by omega⟩

end Returns
end
end Netbas.Fuel
