import Mathlib.Data.List.Perm.Basic
import Mathlib.Tactic

/-!
Lists in which at most one element has a given key.
-/
namespace Netbas.Keyed
open List
universe u

variable {α : Type u} {R : α -> α -> Prop} {p : α -> Bool} {l l' : List α} {x : α}
lemma eq_of_pairwise [Std.Symm R] (ne : l.Pairwise R) (clash : ∀ x y, p x = true -> p y = true -> ¬ R x y)
 {y : α} (mem : x ∈ l) (inside' : y ∈ l) (holds : p x = true) (holds' : p y = true) : x = y := by
 by_contra different
 exact clash x y holds holds' (ne.forall mem inside' different)
lemma find?_of_pairwise [Std.Symm R] (ne : l.Pairwise R) (clash : ∀ x y, p x = true -> p y = true -> ¬ R x y)
 (mem : x ∈ l) (holds : p x = true) : l.find? p = some x := by
 obtain ⟨y,hit⟩ := Option.isSome_iff_exists.mp (find?_isSome.mpr ⟨x,mem,holds⟩)
 have eq := eq_of_pairwise ne clash (mem_of_find?_eq_some hit) mem (find?_some hit) holds
 rw [hit,eq]
lemma find?_perm [Std.Symm R] (ne : l.Pairwise R) (clash : ∀ x y, p x = true -> p y = true -> ¬ R x y)
 (perm : l.Perm l') : l'.find? p = l.find? p := by
 cases hit : l.find? p with
 | some x =>
  exact find?_of_pairwise (perm.pairwise ne (fun h => symm h)) clash (perm.mem_iff.mp (mem_of_find?_eq_some hit))
   (find?_some hit)
 | none =>
  rw [find?_eq_none] at hit ⊢
  intro y mem
  exact hit y (perm.mem_iff.mpr mem)

end Netbas.Keyed
