import Mathlib.Tactic

/-!
Copies in a memory, one after another: a place holds the word that its last copy read
(`copies_range_at`).
-/
namespace Netbas.Copies
open List
universe u v

section
variable {Place : Type u} {Word : Type v} [DecidableEq Place]

section
variable (m : Place -> Word)
def copies (l : List (Place × Place)) : Place -> Word :=
 l.foldl (fun m x => Function.update m x.1 (m x.2)) m
lemma copies_concat (l : List (Place × Place)) (x : Place × Place) :
 copies m (l ++ [x]) = Function.update (copies m l) x.1 (copies m l x.2) := by
 simp only [copies,foldl_append,foldl_cons,foldl_nil]
lemma copies_other {l : List (Place × Place)} {p : Place} (unwritten : ∀ x ∈ l, x.1 ≠ p) :
 copies m l p = m p := by
 induction l generalizing m with
 | nil => rfl
 | cons x rest ih =>
  have kept := ih (Function.update m x.1 (m x.2)) fun y mem => unwritten y (mem_cons_of_mem x mem)
  exact kept.trans (Function.update_of_ne (unwritten x mem_cons_self).symm _ _)
end

variable {dest src : Nat -> Place} {n k : Nat}
lemma copies_range_at (m : Place -> Word) (once : ∀ i < n, ∀ j < n, dest i = dest j -> i = j) (lt : k < n) :
 copies m ((List.range n).map (fun j => (dest j,src j))) (dest k) =
  copies m ((List.range k).map (fun j => (dest j,src j))) (src k) := by
 induction n with
 | zero => omega
 | succ n ih =>
  rw [range_succ,map_append,map_singleton,copies_concat]
  by_cases last : k = n
  · rw [last,Function.update_self]
  have ne : dest k ≠ dest n := fun eq => last (once k lt n n.lt_succ_self eq)
  rw [Function.update_of_ne ne]
  exact ih (fun i below j below' => once i (by omega) j (by omega)) (by omega)
lemma copies_range_apart (m : Place -> Word) (once : ∀ i < n, ∀ j < n, dest i = dest j -> i = j) (lt : k < n)
 (new : ∀ j < k, dest j ≠ src k) :
 copies m ((List.range n).map (fun j => (dest j,src j))) (dest k) = m (src k) := by
 rw [copies_range_at m once lt]
 apply copies_other
 intro x mem
 obtain ⟨j,below,rfl⟩ := mem_map.mp mem
 exact new j (mem_range.mp below)

end

end Netbas.Copies
