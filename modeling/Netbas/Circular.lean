import Mathlib.Tactic

/-!
Circular buffers. `contents` is the list of the elements from `tail` on; storing behind them appends
an element (`contents_push`), and moving the tail on removes the first one (`contents_pop`).
-/
namespace Netbas.Circular
open List
universe u

section
variable {α : Type u} {n head tail size : Nat}
def contents (n : Nat) (data : Nat -> α) (tail size : Nat) : List α :=
 (range size).map (fun i => data ((tail + i) % n))
def distance (n head tail : Nat) : Nat := (head + (n - tail)) % n
variable (data : Nat -> α)
@[simp] lemma contents_length (tail size : Nat) : (contents n data tail size).length = size := by
 simp [contents]
lemma index_injective {i j : Nat} (low : i < n) (low' : j < n) (eq : (tail + i) % n = (tail + j) % n) : i = j := by
 have congruent : i ≡ j [MOD n] := Nat.ModEq.add_left_cancel' tail eq
 rw [Nat.ModEq,Nat.mod_eq_of_lt low,Nat.mod_eq_of_lt low'] at congruent
 exact congruent
lemma contents_push (tail : Nat) (x : α) (room : size < n) :
 contents n (Function.update data ((tail + size) % n) x) tail (size + 1) = contents n data tail size ++ [x] := by
 rw [contents,contents,range_succ,map_append]
 congr 1
 · apply map_congr_left
   intro i mem
   have lt := mem_range.mp mem
   have ne : (tail + i) % n ≠ (tail + size) % n := by
    intro eq
    have := index_injective (by omega) room eq
    omega
   rw [Function.update_of_ne ne]
 · simp
lemma contents_pop (tail size : Nat) :
 contents n data tail (size + 1) = data (tail % n) :: contents n data ((tail + 1) % n) size := by
 rw [contents,contents,range_succ_eq_map,map_cons,map_map]
 congr 1
 apply map_congr_left
 intro i _
 rw [Function.comp_apply,Nat.mod_add_mod]
 congr 2
 omega
lemma contents_update_iff [DecidableEq α] (tail size cell : Nat) (x : α) :
 contents n (Function.update data cell x) tail size = contents n data tail size ↔
  ∀ i < size, (tail + i) % n = cell -> data cell = x := by
 simp only [contents,map_inj_left,mem_range]
 refine forall₂_congr fun i _ => ?_
 by_cases eq : (tail + i) % n = cell
 · simp [eq,eq_comm]
 · simp [eq]
lemma distance_lt (pos : 0 < n) : distance n head tail < n := Nat.mod_lt _ pos
lemma distance_eq_zero (lt : head < n) (below' : tail < n) : distance n head tail = 0 ↔ head = tail := by
 rw [distance]
 rcases Nat.lt_or_ge head tail with less | more
 · rw [Nat.mod_eq_of_lt (by omega)]
   omega
 rw [show head + (n - tail) = (head - tail) + n by omega,Nat.add_mod_right,Nat.mod_eq_of_lt (by omega)]
 omega
lemma head_eq (lt : head < n) (below' : tail < n) : (tail + distance n head tail) % n = head := by
 rw [distance,Nat.add_mod_mod,show tail + (head + (n - tail)) = head + n by omega,Nat.add_mod_right,Nat.mod_eq_of_lt lt]
lemma distance_push (room : distance n head tail + 1 < n) : distance n ((head + 1) % n) tail = distance n head tail + 1 := by
 rw [distance,Nat.mod_add_mod,show head + 1 + (n - tail) = head + (n - tail) + 1 by omega,<- Nat.mod_add_mod,<- distance,
  Nat.mod_eq_of_lt room]
lemma next_eq_iff (lt : head < n) (below' : tail < n) : (head + 1) % n = tail ↔ distance n head tail + 1 = n := by
 have next : (head + 1) % n = (tail + (distance n head tail + 1)) % n := by
  calc (head + 1) % n = ((tail + distance n head tail) % n + 1) % n := by rw [head_eq lt below']
   _ = (tail + (distance n head tail + 1)) % n := by rw [Nat.mod_add_mod,Nat.add_assoc]
 have less : distance n head tail < n := distance_lt (by omega)
 constructor
 · intro meets
   by_contra room
   have zero : distance n head tail + 1 = 0 := by
    apply index_injective (n := n) (by omega) (by omega)
    rw [<- next,meets,Nat.add_zero,Nat.mod_eq_of_lt below']
   omega
 intro full
 rw [next,full,Nat.add_mod_right,Nat.mod_eq_of_lt below']
lemma distance_pop (lt : head < n) (below' : tail < n) (some : head ≠ tail) :
 distance n head ((tail + 1) % n) + 1 = distance n head tail := by
 rcases Nat.lt_or_ge (tail + 1) n with mem | last
 · rw [Nat.mod_eq_of_lt mem,distance,distance]
   rcases Nat.lt_or_ge head tail with less | more
   · rw [Nat.mod_eq_of_lt (by omega),Nat.mod_eq_of_lt (by omega)]
     omega
   rw [show head + (n - (tail + 1)) = (head - (tail + 1)) + n by omega,show head + (n - tail) = (head - tail) + n by omega,
    Nat.add_mod_right,Nat.add_mod_right,Nat.mod_eq_of_lt (by omega),Nat.mod_eq_of_lt (by omega)]
   omega
 rw [show tail + 1 = n by omega,Nat.mod_self,distance,distance,Nat.sub_zero,Nat.add_mod_right,Nat.mod_eq_of_lt lt,
  Nat.mod_eq_of_lt (by omega)]
 omega

end
end Netbas.Circular
