import Mathlib.Tactic

/-!
Unsigned machine words as natural numbers: masks, alignment and differences modulo the word size.
-/
namespace Netbas.Words
lemma land_high_mask {w k x : Nat} (le : k ≤ w) (word : x < 2^w) : x &&& (2^w - 2^k) = x / 2^k * 2^k := by
 have mask : 2^w - 2^k = (2^(w - k) - 1) <<< k := by
  rw [Nat.shiftLeft_eq,Nat.sub_mul,<- Nat.pow_add,Nat.sub_add_cancel le,Nat.one_mul]
 rw [mask,<- Nat.shiftRight_eq_div_pow,<- Nat.shiftLeft_eq]
 apply Nat.eq_of_testBit_eq
 intro i
 rw [Nat.testBit_and,Nat.testBit_shiftLeft,Nat.testBit_shiftLeft,Nat.testBit_shiftRight,Nat.testBit_two_pow_sub_one]
 by_cases high : k ≤ i
 · rw [Nat.add_sub_cancel' high]
   by_cases mem : i - k < w - k
   · simp [high,mem]
   have clear : x.testBit i = false :=
    Nat.testBit_lt_two_pow (lt_of_lt_of_le word (Nat.pow_le_pow_right (by norm_num) (by omega)))
   simp [high,clear]
 · simp [high]

end Netbas.Words
