import Mathlib

/-!
Layouts of blocks, which lie within one range and share no byte.
-/
namespace Netbas.Intervals
open List
def bytes (b : Nat × Nat) : Set Nat := Set.Ico b.1 (b.1+b.2)
structure Layout (lo hi : Nat) (blocks : List (Nat × Nat)) : Prop where
 within : ∀ b ∈ blocks, lo ≤ b.1 ∧ b.1+b.2 ≤ hi
 apart : blocks.Pairwise (fun b c => Disjoint (bytes b) (bytes c))
def total (blocks : List (Nat × Nat)) : Nat := (blocks.map Prod.snd).sum

variable {lo hi : Nat} {bs cs : List (Nat × Nat)}
@[simp] lemma total_cons (b : Nat × Nat) (bs : List (Nat × Nat)) : total (b :: bs) = b.2+total bs := by
 simp [total]
lemma total_perm (eq : bs.Perm cs) : total bs = total cs := (eq.map _).sum_eq
lemma Layout.perm (laid : Layout lo hi bs) (eq : bs.Perm cs) : Layout lo hi cs where
 within b mem := laid.within b (eq.mem_iff.mpr mem)
 apart := (eq.pairwise_iff (fun disjoint => disjoint.symm)).mp laid.apart
lemma Layout.tail {b : Nat × Nat} (laid : Layout lo hi (b :: bs)) : Layout lo hi bs where
 within c mem := laid.within c (mem_cons_of_mem _ mem)
 apart := (pairwise_cons.mp laid.apart).2
lemma bytes_split (a n m : Nat) : bytes (a,n+m) = bytes (a,n) ∪ bytes (a+n,m) := by
 simp only [bytes,<- Nat.add_assoc]
 exact (Set.Ico_union_Ico_eq_Ico (by omega) (by omega)).symm
lemma halves_apart (a n m : Nat) : Disjoint (bytes (a,n)) (bytes (a+n,m)) :=
 Set.Ico_disjoint_Ico_same
lemma layout_split {a n m : Nat} :
 Layout lo hi ((a,n+m) :: bs) ↔ Layout lo hi ((a,n) :: (a+n,m) :: bs) := by
 constructor
 · intro laid
   have inside := laid.within _ mem_cons_self
   obtain ⟨fst,rest⟩ := pairwise_cons.mp laid.apart
   simp only [bytes_split,Set.disjoint_union_left] at fst
   refine ⟨?_,?_⟩
   · intro b mem
     rcases mem_cons.mp mem with rfl | mem
     · exact ⟨inside.1,by dsimp only at inside ⊢; omega⟩
     rcases mem_cons.mp mem with rfl | mem
     · constructor <;> dsimp only at inside ⊢ <;> omega
     · exact laid.within b (mem_cons_of_mem _ mem)
   refine pairwise_cons.mpr ⟨?_,pairwise_cons.mpr ⟨fun c mem => (fst c mem).2,rest⟩⟩
   intro c mem
   rcases mem_cons.mp mem with rfl | mem
   · exact halves_apart a n m
   · exact (fst c mem).1
 intro laid
 have lower := laid.within _ mem_cons_self
 have upper := laid.within (a+n,m) (by simp)
 obtain ⟨fst,rest⟩ := pairwise_cons.mp laid.apart
 obtain ⟨snd,rest⟩ := pairwise_cons.mp rest
 refine ⟨?_,pairwise_cons.mpr ⟨?_,rest⟩⟩
 · intro b mem
   rcases mem_cons.mp mem with rfl | mem
   · constructor <;> dsimp only at lower upper ⊢ <;> omega
   · exact laid.within b (by simp [mem])
 intro c mem
 rw [bytes_split]
 exact Set.disjoint_union_left.mpr ⟨fst c (by simp [mem]),snd c mem⟩

end Netbas.Intervals
