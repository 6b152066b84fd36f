import Mathlib.Tactic

/-!
Slots that refer to targets. The targets of a list of slots form a list with repetitions, so the
number of references to a target is its count there.
-/
namespace Netbas.Referents
open List
universe u v

section
variable {Slot : Type u} {Target : Type v} {slots : List Slot} {target target' : Slot -> Option Target} {x y : Slot}
lemma filterMap_exchange (once : slots.Nodup) (mem : x ∈ slots)
 (others : ∀ y ∈ slots, y ≠ x -> target' y = target y) :
 (slots.filterMap target' ++ (target x).toList).Perm (slots.filterMap target ++ (target' x).toList) := by
 obtain ⟨l,r,rfl⟩ := append_of_mem mem
 obtain ⟨_,onceRight,ne⟩ := nodup_append.mp once
 have left : l.filterMap target' = l.filterMap target := by
  apply filterMap_congr
  intro y inside
  exact others y (by simp [inside]) (ne y inside x (by simp))
 have right : r.filterMap target' = r.filterMap target := by
  apply filterMap_congr
  intro y inside
  refine others y (by simp [inside]) ?_
  rintro rfl
  exact (nodup_cons.mp onceRight).1 inside
 have split : ∀ t : Slot -> Option Target,
   (l ++ x :: r).filterMap t = l.filterMap t ++ ((t x).toList ++ r.filterMap t) := by
  intro t
  rw [filterMap_append]
  cases hit : t x <;> simp [hit]
 classical
 rw [split,split,left,right,perm_iff_count]
 intro f
 simp only [count_append]
 omega
lemma slot_unique [DecidableEq Target] {f : Target} (single : (slots.filterMap target).count f ≤ 1) (fst : x ∈ slots)
 (snd : y ∈ slots) (ref : target x = some f) (refers' : target y = some f) : x = y := by
 by_contra apart
 obtain ⟨l,r,rfl⟩ := append_of_mem fst
 have ne : y ∈ l ++ r := by
  simp only [mem_append,mem_cons] at snd ⊢
  rcases snd with inside | eq | inside
  · exact .inl inside
  · exact absurd eq.symm apart
  · exact .inr inside
 have again : f ∈ (l ++ r).filterMap target := mem_filterMap.mpr ⟨y,ne,refers'⟩
 have pos := count_pos_iff.mpr again
 simp only [filterMap_append,filterMap_cons,ref,count_append,count_cons_self] at single pos
 omega
lemma count_slots [DecidableEq Target] {f : Target} {l : List Slot} (once : slots.Nodup) (once' : l.Nodup)
 (exact : ∀ x, x ∈ l ↔ x ∈ slots ∧ target x = some f) : (slots.filterMap target).count f = l.length := by
 rw [count_filterMap,countP_eq_length_filter]
 refine List.Perm.length_eq ((perm_ext_iff_of_nodup (once.filter _) once').mpr ?_)
 intro x
 simp [exact]
lemma sum_exchange {held held' : Slot -> Nat} (once : slots.Nodup) (mem : x ∈ slots)
 (others : ∀ y ∈ slots, y ≠ x -> held' y = held y) :
 (slots.map held').sum + held x = (slots.map held).sum + held' x := by
 obtain ⟨l,r,rfl⟩ := append_of_mem mem
 obtain ⟨_,onceRight,ne⟩ := nodup_append.mp once
 have left : l.map held' = l.map held := by
  apply map_congr_left
  intro y inside
  exact others y (by simp [inside]) (ne y inside x (by simp))
 have right : r.map held' = r.map held := by
  apply map_congr_left
  intro y inside
  refine others y (by simp [inside]) ?_
  rintro rfl
  exact (nodup_cons.mp onceRight).1 inside
 simp only [map_append,map_cons,sum_append,sum_cons,left,right]
 omega
lemma countP_exchange {p p' : Slot -> Bool} (once : slots.Nodup) (mem : x ∈ slots)
 (others : ∀ y ∈ slots, y ≠ x -> p' y = p y) :
 slots.countP p' + (if p x then 1 else 0) = slots.countP p + (if p' x then 1 else 0) := by
 have sum : ∀ q : Slot -> Bool, slots.countP q = (slots.map (fun y => if q y then 1 else 0)).sum := by
  intro q
  clear once mem others
  induction slots with
  | nil => rfl
  | cons y rest ih =>
   rw [countP_cons,map_cons,sum_cons,ih]
   omega
 have others' : ∀ y ∈ slots, y ≠ x -> (if p' y then 1 else 0) = (if p y then 1 else 0) := by
  intro y inside ne
  rw [others y inside ne]
 rw [sum,sum]
 exact sum_exchange once mem others'
lemma sum_le_of_each {held : Slot -> Nat} {n : Nat} (each : ∀ y ∈ slots, held y ≤ n) :
 (slots.map held).sum ≤ slots.length * n := by
 induction slots with
 | nil => simp
 | cons y rest ih =>
  have fst := each y (by simp)
  have others := ih fun z mem => each z (by simp [mem])
  simp only [map_cons,sum_cons,length_cons,Nat.add_mul]
  omega

end
end Netbas.Referents
