import Mathlib.Tactic

/-!
Intrusive chains: cells that name their successor. `Follows next p l q`: following `next` from `p`
visits the cells of `l` and arrives at `q`. Then what a family of heads needs of its lists: no list
has an element twice, and no two lists share one.
-/
namespace Netbas.Chains
open List
open Function
universe u v

section
variable {Cell : Type u}
def Follows (next : Cell -> Cell) : Cell -> List Cell -> Cell -> Prop
 | p, [], q => p = q
 | p, x :: rest, q => p = x ∧ Follows next (next x) rest q

variable {next next' : Cell -> Cell} {p q : Cell}
lemma follows_append (l m : List Cell) :
 Follows next p (l ++ m) q ↔ ∃ r, Follows next p l r ∧ Follows next r m q := by
 induction l generalizing p with
 | nil => simp [Follows]
 | cons x rest ih => simp [Follows,ih,and_assoc]

variable {l : List Cell}
lemma follows_congr (eq : ∀ x ∈ l, next x = next' x) :
 Follows next p l q ↔ Follows next' p l q := by
 induction l generalizing p with
 | nil => rfl
 | cons x rest ih =>
  simp only [Follows,eq x (by simp),ih (fun y mem => eq y (by simp [mem]))]
lemma follows_cons_of_ne (walk : Follows next p l q) (ne : p ≠ q) :
 ∃ rest, l = p :: rest ∧ Follows next (next p) rest q := by
 cases l with
 | nil => exact absurd walk ne
 | cons x rest =>
  obtain ⟨rfl,walk⟩ := walk
  exact ⟨rest,rfl,walk⟩
lemma follows_first_mem (walk : Follows next p l q) : p ∈ l ++ [q] := by
 cases l with
 | nil => simp [show p = q from walk]
 | cons x rest => simp [walk.1]
lemma follows_unique {m : List Cell} (fst : Follows next p l q) (snd : Follows next p m q) (ne : q ∉ l)
 (apart' : q ∉ m) : l = m := by
 induction l generalizing p m with
 | nil =>
  cases m with
  | nil => rfl
  | cons y rest => exact absurd (fst.symm.trans snd.1) (fun eq => apart' (by simp [eq]))
 | cons x rest ih =>
  obtain ⟨rfl,fst⟩ := fst
  cases m with
  | nil => exact absurd (show p = q from snd) (fun eq => ne (by simp [eq]))
  | cons y rest' =>
   obtain ⟨rfl,snd⟩ := snd
   rw [ih fst snd (fun later => ne (by simp [later])) (fun later => apart' (by simp [later]))]
lemma follows_nodup (walk : Follows next p l q) (ne : q ∉ l) : l.Nodup := by
 induction l generalizing p with
 | nil => exact .nil
 | cons x rest ih =>
  obtain ⟨rfl,walk⟩ := walk
  have later : q ∉ rest := fun later => ne (by simp [later])
  refine nodup_cons.mpr ⟨fun again => ?_,ih walk later⟩
  obtain ⟨l1,l2,rfl⟩ := append_of_mem again
  obtain ⟨r,_,rfl,short⟩ := (follows_append l1 (p :: l2)).mp walk
  have eq := follows_unique walk short later fun mem => later (by simp [mem])
  have lengths := congrArg List.length eq
  simp only [length_append,length_cons] at lengths
  omega
lemma follows_link [DecidableEq Cell] (walk : Follows next p l q) (new : q ∉ l) (x : Cell) :
 Follows (update next q x) p (l ++ [q]) x := by
 refine (follows_append l [q]).mpr ⟨q,?_,by simp [Follows]⟩
 refine (follows_congr ?_).mp walk
 intro y mem
 rw [update_of_ne]
 rintro rfl
 exact new mem

end

section
variable {Head : Type u} {Elem : Type v} {x : Elem} {xs : List Elem}
lemma erase_middle [DecidableEq Elem] {pre post : List Elem} (once : (pre ++ x :: post).Nodup) :
 (pre ++ x :: post).erase x = pre ++ post := by
 have fst : x ∉ pre := fun earlier => (nodup_append.mp once).2.2 x earlier x (by simp) rfl
 rw [erase_append_right _ fst,erase_cons_head]

variable [DecidableEq Head] {lists : Head -> List Elem} {h : Head}
lemma once_update (once : ∀ r, (lists r).Nodup) (new : xs.Nodup) (r : Head) : (update lists h xs r).Nodup := by
 by_cases eq : r = h
 · subst eq
   rwa [update_self]
 rw [update_of_ne eq]
 exact once r
lemma sublist_update (shorter : xs.Sublist (lists h)) (r : Head) : (update lists h xs r).Sublist (lists r) := by
 by_cases eq : r = h
 · subst eq
   rwa [update_self]
 · rw [update_of_ne eq]
lemma apart_insert (ne : ∀ {r r' y}, y ∈ lists r -> y ∈ lists r' -> r = r') (fresh : ∀ r, x ∉ lists r)
 (new : ∀ y ∈ xs, y ∈ lists h ∨ y = x) {r r' : Head} {y : Elem} (mem : y ∈ update lists h xs r)
 (member' : y ∈ update lists h xs r') : r = r' := by
 have origin : ∀ r, y ∈ update lists h xs r -> y ∈ lists r ∨ y = x ∧ r = h := by
  intro r mem
  by_cases eq : r = h
  · subst eq
    rw [update_self] at mem
    exact (new y mem).imp_right (⟨·,rfl⟩)
  rw [update_of_ne eq] at mem
  exact .inl mem
 rcases origin r mem with old | ⟨rfl,rfl⟩ <;> rcases origin r' member' with old' | ⟨eq,rfl⟩
 · exact ne old old'
 · exact absurd (eq ▸ old) (fresh r)
 · exact absurd old' (fresh r')
 · rfl

end
end Netbas.Chains
