import Netbas.Chains

/-!
Doubly linked rings with intrusive links. `Represents` says which lists the rings of a family of
heads spell out; a loop may also take the elements one by one without unlinking them
(`insert_while_emptying`).
-/
namespace Netbas.Rings
open Chains List
open Function
universe u v
inductive Node (Head : Type u) (Elem : Type v) where
 | head (h : Head)
 | elem (x : Elem)
 deriving DecidableEq
structure Links (Head : Type u) (Elem : Type v) where
 next : Node Head Elem -> Option (Node Head Elem)
 prev : Node Head Elem -> Option (Node Head Elem)

section
variable {Head : Type u} {Elem : Type v}
def Links.empty : Links Head Elem :=
 { next := fun | .head h => some (.head h) | .elem _ => none
   prev := fun | .head h => some (.head h) | .elem _ => none }

variable [DecidableEq Head] [DecidableEq Elem]

section
variable (l : Links Head Elem)
/-- The last node of the ring is written through, so a null pointer is a fault. -/
def Links.insertTail (h : Head) (x : Elem) : Option (Links Head Elem) :=
 match l.prev (.head h) with
 | none => none
 | some p => some
  { next := update (update l.next (.elem x) (some (.head h))) p (some (.elem x))
    prev := update (update l.prev (.elem x) (some p)) (.head h) (some (.elem x)) }
def Links.remove (x : Elem) : Option (Links Head Elem) :=
 match l.next (.elem x), l.prev (.elem x) with
 | some n, some p => some
  { next := update l.next p (some n)
    prev := update l.prev n (some p) }
 | _, _ => none
def Links.clear (x : Elem) : Links Head Elem :=
 { next := update l.next (.elem x) none
   prev := update l.prev (.elem x) none }
def Links.reset (h : Head) : Links Head Elem :=
 { next := update l.next (.head h) (some (.head h))
   prev := update l.prev (.head h) (some (.head h)) }
end

end

section
variable {Head : Type u} {Elem : Type v} {l l' : Links Head Elem} {a b c : Node Head Elem}
def Linked (l : Links Head Elem) : Node Head Elem -> List Elem -> Node Head Elem -> Prop
 | a, [], b => l.next a = some b ∧ l.prev b = some a
 | a, x :: rest, b => l.next a = some (.elem x) ∧ l.prev (.elem x) = some a ∧ Linked l (.elem x) rest b
def final : Node Head Elem -> List Elem -> Node Head Elem
 | a, [] => a
 | _, x :: rest => final (.elem x) rest
def initial (b : Node Head Elem) : List Elem -> Node Head Elem
 | [] => b
 | x :: _ => .elem x
lemma linked_append {x : Elem} (xs ys : List Elem) :
 Linked l a (xs ++ x :: ys) b ↔ Linked l a xs (.elem x) ∧ Linked l (.elem x) ys b := by
 induction xs generalizing a with
 | nil => simp [Linked,and_assoc]
 | cons y rest ih => simp [Linked,ih,and_assoc]

variable {xs : List Elem}
lemma linked_next (link : Linked l a xs b) : l.next a = some (initial b xs) := by
 cases xs <;> exact link.1
lemma linked_prev (link : Linked l a xs b) : l.prev b = some (final a xs) := by
 induction xs generalizing a with
 | nil => exact link.2
 | cons x rest ih => exact ih link.2.2
lemma final_mem (a : Node Head Elem) (xs : List Elem) : final a xs ∈ a :: xs.map .elem := by
 induction xs generalizing a with
 | nil => simp [final]
 | cons x rest ih => exact mem_cons_of_mem a (ih (.elem x))
lemma initial_mem (b : Node Head Elem) (xs : List Elem) : initial b xs ∈ xs.map .elem ++ [b] := by
 cases xs <;> simp [initial]
lemma linked_congr (link : Linked l a xs b)
 (next : ∀ n ∈ a :: xs.map .elem, l'.next n = l.next n)
 (prev : ∀ n ∈ xs.map .elem ++ [b], l'.prev n = l.prev n) : Linked l' a xs b := by
 induction xs generalizing a with
 | nil => exact ⟨(next a (by simp)).trans link.1,(prev b (by simp)).trans link.2⟩
 | cons x rest ih =>
  refine ⟨(next a (by simp)).trans link.1,(prev _ (by simp)).trans link.2.1,ih link.2.2 ?_ ?_⟩
  · exact fun n mem => next n (mem_cons_of_mem a mem)
  · exact fun n mem => prev n (mem_cons_of_mem _ mem)
lemma linked_retarget (link : Linked l a xs b) (once : (a :: xs.map .elem).Nodup)
 (next : ∀ n ∈ a :: xs.map .elem, n ≠ final a xs -> l'.next n = l.next n)
 (prev : ∀ x ∈ xs, l'.prev (.elem x) = l.prev (.elem x))
 (pts : l'.next (final a xs) = some c) (back : l'.prev c = some (final a xs)) : Linked l' a xs c := by
 induction xs generalizing a with
 | nil => exact ⟨pts,back⟩
 | cons x rest ih =>
  have ne : a ≠ final (.elem x) rest := by
   intro eq
   exact (nodup_cons.mp once).1 (eq ▸ final_mem (.elem x) rest)
  refine ⟨(next a (by simp) ne).trans link.1,(prev x (by simp)).trans link.2.1,?_⟩
  refine ih link.2.2 (nodup_cons.mp once).2 ?_ ?_ pts back
  · exact fun n mem => next n (mem_cons_of_mem a mem)
  · exact fun y mem => prev y (mem_cons_of_mem x mem)
lemma linked_join {x : Elem} {pre post : List Elem} (before : Linked l a pre (.elem x))
 (after : Linked l (.elem x) post b) (once : (a :: (pre ++ post).map .elem).Nodup)
 (next : ∀ n ∈ a :: (pre ++ post).map .elem, n ≠ final a pre -> l'.next n = l.next n)
 (prev : ∀ n ∈ (pre ++ post).map .elem ++ [b], n ≠ initial b post -> l'.prev n = l.prev n)
 (pts : l'.next (final a pre) = some (initial b post)) (back : l'.prev (initial b post) = some (final a pre))
 (inner : b ∉ post.map .elem) (outer : b ∉ pre.map .elem) :
 Linked l' a (pre ++ post) b := by
 induction pre generalizing a with
 | nil =>
  cases post with
  | nil => exact ⟨pts,back⟩
  | cons y rest =>
   refine ⟨pts,back,linked_congr after.2.2 ?_ ?_⟩
   · intro n mem
     refine next n (mem_cons_of_mem a mem) ?_
     rintro rfl
     exact (nodup_cons.mp once).1 mem
   intro n mem
   refine prev n (mem_cons_of_mem _ mem) ?_
   rintro rfl
   rcases mem_append.mp mem with later | last
   · exact (nodup_cons.mp (nodup_cons.mp once).2).1 later
   rw [mem_singleton] at last
   exact inner (by simp [initial] at last; simp [<- last])
 | cons y rest ih =>
  have ne : a ≠ final (.elem y) rest := by
   intro eq
   have mem := final_mem (.elem y : Node Head Elem) rest
   rw [<- eq] at mem
   exact (nodup_cons.mp once).1 (by simpa using Or.imp_right Or.inl (by simpa using mem))
  have ahead : Node.elem y ≠ initial b post := by
   intro eq
   have mem := initial_mem b post
   rw [<- eq,mem_append,mem_singleton] at mem
   rcases mem with later | last
   · exact (nodup_cons.mp (nodup_cons.mp once).2).1 (by simp at later; simp [later])
   · exact outer (by simp [<- last])
  refine ⟨(next a (by simp) ne).trans before.1,(prev _ (by simp) ahead).trans before.2.1,?_⟩
  refine ih before.2.2 (nodup_cons.mp once).2 ?_ ?_ pts back fun mem => outer (by simp at mem; simp [mem])
  · exact fun n mem => next n (mem_cons_of_mem a mem)
  · exact fun n mem => prev n (mem_cons_of_mem _ mem)

end

section
variable {Head : Type u} {Elem : Type v} {l : Links Head Elem} {lists : Head -> List Elem}
structure Represents (l : Links Head Elem) (lists : Head -> List Elem) : Prop where
 ring : ∀ h, Linked l (.head h) (lists h) (.head h)
 once : ∀ h, (lists h).Nodup
 apart : ∀ {h r x}, x ∈ lists h -> x ∈ lists r -> h = r
def nodes (lists : Head -> List Elem) (h : Head) : List (Node Head Elem) := .head h :: (lists h).map .elem
lemma represents_empty : Represents (Links.empty : Links Head Elem) (fun _ => []) :=
 {ring := fun _ => ⟨rfl,rfl⟩, once := by simp, apart := by simp}

variable {h : Head} {xs : List Elem}
lemma linked_unique {ys : List Elem} {a : Node Head Elem} (fst : Linked l a xs (.head h))
 (snd : Linked l a ys (.head h)) : xs = ys := by
 have next := (linked_next fst).symm.trans (linked_next snd)
 induction xs generalizing a ys with
 | nil =>
  cases ys with
  | nil => rfl
  | cons y ys => simp [initial] at next
 | cons x xs ih =>
  cases ys with
  | nil => simp [initial] at next
  | cons y ys =>
   obtain rfl : x = y := by simpa [initial] using next
   rw [ih fst.2.2 snd.2.2 ((linked_next fst.2.2).symm.trans (linked_next snd.2.2))]
lemma represents_unique {lists' : Head -> List Elem} (fst : Represents l lists) (snd : Represents l lists') :
 lists = lists' :=
 funext (fun h => linked_unique (fst.ring h) (snd.ring h))
@[simp] lemma elem_mem_nodes {x : Elem} : .elem x ∈ nodes lists h ↔ x ∈ lists h := by
 simp [nodes]
lemma prev_nodes {n : Node Head Elem} :
 n ∈ (lists h).map Node.elem ++ [.head h] ↔ n ∈ nodes lists h := by
 simp [nodes,or_comm]

namespace Represents

section
variable (rep : Represents l lists)
include rep
lemma nodup_nodes (h : Head) : (nodes lists h).Nodup := by
 refine nodup_cons.mpr ⟨by simp,(rep.once h).map ?_⟩
 intro x y eq
 exact Node.elem.inj eq
lemma nodes_apart {h r : Head} (ne : r ≠ h) {n : Node Head Elem}
 (mem : n ∈ nodes lists r) : n ∉ nodes lists h := by
 intro both
 cases n with
 | head g =>
  simp only [nodes,mem_cons,Node.head.injEq,mem_map,reduceCtorEq,and_false,exists_false,or_false]
   at mem both
  exact ne (mem.symm.trans both)
 | elem x => exact ne (rep.apart (elem_mem_nodes.mp mem) (elem_mem_nodes.mp both))
lemma last_mem (h : Head) :
 ∃ p, l.prev (.head h) = some p ∧ p = final (.head h) (lists h) ∧ p ∈ nodes lists h :=
 ⟨_,linked_prev (rep.ring h),rfl,final_mem _ _⟩
lemma other_ring {l' : Links Head Elem} (r : Head)
 (next : ∀ n ∈ nodes lists r, l'.next n = l.next n)
 (prev : ∀ n ∈ nodes lists r, l'.prev n = l.prev n) : Linked l' (.head r) (lists r) (.head r) :=
 linked_congr (rep.ring r) next (fun n mem => prev n (prev_nodes.mp mem))
end

variable [DecidableEq Head] [DecidableEq Elem]

variable {x : Elem}
lemma insert_tail (rep : Represents l lists) (h : Head) (new : ∀ r, x ∉ lists r) :
 ∃ l', l.insertTail h x = some l' ∧ Represents l' (update lists h (lists h ++ [x])) := by
 obtain ⟨p,back,isFinal,inside⟩ := rep.last_mem h
 have unlinked : ∀ r, ∀ n ∈ nodes lists r, n ≠ .elem x := by
  rintro r n mem rfl
  exact new r (elem_mem_nodes.mp mem)
 refine ⟨_,by simp only [Links.insertTail,back]; rfl,?_,?_,?_⟩
 · intro r
   by_cases eq : r = h
   · subst eq
     rw [update_self,linked_append]
     refine ⟨linked_retarget (rep.ring r) (rep.nodup_nodes r) ?_ ?_ ?_ ?_,?_,?_⟩
     · intro n mem pre
       simp [unlinked r n mem,show n ≠ p from isFinal ▸ pre]
     · intro y mem
       have ne : y ≠ x := by
        rintro rfl
        exact new r mem
       simp [ne]
     · simp [<- isFinal]
     · simp [<- isFinal]
     · simp [(unlinked r p inside).symm]
     · simp
   rw [update_of_ne eq]
   refine rep.other_ring r ?_ ?_
   · intro n mem
     have pre : n ≠ p := by
      rintro rfl
      exact rep.nodes_apart eq mem inside
     simp [unlinked r n mem,pre]
   intro n mem
   have pre : n ≠ .head h := by
    rintro rfl
    exact rep.nodes_apart eq mem (by simp [nodes])
   simp [unlinked r n mem,pre]
 · exact once_update rep.once (by simpa using (rep.once h).concat (new h))
 · exact apart_insert rep.apart new (by simp)
lemma remove (rep : Represents l lists) {h : Head} (mem : x ∈ lists h) :
 ∃ l', l.remove x = some l' ∧ Represents l' (update lists h ((lists h).erase x)) := by
 obtain ⟨pre,post,split⟩ := append_of_mem mem
 have once := rep.once h
 have ring := rep.ring h
 rw [split] at once ring
 obtain ⟨before,after⟩ := (linked_append pre post).mp ring
 have less : (lists h).erase x = pre ++ post := by rw [split,erase_middle once]
 have sublist := sublist_update (h := h) (erase_sublist : ((lists h).erase x).Sublist (lists h))
 -- both neighbours are nodes of this ring
 have left : final (.head h) pre ∈ nodes lists h := by
  have inside := final_mem (.head h : Node Head Elem) pre
  rw [nodes,split]
  simp only [mem_cons,map_append,mem_append] at inside ⊢
  tauto
 have right : initial (.head h) post ∈ nodes lists h := by
  have inside := initial_mem (.head h : Node Head Elem) post
  rw [nodes,split]
  simp only [mem_cons,map_append,map_cons,mem_append] at inside ⊢
  tauto
 refine ⟨_,by simp only [Links.remove,linked_next after,linked_prev before]; rfl,?_,?_,?_⟩
 · intro r
   by_cases eq : r = h
   · subst eq
     rw [update_self,less]
     have onceRest : (Node.head r :: (pre ++ post).map Node.elem).Nodup := by
      refine (rep.nodup_nodes r).sublist ?_
      rw [nodes,split]
      refine List.Sublist.cons_cons _ (List.Sublist.map _ ?_)
      exact List.Sublist.append (List.Sublist.refl pre) (sublist_cons_self x post)
     refine linked_join before after onceRest ?_ ?_ ?_ ?_ (by simp) (by simp)
     · exact fun n _ ne => by simp [ne]
     · exact fun n _ ne => by simp [ne]
     · simp
     · simp
   rw [update_of_ne eq]
   refine rep.other_ring r ?_ ?_
   · intro n inside
     have ne : n ≠ final (.head h) pre := fun this => rep.nodes_apart eq inside (this ▸ left)
     simp [ne]
   intro n inside
   have ne : n ≠ initial (.head h) post := fun this => rep.nodes_apart eq inside (this ▸ right)
   simp [ne]
 · exact fun r => (rep.once r).sublist (sublist r)
 · exact fun fst snd => rep.apart ((sublist _).subset fst) ((sublist _).subset snd)
lemma clear (rep : Represents l lists) (unlinked : ∀ r, x ∉ lists r) :
 Represents (l.clear x) lists := by
 refine ⟨fun r => ?_,rep.once,rep.apart⟩
 have ne : ∀ n ∈ nodes lists r, n ≠ .elem x := by
  rintro n mem rfl
  exact unlinked r (elem_mem_nodes.mp mem)
 refine rep.other_ring r ?_ ?_
 · exact fun n mem => by simp [Links.clear,ne n mem]
 · exact fun n mem => by simp [Links.clear,ne n mem]
lemma reset (rep : Represents l lists) (h : Head) : Represents (l.reset h) (update lists h []) := by
 have sublist := sublist_update (nil_sublist (lists h))
 refine ⟨?_,fun r => (rep.once r).sublist (sublist r),
  fun fst snd => rep.apart ((sublist _).subset fst) ((sublist _).subset snd)⟩
 intro r
 by_cases eq : r = h
 · subst eq
   simp [Linked,Links.reset]
 rw [update_of_ne eq]
 have ne : ∀ n ∈ nodes lists r, n ≠ .head h := by
  rintro n mem rfl
  exact rep.nodes_apart eq mem (by simp [nodes])
 refine rep.other_ring r ?_ ?_
 · exact fun n mem => by simp [Links.reset,ne n mem]
 · exact fun n mem => by simp [Links.reset,ne n mem]

end Represents
def Forward (l : Links Head Elem) (b : Node Head Elem) : List Elem -> Prop
 | [] => True
 | x :: rest => l.next (.elem x) = some (initial b rest) ∧ Forward l b rest
lemma forward_of_linked {a b : Node Head Elem} (link : Linked l a xs b) : Forward l b xs := by
 induction xs generalizing a with
 | nil => trivial
 | cons x rest ih => exact ⟨linked_next link.2.2,ih link.2.2⟩
lemma forward_congr {l' : Links Head Elem} {b : Node Head Elem} (forward : Forward l b xs)
 (eq : ∀ x ∈ xs, l'.next (.elem x) = l.next (.elem x)) : Forward l' b xs := by
 induction xs with
 | nil => trivial
 | cons x rest ih =>
  exact ⟨(eq x (by simp)).trans forward.1,ih forward.2 (fun y mem => eq y (mem_cons_of_mem x mem))⟩

variable [DecidableEq Head] [DecidableEq Elem]
lemma insert_while_emptying {r : Head} (ne : r ≠ h) {x : Elem} {rest : List Elem}
 (rep : Represents (l.reset h) lists) (new : ∀ g, x ∉ lists g) (later : ∀ y ∈ rest, y ≠ x ∧ ∀ g, y ∉ lists g)
 (forward : Forward l (.head h) rest) :
 ∃ l', l.insertTail r x = some l' ∧ Represents (l'.reset h) (update lists r (lists r ++ [x])) ∧
  Forward l' (.head h) rest := by
 obtain ⟨p,back,_,inside⟩ := rep.last_mem r
 obtain ⟨l2,inserted,rep2⟩ := rep.insert_tail r new
 have unlike : p ≠ .head h := by
  rintro rfl
  exact rep.nodes_apart ne inside (by simp [nodes])
 have back' : l.prev (.head r) = some p := by
  have distinct : Node.head r ≠ (Node.head h : Node Head Elem) := by simp [ne]
  simpa [Links.reset,distinct] using back
 refine ⟨_,by simp only [Links.insertTail,back']; rfl,?_,?_⟩
 · simp only [Links.insertTail,back,Option.some.injEq] at inserted
   convert rep2 using 1
   rw [<- inserted]
   simp only [Links.reset,Links.mk.injEq]
   have own : Node.elem x ≠ (Node.head h : Node Head Elem) := by simp
   have heads : Node.head r ≠ (Node.head h : Node Head Elem) := by simp [ne]
   refine ⟨?_,?_⟩
   · rw [update_comm unlike,update_comm own]
   · rw [update_comm heads,update_comm own]
 refine forward_congr forward ?_
 intro y mem
 have fst : Node.elem y ≠ (p : Node Head Elem) := by
  rintro rfl
  exact (later y mem).2 r (elem_mem_nodes.mp inside)
 have snd : y ≠ x := (later y mem).1
 simp [fst,snd]

end
end Netbas.Rings
