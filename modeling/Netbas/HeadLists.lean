import Netbas.Chains
import Netbas.Fuel

/-!
Doubly linked lists with intrusive links and single-pointer heads. `Represents` says which lists the
links of a family of heads spell out, `Linked` the same for one head.
-/
namespace Netbas.HeadLists
open Chains Fuel List
open Function
universe u v
inductive Cell (Head : Type u) (Elem : Type v) where
 | first (h : Head)
 | next (x : Elem)
 deriving DecidableEq
structure Links (Head : Type u) (Elem : Type v) where
 cell : Cell Head Elem -> Option Elem
 /-- `le_prev` -/
 prev : Elem -> Option (Cell Head Elem)

section
variable {Head : Type u} {Elem : Type v}
def Links.empty : Links Head Elem := {cell := fun _ => none, prev := fun _ => none}
def find (l : Links Head Elem) (p : Elem -> Bool) : Nat -> Cell Head Elem -> Option (Option Elem)
 | 0, _ => none
 | fuel + 1, c =>
  match l.cell c with
  | none => some none
  | some x => if p x then some (some x) else find l p fuel (.next x)

variable [DecidableEq Head] [DecidableEq Elem]

section
variable (l : Links Head Elem)
def LIST_INIT (h : Head) : Links Head Elem :=
 {l with cell := update l.cell (.first h) none}
def LIST_INSERT_HEAD (h : Head) (x : Elem) : Links Head Elem :=
 { cell := update (update l.cell (.next x) (l.cell (.first h))) (.first h) (some x)
   prev :=
    let moved := match l.cell (.first h) with
     | some y => update l.prev y (some (.next x))
     | none => l.prev
    update moved x (some (.first h)) }

/-- The element's `le_prev` is written through; a null one has no value. -/
def LIST_REMOVE (x : Elem) : Option (Links Head Elem) :=
 match l.prev x with
 | none => none
 | some p => some
  { cell := update l.cell p (l.cell (.next x))
    prev := match l.cell (.next x) with
     | some y => update l.prev y (some p)
     | none => l.prev }
end

end

section
variable {Head : Type u} {Elem : Type v} {l l' : Links Head Elem} {c : Cell Head Elem} {xs : List Elem}
def Seg (l : Links Head Elem) : Cell Head Elem -> List Elem -> Prop
 | c, [] => l.cell c = none
 | c, x :: rest => l.cell c = some x ∧ l.prev x = some c ∧ Seg l (.next x) rest
def cells (c : Cell Head Elem) (xs : List Elem) : List (Cell Head Elem) := c :: xs.map .next
lemma seg_congr (seg : Seg l c xs) (sameCells : ∀ e ∈ cells c xs, l'.cell e = l.cell e)
 (prev : ∀ x ∈ xs, l'.prev x = l.prev x) : Seg l' c xs := by
 induction xs generalizing c with
 | nil => exact (sameCells c (by simp [cells])).trans seg
 | cons x rest ih =>
  obtain ⟨pts,back,seg⟩ := seg
  refine ⟨(sameCells c (by simp [cells])).trans pts,(prev x (by simp)).trans back,ih seg ?_ ?_⟩
  · exact fun e mem => sameCells e (mem_cons_of_mem c mem)
  · exact fun y mem => prev y (mem_cons_of_mem x mem)
lemma seg_unique {ys : List Elem} (seg : Seg l c xs) (ne : Seg l c ys) : xs = ys := by
 induction xs generalizing c ys with
 | nil =>
  cases ys with
  | nil => rfl
  | cons y rest => exact absurd (ne.1.symm.trans seg) (by simp)
 | cons x rest ih =>
  cases ys with
  | nil => exact absurd (seg.1.symm.trans ne) (by simp)
  | cons y rest' =>
   obtain rfl : x = y := Option.some.inj (seg.1.symm.trans ne.1)
   rw [ih seg.2.2 ne.2.2]
lemma seg_first (seg : Seg l c xs) : l.cell c = xs.head? := by
 cases xs with
 | nil => exact seg
 | cons x rest => exact seg.1
lemma find_seg (p : Elem -> Bool) (seg : Seg l c xs) : Returns (fun fuel => find l p fuel c) (xs.find? p) := by
 induction xs generalizing c with
 | nil =>
  refine .turn (g := fun _ => some none) rfl (fun fuel => ?_) (returns_const none)
  simp [find,show l.cell c = none from seg]
 | cons x rest ih =>
  obtain ⟨pts,_,seg⟩ := seg
  by_cases here : p x
  · refine .turn (g := fun _ => some (some x)) rfl (fun fuel => ?_) ?_
    · simp [find,pts,here]
    · simpa [here] using returns_const (some x)
  refine .turn (g := fun fuel => find l p fuel (.next x)) rfl (fun fuel => ?_) ?_
  · simp [find,pts,here]
  · simpa [here] using ih seg
lemma nodup_cells {h : Head} (once : xs.Nodup) : (cells (.first h) xs).Nodup := by
 refine nodup_cons.mpr ⟨by simp,once.map ?_⟩
 intro x y eq
 exact Cell.next.inj eq

variable [DecidableEq Head] [DecidableEq Elem]
lemma seg_remove {pre post : List Elem} {x : Elem} (seg : Seg l c (pre ++ x :: post))
 (once : (cells c (pre ++ x :: post)).Nodup) :
 ∃ l', LIST_REMOVE l x = some l' ∧ Seg l' c (pre ++ post) ∧
  (∀ e ∉ cells c pre, l'.cell e = l.cell e) ∧ ∀ y ∉ post, l'.prev y = l.prev y := by
 induction pre generalizing c with
 | nil =>
  obtain ⟨_,back,rest⟩ := seg
  have apart : ∀ y ∈ post, Cell.next y ≠ c := by
   rintro y mem rfl
   exact (nodup_cons.mp once).1 (by simp [mem])
  cases post with
  | nil =>
   have null : l.cell (.next x) = none := rest
   refine ⟨_,by simp only [LIST_REMOVE,back,null]; rfl,?_,?_,?_⟩
   · simp [Seg]
   · intro e ne
     simp only [cells,map_nil,mem_singleton] at ne
     simp [ne]
   · simp
  | cons y post =>
   obtain ⟨follows,_,rest⟩ := rest
   refine ⟨_,by simp only [LIST_REMOVE,back,follows]; rfl,⟨by simp,by simp,seg_congr rest ?_ ?_⟩,?_,?_⟩
   · intro e inside
     obtain ⟨z,mem,rfl⟩ := mem_map.mp (show e ∈ (y :: post).map Cell.next from inside)
     simp [apart z mem]
   · intro z mem
     have unlike : z ≠ y := by
      rintro rfl
      have later := (nodup_cons.mp (nodup_cons.mp once).2).2
      exact (nodup_cons.mp later).1 (mem_map_of_mem mem)
     simp [unlike]
   · intro e ne
     simp only [cells,map_nil,mem_singleton] at ne
     simp [ne]
   intro z ne
   have unlike : z ≠ y := fun eq => ne (by simp [eq])
   simp [unlike]
 | cons w pre ih =>
  obtain ⟨pts,back,rest⟩ := seg
  obtain ⟨out,onceRest⟩ := nodup_cons.mp once
  obtain ⟨l',gone,seg',sameCells,prev⟩ := ih rest onceRest
  have notBefore : c ∉ cells (.next w) pre := by
   intro inside
   refine out ?_
   simp only [cells,cons_append,map_cons,map_append,mem_cons,mem_append] at inside ⊢
   tauto
  have notAfter : w ∉ post := by
   intro later
   exact (nodup_cons.mp onceRest).1 (by simp [later])
  refine ⟨l',gone,⟨?_,?_,seg'⟩,?_,prev⟩
  · rw [sameCells c notBefore,pts]
  · rw [prev w notAfter,back]
  intro e ne
  exact sameCells e fun inside => ne (mem_cons_of_mem c inside)

end

section
variable {Head : Type u} {Elem : Type v} {l : Links Head Elem} {lists : Head -> List Elem}
structure Represents (l : Links Head Elem) (lists : Head -> List Elem) : Prop where
 seg : ∀ h, Seg l (.first h) (lists h)
 once : ∀ h, (lists h).Nodup
 apart : ∀ {h r x}, x ∈ lists h -> x ∈ lists r -> h = r
lemma represents_empty : Represents (Links.empty : Links Head Elem) (fun _ => []) :=
 {seg := fun _ => rfl, once := by simp, apart := by simp}

namespace Represents
lemma cells_apart (rep : Represents l lists) {h r : Head} (ne : r ≠ h) {e : Cell Head Elem}
 (inside : e ∈ cells (.first r) (lists r)) : e ∉ cells (.first h) (lists h) := by
 intro both
 simp only [cells,mem_cons,mem_map] at inside both
 rcases inside with rfl | ⟨x,mem,rfl⟩
 · simp [ne] at both
 obtain ⟨y,mem',eq⟩ := both.resolve_left (by simp)
 exact ne (rep.apart mem (Cell.next.inj eq ▸ mem'))

variable [DecidableEq Head] [DecidableEq Elem]

section
variable (rep : Represents l lists)
include rep
lemma init {h : Head} (empty : lists h = []) : Represents (LIST_INIT l h) lists := by
 refine ⟨fun r => ?_,rep.once,rep.apart⟩
 by_cases eq : r = h
 · subst eq
   rw [empty]
   simp [Seg,LIST_INIT]
 refine seg_congr (rep.seg r) ?_ fun _ _ => rfl
 intro e mem
 have ne : e ≠ .first h := by
  rintro rfl
  exact rep.cells_apart eq mem (by simp [cells])
 simp [LIST_INIT,ne]
lemma insert_head (h : Head) {x : Elem} (new : ∀ r, x ∉ lists r) :
 Represents (LIST_INSERT_HEAD l h x) (update lists h (x :: lists h)) := by
 have others : ∀ r, ∀ y ∈ lists r, y ≠ x := by
  rintro r y mem rfl
  exact new r mem
 refine ⟨?_,?_,?_⟩
 · intro r
   by_cases eq : r = h
   · subst eq
     rw [update_self]
     refine ⟨by simp [LIST_INSERT_HEAD],by simp [LIST_INSERT_HEAD],?_⟩
     have seg := rep.seg r
     have once := rep.once r
     have others := others r
     cases list : lists r with
     | nil =>
      rw [list] at seg
      simpa [Seg,LIST_INSERT_HEAD] using seg
     | cons y rest =>
      rw [list] at seg once others
      obtain ⟨pts,back,seg⟩ := seg
      refine ⟨by simp [LIST_INSERT_HEAD,pts],
       by simp [LIST_INSERT_HEAD,pts,others y (by simp)],seg_congr seg ?_ ?_⟩
      · intro e inside
        obtain ⟨z,mem,rfl⟩ := mem_map.mp (show e ∈ (y :: rest).map Cell.next from inside)
        simp [LIST_INSERT_HEAD,others z mem]
      intro z mem
      have snd : z ≠ y := fun eq => (nodup_cons.mp once).1 (eq ▸ mem)
      simp [LIST_INSERT_HEAD,pts,others z (by simp [mem]),snd]
   rw [update_of_ne eq]
   refine seg_congr (rep.seg r) ?_ ?_
   · intro e inside
     have fst : e ≠ .first h := by
      rintro rfl
      exact rep.cells_apart eq inside (by simp [cells])
     have own : e ≠ .next x := by
      rintro rfl
      exact new r (by simpa [cells] using inside)
     simp [LIST_INSERT_HEAD,fst,own]
   intro z mem
   cases list : l.cell (.first h) with
   | none => simp [LIST_INSERT_HEAD,list,others r z mem]
   | some y =>
    have snd : z ≠ y := by
     rintro rfl
     rw [seg_first (rep.seg h)] at list
     exact eq (rep.apart mem (mem_of_mem_head? list))
    simp [LIST_INSERT_HEAD,list,others r z mem,snd]
 · exact once_update rep.once (nodup_cons.mpr ⟨new h,rep.once h⟩)
 · exact apart_insert rep.apart new (by simp [or_comm])
lemma remove {h : Head} {x : Elem} (mem : x ∈ lists h) :
 ∃ l', LIST_REMOVE l x = some l' ∧ Represents l' (update lists h ((lists h).erase x)) := by
 obtain ⟨pre,post,split⟩ := append_of_mem mem
 have once := rep.once h
 have seg := rep.seg h
 rw [split] at once seg
 have less : (lists h).erase x = pre ++ post := by rw [split,erase_middle once]
 obtain ⟨l',gone,seg',sameCells,prev⟩ := seg_remove seg (nodup_cells once)
 have sublist := sublist_update (h := h) (erase_sublist : ((lists h).erase x).Sublist (lists h))
 refine ⟨l',gone,?_,fun r => (rep.once r).sublist (sublist r),
  fun fst snd => rep.apart ((sublist _).subset fst) ((sublist _).subset snd)⟩
 intro r
 by_cases eq : r = h
 · subst eq
   rwa [update_self,less]
 rw [update_of_ne eq]
 refine seg_congr (rep.seg r) ?_ ?_
 · intro e inside
   refine sameCells e fun before => rep.cells_apart eq inside ?_
   rw [split]
   simp only [cells,map_append,mem_cons,mem_append] at before ⊢
   tauto
 intro y inside
 refine prev y fun later => eq (rep.apart inside (r := h) ?_)
 simp [split,later]
end

end Represents
end

section
variable {Elem : Type v} {l : Links Unit Elem} {xs : List Elem}
def Linked (l : Links Unit Elem) (xs : List Elem) : Prop := Seg l (.first ()) xs ∧ xs.Nodup
lemma linked_iff : Linked l xs ↔ Represents l (fun _ => xs) :=
 ⟨fun link => ⟨fun _ => link.1,fun _ => link.2,fun _ _ => rfl⟩,fun rep => ⟨rep.seg (),rep.once ()⟩⟩
lemma linked_empty : Linked (Links.empty : Links Unit Elem) [] := ⟨rfl,nodup_nil⟩
lemma find_returns (p : Elem -> Bool) (link : Linked l xs) :
  Returns (fun fuel => find l p fuel (.first ())) (xs.find? p) := find_seg p link.1

variable [DecidableEq Elem]
lemma Linked.insert_head (link : Linked l xs) {x : Elem} (new : x ∉ xs) :
 Linked (LIST_INSERT_HEAD l () x) (x :: xs) := by
 have rep := (linked_iff.mp link).insert_head () fun _ => new
 exact ⟨rep.seg (),rep.once ()⟩
lemma Linked.remove (link : Linked l xs) {x : Elem} (mem : x ∈ xs) :
 ∃ l', LIST_REMOVE l x = some l' ∧ Linked l' (xs.erase x) := by
 obtain ⟨l',gone,rep⟩ := (linked_iff.mp link).remove (h := ()) mem
 exact ⟨l',gone,rep.seg (),rep.once ()⟩
lemma Linked.remove_all {ys : List Elem} (once : ys.Nodup) : ∀ {l : Links Unit Elem} {xs : List Elem}, Linked l xs ->
 (∀ y ∈ ys, y ∈ xs) ->
 ∃ l', ys.foldlM LIST_REMOVE l = some l' ∧ Linked l' (xs.filter (fun x => decide (x ∉ ys))) := by
 induction ys with
 | nil =>
  intro l xs link _
  exact ⟨l,rfl,by simpa using link⟩
 | cons y ys ih =>
  intro l xs link inside
  obtain ⟨new,once⟩ := nodup_cons.mp once
  obtain ⟨l1,gone,linked1⟩ := link.remove (inside y (by simp))
  have inside1 : ∀ z ∈ ys, z ∈ xs.erase y := by
   intro z mem
   have ne : z ≠ y := by
    rintro rfl
    exact new mem
   exact (mem_erase_of_ne ne).mpr (inside z (by simp [mem]))
  obtain ⟨l',rest,linked'⟩ := ih once linked1 inside1
  refine ⟨l',by simp only [foldlM_cons,gone]; exact rest,?_⟩
  rw [link.2.erase_eq_filter,filter_filter] at linked'
  convert linked' using 2
  funext x
  by_cases eq : x = y
  · simp [eq]
  · simp [eq]

end
end Netbas.HeadLists
