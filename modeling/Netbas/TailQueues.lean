import Netbas.Chains

/-!
Tail queues with intrusive links. `Represents` says which lists the links spell out; inserting at
the tail and removing an element are `++ [x]` and `erase x` on these lists.
-/
namespace Netbas.TailQueues
open Chains List
open Function
universe u v
inductive Cell (Head : Type u) (Elem : Type v) where
 | first (q : Head)
 | next (x : Elem)
 deriving DecidableEq
structure Links (Head : Type u) (Elem : Type v) where
 cell : Cell Head Elem -> Option Elem
 /-- `tqh_last` -/
 last : Head -> Cell Head Elem
 /-- `tqe_prev` -/
 prev : Elem -> Option (Cell Head Elem)

section
variable {Head : Type u} {Elem : Type v}
def Links.empty : Links Head Elem :=
 {cell := fun _ => none, last := fun q => .first q, prev := fun _ => none}
section
variable (l : Links Head Elem)
def TAILQ_FIRST (q : Head) : Option Elem := l.cell (.first q)
def TAILQ_EMPTY (q : Head) : Bool := (l.cell (.first q)).isNone
def TAILQ_ENTRY_EMPTY (x : Elem) : Bool :=
 (l.cell (.next x)).isNone && (l.prev x).isNone
end

variable [DecidableEq Head] [DecidableEq Elem]

section
variable (l : Links Head Elem)
def TAILQ_ENTRY_INIT (x : Elem) : Links Head Elem :=
 {l with cell := update l.cell (.next x) none, prev := update l.prev x none}
def TAILQ_INSERT_TAIL (q : Head) (x : Elem) : Links Head Elem :=
 { cell := update (update l.cell (.next x) none) (l.last q) (some x)
   last := update l.last q (.next x)
   prev := update l.prev x (some (l.last q)) }
def TAILQ_REMOVE (q : Head) (x : Elem) : Option (Links Head Elem) :=
 match l.prev x with
 | none => none
 | some p =>
  let moved : Links Head Elem :=
   match l.cell (.next x) with
   | some y => {l with prev := update l.prev y (some p)}
   | none => {l with last := update l.last q p}
  some {moved with cell := update l.cell p (l.cell (.next x))}
end

end

section
variable {Head : Type u} {Elem : Type v} {l l' : Links Head Elem} {c d : Cell Head Elem}
def Seg (l : Links Head Elem) : Cell Head Elem -> List Elem -> Cell Head Elem -> Prop
 | c, [], d => c = d
 | c, x :: rest, d => l.cell c = some x ∧ l.prev x = some c ∧ Seg l (.next x) rest d
def cells (c : Cell Head Elem) (xs : List Elem) : List (Cell Head Elem) := c :: xs.map .next
lemma seg_append (xs ys : List Elem) : Seg l c (xs ++ ys) d ↔ ∃ e, Seg l c xs e ∧ Seg l e ys d := by
 induction xs generalizing c with
 | nil => simp [Seg]
 | cons x rest ih => simp [Seg,ih,and_assoc]

variable {xs : List Elem}
lemma seg_end_mem (seg : Seg l c xs d) : d ∈ cells c xs := by
 induction xs generalizing c with
 | nil => simp [cells,show c = d from seg]
 | cons x rest ih => exact mem_cons_of_mem c (ih seg.2.2)
lemma seg_prev (seg : Seg l c xs d) {x : Elem} (mem : x ∈ xs) : l.prev x ≠ none := by
 induction xs generalizing c with
 | nil => simp at mem
 | cons y rest ih =>
  rcases mem_cons.mp mem with rfl | later
  · simp [seg.2.1]
  · exact ih seg.2.2 later
lemma seg_congr (seg : Seg l c xs d) (once : (cells c xs).Nodup)
 (sameCells : ∀ e ∈ cells c xs, e ≠ d -> l'.cell e = l.cell e) (prev : ∀ x ∈ xs, l'.prev x = l.prev x) :
 Seg l' c xs d := by
 induction xs generalizing c with
 | nil => exact seg
 | cons x rest ih =>
  obtain ⟨pts,back,seg⟩ := seg
  have ne : c ≠ d := by
   rintro rfl
   exact (nodup_cons.mp once).1 (seg_end_mem seg)
  refine ⟨?_,?_,ih seg (nodup_cons.mp once).2 ?_ ?_⟩
  · rw [sameCells c (by simp [cells]) ne,pts]
  · rw [prev x (by simp),back]
  · exact fun e mem => sameCells e (mem_cons_of_mem c mem)
  · exact fun y mem => prev y (mem_cons_of_mem x mem)
lemma nodup_cells {q : Head} (once : xs.Nodup) : (cells (.first q) xs).Nodup := by
 refine nodup_cons.mpr ⟨by simp,once.map ?_⟩
 intro x y eq
 exact Cell.next.inj eq

end

section
variable {Head : Type u} {Elem : Type v} [DecidableEq Head] [DecidableEq Elem] {l l' : Links Head Elem}
variable {q : Head} {x y : Elem} {c : Cell Head Elem}
lemma entry_init_cell (pts : (TAILQ_ENTRY_INIT l x).cell c = some y) : l.cell c = some y := by
 by_cases own : c = .next x
 · simp [TAILQ_ENTRY_INIT,own] at pts
 · simpa [TAILQ_ENTRY_INIT,own] using pts
lemma insert_tail_cell (pts : (TAILQ_INSERT_TAIL l q x).cell c = some y) : y = x ∨ l.cell c = some y := by
 by_cases final : c = l.last q
 · exact .inl (by simpa [TAILQ_INSERT_TAIL,final,eq_comm] using pts)
 by_cases own : c = .next x
 · subst own
   simp [TAILQ_INSERT_TAIL,final] at pts
 · exact .inr (by simpa [TAILQ_INSERT_TAIL,final,own] using pts)
lemma remove_cell (gone : TAILQ_REMOVE l q x = some l') (pts : l'.cell c = some y) :
 ∃ d, l.cell d = some y := by
 unfold TAILQ_REMOVE at gone
 cases back : l.prev x with
 | none => simp [back] at gone
 | some p =>
  simp only [back,Option.some.injEq] at gone
  subst gone
  by_cases written : c = p
  · exact ⟨.next x,by simpa [written] using pts⟩
  · exact ⟨c,by simpa [written] using pts⟩

end

section
variable {Head : Type u} {Elem : Type v} {l : Links Head Elem} {lists : Head -> List Elem}
def Queue (l : Links Head Elem) (q : Head) (xs : List Elem) : Prop :=
 Seg l (.first q) xs (l.last q) ∧ l.cell (l.last q) = none
structure Represents (l : Links Head Elem) (lists : Head -> List Elem) : Prop where
 queue : ∀ q, Queue l q (lists q)
 once : ∀ q, (lists q).Nodup
 apart : ∀ {q r x}, x ∈ lists q -> x ∈ lists r -> q = r

variable {xs : List Elem}
lemma queue_first {q : Head} (queue : Queue l q xs) : TAILQ_FIRST l q = xs.head? := by
 obtain ⟨seg,ends⟩ := queue
 cases xs with
 | nil => rwa [<- show Cell.first q = l.last q from seg] at ends
 | cons x rest => exact seg.1
lemma queue_congr {l' : Links Head Elem} {q : Head} (queue : Queue l q xs) (once : xs.Nodup)
 (sameLast : l'.last q = l.last q) (sameCells : ∀ e ∈ cells (.first q) xs, l'.cell e = l.cell e)
 (prev : ∀ x ∈ xs, l'.prev x = l.prev x) : Queue l' q xs := by
 obtain ⟨seg,ends⟩ := queue
 refine ⟨?_,?_⟩
 · rw [sameLast]
   exact seg_congr seg (nodup_cells once) (fun e mem _ => sameCells e mem) prev
 · rw [sameLast,sameCells _ (seg_end_mem seg),ends]
lemma represents_empty : Represents (Links.empty : Links Head Elem) (fun _ => []) :=
 {queue := fun _ => ⟨rfl,rfl⟩, once := by simp, apart := by simp}

namespace Represents

section
variable (rep : Represents l lists)
include rep
lemma last_mem (q : Head) : l.last q ∈ cells (.first q) (lists q) :=
 seg_end_mem (rep.queue q).1
lemma cells_apart {q r : Head} (ne : r ≠ q) {e : Cell Head Elem}
 (inside : e ∈ cells (.first r) (lists r)) : e ∉ cells (.first q) (lists q) := by
 intro both
 simp only [cells,mem_cons,mem_map] at inside both
 rcases inside with rfl | ⟨x,mem,rfl⟩
 · simp [ne] at both
 obtain ⟨y,mem',eq⟩ := both.resolve_left (by simp)
 exact ne (rep.apart mem (Cell.next.inj eq ▸ mem'))
lemma other_queue {l' : Links Head Elem} {q r : Head} (ne : r ≠ q)
 (sameLast : l'.last r = l.last r)
 (sameCells : ∀ e, e ∉ cells (.first q) (lists q) -> (∀ x, e = .next x -> ∃ r, x ∈ lists r) ->
  l'.cell e = l.cell e)
 (prev : ∀ x ∈ lists r, l'.prev x = l.prev x) : Queue l' r (lists r) := by
 refine queue_congr (rep.queue r) (rep.once r) sameLast ?_ prev
 intro e mem
 refine sameCells e (rep.cells_apart ne mem) ?_
 rintro x rfl
 exact ⟨r,by simpa [cells] using mem⟩
end

variable [DecidableEq Head] [DecidableEq Elem]
lemma insert_tail (rep : Represents l lists) {q : Head} {x : Elem} (new : ∀ r, x ∉ lists r) :
 Represents (TAILQ_INSERT_TAIL l q x) (update lists q (lists q ++ [x])) := by
 have notLast : Cell.next x ≠ l.last q := by
  intro eq
  have mem := rep.last_mem q
  rw [<- eq] at mem
  exact new q (by simpa [cells] using mem)
 refine ⟨?_,?_,?_⟩
 · intro r
   by_cases eq : r = q
   · subst eq
     rw [update_self]
     refine ⟨(seg_append (lists r) [x]).mpr ⟨l.last r,?_,?_⟩,?_⟩
     · refine seg_congr (rep.queue r).1 (nodup_cells (rep.once r)) ?_ ?_
       · intro e inside pre
         have ne : e ≠ Cell.next x := by
          rintro rfl
          exact new r (by simpa [cells] using inside)
         simp [TAILQ_INSERT_TAIL,pre,ne]
       intro y mem
       have ne : y ≠ x := by
        rintro rfl
        exact new r mem
       simp [TAILQ_INSERT_TAIL,ne]
     · simp [TAILQ_INSERT_TAIL,Seg]
     · simp [TAILQ_INSERT_TAIL,notLast]
   rw [update_of_ne eq]
   refine rep.other_queue eq ?_ ?_ ?_
   · simp [TAILQ_INSERT_TAIL,eq]
   · intro e out link
     have pre : e ≠ l.last q := by
      rintro rfl
      exact out (rep.last_mem q)
     have ne : e ≠ Cell.next x := by
      rintro rfl
      obtain ⟨r',mem⟩ := link x rfl
      exact new r' mem
     simp [TAILQ_INSERT_TAIL,pre,ne]
   intro y mem
   have ne : y ≠ x := by
    rintro rfl
    exact new r mem
   simp [TAILQ_INSERT_TAIL,ne]
 · exact once_update rep.once (by simpa using (rep.once q).concat (new q))
 · exact apart_insert rep.apart new (by simp)
lemma removed_queue {q : Head} {pre post : List Elem} {x : Elem}
 (queue : Queue l q (pre ++ x :: post)) (once : (pre ++ x :: post).Nodup) :
 ∃ l', TAILQ_REMOVE l q x = some l' ∧ Queue l' q (pre ++ post) ∧ (∀ r, r ≠ q -> l'.last r = l.last r) ∧
  (∀ e, e ∉ cells (.first q) pre -> l'.cell e = l.cell e) ∧ (∀ y ∉ post, l'.prev y = l.prev y) := by
 obtain ⟨whole,ends⟩ := queue
 obtain ⟨p,seg,pts,back,rest⟩ := (seg_append pre (x :: post)).mp whole
 have inside : p ∈ cells (.first q) pre := seg_end_mem seg
 obtain ⟨oncePre,onceRest,disjoint⟩ := nodup_append.mp once
 -- the cells behind the gone element are none of those before it
 have behind : ∀ y ∈ x :: post, Cell.next y ≠ p := by
  rintro y later rfl
  exact disjoint y (by simpa [cells] using inside) y later rfl
 have out : ∀ e, e ∉ cells (.first q) pre -> e ≠ p := by
  rintro e ne rfl
  exact ne inside
 cases post with
 | nil =>
  have final : l.last q = .next x := (show Cell.next x = l.last q from rest).symm
  have null : l.cell (.next x) = none := by rw [<- final,ends]
  refine ⟨_,by simp only [TAILQ_REMOVE,back,null]; rfl,?_,?_,?_,?_⟩
  · rw [append_nil]
    refine ⟨?_,by simp⟩
    simp only [update_self]
    exact seg_congr seg (nodup_cells oncePre) (fun e _ before => by simp [before]) fun y _ => rfl
  · intro r ne
    simp [ne]
  · intro e ne
    simp [out e ne]
  · simp
 | cons y post =>
  obtain ⟨follows,backNext,rest⟩ := rest
  refine ⟨_,by simp only [TAILQ_REMOVE,back,follows]; rfl,?_,?_,?_,?_⟩
  · have ending : l.last q ≠ p := by
     intro eq
     obtain ⟨z,later,final⟩ := mem_map.mp (show l.last q ∈ (y :: post).map Cell.next from seg_end_mem rest)
     exact behind z (mem_cons_of_mem x later) (final.trans eq)
    refine ⟨(seg_append pre (y :: post)).mpr ⟨p,?_,by simp,by simp,?_⟩,?_⟩
    · refine seg_congr seg (nodup_cells oncePre) (fun e _ before => by simp [before]) ?_
      intro z earlier
      have unlike : z ≠ y := disjoint z earlier y (by simp)
      simp [unlike]
    · refine seg_congr rest ?_ ?_ ?_
      · exact (nodup_cons.mp onceRest).2.map fun a b eq => Cell.next.inj eq
      · intro e mem _
        obtain ⟨z,later,rfl⟩ := mem_map.mp (show e ∈ (y :: post).map Cell.next from mem)
        simp [behind z (mem_cons_of_mem x later)]
      intro z later
      have unlike : z ≠ y := by
       rintro rfl
       exact (nodup_cons.mp (nodup_cons.mp onceRest).2).1 later
      simp [unlike]
    · simp [ending,ends]
  · simp
  · intro e ne
    simp [out e ne]
  intro z ne
  have unlike : z ≠ y := fun eq => ne (by simp [eq])
  simp [unlike]
lemma remove (rep : Represents l lists) {q : Head} {x : Elem} (mem : x ∈ lists q) :
 ∃ l', TAILQ_REMOVE l q x = some l' ∧ Represents l' (update lists q ((lists q).erase x)) ∧
  (∀ y, (∀ r, y ∉ lists r) -> l'.cell (.next y) = l.cell (.next y) ∧ l'.prev y = l.prev y) := by
 obtain ⟨pre,post,split⟩ := append_of_mem mem
 have once := rep.once q
 have queue := rep.queue q
 rw [split] at once queue
 have less : (lists q).erase x = pre ++ post := by rw [split,erase_middle once]
 have sublist := sublist_update (h := q) (erase_sublist : ((lists q).erase x).Sublist (lists q))
 obtain ⟨l',gone,queue,sameLast,sameCells,prev⟩ := removed_queue queue once
 have preCells : ∀ e, e ∉ cells (.first q) (lists q) -> e ∉ cells (.first q) pre := by
  intro e ne inside
  rw [split] at ne
  simp only [cells,map_append,mem_cons,mem_append] at ne inside
  tauto
 refine ⟨l',gone,⟨?_,?_,?_⟩,?_⟩
 · intro r
   by_cases eq : r = q
   · subst eq
     rwa [update_self,less]
   rw [update_of_ne eq]
   refine rep.other_queue eq (sameLast r eq) (fun e ne _ => sameCells e (preCells e ne)) ?_
   intro y inside
   refine prev y fun later => eq (rep.apart inside (r := q) ?_)
   simp [split,later]
 · exact fun r => (rep.once r).sublist (sublist r)
 · exact fun fst snd => rep.apart ((sublist _).subset fst) ((sublist _).subset snd)
 intro y loose
 refine ⟨sameCells _ (preCells _ ?_),prev y (fun later => loose q (by simp [split,later]))⟩
 simpa [cells] using loose q
lemma entry_init (rep : Represents l lists) {x : Elem} (loose : ∀ r, x ∉ lists r) :
 Represents (TAILQ_ENTRY_INIT l x) lists := by
 refine ⟨fun q => queue_congr (rep.queue q) (rep.once q) rfl ?_ ?_,rep.once,rep.apart⟩
 · intro e inside
   have ne : e ≠ .next x := by
    rintro rfl
    exact loose q (by simpa [cells] using inside)
   simp [TAILQ_ENTRY_INIT,ne]
 intro y mem
 have ne : y ≠ x := by
  rintro rfl
  exact loose q mem
 simp [TAILQ_ENTRY_INIT,ne]

end Represents
structure Tidy (l : Links Head Elem) (lists : Head -> List Elem) : Prop extends Represents l lists where
 clear : ∀ x, (∀ q, x ∉ lists q) -> l.cell (.next x) = none ∧ l.prev x = none
lemma tidy_empty : Tidy (Links.empty : Links Head Elem) (fun _ => []) :=
 {represents_empty with clear := fun _ _ => ⟨rfl,rfl⟩}

namespace Tidy
lemma entry_empty (tidy : Tidy l lists) (x : Elem) : TAILQ_ENTRY_EMPTY l x = true ↔ ∀ q, x ∉ lists q := by
 constructor
 · intro nil q mem
   have link := seg_prev (tidy.queue q).1 mem
   simp only [TAILQ_ENTRY_EMPTY,Bool.and_eq_true,Option.isNone_iff_eq_none] at nil
   exact link nil.2
 intro loose
 simp [TAILQ_ENTRY_EMPTY,tidy.clear x loose]

variable [DecidableEq Head] [DecidableEq Elem]
lemma insert_tail (tidy : Tidy l lists) {q : Head} {x : Elem} (new : ∀ r, x ∉ lists r) :
 Tidy (TAILQ_INSERT_TAIL l q x) (update lists q (lists q ++ [x])) := by
 refine ⟨tidy.toRepresents.insert_tail new,?_⟩
 intro y loose
 have ne : y ≠ x := by
  rintro rfl
  simpa using loose q
 have old : ∀ r, y ∉ lists r := by
  intro r mem
  by_cases eq : r = q
  · subst eq
    exact loose r (by simp [mem])
  · exact loose r (by simpa [eq] using mem)
 have pre : Cell.next y ≠ l.last q := by
  intro eq
  have mem := tidy.last_mem q
  rw [<- eq] at mem
  exact old q (by simpa [cells] using mem)
 simpa [TAILQ_INSERT_TAIL,ne,pre] using tidy.clear y old
lemma remove_clear (tidy : Tidy l lists) {q : Head} {x : Elem} (mem : x ∈ lists q) :
 ∃ l', TAILQ_REMOVE l q x = some l' ∧
  Tidy (TAILQ_ENTRY_INIT l' x) (update lists q ((lists q).erase x)) := by
 obtain ⟨l',removed,rep,kept⟩ := tidy.toRepresents.remove mem
 have gone : ∀ r, x ∉ update lists q ((lists q).erase x) r := by
  intro r
  by_cases eq : r = q
  · subst eq
    simpa using (tidy.once r).not_mem_erase
  intro ne
  rw [update_of_ne eq] at ne
  exact eq (tidy.apart ne mem)
 refine ⟨l',removed,rep.entry_init gone,?_⟩
 intro y loose
 by_cases eq : y = x
 · simp [TAILQ_ENTRY_INIT,eq]
 have old : ∀ r, y ∉ lists r := by
  intro r link
  refine loose r ?_
  by_cases here : r = q
  · subst here
    simpa using (mem_erase_of_ne eq).mpr link
  · rwa [update_of_ne here]
 obtain ⟨sameCell,prev⟩ := kept y old
 simpa [TAILQ_ENTRY_INIT,eq,sameCell,prev] using tidy.clear y old

end Tidy
end
end Netbas.TailQueues
