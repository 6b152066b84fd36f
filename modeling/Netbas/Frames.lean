import Netbas.Chains
import Netbas.Words

/-!
The physical frame allocator of `cpu/i386/mm/page.c`. Free frames form a list through `next_hole`:
`Linked` says that it visits only free frames, and `Listed` that it visits all of them.
-/
namespace Netbas.Frames
open Chains Words List
open Function
def HOLE_NULL : Int := -1
structure PgmapsStruct where
 count : Int
 prev_hole : Int
 next_hole : Int
deriving DecidableEq

/-- The globals of `page.c`. The table is indexed by C `int`s: what lies outside
  its `PHI_BLOCKS` entries is the memory around it. -/
structure PageMap where
 LOW_MEM : Nat
 HIGH_MEM : Nat
 PHI_BLOCKS : Int
 hole_head_pos : Int
 hole_tail_pos : Int
 hole_max : Int
 phy_usable_map : Int -> PgmapsStruct
def u32 (x : Int) : Nat := (x % 2^32).toNat
def PT_PFNMASK : Nat := 0xfffff000
def USER_SPACE_ADDR : Nat := 0x80000000
def PTOB (x : Int) : Nat := u32 x * 4096 % 2^32

namespace PageMap
def count (s : PageMap) (i : Int) : Int := (s.phy_usable_map i).count
section
variable (s : PageMap)
def prev (i : Int) : Int := (s.phy_usable_map i).prev_hole
def next (i : Int) : Int := (s.phy_usable_map i).next_hole
def setCount (i v : Int) : PageMap :=
 {s with phy_usable_map := update s.phy_usable_map i {s.phy_usable_map i with count := v}}
def setPrev (i v : Int) : PageMap :=
 {s with phy_usable_map := update s.phy_usable_map i {s.phy_usable_map i with prev_hole := v}}
def setNext (i v : Int) : PageMap :=
 {s with phy_usable_map := update s.phy_usable_map i {s.phy_usable_map i with next_hole := v}}
def address (i : Int) : Nat := (PTOB i + s.LOW_MEM) % 2^32
def MAP_NR (addr : Nat) : Nat := (addr + 2^32 - s.LOW_MEM) % 2^32 / 4096
end

end PageMap
lemma pfnmask_eq {x : Nat} (word : x < 2^32) : x &&& PT_PFNMASK = x / 4096 * 4096 :=
 land_high_mask (w := 32) (k := 12) (by norm_num) word
def CHECK_PHY_PAGE (s : PageMap) (page : Nat) : Int :=
 if page < s.LOW_MEM ∨ page ≥ s.HIGH_MEM then -1 else 0
def slot_entry (s : PageMap) (i : Nat) : PageMap :=
 ((s.setCount i 0).setPrev i (i - 1)).setNext i (i + 1)
def memory_slot_init (LOW_MEM HIGH_MEM : Nat) (start : Int -> PgmapsStruct) (size : Int) : PageMap :=
 let s : PageMap := ⟨LOW_MEM,HIGH_MEM,size,0,size - 1,size - 1,start⟩
 let s := ((s.setPrev 0 HOLE_NULL).setNext 0 1).setCount 0 0
 let s := (range' 1 (size.toNat - 1)).foldl slot_entry s
 s.setNext s.hole_tail_pos HOLE_NULL
def get_page (s : PageMap) : Option (Nat × PageMap) :=
 if s.hole_head_pos = s.hole_tail_pos then
  -- The last frame: the source resets the head and marks the entry there.
  let s' := {s with hole_head_pos := 0}
  some (s.address s.hole_tail_pos,s'.setCount s'.hole_head_pos 1)
 else if s.hole_head_pos = HOLE_NULL then none
 else
  let tmp := s.hole_head_pos
  let s' := {s with hole_head_pos := s.next tmp}
  let s' := s'.setPrev s'.hole_head_pos HOLE_NULL
  some (s.address tmp,s'.setCount tmp 1)
def free_page (s : PageMap) (addr : Nat) : Int × PageMap :=
 let idx : Int := s.MAP_NR addr
 if CHECK_PHY_PAGE s addr ≠ 0 then (-1,s)
 else if idx > s.hole_max then (-1,s)
 else if s.count idx = 0 then (-1,s)
 else
  let old := s.count idx
  let s := s.setCount idx (old - 1)
  if old = 1 then
   if s.hole_head_pos = HOLE_NULL then
    let s := {s with hole_head_pos := idx, hole_tail_pos := idx}
    let s := s.setNext s.hole_head_pos HOLE_NULL
    (0,s.setPrev s.hole_head_pos HOLE_NULL)
   else
    let s := s.setNext s.hole_tail_pos idx
    let s := s.setPrev idx s.hole_tail_pos
    let s := s.setNext idx HOLE_NULL
    (0,{s with hole_tail_pos := idx})
  else (0,s)

section
variable (s : PageMap) (i v : Int)
lemma field_update {α β : Type} (g : α -> β) (f : Int -> α) (e : α) :
 (fun j => g (update f i e j)) = update (fun j => g (f j)) i (g e) := by
 funext j
 by_cases eq : j = i
 · subst eq; simp
 · simp [eq]
@[simp] lemma setCount_count : (s.setCount i v).count = update s.count i v := field_update i _ _ _
@[simp] lemma setPrev_prev : (s.setPrev i v).prev = update s.prev i v := field_update i _ _ _
@[simp] lemma setNext_next : (s.setNext i v).next = update s.next i v := field_update i _ _ _
@[simp] lemma setPrev_count : (s.setPrev i v).count = s.count :=
 (field_update i _ _ _).trans (update_eq_self i s.count)
@[simp] lemma setNext_count : (s.setNext i v).count = s.count :=
 (field_update i _ _ _).trans (update_eq_self i s.count)
@[simp] lemma setCount_prev : (s.setCount i v).prev = s.prev :=
 (field_update i _ _ _).trans (update_eq_self i s.prev)
@[simp] lemma setNext_prev : (s.setNext i v).prev = s.prev :=
 (field_update i _ _ _).trans (update_eq_self i s.prev)
@[simp] lemma setCount_next : (s.setCount i v).next = s.next :=
 (field_update i _ _ _).trans (update_eq_self i s.next)
@[simp] lemma setPrev_next : (s.setPrev i v).next = s.next :=
 (field_update i _ _ _).trans (update_eq_self i s.next)

end
structure Linked (s : PageMap) (l : List Int) : Prop where
 bound : s.hole_max = s.PHI_BLOCKS - 1
 walk : Follows s.next s.hole_head_pos l s.hole_tail_pos
 once : (l ++ [s.hole_tail_pos]).Nodup
 free : ∀ f ∈ l ++ [s.hole_tail_pos], 0 ≤ f ∧ f < s.PHI_BLOCKS ∧ s.count f = 0
structure Listed (s : PageMap) (l : List Int) : Prop extends Linked s l where
 all : ∀ f, 0 ≤ f -> f < s.PHI_BLOCKS -> s.count f = 0 -> f ∈ l ++ [s.hole_tail_pos]

variable {l : List Int}
lemma listed_iff {s : PageMap} (listed : Listed s l) (f : Int) :
 f ∈ l ++ [s.hole_tail_pos] ↔ 0 ≤ f ∧ f < s.PHI_BLOCKS ∧ s.count f = 0 :=
 ⟨listed.free f,fun ⟨low,high,zero⟩ => listed.all f low high zero⟩
lemma linked_head {s : PageMap} (link : Linked s l) :
 0 ≤ s.hole_head_pos ∧ s.hole_head_pos < s.PHI_BLOCKS ∧ s.count s.hole_head_pos = 0 :=
 link.free s.hole_head_pos (follows_first_mem link.walk)
lemma linked_not_null {s : PageMap} (link : Linked s l) : s.hole_head_pos ≠ HOLE_NULL := by
 have := linked_head link
 unfold HOLE_NULL
 omega
lemma tail_not_before {s : PageMap} (link : Linked s l) : s.hole_tail_pos ∉ l := by
 have once := nodup_append.mp link.once
 intro mem
 exact once.2.2 _ mem _ (by simp) rfl
lemma follows_range {next : Int -> Int} (fst : Int) (k : Nat) (right : ∀ i < k, next (fst + i) = fst + i + 1) :
 Follows next fst ((range k).map (fun i : Nat => fst + i)) (fst + k) := by
 induction k with
 | zero => simp [Follows]
 | succ k ih =>
  have pre := ih fun i lt => right i (by omega)
  rw [range_succ,map_append]
  refine (follows_append _ _).mpr ⟨fst + k,pre,?_⟩
  simp only [map_cons,map_nil,Follows,true_and]
  rw [right k (by omega)]
  push_cast
  ring
def SameGlobals (s s' : PageMap) : Prop :=
 s'.hole_head_pos = s.hole_head_pos ∧ s'.hole_tail_pos = s.hole_tail_pos ∧ s'.hole_max = s.hole_max ∧
  s'.PHI_BLOCKS = s.PHI_BLOCKS ∧ s'.LOW_MEM = s.LOW_MEM ∧ s'.HIGH_MEM = s.HIGH_MEM
lemma slot_entries (s : PageMap) (k : Nat) :
 SameGlobals s ((range' 1 k).foldl slot_entry s) ∧ ∀ j : Int,
  ((range' 1 k).foldl slot_entry s).count j = (if 1 ≤ j ∧ j ≤ k then 0 else s.count j) ∧
  ((range' 1 k).foldl slot_entry s).prev j = (if 1 ≤ j ∧ j ≤ k then j - 1 else s.prev j) ∧
  ((range' 1 k).foldl slot_entry s).next j = (if 1 ≤ j ∧ j ≤ k then j + 1 else s.next j) := by
 induction k with
 | zero =>
  refine ⟨⟨rfl,rfl,rfl,rfl,rfl,rfl⟩,?_⟩
  intro j
  have none : ¬ (1 ≤ j ∧ j ≤ ((0 : Nat) : Int)) := by omega
  simp only [none,↓reduceIte]
  exact ⟨rfl,rfl,rfl⟩
 | succ k ih =>
  obtain ⟨globals,table⟩ := ih
  rw [range'_1_concat,foldl_append]
  refine ⟨globals,?_⟩
  intro j
  simp only [foldl_cons,foldl_nil,slot_entry,setNext_count,setPrev_count,setCount_count,setNext_prev,
   setPrev_prev,setCount_prev,setNext_next,setPrev_next,setCount_next]
  by_cases eq : j = ((1 + k : Nat) : Int)
  · subst eq
    simp
    omega
  have grown : (1 ≤ j ∧ j ≤ ((k + 1 : Nat) : Int)) ↔ (1 ≤ j ∧ j ≤ (k : Int)) := by omega
  simp only [update_of_ne eq,grown]
  exact table j
lemma memory_slot_init_table (LOW_MEM HIGH_MEM : Nat) (start : Int -> PgmapsStruct) {size : Int} (two : 2 ≤ size) :
  let s := memory_slot_init LOW_MEM HIGH_MEM start size
  SameGlobals ⟨LOW_MEM,HIGH_MEM,size,0,size - 1,size - 1,start⟩ s ∧ ∀ j, 0 ≤ j -> j < size ->
   s.count j = 0 ∧ s.prev j = j - 1 ∧ s.next j = if j = size - 1 then HOLE_NULL else j + 1 := by
 intro s
 obtain ⟨globals,table⟩ := slot_entries
  ((((⟨LOW_MEM,HIGH_MEM,size,0,size - 1,size - 1,start⟩ : PageMap).setPrev 0 HOLE_NULL).setNext 0 1).setCount 0 0)
  (size.toNat - 1)
 refine ⟨globals,?_⟩
 intro j low high
 obtain ⟨counts,prevs,nexts⟩ := table j
 simp only [s,memory_slot_init,setNext_count,setNext_prev,setNext_next]
 rw [counts,prevs,show ∀ t : PageMap, t.hole_tail_pos = size - 1 -> update t.next t.hole_tail_pos HOLE_NULL j =
  if j = size - 1 then HOLE_NULL else t.next j by intro t last; rw [last]; simp [update_apply]]
 · rw [nexts]
   by_cases zero : j = 0
   · subst zero
     simp [HOLE_NULL]
   have mem : 1 ≤ j ∧ j ≤ ((size.toNat - 1 : Nat) : Int) := by omega
   rw [if_pos mem,if_pos mem,if_pos mem]
   exact ⟨rfl,rfl,rfl⟩
 · exact globals.2.1
lemma memory_slot_init_listed (LOW_MEM HIGH_MEM : Nat) (start : Int -> PgmapsStruct) {size : Int} (two : 2 ≤ size) :
 ∃ l, Listed (memory_slot_init LOW_MEM HIGH_MEM start size) l := by
 obtain ⟨⟨head,tail,max,blocks,_,_⟩,table⟩ := memory_slot_init_table LOW_MEM HIGH_MEM start two
 set s := memory_slot_init LOW_MEM HIGH_MEM start size
 dsimp only at head tail max blocks
 refine ⟨(range (size.toNat - 1)).map (fun i : Nat => (0 : Int) + i),⟨?_,?_,?_,?_⟩,?_⟩
 · rw [max,blocks]
 · rw [head,tail]
   have successors : ∀ i : Nat, i < size.toNat - 1 -> s.next (0 + i) = 0 + i + 1 := by
    intro i lt
    rw [(table _ (by omega) (by omega)).2.2,if_neg (by omega)]
   have walk := follows_range 0 (size.toNat - 1) successors
   rwa [show (0 : Int) + ((size.toNat - 1 : Nat) : Int) = size - 1 by omega] at walk
 · rw [tail]
   refine nodup_append.mpr ⟨?_,by simp,?_⟩
   · exact nodup_range.map fun a b eq => by simpa using eq
   intro a mem b last
   simp only [mem_map,mem_range,mem_singleton] at mem last
   obtain ⟨i,lt,rfl⟩ := mem
   omega
 · intro f mem
   rw [tail] at mem
   rw [blocks]
   simp only [mem_append,mem_map,mem_range,mem_singleton] at mem
   have inside : 0 ≤ f ∧ f < size := by
    rcases mem with ⟨i,lt,rfl⟩ | rfl <;> omega
   exact ⟨inside.1,inside.2,(table f inside.1 inside.2).1⟩
 intro f low high _
 rw [blocks] at high
 simp only [tail,mem_append,mem_map,mem_range,mem_singleton]
 by_cases last : f = size - 1
 · exact .inr last
 · exact .inl ⟨f.toNat,by omega,by omega⟩
lemma get_page_linked {s : PageMap} (link : Linked s l) (spare : s.hole_head_pos ≠ s.hole_tail_pos) :
 ∃ s' rest, get_page s = some (s.address s.hole_head_pos,s') ∧ l = s.hole_head_pos :: rest ∧ Linked s' rest ∧
  s'.count = update s.count s.hole_head_pos 1 ∧ s'.hole_tail_pos = s.hole_tail_pos ∧
  s'.PHI_BLOCKS = s.PHI_BLOCKS ∧ s'.LOW_MEM = s.LOW_MEM ∧ s'.HIGH_MEM = s.HIGH_MEM := by
 obtain ⟨rest,split,walk⟩ := follows_cons_of_ne link.walk spare
 subst split
 have once := link.once
 simp only [cons_append,nodup_cons] at once
 set s' := (({s with hole_head_pos := s.next s.hole_head_pos} : PageMap).setPrev (s.next s.hole_head_pos)
  HOLE_NULL).setCount s.hole_head_pos 1 with s'Is
 have counts : s'.count = update s.count s.hole_head_pos 1 := by
  rw [s'Is,setCount_count,setPrev_count]
  rfl
 have links : s'.next = s.next := by
  rw [s'Is,setCount_next,setPrev_next]
  rfl
 refine ⟨s',rest,?_,rfl,⟨link.bound,?_,once.2,?_⟩,counts,rfl,rfl,rfl,rfl⟩
 · unfold get_page
   rw [if_neg spare,if_neg (linked_not_null link)]
 · rw [links]; exact walk
 intro f mem
 have pre := link.free f (by simp only [cons_append,mem_cons]; exact .inr mem)
 have ne : f ≠ s.hole_head_pos := fun eq => once.1 (eq ▸ mem)
 rw [counts,update_of_ne ne]
 exact pre
lemma get_page_spare {s : PageMap} (listed : Listed s l) (spare : s.hole_head_pos ≠ s.hole_tail_pos) :
 ∃ s' rest, get_page s = some (s.address s.hole_head_pos,s') ∧ Listed s' rest ∧
  s'.count = update s.count s.hole_head_pos 1 := by
 obtain ⟨s',rest,ran,split,link,counts,tail,blocks,_⟩ := get_page_linked listed.toLinked spare
 refine ⟨s',rest,ran,⟨link,?_⟩,counts⟩
 intro f low high zero
 rw [blocks] at high
 have ne : f ≠ s.hole_head_pos := by
  rintro rfl
  rw [counts,update_self] at zero
  cases zero
 rw [counts,update_of_ne ne] at zero
 have mem := listed.all f low high zero
 rw [split,cons_append,mem_cons] at mem
 rw [tail]
 exact mem.resolve_left ne
lemma get_page_last {s : PageMap} (last : s.hole_head_pos = s.hole_tail_pos) :
 ∃ s', get_page s = some (s.address s.hole_tail_pos,s') ∧ s'.hole_head_pos = 0 ∧
  s'.hole_tail_pos = s.hole_tail_pos ∧ s'.PHI_BLOCKS = s.PHI_BLOCKS ∧ s'.count = update s.count 0 1 := by
 refine ⟨({s with hole_head_pos := 0} : PageMap).setCount 0 1,?_,rfl,rfl,rfl,by rw [setCount_count]; rfl⟩
 unfold get_page
 rw [if_pos last]
lemma free_page_cases {s : PageMap} (addr : Nat) (notNull : s.hole_head_pos ≠ HOLE_NULL) :
 (free_page s addr = (-1,s) ∧
   (CHECK_PHY_PAGE s addr ≠ 0 ∨ (s.MAP_NR addr : Int) > s.hole_max ∨ s.count (s.MAP_NR addr) = 0)) ∨
  ∃ s', free_page s addr = (0,s') ∧ CHECK_PHY_PAGE s addr = 0 ∧ (s.MAP_NR addr : Int) ≤ s.hole_max ∧
   s.count (s.MAP_NR addr) ≠ 0 ∧ s'.count = update s.count (s.MAP_NR addr) (s.count (s.MAP_NR addr) - 1) ∧
   s'.hole_head_pos = s.hole_head_pos ∧ s'.hole_max = s.hole_max ∧ s'.PHI_BLOCKS = s.PHI_BLOCKS ∧
   s'.LOW_MEM = s.LOW_MEM ∧ s'.HIGH_MEM = s.HIGH_MEM ∧
   ((s.count (s.MAP_NR addr) ≠ 1 ∧ s'.hole_tail_pos = s.hole_tail_pos ∧ s'.next = s.next) ∨
    (s.count (s.MAP_NR addr) = 1 ∧ s'.hole_tail_pos = s.MAP_NR addr ∧
     s'.next = update (update s.next s.hole_tail_pos (s.MAP_NR addr))
      (s.MAP_NR addr) HOLE_NULL)) := by
 unfold free_page
 dsimp only
 set idx : Int := (s.MAP_NR addr : Int) with idxIs
 split_ifs with out beyond unused last none
 · exact .inl ⟨rfl,.inl out⟩
 · exact .inl ⟨rfl,.inr (.inl beyond)⟩
 · exact .inl ⟨rfl,.inr (.inr unused)⟩
 · exact absurd none notNull
 · refine .inr ⟨_,rfl,not_not.mp out,not_lt.mp beyond,unused,?_,rfl,rfl,rfl,rfl,rfl,.inr ⟨last,rfl,?_⟩⟩
   · show (PageMap.setNext _ _ _).count = _
     rw [setNext_count,setPrev_count,setNext_count,setCount_count]
   show (PageMap.setNext _ _ _).next = _
   rw [setNext_next,setPrev_next,setNext_next,setCount_next]
   rfl
 exact .inr ⟨_,rfl,not_not.mp out,not_lt.mp beyond,unused,setCount_count _ _ _,rfl,rfl,rfl,rfl,rfl,
  .inl ⟨last,rfl,setCount_next _ _ _⟩⟩
lemma free_page_linked {s : PageMap} (link : Linked s l) (addr : Nat) :
 ∃ l', Linked (free_page s addr).2 l' ∧ (l' = l ∨ l' = l ++ [s.hole_tail_pos]) ∧
  ∀ f, f ∈ l' ++ [(free_page s addr).2.hole_tail_pos] ↔ f ∈ l ++ [s.hole_tail_pos] ∨
   (s.count f ≠ 0 ∧ (free_page s addr).2.count f = 0) := by
 rcases free_page_cases addr (linked_not_null link) with ⟨refused,_⟩ |
   ⟨s',freed,_,inside,used,counts,sameHead,sameMax,blocks,_,_,references⟩
 · rw [refused]
   exact ⟨l,link,.inl rfl,fun f => ⟨.inl,fun either => either.resolve_right (fun both => both.1 both.2)⟩⟩
 rw [freed]
 dsimp only
 set idx : Int := (s.MAP_NR addr : Int) with idxIs
 have bound : s'.hole_max = s'.PHI_BLOCKS - 1 := by rw [sameMax,blocks,link.bound]
 have away : idx ∉ l ++ [s.hole_tail_pos] := fun mem => used (link.free idx mem).2.2
 have others : ∀ f, f ≠ idx -> s'.count f = s.count f := by
  intro f ne
  rw [counts,update_of_ne ne]
 have here : s'.count idx = s.count idx - 1 := by rw [counts,update_self]
 rcases references with ⟨several,tail,links⟩ | ⟨last,tail,links⟩
 · -- References remain: no count becomes or stops being 0.
   refine ⟨l,⟨bound,by rw [sameHead,tail,links]; exact link.walk,by rw [tail]; exact link.once,?_⟩,.inl rfl,?_⟩
   · intro f mem
     rw [tail] at mem
     have ne : f ≠ idx := fun eq => away (eq ▸ mem)
     rw [blocks,others f ne]
     exact link.free f mem
   intro f
   rw [tail]
   refine ⟨.inl,fun either => either.resolve_right ?_⟩
   rintro ⟨some,none⟩
   by_cases eq : f = idx
   · rw [eq,here] at none
     omega
   rw [others f eq] at none
   exact some none
 -- The last reference: the frame joins the list behind the old tail.
 have zero : s'.count idx = 0 := by omega
 refine ⟨l ++ [s.hole_tail_pos],⟨bound,?_,?_,?_⟩,.inr rfl,?_⟩
 · rw [sameHead,tail,links]
   refine (follows_congr ?_).mp (follows_link link.walk (tail_not_before link) idx)
   intro f mem
   have ne : f ≠ idx := fun eq => away (eq ▸ mem)
   rw [update_of_ne ne]
 · rw [tail]
   exact nodup_append.mpr ⟨link.once,by simp,fun a mem b isIdx eq => away (by simp_all)⟩
 · intro f mem
   rw [tail,mem_append,mem_singleton] at mem
   rcases mem with mem | rfl
   · have ne : f ≠ idx := fun eq => away (eq ▸ mem)
     rw [blocks,others f ne]
     exact link.free f mem
   have := link.bound
   exact ⟨by omega,by omega,zero⟩
 intro f
 rw [tail,mem_append,mem_singleton]
 constructor
 · rintro (mem | rfl)
   · exact .inl mem
   · exact .inr ⟨used,zero⟩
 rintro (mem | ⟨some,none⟩)
 · exact .inl mem
 right
 by_contra ne
 rw [others f ne] at none
 exact some none
lemma free_page_listed {s : PageMap} (listed : Listed s l) (addr : Nat) :
 ∃ l', Listed (free_page s addr).2 l' := by
 obtain ⟨l',link,_,members⟩ := free_page_linked listed.toLinked addr
 have blocks : (free_page s addr).2.PHI_BLOCKS = s.PHI_BLOCKS := by
  rcases free_page_cases addr (linked_not_null listed.toLinked) with ⟨refused,_⟩ | ⟨s',freed,_,_,_,_,_,_,blocks,_⟩
  · rw [refused]
  · rw [freed]; exact blocks
 refine ⟨l',link,?_⟩
 intro f low high zero
 rw [members]
 by_cases pre : s.count f = 0
 · exact .inl (listed.all f low (by omega) pre)
 · exact .inr ⟨pre,zero⟩

end Netbas.Frames
