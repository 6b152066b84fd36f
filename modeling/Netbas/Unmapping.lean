import Netbas.PageSharing
import Netbas.SharedMemory

/-!
Unmapping pages of the current address space. `unmap_user_pages` counts the entries from the start
of the page table, and runs on behind it (`unmaps_iff`).
-/
namespace Netbas.Unmapping
open Frames FrameUse Paging PageTables PageSharing List
open SharedMemory (USER_SPACE_SIZE)
open Teardown (put_at)
open Function
structure Region where
 form_addr : Nat
 pages : Nat
 aligned : form_addr % 4096 = 0
 low : USER_SPACE_ADDR ≤ form_addr
 high : form_addr + pages * 4096 ≤ USER_SPACE_ADDR + USER_SPACE_SIZE
def Region.addr (r : Region) (i : Nat) : Nat := r.form_addr + i * 4096
def mappings (s : Machine) (pgdir : Nat) (r : Region) (k p : Nat) : Nat :=
 (range k).countP (fun i => walk s pgdir (r.addr i) = some p)

/-- The frame table covers the memory, and the entries of the region are blank or
  refer to pages which they are counted for. The flags of an entry do not reach
  over the end of the memory. -/
structure Usable (s : Machine) (pgdir : Nat) (r : Region) : Prop extends Space s pgdir where
 geometry : Geometry s.map
 bound : s.map.hole_max = s.map.PHI_BLOCKS - 1
 tables : ∀ i < r.pages, s.word pgdir (PDE_IDX (r.addr i)) = 0 ∨ HasTable s pgdir (r.addr i)
 entries : ∀ i < r.pages, HasTable s pgdir (r.addr i) -> pte s pgdir (r.addr i) = 0 ∨
  pte s pgdir (r.addr i) &&& PAGE_PRESENT ≠ 0 ∧ pte s pgdir (r.addr i) < 2^32 ∧
   (pte s pgdir (r.addr i) / 4096 * 4096 < s.map.HIGH_MEM -> pte s pgdir (r.addr i) < s.map.HIGH_MEM)
 counted : ∀ p, InMemory s.map p -> mappings s pgdir r r.pages p ≤ users s.map p
def unmapped (s : Machine) (pgdir : Nat) (r : Region) : Machine := unmap_user_pages s pgdir r.form_addr r.pages

/-- The entries of the region are cleared and nothing else is written; every page of
  the memory has one user less for each of the entries that mapped it, and the
  counts of all other frames are as they were. -/
structure Unmaps (s : Machine) (pgdir : Nat) (r : Region) : Prop where
 cleared : ∀ i < r.pages, HasTable s pgdir (r.addr i) -> pte (unmapped s pgdir r) pgdir (r.addr i) = 0
 others : ∀ pos, (∀ i < r.pages, HasTable s pgdir (r.addr i) -> pos ≠ slot s pgdir (r.addr i)) ->
  (unmapped s pgdir r).at pos = s.at pos
 dropped : ∀ p, InMemory s.map p -> users (unmapped s pgdir r).map p = users s.map p - mappings s pgdir r r.pages p
 kept : ∀ f, (∀ p, InMemory s.map p -> f ≠ frameOf s.map p) -> (unmapped s pgdir r).map.count f = s.map.count f

section
variable {s : Machine} {page k pos : Nat}

section
variable (page : Nat)
section
variable (s : Machine)
def rounds (k : Nat) : Machine := (range k).foldl (unmap_entry page) s
lemma rounds_succ (k : Nat) : rounds page s (k + 1) = unmap_entry page (rounds page s k) k := by
 rw [rounds,range_succ,foldl_append]
 rfl
lemma unmap_entry_at (i : Nat) : (unmap_entry page s i).at = update s.at (page + i) 0 := by
 rw [unmap_entry,put_at]
 split_ifs <;> rfl
lemma rounds_at (k pos : Nat) :
 (rounds page s k).at pos = if page ≤ pos ∧ pos < page + k then 0 else s.at pos := by
 induction k with
 | zero => rw [if_neg (by omega)]; rfl
 | succ k ih =>
  rw [rounds_succ,unmap_entry_at]
  by_cases last : pos = page + k
  · rw [last,update_self,if_pos (by omega)]
  rw [update_of_ne last,ih]
  exact if_congr (by omega) rfl rfl
lemma rounds_map (k : Nat) : (rounds page s (k + 1)).map =
 if s.at (page + k) ≠ 0 then (free_page (rounds page s k).map (s.at (page + k))).2 else (rounds page s k).map := by
 have eq : (rounds page s k).at (page + k) = s.at (page + k) := by
  rw [rounds_at,if_neg (by omega)]
 rw [rounds_succ,unmap_entry,eq]
 split_ifs <;> rfl
end
end

end

section
variable {m m' : PageMap} {e p : Nat}
structure SameMemory (m m' : PageMap) : Prop where
 low : m'.LOW_MEM = m.LOW_MEM
 high : m'.HIGH_MEM = m.HIGH_MEM
 blocks : m'.PHI_BLOCKS = m.PHI_BLOCKS
 last : m'.hole_max = m.hole_max
lemma free_page_memory (m : PageMap) (addr : Nat) : SameMemory m (free_page m addr).2 := by
 unfold free_page
 dsimp only
 split_ifs <;> exact ⟨rfl,rfl,rfl,rfl⟩
lemma free_page_count {addr : Nat} (took : CHECK_PHY_PAGE m addr = 0) (mem : (m.MAP_NR addr : Int) ≤ m.hole_max)
 (used : m.count (m.MAP_NR addr) ≠ 0) :
 (free_page m addr).2.count = update m.count (m.MAP_NR addr) (m.count (m.MAP_NR addr) - 1) := by
 unfold free_page
 dsimp only
 rw [if_neg (by simp [took]),if_neg (by omega),if_neg used]
 split_ifs
 · rw [setPrev_count,setNext_count]
   exact setCount_count _ _ _
 · exact (setNext_count _ _ _).trans ((setPrev_count _ _ _).trans ((setNext_count _ _ _).trans (setCount_count _ _ _)))
 · exact setCount_count _ _ _
lemma frameOf_congr (eq : SameMemory m m') : frameOf m' p = frameOf m p := by
 rw [frameOf,frameOf,eq.low]
lemma inMemory_congr (eq : SameMemory m m') : InMemory m' p ↔ InMemory m p := by
 rw [InMemory,InMemory,eq.low,eq.high]
lemma SameMemory.geometry (eq : SameMemory m m') (geometry : Geometry m) : Geometry m' := by
 constructor
 · rw [eq.low]; exact geometry.aligned
 · rw [eq.low]; exact geometry.low
 · rw [eq.high]; exact geometry.word
 · rw [eq.low,eq.high,eq.blocks]; exact geometry.covered
lemma free_entry_inside (geometry : Geometry m) (le : m.hole_max = m.PHI_BLOCKS - 1) (mem : InMemory m (e / 4096))
 (last : e < m.HIGH_MEM) (used : users m (e / 4096) ≠ 0) :
 (free_page m e).2.count = update m.count (frameOf m (e / 4096)) (users m (e / 4096) - 1) := by
 obtain ⟨low,_⟩ := mem
 have word := geometry.word
 have covered := geometry.covered
 have aligned := geometry.aligned
 have frame : (m.MAP_NR e : Int) = frameOf m (e / 4096) := map_nr_eq geometry (by omega) (by omega)
 have took : CHECK_PHY_PAGE m e = 0 := by
  rw [CHECK_PHY_PAGE,if_neg (by omega)]
 have entry : frameOf m (e / 4096) ≤ m.hole_max := by
  rw [le,frameOf]
  omega
 have freed := free_page_count took (by rwa [frame]) (by rwa [frame])
 rw [frame] at freed
 exact freed
lemma free_entry_outside (geometry : Geometry m) (out : ¬ InMemory m (e / 4096)) : (free_page m e).2 = m := by
 have aligned := geometry.aligned
 rw [InMemory] at out
 have refused : CHECK_PHY_PAGE m e ≠ 0 := by
  rw [CHECK_PHY_PAGE,if_pos (by omega)]
  decide
 unfold free_page
 dsimp only
 rw [if_pos refused]

end

section
variable {s : Machine} {pgdir : Nat} {r : Region}
lemma mappings_succ (s : Machine) (pgdir : Nat) (r : Region) (k p : Nat) : mappings s pgdir r (k + 1) p =
 mappings s pgdir r k p + if walk s pgdir (r.addr k) = some p then 1 else 0 := by
 rw [mappings,range_succ,countP_append,countP_singleton]
 simp [mappings]
lemma mappings_mono {k k' p : Nat} (le : k ≤ k') : mappings s pgdir r k p ≤ mappings s pgdir r k' p := by
 obtain ⟨more,rfl⟩ := Nat.exists_eq_add_of_le le
 rw [mappings,mappings,range_add,countP_append]
 omega
def InTable (r : Region) : Prop := PTE_IDX r.form_addr = 0 ∧ r.pages ≤ 1024
variable {i : Nat}
lemma InTable.indices (within : InTable r) (lt : i < r.pages) :
 PDE_IDX (r.addr i) = PDE_IDX r.form_addr ∧ PTE_IDX (r.addr i) = i := by
 obtain ⟨fst,few⟩ := within
 have aligned := r.aligned
 rw [PTE_IDX] at fst
 constructor
 · rw [PDE_IDX,PDE_IDX,Region.addr]
   omega
 rw [PTE_IDX,Region.addr]
 omega
lemma InTable.slot_eq (within : InTable r) (lt : i < r.pages) :
 slot s pgdir (r.addr i) = (s.word pgdir (PDE_IDX r.form_addr) &&& PT_PFNMASK) / 4 + i := by
 obtain ⟨dir,idx⟩ := within.indices lt
 rw [slot,dir,idx]
structure Released (s : Machine) (pgdir : Nat) (r : Region) (k : Nat) (m : PageMap) : Prop where
 memory : SameMemory s.map m
 dropped : ∀ p, InMemory s.map p -> users m p = users s.map p - mappings s pgdir r k p
 kept : ∀ f, (∀ p, InMemory s.map p -> f ≠ frameOf s.map p) -> m.count f = s.map.count f
lemma Released.blank {k : Nat} {m : PageMap} (freed : Released s pgdir r k m)
 (blank : ∀ p, InMemory s.map p -> walk s pgdir (r.addr k) ≠ some p) : Released s pgdir r (k + 1) m := by
 refine ⟨freed.memory,?_,freed.kept⟩
 intro p mem
 rw [mappings_succ,if_neg (blank p mem),Nat.add_zero]
 exact freed.dropped p mem
lemma Released.next {k : Nat} {m : PageMap} (usable : Usable s pgdir r) (lt : k < r.pages)
 (table : HasTable s pgdir (r.addr k)) (released : Released s pgdir r k m) :
 Released s pgdir r (k + 1) (if pte s pgdir (r.addr k) ≠ 0 then (free_page m (pte s pgdir (r.addr k))).2 else m) := by
 have ends := walk_pte table
 have geometry := released.memory.geometry usable.geometry
 rcases usable.entries k lt table with zero | ⟨present,word,last⟩
 · rw [if_neg (not_not.mpr zero)]
   apply released.blank
   intro p _
   rw [ends,zero,target_zero]
   simp
 have ne0 : pte s pgdir (r.addr k) ≠ 0 := by
  intro zero
  rw [zero] at present
  exact present (Nat.zero_and _)
 rw [if_pos ne0]
 rw [target_word present word] at ends
 generalize pte s pgdir (r.addr k) = e at word last ends ⊢
 by_cases inside : InMemory s.map (e / 4096)
 · have more : mappings s pgdir r k (e / 4096) + 1 ≤ users s.map (e / 4096) := by
    have counted := usable.counted _ inside
    have upTo : mappings s pgdir r (k + 1) (e / 4096) ≤ mappings s pgdir r r.pages (e / 4096) := mappings_mono lt
    rw [mappings_succ,if_pos ends] at upTo
    omega
   have pre := released.dropped _ inside
   have freed := free_entry_inside geometry (by rw [released.memory.last,released.memory.blocks]; exact usable.bound)
    ((inMemory_congr released.memory).mpr inside) (by rw [released.memory.high]; exact last inside.2) (by omega)
   rw [frameOf_congr released.memory] at freed
   have memory := free_page_memory m e
   refine ⟨?_,?_,?_⟩
   · exact ⟨memory.low.trans released.memory.low,memory.high.trans released.memory.high,
      memory.blocks.trans released.memory.blocks,memory.last.trans released.memory.last⟩
   · intro p in'
     have here : users (free_page m e).2 p = (free_page m e).2.count (frameOf s.map p) := by
      rw [users,frameOf_congr memory,frameOf_congr released.memory]
     rw [here,freed,mappings_succ,ends]
     by_cases eq : p = e / 4096
     · rw [eq,update_self,pre,if_pos rfl]
       omega
     have ne : frameOf s.map p ≠ frameOf s.map (e / 4096) := by
      rw [frameOf,frameOf]
      omega
     rw [update_of_ne ne,if_neg (by simpa using Ne.symm eq),Nat.add_zero,<- released.dropped p in',users,
      frameOf_congr released.memory]
   intro f out
   rw [freed,update_of_ne (out _ inside)]
   exact released.kept f out
 rw [free_entry_outside geometry (fun mem => inside ((inMemory_congr released.memory).mp mem))]
 apply released.blank
 rintro p mem eq
 rw [ends] at eq
 cases eq
 exact inside mem
lemma rounds_released (usable : Usable s pgdir r) (lt : InTable r) (table : HasTable s pgdir r.form_addr) :
 ∀ k ≤ r.pages, Released s pgdir r k
  (rounds ((s.word pgdir (PDE_IDX r.form_addr) &&& PT_PFNMASK) / 4) s k).map := by
 intro k
 induction k with
 | zero =>
  intro _
  exact ⟨⟨rfl,rfl,rfl,rfl⟩,fun p _ => (Int.sub_zero _).symm,fun _ _ => rfl⟩
 | succ k ih =>
  intro le
  have entry : pte s pgdir (r.addr k) = s.at ((s.word pgdir (PDE_IDX r.form_addr) &&& PT_PFNMASK) / 4 + k) := by
   rw [pte,lt.slot_eq le]
  have next := (ih (by omega)).next usable le (by rw [HasTable,(lt.indices le).1]; exact table)
  rw [rounds_map,<- entry]
  exact next
lemma Region.addr_lt (r : Region) (lt : i < r.pages) : r.addr i < 2^32 := by
 have high := r.high
 rw [USER_SPACE_ADDR,USER_SPACE_SIZE] at high
 rw [Region.addr]
 omega
lemma unmapped_rounds (table : HasTable s pgdir r.form_addr) :
 unmapped s pgdir r = rounds ((s.word pgdir (PDE_IDX r.form_addr) &&& PT_PFNMASK) / 4) s r.pages := by
 have page : r.form_addr / 4096 * 4096 = r.form_addr := by
  have := r.aligned
  omega
 have ne0 : s.word pgdir (PDE_IDX r.form_addr) ≠ 0 := by
  intro zero
  rw [HasTable,zero] at table
  exact table (Nat.zero_and _)
 rw [unmapped,unmap_user_pages,page,if_neg ne0]
 rfl
lemma unmaps_nothing (eq : unmapped s pgdir r = s) (gone : ∀ i < r.pages, ¬ HasTable s pgdir (r.addr i)) :
 Unmaps s pgdir r := by
 constructor
 · intro i lt table
   exact absurd table (gone i lt)
 · intro pos _
   rw [eq]
 · intro p _
   have none : mappings s pgdir r r.pages p = 0 := by
    rw [mappings,countP_eq_zero]
    intro i mem
    rw [walk_none (gone i (mem_range.mp mem))]
    simp
   rw [eq,none]
   exact (Int.sub_zero _).symm
 intro f _
 rw [eq]
lemma unmaps_empty (nil : r.pages = 0) : Unmaps s pgdir r := by
 apply unmaps_nothing
 · rw [unmapped,unmap_user_pages,nil]
   split_ifs <;> rfl
 intro i lt
 omega
lemma unmaps_absent (usable : Usable s pgdir r) (within : InTable r) (gone : ¬ HasTable s pgdir r.form_addr)
 (some : 0 < r.pages) : Unmaps s pgdir r := by
 have zero : s.word pgdir (PDE_IDX r.form_addr) = 0 := by
  have either := usable.tables 0 some
  rw [HasTable,(within.indices some).1] at either
  exact either.resolve_right gone
 have page : r.form_addr / 4096 * 4096 = r.form_addr := by
  have := r.aligned
  omega
 apply unmaps_nothing
 · rw [unmapped,unmap_user_pages,page,if_pos zero]
 intro i lt
 rw [HasTable,(within.indices lt).1]
 exact gone
lemma unmaps_of_inTable (usable : Usable s pgdir r) (within : InTable r) (table : HasTable s pgdir r.form_addr) :
 Unmaps s pgdir r := by
 have eq := unmapped_rounds table
 have freed := rounds_released usable within table r.pages (le_refl _)
 rw [<- eq] at freed
 have low : PDE_IDX r.form_addr < 1024 := by
  have high := r.high
  rw [USER_SPACE_ADDR,USER_SPACE_SIZE] at high
  rw [PDE_IDX]
  omega
 have out := usable.outside _ low table
 have dir : ∀ d < 1024, (unmapped s pgdir r).at (pgdir / 4096 * 1024 + d) = s.at (pgdir / 4096 * 1024 + d) := by
  intro d lt
  have few := within.2
  rw [tableOf] at out
  rw [eq,rounds_at,masked_word,if_neg (by omega)]
 refine ⟨?_,?_,freed.dropped,freed.kept⟩
 · intro i lt _
   rw [pte,slot_congr (r.addr_lt lt) dir,within.slot_eq lt,eq,rounds_at,if_pos (by omega)]
 intro pos away
 rw [eq,rounds_at,if_neg]
 rintro ⟨le,lt⟩
 obtain ⟨i,rfl⟩ := Nat.exists_eq_add_of_le le
 have below : i < r.pages := by omega
 refine away i below ?_ (within.slot_eq below).symm
 rw [HasTable,(within.indices below).1]
 exact table
def oneFrame : PageMap := memory_slot_init 4096 8192 (fun _ => ⟨0,0,0⟩) 1
lemma oneFrame_geometry : Geometry oneFrame := ⟨by decide,by decide,by decide,by decide⟩
lemma layout_down : Layout (fun d => 1024 - d) :=
 ⟨fun d lt => by omega,fun d lt d' lt' eq => by omega⟩
def lastMapped (r : Region) : Machine :=
 laid oneFrame (fun d => 1024 - d) (fun pos => if pos = place (fun d => 1024 - d) (r.addr (r.pages - 1) / 4096) then 1 else 0)
lemma lastMapped_hasTable (addr : Nat) : HasTable (lastMapped r) 0 addr := laid_hasTable addr
lemma lastMapped_map : (lastMapped r).map = oneFrame := rfl
lemma lastMapped_pte (lt : i < r.pages) :
 pte (lastMapped r) 0 (r.addr i) = if i = r.pages - 1 then 1 else 0 := by
 have low := r.addr_lt lt
 have low' := r.addr_lt (i := r.pages - 1) (by omega)
 rw [lastMapped,layout_down.pte_laid low]
 refine if_congr ⟨?_,?_⟩ rfl rfl
 · intro eq
   have pages := layout_down.place_inj (by omega) (by omega) eq
   rw [Region.addr,Region.addr] at pages
   omega
 rintro rfl
 rfl
lemma lastMapped_usable (r : Region) : Usable (lastMapped r) 0 r := by
 refine ⟨layout_down.space,oneFrame_geometry,rfl,?_,?_,?_⟩
 · intro i _
   exact .inr (lastMapped_hasTable _)
 · intro i lt _
   rw [lastMapped_pte lt,lastMapped_map]
   split_ifs
   · exact .inr ⟨by decide,by decide,fun _ => by decide⟩
   · exact .inl rfl
 intro p inside
 -- The one frame of the memory is free, and the entry ref to another page.
 have snd : p = 1 := by
  have low : 4096 ≤ p * 4096 := inside.1
  have high : p * 4096 < 8192 := inside.2
  omega
 have none : mappings (lastMapped r) 0 r r.pages p = 0 := by
  rw [mappings,countP_eq_zero]
  intro i mem
  rw [walk_pte (lastMapped_hasTable _),lastMapped_pte (mem_range.mp mem),snd]
  split_ifs <;> decide
 rw [none,snd,lastMapped_map]
 decide
lemma lastMapped_kept (some : 0 < r.pages) (beyond : ¬ InTable r) :
 pte (unmapped (lastMapped r) 0 r) 0 (r.addr (r.pages - 1)) = 1 := by
 have aligned := r.aligned
 have low := r.addr_lt (i := r.pages - 1) (by omega)
 have low' := r.addr_lt some
 have page : ((lastMapped r).word 0 (PDE_IDX r.form_addr) &&& PT_PFNMASK) / 4 =
   (1024 - r.form_addr / 4096 / 1024) * 1024 := by
  have dir : PDE_IDX r.form_addr = r.form_addr / 4096 / 1024 := by
   rw [PDE_IDX]
   omega
  rw [masked_word,dir]
  exact congrArg (· * 1024) (layout_down.table_laid (by rw [Region.addr] at low'; omega))
 have eq := unmapped_rounds (lastMapped_hasTable (r := r) r.form_addr)
 rw [page] at eq
 have dir : ∀ d < 1024, (unmapped (lastMapped r) 0 r).at (0 / 4096 * 1024 + d) = (lastMapped r).at (0 / 4096 * 1024 + d) := by
  intro d lt
  rw [Region.addr] at low'
  rw [eq,rounds_at,if_neg (by omega)]
 have last := lastMapped_pte (r := r) (i := r.pages - 1) (by omega)
 rw [if_pos rfl,pte] at last
 rw [pte,slot_congr low dir,eq,rounds_at,if_neg,last]
 have here : slot (lastMapped r) 0 (r.addr (r.pages - 1)) = place (fun d => 1024 - d) (r.addr (r.pages - 1) / 4096) := by
  rw [slot_page]
  exact layout_down.place_laid (by omega)
 rw [here,place]
 rw [InTable,PTE_IDX] at beyond
 rw [Region.addr] at low low' ⊢
 omega

end

/-- `unmap_user_pages` unmaps exactly the regions that start with a page table and do
  not leave it, apart from empty ones. -/
theorem unmaps_iff (r : Region) :
 (∀ s pgdir, Usable s pgdir r -> Unmaps s pgdir r) ↔ r.pages = 0 ∨ PTE_IDX r.form_addr = 0 ∧ r.pages ≤ 1024 := by
 constructor
 · intro always
   by_contra neither
   obtain ⟨some,beyond⟩ := not_or.mp neither
   have cleared := (always (lastMapped r) 0 (lastMapped_usable r)).cleared (r.pages - 1) (by omega) (lastMapped_hasTable _)
   rw [lastMapped_kept (Nat.pos_of_ne_zero some) beyond] at cleared
   exact absurd cleared (by norm_num)
 intro good s pgdir usable
 rcases Nat.eq_zero_or_pos r.pages with empty | some
 · exact unmaps_empty empty
 have within : InTable r := good.resolve_left (by omega)
 by_cases table : HasTable s pgdir r.form_addr
 · exact unmaps_of_inTable usable within table
 · exact unmaps_absent usable within table some
def secondPage : Region where
 form_addr := 0x80001000
 pages := 1
 aligned := by decide
 low := by decide
 high := by decide
def twoFrames : Machine :=
 laid (((memory_slot_init 0x1000 0x3000 (fun _ => ⟨0,0,0⟩) 2).setCount 0 1).setCount 1 1) (fun d => 1 + d)
  (fun pos => if pos = 0x80400 then 0x1007 else if pos = 0x80401 then 0x2007 else 0)
lemma twoFrames_usable : Usable twoFrames 0 secondPage := by
 have laid : Layout (fun d => 1 + d) := ⟨fun d lt => by omega,fun d _ d' _ eq => by omega⟩
 refine ⟨laid.space,⟨by decide,by decide,by decide,by decide⟩,by decide,?_,?_,?_⟩
 · intro i _
   exact .inr (laid_hasTable _)
 · intro i lt _
   obtain rfl : i = 0 := Nat.lt_one_iff.mp lt
   exact .inr (by decide +kernel)
 intro p mem
 have low : 0x1000 ≤ p * 4096 := mem.1
 have high : p * 4096 < 0x3000 := mem.2
 obtain rfl | rfl : p = 1 ∨ p = 2 := by omega
 · decide +kernel
 · decide +kernel
theorem first_page_unmapped : Usable twoFrames 0 secondPage ∧
 (pte twoFrames 0 0x80000000 = 0x1007 ∧ users twoFrames.map 1 = 1) ∧
 (pte twoFrames 0 0x80001000 = 0x2007 ∧ users twoFrames.map 2 = 1) ∧
 (pte (unmapped twoFrames 0 secondPage) 0 0x80000000 = 0 ∧ users (unmapped twoFrames 0 secondPage).map 1 = 0) ∧
 pte (unmapped twoFrames 0 secondPage) 0 0x80001000 = 0x2007 ∧ users (unmapped twoFrames 0 secondPage).map 2 = 1 :=
 ⟨twoFrames_usable,by decide +kernel⟩

end Netbas.Unmapping
