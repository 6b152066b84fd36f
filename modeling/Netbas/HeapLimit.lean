import Netbas.SlabRuns

/-!
The end of the slab heap. `raw_alloc` goes on when the pages do not fit (`exhausted_spec`), so that
no call is refused (`refused_iff`).
-/
namespace Netbas.HeapLimit
open Bytes Slab SlabRuns List

variable {h : HeapList} {m : Memory} {size idx : Nat}
def mark_writes (h : HeapList) : Nat -> Nat -> List (Option Nat)
 | 0, _ => []
 | rounds + 1, addr => get_page_cb h addr :: mark_writes h rounds ((addr + 4096) % 2^32)
def raw_alloc_writes (h : HeapList) (size : Nat) : List (Option Nat) :=
 mark_writes h (((h.heap_base_ptr + PAGE_ALIGN size) % 2^32 - h.heap_base_ptr + 4095) / 4096) h.heap_base_ptr

/-- The records of an element that starts in `page`: at least that of its first page. -/
def use_writes (page element_size : Nat) : List (Option Nat) :=
 some page :: (range' 1 (element_size / 4096 - 1)).map (fun i => some (page + i))
def kcache_alloc_writes (h : HeapList) (m : Memory) (size : Nat) : List (Option Nat) :=
 let idx := bin_of h size
 let bin := h.bins idx
 if idx = h.BIN_COUNT then []
 else
  (if bin.free_list = 0 ∧ bin.raw_count = 0 then raw_alloc_writes h bin.grow_size else []) ++
   match get_page_cb h (take_element h m idx).1 with
   | none => []
   | some page => use_writes page bin.element_size
lemma get_page_cb_shape {h' : HeapList} (shape : SameShape h h') (address : Nat) :
 get_page_cb h' address = get_page_cb h address := by
 rw [get_page_cb,get_page_cb,shape.base,shape.size]
lemma mark_writes_shape {h' : HeapList} (shape : SameShape h h') (rounds : Nat) :
 ∀ addr, mark_writes h' rounds addr = mark_writes h rounds addr := by
 induction rounds with
 | zero => intro addr; rfl
 | succ rounds ih =>
  intro addr
  rw [mark_writes,mark_writes,get_page_cb_shape shape,ih]
lemma setPage_of_ne {page j : Nat} {record : HeapPage} (ne : j ≠ page) : (h.setPage page record).pages j = h.pages j :=
 Function.update_of_ne ne _ _
lemma mark_pages_frame {j : Nat} (index : Nat) : ∀ (rounds : Nat) (h : HeapList) (addr : Nat),
 some j ∉ mark_writes h rounds addr -> (mark_pages index rounds h addr).pages j = h.pages j := by
 intro rounds
 induction rounds with
 | zero => intro h addr _; rfl
 | succ rounds ih =>
  intro h addr out
  rw [mark_writes,mem_cons,not_or] at out
  rw [mark_pages]
  cases hit : get_page_cb h addr with
  | none => exact ih h _ out.2
  | some page =>
   have ne : j ≠ page := by
    rintro rfl
    exact out.1 hit.symm
   dsimp only
   rw [ih]
   · exact setPage_of_ne ne
   rw [mark_writes_shape (setPage_shape h page _)]
   exact out.2
lemma use_pages_frame {j page element_size : Nat} (out : some j ∉ use_writes page element_size) :
 (use_pages h page element_size).pages j = h.pages j := by
 simp only [use_writes,mem_cons,Option.some.injEq,mem_map,not_or,not_exists,not_and] at out
 have rest : ∀ (l : List Nat) (h : HeapList), (∀ i ∈ l, page + i ≠ j) ->
   (l.foldl (fun h i => use_page h (page + i)) h).pages j = h.pages j := by
  intro l
  induction l with
  | nil => intro h _; rfl
  | cons i rest ih =>
   intro h others
   rw [foldl_cons,ih _ (fun k mem => others k (by simp [mem]))]
   exact setPage_of_ne (others i (by simp)).symm
 rw [use_pages,rest _ _ out.2]
 exact setPage_of_ne out.1
lemma take_element_frame {j : Nat} (out : (h.bins idx).free_list = 0 -> (h.bins idx).raw_count = 0 ->
 some j ∉ raw_alloc_writes h (h.bins idx).grow_size) : (take_element h m idx).2.pages j = h.pages j := by
 rw [take_element]
 split_ifs with empty
 · rfl
 show (refill h idx).pages j = h.pages j
 rw [refill]
 dsimp only
 split_ifs with none
 · exact mark_pages_frame idx _ h _ (out (not_not.mp empty) none)
 · rfl
theorem kcache_alloc_frame {j : Nat} (out : some j ∉ kcache_alloc_writes h m size) :
 (kcache_alloc h m size).2.pages j = h.pages j := by
 rw [kcache_alloc]
 by_cases missing : bin_of h size = h.BIN_COUNT
 · rw [if_pos missing]
 have shape := (take_element_shape h m (bin_of h size)).trans (count_alloc_lists _ (bin_of h size)).toSameShape
 simp only [kcache_alloc_writes,missing,if_false,mem_append,not_or] at out ⊢
 have ran : (take_element h m (bin_of h size)).2.pages j = h.pages j := by
  refine take_element_frame fun empty none => ?_
  rw [if_pos ⟨empty,none⟩] at out
  exact out.1
 rw [get_page_cb_shape shape,shape.element]
 cases hit : get_page_cb h (take_element h m (bin_of h size)).1 with
 | none => exact ran
 | some page =>
  rw [hit] at out
  exact (use_pages_frame out.2).trans ran
theorem kcache_alloc_frame_last :
 let h := kernel_heap_init (fun _ => ⟨0,0,0,0⟩) 0x500000 0x4000
 (kcache_alloc h (fun _ => 0) 0x2000).2.pages 2 = h.pages 2 :=
 kcache_alloc_frame (by decide +kernel)
def Exhausted (h : HeapList) (size : Nat) : Prop :=
 let bin := h.bins (bin_of h size)
 bin_of h size ≠ h.BIN_COUNT ∧ bin.free_list = 0 ∧ bin.raw_count = 0 ∧
  h.heap_base + h.heap_size < h.heap_base_ptr + bin.grow_size
instance (h : HeapList) (size : Nat) : Decidable (Exhausted h size) := inferInstanceAs (Decidable (_ ∧ _))
structure Refused (h : HeapList) (m : Memory) (size : Nat) : Prop where
 null : (kcache_alloc h m size).1 = 0
 writes : ∀ write ∈ kcache_alloc_writes h m size, ∃ page ∈ write, page < h.heap_size / 4096
 front : (kcache_alloc h m size).2.heap_base_ptr = h.heap_base_ptr
 bins : ∀ b < h.BIN_COUNT, (kcache_alloc h m size).2.bins b = h.bins b
 pages : ∀ page < h.heap_size / 4096, (kcache_alloc h m size).2.pages page = h.pages page
 /-- Other bins serve what they would have served. -/
 others : ∀ other, bin_of h other ≠ bin_of h size -> (kcache_alloc h m other).1 ≠ 0 ->
  (kcache_alloc (kcache_alloc h m size).2 m other).1 ≠ 0
lemma take_element_exhausted (empty : (h.bins idx).free_list = 0) (none : (h.bins idx).raw_count = 0) :
 (take_element h m idx).1 = h.heap_base_ptr ∧
 (take_element h m idx).2.heap_base_ptr = (h.heap_base_ptr + PAGE_ALIGN (h.bins idx).grow_size) % 2^32 ∧
 ((take_element h m idx).2.bins idx).alloc_count = (h.bins idx).alloc_count := by
 simp only [take_element,empty,ne_eq,not_true_eq_false,if_false,carve_raw,refill,none,if_true,raw_alloc,setBin_self,
  setBin_front,and_self]
lemma exhausted_spec (m : Memory) (exhausted : Exhausted h size) :
  let h' := (kcache_alloc h m size).2
  let bin := h.bins (bin_of h size)
  h'.heap_base_ptr = (h.heap_base_ptr + PAGE_ALIGN bin.grow_size) % 2^32 ∧
   (h'.bins (bin_of h size)).alloc_count = (bin.alloc_count + 1) % 2^32 ∧
   (kcache_alloc h m size).1 = if (get_page_cb h h.heap_base_ptr).isSome then h.heap_base_ptr else 0 := by
 obtain ⟨hit,empty,none,_⟩ := exhausted
 obtain ⟨addr,front,count⟩ := take_element_exhausted (m := m) empty none
 have shape := (take_element_shape h m (bin_of h size)).trans (count_alloc_lists _ (bin_of h size)).toSameShape
 simp only [kcache_alloc,if_neg hit,get_page_cb_shape shape,addr]
 set h' := count_alloc (take_element h m (bin_of h size)).2 (bin_of h size) with counted
 have front' : h'.heap_base_ptr = (h.heap_base_ptr + PAGE_ALIGN (h.bins (bin_of h size)).grow_size) % 2^32 := front
 have count' : (h'.bins (bin_of h size)).alloc_count = ((h.bins (bin_of h size)).alloc_count + 1) % 2^32 := by
  rw [counted,count_alloc,setBin_self,count]
 cases place : get_page_cb h h.heap_base_ptr with
 | none => exact ⟨front',count',rfl⟩
 | some page =>
  have rest := (use_pages_sameBut h' page (h'.bins (bin_of h size)).element_size).rest
  refine ⟨?_,?_,rfl⟩
  · dsimp only
    rw [rest]
    exact front'
  dsimp only
  rw [rest]
  exact count'

/-- A call on a heap that cannot grow is never refused: it leaves the heap only where the heap can
  grow or the bin has an element. -/
theorem refused_iff (h : HeapList) (m : Memory) (size : Nat) :
 (Exhausted h size -> Refused h m size) ↔ ¬ Exhausted h size := by
 constructor
 · intro refuses exhausted
   obtain ⟨_,count,_⟩ := exhausted_spec m exhausted
   have valid := (bin_of_fits exhausted.1).1
   have eq := (refuses exhausted).bins _ valid
   rw [eq] at count
   omega
 intro grows exhausted
 exact absurd exhausted grows
theorem exhausted_returned :
  let h := (kcache_alloc (kernel_heap_init (fun _ => ⟨0,0,0,0⟩) 0x500000 0x4000) (fun _ => 0) 0x2000).2
  Exhausted h 0x2000 ∧ ¬ Refused h (fun _ => 0) 0x2000 ∧ (kcache_alloc h (fun _ => 0) 0x2000).1 = 0x503000 ∧
   h.heap_base + h.heap_size = 0x504000 ∧ none ∈ kcache_alloc_writes h (fun _ => 0) 0x2000 ∧
   (kcache_alloc h (fun _ => 0) 16).1 = 0x503000 ∧
   (kcache_alloc (kcache_alloc h (fun _ => 0) 0x2000).2 (fun _ => 0) 16).1 = 0 := by
 refine ⟨by decide +kernel,fun refused => ?_,by decide +kernel,by decide +kernel,by decide +kernel,by decide +kernel,
  by decide +kernel⟩
 exact absurd refused.null (by decide +kernel)

end Netbas.HeapLimit
