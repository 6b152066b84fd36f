import Netbas.SlabRuns

/-!
The page records of the slab heap. An allocation adds one use to every page of its element, but a
release takes uses away only for elements of whole pages (`records_exact_iff`).
-/
namespace Netbas.SlabRecords
open Bytes Runs Slab SlabRuns List
def Covers (base j p size : Nat) : Prop := p < base + (j + 1) * 4096 ∧ base + j * 4096 < p + size
instance (base j p size : Nat) : Decidable (Covers base j p size) := inferInstanceAs (Decidable (_ ∧ _))
def Touches (h : HeapList) (j : Nat) (block : Nat × Nat) : Prop := Covers h.heap_base j block.1 (elementOf h block.2)
instance (h : HeapList) (j : Nat) (block : Nat × Nat) : Decidable (Touches h j block) :=
 inferInstanceAs (Decidable (Covers _ _ _ _))
def assigned (h : HeapList) : Nat := (h.heap_base_ptr - h.heap_base) / 4096
def capacity (h : HeapList) (b : Nat) : Nat :=
 if (h.bins b).element_size < 4096 then 4096 / (h.bins b).element_size else 1

/-- The fields of a record are 16 and 9 bits wide in the model, so that exact numbers have not wrapped. -/
structure PageExact (s : Machine) (j : Nat) : Prop where
 in_use : (s.heap.pages j).in_use = s.live.countP (Touches s.heap j)
 items : (s.heap.pages j).free_items + (s.heap.pages j).in_use = capacity s.heap (s.heap.pages j).bin_index
def RecordsExact (s : Machine) : Prop := ∀ j < assigned s.heap, PageExact s j
def Whole (s : Machine) : Action -> Prop
 | .free address => ∀ block ∈ s.live, block.1 = address -> 4096 ≤ elementOf s.heap block.2
 | _ => True
instance (s : Machine) : (a : Action) -> Decidable (Whole s a)
 | .free _ => inferInstanceAs (Decidable (∀ block ∈ s.live, _ -> _))
 | .alloc _ => .isTrue trivial
 | .store _ _ => .isTrue trivial

/-! ### Where elements lie -/
structure Paged (element_size grow_size : Nat) : Prop where
 least : 16 ≤ element_size
 small : element_size < 4096 -> grow_size = 4096
 large : 4096 ≤ element_size -> grow_size = element_size
structure Placed (h : HeapList) (slot : Nat × Nat) : Prop where
 small : (h.bins slot.2).element_size < 4096 -> (slot.1 - h.heap_base) % 4096 + (h.bins slot.2).element_size ≤ 4096
 large : 4096 ≤ (h.bins slot.2).element_size ->
  (slot.1 - h.heap_base) % 4096 = 0 ∧ (h.bins slot.2).element_size % 4096 = 0
 bin : ∀ j, Covers h.heap_base j slot.1 (h.bins slot.2).element_size -> (h.pages j).bin_index = slot.2
structure Recorded (s : Machine) (slots : List (Nat × Nat)) : Prop where
 start : 0 < s.heap.heap_base
 paged : ∀ b < s.heap.BIN_COUNT, Paged (s.heap.bins b).element_size (s.heap.bins b).grow_size
 placed : ∀ slot ∈ slots, Placed s.heap slot
 exact : RecordsExact s

section
variable {u : Nat} {s : Machine} {slots : List (Nat × Nat)} {status : Nat -> Status} {free : Nat -> List Nat}

variable {h : HeapList} {b p : Nat}
lemma Placed.covers_iff (put : Placed h (p,b)) (low : h.heap_base ≤ p)
 (some : 0 < (h.bins b).element_size) (j : Nat) :
 Covers h.heap_base j p (h.bins b).element_size ↔
  (p - h.heap_base) / 4096 ≤ j ∧ j < (p - h.heap_base) / 4096 + max 1 ((h.bins b).element_size / 4096) := by
 have small := put.small
 have large := put.large
 dsimp only at small large
 unfold Covers
 by_cases lt : (h.bins b).element_size < 4096
 · have mem := small lt
   omega
 have whole := large (by omega)
 omega

variable {h' : HeapList}
lemma Placed.same_bins {slot : Nat × Nat} (put : Placed h slot) (shape : SameShape h h')
 (bins : ∀ j, (h'.pages j).bin_index = (h.pages j).bin_index) : Placed h' slot := by
 refine ⟨?_,?_,?_⟩
 · simpa only [shape.element,shape.base] using put.small
 · simpa only [shape.element,shape.base] using put.large
 · simpa only [shape.element,shape.base,bins] using put.bin
lemma touches_shape (shape : SameShape h h') (j : Nat) : Touches h' j = Touches h j := by
 funext block
 rw [Touches,Touches,elementOf,elementOf,bin_of_shape shape,shape.element,shape.base]
lemma capacity_shape (shape : SameShape h h') (b : Nat) : capacity h' b = capacity h b := by
 rw [capacity,capacity,shape.element]
lemma length_le_of_apart {l : List Nat} (low size window : Nat) (pos : 0 < size)
 (inside : ∀ p ∈ l, low ≤ p ∧ p + size ≤ low + window)
 (ne : l.Pairwise (fun p q => p + size ≤ q ∨ q + size ≤ p)) : l.length ≤ window / size := by
 -- Intervals that are ne start in different multiples of the length.
 have later : ∀ p q, low ≤ p -> p + size ≤ q -> (p - low) / size < (q - low) / size := by
  intro p q above pre
  calc (p - low) / size < (p - low) / size + 1 := Nat.lt_succ_self _
   _ = (p - low + size) / size := (Nat.add_div_right _ pos).symm
   _ ≤ (q - low) / size := Nat.div_le_div_right (by omega)
 have distinct : (l.map (fun p => (p - low) / size)).Nodup := by
  rw [List.Nodup,pairwise_map]
  refine ne.imp_of_mem ?_
  intro p q fst snd split
  obtain pre | after := split
  · exact (later p q (inside p fst).1 pre).ne
  · exact (later q p (inside q snd).1 after).ne'
 have lt : l.map (fun p => (p - low) / size) ⊆ List.range (window / size) := by
  intro k mem
  obtain ⟨p,inl,rfl⟩ := mem_map.mp mem
  obtain ⟨above,ends⟩ := inside p inl
  rw [mem_range]
  calc (p - low) / size < (p - low) / size + 1 := Nat.lt_succ_self _
   _ = (p - low + size) / size := (Nat.add_div_right _ pos).symm
   _ ≤ window / size := Nat.div_le_div_right (by omega)
 simpa using distinct.length_le_of_subset lt

variable {block : Nat × Nat}
lemma live_on_page (carved : Carved u s slots status free) (put : ∀ slot ∈ slots, Placed s.heap slot) {j : Nat}
 (inl : block ∈ s.live) (hits : Touches s.heap j block) :
 bin_of s.heap block.2 = (s.heap.pages j).bin_index ∧ 0 < elementOf s.heap block.2 ∧
  (elementOf s.heap block.2 < 4096 -> s.heap.heap_base + j * 4096 ≤ block.1 ∧
   block.1 + elementOf s.heap block.2 ≤ s.heap.heap_base + (j + 1) * 4096) ∧
  (4096 ≤ elementOf s.heap block.2 -> block.1 ≤ s.heap.heap_base + j * 4096 ∧
   s.heap.heap_base + (j + 1) * 4096 ≤ block.1 + elementOf s.heap block.2) := by
 obtain ⟨_,_,ok,slot⟩ := carved.live block inl
 have low : s.heap.heap_base ≤ block.1 := (carved.inside _ slot).2.1
 have least : 4 ≤ elementOf s.heap block.2 := (carved.sized _ ok).element
 have place := put _ slot
 have small : elementOf s.heap block.2 < 4096 ->
   (block.1 - s.heap.heap_base) % 4096 + elementOf s.heap block.2 ≤ 4096 := place.small
 have large : 4096 ≤ elementOf s.heap block.2 -> (block.1 - s.heap.heap_base) % 4096 = 0 ∧
   elementOf s.heap block.2 % 4096 = 0 := place.large
 refine ⟨(place.bin j hits).symm,by omega,fun lt => ?_,fun more => ?_⟩
 · have mem := small lt
   unfold Touches Covers at hits
   omega
 have whole := large more
 unfold Touches Covers at hits
 omega
lemma live_count_le (carved : Carved u s slots status free) (put : ∀ slot ∈ slots, Placed s.heap slot) (j : Nat) :
 s.live.countP (Touches s.heap j) ≤ capacity s.heap (s.heap.pages j).bin_index := by
 set size := (s.heap.bins (s.heap.pages j).bin_index).element_size with sizeIs
 by_cases pos : 0 < size
 · have each : ∀ block ∈ s.live.filter (Touches s.heap j), elementOf s.heap block.2 = size ∧
     (size < 4096 -> s.heap.heap_base + j * 4096 ≤ block.1 ∧ block.1 + size ≤ s.heap.heap_base + (j + 1) * 4096) ∧
     (4096 ≤ size -> block.1 ≤ s.heap.heap_base + j * 4096 ∧ s.heap.heap_base + (j + 1) * 4096 ≤ block.1 + size) := by
    intro block mem
    obtain ⟨inl,hits⟩ := mem_filter.mp mem
    obtain ⟨bin,_,inside,around⟩ := live_on_page carved put inl (by simpa using hits)
    have eq : elementOf s.heap block.2 = size := by rw [elementOf,bin]
    rw [eq] at inside around
    exact ⟨eq,inside,around⟩
   have disjoint := (Sound.owned (.inl ⟨slots,status,free,carved⟩)).disjoint.filter (Touches s.heap j)
   -- The parts of the elements in the page are ne too.
   have few := length_le_of_apart (l := (s.live.filter (Touches s.heap j)).map
     (fun block => max block.1 (s.heap.heap_base + j * 4096))) (s.heap.heap_base + j * 4096) (min size 4096) 4096 (by omega)
     (by
      intro p mem
      obtain ⟨block,inl,rfl⟩ := mem_map.mp mem
      obtain ⟨_,inside,around⟩ := each block inl
      omega)
     (by
      rw [pairwise_map]
      refine disjoint.imp_of_mem ?_
      intro x y fst snd split
      obtain ⟨eq,inside,around⟩ := each x fst
      obtain ⟨same',in',around'⟩ := each y snd
      rw [eq,same'] at split
      omega)
   rw [length_map,<- countP_eq_length_filter] at few
   rw [capacity,<- sizeIs]
   split_ifs with lt
   · rwa [Nat.min_eq_left lt.le] at few
   · rwa [Nat.min_eq_right (not_lt.mp lt),Nat.div_self (by norm_num)] at few
 -- A page of no bin has no live elements.
 have none : s.live.countP (Touches s.heap j) = 0 := by
  rw [countP_eq_zero]
  intro block inl hits
  obtain ⟨bin,some,_⟩ := live_on_page carved put inl (by simpa using hits)
  rw [elementOf,bin] at some
  exact pos some
 rw [none]
 exact Nat.zero_le _

/-! ### Allocation -/
lemma Recorded.of_exact {s' : Machine} (recorded : Recorded s slots) (shape : SameShape s.heap s'.heap)
 (bins : ∀ j, (s'.heap.pages j).bin_index = (s.heap.pages j).bin_index) (exact : RecordsExact s') :
 Recorded s' slots := by
 refine ⟨?_,?_,?_,exact⟩
 · simpa only [shape.base] using recorded.start
 · simpa only [shape.count,shape.element,shape.grow] using recorded.paged
 intro slot mem
 exact (recorded.placed slot mem).same_bins shape bins
lemma Recorded.same_pages (recorded : Recorded s slots) (shape : SameShape s.heap h')
 (front : h'.heap_base_ptr = s.heap.heap_base_ptr) (pages : h'.pages = s.heap.pages) :
 Recorded {s with heap := h'} slots := by
 refine recorded.of_exact shape (fun j => by rw [pages]) ?_
 intro j lt
 simp only [assigned,front,shape.base] at lt
 obtain ⟨in_use,items⟩ := recorded.exact j lt
 refine ⟨?_,?_⟩
 · simpa only [pages,touches_shape shape] using in_use
 · simpa only [pages,capacity_shape shape] using items
lemma capacity_lt (least : 16 ≤ (h.bins b).element_size) : capacity h b < 2^9 := by
 rw [capacity]
 split_ifs
 · calc 4096 / (h.bins b).element_size ≤ 4096 / 16 := Nat.div_le_div_left least (by norm_num)
    _ < 2^9 := by norm_num
 · norm_num
lemma live_below_front (carved : Carved u s slots status free) (inl : block ∈ s.live) :
 s.heap.heap_base ≤ block.1 ∧ block.1 + elementOf s.heap block.2 ≤ s.heap.heap_base_ptr := by
 obtain ⟨_,_,_,slot⟩ := carved.live block inl
 exact ⟨(carved.inside _ slot).2.1,(carved.inside _ slot).2.2.1⟩
lemma Recorded.grow {idx : Nat} (carved : Carved u s slots status free) (recorded : Recorded s slots)
  (ok : idx < s.heap.BIN_COUNT) (nil : (s.heap.bins idx).raw_count = 0)
  (fits : s.heap.heap_base_ptr + PAGE_ALIGN (s.heap.bins idx).grow_size ≤ s.heap.heap_base + s.heap.heap_size) :
  Recorded {s with heap := refill s.heap idx} (newSlots s.heap.heap_base_ptr (s.heap.bins idx).element_size
   ((s.heap.bins idx).grow_size / (s.heap.bins idx).element_size) idx ++ slots) := by
 have sized := carved.sized idx ok
 have paged := recorded.paged idx ok
 obtain ⟨room,pages,refilled,pre,after⟩ := refill_eq nil sized carved.bound carved.front fits
 have shape := refill_shape s.heap idx
 have front : (refill s.heap idx).heap_base_ptr = s.heap.heap_base_ptr + (s.heap.bins idx).grow_size := by
  rw [refilled]; rfl
 have pagesIs : (refill s.heap idx).pages = pages := by rw [refilled]; rfl
 have low := carved.front
 have index : idx % 2^5 = idx := Nat.mod_eq_of_lt (by have := carved.count; omega)
 refine ⟨?_,?_,?_,?_⟩
 · simpa only [shape.base] using recorded.start
 · simpa only [shape.count,shape.element,shape.grow] using recorded.paged
 · intro slot mem
   rcases mem_append.mp mem with new | mem
   · obtain ⟨k,lt,rfl⟩ := mem_newSlots.mp new
     have inside := element_inside (s.heap.bins idx).element_size lt
     rw [sized.whole] at inside
     have whole := sized.pages
     refine ⟨?_,?_,?_⟩
     · simp only [shape.element,shape.base]
       intro small
       have grow := paged.small small
       omega
     · simp only [shape.element,shape.base]
       intro large
       have grow := paged.large large
       have fst : k = 0 := by
        rw [grow,Nat.div_self (by omega)] at lt
        omega
       subst fst
       omega
     simp only [shape.element,shape.base,pagesIs]
     intro j covers
     unfold Covers at covers
     rw [after j (by omega) (by omega)]
     exact index
   obtain ⟨small,large,bin⟩ := recorded.placed slot mem
   have ends := (carved.inside slot mem).2.2.1
   refine ⟨?_,?_,?_⟩
   · simpa only [shape.element,shape.base] using small
   · simpa only [shape.element,shape.base] using large
   simp only [shape.element,shape.base,pagesIs]
   intro j covers
   rw [pre j (by unfold Covers at covers; omega)]
   exact bin j covers
 intro j lt
 simp only [assigned,front,shape.base] at lt
 by_cases old : j < assigned s.heap
 · obtain ⟨in_use,items⟩ := recorded.exact j old
   refine ⟨?_,?_⟩
   · simpa only [pagesIs,pre j old,touches_shape shape] using in_use
   · simpa only [pagesIs,pre j old,capacity_shape shape] using items
 have new := after j (not_lt.mp old) lt
 refine ⟨?_,?_⟩
 · simp only [pagesIs,new,touches_shape shape]
   symm
   rw [countP_eq_zero]
   intro block inl hits
   have hits : Touches s.heap j block := by simpa using hits
   have ends := (live_below_front carved inl).2
   unfold Touches Covers at hits
   unfold assigned at old
   omega
 simp only [pagesIs,new,capacity_shape shape,index,Nat.add_zero]
 have few := capacity_lt (h := s.heap) paged.least
 have eq : page_items s.heap idx = capacity s.heap idx := by simp [page_items,capacity,ok]
 rw [eq,Nat.mod_eq_of_lt few]
lemma Recorded.take {idx : Nat} (m : Memory) (carved : Carved u s slots status free) (recorded : Recorded s slots)
 (ok : idx < s.heap.BIN_COUNT)
 (fits : (s.heap.bins idx).free_list = 0 -> (s.heap.bins idx).raw_count = 0 ->
  s.heap.heap_base_ptr + PAGE_ALIGN (s.heap.bins idx).grow_size ≤ s.heap.heap_base + s.heap.heap_size) :
 Recorded {s with heap := count_alloc (take_element s.heap m idx).2 idx} (grownSlots s.heap idx slots) := by
 have carve : ∀ h : HeapList, SameShape h (count_alloc (carve_raw h idx).2 idx) := fun h =>
  (show SameShape h (carve_raw h idx).2 from setBin_shape rfl rfl).trans (count_alloc_lists ..).toSameShape
 rw [take_element,grownSlots]
 by_cases some : (s.heap.bins idx).free_list = 0
 · rw [if_neg (not_not.mpr some)]
   by_cases nil : (s.heap.bins idx).raw_count = 0
   · rw [if_pos ⟨some,nil⟩]
     have grown := recorded.grow carved ok nil (fits some nil)
     exact grown.same_pages (carve _) rfl rfl
   have eq : refill s.heap idx = s.heap := by simp [refill,nil]
   rw [if_neg (fun both => nil both.2),eq]
   exact recorded.same_pages (carve _) rfl rfl
 rw [if_pos some,if_neg (fun both => some both.1)]
 have pop : SameShape s.heap (pop_free s.heap m idx).2 := setBin_shape rfl rfl
 exact recorded.same_pages (pop.trans (count_alloc_lists ..).toSameShape) rfl rfl
def used (record : HeapPage) : HeapPage :=
 {record with free_items := (record.free_items + (2^9 - 1)) % 2^9, in_use := (record.in_use + 1) % 2^16}
lemma use_page_pages (h : HeapList) (page j : Nat) :
 (use_page h page).pages j = if j = page then used (h.pages j) else h.pages j := by
 by_cases here : j = page
 · subst here
   simp [use_page,HeapList.setPage,used]
 · simp [use_page,HeapList.setPage,here]
lemma use_pages_pages (h : HeapList) (page element_size j : Nat) :
 (use_pages h page element_size).pages j =
  if page ≤ j ∧ j < page + max 1 (element_size / 4096) then used (h.pages j) else h.pages j := by
 have rest : ∀ n, ((range' 1 n).foldl (fun h i => use_page h (page + i)) (use_page h page)).pages j =
   if page ≤ j ∧ j < page + 1 + n then used (h.pages j) else h.pages j := by
  intro n
  induction n with
  | zero =>
   rw [range'_zero,foldl_nil,use_page_pages]
   have only : (j = page) = (page ≤ j ∧ j < page + 1 + 0) := propext (by omega)
   simp only [only]
  | succ n ih =>
   rw [range'_1_concat,foldl_append,foldl_cons,foldl_nil,use_page_pages,ih]
   by_cases last : j = page + (1 + n)
   · rw [if_pos last,if_neg (by omega),if_pos (by omega)]
   have grown : (page ≤ j ∧ j < page + 1 + n) = (page ≤ j ∧ j < page + 1 + (n + 1)) := propext (by omega)
   rw [if_neg last]
   simp only [grown]
 rw [use_pages,rest]
 have range : (page ≤ j ∧ j < page + 1 + (element_size / 4096 - 1)) =
   (page ≤ j ∧ j < page + max 1 (element_size / 4096)) := propext (by omega)
 simp only [range]

section
variable (carved : Carved u s slots status free) (recorded : Recorded s slots)
include carved recorded
lemma bin_capacity_lt {j : Nat}
 (slot : (p,b) ∈ slots) (covers : Covers s.heap.heap_base j p (s.heap.bins b).element_size) :
 capacity s.heap (s.heap.pages j).bin_index < 2^9 := by
 rw [(recorded.placed _ slot).bin j covers]
 exact capacity_lt (recorded.paged b (carved.inside _ slot).1).least
lemma Recorded.use {size : Nat}
 (hit : bin_of s.heap size < s.heap.BIN_COUNT) (slot : (p,bin_of s.heap size) ∈ slots) (lost : status p = .lost) :
 Recorded ⟨use_pages s.heap ((p - s.heap.heap_base) / 4096) (elementOf s.heap size),s.memory,(p,size) :: s.live⟩ slots := by
 have low : s.heap.heap_base ≤ p := (carved.inside _ slot).2.1
 have place := recorded.placed _ slot
 have least := (recorded.paged _ hit).least
 have some : p ≠ 0 := by
  have := recorded.start
  omega
 have eq := use_pages_sameBut s.heap ((p - s.heap.heap_base) / 4096) (elementOf s.heap size)
 have shape := eq.shape
 refine recorded.of_exact shape eq.bin ?_
 intro j lt
 have front : (use_pages s.heap ((p - s.heap.heap_base) / 4096) (elementOf s.heap size)).heap_base_ptr =
   s.heap.heap_base_ptr := by rw [eq.rest]
 simp only [assigned,front,shape.base] at lt
 obtain ⟨in_use,items⟩ := recorded.exact j lt
 have few := live_count_le (carved.add_live some hit slot lost) recorded.placed j
 have covers : Touches s.heap j (p,size) ↔ (p - s.heap.heap_base) / 4096 ≤ j ∧
   j < (p - s.heap.heap_base) / 4096 + max 1 (elementOf s.heap size / 4096) :=
  place.covers_iff low (by omega) j
 have total : ((p,size) :: s.live).countP (Touches s.heap j) =
   s.live.countP (Touches s.heap j) + if Touches s.heap j (p,size) then 1 else 0 := by
  simp [countP_cons]
 dsimp only at few
 rw [total] at few
 have record := use_pages_pages s.heap ((p - s.heap.heap_base) / 4096) (elementOf s.heap size) j
 by_cases here : Touches s.heap j (p,size)
 · -- The page has room for the element, so that neither field wraps.
   rw [if_pos (covers.mp here)] at record
   rw [if_pos here] at total few
   have bounded := bin_capacity_lt carved recorded slot here
   refine ⟨?_,?_⟩
   · simp only [record,touches_shape shape,total,used]
     omega
   simp only [record,capacity_shape shape,used]
   omega
 rw [if_neg (fun mem => here (covers.mpr mem))] at record
 rw [if_neg here] at total
 refine ⟨?_,?_⟩
 · simpa only [record,touches_shape shape,total,Nat.add_zero] using in_use
 · simpa only [record,capacity_shape shape] using items
lemma alloc_recorded {size : Nat}
 (fits : Fits s (.alloc size)) (seen : LinkSeen u s (.alloc size)) :
 ∃ s' slots' st' free', step u s (.alloc size) = some s' ∧ Carved u s' slots' st' free' ∧ Recorded s' slots' := by
 by_cases missing : bin_of s.heap size = s.heap.BIN_COUNT
 · exact ⟨s,slots,status,free,by simp [step,kcache_alloc_missing missing],carved,recorded⟩
 obtain ⟨ok,_⟩ := bin_of_fits missing
 obtain ⟨res,st',free',counted,slot,lost⟩ := carved.alloc_found missing fits seen
 have ran := recorded.take s.memory carved ok (fits ok)
 set idx := bin_of s.heap size with idxIs
 set address := (take_element s.heap s.memory idx).1
 set h' := count_alloc (take_element s.heap s.memory idx).2 idx
 have shape : SameShape s.heap h' := (take_element_shape ..).trans (count_alloc_lists ..).toSameShape
 have bins : bin_of h' size = idx := bin_of_shape shape size
 have hit : bin_of h' size < h'.BIN_COUNT := by
  rw [bins,shape.count]
  exact ok
 have place : (address,bin_of h' size) ∈ grownSlots s.heap idx slots := by
  rw [bins]
  exact slot
 have element : elementOf h' size = (h'.bins idx).element_size := by rw [elementOf,bins]
 rw [<- element] at res
 have some : address ≠ 0 := by
  have start : 0 < h'.heap_base := ran.start
  have low : h'.heap_base ≤ address := (counted.inside _ slot).2.1
  omega
 have used := ran.use counted hit place lost
 have eq := sameBut_lists (use_pages_sameBut h' ((address - h'.heap_base) / 4096) (elementOf h' size))
 have kept := counted.same_lists eq
 have bins' := bin_of_shape eq.toSameShape size
 refine ⟨_,_,_,free',?_,kept.add_live some ?_ ?_ lost,used⟩
 · simp only [step,res,some,if_false]
 · show _ < (use_pages h' _ _).BIN_COUNT
   rw [bins',eq.toSameShape.count]
   exact hit
 rw [bins']
 exact place

end

/-! ### Release -/
def unused (record : HeapPage) : HeapPage :=
 {record with in_use := 0, free_items := (record.free_items + 1) % 2^9}
lemma unuse_pages_pages (h : HeapList) (page j : Nat) : ∀ n, (∀ i < n, (h.pages (page + i)).in_use = 1) ->
 ((List.range n).foldl (fun s i => unuse_page s (page + i)) (h,true)).1.pages j =
  if page ≤ j ∧ j < page + n then unused (h.pages j) else h.pages j := by
 intro n
 induction n generalizing j with
 | zero =>
  intro _
  rw [if_neg (by omega)]
  rfl
 | succ n ih =>
  intro single
  have pre := fun k => ih k fun i lt => single i (by omega)
  rw [range_succ,foldl_append,foldl_cons,foldl_nil]
  generalize (List.range n).foldl (fun s i => unuse_page s (page + i)) (h,true) = s at pre
  have here : s.1.pages (page + n) = h.pages (page + n) := by rw [pre,if_neg (by omega)]
  have one : (h.pages (page + n)).in_use = 1 := single n (by omega)
  have ends : (unuse_page s (page + n)).1.pages j = if j = page + n then unused (h.pages j) else s.1.pages j := by
   rw [unuse_page]
   by_cases last : j = page + n
   · subst last
     simp [one,here,HeapList.setPage,unused]
   · simp [one,here,last,HeapList.setPage]
  rw [ends,pre]
  by_cases last : j = page + n
  · rw [if_pos last,if_pos (by omega)]
  have grown : (page ≤ j ∧ j < page + n) = (page ≤ j ∧ j < page + (n + 1)) := propext (by omega)
  rw [if_neg last]
  simp only [grown]

variable {address : Nat}
lemma slab_free_pages {page : Nat} (m : Memory) (some : address ≠ 0)
 (place : get_page_cb h address = .some page) :
 (slab_free h m address u).2.1.heap_base_ptr = h.heap_base_ptr ∧
  (slab_free h m address u).2.1.pages =
   ((List.range ((h.bins (h.pages page).bin_index).element_size / 4096)).foldl
    (fun s i => unuse_page s (page + i)) (h,true)).1.pages := by
 have rest := (unuse_pages_sameBut page (List.range ((h.bins (h.pages page).bin_index).element_size / 4096)) (h,true)).rest
 unfold slab_free
 rw [if_neg some,place]
 dsimp only
 split_ifs
 · exact ⟨by rw [rest],rfl⟩
 · exact ⟨by rw [setBin_front,rest],rfl⟩
lemma countP_remove {live : List (Nat × Nat)} (q : Nat × Nat -> Bool)
 (once : (live.map Prod.fst).Nodup) (mem : block ∈ live) :
 live.countP q = (live.filter (fun ne => ne.1 ≠ block.1)).countP q + if q block then 1 else 0 := by
 induction live with
 | nil => cases mem
 | cons fst rest ih =>
  rw [map_cons,nodup_cons] at once
  rcases mem_cons.mp mem with rfl | later
  · have others : rest.filter (fun ne => ne.1 ≠ block.1) = rest := by
     rw [filter_eq_self]
     intro ne inl
     have apart : ne.1 ≠ block.1 := fun eq => once.1 (eq ▸ mem_map_of_mem inl)
     simpa using apart
    rw [filter_cons,if_neg (by simp),others,countP_cons]
  have apart : fst.1 ≠ block.1 := fun eq => once.1 (eq ▸ mem_map_of_mem later)
  rw [filter_cons,if_pos (by simpa using apart),countP_cons,countP_cons,ih once.2 later]
  omega

variable {s' : Machine}

section
variable (carved : Carved u s slots status free)
include carved
lemma free_pages
 (ran : step u s (.free address) = some s') :
 ∃ size, (address,size) ∈ s.live ∧ s'.live = s.live.filter (fun ne => ne.1 ≠ address) ∧
  SameShape s.heap s'.heap ∧ s'.heap.heap_base_ptr = s.heap.heap_base_ptr ∧
  s'.heap.pages = ((List.range (elementOf s.heap size / 4096)).foldl
   (fun t i => unuse_page t ((address - s.heap.heap_base) / 4096 + i)) (s.heap,true)).1.pages := by
 simp only [step] at ran
 split_ifs at ran with live
 cases ran
 obtain ⟨⟨p,size⟩,mem,eq⟩ := mem_map.mp live
 obtain rfl : address = p := eq.symm
 obtain ⟨some,_,ok,slot⟩ := carved.live _ mem
 obtain ⟨_,low,high,record⟩ := carved.inside _ slot
 have le := carved.bound
 have front := carved.front.2.1
 have least := (carved.sized _ ok).element
 dsimp only at some low high record least
 have place : get_page_cb s.heap address = .some ((address - s.heap.heap_base) / 4096) := by
  rw [get_page_cb,if_neg (by omega)]
 obtain ⟨front',pages⟩ := slab_free_pages (u := u) s.memory some place
 rw [record] at pages
 exact ⟨size,mem,rfl,slab_free_shape ..,front',pages⟩
lemma free_recorded (recorded : Recorded s slots)
 (whole : Whole s (.free address)) (ran : step u s (.free address) = some s') : Recorded s' slots := by
 obtain ⟨size,mem,live,shape,front,pages⟩ := free_pages carved ran
 have large : 4096 ≤ elementOf s.heap size := whole _ mem rfl
 obtain ⟨_,_,ok,slot⟩ := carved.live _ mem
 obtain ⟨low,ends⟩ := live_below_front carved mem
 have place := recorded.placed _ slot
 have covers : ∀ j, Touches s.heap j (address,size) ↔ (address - s.heap.heap_base) / 4096 ≤ j ∧
   j < (address - s.heap.heap_base) / 4096 + elementOf s.heap size / 4096 := by
  intro j
  have range := place.covers_iff low (by show 0 < elementOf s.heap size; omega) j
  have several : max 1 (elementOf s.heap size / 4096) = elementOf s.heap size / 4096 := by omega
  rwa [show (s.heap.bins (bin_of s.heap size)).element_size = elementOf s.heap size from rfl,several] at range
 -- A page of the element has no other, so its record cnt one use.
 have single : ∀ j, Touches s.heap j (address,size) -> j < assigned s.heap ∧
   s.live.countP (Touches s.heap j) = 1 ∧ capacity s.heap (s.heap.pages j).bin_index = 1 := by
  intro j hits
  have bin := (live_on_page carved recorded.placed mem hits).1
  have one : capacity s.heap (s.heap.pages j).bin_index = 1 := by
   rw [<- bin,capacity,if_neg]
   exact not_lt.mpr large
  have few := live_count_le carved recorded.placed j
  have some : 0 < s.live.countP (Touches s.heap j) :=
   countP_pos_iff.mpr ⟨(address,size),mem,by simpa using hits⟩
  refine ⟨?_,by omega,one⟩
  have al := carved.front
  unfold Touches Covers at hits
  unfold assigned
  omega
 have records : ∀ j, s'.heap.pages j =
   if Touches s.heap j (address,size) then unused (s.heap.pages j) else s.heap.pages j := by
  intro j
  rw [pages,unuse_pages_pages]
  · simp only [covers]
  intro i lt
  obtain ⟨kn,count,_⟩ := single ((address - s.heap.heap_base) / 4096 + i) ((covers _).mpr (by omega))
  rw [(recorded.exact _ kn).in_use,count]
 have bins : ∀ j, (s'.heap.pages j).bin_index = (s.heap.pages j).bin_index := by
  intro j
  rw [records]
  split_ifs
  · rfl
  · rfl
 refine recorded.of_exact shape bins ?_
 intro j lt
 simp only [assigned,front,shape.base] at lt
 obtain ⟨in_use,items⟩ := recorded.exact j lt
 have gone := countP_remove (fun block => decide (Touches s.heap j block)) carved.once mem
 dsimp only at gone
 refine ⟨?_,?_⟩
 · simp only [records,touches_shape shape,live]
   by_cases hits : Touches s.heap j (address,size)
   · obtain ⟨_,count,_⟩ := single j hits
     rw [if_pos (by simpa using hits)] at gone
     rw [if_pos hits]
     simp only [unused]
     omega
   rw [if_neg (by simpa using hits)] at gone
   rw [if_neg hits]
   omega
 rw [bins,capacity_shape shape,records]
 by_cases hits : Touches s.heap j (address,size)
 · obtain ⟨_,count,one⟩ := single j hits
   rw [if_pos hits]
   simp only [unused]
   omega
 rw [if_neg hits]
 exact items
lemma free_small (recorded : Recorded s slots)
 (part : ¬ Whole s (.free address)) (ran : step u s (.free address) = some s') : ¬ RecordsExact s' := by
 obtain ⟨size,mem,live,shape,front,pages⟩ := free_pages carved ran
 obtain ⟨size',mem',lt⟩ : ∃ size, (address,size) ∈ s.live ∧ elementOf s.heap size < 4096 := by
  simp only [Whole,not_forall,not_le] at part
  obtain ⟨⟨p,size⟩,inl,eq,lt⟩ := part
  exact ⟨size,eq ▸ inl,lt⟩
 have only : size' = size := by
  have distinct := inj_on_of_nodup_map carved.once mem' mem rfl
  exact congrArg Prod.snd distinct
 subst only
 rw [Nat.div_eq_of_lt lt,range_zero,foldl_nil] at pages
 obtain ⟨_,_,ok,slot⟩ := carved.live _ mem
 obtain ⟨low,ends⟩ := live_below_front carved mem
 have least : 4 ≤ elementOf s.heap size' := (carved.sized _ ok).element
 have al := carved.front
 intro exact
 set j := (address - s.heap.heap_base) / 4096 with page
 have hits : Touches s.heap j (address,size') := by
  unfold Touches Covers
  dsimp only at low ends ⊢
  omega
 have kn : j < assigned s.heap := by
  unfold assigned
  dsimp only at low ends
  omega
 have pre := (recorded.exact j kn).in_use
 have after := (exact j (by simpa only [assigned,front,shape.base] using kn)).in_use
 have gone := countP_remove (fun block => decide (Touches s.heap j block)) carved.once mem
 simp only [pages,touches_shape shape,live] at after
 rw [if_pos (by simpa using hits)] at gone
 dsimp only at gone
 omega
end

/-! ### Whole runs -/
def Tracked (u : Nat) (s : Machine) : Prop :=
 ∃ slots status free, Carved u s slots status free ∧ Recorded s slots
lemma step_tracked {a : Action} (tracked : Tracked u s) (fits : Fits s a) (seen : LinkSeen u s a)
 (whole : Whole s a) (ran : step u s a = some s') : Tracked u s' := by
 obtain ⟨slots,status,free,carved,recorded⟩ := tracked
 cases a with
 | alloc size =>
  obtain ⟨s1,slots',st',free',res,carved',recorded'⟩ := alloc_recorded carved recorded fits seen
  rw [ran] at res
  cases res
  exact ⟨slots',st',free',carved',recorded'⟩
 | free address =>
  obtain ⟨st',free',carved'⟩ := slab_free_carved carved ran
  exact ⟨slots,st',free',carved',free_recorded carved recorded whole ran⟩
 | store address byte =>
  have carved' := store_carved carved ran
  simp only [step] at ran
  split_ifs at ran
  cases ran
  refine ⟨slots,status,free,carved',recorded.start,recorded.paged,recorded.placed,fun j lt => ?_⟩
  obtain ⟨in_use,items⟩ := recorded.exact j lt
  exact ⟨in_use,items⟩

end
lemma bins_paged : ∀ bin ∈ kbins ++ ubins, 16 ≤ bin.element_size ∧
 (bin.element_size < 4096 -> bin.grow_size = 4096) ∧ (4096 ≤ bin.element_size -> bin.grow_size = bin.element_size) := by
 decide
lemma heap_init_tracked {u : Nat} (old : HeapList) (m : Memory) (kernel_addr a s : Nat) (kernel_mode : Bool)
 (start : 0 < (heap_init old kernel_addr a s kernel_mode).heap_base)
 (le : (heap_init old kernel_addr a s kernel_mode).heap_base +
  (heap_init old kernel_addr a s kernel_mode).heap_size < 2^32) :
 Tracked u ⟨heap_init old kernel_addr a s kernel_mode,m,[]⟩ := by
 refine ⟨_,_,_,heap_init_carved old m kernel_addr a s kernel_mode le,start,?_,by simp,?_⟩
 · intro b lt
   obtain ⟨least,small,large⟩ := bins_paged _ (heap_init_bins old kernel_addr a s kernel_mode b lt)
   exact ⟨least,small,large⟩
 intro j lt
 have none : assigned (heap_init old kernel_addr a s kernel_mode) = 0 := by
  show ((heap_init old kernel_addr a s kernel_mode).heap_base -
   (heap_init old kernel_addr a s kernel_mode).heap_base) / 4096 = 0
  rw [Nat.sub_self]
 rw [none] at lt
 omega
theorem records_exact_iff (kernel_mode : Bool) (old : HeapList) (m : Memory) (a s : Nat)
 (start : 0 < (initHeap kernel_mode old a s).heap_base)
 (bound : (initHeap kernel_mode old a s).heap_base + (initHeap kernel_mode old a s).heap_size < 2^32)
 (actions : List Action)
 (runs : Meets (step (userSpace kernel_mode)) (fun t action => Fits t action ∧ LinkSeen (userSpace kernel_mode) t action)
  ⟨initHeap kernel_mode old a s,m,[]⟩ actions) :
 Along (step (userSpace kernel_mode)) RecordsExact (fun _ _ => True) ⟨initHeap kernel_mode old a s,m,[]⟩ actions ↔
  Meets (step (userSpace kernel_mode)) Whole ⟨initHeap kernel_mode old a s,m,[]⟩ actions := by
 obtain ⟨old',kernel_addr,made⟩ := initHeap_eq kernel_mode old a s
 rw [made] at start bound runs ⊢
 refine along_iff_within (I := Tracked (userSpace kernel_mode)) ?_ (fun _ _ _ _ _ => trivial) ?_ ?_ actions _
  (heap_init_tracked old' m kernel_addr a s kernel_mode start bound) runs
 · rintro t ⟨slots,status,free,_,recorded⟩
   exact recorded.exact
 · rintro t action t' tracked ⟨fits,seen⟩ whole taken
   exact step_tracked tracked fits seen whole taken
 rintro t action ⟨slots,status,free,carved,recorded⟩ _ part _
 cases action with
 | free address =>
  have live : address ∈ t.live.map Prod.fst := by
   simp only [Whole,not_forall] at part
   obtain ⟨block,listed,eq,_⟩ := part
   exact mem_map.mpr ⟨block,listed,eq⟩
  have taken : ∃ t', step (userSpace kernel_mode) t (.free address) = some t' := by
   simp [step,live]
  obtain ⟨t',taken⟩ := taken
  exact ⟨t',taken,free_small carved recorded part taken⟩
 | alloc size => exact absurd trivial part
 | store address byte => exact absurd trivial part
instance (u : Nat) (s : Machine) : (a : Action) -> Decidable (LinkSeen u s a)
 | .alloc _ => inferInstanceAs (Decidable (_ -> _))
 | .free _ => .isTrue trivial
 | .store _ _ => .isTrue trivial
theorem records_exact_large :
 Along (step 0) RecordsExact (fun _ _ => True)
  ⟨initHeap true ⟨0,0,0,0,0,fun _ => emptyBin (0,0),0,fun _ => ⟨0,0,0,0⟩⟩ 0x500000 0x6000,fun _ => 0,[]⟩
  [.alloc 100,.alloc 5000,.free 0x502000,.alloc 120,.alloc 5000] :=
 (records_exact_iff true _ _ _ _ (by decide) (by decide) _ (by decide +kernel)).mpr (by decide +kernel)
theorem small_release_counted :
 ¬ Along (step 0) RecordsExact (fun _ _ => True)
  ⟨initHeap true ⟨0,0,0,0,0,fun _ => emptyBin (0,0),0,fun _ => ⟨0,0,0,0⟩⟩ 0x500000 0x6000,fun _ => 0,[]⟩
  [.alloc 100,.free 0x501000] := by
 rintro ⟨_,_,fst⟩
 obtain ⟨_,_,snd⟩ := fst _ rfl
 have exact := snd _ rfl 0 (by decide +kernel)
 exact absurd exact.in_use (by decide +kernel)

end Netbas.SlabRecords
