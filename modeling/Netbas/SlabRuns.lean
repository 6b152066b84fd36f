import Netbas.Chains
import Netbas.Runs
import Netbas.Slab

/-!
Runs of the slab heap. The invariant lists the elements that `raw_alloc` has carved out: each is
live, free, raw, or lost to a release that the use counts suppressed. `live_blocks_disjoint` and
`heap_extent_iff` are the results.
-/
namespace Netbas.SlabRuns
open Bytes Chains Runs Slab List
open Function

/-! ### Runs -/
structure Machine where
 heap : HeapList
 memory : Memory
 live : List (Nat × Nat)
inductive Action where
 | alloc (size : Nat)
 | free (address : Nat)
 | store (address : Nat) (byte : UInt8)
def elementOf (h : HeapList) (size : Nat) : Nat := (h.bins (bin_of h size)).element_size
def Stores (s : Machine) (addr : Nat) : Prop :=
 (s.heap.heap_base ≤ addr -> addr < s.heap.heap_base + s.heap.heap_size ->
  ∃ block ∈ s.live, block.1 ≤ addr ∧ addr < block.1 + elementOf s.heap block.2)
instance (s : Machine) (addr : Nat) : Decidable (Stores s addr) := by
 unfold Stores
 infer_instance

/-- One step of a heap whose addresses lie `user_space` above: 0 for `kmalloc`
  and `kfree`, and `proc_vir2phys 0` for `user_malloc` and `user_free`. -/
def step (user_space : Nat) (s : Machine) : Action -> Option Machine
 | .alloc size =>
  let (addr,h) := kcache_alloc s.heap s.memory size
  some ⟨h,s.memory,if addr = 0 then s.live else (addr,size) :: s.live⟩
 | .free addr =>
  if addr ∈ s.live.map Prod.fst then
   let (_,h,m) := slab_free s.heap s.memory addr user_space
   some ⟨h,m,s.live.filter (fun block => block.1 ≠ addr)⟩
  else none
 | .store addr byte =>
  if addr < 2^32 ∧ Stores s addr then some {s with memory := poke s.memory (addr + user_space) byte}
  else none

/-- An allocation that calls `raw_alloc` does not grow the heap past its end. -/
def Fits (s : Machine) : Action -> Prop
 | .alloc size =>
  let bin := s.heap.bins (bin_of s.heap size)
  bin_of s.heap size < s.heap.BIN_COUNT -> bin.free_list = 0 -> bin.raw_count = 0 ->
   s.heap.heap_base_ptr + PAGE_ALIGN bin.grow_size ≤ s.heap.heap_base + s.heap.heap_size
 | .free _ => True
 | .store _ _ => True

/-- An allocation from a free list reads the link where the release stored it. -/
def LinkSeen (user_space : Nat) (s : Machine) : Action -> Prop
 | .alloc size =>
  let bin := s.heap.bins (bin_of s.heap size)
  bin.free_list ≠ 0 -> peek32 s.memory bin.free_list = peek32 s.memory (bin.free_list + user_space)
 | .free _ => True
 | .store _ _ => True

/-! ### The invariant -/
inductive Status where
 | live
 | free
 | raw
 | lost
 deriving DecidableEq
structure BinHolds (user_space : Nat) (m : Memory) (slots : List (Nat × Nat)) (status : Nat -> Status) (b : Nat)
  (bin : HeapBin) (free : List Nat) : Prop where
 chain : Follows (fun x => peek32 m (x + user_space)) bin.free_list free 0
 once : free.Nodup
 free : ∀ p ∈ free, p ≠ 0 ∧ status p = .free ∧ (p,b) ∈ slots
 raw : ∀ k < bin.raw_count, status (bin.raw_list + k * bin.element_size) = .raw ∧
  (bin.raw_list + k * bin.element_size,b) ∈ slots
structure Sized (element_size grow_size : Nat) : Prop where
 element : 4 ≤ element_size
 pages : grow_size % 4096 = 0
 grow : grow_size ≤ 0x400000
 whole : grow_size / element_size * element_size = grow_size
 some : 0 < grow_size
def Apart (h : HeapList) (x y : Nat × Nat) : Prop :=
 x.1 + (h.bins x.2).element_size ≤ y.1 ∨ y.1 + (h.bins y.2).element_size ≤ x.1
structure Carved (user_space : Nat) (s : Machine) (slots : List (Nat × Nat)) (status : Nat -> Status)
  (free : Nat -> List Nat) : Prop where
 bound : s.heap.heap_base + s.heap.heap_size < 2^32
 front : s.heap.heap_base ≤ s.heap.heap_base_ptr ∧
  s.heap.heap_base_ptr ≤ s.heap.heap_base + s.heap.heap_size ∧ (s.heap.heap_base_ptr - s.heap.heap_base) % 4096 = 0
 count : s.heap.BIN_COUNT ≤ 32
 sized : ∀ b < s.heap.BIN_COUNT, Sized (s.heap.bins b).element_size (s.heap.bins b).grow_size
 inside : ∀ slot ∈ slots, slot.2 < s.heap.BIN_COUNT ∧ s.heap.heap_base ≤ slot.1 ∧
  slot.1 + (s.heap.bins slot.2).element_size ≤ s.heap.heap_base_ptr ∧
  (s.heap.pages ((slot.1 - s.heap.heap_base) / 4096)).bin_index = slot.2
 apart : slots.Pairwise (Apart s.heap)
 live : ∀ block ∈ s.live, block.1 ≠ 0 ∧ status block.1 = .live ∧ bin_of s.heap block.2 < s.heap.BIN_COUNT ∧
  (block.1,bin_of s.heap block.2) ∈ slots
 once : (s.live.map Prod.fst).Nodup
 bins : ∀ b < s.heap.BIN_COUNT, BinHolds user_space s.memory slots status b (s.heap.bins b) (free b)

section
variable {u : Nat} {s : Machine} {slots : List (Nat × Nat)} {status : Nat -> Status} {free : Nat -> List Nat}
instance (h : HeapList) : Std.Symm (Apart h) := ⟨fun _ _ apart => apart.symm⟩
lemma Carved.apart_of_ne (carved : Carved u s slots status free) {x y : Nat × Nat} (fst : x ∈ slots)
 (snd : y ∈ slots) (ne : x ≠ y) : Apart s.heap x y :=
 carved.apart.forall fst snd ne

variable {b c p : Nat}
lemma Carved.bin_unique (carved : Carved u s slots status free) (fst : (p,b) ∈ slots)
 (snd : (p,c) ∈ slots) : b = c := by
 by_contra ne
 have size := (carved.sized b (carved.inside _ fst).1).element
 have size' := (carved.sized c (carved.inside _ snd).1).element
 rcases carved.apart_of_ne fst snd (by simpa using ne) with apart | apart
 · dsimp only at apart; omega
 · dsimp only at apart; omega

variable {m : Memory}
lemma BinHolds.update {m' : Memory} {bin : HeapBin} {l : List Nat} (new : Status)
 (holds : BinHolds u m slots status c bin l)
 (away : ∀ q, (q,c) ∈ slots -> status q = .free ∨ status q = .raw -> q ≠ p)
 (links : ∀ q, (q,c) ∈ slots -> q ≠ p -> peek32 m' (q + u) = peek32 m (q + u)) :
 BinHolds u m' slots (update status p new) c bin l := by
 refine ⟨?_,holds.once,?_,?_⟩
 · refine (follows_congr ?_).mp holds.chain
   intro q mem
   obtain ⟨_,free,slot⟩ := holds.free q mem
   exact (links q slot (away q slot (.inl free))).symm
 · intro q mem
   obtain ⟨some,free,slot⟩ := holds.free q mem
   refine ⟨some,?_,slot⟩
   rw [update_of_ne (away q slot (.inl free)),free]
 intro k lt
 obtain ⟨isRaw,slot⟩ := holds.raw k lt
 refine ⟨?_,slot⟩
 rw [update_of_ne (away _ slot (.inr isRaw)),isRaw]
structure SameLists (h h' : HeapList) : Prop extends SameShape h h' where
 front : h'.heap_base_ptr = h.heap_base_ptr
 lists : ∀ b, (h'.bins b).free_list = (h.bins b).free_list ∧ (h'.bins b).raw_list = (h.bins b).raw_list ∧
  (h'.bins b).raw_count = (h.bins b).raw_count
 pages : ∀ j, (h'.pages j).bin_index = (h.pages j).bin_index

variable {h h' : HeapList}
lemma sameBut_lists (eq : SameBut h h') : SameLists h h' := by
 refine ⟨eq.shape,?_,?_,eq.bin⟩
 · rw [eq.rest]
 intro b
 rw [eq.rest]
 exact ⟨rfl,rfl,rfl⟩
lemma count_alloc_lists (h : HeapList) (idx : Nat) : SameLists h (count_alloc h idx) := by
 refine ⟨setBin_shape rfl rfl,rfl,?_,fun _ => rfl⟩
 intro b
 by_cases eq : b = idx
 · rw [eq,count_alloc,setBin_self]
   exact ⟨rfl,rfl,rfl⟩
 rw [count_alloc,setBin_of_ne eq]
 exact ⟨rfl,rfl,rfl⟩
lemma apart_shape (shape : SameShape h h') : Apart h' = Apart h := by
 funext x y
 simp only [Apart,shape.element]
lemma Carved.same_lists (carved : Carved u s slots status free) (eq : SameLists s.heap h') :
 Carved u {s with heap := h'} slots status free := by
 have shape := eq.toSameShape
 refine ⟨?_,?_,?_,?_,?_,?_,?_,carved.once,?_⟩
 · simpa only [shape.base,shape.size] using carved.bound
 · simpa only [shape.base,shape.size,eq.front] using carved.front
 · simpa only [shape.count] using carved.count
 · simpa only [shape.count,shape.element,shape.grow] using carved.sized
 · simpa only [shape.count,shape.base,shape.element,eq.front,eq.pages] using carved.inside
 · simpa only [apart_shape shape] using carved.apart
 · simpa only [bin_of_shape shape,shape.count] using carved.live
 intro b lt
 simp only [shape.count] at lt
 obtain ⟨chain,once,isFree,isRaw⟩ := carved.bins b lt
 obtain ⟨freeSame,rawSame,countSame⟩ := eq.lists b
 refine ⟨by simpa only [freeSame] using chain,once,isFree,?_⟩
 simpa only [rawSame,countSame,shape.element] using isRaw

variable {idx : Nat}
lemma Carved.set_bin {bin : HeapBin} {l : List Nat} (new : Status)
 (carved : Carved u s slots status free) (slot : (p,idx) ∈ slots) (dead : status p ≠ .live)
 (element : bin.element_size = (s.heap.bins idx).element_size) (grow : bin.grow_size = (s.heap.bins idx).grow_size)
 (links : ∀ q c, (q,c) ∈ slots -> q ≠ p -> peek32 m (q + u) = peek32 s.memory (q + u))
 (holds : BinHolds u m slots (update status p new) idx bin l) :
 Carved u ⟨s.heap.setBin idx bin,m,s.live⟩ slots (update status p new) (update free idx l) := by
 have shape : SameShape s.heap (s.heap.setBin idx bin) := setBin_shape element grow
 refine ⟨carved.bound,carved.front,carved.count,?_,?_,?_,?_,carved.once,?_⟩
 · simpa only [shape.count,shape.element,shape.grow] using carved.sized
 · simpa only [shape.count,shape.base,shape.element,setBin_front,setBin_pages] using carved.inside
 · simpa only [apart_shape shape] using carved.apart
 · intro block mem
   obtain ⟨some,isLive,ok,place⟩ := carved.live block mem
   have ne : block.1 ≠ p := by
    intro eq
    rw [eq] at isLive
    exact dead isLive
   refine ⟨some,?_,?_,?_⟩
   · rw [update_of_ne ne,isLive]
   · simpa only [bin_of_shape shape,shape.count] using ok
   · simpa only [bin_of_shape shape] using place
 intro b lt
 by_cases eq : b = idx
 · subst eq
   rw [setBin_self,update_self]
   exact holds
 rw [setBin_of_ne eq,update_of_ne eq]
 refine (carved.bins b lt).update new ?_ fun q => links q b
 rintro q mem _ rfl
 exact eq (carved.bin_unique mem slot)

/-! ### Allocation -/
lemma Carved.pop (carved : Carved u s slots status free) (ok : idx < s.heap.BIN_COUNT)
  (some : (s.heap.bins idx).free_list ≠ 0)
  (seen : peek32 m (s.heap.bins idx).free_list = peek32 s.memory ((s.heap.bins idx).free_list + u)) :
  ∃ st' free', Carved u {s with heap := (pop_free s.heap m idx).2} slots st' free' ∧
   ((s.heap.bins idx).free_list,idx) ∈ slots ∧ st' (s.heap.bins idx).free_list = .lost := by
 have holds := carved.bins idx ok
 obtain ⟨rest,split,walk⟩ := follows_cons_of_ne holds.chain some
 obtain ⟨_,isFree,slot⟩ := holds.free _ (show _ ∈ free idx by rw [split]; exact mem_cons_self)
 have once := holds.once
 rw [split,nodup_cons] at once
 have dead : status (s.heap.bins idx).free_list ≠ .live := by simp [isFree]
 refine ⟨_,_,carved.set_bin (l := rest) .lost slot dead rfl rfl (fun _ _ _ _ => rfl) ⟨?_,once.2,?_,?_⟩,slot,
  update_self ..⟩
 · show Follows _ (peek32 m (s.heap.bins idx).free_list) rest 0
   rw [seen]
   exact walk
 · intro q mem
   obtain ⟨some',isFree',slot'⟩ := holds.free q (by simp [split,mem])
   have ne : q ≠ (s.heap.bins idx).free_list := by
    rintro rfl
    exact once.1 mem
   exact ⟨some',by rw [update_of_ne ne,isFree'],slot'⟩
 intro k lt
 obtain ⟨isRaw,slot'⟩ := holds.raw k lt
 have ne : (s.heap.bins idx).raw_list + k * (s.heap.bins idx).element_size ≠ (s.heap.bins idx).free_list := by
  intro eq
  rw [eq,isFree] at isRaw
  cases isRaw
 exact ⟨by rw [update_of_ne ne,isRaw],slot'⟩
lemma Carved.carve (carved : Carved u s slots status free) (ok : idx < s.heap.BIN_COUNT)
  (some : (s.heap.bins idx).raw_count ≠ 0) :
  ∃ st' free', Carved u {s with heap := (carve_raw s.heap idx).2} slots st' free' ∧
   ((s.heap.bins idx).raw_list,idx) ∈ slots ∧ st' (s.heap.bins idx).raw_list = .lost := by
 have holds := carved.bins idx ok
 have size := (carved.sized idx ok).element
 set bin := s.heap.bins idx with binIs
 obtain ⟨isRaw,slot⟩ := holds.raw 0 (by omega)
 rw [Nat.zero_mul,Nat.add_zero] at isRaw slot
 -- All raw elements lie below the front of the heap, so neither count nor address wraps.
 obtain ⟨_,lastSlot⟩ := holds.raw (bin.raw_count - 1) (by omega)
 have last := (carved.inside _ lastSlot).2.2.1
 have front := carved.front.2.1
 have le := carved.bound
 dsimp only at last
 rw [<- binIs] at last
 have many : bin.raw_count - 1 ≤ (bin.raw_count - 1) * bin.element_size := Nat.le_mul_of_pos_right _ (by omega)
 have count : (bin.raw_count + (2^32 - 1)) % 2^32 = bin.raw_count - 1 := by omega
 have start : (bin.raw_list + bin.element_size) % 2^32 = bin.raw_list + bin.element_size :=
  Nat.mod_eq_of_lt (by omega)
 have dead : status bin.raw_list ≠ .live := by simp [isRaw]
 refine ⟨_,_,carved.set_bin (l := free idx) .lost slot dead rfl rfl (fun _ _ _ _ => rfl) ⟨holds.chain,holds.once,?_,?_⟩,
  slot,update_self ..⟩
 · intro q mem
   obtain ⟨some',isFree,slot'⟩ := holds.free q mem
   have ne : q ≠ bin.raw_list := by
    rintro rfl
    rw [isRaw] at isFree
    cases isFree
   exact ⟨some',by rw [update_of_ne ne,isFree],slot'⟩
 intro k lt
 dsimp only at lt ⊢
 rw [count] at lt
 obtain ⟨isRaw',slot'⟩ := holds.raw (k + 1) (by omega)
 have shift : bin.raw_list + (k + 1) * bin.element_size = bin.raw_list + bin.element_size + k * bin.element_size := by
  ring
 rw [shift] at isRaw' slot'
 rw [start]
 exact ⟨by rw [update_of_ne (by omega),isRaw'],slot'⟩
def newSlots (start element_size count idx : Nat) : List (Nat × Nat) :=
 (List.range count).map (fun k => (start + k * element_size,idx))

variable {count : Nat}
lemma mem_newSlots {start element_size : Nat} {slot : Nat × Nat} :
 slot ∈ newSlots start element_size count idx ↔ ∃ k < count, slot = (start + k * element_size,idx) := by
 simp [newSlots,eq_comm]
lemma element_inside {k : Nat} (size : Nat) (lt : k < count) : k * size + size ≤ count * size := by
 calc k * size + size = (k + 1) * size := by ring
  _ ≤ count * size := Nat.mul_le_mul_right _ lt
lemma newSlots_apart {start : Nat} :
 (newSlots start (h.bins idx).element_size count idx).Pairwise (Apart h) := by
 rw [newSlots,pairwise_map]
 refine pairwise_lt_range.imp ?_
 intro j k lt
 left
 have inside := element_inside (h.bins idx).element_size lt
 dsimp only
 omega
lemma refill_eq (nil : (h.bins idx).raw_count = 0)
  (sized : Sized (h.bins idx).element_size (h.bins idx).grow_size) (le : h.heap_base + h.heap_size < 2^32)
  (front : h.heap_base ≤ h.heap_base_ptr ∧ h.heap_base_ptr ≤ h.heap_base + h.heap_size ∧
   (h.heap_base_ptr - h.heap_base) % 4096 = 0)
  (fits : h.heap_base_ptr + PAGE_ALIGN (h.bins idx).grow_size ≤ h.heap_base + h.heap_size) :
  h.heap_base_ptr + (h.bins idx).grow_size ≤ h.heap_base + h.heap_size ∧
  ∃ pages, refill h idx = ({h with heap_base_ptr := h.heap_base_ptr + (h.bins idx).grow_size, pages := pages} :
    HeapList).setBin idx { h.bins idx with
     raw_list := h.heap_base_ptr, raw_count := (h.bins idx).grow_size / (h.bins idx).element_size } ∧
   (∀ j < (h.heap_base_ptr - h.heap_base) / 4096, pages j = h.pages j) ∧
   ∀ j, (h.heap_base_ptr - h.heap_base) / 4096 ≤ j ->
    j < (h.heap_base_ptr + (h.bins idx).grow_size - h.heap_base) / 4096 ->
    pages j = {h.pages j with in_use := 0, bin_index := idx % 2^5, free_items := page_items h idx % 2^9} := by
 obtain ⟨_,pagesWhole,grow,_,_⟩ := sized
 have align : PAGE_ALIGN (h.bins idx).grow_size = (h.bins idx).grow_size := by
  rw [page_align_eq]
  omega
 rw [align] at fits
 have wrap : (h.heap_base_ptr + (h.bins idx).grow_size) % 2^32 = h.heap_base_ptr + (h.bins idx).grow_size := by omega
 have rounds : (h.heap_base_ptr + (h.bins idx).grow_size - h.heap_base_ptr + 4095) / 4096 =
   (h.bins idx).grow_size / 4096 := by omega
 obtain ⟨rest,pre,after⟩ := mark_pages_spec idx ((h.bins idx).grow_size / 4096) h h.heap_base_ptr le front.1
  front.2.2 (by omega)
 refine ⟨fits,(mark_pages idx ((h.bins idx).grow_size / 4096) h h.heap_base_ptr).pages,?_,pre,?_⟩
 · simp only [refill,if_pos nil,raw_alloc,align,wrap,rounds]
   rw [rest]
 intro j least lt
 exact after j least (by omega)
lemma Carved.grow (carved : Carved u s slots status free) (ok : idx < s.heap.BIN_COUNT)
  (nil : (s.heap.bins idx).raw_count = 0)
  (fits : s.heap.heap_base_ptr + PAGE_ALIGN (s.heap.bins idx).grow_size ≤ s.heap.heap_base + s.heap.heap_size) :
  ∃ st', Carved u {s with heap := refill s.heap idx} (newSlots s.heap.heap_base_ptr (s.heap.bins idx).element_size
    ((s.heap.bins idx).grow_size / (s.heap.bins idx).element_size) idx ++ slots) st' free ∧
   ((refill s.heap idx).bins idx).raw_count ≠ 0 := by
 have sized := carved.sized idx ok
 have count := carved.count
 obtain ⟨room,pages,refilled,pre,after⟩ := refill_eq nil sized carved.bound carved.front fits
 have shape := refill_shape s.heap idx
 set n := (s.heap.bins idx).grow_size / (s.heap.bins idx).element_size with nIs
 set fresh := newSlots s.heap.heap_base_ptr (s.heap.bins idx).element_size n idx with freshIs
 have filled : n * (s.heap.bins idx).element_size = (s.heap.bins idx).grow_size := sized.whole
 have front : (refill s.heap idx).heap_base_ptr = s.heap.heap_base_ptr + (s.heap.bins idx).grow_size := by
  rw [refilled]; rfl
 have pagesIs : (refill s.heap idx).pages = pages := by rw [refilled]; rfl
 have old : ∀ slot ∈ slots, slot.1 < s.heap.heap_base_ptr := by
  intro slot mem
  have inside := carved.inside slot mem
  have size := (carved.sized slot.2 inside.1).element
  omega
 have many : n ≠ 0 := by
  intro none
  have := sized.some
  rw [none] at filled
  omega
 refine ⟨fun x => if s.heap.heap_base_ptr ≤ x then .raw else status x,⟨?_,?_,?_,?_,?_,?_,?_,carved.once,?_⟩,?_⟩
 · simpa only [shape.base,shape.size] using carved.bound
 · have := carved.front
   have := sized.pages
   simp only [shape.base,shape.size,front]
   omega
 · simpa only [shape.count] using carved.count
 · simpa only [shape.count,shape.element,shape.grow] using carved.sized
 · intro slot mem
   simp only [shape.count,shape.base,shape.element,front,pagesIs]
   rcases mem_append.mp mem with new | mem
   · obtain ⟨k,less,rfl⟩ := mem_newSlots.mp new
     have inside := element_inside (s.heap.bins idx).element_size less
     have size := sized.element
     have whole := sized.pages
     have low := carved.front
     refine ⟨ok,by dsimp only; omega,by dsimp only; omega,?_⟩
     dsimp only
     rw [after _ (by omega) (by omega)]
     exact Nat.mod_eq_of_lt (by omega)
   obtain ⟨bin,low,high,record⟩ := carved.inside slot mem
   have less := old slot mem
   have low' := carved.front
   refine ⟨bin,low,by omega,?_⟩
   rw [pre _ (by omega),record]
 · rw [apart_shape shape]
   refine pairwise_append.mpr ⟨newSlots_apart,carved.apart,?_⟩
   intro x new y mem
   obtain ⟨k,less,rfl⟩ := mem_newSlots.mp new
   right
   have := (carved.inside y mem).2.2.1
   dsimp only
   omega
 · intro block mem
   obtain ⟨some,isLive,bin,slot⟩ := carved.live block mem
   have less := old _ slot
   simp only [bin_of_shape shape,shape.count]
   refine ⟨some,?_,bin,mem_append_right _ slot⟩
   rw [if_neg (by dsimp only at less; omega),isLive]
 · intro b less
   simp only [shape.count] at less
   have holds := carved.bins b less
   have chain : Follows (fun x => peek32 s.memory (x + u)) ((refill s.heap idx).bins b).free_list (free b) 0 := by
    rw [refilled]
    by_cases eq : b = idx
    · rw [eq,setBin_self]
      exact eq ▸ holds.chain
    rw [setBin_of_ne eq]
    exact holds.chain
   refine ⟨chain,holds.once,?_,?_⟩
   · intro p mem
     obtain ⟨some,isFree,slot⟩ := holds.free p mem
     have lt := old _ slot
     refine ⟨some,?_,mem_append_right _ slot⟩
     rw [if_neg (by dsimp only at lt; omega),isFree]
   intro k within
   rw [refilled] at within ⊢
   by_cases eq : b = idx
   · rw [eq,setBin_self] at within ⊢
     dsimp only at within ⊢
     exact ⟨by rw [if_pos (by omega)],mem_append_left _ (mem_newSlots.mpr ⟨k,within,rfl⟩)⟩
   rw [setBin_of_ne eq] at within ⊢
   obtain ⟨isRaw,slot⟩ := holds.raw k within
   have lt := old _ slot
   refine ⟨?_,mem_append_right _ slot⟩
   rw [if_neg (by dsimp only at lt ⊢; omega)]
   exact isRaw
 rw [refilled,setBin_self]
 exact many
def grownSlots (h : HeapList) (idx : Nat) (slots : List (Nat × Nat)) : List (Nat × Nat) :=
 if (h.bins idx).free_list = 0 ∧ (h.bins idx).raw_count = 0 then
  newSlots h.heap_base_ptr (h.bins idx).element_size ((h.bins idx).grow_size / (h.bins idx).element_size) idx ++ slots
 else slots
lemma Carved.take (carved : Carved u s slots status free) (ok : idx < s.heap.BIN_COUNT)
  (seen : (s.heap.bins idx).free_list ≠ 0 ->
   peek32 m (s.heap.bins idx).free_list = peek32 s.memory ((s.heap.bins idx).free_list + u))
  (fits : (s.heap.bins idx).free_list = 0 -> (s.heap.bins idx).raw_count = 0 ->
   s.heap.heap_base_ptr + PAGE_ALIGN (s.heap.bins idx).grow_size ≤ s.heap.heap_base + s.heap.heap_size) :
  ∃ st' free', Carved u {s with heap := (take_element s.heap m idx).2} (grownSlots s.heap idx slots) st' free' ∧
   ((take_element s.heap m idx).1,idx) ∈ grownSlots s.heap idx slots ∧
   st' (take_element s.heap m idx).1 = .lost := by
 unfold take_element grownSlots
 by_cases some : (s.heap.bins idx).free_list ≠ 0
 · rw [if_pos some,if_neg (fun both => some both.1)]
   exact carved.pop ok some (seen some)
 rw [if_neg some]
 by_cases nil : (s.heap.bins idx).raw_count = 0
 · obtain ⟨st',refilled,many⟩ := carved.grow ok nil (fits (not_not.mp some) nil)
   have valid' : idx < (refill s.heap idx).BIN_COUNT := by
    rw [(refill_shape s.heap idx).count]
    exact ok
   rw [if_pos ⟨not_not.mp some,nil⟩]
   exact refilled.carve valid' many
 have eq : refill s.heap idx = s.heap := by simp [refill,nil]
 rw [eq,if_neg (fun both => nil both.2)]
 exact carved.carve ok nil

variable {size : Nat}
lemma Carved.add_live (carved : Carved u s slots status free) (some : p ≠ 0)
 (hit : bin_of s.heap size < s.heap.BIN_COUNT) (slot : (p,bin_of s.heap size) ∈ slots)
 (lost : status p = .lost) :
 Carved u {s with live := (p,size) :: s.live} slots (update status p .live) free := by
 have ne : ∀ block ∈ s.live, block.1 ≠ p := by
  intro block mem eq
  have isLive := (carved.live block mem).2.1
  rw [eq,lost] at isLive
  cases isLive
 refine ⟨carved.bound,carved.front,carved.count,carved.sized,carved.inside,carved.apart,?_,?_,?_⟩
 · intro block mem
   rcases mem_cons.mp mem with rfl | mem
   · exact ⟨some,update_self ..,hit,slot⟩
   obtain ⟨some',isLive,rest⟩ := carved.live block mem
   exact ⟨some',by rw [update_of_ne (ne block mem),isLive],rest⟩
 · refine nodup_cons.mpr ⟨?_,carved.once⟩
   intro mem
   obtain ⟨block,mem,eq⟩ := mem_map.mp mem
   exact ne block mem eq
 intro b lt
 refine (carved.bins b lt).update .live ?_ fun _ _ _ => rfl
 rintro q _ listed rfl
 rw [lost] at listed
 rcases listed with listed | listed <;> cases listed
def allocated (s : Machine) (m : Memory) (size : Nat) : Machine :=
 let (addr,h) := kcache_alloc s.heap m size
 ⟨h,s.memory,if addr = 0 then s.live else (addr,size) :: s.live⟩
lemma Carved.alloc_found (carved : Carved u s slots status free)
  (hit : bin_of s.heap size ≠ s.heap.BIN_COUNT) (fits : Fits s (.alloc size))
  (seen : (s.heap.bins (bin_of s.heap size)).free_list ≠ 0 -> peek32 m (s.heap.bins (bin_of s.heap size)).free_list =
   peek32 s.memory ((s.heap.bins (bin_of s.heap size)).free_list + u)) :
  let idx := bin_of s.heap size
  let address := (take_element s.heap m idx).1
  let h' := count_alloc (take_element s.heap m idx).2 idx
  kcache_alloc s.heap m size = (address,use_pages h' ((address - h'.heap_base) / 4096) (h'.bins idx).element_size) ∧
   ∃ st' free', Carved u {s with heap := h'} (grownSlots s.heap idx slots) st' free' ∧
    (address,idx) ∈ grownSlots s.heap idx slots ∧ st' address = .lost := by
 intro idx address h'
 obtain ⟨ok,_⟩ := bin_of_fits hit
 obtain ⟨st',free',ran,slot,lost⟩ := carved.take ok seen (fits ok)
 have counted := ran.same_lists (count_alloc_lists _ idx)
 have inside := counted.inside _ slot
 have place : get_page_cb h' address = some ((address - h'.heap_base) / 4096) := by
  have least : 4 ≤ (h'.bins idx).element_size := (counted.sized _ inside.1).element
  have le : h'.heap_base + h'.heap_size < 2^32 := counted.bound
  have front : h'.heap_base_ptr ≤ h'.heap_base + h'.heap_size := counted.front.2.1
  have low : h'.heap_base ≤ address := inside.2.1
  have high : address + (h'.bins idx).element_size ≤ h'.heap_base_ptr := inside.2.2.1
  rw [get_page_cb,if_neg (by omega)]
 refine ⟨?_,st',free',counted,slot,lost⟩
 unfold kcache_alloc
 dsimp only
 rw [if_neg hit,place]
lemma kcache_alloc_missing (missing : bin_of h size = h.BIN_COUNT) :
 kcache_alloc h m size = (0,h) := by
 unfold kcache_alloc
 dsimp only
 rw [if_pos missing]
section
variable (carved : Carved u s slots status free)
include carved
lemma Carved.alloc (fits : Fits s (.alloc size))
 (seen : (s.heap.bins (bin_of s.heap size)).free_list ≠ 0 -> peek32 m (s.heap.bins (bin_of s.heap size)).free_list =
  peek32 s.memory ((s.heap.bins (bin_of s.heap size)).free_list + u)) :
 ∃ slots' st' free', Carved u (allocated s m size) slots' st' free' := by
 by_cases missing : bin_of s.heap size = s.heap.BIN_COUNT
 · exact ⟨slots,status,free,by simpa [allocated,kcache_alloc_missing missing] using carved⟩
 obtain ⟨res,st',free',counted,slot,lost⟩ := carved.alloc_found missing fits seen
 set address := (take_element s.heap m (bin_of s.heap size)).1
 set h' := count_alloc (take_element s.heap m (bin_of s.heap size)).2 (bin_of s.heap size)
 have shape : SameShape s.heap h' := (take_element_shape ..).trans (count_alloc_lists ..).toSameShape
 have eq := sameBut_lists (use_pages_sameBut h' ((address - h'.heap_base) / 4096)
  (h'.bins (bin_of s.heap size)).element_size)
 have used := counted.same_lists eq
 have bins := bin_of_shape (shape.trans eq.toSameShape) size
 simp only [allocated,res]
 by_cases null : address = 0
 · rw [if_pos null]
   exact ⟨_,st',free',used⟩
 rw [if_neg null]
 refine ⟨_,_,free',used.add_live null ?_ ?_ lost⟩
 · rw [bins]
   show _ < (use_pages h' _ _).BIN_COUNT
   rw [(shape.trans eq.toSameShape).count]
   exact (bin_of_fits missing).1
 rw [bins]
 exact slot
lemma kcache_alloc_carved
 (fits : Fits s (.alloc size)) (seen : LinkSeen u s (.alloc size)) :
 ∃ s' slots' st' free', step u s (.alloc size) = some s' ∧ Carved u s' slots' st' free' := by
 obtain ⟨slots',st',free',carved'⟩ := carved.alloc fits seen
 exact ⟨_,slots',st',free',rfl,carved'⟩

/-! ### Release -/
lemma Carved.remove_live (live : p ∈ s.live.map Prod.fst) :
 ∃ size, (p,size) ∈ s.live ∧
  Carved u {s with live := s.live.filter (fun block => block.1 ≠ p)} slots (update status p .lost) free := by
 obtain ⟨⟨p,size⟩,mem,rfl⟩ := mem_map.mp live
 obtain ⟨_,isLive,_⟩ := carved.live _ mem
 refine ⟨size,mem,carved.bound,carved.front,carved.count,carved.sized,carved.inside,carved.apart,?_,?_,?_⟩
 · intro block kept
   obtain ⟨kept,ne⟩ := mem_filter.mp kept
   obtain ⟨some,isLive,rest⟩ := carved.live block kept
   exact ⟨some,by rw [update_of_ne (by simpa using ne),isLive],rest⟩
 · exact (filter_sublist.map _).nodup carved.once
 intro b lt
 refine (carved.bins b lt).update .lost ?_ fun _ _ _ => rfl
 rintro q _ listed rfl
 dsimp only at isLive
 rw [isLive] at listed
 rcases listed with listed | listed <;> cases listed
lemma Carved.links_apart {q word : Nat} (slot : (p,b) ∈ slots)
 (ne : (q,c) ∈ slots) (apart : q ≠ p) :
 peek32 (poke32 s.memory (p + u) word) (q + u) = peek32 s.memory (q + u) := by
 have le := carved.bound
 have front := carved.front.2.1
 obtain ⟨ok,_,high,_⟩ := carved.inside _ slot
 obtain ⟨valid',_,high',_⟩ := carved.inside _ ne
 have size := (carved.sized b ok).element
 have size' := (carved.sized c valid').element
 have split := carved.apart_of_ne slot ne (by simpa using fun eq => absurd eq.symm apart)
 dsimp only [Apart] at split high high'
 refine peek32_congr ?_
 intro i lt
 refine peek_poke32_of_apart ?_
 intro j less'
 omega
lemma Carved.push (some : p ≠ 0) (slot : (p,b) ∈ slots)
  (lost : status p = .lost) (alloc_count free_count : Nat) :
  ∃ st' free', Carved u ⟨s.heap.setBin b { s.heap.bins b with
    free_list := p, alloc_count := alloc_count, free_count := free_count },
   poke32 s.memory (p + u) (s.heap.bins b).free_list,s.live⟩ slots st' free' := by
 obtain ⟨ok,_,high,_⟩ := carved.inside _ slot
 have holds := carved.bins b ok
 have le := carved.bound
 have front := carved.front.2.1
 have size := (carved.sized b ok).element
 have new : ∀ q ∈ free b, q ≠ p := by
  rintro q mem rfl
  have isFree := (holds.free q mem).2.1
  rw [lost] at isFree
  cases isFree
 have word : (s.heap.bins b).free_list < 2^32 := by
  rcases mem_append.mp (follows_first_mem holds.chain) with mem | last
  · have inside := (carved.inside _ (holds.free _ mem).2.2).2.2.1
    dsimp only at inside
    omega
  rw [mem_singleton.mp last]
  norm_num
 have links : ∀ q c, (q,c) ∈ slots -> q ≠ p ->
   peek32 (poke32 s.memory (p + u) (s.heap.bins b).free_list) (q + u) = peek32 s.memory (q + u) :=
  fun q c ne apart => carved.links_apart slot ne apart
 refine ⟨_,_,carved.set_bin (l := p :: free b) .free slot (by simp [lost]) rfl rfl links ⟨⟨rfl,?_⟩,?_,?_,?_⟩⟩
 · dsimp only
   rw [peek32_poke32_same _ _ word]
   refine (follows_congr ?_).mp holds.chain
   intro q mem
   exact (links q b (holds.free q mem).2.2 (new q mem)).symm
 · exact nodup_cons.mpr ⟨fun mem => new p mem rfl,holds.once⟩
 · intro q mem
   rcases mem_cons.mp mem with rfl | mem
   · exact ⟨some,update_self ..,slot⟩
   obtain ⟨some',isFree,slot'⟩ := holds.free q mem
   exact ⟨some',by rw [update_of_ne (new q mem),isFree],slot'⟩
 intro k lt
 obtain ⟨isRaw,slot'⟩ := holds.raw k lt
 refine ⟨?_,slot'⟩
 rw [update_of_ne]
 · exact isRaw
 intro eq
 dsimp only at eq
 rw [eq,lost] at isRaw
 cases isRaw
end

variable {s' : Machine}
lemma slab_free_carved {addr : Nat} (carved : Carved u s slots status free)
 (ran : step u s (.free addr) = some s') : ∃ st' free', Carved u s' slots st' free' := by
 simp only [step] at ran
 split_ifs at ran with live
 cases ran
 obtain ⟨size,mem,removed⟩ := carved.remove_live live
 obtain ⟨some,_,ok,slot⟩ := carved.live _ mem
 dsimp only at some ok slot
 obtain ⟨_,low,high,record⟩ := carved.inside _ slot
 have le := carved.bound
 have front := carved.front.2.1
 have least := (carved.sized _ ok).element
 dsimp only at low high record
 have place : get_page_cb s.heap addr = .some ((addr - s.heap.heap_base) / 4096) := by
  rw [get_page_cb,if_neg (by omega)]
 unfold slab_free
 rw [if_neg some,place]
 dsimp only
 rw [record]
 have eq := sameBut_lists (unuse_pages_sameBut ((addr - s.heap.heap_base) / 4096)
  (List.range ((s.heap.bins (bin_of s.heap size)).element_size / 4096)) (s.heap,true))
 have kept := removed.same_lists eq
 split_ifs
 · exact ⟨_,_,kept⟩
 · exact kept.push some slot (update_self ..) _ _

/-! ### Stores -/
lemma store_carved {addr : Nat} {byte : UInt8} (carved : Carved u s slots status free)
 (ran : step u s (.store addr byte) = some s') : Carved u s' slots status free := by
 simp only [step] at ran
 split_ifs at ran with allowed
 cases ran
 obtain ⟨word,stores⟩ := allowed
 refine ⟨carved.bound,carved.front,carved.count,carved.sized,carved.inside,carved.apart,carved.live,carved.once,?_⟩
 intro b less
 have holds := carved.bins b less
 refine ⟨?_,holds.once,holds.free,holds.raw⟩
 refine (follows_congr ?_).mp holds.chain
 intro q mem
 obtain ⟨_,isFree,slot⟩ := holds.free q mem
 obtain ⟨ok,low,high,_⟩ := carved.inside _ slot
 have le := carved.bound
 have front := carved.front.2.1
 have least := (carved.sized b ok).element
 dsimp only at low high
 refine peek32_congr ?_
 intro i within
 refine (peek_poke_of_ne ?_).symm
 -- The store is not in this free element: it would be in a live one.
 have out : addr ≠ q + i := by
  rintro rfl
  obtain ⟨block,live,above,lt⟩ := stores (by omega) (by omega)
  obtain ⟨_,isLive,_,slot'⟩ := carved.live block live
  have ne : (block.1,bin_of s.heap block.2) ≠ (q,b) := by
   intro eq
   simp only [Prod.mk.injEq] at eq
   rw [eq.1,isFree] at isLive
   cases isLive
  have split := carved.apart_of_ne slot' slot ne
  dsimp only [Apart,elementOf] at split lt
  omega
 omega

/-! ### Whole runs -/
/-- When the end of the heap wraps around, `get_page_cb` knows no address and no
  block is ever live. -/
structure Wrapped (s : Machine) : Prop where
 base : s.heap.heap_base < 2^32
 size : s.heap.heap_size < 2^32
 wraps : 2^32 ≤ s.heap.heap_base + s.heap.heap_size
 none : s.live = []
def Sound (u : Nat) (s : Machine) : Prop := (∃ slots status free, Carved u s slots status free) ∨ Wrapped s
lemma Wrapped.alloc (wrapped : Wrapped s) (size : Nat) : ∃ s', step u s (.alloc size) = some s' ∧ Wrapped s' := by
 have unknown : ∀ h addr, SameShape s.heap h -> get_page_cb h addr = .none := by
  intro h addr shape
  obtain ⟨base,size,wraps,_⟩ := wrapped
  rw [get_page_cb,shape.base,shape.size,if_pos (by omega)]
 have null : (kcache_alloc s.heap s.memory size).1 = 0 := by
  unfold kcache_alloc
  dsimp only
  split_ifs
  · rfl
  · rw [unknown _ _ ((take_element_shape ..).trans (count_alloc_lists ..).toSameShape)]
 have shape := kcache_alloc_shape s.heap s.memory size
 refine ⟨⟨(kcache_alloc s.heap s.memory size).2,s.memory,s.live⟩,by simp [step,null],?_,?_,?_,wrapped.none⟩
 · simpa only [shape.base] using wrapped.base
 · simpa only [shape.size] using wrapped.size
 · simpa only [shape.base,shape.size] using wrapped.wraps
lemma step_sound {a : Action} (sound : Sound u s) (fits : Fits s a) (seen : LinkSeen u s a)
 (ran : step u s a = some s') : Sound u s' := by
 rcases sound with ⟨slots,status,free,carved⟩ | wrapped
 · left
   cases a with
   | alloc size =>
    obtain ⟨s1,slots',status',free',result,carved'⟩ := kcache_alloc_carved carved fits seen
    rw [ran] at result
    cases result
    exact ⟨slots',status',free',carved'⟩
   | free addr => exact ⟨slots,slab_free_carved carved ran⟩
   | store addr byte => exact ⟨slots,status,free,store_carved carved ran⟩
 right
 cases a with
 | alloc size =>
  obtain ⟨s1,result,wrapped'⟩ := wrapped.alloc (u := u) size
  rw [ran] at result
  cases result
  exact wrapped'
 | free addr => simp [step,wrapped.none] at ran
 | store addr byte =>
  simp only [step] at ran
  split_ifs at ran
  cases ran
  exact ⟨wrapped.base,wrapped.size,wrapped.wraps,wrapped.none⟩
lemma bins_sized : ∀ bin ∈ kbins ++ ubins, (4 ≤ bin.element_size ∧ bin.grow_size % 4096 = 0 ∧
 bin.grow_size ≤ 0x400000 ∧ bin.grow_size / bin.element_size * bin.element_size = bin.grow_size ∧
 0 < bin.grow_size) ∧ bin.free_list = 0 ∧ bin.raw_count = 0 := by
 decide
variable (old : HeapList)
lemma heap_init_bins (kernel_addr logical_addr new_heap_size : Nat) (kernel_mode : Bool) :
 ∀ b < (heap_init old kernel_addr logical_addr new_heap_size kernel_mode).BIN_COUNT,
  (heap_init old kernel_addr logical_addr new_heap_size kernel_mode).bins b ∈ kbins ++ ubins := by
 intro b lt
 rw [mem_append]
 cases kernel_mode with
 | true =>
  left
  have mem : b < kbins.length := lt
  show (kbins[b]?).getD _ ∈ kbins
  rw [getElem?_eq_getElem mem]
  exact getElem_mem mem
 | false =>
  right
  have mem : b < ubins.length := lt
  show (ubins[b]?).getD _ ∈ ubins
  rw [getElem?_eq_getElem mem]
  exact getElem_mem mem
lemma heap_init_carved (m : Memory) (kernel_addr logical_addr new_heap_size : Nat) (kernel_mode : Bool)
 (le : (heap_init old kernel_addr logical_addr new_heap_size kernel_mode).heap_base +
  (heap_init old kernel_addr logical_addr new_heap_size kernel_mode).heap_size < 2^32) :
 Carved u ⟨heap_init old kernel_addr logical_addr new_heap_size kernel_mode,m,[]⟩ [] (fun _ => .lost) (fun _ => []) := by
 set h := heap_init old kernel_addr logical_addr new_heap_size kernel_mode with hIs
 have bins : ∀ b < h.BIN_COUNT, h.bins b ∈ kbins ++ ubins :=
  heap_init_bins old kernel_addr logical_addr new_heap_size kernel_mode
 refine ⟨le,⟨le_refl _,Nat.le_add_right _ _,?_⟩,?_,?_,?_,List.Pairwise.nil,?_,nodup_nil,?_⟩
 · show (h.heap_base - h.heap_base) % 4096 = 0
   rw [Nat.sub_self]
 · cases kernel_mode with
   | true => exact (by decide : kbins.length ≤ 32)
   | false => exact (by decide : ubins.length ≤ 32)
 · intro b lt
   obtain ⟨⟨element,pages,grow,whole,some⟩,_⟩ := bins_sized _ (bins b lt)
   exact ⟨element,pages,grow,whole,some⟩
 · simp
 · simp
 intro b lt
 obtain ⟨_,nil,none⟩ := bins_sized _ (bins b lt)
 refine ⟨nil,nodup_nil,by simp,?_⟩
 intro k within
 dsimp only at within
 omega
lemma heap_init_sound (m : Memory) (kernel_addr logical_addr new_heap_size : Nat)
 (kernel_mode : Bool) : Sound u ⟨heap_init old kernel_addr logical_addr new_heap_size kernel_mode,m,[]⟩ := by
 set h := heap_init old kernel_addr logical_addr new_heap_size kernel_mode
 have base : h.heap_base < 2^32 := Nat.mod_lt _ (by norm_num)
 have size : h.heap_size < 2^32 := Nat.mod_lt _ (by norm_num)
 by_cases wraps : 2^32 ≤ h.heap_base + h.heap_size
 · exact .inr ⟨base,size,wraps,rfl⟩
 · exact .inl ⟨_,_,_,heap_init_carved old m kernel_addr logical_addr new_heap_size kernel_mode (by simpa using wraps)⟩

/-- Every live block owns the element of its size inside the heap, and no two
  live blocks overlap. -/
structure BlocksOwned (s : Machine) : Prop where
 owned : ∀ block ∈ s.live, block.2 ≤ elementOf s.heap block.2 ∧ s.heap.heap_base ≤ block.1 ∧
  block.1 + elementOf s.heap block.2 ≤ s.heap.heap_base + s.heap.heap_size
 disjoint : s.live.Pairwise (fun x y =>
  x.1 + elementOf s.heap x.2 ≤ y.1 ∨ y.1 + elementOf s.heap y.2 ≤ x.1)
lemma Sound.owned (sound : Sound u s) : BlocksOwned s := by
 rcases sound with ⟨slots,status,free,carved⟩ | wrapped
 · constructor
   · intro block mem
     obtain ⟨_,_,ok,slot⟩ := carved.live block mem
     obtain ⟨_,low,high,_⟩ := carved.inside _ slot
     have front := carved.front.2.1
     have fits := (bin_of_fits (Nat.ne_of_lt ok)).2
     dsimp only at low high
     exact ⟨fits,low,by unfold elementOf; omega⟩
   have distinct := pairwise_map.mp carved.once
   refine distinct.imp_of_mem ?_
   intro x y fst snd ne
   exact carved.apart_of_ne (carved.live x fst).2.2.2 (carved.live y snd).2.2.2 (by simp [ne])
 constructor
 · simp [wrapped.none]
 · simp [wrapped.none]

end

/-- In every run of `kmalloc`, `kfree` on live blocks and stores to them that
  never grows the kernel heap past its end, the live blocks are in the heap,
  large enough and pairwise disjoint. -/
theorem live_blocks_disjoint (pages : Nat -> HeapPage) (m : Memory) (kernel_addr new_heap_size : Nat)
 (actions : List Action) (fits : Meets (step 0) Fits ⟨kernel_heap_init pages kernel_addr new_heap_size,m,[]⟩ actions) :
 Along (step 0) BlocksOwned (fun _ _ => True) ⟨kernel_heap_init pages kernel_addr new_heap_size,m,[]⟩ actions := by
 refine along_of_invariant (I := Sound 0) (fun s sound => sound.owned) (fun _ _ _ _ => trivial) ?_ actions _
  (heap_init_sound ..) fits
 intro s a s' sound fits taken
 refine step_sound sound fits ?_ taken
 cases a with
 | alloc size => intro _; rfl
 | free addr => trivial
 | store addr byte => trivial
instance (s : Machine) : (a : Action) -> Decidable (Fits s a)
 | .alloc _ => inferInstanceAs (Decidable (_ -> _ -> _ -> _))
 | .free _ => .isTrue trivial
 | .store _ _ => .isTrue trivial
theorem live_blocks_disjoint_small :
 Along (step 0) BlocksOwned (fun _ _ => True) ⟨kernel_heap_init (fun _ => ⟨0,0,0,0⟩) 0x500000 0x6000,fun _ => 0,[]⟩
  [.alloc 100,.alloc 5000,.store 0x501004 7,.free 0x501000,.alloc 120] :=
 live_blocks_disjoint _ _ _ _ _ (by decide +kernel)

/-! ### The region of a heap -/
def BlocksInside (a s : Nat) (t : Machine) : Prop :=
 ∀ block ∈ t.live, a ≤ block.1 ∧ block.1 + elementOf t.heap block.2 ≤ a + s
variable (kernel_mode : Bool)
def initHeap (old : HeapList) (a s : Nat) : HeapList :=
 if kernel_mode then kernel_heap_init old.pages a s else user_heap_init old a s
def userSpace : Nat := if kernel_mode then 0 else proc_vir2phys 0
lemma step_shape {u : Nat} {s s' : Machine} {a : Action} (ran : step u s a = some s') : SameShape s.heap s'.heap := by
 cases a with
 | alloc size =>
  cases ran
  exact kcache_alloc_shape ..
 | free addr =>
  simp only [step] at ran
  split_ifs at ran
  cases ran
  exact slab_free_shape ..
 | store addr byte =>
  simp only [step] at ran
  split_ifs at ran
  cases ran
  exact .refl _
lemma initHeap_eq (old : HeapList) (a s : Nat) :
 ∃ old' kernel_addr, initHeap kernel_mode old a s = heap_init old' kernel_addr a s kernel_mode := by
 cases kernel_mode with
 | true => exact ⟨_,_,rfl⟩
 | false => exact ⟨_,_,rfl⟩

/-- The blocks stay in the region in every run that does not grow the heap past its end and finds the links of the free
  lists where it reads them. -/
theorem heap_extent_iff (old : HeapList) (m : Memory) (a s : Nat) (whole : s % 4096 = 0)
 (more : 4096 < s) (room : a + s < 2^32) :
 (Extent (initHeap kernel_mode old a s) a s ↔ s ≤ 0x401000) ∧
  (s ≤ 0x401000 -> ∀ acts, Meets (step (userSpace kernel_mode))
    (fun t action => Fits t action ∧ LinkSeen (userSpace kernel_mode) t action)
    ⟨initHeap kernel_mode old a s,m,[]⟩ acts ->
   Along (step (userSpace kernel_mode)) (BlocksInside a s) (fun _ _ => True)
    ⟨initHeap kernel_mode old a s,m,[]⟩ acts) := by
 obtain ⟨old',kernel_addr,made⟩ := initHeap_eq kernel_mode old a s
 rw [made]
 have extent := heap_init_extent_iff old' kernel_addr kernel_mode whole more room
 refine ⟨extent,?_⟩
 intro small acts meets
 have range := (extent.mpr small).range
 refine along_of_invariant
  (I := fun t => Sound (userSpace kernel_mode) t ∧ SameShape (heap_init old' kernel_addr a s kernel_mode) t.heap)
  ?_ (fun _ _ _ _ => trivial) ?_ acts _ ⟨heap_init_sound ..,.refl _⟩ meets
 · rintro t ⟨sound,shape⟩ block mem
   obtain ⟨_,low,high⟩ := sound.owned.owned block mem
   rw [shape.base] at low high
   rw [shape.size] at high
   omega
 rintro t action t' ⟨sound,shape⟩ ⟨fits,seen⟩ taken
 exact ⟨step_sound sound fits seen taken,shape.trans (step_shape taken)⟩
theorem heap_extent_small :
 let h := initHeap true ⟨0,0,0,0,0,fun _ => emptyBin (0,0),0,fun _ => ⟨0,0,0,0⟩⟩ 0x500000 0x401000
 Extent h 0x500000 0x401000 ∧
  Along (step (userSpace true)) (BlocksInside 0x500000 0x401000) (fun _ _ => True) ⟨h,fun _ => 0,[]⟩ [.alloc 0x20] := by
 have both := heap_extent_iff true ⟨0,0,0,0,0,fun _ => emptyBin (0,0),0,fun _ => ⟨0,0,0,0⟩⟩ (fun _ => 0)
  0x500000 0x401000 (by norm_num) (by norm_num) (by norm_num)
 refine ⟨both.1.mpr (by norm_num),both.2 (by norm_num) _ (meets_cons.mpr ⟨⟨?_,fun _ => rfl⟩,fun _ _ => trivial⟩)⟩
 decide +kernel
theorem heap_extent_fails :
 ¬ Extent (kernel_heap_init (fun _ => ⟨0,0,0,0⟩) 0x442000 0x1400000) 0x442000 0x1400000 ∧
  ¬ Along (step 0) (BlocksInside 0x500000 0x2000) (fun _ _ => True)
   ⟨kernel_heap_init (fun _ => ⟨0,0,0,0⟩) 0x500000 0x2000,fun _ => 0,[]⟩ [.alloc 0x2000] := by
 constructor
 · rintro ⟨_,_,_,high⟩
   exact absurd high (by decide)
 rintro ⟨_,_,later⟩
 have inside := later _ rfl (0x501000,0x2000) (by decide +kernel)
 exact absurd inside.2 (by decide +kernel)

end Netbas.SlabRuns
