import Netbas.FrameRuns

/-!
`memory_init` of `cpu/i386/mm/init.c` and the addresses that `get_page` returns after it. The last
entries of the table stand for frames past `__HIGH_MEM`; the number of calls decides when the first
of them is returned (`returned_in_range_iff`).
-/
namespace Netbas.MemoryInit
open Chains Frames FrameRuns Words List
open Function (update_of_ne update_self)
def check_kmem (kmem : Int) : Int :=
 (if kmem > 1024 then 1024 else if kmem < 0 then 24 else kmem) * 0x100000
def cp_grub_info (modules_end : Nat) : Nat :=
 let last := if modules_end < 0x400000 then 0x400000 else (modules_end + 0xffff) % 2^32
 (last + 0xffff) % 2^32 &&& 0xffff0000
def pages_scan (s : PageMap) (x : Int) : Nat -> Int -> Int -> Int -> Int × Int
 | 0, _, start, cnt => (start,cnt)
 | rounds + 1, i, start, cnt =>
  if s.count i ≠ 0 then pages_scan s x rounds (i + 1) 0 0
  else if s.prev i ≠ i - 1 then pages_scan s x rounds (i + 1) 0 0
  else if s.next i ≠ i + 1 then pages_scan s x rounds (i + 1) 0 0
  else
   let start := if start = 0 then i else start
   if cnt + 1 = x then (start,cnt + 1) else pages_scan s x rounds (i + 1) start (cnt + 1)
def get_pages_index (s : PageMap) (x : Int) : Int :=
 let (start,cnt) := pages_scan s x (s.PHI_BLOCKS.toNat - 1) 1 0 0
 if cnt ≠ x then 0 else start
def take_entry (s : PageMap) (i : Int) : PageMap :=
 (({s with hole_head_pos := s.next i} : PageMap).setPrev i HOLE_NULL).setCount i 1
def get_pages (s : PageMap) (counts : Int) : Nat × PageMap :=
 if counts = 0 then (0,s)
 else
  let first := get_pages_index s counts
  if first = 0 then (0,s)
  else
   -- The loop runs from the first entry up to `counts`, not for `counts` entries.
   let s' := ((range (counts - first).toNat).map (fun i : Nat => first + i)).foldl take_entry s
   (s.address first,s')

/-- `memory_init`; `none` is the panic or the failed assertion. The result is the
  frame table and the start of the kernel heap. -/
def memory_init (KERN_PG_DIR_ADDR : Nat) (SLAB_MALLOC_SIZE : Int) (start : Int -> PgmapsStruct) (mem_size : Nat) :
  Option (PageMap × Nat) :=
 let num_blks := mem_size / 4096
 let pages_start : Nat := (KERN_PG_DIR_ADDR + 4096 + num_blks * 4 + 4095) % 2^32 &&& PT_PFNMASK
 let mm_pool : Nat := (pages_start + (num_blks * 12 + 4095)) % 2^32 &&& PT_PFNMASK
 if mem_size < u32 (SLAB_MALLOC_SIZE + mm_pool) then none
 else
  let s := memory_slot_init mm_pool mem_size start num_blks
  let (mm_pool,s) := get_pages s ((SLAB_MALLOC_SIZE + 4095) / 4096)
  if mm_pool = 0 then none else some (s,mm_pool)
lemma check_kmem_bounds (kmem : Int) : ∃ k : Nat, k ≤ 262144 ∧ check_kmem kmem = k * 4096 ∧ k % 256 = 0 := by
 unfold check_kmem
 split_ifs
 · exact ⟨262144,by norm_num,by norm_num,by norm_num⟩
 · exact ⟨6144,by norm_num,by norm_num,by norm_num⟩
 · exact ⟨(kmem * 256).toNat,by omega,by omega,by omega⟩
lemma cp_grub_info_bounds {modules_end : Nat} (low : modules_end < 2^31) :
 0x400000 ≤ cp_grub_info modules_end ∧ cp_grub_info modules_end < 2^31 + 2^17 := by
 unfold cp_grub_info
 dsimp only
 have mask : ∀ x : Nat, x < 2^32 -> x &&& 0xffff0000 = x / 65536 * 65536 := fun x word =>
  land_high_mask (w := 32) (k := 16) (by norm_num) word
 split_ifs
 · rw [mask _ (by norm_num)]; norm_num
 rw [mask _ (Nat.mod_lt _ (by norm_num))]
 omega
structure Untouched (s : PageMap) (f : Int) : Prop where
 low : 0 ≤ f
 bound : s.hole_max = s.PHI_BLOCKS - 1
 head : s.hole_head_pos = f
 tail : s.hole_tail_pos = s.PHI_BLOCKS - 1 ∨ s.hole_tail_pos < f
 linked : ∀ j, f ≤ j -> j < s.PHI_BLOCKS - 1 -> s.next j = j + 1
 free : ∀ j, f ≤ j -> j < s.PHI_BLOCKS -> s.count j = 0

variable {s : PageMap}
lemma untouched_get {f : Int} (new : Untouched s f) (more : f < s.PHI_BLOCKS - 1) :
 ∃ s', get_page s = some (s.address f,s') ∧ Untouched s' (f + 1) ∧ s'.PHI_BLOCKS = s.PHI_BLOCKS ∧
  s'.LOW_MEM = s.LOW_MEM ∧ s'.HIGH_MEM = s.HIGH_MEM := by
 have ne : s.hole_head_pos ≠ s.hole_tail_pos := by
  rw [new.head]
  rcases new.tail with last | freed <;> omega
 have notNull : s.hole_head_pos ≠ HOLE_NULL := by
  rw [new.head]
  have := new.low
  unfold HOLE_NULL
  omega
 refine ⟨(({s with hole_head_pos := s.next s.hole_head_pos} : PageMap).setPrev (s.next s.hole_head_pos)
  HOLE_NULL).setCount s.hole_head_pos 1,?_,⟨?_,new.bound,?_,?_,?_,?_⟩,rfl,rfl,rfl⟩
 · unfold get_page
   rw [if_neg ne,if_neg notNull]
   simp only [new.head]
 · have := new.low
   omega
 · show s.next s.hole_head_pos = f + 1
   rw [new.head,new.linked f (by omega) more]
 · rcases new.tail with last | freed
   · exact .inl last
   right
   show s.hole_tail_pos < f + 1
   omega
 · intro j after pre
   rw [setCount_next,setPrev_next]
   exact new.linked j (by omega) pre
 intro j after pre
 rw [setCount_count,setPrev_count,new.head,update_of_ne (by omega)]
 exact new.free j (by omega) pre
lemma untouched_free {f : Int} (new : Untouched s f) (addr : Nat) :
 Untouched (free_page s addr).2 f ∧ (free_page s addr).2.PHI_BLOCKS = s.PHI_BLOCKS ∧
  (free_page s addr).2.LOW_MEM = s.LOW_MEM ∧ (free_page s addr).2.HIGH_MEM = s.HIGH_MEM := by
 have notNull : s.hole_head_pos ≠ HOLE_NULL := by
  rw [new.head]
  have := new.low
  unfold HOLE_NULL
  omega
 rcases free_page_cases addr notNull with ⟨refused,_⟩ |
   ⟨s',freed,_,mem,used,counts,sameHead,sameMax,blocks,low,high,references⟩
 · rw [refused]
   exact ⟨new,rfl,rfl,rfl⟩
 rw [freed]
 refine ⟨?_,blocks,low,high⟩
 show Untouched s' f
 set idx : Int := (s.MAP_NR addr : Int) with idxIs
 -- A frame that is in use lies before the untouched entries.
 have le := new.bound
 have pre : idx < f := by
  by_contra after
  exact used (new.free idx (by omega) (by omega))
 have free : ∀ j, f ≤ j -> j < s'.PHI_BLOCKS -> s'.count j = 0 := by
  intro j after inTable
  rw [counts,update_of_ne (by omega)]
  exact new.free j after (by omega)
 have sameBound : s'.hole_max = s'.PHI_BLOCKS - 1 := by rw [sameMax,blocks,le]
 rcases references with ⟨_,tail,links⟩ | ⟨_,tail,links⟩
 · exact ⟨new.low,sameBound,by rw [sameHead]; exact new.head,by rw [tail,blocks]; exact new.tail,
    by rw [links,blocks]; exact new.linked,free⟩
 refine ⟨new.low,sameBound,by rw [sameHead]; exact new.head,.inr (by rw [tail]; exact pre),?_,free⟩
 intro j after inTable
 have tailAway : j ≠ s.hole_tail_pos := by
  rcases new.tail with last | freed <;> omega
 rw [links,update_of_ne (by omega),update_of_ne tailAway]
 exact new.linked j after (by omega)
lemma pages_scan_fresh {x : Int} (count : ∀ j, 0 ≤ j -> j < s.PHI_BLOCKS -> s.count j = 0)
 (prev : ∀ j, 0 ≤ j -> j < s.PHI_BLOCKS -> s.prev j = j - 1)
 (next : ∀ j, 0 ≤ j -> j < s.PHI_BLOCKS - 1 -> s.next j = j + 1) (fits : x ≤ s.PHI_BLOCKS - 2) :
 ∀ (rounds : Nat) (i : Int), 1 ≤ i -> i + rounds = s.PHI_BLOCKS -> i - 1 < x ->
  pages_scan s x rounds i (if i = 1 then 0 else 1) (i - 1) = (1,x) := by
 intro rounds
 induction rounds with
 | zero => intro i low total le; omega
 | succ rounds ih =>
  intro i low total le
  have begins : (if (if i = 1 then (0 : Int) else 1) = 0 then i else if i = 1 then 0 else 1) = 1 := by
   split_ifs <;> omega
  rw [pages_scan]
  simp only [count i (by omega) (by omega),prev i (by omega) (by omega),next i (by omega) (by omega),ne_eq,
   not_true_eq_false,↓reduceIte,begins]
  by_cases done : i - 1 + 1 = x
  · rw [if_pos done,done]
  rw [if_neg done]
  have later := ih (i + 1) (by omega) (by omega) (by omega)
  rw [if_neg (by omega)] at later
  rw [show i - 1 + 1 = i + 1 - 1 by ring]
  exact later
lemma taken_entries (fst : Int) (k : Nat) :
  let s' := ((range k).map (fun i : Nat => fst + i)).foldl take_entry s
  s'.hole_head_pos = (if k = 0 then s.hole_head_pos else s.next (fst + k - 1)) ∧ s'.hole_tail_pos = s.hole_tail_pos ∧
   s'.hole_max = s.hole_max ∧ s'.PHI_BLOCKS = s.PHI_BLOCKS ∧ s'.LOW_MEM = s.LOW_MEM ∧ s'.HIGH_MEM = s.HIGH_MEM ∧
   s'.next = s.next ∧ ∀ j : Int, s'.count j = if fst ≤ j ∧ j < fst + k then 1 else s.count j := by
 induction k with
 | zero =>
  refine ⟨rfl,rfl,rfl,rfl,rfl,rfl,rfl,?_⟩
  intro j
  rw [if_neg (by omega)]
  rfl
 | succ k ih =>
  intro s'
  obtain ⟨_,tail,max,blocks,low,high,links,counts⟩ := ih
  set before := ((range k).map (fun i : Nat => fst + i)).foldl take_entry s
  have after : s' = take_entry before (fst + k) := by
   simp only [s',range_succ,map_append,foldl_append]
   rfl
  rw [after]
  refine ⟨?_,tail,max,blocks,low,high,?_,?_⟩
  · show before.next (fst + k) = _
    rw [links,if_neg (by omega)]
    congr 1
    push_cast
    ring
  · show ((PageMap.setPrev _ _ _).setCount _ _).next = _
    rw [setCount_next,setPrev_next]
    exact links
  intro j
  show ((PageMap.setPrev _ _ _).setCount _ _).count j = _
  rw [setCount_count,setPrev_count]
  by_cases eq : j = fst + (k : Int)
  · rw [eq,update_self,if_pos (by push_cast; omega)]
  rw [update_of_ne eq]
  show before.count j = _
  rw [counts j]
  have grown : (fst ≤ j ∧ j < fst + (k : Int)) ↔ (fst ≤ j ∧ j < fst + ((k + 1 : Nat) : Int)) := by
   push_cast
   omega
  simp only [grown]
lemma get_pages_fresh (LOW_MEM HIGH_MEM : Nat) (start : Int -> PgmapsStruct) {size counts : Int} (several : 2 ≤ counts)
 (fits : counts ≤ size - 2) :
 ∃ s, get_pages (memory_slot_init LOW_MEM HIGH_MEM start size) counts = ((4096 + LOW_MEM) % 2^32,s) ∧
  Untouched s counts ∧ s.PHI_BLOCKS = size ∧ s.LOW_MEM = LOW_MEM ∧ s.HIGH_MEM = HIGH_MEM ∧
  s.hole_tail_pos = s.PHI_BLOCKS - 1 := by
 have two : 2 ≤ size := by omega
 obtain ⟨⟨head,tail,max,blocks,low,high⟩,table⟩ := memory_slot_init_table LOW_MEM HIGH_MEM start two
 set s := memory_slot_init LOW_MEM HIGH_MEM start size
 dsimp only at head tail max blocks low high
 have nexts : ∀ j, 0 ≤ j -> j < s.PHI_BLOCKS - 1 -> s.next j = j + 1 := by
  intro j after pre
  rw [(table j after (by omega)).2.2,if_neg (by omega)]
 have idx : get_pages_index s counts = 1 := by
  have scan := pages_scan_fresh (s := s) (x := counts) (fun j after pre => (table j after (by omega)).1)
   (fun j after pre => (table j after (by omega)).2.1) nexts (by omega) (s.PHI_BLOCKS.toNat - 1) 1
   (by omega) (by omega) (by omega)
  rw [if_pos rfl,show (1 : Int) - 1 = 0 by norm_num] at scan
  unfold get_pages_index
  rw [scan]
  simp
 obtain ⟨head',tail',max',blocks',low',high',links',counts'⟩ := taken_entries (s := s) 1 (counts - 1).toNat
 have last : ∀ t : PageMap, t.hole_tail_pos = s.hole_tail_pos -> t.PHI_BLOCKS = s.PHI_BLOCKS ->
   t.hole_tail_pos = t.PHI_BLOCKS - 1 := by
  intro t tailIs blocksIs
  rw [tailIs,blocksIs,tail,blocks]
 refine ⟨_,?_,⟨by omega,by rw [max',blocks',max,blocks],?_,.inl (last _ tail' blocks'),?_,?_⟩,?_,?_,?_,last _ tail' blocks'⟩
 · unfold get_pages
   rw [if_neg (by omega),idx]
   simp only [one_ne_zero,↓reduceIte]
   have addr : s.address 1 = (4096 + LOW_MEM) % 2^32 := by
    unfold PageMap.address
    rw [low]
    rfl
   rw [addr]
 · rw [head',if_neg (by omega),nexts _ (by omega) (by omega)]
   omega
 · intro j after pre
   rw [blocks'] at pre
   rw [links',nexts j (by omega) pre]
 · intro j after pre
   rw [blocks'] at pre
   rw [counts',if_neg (by omega)]
   exact (table j (by omega) (by omega)).1
 · rw [blocks',blocks]
 · rw [low',low]
 · rw [high',high]
def poolStart (KERN_PG_DIR_ADDR mem_size : Nat) : Nat :=
 ((KERN_PG_DIR_ADDR + 4096 + mem_size / 4096 * 4 + 4095) / 4096 * 4096 + (mem_size / 4096 * 12 + 4095)) / 4096 * 4096
lemma poolStart_bounds {KERN_PG_DIR_ADDR mem_size : Nat} (above : 0x400000 ≤ KERN_PG_DIR_ADDR)
 (lt : KERN_PG_DIR_ADDR < 2^31 + 2^17) (word : mem_size < 2^32) :
 0x400000 ≤ poolStart KERN_PG_DIR_ADDR mem_size ∧ poolStart KERN_PG_DIR_ADDR mem_size < 2^31 + 2^25 := by
 unfold poolStart
 omega
lemma memory_init_cases {modules_end mem_size : Nat} (kmem : Int) (start : Int -> PgmapsStruct)
  (low : modules_end < 2^31) (word : mem_size < 2^32) :
  let mm_pool := poolStart (cp_grub_info modules_end) mem_size
  ∃ k : Nat, check_kmem kmem = k * 4096 ∧ 0x400000 ≤ mm_pool ∧
   (((k = 0 ∨ mem_size < k * 4096 + mm_pool) ∧
     memory_init (cp_grub_info modules_end) (check_kmem kmem) start mem_size = none) ∨
    (0 < k ∧ k * 4096 + mm_pool ≤ mem_size ∧
     ∃ s pool, memory_init (cp_grub_info modules_end) (check_kmem kmem) start mem_size = some (s,pool) ∧
      Untouched s k ∧ s.PHI_BLOCKS = (mem_size / 4096 : Nat) ∧ s.LOW_MEM = mm_pool ∧ s.HIGH_MEM = mem_size ∧
      s.hole_tail_pos = s.PHI_BLOCKS - 1)) := by
 intro mm_pool
 obtain ⟨k,few,slab,whole⟩ := check_kmem_bounds kmem
 obtain ⟨above,lt⟩ := cp_grub_info_bounds low
 rw [slab]
 unfold memory_init
 dsimp only
 rw [pfnmask_eq (Nat.mod_lt _ (by norm_num)),pfnmask_eq (Nat.mod_lt _ (by norm_num))]
 have fst : (cp_grub_info modules_end + 4096 + mem_size / 4096 * 4 + 4095) % 2^32 =
   cp_grub_info modules_end + 4096 + mem_size / 4096 * 4 + 4095 := Nat.mod_eq_of_lt (by omega)
 have snd : ((cp_grub_info modules_end + 4096 + mem_size / 4096 * 4 + 4095) / 4096 * 4096 +
   (mem_size / 4096 * 12 + 4095)) % 2^32 / 4096 * 4096 = mm_pool := by
  rw [Nat.mod_eq_of_lt (by omega)]
  rfl
 have tables : 0x400000 ≤ mm_pool ∧ mm_pool < 2^31 + 2^25 := poolStart_bounds above lt word
 clear_value mm_pool
 have third : u32 ((k : Int) * 4096 + mm_pool) = k * 4096 + mm_pool := by
  unfold u32
  omega
 have counts : ((k : Int) * 4096 + 4095) / 4096 = k := by omega
 rw [fst,snd,third,counts]
 refine ⟨k,rfl,by omega,?_⟩
 by_cases le : mem_size < k * 4096 + mm_pool
 · exact .inl ⟨.inr le,by rw [if_pos le]⟩
 rw [if_neg le]
 by_cases zero : k = 0
 · left
   refine ⟨.inl zero,?_⟩
   subst zero
   rfl
 right
 have several : 2 ≤ (k : Int) := by omega
 have fits : (k : Int) ≤ ((mem_size / 4096 : Nat) : Int) - 2 := by omega
 obtain ⟨s,ran,new,blocks,lowIs,highIs,last⟩ := get_pages_fresh mm_pool mem_size start several fits
 refine ⟨by omega,by omega,s,(4096 + mm_pool) % 2^32,?_,new,blocks,lowIs,highIs,last⟩
 rw [ran]
 dsimp only
 rw [if_neg (by omega)]
def returned : PageMap -> List Action -> List Nat
 | _, [] => []
 | s, .get :: rest =>
  match get_page s with
  | none => []
  | some (addr,s') => addr :: returned s' rest
 | s, .free addr :: rest => returned (free_page s addr).2 rest
def gets : List Action -> Nat
 | [] => 0
 | .get :: rest => gets rest + 1
 | .free _ :: rest => gets rest
lemma gets_replicate (n : Nat) : gets (replicate n .get) = n := by
 induction n with
 | zero => rfl
 | succ n ih => rw [replicate_succ,gets,ih]
def capacity (s : PageMap) : Nat := (s.HIGH_MEM - s.LOW_MEM + 4095) / 4096
def InRange (s : PageMap) (addr : Nat) : Prop :=
 s.LOW_MEM ≤ addr ∧ addr < s.HIGH_MEM ∧ CHECK_PHY_PAGE s addr = 0
lemma inRange_iff (s : PageMap) (addr : Nat) : InRange s addr ↔ s.LOW_MEM ≤ addr ∧ addr < s.HIGH_MEM := by
 unfold InRange CHECK_PHY_PAGE
 constructor
 · rintro ⟨above,lt,_⟩; exact ⟨above,lt⟩
 · rintro ⟨above,lt⟩; exact ⟨above,lt,by rw [if_neg (by omega)]⟩
lemma address_inRange_iff {f : Nat} (low : 0x400000 ≤ s.LOW_MEM) (order : s.LOW_MEM ≤ s.HIGH_MEM)
 (word : s.HIGH_MEM < 2^32) (near : f ≤ capacity s) : InRange s (s.address f) ↔ f < capacity s := by
 unfold capacity at *
 have offset : PTOB f = f * 4096 := by
  unfold PTOB u32
  omega
 rw [inRange_iff]
 unfold PageMap.address
 rw [offset]
 omega
lemma returned_untouched (acts : List Action) : ∀ (s : PageMap) (f : Nat), Untouched s f ->
 0x400000 ≤ s.LOW_MEM -> s.LOW_MEM ≤ s.HIGH_MEM -> s.HIGH_MEM < 2^32 -> f ≤ capacity s ->
 (capacity s : Int) < s.PHI_BLOCKS - 1 ->
  ((∀ addr ∈ returned s acts, InRange s addr) ↔ gets acts ≤ capacity s - f) := by
 induction acts with
 | nil => intro s f _ _ _ _ _ _; simp [returned,gets]
 | cons action rest ih =>
  intro s f new low order word near room
  cases action with
  | get =>
   obtain ⟨s',ran,fresh',blocks,lowIs,highIs⟩ := untouched_get new (by omega)
   have eq : ∀ addr, InRange s' addr ↔ InRange s addr := by
    intro addr
    rw [inRange_iff,inRange_iff,lowIs,highIs]
   have sameCapacity : capacity s' = capacity s := by unfold capacity; rw [lowIs,highIs]
   have here := address_inRange_iff low order word near
   simp only [returned,ran,gets,forall_mem_cons,here]
   by_cases last : f = capacity s
   · constructor
     · rintro ⟨lt,_⟩; omega
     · intro few; omega
   have later := ih s' (f + 1) (by exact_mod_cast fresh') (by omega) (by omega) (by omega) (by omega) (by omega)
   simp only [eq,sameCapacity] at later
   rw [later]
   omega
  | free addr =>
   obtain ⟨fresh',blocks,lowIs,highIs⟩ := untouched_free new addr
   have eq : ∀ a, InRange (free_page s addr).2 a ↔ InRange s a := by
    intro a
    rw [inRange_iff,inRange_iff,lowIs,highIs]
   have sameCapacity : capacity (free_page s addr).2 = capacity s := by unfold capacity; rw [lowIs,highIs]
   have later := ih _ f fresh' (by omega) (by omega) (by omega) (by omega) (by omega)
   simp only [eq,sameCapacity] at later
   exact later

/-- After `memory_init`, the addresses that a run of `get_page` and `free_page`
  calls gets are all accepted by `CHECK_PHY_PAGE` if and only if the run makes
  no more `get_page` calls than frames are left between the pages taken for the
  kernel heap and `__HIGH_MEM`. -/
theorem returned_in_range_iff (modules_end mem_size pool : Nat) (kmem : Int) (start : Int -> PgmapsStruct) (s : PageMap)
 (low : modules_end < 2^31) (word : mem_size < 2^32)
 (accepted : memory_init (cp_grub_info modules_end) (check_kmem kmem) start mem_size = some (s,pool))
 (acts : List Action) :
 (∀ addr ∈ returned s acts, InRange s addr) ↔
  gets acts ≤ capacity s - (check_kmem kmem / 4096).toNat := by
 obtain ⟨k,slab,above,cases⟩ := memory_init_cases kmem start low word
 rcases cases with ⟨_,refused⟩ | ⟨_,fits,s',pool',taken,new,blocks,lowIs,highIs,_⟩
 · rw [refused] at accepted
   cases accepted
 rw [taken] at accepted
 cases accepted
 rw [slab,show ((k : Int) * 4096 / 4096).toNat = k by omega]
 apply returned_untouched acts s k new (by omega) (by omega) (by omega)
 · unfold capacity
   omega
 rw [blocks]
 unfold capacity
 omega
lemma memory_init_small : ∃ s pool, memory_init (cp_grub_info 0) (check_kmem 20) (fun _ => ⟨0,0,0⟩) 0x4000000 =
 some (s,pool) ∧ Untouched s 5120 ∧ s.PHI_BLOCKS = 16384 ∧ s.LOW_MEM = 0x441000 ∧ s.HIGH_MEM = 0x4000000 := by
 obtain ⟨k,slab,_,cases⟩ := memory_init_cases 20 (fun _ => ⟨0,0,0⟩) (show 0 < 2^31 by norm_num)
  (show 0x4000000 < 2^32 by norm_num)
 have pages : k = 5120 := by
  have heap : check_kmem 20 = 20971520 := by decide
  omega
 have tables : poolStart (cp_grub_info 0) 0x4000000 = 0x441000 := by decide
 rw [pages,tables] at cases
 rcases cases with ⟨short | short,_⟩ | ⟨_,_,took⟩
 · cases short
 · exact absurd short (by norm_num)
 obtain ⟨s,pool,took,new,blocks,lowIs,highIs,_⟩ := took
 exact ⟨s,pool,took,new,blocks,lowIs,highIs⟩
theorem returned_in_range_small : ∃ s pool, memory_init (cp_grub_info 0) (check_kmem 20) (fun _ => ⟨0,0,0⟩) 0x4000000 =
 some (s,pool) ∧ ∀ addr ∈ returned s (replicate 10175 .get), InRange s addr := by
 obtain ⟨s,pool,accepted,_,_,lowIs,highIs⟩ := memory_init_small
 refine ⟨s,pool,accepted,?_⟩
 apply (returned_in_range_iff 0 0x4000000 pool 20 _ s (by norm_num) (by norm_num) accepted _).mpr
 rw [gets_replicate,capacity,lowIs,highIs]
 decide
theorem returned_out_of_range_small : ∃ s pool, memory_init (cp_grub_info 0) (check_kmem 20) (fun _ => ⟨0,0,0⟩) 0x4000000 =
 some (s,pool) ∧ ¬ ∀ addr ∈ returned s (replicate 10176 .get), InRange s addr := by
 obtain ⟨s,pool,accepted,new,blocks,lowIs,highIs⟩ := memory_init_small
 refine ⟨s,pool,accepted,?_⟩
 have room : capacity s = 15295 := by
  rw [capacity,lowIs,highIs]
 rw [returned_untouched _ s 5120 new (by omega) (by omega) (by omega) (by omega) (by omega),gets_replicate,room]
 norm_num

end Netbas.MemoryInit
