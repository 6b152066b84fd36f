import Netbas.Bytes
import Netbas.Frames

/-!
The slab heap of `core/mm/vm.c`. `raw_alloc` takes pages from the front, and each page belongs to a
bin, which splits it into elements of one size. The records of the pages never overlap the heap
(`heap_table_below_base`).
-/
namespace Netbas.Slab
open Bytes Words
open Frames (USER_SPACE_ADDR)
def PAGE_ALIGN (x : Nat) : Nat := (x + 4095) % 2^32 &&& 0xfffff000
lemma page_align_eq (x : Nat) : PAGE_ALIGN x = (x + 4095) % 2^32 / 4096 * 4096 :=
 land_high_mask (w := 32) (k := 12) (by norm_num) (Nat.mod_lt _ (by norm_num))
structure HeapPage where
 bin_index : Nat
 free_items : Nat
 cleaning : Nat
 in_use : Nat
 deriving DecidableEq
structure HeapBin where
 element_size : Nat
 grow_size : Nat
 alloc_count : Nat
 free_list : Nat
 free_count : Nat
 raw_list : Nat
 raw_count : Nat
 deriving DecidableEq
structure HeapList where
 heap_alloc_table : Nat
 heap_base_ptr : Nat
 user_base_ptr : Nat
 heap_base : Nat
 heap_size : Nat
 bins : Nat -> HeapBin
 BIN_COUNT : Nat
 /-- The records at `heap_alloc_table`. -/
 pages : Nat -> HeapPage

section
variable (h : HeapList)
section
variable (idx : Nat)
section
variable (bin : HeapBin)
def HeapList.setBin : HeapList :=
 {h with bins := Function.update h.bins idx bin}
def HeapList.setPage (page : HeapPage) : HeapList :=
 {h with pages := Function.update h.pages idx page}
@[simp] lemma setBin_front :
  (h.setBin idx bin).heap_base_ptr = h.heap_base_ptr := rfl
@[simp] lemma setBin_pages : (h.setBin idx bin).pages = h.pages := rfl
@[simp] lemma setBin_self : (h.setBin idx bin).bins idx = bin := by
 simp [HeapList.setBin]
end
end
end

variable {h : HeapList}
lemma setBin_of_ne {idx b : Nat} {bin : HeapBin} (ne : b ≠ idx) :
 (h.setBin idx bin).bins b = h.bins b := by
 simp [HeapList.setBin,ne]
def emptyBin (sizes : Nat × Nat) : HeapBin := ⟨sizes.1,sizes.2,0,0,0,0,0⟩
def kbins : List HeapBin :=
 [(16,4096),(32,4096),(64,4096),(128,4096),(256,4096),(512,4096),(1024,4096),(2048,4096),(4096,4096),
  (0x1000,0x1000),(0x2000,0x2000),(0x3000,0x3000),(0x4000,0x4000),(0x5000,0x5000),(0x6000,0x6000),(0x7000,0x7000),
  (0x8000,0x8000),(0x9000,0x9000),(0xa000,0xa000),(0xb000,0xb000),(0xc000,0xc000),(0xd000,0xd000),(0xe000,0xe000),
  (0xf000,0xf000),(0x10000,0x10000),(0x100000,0x100000),(0x200000,0x200000),(0x400000,0x400000)].map emptyBin
def ubins : List HeapBin :=
 [(128,4096),(256,4096),(512,4096),(1024,4096),(2048,4096),(4096,4096),
  (0x1000,0x1000),(0x2000,0x2000),(0x3000,0x3000),(0x4000,0x4000),(0x5000,0x5000),(0x6000,0x6000),(0x7000,0x7000),
  (0x8000,0x8000),(0x9000,0x9000),(0xa000,0xa000),(0xb000,0xb000),(0xc000,0xc000),(0xd000,0xd000),(0xe000,0xe000),
  (0xf000,0xf000),(0x10000,0x10000),(0x100000,0x100000),(0x200000,0x200000),(0x300000,0x300000),
  (0x400000,0x400000)].map emptyBin
def heap_init (heap_list : HeapList) (kernel_addr logical_addr new_heap_size : Nat) (kernel_mode : Bool) : HeapList :=
 let bins := if kernel_mode then kbins else ubins
 let heap_size := (new_heap_size + (2^32 - 4096)) % 2^32
 let heap_base := (logical_addr + PAGE_ALIGN (heap_size / 1024)) % 2^32
 { heap_alloc_table := kernel_addr
   heap_base_ptr := heap_base
   user_base_ptr := logical_addr
   heap_base := heap_base
   heap_size := heap_size
   bins := fun i => (bins[i]?).getD (heap_list.bins i)
   BIN_COUNT := bins.length
   pages := fun i => if i < heap_size / 4096 then ⟨0,0,0,0⟩ else heap_list.pages i }
def kernel_heap_init (pages : Nat -> HeapPage) (kernel_addr new_heap_size : Nat) : HeapList :=
 heap_init ⟨0,0,0,0,0,fun _ => emptyBin (0,0),0,pages⟩ kernel_addr kernel_addr new_heap_size true
def proc_vir2phys (vir : Nat) : Nat := (USER_SPACE_ADDR + vir) % 2^32
variable (vm_heap_list : HeapList)
def user_heap_init (logical_addr new_heap_size : Nat) : HeapList :=
 heap_init vm_heap_list (proc_vir2phys logical_addr) logical_addr new_heap_size false
def get_page_cb (h : HeapList) (addr : Nat) : Option Nat :=
 if addr < h.heap_base ∨ addr ≥ (h.heap_base + h.heap_size) % 2^32 then none
 else some ((addr - h.heap_base) / 4096)

/-- The loop of `raw_alloc`. Outside of the heap `get_page_cb` is null and the
  record is written to address 0. -/
def mark_pages (index : Nat) : Nat -> HeapList -> Nat -> HeapList
 | 0, h, _ => h
 | rounds + 1, h, addr =>
  let h' := match get_page_cb h addr with
   | none => h
   | some page =>
    let items := if index < h.BIN_COUNT ∧ (h.bins index).element_size < 4096 then 4096 / (h.bins index).element_size
     else 1
    h.setPage page {h.pages page with in_use := 0, bin_index := index % 2^5, free_items := items % 2^9}
  mark_pages index rounds h' ((addr + 4096) % 2^32)

section
variable (h : HeapList)
def raw_alloc (size index : Nat) : Nat × HeapList :=
 let new_heap_ptr := (h.heap_base_ptr + PAGE_ALIGN size) % 2^32
 let h' := mark_pages index ((new_heap_ptr - h.heap_base_ptr + 4095) / 4096) h h.heap_base_ptr
 (h.heap_base_ptr,{h' with heap_base_ptr := new_heap_ptr})
def find_bin (h : HeapList) (size : Nat) : Nat -> Nat -> Nat
 | 0, idx => idx
 | rounds + 1, idx => if size ≤ (h.bins idx).element_size then idx else find_bin h size rounds (idx + 1)
def bin_of (size : Nat) : Nat := find_bin h size h.BIN_COUNT 0
section
variable (m : Memory)
section
variable (idx : Nat)
def pop_free : Nat × HeapList :=
 let bin := h.bins idx
 (bin.free_list,h.setBin idx { bin with
  free_list := peek32 m bin.free_list, free_count := (bin.free_count + (2^32 - 1)) % 2^32 })
def refill : HeapList :=
 let bin := h.bins idx
 if bin.raw_count = 0 then
  let (raw_list,h') := raw_alloc h bin.grow_size idx
  h'.setBin idx {bin with raw_list := raw_list, raw_count := bin.grow_size / bin.element_size}
 else h
def carve_raw : Nat × HeapList :=
 let bin := h.bins idx
 (bin.raw_list,h.setBin idx { bin with
  raw_count := (bin.raw_count + (2^32 - 1)) % 2^32, raw_list := (bin.raw_list + bin.element_size) % 2^32 })
def take_element : Nat × HeapList :=
 if (h.bins idx).free_list ≠ 0 then pop_free h m idx else carve_raw (refill h idx) idx
def count_alloc : HeapList :=
 h.setBin idx {h.bins idx with alloc_count := ((h.bins idx).alloc_count + 1) % 2^32}
end
def use_page (page : Nat) : HeapList :=
 h.setPage page { h.pages page with
  free_items := ((h.pages page).free_items + (2^9 - 1)) % 2^9, in_use := ((h.pages page).in_use + 1) % 2^16 }
def use_pages (page element_size : Nat) : HeapList :=
 (List.range' 1 (element_size / 4096 - 1)).foldl (fun h i => use_page h (page + i)) (use_page h page)
def kcache_alloc (size : Nat) : Nat × HeapList :=
 let idx := bin_of h size
 if idx = h.BIN_COUNT then (0,h)
 else
  let address := (take_element h m idx).1
  let h' := count_alloc (take_element h m idx).2 idx
  match get_page_cb h' address with
  | none => (0,h')
  | some page => (address,use_pages h' page (h'.bins idx).element_size)
def kmalloc (size : Nat) : Nat × HeapList := kcache_alloc h m size
def unuse_page (s : HeapList × Bool) (page : Nat) : HeapList × Bool :=
 let record := s.1.pages page
 if record.in_use = 0 then s
 else if record.in_use = 1 then
  (s.1.setPage page {record with in_use := 0, free_items := (record.free_items + 1) % 2^9},s.2)
 else (s.1.setPage page {record with in_use := record.in_use - 1},false)
def slab_free (addr user_space : Nat) : Int × HeapList × Memory :=
 if addr = 0 then (-1,h,m)
 else
  match get_page_cb h addr with
  | none => (-1,h,m)
  | some page =>
   let index := (h.pages page).bin_index
   let (h',need_release) :=
    (List.range ((h.bins index).element_size / 4096)).foldl (fun s i => unuse_page s (page + i)) (h,true)
   if need_release = false then (0,h',m)
   else
    let bin := h'.bins index
    (1,h'.setBin index { bin with
      free_list := addr
      alloc_count := (bin.alloc_count + (2^32 - 1)) % 2^32
      free_count := (bin.free_count + 1) % 2^32 },
     poke32 m (addr + user_space) bin.free_list)
def kfree (addr : Nat) : Int × HeapList × Memory := slab_free h m addr 0
end
end
def user_malloc (m : Memory) (size : Nat) : Nat × HeapList := kcache_alloc vm_heap_list m size
def user_free (m : Memory) (addr : Nat) : Int × HeapList × Memory :=
 slab_free vm_heap_list m addr (proc_vir2phys 0)
structure SameShape (h h' : HeapList) : Prop where
 count : h'.BIN_COUNT = h.BIN_COUNT
 base : h'.heap_base = h.heap_base
 size : h'.heap_size = h.heap_size
 element : ∀ b, (h'.bins b).element_size = (h.bins b).element_size
 grow : ∀ b, (h'.bins b).grow_size = (h.bins b).grow_size
lemma SameShape.refl (h : HeapList) : SameShape h h := ⟨rfl,rfl,rfl,fun _ => rfl,fun _ => rfl⟩

variable {h' : HeapList}
lemma SameShape.trans {h'' : HeapList} (fst : SameShape h h') (snd : SameShape h' h'') : SameShape h h'' :=
 ⟨snd.count.trans fst.count,snd.base.trans fst.base,snd.size.trans fst.size,
  fun b => (snd.element b).trans (fst.element b),fun b => (snd.grow b).trans (fst.grow b)⟩
lemma setBin_shape {idx : Nat} {bin : HeapBin} (element : bin.element_size = (h.bins idx).element_size)
 (grow : bin.grow_size = (h.bins idx).grow_size) : SameShape h (h.setBin idx bin) := by
 refine ⟨rfl,rfl,rfl,?_,?_⟩
 · intro b
   by_cases eq : b = idx
   · rw [eq,setBin_self,element]
   · rw [setBin_of_ne eq]
 intro b
 by_cases eq : b = idx
 · rw [eq,setBin_self,grow]
 · rw [setBin_of_ne eq]
lemma setPage_shape (h : HeapList) (idx : Nat) (page : HeapPage) : SameShape h (h.setPage idx page) :=
 ⟨rfl,rfl,rfl,fun _ => rfl,fun _ => rfl⟩
lemma find_bin_shape (shape : SameShape h h') (size rounds idx : Nat) :
 find_bin h' size rounds idx = find_bin h size rounds idx := by
 induction rounds generalizing idx with
 | zero => rfl
 | succ rounds ih => rw [find_bin,find_bin,shape.element,ih]
lemma bin_of_shape (shape : SameShape h h') (size : Nat) : bin_of h' size = bin_of h size := by
 rw [bin_of,bin_of,shape.count,find_bin_shape shape]
lemma find_bin_fits (h : HeapList) (size rounds idx : Nat) :
 find_bin h size rounds idx ≤ idx + rounds ∧
  (find_bin h size rounds idx < idx + rounds -> size ≤ (h.bins (find_bin h size rounds idx)).element_size) := by
 induction rounds generalizing idx with
 | zero => simp [find_bin]
 | succ rounds ih =>
  rw [find_bin]
  by_cases large : size ≤ (h.bins idx).element_size
  · rw [if_pos large]
    exact ⟨by omega,fun _ => large⟩
  rw [if_neg large]
  obtain ⟨bound,fits⟩ := ih (idx + 1)
  exact ⟨by omega,fun lt => fits (by omega)⟩
lemma bin_of_fits {size : Nat} (hit : bin_of h size ≠ h.BIN_COUNT) :
 bin_of h size < h.BIN_COUNT ∧ size ≤ (h.bins (bin_of h size)).element_size := by
 obtain ⟨bound,fits⟩ := find_bin_fits h size h.BIN_COUNT 0
 have lt : bin_of h size < h.BIN_COUNT := by
  unfold bin_of at *
  omega
 exact ⟨lt,fits (by unfold bin_of at lt; omega)⟩
structure SameBut (h h' : HeapList) : Prop where
 rest : h' = {h with pages := h'.pages}
 bin : ∀ j, (h'.pages j).bin_index = (h.pages j).bin_index
lemma SameBut.trans {h'' : HeapList} (fst : SameBut h h') (snd : SameBut h' h'') : SameBut h h'' := by
 refine ⟨?_,fun j => (snd.bin j).trans (fst.bin j)⟩
 rw [snd.rest,fst.rest]
lemma setPage_sameBut {page : Nat} {record : HeapPage}
 (eq : record.bin_index = (h.pages page).bin_index) : SameBut h (h.setPage page record) := by
 refine ⟨rfl,?_⟩
 intro j
 by_cases here : j = page
 · subst here; simp [HeapList.setPage,eq]
 · simp [HeapList.setPage,here]
lemma use_page_sameBut (h : HeapList) (page : Nat) : SameBut h (use_page h page) := setPage_sameBut rfl
lemma use_pages_sameBut (h : HeapList) (page element_size : Nat) : SameBut h (use_pages h page element_size) := by
 have rest : ∀ (l : List Nat) (h : HeapList), SameBut h (l.foldl (fun h i => use_page h (page + i)) h) := by
  intro l
  induction l with
  | nil => intro h; exact ⟨rfl,fun _ => rfl⟩
  | cons i rest ih => intro h; exact (use_page_sameBut h (page + i)).trans (ih _)
 exact (use_page_sameBut h page).trans (rest _ _)
lemma unuse_pages_sameBut (page : Nat) : ∀ (l : List Nat) (s : HeapList × Bool),
 SameBut s.1 (l.foldl (fun s i => unuse_page s (page + i)) s).1 := by
 intro l
 induction l with
 | nil => intro s; exact ⟨rfl,fun _ => rfl⟩
 | cons i rest ih =>
  intro s
  refine SameBut.trans ?_ (ih _)
  unfold unuse_page
  dsimp only
  split_ifs
  · exact ⟨rfl,fun _ => rfl⟩
  · exact setPage_sameBut rfl
  · exact setPage_sameBut rfl
lemma SameBut.shape (eq : SameBut h h') : SameShape h h' := by
 rw [eq.rest]
 exact ⟨rfl,rfl,rfl,fun _ => rfl,fun _ => rfl⟩
lemma mark_pages_shape (index : Nat) : ∀ (rounds : Nat) (h : HeapList) (addr : Nat),
 SameShape h (mark_pages index rounds h addr) := by
 intro rounds
 induction rounds with
 | zero => intro h addr; exact .refl h
 | succ rounds ih =>
  intro h addr
  rw [mark_pages]
  refine SameShape.trans ?_ (ih _ _)
  cases get_page_cb h addr with
  | none => exact .refl h
  | some page => exact setPage_shape h page _
section
variable (h : HeapList)
lemma refill_shape (idx : Nat) : SameShape h (refill h idx) := by
 unfold refill
 dsimp only
 split_ifs
 · have marked := mark_pages_shape idx (((h.heap_base_ptr + PAGE_ALIGN (h.bins idx).grow_size) % 2^32 -
    h.heap_base_ptr + 4095) / 4096) h h.heap_base_ptr
   have moved : SameShape h (raw_alloc h (h.bins idx).grow_size idx).2 :=
    ⟨marked.count,marked.base,marked.size,marked.element,marked.grow⟩
   exact moved.trans (setBin_shape (moved.element idx).symm (moved.grow idx).symm)
 · exact .refl h
lemma take_element_shape (m : Memory) (idx : Nat) : SameShape h (take_element h m idx).2 := by
 unfold take_element
 split_ifs
 · exact setBin_shape rfl rfl
 · exact (refill_shape h idx).trans (setBin_shape rfl rfl)
lemma kcache_alloc_shape (m : Memory) (size : Nat) : SameShape h (kcache_alloc h m size).2 := by
 have counted : SameShape h (count_alloc (take_element h m (bin_of h size)).2 (bin_of h size)) :=
  (take_element_shape h m _).trans (setBin_shape rfl rfl)
 unfold kcache_alloc
 dsimp only
 split_ifs
 · exact .refl h
 split
 · exact counted
 · exact counted.trans (use_pages_sameBut _ _ _).shape
lemma slab_free_shape (m : Memory) (addr user_space : Nat) :
 SameShape h (slab_free h m addr user_space).2.1 := by
 unfold slab_free
 split_ifs
 · exact .refl h
 split
 · exact .refl h
 rename_i page _
 have looped := (unuse_pages_sameBut page (List.range ((h.bins (h.pages page).bin_index).element_size / 4096))
  (h,true)).shape
 dsimp only
 split_ifs
 · exact looped
 · exact looped.trans (setBin_shape rfl rfl)
def page_items (index : Nat) : Nat :=
 if index < h.BIN_COUNT ∧ (h.bins index).element_size < 4096 then 4096 / (h.bins index).element_size else 1
end
lemma mark_pages_spec (index : Nat) : ∀ (rounds : Nat) (h : HeapList) (addr : Nat), h.heap_base + h.heap_size < 2^32 ->
  h.heap_base ≤ addr -> (addr - h.heap_base) % 4096 = 0 -> addr + rounds * 4096 ≤ h.heap_base + h.heap_size ->
   mark_pages index rounds h addr = {h with pages := (mark_pages index rounds h addr).pages} ∧
   (∀ j < (addr - h.heap_base) / 4096, (mark_pages index rounds h addr).pages j = h.pages j) ∧
   ∀ j, (addr - h.heap_base) / 4096 ≤ j -> j < (addr - h.heap_base) / 4096 + rounds ->
    (mark_pages index rounds h addr).pages j =
     {h.pages j with in_use := 0, bin_index := index % 2^5, free_items := page_items h index % 2^9} := by
 intro rounds
 induction rounds with
 | zero =>
  intro h addr _ _ _ _
  exact ⟨rfl,fun _ _ => rfl,fun j _ _ => by omega⟩
 | succ rounds ih =>
  intro h addr bound above aligned fits
  have mem : get_page_cb h addr = some ((addr - h.heap_base) / 4096) := by
   rw [get_page_cb,if_neg (by omega)]
  rw [mark_pages]
  simp only [mem]
  set page := (addr - h.heap_base) / 4096 with pageIs
  have wrap : (addr + 4096) % 2^32 = addr + 4096 := by omega
  rw [wrap]
  set h' := h.setPage page _ with marked
  have base : h'.heap_base = h.heap_base := rfl
  have size : h'.heap_size = h.heap_size := rfl
  have next : (addr + 4096 - h'.heap_base) / 4096 = page + 1 := by omega
  obtain ⟨rest,pre,after⟩ := ih h' (addr + 4096) (by omega) (by omega) (by omega) (by omega)
  rw [next] at pre after
  refine ⟨?_,?_,?_⟩
  · rw [rest]
    rfl
  · intro j lt
    rw [pre j (by omega)]
    exact Function.update_of_ne (by omega) _ _
  intro j least lt
  by_cases fst : j = page
  · rw [pre j (by omega),fst]
    simp [h',HeapList.setPage,page_items]
  rw [after j (by omega) (by omega),show h'.pages j = h.pages j from Function.update_of_ne fst _ _]
  rfl

/-- The table and the allocatable range do not overlap and lie in the region
  that the heap was given. -/
structure Extent (h : HeapList) (a s : Nat) : Prop where
 apart : h.user_base_ptr + h.heap_size / 4096 * 4 ≤ h.heap_base ∨ h.heap_base + h.heap_size ≤ h.user_base_ptr
 table : a ≤ h.user_base_ptr ∧ h.user_base_ptr + h.heap_size / 4096 * 4 ≤ a + s
 range : a ≤ h.heap_base ∧ h.heap_base + h.heap_size ≤ a + s

variable {s : Nat}

variable (old : HeapList)
lemma heap_init_size (kernel_addr a : Nat) (kernel_mode : Bool) (more : 4096 < s)
 (word : s < 2^32) : (heap_init old kernel_addr a s kernel_mode).heap_size = s - 4096 := by
 show (s + (2^32 - 4096)) % 2^32 = s - 4096
 omega

variable {a : Nat}

section
variable (kernel_addr : Nat)
section
variable (kernel_mode : Bool)
lemma heap_init_base (more : 4096 < s)
 (room : a + s < 2^32) :
 (heap_init old kernel_addr a s kernel_mode).heap_base = a + ((s - 4096) / 1024 + 4095) / 4096 * 4096 := by
 show (a + PAGE_ALIGN ((heap_init old kernel_addr a s kernel_mode).heap_size / 1024)) % 2^32 = _
 rw [heap_init_size old kernel_addr a kernel_mode more (by omega),page_align_eq]
 omega
lemma heap_table_below_base (more : 4096 < s)
 (room : a + s < 2^32) :
 (heap_init old kernel_addr a s kernel_mode).user_base_ptr +
  (heap_init old kernel_addr a s kernel_mode).heap_size / 4096 * 4 ≤
   (heap_init old kernel_addr a s kernel_mode).heap_base := by
 rw [heap_init_size old kernel_addr a kernel_mode more (by omega),heap_init_base old kernel_addr kernel_mode more room]
 show a + (s - 4096) / 4096 * 4 ≤ _
 omega
lemma heap_init_extent_iff (whole : s % 4096 = 0)
 (more : 4096 < s) (room : a + s < 2^32) :
 Extent (heap_init old kernel_addr a s kernel_mode) a s ↔ s ≤ 0x401000 := by
 have lt := heap_table_below_base old kernel_addr kernel_mode more room
 have size := heap_init_size old kernel_addr a kernel_mode more (by omega)
 have base := heap_init_base old kernel_addr kernel_mode more room
 constructor
 · rintro ⟨_,_,range⟩
   rw [size,base] at range
   omega
 intro small
 refine ⟨.inl lt,⟨le_refl a,?_⟩,?_⟩
 · show a + _ ≤ a + s
   omega
 rw [size,base]
 omega
end
end

end Netbas.Slab
