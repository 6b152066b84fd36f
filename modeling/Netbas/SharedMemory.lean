import Netbas.SlabRuns
import Netbas.Teardown

/-!
Shared memory areas (`core/ipc/shm.c`). The list of areas is global, but an area is a block of the
heap of the process that creates it. `areas_owned` and `freed_iff` say when a release frees just its
block.
-/
namespace Netbas.SharedMemory
open Bytes Frames PageTables Paging Runs Slab List Option
open SlabRuns (Carved BlocksOwned allocated elementOf Fits)
open Function
def ENOMEM : Int := -12
def EINVAL : Int := -22
def USER_SPACE_SIZE : Nat := 0x60000000

/-- `struct shm_info`. The creator is not a field of the source. -/
structure ShmInfo (Proc : Type) where
 name : List UInt8
 len : Int
 count : Int
 proc_addr_user : Nat
 proc_addr : Nat
 phy_addr : Nat
 id : Int
 flags : Int
 creator : Proc
 deriving DecidableEq
structure Kernel (Proc : Type) where
 last_shm_entry_id : Int
 g_shm_list : List (ShmInfo Proc)
 machine : Machine
 heap : Proc -> SlabRuns.Machine

section
variable {Proc : Type} [DecidableEq Proc] (cr3 : Proc -> Nat)

/-! ### The calls -/
def shm_find (s : Kernel Proc) (shm_id : Int) : Option (ShmInfo Proc) :=
 s.g_shm_list.find? (fun item => item.id = shm_id)
def unsigned (size : Int) : Nat := (size % 2^32).toNat
def pages_of (len : Int) : Nat := ((len + 4095).tdiv 4096).toNat

/-- `kcalloc` says whether there is memory for the record. The identifiers must not overflow. -/
def shm_new (s : Kernel Proc) (rp : Proc) (name : List UInt8) (user_addr : Nat) (size flags : Int) (kcalloc : Bool) :
  Option (Option (ShmInfo Proc) × Kernel Proc) :=
 if kcalloc = false then some (none,s)
 else if s.last_shm_entry_id = 2^31 - 1 then none
 else
  let shm_entry : ShmInfo Proc :=
   { name := name.take 128, len := size, count := 1, proc_addr_user := user_addr
     proc_addr := proc_vir2phys user_addr, phy_addr := 0, id := s.last_shm_entry_id, flags := flags, creator := rp }
  some (some shm_entry,{ s with
   last_shm_entry_id := s.last_shm_entry_id + 1, g_shm_list := shm_entry :: s.g_shm_list })
def take_block (s : Kernel Proc) (rp : Proc) (m : Memory) (size : Int) : Nat × Kernel Proc :=
 ((user_malloc (s.heap rp).heap m (unsigned size)).1,
  {s with heap := update s.heap rp (allocated (s.heap rp) m (unsigned size))})
def shm_create (s : Kernel Proc) (rp : Proc) (name : List UInt8) (size flags : Int32) (m : Memory) (kcalloc : Bool) :
  Option (Int × Kernel Proc) :=
 let (user_addr,s) := take_block s rp m size.toInt
 if user_addr = 0 then some (ENOMEM,s)
 else
  match shm_new s rp name user_addr size.toInt flags.toInt kcalloc with
  | none => none
  | some (none,s) => some (ENOMEM,s)
  | some (some shm_entry,s) => some (shm_entry.id,s)
def freed (t : SlabRuns.Machine) (addr : Nat) : SlabRuns.Machine :=
 let (_,h,m) := user_free t.heap t.memory addr
 ⟨h,m,t.live.filter (fun block => block.1 ≠ addr)⟩
def drop_area (s : Kernel Proc) (rp : Proc) (out_info : ShmInfo Proc) : Kernel Proc :=
 { s with
   heap := update s.heap rp (freed (s.heap rp) out_info.proc_addr_user)
   g_shm_list := s.g_shm_list.erase out_info
   machine := unmap_user_pages s.machine (cr3 rp) out_info.proc_addr (pages_of out_info.len) }
def shm_release (s : Kernel Proc) (rp : Proc) (id : Int) : Int × Kernel Proc :=
 match shm_find s id with
 | none => (EINVAL,s)
 | some out_info =>
  let count := if out_info.count ≠ 0 then out_info.count - 1 else 0
  if count ≠ 0 then
   (EINVAL,{ s with g_shm_list := s.g_shm_list.map (fun item =>
    if item = out_info then {item with count := count} else item) })
  else (0,drop_area cr3 s rp out_info)
def shm_clone_area (s : Kernel Proc) (rp : Proc) (id : Int) (name : List UInt8) (m : Memory) (kcalloc : Bool) :
  Option (Int × Kernel Proc) :=
 match shm_find s id with
 | none => some (EINVAL,s)
 | some out_info =>
  let (user_addr,s) := take_block s rp m out_info.len
  if user_addr = 0 then some (ENOMEM,s)
  else
   match shm_new s rp name user_addr out_info.len 0 kcalloc with
   | none => none
   | some (none,s) => some (ENOMEM,s)
   | some (some new_info,s) =>
    match map_to s.machine (cr3 rp) out_info.proc_addr new_info.proc_addr (pages_of out_info.len) with
    | none => none
    | some (error,machine) =>
     let s := {s with machine := machine}
     if error ≠ 0 then some (EINVAL,(shm_release cr3 s rp new_info.id).2) else some (new_info.id,s)
inductive Action (Proc : Type) where
 | create (rp : Proc) (name : List UInt8) (size flags : Int32) (m : Memory) (kcalloc : Bool)
 | clone (rp : Proc) (id : Int) (name : List UInt8) (m : Memory) (kcalloc : Bool)
 | release (rp : Proc) (id : Int)
def step (s : Kernel Proc) : Action Proc -> Option (Kernel Proc)
 | .create rp name size flags m kcalloc => (shm_create s rp name size flags m kcalloc).map Prod.snd
 | .clone rp id name m kcalloc => (shm_clone_area cr3 s rp id name m kcalloc).map Prod.snd
 | .release rp id => some (shm_release cr3 s rp id).2

/-! ### Ownership -/
structure Describes (heap : Proc -> SlabRuns.Machine) (info : ShmInfo Proc) : Prop where
 count : info.count = 1
 linear : info.proc_addr = proc_vir2phys info.proc_addr_user
 positive : 0 ≤ info.len
 block : ∃ size, (info.proc_addr_user,size) ∈ (heap info.creator).live ∧
  info.len ≤ elementOf (heap info.creator).heap size

/-- Every area describes a live block, no two the same one, and the live blocks of a heap do not overlap. -/
structure Owned (s : Kernel Proc) : Prop where
 described : ∀ info ∈ s.g_shm_list, Describes s.heap info
 distinct : s.g_shm_list.Pairwise (fun i j => i.creator = j.creator -> i.proc_addr_user ≠ j.proc_addr_user)
 blocks : ∀ p, BlocksOwned (s.heap p)
def entry (s : Machine) (pgdir vaddr : Nat) : Nat :=
 s.ram ((s.word pgdir (PDE_IDX vaddr) &&& PT_PFNMASK) / 4096) (PTE_IDX vaddr)
def InBlock (s : Kernel Proc) (info : ShmInfo Proc) (vaddr : Nat) : Prop :=
 ∃ block ∈ (s.heap info.creator).live, block.1 = info.proc_addr_user ∧ info.proc_addr ≤ vaddr / 4096 * 4096 ∧
  vaddr / 4096 * 4096 + 4096 ≤ info.proc_addr + elementOf (s.heap info.creator).heap block.2

/-- Just the block of the area has been freed, from the heap and from the page tables of its creator. -/
structure Freed (s s' : Kernel Proc) (info : ShmInfo Proc) : Prop where
 list : s'.g_shm_list = s.g_shm_list.erase info
 own : s'.heap info.creator = freed (s.heap info.creator) info.proc_addr_user
 others : ∀ p, p ≠ info.creator -> s'.heap p = s.heap p
 tables : ∀ p, p ≠ info.creator -> ∀ vaddr, User vaddr -> entry s'.machine (cr3 p) vaddr = entry s.machine (cr3 p) vaddr
 pages : ∀ vaddr, User vaddr -> ¬ InBlock s info vaddr ->
  entry s'.machine (cr3 info.creator) vaddr = entry s.machine (cr3 info.creator) vaddr
def Exact (s : Kernel Proc) : Action Proc -> Prop
 | .release rp id => ∀ info ∈ shm_find s id, Freed cr3 s (shm_release cr3 s rp id).2 info
 | _ => True

/-! ### The condition -/
/-- `user_malloc` has room, and reads the link that `user_free` stored when it takes a block off a free list. -/
def Served (t : SlabRuns.Machine) (m : Memory) (size : Nat) : Prop :=
 Fits t (.alloc size) ∧
  ((t.heap.bins (bin_of t.heap size)).free_list ≠ 0 -> peek32 m (t.heap.bins (bin_of t.heap size)).free_list =
   peek32 t.memory ((t.heap.bins (bin_of t.heap size)).free_list + proc_vir2phys 0))

/-- The entries that a release clears are empty or of pages of the block. -/
def Clears (s : Kernel Proc) (info : ShmInfo Proc) : Prop :=
 ∀ i < pages_of info.len,
  entry s.machine (cr3 info.creator) (info.proc_addr / 2^22 * 2^22 + i * 4096) ≠ 0 ->
  InBlock s info (info.proc_addr / 2^22 * 2^22 + i * 4096)
def Kept (s : Kernel Proc) : Action Proc -> Prop
 | .create rp _ size _ m _ => Served (s.heap rp) m (unsigned size.toInt)
 | .clone rp id _ m _ => ∀ info ∈ shm_find s id, Served (s.heap rp) m (unsigned info.len) ∧
   PTE_IDX info.proc_addr + pages_of info.len ≤ 1024 ∧
   PTE_IDX (proc_vir2phys (take_block s rp m info.len).1) + pages_of info.len ≤ 1024
 | .release rp id => ∀ info ∈ shm_find s id, rp = info.creator ∧ Clears cr3 s info

/-! ### Page tables of their own -/
structure Separate (s : Machine) : Prop where
 present : ∀ p, ∀ d ∈ userEntries, ∃ t, target (s.word (cr3 p) d) = some t
 apart : ∀ p q, ∀ d ∈ userEntries, ∀ e ∈ userEntries, target (s.word (cr3 p) d) = target (s.word (cr3 q) e) -> p = q ∧ d = e
 dirs : ∀ p q, ∀ d ∈ userEntries, target (s.word (cr3 p) d) ≠ some (cr3 q / 4096)

variable {cr3} {s s' : Machine} {p : Proc} {d t : Nat}
omit [DecidableEq Proc] in
lemma Separate.write (separate : Separate cr3 s) (user : d ∈ userEntries) (table : target (s.word (cr3 p) d) = some t)
 (only : ∀ page, page ≠ t -> s'.ram page = s.ram page) :
 Separate cr3 s' ∧ (∀ q e, s'.word (cr3 q) e = s.word (cr3 q) e) ∧
  ∀ q vaddr, User vaddr -> q ≠ p ∨ PDE_IDX vaddr ≠ d -> entry s' (cr3 q) vaddr = entry s (cr3 q) vaddr := by
 have dir : ∀ q e, s'.word (cr3 q) e = s.word (cr3 q) e := by
  intro q e
  have ne : cr3 q / 4096 ≠ t := by
   rintro rfl
   exact separate.dirs p q d user table
  rw [Machine.word,Machine.word,only _ ne]
 refine ⟨⟨?_,?_,?_⟩,dir,?_⟩
 · simpa only [dir] using separate.present
 · simpa only [dir] using separate.apart
 · simpa only [dir] using separate.dirs
 intro q vaddr mem ne
 obtain ⟨t',table'⟩ := separate.present q (PDE_IDX vaddr) mem
 have unlike : t' ≠ t := by
  rintro rfl
  obtain ⟨process,idx⟩ := separate.apart q p _ mem d user (table'.trans table.symm)
  exact ne.elim (fun apart => apart process) fun apart => apart idx
 have page : (s.word (cr3 q) (PDE_IDX vaddr) &&& PT_PFNMASK) / 4096 = t' := by
  rw [(target_some table').2.1]
  omega
 rw [entry,entry,dir,page,only t' unlike]

private lemma unmap_entry_ram (s : Machine) {i : Nat} (low : i < 1024) : (unmap_entry (t * 1024) s i).ram =
 update s.ram t (update (s.ram t) i 0) := by
 have row : (t * 1024 + i) / 1024 = t := by omega
 have index : (t * 1024 + i) % 1024 = i := by omega
 rw [unmap_entry,Teardown.put_ram,row,index]
 split_ifs <;> rfl

variable {form_addr pages : Nat}
lemma unmap_user_pages_ram {pgdir : Nat} (few : pages ≤ 1024)
 (table : target (s.word pgdir (PDE_IDX form_addr)) = some t) :
 (unmap_user_pages s pgdir form_addr pages).ram =
  update s.ram t (fun i => if i < pages then 0 else s.ram t i) := by
 obtain ⟨here,page,-⟩ := target_some table
 have eq : PDE_IDX (form_addr / 4096 * 4096) = PDE_IDX form_addr := by
  rw [PDE_IDX,PDE_IDX]
  omega
 have ne0 : s.word pgdir (PDE_IDX form_addr) ≠ 0 := by
  intro zero
  rw [zero] at here
  exact here (Nat.zero_and _)
 rw [unmap_user_pages,eq,if_neg ne0,page,show t * 4096 / 4 = t * 1024 by omega]
 clear table here page eq ne0
 induction pages with
 | zero => simp
 | succ n ih =>
  rw [range_succ,foldl_append,foldl_cons,foldl_nil,unmap_entry_ram _ few,ih (Nat.le_of_succ_le few),
   update_self,update_idem]
  congr 1
  funext i
  by_cases last : i = n
  · rw [last,update_self,if_pos n.lt_succ_self]
  rw [update_of_ne last]
  by_cases pre : i < n
  · rw [if_pos pre,if_pos (pre.trans n.lt_succ_self)]
  · rw [if_neg pre,if_neg (by omega)]
lemma copy_page_ram {dest src n : Nat} (fits : dest % 1024 + n ≤ 1024) :
 ∀ page, page ≠ dest / 1024 -> (copy_page s dest src n).ram page = s.ram page := by
 intro page ne
 rw [copy_page]
 induction n with
 | zero => rfl
 | succ n ih =>
  rw [range_succ,foldl_append,foldl_cons,foldl_nil,Teardown.put_ram,
   update_of_ne (by omega),ih (by omega)]

private lemma attach_pages_done {pgdir pages rounds left form_addr to_addr : Nat} (all : pages ≤ left) :
 attach_pages pgdir pages rounds s left form_addr to_addr = (0,s) := by
 cases rounds with
 | zero => rfl
 | succ rounds => rw [attach_pages,if_neg (not_lt.mpr all)]
lemma map_to_ram {pgdir to_addr : Nat}
 (source : s.word pgdir (PDE_IDX form_addr) &&& PAGE_PRESENT ≠ 0)
 (dest : target (s.word pgdir (PDE_IDX to_addr)) = some t) (fst : PTE_IDX form_addr + pages ≤ 1024)
 (snd : PTE_IDX to_addr + pages ≤ 1024) :
 ∃ s', map_to s pgdir form_addr to_addr pages = some (0,s') ∧ ∀ page, page ≠ t -> s'.ram page = s.ram page := by
 obtain ⟨here,page,-⟩ := target_some dest
 have dir (addr : Nat) : PDE_IDX (addr / 4096 * 4096) = PDE_IDX addr := by
  rw [PDE_IDX,PDE_IDX]
  omega
 have idx (addr : Nat) : PTE_IDX (addr / 4096 * 4096) = PTE_IDX addr := by
  rw [PTE_IDX,PTE_IDX]
  omega
 have ne0 : s.word pgdir (PDE_IDX to_addr) ≠ 0 := by
  intro zero
  rw [zero] at here
  exact here (Nat.zero_and _)
 rw [Teardown.map_to_attach (by rwa [dir]) (by rwa [dir]),attach_share_page]
 cases pages with
 | zero => exact ⟨s,rfl,fun _ _ => rfl⟩
 | succ n =>
  have whole : min (n + 1) (1024 - PTE_IDX form_addr) = n + 1 := by omega
  rw [attach_pages,if_pos n.succ_pos]
  simp only [dir,idx,whole]
  rw [if_neg source,attach_pages_done (by omega)]
  refine ⟨_,rfl,?_⟩
  intro ne apart
  apply copy_page_ram
  · rw [page]
    omega
  rw [page]
  omega

/-! ### Heaps -/
structure Fine (t : SlabRuns.Machine) : Prop where
 carved : ∃ slots status free, Carved (proc_vir2phys 0) t slots status free
 user : t.heap.heap_base + t.heap.heap_size ≤ USER_SPACE_SIZE
lemma elementOf_shape {h h' : HeapList} (shape : SameShape h h') (size : Nat) : elementOf h' size = elementOf h size := by
 rw [elementOf,elementOf,bin_of_shape shape,shape.element]
lemma allocated_shape (t : SlabRuns.Machine) (m : Memory) (size : Nat) : SameShape t.heap (allocated t m size).heap :=
 kcache_alloc_shape ..
lemma freed_shape (t : SlabRuns.Machine) (addr : Nat) : SameShape t.heap (freed t addr).heap :=
 slab_free_shape ..

variable {t : SlabRuns.Machine} {m : Memory} {n : Nat}
lemma Fine.owned (fine : Fine t) : BlocksOwned t := SlabRuns.Sound.owned (Or.inl fine.carved)
lemma Fine.alloc (fine : Fine t) (done : Served t m n) : Fine (allocated t m n) := by
 obtain ⟨slots,status,free,carved⟩ := fine.carved
 have shape := allocated_shape t m n
 refine ⟨carved.alloc done.1 done.2,?_⟩
 rw [shape.base,shape.size]
 exact fine.user
lemma Fine.free (fine : Fine t) {addr : Nat} (live : addr ∈ t.live.map Prod.fst) : Fine (freed t addr) := by
 obtain ⟨slots,status,free,carved⟩ := fine.carved
 have shape := freed_shape t addr
 have ran : SlabRuns.step (proc_vir2phys 0) t (.free addr) = some (freed t addr) := if_pos live
 refine ⟨⟨slots,SlabRuns.slab_free_carved carved ran⟩,?_⟩
 rw [shape.base,shape.size]
 exact fine.user
lemma Fine.once (fine : Fine t) : (t.live.map Prod.fst).Nodup := by
 obtain ⟨slots,status,free,carved⟩ := fine.carved
 exact carved.once
lemma Fine.bounded (fine : Fine t) {a : Nat} (mem : (a,n) ∈ t.live) :
 n ≤ elementOf t.heap n ∧ elementOf t.heap n ≤ 0x400000 ∧ a + elementOf t.heap n ≤ USER_SPACE_SIZE ∧
  0 < elementOf t.heap n := by
 obtain ⟨fits,-,high⟩ := fine.owned.owned (a,n) mem
 obtain ⟨slots,status,free,carved⟩ := fine.carved
 obtain ⟨least,-,grow,whole,some⟩ : SlabRuns.Sized (t.heap.bins (bin_of t.heap n)).element_size
   (t.heap.bins (bin_of t.heap n)).grow_size := carved.sized _ (carved.live (a,n) mem).2.2.1
 have lt : (t.heap.bins (bin_of t.heap n)).element_size ≤ (t.heap.bins (bin_of t.heap n)).grow_size := by
  by_contra larger
  rw [Nat.div_eq_of_lt (not_le.mp larger),Nat.zero_mul] at whole
  exact some.ne whole
 exact ⟨fits,lt.trans grow,high.trans fine.user,show 0 < (t.heap.bins (bin_of t.heap n)).element_size by omega⟩
lemma pde_user {a : Nat} (low : a < USER_SPACE_SIZE) : User (proc_vir2phys a) := by
 have le : a < 0x60000000 := low
 rw [User,userEntries,mem_range'_1,PDE_IDX,proc_vir2phys,USER_SPACE_ADDR]
 omega

/-! ### What the calls keep -/
structure Inv (cr3 : Proc -> Nat) (s : Kernel Proc) : Prop where
 fine : ∀ p, Fine (s.heap p)
 separate : Separate cr3 s.machine
 described : ∀ info ∈ s.g_shm_list, Describes s.heap info
 distinct : s.g_shm_list.Pairwise (fun i j => i.creator = j.creator -> i.proc_addr_user ≠ j.proc_addr_user)
 fresh : ∀ info ∈ s.g_shm_list, info.id < s.last_shm_entry_id
 ids : s.g_shm_list.Pairwise (fun i j => i.id ≠ j.id)

variable {k k' : Kernel Proc} {rp : Proc} {info : ShmInfo Proc} {size : Int} {id : Int}
omit [DecidableEq Proc] in
lemma Inv.owned (inv : Inv cr3 k) : Owned k := ⟨inv.described,inv.distinct,fun p => (inv.fine p).owned⟩
omit [DecidableEq Proc] in
lemma Inv.block (inv : Inv cr3 k) (mem : info ∈ k.g_shm_list) : ∃ n, (info.proc_addr_user,n) ∈ (k.heap info.creator).live ∧
 info.len ≤ elementOf (k.heap info.creator).heap n ∧ elementOf (k.heap info.creator).heap n ≤ 0x400000 ∧
 info.proc_addr_user + elementOf (k.heap info.creator).heap n ≤ USER_SPACE_SIZE ∧ 0 < elementOf (k.heap info.creator).heap n := by
 obtain ⟨n,live,fits⟩ := (inv.described info mem).block
 obtain ⟨-,lt,inside,some⟩ := (inv.fine info.creator).bounded live
 exact ⟨n,live,fits,lt,inside,some⟩
omit [DecidableEq Proc] in
lemma Inv.few_pages (inv : Inv cr3 k) (mem : info ∈ k.g_shm_list) : pages_of info.len ≤ 1024 := by
 obtain ⟨n,-,fits,lt,-⟩ := inv.block mem
 have pos := (inv.described info mem).positive
 rw [pages_of,Int.tdiv_eq_ediv_of_nonneg (by omega)]
 omega
omit [DecidableEq Proc] in
lemma Inv.user (inv : Inv cr3 k) (mem : info ∈ k.g_shm_list) : User info.proc_addr := by
 obtain ⟨n,-,-,-,inside,some⟩ := inv.block mem
 rw [(inv.described info mem).linear]
 exact pde_user (by omega)
omit [DecidableEq Proc] in
lemma shm_find_mem (hit : shm_find k id = some info) : info ∈ k.g_shm_list ∧ info.id = id := by
 refine ⟨mem_of_find?_eq_some hit,?_⟩
 simpa using find?_some hit
lemma Describes.mono {heap : Proc -> SlabRuns.Machine} {t : SlabRuns.Machine} (describes : Describes heap info)
 (shape : SameShape (heap rp).heap t.heap)
 (more : info.creator = rp -> ∀ block ∈ (heap rp).live, block.1 = info.proc_addr_user -> block ∈ t.live) :
 Describes (update heap rp t) info := by
 refine ⟨describes.count,describes.linear,describes.positive,?_⟩
 obtain ⟨n,live,fits⟩ := describes.block
 by_cases eq : info.creator = rp
 · refine ⟨n,?_⟩
   rw [eq] at live fits ⊢
   rw [update_self,elementOf_shape shape]
   exact ⟨more eq _ live rfl,fits⟩
 refine ⟨n,?_⟩
 rw [update_of_ne eq]
 exact ⟨live,fits⟩
lemma allocated_live (t : SlabRuns.Machine) (m : Memory) (n : Nat) : (allocated t m n).live =
  if (user_malloc t.heap m n).1 = 0 then t.live else ((user_malloc t.heap m n).1,n) :: t.live := rfl
lemma Inv.take_block (inv : Inv cr3 k) (done : Served (k.heap rp) m (unsigned size)) :
 Inv cr3 (take_block k rp m size).2 := by
 refine ⟨?_,inv.separate,?_,inv.distinct,inv.fresh,inv.ids⟩
 · intro p
   by_cases eq : p = rp
   · subst eq
     show Fine (update k.heap p _ p)
     rw [update_self]
     exact (inv.fine p).alloc done
   show Fine (update k.heap rp _ p)
   rw [update_of_ne eq]
   exact inv.fine p
 intro info mem
 refine (inv.described info mem).mono (allocated_shape ..) ?_
 intro _ block live _
 rw [allocated_live]
 split_ifs
 · exact live
 · exact mem_cons_of_mem _ live
lemma Inv.given (inv : Inv cr3 k) (done : Served (k.heap rp) m (unsigned size))
 (given : (SharedMemory.take_block k rp m size).1 ≠ 0) :
 ((SharedMemory.take_block k rp m size).1,unsigned size) ∈ ((SharedMemory.take_block k rp m size).2.heap rp).live ∧
  (∀ info ∈ k.g_shm_list, info.creator = rp -> info.proc_addr_user ≠ (SharedMemory.take_block k rp m size).1) ∧
  unsigned size ≤ elementOf ((SharedMemory.take_block k rp m size).2.heap rp).heap (unsigned size) ∧
  unsigned size ≤ 0x400000 ∧ (SharedMemory.take_block k rp m size).1 < USER_SPACE_SIZE := by
 have fine : Fine ((SharedMemory.take_block k rp m size).2.heap rp) := (inv.take_block done).fine rp
 have heap : (SharedMemory.take_block k rp m size).2.heap rp = allocated (k.heap rp) m (unsigned size) :=
  update_self ..
 have live : ((SharedMemory.take_block k rp m size).2.heap rp).live =
   ((SharedMemory.take_block k rp m size).1,unsigned size) :: (k.heap rp).live := by
  rw [heap,allocated_live]
  exact if_neg given
 have mem : ((SharedMemory.take_block k rp m size).1,unsigned size) ∈
   ((SharedMemory.take_block k rp m size).2.heap rp).live := by
  rw [live]
  exact mem_cons_self
 obtain ⟨fits,lt,inside,some⟩ := fine.bounded mem
 have once := fine.once
 rw [live,map_cons,nodup_cons] at once
 refine ⟨mem,?_,fits,fits.trans lt,?_⟩
 · rintro info listed rfl eq
   obtain ⟨n,ne,-⟩ := (inv.described info listed).block
   exact once.1 (mem_map.mpr ⟨_,ne,eq⟩)
 · omega

variable {name : List UInt8} {kcalloc : Bool}
omit [DecidableEq Proc] in
lemma shm_new_none {user_addr : Nat} {flags : Int}
 (made : SharedMemory.shm_new k rp name user_addr size flags kcalloc = some (none,k')) : k' = k := by
 simp only [SharedMemory.shm_new] at made
 split_ifs at made
 · exact (Prod.mk.inj (some.inj made)).2.symm
 · cases (Prod.mk.inj (some.inj made)).1
lemma Inv.shm_new (inv : Inv cr3 k) (served : Served (k.heap rp) m (unsigned size))
 (given : (SharedMemory.take_block k rp m size).1 ≠ 0) (proper : (unsigned size : Int) = size)
 {flags : Int} (made : SharedMemory.shm_new (SharedMemory.take_block k rp m size).2 rp name
  (SharedMemory.take_block k rp m size).1 size flags kcalloc = some (some info,k')) :
 Inv cr3 k' ∧ info.proc_addr = proc_vir2phys (SharedMemory.take_block k rp m size).1 ∧ k'.machine = k.machine := by
 obtain ⟨live,unused,fits,-,-⟩ := inv.given served given
 have ran := inv.take_block served
 simp only [SharedMemory.shm_new] at made
 split_ifs at made with refused overflow
 · simp at made
 simp only [some.injEq,Prod.mk.injEq] at made
 obtain ⟨rfl,rfl⟩ := made
 refine ⟨⟨ran.fine,ran.separate,?_,?_,?_,?_⟩,rfl,rfl⟩
 · intro ne mem
   rcases mem_cons.mp mem with rfl | pre
   · exact ⟨rfl,rfl,by dsimp only; omega,unsigned size,live,by dsimp only; omega⟩
   · exact ran.described ne pre
 · refine pairwise_cons.mpr ⟨?_,ran.distinct⟩
   intro ne pre eq
   exact (unused ne pre eq.symm).symm
 · intro ne mem
   rcases mem_cons.mp mem with rfl | pre
   · exact Int.lt_succ _
   · exact (ran.fresh ne pre).trans (Int.lt_succ _)
 refine pairwise_cons.mpr ⟨?_,ran.ids⟩
 intro ne pre
 exact (ran.fresh ne pre).ne'
lemma Inv.shm_create (inv : Inv cr3 k) {size flags : Int32} {rc : Int}
 (done : Served (k.heap rp) m (unsigned size.toInt))
 (ran : SharedMemory.shm_create k rp name size flags m kcalloc = some (rc,k')) : Inv cr3 k' := by
 simp only [SharedMemory.shm_create] at ran
 split_ifs at ran with null
 · obtain ⟨-,rfl⟩ := Prod.mk.inj (some.inj ran)
   exact inv.take_block done
 obtain ⟨-,-,-,lt,-⟩ := inv.given done null
 have low := size.le_toInt
 have high := size.toInt_lt
 have proper : (unsigned size.toInt : Int) = size.toInt := by
  rw [unsigned] at lt ⊢
  omega
 split at ran
 next => cases ran
 next s made =>
  obtain ⟨-,rfl⟩ := Prod.mk.inj (some.inj ran)
  rw [shm_new_none made]
  exact inv.take_block done
 next info s made =>
  obtain ⟨-,rfl⟩ := Prod.mk.inj (some.inj ran)
  exact (inv.shm_new done null proper made).1
lemma Inv.shm_clone_area (inv : Inv cr3 k) {rc : Int}
 (kept : Kept cr3 k (.clone rp id name m kcalloc))
 (ran : SharedMemory.shm_clone_area cr3 k rp id name m kcalloc = some (rc,k')) : Inv cr3 k' := by
 simp only [SharedMemory.shm_clone_area] at ran
 cases hit : shm_find k id with
 | none =>
  simp only [hit] at ran
  obtain ⟨-,rfl⟩ := Prod.mk.inj (some.inj ran)
  exact inv
 | some out_info =>
  obtain ⟨done,fst,snd⟩ := kept out_info hit
  have mem := (shm_find_mem hit).1
  simp only [hit] at ran
  split_ifs at ran with null
  · obtain ⟨-,rfl⟩ := Prod.mk.inj (some.inj ran)
    exact inv.take_block done
  obtain ⟨-,-,-,-,low⟩ := inv.given done null
  obtain ⟨n,-,fits,lt,-⟩ := inv.block mem
  have pos := (inv.described out_info mem).positive
  have proper : (unsigned out_info.len : Int) = out_info.len := by
   rw [unsigned]
   omega
  split at ran
  next => cases ran
  next s made =>
   obtain ⟨-,rfl⟩ := Prod.mk.inj (some.inj ran)
   rw [shm_new_none made]
   exact inv.take_block done
  next new_info s made =>
   obtain ⟨came,addr,machine⟩ := inv.shm_new done null proper made
   have user : User new_info.proc_addr := by
    rw [addr]
    exact pde_user low
   obtain ⟨source,here⟩ := inv.separate.present rp _ (inv.user mem)
   obtain ⟨table,dest⟩ := inv.separate.present rp _ user
   rw [<- addr] at snd
   obtain ⟨machine',map1,only⟩ := map_to_ram (target_some here).1 dest fst snd
   rw [machine,map1] at ran
   simp only [ne_eq,not_true_eq_false,if_false] at ran
   obtain ⟨-,rfl⟩ := Prod.mk.inj (some.inj ran)
   refine ⟨came.fine,?_,came.described,came.distinct,came.fresh,came.ids⟩
   exact (inv.separate.write user dest only).1

/-! ### Releases -/
lemma Inv.shm_release_eq (inv : Inv cr3 k) (hit : shm_find k id = some info) :
 (shm_release cr3 k rp id).2 = drop_area cr3 k rp info := by
 have count := (inv.described info (shm_find_mem hit).1).count
 simp only [shm_release,hit,count]
 rfl
lemma filter_live {t : SlabRuns.Machine} {address : Nat} {block : Nat × Nat} :
 block ∈ (freed t address).live ↔ block ∈ t.live ∧ block.1 ≠ address := by
 show block ∈ t.live.filter _ ↔ _
 simp
lemma Inv.drop_area (inv : Inv cr3 k) (mem : info ∈ k.g_shm_list) :
 Inv cr3 (drop_area cr3 k info.creator info) := by
 obtain ⟨n,live,-⟩ := inv.block mem
 obtain ⟨table,dest⟩ := inv.separate.present info.creator _ (inv.user mem)
 have ram := unmap_user_pages_ram (inv.few_pages mem) dest
 have erased : (k.g_shm_list.erase info).Sublist k.g_shm_list := erase_sublist
 have symm : Std.Symm (fun i j : ShmInfo Proc => i.creator = j.creator -> i.proc_addr_user ≠ j.proc_addr_user) :=
  ⟨fun _ _ apart eq => (apart eq.symm).symm⟩
 have once : k.g_shm_list.Nodup := inv.ids.imp fun apart eq => apart (by rw [eq])
 refine ⟨?_,?_,?_,inv.distinct.sublist erased,fun ne inside => inv.fresh ne (erased.subset inside),
  inv.ids.sublist erased⟩
 · intro p
   show Fine (update k.heap info.creator _ p)
   by_cases eq : p = info.creator
   · rw [eq,update_self]
     exact (inv.fine info.creator).free (mem_map.mpr ⟨_,live,rfl⟩)
   rw [update_of_ne eq]
   exact inv.fine p
 · refine (inv.separate.write (inv.user mem) dest ?_).1
   intro page ne
   show (unmap_user_pages _ _ _ _).ram page = _
   rw [ram,update_of_ne ne]
 intro ne inside
 obtain ⟨unlike,pre⟩ := (List.Nodup.mem_erase_iff once).mp inside
 refine (inv.described ne pre).mono (freed_shape ..) ?_
 intro eq block hit addr
 refine filter_live.mpr ⟨hit,?_⟩
 rw [addr]
 exact inv.distinct.forall pre mem unlike eq
lemma entry_page (s : Machine) (pgdir vaddr : Nat) : entry s pgdir (vaddr / 4096 * 4096) = entry s pgdir vaddr := by
 have dir : PDE_IDX (vaddr / 4096 * 4096) = PDE_IDX vaddr := by
  rw [PDE_IDX,PDE_IDX]
  omega
 have idx : PTE_IDX (vaddr / 4096 * 4096) = PTE_IDX vaddr := by
  rw [PTE_IDX,PTE_IDX]
  omega
 rw [entry,entry,dir,idx]
omit [DecidableEq Proc] in
lemma unmapped_entry (separate : Separate cr3 s) (user : User form_addr) (few : pages ≤ 1024)
 {vaddr : Nat} (eq : PDE_IDX vaddr = PDE_IDX form_addr) :
 entry (unmap_user_pages s (cr3 p) form_addr pages) (cr3 p) vaddr =
  if PTE_IDX vaddr < pages then 0 else entry s (cr3 p) vaddr := by
 obtain ⟨t,table⟩ := separate.present p _ user
 have ram := unmap_user_pages_ram few table
 have page : (s.word (cr3 p) (PDE_IDX form_addr) &&& PT_PFNMASK) / 4096 = t := by
  rw [(target_some table).2.1]
  omega
 have only : ∀ other, other ≠ t -> (unmap_user_pages s (cr3 p) form_addr pages).ram other = s.ram other := by
  intro other ne
  rw [ram,update_of_ne ne]
 have dir := (separate.write user table only).2.1
 rw [entry,entry,dir,eq,page,ram,update_self]
omit [DecidableEq Proc] in
lemma unmapped_other (separate : Separate cr3 s) (user : User form_addr) (few : pages ≤ 1024)
 {q : Proc} {vaddr : Nat} (mem : User vaddr) (ne : q ≠ p ∨ PDE_IDX vaddr ≠ PDE_IDX form_addr) :
 entry (unmap_user_pages s (cr3 p) form_addr pages) (cr3 q) vaddr = entry s (cr3 q) vaddr := by
 obtain ⟨t,table⟩ := separate.present p _ user
 have ram := unmap_user_pages_ram few table
 have only : ∀ other, other ≠ t -> (unmap_user_pages s (cr3 p) form_addr pages).ram other = s.ram other := by
  intro other ne
  rw [ram,update_of_ne ne]
 exact (separate.write user table only).2.2 q vaddr mem ne
lemma Inv.freed_of_clears (inv : Inv cr3 k) (mem : info ∈ k.g_shm_list) (clears : Clears cr3 k info) :
 Freed cr3 k (SharedMemory.drop_area cr3 k info.creator info) info := by
 have user := inv.user mem
 have few := inv.few_pages mem
 refine ⟨rfl,?_,?_,?_,?_⟩
 · show update k.heap info.creator _ info.creator = _
   rw [update_self]
 · intro p ne
   show update k.heap info.creator _ p = _
   rw [update_of_ne ne]
 · intro p ne vaddr inside
   exact unmapped_other inv.separate user few inside (Or.inl ne)
 intro vaddr inside out
 by_cases eq : PDE_IDX vaddr = PDE_IDX info.proc_addr
 · refine (unmapped_entry inv.separate user few eq).trans ?_
   split_ifs with cleared
   · -- The page is among those counted from the start of the table, so its entry was nil.
     have addr : info.proc_addr / 2^22 * 2^22 + PTE_IDX vaddr * 4096 = vaddr / 4096 * 4096 := by
      rw [PDE_IDX,PDE_IDX] at eq
      rw [<- eq,PTE_IDX]
      omega
     have clear := clears (PTE_IDX vaddr) cleared
     rw [addr,entry_page] at clear
     by_contra ne0
     obtain ⟨block,live,own,low,high⟩ := clear (Ne.symm ne0)
     rw [Nat.mul_div_cancel _ (by norm_num : 0 < 4096)] at low high
     exact out ⟨block,live,own,low,high⟩
   · rfl
 · exact unmapped_other inv.separate user few inside (Or.inr eq)
lemma Inv.clears_of_freed (inv : Inv cr3 k) (mem : info ∈ k.g_shm_list)
 (freed : Freed cr3 k (SharedMemory.drop_area cr3 k info.creator info) info) : Clears cr3 k info := by
 have user := inv.user mem
 have few := inv.few_pages mem
 intro i low ne0
 by_contra out
 have eq : PDE_IDX (info.proc_addr / 2^22 * 2^22 + i * 4096) = PDE_IDX info.proc_addr := by
  rw [PDE_IDX,PDE_IDX]
  omega
 have idx : PTE_IDX (info.proc_addr / 2^22 * 2^22 + i * 4096) = i := by
  rw [PTE_IDX]
  omega
 have inside : User (info.proc_addr / 2^22 * 2^22 + i * 4096) := by
  rw [User,eq]
  exact user
 have kept := freed.pages _ inside out
 have cleared := unmapped_entry (p := info.creator) inv.separate user few eq
 rw [idx,if_pos low] at cleared
 exact ne0 (kept.symm.trans cleared)
lemma freed_iff (inv : Inv cr3 k) (hit : shm_find k id = some info) :
 Freed cr3 k (shm_release cr3 k rp id).2 info ↔ rp = info.creator ∧ Clears cr3 k info := by
 rw [inv.shm_release_eq hit]
 have mem := (shm_find_mem hit).1
 constructor
 · intro freed
   have creator : rp = info.creator := by
    by_contra ne
    obtain ⟨n,live,-⟩ := inv.block mem
    have own := freed.own
    rw [show (SharedMemory.drop_area cr3 k rp info).heap info.creator = k.heap info.creator from
     update_of_ne (Ne.symm ne) ..] at own
    rw [own] at live
    exact (filter_live.mp live).2 rfl
   subst creator
   exact ⟨rfl,inv.clears_of_freed mem freed⟩
 rintro ⟨rfl,clears⟩
 exact inv.freed_of_clears mem clears
lemma inv_step {a : Action Proc} (inv : Inv cr3 k) (kept : Kept cr3 k a) (ran : step cr3 k a = some k') :
 Inv cr3 k' := by
 cases a with
 | create rp name size flags m kcalloc =>
  obtain ⟨⟨rc,k''⟩,called,rfl⟩ := map_eq_some_iff.mp ran
  exact inv.shm_create kept called
 | clone rp id name m kcalloc =>
  obtain ⟨⟨rc,k''⟩,called,rfl⟩ := map_eq_some_iff.mp ran
  exact inv.shm_clone_area kept called
 | release rp id =>
  obtain rfl := some.inj ran
  cases hit : shm_find k id with
  | none =>
   rw [shm_release,hit]
   exact inv
  | some info =>
   obtain ⟨rfl,-⟩ := kept info hit
   rw [inv.shm_release_eq hit]
   exact inv.drop_area (shm_find_mem hit).1
structure Ready (cr3 : Proc -> Nat) (s : Kernel Proc) : Prop where
 fine : ∀ p, Fine (s.heap p)
 separate : Separate cr3 s.machine
 none : s.g_shm_list = []

/-- In every run that meets the condition, every area is a live block of its creator, and every release frees just
  that block. -/
theorem areas_owned {start : Kernel Proc} (ready : Ready cr3 start) (actions : List (Action Proc))
 (kept : Meets (step cr3) (Kept cr3) start actions) :
 Along (step cr3) Owned (Exact cr3) start actions := by
 refine along_of_invariant (I := Inv cr3) (fun k inv => inv.owned) ?_ (fun k a k' => inv_step) actions start ?_ kept
 · intro k a inv kept
   cases a with
   | release rp id =>
    intro info found
    exact (freed_iff inv found).mpr (kept info found)
   | _ => trivial
 obtain ⟨fine,separate,none⟩ := ready
 refine ⟨fine,separate,?_,?_,?_,?_⟩ <;> rw [none]
 · simp
 · exact List.Pairwise.nil
 · simp
 · exact List.Pairwise.nil
instance (t : SlabRuns.Machine) (m : Memory) (n : Nat) : Decidable (Served t m n) := inferInstanceAs (Decidable (_ ∧ (_ -> _)))
instance (s : Kernel Proc) (info : ShmInfo Proc) (vaddr : Nat) : Decidable (InBlock s info vaddr) :=
 inferInstanceAs (Decidable (∃ block ∈ (s.heap info.creator).live, _))
instance (s : Kernel Proc) (info : ShmInfo Proc) : Decidable (Clears cr3 s info) :=
 inferInstanceAs (Decidable (∀ i < pages_of info.len, _))
instance (s : Kernel Proc) : (a : Action Proc) -> Decidable (Kept cr3 s a)
 | .create rp _ size _ m _ => inferInstanceAs (Decidable (Served (s.heap rp) m (unsigned size.toInt)))
 | .clone _ id _ _ _ => inferInstanceAs (Decidable (∀ info ∈ shm_find s id, _))
 | .release _ id => inferInstanceAs (Decidable (∀ info ∈ shm_find s id, _))

end

/-! ### Two processes -/
def USER_MMAP_ADDR : Nat := 0x40000000
def USER_MMAP_SIZE : Nat := USER_SPACE_SIZE - 0x800000 - USER_MMAP_ADDR
def two_cr3 (p : Bool) : Nat := if p then 257 * 4096 else 256 * 4096
def two_ram (page i : Nat) : Nat :=
 if page = 256 ∨ page = 257 then
  if 512 ≤ i ∧ i < 896 then (1024 * (page - 255) + i) * 4096 ||| PAGE_PUW else 0
 else 0
def two : Kernel Bool :=
 { last_shm_entry_id := 0x56
   g_shm_list := []
   machine := ⟨⟨0,0,0,0,0,0,fun _ => ⟨0,0,0⟩⟩,0,two_ram,[256 * 4096,257 * 4096]⟩
   heap := fun _ => ⟨user_heap_init ⟨0,0,0,0,0,fun _ => emptyBin (0,0),0,fun _ => ⟨0,0,0,0⟩⟩ USER_MMAP_ADDR USER_MMAP_SIZE,
    fun _ => 0,[]⟩ }

private lemma two_target (p : Bool) {d : Nat} (user : d ∈ userEntries) :
 target (two.machine.word (two_cr3 p) d) = some (1024 * (if p then 2 else 1) + d) := by
 rw [userEntries,mem_range'_1] at user
 cases p with
 | false =>
  have word : two.machine.word (two_cr3 false) d = (1024 * 1 + d) * 4096 ||| PAGE_PUW := by
   show two_ram 256 d = _
   rw [two_ram,if_pos (Or.inl rfl),if_pos (by omega)]
  rw [word]
  exact target_puw (by omega)
 | true =>
  have word : two.machine.word (two_cr3 true) d = (1024 * 2 + d) * 4096 ||| PAGE_PUW := by
   show two_ram 257 d = _
   rw [two_ram,if_pos (Or.inr rfl),if_pos (by omega)]
  rw [word]
  exact target_puw (by omega)

private lemma two_ready : Ready two_cr3 two := by
 refine ⟨?_,⟨?_,?_,?_⟩,rfl⟩
 · intro p
   have bound : (two.heap p).heap.heap_base + (two.heap p).heap.heap_size ≤ USER_SPACE_SIZE := by
    show (two.heap true).heap.heap_base + (two.heap true).heap.heap_size ≤ USER_SPACE_SIZE
    decide +kernel
   refine ⟨?_,bound⟩
   rcases SlabRuns.heap_init_sound (u := proc_vir2phys 0) _ (fun _ => 0) _ USER_MMAP_ADDR USER_MMAP_SIZE false with
    carved | wrapped
   · exact carved
   have wraps : 2^32 ≤ (two.heap p).heap.heap_base + (two.heap p).heap.heap_size := wrapped.wraps
   have small : USER_SPACE_SIZE < 2^32 := by decide
   omega
 · exact fun p d user => ⟨_,two_target p user⟩
 · intro p q d user e user' eq
   rw [two_target p user,two_target q user',some.injEq] at eq
   rw [userEntries,mem_range'_1] at user user'
   cases p <;> cases q <;> simp only [Bool.false_eq_true,if_false,if_true] at eq <;> simp <;> omega
 intro p q d user
 rw [two_target p user,ne_eq,some.injEq,two_cr3]
 split_ifs <;> omega
theorem areas_owned_two : Along (step two_cr3) Owned (Exact two_cr3) two
 [.create false [] 5000 0 (fun _ => 0) true,.clone true 0x56 [] (fun _ => 0) true,.release false 0x56,.release true 0x57] :=
 areas_owned two_ready _ (by decide +kernel)

private lemma not_owned {Proc : Type} {s : Kernel Proc} {i : Int} {p : Proc}
 (listed : s.g_shm_list.map (fun info => (info.id,info.creator)) = [(i,p)]) (empty : (s.heap p).live = []) :
 ¬ Owned s := by
 intro owned
 have mem : (i,p) ∈ s.g_shm_list.map (fun info => (info.id,info.creator)) := by simp [listed]
 obtain ⟨info,inside,eq⟩ := mem_map.mp mem
 obtain ⟨rfl,rfl⟩ := Prod.mk.inj eq
 obtain ⟨size,live,-⟩ := (owned.described info inside).block
 simp [empty] at live
theorem release_by_other : ∃ s ∈ run (step two_cr3) two [.create false [] 128 0 (fun _ => 0) true,
     .create true [] 128 0 (fun _ => 0) true,.release true 0x56],
 s.g_shm_list.map (fun info => (info.id,info.creator)) = [(0x57,true)] ∧ (s.heap true).live = [] ∧
  (s.heap false).live ≠ [] ∧ ¬ Owned s := by
 refine ⟨_,rfl,by decide +kernel,by decide +kernel,by decide +kernel,?_⟩
 exact not_owned (i := 0x57) (p := true) (by decide +kernel) (by decide +kernel)

end Netbas.SharedMemory
