import Netbas.PageSharing

/-!
Mapping device memory to itself (`cpu/i386/mm/mmap.c`). A page table that exists is used with the
flags of its directory entry, and entries behind its end are written at its start; `identity_iff`
says which mappings are right.
-/
namespace Netbas.IdentityMaps
open Frames Paging PageTables PageSharing
open Teardown (put_at put_ram)
open Function
def PAGE_PCD : Nat := 0x010
def poke32 (s : Machine) (addr v : Nat) : Machine :=
 let low := 2 ^ (8 * (addr % 4))
 let pos := addr / 4
 let next := (pos + 1) % 2^30
 if addr % 4 = 0 then s.put pos v
 else (s.put pos (s.at pos % low + v * low % 2^32)).put next (s.at next / low * low + v * low / 2^32)

/-- The pages of a size, an `int`; a sum that wraps is negative and has none. -/
def nsize (size : Nat) : Nat := if size + 4095 < 2^31 then (size + 4095) / 4096 else 0
def map_loop (tmp_pg flags : Nat) : Nat -> Machine -> Nat -> Machine
 | 0, s, _ => s
 | n + 1, s, vaddr =>
  map_loop tmp_pg flags n (poke32 s ((tmp_pg + PTE_IDX vaddr * 4) % 2^32) (vaddr ||| flags)) ((vaddr + 4096) % 2^32)
section
variable (s : Machine)
def map_internal (pgdir vaddr size flags : Nat) : Option (Nat × Machine) :=
 match fix_pagedir_not_present s pgdir vaddr with
 | none => none
 | some (pgtab,s) =>
  if pgtab = 0 then some (0,s)
  else some (pgtab,map_loop pgtab flags (nsize size) s (vaddr &&& PT_PFNMASK))
def map_high_memory_internal (pgdir vaddr size : Nat) : Option (Nat × Machine) :=
 map_internal s pgdir vaddr size PAGE_PUW
def map_high_memory (cr3 vaddr size : Nat) : Option (Int × Machine) :=
 match map_high_memory_internal s s.KERN_PG_DIR_ADDR vaddr size with
 | none => none
 | some (pgtab,s) => if pgtab = 0 then some (-1,s) else some (0,s.poke cr3 (PDE_IDX vaddr) (pgtab ||| PAGE_PUW))
def map_physical_memory_nocache (cr3 vaddr size : Nat) : Option (Int × Machine) :=
 match map_internal s cr3 vaddr size (PAGE_PUW ||| PAGE_PCD) with
 | none => none
 | some (pgtab,s) => if pgtab = 0 then some (-1,s) else some (0,s)
end

/-! ### The loop -/
lemma page_frame (p : Nat) : p * 4096 / 4096 = p := Nat.mul_div_cancel _ (by norm_num)

section
variable {s : Machine} {tmp_pg flags t p n : Nat}

variable {addr : Nat}
lemma poke32_aligned (s : Machine) (v : Nat) (al : addr % 4 = 0) : poke32 s addr v = s.put (addr / 4) v := by
 rw [poke32,if_pos al]
lemma poke32_ram {page : Nat} (s : Machine) (v : Nat) (first : page ≠ addr / 4096)
 (last : page ≠ (addr + 3) % 2^32 / 4096) (word : addr < 2^32) : (poke32 s addr v).ram page = s.ram page := by
 rw [poke32]
 split_ifs with al
 · rw [put_ram,update_of_ne (by omega)]
 · rw [put_ram,update_of_ne (by omega),put_ram,update_of_ne (by omega)]
lemma map_loop_ram (page : Nat) (word : tmp_pg < 2^32) (here : page ≠ tmp_pg / 4096)
 (next : page ≠ (tmp_pg / 4096 + 1) % 2^20) :
 ∀ (n : Nat) (s : Machine) (vaddr : Nat), (map_loop tmp_pg flags n s vaddr).ram page = s.ram page := by
 intro n
 induction n with
 | zero => intro s vaddr; rfl
 | succ n ih =>
  intro s vaddr
  have idx : PTE_IDX vaddr < 1024 := Nat.mod_lt _ (by norm_num)
  rw [map_loop,ih]
  apply poke32_ram
  · omega
  · omega
  · omega
lemma map_loop_at (table : t < 2^20) : ∀ (n : Nat) (s : Machine) (p : Nat), p % 1024 + n ≤ 1024 -> p + n ≤ 2^20 ->
 (map_loop (t * 4096) flags n s (p * 4096)).at = fun pos =>
  if t * 1024 + p % 1024 ≤ pos ∧ pos < t * 1024 + p % 1024 + n then
   (p + (pos - (t * 1024 + p % 1024))) * 4096 ||| flags
  else s.at pos := by
 intro n
 induction n with
 | zero =>
  intro s p _ _
  funext pos
  rw [if_neg (by omega)]
  rfl
 | succ n ih =>
  intro s p fits low
  have idx : PTE_IDX (p * 4096) = p % 1024 := by
   rw [PTE_IDX]
   omega
  have addr : (t * 4096 + p % 1024 * 4) % 2^32 = (t * 1024 + p % 1024) * 4 := by omega
  have first : poke32 s ((t * 4096 + p % 1024 * 4) % 2^32) (p * 4096 ||| flags) =
    s.put (t * 1024 + p % 1024) (p * 4096 ||| flags) := by
   rw [addr,poke32_aligned _ _ (by omega),Nat.mul_div_cancel _ (by norm_num)]
  rw [map_loop,idx,first]
  by_cases more : n = 0
  · subst more
    funext pos
    rw [map_loop,put_at]
    by_cases here : pos = t * 1024 + p % 1024
    · rw [here,update_self,if_pos (by omega),Nat.sub_self,Nat.add_zero]
    · rw [update_of_ne here,if_neg (by omega)]
  have next : (p * 4096 + 4096) % 2^32 = (p + 1) * 4096 := by
   rw [<- Nat.succ_mul,Nat.mod_eq_of_lt (by omega)]
  have entry : (p + 1) % 1024 = p % 1024 + 1 := by omega
  rw [next,ih _ _ (by omega) (by omega),entry]
  funext pos
  rw [put_at]
  by_cases here : pos = t * 1024 + p % 1024
  · rw [here,if_neg (by omega),update_self,if_pos (by omega),Nat.sub_self,Nat.add_zero]
  rw [update_of_ne here]
  by_cases mem : t * 1024 + p % 1024 ≤ pos ∧ pos < t * 1024 + p % 1024 + (n + 1)
  · have eq : p + 1 + (pos - (t * 1024 + (p % 1024 + 1))) = p + (pos - (t * 1024 + p % 1024)) := by omega
    rw [if_pos mem,if_pos (by omega),eq]
  · rw [if_neg mem,if_neg (by omega)]
lemma poke32_even {pos : Nat} (v : Nat) (even : s.at pos % 2 = 0) (mem : addr % 4 = 0 -> addr / 4 ≠ pos)
 (pre : (addr / 4 + 1) % 2^30 ≠ pos) : (poke32 s addr v).at pos % 2 = 0 := by
 rw [poke32]
 split_ifs with al
 · rw [put_at,update_of_ne (mem al).symm]
   exact even
 rw [put_at,update_of_ne pre.symm,put_at]
 by_cases here : pos = addr / 4
 · rw [here,update_self]
   rw [here] at even
   have shift : addr % 4 = 1 ∨ addr % 4 = 2 ∨ addr % 4 = 3 := by omega
   rcases shift with one | two | three
   · rw [one]
     omega
   · rw [two]
     omega
   rw [three]
   omega
 rw [update_of_ne here]
 exact even
lemma map_loop_even {j : Nat} (word : tmp_pg < 2^32) (flagged : tmp_pg % 4096 ≠ 0) :
 ∀ (n : Nat) (s : Machine) (p : Nat), j ≤ p % 1024 -> p % 1024 + n ≤ 1024 -> p + n ≤ 2^20 ->
  s.at (tmp_pg / 4096 * 1024 + j) % 2 = 0 ->
  (map_loop tmp_pg flags n s (p * 4096)).at (tmp_pg / 4096 * 1024 + j) % 2 = 0 := by
 intro n
 induction n with
 | zero => intro s p _ _ _ even; exact even
 | succ n ih =>
  intro s p le fits low even
  have idx : PTE_IDX (p * 4096) = p % 1024 := by
   rw [PTE_IDX]
   omega
  have mem : (tmp_pg + p % 1024 * 4) % 2^32 % 4 = 0 -> (tmp_pg + p % 1024 * 4) % 2^32 / 4 ≠ tmp_pg / 4096 * 1024 + j := by
   omega
  have pre : ((tmp_pg + p % 1024 * 4) % 2^32 / 4 + 1) % 2^30 ≠ tmp_pg / 4096 * 1024 + j := by omega
  have kept := poke32_even (p * 4096 ||| flags) even mem pre
  rw [map_loop,idx]
  by_cases more : n = 0
  · subst more
    exact kept
  have next : (p * 4096 + 4096) % 2^32 = (p + 1) * 4096 := by
   rw [<- Nat.succ_mul,Nat.mod_eq_of_lt (by omega)]
  rw [next]
  exact ih _ _ (by omega) (by omega) (by omega) kept

end

/-! ### Requests -/
structure Request where
 vaddr : Nat
 size : Nat
 some : 0 < size
 int : size < 2^31
 below : vaddr + size < 2^32
example : Request := ⟨0x442000,0x1400000,by decide,by decide,by decide⟩

namespace Request

section
variable (r : Request)
def dir : Nat := r.vaddr / 4096 / 1024
def first : Nat := r.vaddr / 4096
def count : Nat := (r.vaddr % 4096 + r.size + 4095) / 4096
def Touches (p : Nat) : Prop := p * 4096 < r.vaddr + r.size ∧ r.vaddr < (p + 1) * 4096
lemma touches_iff (p : Nat) : r.Touches p ↔ r.first ≤ p ∧ p < r.first + r.count := by
 unfold Touches first count
 omega
lemma bounds : r.first + r.count ≤ 2^20 ∧ 1 ≤ r.count ∧ nsize r.size ≤ r.count ∧ r.dir < 1024 := by
 have some := r.some
 have lt := r.below
 unfold first count dir nsize
 refine ⟨by omega,by omega,?_,by omega⟩
 split_ifs <;> omega
lemma dir_eq : PDE_IDX r.vaddr = r.dir := by
 rw [PDE_IDX,dir]
 omega
lemma masked : r.vaddr &&& PT_PFNMASK = r.first * 4096 := by
 have lt := r.below
 exact pfnmask_eq (by omega)

/-- The range stays in one page table, and its size alone gives the pages that it
  touches. -/
def Fits : Prop :=
 r.vaddr % 4096 + r.size ≤ nsize r.size * 4096 ∧ PTE_IDX r.vaddr + nsize r.size ≤ 1024
lemma fits_iff : r.Fits ↔ r.count = nsize r.size ∧ r.first % 1024 + r.count ≤ 1024 := by
 have bounds := r.bounds
 have idx : PTE_IDX r.vaddr = r.first % 1024 := rfl
 rw [Fits,idx]
 have covers : r.count ≤ nsize r.size ↔ r.vaddr % 4096 + r.size ≤ nsize r.size * 4096 := by
  rw [count]
  omega
 omega
end

end Request

/-- Directories whose page tables are none of them and serve one index each; and the
  page that can be taken next is none of these pages. -/
structure Prior (s : Machine) (dirs : List Nat) : Prop where
 outside : ∀ dir ∈ dirs, ∀ d < 1024, s.word dir d ≠ 0 -> ∀ other ∈ dirs, tableOf s dir d ≠ other / 4096
 once : ∀ dir ∈ dirs, ∀ other ∈ dirs, ∀ d < 1024, ∀ d' < 1024, s.word dir d ≠ 0 -> s.word other d' ≠ 0 ->
  tableOf s dir d = tableOf s other d' -> d = d'
 fresh : ∀ page s', s.get_page = some (page,s') -> page ≠ 0 -> page % 4096 = 0 ∧ page < 2^32 ∧
  ∀ dir ∈ dirs, page / 4096 ≠ dir / 4096 ∧ ∀ d < 1024, s.word dir d ≠ 0 -> tableOf s dir d ≠ page / 4096
instance (s : Machine) (pgdir addr : Nat) : Decidable (HasTable s pgdir addr) :=
 inferInstanceAs (Decidable (_ ≠ 0))

/-- The entry of a page; a page without a page table counts as blank. -/
def entry (s : Machine) (pgdir p : Nat) : Nat := if HasTable s pgdir (p * 4096) then pte s pgdir (p * 4096) else 0

/-- The pages of the range are mapped to themselves in one address space, and the
  other pages have the entries they had in all of them. -/
structure Mapped (s s' : Machine) (dirs : List Nat) (pgdir : Nat) (r : Request) : Prop where
 identity : ∀ p, r.Touches p -> walk s' pgdir (p * 4096) = some p
 others : ∀ dir ∈ dirs, ∀ p < 2^20, ¬ r.Touches p -> entry s' dir p = entry s dir p

section
variable {s s' : Machine} {dirs : List Nat} {pgdir dir d p t : Nat} {r : Request}
lemma page_dir (p : Nat) : PDE_IDX (p * 4096) = p / 1024 := by
 rw [PDE_IDX]
 omega
lemma hasTable_dir (p : Nat) : HasTable s dir (p * 4096) ↔ s.word dir (p / 1024) &&& PAGE_PRESENT ≠ 0 := by
 rw [HasTable,page_dir]
lemma pte_dir (p : Nat) : pte s dir (p * 4096) = s.at (tableOf s dir (p / 1024) * 1024 + p % 1024) := by
 rw [pte,slot_page,place,page_frame]
lemma entry_absent (out : s.word dir (p / 1024) &&& PAGE_PRESENT = 0) : entry s dir p = 0 := by
 rw [entry,if_neg]
 rw [hasTable_dir,not_not]
 exact out
section
variable (present : target (s.word dir (p / 1024)) = some t)
include present
lemma entry_present : entry s dir p = s.at (t * 1024 + p % 1024) := by
 obtain ⟨flag,page,_⟩ := target_some present
 rw [entry,if_pos ((hasTable_dir p).mpr flag),pte_dir,tableOf,page,page_frame]
lemma walk_present :
 walk s dir (p * 4096) = target (s.at (t * 1024 + p % 1024)) := by
 obtain ⟨flag,page,_⟩ := target_some present
 rw [walk_pte ((hasTable_dir p).mpr flag),pte_dir,tableOf,page,page_frame]
end

variable {i page : Nat}

section
variable (lt : i < 1024)
include lt
lemma row_eq : (page * 1024 + i) / 1024 = page := by omega
lemma entry_region (present : target (s.word dir d) = some t) :
 entry s dir (d * 1024 + i) = s.at (t * 1024 + i) := by
 have col : (d * 1024 + i) % 1024 = i := by omega
 have here := entry_present (s := s) (p := d * 1024 + i) (t := t) (by rw [row_eq lt]; exact present)
 rwa [col] at here
lemma entry_region_absent (out : s.word dir d &&& PAGE_PRESENT = 0) :
 entry s dir (d * 1024 + i) = 0 := by
 apply entry_absent
 rwa [row_eq lt]
lemma words_apart {ne j : Nat} (lt' : j < 1024) (apart : page ≠ ne ∨ i ≠ j) :
 page * 1024 + i ≠ ne * 1024 + j := by
 omega
end
lemma entry_congr (word : s'.word dir (p / 1024) = s.word dir (p / 1024))
 (table : s.word dir (p / 1024) &&& PAGE_PRESENT ≠ 0 ->
  s'.at (tableOf s dir (p / 1024) * 1024 + p % 1024) = s.at (tableOf s dir (p / 1024) * 1024 + p % 1024)) :
 entry s' dir p = entry s dir p := by
 have tables : tableOf s' dir (p / 1024) = tableOf s dir (p / 1024) := by rw [tableOf,tableOf,word]
 unfold entry
 refine if_ctx_congr ?_ ?_ ?_
 · rw [hasTable_dir,hasTable_dir,word]
 · intro present
   rw [pte_dir,pte_dir,tables]
   exact table ((hasTable_dir p).mp present)
 intro _
 rfl
lemma target_flags {flags : Nat} (lt : p < 2^20) (low : flags < 4096) (odd : flags % 2 = 1) :
 target (p * 4096 ||| flags) = some p := by
 have sum : p * 4096 ||| flags = p * 4096 + flags := by
  rw [Nat.mul_comm]
  exact (Nat.two_pow_add_eq_or_of_lt (i := 12) low p).symm
 have present : (p * 4096 + flags) &&& PAGE_PRESENT ≠ 0 := by
  rw [PAGE_PRESENT,Nat.and_one_is_mod]
  omega
 rw [sum,target_word present (by omega)]
 congr 1
 omega
lemma mapped_of_parts (flags : Nat) (fits : r.Fits) (low : flags < 4096) (odd : flags % 2 = 1)
 (words : ∀ dir ∈ dirs, ∀ d < 1024, d ≠ r.dir -> s'.word dir d = s.word dir d)
 (tables : ∀ dir ∈ dirs, ∀ d < 1024, d ≠ r.dir -> s.word dir d ≠ 0 ->
  ∀ i < 1024, s'.at (tableOf s dir d * 1024 + i) = s.at (tableOf s dir d * 1024 + i))
 (present : target (s'.word pgdir r.dir) = some t)
 (written : ∀ i, r.first % 1024 ≤ i -> i < r.first % 1024 + nsize r.size ->
  s'.at (t * 1024 + i) = (r.first + (i - r.first % 1024)) * 4096 ||| flags)
 (region : ∀ dir ∈ dirs, ∀ i < 1024, i < r.first % 1024 ∨ r.first % 1024 + nsize r.size ≤ i ->
  entry s' dir (r.dir * 1024 + i) = entry s dir (r.dir * 1024 + i)) :
 Mapped s s' dirs pgdir r := by
 obtain ⟨many,within⟩ := r.fits_iff.mp fits
 have bounds := r.bounds
 have place : r.first / 1024 = r.dir := rfl
 constructor
 · intro p touched
   rw [r.touches_iff] at touched
   have dir : p / 1024 = r.dir := by omega
   have idx : r.first + (p % 1024 - r.first % 1024) = p := by omega
   rw [walk_present (by rw [dir]; exact present),written _ (by omega) (by omega),idx]
   exact target_flags (by omega) low odd
 intro dir mem p lt same
 rw [r.touches_iff] at same
 by_cases here : p / 1024 = r.dir
 · have split : p = r.dir * 1024 + p % 1024 := by omega
   rw [split]
   exact region dir mem _ (by omega) (by omega)
 have eq := words dir mem (p / 1024) (by omega) here
 apply entry_congr eq
 intro flag
 apply tables dir mem _ (by omega) here
 · intro zero
   rw [zero] at flag
   exact flag (Nat.zero_and _)
 · omega

/-! ### The page table that is written -/
structure Ground (s : Machine) (dirs : List Nat) (d t : Nat) (base : Nat -> Nat) : Prop where
 low : t < 2^20
 apart : ∀ dir ∈ dirs, t ≠ dir / 4096
 single : ∀ dir ∈ dirs, ∀ d' < 1024, d' ≠ d -> s.word dir d' ≠ 0 -> tableOf s dir d' ≠ t
 words : ∀ dir ∈ dirs, ∀ d' < 1024, d' ≠ d -> base (dir / 4096 * 1024 + d') = s.at (dir / 4096 * 1024 + d')
 tables : ∀ dir ∈ dirs, ∀ d' < 1024, d' ≠ d -> s.word dir d' ≠ 0 ->
  ∀ i < 1024, base (tableOf s dir d' * 1024 + i) = s.at (tableOf s dir d' * 1024 + i)
def freshBase (s : Machine) (pgdir d t : Nat) : Nat -> Nat := fun pos =>
 if pos / 1024 = t then 0 else if pos = pgdir / 4096 * 1024 + d then t * 4096 ||| PAGE_PUW else s.at pos
lemma poke_at {addr : Nat} (s : Machine) (w : Nat) (lt : i < 1024) :
 (s.poke addr i w).at = update s.at (addr / 4096 * 1024 + i) w := by
 have place : s.poke addr i w = s.put (addr / 4096 * 1024 + i) w := by
  have row : (addr / 4096 * 1024 + i) / 1024 * 4096 / 4096 = addr / 4096 := by omega
  have col : (addr / 4096 * 1024 + i) % 1024 = i := by omega
  rw [Machine.put,Machine.poke,Machine.poke,row,col]
 rw [place,put_at]
lemma fill_at (s : Machine) (addr : Nat) (content : Nat -> Nat) (pos : Nat) :
 (s.fill addr content).at pos = if pos / 1024 = addr / 4096 then content (pos % 1024) else s.at pos := by
 rw [Machine.at,Machine.fill]
 split_ifs with here
 · simp only [here,update_self]
 simp only [update_of_ne here]
 rfl

variable {vaddr : Nat}
lemma fix_pagedir_old (old : s.word pgdir (PDE_IDX vaddr) ≠ 0) :
 fix_pagedir_not_present s pgdir vaddr = some (s.word pgdir (PDE_IDX vaddr),s) := by
 unfold fix_pagedir_not_present
 rw [if_pos old]
lemma get_page_at (got : s.get_page = some (page,s')) : s'.at = s.at := by
 unfold Machine.get_page at got
 obtain ⟨⟨addr,map⟩,_,eq⟩ := Option.map_eq_some_iff.mp got
 cases eq
 rfl

variable {pgtab : Nat}
lemma fix_pagedir_new (new : s.word pgdir (PDE_IDX vaddr) = 0) (idx : PDE_IDX vaddr < 1024)
 (fixed : fix_pagedir_not_present s pgdir vaddr = some (pgtab,s')) (hit : pgtab ≠ 0) :
 ∃ s0, s.get_page = some (pgtab,s0) ∧
  (pgtab % 4096 = 0 -> s'.at = freshBase s pgdir (PDE_IDX vaddr) (pgtab / 4096)) := by
 unfold fix_pagedir_not_present at fixed
 rw [if_neg (not_not.mpr new)] at fixed
 cases got : s.get_page with
 | none =>
  rw [got] at fixed
  cases fixed
 | some ran =>
  obtain ⟨page,s0⟩ := ran
  rw [got] at fixed
  dsimp only at fixed
  split_ifs at fixed with zero
  · cases fixed
    exact absurd rfl hit
  cases fixed
  refine ⟨s0,rfl,?_⟩
  intro al
  have whole : pgtab / 4096 * 4096 = pgtab := by omega
  funext pos
  rw [fill_at,poke_at _ _ idx,get_page_at got,freshBase,whole,update_apply]
lemma Prior.ground_new {s0 : Machine} (prior : Prior s dirs) (mem : pgdir ∈ dirs) (idx : d < 1024)
 (got : s.get_page = some (page,s0)) (hit : page ≠ 0) : Ground s dirs d (page / 4096) (freshBase s pgdir d (page / 4096)) := by
 obtain ⟨_,word,apart⟩ := prior.fresh page s0 got hit
 refine ⟨by omega,fun dir inside => (apart dir inside).1,fun dir inside d' lt _ ne0 => (apart dir inside).2 d' lt ne0,?_,?_⟩
 · intro dir inside d' lt ne
   have frame := (apart dir inside).1
   rw [freshBase,if_neg (by omega),if_neg (by omega)]
 intro dir inside d' lt _ ne0 i low
 have table := (apart dir inside).2 d' lt ne0
 have out := prior.outside dir inside d' lt ne0 pgdir mem
 rw [freshBase,if_neg (by omega),if_neg (by omega)]
lemma Prior.ground_old (prior : Prior s dirs) (mem : pgdir ∈ dirs) (idx : d < 1024) (old : s.word pgdir d ≠ 0) :
 Ground s dirs d (tableOf s pgdir d) s.at := by
 refine ⟨?_,prior.outside pgdir mem d idx old,?_,fun _ _ _ _ _ => rfl,fun _ _ _ _ _ _ _ _ => rfl⟩
 · have small : s.word pgdir d &&& PT_PFNMASK < 2^32 := lt_of_le_of_lt Nat.and_le_right (by decide)
   rw [tableOf]
   omega
 intro dir inside d' lt ne ne0 eq
 exact ne (prior.once dir inside pgdir mem d' lt d idx ne0 old eq)
def writtenBase (r : Request) (t flags : Nat) (base : Nat -> Nat) : Nat -> Nat := fun pos =>
 if t * 1024 + r.first % 1024 ≤ pos ∧ pos < t * 1024 + r.first % 1024 + nsize r.size then
  (r.first + (pos - (t * 1024 + r.first % 1024))) * 4096 ||| flags
 else base pos
lemma loop_written {flags : Nat} (low : t < 2^20) (fits : r.first % 1024 + nsize r.size ≤ 1024) :
 (map_loop (t * 4096) flags (nsize r.size) s (r.vaddr &&& PT_PFNMASK)).at = writtenBase r t flags s.at := by
 have bounds := r.bounds
 rw [r.masked,map_loop_at low _ _ _ fits (by omega)]
 rfl

section
variable {flags : Nat} {base : Nat -> Nat}

variable {i : Nat}
lemma written_inside (low : r.first % 1024 ≤ i) (high : i < r.first % 1024 + nsize r.size) :
 writtenBase r t flags base (t * 1024 + i) = (r.first + (i - r.first % 1024)) * 4096 ||| flags := by
 have idx : t * 1024 + i - (t * 1024 + r.first % 1024) = i - r.first % 1024 := by omega
 rw [writtenBase,if_pos (by omega),idx]
lemma written_outside (out : i < r.first % 1024 ∨ r.first % 1024 + nsize r.size ≤ i) :
 writtenBase r t flags base (t * 1024 + i) = base (t * 1024 + i) := by
 rw [writtenBase,if_neg (by omega)]
lemma written_other {page : Nat} (fits : r.first % 1024 + nsize r.size ≤ 1024) (ne : page ≠ t) (lt : i < 1024) :
 writtenBase r t flags base (page * 1024 + i) = base (page * 1024 + i) := by
 rw [writtenBase,if_neg (by omega)]

end

variable {size : Nat}
lemma map_internal_iff {flags : Nat} (hit : pgtab ≠ 0) :
 map_internal s pgdir vaddr size flags = some (pgtab,s') ↔ ∃ s1, fix_pagedir_not_present s pgdir vaddr = some (pgtab,s1) ∧
  s' = map_loop pgtab flags (nsize size) s1 (vaddr &&& PT_PFNMASK) := by
 unfold map_internal
 constructor
 · intro ran
   split at ran
   · cases ran
   split_ifs at ran with zero
   · cases ran
     exact absurd rfl hit
   cases ran
   exact ⟨_,by assumption,rfl⟩
 rintro ⟨s1,fixed,after⟩
 rw [fixed,after]
 dsimp only
 rw [if_neg hit]
lemma nocache_iff : map_physical_memory_nocache s pgdir vaddr size = some (0,s') ↔
 ∃ pgtab ≠ 0, map_internal s pgdir vaddr size (PAGE_PUW ||| PAGE_PCD) = some (pgtab,s') := by
 unfold map_physical_memory_nocache
 constructor
 · intro ran
   split at ran
   · cases ran
   split_ifs at ran with zero
   · cases ran
   cases ran
   exact ⟨_,zero,by assumption⟩
 rintro ⟨pgtab,hit,inner⟩
 rw [inner]
 dsimp only
 rw [if_neg hit]
lemma high_iff {cr3 : Nat} : map_high_memory s cr3 vaddr size = some (0,s') ↔
 ∃ pgtab ≠ 0, ∃ s1, map_internal s s.KERN_PG_DIR_ADDR vaddr size PAGE_PUW = some (pgtab,s1) ∧
  s' = s1.poke cr3 (PDE_IDX vaddr) (pgtab ||| PAGE_PUW) := by
 unfold map_high_memory map_high_memory_internal
 constructor
 · intro ran
   split at ran
   · cases ran
   split_ifs at ran with zero
   · cases ran
   cases ran
   exact ⟨_,zero,_,by assumption,rfl⟩
 rintro ⟨pgtab,hit,s1,inner,rfl⟩
 rw [inner]
 dsimp only
 rw [if_neg hit]
lemma internal_written {flags : Nat} (prior : Prior s dirs) (mem : pgdir ∈ dirs)
 (lt : r.first % 1024 + nsize r.size ≤ 1024) (plain : s.word pgdir r.dir % 4096 = 0) (word : s.word pgdir r.dir < 2^32)
 (ran : map_internal s pgdir r.vaddr r.size flags = some (pgtab,s')) (hit : pgtab ≠ 0) :
 ∃ t base, pgtab = t * 4096 ∧ Ground s dirs r.dir t base ∧ s'.at = writtenBase r t flags base ∧
  (s.word pgdir r.dir = 0 ∧ base = freshBase s pgdir r.dir t ∨
   s.word pgdir r.dir ≠ 0 ∧ base = s.at ∧ t = tableOf s pgdir r.dir) := by
 have idx := r.bounds.2.2.2
 obtain ⟨s1,fixed,after⟩ := (map_internal_iff hit).mp ran
 rw [after]
 by_cases new : s.word pgdir r.dir = 0
 · rw [<- r.dir_eq] at new idx
   obtain ⟨s0,got,blank⟩ := fix_pagedir_new new idx fixed hit
   obtain ⟨al,_,_⟩ := prior.fresh _ _ got hit
   obtain ⟨t,rfl⟩ : ∃ t, pgtab = t * 4096 := ⟨pgtab / 4096,by omega⟩
   rw [r.dir_eq] at new idx blank
   have ground := prior.ground_new mem idx got hit
   rw [page_frame] at ground blank
   refine ⟨t,_,rfl,ground,?_,.inl ⟨new,rfl⟩⟩
   rw [loop_written ground.low lt,blank al]
 have old : s.word pgdir (PDE_IDX r.vaddr) = s.word pgdir r.dir := by rw [r.dir_eq]
 have eq := fix_pagedir_old (old.symm ▸ new)
 rw [fixed,old] at eq
 cases eq
 have ground := prior.ground_old mem idx new
 have whole : s.word pgdir r.dir = tableOf s pgdir r.dir * 4096 := by
  rw [tableOf,pfnmask_eq word]
  omega
 refine ⟨_,_,whole,ground,?_,.inr ⟨new,rfl,rfl⟩⟩
 rw [whole,loop_written ground.low lt]
lemma Ground.written {flags : Nat} {base : Nat -> Nat} (ground : Ground s dirs r.dir t base) (fits : r.Fits)
 (mem : dir ∈ dirs) (lt : d < 1024) (ne : d ≠ r.dir) :
 writtenBase r t flags base (dir / 4096 * 1024 + d) = s.at (dir / 4096 * 1024 + d) ∧
  (s.word dir d ≠ 0 -> ∀ i < 1024,
   writtenBase r t flags base (tableOf s dir d * 1024 + i) = s.at (tableOf s dir d * 1024 + i)) := by
 obtain ⟨many,within⟩ := r.fits_iff.mp fits
 rw [many] at within
 constructor
 · rw [written_other within (ground.apart dir mem).symm lt]
   exact ground.words dir mem d lt ne
 intro ne0 i low
 rw [written_other within (ground.single dir mem d lt ne ne0) low]
 exact ground.tables dir mem d lt ne ne0 i low
lemma nocache_mapped (prior : Prior s [pgdir]) (fits : r.Fits) (new : s.word pgdir r.dir = 0)
 (ran : map_physical_memory_nocache s pgdir r.vaddr r.size = some (0,s')) : Mapped s s' [pgdir] pgdir r := by
 obtain ⟨many,within⟩ := r.fits_iff.mp fits
 rw [many] at within
 have idx := r.bounds.2.2.2
 obtain ⟨pgtab,zero,inner⟩ := nocache_iff.mp ran
 obtain ⟨t,base,-,ground,words,case⟩ := internal_written prior (by simp) within (by rw [new]) (by rw [new]; norm_num) inner zero
 obtain ⟨_,rfl⟩ | ⟨old,_⟩ := case
 · have frame := ground.apart pgdir (by simp)
   have present : target (s'.word pgdir r.dir) = some t := by
    rw [word_at idx,words,written_other within frame.symm idx,freshBase,if_neg (by omega),if_pos rfl]
    exact target_puw ground.low
   refine mapped_of_parts (PAGE_PUW ||| PAGE_PCD) fits (by decide) (by decide) ?_ ?_ present ?_ ?_
   · intro dir mem d lt ne
     rw [word_at lt,word_at lt,words]
     exact (ground.written fits mem lt ne).1
   · intro dir mem d lt ne ne0
     rw [words]
     exact (ground.written fits mem lt ne).2 ne0
   · intro i low high
     rw [words,written_inside low high]
   intro dir mem i lt out
   obtain rfl : dir = pgdir := by simpa using mem
   have pre : entry s dir (r.dir * 1024 + i) = 0 := entry_region_absent lt (by rw [new,Nat.zero_and])
   rw [pre,entry_region lt present,words,written_outside out,freshBase,if_pos (row_eq lt)]
 · exact absurd new old
def Replaces (r : Request) (kernel current : Nat) : Prop :=
 kernel % 4096 = 0 ∧ (nsize r.size = 1024 ∨ kernel = 0 ∧ current &&& PAGE_PRESENT = 0 ∨
  kernel ≠ 0 ∧ target current = some (kernel / 4096))
lemma plain_absent {w : Nat} (plain : w % 4096 = 0) : w &&& PAGE_PRESENT = 0 := by
 rw [PAGE_PRESENT,Nat.and_one_is_mod]
 omega
lemma word_congr (eq : dir / 4096 = pgdir / 4096) : s.word dir d = s.word pgdir d := by
 rw [Machine.word,Machine.word,eq]
lemma high_mapped {kern cr3 : Nat} (kernel : s.KERN_PG_DIR_ADDR = kern) (prior : Prior s [kern,cr3]) (fits : r.Fits)
 (replaces : Replaces r (s.word kern r.dir) (s.word cr3 r.dir)) (word : s.word kern r.dir < 2^32)
 (ran : map_high_memory s cr3 r.vaddr r.size = some (0,s')) : Mapped s s' [kern,cr3] cr3 r := by
 obtain ⟨many,within⟩ := r.fits_iff.mp fits
 rw [many] at within
 have idx := r.bounds.2.2.2
 obtain ⟨plain,old⟩ := replaces
 obtain ⟨pgtab,zero,s1,inner,rfl⟩ := high_iff.mp ran
 rw [kernel] at inner
 obtain ⟨t,base,rfl,ground,words,case⟩ := internal_written prior (by simp) within plain word inner zero
 have frame := ground.apart cr3 (by simp)
 have final : (s1.poke cr3 (PDE_IDX r.vaddr) (t * 4096 ||| PAGE_PUW)).at =
   update (writtenBase r t PAGE_PUW base) (cr3 / 4096 * 1024 + r.dir) (t * 4096 ||| PAGE_PUW) := by
  rw [r.dir_eq,poke_at _ _ idx,words]
 generalize s1.poke cr3 (PDE_IDX r.vaddr) (t * 4096 ||| PAGE_PUW) = after at final
 have present : target (after.word cr3 r.dir) = some t := by
  rw [word_at idx,final,update_self]
  exact target_puw ground.low
 have table (i : Nat) (lt : i < 1024) : after.at (t * 1024 + i) = writtenBase r t PAGE_PUW base (t * 1024 + i) := by
  rw [final,update_of_ne (words_apart lt idx (.inl frame))]
 refine mapped_of_parts PAGE_PUW fits (by decide) (by decide) ?_ ?_ present ?_ ?_
 · intro dir mem d lt ne
   rw [word_at lt,word_at lt,final,update_of_ne (words_apart lt idx (.inr ne))]
   exact (ground.written fits mem lt ne).1
 · intro dir mem d lt ne ne0 i low
   have out := prior.outside dir mem d lt ne0 cr3 (by simp)
   rw [final,update_of_ne (words_apart low idx (.inl out))]
   exact (ground.written fits mem lt ne).2 ne0 i low
 · intro i low high
   rw [table i (by omega),written_inside low high]
 intro dir mem i lt out
 have fresh (new : base = freshBase s kern r.dir t) : after.at (t * 1024 + i) = 0 := by
  rw [table i lt,written_outside out,new,freshBase,if_pos (row_eq lt)]
 by_cases here : dir / 4096 = cr3 / 4096
 · rw [entry_region lt (by rw [word_congr here]; exact present)]
   rcases old with whole | ⟨new,gone⟩ | ⟨ne0,shared⟩
   · omega
   · obtain ⟨_,blank⟩ | ⟨ne0,_⟩ := case
     · rw [fresh blank,entry_region_absent lt (by rw [word_congr here]; exact gone)]
     · exact absurd new ne0
   obtain ⟨new,_⟩ | ⟨_,eq,place⟩ := case
   · exact absurd new ne0
   have kept : tableOf s kern r.dir = s.word kern r.dir / 4096 := by
    rw [tableOf,pfnmask_eq word]
    omega
   rw [entry_region lt (by rw [word_congr here]; exact shared),<- kept,<- place,table i lt,written_outside out,eq]
 obtain rfl : dir = kern := by
  have either : dir = kern ∨ dir = cr3 := by simpa using mem
  exact either.resolve_right fun eq => here (by rw [eq])
 have away : after.word dir r.dir = base (dir / 4096 * 1024 + r.dir) := by
  rw [word_at idx,final,update_of_ne (words_apart idx idx (.inl here)),
   written_other within (ground.apart dir (by simp)).symm idx]
 obtain ⟨new,blank⟩ | ⟨_,eq,_⟩ := case
 · have apart := ground.apart dir (by simp)
   have link : target (after.word dir r.dir) = some t := by
    rw [away,blank,freshBase,if_neg (by omega),if_pos rfl]
    exact target_puw ground.low
   rw [entry_region lt link,fresh blank,entry_region_absent lt (by rw [new,Nat.zero_and])]
 rw [eq,<- word_at idx] at away
 rw [entry_region_absent lt (by rw [away]; exact plain_absent plain),entry_region_absent lt (plain_absent plain)]

end

/-! ### Requests that do not fit -/
def staged (F K C d kernel current : Nat) (content : Nat -> Nat) : Machine where
 map := memory_slot_init (F * 4096) (F * 4096 + 8192) (fun _ => ⟨0,0,0⟩) 2
 KERN_PG_DIR_ADDR := K * 4096
 ram := fun page i =>
  if page = K then (if i = d then kernel else 0) else if page = C then (if i = d then current else 0) else content page
 procs := []
structure Stage (F K C kernel current : Nat) : Prop where
 word : kernel < 2^32
 word' : current < 2^32
 low : 1 ≤ F ∧ F < 2^20
 frames : F ≠ kernel / 4096 ∧ F ≠ current / 4096
 dirs : K ≠ C ∧ ∀ X, X = K ∨ X = C -> X ≠ F ∧ X ≠ (F + 1) % 2^20 ∧ X ≠ kernel / 4096 ∧ X ≠ (kernel / 4096 + 1) % 2^20 ∧
  X ≠ current / 4096 ∧ X ≠ (current / 4096 + 1) % 2^20
lemma exists_apart (l : List Nat) (le : l.length < 9) : ∃ x, 1 ≤ x ∧ x ≤ 9 ∧ x ∉ l := by
 by_contra none
 have all : Finset.Icc 1 9 ⊆ l.toFinset := by
  intro x mem
  rw [Finset.mem_Icc] at mem
  rw [List.mem_toFinset]
  by_contra missing
  exact none ⟨x,mem.1,mem.2,missing⟩
 have many := (Finset.card_le_card all).trans l.toFinset_card_le
 rw [Nat.card_Icc] at many
 omega
lemma exists_stage {kernel current : Nat} (word : kernel < 2^32) (word' : current < 2^32) :
 ∃ F K C, Stage F K C kernel current := by
 obtain ⟨F,low,high,frames⟩ := exists_apart [kernel / 4096,current / 4096] (by simp)
 obtain ⟨K,_,_,first⟩ := exists_apart [F,(F + 1) % 2^20,kernel / 4096,(kernel / 4096 + 1) % 2^20,current / 4096,
  (current / 4096 + 1) % 2^20] (by simp)
 obtain ⟨C,_,_,snd⟩ := exists_apart [K,F,(F + 1) % 2^20,kernel / 4096,(kernel / 4096 + 1) % 2^20,current / 4096,
  (current / 4096 + 1) % 2^20] (by simp)
 simp only [List.mem_cons,List.not_mem_nil,or_false,not_or] at frames first snd
 refine ⟨F,K,C,word,word',⟨low,by omega⟩,frames,fun eq => snd.1 eq.symm,?_⟩
 rintro X (rfl | rfl)
 · exact first
 · exact snd.2

section
variable {F K C d kernel current : Nat} {content : Nat -> Nat}
lemma staged_kernel (i : Nat) :
 (staged F K C d kernel current content).word (K * 4096) i = if i = d then kernel else 0 := by
 rw [Machine.word,page_frame,staged]
 exact if_pos rfl
lemma staged_current (stage : Stage F K C kernel current) (i : Nat) :
 (staged F K C d kernel current content).word (C * 4096) i = if i = d then current else 0 := by
 rw [Machine.word,page_frame,staged]
 exact (if_neg stage.dirs.1.symm).trans (if_pos rfl)

variable {i : Nat}
lemma staged_blank (stage : Stage F K C kernel current) (lt : i < 1024) (ne : i ≠ d) :
 (staged F K C d kernel current content).at (C * 1024 + i) = 0 := by
 have blank : (staged F K C d kernel current content).word (C * 4096) i = 0 := by
  rw [staged_current stage,if_neg ne]
 rwa [word_at lt,page_frame] at blank

variable {page : Nat}
lemma staged_at (lt : i < 1024) (ne : page ≠ K) (other' : page ≠ C) :
 (staged F K C d kernel current content).at (page * 1024 + i) = content page := by
 rw [Machine.at,row_eq lt,staged]
 exact (if_neg ne).trans (if_neg other')
lemma get_page_first (low : F < 2^20) :
 ∃ m, Frames.get_page (memory_slot_init (F * 4096) (F * 4096 + 8192) (fun _ => ⟨0,0,0⟩) 2) = some (F * 4096,m) := by
 generalize init : memory_slot_init (F * 4096) (F * 4096 + 8192) (fun _ => ⟨0,0,0⟩) 2 = m
 have head : m.hole_head_pos = 0 := by rw [<- init]; rfl
 have tail : m.hole_tail_pos = 1 := by rw [<- init]; rfl
 have start : m.LOW_MEM = F * 4096 := by rw [<- init]; rfl
 have addr : m.address 0 = F * 4096 := by
  rw [PageMap.address,start,show PTOB 0 = 0 by decide]
  omega
 rw [Frames.get_page,head,tail,if_neg (by decide),if_neg (by decide)]
 dsimp only
 rw [addr]
 exact ⟨_,rfl⟩
section
variable (stage : Stage F K C kernel current)
include stage
lemma staged_get_page :
 ∃ s0, (staged F K C d kernel current content).get_page = some (F * 4096,s0) := by
 obtain ⟨m,got⟩ := get_page_first stage.low.2
 refine ⟨{staged F K C d kernel current content with map := m},?_⟩
 rw [Machine.get_page]
 exact congrArg (Option.map _) got
lemma staged_word {dir : Nat} (mem : dir ∈ [K * 4096,C * 4096])
 (ne0 : (staged F K C d kernel current content).word dir i ≠ 0) :
 i = d ∧ ((staged F K C d kernel current content).word dir i = kernel ∨
  (staged F K C d kernel current content).word dir i = current) := by
 have either : dir = K * 4096 ∨ dir = C * 4096 := by simpa using mem
 have here {w : Nat} (kept : (if i = d then w else 0) ≠ 0) : i = d := by
  by_contra ne
  exact kept (if_neg ne)
 rcases either with rfl | rfl
 · rw [staged_kernel] at ne0 ⊢
   exact ⟨here ne0,.inl (if_pos (here ne0))⟩
 rw [staged_current stage] at ne0 ⊢
 exact ⟨here ne0,.inr (if_pos (here ne0))⟩
lemma staged_prior :
 Prior (staged F K C d kernel current content) [K * 4096,C * 4096] := by
 have tables {dir i : Nat} (mem : dir ∈ [K * 4096,C * 4096])
   (ne0 : (staged F K C d kernel current content).word dir i ≠ 0) :
   tableOf (staged F K C d kernel current content) dir i = kernel / 4096 ∨
    tableOf (staged F K C d kernel current content) dir i = current / 4096 := by
  have word := stage.word
  have word' := stage.word'
  rw [tableOf]
  rcases (staged_word stage mem ne0).2 with eq | eq
  · rw [eq,pfnmask_eq word]
    omega
  rw [eq,pfnmask_eq word']
  omega
 have frame {dir : Nat} (mem : dir ∈ [K * 4096,C * 4096]) : ∃ X, (X = K ∨ X = C) ∧ dir / 4096 = X := by
  have either : dir = K * 4096 ∨ dir = C * 4096 := by simpa using mem
  rcases either with rfl | rfl
  · exact ⟨K,.inl rfl,by omega⟩
  · exact ⟨C,.inr rfl,by omega⟩
 constructor
 · intro dir mem i _ ne0 ne mem'
   obtain ⟨X,which,place⟩ := frame mem'
   have apart := stage.dirs.2 X which
   have table := tables mem ne0
   omega
 · intro dir mem ne mem' i _ i' _ ne0 nonzero' _
   rw [(staged_word stage mem ne0).1,(staged_word stage mem' nonzero').1]
 intro page s' got hit
 obtain ⟨s0,eq⟩ := staged_get_page stage
 rw [eq] at got
 cases got
 have low := stage.low
 refine ⟨by omega,by omega,?_⟩
 intro dir mem
 obtain ⟨X,which,place⟩ := frame mem
 have apart := stage.dirs.2 X which
 have frames := stage.frames
 refine ⟨by omega,?_⟩
 intro i _ ne0
 have table := tables mem ne0
 omega
end
lemma at_congr {s s' : Machine} (eq : s'.ram page = s.ram page) (lt : i < 1024) :
 s'.at (page * 1024 + i) = s.at (page * 1024 + i) := by
 rw [Machine.at,Machine.at,row_eq lt,eq]
lemma fix_pagedir_got {s s0 : Machine} {pgdir vaddr : Nat} (new : s.word pgdir (PDE_IDX vaddr) = 0)
 (got : s.get_page = some (page,s0)) (hit : page ≠ 0) : ∃ s1, fix_pagedir_not_present s pgdir vaddr = some (page,s1) := by
 unfold fix_pagedir_not_present
 rw [if_neg (not_not.mpr new),got]
 dsimp only
 rw [if_neg hit]
 exact ⟨_,rfl⟩

variable {r : Request} {X w : Nat}
lemma staged_internal (stage : Stage F K C kernel current) (flags : Nat)
 (which : X = K ∧ w = kernel ∨ X = C ∧ w = current) (content : Nat -> Nat) :
 ∃ pgtab s1, map_internal (staged F K C r.dir kernel current content) (X * 4096) r.vaddr r.size flags = some (pgtab,s1) ∧
  pgtab ≠ 0 ∧
  (∀ Y, Y = K ∨ Y = C -> ∀ i < 1024, Y ≠ X ∨ i ≠ r.dir ->
   s1.at (Y * 1024 + i) = (staged F K C r.dir kernel current content).at (Y * 1024 + i)) ∧
  (w ≠ 0 -> pgtab = w ∧
   s1 = map_loop w flags (nsize r.size) (staged F K C r.dir kernel current content) (r.first * 4096)) := by
 generalize start : staged F K C r.dir kernel current content = s
 have idx := r.bounds.2.2.2
 have entry : s.word (X * 4096) r.dir = w := by
  rw [<- start]
  rcases which with ⟨rfl,rfl⟩ | ⟨rfl,rfl⟩
  · rw [staged_kernel,if_pos rfl]
  · rw [staged_current stage,if_pos rfl]
 have dirs : X = K ∨ X = C := which.imp And.left And.left
 by_cases new : w = 0
 · obtain ⟨s0,got⟩ := (staged_get_page stage : ∃ s0, (staged F K C r.dir kernel current content).get_page = some (F * 4096,s0))
   rw [start] at got
   have low := stage.low
   have hit : F * 4096 ≠ 0 := by omega
   have zero : s.word (X * 4096) (PDE_IDX r.vaddr) = 0 := by rw [r.dir_eq,entry,new]
   obtain ⟨s1,fixed⟩ := fix_pagedir_got zero got hit
   obtain ⟨_,_,blank⟩ := fix_pagedir_new zero (by rw [r.dir_eq]; exact idx) fixed hit
   refine ⟨_,_,(map_internal_iff hit).mpr ⟨_,fixed,rfl⟩,hit,?_,fun ne0 => absurd new ne0⟩
   intro Y side i lt ne
   obtain ⟨here,next,_⟩ := stage.dirs.2 Y side
   have row : (Y * 1024 + i) / 1024 ≠ F := by omega
   have kept : (map_loop (F * 4096) flags (nsize r.size) s1 (r.vaddr &&& PT_PFNMASK)).ram Y = s1.ram Y :=
    map_loop_ram Y (by omega) (by rw [page_frame]; exact here) (by rw [page_frame]; exact next) _ _ _
   rw [at_congr kept lt,blank (by omega),r.dir_eq,freshBase,page_frame,page_frame,if_neg row,if_neg (words_apart lt idx ne)]
 have old : s.word (X * 4096) (PDE_IDX r.vaddr) = w := by rw [r.dir_eq,entry]
 have fixed := fix_pagedir_old (old.symm ▸ new)
 rw [old] at fixed
 refine ⟨_,_,(map_internal_iff new).mpr ⟨_,fixed,rfl⟩,new,?_,fun _ => ⟨rfl,by rw [r.masked]⟩⟩
 intro Y side i lt _
 have apart := stage.dirs.2 Y side
 have word := stage.word
 have word' := stage.word'
 have side' : w < 2^32 ∧ Y ≠ w / 4096 ∧ Y ≠ (w / 4096 + 1) % 2^20 := by
  rcases which with ⟨_,eq⟩ | ⟨_,eq⟩
  · rw [eq]
    exact ⟨word,apart.2.2.1,apart.2.2.2.1⟩
  rw [eq]
  exact ⟨word',apart.2.2.2.2⟩
 have kept : (map_loop w flags (nsize r.size) s (r.vaddr &&& PT_PFNMASK)).ram Y = s.ram Y :=
  map_loop_ram Y side'.1 side'.2.1 side'.2.2 _ _ _
 exact at_congr kept lt

end

/-! ### What is not mapped -/
section
variable {s s' : Machine} {dirs : List Nat} {pgdir t : Nat} {r : Request}
lemma Prior.sub {dirs' : List Nat} (prior : Prior s dirs) (subset : dirs' ⊆ dirs) : Prior s dirs' := by
 constructor
 · intro dir mem d lt ne0 ne mem'
   exact prior.outside dir (subset mem) d lt ne0 ne (subset mem')
 · intro dir mem ne mem'
   exact prior.once dir (subset mem) ne (subset mem')
 intro page s' got hit
 obtain ⟨al,word,apart⟩ := prior.fresh page s' got hit
 exact ⟨al,word,fun dir mem => apart dir (subset mem)⟩
lemma target_even {e : Nat} (even : e % 2 = 0) : target e = none := by
 rw [target_none,PAGE_PRESENT,Nat.and_one_is_mod]
 exact even
lemma not_mapped_entry {i : Nat} (lt : i < 1024) (low : r.first % 1024 ≤ i) (high : i < r.first % 1024 + r.count)
 (present : target (s'.word pgdir r.dir) = some t) (lost : target (s'.at (t * 1024 + i)) = none) :
 ¬ Mapped s s' dirs pgdir r := by
 intro map1
 have place : r.first / 1024 = r.dir := rfl
 have col : (r.dir * 1024 + i) % 1024 = i := by omega
 have hit := map1.identity (r.dir * 1024 + i) ((r.touches_iff _).mpr (by omega))
 rw [walk_present (by rw [row_eq lt]; exact present),col,lost] at hit
 cases hit
lemma not_mapped_absent (out : target (s'.word pgdir r.dir) = none) : ¬ Mapped s s' dirs pgdir r := by
 intro map1
 have bounds := r.bounds
 have hit := map1.identity r.first ((r.touches_iff _).mpr (by omega))
 have missing : ¬ HasTable s' pgdir (r.first * 4096) := by
  rw [hasTable_dir,not_not]
  exact target_none.mp out
 rw [walk_none missing] at hit
 cases hit
lemma not_mapped_next (across : 1024 < r.first % 1024 + r.count) (out : s'.word pgdir (r.dir + 1) = 0) :
 ¬ Mapped s s' dirs pgdir r := by
 intro map1
 have place : r.first / 1024 = r.dir := rfl
 have hit := map1.identity ((r.dir + 1) * 1024) ((r.touches_iff _).mpr (by omega))
 have missing : ¬ HasTable s' pgdir ((r.dir + 1) * 1024 * 4096) := by
  rw [hasTable_dir,not_not,Nat.mul_div_cancel _ (by norm_num),out,Nat.zero_and]
 rw [walk_none missing] at hit
 cases hit
lemma Request.next_lt (across : 1024 < r.first % 1024 + r.count) : r.dir + 1 < 1024 := by
 have bounds := r.bounds
 have place : r.first / 1024 = r.dir := rfl
 omega
lemma nocache_unmapped (r : Request) {w : Nat} (word : w < 2^32) (bad : ¬ (w = 0 ∧ r.Fits)) :
 ∃ s pgdir s', Prior s [pgdir] ∧ s.word pgdir r.dir = w ∧
  map_physical_memory_nocache s pgdir r.vaddr r.size = some (0,s') ∧ ¬ Mapped s s' [pgdir] pgdir r := by
 have bounds := r.bounds
 obtain ⟨F,K,C,stage⟩ := exists_stage word word
 have prior : Prior (staged F K C r.dir w w (fun _ => 0)) [C * 4096] := (staged_prior stage).sub (by simp)
 have entry : (staged F K C r.dir w w (fun _ => 0)).word (C * 4096) r.dir = w := by
  rw [staged_current stage,if_pos rfl]
 obtain ⟨pgtab,s',inner,hit,frame,old⟩ :=
  staged_internal (r := r) stage (PAGE_PUW ||| PAGE_PCD) (.inr ⟨rfl,rfl⟩) (fun _ => 0)
 refine ⟨_,_,s',prior,entry,nocache_iff.mpr ⟨pgtab,hit,inner⟩,?_⟩
 by_cases across : 1024 < r.first % 1024 + r.count
 · apply not_mapped_next across
   have next := r.next_lt across
   rw [word_at next,page_frame,frame C (.inr rfl) (r.dir + 1) next (.inr (by omega)),staged_blank stage next (by omega)]
 have within : r.first % 1024 + nsize r.size ≤ 1024 := by omega
 have idx := bounds.2.2.2
 by_cases new : w = 0
 · have more : nsize r.size < r.count := by
    have unfit : ¬ r.Fits := fun fits => bad ⟨new,fits⟩
    rw [r.fits_iff] at unfit
    omega
   obtain ⟨t,base,_,ground,words,case⟩ := internal_written prior (by simp) within (by rw [entry,new]) (by rw [entry]; exact word)
    inner hit
   obtain ⟨_,rfl⟩ | ⟨old,_⟩ := case
   · have ne := ground.apart (C * 4096) (by simp)
     have present : target (s'.word (C * 4096) r.dir) = some t := by
      rw [word_at idx,words,written_other within ne.symm idx,freshBase,if_neg (by omega),if_pos rfl]
      exact target_puw ground.low
     have lt : r.first % 1024 + nsize r.size < 1024 := by omega
     refine not_mapped_entry lt (by omega) (by omega) present ?_
     rw [words,written_outside (.inr (le_refl _)),freshBase,if_pos (row_eq lt),target_zero]
   · exact absurd (entry.trans new) old
 obtain ⟨_,after⟩ := old new
 obtain ⟨_,_,ne,behind,_⟩ := stage.dirs.2 C (.inr rfl)
 have kept : s'.ram C = (staged F K C r.dir w w (fun _ => 0)).ram C := by
  rw [after]
  exact map_loop_ram C word ne behind _ _ _
 have eq : s'.word (C * 4096) r.dir = w := by
  rw [<- entry,Machine.word,Machine.word,page_frame,kept]
 by_cases out : target w = none
 · exact not_mapped_absent (by rw [eq]; exact out)
 have present : w &&& PAGE_PRESENT ≠ 0 := fun zero => out (target_none.mpr zero)
 have flagged : w % 4096 ≠ 0 := fun plain => present (plain_absent plain)
 refine not_mapped_entry (i := r.first % 1024) (t := w / 4096) (by omega) (le_refl _) (by omega) ?_ ?_
 · rw [eq,target_word present word]
 apply target_even
 rw [after]
 apply map_loop_even word flagged _ _ _ (le_refl _) within (by omega)
 rw [staged_at (by omega) (stage.dirs.2 K (.inl rfl)).2.2.1.symm ne.symm]
lemma target_or_puw {w : Nat} (word : w < 2^32) : target (w ||| PAGE_PUW) = some (w / 4096) := by
 have present : (w ||| PAGE_PUW) &&& PAGE_PRESENT ≠ 0 := by
  rw [Nat.and_or_distrib_right,show PAGE_PUW &&& PAGE_PRESENT = 1 by decide]
  intro zero
  have := Nat.right_le_or (n := w &&& PAGE_PRESENT) (m := 1)
  omega
 have page : (w ||| PAGE_PUW) &&& PT_PFNMASK = w / 4096 * 4096 := by
  rw [Nat.and_or_distrib_right,show PAGE_PUW &&& PT_PFNMASK = 0 by decide,Nat.or_zero,pfnmask_eq word]
 rw [target,if_neg present,page,page_frame]
lemma staged_high {F K C kernel current : Nat} (stage : Stage F K C kernel current) (r : Request) (content : Nat -> Nat) :
 ∃ pgtab s1 s', map_internal (staged F K C r.dir kernel current content) (K * 4096) r.vaddr r.size PAGE_PUW = some (pgtab,s1) ∧
  pgtab ≠ 0 ∧ map_high_memory (staged F K C r.dir kernel current content) (C * 4096) r.vaddr r.size = some (0,s') ∧
  (∀ i < 1024, i ≠ r.dir -> s'.word (C * 4096) i = 0) ∧ s'.word (C * 4096) r.dir = pgtab ||| PAGE_PUW ∧
  (∀ page ≠ C, ∀ i < 1024, s'.at (page * 1024 + i) = s1.at (page * 1024 + i)) ∧
  (kernel ≠ 0 -> pgtab = kernel ∧
   s1 = map_loop kernel PAGE_PUW (nsize r.size) (staged F K C r.dir kernel current content) (r.first * 4096)) := by
 have idx := r.bounds.2.2.2
 obtain ⟨pgtab,s1,inner,hit,frame,old⟩ := staged_internal (r := r) stage PAGE_PUW (.inl ⟨rfl,rfl⟩) content
 refine ⟨pgtab,s1,s1.poke (C * 4096) (PDE_IDX r.vaddr) (pgtab ||| PAGE_PUW),inner,hit,
  high_iff.mpr ⟨pgtab,hit,s1,inner,rfl⟩,?_,?_,?_,old⟩
 · intro i lt ne
   rw [word_at lt,r.dir_eq,poke_at _ _ idx,page_frame,update_of_ne (words_apart lt idx (.inr ne)),
    frame C (.inr rfl) i lt (.inr ne),staged_blank stage lt ne]
 · rw [word_at idx,r.dir_eq,poke_at _ _ idx,update_self]
 intro page ne i lt
 rw [r.dir_eq,poke_at _ _ idx,page_frame,update_of_ne (words_apart lt idx (.inl ne))]
lemma outside_index (lt : r.first % 1024 + nsize r.size ≤ 1024) (part : nsize r.size ≠ 1024) :
 ∃ i < 1024, i < r.first % 1024 ∨ r.first % 1024 + nsize r.size ≤ i := by
 by_cases start : r.first % 1024 = 0
 · exact ⟨nsize r.size,by omega,.inr (by omega)⟩
 · exact ⟨0,by norm_num,.inl (by omega)⟩
lemma staged_plain {F K C kernel current : Nat} (stage : Stage F K C kernel current) (r : Request) (content : Nat -> Nat)
 (plain : kernel % 4096 = 0) (within : r.first % 1024 + nsize r.size ≤ 1024) :
 ∃ t s', map_high_memory (staged F K C r.dir kernel current content) (C * 4096) r.vaddr r.size = some (0,s') ∧
  target (s'.word (C * 4096) r.dir) = some t ∧
  ∀ i < 1024, i < r.first % 1024 ∨ r.first % 1024 + nsize r.size ≤ i ->
   s'.at (t * 1024 + i) = if kernel = 0 then 0 else content (kernel / 4096) := by
 have word := stage.word
 have entry : (staged F K C r.dir kernel current content).word (K * 4096) r.dir = kernel := by
  rw [staged_kernel,if_pos rfl]
 obtain ⟨pgtab,s1,s',inner,hit,ran,_,dir,kept,_⟩ := staged_high stage r content
 obtain ⟨t,base,rfl,ground,words,case⟩ := internal_written (staged_prior stage) (by simp) within (by rw [entry]; exact plain)
  (by rw [entry]; exact word) inner hit
 have low := ground.low
 have ne := ground.apart (C * 4096) (by simp)
 rw [page_frame] at ne
 refine ⟨t,s',ran,?_,?_⟩
 · rw [dir]
   exact target_puw low
 intro i lt out
 rw [kept t ne i lt,words,written_outside out]
 rw [entry] at case
 obtain ⟨new,rfl⟩ | ⟨ne0,rfl,place⟩ := case
 · rw [freshBase,if_pos (row_eq lt),if_pos new]
 have table : t = kernel / 4096 := by
  rw [place,tableOf,entry,pfnmask_eq word,page_frame]
 rw [if_neg ne0,table,
  staged_at lt (stage.dirs.2 K (.inl rfl)).2.2.1.symm (stage.dirs.2 C (.inr rfl)).2.2.1.symm]
lemma high_unmapped (r : Request) {kernel current : Nat} (word : kernel < 2^32) (word' : current < 2^32)
 (bad : ¬ (r.Fits ∧ Replaces r kernel current)) :
 ∃ s cr3 s', Prior s [s.KERN_PG_DIR_ADDR,cr3] ∧ s.word s.KERN_PG_DIR_ADDR r.dir = kernel ∧ s.word cr3 r.dir = current ∧
  map_high_memory s cr3 r.vaddr r.size = some (0,s') ∧ ¬ Mapped s s' [s.KERN_PG_DIR_ADDR,cr3] cr3 r := by
 obtain ⟨F,K,C,stage⟩ := exists_stage word word'
 -- The failure depends on what the page tables hold.
 suffices fails : ∃ content s', map_high_memory (staged F K C r.dir kernel current content) (C * 4096) r.vaddr r.size =
   some (0,s') ∧ ¬ Mapped (staged F K C r.dir kernel current content) s' [K * 4096,C * 4096] (C * 4096) r by
  obtain ⟨content,s',ran,unmapped⟩ := fails
  refine ⟨staged F K C r.dir kernel current content,C * 4096,s',staged_prior stage,?_,?_,ran,unmapped⟩
  · exact (staged_kernel r.dir).trans (if_pos rfl)
  · exact (staged_current stage r.dir).trans (if_pos rfl)
 have bounds := r.bounds
 by_cases across : 1024 < r.first % 1024 + r.count
 · obtain ⟨_,_,s',_,_,ran,blank,_⟩ := staged_high stage r (fun _ => 0)
   have next := r.next_lt across
   exact ⟨_,s',ran,not_mapped_next across (blank _ next (by omega))⟩
 have within : r.first % 1024 + nsize r.size ≤ 1024 := by omega
 by_cases flagged : kernel % 4096 ≠ 0
 · obtain ⟨pgtab,s1,s',_,_,ran,_,dir,kept,old⟩ := staged_high stage r (fun _ => 0)
   obtain ⟨eq,after⟩ := old (by omega)
   have apart := (stage.dirs.2 C (.inr rfl)).2.2.1
   refine ⟨_,s',ran,not_mapped_entry (i := r.first % 1024) (t := kernel / 4096) (by omega) (le_refl _) (by omega) ?_ ?_⟩
   · rw [dir,eq,target_or_puw word]
   apply target_even
   rw [kept _ apart.symm _ (by omega),after]
   apply map_loop_even word flagged _ _ _ (le_refl _) within (by omega)
   rw [staged_at (by omega) (stage.dirs.2 K (.inl rfl)).2.2.1.symm apart.symm]
 have plain : kernel % 4096 = 0 := not_not.mp flagged
 by_cases more : nsize r.size < r.count
 · obtain ⟨t,s',ran,present,rest⟩ := staged_plain stage r (fun _ => 0) plain within
   have lt : r.first % 1024 + nsize r.size < 1024 := by omega
   refine ⟨_,s',ran,not_mapped_entry lt (by omega) (by omega) present ?_⟩
   rw [rest _ lt (.inr (le_refl _)),ite_self,target_zero]
 have fits : r.Fits := by
  rw [r.fits_iff]
  omega
 have unlike : ¬ Replaces r kernel current := fun replaces => bad ⟨fits,replaces⟩
 rw [Replaces,not_and,not_or,not_or] at unlike
 obtain ⟨part,noNew,noOld⟩ := unlike plain
 obtain ⟨i,lt,out⟩ := outside_index within part
 have same : ¬ r.Touches (r.dir * 1024 + i) := by
  have place : r.first / 1024 = r.dir := rfl
  rw [r.touches_iff]
  omega
 have low : r.dir * 1024 + i < 2^20 := by omega
 have entry (content : Nat -> Nat) : (staged F K C r.dir kernel current content).word (C * 4096) r.dir = current := by
  rw [staged_current stage,if_pos rfl]
 have table (content : Nat -> Nat) : (staged F K C r.dir kernel current content).at (current / 4096 * 1024 + i) =
   content (current / 4096) :=
  staged_at lt (stage.dirs.2 K (.inl rfl)).2.2.2.2.1.symm (stage.dirs.2 C (.inr rfl)).2.2.2.2.1.symm
 by_cases new : kernel = 0
 · -- The page table of the current address space is lost.
   have present : current &&& PAGE_PRESENT ≠ 0 := fun gone => noNew ⟨new,gone⟩
   obtain ⟨t,s',ran,link,rest⟩ := staged_plain stage r (fun page => if page = current / 4096 then 1 else 0) plain within
   refine ⟨_,s',ran,?_⟩
   intro map1
   have eq := map1.others (C * 4096) (by simp) _ low same
   rw [entry_region lt link,rest i lt out,if_pos new,
    entry_region lt (by rw [entry]; exact target_word present word'),table,if_pos rfl] at eq
   cases eq
 -- The page table of the kernel comes in its place.
 obtain ⟨t,s',ran,link,rest⟩ := staged_plain stage r (fun page => if page = kernel / 4096 then 2 else 0) plain within
 refine ⟨_,s',ran,?_⟩
 intro map1
 have eq := map1.others (C * 4096) (by simp) _ low same
 rw [entry_region lt link,rest i lt out,if_neg new,if_pos rfl] at eq
 by_cases gone : current &&& PAGE_PRESENT = 0
 · rw [entry_region_absent lt (by rw [entry]; exact gone)] at eq
   cases eq
 have ne : current / 4096 ≠ kernel / 4096 := by
  intro equal
  exact noOld ⟨new,by rw [target_word gone word',equal]⟩
 rw [entry_region lt (by rw [entry]; exact target_word gone word'),table,if_neg ne] at eq
 cases eq

end
theorem identity_iff (r : Request) (kernel current : BitVec 32) :
 ((∀ s pgdir, Prior s [pgdir] -> s.word pgdir r.dir = current.toNat ->
   ∀ s', map_physical_memory_nocache s pgdir r.vaddr r.size = some (0,s') -> Mapped s s' [pgdir] pgdir r) ↔
  current.toNat = 0 ∧ r.Fits) ∧
 ((∀ s cr3, Prior s [s.KERN_PG_DIR_ADDR,cr3] -> s.word s.KERN_PG_DIR_ADDR r.dir = kernel.toNat ->
   s.word cr3 r.dir = current.toNat ->
   ∀ s', map_high_memory s cr3 r.vaddr r.size = some (0,s') -> Mapped s s' [s.KERN_PG_DIR_ADDR,cr3] cr3 r) ↔
  r.Fits ∧ Replaces r kernel.toNat current.toNat) := by
 refine ⟨⟨?_,?_⟩,?_,?_⟩
 · intro always
   by_contra bad
   obtain ⟨s,pgdir,s',prior,entry,called,unmapped⟩ := nocache_unmapped r current.isLt bad
   exact unmapped (always s pgdir prior entry s' called)
 · rintro ⟨zero,fits⟩ s pgdir prior entry s' called
   exact nocache_mapped prior fits (entry.trans zero) called
 · intro always
   by_contra bad
   obtain ⟨s,cr3,s',prior,entry,entry',called,unmapped⟩ := high_unmapped r kernel.isLt current.isLt bad
   exact unmapped (always s cr3 prior entry entry' s' called)
 rintro ⟨fits,replaces⟩ s cr3 prior entry entry' s' called
 refine high_mapped rfl prior fits ?_ ?_ called
 · rw [entry,entry']
   exact replaces
 rw [entry]
 exact kernel.isLt
def blankTable : Machine := staged 3 1 2 896 0x7007 0x7007 (fun _ => 0)
theorem page_not_mapped : Prior blankTable [0x2000] ∧
 (map_physical_memory_nocache blankTable 0x2000 0xe0000000 0x1000).map
  (fun (error,s) => (error,walk s 0x2000 0xe0000000,s.at 0x1c01,s.at 0x1c02)) =
  some (0,none,0x17000000,0xe00000) := by
 constructor
 · have stage : Stage 3 1 2 0x7007 0x7007 := by
    refine ⟨by decide,by decide,by decide,by decide,by decide,?_⟩
    rintro X (rfl | rfl)
    · decide
    · decide
   exact (staged_prior stage).sub (by simp)
 · decide +kernel

end Netbas.IdentityMaps
