import Netbas.Frames

/-!
The page tables of `cpu/i386/mm`. Memory is an array of 32-bit words, addressed by page and index,
in which the tables stand. A process is known by its `proc_cr3`, and there is no translation cache.
`none` stands for a panic.
-/
namespace Netbas.Paging
open Frames
open Function (update)
def PAGE_PRESENT : Nat := 0x001
def PAGE_WRITABLE : Nat := 0x002
def PAGE_USER : Nat := 0x004
def PAGE_ACCESSED : Nat := 0x020
def PAGE_PUW : Nat := PAGE_PRESENT ||| PAGE_WRITABLE ||| PAGE_USER
def PDE_IDX (addr : Nat) : Nat := addr / 2^22
def PTE_IDX (addr : Nat) : Nat := addr / 2^12 % 1024
structure Machine where
 map : PageMap
 KERN_PG_DIR_ADDR : Nat
 ram : Nat -> Nat -> Nat
 procs : List Nat

variable (s : Machine)
namespace Machine
def word (addr idx : Nat) : Nat := s.ram (addr / 4096) idx
def poke (addr idx word : Nat) : Machine :=
 {s with ram := update s.ram (addr / 4096) (update (s.ram (addr / 4096)) idx word)}
def fill (addr : Nat) (content : Nat -> Nat) : Machine :=
 {s with ram := update s.ram (addr / 4096) content}
def count (s : Machine) (addr : Nat) : Int := s.map.count (s.map.MAP_NR addr)
def addCount (addr : Nat) (change : Int) : Machine :=
 {s with map := s.map.setCount (s.map.MAP_NR addr) (s.count addr + change)}
def get_page (s : Machine) : Option (Nat × Machine) :=
 (Frames.get_page s.map).map (fun (addr,map) => (addr,{s with map := map}))
def free_page (s : Machine) (addr : Nat) : Machine := {s with map := (Frames.free_page s.map addr).2}

end Machine
def fix_pagedir_not_present (pdir vaddr : Nat) : Option (Nat × Machine) :=
 let mypage := s.word pdir (PDE_IDX vaddr)
 if mypage ≠ 0 then some (mypage,s)
 else
  match s.get_page with
  | none => none
  | some (mypage,s) =>
   if mypage = 0 then some (0,s)
   else some (mypage,(s.poke pdir (PDE_IDX vaddr) (mypage ||| PAGE_PUW)).fill mypage (fun _ => 0))
def map_proc (cr3 : Nat) : Option Machine :=
 (List.range 384).foldlM
  (fun s i => (fix_pagedir_not_present s cr3 (USER_SPACE_ADDR + i * 0x400000)).map Prod.snd) s
def arch_cr3_init : Option (Nat × Machine) :=
 match s.get_page with
 | none => none
 | some (cr3,s) =>
  if cr3 = 0 then some (0,s)
  else some (cr3,s.fill cr3 (fun i => if 512 ≤ i ∧ i < 896 then 0 else s.word s.KERN_PG_DIR_ADDR i))
def arch_proc_init : Option (Nat × Machine) :=
 match arch_cr3_init s with
 | none => none
 | some (cr3,s) =>
  if cr3 = 0 then some (0,s)
  else (map_proc {s with procs := cr3 :: s.procs} cr3).map (fun s => (cr3,s))
def copy_entry (from_pgtab to_pgtab : Nat) (s : Machine) (i : Nat) : Machine :=
 let this_page := s.word from_pgtab i
 if this_page &&& PAGE_PRESENT = 0 then s
 else
  let this_page := this_page &&& 0xffffff00 ||| (PAGE_ACCESSED ||| PAGE_USER ||| PAGE_PRESENT)
  ((s.poke to_pgtab i this_page).poke from_pgtab i this_page).addCount this_page 1
def copy_pagedir (current_cr3 new_cr3 addr : Nat) : Option Machine :=
 if s.word current_cr3 (PDE_IDX addr) &&& PAGE_PRESENT = 0 then some s
 else
  let found : Option (Nat × Machine) :=
   if s.word new_cr3 (PDE_IDX addr) &&& PAGE_PRESENT = 0 then
    -- The source goes on with the table itself in place of its directory entry.
    (fix_pagedir_not_present s new_cr3 addr).map (fun (to_pgdir,s) => (s.word to_pgdir (to_pgdir % 4096 / 4),s))
   else some (s.word new_cr3 (PDE_IDX addr),s)
  found.map (fun (entry,s) =>
   (List.range 1024).foldl
    (copy_entry (s.word current_cr3 (PDE_IDX addr) &&& PT_PFNMASK) (entry &&& PT_PFNMASK)) s)
def copy_proc_code (current_cr3 new_cr3 : Nat) : Option Machine :=
 (List.range 384).foldlM (fun s i => copy_pagedir s current_cr3 new_cr3 (USER_SPACE_ADDR + i * 0x400000)) s
def fork (current_cr3 : Nat) : Option Machine :=
 match arch_proc_init s with
 | none => none
 | some (cr3,s) => if cr3 = 0 then some s else copy_proc_code s current_cr3 cr3
def un_swap_page (table idx : Nat) : Option Machine :=
 let entry := s.word table idx
 let oldpg := entry &&& PT_PFNMASK
 if oldpg ≥ s.map.LOW_MEM ∧ s.count oldpg = 1 then
  let entry := entry ||| PAGE_WRITABLE
  some (s.poke table idx (if entry &&& PAGE_ACCESSED ≠ 0 then entry &&& 0xffffffdf else entry))
 else
  match s.get_page with
  | none => none
  | some (newpg,s) =>
   let s := if oldpg ≥ s.map.LOW_MEM then s.addCount oldpg (-1) else s
   let s := s.poke table idx (newpg ||| PAGE_PUW)
   some (s.fill newpg (s.ram (oldpg / 4096)))
def do_swap_page (cr3 addr : Nat) : Option Machine :=
 un_swap_page s (s.word cr3 (PDE_IDX addr) &&& PT_PFNMASK) (PTE_IDX addr)
section
variable (cr3 vaddr : Nat)
def write_verify : Option (Int × Machine) :=
 let page := s.word cr3 (PDE_IDX vaddr)
 if page &&& PAGE_PRESENT = 0 then some (-1,s)
 else if 3 &&& s.word (page &&& PT_PFNMASK) (PTE_IDX vaddr) = PAGE_PRESENT then
  (un_swap_page s (page &&& PT_PFNMASK) (PTE_IDX vaddr)).map (fun s => (0,s))
 else some (0,s)
def verify_pages (cr3 : Nat) : Nat -> Machine -> Nat -> Option (Int × Machine)
 | 0, s, _ => some (0,s)
 | rounds + 1, s, start =>
  match write_verify s cr3 start with
  | none => none
  | some (error,s) => if error ≠ 0 then some (-1,s) else verify_pages cr3 rounds s ((start + 4096) % 2^32)
def mem_writeable (cr3 vaddr size : Nat) : Option (Int × Machine) :=
 verify_pages cr3 ((size + vaddr % 4096 + 4095) / 4096) s (vaddr / 4096 * 4096)
def put_one_page (cr3 page vaddr : Nat) : Option (Int × Machine) :=
 if CHECK_PHY_PAGE s.map page ≠ 0 then some (-1,s)
 else if s.count page ≠ 1 then some (-2,s)
 else if s.word cr3 (PDE_IDX vaddr) &&& PAGE_PRESENT ≠ 0 then
  some (0,s.poke (s.word cr3 (PDE_IDX vaddr) &&& PT_PFNMASK) (PTE_IDX vaddr) (page ||| PAGE_PUW))
 else if vaddr > USER_SPACE_ADDR then
  (fix_pagedir_not_present s cr3 vaddr).map (fun (pgtab,s) => (0,s.poke pgtab (PTE_IDX vaddr) (page ||| PAGE_PUW)))
 else some (-3,s)
def do_no_page : Option (Int × Machine) :=
 match s.get_page with
 | none => none
 | some (page,s) => put_one_page s cr3 page vaddr
def remove_entry (pgtab : Nat) (s : Machine) (i : Nat) : Machine :=
 let entry := s.word pgtab i
 let s := if entry &&& PAGE_PRESENT ≠ 0 then s.free_page (entry &&& PT_PFNMASK) else s
 s.poke pgtab i 0
def remove_pagedir (removedir : Bool) : Machine :=
 let pgdir := s.word cr3 (PDE_IDX vaddr)
 if pgdir &&& PAGE_PRESENT = 0 then s
 else
  let s := (List.range 1024).foldl (remove_entry (pgdir &&& PT_PFNMASK)) s
  if removedir then (s.free_page (pgdir &&& PT_PFNMASK)).poke cr3 (PDE_IDX vaddr) 0 else s
def unmap_proc (cr3 : Nat) (removedir : Bool) : Machine :=
 let s := (List.range 384).foldl (fun s i => remove_pagedir s cr3 (USER_SPACE_ADDR + i * 0x400000) removedir) s
 if removedir then {s.free_page cr3 with procs := s.procs.erase cr3} else s
def map_page_dir (pgdir form_addr : Nat) : Option (Int × Machine) :=
 match s.get_page with
 | none => none
 | some (page,s) =>
  if page = 0 then some (-1,s)
  else if s.word pgdir (form_addr / 2^22) ≠ 0 then some (-1,s)
  else some (0,(s.fill page (fun i => (form_addr + i * 4096) % 2^32 ||| PAGE_PUW)).poke pgdir (PDE_IDX form_addr)
   (page ||| PAGE_PUW))
def Machine.at (pos : Nat) : Nat := s.ram (pos / 1024) (pos % 1024)
def Machine.put (pos word : Nat) : Machine := s.poke (pos / 1024 * 4096) (pos % 1024) word
def copy_page (dest src n : Nat) : Machine :=
 (List.range n).foldl (fun s i => s.put (dest + i) (s.at (src + i))) s
def attach_pages (pgdir pages : Nat) : Nat -> Machine -> Nat -> Nat -> Nat -> Int × Machine
 | 0, s, _, _, _ => (0,s)
 | rounds + 1, s, left, form_addr, to_addr =>
  if left < pages then
   let cnt := min pages (1024 - PTE_IDX form_addr)
   if s.word pgdir (PDE_IDX form_addr) &&& PAGE_PRESENT = 0 then (-1,s)
   else
    let pagedest := (s.word pgdir (PDE_IDX to_addr) &&& PT_PFNMASK) / 4 + PTE_IDX to_addr
    let pagesrc := (s.word pgdir (PDE_IDX form_addr) &&& PT_PFNMASK) / 4 + PTE_IDX form_addr
    attach_pages pgdir pages rounds (copy_page s pagedest pagesrc cnt) (left + cnt)
     ((form_addr + cnt * 4096) % 2^32) ((to_addr + cnt * 4096) % 2^32)
  else (0,s)
section
variable (pgdir form_addr to_addr pages : Nat)
def attach_share_page : Int × Machine :=
 attach_pages pgdir pages pages s 0 form_addr to_addr
def map_to : Option (Int × Machine) :=
 let form_addr := form_addr / 4096 * 4096
 let to_addr := to_addr / 4096 * 4096
 let found : Option (Int × Machine) :=
  if s.word pgdir (PDE_IDX form_addr) &&& PAGE_PRESENT = 0 then map_page_dir s pgdir form_addr else some (0,s)
 match found with
 | none => none
 | some (error,s) =>
  if error ≠ 0 then some (error,s)
  else
   match fix_pagedir_not_present s pgdir to_addr with
   | none => none
   | some (pagedest,s) => if pagedest = 0 then some (-1,s) else some (attach_share_page s pgdir form_addr to_addr pages)
end
def unmap_entry (page : Nat) (s : Machine) (i : Nat) : Machine :=
 (if s.at (page + i) ≠ 0 then s.free_page (s.at (page + i)) else s).put (page + i) 0

/-- The entries are counted from the start of the page table. -/
def unmap_user_pages (pgdir form_addr pages : Nat) : Machine :=
 if s.word pgdir (PDE_IDX (form_addr / 4096 * 4096)) = 0 then s
 else (List.range pages).foldl (unmap_entry ((s.word pgdir (PDE_IDX form_addr) &&& PT_PFNMASK) / 4)) s
def target (entry : Nat) : Option Nat :=
 if entry &&& PAGE_PRESENT = 0 then none else some ((entry &&& PT_PFNMASK) / 4096)
def entryOf : Option (Nat × Nat) :=
 (target (s.word cr3 (PDE_IDX vaddr))).map (fun table => (table,PTE_IDX vaddr))
def walk : Option Nat :=
 (entryOf s cr3 vaddr).bind (fun (table,i) => target (s.ram table i))
def load : Option Nat :=
 (walk s cr3 vaddr).map (fun page => s.ram page (vaddr / 4 % 1024))
end
def store (cr3 vaddr value : Nat) : Option Machine :=
 (walk s cr3 vaddr).map (fun page => s.poke (page * 4096) (vaddr / 4 % 1024) value)

/-- A store of the user to a mapped page: when the entry is read-only, the store
  faults into `do_swap_page` and is tried again. -/
def user_store (cr3 vaddr value : Nat) : Option Machine :=
 match entryOf s cr3 vaddr with
 | none => none
 | some (table,i) =>
  if target (s.ram table i) = none then none
  else if s.ram table i &&& PAGE_WRITABLE ≠ 0 then store s cr3 vaddr value
  else (do_swap_page s cr3 vaddr).bind (fun s => store s cr3 vaddr value)
def wordsOf (vaddr size : Nat) : List Nat := (List.range' (vaddr / 4) ((vaddr + size + 3) / 4 - vaddr / 4)).map (· * 4)
def kernel_store (cr3 vaddr size : Nat) (value : Nat -> Nat) : Option Machine :=
 match mem_writeable s cr3 vaddr size with
 | none => none
 | some (error,s) =>
  if error ≠ 0 then none else (wordsOf vaddr size).foldlM (fun s addr => store s cr3 addr (value addr)) s

end Netbas.Paging
