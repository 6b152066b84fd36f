import Netbas.PageSharing

/-!
The address translations of `cpu/i386/mm/utils.c`, which take directory entries for page tables or
follow them once too often. `translates_iff` states when the answers are right, and
`translates_all_iff` that no page table makes sure of it.
-/
namespace Netbas.Translation
open Frames Paging PageTables PageSharing
def PGOFF (vaddr : Nat) : Nat := vaddr % 4096
def PTAB2IDX (vaddr : Nat) : Nat := vaddr / 4096
section
variable (s : Machine)
def peek32 (addr : Nat) : Nat :=
 let low := 2 ^ (8 * (addr % 4))
 let next := (addr / 4 + 1) % 2^30
 if addr % 4 = 0 then s.at (addr / 4) else s.at (addr / 4) / low + s.at next % low * (2^32 / low)
def tabEntry (pdir vaddr : Nat) : Nat := s.at ((pdir / 4 + PDE_IDX vaddr + PTAB2IDX vaddr) % 2^30)
def page_mapped (pdir vaddr : Nat) : Nat :=
 if s.word pdir (PDE_IDX vaddr) &&& PAGE_PRESENT = 0 then 0
 else if tabEntry s pdir vaddr &&& PAGE_PRESENT = 0 then 0
 else 1
def virt2phys (cr3 vaddr : Nat) : Nat := (tabEntry s cr3 vaddr &&& PT_PFNMASK) + PGOFF vaddr
def lastEntry (cr3 page_table : Nat) : Nat :=
 peek32 s ((peek32 s (s.word cr3 (PDE_IDX page_table)) &&& PT_PFNMASK) + (page_table >>> 10 &&& 0xffc))
def page_vtophys (cr3 page_table : Nat) : Nat :=
 (lastEntry s cr3 page_table &&& PT_PFNMASK) ||| (page_table &&& 0xfff)
end
structure Translates (s : Machine) (pdir vaddr : Nat) : Prop where
 mapped : page_mapped s pdir vaddr = 1 ↔ (walk s pdir vaddr).isSome
 address : ∀ p, walk s pdir vaddr = some p ->
  page_vtophys s pdir vaddr = p * 4096 + PGOFF vaddr ∧ virt2phys s pdir vaddr = p * 4096 + PGOFF vaddr

/-- The words that are read in place of the page table entry are present when it is and
  then refer to the same page. -/
def Agrees (s : Machine) (pdir vaddr : Nat) : Prop :=
 (tabEntry s pdir vaddr &&& PAGE_PRESENT = 0 ↔ pte s pdir vaddr &&& PAGE_PRESENT = 0) ∧
  (pte s pdir vaddr &&& PAGE_PRESENT ≠ 0 ->
   tabEntry s pdir vaddr &&& PT_PFNMASK = pte s pdir vaddr &&& PT_PFNMASK ∧
    lastEntry s pdir vaddr &&& PT_PFNMASK = pte s pdir vaddr &&& PT_PFNMASK)

section
variable {s : Machine} {pdir vaddr : Nat}
lemma page_vtophys_eq (s : Machine) (cr3 vaddr : Nat) :
 page_vtophys s cr3 vaddr = (lastEntry s cr3 vaddr &&& PT_PFNMASK) + PGOFF vaddr := by
 have offset : vaddr &&& 0xfff = vaddr % 4096 := Nat.and_two_pow_sub_one_eq_mod vaddr 12
 rw [page_vtophys,PGOFF,offset,<- masked_page,Nat.mul_comm]
 exact (Nat.two_pow_add_eq_or_of_lt (i := 12) (Nat.mod_lt _ (by norm_num)) _).symm
lemma translates_absent (gone : ¬ HasTable s pdir vaddr) : Translates s pdir vaddr := by
 have none := walk_none gone
 constructor
 · rw [HasTable,not_not] at gone
   rw [page_mapped,if_pos gone,none]
   simp
 intro p hit
 rw [none] at hit
 cases hit

section
variable (table : HasTable s pdir vaddr)
include table
lemma page_mapped_eq :
 page_mapped s pdir vaddr = 1 ↔ tabEntry s pdir vaddr &&& PAGE_PRESENT ≠ 0 := by
 rw [page_mapped,if_neg table]
 split_ifs with gone
 · simp [gone]
 · simp [gone]
lemma walk_isSome :
 (walk s pdir vaddr).isSome ↔ pte s pdir vaddr &&& PAGE_PRESENT ≠ 0 := by
 rw [walk_pte table,target]
 split_ifs with gone
 · simp [gone]
 · simp [gone]
lemma translates_present : Translates s pdir vaddr ↔ Agrees s pdir vaddr := by
 constructor
 · rintro ⟨map1,addr⟩
   rw [page_mapped_eq table,walk_isSome table,not_iff_not] at map1
   refine ⟨map1,?_⟩
   intro present
   obtain ⟨vtophys,phys⟩ := addr _ (by rw [walk_pte table,target,if_neg present])
   rw [page_vtophys_eq,masked_page] at vtophys
   rw [virt2phys,masked_page] at phys
   exact ⟨Nat.add_right_cancel phys,Nat.add_right_cancel vtophys⟩
 rintro ⟨map1,pages⟩
 constructor
 · rw [page_mapped_eq table,walk_isSome table,not_iff_not]
   exact map1
 intro p hit
 have present : pte s pdir vaddr &&& PAGE_PRESENT ≠ 0 := by
  rw [<- walk_isSome table,hit]
  rfl
 obtain ⟨stray,last⟩ := pages present
 rw [walk_pte table,target,if_neg present] at hit
 cases hit
 rw [page_vtophys_eq,virt2phys,stray,last,masked_page]
 exact ⟨rfl,rfl⟩
end

end
theorem translates_iff (s : Machine) (pdir vaddr : Nat) :
 Translates s pdir vaddr ↔ ¬ HasTable s pdir vaddr ∨ Agrees s pdir vaddr := by
 by_cases table : HasTable s pdir vaddr
 · rw [translates_present table]
   simp [table]
 · simp [table,translates_absent table]

variable (words : Nat -> Nat)
def holding : Machine where
 map := memory_slot_init 0 0 (fun _ => ⟨0,0,0⟩) 1
 KERN_PG_DIR_ADDR := 0
 ram := fun page i => words (page * 1024 + i)
 procs := []
lemma holding_at : (holding words).at = words := by
 funext pos
 have whole : pos / 1024 * 1024 + pos % 1024 = pos := by omega
 rw [Machine.at,holding]
 dsimp only
 rw [whole]

section
variable {pdir vaddr w : Nat}
lemma tabEntry_apart (low : vaddr < 2^32) (aligned : pdir % 4096 = 0) (dir : pdir < 2^32) (word : w < 2^32)
 (out : w / 4096 ≠ pdir / 4096) :
 (pdir / 4 + PDE_IDX vaddr + PTAB2IDX vaddr) % 2^30 ≠ w / 4096 * 1024 + PTE_IDX vaddr := by
 have index : PDE_IDX vaddr = PTAB2IDX vaddr / 1024 := by
  rw [PDE_IDX,PTAB2IDX]
  omega
 have small : PTAB2IDX vaddr < 2^20 := by
  rw [PTAB2IDX]
  omega
 have rest : PTE_IDX vaddr = PTAB2IDX vaddr % 1024 := rfl
 rw [index,rest]
 generalize PTAB2IDX vaddr = page at small
 omega
theorem translates_all_iff (low : vaddr < 2^32) (aligned : pdir % 4096 = 0) (dir : pdir < 2^32) (word : w < 2^32)
 (out : w / 4096 ≠ pdir / 4096) :
 (∀ s, s.word pdir (PDE_IDX vaddr) = w -> Translates s pdir vaddr) ↔ w &&& PAGE_PRESENT = 0 := by
 constructor
 · intro always
   by_contra present
   have index : PDE_IDX vaddr < 1024 := by
    rw [PDE_IDX]
    omega
   have entry : PTE_IDX vaddr < 1024 := Nat.mod_lt _ (by norm_num)
   have ne := tabEntry_apart low aligned dir word out
   have table : w / 4096 * 1024 + PTE_IDX vaddr ≠ pdir / 4096 * 1024 + PDE_IDX vaddr := by omega
   obtain ⟨first,here⟩ : ∃ first, pdir / 4096 * 1024 + PDE_IDX vaddr = first := ⟨_,rfl⟩
   rw [here] at table
   obtain ⟨stray,read⟩ : ∃ stray, (pdir / 4 + PDE_IDX vaddr + PTAB2IDX vaddr) % 2^30 = stray := ⟨_,rfl⟩
   rw [read] at ne
   -- The entry is present exactly when the word that is read is not.
   let words : Nat -> Nat := fun pos =>
    if pos = first then w else if pos = w / 4096 * 1024 + PTE_IDX vaddr then (if stray = first then 0 else 1) else 0
   have known : (holding words).word pdir (PDE_IDX vaddr) = w := by
    rw [word_at index,holding_at,here]
    exact if_pos rfl
   have hasTable : HasTable (holding words) pdir vaddr := by
    rw [HasTable,known]
    exact present
   have slotIs : slot (holding words) pdir vaddr = w / 4096 * 1024 + PTE_IDX vaddr := by
    rw [slot,known,masked_word,pfnmask_eq word,Nat.mul_div_cancel _ (by norm_num)]
   have value : pte (holding words) pdir vaddr = if stray = first then 0 else 1 := by
    rw [pte,slotIs,holding_at]
    exact (if_neg table).trans (if_pos rfl)
   have readIs : tabEntry (holding words) pdir vaddr = words stray := by
    rw [tabEntry,holding_at,read]
   obtain ⟨eq,_⟩ := (translates_present hasTable).mp (always _ known)
   rw [readIs,value] at eq
   by_cases own : stray = first
   · have held : words stray = w := if_pos own
     rw [held,if_pos own,Nat.zero_and] at eq
     exact present (eq.mpr rfl)
   have held : words stray = 0 := (if_neg own).trans (if_neg ne)
   rw [held,if_neg own,Nat.zero_and] at eq
   exact absurd (eq.mp rfl) (by decide)
 intro absent s known
 apply translates_absent
 rw [HasTable,not_not,known]
 exact absent

end
theorem translates_all_present :
 ¬ ∀ s : Machine, s.word 0x2000 (PDE_IDX 0xe0000123) = 0x7007 -> Translates s 0x2000 0xe0000123 := by
 rw [translates_all_iff (by decide) (by decide) (by decide) (by decide) (by decide)]
 decide
def onePage : Machine := holding (fun pos => if pos = 0xb80 then 0x7007 else if pos = 0x1c00 then 0x5007 else 0)
theorem mapped_not_found : walk onePage 0x2000 0xe0000123 = some 5 ∧ page_mapped onePage 0x2000 0xe0000123 = 0 ∧
 page_vtophys onePage 0x2000 0xe0000123 = 0x123 ∧ virt2phys onePage 0x2000 0xe0000123 = 0x123 := by
 decide +kernel

end Netbas.Translation
