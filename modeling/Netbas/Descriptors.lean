import Mathlib.Tactic

/-!
The limits of segment descriptors (`task.c`). What `set_desc_limit` stores is right
(`store_limit_spans`), and is never read back (`limits_never_read_back`).
-/
namespace Netbas.Descriptors
open Function
structure sys_desc where
 limit_low : BitVec 16
 base_low : BitVec 16
 base_middle : BitVec 8
 access : BitVec 8
 granularity : BitVec 8
 base_high : BitVec 8
deriving DecidableEq, Repr

variable (_seg : sys_desc)
def store_limit (size : BitVec 32) : sys_desc :=
 let size := size - 1
 let _seg :=
  if size > 0xFFFFF then
   {_seg with limit_low := (size >>> 12).setWidth 16, granularity := 0x80#8 ||| (size >>> 28).setWidth 8}
  else {_seg with limit_low := size.setWidth 16, granularity := (size >>> 16).setWidth 8}
 {_seg with granularity := _seg.granularity ||| 0x40#8}
def set_desc (base size : BitVec 32) (type : BitVec 8) : sys_desc :=
 let _seg := { _seg with
  base_low := base.setWidth 16
  base_middle := (base >>> 16).setWidth 8
  base_high := (base >>> 24).setWidth 8 }
 {store_limit _seg size with access := type}
def get_desc_seg_limit : BitVec 32 :=
 (_seg.granularity.setWidth 32 <<< 16) ||| (_seg.limit_low.setWidth 32 <<< 12)
abbrev Gdt := Nat -> sys_desc
variable (gdt : Gdt)
def sel_to_ldt_index (sel : BitVec 16) : Option Nat :=
 if sel &&& 0x4 = 0 then
  let sel := sel.toNat / 8
  if sel < 256 ∧ (gdt sel).access ≠ 0 then some sel else none
 else none

/-- Without an index, the one that is used is undefined. -/
def set_desc_limit (mydesc : BitVec 16) (size : BitVec 32) : Option Gdt :=
 (sel_to_ldt_index gdt mydesc).map (fun idx => update gdt idx (store_limit (gdt idx) size))
def get_desc_limit (mydesc : BitVec 16) : Option (BitVec 32) :=
 (sel_to_ldt_index gdt mydesc).map (fun idx => get_desc_seg_limit (gdt idx))

/-- The limit by the rule of the processor: 20 bits, and in pages when the bit `G` is set. -/
def decoded (d : sys_desc) : Nat :=
 let limit := d.limit_low.toNat + 65536 * (d.granularity.toNat % 16)
 if d.granularity.getLsbD 7 then limit * 4096 + 4095 else limit

/-- The limit covers the last offset of the size and ends less than a page after it. -/
def Spans (d : sys_desc) (size : BitVec 32) : Prop :=
 (size - 1).toNat ≤ decoded d ∧ decoded d < (size - 1).toNat + 4096

variable {size : BitVec 32}
lemma store_limit_pages (large : size - 1 > 0xFFFFF) :
 (store_limit _seg size).limit_low.toNat = (size - 1).toNat / 4096 % 65536 ∧
 (store_limit _seg size).granularity = (0x80#8 ||| ((size - 1) >>> 28).setWidth 8) ||| 0x40#8 := by
 simp only [store_limit,if_pos large,and_true]
 rw [BitVec.toNat_setWidth,BitVec.toNat_ushiftRight,Nat.shiftRight_eq_div_pow]
lemma store_limit_bytes (small : ¬size - 1 > 0xFFFFF) :
 (store_limit _seg size).limit_low.toNat = (size - 1).toNat % 65536 ∧
 (store_limit _seg size).granularity = ((size - 1) >>> 16).setWidth 8 ||| 0x40#8 := by
 simp only [store_limit,if_neg small,and_true]
 exact BitVec.toNat_setWidth _ _
lemma flags_page : ∀ n : Nat, n < 16 -> (((0x80#8 ||| BitVec.ofNat 8 n) ||| 0x40#8).toNat % 16 = n) ∧
 ((0x80#8 ||| BitVec.ofNat 8 n) ||| 0x40#8).getLsbD 7 = true := by
 decide
lemma flags_byte : ∀ n : Nat, n < 16 -> ((BitVec.ofNat 8 n ||| 0x40#8).toNat % 16 = n) ∧
 (BitVec.ofNat 8 n ||| 0x40#8).getLsbD 7 = false := by
 decide
lemma shifted (x : BitVec 32) (k : Nat) : (x >>> k).setWidth 8 = BitVec.ofNat 8 (x.toNat / 2 ^ k) := by
 apply BitVec.eq_of_toNat_eq
 rw [BitVec.toNat_setWidth,BitVec.toNat_ushiftRight,Nat.shiftRight_eq_div_pow,BitVec.toNat_ofNat]
lemma decoded_pages (large : size - 1 > 0xFFFFF) :
 decoded (store_limit _seg size) = (size - 1).toNat / 4096 * 4096 + 4095 := by
 obtain ⟨low,flags⟩ := store_limit_pages _seg large
 have bound := (size - 1).isLt
 obtain ⟨high,paged⟩ := flags_page ((size - 1).toNat / 2 ^ 28) (by omega)
 rw [<- shifted,<- flags] at high paged
 simp only [decoded]
 rw [if_pos paged,high,low]
 omega
lemma decoded_bytes (small : ¬size - 1 > 0xFFFFF) :
 decoded (store_limit _seg size) = (size - 1).toNat := by
 obtain ⟨low,flags⟩ := store_limit_bytes _seg small
 have bound : (size - 1).toNat ≤ 0xFFFFF := by
  exact BitVec.le_def.mp (BitVec.not_lt.mp small)
 obtain ⟨high,paged⟩ := flags_byte ((size - 1).toNat / 2 ^ 16) (by omega)
 rw [<- shifted,<- flags] at high paged
 simp only [decoded]
 rw [if_neg (Bool.not_eq_true _ ▸ paged),high,low]
 omega
section
variable (size : BitVec 32)
lemma store_limit_spans : Spans (store_limit _seg size) size := by
 by_cases large : size - 1 > 0xFFFFF
 · rw [Spans,decoded_pages _seg large]
   omega
 rw [Spans,decoded_bytes _seg large]
 omega
lemma read_back_differs :
 (get_desc_seg_limit (store_limit _seg size)).toNat ≠ decoded (store_limit _seg size) := by
 intro eq
 by_cases large : size - 1 > 0xFFFFF
 · rw [decoded_pages _seg large] at eq
   have even : (get_desc_seg_limit (store_limit _seg size)).getLsbD 0 = false := by
    simp [get_desc_seg_limit]
   rw [BitVec.getLsbD,eq,Nat.testBit_zero] at even
   simp at even
   omega
 have bound : (size - 1).toNat ≤ 0xFFFFF := BitVec.le_def.mp (BitVec.not_lt.mp large)
 rw [decoded_bytes _seg large] at eq
 have flag : (get_desc_seg_limit (store_limit _seg size)).getLsbD 22 = true := by
  rw [get_desc_seg_limit,(store_limit_bytes _seg large).2]
  simp
 rw [BitVec.getLsbD,eq] at flag
 have least := Nat.ge_two_pow_of_testBit flag
 omega
lemma store_limit_access : (store_limit _seg size).access = _seg.access := by
 simp only [store_limit]
 split <;> rfl
end
lemma sel_update {gdt : Gdt} {sel : BitVec 16} {idx : Nat} (hit : sel_to_ldt_index gdt sel = some idx)
 (size : BitVec 32) :
 sel_to_ldt_index (update gdt idx (store_limit (gdt idx) size)) sel = some idx := by
 simp only [sel_to_ldt_index] at hit ⊢
 by_cases table : sel &&& 0x4 = 0
 · rw [if_pos table] at hit ⊢
   by_cases used : sel.toNat / 8 < 256 ∧ (gdt (sel.toNat / 8)).access ≠ 0
   · rw [if_pos used] at hit
     cases hit
     rw [update_self,store_limit_access,if_pos used]
   rw [if_neg used] at hit
   cases hit
 rw [if_neg table] at hit
 cases hit

/-- For every descriptor, base and size, the stored limit is the size's, and what is read back is another
  value; the same holds for every selector of a descriptor in the table. -/
theorem limits_never_read_back (base size : BitVec 32) (type : BitVec 8) (gdt : Gdt)
 (mydesc : BitVec 16) :
 (Spans (set_desc _seg base size type) size ∧
  (get_desc_seg_limit (set_desc _seg base size type)).toNat ≠ decoded (set_desc _seg base size type)) ∧
 ∀ idx, sel_to_ldt_index gdt mydesc = some idx -> ∃ gdt', set_desc_limit gdt mydesc size = some gdt' ∧
  Spans (gdt' idx) size ∧ ∃ limit, get_desc_limit gdt' mydesc = some limit ∧ limit.toNat ≠ decoded (gdt' idx) := by
 constructor
 · exact ⟨store_limit_spans _ size,read_back_differs _ size⟩
 intro idx found
 refine ⟨update gdt idx (store_limit (gdt idx) size),by rw [set_desc_limit,found]; rfl,?_⟩
 rw [get_desc_limit,sel_update found,update_self]
 refine ⟨store_limit_spans _ size,_,rfl,?_⟩
 simp only [update_self]
 exact read_back_differs _ size
theorem page_limit_misread : decoded (set_desc ⟨0,0,0,0,0,0⟩ 0 0x1000 0x92) = 0xFFF ∧
 get_desc_seg_limit (set_desc ⟨0,0,0,0,0,0⟩ 0 0x1000 0x92) = 0xFFF000 := by
 decide

end Netbas.Descriptors
