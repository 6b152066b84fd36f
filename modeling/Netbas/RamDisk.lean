import Mathlib.Tactic

/-!
The disk in memory (`core/driver/ramdisk.c`). A request is right exactly when its position does not wrap to
below the disk and its end does not wrap around (`request_right_iff`).
-/
namespace Netbas.RamDisk
open List
structure Disk where
 ramdisk_addr : Nat
 ramdisk_end : Nat
 ramdisk_size : Nat
 disk_block_size : Int

/-- A value as a word of 32 bits, and a word as an `int`. -/
def word (x : Int) : Nat := (x % 2^32).toNat
def toInt (w : Nat) : Int := if w < 2^31 then w else w - 2^32
def ramdisk_set_params (addr : Nat) (size blk_size : Int) : Option Disk :=
 if addr = 0 ∨ size = 0 ∨ blk_size = 0 then none
 else some ⟨addr,(addr + word size) % 2^32,word size,blk_size⟩
abbrev Memory := Nat -> UInt8
variable (d : Disk) (offset count : Int)
def Disk.addr : Nat := word (d.ramdisk_addr + d.disk_block_size * offset)

/-- What `memcpy` is called for in `ramdisk_read` and `ramdisk_write`: the address, and the count that is returned. -/
def request : Option (Nat × Int) :=
 if d.ramdisk_size = 0 ∨ d.disk_block_size = 0 then none
 else if d.ramdisk_end < d.addr offset then none
 else if d.ramdisk_end < word (d.addr offset + count) then some (d.addr offset,toInt (word (d.ramdisk_end - d.addr offset)))
 else some (d.addr offset,count)
def ramdisk_read (m : Memory) : Int × List UInt8 :=
 match request d offset count with
 | none => (-1,[])
 | some (addr,count) => (count,(range (word count)).map (fun i => m (addr + i)))
def ramdisk_write (m : Memory) (buf : Nat -> UInt8) : Int × Memory :=
 match request d offset count with
 | none => (-1,m)
 | some (addr,count) => (count,fun a => if addr ≤ a ∧ a < addr + word count then buf (a - addr) else m a)
def Touches (a : Nat) : Prop := ∃ addr n, request d offset count = some (addr,n) ∧ addr ≤ a ∧ a < addr + word n

/-- What has been written is read again, and the other bytes stay. -/
def Stores (m : Memory) (buf : Nat -> UInt8) : Prop :=
 let (rc,m') := ramdisk_write d offset count m buf
 (ramdisk_read d offset count m).1 = rc ∧
 (ramdisk_read d offset count m').2 = (range (ramdisk_read d offset count m').2.length).map buf ∧
 ∀ a, ¬ Touches d offset count a -> m' a = m a

/-- Only bytes of the disk are touched, an error moves none, and a count is that of the bytes that are moved. -/
structure Right : Prop where
 inside : ∀ a, Touches d offset count a -> d.ramdisk_addr ≤ a ∧ a < d.ramdisk_end
 returned : ∀ m, let (rc,bytes) := ramdisk_read d offset count m
  rc < 0 ∧ (∀ a, ¬ Touches d offset count a) ∨ rc = bytes.length
 stored : ∀ m buf, Stores d offset count m buf
lemma word_cases {n : Int} (low : -2^31 ≤ n) (high : n < 2^31) :
 n = word n ∨ n < 0 ∧ 0 < word n := by
 rw [word]
 omega
lemma toInt_bounds {w : Nat} (lt : w < 2^32) : -2^31 ≤ toInt w ∧ toInt w < 2^31 := by
 rw [toInt]
 split_ifs <;> omega
lemma read_written (m : Memory) (buf : Nat -> UInt8) : Stores d offset count m buf := by
 simp only [Stores,ramdisk_write,ramdisk_read,Touches]
 cases request d offset count with
 | none => simp
 | some r =>
  refine ⟨rfl,?_,fun a ne => if_neg (fun within => ne ⟨_,_,rfl,within⟩)⟩
  simp only [length_map,length_range]
  refine map_congr_left fun i lt => ?_
  rw [mem_range] at lt
  rw [if_pos (by omega),Nat.add_sub_cancel_left]
lemma right_iff (bounds : ∀ r ∈ request d offset count, -2^31 ≤ r.2 ∧ r.2 < 2^31) : Right d offset count ↔
 ∀ r ∈ request d offset count, r.2 = 0 ∨ 0 < r.2 ∧ d.ramdisk_addr ≤ r.1 ∧ r.1 + r.2 ≤ d.ramdisk_end := by
 constructor
 · rintro right ⟨a,n⟩ made
   obtain ⟨low,high⟩ : -2^31 ≤ n ∧ n < 2^31 := bounds _ made
   have inside := fun i => right.inside (a + i)
   have returned := right.returned fun _ => 0
   simp only [ramdisk_read,Touches,Option.mem_def.mp made,length_map,length_range,Option.some.injEq,Prod.mk.injEq] at inside returned
   have within : ∀ i < word n, d.ramdisk_addr ≤ a + i ∧ a + i < d.ramdisk_end :=
    fun i lt => inside i ⟨a,n,⟨rfl,rfl⟩,by omega,by omega⟩
   obtain eq | ⟨negative,moved⟩ := word_cases low high
   · by_cases none : n = 0
     · exact .inl none
     have fst := within 0 (by omega)
     have last := within (word n - 1) (by omega)
     exact .inr ⟨by omega,by omega,by omega⟩
   obtain ⟨-,none⟩ | count := returned
   · exact (none a ⟨a,n,⟨rfl,rfl⟩,by omega,by omega⟩).elim
   · omega
 intro kept
 refine ⟨?_,fun m => ?_,read_written d offset count⟩
 · rintro x ⟨a,n,made,low,high⟩
   have counted := word_cases (bounds _ made).1 (bounds _ made).2
   have := kept _ made
   simp only at this counted
   omega
 simp only [ramdisk_read]
 cases made : request d offset count with
 | none => exact .inl ⟨by simp,by simp [Touches,made]⟩
 | some r =>
  have counted := word_cases (bounds _ made).1 (bounds _ made).2
  have := kept _ made
  simp only [length_map,length_range]
  exact .inr (by omega)
theorem request_right_iff {addr : Nat} {size blk_size : Int} (set : ramdisk_set_params addr size blk_size = some d)
 (sized : -2^31 ≤ size ∧ size < 2^31) (fits : addr + word size < 2^32) (counted : -2^31 ≤ count ∧ count < 2^31) :
 Right d offset count ↔ d.ramdisk_end < d.addr offset ∨
  if d.ramdisk_end < word (d.addr offset + count) then
   d.ramdisk_end = d.addr offset ∨ addr ≤ d.addr offset ∧ d.ramdisk_end < d.addr offset + 2^31
  else count = 0 ∨ 0 < count ∧ addr ≤ d.addr offset ∧ d.addr offset + count ≤ d.ramdisk_end := by
 rw [ramdisk_set_params,Option.ite_none_left_eq_some,not_or,not_or] at set
 obtain ⟨⟨-,some_size,block⟩,set⟩ := set
 obtain rfl := Option.some.inj set
 have sized' : word size ≠ 0 := by
  rw [word]
  omega
 rw [Nat.mod_eq_of_lt fits]
 generalize end_eq : addr + word size = e at *
 generalize disk_eq : Disk.mk addr e (word size) blk_size = d
 have made : request d offset count =
   if e < d.addr offset then none else if e < word (d.addr offset + count) then some (d.addr offset,toInt (word (e - d.addr offset)))
   else some (d.addr offset,count) := by
  rw [<- disk_eq,request,if_neg (by simp [sized',block])]
 have start : d.ramdisk_addr = addr := by rw [<- disk_eq]
 have stop : d.ramdisk_end = e := by rw [<- disk_eq]
 rw [stop]
 generalize d.addr offset = a at *
 by_cases beyond : e < a
 · rw [if_pos beyond] at made
   rw [right_iff d offset count (by simp [made])]
   simp [made,beyond]
 rw [if_neg beyond] at made
 by_cases clamped : e < word (a + count)
 · have room : word (e - a) = e - a := by
    rw [word]
    omega
   have exact := toInt_bounds (show e - a < 2^32 by omega)
   rw [if_pos clamped,room] at made
   rw [right_iff d offset count (by simpa [made] using exact),if_pos clamped]
   simp only [made,Option.mem_some_iff,forall_eq',start,stop,toInt]
   split_ifs <;> omega
 rw [if_neg clamped] at made
 rw [right_iff d offset count (by simpa [made] using counted),if_neg clamped]
 simp only [made,Option.mem_some_iff,forall_eq',start,stop]
 omega
def disk : Disk := ⟨0x100000,0x101000,0x1000,512⟩
lemma disk_set : ramdisk_set_params 0x100000 0x1000 512 = some disk := rfl
theorem request_right_iff_inside : Right disk 1 512 :=
 (request_right_iff disk 1 512 disk_set (by decide) (by decide) (by decide)).mpr (by decide)

/-- Block -1 is the memory before the disk. -/
theorem block_before : ramdisk_set_params 0x100000 0x1000 512 = some disk ∧ ¬ Right disk (-1) 512 := by
 refine ⟨disk_set,fun right => ?_⟩
 have fst := right.inside 0xFFE00 ⟨0xFFE00,512,by decide,by decide,by decide⟩
 exact absurd fst.1 (by decide)

end Netbas.RamDisk
