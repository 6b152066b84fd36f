import Mathlib.Tactic

/-!
The two forms of a table of 12 bits an entry (`drv/fs/fat/lower.c`): three bytes on the disk hold two
entries (`fat12_round_trip`).
-/
namespace Netbas.Fat12
open Function (update)
def LOG_ITEM : Nat := 3072
def PHY_SIZE : Nat := 4608
abbrev Logical := Nat -> UInt16
abbrev OnDisk := Nat -> UInt8

/-- The loop of `fat12_sync`. A store keeps the low bits of the value. -/
def sync_loop (fat_logical : Logical) : Nat -> Nat -> Nat -> OnDisk -> OnDisk
 | 0, _, _, disk => disk
 | fuel + 1, i, j, disk =>
  if j < LOG_ITEM then
   let disk := update disk i (.ofNat (fat_logical j).toNat)
   let disk := update disk (i + 1) (.ofNat ((fat_logical j).toNat >>> 8 &&& 0x0F ||| (fat_logical (j + 1)).toNat <<< 4 &&& 0xF0))
   let disk := update disk (i + 2) (.ofNat ((fat_logical (j + 1)).toNat >>> 4))
   sync_loop fat_logical fuel (i + 3) (j + 2) disk
  else disk
def conv_loop (disk : OnDisk) : Nat -> Nat -> Nat -> Logical -> Logical
 | 0, _, _, fat_logical => fat_logical
 | fuel + 1, i, j, fat_logical =>
  if i < PHY_SIZE then
   let fat_logical := update fat_logical j (.ofNat ((disk i).toNat + (disk (i + 1)).toNat <<< 8 &&& 0x0FFF))
   let fat_logical := update fat_logical (j + 1) (.ofNat (((disk (i + 1)).toNat + (disk (i + 2)).toNat <<< 8) >>> 4))
   conv_loop disk fuel (i + 3) (j + 2) fat_logical
  else fat_logical
def fat12_sync (fat_size : Nat) (fat_logical : Logical) (old : OnDisk) : OnDisk :=
 sync_loop fat_logical LOG_ITEM 0 0 (fun n => if n < 512 * fat_size then 0 else old n)
def fat12_conv (disk : OnDisk) (old : Logical) : Logical :=
 conv_loop disk PHY_SIZE 0 0 (fun j => if j < LOG_ITEM then 0 else old j)

/-! ### Groups -/
def packed (log : Logical) (n : Nat) : Nat :=
 let a := (log (2 * (n / 3))).toNat
 let b := (log (2 * (n / 3) + 1)).toNat
 if n % 3 = 0 then a else if n % 3 = 1 then a / 256 % 16 + b % 16 * 16 else b / 16
def unpacked (disk : OnDisk) (j : Nat) : Nat :=
 let i := 3 * (j / 2)
 if j % 2 = 0 then ((disk i).toNat + (disk (i + 1)).toNat * 256) % 4096
 else ((disk (i + 1)).toNat + (disk (i + 2)).toNat * 256) / 16
lemma middle_byte (a b : Nat) : (a >>> 8 &&& 0x0F ||| b <<< 4 &&& 0xF0) = a / 256 % 16 + b % 16 * 16 := by
 have low : a >>> 8 &&& 0x0F = a / 256 % 16 := by
  rw [Nat.shiftRight_eq_div_pow]
  exact Nat.and_two_pow_sub_one_eq_mod _ 4
 have high : b <<< 4 &&& 0xF0 = 2 ^ 4 * (b % 16) := by
  rw [show (0xF0 : Nat) = 15 <<< 4 from rfl,<- Nat.shiftLeft_and_distrib,Nat.shiftLeft_eq,Nat.mul_comm]
  exact congrArg _ (Nat.and_two_pow_sub_one_eq_mod b 4)
 rw [low,high,Nat.or_comm,<- Nat.two_pow_add_eq_or_of_lt (by omega)]
 omega
lemma sync_loop_eq (log : Logical) (fuel : Nat) : ∀ (k : Nat) (disk : OnDisk) (n : Nat), k ≤ 1536 -> 1536 - k ≤ fuel ->
 sync_loop log fuel (3 * k) (2 * k) disk n =
  if 3 * k ≤ n ∧ n < 4608 then .ofNat (packed log n) else disk n := by
 induction fuel with
 | zero =>
  intro k disk n mem enough
  rw [sync_loop,if_neg (by omega)]
 | succ fuel ih =>
  intro k disk n mem enough
  rw [sync_loop,LOG_ITEM]
  by_cases lt : k < 1536
  · rw [if_pos (by omega),show 3 * k + 3 = 3 * (k + 1) by ring,show 2 * k + 2 = 2 * (k + 1) by ring,ih (k + 1) _ n lt (by omega)]
    by_cases later : 3 * (k + 1) ≤ n ∧ n < 4608
    · rw [if_pos later,if_pos (by omega)]
    rw [if_neg later]
    by_cases here : 3 * k ≤ n ∧ n < 4608
    · rw [if_pos here]
      obtain rfl | rfl | rfl : n = 3 * k ∨ n = 3 * k + 1 ∨ n = 3 * k + 2 := by omega
      · simp only [packed,ne_eq,show 3 * k ≠ 3 * k + 1 by omega,show 3 * k ≠ 3 * k + 2 by omega,not_false_eq_true,Function.update_of_ne,Function.update_self,Nat.mul_div_cancel_left k (show 0 < 3 by omega),Nat.mul_mod_right,if_true]
      · simp [packed,middle_byte,show (3 * k + 1) / 3 = k by omega,show (3 * k + 1) % 3 = 1 by omega]
      · simp [packed,show (3 * k + 2) / 3 = k by omega,show (3 * k + 2) % 3 = 2 by omega,Nat.shiftRight_eq_div_pow]
    rw [if_neg here]
    simp [show n ≠ 3 * k by omega,show n ≠ 3 * k + 1 by omega,show n ≠ 3 * k + 2 by omega]
  · rw [if_neg (by omega),if_neg (by omega)]
lemma conv_loop_eq (disk : OnDisk) (fuel : Nat) : ∀ (k : Nat) (log : Logical) (j : Nat), k ≤ 1536 -> 1536 - k ≤ fuel ->
 conv_loop disk fuel (3 * k) (2 * k) log j =
  if 2 * k ≤ j ∧ j < 3072 then .ofNat (unpacked disk j) else log j := by
 induction fuel with
 | zero =>
  intro k log j mem enough
  rw [conv_loop,if_neg (by omega)]
 | succ fuel ih =>
  intro k log j mem enough
  rw [conv_loop,PHY_SIZE]
  by_cases lt : k < 1536
  · rw [if_pos (by omega),show 3 * k + 3 = 3 * (k + 1) by ring,show 2 * k + 2 = 2 * (k + 1) by ring,ih (k + 1) _ j lt (by omega)]
    by_cases later : 2 * (k + 1) ≤ j ∧ j < 3072
    · rw [if_pos later,if_pos (by omega)]
    rw [if_neg later]
    by_cases here : 2 * k ≤ j ∧ j < 3072
    · rw [if_pos here]
      have mask := Nat.and_two_pow_sub_one_eq_mod ((disk (3 * k)).toNat + (disk (3 * k + 1)).toNat <<< 8) 12
      obtain rfl | rfl : j = 2 * k ∨ j = 2 * k + 1 := by omega
      · rw [Function.update_of_ne (by omega),Function.update_self,mask]
        simp [unpacked,Nat.shiftLeft_eq]
      · simp [unpacked,show (2 * k + 1) / 2 = k by omega,Nat.shiftLeft_eq,Nat.shiftRight_eq_div_pow]
    rw [if_neg here]
    simp [show j ≠ 2 * k by omega,show j ≠ 2 * k + 1 by omega]
  · rw [if_neg (by omega),if_neg (by omega)]
theorem fat12_round_trip (fat_size : Nat) (log old : Logical) (disk old' : OnDisk) :
 ((∀ j < LOG_ITEM, (log j).toNat < 4096) -> ∀ j < LOG_ITEM,
  fat12_conv (fat12_sync fat_size log old') old j = log j) ∧
 ∀ n < PHY_SIZE, fat12_sync fat_size (fat12_conv disk old) old' n = disk n := by
 have conv : ∀ (disk : OnDisk), ∀ j < 3072, fat12_conv disk old j = .ofNat (unpacked disk j) := by
  intro disk j lt
  exact (conv_loop_eq disk _ 0 _ j (by omega) (by decide)).trans (if_pos ⟨by omega,lt⟩)
 have sync : ∀ (log : Logical), ∀ n < 4608, fat12_sync fat_size log old' n = .ofNat (packed log n) := by
  intro log n lt
  exact (sync_loop_eq log _ 0 _ n (by omega) (by decide)).trans (if_pos ⟨by omega,lt⟩)
 constructor
 · intro small j lt
   rw [LOG_ITEM] at lt small
   rw [conv _ j lt,<- UInt16.toNat_inj,UInt16.toNat_ofNat']
   have fst := small (2 * (j / 2)) (by omega)
   have snd := small (2 * (j / 2) + 1) (by omega)
   have group : ∀ r < 3, (3 * (j / 2) + r) / 3 = j / 2 ∧ (3 * (j / 2) + r) % 3 = r := by omega
   have a := sync log (3 * (j / 2)) (by omega)
   have b := sync log (3 * (j / 2) + 1) (by omega)
   have c := sync log (3 * (j / 2) + 2) (by omega)
   simp only [packed,show 3 * (j / 2) / 3 = j / 2 by omega,Nat.mul_mod_right,group 1 (by omega),group 2 (by omega),if_true,one_ne_zero,OfNat.ofNat_ne_zero,OfNat.ofNat_ne_one,if_false] at a b c
   rw [unpacked]
   simp only [a,b,c,UInt8.toNat_ofNat']
   split_ifs with even
   · rw [show 2 * (j / 2) = j by omega] at fst ⊢
     omega
   rw [show 2 * (j / 2) + 1 = j by omega] at snd ⊢
   omega
 intro n lt
 rw [PHY_SIZE] at lt
 rw [sync _ n lt,<- UInt8.toNat_inj,UInt8.toNat_ofNat']
 have a := conv disk (2 * (n / 3)) (by omega)
 have b := conv disk (2 * (n / 3) + 1) (by omega)
 simp only [unpacked,show (2 * (n / 3)) / 2 = n / 3 by omega,show (2 * (n / 3) + 1) / 2 = n / 3 by omega,Nat.mul_mod_right,show (2 * (n / 3) + 1) % 2 = 1 by omega,if_true,one_ne_zero,if_false] at a b
 rw [packed]
 simp only [a,b,UInt16.toNat_ofNat']
 have fst := (disk (3 * (n / 3))).toNat_lt
 have snd := (disk (3 * (n / 3) + 1)).toNat_lt
 have third := (disk (3 * (n / 3) + 2)).toNat_lt
 split_ifs with zero one
 · rw [show 3 * (n / 3) = n by omega] at *
   omega
 · rw [show 3 * (n / 3) + 1 = n by omega] at *
   omega
 rw [show 3 * (n / 3) + 2 = n by omega] at *
 omega
theorem fat12_round_trip_full :
 let log : Logical := fun j => .ofNat (4095 - j)
 fat12_conv (fat12_sync 9 log (fun _ => 0)) (fun _ => 0) 0 = 0xFFF ∧ fat12_conv (fat12_sync 9 log (fun _ => 0)) (fun _ => 0) 7 = 0xFF8 :=
 have kept := (fat12_round_trip 9 (fun j => .ofNat (4095 - j)) (fun _ => 0) (fun _ => 0) (fun _ => 0)).1
  (fun j _ => by rw [UInt16.toNat_ofNat']; omega)
 ⟨kept 0 (by decide),kept 7 (by decide)⟩

end Netbas.Fat12
