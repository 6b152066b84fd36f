import Mathlib.Tactic

/-!
Byte memory with 32-bit addresses and the little-endian words stored in it.
-/
namespace Netbas.Bytes
abbrev Memory : Type := Nat -> UInt8
variable (m : Memory)
section
variable (addr : Nat)
def peek : UInt8 := m (addr % 2^32)
def poke (byte : UInt8) : Memory := Function.update m (addr % 2^32) byte
def peek32 : Nat :=
 (peek m addr).toNat + 2^8 * (peek m (addr + 1)).toNat + 2^16 * (peek m (addr + 2)).toNat +
  2^24 * (peek m (addr + 3)).toNat
def poke32 (addr word : Nat) : Memory :=
 poke (poke (poke (poke m addr (UInt8.ofNat word)) (addr + 1) (UInt8.ofNat (word / 2^8)))
  (addr + 2) (UInt8.ofNat (word / 2^16))) (addr + 3) (UInt8.ofNat (word / 2^24))
@[simp] lemma peek_poke_same (byte : UInt8) : peek (poke m addr byte) addr = byte := by
 simp [peek,poke]
lemma peek_poke_of_ne {m : Memory} {addr other : Nat} {byte : UInt8} (ne : addr % 2^32 ≠ other % 2^32) :
 peek (poke m addr byte) other = peek m other := by
 rw [peek,peek,poke,Function.update_of_ne ne.symm]
lemma peek_poke32_of_apart {m : Memory} {addr word other : Nat}
 (ne : ∀ i < 4, (addr + i) % 2^32 ≠ other % 2^32) : peek (poke32 m addr word) other = peek m other := by
 have fst : addr % 2^32 ≠ other % 2^32 := ne 0 (by norm_num)
 rw [poke32,peek_poke_of_ne (ne 3 (by norm_num)),peek_poke_of_ne (ne 2 (by norm_num)),
  peek_poke_of_ne (ne 1 (by norm_num)),peek_poke_of_ne fst]
lemma peek32_poke32_same {word : Nat} (fits : word < 2^32) :
 peek32 (poke32 m addr word) addr = word := by
 have fst : peek (poke32 m addr word) addr = UInt8.ofNat word := by
  rw [poke32,peek_poke_of_ne (by omega),peek_poke_of_ne (by omega),peek_poke_of_ne (by omega),peek_poke_same]
 have snd : peek (poke32 m addr word) (addr + 1) = UInt8.ofNat (word / 2^8) := by
  rw [poke32,peek_poke_of_ne (by omega),peek_poke_of_ne (by omega),peek_poke_same]
 have third : peek (poke32 m addr word) (addr + 2) = UInt8.ofNat (word / 2^16) := by
  rw [poke32,peek_poke_of_ne (by omega),peek_poke_same]
 have fourth : peek (poke32 m addr word) (addr + 3) = UInt8.ofNat (word / 2^24) := by
  rw [poke32,peek_poke_same]
 rw [peek32,fst,snd,third,fourth]
 simp only [UInt8.toNat_ofNat']
 omega
lemma peek32_congr {m m' : Memory} {addr : Nat} (eq : ∀ i < 4, peek m (addr + i) = peek m' (addr + i)) :
 peek32 m addr = peek32 m' addr := by
 rw [peek32,peek32,show peek m addr = peek m' addr from eq 0 (by norm_num),eq 1 (by norm_num),
  eq 2 (by norm_num),eq 3 (by norm_num)]
def peek16 : Nat := (peek m addr).toNat + 2^8 * (peek m (addr + 1)).toNat
lemma peek16_congr {m m' : Memory} {addr : Nat} (eq : ∀ i < 2, peek m (addr + i) = peek m' (addr + i)) :
 peek16 m addr = peek16 m' addr := by
 rw [peek16,peek16,show peek m addr = peek m' addr from eq 0 (by norm_num),eq 1 (by norm_num)]
lemma peek16_lt : peek16 m addr < 2^16 := by
 have fst := (peek m addr).toNat_lt
 have snd := (peek m (addr + 1)).toNat_lt
 rw [peek16]
 omega
lemma peek32_lt : peek32 m addr < 2^32 := by
 have fst := (peek m addr).toNat_lt
 have snd := (peek m (addr + 1)).toNat_lt
 have third := (peek m (addr + 2)).toNat_lt
 have fourth := (peek m (addr + 3)).toNat_lt
 rw [peek32]
 omega
end
def Apart (a n b k : Nat) : Prop := ∀ i < n, ∀ j < k, (a + i) % 2^32 ≠ (b + j) % 2^32
instance (a n b k : Nat) : Decidable (Apart a n b k) :=
 inferInstanceAs (Decidable (∀ i < n, ∀ j < k, (a + i) % 2^32 ≠ (b + j) % 2^32))
lemma Apart.symm {a n b k : Nat} (ne : Apart a n b k) : Apart b k a n :=
 fun i low j high => (ne j high i low).symm

end Netbas.Bytes
