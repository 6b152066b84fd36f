import Mathlib.Tactic

/-!
The I/O permission bitmap of a thread (`task.c`). `set_tss_bitmap` sets an interval of bits in three
stages (`Sets`), which are joined (`Sets.join`).
-/
namespace Netbas.IoPermissions
def EINVAL : Int := -22
structure Area where
 words : Int -> BitVec 32
 touched : List Int

variable {a b c : Area} {lo mid hi : Int} {val : Bool}

section
variable (a : Area)
def Area.store (bmap_base : Int) (word : BitVec 32) : Area :=
 {words := Function.update a.words bmap_base word, touched := a.touched ++ [bmap_base]}
def Area.apply (bmap_base : Int) (bmask : BitVec 32) (val : Bool) : Area :=
 a.store bmap_base (if val then a.words bmap_base ||| bmask else a.words bmap_base &&& ~~~bmask)
def above (n : Nat) : BitVec 32 := BitVec.allOnes 32 <<< n
def fill (a : Area) (bmap_base : Int) (bmask : BitVec 32) (len : Int) : Area × Int × Int :=
 if 32 ≤ len then fill (a.store bmap_base bmask) (bmap_base + 1) bmask (len - 32) else (a,bmap_base,len)
termination_by len.toNat
def set_rest (bmap_base len : Int) (val : Bool) : Area :=
 let (a,bmap_base,len) := fill a bmap_base (if val then BitVec.allOnes 32 else 0) len
 if 0 < len then a.apply bmap_base (~~~above len.toNat) val else a
def set_tss_bitmap (base extent : BitVec 16) (val : Bool) : Option Area :=
 let lidx := (base &&& 0x1f).toNat
 let len : Int := lidx + extent.toInt
 let bmap_base := base.toInt / 32
 if lidx ≠ 0 then
  if len < 0 then none
  else
   let bmask := if len < 32 then above lidx &&& ~~~above len.toNat else above lidx
   some (set_rest (a.apply bmap_base bmask val) (bmap_base + 1) (len - 32) val)
 else some (set_rest a bmap_base len val)
def i386_ioperm (first num turn_on : BitVec 32) : Option (Int × Area) :=
 if first + num ≤ first then some (EINVAL,a)
 else if first + num > 32 * 32 then some (EINVAL,a)
 else (set_tss_bitmap a (first.setWidth 16) (num.setWidth 16) (turn_on == 0)).map (fun a => (0,a))
def Area.bit (i : Int) : Bool := (a.words (i / 32)).getLsbD (i % 32).toNat
end

/-- The bits from `lo` on and before `hi` have got the value, the others are as before, and only words
  with a bit of the interval have been stored to. -/
structure Sets (a b : Area) (lo hi : Int) (val : Bool) : Prop where
 bits : ∀ i, b.bit i = if lo ≤ i ∧ i < hi then val else a.bit i
 stores : ∃ new, b.touched = a.touched ++ new ∧ ∀ w ∈ new, ∃ i, lo ≤ i ∧ i < hi ∧ i / 32 = w
lemma Sets.nothing (a : Area) {lo hi : Int} (empty : hi ≤ lo) (val : Bool) : Sets a a lo hi val := by
 constructor
 · intro i
   rw [if_neg (by omega)]
 · exact ⟨[],by simp,by simp⟩
lemma Sets.join (first : Sets a b lo mid val) (snd : Sets b c mid hi val) (left : lo ≤ mid) (right : mid ≤ hi) :
 Sets a c lo hi val := by
 obtain ⟨early,earlier,earlyWords⟩ := first.stores
 obtain ⟨late,later,lateWords⟩ := snd.stores
 constructor
 · intro i
   rw [snd.bits,first.bits]
   grind
 refine ⟨early ++ late,by rw [later,earlier,List.append_assoc],fun w mem => ?_⟩
 rcases List.mem_append.mp mem with mem | mem
 · obtain ⟨i,low,high,word⟩ := earlyWords w mem
   exact ⟨i,low,by omega,word⟩
 obtain ⟨i,low,high,word⟩ := lateWords w mem
 exact ⟨i,by omega,high,word⟩
section
variable (a : Area)
lemma store_same (k : Int) (word : BitVec 32) : (a.store k word).words k = word := by
 simp [Area.store]
lemma store_other {k w : Int} (word : BitVec 32) (ne : w ≠ k) : (a.store k word).words w = a.words w := by
 simp [Area.store,ne]
lemma store_sets (k : Int) (word : BitVec 32) {p q : Int} (start : 0 ≤ p) (any : p < q) (finish : q ≤ 32)
 (each : ∀ j : Nat, j < 32 -> word.getLsbD j = if p ≤ j ∧ j < q then val else (a.words k).getLsbD j) :
 Sets a (a.store k word) (32 * k + p) (32 * k + q) val := by
 constructor
 · intro i
   by_cases here : i / 32 = k
   · have eq : (32 * k + p ≤ i ∧ i < 32 * k + q) ↔ (p ≤ ((i % 32).toNat : Int) ∧ ((i % 32).toNat : Int) < q) := by
      omega
     rw [Area.bit,here,store_same,each _ (by omega),Area.bit,here]
     simp only [eq]
   · rw [if_neg (by omega),Area.bit,store_other a word here,Area.bit]
 refine ⟨[k],rfl,fun w mem => ?_⟩
 rw [List.mem_singleton.mp mem]
 exact ⟨32 * k + p,by omega,by omega,by omega⟩
lemma above_bit (n : Nat) {j : Nat} (mem : j < 32) : (above n).getLsbD j = decide (n ≤ j) := by
 rw [above,BitVec.getLsbD_shiftLeft,BitVec.getLsbD_allOnes]
 by_cases low : j < n
 · simp [low,mem]
 · simp [low,mem,show j - n < 32 by omega,show n ≤ j by omega]
lemma apply_sets (k : Int) (bmask : BitVec 32) (val : Bool) {p q : Int} (start : 0 ≤ p) (any : p < q)
 (finish : q ≤ 32) (mask : ∀ j : Nat, j < 32 -> bmask.getLsbD j = decide (p ≤ j ∧ j < q)) :
 Sets a (a.apply k bmask val) (32 * k + p) (32 * k + q) val := by
 refine store_sets a k _ start any finish fun j mem => ?_
 have masked := mask j mem
 by_cases chosen : p ≤ j ∧ j < q
 · rw [decide_eq_true chosen] at masked
   cases val <;> simp only [if_pos chosen,if_true,Bool.false_eq_true,if_false,BitVec.getLsbD_or,BitVec.getLsbD_and,
    BitVec.getLsbD_not,masked,Bool.not_true,Bool.and_false,Bool.or_true]
 rw [decide_eq_false chosen] at masked
 cases val <;> simp only [if_neg chosen,if_true,Bool.false_eq_true,if_false,BitVec.getLsbD_or,BitVec.getLsbD_and,
  BitVec.getLsbD_not,masked,mem,decide_true,Bool.not_false,Bool.and_true,Bool.or_false]
lemma whole_bit (val : Bool) {j : Nat} (mem : j < 32) : (if val then BitVec.allOnes 32 else 0).getLsbD j = val := by
 cases val with
 | true => rw [if_pos rfl,BitVec.getLsbD_allOnes,decide_eq_true mem]
 | false => exact BitVec.getLsbD_zero
lemma fill_sets (val : Bool) (a : Area) (k len : Int) (left : 0 ≤ len) :
 ∃ b n, fill a k (if val then BitVec.allOnes 32 else 0) len = (b,k + n,len - 32 * n) ∧ 0 ≤ n ∧
  0 ≤ len - 32 * n ∧ len - 32 * n < 32 ∧ Sets a b (32 * k) (32 * (k + n)) val := by
 induction turns : len.toNat using Nat.strong_induction_on generalizing a k len with
 | _ turns ih =>
  rw [fill]
  by_cases whole : 32 ≤ len
  · rw [if_pos whole]
    obtain ⟨b,n,filled,more,rest,lt,set⟩ :=
     ih _ (by omega) (a.store k (if val then BitVec.allOnes 32 else 0)) (k + 1) (len - 32) (by omega) rfl
    have first : Sets a (a.store k (if val then BitVec.allOnes 32 else 0)) (32 * k + 0) (32 * k + 32) val := by
     refine store_sets a k _ (by omega) (by omega) (by omega) fun j mem => ?_
     rw [whole_bit val mem]
     exact (if_pos (by omega)).symm
    refine ⟨b,n + 1,?_,by omega,by omega,by omega,?_⟩
    · rw [filled]
      ring_nf
    rw [Int.add_zero,show 32 * k + 32 = 32 * (k + 1) by omega] at first
    rw [show k + (n + 1) = k + 1 + n by omega]
    exact first.join set (by omega) (by omega)
  rw [if_neg whole]
  refine ⟨a,0,by simp,by omega,by omega,by omega,?_⟩
  exact Sets.nothing a (by omega) val
lemma set_rest_sets (k len : Int) (val : Bool) :
 Sets a (set_rest a k len val) (32 * k) (32 * k + len) val := by
 by_cases left : 0 ≤ len
 · obtain ⟨b,n,filled,more,rest,lt,set⟩ := fill_sets val a k len left
   rw [set_rest,filled]
   by_cases last : 0 < len - 32 * n
   · have finish : Sets b (b.apply (k + n) (~~~above (len - 32 * n).toNat) val) (32 * (k + n) + 0)
       (32 * (k + n) + (len - 32 * n)) val := by
      refine apply_sets b (k + n) _ val (by omega) last (by omega) fun j mem => ?_
      rw [BitVec.getLsbD_not,above_bit _ mem]
      simp only [mem,decide_true,Bool.true_and]
      rw [<- decide_not]
      exact decide_eq_decide.mpr (by omega)
     rw [show 32 * (k + n) + (len - 32 * n) = 32 * k + len by omega,Int.add_zero] at finish
     simp only [if_pos last]
     exact set.join finish (by omega) (by omega)
   simp only [if_neg last]
   rw [show 32 * k + len = 32 * (k + n) by omega]
   exact set
 rw [set_rest,fill,if_neg (by omega)]
 simp only [if_neg (show ¬0 < len by omega)]
 exact Sets.nothing a (by omega) val
lemma set_tss_bitmap_sets (base extent : BitVec 16) (val : Bool) (start : 0 ≤ base.toInt)
 (any : 0 < extent.toInt) :
 ∃ b, set_tss_bitmap a base extent val = some b ∧ Sets a b base.toInt (base.toInt + extent.toInt) val := by
 have low : ((base &&& 0x1f).toNat : Int) = base.toInt % 32 := by
  have mask : (base &&& 0x1f).toNat = base.toNat % 32 := by
   rw [BitVec.toNat_and]
   exact Nat.and_two_pow_sub_one_eq_mod base.toNat 5
  have plain : base.toInt = base.toNat := by
   rw [BitVec.toInt_eq_toNat_cond] at start ⊢
   omega
  rw [mask,plain]
  omega
 obtain ⟨l,lidx⟩ : ∃ l, (base &&& 0x1f).toNat = l := ⟨_,rfl⟩
 rw [lidx] at low
 rw [set_tss_bitmap]
 simp only [lidx]
 by_cases aligned : l = 0
 · rw [if_neg (by omega)]
   refine ⟨_,rfl,?_⟩
   have rest := set_rest_sets a (base.toInt / 32) (l + extent.toInt) val
   rw [show 32 * (base.toInt / 32) + (l + extent.toInt) = base.toInt + extent.toInt by omega,
    show 32 * (base.toInt / 32) = base.toInt by omega] at rest
   exact rest
 rw [if_pos aligned,if_neg (by omega)]
 refine ⟨_,rfl,?_⟩
 by_cases short : (l : Int) + extent.toInt < 32
 · rw [if_pos short]
   have first := apply_sets a (base.toInt / 32) (above l &&& ~~~above ((l : Int) + extent.toInt).toNat) val
    (show (0 : Int) ≤ l by omega) (show (l : Int) < l + extent.toInt by omega) (by omega) (fun j mem => by
     rw [BitVec.getLsbD_and,BitVec.getLsbD_not,above_bit _ mem,above_bit _ mem]
     simp only [mem,decide_true,Bool.true_and]
     rw [<- decide_not,<- Bool.decide_and]
     exact decide_eq_decide.mpr (by omega))
   rw [show 32 * (base.toInt / 32) + (l : Int) = base.toInt by omega,
    show 32 * (base.toInt / 32) + (l + extent.toInt) = base.toInt + extent.toInt by omega] at first
   rw [set_rest,fill,if_neg (by omega)]
   simp only [if_neg (show ¬(0 : Int) < l + extent.toInt - 32 by omega)]
   exact first
 rw [if_neg short]
 have first := apply_sets a (base.toInt / 32) (above l) val
  (show (0 : Int) ≤ l by omega) (show (l : Int) < 32 by omega) (by omega) (fun j mem => by
   rw [above_bit _ mem]
   exact decide_eq_decide.mpr (by omega))
 have rest := set_rest_sets (a.apply (base.toInt / 32) (above l) val) (base.toInt / 32 + 1)
  (l + extent.toInt - 32) val
 rw [show 32 * (base.toInt / 32) + (l : Int) = base.toInt by omega,
  show 32 * (base.toInt / 32) + 32 = 32 * (base.toInt / 32 + 1) by omega] at first
 rw [show 32 * (base.toInt / 32 + 1) + (l + extent.toInt - 32) = base.toInt + extent.toInt by omega] at rest
 exact first.join rest (by omega) (by omega)
def Accepted (first num : BitVec 32) : Prop := 0 < num.toNat ∧ first.toNat + num.toNat ≤ 1024

section
variable (first num turn_on : BitVec 32)
lemma refused (out : ¬Accepted first num) :
 i386_ioperm a first num turn_on = some (EINVAL,a) := by
 rw [i386_ioperm]
 by_cases wraps : first + num ≤ first
 · rw [if_pos wraps]
 have beyond : first + num > 32 * 32 := by
  rw [Accepted] at out
  bv_omega
 rw [if_neg wraps,if_pos beyond]
lemma accepted_sets (mem : Accepted first num) :
 ∃ b, i386_ioperm a first num turn_on = some (0,b) ∧
  Sets a b first.toNat (first.toNat + num.toNat) (turn_on == 0) := by
 obtain ⟨any,within⟩ := mem
 have base : (first.setWidth 16).toInt = first.toNat := by
  rw [BitVec.toInt_eq_toNat_cond,BitVec.toNat_setWidth,Nat.mod_eq_of_lt (by omega),if_pos (by omega)]
 have extent : (num.setWidth 16).toInt = num.toNat := by
  rw [BitVec.toInt_eq_toNat_cond,BitVec.toNat_setWidth,Nat.mod_eq_of_lt (by omega),if_pos (by omega)]
 obtain ⟨b,stored,set⟩ := set_tss_bitmap_sets a (first.setWidth 16) (num.setWidth 16) (turn_on == 0) (by omega) (by omega)
 rw [base,extent] at set
 refine ⟨b,?_,set⟩
 rw [i386_ioperm,if_neg (by bv_omega),if_neg (by bv_omega),stored]
 rfl

/-- An accepted request gives the bits of its ports the value `!turn_on`, changes no other bit and stores to no
  word outside the 32 words of the map; any other request returns `EINVAL` and changes nothing. -/
theorem ioperm_sets_range :
 (Accepted first num -> ∃ b, i386_ioperm a first num turn_on = some (0,b) ∧
  (∀ i : Int, b.bit i = if first.toNat ≤ i ∧ i < first.toNat + num.toNat then turn_on == 0 else a.bit i) ∧
  ∃ new, b.touched = a.touched ++ new ∧ ∀ w ∈ new, 0 ≤ w ∧ w < 32) ∧
 (¬Accepted first num -> i386_ioperm a first num turn_on = some (EINVAL,a)) := by
 refine ⟨fun inside => ?_,refused a first num turn_on⟩
 obtain ⟨b,returned,bits,new,stored,words⟩ := accepted_sets a first num turn_on inside
 refine ⟨b,returned,bits,new,stored,fun w mem => ?_⟩
 obtain ⟨i,low,high,word⟩ := words w mem
 have within := inside.2
 omega
end
end

example : ((i386_ioperm ⟨fun _ => 0,[]⟩ 30 4 0).map (fun r => (r.2.touched,r.2.words 0,r.2.words 1))) =
  some ([0,1],0xC0000000,0x3) := by
 simp [i386_ioperm,set_tss_bitmap,set_rest,fill,Area.apply,Area.store,above]

end Netbas.IoPermissions
