import Netbas.Runs

/-!
The driver registry (`core/driver/common.c`): the list of drivers, the mask of major numbers and the
device numbers. `registry_iff`: `dev_clear_bit` sets the bit, so the mask is exact only while no
driver is unregistered.
-/
namespace Netbas.Drivers
open Runs List
def FD_SETSIZE : Nat := 256
def ENXIO : Int := -6
def CURRENT_KERNEL_VERSION : Nat := 18
def ALLOC_MAJOR_NUMBER : UInt16 := 0xffff
def MAJOR (dev_nr : UInt16) : Nat := dev_nr.toNat / 2^8
def FD_SET (n : Nat) (p : BitVec 256) : BitVec 256 := p ||| BitVec.twoPow 256 n
def FD_ISSET (n : Nat) (p : BitVec 256) : Bool := p.getLsbD n
structure Ops where
 d_name : String
 d_kver : Nat
structure Registry (Dev : Type) where
 driver_list : List Dev
 g_driver_mask : BitVec 256
 d_index : Dev -> UInt16

section
variable {Dev : Type} [DecidableEq Dev] (ops : Dev -> Ops)

section
variable (s : Registry Dev)
def dev_get (fd : UInt16) : Option Dev :=
 s.driver_list.find? (fun item => MAJOR (s.d_index item) = MAJOR fd)
def dev_find (name : String) : Option Dev :=
 s.driver_list.find? (fun item => (ops item).d_name = name)
def dev_clear_bit (mask : BitVec 256) (devno : UInt16) : BitVec 256 := FD_SET (MAJOR devno) mask
def dev_alloc_bit (mask : BitVec 256) (devno : UInt16) : Int × BitVec 256 :=
 if devno ≠ ALLOC_MAJOR_NUMBER then
  if FD_ISSET (MAJOR devno) mask = false then (MAJOR devno,FD_SET (MAJOR devno) mask) else (-2,mask)
 else
  match (range FD_SETSIZE).find? (fun i => FD_ISSET i mask = false) with
  | some i => (i,FD_SET i mask)
  | none => (-1,mask)
def kernel_driver_register (devop : Dev) : Int × Registry Dev :=
 let d_index := s.d_index devop
 if FD_SETSIZE ≤ MAJOR d_index ∧ d_index ≠ ALLOC_MAJOR_NUMBER then ( ENXIO,s)
 else if (ops devop).d_kver ≠ CURRENT_KERNEL_VERSION then (-2,s)
 else if (dev_find ops s (ops devop).d_name).isSome then (-1,s)
 else
  let (freeslot,mask) := dev_alloc_bit s.g_driver_mask d_index
  if freeslot < 0 then (freeslot,{s with g_driver_mask := mask})
  else
   let d_index := if d_index = ALLOC_MAJOR_NUMBER then UInt16.ofNat (freeslot.toNat * 2^8) else d_index
   (0,{ driver_list := s.driver_list ++ [devop], g_driver_mask := mask,
        d_index := Function.update s.d_index devop d_index })
def kernel_driver_unregister (old : Dev) : Int × Registry Dev :=
 if FD_SETSIZE ≤ MAJOR (s.d_index old) then ( ENXIO,s)
 else
  (-1,{ s with g_driver_mask := dev_clear_bit s.g_driver_mask (s.d_index old),
               driver_list := s.driver_list.erase old })
end
inductive Action (Dev : Type) where
 | register (devop : Dev)
 | unregister (old : Dev)
deriving DecidableEq
structure State (Dev : Type) where
 registry : Registry Dev
 past : List Dev

/-- Unregistering a driver that is not in the list writes through links that are not there. -/
def step (s : State Dev) : Action Dev -> Option (State Dev)
 | .register devop => some {s with registry := (kernel_driver_register ops s.registry devop).2}
 | .unregister old =>
  if old ∈ s.registry.driver_list then
   some {registry := (kernel_driver_unregister s.registry old).2, past := old :: s.past}
  else none
def start (d_index : Dev -> UInt16) : State Dev := ⟨⟨[],0,d_index⟩,[]⟩
structure Distinct (s : Registry Dev) : Prop where
 names : s.driver_list.Pairwise (fun d d' => (ops d).d_name ≠ (ops d').d_name)
 majors : s.driver_list.Pairwise (fun d d' => MAJOR (s.d_index d) ≠ MAJOR (s.d_index d'))
 found : ∀ d ∈ s.driver_list, ∀ fd, MAJOR fd = MAJOR (s.d_index d) -> dev_get s fd = some d
def Exact (s : Registry Dev) : Prop :=
 ∀ m < FD_SETSIZE, FD_ISSET m s.g_driver_mask = true ↔ ∃ d ∈ s.driver_list, MAJOR (s.d_index d) = m
structure Sound (s : State Dev) : Prop where
 distinct : Distinct ops s.registry
 exact : Exact s.registry
 again : ∀ d ∈ s.past, (∀ d' ∈ s.registry.driver_list, (ops d').d_name ≠ (ops d).d_name ∧
  MAJOR (s.registry.d_index d') ≠ MAJOR (s.registry.d_index d)) -> (kernel_driver_register ops s.registry d).1 = 0
def Kept (s : State Dev) : Action Dev -> Prop
 | .register _ => True
 | .unregister old => old ∉ s.registry.driver_list
lemma major_lt (dev_nr : UInt16) : MAJOR dev_nr < FD_SETSIZE := by
 have small := dev_nr.toNat_lt
 rw [MAJOR,FD_SETSIZE]
 omega
@[simp] lemma isset_set {n m : Nat} {mask : BitVec 256} (low : m < FD_SETSIZE) :
 FD_ISSET m (FD_SET n mask) = (FD_ISSET m mask || decide (n = m)) := by
 have bound : m < 256 := low
 rw [FD_ISSET,FD_ISSET,FD_SET,BitVec.getLsbD_or,BitVec.getLsbD_twoPow]
 by_cases eq : n = m
 · simp [eq,bound]
 · simp [eq]
lemma dev_alloc_bit_spec {mask mask' : BitVec 256} {devno : UInt16} {freeslot : Int}
 (ran : dev_alloc_bit mask devno = (freeslot,mask')) :
 (freeslot < 0 ∧ mask' = mask) ∨
 ∃ n : Nat, freeslot = n ∧ n < FD_SETSIZE ∧ FD_ISSET n mask = false ∧ mask' = FD_SET n mask ∧
  (devno ≠ ALLOC_MAJOR_NUMBER -> n = MAJOR devno) := by
 rw [dev_alloc_bit] at ran
 split_ifs at ran with asked clear
 · obtain ⟨rfl,rfl⟩ := Prod.mk.inj ran
   exact Or.inr ⟨MAJOR devno,rfl,major_lt devno,clear,rfl,fun _ => rfl⟩
 · obtain ⟨rfl,rfl⟩ := Prod.mk.inj ran
   exact Or.inl ⟨by decide,rfl⟩
 split at ran
 next i fst =>
  obtain ⟨rfl,rfl⟩ := Prod.mk.inj ran
  have clear := find?_some fst
  have low := mem_range.mp (mem_of_find?_eq_some fst)
  exact Or.inr ⟨i,rfl,low,by simpa using clear,rfl,fun ne => absurd ne asked⟩
 next =>
  obtain ⟨rfl,rfl⟩ := Prod.mk.inj ran
  exact Or.inl ⟨by decide,rfl⟩
def enrol (s : Registry Dev) (devop : Dev) (index : UInt16) : Registry Dev :=
 { driver_list := s.driver_list ++ [devop], g_driver_mask := FD_SET (MAJOR index) s.g_driver_mask,
   d_index := Function.update s.d_index devop index }
structure Enrollable (s : Registry Dev) (devop : Dev) (index : UInt16) : Prop where
 clear : FD_ISSET (MAJOR index) s.g_driver_mask = false
 given : index ≠ ALLOC_MAJOR_NUMBER
 own : s.d_index devop ≠ ALLOC_MAJOR_NUMBER -> index = s.d_index devop
 unnamed : ∀ d ∈ s.driver_list, (ops d).d_name ≠ (ops devop).d_name

private lemma index_of_slot {n : Nat} (low : n < FD_SETSIZE) :
 MAJOR (UInt16.ofNat (n * 2^8)) = n ∧ UInt16.ofNat (n * 2^8) ≠ ALLOC_MAJOR_NUMBER := by
 have bound : n < 256 := low
 have value : (UInt16.ofNat (n * 2^8)).toNat = n * 2^8 := by
  rw [UInt16.toNat_ofNat']
  omega
 refine ⟨by rw [MAJOR,value]; omega,?_⟩
 intro eq
 have number := congrArg UInt16.toNat eq
 rw [value,show ALLOC_MAJOR_NUMBER.toNat = 0xffff from rfl] at number
 omega
lemma register_cases (s : Registry Dev) (devop : Dev) :
 ((kernel_driver_register ops s devop).1 ≠ 0 ∧ (kernel_driver_register ops s devop).2 = s) ∨
 ∃ index, Enrollable ops s devop index ∧ kernel_driver_register ops s devop = (0,enrol s devop index) := by
 simp only [kernel_driver_register]
 generalize ran : dev_alloc_bit s.g_driver_mask (s.d_index devop) = r
 obtain ⟨freeslot,mask⟩ := r
 simp only
 by_cases out : FD_SETSIZE ≤ MAJOR (s.d_index devop) ∧ s.d_index devop ≠ ALLOC_MAJOR_NUMBER
 · exact Or.inl (by simp [out, ENXIO])
 by_cases version : (ops devop).d_kver ≠ CURRENT_KERNEL_VERSION
 · exact Or.inl (by simp [out,version])
 by_cases named : (dev_find ops s (ops devop).d_name).isSome = true
 · exact Or.inl (by simp [out,version,named])
 rw [if_neg out,if_neg version,if_neg named]
 obtain ⟨failed,rfl⟩ | ⟨n,rfl,low,clear,rfl,asked⟩ := dev_alloc_bit_spec ran
 · rw [if_pos failed]
   exact Or.inl ⟨failed.ne,rfl⟩
 rw [if_neg (by omega)]
 have unnamed : ∀ d ∈ s.driver_list, (ops d).d_name ≠ (ops devop).d_name := by
  simpa [dev_find] using named
 refine Or.inr ?_
 by_cases automatic : s.d_index devop = ALLOC_MAJOR_NUMBER
 · obtain ⟨major,given⟩ := index_of_slot low
   refine ⟨UInt16.ofNat (n * 2^8),⟨by rwa [major],given,fun ne => absurd automatic ne,unnamed⟩,?_⟩
   rw [enrol,major,if_pos automatic,Int.toNat_natCast]
 obtain rfl := asked automatic
 refine ⟨s.d_index devop,⟨clear,automatic,fun _ => rfl,unnamed⟩,?_⟩
 rw [enrol,if_neg automatic]

variable {ops} {s : Registry Dev} {devop : Dev} {index : UInt16}
lemma Enrollable.fresh (new : Enrollable ops s devop index) : devop ∉ s.driver_list :=
 fun mem => new.unnamed devop mem rfl
lemma Enrollable.d_index_other (new : Enrollable ops s devop index) {d : Dev} (mem : d ∈ s.driver_list) :
 (enrol s devop index).d_index d = s.d_index d := by
 have ne : d ≠ devop := by
  rintro rfl
  exact new.fresh mem
 simp [enrol,ne]
structure Good (ops : Dev -> Ops) (s : State Dev) : Prop where
 names : s.registry.driver_list.Pairwise (fun d d' => (ops d).d_name ≠ (ops d').d_name)
 majors : s.registry.driver_list.Pairwise (fun d d' => MAJOR (s.registry.d_index d) ≠ MAJOR (s.registry.d_index d'))
 given : ∀ d, d ∈ s.registry.driver_list ∨ d ∈ s.past -> s.registry.d_index d ≠ ALLOC_MAJOR_NUMBER
 marked : ∀ d, d ∈ s.registry.driver_list ∨ d ∈ s.past ->
  FD_ISSET (MAJOR (s.registry.d_index d)) s.registry.g_driver_mask = true
lemma good_start (d_index : Dev -> UInt16) : Good ops (start d_index) :=
 ⟨List.Pairwise.nil,List.Pairwise.nil,by simp [start],by simp [start]⟩
lemma Good.not_past {s : State Dev} (good : Good ops s) (new : Enrollable ops s.registry devop index) :
 devop ∉ s.past := by
 intro mem
 have own := new.own (good.given devop (Or.inr mem))
 have marked := good.marked devop (Or.inr mem)
 rw [<- own,new.clear] at marked
 cases marked
lemma Good.enrol {s : State Dev} (good : Good ops s) (new : Enrollable ops s.registry devop index) :
 Good ops {s with registry := enrol s.registry devop index} := by
 have old (d : Dev) (mem : d ∈ s.registry.driver_list ∨ d ∈ s.past) : d ≠ devop := by
  rintro rfl
  rcases mem with registered | past
  · exact new.fresh registered
  · exact good.not_past new past
 have eq (d : Dev) (mem : d ∈ s.registry.driver_list ∨ d ∈ s.past) :
   (Drivers.enrol s.registry devop index).d_index d = s.registry.d_index d := by
  simp [Drivers.enrol,old d mem]
 have own : (Drivers.enrol s.registry devop index).d_index devop = index := by simp [Drivers.enrol]
 have split (d : Dev) (mem : d ∈ s.registry.driver_list ++ [devop] ∨ d ∈ s.past) :
   d = devop ∨ d ∈ s.registry.driver_list ∨ d ∈ s.past := by
  simp only [mem_append,mem_singleton] at mem
  tauto
 refine ⟨?_,?_,?_,?_⟩
 · refine pairwise_append.mpr ⟨good.names,pairwise_singleton _ _,?_⟩
   intro d mem d' last
   rw [mem_singleton.mp last]
   exact new.unnamed d mem
 · refine pairwise_append.mpr ⟨?_,pairwise_singleton _ _,?_⟩
   · refine good.majors.imp_of_mem ?_
     intro d d' mem member' ne
     rwa [eq d (Or.inl mem),eq d' (Or.inl member')]
   intro d mem d' last equal
   rw [mem_singleton.mp last,own,eq d (Or.inl mem)] at equal
   have marked := good.marked d (Or.inl mem)
   rw [equal,new.clear] at marked
   cases marked
 · intro d mem
   rcases split d mem with rfl | pre
   · rw [own]
     exact new.given
   rw [eq d pre]
   exact good.given d pre
 intro d mem
 rcases split d mem with rfl | pre
 · rw [own]
   simp [Drivers.enrol,major_lt]
 rw [eq d pre]
 simp [Drivers.enrol,major_lt,good.marked d pre]
lemma unregister_eq (s : Registry Dev) (old : Dev) : (kernel_driver_unregister s old).2 =
 {s with g_driver_mask := FD_SET (MAJOR (s.d_index old)) s.g_driver_mask, driver_list := s.driver_list.erase old} := by
 rw [kernel_driver_unregister,if_neg (not_le.mpr (major_lt _)),dev_clear_bit]
lemma Good.unregister {s : State Dev} (good : Good ops s) {old : Dev} (mem : old ∈ s.registry.driver_list) :
 Good ops {registry := (kernel_driver_unregister s.registry old).2, past := old :: s.past} := by
 rw [unregister_eq]
 have pre (d : Dev) (inside : d ∈ s.registry.driver_list.erase old ∨ d ∈ old :: s.past) :
   d ∈ s.registry.driver_list ∨ d ∈ s.past := by
  rcases inside with registered | past
  · exact Or.inl (mem_of_mem_erase registered)
  rcases mem_cons.mp past with rfl | past
  · exact Or.inl mem
  · exact Or.inr past
 refine ⟨good.names.sublist erase_sublist,good.majors.sublist erase_sublist,?_,?_⟩
 · exact fun d inside => good.given d (pre d inside)
 intro d inside
 simp [major_lt,good.marked d (pre d inside)]
lemma good_step {s s' : State Dev} {a : Action Dev} (good : Good ops s) (ran : step ops s a = some s') :
 Good ops s' := by
 cases a with
 | register devop =>
  obtain rfl := Option.some.inj ran
  rcases register_cases ops s.registry devop with ⟨-,eq⟩ | ⟨index,new,called⟩
  · rwa [eq]
  rw [called]
  exact good.enrol new
 | unregister old =>
  obtain ⟨mem,next⟩ := Option.ite_none_right_eq_some.mp ran
  obtain rfl := Option.some.inj next
  exact good.unregister mem
lemma Good.distinct {s : State Dev} (good : Good ops s) : Distinct ops s.registry := by
 refine ⟨good.names,good.majors,?_⟩
 intro d mem fd eq
 obtain ⟨pre,after,split⟩ := append_of_mem mem
 have majors := good.majors
 rw [split] at majors
 rw [dev_get,split,find?_append]
 have missed : pre.find? (fun item => MAJOR (s.registry.d_index item) = MAJOR fd) = none := by
  simp only [find?_eq_none,decide_eq_true_eq,eq]
  exact fun ne there => (pairwise_append.mp majors).2.2 ne there d (by simp)
 rw [missed]
 simp [eq]

/-- What holds in every run: the drivers are kept apart and found, their bits are set, and a driver that was
  unregistered is refused. -/
structure Lasting (ops : Dev -> Ops) (s : State Dev) : Prop where
 distinct : Distinct ops s.registry
 marked : ∀ d ∈ s.registry.driver_list, FD_ISSET (MAJOR (s.registry.d_index d)) s.registry.g_driver_mask = true
 refused : ∀ d ∈ s.past, (kernel_driver_register ops s.registry d).1 ≠ 0
lemma Good.lasting {s : State Dev} (good : Good ops s) : Lasting ops s := by
 refine ⟨good.distinct,fun d mem => good.marked d (Or.inl mem),?_⟩
 intro d mem
 rcases register_cases ops s.registry d with ⟨failed,-⟩ | ⟨index,new,-⟩
 · exact failed
 · exact absurd mem (good.not_past new)
lemma exact_enrol (exact : Exact s) (new : Enrollable ops s devop index) : Exact (enrol s devop index) := by
 intro m low
 have own : (enrol s devop index).d_index devop = index := by simp [enrol]
 have list : (enrol s devop index).driver_list = s.driver_list ++ [devop] := rfl
 have mask : FD_ISSET m (enrol s devop index).g_driver_mask = (FD_ISSET m s.g_driver_mask || decide (MAJOR index = m)) :=
  isset_set low
 rw [mask,list,Bool.or_eq_true,decide_eq_true_eq,exact m low]
 constructor
 · rintro (⟨d,mem,number⟩ | number)
   · exact ⟨d,by simp [mem],by rw [new.d_index_other mem,number]⟩
   · exact ⟨devop,by simp,by rw [own,number]⟩
 rintro ⟨d,mem,number⟩
 rcases mem_append.mp mem with pre | last
 · exact Or.inl ⟨d,pre,by rw [<- new.d_index_other pre,number]⟩
 rw [mem_singleton.mp last,own] at number
 exact Or.inr number
lemma exact_register (exact : Exact s) (devop : Dev) : Exact (kernel_driver_register ops s devop).2 := by
 rcases register_cases ops s devop with ⟨-,eq⟩ | ⟨index,new,ran⟩
 · rwa [eq]
 rw [ran]
 exact exact_enrol exact new
lemma not_exact_unregister {s : State Dev} (good : Good ops s) {old : Dev} (mem : old ∈ s.registry.driver_list) :
 ¬ Exact (kernel_driver_unregister s.registry old).2 := by
 intro exact
 rw [unregister_eq] at exact
 have marked : FD_ISSET (MAJOR (s.registry.d_index old)) (FD_SET (MAJOR (s.registry.d_index old))
   s.registry.g_driver_mask) = true := by simp [major_lt]
 obtain ⟨d,inside,number⟩ := (exact _ (major_lt _)).mp marked
 have once : s.registry.driver_list.Nodup :=
  good.majors.imp (fun apart eq => apart (by rw [eq]))
 have ne : d ≠ old := ((List.Nodup.mem_erase_iff once).mp inside).1
 have symm : Std.Symm (fun d d' => MAJOR (s.registry.d_index d) ≠ MAJOR (s.registry.d_index d')) :=
  ⟨fun _ _ apart => Ne.symm apart⟩
 exact good.majors.forall (mem_of_mem_erase inside) mem ne number
theorem registry_iff (ops : Dev -> Ops) (d_index : Dev -> UInt16) (acts : List (Action Dev)) :
 Along (step ops) (Lasting ops) (fun _ _ => True) (start d_index) acts ∧
 (Along (step ops) (Sound ops) (fun _ _ => True) (start d_index) acts ↔
  Meets (step ops) Kept (start d_index) acts) := by
 constructor
 · exact along_invariant (fun _ good => good.lasting) (fun _ _ _ => trivial) (fun _ _ _ good => good_step good)
    acts _ (good_start d_index)
 apply along_iff (I := fun s => Good ops s ∧ Exact s.registry ∧ s.past = [])
 · rintro s ⟨good,exact,none⟩
   exact ⟨good.distinct,exact,by simp [none]⟩
 · intros
   trivial
 · rintro s a s' ⟨good,exact,none⟩ kept taken
   refine ⟨good_step good taken,?_⟩
   cases a with
   | register devop =>
    obtain rfl := Option.some.inj taken
    exact ⟨exact_register exact devop,none⟩
   | unregister old =>
    obtain ⟨mem,-⟩ := Option.ite_none_right_eq_some.mp taken
    exact absurd mem kept
 · rintro s a ⟨good,exact,none⟩ left -
   cases a with
   | register devop => exact absurd trivial left
   | unregister old =>
    have mem : old ∈ s.registry.driver_list := not_not.mp left
    refine ⟨_,if_pos mem,fun sound => ?_⟩
    exact not_exact_unregister good mem sound.exact
 refine ⟨good_start d_index,?_,rfl⟩
 intro m _
 simp [start,FD_ISSET]

end
theorem unregistered_bit_stays : ∃ s, run (step (fun _ : Unit => ⟨"null",CURRENT_KERNEL_VERSION⟩)) (start fun _ => ALLOC_MAJOR_NUMBER)
     [.register (),.unregister ()] = some s ∧
 s.registry.driver_list = [] ∧ FD_ISSET 0 s.registry.g_driver_mask = true ∧
 (kernel_driver_register (fun _ => ⟨"null",CURRENT_KERNEL_VERSION⟩) s.registry ()).1 = -2 ∧
 ¬ Sound (fun _ => ⟨"null",CURRENT_KERNEL_VERSION⟩) s := by
 refine ⟨_,rfl,by decide +kernel,by decide +kernel,by decide +kernel,?_⟩
 intro sound
 have again := sound.again () (by decide +kernel) (by decide +kernel)
 revert again
 decide +kernel

end Netbas.Drivers
