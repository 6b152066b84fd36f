import Netbas.Runs
import Netbas.Keyed

/-!
The names of message ports (`core/ipc/msgport.c`). `names_iff`: the ports are found by their names
as long as no port is made with a name that does not fit, since the whole name is looked up and its
beginning is kept.
-/
namespace Netbas.PortNames
open Runs Keyed List Option
def MAX_PORTNAME_LEN : Nat := 20
abbrev Text := List UInt8

/-- A port at its address; `pname` is the name that its maker gave. -/
structure Mcb where
 addr : Nat
 port_no : Nat
 port_name : Text
 pname : Option Text
deriving DecidableEq
structure State where
 mcb_qh : List Mcb
 last_port : Nat
deriving DecidableEq
def start : State := ⟨[],0x12⟩
section
variable (s : State)
def find_msgport_byid (no : Int) : Option Mcb := s.mcb_qh.find? (fun mcb => mcb.port_no = no)
def find_msgport_byname (name : Text) : Option Nat :=
 (s.mcb_qh.find? (fun mcb => mcb.port_name = name)).map Mcb.addr
def strncpy (add_char : Text) (nr : Nat) : Text := add_char.take nr
def generated (name : Text) (last_port : Nat) : Text :=
 (name ++ 95 :: (Nat.toDigits 10 last_port).map (fun c => c.toNat.toUInt8)).take MAX_PORTNAME_LEN

/-- The answer and the state after the call. A thread is known by its name; `block` is what
  `kcalloc` returns, and a counter at its end has no next value. -/
def create_msgport (pname : Option Text) (pthread : Option Text) (block : Option Nat) :
  Option (Int × State) :=
 match pthread with
 | none => some (-2,s)
 | some thread =>
  let name := pname.getD (generated thread s.last_port)
  if (find_msgport_byname s name).isSome then some (-1,s)
  else
   match block with
   | none => some (-3,s)
   | some addr =>
    if addr = 0 ∨ (∃ mcb ∈ s.mcb_qh, mcb.addr = addr) ∨ s.last_port = 2^31 - 1 then none
    else
     let mcb := ⟨addr,s.last_port,strncpy name MAX_PORTNAME_LEN,pname⟩
     some (s.last_port,⟨mcb :: s.mcb_qh,s.last_port + 1⟩)
def msgport_destroy (port : Int) : Int × State :=
 match find_msgport_byid s port with
 | none => (-1,s)
 | some mcb => (0,{s with mcb_qh := s.mcb_qh.erase mcb})
inductive Action where
 | create (pname pthread : Option Text) (block : Option Nat)
 | destroy (port : Int)
deriving DecidableEq
def step : Action -> Option State
 | .create pname pthread block => (create_msgport s pname pthread block).map Prod.snd
 | .destroy port => some (msgport_destroy s port).2
def Named : Prop :=
 s.mcb_qh.Pairwise (fun mcb mcb' => mcb.port_name ≠ mcb'.port_name) ∧
  ∀ mcb ∈ s.mcb_qh, ∀ name, mcb.pname = some name -> find_msgport_byname s name = some mcb.addr
/-- The given name fits, or no port is made. -/
def Kept : Action -> Prop
 | .create (some name) (some _) (some addr) =>
  name.length ≤ MAX_PORTNAME_LEN ∨ (find_msgport_byname s name).isSome ∨
   addr = 0 ∨ (∃ mcb ∈ s.mcb_qh, mcb.addr = addr) ∨ s.last_port = 2^31 - 1
 | _ => True
end

section
variable {s s' : State}
structure Inv (s : State) : Prop where
 apart : s.mcb_qh.Pairwise (fun mcb mcb' => mcb.port_name ≠ mcb'.port_name)
 whole : ∀ mcb ∈ s.mcb_qh, ∀ name, mcb.pname = some name -> mcb.port_name = name
 short : ∀ mcb ∈ s.mcb_qh, mcb.port_name.length ≤ MAX_PORTNAME_LEN
lemma Inv.found (inv : Inv s) {mcb : Mcb} (mem : mcb ∈ s.mcb_qh) :
 find_msgport_byname s mcb.port_name = some mcb.addr := by
 have symm : Std.Symm (fun mcb mcb' : Mcb => mcb.port_name ≠ mcb'.port_name) := ⟨fun _ _ ne => ne.symm⟩
 have fst : s.mcb_qh.find? (fun mcb' => mcb'.port_name = mcb.port_name) = some mcb := by
  apply find?_of_pairwise inv.apart _ mem (by simp)
  intro x y eq same'
  simp only [decide_eq_true_eq] at eq same'
  simp [eq,same']
 rw [find_msgport_byname,fst]
 rfl
lemma Inv.named (inv : Inv s) : Named s := by
 refine ⟨inv.apart,?_⟩
 intro mcb mem name given
 rw [<- inv.whole mcb mem name given]
 exact inv.found mem
lemma find_eq_none {name : Text} (missing : (find_msgport_byname s name).isSome = false) :
 ∀ mcb ∈ s.mcb_qh, mcb.port_name ≠ name := by
 intro mcb mem eq
 have hit : (s.mcb_qh.find? (fun mcb => mcb.port_name = name)).isSome = true :=
  find?_isSome.mpr ⟨mcb,mem,by simp [eq]⟩
 rw [find_msgport_byname,isSome_map,hit] at missing
 cases missing
lemma create_cases {pname pthread : Option Text} {block : Option Nat} {rc : Int}
 (kept : Kept s (.create pname pthread block)) (ran : create_msgport s pname pthread block = some (rc,s')) :
 s' = s ∨
 ∃ thread addr name, name = pname.getD (generated thread s.last_port) ∧ (∀ mcb ∈ s.mcb_qh, mcb.port_name ≠ name) ∧
  (∀ given, pname = some given -> given.length ≤ MAX_PORTNAME_LEN) ∧
  s' = ⟨⟨addr,s.last_port,name.take MAX_PORTNAME_LEN,pname⟩ :: s.mcb_qh,s.last_port + 1⟩ := by
 cases pthread with
 | none =>
  cases ran
  exact .inl rfl
 | some thread =>
  simp only [create_msgport] at ran
  cases known : (find_msgport_byname s (pname.getD (generated thread s.last_port))).isSome with
  | true =>
   simp only [known,if_true,some.injEq,Prod.mk.injEq] at ran
   exact .inl ran.2.symm
  | false =>
   simp only [known,Bool.false_eq_true,if_false] at ran
   cases block with
   | none =>
    simp only [some.injEq,Prod.mk.injEq] at ran
    exact .inl ran.2.symm
   | some addr =>
    simp only at ran
    split_ifs at ran with stuck
    simp only [some.injEq,Prod.mk.injEq] at ran
    refine .inr ⟨thread,addr,_,rfl,find_eq_none known,?_,ran.2.symm⟩
    rintro given rfl
    exact kept.resolve_right (not_or.mpr ⟨by simpa using known,stuck⟩)
lemma Inv.create {name : Text} {addr : Nat} {pname : Option Text} (inv : Inv s)
 (new : ∀ mcb ∈ s.mcb_qh, mcb.port_name ≠ name) (fits : name.length ≤ MAX_PORTNAME_LEN)
 (given : ∀ given, pname = some given -> name = given) :
 Inv ⟨⟨addr,s.last_port,name.take MAX_PORTNAME_LEN,pname⟩ :: s.mcb_qh,s.last_port + 1⟩ := by
 rw [take_of_length_le fits]
 constructor
 case apart => exact pairwise_cons.mpr ⟨fun mcb mem => (new mcb mem).symm,inv.apart⟩
 case whole =>
  exact forall_mem_cons.mpr ⟨given,inv.whole⟩
 case short =>
  exact forall_mem_cons.mpr ⟨fits,inv.short⟩
lemma Inv.erase (inv : Inv s) (mcb : Mcb) : Inv {s with mcb_qh := s.mcb_qh.erase mcb} :=
 ⟨inv.apart.sublist erase_sublist,fun m mem => inv.whole m (mem_of_mem_erase mem),
  fun m mem => inv.short m (mem_of_mem_erase mem)⟩
lemma step_inv (s : State) (action : Action) (s' : State) (inv : Inv s) (kept : Kept s action)
 (ran : step s action = some s') : Inv s' := by
 cases action with
 | create pname pthread block =>
  obtain ⟨⟨rc,after⟩,called,rfl⟩ := map_eq_some_iff.mp ran
  rcases create_cases kept called with rfl | ⟨thread,addr,name,made,new,short,rfl⟩
  · exact inv
  cases pname with
  | none =>
   refine inv.create new ?_ fun _ given => by cases given
   rw [made]
   simp [generated]
  | some given =>
   refine inv.create new ?_ fun _ eq => ?_
   · rw [made]
     exact short given rfl
   cases eq
   exact made
 | destroy port =>
  simp only [step,msgport_destroy,some.injEq] at ran
  cases hit : find_msgport_byid s port with
  | none =>
   rw [<- ran,hit]
   exact inv
  | some mcb =>
   rw [<- ran,hit]
   exact inv.erase mcb
lemma step_broken (s : State) (action : Action) (inv : Inv s) (out : ¬ Kept s action) :
 ∃ s', step s action = some s' ∧ ¬ Named s' := by
 match action, out with
 | .create (some given) (some _) (some addr), out =>
  obtain ⟨long,unknown,free⟩ := not_or.mp out |>.imp id not_or.mp
  refine ⟨_,by simp only [step,create_msgport,getD_some,if_neg unknown,if_neg free,map_some]; rfl,?_⟩
  rintro ⟨_,hit⟩
  have hit := hit _ mem_cons_self given rfl
  obtain ⟨mcb,matched,_⟩ := map_eq_some_iff.mp hit
  have eq : mcb.port_name = given := by simpa using find?_some matched
  have short : mcb.port_name.length ≤ MAX_PORTNAME_LEN := by
   rcases mem_cons.mp (mem_of_find?_eq_some matched) with rfl | inside
   · simp [strncpy]
   · exact inv.short mcb inside
  rw [eq] at short
  exact long short
 | .create none _ _, out | .create _ none _, out | .create _ _ none, out | .destroy _, out => simp [Kept] at out
theorem names_iff (actions : List Action) :
 Along step Named (fun _ _ => True) start actions ↔ Meets step Kept start actions :=
 along_iff (I := Inv) (fun _ inv => inv.named) (fun _ _ _ _ => trivial) step_inv
  (fun s action inv out _ => step_broken s action inv out) actions start
  ⟨List.Pairwise.nil,by simp [start],by simp [start]⟩
theorem long_names_collide : ∃ s, run step start [.create (some (replicate 20 97 ++ [98])) (some []) (some 1),
     .create (some (replicate 20 97 ++ [99])) (some []) (some 2)] = some s ∧
 s.mcb_qh.map Mcb.port_name = [replicate 20 97,replicate 20 97] ∧
 find_msgport_byname s (replicate 20 97 ++ [98]) = none ∧ ¬ Named s := by
 refine ⟨_,rfl,by decide,by decide,?_⟩
 intro named
 exact absurd named.1 (by decide)

end
end Netbas.PortNames
