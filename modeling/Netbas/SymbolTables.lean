import Netbas.Runs
import Netbas.Keyed

/-!
The tables of exported symbols (`core/fs/dll_manage.c`). A name that fills its array is read on into
what lies behind it, which is given with the call. `exports_along`: no symbol is exported by two
installed tables.
-/
namespace Netbas.SymbolTables
open Runs Keyed List
abbrev Text := List UInt8
structure Export where
 export_name : Text
 export_addr : BitVec 32
 nonzero : export_addr ≠ 0
deriving DecidableEq
example : Export := ⟨[97],0x442000,by decide⟩
structure Module where
 dll_name : Text
 dll_num : Int
 dll_addr : List Export
deriving DecidableEq

variable (sym : List Export)
def entries (num : Int) : List Export := sym.take num.toNat
def find_sym_in_dll (num : Int) (str : Text) : BitVec 32 :=
 (((entries sym num).find? (fun ete => ete.export_name = str)).map Export.export_addr).getD 0
section
variable (mod_head : List Module)
def find_dll_table (dll_namex : Text) : Option Module :=
 mod_head.find? (fun pmod => pmod.dll_name = dll_namex)
def remove_dll_table (dll_namex : Text) : Int × List Module :=
 match find_dll_table mod_head dll_namex with
 | none => (-1,mod_head)
 | some pmod => (0,mod_head.erase pmod)
def dll_install_check (name : Text) (num : Int) (sym_pos : List Export) : Bool :=
 mod_head.all (fun pmod => pmod.dll_name ≠ name ∧
  (entries sym_pos num).all (fun sym => find_sym_in_dll pmod.dll_addr pmod.dll_num sym.export_name = 0))
def stored (dll_namex behind : Text) : Text :=
 if dll_namex.length < 256 then dll_namex else dll_namex.take 256 ++ behind

/-- Whether the table is installed, and the tables after the call; `memory` says whether
  `kcalloc` succeeds. Fewer symbols than their number says are read past their end. -/
def install_dll_table (dll_namex behind : Text) (symbol_num : Int) (symbol_array : List Export)
  (memory : Bool) : Option (Bool × List Module) :=
 if symbol_num = 0 then some (false,mod_head)
 else if symbol_array.length < symbol_num then none
 else if dll_install_check mod_head dll_namex symbol_num symbol_array = false then some (false,mod_head)
 else if memory = false then some (false,mod_head)
 else some (true,⟨stored dll_namex behind,symbol_num,symbol_array⟩ :: mod_head)
def find_sym (s : Text) : BitVec 32 :=
 ((mod_head.find? (fun pmod => find_sym_in_dll pmod.dll_addr pmod.dll_num s ≠ 0)).map (fun pmod =>
  find_sym_in_dll pmod.dll_addr pmod.dll_num s)).getD 0
inductive Action where
 | install (dll_namex behind : Text) (symbol_num : Int) (symbol_array : List Export) (memory : Bool)
 | remove (dll_namex : Text)
deriving DecidableEq
def step : Action -> Option (List Module)
 | .install dll_namex behind symbol_num symbol_array memory =>
  (install_dll_table mod_head dll_namex behind symbol_num symbol_array memory).map Prod.snd
 | .remove dll_namex => some (remove_dll_table mod_head dll_namex).2
end
def Module.Exports (pmod : Module) (s : Text) : Prop := ∃ ete ∈ entries pmod.dll_addr pmod.dll_num, ete.export_name = s
def Apart (pmod pmod' : Module) : Prop := ∀ s, ¬ (pmod.Exports s ∧ pmod'.Exports s)

/-- No symbol is exported by two tables. A symbol is found in the table that exports it
  and nowhere else, in whatever order the tables are. -/
structure Sound (mod_head : List Module) : Prop where
 apart : mod_head.Pairwise Apart
 found : ∀ pmod ∈ mod_head, ∀ s, pmod.Exports s ->
  find_sym mod_head s = find_sym_in_dll pmod.dll_addr pmod.dll_num s ∧
   ∃ ete ∈ entries pmod.dll_addr pmod.dll_num, ete.export_name = s ∧ find_sym mod_head s = ete.export_addr
 missing : ∀ s, (∀ pmod ∈ mod_head, ¬ pmod.Exports s) -> find_sym mod_head s = 0
 order : ∀ others, mod_head.Perm others -> ∀ s, find_sym others s = find_sym mod_head s

section
variable {mod_head mods : List Module} {pmod pmod' : Module} {s : Text}
instance : Std.Symm Apart := ⟨fun _ _ apart s both => apart s both.symm⟩
lemma find_in_dll_cases (num : Int) (str : Text) :
 (find_sym_in_dll sym num str = 0 ∧ ∀ ete ∈ entries sym num, ete.export_name ≠ str) ∨
 ∃ ete ∈ entries sym num, ete.export_name = str ∧ find_sym_in_dll sym num str = ete.export_addr := by
 unfold find_sym_in_dll
 cases found : (entries sym num).find? (fun ete => ete.export_name = str) with
 | none =>
  refine .inl ⟨rfl,?_⟩
  intro ete mem eq
  exact find?_eq_none.mp found ete mem (by simp [eq])
 | some ete =>
  refine .inr ⟨ete,mem_of_find?_eq_some found,?_,rfl⟩
  simpa using find?_some found
lemma find_in_dll_ne_zero : find_sym_in_dll pmod.dll_addr pmod.dll_num s ≠ 0 ↔ pmod.Exports s := by
 rcases find_in_dll_cases pmod.dll_addr pmod.dll_num s with ⟨zero,absent⟩ | ⟨ete,mem,eq,found⟩
 · constructor
   · intro ne0
     exact absurd zero ne0
   rintro ⟨ete,mem,eq⟩
   exact absurd eq (absent ete mem)
 constructor
 · intro _
   exact ⟨ete,mem,eq⟩
 intro _
 rw [found]
 exact ete.nonzero
lemma search_clash (s : Text) (pmod pmod' : Module)
 (holds : decide (find_sym_in_dll pmod.dll_addr pmod.dll_num s ≠ 0) = true)
 (holds' : decide (find_sym_in_dll pmod'.dll_addr pmod'.dll_num s ≠ 0) = true) : ¬ Apart pmod pmod' := by
 rw [decide_eq_true_eq,find_in_dll_ne_zero] at holds holds'
 exact fun ne => ne s ⟨holds,holds'⟩
lemma sound_of_apart (apart : mod_head.Pairwise Apart) : Sound mod_head := by
 constructor
 case apart => exact apart
 case found =>
  intro pmod mem s exported
  have ne0 := find_in_dll_ne_zero.mpr exported
  have fst : find_sym mod_head s = find_sym_in_dll pmod.dll_addr pmod.dll_num s := by
   rw [find_sym,find?_of_pairwise apart (search_clash s) mem (by simpa using ne0)]
   rfl
  rcases find_in_dll_cases pmod.dll_addr pmod.dll_num s with ⟨zero,_⟩ | ⟨ete,mem,eq,found⟩
  · exact absurd zero ne0
  · exact ⟨fst,ete,mem,eq,fst.trans found⟩
 case missing =>
  intro s absent
  have missed : mod_head.find? (fun pmod => find_sym_in_dll pmod.dll_addr pmod.dll_num s ≠ 0) = none := by
   rw [find?_eq_none]
   intro pmod mem
   rw [decide_eq_true_eq,find_in_dll_ne_zero]
   exact absent pmod mem
  rw [find_sym,missed]
  rfl
 case order =>
  intro others perm s
  rw [find_sym,find_sym,find?_perm apart (search_clash s) perm]
lemma install_apart {name : Text} {num : Int} {sym_pos : List Export}
 (passed : dll_install_check mod_head name num sym_pos = true) (dll_name : Text) :
 ∀ pmod ∈ mod_head, Apart ⟨dll_name,num,sym_pos⟩ pmod := by
 intro pmod mem s both
 obtain ⟨⟨ete,listed,eq⟩,exported⟩ := both
 have checked := all_eq_true.mp passed pmod mem
 simp only [decide_eq_true_eq,all_eq_true] at checked
 have zero := checked.2 ete listed
 rw [eq] at zero
 exact find_in_dll_ne_zero.mpr exported zero
lemma step_apart (mods : List Module) (action : Action) (mods' : List Module) (ne : mods.Pairwise Apart)
 (ran : step mods action = some mods') : mods'.Pairwise Apart := by
 cases action with
 | install dll_namex behind symbol_num symbol_array memory =>
  obtain ⟨⟨installed,after⟩,called,rfl⟩ := Option.map_eq_some_iff.mp ran
  unfold install_dll_table at called
  split_ifs at called with _ _ refused
  · cases called
    exact ne
  · cases called
    exact ne
  · cases called
    exact ne
  cases called
  rw [Bool.not_eq_false] at refused
  exact pairwise_cons.mpr ⟨install_apart refused (stored dll_namex behind),ne⟩
 | remove dll_namex =>
  simp only [step,remove_dll_table,Option.some.injEq] at ran
  cases found : find_dll_table mods dll_namex with
  | none =>
   rw [<- ran,found]
   exact ne
  | some pmod =>
   rw [<- ran,found]
   exact ne.sublist erase_sublist

/-- Whatever is installed and removed, no symbol is exported by two of the tables, and
  `find_sym` finds the address in the one that exports it. -/
theorem exports_along (actions : List Action) : Along step Sound (fun _ _ => True) [] actions :=
 along_invariant (I := fun mods => mods.Pairwise Apart) (fun _ apart => sound_of_apart apart) (fun _ _ _ => trivial)
  step_apart actions [] List.Pairwise.nil

end
end Netbas.SymbolTables
