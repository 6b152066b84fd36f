import Mathlib.Tactic

/-!
The default environment (`ustack.c`). `env_match` accepts an entry whose name is the beginning of
the new one; `update_iff` says when the table is updated as it should be.
-/
namespace Netbas.EnvTable
open List
def ENV_ITEMS : Nat := 32
abbrev Text := List UInt8
def char (s : Text) (i : Nat) : UInt8 := s.getD i 0

/-- The loop that compares the names, over what is left of `len`: the index where it ends, if the strings do
  not differ before. -/
def compare_names (str1 str2 : Text) : Nat -> Nat -> Option Nat
 | 0, c => some c
 | left + 1, c =>
  if char str1 c ≠ char str2 c then none
  else if char str2 c = '='.toUInt8 then some c
  else compare_names str1 str2 left (c + 1)
def env_match (env1 env2 : Text) : Int :=
 let str1 := env1.dropWhile (· = ' '.toUInt8)
 if str1 = [] then -1
 else
  let len := (str1.takeWhile (· ≠ '='.toUInt8)).length
  let str2 := env2.dropWhile (· = ' '.toUInt8)
  if str2 = [] then -1
  else
   match compare_names str1 str2 len 0 with
   | none => -1
   | some c => if c < len ∨ char str1 c ≠ '='.toUInt8 then -1 else 0

/-- The strings of `default_env` before its first `NULL`; the last item is always `NULL`. The answer, and the
  strings after the call. -/
def set_userspace_environmental (default_env : List Text) (envptr : Text) : Int × List Text :=
 let i := default_env.findIdx (fun env => env_match env envptr = 0)
 if ENV_ITEMS - 1 ≤ i then (-1,default_env)
 else if i < default_env.length then (0,default_env.set i envptr)
 else (0,default_env ++ [envptr])
structure Entry where
 name : Text
 value : Text
 noEquals : '='.toUInt8 ∉ name
 noSpace : ' '.toUInt8 ∉ name
 named : 0 ∉ name
 valued : 0 ∉ value
def Entry.text (e : Entry) : Text := e.name ++ '='.toUInt8 :: e.value
structure Table where
 entries : List Entry
 fits : entries.length ≤ ENV_ITEMS - 1

variable {a e : Entry}

section
variable (e : Entry)
lemma text_dropWhile : e.text.dropWhile (· = ' '.toUInt8) = e.text := by
 obtain ⟨name,value,_,noSpace,_,_⟩ := e
 cases name with
 | nil => rfl
 | cons c rest =>
  have ne : c ≠ ' '.toUInt8 := fun eq => noSpace (by simp [eq])
  simp [Entry.text,ne]
lemma text_name : e.text.takeWhile (· ≠ '='.toUInt8) = e.name := by
 have all : ∀ c ∈ e.name, decide (c ≠ '='.toUInt8) = true :=
  fun c mem => decide_eq_true (fun eq => e.noEquals (eq ▸ mem))
 rw [Entry.text,takeWhile_append_of_pos all]
 simp
lemma text_ne_nil : e.text ≠ [] := by
 simp [Entry.text]
lemma char_name {c : Nat} (lt : c < e.name.length) : char e.text c = e.name[c] := by
 rw [char,getD_eq_getElem?_getD,Entry.text,getElem?_append_left lt,getElem?_eq_getElem lt,
  Option.getD_some]
lemma char_equals : char e.text e.name.length = '='.toUInt8 := by
 simp [char,Entry.text]
end
lemma compare_names_eq (a e : Entry) : ∀ left c, c + left = a.name.length ->
 compare_names a.text e.text left c =
  if ∀ i, c ≤ i -> i < a.name.length -> char e.text i = char a.text i then some a.name.length else none := by
 intro left
 induction left with
 | zero =>
  intro c total
  rw [compare_names,if_pos (fun i low high => by omega),show c = a.name.length by omega]
 | succ left ih =>
  intro c total
  rw [compare_names,ih (c + 1) (by omega)]
  by_cases eq : char a.text c = char e.text c
  · have goes : char e.text c ≠ '='.toUInt8 := by
     rw [<- eq,char_name a (by omega)]
     exact fun equals => a.noEquals (equals ▸ getElem_mem _)
    rw [if_neg (not_not.mpr eq),if_neg goes]
    refine if_congr ⟨fun later i low high => ?_,fun all i low high => all i (by omega) high⟩ rfl rfl
    by_cases fst : i = c
    · rw [fst,eq]
    · exact later i (by omega) high
  · rw [if_pos eq,if_neg (fun all => eq (all c le_rfl (by omega)).symm)]
lemma same_chars_iff (a e : Entry) :
 (∀ i, 0 ≤ i -> i < a.name.length -> char e.text i = char a.text i) ↔ a.name <+: e.name := by
 constructor
 · intro eq
   have short : a.name.length ≤ e.name.length := by
    by_contra long
    have equals := eq e.name.length (by omega) (by omega)
    rw [char_equals,char_name a (by omega)] at equals
    exact a.noEquals (equals ▸ getElem_mem _)
   rw [prefix_iff_getElem]
   refine ⟨short,fun i mem => ?_⟩
   have here := eq i (by omega) mem
   rw [char_name e (by omega),char_name a mem] at here
   exact here.symm
 rintro begins i - mem
 obtain ⟨short,eq⟩ := prefix_iff_getElem.mp begins
 rw [char_name e (by omega),char_name a mem,eq i mem]
lemma env_match_iff (a e : Entry) : env_match a.text e.text = 0 ↔ a.name <+: e.name := by
 simp only [env_match,text_dropWhile,text_name]
 rw [if_neg (text_ne_nil a),if_neg (text_ne_nil e),compare_names_eq a e _ 0 (by omega)]
 rw [<- same_chars_iff]
 by_cases eq : ∀ i, 0 ≤ i -> i < a.name.length -> char e.text i = char a.text i
 · rw [if_pos eq]
   simp only [char_equals]
   exact iff_of_true (by simp) eq
 rw [if_neg eq]
 exact iff_of_false (by simp) eq

variable (t : Table)
section
variable (e : Entry)
def updated : List Entry :=
 let i := t.entries.findIdx (fun a => a.name = e.name)
 if i < t.entries.length then t.entries.set i e
 else if t.entries.length < ENV_ITEMS - 1 then t.entries ++ [e]
 else t.entries

/-- Every entry whose name the new one begins with, and is not, comes behind the entry of that name. -/
def Unmistaken : Prop :=
 ∀ i (lt : i < t.entries.length), t.entries[i].name <+: e.name -> t.entries[i].name ≠ e.name ->
  ∃ j, ∃ pre : j < i, t.entries[j].name = e.name
def accepted : Nat := t.entries.findIdx (fun a => a.name <+: e.name)
def wanted : Nat := t.entries.findIdx (fun a => a.name = e.name)
lemma accepted_le_wanted : accepted t e ≤ wanted t e := by
 apply findIdx_le_findIdx
 intro a _ eq
 rw [decide_eq_true_eq] at eq ⊢
 rw [eq]
lemma unmistaken_iff : Unmistaken t e ↔ accepted t e = wanted t e := by
 constructor
 · intro unmistaken
   refine (accepted_le_wanted t e).antisymm ?_
   by_contra later
   have mem : accepted t e < t.entries.length := lt_of_lt_of_le (Nat.lt_of_not_le later) findIdx_le_length
   have begins : t.entries[accepted t e].name <+: e.name := of_decide_eq_true (findIdx_getElem (w := mem))
   have ne : t.entries[accepted t e].name ≠ e.name :=
    of_decide_eq_false (not_of_lt_findIdx (Nat.lt_of_not_le later))
   obtain ⟨j,pre,eq⟩ := unmistaken _ mem begins ne
   have unaccepted := not_of_lt_findIdx (p := fun a : Entry => a.name <+: e.name) pre
   simp [eq] at unaccepted
 intro hit i mem begins ne
 have low : accepted t e ≤ i := by
  by_contra early
  exact of_decide_eq_false (not_of_lt_findIdx (Nat.lt_of_not_le early)) begins
 have place : wanted t e < t.entries.length := by omega
 have eq : t.entries[wanted t e].name = e.name := of_decide_eq_true (findIdx_getElem (w := place))
 refine ⟨wanted t e,?_,eq⟩
 by_contra late
 have here : wanted t e = i := by omega
 simp only [here] at eq
 exact ne eq
lemma set_eq :
 (set_userspace_environmental (t.entries.map Entry.text) e.text).2 =
  (if accepted t e < t.entries.length then t.entries.set (accepted t e) e
   else if t.entries.length < ENV_ITEMS - 1 then t.entries ++ [e] else t.entries).map Entry.text := by
 have fits := t.fits
 have index : (t.entries.map Entry.text).findIdx (fun env => env_match env e.text = 0) = accepted t e := by
  rw [findIdx_map,accepted]
  congr 1
  funext a
  exact decide_eq_decide.mpr (env_match_iff a e)
 have bound : accepted t e ≤ t.entries.length := findIdx_le_length
 simp only [set_userspace_environmental,index,length_map]
 by_cases lt : accepted t e < t.entries.length
 · rw [if_neg (by omega),if_pos lt,if_pos lt,map_set]
 rw [if_neg lt,if_neg lt]
 by_cases room : t.entries.length < ENV_ITEMS - 1
 · rw [if_neg (by omega),if_pos room,map_append,map_singleton]
 · rw [if_pos (by omega),if_neg room]
end
lemma text_ne (different : a.name ≠ e.name) : a.text ≠ e.text := by
 intro eq
 apply different
 rw [<- text_name a,<- text_name e,eq]

/-- The table is what it should be after the call exactly when no other entry is taken for the one of the
  new name. -/
theorem update_iff (e : Entry) :
 (set_userspace_environmental (t.entries.map Entry.text) e.text).2 = (updated t e).map Entry.text ↔
  Unmistaken t e := by
 rw [unmistaken_iff,set_eq]
 constructor
 · intro equal
   by_contra differ
   have pre : accepted t e < wanted t e := lt_of_le_of_ne (accepted_le_wanted t e) differ
   have lt : accepted t e < t.entries.length := lt_of_lt_of_le pre findIdx_le_length
   have ne : t.entries[accepted t e].name ≠ e.name :=
    of_decide_eq_false (not_of_lt_findIdx pre)
   -- the place that was overwritten should have kept its entry
   have kept : ((updated t e).map Entry.text)[accepted t e]? = some t.entries[accepted t e].text := by
    simp only [updated]
    rw [<- wanted]
    split
    · rw [List.getElem?_map,List.getElem?_set_ne (Ne.symm differ),List.getElem?_eq_getElem lt]
      rfl
    split
    · rw [List.getElem?_map,List.getElem?_append_left lt,List.getElem?_eq_getElem lt]
      rfl
    rw [List.getElem?_map,List.getElem?_eq_getElem lt]
    rfl
   rw [<- equal,if_pos lt,List.getElem?_map,List.getElem?_set_self lt] at kept
   exact text_ne ne (Option.some.inj kept).symm
 intro found
 rw [found]
 rfl

/-- `OS=0` is in the table, and `OSX=1` is stored. -/
theorem longer_name_overwrites :
 let t : Table := ⟨[⟨[79,83],[48],by decide,by decide,by decide,by decide⟩],by decide⟩
 let e : Entry := ⟨[79,83,88],[49],by decide,by decide,by decide,by decide⟩
 (set_userspace_environmental (t.entries.map Entry.text) e.text).2 ≠ (updated t e).map Entry.text := by
 decide +kernel

end Netbas.EnvTable
