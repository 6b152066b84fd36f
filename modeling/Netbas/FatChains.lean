import Mathlib.Data.List.Nodup
import Mathlib.Tactic

/-!
The clusters of a FAT volume (`drv/fs/fat/fattable.c`): the search for a free one, and the chains of the files
(`search_right_iff`).
-/
namespace Netbas.FatChains
open List
open Function
inductive Magic where
 | FAT12_MAGIC
 | FAT16_MAGIC
 | FAT32_MAGIC
 deriving DecidableEq
abbrev Table := Nat -> Nat

/-- `last_fat` is 5 at the start. -/
structure State where
 fat : Table
 last_fat : Nat
variable (m : Magic)
def msdos_eof (cluster : Nat) : Bool :=
 match m with
 | .FAT12_MAGIC => 0x0FF8 ≤ cluster % 2^16
 | .FAT16_MAGIC => 0xFFF8 ≤ cluster % 2^16
 | .FAT32_MAGIC => 0x0FFFFFF8 ≤ cluster

/-- The entry of a cluster. The functions of the wider tables panic for a bad one. -/
def entry (cluster : Nat) : Option Nat :=
 match m with
 | .FAT12_MAGIC => some (cluster % 2^16)
 | .FAT16_MAGIC => if 65526 ≤ cluster % 2^28 then none else some (cluster % 2^28)
 | .FAT32_MAGIC => if 268435455 ≤ cluster % 2^28 then none else some (cluster % 2^28)

/-- For which entries `bread` succeeds: in the loops along a chain, in the search, and when an entry
  is set. No call reads an entry twice for the same purpose. -/
structure Device where
 walk : Nat -> Bool
 search : Nat -> Bool
 set : Nat -> Bool

/-- The table of FAT12 is in memory. -/
def readable (read : Nat -> Bool) (i : Nat) : Bool := m = .FAT12_MAGIC || read i
variable (read : Nat -> Bool)
def msdos_next (fat : Table) (cluster : Nat) : Option Nat :=
 (entry m cluster).map (fun i => if readable m read i then fat i else 268435455)
def msdos_setc (fat : Table) (cluster c : Nat) : Option Table :=
 (entry m cluster).map (fun i =>
  if readable m read i then update fat i (if m = .FAT32_MAGIC then c % 2^32 else c % 2^16) else fat)
def msdos_set_end (fat : Table) (cluster : Nat) : Option Table :=
 msdos_setc m read fat cluster (match m with
  | .FAT12_MAGIC => 0xff8
  | .FAT16_MAGIC => 0xfff8
  | .FAT32_MAGIC => 0x0ffffff8)
def find_loop (fat : Table) : Nat -> Nat -> Option Nat
 | 0, _ => none
 | fuel + 1, c =>
  if msdos_eof m c then some c
  else
   match msdos_next m read fat c with
   | none => none
   | some 0 => some c
   | some _ => find_loop fat fuel (c + 1)
def turns : Nat := 2^28
def fat_find_free (s : State) : Option (Nat × State) :=
 match find_loop m read s.fat turns s.last_fat with
 | none => none
 | some c => some (if msdos_eof m c then (0,s) else (c,{s with last_fat := c}))
def tail_loop (fat : Table) : Nat -> Nat -> Option Nat
 | 0, _ => none
 | fuel + 1, end_cluster =>
  match msdos_next m read fat end_cluster with
  | none => none
  | some t => if t = 0 ∨ msdos_eof m t then some end_cluster else tail_loop fat fuel t
def fat_add_tail (d : Device) (s : State) (start : Nat) : Option (Nat × State) :=
 match tail_loop m d.walk s.fat turns start with
 | none => none
 | some end_cluster =>
  match fat_find_free m d.search s with
  | none => none
  | some (0,s') => some (0,s')
  | some (c,s') =>
   match msdos_setc m d.set s'.fat end_cluster c with
   | none => none
   | some fat => (msdos_set_end m d.set fat c).map (fun fat => (c,{s' with fat := fat}))
def free_loop (d : Device) : Nat -> Nat -> Table -> Option Table
 | 0, _, _ => none
 | fuel + 1, next_cluster, fat =>
  if msdos_eof m next_cluster ∨ next_cluster = 0 then some fat
  else
   match msdos_next m d.walk fat next_cluster,msdos_setc m d.set fat next_cluster 0 with
   | some t,some fat => free_loop d fuel t fat
   | _,_ => none
def fat_free_file (d : Device) (s : State) (start_cluster : Nat) : Option State :=
 (free_loop m d turns start_cluster s.fat).map (fun fat => {s with fat := fat})

/-! ### Chains -/
def ceiling : Nat :=
 match m with
 | .FAT12_MAGIC => 4088
 | .FAT16_MAGIC => 65526
 | .FAT32_MAGIC => 268435448
def Linked (fat : Table) : List Nat -> Prop
 | [] => False
 | [c] => msdos_eof m (fat c)
 | a :: b :: l => fat a = b ∧ Linked fat (b :: l)

/-- The chains of the files end with a mark and share no cluster. -/
structure Chains (fat : Table) (files : List (List Nat)) : Prop where
 linked : ∀ l ∈ files, Linked m fat l
 usable : ∀ c ∈ files.flatten, c ≠ 0 ∧ c < ceiling m
 once : files.flatten.Nodup

def working : Device := ⟨fun _ => true,fun _ => true,fun _ => true⟩

/-- The tables that calls leave while the reads succeed, and the chains of the files. The other
  volumes change `last_fat` too. -/
inductive Reached : State -> List (List Nat) -> Prop where
 | start {fat : Table} {files : List (List Nat)} : Chains m fat files -> Reached ⟨fat,5⟩ files
 | other {s : State} {files : List (List Nat)} {n : Nat} : Reached s files -> 5 ≤ n -> n < ceiling m ->
  Reached {s with last_fat := n} files
 | add {s s' : State} {files files' : List (List Nat)} {a c : Nat} {l : List Nat} : Reached s (files ++ (a :: l) :: files') ->
  fat_add_tail m working s a = some (c,s') -> Reached s' (files ++ (if c = 0 then a :: l else a :: l ++ [c]) :: files')
 | free {s s' : State} {files files' : List (List Nat)} {a : Nat} {l : List Nat} : Reached s (files ++ (a :: l) :: files') ->
  fat_free_file m working s a = some s' -> Reached s' (files ++ files')
variable {m} {fat : Table} {s s' : State} {a c n : Nat} {l : List Nat}
lemma entry_eq (lt : c < ceiling m) : entry m c = some c := by
 cases m <;> simp only [ceiling,entry] at lt ⊢
 · rw [Nat.mod_eq_of_lt (by omega)]
 · rw [Nat.mod_eq_of_lt (by omega),if_neg (by omega)]
 · rw [Nat.mod_eq_of_lt (by omega),if_neg (by omega)]
lemma not_eof (lt : c < ceiling m) : msdos_eof m c = false := by
 cases m <;> simp only [ceiling,msdos_eof,decide_eq_false_iff_not] at lt ⊢ <;> omega
lemma next_eq (fat : Table) (lt : c < ceiling m) :
 msdos_next m working.walk fat c = some (fat c) ∧ msdos_next m working.search fat c = some (fat c) := by
 simp [msdos_next,entry_eq lt,readable,working]
lemma setc_eq (fat : Table) (lt : c < ceiling m) (small : n < ceiling m) : msdos_setc m working.set fat c n = some (update fat c n) := by
 simp only [msdos_setc,entry_eq lt,Option.map_some,readable,working,Bool.or_true,if_true]
 cases m <;> simp only [ceiling] at small <;> simp <;> congr 1 <;> omega
lemma set_end_eq (fat : Table) (lt : c < ceiling m) : ∃ n, msdos_eof m n ∧ msdos_set_end m working.set fat c = some (update fat c n) := by
 simp only [msdos_set_end,msdos_setc,entry_eq lt,Option.map_some,readable,working,Bool.or_true,if_true]
 cases m
 · exact ⟨0xff8,by decide,rfl⟩
 · exact ⟨0xfff8,by decide,rfl⟩
 · exact ⟨0x0ffffff8,by decide,rfl⟩
lemma ceiling_lt : ceiling m < turns := by
 cases m <;> decide
lemma find_step (lt : c < ceiling m) (used : fat c ≠ 0) (fuel : Nat) :
 find_loop m working.search fat (fuel + 1) c = find_loop m working.search fat fuel (c + 1) := by
 rw [find_loop,if_neg (by simp [not_eof lt]),(next_eq fat lt).2]
 split <;> simp_all
lemma find_loop_free {h : Nat} (lt : c < ceiling m) (free : fat c = 0) : ∀ {fuel : Nat}, h ≤ c -> (∀ b, h ≤ b -> b < c -> fat b ≠ 0) ->
 c - h < fuel -> find_loop m working.search fat fuel h = some c := by
 intro fuel
 induction fuel generalizing h with
 | zero => omega
 | succ fuel ih =>
  intro low used enough
  obtain rfl | less : h = c ∨ h < c := by omega
  · rw [find_loop,if_neg (by simp [not_eof lt]),(next_eq fat lt).2,free]
    rfl
  rw [find_step (by omega) (used h le_rfl less)]
  exact ih less (fun b from_h => used b (by omega)) (by omega)
lemma find_loop_full {h : Nat} : ∀ {fuel : Nat}, h ≤ ceiling m -> (∀ b, h ≤ b -> b < ceiling m -> fat b ≠ 0) -> ceiling m - h < fuel ->
 find_loop m working.search fat fuel h = if m = .FAT16_MAGIC then none else some (ceiling m) := by
 intro fuel
 induction fuel generalizing h with
 | zero => omega
 | succ fuel ih =>
  intro low used enough
  obtain rfl | lt : h = ceiling m ∨ h < ceiling m := by omega
  · cases m <;> rfl
  rw [find_step lt (used h le_rfl lt)]
  exact ih lt (fun b from_h => used b (by omega)) (by omega)
lemma find_cases (hint : s.last_fat < ceiling m) :
 (∃ c, s.last_fat ≤ c ∧ c < ceiling m ∧ s.fat c = 0 ∧ (∀ b, s.last_fat ≤ b -> b < c -> s.fat b ≠ 0) ∧
  fat_find_free m working.search s = some (c,{s with last_fat := c})) ∨
  (∀ b, s.last_fat ≤ b -> b < ceiling m -> s.fat b ≠ 0) ∧
   fat_find_free m working.search s = if m = .FAT16_MAGIC then none else some (0,s) := by
 have enough := ceiling_lt (m := m)
 by_cases free : ∃ c, s.last_fat ≤ c ∧ c < ceiling m ∧ s.fat c = 0
 · obtain ⟨low,lt,zero⟩ := Nat.find_spec free
   have used : ∀ b, s.last_fat ≤ b -> b < Nat.find free -> s.fat b ≠ 0 :=
    fun b from_hint less zero => Nat.find_min free less ⟨from_hint,by omega,zero⟩
   refine .inl ⟨Nat.find free,low,lt,zero,used,?_⟩
   rw [fat_find_free,find_loop_free lt zero low used (by omega)]
   simp [not_eof lt]
 push Not at free
 refine .inr ⟨free,?_⟩
 rw [fat_find_free,find_loop_full (by omega) free (by omega)]
 cases m <;> rfl
lemma Linked.nonzero (link : Linked m fat l) (usable : ∀ c ∈ l, c ≠ 0) : ∀ c ∈ l, fat c ≠ 0 := by
 induction l with
 | nil => simp
 | cons a l ih =>
  cases l with
  | nil =>
   intro c mem zero
   rw [mem_singleton.mp mem] at zero
   rw [Linked,zero] at link
   cases m <;> simp [msdos_eof] at link
  | cons b l =>
   intro c mem
   obtain rfl | later := mem_cons.mp mem
   · rw [link.1]
     exact usable b (by simp)
   · exact ih link.2 (fun c mem => usable c (mem_cons_of_mem _ mem)) c later
lemma Linked.congr {fat' : Table} (link : Linked m fat l) (eq : ∀ c ∈ l, fat' c = fat c) : Linked m fat' l := by
 induction l with
 | nil => exact link
 | cons a l ih =>
  cases l with
  | nil => simpa [Linked,eq a (by simp)] using link
  | cons b l => exact ⟨(eq a (by simp)).trans link.1,ih link.2 (fun c mem => eq c (mem_cons_of_mem _ mem))⟩

/-- The walk of `fat_add_tail` ends at the last cluster. -/
lemma tail_loop_eq {fuel : Nat} (link : Linked m fat (a :: l)) (usable : ∀ c ∈ a :: l, c ≠ 0 ∧ c < ceiling m)
 (enough : l.length < fuel) : tail_loop m working.walk fat fuel a = some ((a :: l).getLast (by simp)) := by
 induction l generalizing a fuel with
 | nil =>
  obtain ⟨fuel,rfl⟩ := Nat.exists_eq_succ_of_ne_zero (show fuel ≠ 0 by omega)
  rw [tail_loop,(next_eq fat (usable a (by simp)).2).1]
  exact if_pos (.inr link)
 | cons b l ih =>
  obtain ⟨fuel,rfl⟩ := Nat.exists_eq_succ_of_ne_zero (show fuel ≠ 0 by omega)
  have snd := usable b (by simp)
  rw [tail_loop,(next_eq fat (usable a (by simp)).2).1,link.1]
  simp only [snd.1,not_eof snd.2,Bool.false_eq_true,or_self,if_false]
  exact ih link.2 (fun c mem => usable c (mem_cons_of_mem _ mem)) (by simpa using enough)
lemma Linked.append {e : Nat} (link : Linked m fat l) (once : l.Nodup) (new : c ∉ l) (mark : msdos_eof m e) (nonempty : l ≠ []) :
 Linked m (update (update fat (l.getLast nonempty) c) c e) (l ++ [c]) := by
 induction l with
 | nil => exact absurd rfl nonempty
 | cons a l ih =>
  have ne : a ≠ c := fun eq => new (by simp [eq])
  cases l with
  | nil => simpa [Linked,ne] using mark
  | cons b l =>
   have apart : a ≠ (b :: l).getLast (by simp) := fun eq => (nodup_cons.mp once).1 (eq ▸ getLast_mem _)
   rw [getLast_cons (by simp)]
   refine ⟨?_,ih link.2 (nodup_cons.mp once).2 (fun mem => new (mem_cons_of_mem _ mem)) (by simp)⟩
   rw [update_of_ne ne,update_of_ne apart]
   exact link.1
lemma free_step (usable : a ≠ 0 ∧ a < ceiling m) (fuel : Nat) :
 free_loop m working (fuel + 1) a fat = free_loop m working fuel (fat a) (update fat a 0) := by
 have zero : 0 < ceiling m := by omega
 rw [free_loop,if_neg (by simp [not_eof usable.2,usable.1]),(next_eq fat usable.2).1,setc_eq fat usable.2 zero]

/-- `fat_free_file` clears the clusters of the chain. -/
lemma free_loop_eq {fuel : Nat} (link : Linked m fat (a :: l)) (once : (a :: l).Nodup)
 (usable : ∀ c ∈ a :: l, c ≠ 0 ∧ c < ceiling m) (enough : l.length + 1 < fuel) :
 free_loop m working fuel a fat = some (fun c => if c ∈ a :: l then 0 else fat c) := by
 induction l generalizing a fat fuel with
 | nil =>
  obtain ⟨fuel,rfl⟩ := Nat.exists_eq_add_of_lt enough
  rw [free_step (usable a (by simp)),show [].length + 1 + fuel = fuel + 1 by simp [Nat.add_comm],free_loop,if_pos (.inl link)]
  congr 1
  funext c
  simp [update,eq_rec_constant]
 | cons b l ih =>
  obtain ⟨fuel,rfl⟩ := Nat.exists_eq_succ_of_ne_zero (show fuel ≠ 0 by omega)
  obtain ⟨new,once'⟩ := nodup_cons.mp once
  have kept : Linked m (update fat a 0) (b :: l) := by
   refine link.2.congr fun c mem => update_of_ne ?_ _ _
   rintro rfl
   exact new mem
  rw [free_step (usable a (by simp)),link.1,ih kept once' (fun c mem => usable c (mem_cons_of_mem _ mem)) (by simpa using enough)]
  congr 1
  funext c
  by_cases here : c = a
  · simp [here]
  · simp [here]
lemma length_lt (once : l.Nodup) (usable : ∀ c ∈ l, c ≠ 0 ∧ c < ceiling m) : l.length < ceiling m + 1 := by
 have inside : l ⊆ range (ceiling m) := fun c mem => mem_range.mpr (usable c mem).2
 have := (once.subperm inside).length_le
 rw [length_range] at this
 omega

/-! ### What the calls keep -/
variable {files files' rest : List (List Nat)}
lemma Chains.perm (chains : Chains m fat files) (eq : files.Perm files') : Chains m fat files' where
 linked l mem := chains.linked l (eq.mem_iff.mpr mem)
 usable c mem := chains.usable c (eq.flatten.mem_iff.mpr mem)
 once := eq.flatten.nodup_iff.mp chains.once
lemma Chains.file (chains : Chains m fat ((a :: l) :: rest)) :
 Linked m fat (a :: l) ∧ (a :: l).Nodup ∧ (∀ c ∈ a :: l, c ≠ 0 ∧ c < ceiling m) ∧ (a :: l).length < turns - 1 := by
 have once : (a :: l).Nodup := (nodup_flatten.mp chains.once).1 _ mem_cons_self
 have usable : ∀ c ∈ a :: l, c ≠ 0 ∧ c < ceiling m := fun c here => chains.usable c (mem_flatten.mpr ⟨_,mem_cons_self,here⟩)
 have few := length_lt once usable
 have : ceiling m + 1 < turns - 1 := by cases m <;> decide
 exact ⟨chains.linked _ mem_cons_self,once,usable,by omega⟩
lemma Chains.nonzero (chains : Chains m fat files) (mem : c ∈ files.flatten) : fat c ≠ 0 := by
 obtain ⟨l,file,here⟩ := mem_flatten.mp mem
 exact (chains.linked l file).nonzero (fun c mem => (chains.usable c (mem_flatten.mpr ⟨l,file,mem⟩)).1) c here

/-- The other files, in a table that is the same for their clusters. -/
lemma Chains.others {fat' : Table} (chains : Chains m fat (l :: rest)) (eq : ∀ c ∈ rest.flatten, fat' c = fat c) :
 Chains m fat' rest where
 linked k mem := (chains.linked k (mem_cons_of_mem _ mem)).congr (fun c here => eq c (mem_flatten.mpr ⟨k,mem,here⟩))
 usable c mem := chains.usable c (by simp only [flatten_cons,mem_append,mem,or_true])
 once := (nodup_append.mp chains.once).2.1
lemma Chains.apart (chains : Chains m fat (l :: rest)) (mem : c ∈ rest.flatten) : c ∉ l :=
 fun here => (nodup_append.mp chains.once).2.2 c here c mem rfl
lemma Chains.append (chains : Chains m fat (l :: rest)) (ne : l ≠ []) (free : fat c = 0) (pos : c ≠ 0) (lt : c < ceiling m)
 (mark : msdos_eof m n) : Chains m (update (update fat (l.getLast ne) c) c n) ((l ++ [c]) :: rest) := by
 have new : c ∉ (l :: rest).flatten := fun mem => chains.nonzero mem free
 have here : c ∉ l := fun mem => new (mem_flatten.mpr ⟨_,mem_cons_self,mem⟩)
 have others : Chains m (update (update fat (l.getLast ne) c) c n) rest := by
  refine chains.others fun b mem => ?_
  have other : b ≠ c := by
   rintro rfl
   exact new (by simp only [flatten_cons,mem_append,mem,or_true])
  rw [update_of_ne other,update_of_ne]
  rintro rfl
  exact chains.apart mem (getLast_mem _)
 have once : l.Nodup := (nodup_append.mp chains.once).1
 refine ⟨?_,?_,?_⟩
 · exact forall_mem_cons.mpr ⟨(chains.linked l mem_cons_self).append once here mark ne,others.linked⟩
 · intro b mem
   rw [flatten_cons,mem_append,mem_append,mem_singleton] at mem
   obtain (own | rfl) | other := mem
   · exact chains.usable b (mem_flatten.mpr ⟨_,mem_cons_self,own⟩)
   · exact ⟨pos,lt⟩
   · exact others.usable b other
 rw [flatten_cons,append_assoc,singleton_append,perm_middle.nodup_iff,nodup_cons]
 exact ⟨new,chains.once⟩

/-- `fat_add_tail` appends the cluster that the search finds, or fails as the search does. -/
lemma add_tail_eq (chains : Chains m s.fat ((a :: l) :: rest)) (hint : s.last_fat < ceiling m) (low : 5 ≤ s.last_fat) :
 (∃ c s', s.last_fat ≤ c ∧ fat_add_tail m working s a = some (c,s') ∧ (fat_find_free m working.search s).map Prod.fst = some c ∧ s'.last_fat = c ∧
  c < ceiling m ∧ Chains m s'.fat ((a :: l ++ [c]) :: rest)) ∨
 fat_add_tail m working s a = fat_find_free m working.search s ∧ (fat_find_free m working.search s = none ∨ fat_find_free m working.search s = some (0,s)) := by
 obtain ⟨link,-,usable,few⟩ := chains.file
 have tail : tail_loop m working.walk s.fat turns a = _ := tail_loop_eq link usable (by simp at few; omega)
 obtain ⟨c,from_hint,lt,free,-,found⟩ | ⟨-,full⟩ := find_cases hint
 · have last := (usable _ (getLast_mem (show a :: l ≠ [] by simp))).2
   obtain ⟨n,mark,ended⟩ := set_end_eq (update s.fat ((a :: l).getLast (by simp)) c) lt
   obtain ⟨d,rfl⟩ := Nat.exists_eq_succ_of_ne_zero (show c ≠ 0 by omega)
   have added : fat_add_tail m working s a = some (d + 1,⟨update (update s.fat ((a :: l).getLast (by simp)) (d + 1)) (d + 1) n,d + 1⟩) := by
    simp only [fat_add_tail,tail,found,setc_eq s.fat last lt]
    rw [ended]
    rfl
   exact .inl ⟨_,_,from_hint,added,by rw [found]; rfl,rfl,lt,chains.append (by simp) free (by omega) lt mark⟩
 right
 rw [fat_add_tail,tail,full]
 cases m <;> simp
lemma free_file_eq (chains : Chains m s.fat ((a :: l) :: rest)) :
 ∃ s', fat_free_file m working s a = some s' ∧ s'.last_fat = s.last_fat ∧ Chains m s'.fat rest := by
 obtain ⟨link,once,usable,few⟩ := chains.file
 have freed : free_loop m working turns a s.fat = _ := free_loop_eq link once usable (by simp at few; omega)
 exact ⟨⟨fun c => if c ∈ a :: l then 0 else s.fat c,s.last_fat⟩,by rw [fat_free_file,freed]; rfl,rfl,chains.others (fun c mem => if_neg (chains.apart mem))⟩
lemma Reached.chains (reached : Reached m s files) : Chains m s.fat files ∧ 5 ≤ s.last_fat ∧ s.last_fat < ceiling m := by
 induction reached with
 | start chains => exact ⟨chains,le_rfl,show 5 < ceiling m by cases m <;> decide⟩
 | other _ low hint ih => exact ⟨ih.1,low,hint⟩
 | add _ added ih =>
  obtain ⟨chains,low,hint⟩ := ih
  have chains' := chains.perm perm_middle
  obtain ⟨c,s',from_hint,added',-,rfl,lt,kept⟩ | ⟨eq,failed⟩ := add_tail_eq chains' hint low
  · obtain ⟨rfl,rfl⟩ := Prod.mk.inj (Option.some.inj (added'.symm.trans added))
    rw [if_neg (by omega)]
    exact ⟨kept.perm perm_middle.symm,by omega,lt⟩
  rw [added] at eq
  obtain failed | failed := failed
  · simp [failed] at eq
  obtain ⟨rfl,rfl⟩ := Prod.mk.inj (Option.some.inj (eq.trans failed))
  exact ⟨chains,low,hint⟩
 | free _ freed ih =>
  obtain ⟨chains,low,hint⟩ := ih
  obtain ⟨s',freed',eq,kept⟩ := free_file_eq (chains.perm perm_middle)
  obtain rfl := Option.some.inj (freed'.symm.trans freed)
  exact ⟨kept,eq ▸ low,eq ▸ hint⟩

/-- `fat_add_tail` appends the cluster of the search to the chain of the file. -/
def Adds (m : Magic) (d : Device) (s : State) (files : List (List Nat)) : Prop :=
 ∀ pre a l post, files = pre ++ (a :: l) :: post -> ∃ c s', fat_add_tail m d s a = some (c,s') ∧
  (fat_find_free m d.search s).map Prod.fst = some c ∧ Chains m s'.fat (pre ++ (if c = 0 then a :: l else a :: l ++ [c]) :: post)

/-- The search returns 0 only when no cluster up to `fat_entries` is free, and else a free one of them. -/
structure Right (m : Magic) (fat_entries : Nat) (d : Device) (s : State) (files : List (List Nat)) : Prop where
 found : ∃ c s', fat_find_free m d.search s = some (c,s') ∧
  if c = 0 then ∀ b, 2 ≤ b -> b ≤ fat_entries -> s.fat b ≠ 0 else 2 ≤ c ∧ c ≤ fat_entries ∧ s.fat c = 0
 added : Adds m d s files
end Netbas.FatChains
