import Netbas.PageTables

/-!
What the functions of the paging code do to a sound machine. `Exclusive` is the second invariant: a
writable entry is the only one of its page.
-/
namespace Netbas.PageOps
open Frames FrameUse Paging PageTables Referents List Option
open Function
def entries (s : Machine) : List (Nat × Nat) := tables s ×ˢ List.range 1024
def Exclusive (s : Machine) : Prop :=
 ∀ x ∈ entries s, ∀ y ∈ entries s, s.ram x.1 x.2 &&& PAGE_WRITABLE ≠ 0 -> target (s.ram x.1 x.2) ≠ none ->
  target (s.ram y.1 y.2) = target (s.ram x.1 x.2) -> y = x

section
variable {extra : List Nat} {n k : Nat} {s s' : Machine} {p q t i c j w cr3 vaddr : Nat}
lemma mem_entries : (t,i) ∈ entries s ↔ t ∈ tables s ∧ i < 1024 := by
 unfold entries
 rw [mem_product,mem_range]
lemma Exclusive.set {x : Nat × Nat} (excl : Exclusive s) (eq : tables s' = tables s)
 (rest : ∀ y ∈ entries s, y ≠ x -> s'.ram y.1 y.2 = s.ram y.1 y.2)
 (alone : s'.ram x.1 x.2 &&& PAGE_WRITABLE ≠ 0 -> target (s'.ram x.1 x.2) ≠ none ->
  ∀ y ∈ entries s, y ≠ x -> target (s.ram y.1 y.2) ≠ target (s'.ram x.1 x.2))
 (away : ∀ y ∈ entries s, y ≠ x -> s.ram y.1 y.2 &&& PAGE_WRITABLE ≠ 0 -> target (s.ram y.1 y.2) ≠ none ->
  target (s'.ram x.1 x.2) ≠ target (s.ram y.1 y.2)) : Exclusive s' := by
 have sameEntries : entries s' = entries s := by unfold entries; rw [eq]
 intro y fst z snd writable present ref
 rw [sameEntries] at fst snd
 by_cases here : y = x
 · subst here
   by_contra ne
   rw [rest z snd ne] at ref
   exact alone writable present z snd ne ref
 rw [rest y fst here] at writable present ref
 by_cases hit : z = x
 · subst hit
   exact absurd ref (away y fst here writable present)
 rw [rest z snd hit] at ref
 exact excl y fst z snd writable present ref
lemma poke_others {x : Nat × Nat} {m : PageMap} (ne : x ≠ (t,i)) :
 (({s with map := m} : Machine).poke (t * 4096) i w).ram x.1 x.2 = s.ram x.1 x.2 := by
 rw [poke_ram]
 split_ifs with eq
 · have apart : x.2 ≠ i := by
    intro equal
    exact ne (Prod.ext eq equal)
   show update (s.ram t) i w x.2 = s.ram x.1 x.2
   rw [update_of_ne apart,eq]
 · rfl
lemma poke_here {m : PageMap} : (({s with map := m} : Machine).poke (t * 4096) i w).ram t i = w := by
 rw [poke_ram,if_pos rfl,update_self]
lemma poke_addCount (s : Machine) (addr i w v : Nat) (change : Int) :
  (s.poke addr i w).addCount v change =
   ({s with map := s.map.setCount (s.map.MAP_NR v) (s.count v + change)} : Machine).poke addr i w := rfl
lemma Exclusive.sub (excl : Exclusive s)
 (old : ∀ x ∈ entries s', target (s'.ram x.1 x.2) ≠ none -> x ∈ entries s ∧ s'.ram x.1 x.2 = s.ram x.1 x.2) :
 Exclusive s' := by
 intro x fst y snd writable here ref
 obtain ⟨oldX,sameX⟩ := old x fst here
 obtain ⟨oldY,sameY⟩ := old y snd (by rw [ref]; exact here)
 rw [sameX] at writable here ref
 rw [sameY] at ref
 exact excl x oldX y oldY writable here ref
lemma Exclusive.congr (excl : Exclusive s) (procs : s'.procs = s.procs)
 (eq : ∀ p ∈ owned s, s'.ram p = s.ram p) : Exclusive s' := by
 obtain ⟨_,tabs,_⟩ := layout_congr procs eq
 refine excl.sub ?_
 intro x mem _
 unfold entries at mem
 rw [tabs] at mem
 exact ⟨mem,by rw [eq x.1 (mem_append_right _ (mem_product.mp mem).1)]⟩
lemma Exclusive.add_table (excl : Exclusive s) (perm : (tables s').Perm (p :: tables s))
 (blank : ∀ i < 1024, target (s'.ram p i) = none) (eq : ∀ t ∈ tables s, s'.ram t = s.ram t) : Exclusive s' := by
 refine excl.sub ?_
 intro x mem here
 obtain ⟨table,idx⟩ := mem_product.mp mem
 rcases mem_cons.mp (perm.mem_iff.mp table) with isNew | isOld
 · rw [isNew] at here
   exact absurd (blank x.2 (mem_range.mp idx)) here
 · exact ⟨mem_product.mpr ⟨isOld,idx⟩,by rw [eq x.1 isOld]⟩

/-! ### Page directories -/
lemma Sound.fresh_small (ok : Sound extra n s) (memory : InMemory s.map p) : p < 2^20 ∧ p * 4096 ≠ 0 := by
 have := ok.counts.geometry.word
 have := ok.counts.geometry.low
 have := memory.1
 have := memory.2
 constructor <;> omega
lemma fix_pagedir_spec (ok : Sound extra (n + 1) s) (mem : cr3 ∈ s.procs) (user : PDE_IDX vaddr ∈ userEntries) :
 ∃ r s', fix_pagedir_not_present s cr3 vaddr = some (r,s') ∧ Sound extra n s' ∧ Kept s s' ∧ s'.procs = s.procs ∧
  (Exclusive s -> Exclusive s') ∧ target (s'.ram (cr3 / 4096) (PDE_IDX vaddr)) ≠ none ∧
  (∀ c ∈ dirs s, ∀ j, target (s.ram c j) ≠ none -> s'.ram c j = s.ram c j) ∧
  (s.ram (cr3 / 4096) (PDE_IDX vaddr) = 0 -> target (s'.ram (cr3 / 4096) (PDE_IDX vaddr)) = some (r / 4096) ∧
   r % 4096 = 0 ∧ ∀ q, Fresh s.map (owned s) (mapped s) q -> Fresh s'.map (owned s') (mapped s') q) := by
 have page : cr3 / 4096 * 4096 = cr3 := by
  have := ok.pages cr3 mem
  omega
 have dir := mem_dirs mem
 unfold fix_pagedir_not_present
 dsimp only
 by_cases some : s.word cr3 (PDE_IDX vaddr) ≠ 0
 · rw [if_pos some]
   refine ⟨_,s,rfl,ok.mono (by omega),.refl s,rfl,id,?_,fun _ _ _ _ => rfl,fun zero => absurd zero some⟩
   exact (ok.whole _ dir _ user).resolve_left some
 rw [if_neg some]
 have zero : s.ram (cr3 / 4096) (PDE_IDX vaddr) = 0 := not_not.mp some
 obtain ⟨p,map,ran,ok1,new,_,rest⟩ := ok.get
 obtain ⟨small,ne0⟩ := Sound.fresh_small ok1 new.memory
 rw [ran]
 dsimp only
 rw [if_neg ne0]
 set s1 : Machine := {s with map := map} with s1Is
 obtain ⟨ok2,kept2,fresh2⟩ := ok1.fill new fun _ => 0
 set s2 := s1.fill (p * 4096) (fun _ => 0) with s2Is
 have apart : cr3 / 4096 ≠ p := by
  intro equal
  exact new.unowned (equal ▸ mem_append_left _ dir)
 have dirKept : ∀ c ∈ dirs s, s2.ram c = s.ram c := by
  intro c isDir
  rw [s2Is,fill_ram,if_neg]
  rintro rfl
  exact new.unowned (mem_append_left _ isDir)
 -- The source links the table before it clears it; the order makes no difference.
 have commute : (s1.poke cr3 (PDE_IDX vaddr) (p * 4096 ||| PAGE_PUW)).fill (p * 4096) (fun _ => 0) =
   s2.poke (cr3 / 4096 * 4096) (PDE_IDX vaddr) (p * 4096 ||| PAGE_PUW) := by
  rw [<- poke_fill_comm apart,page]
 rw [commute]
 have blank : ∀ i < 1024, target (s2.ram p i) = none := by
  intro i _
  rw [s2Is,fill_ram,if_pos rfl,target_zero]
 have zero2 : s2.ram (cr3 / 4096) (PDE_IDX vaddr) = 0 := by rw [dirKept _ dir,zero]
 obtain ⟨sound3,kept3,perm⟩ := ok2.add_table fresh2 dir user zero2 blank
 refine ⟨_,_,rfl,sound3,?_,rfl,?_,?_,?_,?_⟩
 · exact kept2.trans kept3 fun _ => id
 · intro excl
   have notDir : ∀ t ∈ p :: tables s2, t ≠ cr3 / 4096 := by
    intro t isTable equal
    rcases mem_cons.mp isTable with isNew | isOld
    · exact apart (equal.symm.trans isNew)
    · exact ok2.table_not_dir isOld (equal ▸ dir)
   have excl2 : Exclusive s2 := by
    refine excl.congr (s := s) rfl ?_
    intro q used
    rw [s2Is,fill_ram,if_neg]
    rintro rfl
    exact new.unowned used
   refine excl2.add_table perm ?_ ?_
   · intro i lt
     rw [poke_ram,if_neg (notDir p (by simp))]
     exact blank i lt
   intro t isTable
   rw [poke_ram,if_neg (notDir t (by simp [isTable]))]
 · rw [poke_ram,if_pos rfl,update_self,target_puw small]
   simp
 · intro c isDir j here
   rw [poke_ram]
   split_ifs with eq
   · have ne : j ≠ PDE_IDX vaddr := by
      rintro rfl
      rw [eq,zero,target_zero] at here
      exact here rfl
     rw [update_of_ne ne,dirKept _ dir,eq]
   · rw [dirKept c isDir]
 intro _
 refine ⟨by rw [poke_ram,if_pos rfl,update_self,target_puw small,show p * 4096 / 4096 = p by omega],
  by omega,?_⟩
 intro q freshQ
 obtain ⟨⟨memory,single,unowned,unmapped⟩,apart'⟩ := rest q freshQ
 have laid : dirs s2 = dirs s ∧ tables s2 = tables s ∧ mapped s2 = mapped s := by
  refine layout_congr rfl ?_
  intro c used
  rw [s2Is,fill_ram,if_neg]
  rintro rfl
  exact new.unowned used
 obtain ⟨dirs2,tables2,mapped2⟩ := laid
 refine ⟨memory,single,?_,?_⟩
 · intro used
   rcases mem_append.mp used with isDir | isTable
   · exact unowned (mem_append_left _ isDir)
   rcases mem_cons.mp (perm.mem_iff.mp isTable) with eq | isOld
   · exact apart' eq
   · exact unowned (mem_append_right _ (tables2 ▸ isOld))
 intro maps
 obtain ⟨ne,isProc,v,userV,leads⟩ := mem_mapped.mp maps
 rw [(kept3 ne isProc v userV).1] at leads
 exact unmapped (mapped2 ▸ mem_mapped.mpr ⟨ne,isProc,v,userV,leads⟩)
lemma user_entry (lt : i < 384) : PDE_IDX (USER_SPACE_ADDR + i * 0x400000) = 512 + i ∧ 512 + i ∈ userEntries := by
 unfold PDE_IDX USER_SPACE_ADDR userEntries
 rw [mem_range'_1]
 omega
lemma map_proc_spec (mem : cr3 ∈ s.procs) (ok : Sound extra (n + 384) s) :
 ∃ s', map_proc s cr3 = some s' ∧ Sound extra n s' ∧ Kept s s' ∧ s'.procs = s.procs ∧ (Exclusive s -> Exclusive s') ∧
  ∀ j ∈ userEntries, target (s'.ram (cr3 / 4096) j) ≠ none := by
 -- The loop over any of the entries, with those before them present.
 have loop : ∀ (l : List Nat) (s : Machine), (∀ i ∈ l, i < 384) -> cr3 ∈ s.procs -> Sound extra (n + l.length) s ->
   ∃ s', l.foldlM (fun s i => (fix_pagedir_not_present s cr3 (USER_SPACE_ADDR + i * 0x400000)).map Prod.snd) s =
    some s' ∧ Sound extra n s' ∧ Kept s s' ∧ s'.procs = s.procs ∧ (Exclusive s -> Exclusive s') ∧
    (∀ i ∈ l, target (s'.ram (cr3 / 4096) (512 + i)) ≠ none) ∧
    ∀ j, target (s.ram (cr3 / 4096) j) ≠ none -> target (s'.ram (cr3 / 4096) j) ≠ none := by
  intro l
  induction l with
  | nil =>
   intro s _ _ ok
   exact ⟨s,rfl,ok,.refl s,rfl,id,by simp,fun _ present => present⟩
  | cons i rest ih =>
   intro s le mem ok
   obtain ⟨idx,user⟩ := user_entry (le i (by simp))
   rw [<- idx] at user
   obtain ⟨r,s1,fixed,ok1,walks1,procs1,excl1,present1,kept1,_⟩ :=
    fix_pagedir_spec (n := n + rest.length) (by simpa [add_assoc] using ok) mem user
   obtain ⟨s2,looped,ok2,walks2,procs2,excl2,present2,kept2⟩ :=
    ih s1 (fun k inside => le k (by simp [inside])) (procs1 ▸ mem) ok1
   refine ⟨s2,?_,ok2,walks1.trans walks2 (fun _ inside => procs1 ▸ inside),procs2.trans procs1,
    excl2 ∘ excl1,?_,?_⟩
   · rw [foldlM_cons,fixed]
     exact looped
   · intro k inside
     rcases mem_cons.mp inside with rfl | inside
     · rw [idx] at present1
       exact kept2 _ present1
     · exact present2 k inside
   intro j present
   exact kept2 j (by rw [kept1 _ (mem_dirs mem) j present]; exact present)
 obtain ⟨s',looped,ok',eq,procs,excl,present,_⟩ :=
  loop (List.range 384) s (fun i inside => mem_range.mp inside) mem (by simpa using ok)
 refine ⟨s',looped,ok',eq,procs,excl,?_⟩
 intro j user
 have le := mem_range'_1.mp user
 have here := present (j - 512) (mem_range.mpr (by omega))
 rwa [show 512 + (j - 512) = j by omega] at here
lemma arch_proc_init_spec (ok : Sound extra (n + 385) s) :
 ∃ cr3 s', arch_proc_init s = some (cr3,s') ∧ cr3 ≠ 0 ∧ Sound extra n s' ∧ Kept s s' ∧ s'.procs = cr3 :: s.procs ∧
  cr3 ∉ s.procs ∧ (Exclusive s -> Exclusive s') ∧ (∀ j ∈ userEntries, target (s'.ram (cr3 / 4096) j) ≠ none) ∧
  ∀ vaddr, User vaddr -> walk s' cr3 vaddr = none := by
 obtain ⟨p,map,ran,ok1,new,_⟩ := Sound.get (n := n + 384) ok
 obtain ⟨_,ne0⟩ := Sound.fresh_small ok1 new.memory
 have page : p * 4096 / 4096 = p := by omega
 set s1 : Machine := {s with map := map} with s1Is
 set ct : Nat -> Nat := fun i => if 512 ≤ i ∧ i < 896 then 0 else s1.word s1.KERN_PG_DIR_ADDR i with contentIs
 obtain ⟨ok2,kept2,fresh2⟩ := ok1.fill new ct
 set s2 := s1.fill (p * 4096) ct with s2Is
 have blank : ∀ j ∈ userEntries, s2.ram p j = 0 := by
  intro j user
  have le := mem_range'_1.mp user
  rw [s2Is,fill_ram,if_pos rfl,contentIs]
  exact if_pos (by omega)
 have sound3 := ok2.add_dir fresh2 blank
 set s3 : Machine := {s2 with procs := p * 4096 :: s2.procs} with s3Is
 have member3 : p * 4096 ∈ s3.procs := by simp [s3Is]
 obtain ⟨s4,mapped4,sound4,kept4,procs4,exclusive4,present4⟩ := map_proc_spec member3 sound3
 have kept3 : Kept s s3 := fun cr3 mem vaddr user => kept2 cr3 mem vaddr user
 refine ⟨p * 4096,s4,?_,ne0,sound4,kept3.trans kept4 (fun cr3 mem => mem_cons_of_mem _ mem),procs4,?_,?_,
  present4,?_⟩
 · unfold arch_proc_init arch_cr3_init
   rw [ran]
   dsimp only
   rw [if_neg ne0]
   dsimp only
   rw [if_neg ne0,mapped4]
   rfl
 · intro mem
   exact new.unowned (mem_append_left _ (page ▸ mem_dirs mem))
 · intro excl
   apply exclusive4
   have excl2 : Exclusive s2 := by
    refine excl.congr (s := s) rfl ?_
    intro q used
    rw [s2Is,fill_ram,if_neg]
    rintro rfl
    exact new.unowned used
   have tabs : tables s3 = tables s2 := by
    show refs s2.ram (dirs s3) userEntries = refs s2.ram (dirs s2) userEntries
    rw [show dirs s3 = p :: dirs s2 by simp [s3Is,dirs,page]]
    exact refs_blank fun j user => by rw [blank j user,target_zero]
   unfold Exclusive entries
   rw [tabs]
   exact excl2
 intro vaddr user
 rw [(kept4 (p * 4096) member3 vaddr user).1,walk_eq,page]
 show ((target (s2.ram p (PDE_IDX vaddr))).bind _) = none
 rw [blank _ user,target_zero]
 rfl

/-! ### Fork -/
lemma poke_comm (ne : p ≠ q) (s : Machine) (i j v w : Nat) :
 (s.poke (p * 4096) i v).poke (q * 4096) j w = (s.poke (q * 4096) j w).poke (p * 4096) i v := by
 unfold Machine.poke
 simp only [show p * 4096 / 4096 = p by omega,show q * 4096 / 4096 = q by omega,update_of_ne ne,
  update_of_ne ne.symm]
 rw [update_comm ne.symm]
def TablesOnly (s s' : Machine) : Prop :=
 s'.procs = s.procs ∧ tables s' = tables s ∧ ∀ p, p ∉ tables s -> s'.ram p = s.ram p
lemma TablesOnly.refl (s : Machine) : TablesOnly s s := ⟨rfl,rfl,fun _ _ => rfl⟩
lemma TablesOnly.trans {s'' : Machine} (fst : TablesOnly s s') (snd : TablesOnly s' s'') : TablesOnly s s'' := by
 obtain ⟨procs1,tables1,rest1⟩ := fst
 obtain ⟨procs2,tables2,rest2⟩ := snd
 refine ⟨procs2.trans procs1,tables2.trans tables1,?_⟩
 intro p out
 rw [rest2 p (tables1 ▸ out),rest1 p out]
lemma TablesOnly.poke {m : PageMap} (table : t ∈ tables s)
  (eq : tables (({s with map := m} : Machine).poke (t * 4096) i w) = tables s) :
  TablesOnly s (({s with map := m} : Machine).poke (t * 4096) i w) := by
 refine ⟨rfl,eq,?_⟩
 intro p out
 rw [poke_ram,if_neg]
 rintro rfl
 exact out table
lemma TablesOnly.dir (only : TablesOnly s s') (ok : Sound extra n s) (mem : cr3 ∈ s.procs) :
 s'.ram (cr3 / 4096) = s.ram (cr3 / 4096) :=
 only.2.2 _ (fun table => ok.table_not_dir table (mem_dirs mem))
lemma TablesOnly.page (only : TablesOnly s s') (ok : Sound extra n s) (mem : p ∈ mapped s) : s'.ram p = s.ram p :=
 only.2.2 p (fun table => ok.table_unmapped table mem)
def Writable (s : Machine) (cr3 vaddr : Nat) : Prop :=
 ∃ t p, target (s.ram (cr3 / 4096) (PDE_IDX vaddr)) = some t ∧ target (s.ram t (PTE_IDX vaddr)) = some p ∧
  s.ram t (PTE_IDX vaddr) &&& PAGE_WRITABLE ≠ 0
lemma Writable.walk_ne (writable : Writable s cr3 vaddr) : walk s cr3 vaddr ≠ none := by
 obtain ⟨t,p,leads,ref,_⟩ := writable
 rw [walk_eq,leads,bind_some,ref]
 exact some_ne_none p

section
variable {parent child fromTable toTable : Nat} {region : Nat -> Prop}
structure Copied (extra : List Nat) (n parent child : Nat) (region : Nat -> Prop) (s s' : Machine) : Prop where
 sound : Sound extra n s'
 only : TablesOnly s s'
 exclusive : Exclusive s -> Exclusive s'
 copied : ∀ v, User v -> region v -> walk s' child v = walk s parent v
 others : ∀ cr3 ∈ s.procs, ∀ v, User v -> ¬ (cr3 = child ∧ region v) -> walk s' cr3 v = walk s cr3 v
 writable : ∀ cr3 ∈ s.procs, ∀ v, User v -> Writable s' cr3 v ->
  Writable s cr3 v ∧ ¬ ((cr3 = parent ∨ cr3 = child) ∧ region v)
lemma Copied.none (ok : Sound extra n s)
 (blank : ∀ v, User v -> region v -> walk s parent v = Option.none ∧ walk s child v = Option.none) :
 Copied extra n parent child region s s := by
 refine ⟨ok,.refl s,id,?_,fun _ _ _ _ _ => rfl,?_⟩
 · intro v user mem
   obtain ⟨ofParent,ofChild⟩ := blank v user mem
   rw [ofParent,ofChild]
 intro cr3 _ v user writable
 refine ⟨writable,?_⟩
 rintro ⟨rfl | rfl,mem⟩
 · exact writable.walk_ne (blank v user mem).1
 · exact writable.walk_ne (blank v user mem).2
lemma Copied.trans {rest : Nat -> Prop} {s'' : Machine} (ne : parent ≠ child) (up : parent ∈ s.procs)
 (down : child ∈ s.procs) (fst : Copied extra n parent child region s s')
 (snd : Copied extra n parent child rest s' s'') :
 Copied extra n parent child (fun v => region v ∨ rest v) s s'' := by
 have procs := fst.only.1
 refine ⟨snd.sound,fst.only.trans snd.only,snd.exclusive ∘ fst.exclusive,?_,?_,?_⟩
 · intro v user inside
   by_cases later : rest v
   · rw [snd.copied v user later]
     exact fst.others parent up v user fun here => ne here.1
   rw [snd.others child (procs ▸ down) v user (fun here => later here.2)]
   exact fst.copied v user (inside.resolve_right later)
 · intro cr3 mem v user out
   rw [snd.others cr3 (procs ▸ mem) v user (fun here => out ⟨here.1,.inr here.2⟩)]
   exact fst.others cr3 mem v user fun here => out ⟨here.1,.inl here.2⟩
 intro cr3 mem v user writable
 obtain ⟨writable,notRest⟩ := snd.writable cr3 (procs ▸ mem) v user writable
 obtain ⟨writable,notFirst⟩ := fst.writable cr3 mem v user writable
 exact ⟨writable,fun here => here.2.elim (fun inside => notFirst ⟨here.1,inside⟩) (fun inside => notRest ⟨here.1,inside⟩)⟩
lemma copy_entry_spec (ok : Sound extra n s) (up : parent ∈ s.procs) (down : child ∈ s.procs)
 (apart : parent ≠ child) (user : j ∈ userEntries) (fromIs : target (s.ram (parent / 4096) j) = some fromTable)
 (toIs : target (s.ram (child / 4096) j) = some toTable) (lt : i < 1024)
 (blank : target (s.ram toTable i) = none) :
 Copied extra n parent child (fun v => PDE_IDX v = j ∧ PTE_IDX v = i) s
  (copy_entry (fromTable * 4096) (toTable * 4096) s i) := by
 have isFrom : fromTable ∈ tables s := mem_refs.mpr ⟨_,mem_dirs up,j,user,fromIs⟩
 have isTo : toTable ∈ tables s := mem_refs.mpr ⟨_,mem_dirs down,j,user,toIs⟩
 have tablesApart : fromTable ≠ toTable := by
  rintro rfl
  exact apart (ok.entry_unique up down user user fromIs toIs).1
 have word := word_ram s fromTable i
 have ofParent : ∀ vaddr, PDE_IDX vaddr = j -> PTE_IDX vaddr = i -> walk s parent vaddr = target (s.ram fromTable i) := by
  rintro vaddr rfl rfl
  rw [walk_eq,fromIs]
  rfl
 unfold copy_entry
 simp only [word]
 cases ref : target (s.ram fromTable i) with
 | none =>
  rw [if_pos (target_none.mp ref)]
  refine .none ok ?_
  rintro v _ ⟨idx,entry⟩
  rw [ofParent v idx entry,walk_eq,idx,toIs,bind_some,entry]
  exact ⟨ref,blank⟩
 | some p =>
  obtain ⟨here,_,_⟩ := target_some ref
  rw [if_neg here]
  have kept := target_readOnly ref
  obtain ⟨page,small⟩ := readOnly_page ref
  change Copied _ _ _ _ _ s (((s.poke (toTable * 4096) i (readOnly (s.ram fromTable i))).poke (fromTable * 4096) i
   (readOnly (s.ram fromTable i))).addCount (readOnly (s.ram fromTable i)) 1)
  set w := readOnly (s.ram fromTable i) with wIs
  rw [poke_comm tablesApart.symm]
  obtain ⟨ok1,tables1,mapped1,kept1⟩ := ok.reflag (w := w) isFrom lt (by rw [kept,ref])
  have only1 := TablesOnly.poke (m := s.map) isFrom tables1
  set s1 := s.poke (fromTable * 4096) i w with s1Is
  have isTo1 : toTable ∈ tables s1 := tables1 ▸ isTo
  have blank1 : target (s1.ram toTable i) = none := by
   rw [s1Is,poke_ram,if_neg tablesApart.symm,blank]
  have member1 : p ∈ mapped s1 := mapped1.mem_iff.mpr (page_of_entry isFrom lt ref)
  obtain ⟨ok2,tables2,_⟩ := ok1.map_shared isTo1 lt blank1 kept member1 page small
  rw [poke_addCount] at ok2 tables2 ⊢
  have only2 := TablesOnly.trans only1 (TablesOnly.poke isTo1 tables2)
  refine ⟨ok2,only2,?_,?_,?_,?_⟩
  · -- The entry of the parent loses its write access first.
    intro excl
    have excl1 : Exclusive s1 := by
     refine excl.set (x := (fromTable,i)) tables1 (fun y _ ne => poke_others (m := s.map) ne) ?_ ?_
     · intro writable
       rw [show s1.ram fromTable i = w from poke_here (m := s.map)] at writable
       exact absurd (readOnly_not_writable _) writable
     intro y mem ne writable some
     rw [show s1.ram fromTable i = w from poke_here (m := s.map),kept]
     intro eq
     exact ne (excl y mem (fromTable,i) (mem_entries.mpr ⟨isFrom,lt⟩) writable some
      (ref.trans eq)).symm
    refine excl1.set (x := (toTable,i)) tables2 (fun y _ ne => poke_others ne) ?_ ?_
    · intro writable
      rw [poke_here] at writable
      exact absurd (readOnly_not_writable _) writable
    intro y mem ne writable some
    rw [poke_here,kept]
    intro eq
    have from1 : s1.ram fromTable i = w := poke_here (m := s.map)
    have isParents := excl1 y mem (fromTable,i) (mem_entries.mpr ⟨tables1 ▸ isFrom,lt⟩) writable some
     (by rw [from1,kept,eq])
    rw [<- isParents,from1] at writable
    exact writable (readOnly_not_writable _)
  · rintro v _ ⟨idx,entry⟩
    rw [ok1.walk_entry isTo1 down v,TablesOnly.dir only1 ok down,idx,if_pos ⟨toIs,entry⟩,
     ofParent v idx entry,ref,kept]
  · intro cr3 mem v userAddr out
    rw [ok1.walk_entry isTo1 mem v,TablesOnly.dir only1 ok mem,if_neg]
    · exact (kept1 cr3 mem v userAddr).1
    rintro ⟨leads,entry⟩
    obtain ⟨eq,idx⟩ := ok.entry_unique mem down userAddr user leads toIs
    exact out ⟨eq,idx,entry⟩
  rintro cr3 mem vaddr userAddr ⟨t,q,leads,entry,bit⟩
  rw [TablesOnly.dir only2 ok mem] at leads
  by_cases isCopy : (t,PTE_IDX vaddr) = (toTable,i)
  · obtain ⟨rfl,atIndex⟩ := Prod.mk.inj isCopy
    rw [atIndex,poke_here] at bit
    exact absurd (readOnly_not_writable _) bit
  rw [poke_others (x := (t,PTE_IDX vaddr)) isCopy] at entry bit
  by_cases isOriginal : (t,PTE_IDX vaddr) = (fromTable,i)
  · obtain ⟨rfl,atIndex⟩ := Prod.mk.inj isOriginal
    dsimp only at bit
    rw [atIndex,s1Is,poke_here (m := s.map)] at bit
    exact absurd (readOnly_not_writable _) bit
  have original : s1.ram t (PTE_IDX vaddr) = s.ram t (PTE_IDX vaddr) := poke_others (m := s.map) isOriginal
  dsimp only at entry bit
  rw [original] at entry bit
  refine ⟨⟨t,q,leads,entry,bit⟩,?_⟩
  rintro ⟨isEither,idx,atIndex⟩
  rw [idx] at leads
  rcases isEither with rfl | rfl
  · rw [fromIs] at leads
    cases leads
    exact isOriginal (by rw [atIndex])
  rw [toIs] at leads
  cases leads
  exact isCopy (by rw [atIndex])
lemma copy_entries_spec (ne : parent ≠ child) (user : j ∈ userEntries) (l : List Nat) : ∀ s : Machine, l.Nodup ->
 Sound extra n s -> parent ∈ s.procs -> child ∈ s.procs -> target (s.ram (parent / 4096) j) = some fromTable ->
 target (s.ram (child / 4096) j) = some toTable ->
 (∀ i ∈ l, i < 1024 ∧ ∀ v, PDE_IDX v = j -> PTE_IDX v = i -> walk s child v = none) ->
 Copied extra n parent child (fun v => PDE_IDX v = j ∧ PTE_IDX v ∈ l) s
  (l.foldl (copy_entry (fromTable * 4096) (toTable * 4096)) s) := by
 induction l with
 | nil => exact fun s _ ok _ _ _ _ _ => .none ok (by simp)
 | cons i rest ih =>
  intro s once ok up down fromIs toIs free
  obtain ⟨new,once⟩ := nodup_cons.mp once
  obtain ⟨lt,blank⟩ := free i (by simp)
  obtain ⟨idx,entry⟩ := address_of_entry (j := j) lt
  have blankEntry := blank _ idx entry
  rw [walk_eq,idx,toIs,bind_some,entry] at blankEntry
  have fst := copy_entry_spec ok up down ne user fromIs toIs lt blankEntry
  have procs := fst.only.1
  have snd := ih _ once fst.sound (procs ▸ up) (procs ▸ down)
   (by rw [fst.only.dir ok up]; exact fromIs) (by rw [fst.only.dir ok down]; exact toIs) (by
    intro k mem
    obtain ⟨lt,blank⟩ := free k (by simp [mem])
    refine ⟨lt,?_⟩
    intro v idx entry
    rw [fst.others child down v (by rw [User,idx]; exact user),blank v idx entry]
    rintro ⟨_,_,eq⟩
    exact new (eq ▸ entry ▸ mem))
  simpa only [foldl_cons,mem_cons,and_or_left] using fst.trans ne up down snd
lemma copy_pagedir_spec (ok : Sound extra n s) (up : parent ∈ s.procs) (down : child ∈ s.procs)
 (ne : parent ≠ child) (user : PDE_IDX vaddr ∈ userEntries)
 (here : target (s.ram (child / 4096) (PDE_IDX vaddr)) ≠ none)
 (blank : ∀ v, PDE_IDX v = PDE_IDX vaddr -> walk s child v = none) :
 ∃ s', copy_pagedir s parent child vaddr = some s' ∧
  Copied extra n parent child (fun v => PDE_IDX v = PDE_IDX vaddr) s s' := by
 set j := PDE_IDX vaddr with jIs
 obtain ⟨toTable,toIs⟩ := ne_none_iff_exists'.mp here
 obtain ⟨toPresent,toPage,_⟩ := target_some toIs
 unfold copy_pagedir Machine.word
 rw [<- jIs]
 cases fromIs : target (s.ram (parent / 4096) j) with
 | none =>
  rw [if_pos (target_none.mp fromIs)]
  refine ⟨s,rfl,.none ok ?_⟩
  intro v _ idx
  rw [blank v idx,walk_eq,idx,fromIs]
  exact ⟨rfl,rfl⟩
 | some fromTable =>
  obtain ⟨fromPresent,fromPage,_⟩ := target_some fromIs
  rw [if_neg fromPresent]
  dsimp only
  rw [if_neg toPresent]
  simp only [map_some,fromPage,toPage]
  have loop := copy_entries_spec ne user (List.range 1024) s nodup_range ok up down fromIs toIs
   (fun i mem => ⟨mem_range.mp mem,fun v idx _ => blank v idx⟩)
  simp only [mem_range,pte_idx_lt,and_true] at loop
  exact ⟨_,rfl,loop⟩
lemma copy_pagedirs_spec (ne : parent ≠ child) (l : List Nat) : ∀ s : Machine, l.Nodup -> (∀ i ∈ l, i < 384) ->
 Sound extra n s -> parent ∈ s.procs -> child ∈ s.procs -> (∀ j ∈ userEntries, target (s.ram (child / 4096) j) ≠ none) ->
 (∀ i ∈ l, ∀ v, PDE_IDX v = 512 + i -> walk s child v = none) ->
 ∃ s', l.foldlM (fun s i => copy_pagedir s parent child (USER_SPACE_ADDR + i * 0x400000)) s = some s' ∧
  Copied extra n parent child (fun v => ∃ i ∈ l, PDE_IDX v = 512 + i) s s' := by
 induction l with
 | nil => exact fun s _ _ ok _ _ _ _ => ⟨s,rfl,.none ok (by simp)⟩
 | cons i rest ih =>
  intro s once le ok up down present blank
  obtain ⟨new,once⟩ := nodup_cons.mp once
  obtain ⟨idx,user⟩ := user_entry (le i (by simp))
  rw [<- idx] at user
  obtain ⟨s1,copied,fst⟩ := copy_pagedir_spec ok up down ne user (present _ user)
   (fun v eq => blank i (by simp) v (by rw [eq,idx]))
  rw [idx] at fst
  have procs := fst.only.1
  obtain ⟨s2,loop,snd⟩ := ih s1 once (fun k mem => le k (by simp [mem])) fst.sound (procs ▸ up)
   (procs ▸ down) (by rw [fst.only.dir ok down]; exact present) (by
    intro k mem v eq
    have userAddr : User v := by
     unfold User
     rw [eq]
     exact (user_entry (le k (by simp [mem]))).2
    rw [fst.others child down v userAddr,blank k (by simp [mem]) v eq]
    rintro ⟨_,here⟩
    have equal : k = i := by omega
    exact new (equal ▸ mem))
  refine ⟨s2,by rw [foldlM_cons,copied]; exact loop,?_⟩
  simpa only [mem_cons,exists_eq_or_imp] using fst.trans ne up down snd
lemma copy_proc_code_spec (ok : Sound extra n s) (up : parent ∈ s.procs) (down : child ∈ s.procs)
 (ne : parent ≠ child) (here : ∀ j ∈ userEntries, target (s.ram (child / 4096) j) ≠ none)
 (blank : ∀ v, User v -> walk s child v = none) :
 ∃ s', copy_proc_code s parent child = some s' ∧ Copied extra n parent child User s s' := by
 obtain ⟨s',loop,copied⟩ := copy_pagedirs_spec ne (List.range 384) s nodup_range
  (fun i mem => mem_range.mp mem) ok up down here (by
   intro i mem v idx
   refine blank v ?_
   unfold User
   rw [idx]
   exact (user_entry (mem_range.mp mem)).2)
 have reached : (fun v => ∃ i ∈ List.range 384, PDE_IDX v = 512 + i) = User := by
  funext v
  simp only [User,userEntries,mem_range,mem_range'_1,eq_iff_iff]
  constructor
  · rintro ⟨i,lt,idx⟩
    omega
  intro le
  exact ⟨PDE_IDX v - 512,by omega,by omega⟩
 rw [reached] at copied
 exact ⟨s',loop,copied⟩
lemma fork_spec (ok : Sound extra (n + 385) s) (up : parent ∈ s.procs) :
 ∃ child s', fork s parent = some s' ∧ Sound extra n s' ∧ s'.procs = child :: s.procs ∧ child ∉ s.procs ∧ Kept s s' ∧
  (∀ v, User v -> walk s' child v = walk s parent v) ∧ (Exclusive s -> Exclusive s') ∧
  ∀ v, User v -> ¬ Writable s' parent v ∧ ¬ Writable s' child v := by
 obtain ⟨child,s1,created,ne0,ok1,kept1,procs1,new,excl1,present,blank⟩ := arch_proc_init_spec ok
 have ne : parent ≠ child := fun eq => new (eq ▸ up)
 have isParent1 : parent ∈ s1.procs := by simp [procs1,up]
 have isChild1 : child ∈ s1.procs := by simp [procs1]
 obtain ⟨s2,ran,copied⟩ := copy_proc_code_spec ok1 isParent1 isChild1 ne present blank
 refine ⟨child,s2,?_,copied.sound,copied.only.1.trans procs1,new,?_,?_,copied.exclusive ∘ excl1,?_⟩
 · unfold fork
   rw [created]
   dsimp only
   rw [if_neg ne0]
   exact ran
 · intro cr3 mem v userAddr
   have member1 : cr3 ∈ s1.procs := by simp [procs1,mem]
   have old : cr3 ≠ child := fun eq => new (eq ▸ mem)
   obtain ⟨walks,pages⟩ := kept1 cr3 mem v userAddr
   refine ⟨by rw [copied.others cr3 member1 v userAddr (fun here => old here.1),walks],?_⟩
   intro p leads
   rw [copied.only.page ok1 (mem_mapped.mpr ⟨cr3,member1,v,userAddr,walks.trans leads⟩),pages p leads]
 · intro v userAddr
   rw [copied.copied v userAddr userAddr]
   exact (kept1 parent up v userAddr).1
 intro v userAddr
 exact ⟨fun writable => (copied.writable parent isParent1 v userAddr writable).2 ⟨.inl rfl,userAddr⟩,
  fun writable => (copied.writable child isChild1 v userAddr writable).2 ⟨.inr rfl,userAddr⟩⟩

end

end
end Netbas.PageOps
