import Netbas.PageFaults

/-!
Teardown and shared mappings. `attach_share_page` copies entries without counting them, which is
right when every entry that it overwrites maps what the copied entry maps (`Neutral`).
-/
namespace Netbas.Teardown
open Frames FrameUse Paging PageTables PageOps List
open Function

section
variable {extra : List Nat} {n : Nat} {s s' : Machine} {p q t i c j w cr3 vaddr : Nat}
lemma remove_entry_ram (s : Machine) (t i : Nat) :
 (remove_entry (t * 4096) s i).ram = (s.poke (t * 4096) i 0).ram ∧ (remove_entry (t * 4096) s i).procs = s.procs := by
 unfold remove_entry
 dsimp only
 split_ifs
 · exact ⟨rfl,rfl⟩
 · exact ⟨rfl,rfl⟩
lemma remove_entries_spec (l : List Nat) : ∀ (s : Machine), Sound [] n s -> t ∈ tables s -> (∀ i ∈ l, i < 1024) ->
 ∃ s', l.foldl (remove_entry (t * 4096)) s = s' ∧ Sound [] n s' ∧ TablesOnly s s' ∧
  (∀ i, s'.ram t i = if i ∈ l then 0 else s.ram t i) ∧ ∀ p, p ≠ t -> s'.ram p = s.ram p := by
 induction l with
 | nil =>
  intro s ok _ _
  exact ⟨s,rfl,ok,.refl s,by simp,fun _ _ => rfl⟩
 | cons i rest ih =>
  intro s ok table le
  obtain ⟨ok1,tables1⟩ := ok.clear table (le i (by simp))
  obtain ⟨ram1,procs1⟩ := remove_entry_ram s t i
  set s1 := remove_entry (t * 4096) s i with s1Is
  have others1 : ∀ p, p ≠ t -> s1.ram p = s.ram p := by
   intro p ne
   rw [ram1,poke_ram,if_neg ne]
  have only1 : TablesOnly s s1 := by
   refine ⟨procs1,tables1,?_⟩
   intro p out
   refine others1 p ?_
   rintro rfl
   exact out table
  obtain ⟨s2,loop,ok2,only2,cleared2,others2⟩ :=
   ih s1 ok1 (tables1 ▸ table) (fun k mem => le k (by simp [mem]))
  refine ⟨s2,by rw [foldl_cons]; exact loop,ok2,only1.trans only2,?_,?_⟩
  · intro k
    rw [cleared2,ram1,poke_ram,if_pos rfl]
    by_cases eq : k = i
    · simp [eq]
    · simp [eq]
  intro p ne
  rw [others2 p ne,others1 p ne]
lemma remove_pagedir_spec (ok : Sound [] n s) (mem : cr3 ∈ s.procs) (user : PDE_IDX vaddr ∈ userEntries)
 (rmdir : Bool) :
 ∃ s', remove_pagedir s cr3 vaddr rmdir = s' ∧ Sound [] n s' ∧ s'.procs = s.procs ∧ (Exclusive s -> Exclusive s') ∧
  (rmdir = true -> target (s'.ram (cr3 / 4096) (PDE_IDX vaddr)) = none) ∧
  ∀ j, j ≠ PDE_IDX vaddr -> s'.ram (cr3 / 4096) j = s.ram (cr3 / 4096) j := by
 have page : cr3 / 4096 * 4096 = cr3 := by
  have := ok.pages cr3 mem
  omega
 have dir := mem_dirs mem
 unfold remove_pagedir Machine.word
 dsimp only
 cases leads : target (s.ram (cr3 / 4096) (PDE_IDX vaddr)) with
 | none =>
  rw [if_pos (target_none.mp leads)]
  exact ⟨s,rfl,ok,rfl,id,fun _ => leads,fun _ _ => rfl⟩
 | some t =>
  obtain ⟨present,tablePage,_⟩ := target_some leads
  have table : t ∈ tables s := mem_refs.mpr ⟨_,dir,_,user,leads⟩
  rw [if_neg present,tablePage]
  obtain ⟨s1,loop,ok1,only1,cleared1,others1⟩ := remove_entries_spec (range 1024) s ok table
   (fun i inside => mem_range.mp inside)
  rw [loop]
  have dir1 : s1.ram (cr3 / 4096) = s.ram (cr3 / 4096) := only1.dir ok mem
  have blank1 : ∀ i < 1024, target (s1.ram t i) = none := by
   intro i lt
   rw [cleared1,if_pos (mem_range.mpr lt),target_zero]
  have excl1 : Exclusive s -> Exclusive s1 := by
   intro excl
   refine excl.sub ?_
   intro x inside present
   unfold entries at inside
   rw [only1.2.1] at inside
   refine ⟨inside,?_⟩
   by_cases eq : x.1 = t
   · rw [eq,blank1 x.2 (mem_range.mp (mem_product.mp inside).2)] at present
     exact absurd rfl present
   · rw [others1 x.1 eq]
  cases rmdir with
  | false => exact ⟨s1,rfl,ok1,only1.1,excl1,by simp,fun j _ => by rw [dir1]⟩
  | true =>
   have leads1 : target (s1.ram (cr3 / 4096) (PDE_IDX vaddr)) = some t := by rw [dir1,leads]
   have isDir1 : cr3 / 4096 ∈ dirs s1 := mem_dirs (only1.1 ▸ mem)
   have ok2 := ok1.drop_table isDir1 user leads1 blank1
   rw [page] at ok2
   set s2 := (s1.free_page (t * 4096)).poke cr3 (PDE_IDX vaddr) 0 with s2Is
   have ram2 : ∀ q, s2.ram q = if q = cr3 / 4096 then update (s1.ram (cr3 / 4096)) (PDE_IDX vaddr) 0
     else s1.ram q := by
    intro q
    have poked := poke_ram (s1.free_page (t * 4096)) (cr3 / 4096) (PDE_IDX vaddr) 0 q
    rw [page] at poked
    exact poked
   refine ⟨s2,by simp [s2Is],ok2,only1.1,?_,?_,?_⟩
   · intro excl
     refine (excl1 excl).sub ?_
     intro x inside _
     obtain ⟨isTable2,idx⟩ := mem_product.mp inside
     -- The tables that are left were tables before.
     obtain ⟨c,isDir,j,isUser,ref⟩ := mem_refs.mp isTable2
     have refers1 : target (s1.ram c j) = some x.1 := by
      rw [ram2] at ref
      split_ifs at ref with eq
      · by_cases here : j = PDE_IDX vaddr
        · rw [here,update_self,target_zero] at ref
          simp at ref
        · rwa [update_of_ne here,<- eq] at ref
      · exact ref
     have isTable1 : x.1 ∈ tables s1 := mem_refs.mpr ⟨c,isDir,j,isUser,refers1⟩
     refine ⟨mem_product.mpr ⟨isTable1,idx⟩,?_⟩
     rw [ram2,if_neg]
     intro eq
     exact ok1.table_not_dir isTable1 (eq ▸ isDir1)
   · intro _
     rw [ram2,if_pos rfl,update_self,target_zero]
   intro j ne
   rw [ram2,if_pos rfl,update_of_ne ne,dir1]
lemma unmap_proc_spec (ok : Sound [] n s) (mem : cr3 ∈ s.procs) (rmdir : Bool) :
 ∃ s', unmap_proc s cr3 rmdir = s' ∧ Sound [] n s' ∧
  s'.procs = (if rmdir then s.procs.erase cr3 else s.procs) ∧ (Exclusive s -> Exclusive s') := by
 have loop : ∀ (l : List Nat) (s : Machine), Sound [] n s -> cr3 ∈ s.procs -> (∀ i ∈ l, i < 384) ->
   ∃ s', l.foldl (fun s i => remove_pagedir s cr3 (USER_SPACE_ADDR + i * 0x400000) rmdir) s = s' ∧ Sound [] n s' ∧
    s'.procs = s.procs ∧ (Exclusive s -> Exclusive s') ∧
    (rmdir = true -> ∀ j, (∃ i ∈ l, j = 512 + i) ∨ target (s.ram (cr3 / 4096) j) = none ->
     target (s'.ram (cr3 / 4096) j) = none) := by
  intro l
  induction l with
  | nil =>
   intro s ok _ _
   exact ⟨s,rfl,ok,rfl,id,fun _ j none => by simpa using none⟩
  | cons i rest ih =>
   intro s ok mem le
   obtain ⟨idx,user⟩ := user_entry (le i (by simp))
   rw [<- idx] at user
   obtain ⟨s1,gone,ok1,procs1,excl1,gone1,others1⟩ := remove_pagedir_spec ok mem user rmdir
   obtain ⟨s2,looped,ok2,procs2,excl2,gone2⟩ :=
    ih s1 ok1 (procs1 ▸ mem) (fun k inside => le k (by simp [inside]))
   refine ⟨s2,by rw [foldl_cons,gone]; exact looped,ok2,procs2.trans procs1,excl2 ∘ excl1,?_⟩
   intro whole j either
   apply gone2 whole
   by_cases here : j = 512 + i
   · right
     rw [here,<- idx]
     exact gone1 whole
   rcases either with ⟨k,inside,eq⟩ | none
   · rcases mem_cons.mp inside with rfl | inside
     · exact absurd eq here
     · exact .inl ⟨k,inside,eq⟩
   right
   rw [others1 j (by rw [idx]; exact here)]
   exact none
 obtain ⟨s1,looped,ok1,procs1,excl1,gone1⟩ :=
  loop (range 384) s ok mem (fun i inside => mem_range.mp inside)
 unfold unmap_proc
 rw [looped]
 cases rmdir with
 | false => exact ⟨s1,rfl,ok1,procs1,excl1⟩
 | true =>
  have blank : ∀ j ∈ userEntries, target (s1.ram (cr3 / 4096) j) = none := by
   intro j user
   have le := mem_range'_1.mp user
   exact gone1 rfl j (.inl ⟨j - 512,mem_range.mpr (by omega),by omega⟩)
  have ok2 := ok1.drop_dir (procs1 ▸ mem) blank
  refine ⟨{s1.free_page cr3 with procs := s1.procs.erase cr3},by simp,ok2,by simp [procs1],?_⟩
  intro excl
  refine (excl1 excl).sub ?_
  intro x inside _
  obtain ⟨tab,idx⟩ := mem_product.mp inside
  obtain ⟨c,isDir,j,isUser,ref⟩ := mem_refs.mp tab
  obtain ⟨ne,proc,rfl⟩ := mem_map.mp isDir
  have isProc1 : ne ∈ s1.procs := mem_of_mem_erase proc
  exact ⟨mem_product.mpr ⟨mem_refs.mpr ⟨_,mem_dirs isProc1,j,isUser,ref⟩,idx⟩,rfl⟩

end
def sharedEntries (s : Machine) (pgdir pages : Nat) : Nat -> Nat -> Nat -> Nat -> List (Nat × Nat)
 | 0, _, _, _ => []
 | rounds + 1, left, form_addr, to_addr =>
  if left < pages then
   let cnt := min pages (1024 - PTE_IDX form_addr)
   if s.word pgdir (PDE_IDX form_addr) &&& PAGE_PRESENT = 0 then []
   else
    (range cnt).map (fun i => ((s.word pgdir (PDE_IDX to_addr) &&& PT_PFNMASK) / 4 + PTE_IDX to_addr + i,
     (s.word pgdir (PDE_IDX form_addr) &&& PT_PFNMASK) / 4 + PTE_IDX form_addr + i)) ++
     sharedEntries s pgdir pages rounds (left + cnt) ((form_addr + cnt * 4096) % 2^32) ((to_addr + cnt * 4096) % 2^32)
  else []

/-- The shared mapping overwrites page table entries only, each with an entry
  that maps the same page or, like it, none; both tables exist. -/
def Neutral (s : Machine) (pgdir form_addr to_addr pages : Nat) : Prop :=
 s.word pgdir (PDE_IDX (form_addr / 4096 * 4096)) &&& PAGE_PRESENT ≠ 0 ∧
  s.word pgdir (PDE_IDX (to_addr / 4096 * 4096)) ≠ 0 ∧
  ∀ x ∈ sharedEntries s pgdir pages pages 0 (form_addr / 4096 * 4096) (to_addr / 4096 * 4096),
   x.1 / 1024 ∈ tables s ∧ target (s.at x.2) = target (s.at x.1)

section
variable {extra : List Nat} {n : Nat} {s s' : Machine} {pgdir pages : Nat}
def SameTargets (s s' : Machine) : Prop := ∀ pos, target (s'.at pos) = target (s.at pos)
lemma put_ram (s : Machine) (pos w : Nat) : (s.put pos w).ram =
 update s.ram (pos / 1024) (update (s.ram (pos / 1024)) (pos % 1024) w) := by
 have page : pos / 1024 * 4096 / 4096 = pos / 1024 := by omega
 rw [Machine.put,Machine.poke,page]
lemma put_at (s : Machine) (pos w : Nat) : (s.put pos w).at = update s.at pos w := by
 funext ne
 by_cases here : ne = pos
 · rw [here,update_self]
   exact poke_here (m := s.map)
 have apart : (ne / 1024,ne % 1024) ≠ (pos / 1024,pos % 1024) := by
  intro eq
  have := Prod.mk.inj eq
  omega
 rw [update_of_ne here]
 exact poke_others (s := s) (m := s.map) (w := w) apart
lemma put_neutral {pos w : Nat} (ok : Sound extra n s) (table : pos / 1024 ∈ tables s)
 (eq : target w = target (s.at pos)) :
 Sound extra n (s.put pos w) ∧ TablesOnly s (s.put pos w) ∧ SameTargets s (s.put pos w) := by
 have lt : pos % 1024 < 1024 := Nat.mod_lt _ (by norm_num)
 obtain ⟨ok',tables',_,_⟩ := ok.reflag table lt eq
 refine ⟨ok',TablesOnly.poke (m := s.map) table tables',?_⟩
 intro ne
 rw [put_at]
 by_cases here : ne = pos
 · rw [here,update_self]
   exact eq
 · rw [update_of_ne here]
lemma copies_neutral (l : List (Nat × Nat)) : ∀ (s : Machine), Sound extra n s ->
 (∀ x ∈ l, x.1 / 1024 ∈ tables s ∧ target (s.at x.2) = target (s.at x.1)) ->
 ∃ s', l.foldl (fun s x => s.put x.1 (s.at x.2)) s = s' ∧ Sound extra n s' ∧ TablesOnly s s' ∧ SameTargets s s' := by
 induction l with
 | nil =>
  intro s ok _
  exact ⟨s,rfl,ok,.refl s,fun _ => rfl⟩
 | cons x rest ih =>
  intro s ok neutral
  obtain ⟨table,eq⟩ := neutral x (by simp)
  obtain ⟨ok1,only1,targets1⟩ := put_neutral ok table eq
  obtain ⟨s2,loop,ok2,only2,targets2⟩ := ih (s.put x.1 (s.at x.2)) ok1 (by
   intro y mem
   obtain ⟨table',same'⟩ := neutral y (by simp [mem])
   exact ⟨by rw [only1.2.1]; exact table',by rw [targets1,targets1]; exact same'⟩)
  exact ⟨s2,loop,ok2,only1.trans only2,fun pos => (targets2 pos).trans (targets1 pos)⟩
lemma sharedEntries_congr (eq : s'.ram (pgdir / 4096) = s.ram (pgdir / 4096)) (rounds : Nat) :
 ∀ left form_addr to_addr, sharedEntries s' pgdir pages rounds left form_addr to_addr =
  sharedEntries s pgdir pages rounds left form_addr to_addr := by
 induction rounds with
 | zero => intro _ _ _; rfl
 | succ rounds ih =>
  intro left form_addr to_addr
  unfold sharedEntries Machine.word
  simp only [eq,ih]
lemma attach_pages_neutral (rounds : Nat) : ∀ (s : Machine) (left form_addr to_addr : Nat), Sound extra n s ->
 pgdir ∈ s.procs ->
 (∀ x ∈ sharedEntries s pgdir pages rounds left form_addr to_addr,
  x.1 / 1024 ∈ tables s ∧ target (s.at x.2) = target (s.at x.1)) ->
 ∃ r s', attach_pages pgdir pages rounds s left form_addr to_addr = (r,s') ∧ Sound extra n s' ∧ TablesOnly s s' := by
 induction rounds with
 | zero =>
  intro s left form_addr to_addr ok _ _
  exact ⟨0,s,rfl,ok,.refl s⟩
 | succ rounds ih =>
  intro s left form_addr to_addr ok mem neutral
  unfold sharedEntries at neutral
  unfold attach_pages
  by_cases more : left < pages
  · rw [if_pos more] at neutral ⊢
    dsimp only at neutral ⊢
    by_cases out : s.word pgdir (PDE_IDX form_addr) &&& PAGE_PRESENT = 0
    · rw [if_pos out]
      exact ⟨-1,s,rfl,ok,.refl s⟩
    rw [if_neg out] at neutral ⊢
    set cnt := min pages (1024 - PTE_IDX form_addr) with cntIs
    set dest := (s.word pgdir (PDE_IDX to_addr) &&& PT_PFNMASK) / 4 + PTE_IDX to_addr with destIs
    set src := (s.word pgdir (PDE_IDX form_addr) &&& PT_PFNMASK) / 4 + PTE_IDX form_addr with srcIs
    obtain ⟨s1,copied,ok1,only1,targets1⟩ :=
     copies_neutral ((range cnt).map (fun i => (dest + i,src + i))) s ok
      (fun x inside => neutral x (mem_append_left _ inside))
    have copy : copy_page s dest src cnt = s1 := by
     unfold copy_page
     rw [<- copied,foldl_map]
    rw [copy]
    obtain ⟨r,s2,loop,ok2,only2⟩ := ih s1 (left + cnt) ((form_addr + cnt * 4096) % 2^32)
     ((to_addr + cnt * 4096) % 2^32) ok1 (only1.1 ▸ mem) (by
      intro x inside
      rw [sharedEntries_congr (only1.dir ok mem)] at inside
      obtain ⟨table,eq⟩ := neutral x (mem_append_right _ inside)
      exact ⟨by rw [only1.2.1]; exact table,by rw [targets1,targets1]; exact eq⟩)
    exact ⟨r,s2,loop,ok2,only1.trans only2⟩
  rw [if_neg more]
  exact ⟨0,s,rfl,ok,.refl s⟩
variable {form_addr to_addr : Nat}
lemma map_to_attach
 (source : s.word pgdir (PDE_IDX (form_addr / 4096 * 4096)) &&& PAGE_PRESENT ≠ 0)
 (dest : s.word pgdir (PDE_IDX (to_addr / 4096 * 4096)) ≠ 0) :
 map_to s pgdir form_addr to_addr pages =
  some (attach_share_page s pgdir (form_addr / 4096 * 4096) (to_addr / 4096 * 4096) pages) := by
 unfold map_to fix_pagedir_not_present
 dsimp only
 rw [if_neg source]
 dsimp only
 rw [if_neg (by simp),if_pos dest]
 dsimp only
 rw [if_neg dest]
lemma map_to_neutral (ok : Sound extra n s) (mem : pgdir ∈ s.procs)
 (neutral : Neutral s pgdir form_addr to_addr pages) :
 ∃ r s', map_to s pgdir form_addr to_addr pages = some (r,s') ∧ Sound extra n s' ∧ s'.procs = s.procs := by
 obtain ⟨source,dest,entries⟩ := neutral
 obtain ⟨r,s',held,ok',only⟩ := attach_pages_neutral pages s 0 _ _ ok mem entries
 exact ⟨r,s',by rw [map_to_attach source dest]; exact congrArg some held,ok',only.1⟩
lemma map_to_page {form_addr to_addr source dest p : Nat} (ok : Sound extra n s) (mem : pgdir ∈ s.procs)
 (user : User to_addr) (al : form_addr % 4096 = 0 ∧ to_addr % 4096 = 0)
 (fromIs : target (s.ram (pgdir / 4096) (PDE_IDX form_addr)) = some source)
 (toIs : target (s.ram (pgdir / 4096) (PDE_IDX to_addr)) = some dest)
 (ref : target (s.ram source (PTE_IDX form_addr)) = some p) (maps : p ∈ mapped s)
 (blank : target (s.ram dest (PTE_IDX to_addr)) = none) :
 ∃ s', map_to s pgdir form_addr to_addr 1 = some (0,s') ∧ Sound (p :: extra) n s' ∧ s'.procs = s.procs ∧
  ∀ cr3 ∈ s.procs, ∀ v, User v -> walk s' cr3 v =
   if cr3 = pgdir ∧ v / 4096 = to_addr / 4096 then some p else walk s cr3 v := by
 have fromAddr : form_addr / 4096 * 4096 = form_addr := Nat.div_mul_cancel (Nat.dvd_of_mod_eq_zero al.1)
 have toAddr : to_addr / 4096 * 4096 = to_addr := Nat.div_mul_cancel (Nat.dvd_of_mod_eq_zero al.2)
 obtain ⟨fromPresent,fromPage,_⟩ := target_some fromIs
 obtain ⟨toPresent,toPage,_⟩ := target_some toIs
 have lessFrom := pte_idx_lt form_addr
 have lessTo := pte_idx_lt to_addr
 have table : dest ∈ tables s := table_of_entry mem user toIs
 set w := s.ram source (PTE_IDX form_addr) with wIs
 obtain ⟨ok',_,_⟩ := ok.map_alias table lessTo blank ref maps
 refine ⟨s.poke (dest * 4096) (PTE_IDX to_addr) w,?_,ok',rfl,?_⟩
 · have hasSource : s.word pgdir (PDE_IDX (form_addr / 4096 * 4096)) &&& PAGE_PRESENT ≠ 0 := by
    unfold Machine.word
    rw [fromAddr]
    exact fromPresent
   have hasDest : s.word pgdir (PDE_IDX (to_addr / 4096 * 4096)) ≠ 0 := by
    unfold Machine.word
    rw [toAddr]
    intro zero
    rw [zero] at toPresent
    exact toPresent (by decide)
   rw [map_to_attach hasSource hasDest,fromAddr,toAddr]
   unfold attach_share_page attach_pages Machine.word
   rw [if_pos (by norm_num)]
   dsimp only
   rw [if_neg fromPresent,toPage,fromPage,show min 1 (1024 - PTE_IDX form_addr) = 1 by omega]
   unfold copy_page attach_pages
   have readAt : s.at (source * 4096 / 4 + PTE_IDX form_addr) = w := by
    unfold Machine.at
    rw [show (source * 4096 / 4 + PTE_IDX form_addr) / 1024 = source by omega,
     show (source * 4096 / 4 + PTE_IDX form_addr) % 1024 = PTE_IDX form_addr by omega]
   have putAt : s.put (dest * 4096 / 4 + PTE_IDX to_addr) w = s.poke (dest * 4096) (PTE_IDX to_addr) w := by
    unfold Machine.put
    rw [show (dest * 4096 / 4 + PTE_IDX to_addr) / 1024 = dest by omega,
     show (dest * 4096 / 4 + PTE_IDX to_addr) % 1024 = PTE_IDX to_addr by omega]
   simp only [range_one,foldl_cons,foldl_nil,Nat.add_zero]
   rw [readAt,putAt]
 intro cr3 isProc v user'
 have walks := ok.walk_entry (m := s.map) (i := PTE_IDX to_addr) (w := w) table isProc v
 rw [ref] at walks
 simp only [ok.entry_iff mem user toIs isProc user'] at walks
 exact walks

end
end Netbas.Teardown
