import Netbas.PageOps

/-!
Faults and stores. A write fault (`un_swap_page`) gives an entry its own page, and no process loads
another word afterwards. A store changes what its own process loads and nothing else.
-/
namespace Netbas.PageFaults
open Frames FrameUse Paging PageTables PageOps Referents List Option
lemma or_writable (e : Nat) : (e ||| PAGE_WRITABLE) &&& PAGE_WRITABLE ≠ 0 := by
 rw [Nat.and_or_distrib_right,show PAGE_WRITABLE &&& PAGE_WRITABLE = 2 by decide]
 intro zero
 have := Nat.right_le_or (n := e &&& PAGE_WRITABLE) (m := 2)
 omega
lemma madeWritable_writable (e : Nat) : madeWritable e &&& PAGE_WRITABLE ≠ 0 := by
 unfold madeWritable
 split_ifs
 · rw [Nat.and_assoc,show 0xffffffdf &&& PAGE_WRITABLE = PAGE_WRITABLE by decide]
   exact or_writable e
 · exact or_writable e
lemma puw_writable (e : Nat) : (e ||| PAGE_PUW) &&& PAGE_WRITABLE ≠ 0 := by
 rw [show e ||| PAGE_PUW = (e ||| (PAGE_PRESENT ||| PAGE_USER)) ||| PAGE_WRITABLE by rw [Nat.or_assoc]; congr 1]
 exact or_writable _
structure MadeWritable (s s' : Machine) (t i : Nat) : Prop where
 procs : s'.procs = s.procs
 tables : tables s' = tables s
 dirs : ∀ c ∈ dirs s, s'.ram c = s.ram c
 same : Same s s'
 others : ∀ x ∈ entries s, x ≠ (t,i) -> s'.ram x.1 x.2 = s.ram x.1 x.2
 present : target (s'.ram t i) ≠ none
 writable : s'.ram t i &&& PAGE_WRITABLE ≠ 0

section
variable {extra : List Nat} {n : Nat} {s s' : Machine} {p q t i cr3 vaddr value : Nat}
lemma un_swap_alone (ok : Sound extra n s) (table : t ∈ tables s) (lt : i < 1024)
 (refers : target (s.ram t i) = some q) (alone : s.count (q * 4096) = 1) :
 ∃ s', un_swap_page s (t * 4096) i = some s' ∧ Sound extra n s' ∧ Kept s s' ∧ MadeWritable s s' t i ∧
  (extra = [] -> Exclusive s -> Exclusive s') := by
 obtain ⟨_,page,_⟩ := target_some refers
 have mem := page_of_entry table lt refers
 have memory := (ok.counts.counted q mem).1
 have word := word_ram s t i
 have eq : target (madeWritable (s.ram t i)) = target (s.ram t i) := target_madeWritable _
 obtain ⟨ok',tables',_,kept⟩ := ok.reflag table lt eq
 have here : (s.poke (t * 4096) i (madeWritable (s.ram t i))).ram t i = madeWritable (s.ram t i) :=
  poke_here (m := s.map)
 refine ⟨s.poke (t * 4096) i (madeWritable (s.ram t i)),?_,ok',kept,⟨rfl,tables',?_,kept.same,?_,?_,?_⟩,?_⟩
 · unfold un_swap_page
   simp only [word,page]
   rw [if_pos ⟨memory.1,alone⟩]
   rfl
 · intro c dir
   rw [poke_ram,if_neg]
   rintro rfl
   exact ok.table_not_dir table dir
 · intro x _ ne
   exact poke_others (m := s.map) ne
 · rw [here,eq,refers]
   simp
 · rw [here]
   exact madeWritable_writable _
 -- The count is 1, so no other entry maps the page.
 rintro rfl excl
 have single : (mapped s).count q ≤ 1 := by
  have counted := (ok.counts.counted q mem).2.2
  rw [<- ok.count_users mem,alone] at counted
  simp only [count_nil] at counted
  omega
 refine excl.set (x := (t,i)) tables' (fun y _ ne => poke_others (m := s.map) ne) ?_ ?_
 · intro _ _ y inside ne
   rw [here,eq,refers]
   intro again
   exact ne (slot_unique single inside (mem_entries.mpr ⟨table,lt⟩) again refers)
 intro y inside ne _ _
 rw [here,eq,refers]
 intro again
 exact ne (slot_unique single inside (mem_entries.mpr ⟨table,lt⟩) again.symm refers)
lemma un_swap_shared (ok : Sound extra (n + 1) s) (table : t ∈ tables s) (lt : i < 1024)
 (refers : target (s.ram t i) = some q) (several : s.count (q * 4096) ≠ 1) :
 ∃ p s', un_swap_page s (t * 4096) i = some s' ∧ Sound extra n s' ∧ MadeWritable s s' t i ∧ p ∉ mapped s ∧
  (∀ r ∈ mapped s, s'.ram r = s.ram r) ∧
  (∀ cr3 ∈ s.procs, ∀ vaddr, User vaddr -> walk s' cr3 vaddr =
   if target (s.ram (cr3 / 4096) (PDE_IDX vaddr)) = some t ∧ PTE_IDX vaddr = i then some p
   else walk s cr3 vaddr) ∧ (Exclusive s -> Exclusive s') := by
 obtain ⟨_,page,_⟩ := target_some refers
 have mem := page_of_entry table lt refers
 have memory := (ok.counts.counted q mem).1
 have word := word_ram s t i
 obtain ⟨p,map,ran,ok1,new,low,_⟩ := ok.get
 obtain ⟨small,_⟩ := Sound.fresh_small ok1 new.memory
 set s1 : Machine := {s with map := map} with s1Is
 obtain ⟨ok2,kept2,fresh2⟩ := ok1.fill new (s1.ram q)
 set s2 := s1.fill (p * 4096) (s1.ram q) with s2Is
 have old2 : ∀ r, r ∈ owned s ∨ r ∈ mapped s -> s2.ram r = s.ram r := by
  intro r used
  rw [s2Is,fill_ram,if_neg]
  rintro rfl
  rcases used with used | used
  · exact new.unowned used
  · exact new.unmapped used
 have laid : dirs s2 = dirs s ∧ tables s2 = tables s ∧ mapped s2 = mapped s :=
  layout_congr rfl (fun r used => old2 r (.inl used))
 obtain ⟨dirs2,tables2,mapped2⟩ := laid
 have table2 : t ∈ tables s2 := tables2 ▸ table
 have entry2 : s2.ram t = s.ram t := old2 t (.inl (mem_append_right _ table))
 have member2 : q ∈ mapped s2 := mapped2 ▸ mem
 have several2 : s2.count (q * 4096) ≠ 1 := by
  have pre := (ok.counts.counted q mem).2.2
  have after := (ok2.counts.counted q member2).2.2
  rw [mapped2] at after
  rw [<- ok.count_users mem] at pre
  rw [<- ok2.count_users member2] at after
  omega
 obtain ⟨sound3,tables3⟩ := ok2.remap fresh2 table2 lt (by rw [entry2]; exact refers) several2
 set m3 := s2.map.setCount (s2.map.MAP_NR (q * 4096)) (s2.count (q * 4096) + -1) with m3Is
 change Sound extra n (({s2 with map := m3} : Machine).poke (t * 4096) i (p * 4096 ||| PAGE_PUW)) at sound3
 change tables (({s2 with map := m3} : Machine).poke (t * 4096) i (p * 4096 ||| PAGE_PUW)) = tables s2 at tables3
 set s3 := ({s2 with map := m3} : Machine).poke (t * 4096) i (p * 4096 ||| PAGE_PUW) with s3Is
 have apart : t ≠ p := by
  rintro rfl
  exact new.unowned (mem_append_right _ table)
 have pageKept : ∀ r ∈ mapped s, s3.ram r = s.ram r := by
  intro r maps
  rw [s3Is,ok2.page_kept table2 (mapped2 ▸ maps),old2 r (.inr maps)]
 have dirsKept : ∀ c ∈ dirs s, s3.ram c = s.ram c := by
  intro c dir
  rw [s3Is,poke_ram,if_neg]
  · exact old2 c (.inl (mem_append_left _ dir))
  rintro rfl
  exact ok.table_not_dir table dir
 have walks : ∀ cr3 ∈ s.procs, ∀ vaddr, User vaddr -> walk s3 cr3 vaddr =
   if target (s.ram (cr3 / 4096) (PDE_IDX vaddr)) = some t ∧ PTE_IDX vaddr = i then some p
   else walk s cr3 vaddr := by
  intro cr3 isProc vaddr user
  rw [s3Is,ok2.walk_entry table2 isProc vaddr,old2 _ (.inl (mem_append_left _ (mem_dirs isProc))),target_puw small,
   (kept2 cr3 isProc vaddr user).1]
  rfl
 have copied : s3.ram p = s.ram q := by
  rw [s3Is,poke_ram,if_neg apart.symm]
  show s2.ram p = s.ram q
  rw [s2Is,fill_ram,if_pos rfl]
 have rest : ∀ x ∈ entries s, x ≠ (t,i) -> s3.ram x.1 x.2 = s.ram x.1 x.2 := by
  intro x inside ne
  rw [s3Is,poke_others ne,old2 x.1 (.inl (mem_append_right _ (mem_product.mp inside).1))]
 have here : s3.ram t i = p * 4096 ||| PAGE_PUW := poke_here
 refine ⟨p,s3,?_,sound3,⟨rfl,tables3.trans tables2,dirsKept,?_,rest,?_,?_⟩,new.unmapped,pageKept,walks,?_⟩
 · unfold un_swap_page
   simp only [word,page]
   rw [if_neg (fun both => several both.2),ran]
   dsimp only
   rw [if_pos (by show q * 4096 ≥ map.LOW_MEM; rw [low]; exact memory.1)]
   -- The source fills the copy after it wrote the entry; the order makes no difference.
   have source : ((s1.addCount (q * 4096) (-1)).poke (t * 4096) i (p * 4096 ||| PAGE_PUW)).ram (q * 4096 / 4096) =
     s1.ram q := by
    rw [show q * 4096 / 4096 = q by omega,poke_ram,if_neg]
    · rfl
    rintro rfl
    exact ok.table_unmapped table mem
   rw [source,poke_fill_comm apart]
   rfl
 · intro cr3 isProc vaddr user
   unfold load
   rw [walks cr3 isProc vaddr user]
   split_ifs with onEntry
   · rw [walk_eq,onEntry.1,bind_some,onEntry.2,refers,map_some,map_some,copied]
   cases leads : walk s cr3 vaddr with
   | none => rfl
   | some r =>
    rw [map_some,map_some,pageKept r (mem_mapped.mpr ⟨cr3,isProc,vaddr,user,leads⟩)]
 · rw [here,target_puw small]
   simp
 · rw [here]
   exact puw_writable _
 intro excl
 refine excl.set (x := (t,i)) (tables3.trans tables2) rest ?_ ?_
 · intro _ _ y inside _
   rw [here,target_puw small]
   intro again
   obtain ⟨isTable,idx⟩ := mem_product.mp inside
   exact new.unmapped (page_of_entry isTable (mem_range.mp idx) again)
 intro y inside _ _ _
 rw [here,target_puw small]
 intro again
 obtain ⟨isTable,idx⟩ := mem_product.mp inside
 exact new.unmapped (page_of_entry isTable (mem_range.mp idx) again.symm)
lemma un_swap_spec (ok : Sound extra (n + 1) s) (table : t ∈ tables s) (lt : i < 1024)
 (here : target (s.ram t i) ≠ none) :
 ∃ s', un_swap_page s (t * 4096) i = some s' ∧ Sound extra n s' ∧ MadeWritable s s' t i ∧
  (extra = [] -> Exclusive s -> Exclusive s') := by
 obtain ⟨q,refers⟩ := ne_none_iff_exists'.mp here
 by_cases alone : s.count (q * 4096) = 1
 · obtain ⟨s',done,ok',_,made,excl⟩ := un_swap_alone (ok.mono (Nat.le_succ n)) table lt refers alone
   exact ⟨s',done,ok',made,excl⟩
 obtain ⟨p,s',done,ok',made,_,_,_,excl⟩ := un_swap_shared ok table lt refers alone
 exact ⟨s',done,ok',made,fun _ => excl⟩

/-! ### Stores -/
lemma MadeWritable.keeps (made : MadeWritable s s' t i) (mem : cr3 ∈ s.procs) (user : User vaddr)
 (writable : Writable s cr3 vaddr) : Writable s' cr3 vaddr := by
 obtain ⟨u,p,leads,refers,bit⟩ := writable
 have dir := made.dirs _ (mem_dirs mem)
 by_cases here : (u,PTE_IDX vaddr) = (t,i)
 · obtain ⟨sameTable,sameEntry⟩ := Prod.mk.inj here
   obtain ⟨p',ref'⟩ := ne_none_iff_exists'.mp made.present
   refine ⟨t,p',by rw [dir,leads,sameTable],?_⟩
   rw [sameEntry]
   exact ⟨ref',made.writable⟩
 have entry := made.others (u,PTE_IDX vaddr) (mem_entries.mpr ⟨table_of_entry mem user leads,pte_idx_lt vaddr⟩) here
 exact ⟨u,p,by rw [dir]; exact leads,by rw [entry]; exact refers,by rw [entry]; exact bit⟩
lemma MadeWritable.only (made : MadeWritable s s' t i) (mem : cr3 ∈ s.procs) (user : User vaddr)
 (away : ¬ (target (s.ram (cr3 / 4096) (PDE_IDX vaddr)) = some t ∧ PTE_IDX vaddr = i))
 (writable : Writable s' cr3 vaddr) : Writable s cr3 vaddr := by
 obtain ⟨u,p,leads,refers,bit⟩ := writable
 rw [made.dirs _ (mem_dirs mem)] at leads
 have entry := made.others (u,PTE_IDX vaddr) (mem_entries.mpr ⟨table_of_entry mem user leads,pte_idx_lt vaddr⟩) (by
  intro here
  obtain ⟨rfl,idx⟩ := Prod.mk.inj here
  exact away ⟨leads,idx⟩)
 dsimp only at entry
 rw [entry] at refers bit
 exact ⟨u,p,leads,refers,bit⟩
lemma store_spec (ok : Sound extra n s) (mem : cr3 ∈ s.procs) (user : User vaddr)
 (leads : walk s cr3 vaddr = some p) (value : Nat) :
 ∃ s', store s cr3 vaddr value = some s' ∧ Sound extra n s' ∧ s'.procs = s.procs ∧ s'.map = s.map ∧
  (∀ q ∈ owned s, s'.ram q = s.ram q) ∧
  ∀ cr3' ∈ s.procs, ∀ v, User v -> walk s' cr3' v = walk s cr3' v ∧ load s' cr3' v =
   if walk s cr3' v = some p ∧ v / 4 % 1024 = vaddr / 4 % 1024 then some value else load s cr3' v := by
 have maps := mem_mapped.mpr ⟨cr3,mem,vaddr,user,leads⟩
 set s' := s.poke (p * 4096) (vaddr / 4 % 1024) value with s'Is
 have ram : ∀ q, s'.ram q = if q = p then Function.update (s.ram p) (vaddr / 4 % 1024) value else s.ram q :=
  poke_ram _ _ _ _
 have ownedKept : ∀ q ∈ owned s, s'.ram q = s.ram q := by
  intro q used
  rw [ram,if_neg]
  rintro rfl
  exact (ok.counts.owned q used).2.2 maps
 have walks : ∀ cr3' ∈ s.procs, ∀ v, User v -> walk s' cr3' v = walk s cr3' v := by
  intro cr3' mem' v user'
  rw [walk_eq,walk_eq,ownedKept _ (mem_append_left _ (mem_dirs mem'))]
  cases table : target (s.ram (cr3' / 4096) (PDE_IDX v)) with
  | none => rfl
  | some t =>
   rw [bind_some,bind_some,ownedKept t (mem_append_right _ (table_of_entry mem' user' table))]
 refine ⟨s',by unfold store; rw [leads]; rfl,ok.poke_mapped maps _ _,rfl,rfl,ownedKept,?_⟩
 intro cr3' mem' v user'
 refine ⟨walks cr3' mem' v user',?_⟩
 unfold load
 rw [walks cr3' mem' v user']
 cases leads' : walk s cr3' v with
 | none => simp
 | some q =>
  simp only [map_some,some.injEq]
  rw [ram]
  by_cases eq : q = p
  · subst eq
    by_cases word : v / 4 % 1024 = vaddr / 4 % 1024
    · simp [word]
    · simp [word]
  · simp [eq]
variable {v w : Nat}
lemma same_word : v / 4 = w / 4 ↔ PDE_IDX v = PDE_IDX w ∧ PTE_IDX v = PTE_IDX w ∧ v / 4 % 1024 = w / 4 % 1024 := by
 unfold PDE_IDX PTE_IDX
 omega
lemma store_own (ok : Sound extra n s) (excl : Exclusive s) (mem : cr3 ∈ s.procs) (user : User vaddr)
 (writable : Writable s cr3 vaddr) (value : Nat) :
 ∃ s', store s cr3 vaddr value = some s' ∧ Sound extra n s' ∧ s'.procs = s.procs ∧ Exclusive s' ∧
  (∀ q ∈ owned s, s'.ram q = s.ram q) ∧
  ∀ cr3' ∈ s.procs, ∀ v, User v -> load s' cr3' v =
   if cr3' = cr3 ∧ v / 4 = vaddr / 4 then some value else load s cr3' v := by
 obtain ⟨t,p,table,refers,bit⟩ := writable
 have leads : walk s cr3 vaddr = some p := by rw [walk_eq,table,bind_some,refers]
 obtain ⟨s',stored,ok',procs,_,ownedKept,loads⟩ := store_spec ok mem user leads value
 refine ⟨s',stored,ok',procs,excl.congr procs ownedKept,ownedKept,?_⟩
 intro cr3' mem' v user'
 rw [(loads cr3' mem' v user').2]
 have iff : (walk s cr3' v = some p ∧ v / 4 % 1024 = vaddr / 4 % 1024) ↔ (cr3' = cr3 ∧ v / 4 = vaddr / 4) := by
  constructor
  · rintro ⟨leads',word⟩
    rw [walk_eq] at leads'
    obtain ⟨t',table',ref'⟩ := bind_eq_some_iff.mp leads'
    have eq := excl (t,PTE_IDX vaddr) (mem_entries.mpr ⟨table_of_entry mem user table,pte_idx_lt vaddr⟩)
     (t',PTE_IDX v) (mem_entries.mpr ⟨table_of_entry mem' user' table',pte_idx_lt v⟩) bit (by simp [refers])
     (ref'.trans refers.symm)
    obtain ⟨rfl,entry⟩ := Prod.mk.inj eq
    obtain ⟨rfl,idx⟩ := ok.entry_unique mem' mem user' user table' table
    exact ⟨rfl,same_word.mpr ⟨idx,entry,word⟩⟩
  rintro ⟨rfl,word⟩
  obtain ⟨idx,entry,word⟩ := same_word.mp word
  rw [walk_eq,idx,table,bind_some,entry]
  exact ⟨refers,word⟩
 simp only [iff]

section
variable (table : target (s.ram (cr3 / 4096) (PDE_IDX vaddr)) = some t) (refers : target (s.ram t (PTE_IDX vaddr)) = some p)
include table refers
lemma user_store_direct
 (bit : s.ram t (PTE_IDX vaddr) &&& PAGE_WRITABLE ≠ 0) :
 user_store s cr3 vaddr value = store s cr3 vaddr value := by
 have entry : entryOf s cr3 vaddr = some (t,PTE_IDX vaddr) := by
  unfold entryOf Machine.word
  rw [table]
  rfl
 unfold user_store
 rw [entry]
 dsimp only
 rw [if_neg (by rw [refers]; simp),if_pos bit]
lemma user_store_fault
 (bit : ¬ s.ram t (PTE_IDX vaddr) &&& PAGE_WRITABLE ≠ 0) :
 user_store s cr3 vaddr value =
  (un_swap_page s (t * 4096) (PTE_IDX vaddr)).bind (fun s => store s cr3 vaddr value) := by
 have entry : entryOf s cr3 vaddr = some (t,PTE_IDX vaddr) := by
  unfold entryOf Machine.word
  rw [table]
  rfl
 obtain ⟨_,page,_⟩ := target_some table
 unfold user_store do_swap_page
 rw [entry]
 dsimp only
 rw [if_neg (by rw [refers]; simp),if_neg bit]
 unfold Machine.word
 rw [page]

end
lemma user_store_spec (ok : Sound extra (n + 1) s) (mem : cr3 ∈ s.procs) (user : User vaddr)
 (maps : walk s cr3 vaddr ≠ none) (value : Nat) :
 ∃ s', user_store s cr3 vaddr value = some s' ∧ Sound extra n s' ∧ s'.procs = s.procs ∧
  (extra = [] -> Exclusive s -> Exclusive s' ∧ ∀ cr3' ∈ s.procs, ∀ v, User v -> load s' cr3' v =
   if cr3' = cr3 ∧ v / 4 = vaddr / 4 then some value else load s cr3' v) := by
 obtain ⟨p,leads⟩ := ne_none_iff_exists'.mp maps
 have leadsTo := leads
 rw [walk_eq] at leadsTo
 obtain ⟨t,table,refers⟩ := bind_eq_some_iff.mp leadsTo
 have tab := table_of_entry mem user table
 by_cases bit : s.ram t (PTE_IDX vaddr) &&& PAGE_WRITABLE ≠ 0
 · rw [user_store_direct table refers bit]
   obtain ⟨s',stored,ok',procs,_,_⟩ := store_spec (ok.mono (Nat.le_succ n)) mem user leads value
   refine ⟨s',stored,ok',procs,?_⟩
   rintro rfl excl
   obtain ⟨s'',stored',_,_,excl',_,loads⟩ := store_own ok excl mem user ⟨t,p,table,refers,bit⟩ value
   rw [stored] at stored'
   cases stored'
   exact ⟨excl',loads⟩
 rw [user_store_fault table refers bit]
 obtain ⟨s1,swapped,ok1,made,excl1⟩ := un_swap_spec ok tab (pte_idx_lt vaddr) (by rw [refers]; simp)
 have member1 : cr3 ∈ s1.procs := made.procs ▸ mem
 obtain ⟨p1,refers1⟩ := ne_none_iff_exists'.mp made.present
 have table1 : target (s1.ram (cr3 / 4096) (PDE_IDX vaddr)) = some t := by rw [made.dirs _ (mem_dirs mem),table]
 have leads1 : walk s1 cr3 vaddr = some p1 := by rw [walk_eq,table1,bind_some,refers1]
 obtain ⟨s',stored,ok',procs,_,_⟩ := store_spec ok1 member1 user leads1 value
 refine ⟨s',by rw [swapped]; exact stored,ok',procs.trans made.procs,?_⟩
 rintro rfl excl
 obtain ⟨s'',stored',_,_,excl',_,loads⟩ :=
  store_own ok1 (excl1 rfl excl) member1 user ⟨t,p1,table1,refers1,made.writable⟩ value
 rw [stored] at stored'
 cases stored'
 refine ⟨excl',?_⟩
 intro cr3' mem' v user'
 rw [loads cr3' (made.procs ▸ mem') v user',made.same cr3' mem' v user']

/-! ### Stores of the kernel -/
lemma write_verify_spec (ok : Sound extra (n + 1) s) (mem : cr3 ∈ s.procs) (user : User vaddr)
 (maps : walk s cr3 vaddr ≠ none) :
 ∃ s', write_verify s cr3 vaddr = some (0,s') ∧ Sound extra n s' ∧ s'.procs = s.procs ∧ Same s s' ∧
  (extra = [] -> Exclusive s -> Exclusive s') ∧ Writable s' cr3 vaddr ∧
  ∀ v, User v -> Writable s cr3 v -> Writable s' cr3 v := by
 obtain ⟨p,leads⟩ := ne_none_iff_exists'.mp maps
 rw [walk_eq] at leads
 obtain ⟨t,table,refers⟩ := bind_eq_some_iff.mp leads
 obtain ⟨here,page,_⟩ := target_some table
 obtain ⟨entryPresent,_,_⟩ := target_some refers
 have word := word_ram s t (PTE_IDX vaddr)
 have dir : s.word cr3 (PDE_IDX vaddr) = s.ram (cr3 / 4096) (PDE_IDX vaddr) := rfl
 unfold write_verify
 simp only [dir,page,word]
 rw [if_neg here]
 by_cases readOnly : 3 &&& s.ram t (PTE_IDX vaddr) = PAGE_PRESENT
 · rw [if_pos readOnly]
   obtain ⟨s1,swapped,ok1,made,excl1⟩ :=
    un_swap_spec ok (table_of_entry mem user table) (pte_idx_lt vaddr) (by rw [refers]; simp)
   obtain ⟨p1,refers1⟩ := ne_none_iff_exists'.mp made.present
   have table1 : target (s1.ram (cr3 / 4096) (PDE_IDX vaddr)) = some t := by rw [made.dirs _ (mem_dirs mem),table]
   exact ⟨s1,by rw [swapped]; rfl,ok1,made.procs,made.same,excl1,⟨t,p1,table1,refers1,made.writable⟩,
    fun v user' writable => made.keeps mem user' writable⟩
 rw [if_neg readOnly]
 refine ⟨s,rfl,ok.mono (Nat.le_succ n),rfl,fun _ _ _ _ => rfl,fun _ => id,⟨t,p,table,refers,?_⟩,fun _ _ => id⟩
 -- The entry is here, so its two lowest bits are both set.
 intro unset
 apply readOnly
 have low : 3 &&& s.ram t (PTE_IDX vaddr) = s.ram t (PTE_IDX vaddr) &&& PAGE_PRESENT := by
  rw [Nat.and_comm,show 3 = PAGE_PRESENT ||| PAGE_WRITABLE by decide,Nat.and_or_distrib_left,unset,Nat.or_zero]
 rw [low]
 have lt : s.ram t (PTE_IDX vaddr) &&& PAGE_PRESENT ≤ 1 := Nat.and_le_right
 unfold PAGE_PRESENT at *
 omega
lemma verify_pages_spec (rounds : Nat) : ∀ (s : Machine) (start : Nat), Sound extra (n + rounds) s -> cr3 ∈ s.procs ->
 (∀ k < rounds, User (start + k * 4096) ∧ walk s cr3 (start + k * 4096) ≠ none) ->
 ∃ s', verify_pages cr3 rounds s start = some (0,s') ∧ Sound extra n s' ∧ s'.procs = s.procs ∧ Same s s' ∧
  (extra = [] -> Exclusive s -> Exclusive s') ∧ (∀ k < rounds, Writable s' cr3 (start + k * 4096)) ∧
  ∀ v, User v -> Writable s cr3 v -> Writable s' cr3 v := by
 induction rounds with
 | zero =>
  intro s start ok _ _
  exact ⟨s,rfl,ok,rfl,fun _ _ _ _ => rfl,fun _ => id,by simp,fun _ _ => id⟩
 | succ rounds ih =>
  intro s start ok mem buffer
  obtain ⟨user,maps⟩ := buffer 0 (by omega)
  rw [show start + 0 * 4096 = start by omega] at user maps
  obtain ⟨s1,verified,ok1,procs1,same1,excl1,writable1,keeps1⟩ :=
   write_verify_spec (n := n + rounds) (by simpa [add_assoc] using ok) mem user maps
  have next : (start + 4096) % 2^32 = start + 4096 := by
   refine Nat.mod_eq_of_lt ?_
   have le := mem_range'_1.mp user
   unfold PDE_IDX at le
   omega
  obtain ⟨s2,loop,ok2,procs2,same2,excl2,writable2,keeps2⟩ := ih s1 (start + 4096) ok1 (procs1 ▸ mem) (by
   intro k lt
   obtain ⟨user',isMapped'⟩ := buffer (k + 1) (by omega)
   rw [show start + (k + 1) * 4096 = start + 4096 + k * 4096 by ring] at user' isMapped'
   refine ⟨user',?_⟩
   intro none
   have loaded := same1 cr3 mem _ user'
   unfold load at loaded
   rw [none,map_none] at loaded
   exact isMapped' (map_eq_none_iff.mp loaded.symm))
  refine ⟨s2,?_,ok2,procs2.trans procs1,same1.trans same2 (fun _ inside => procs1 ▸ inside),
   fun none => excl2 none ∘ excl1 none,?_,fun v user' => keeps2 v user' ∘ keeps1 v user'⟩
  · rw [verify_pages,verified]
    dsimp only
    rw [if_neg (by simp),next]
    exact loop
  intro k lt
  cases k with
  | zero =>
   rw [show start + 0 * 4096 = start by omega]
   exact keeps2 start user writable1
  | succ k =>
   rw [show start + (k + 1) * 4096 = start + 4096 + k * 4096 by ring]
   exact writable2 k (by omega)
lemma stores_spec (value : Nat -> Nat) (l : List Nat) : ∀ (s : Machine), Sound extra n s -> cr3 ∈ s.procs ->
 (∀ a ∈ l, a % 4 = 0 ∧ User a ∧ Writable s cr3 a) ->
 ∃ s', l.foldlM (fun s addr => store s cr3 addr (value addr)) s = some s' ∧ Sound extra n s' ∧ s'.procs = s.procs ∧
  (Exclusive s -> Exclusive s' ∧ ∀ cr3' ∈ s.procs, ∀ v, User v -> load s' cr3' v =
   if cr3' = cr3 ∧ v / 4 * 4 ∈ l then some (value (v / 4 * 4)) else load s cr3' v) := by
 induction l with
 | nil =>
  intro s ok _ _
  refine ⟨s,rfl,ok,rfl,fun excl => ⟨excl,?_⟩⟩
  intro cr3' _ v _
  simp
 | cons a rest ih =>
  intro s ok mem words
  obtain ⟨al,user,t,p,table,refers,bit⟩ := words a (by simp)
  have leads : walk s cr3 a = some p := by rw [walk_eq,table,bind_some,refers]
  obtain ⟨s1,stored,ok1,procs1,_,owned1,_⟩ := store_spec ok mem user leads (value a)
  obtain ⟨s2,loop,ok2,procs2,loads2⟩ := ih s1 ok1 (procs1 ▸ mem) (by
   intro b inside
   obtain ⟨aligned',user',t',p',table',ref',bit'⟩ := words b (by simp [inside])
   have sameDir := owned1 _ (mem_append_left _ (mem_dirs mem))
   have sameTable := owned1 t' (mem_append_right _ (table_of_entry mem user' table'))
   exact ⟨aligned',user',t',p',by rw [sameDir,table'],by rw [sameTable,ref'],by rw [sameTable]; exact bit'⟩)
  refine ⟨s2,by rw [foldlM_cons,stored]; exact loop,ok2,procs2.trans procs1,?_⟩
  intro excl
  obtain ⟨s1',stored',_,_,excl1,_,loads1⟩ :=
   store_own ok excl mem user ⟨t,p,table,refers,bit⟩ (value a)
  rw [stored] at stored'
  cases stored'
  obtain ⟨excl2,loads2⟩ := loads2 excl1
  refine ⟨excl2,?_⟩
  intro cr3' mem' v user'
  rw [loads2 cr3' (procs1 ▸ mem') v user',loads1 cr3' mem' v user']
  have fst : v / 4 = a / 4 ↔ v / 4 * 4 = a := by omega
  simp only [fst,mem_cons]
  by_cases own : cr3' = cr3
  · by_cases later : v / 4 * 4 ∈ rest
    · simp [own,later]
    by_cases now : v / 4 * 4 = a
    · simp [own,now]
    · simp [own,later,now]
  · simp [own]
def bufferPages (vaddr size : Nat) : Nat := (size + vaddr % 4096 + 4095) / 4096
lemma word_in_page {size a : Nat} (mem : a ∈ wordsOf vaddr size) :
 a % 4 = 0 ∧ ∃ k < bufferPages vaddr size, a / 4096 = (vaddr / 4096 * 4096 + k * 4096) / 4096 := by
 unfold wordsOf at mem
 obtain ⟨w,range,rfl⟩ := mem_map.mp mem
 obtain ⟨low,high⟩ := mem_range'_1.mp range
 unfold bufferPages
 refine ⟨by omega,w * 4 / 4096 - vaddr / 4096,by omega,by omega⟩
lemma writable_of_page (eq : v / 4096 = w / 4096) (writable : Writable s cr3 w) : Writable s cr3 v := by
 have idx : PDE_IDX v = PDE_IDX w := by unfold PDE_IDX; omega
 have entry : PTE_IDX v = PTE_IDX w := by unfold PTE_IDX; omega
 unfold Writable
 rw [idx,entry]
 exact writable
lemma user_of_page (eq : v / 4096 = w / 4096) (user : User w) : User v := by
 have idx : PDE_IDX v = PDE_IDX w := by unfold PDE_IDX; omega
 unfold User
 rw [idx]
 exact user
lemma kernel_store_spec {size : Nat} (ok : Sound extra (n + bufferPages vaddr size) s) (mem : cr3 ∈ s.procs)
 (buffer : ∀ k < bufferPages vaddr size, User (vaddr / 4096 * 4096 + k * 4096) ∧
  walk s cr3 (vaddr / 4096 * 4096 + k * 4096) ≠ none) (value : Nat -> Nat) :
 ∃ s', kernel_store s cr3 vaddr size value = some s' ∧ Sound extra n s' ∧ s'.procs = s.procs ∧
  (extra = [] -> Exclusive s -> Exclusive s' ∧ ∀ cr3' ∈ s.procs, ∀ v, User v -> load s' cr3' v =
   if cr3' = cr3 ∧ v / 4 * 4 ∈ wordsOf vaddr size then some (value (v / 4 * 4)) else load s cr3' v) := by
 obtain ⟨s1,verified,ok1,procs1,same1,excl1,writable1,_⟩ :=
  verify_pages_spec (bufferPages vaddr size) s (vaddr / 4096 * 4096) ok mem buffer
 obtain ⟨s2,stored,ok2,procs2,loads2⟩ := stores_spec value (wordsOf vaddr size) s1 ok1 (procs1 ▸ mem) (by
  intro a inside
  obtain ⟨al,k,lt,page⟩ := word_in_page inside
  exact ⟨al,user_of_page page (buffer k lt).1,writable_of_page page (writable1 k lt)⟩)
 refine ⟨s2,?_,ok2,procs2.trans procs1,?_⟩
 · unfold kernel_store mem_writeable
   unfold bufferPages at verified
   rw [verified]
   dsimp only
   rw [if_neg (by simp)]
   exact stored
 intro none excl
 obtain ⟨excl2,loads⟩ := loads2 (excl1 none excl)
 refine ⟨excl2,?_⟩
 intro cr3' mem' v user'
 rw [loads cr3' (procs1 ▸ mem') v user',same1 cr3' mem' v user']

/-! ### Page-ins -/
lemma accepted_page {m : PageMap} {owned map1 : List Nat} (new : Fresh m owned map1 p) :
 CHECK_PHY_PAGE m (p * 4096) = 0 := by
 unfold CHECK_PHY_PAGE
 have := new.memory.1
 have := new.memory.2
 rw [if_neg (by omega)]
lemma map_taken (ok : Sound extra n s) (new : Fresh s.map (owned s) (mapped s) p) (table : t ∈ tables s)
 (lt : i < 1024) (blank : target (s.ram t i) = none) :
 ∃ s', s.poke (t * 4096) i (p * 4096 ||| PAGE_PUW) = s' ∧ Sound extra n s' ∧ s'.procs = s.procs ∧
  (Exclusive s -> Exclusive s') ∧
  ∀ cr3 ∈ s.procs, ∀ vaddr, walk s' cr3 vaddr =
   if target (s.ram (cr3 / 4096) (PDE_IDX vaddr)) = some t ∧ PTE_IDX vaddr = i then some p
   else walk s cr3 vaddr := by
 obtain ⟨small,_⟩ := Sound.fresh_small ok new.memory
 obtain ⟨ok',tables'⟩ := ok.map_fresh new table lt blank
 have here : (s.poke (t * 4096) i (p * 4096 ||| PAGE_PUW)).ram t i = p * 4096 ||| PAGE_PUW := poke_here (m := s.map)
 refine ⟨_,rfl,ok',rfl,?_,?_⟩
 · intro excl
   have away : ∀ y ∈ entries s, target (s.ram y.1 y.2) ≠ some p := by
    intro y inside refers
    obtain ⟨isTable,idx⟩ := mem_product.mp inside
    exact new.unmapped (page_of_entry isTable (mem_range.mp idx) refers)
   refine excl.set (x := (t,i)) tables' (fun y _ ne => poke_others (m := s.map) ne) ?_ ?_
   · intro _ _ y inside _
     rw [here,target_puw small]
     exact away y inside
   intro y inside _ _ _
   rw [here,target_puw small]
   exact (away y inside).symm
 intro cr3 mem vaddr
 have walks := ok.walk_entry (m := s.map) (i := i) (w := p * 4096 ||| PAGE_PUW) table mem vaddr
 rw [target_puw small] at walks
 exact walks
lemma do_no_page_present (ok : Sound extra (n + 1) s) (mem : cr3 ∈ s.procs) (user : User vaddr)
 (table : target (s.ram (cr3 / 4096) (PDE_IDX vaddr)) = some t) (blank : target (s.ram t (PTE_IDX vaddr)) = none) :
 ∃ p s', do_no_page s cr3 vaddr = some (0,s') ∧ Sound extra n s' ∧ s'.procs = s.procs ∧
  (Exclusive s -> Exclusive s') ∧ p ∉ mapped s ∧ (∀ c ∈ dirs s, s'.ram c = s.ram c) ∧
  ∀ cr3' ∈ s.procs, ∀ v, User v -> walk s' cr3' v =
   if cr3' = cr3 ∧ v / 4096 = vaddr / 4096 then some p else walk s cr3' v := by
 obtain ⟨p,map,ran,ok1,new,_⟩ := ok.get
 obtain ⟨here,page,_⟩ := target_some table
 obtain ⟨s',put,ok',procs,excl,walks⟩ :=
  map_taken ok1 new (table_of_entry mem user table) (pte_idx_lt vaddr) blank
 refine ⟨p,s',?_,ok',procs,excl,new.unmapped,?_,?_⟩
 · unfold do_no_page put_one_page
   rw [ran]
   dsimp only
   rw [if_neg (by rw [accepted_page new]; simp),if_neg (by rw [ok1.count_page new.memory,new.single]; simp)]
   unfold Machine.word
   rw [if_pos here,page,put]
 · intro c dir
   rw [<- put,poke_ram,if_neg]
   rintro rfl
   exact ok.table_not_dir (table_of_entry mem user table) dir
 intro cr3' mem' v user'
 rw [walks cr3' mem' v]
 exact if_congr (ok.entry_iff mem user table mem' user') rfl rfl
lemma do_no_page_spec (ok : Sound extra (n + 2) s) (mem : cr3 ∈ s.procs) (user : User vaddr)
 (out : walk s cr3 vaddr = none) :
 ∃ r s', do_no_page s cr3 vaddr = some (r,s') ∧ Sound extra n s' ∧ s'.procs = s.procs ∧ (Exclusive s -> Exclusive s') := by
 cases table : target (s.ram (cr3 / 4096) (PDE_IDX vaddr)) with
 | some t =>
  rw [walk_eq,table,bind_some] at out
  obtain ⟨p,s',done,ok',procs,excl,_⟩ :=
   do_no_page_present (ok.mono (Nat.le_succ _)) mem user table out
  exact ⟨0,s',done,ok',procs,excl⟩
 | none =>
  obtain ⟨p,map,ran,ok1,new,_⟩ := Sound.get (n := n + 1) ok
  have zero := (ok.whole _ (mem_dirs mem) _ user).resolve_right (not_not.mpr table)
  unfold do_no_page put_one_page
  rw [ran]
  dsimp only
  rw [if_neg (by rw [accepted_page new]; simp),if_neg (by rw [ok1.count_page new.memory,new.single]; simp),
   if_neg (by unfold Machine.word; exact not_not.mpr (target_none.mp table))]
  by_cases above : vaddr > USER_SPACE_ADDR
  · rw [if_pos above]
    obtain ⟨r,s2,fixed,ok2,kept2,procs2,excl2,_,_,added⟩ := fix_pagedir_spec ok1 mem user
    obtain ⟨table2,al,fresh2⟩ := added zero
    have leads : walk s2 cr3 vaddr = none := by rw [(kept2 cr3 mem vaddr user).1]; exact out
    rw [walk_eq,table2,bind_some] at leads
    obtain ⟨s3,put,sound3,procs3,exclusive3,_⟩ := map_taken ok2 (fresh2 p new)
     (table_of_entry (procs2 ▸ mem) user table2) (pte_idx_lt vaddr) leads
    rw [show r / 4096 * 4096 = r by omega] at put
    exact ⟨0,s3,by rw [fixed,map_some,put],sound3,procs3.trans procs2,exclusive3 ∘ excl2⟩
  rw [if_neg above]
  exact ⟨-3,_,rfl,ok1.mono (Nat.le_succ _),rfl,id⟩

end
end Netbas.PageFaults
