import Netbas.FrameUse
import Netbas.Paging
import Netbas.Referents

/-!
The page tables of all processes and the frames they use. `Sound` ties the lists of targets (`refs`)
to the frame table: directories and tables are owned, user pages are mapped.
-/
namespace Netbas.PageTables
open Frames FrameUse Paging Referents List Option
open Function

/-! ### Entries -/
@[simp] lemma target_zero : target 0 = none := by decide
lemma target_some {e p : Nat} (ref : target e = some p) :
 e &&& PAGE_PRESENT ≠ 0 ∧ e &&& PT_PFNMASK = p * 4096 ∧ p < 2^20 := by
 unfold target at ref
 split_ifs at ref with out
 cases ref
 have lt : e &&& PT_PFNMASK < 2^32 := lt_of_le_of_lt Nat.and_le_right (by decide)
 have masked := pfnmask_eq lt
 rw [Nat.and_assoc,Nat.and_self] at masked
 exact ⟨out,masked,by omega⟩
lemma target_none {e : Nat} : target e = none ↔ e &&& PAGE_PRESENT = 0 := by
 unfold target
 split_ifs with out <;> simp [out]
lemma target_congr {e e' : Nat} (here : e' &&& PAGE_PRESENT = e &&& PAGE_PRESENT)
 (page : e' &&& PT_PFNMASK = e &&& PT_PFNMASK) : target e' = target e := by
 unfold target
 rw [here,page]
lemma target_puw {p : Nat} (lt : p < 2^20) : target (p * 4096 ||| PAGE_PUW) = some p := by
 have here : (p * 4096 ||| PAGE_PUW) &&& PAGE_PRESENT ≠ 0 := by
  rw [Nat.and_or_distrib_right,show PAGE_PUW &&& PAGE_PRESENT = 1 by decide]
  intro zero
  have := Nat.right_le_or (n := p * 4096 &&& PAGE_PRESENT) (m := 1)
  omega
 have page : (p * 4096 ||| PAGE_PUW) &&& PT_PFNMASK = p * 4096 := by
  rw [Nat.and_or_distrib_right,show PAGE_PUW &&& PT_PFNMASK = 0 by decide,Nat.or_zero,pfnmask_eq (by omega)]
  omega
 unfold target
 rw [if_neg here,page]
 congr 1
 omega
def readOnly (e : Nat) : Nat := e &&& 0xffffff00 ||| (PAGE_ACCESSED ||| PAGE_USER ||| PAGE_PRESENT)
lemma readOnly_and (e mask : Nat) :
 readOnly e &&& mask = e &&& (0xffffff00 &&& mask) ||| (PAGE_ACCESSED ||| PAGE_USER ||| PAGE_PRESENT) &&& mask := by
 rw [readOnly,Nat.and_or_distrib_right,Nat.and_assoc]
lemma target_readOnly {e p : Nat} (ref : target e = some p) : target (readOnly e) = some p := by
 obtain ⟨_,page,_⟩ := target_some ref
 have here : readOnly e &&& PAGE_PRESENT = 1 := by
  rw [readOnly_and,show 0xffffff00 &&& PAGE_PRESENT = 0 by decide,Nat.and_zero,Nat.zero_or]
  decide
 have same : readOnly e &&& PT_PFNMASK = e &&& PT_PFNMASK := by
  rw [readOnly_and,show 0xffffff00 &&& PT_PFNMASK = PT_PFNMASK by decide,
   show (PAGE_ACCESSED ||| PAGE_USER ||| PAGE_PRESENT) &&& PT_PFNMASK = 0 by decide,Nat.or_zero]
 unfold target
 rw [here,same,page,if_neg (by decide)]
 congr 1
 omega
lemma readOnly_not_writable (e : Nat) : readOnly e &&& PAGE_WRITABLE = 0 := by
 rw [readOnly_and,show 0xffffff00 &&& PAGE_WRITABLE = 0 by decide,Nat.and_zero,Nat.zero_or]
 decide
lemma readOnly_page {e p : Nat} (ref : target e = some p) : readOnly e / 4096 = p ∧ readOnly e < 2^32 := by
 have lt : readOnly e < 2^32 := by
  unfold readOnly
  refine Nat.or_lt_two_pow ?_ (by decide)
  exact lt_of_le_of_lt Nat.and_le_right (by decide)
 obtain ⟨_,page,_⟩ := target_some (target_readOnly ref)
 rw [pfnmask_eq lt] at page
 exact ⟨by omega,lt⟩
def madeWritable (e : Nat) : Nat :=
 if (e ||| PAGE_WRITABLE) &&& PAGE_ACCESSED ≠ 0 then (e ||| PAGE_WRITABLE) &&& 0xffffffdf else e ||| PAGE_WRITABLE
lemma madeWritable_and {e mask : Nat} (kept : 0xffffffdf &&& mask = mask) (ne : PAGE_WRITABLE &&& mask = 0) :
 madeWritable e &&& mask = e &&& mask := by
 have set : (e ||| PAGE_WRITABLE) &&& mask = e &&& mask := by rw [Nat.and_or_distrib_right,ne,Nat.or_zero]
 unfold madeWritable
 split_ifs
 · rw [Nat.and_assoc,kept,set]
 · exact set
lemma target_madeWritable (e : Nat) : target (madeWritable e) = target e :=
 target_congr (madeWritable_and (by decide) (by decide)) (madeWritable_and (by decide) (by decide))

/-! ### References -/
def refs (ram : Nat -> Nat -> Nat) (pages indices : List Nat) : List Nat :=
 (pages ×ˢ indices).filterMap (fun x => target (ram x.1 x.2))

section
variable {ram ram' : Nat -> Nat -> Nat} {pages pages' indices : List Nat} {p q i w : Nat}
lemma mem_refs : q ∈ refs ram pages indices ↔ ∃ p ∈ pages, ∃ i ∈ indices, target (ram p i) = some q := by
 unfold refs
 simp only [mem_filterMap,Prod.exists,mem_product]
 constructor
 · rintro ⟨p,i,⟨page,idx⟩,ref⟩; exact ⟨p,page,i,idx,ref⟩
 · rintro ⟨p,page,i,idx,ref⟩; exact ⟨p,i,⟨page,idx⟩,ref⟩
lemma refs_congr (same : ∀ p ∈ pages, ∀ i ∈ indices, target (ram' p i) = target (ram p i)) :
 refs ram' pages indices = refs ram pages indices := by
 apply filterMap_congr
 rintro ⟨p,i⟩ mem
 obtain ⟨page,idx⟩ := mem_product.mp mem
 exact same p page i idx
lemma refs_perm (same : pages.Perm pages') : (refs ram pages indices).Perm (refs ram pages' indices) :=
 (same.product_right indices).filterMap _
lemma refs_blank (blank : ∀ i ∈ indices, target (ram p i) = none) :
 refs ram (p :: pages) indices = refs ram pages indices := by
 unfold refs
 rw [product_cons,filterMap_append]
 have none : (indices.map (fun i => (p,i))).filterMap (fun x => target (ram x.1 x.2)) = [] := by
  rw [filterMap_eq_nil_iff]
  intro x mem
  obtain ⟨i,idx,rfl⟩ := mem_map.mp mem
  exact blank i idx
 rw [none,nil_append]
lemma refs_exchange (ram : Nat -> Nat -> Nat) (once : pages.Nodup) (once' : indices.Nodup) (page : p ∈ pages) (idx : i ∈ indices) :
 (refs (update ram p (update (ram p) i w)) pages indices ++ (target (ram p i)).toList).Perm
  (refs ram pages indices ++ (target w).toList) := by
 have here : update ram p (update (ram p) i w) p i = w := by simp
 have rest : ∀ y ∈ pages ×ˢ indices, y ≠ (p,i) ->
   target (update ram p (update (ram p) i w) y.1 y.2) = target (ram y.1 y.2) := by
  rintro ⟨p',i'⟩ _ ne
  by_cases same : p' = p
  · subst same
    have apart : i' ≠ i := by
     rintro rfl
     exact ne rfl
    simp [apart]
  · simp [same]
 have exchange := filterMap_exchange (once.product once') (mem_product.mpr ⟨page,idx⟩) rest
 rw [here] at exchange
 exact exchange

end

/-! ### The layout of the machine -/
def userEntries : List Nat := range' 512 384
section
variable (s : Machine)
def dirs : List Nat := s.procs.map (· / 4096)
def tables : List Nat := refs s.ram (dirs s) userEntries
def mapped : List Nat := refs s.ram (tables s) (range 1024)
def owned : List Nat := dirs s ++ tables s
end
structure Sound (extra : List Nat) (n : Nat) (s : Machine) : Prop where
 counts : Counts s.map extra (owned s) (mapped s)
 spare : Spare n s.map
 pages : ∀ cr3 ∈ s.procs, cr3 % 4096 = 0
 whole : ∀ c ∈ dirs s, ∀ j ∈ userEntries, s.ram c j = 0 ∨ target (s.ram c j) ≠ none
def User (vaddr : Nat) : Prop := PDE_IDX vaddr ∈ userEntries
def Same (s s' : Machine) : Prop := ∀ cr3 ∈ s.procs, ∀ vaddr, User vaddr -> load s' cr3 vaddr = load s cr3 vaddr
def Kept (s s' : Machine) : Prop :=
 ∀ cr3 ∈ s.procs, ∀ vaddr, User vaddr -> walk s' cr3 vaddr = walk s cr3 vaddr ∧
  ∀ p, walk s cr3 vaddr = some p -> s'.ram p = s.ram p

section
variable {extra extra' : List Nat} {n k : Nat} {s s' s'' : Machine} {p t i c j w cr3 vaddr : Nat}
lemma Sound.mono (sound : Sound extra n s) (fewer : k ≤ n) : Sound extra k s :=
 ⟨sound.counts,sound.spare.mono fewer,sound.pages,sound.whole⟩
lemma Same.trans (fst : Same s s') (snd : Same s' s'') (more : ∀ cr3 ∈ s.procs, cr3 ∈ s'.procs) : Same s s'' :=
 fun cr3 mem vaddr user => (snd cr3 (more cr3 mem) vaddr user).trans (fst cr3 mem vaddr user)
lemma Kept.refl (s : Machine) : Kept s s := fun _ _ _ _ => ⟨rfl,fun _ _ => rfl⟩
lemma Kept.trans (fst : Kept s s') (snd : Kept s' s'') (more : ∀ cr3 ∈ s.procs, cr3 ∈ s'.procs) : Kept s s'' := by
 intro cr3 mem vaddr user
 obtain ⟨walk1,pages1⟩ := fst cr3 mem vaddr user
 obtain ⟨walk2,pages2⟩ := snd cr3 (more cr3 mem) vaddr user
 refine ⟨walk2.trans walk1,?_⟩
 intro p leads
 rw [pages2 p (walk1.trans leads),pages1 p leads]
lemma load_congr {cr3' : Nat} (walks : walk s' cr3' vaddr = walk s cr3 vaddr)
 (pages : ∀ p, walk s cr3 vaddr = some p -> s'.ram p = s.ram p) : load s' cr3' vaddr = load s cr3 vaddr := by
 unfold load
 rw [walks]
 cases leads : walk s cr3 vaddr with
 | none => rfl
 | some p => rw [map_some,map_some,pages p leads]
lemma Kept.same (kept : Kept s s') : Same s s' := by
 intro cr3 mem vaddr user
 obtain ⟨walks,pages⟩ := kept cr3 mem vaddr user
 exact load_congr walks pages

section
variable (sound : Sound extra n s)
include sound
lemma Sound.dirs_once : (dirs s).Nodup := (nodup_append.mp sound.counts.once).1
lemma Sound.tables_once : (tables s).Nodup := (nodup_append.mp sound.counts.once).2.1
lemma Sound.table_not_dir (table : t ∈ tables s) : t ∉ dirs s :=
 fun isDir => (nodup_append.mp sound.counts.once).2.2 t isDir t table rfl
lemma Sound.table_unmapped (table : t ∈ tables s) : t ∉ mapped s :=
 (sound.counts.owned t (mem_append_right _ table)).2.2
lemma Sound.dir_unmapped (dir : c ∈ dirs s) : c ∉ mapped s :=
 (sound.counts.owned c (mem_append_left _ dir)).2.2

end
lemma mem_dirs (mem : cr3 ∈ s.procs) : cr3 / 4096 ∈ dirs s := mem_map_of_mem mem
lemma walk_eq (s : Machine) (cr3 vaddr : Nat) :
 walk s cr3 vaddr = (target (s.ram (cr3 / 4096) (PDE_IDX vaddr))).bind (fun t => target (s.ram t (PTE_IDX vaddr))) := by
 unfold walk entryOf Machine.word
 cases target (s.ram (cr3 / 4096) (PDE_IDX vaddr)) with
 | none => rfl
 | some t => rfl
lemma address_of_entry (lt : i < 1024) : PDE_IDX (j * 2^22 + i * 2^12) = j ∧ PTE_IDX (j * 2^22 + i * 2^12) = i := by
 unfold PDE_IDX PTE_IDX
 omega
lemma table_of_entry (mem : cr3 ∈ s.procs) (user : User vaddr)
 (ref : target (s.ram (cr3 / 4096) (PDE_IDX vaddr)) = some t) : t ∈ tables s :=
 mem_refs.mpr ⟨_,mem_dirs mem,_,user,ref⟩
lemma pte_idx_lt (vaddr : Nat) : PTE_IDX vaddr < 1024 := Nat.mod_lt _ (by norm_num)
lemma page_of_entry (table : t ∈ tables s) (idx : i < 1024) (ref : target (s.ram t i) = some p) : p ∈ mapped s :=
 mem_refs.mpr ⟨t,table,i,mem_range.mpr idx,ref⟩
lemma mem_mapped : p ∈ mapped s ↔ ∃ cr3 ∈ s.procs, ∃ vaddr, User vaddr ∧ walk s cr3 vaddr = some p := by
 constructor
 · intro mem
   obtain ⟨t,table,i,idx,ref⟩ := mem_refs.mp mem
   obtain ⟨c,dir,j,user,leads⟩ := mem_refs.mp table
   obtain ⟨cr3,isProc,rfl⟩ := mem_map.mp dir
   obtain ⟨fst,snd⟩ := address_of_entry (j := j) (mem_range.mp idx)
   refine ⟨cr3,isProc,j * 2^22 + i * 2^12,by rw [User,fst]; exact user,?_⟩
   rw [walk_eq,fst,leads,bind_some,snd,ref]
 rintro ⟨cr3,isProc,vaddr,user,leads⟩
 rw [walk_eq] at leads
 obtain ⟨t,table,ref⟩ := bind_eq_some_iff.mp leads
 exact page_of_entry (table_of_entry isProc user table) (pte_idx_lt vaddr) ref

/-! ### Writes outside the tables -/
lemma layout_congr (procs : s'.procs = s.procs) (same : ∀ p ∈ owned s, s'.ram p = s.ram p) :
 dirs s' = dirs s ∧ tables s' = tables s ∧ mapped s' = mapped s := by
 have sameDirs : dirs s' = dirs s := by unfold dirs; rw [procs]
 have tabs : tables s' = tables s := by
  unfold tables
  rw [sameDirs]
  refine refs_congr ?_
  intro c dir j _
  rw [same c (mem_append_left _ dir)]
 refine ⟨sameDirs,tabs,?_⟩
 unfold mapped
 rw [tabs]
 refine refs_congr ?_
 intro t table i _
 rw [same t (mem_append_right _ table)]
lemma Sound.congr (sound : Sound extra n s) (map : s'.map = s.map) (procs : s'.procs = s.procs)
 (same : ∀ p ∈ owned s, s'.ram p = s.ram p) : Sound extra n s' := by
 obtain ⟨sameDirs,tabs,sameMapped⟩ := layout_congr procs same
 refine ⟨?_,by rw [map]; exact sound.spare,by rw [procs]; exact sound.pages,?_⟩
 · rw [map,owned,sameDirs,tabs,sameMapped]
   exact sound.counts
 intro c dir j idx
 rw [sameDirs] at dir
 rw [same c (mem_append_left _ dir)]
 exact sound.whole c dir j idx
lemma kept_of_ram (same : ∀ p, p ∈ owned s ∨ p ∈ mapped s -> s'.ram p = s.ram p) : Kept s s' := by
 intro cr3 mem vaddr user
 refine ⟨?_,fun p leads => same p (.inr (mem_mapped.mpr ⟨cr3,mem,vaddr,user,leads⟩))⟩
 rw [walk_eq,walk_eq,same _ (.inl (mem_append_left _ (mem_dirs mem)))]
 cases table : target (s.ram (cr3 / 4096) (PDE_IDX vaddr)) with
 | none => rfl
 | some t =>
  rw [bind_some,bind_some,same t (.inl (mem_append_right _ (table_of_entry mem user table)))]
lemma fill_ram (s : Machine) (p : Nat) (ct : Nat -> Nat) (q : Nat) :
 (s.fill (p * 4096) ct).ram q = if q = p then ct else s.ram q := by
 unfold Machine.fill
 rw [show p * 4096 / 4096 = p by omega]
 by_cases here : q = p
 · rw [here]; simp
 · simp [here]
lemma word_ram (s : Machine) (p i : Nat) : s.word (p * 4096) i = s.ram p i := by
 unfold Machine.word
 rw [show p * 4096 / 4096 = p by omega]
lemma poke_ram (s : Machine) (p i w q : Nat) :
 (s.poke (p * 4096) i w).ram q = if q = p then update (s.ram p) i w else s.ram q := by
 unfold Machine.poke
 rw [show p * 4096 / 4096 = p by omega]
 by_cases here : q = p
 · rw [here]; simp
 · simp [here]
lemma poke_fill_comm {t p : Nat} (ne : t ≠ p) (s : Machine) (i w : Nat) (ct : Nat -> Nat) :
 (s.poke (t * 4096) i w).fill (p * 4096) ct = (s.fill (p * 4096) ct).poke (t * 4096) i w := by
 unfold Machine.poke Machine.fill
 simp only [show t * 4096 / 4096 = t by omega,show p * 4096 / 4096 = p by omega,update_of_ne ne]
 rw [update_comm ne]
lemma Sound.fill (sound : Sound extra n s) (new : Fresh s.map (owned s) (mapped s) p) (ct : Nat -> Nat) :
 Sound extra n (s.fill (p * 4096) ct) ∧ Kept s (s.fill (p * 4096) ct) ∧
  Fresh (s.fill (p * 4096) ct).map (owned (s.fill (p * 4096) ct)) (mapped (s.fill (p * 4096) ct)) p := by
 have same : ∀ q, q ∈ owned s ∨ q ∈ mapped s -> (s.fill (p * 4096) ct).ram q = s.ram q := by
  intro q used
  rw [fill_ram,if_neg]
  rintro rfl
  rcases used with used | used
  · exact new.unowned used
  · exact new.unmapped used
 have procs : (s.fill (p * 4096) ct).procs = s.procs := rfl
 have laid := layout_congr procs fun q used => same q (.inl used)
 refine ⟨sound.congr rfl rfl (fun q used => same q (.inl used)),kept_of_ram same,?_⟩
 rw [owned,laid.1,laid.2.1,laid.2.2]
 exact new
lemma Sound.poke_mapped (sound : Sound extra n s) (mem : p ∈ mapped s) (i w : Nat) : Sound extra n (s.poke (p * 4096) i w) := by
 refine sound.congr rfl rfl ?_
 intro q used
 rw [poke_ram,if_neg]
 rintro rfl
 exact (sound.counts.owned q used).2.2 mem
lemma Sound.get (sound : Sound extra (n + 1) s) :
  ∃ p map, s.get_page = some (p * 4096,{s with map := map}) ∧ Sound extra n {s with map := map} ∧
   Fresh map (owned s) (mapped s) p ∧ map.LOW_MEM = s.map.LOW_MEM ∧
   ∀ q, Fresh s.map (owned s) (mapped s) q -> Fresh map (owned s) (mapped s) q ∧ q ≠ p := by
 obtain ⟨p,map,ran,cnt,spare,new,low,high,unused,rest⟩ := sound.counts.get sound.spare
 refine ⟨p,map,by simp [Machine.get_page,ran],⟨cnt,spare,sound.pages,sound.whole⟩,new,low,?_⟩
 intro q used
 have ne : q ≠ p := by
  rintro rfl
  have := used.single
  omega
 refine ⟨⟨?_,by rw [rest q ne,used.single],used.unowned,used.unmapped⟩,ne⟩
 unfold InMemory
 rw [low,high]
 exact used.memory

/-! ### Writes to page table entries -/
section
variable (sound : Sound extra n s)
include sound
lemma Sound.set_entry {m : PageMap} {mapped' : List Nat} (table : t ∈ tables s) (idx : i < 1024)
  (cnt : Counts m extra' (owned s) mapped')
  (exchange : (mapped' ++ (target (s.ram t i)).toList).Perm (mapped s ++ (target w).toList)) (spare : Spare k m) :
  Sound extra' k ({s with map := m}.poke (t * 4096) i w) ∧ tables ({s with map := m}.poke (t * 4096) i w) = tables s ∧
   (mapped ({s with map := m}.poke (t * 4096) i w)).Perm mapped' := by
 set s' := ({s with map := m} : Machine).poke (t * 4096) i w with s'Is
 have ram : ∀ q, s'.ram q = if q = t then update (s.ram t) i w else s.ram q := poke_ram _ t i w
 have sameDir : ∀ c ∈ dirs s, s'.ram c = s.ram c := by
  intro c dir
  rw [ram,if_neg]
  rintro rfl
  exact sound.table_not_dir table dir
 have tabs : tables s' = tables s := by
  refine refs_congr ?_
  intro c dir j _
  rw [sameDir c dir]
 have written : s'.ram = update s.ram t (update (s.ram t) i w) := by
  funext q
  rw [ram,update_apply]
 have new : (mapped s').Perm mapped' := by
  unfold mapped
  rw [tabs,written]
  have change := refs_exchange s.ram (w := w) sound.tables_once nodup_range table
   (mem_range.mpr idx)
  exact (perm_append_right_iff _).mp (change.trans exchange.symm)
 refine ⟨⟨?_,spare,sound.pages,?_⟩,tabs,new⟩
 · rw [owned,tabs]
   exact cnt.perm (.refl _) new.symm
 intro c dir j user
 rw [sameDir c dir]
 exact sound.whole c dir j user
lemma Sound.walk_entry (table : t ∈ tables s) (mem : cr3 ∈ s.procs) {m : PageMap}
  (v : Nat) :
  walk ({s with map := m}.poke (t * 4096) i w) cr3 v =
   if target (s.ram (cr3 / 4096) (PDE_IDX v)) = some t ∧ PTE_IDX v = i then target w
   else walk s cr3 v := by
 set s' := ({s with map := m} : Machine).poke (t * 4096) i w with s'Is
 have ram : ∀ q, s'.ram q = if q = t then update (s.ram t) i w else s.ram q := poke_ram _ t i w
 have dir : s'.ram (cr3 / 4096) = s.ram (cr3 / 4096) := by
  rw [ram,if_neg]
  intro same
  exact sound.table_not_dir table (same ▸ mem_dirs mem)
 rw [walk_eq,walk_eq,dir]
 cases fst : target (s.ram (cr3 / 4096) (PDE_IDX v)) with
 | none => simp
 | some u =>
  simp only [bind_some,some.injEq]
  by_cases here : u = t ∧ PTE_IDX v = i
  · obtain ⟨rfl,rfl⟩ := here
    simp only [and_self,↓reduceIte]
    rw [ram,if_pos rfl,update_self]
  rw [if_neg here,ram]
  split_ifs with same
  · subst same
    rw [update_of_ne (fun equal => here ⟨rfl,equal⟩)]
  · rfl

/-! ### Writes to page directory entries -/
lemma Sound.target_new (new : Fresh s.map (owned s) (mapped s) p) :
 target (p * 4096 ||| PAGE_PUW) = some p := by
 have := sound.counts.geometry.word
 have := new.memory.2
 exact target_puw (by omega)
lemma Sound.add_table (new : Fresh s.map (owned s) (mapped s) p) (dir : c ∈ dirs s)
 (idx : j ∈ userEntries) (zero : s.ram c j = 0) (blank : ∀ i < 1024, target (s.ram p i) = none) :
 Sound extra n (s.poke (c * 4096) j (p * 4096 ||| PAGE_PUW)) ∧ Kept s (s.poke (c * 4096) j (p * 4096 ||| PAGE_PUW)) ∧
  (tables (s.poke (c * 4096) j (p * 4096 ||| PAGE_PUW))).Perm (p :: tables s) := by
 set s' := s.poke (c * 4096) j (p * 4096 ||| PAGE_PUW) with s'Is
 have ram : ∀ q, s'.ram q = if q = c then update (s.ram c) j (p * 4096 ||| PAGE_PUW) else s.ram q :=
  poke_ram _ c j _
 have written : s'.ram = update s.ram c (update (s.ram c) j (p * 4096 ||| PAGE_PUW)) := by
  funext q
  rw [ram,update_apply]
 have entry := sound.target_new new
 have perm : (tables s').Perm (p :: tables s) := by
  have change := refs_exchange s.ram (w := p * 4096 ||| PAGE_PUW) sound.dirs_once nodup_range' dir idx
  rw [zero,target_zero,entry] at change
  unfold tables
  rw [written]
  simp only [toList_none,append_nil,toList_some] at change
  exact change.trans (perm_append_singleton _ _)
 have notDir : ∀ t ∈ p :: tables s, t ≠ c := by
  intro t mem same
  rcases mem_cons.mp mem with isNew | isTable
  · exact new.unowned (by rw [<- isNew,same]; exact mem_append_left _ dir)
  · exact sound.table_not_dir isTable (same ▸ dir)
 have mappedPerm : (mapped s').Perm (mapped s) := by
  have same : refs s'.ram (p :: tables s) (range 1024) = refs s.ram (p :: tables s) (range 1024) := by
   refine refs_congr ?_
   intro t mem i _
   rw [ram,if_neg (notDir t mem)]
  refine (refs_perm perm).trans ?_
  rw [same,refs_blank (fun i idx => blank i (mem_range.mp idx))]
  exact .refl _
 have ownedPerm : (owned s').Perm (p :: owned s) := by
  unfold owned
  refine (List.Perm.append_left _ perm).trans ?_
  exact perm_middle
 refine ⟨⟨?_,sound.spare,sound.pages,?_⟩,?_,perm⟩
 · exact (sound.counts.own new).perm ownedPerm.symm mappedPerm.symm
 · intro d isDir e user
   rw [ram]
   split_ifs with same
   · by_cases here : e = j
     · rw [here,update_self,entry]
       simp
     rw [update_of_ne here]
     exact sound.whole c dir e user
   · exact sound.whole d isDir e user
 -- The new table maps nothing, and nothing else is read differently.
 intro cr3 mem vaddr user
 have notPage : ∀ q, walk s cr3 vaddr = some q -> q ≠ c := by
  rintro q leads rfl
  exact sound.dir_unmapped dir (mem_mapped.mpr ⟨cr3,mem,vaddr,user,leads⟩)
 refine ⟨?_,fun q leads => by rw [ram,if_neg (notPage q leads)]⟩
 rw [walk_eq,walk_eq,ram]
 by_cases here : cr3 / 4096 = c ∧ PDE_IDX vaddr = j
 · obtain ⟨rfl,rfl⟩ := here
   rw [if_pos rfl,update_self,entry,zero,target_zero]
   simp only [bind_some,bind_none]
   rw [ram,if_neg (notDir p (by simp)),blank _ (pte_idx_lt vaddr)]
 have entry : (if cr3 / 4096 = c then update (s.ram c) j (p * 4096 ||| PAGE_PUW) else s.ram (cr3 / 4096))
   (PDE_IDX vaddr) = s.ram (cr3 / 4096) (PDE_IDX vaddr) := by
  split_ifs with same
  · rw [update_of_ne (fun equal => here ⟨same,equal⟩),same]
  · rfl
 rw [entry]
 cases fst : target (s.ram (cr3 / 4096) (PDE_IDX vaddr)) with
 | none => rfl
 | some t =>
  simp only [bind_some]
  rw [ram,if_neg (notDir t (by simp [table_of_entry mem user fst]))]
lemma Sound.drop_table (dir : c ∈ dirs s) (idx : j ∈ userEntries)
 (ref : target (s.ram c j) = some t) (blank : ∀ i < 1024, target (s.ram t i) = none) :
 Sound extra n ((s.free_page (t * 4096)).poke (c * 4096) j 0) := by
 set s' := (s.free_page (t * 4096)).poke (c * 4096) j 0 with s'Is
 have ram : ∀ q, s'.ram q = if q = c then update (s.ram c) j 0 else s.ram q := poke_ram _ c j 0
 have written : s'.ram = update s.ram c (update (s.ram c) j 0) := by
  funext q
  rw [ram,update_apply]
 have table : t ∈ tables s := mem_refs.mpr ⟨c,dir,j,idx,ref⟩
 have perm : (tables s).Perm (t :: tables s') := by
  have change := refs_exchange s.ram (w := 0) sound.dirs_once nodup_range' dir idx
  rw [ref,target_zero] at change
  simp only [toList_none,append_nil,toList_some] at change
  unfold tables
  rw [written]
  exact change.symm.trans (perm_append_singleton _ _)
 have mappedPerm : (mapped s).Perm (mapped s') := by
  have same : refs s'.ram (tables s') (range 1024) = refs s.ram (tables s') (range 1024) := by
   refine refs_congr ?_
   intro u mem i _
   rw [ram,if_neg]
   rintro rfl
   exact sound.table_not_dir (perm.mem_iff.mpr (mem_cons_of_mem _ mem)) dir
  refine (refs_perm perm).trans ?_
  rw [refs_blank (fun i idx => blank i (mem_range.mp idx)),<- same]
  exact .refl _
 have ownedPerm : (owned s).Perm (t :: owned s') := by
  unfold owned
  exact (List.Perm.append_left _ perm).trans perm_middle
 obtain ⟨cnt,spare⟩ := (sound.counts.perm ownedPerm mappedPerm).disown sound.spare
 refine ⟨cnt,spare,sound.pages,?_⟩
 intro d isDir e user
 rw [ram]
 split_ifs with same
 · by_cases here : e = j
   · rw [here,update_self]
     exact .inl rfl
   rw [update_of_ne here]
   exact sound.whole c dir e user
 · exact sound.whole d isDir e user

/-! ### Page directories -/
lemma Sound.add_dir (new : Fresh s.map (owned s) (mapped s) p)
 (blank : ∀ j ∈ userEntries, s.ram p j = 0) : Sound extra n {s with procs := p * 4096 :: s.procs} := by
 have page : p * 4096 / 4096 = p := by omega
 have sameDirs : dirs {s with procs := p * 4096 :: s.procs} = p :: dirs s := by
  unfold dirs
  simp only [map_cons,page]
 have tabs : tables {s with procs := p * 4096 :: s.procs} = tables s := by
  unfold tables
  rw [sameDirs]
  refine refs_blank ?_
  intro j user
  show target (s.ram p j) = none
  rw [blank j user,target_zero]
 have sameMapped : mapped {s with procs := p * 4096 :: s.procs} = mapped s := by
  unfold mapped
  rw [tabs]
 refine ⟨?_,sound.spare,?_,?_⟩
 · rw [owned,sameDirs,tabs,sameMapped]
   exact sound.counts.own new
 · intro cr3 mem
   rcases mem_cons.mp mem with rfl | mem
   · omega
   · exact sound.pages cr3 mem
 intro c dir j user
 rw [sameDirs] at dir
 rcases mem_cons.mp dir with rfl | dir
 · exact .inl (blank j user)
 · exact sound.whole c dir j user
lemma Sound.drop_dir (mem : cr3 ∈ s.procs)
 (blank : ∀ j ∈ userEntries, target (s.ram (cr3 / 4096) j) = none) :
 Sound extra n {s.free_page cr3 with procs := s.procs.erase cr3} := by
 set s' : Machine := {s.free_page cr3 with procs := s.procs.erase cr3} with s'Is
 have dirsPerm : (dirs s).Perm (cr3 / 4096 :: dirs s') := by
  unfold dirs
  exact (perm_cons_erase mem).map _
 have perm : (tables s).Perm (tables s') := by
  refine (refs_perm dirsPerm).trans ?_
  rw [refs_blank blank]
  exact .refl _
 have mappedPerm : (mapped s).Perm (mapped s') := refs_perm perm
 have ownedPerm : (owned s).Perm (cr3 / 4096 :: owned s') := by
  unfold owned
  exact dirsPerm.append perm
 obtain ⟨cnt,spare⟩ := (sound.counts.perm ownedPerm mappedPerm).disown sound.spare
 have page : cr3 / 4096 * 4096 = cr3 := by
  have := sound.pages cr3 mem
  omega
 rw [page] at cnt spare
 refine ⟨cnt,spare,?_,?_⟩
 · intro ne kept
   exact sound.pages ne (mem_of_mem_erase kept)
 intro c dir j user
 exact sound.whole c (dirsPerm.mem_iff.mpr (mem_cons_of_mem _ dir)) j user
end

/-! ### The ways to write a page table entry -/
section
variable (sound : Sound extra n s)
include sound
lemma Sound.entry_unique {cr3' j' : Nat} (mem : cr3 ∈ s.procs) (mem' : cr3' ∈ s.procs)
 (idx : j ∈ userEntries) (index' : j' ∈ userEntries) (ref : target (s.ram (cr3 / 4096) j) = some t)
 (ref' : target (s.ram (cr3' / 4096) j') = some t) : cr3 = cr3' ∧ j = j' := by
 have single : (tables s).count t ≤ 1 := nodup_iff_count_le_one.mp sound.tables_once t
 have same := slot_unique single (mem_product.mpr ⟨mem_dirs mem,idx⟩)
  (mem_product.mpr ⟨mem_dirs mem',index'⟩) ref ref'
 simp only [Prod.mk.injEq] at same
 have fst := sound.pages cr3 mem
 have snd := sound.pages cr3' mem'
 exact ⟨by omega,same.2⟩
lemma Sound.entry_iff {cr3' v : Nat} (mem : cr3 ∈ s.procs) (user : User vaddr)
 (ref : target (s.ram (cr3 / 4096) (PDE_IDX vaddr)) = some t) (mem' : cr3' ∈ s.procs) (user' : User v) :
 (target (s.ram (cr3' / 4096) (PDE_IDX v)) = some t ∧ PTE_IDX v = PTE_IDX vaddr) ↔
  cr3' = cr3 ∧ v / 4096 = vaddr / 4096 := by
 constructor
 · rintro ⟨leads,entry⟩
   obtain ⟨same,idx⟩ := sound.entry_unique mem' mem user' user leads ref
   refine ⟨same,?_⟩
   unfold PDE_IDX PTE_IDX at *
   omega
 rintro ⟨rfl,page⟩
 have idx : PDE_IDX v = PDE_IDX vaddr := by unfold PDE_IDX; omega
 have entry : PTE_IDX v = PTE_IDX vaddr := by unfold PTE_IDX; omega
 rw [idx,entry]
 exact ⟨ref,rfl⟩
lemma Sound.page_kept {q : Nat} (table : t ∈ tables s) (mem : q ∈ mapped s) {m : PageMap} :
 (({s with map := m} : Machine).poke (t * 4096) i w).ram q = s.ram q := by
 rw [poke_ram,if_neg]
 rintro rfl
 exact sound.table_unmapped table mem
lemma Sound.reflag (table : t ∈ tables s) (idx : i < 1024)
 (same : target w = target (s.ram t i)) :
 Sound extra n (s.poke (t * 4096) i w) ∧ tables (s.poke (t * 4096) i w) = tables s ∧
  (mapped (s.poke (t * 4096) i w)).Perm (mapped s) ∧ Kept s (s.poke (t * 4096) i w) := by
 obtain ⟨kept,tabs,mappedSame⟩ := sound.set_entry (w := w) table idx sound.counts (by rw [same]) sound.spare
 refine ⟨kept,tabs,mappedSame,?_⟩
 intro cr3 mem vaddr user
 refine ⟨?_,fun p leads => sound.page_kept (m := s.map) table (mem_mapped.mpr ⟨cr3,mem,vaddr,user,leads⟩)⟩
 refine (sound.walk_entry (m := s.map) table mem vaddr).trans ?_
 split_ifs with here
 · rw [walk_eq,here.1,bind_some,here.2,same]
 · rfl
lemma Sound.count_page {q : Nat} (memory : InMemory s.map q) :
 s.count (q * 4096) = users s.map q := by
 have word : q * 4096 < 2^32 := by
  have := sound.counts.geometry.word
  have := memory.2
  omega
 unfold Machine.count users
 rw [map_nr_eq sound.counts.geometry memory.1 word,show q * 4096 / 4096 = q by omega]
lemma Sound.count_users {q : Nat} (mem : q ∈ mapped s) :
 s.count (q * 4096) = users s.map q :=
 sound.count_page (sound.counts.counted q mem).1
lemma Sound.map_shared (table : t ∈ tables s) (idx : i < 1024)
 (free : target (s.ram t i) = none) (ref : target w = some p) (mem : p ∈ mapped s) (page : w / 4096 = p)
 (word : w < 2^32) :
 Sound extra n ((s.poke (t * 4096) i w).addCount w 1) ∧ tables ((s.poke (t * 4096) i w).addCount w 1) = tables s ∧
  (mapped ((s.poke (t * 4096) i w).addCount w 1)).Perm (p :: mapped s) := by
 subst page
 have used : s.map.count (s.map.MAP_NR w) ≠ 0 := by
  have memory := (sound.counts.counted _ mem).1
  rw [map_nr_eq sound.counts.geometry (by unfold InMemory at memory; omega) word]
  have := sound.counts.mapped_pos mem
  unfold users at this
  omega
 refine sound.set_entry (w := w) table idx (sound.counts.share mem word) ?_ (sound.spare.setCount used)
 rw [free,ref]
 simp only [toList_none,append_nil,toList_some]
 exact (perm_append_singleton _ _).symm
lemma Sound.map_alias (table : t ∈ tables s) (idx : i < 1024)
 (free : target (s.ram t i) = none) (ref : target w = some p) (mem : p ∈ mapped s) :
 Sound (p :: extra) n (s.poke (t * 4096) i w) ∧ tables (s.poke (t * 4096) i w) = tables s ∧
  (mapped (s.poke (t * 4096) i w)).Perm (p :: mapped s) := by
 refine sound.set_entry (w := w) table idx (sound.counts.alias mem) ?_ sound.spare
 rw [free,ref]
 simp only [toList_none,append_nil,toList_some]
 exact (perm_append_singleton _ _).symm
lemma Sound.map_fresh (new : Fresh s.map (owned s) (mapped s) p) (table : t ∈ tables s)
 (idx : i < 1024) (free : target (s.ram t i) = none) :
 Sound extra n (s.poke (t * 4096) i (p * 4096 ||| PAGE_PUW)) ∧
  tables (s.poke (t * 4096) i (p * 4096 ||| PAGE_PUW)) = tables s := by
 have entry := sound.target_new new
 obtain ⟨kept,tabs,_⟩ := sound.set_entry (w := p * 4096 ||| PAGE_PUW) table idx (sound.counts.map new) (by
  rw [free,entry]
  simp only [toList_none,append_nil,toList_some]
  exact (perm_append_singleton _ _).symm) sound.spare
 exact ⟨kept,tabs⟩
lemma Sound.remap {q : Nat} (new : Fresh s.map (owned s) (mapped s) p) (table : t ∈ tables s)
 (idx : i < 1024) (ref : target (s.ram t i) = some q) (several : s.count (q * 4096) ≠ 1) :
 Sound extra n ((s.addCount (q * 4096) (-1)).poke (t * 4096) i (p * 4096 ||| PAGE_PUW)) ∧
  tables ((s.addCount (q * 4096) (-1)).poke (t * 4096) i (p * 4096 ||| PAGE_PUW)) = tables s := by
 have entry := sound.target_new new
 have mem : q ∈ mapped s := page_of_entry table idx ref
 obtain ⟨memory,pos,count⟩ := sound.counts.counted q mem
 have page : q * 4096 / 4096 = q := by omega
 have word : q * 4096 < 2^32 := by
  have := sound.counts.geometry.word
  have := memory.2
  omega
 have countIs := sound.count_users mem
 have rest : (mapped s).Perm (q :: (mapped s).erase q) := perm_cons_erase mem
 have again : q ∈ (mapped s).erase q := by
  rw [<- count_pos_iff,count_erase_self]
  omega
 have dropped := (sound.counts.perm (.refl _) rest).unshare again (v := s.count (q * 4096) + -1) (by omega) (by omega)
 have spare : Spare n (s.map.setCount (s.map.MAP_NR (q * 4096)) (s.count (q * 4096) + -1)) := by
  refine sound.spare.setCount ?_
  unfold Machine.count at countIs
  omega
 have usersIs : users (s.map.setCount (s.map.MAP_NR (q * 4096)) (s.count (q * 4096) + -1)) p = users s.map p := by
  rw [setCount_users sound.counts.geometry (by rw [page]; exact memory) word,page,if_neg]
  rintro rfl
  exact new.unmapped mem
 have fresh' : Fresh (s.map.setCount (s.map.MAP_NR (q * 4096)) (s.count (q * 4096) + -1)) (owned s)
   ((mapped s).erase q) p :=
  ⟨new.memory,by rw [usersIs,new.single],new.unowned,fun inside => new.unmapped (mem_of_mem_erase inside)⟩
 obtain ⟨kept,tabs,_⟩ := sound.set_entry (w := p * 4096 ||| PAGE_PUW) table idx (dropped.map fresh') (by
  rw [ref,entry]
  simp only [toList_some]
  calc (p :: (mapped s).erase q ++ [q]).Perm (q :: (p :: (mapped s).erase q)) := perm_append_singleton _ _
   _ |>.Perm (p :: (q :: (mapped s).erase q)) := List.Perm.swap _ _ _
   _ |>.Perm (p :: mapped s) := rest.symm.cons p
   _ |>.Perm (mapped s ++ [p]) := (perm_append_singleton _ _).symm) spare
 exact ⟨kept,tabs⟩

end
lemma Sound.clear (sound : Sound [] n s) (table : t ∈ tables s) (idx : i < 1024) :
 Sound [] n (remove_entry (t * 4096) s i) ∧ tables (remove_entry (t * 4096) s i) = tables s := by
 have word := word_ram s t i
 unfold remove_entry
 simp only [word]
 cases ref : target (s.ram t i) with
 | none =>
  rw [if_neg (not_not.mpr (target_none.mp ref))]
  obtain ⟨kept,tabs,_⟩ := sound.reflag (w := 0) table idx (by rw [ref,target_zero])
  exact ⟨kept,tabs⟩
 | some q =>
  obtain ⟨here,page,_⟩ := target_some ref
  rw [if_pos here,page]
  have mem : q ∈ mapped s := page_of_entry table idx ref
  have rest : (mapped s).Perm (q :: (mapped s).erase q) := perm_cons_erase mem
  obtain ⟨cnt,spare⟩ := (sound.counts.perm (.refl _) rest).unmap sound.spare
  obtain ⟨kept,tabs,_⟩ := sound.set_entry (w := 0) table idx cnt (by
   rw [ref,target_zero]
   simp only [toList_some,toList_none,append_nil]
   exact (perm_append_singleton _ _).trans rest.symm) spare
  exact ⟨kept,tabs⟩

end
end Netbas.PageTables
