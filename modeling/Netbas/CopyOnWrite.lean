import Netbas.PageRuns

/-!
Copy on write between a process and its child: without shared mappings every process reads what it
read at the fork, updated by its own stores (`isolated_after_fork`); with one a store may go to both
(`not_isolated_shared`).
-/
namespace Netbas.CopyOnWrite
open Runs Frames FrameUse MemoryInit Paging PageTables PageOps List Option
open PageFaults Teardown PageRuns Referents
def Later : Action -> Prop
 | .fork _ => True
 | .store _ _ _ => True
 | .kstore _ _ _ _ => True
 | _ => False
def ownStore (cr3 vaddr : Nat) : Action -> Option Nat -> Option Nat
 | .store cr3' a value, old => if cr3 = cr3' ∧ vaddr / 4 = a / 4 then some value else old
 | .kstore cr3' a size value, old =>
  if cr3 = cr3' ∧ vaddr / 4 * 4 ∈ wordsOf a size then some (value (vaddr / 4 * 4)) else old
 | _, old => old
def ownStores (cr3 vaddr : Nat) (acts : List Action) (old : Option Nat) : Option Nat :=
 acts.foldl (fun old a => ownStore cr3 vaddr a old) old

section
variable {s : Machine} {a : Action}
lemma step_isolated (ok : Sound [] 0 s) (excl : Exclusive s) (later : Later a) (done : Served s a) :
 ∃ s', step s a = some s' ∧ Sound [] 0 s' ∧ Exclusive s' ∧ (∀ cr3 ∈ s.procs, cr3 ∈ s'.procs) ∧
  ∀ cr3 ∈ s.procs, ∀ v, User v -> load s' cr3 v = ownStore cr3 v a (load s cr3 v) := by
 have enough := served_sound ok done
 obtain ⟨proper,_⟩ := done
 cases a with
 | fork cr3 =>
  obtain ⟨child,s',forked,ok',procs,_,kept,_,excl',_⟩ := fork_spec enough proper
  exact ⟨s',forked,ok',excl' excl,fun ne inside => by simp [procs,inside],kept.same⟩
 | store cr3 vaddr value =>
  obtain ⟨mem,user,maps⟩ := proper
  obtain ⟨s',stored,ok',procs,effect⟩ := user_store_spec enough mem user maps value
  obtain ⟨excl',loads⟩ := effect rfl excl
  exact ⟨s',stored,ok',excl',fun ne inside => procs ▸ inside,loads⟩
 | kstore cr3 vaddr size value =>
  obtain ⟨mem,buffer⟩ := proper
  obtain ⟨s',stored,ok',procs,effect⟩ := kernel_store_spec enough mem buffer value
  obtain ⟨excl',loads⟩ := effect rfl excl
  exact ⟨s',stored,ok',excl',fun ne inside => procs ▸ inside,loads⟩
 | create => exact later.elim
 | page_in _ _ => exact later.elim
 | share _ _ _ _ => exact later.elim
 | exec _ => exact later.elim
 | exit _ => exact later.elim

end
lemma run_isolated (after : List Action) : ∀ (s : Machine), Sound [] 0 s -> Exclusive s -> (∀ a ∈ after, Later a) ->
 Meets step Served s after -> ∃ s', run step s after = some s' ∧
  ∀ cr3 ∈ s.procs, ∀ v, User v -> load s' cr3 v = ownStores cr3 v after (load s cr3 v) := by
 induction after with
 | nil =>
  intro s _ _ _ _
  exact ⟨s,rfl,fun _ _ _ _ => rfl⟩
 | cons a rest ih =>
  intro s ok excl later meets
  obtain ⟨done,next⟩ := meets_cons.mp meets
  obtain ⟨s1,ran,ok1,exclusive1,procs1,loads1⟩ := step_isolated ok excl (later a (by simp)) done
  obtain ⟨s2,ends,loads2⟩ := ih s1 ok1 exclusive1 (fun b inside => later b (by simp [inside])) (next s1 ran)
  refine ⟨s2,by rw [run,ran]; exact ends,?_⟩
  intro cr3 mem v user
  rw [loads2 cr3 (procs1 cr3 mem) v user,loads1 cr3 mem v user]
  rfl

/-- Without shared mappings, a process reached from boot forks a child with its
  own memory: after any further forks and stores, by anyone, every process reads
  what it read at the fork, updated by its own stores. -/
theorem isolated_after_fork (modules_end mem_size pool : Nat) (kmem : Int) (start : Int -> PgmapsStruct) (map : PageMap)
 (ram : Nat -> Nat -> Nat) (low : modules_end < 2^31) (word : mem_size < 2^32)
 (accepted : memory_init (cp_grub_info modules_end) (check_kmem kmem) start mem_size = some (map,pool))
 (before : List Action) (s : Machine) (history : Meets step Served (booted map (cp_grub_info modules_end) ram) before)
 (unshared : ∀ a ∈ before, Unshared a) (reached : run step (booted map (cp_grub_info modules_end) ram) before = some s)
 (parent : Nat) (served : Served s (.fork parent)) :
 ∃ child s0, fork s parent = some s0 ∧ s0.procs = child :: s.procs ∧
  (∀ v, User v -> load s0 parent v = load s parent v ∧ load s0 child v = load s parent v) ∧
  ∀ after, (∀ a ∈ after, Later a) -> Meets step Served s0 after -> ∃ s1, run step s0 after = some s1 ∧
   ∀ cr3 ∈ s0.procs, ∀ v, User v -> load s1 cr3 v = ownStores cr3 v after (load s0 cr3 v) := by
 obtain ⟨geometry,spare⟩ := memory_init_spare low word accepted
 have sound0 : Sound [] 0 (booted map (cp_grub_info modules_end) ram) := booted_sound geometry (spare.mono (Nat.zero_le _))
 have counted : Meets step (fun s a => Served s a ∧ Counted s a) (booted map (cp_grub_info modules_end) ram) before := by
  refine meets_mono before _ ?_ history
  intro a inside s served
  have none := unshared a inside
  cases a <;> first | exact ⟨served,trivial⟩ | exact none.elim
 obtain ⟨s',reached',sound,exclusive⟩ := run_sound before _ sound0 counted
 rw [reached] at reached'
 cases reached'
 have exclusive := exclusive unshared (booted_exclusive _ _ _)
 obtain ⟨child,s0,forked,sound0,procs,_,kept,walks,exclusive0,_⟩ := fork_spec (served_sound sound served) served.1
 refine ⟨child,s0,forked,procs,?_,?_⟩
 · intro v user
   refine ⟨kept.same parent served.1 v user,load_congr (walks v user) ?_⟩
   intro p leads
   exact (kept parent served.1 v user).2 p leads
 intro after later meets
 exact run_isolated after s0 sound0 (exclusive0 exclusive) later meets
theorem isolated_after_fork_small : ∃ map pool P C s s0 s1,
 memory_init (cp_grub_info 0) (check_kmem 20) (fun _ => ⟨0,0,0⟩) 0x4000000 = some (map,pool) ∧
  run step (booted map (cp_grub_info 0) (fun _ _ => 0)) [.create,.page_in P USER_SPACE_ADDR] = some s ∧
  fork s P = some s0 ∧ s0.procs = C :: s.procs ∧ run step s0 [.store P USER_SPACE_ADDR 7] = some s1 ∧
  load s1 P USER_SPACE_ADDR = some 7 ∧ load s1 C USER_SPACE_ADDR = load s P USER_SPACE_ADDR := by
 obtain ⟨map,pool,accepted,sound⟩ := booted_small
 obtain ⟨user,_⟩ := user_start
 obtain ⟨P,F,t,s1,s2,created,paged,sound1,sound2,procs1,procs2,_,blank,walks⟩ := one_page (n := 614) sound
 have member1 : P ∈ s1.procs := by simp [procs1]
 have member2 : P ∈ s2.procs := by simp [procs2]
 have history : Meets step Served (booted map (cp_grub_info 0) (fun _ _ => 0)) [.create,.page_in P USER_SPACE_ADDR] := by
  refine meets_cons.mpr ⟨⟨trivial,sound.spare.mono (by decide)⟩,?_⟩
  intro s' taken
  rw [step,created] at taken
  cases taken
  exact meets_cons.mpr ⟨⟨⟨member1,user,blank _ user⟩,sound1.spare.mono (by simp [need])⟩,fun s' _ => trivial⟩
 obtain ⟨C,s0,forked,procs0,eq,isolated⟩ := isolated_after_fork 0 _ pool 20 _ map (fun _ _ => 0) (by norm_num)
  (by norm_num) accepted [.create,.page_in P USER_SPACE_ADDR] s2 history (by simp [Unshared])
  (by simp [run,step,created,paged]) P ⟨member2,sound2.spare.mono (by simp [need])⟩
 obtain ⟨C',s0',forked',sound0,procs0',new,kept,_⟩ := fork_spec (n := 229) sound2 member2
 rw [forked] at forked'
 cases forked'
 have member0 : P ∈ s0.procs := by simp [procs0,member2]
 have page0 : walk s0 P USER_SPACE_ADDR ≠ none := by
  rw [(kept P member2 _ user).1,walks _ user]
  simp
 obtain ⟨s1,ends,loads⟩ := isolated [.store P USER_SPACE_ADDR 7] (by simp [Later])
  (meets_cons.mpr ⟨⟨⟨member0,user,page0⟩,sound0.spare.mono (by simp [need])⟩,fun s' _ => trivial⟩)
 refine ⟨map,pool,P,C,s2,s0,s1,accepted,by simp [run,step,created,paged],forked,procs0,ends,?_,?_⟩
 · rw [loads P member0 _ user]
   simp [ownStores,ownStore]
 have apart : C ≠ P := by
  have heads : C = C' := by
   rw [procs0] at procs0'
   exact (List.cons.inj procs0').1
  rintro rfl
  exact new (heads ▸ member2)
 rw [loads C (by simp [procs0]) _ user,(eq _ user).2.symm]
 simp [ownStores,ownStore,apart]

section
variable {extra : List Nat} {n : Nat} {s : Machine} {p cr3 vaddr : Nat}
lemma count_of_walks (ok : Sound extra n s) {l : List (Nat × Nat)} (once : l.Nodup)
 (exact : ∀ x, x ∈ l ↔ x.1 ∈ s.procs ∧ User x.2 ∧ x.2 % 4096 = 0 ∧ walk s x.1 x.2 = some p) :
 (mapped s).count p = l.length := by
 set slotOf : Nat × Nat -> Nat × Nat := fun x => ((target (s.ram (x.1 / 4096) (PDE_IDX x.2))).getD 0,PTE_IDX x.2)
  with slotOfIs
 have slot : ∀ x ∈ l, ∃ t, target (s.ram (x.1 / 4096) (PDE_IDX x.2)) = some t ∧
   target (s.ram t (PTE_IDX x.2)) = some p ∧ slotOf x = (t,PTE_IDX x.2) := by
  intro x mem
  obtain ⟨_,_,_,leads⟩ := (exact x).mp mem
  rw [walk_eq] at leads
  obtain ⟨t,table,ref⟩ := bind_eq_some_iff.mp leads
  exact ⟨t,table,ref,by simp [slotOfIs,table]⟩
 rw [<- length_map slotOf]
 refine count_slots (ok.tables_once.product nodup_range) (List.Nodup.map_on ?_ once) ?_
 · intro x mem y in' eq
   obtain ⟨t,table,_,slotX⟩ := slot x mem
   obtain ⟨t',table',_,slotY⟩ := slot y in'
   obtain ⟨isProc,user,al,_⟩ := (exact x).mp mem
   obtain ⟨isProc',user',aligned',_⟩ := (exact y).mp in'
   rw [slotX,slotY] at eq
   obtain ⟨rfl,entry⟩ := Prod.mk.inj eq
   obtain ⟨fst,page⟩ := (ok.entry_iff isProc' user' table' isProc user).mp ⟨table,entry⟩
   exact Prod.ext fst (by omega)
 rintro ⟨t,i⟩
 rw [List.mem_map]
 constructor
 · rintro ⟨x,mem,slotIs⟩
   obtain ⟨t',table,ref,slotX⟩ := slot x mem
   obtain ⟨isProc,user,_,_⟩ := (exact x).mp mem
   rw [slotX] at slotIs
   cases slotIs
   exact ⟨mem_product.mpr ⟨table_of_entry isProc user table,mem_range.mpr (pte_idx_lt _)⟩,ref⟩
 rintro ⟨mem,ref⟩
 obtain ⟨isTable,index⟩ := mem_product.mp mem
 obtain ⟨c,dir,j,user,table⟩ := mem_refs.mp isTable
 obtain ⟨ne,isProc,rfl⟩ := List.mem_map.mp dir
 obtain ⟨fst,snd⟩ := address_of_entry (j := j) (mem_range.mp index)
 refine ⟨(ne,j * 2^22 + i * 2^12),(exact _).mpr ⟨isProc,by rw [User,fst]; exact user,by omega,?_⟩,?_⟩
 · rw [walk_eq,fst,table,bind_some,snd]
   exact ref
 · simp only [slotOfIs,fst,snd,table,getD_some]
lemma read_only_entry (leads : walk s cr3 vaddr = some p) (readOnly : ¬ Writable s cr3 vaddr) :
 ∃ t, target (s.ram (cr3 / 4096) (PDE_IDX vaddr)) = some t ∧ target (s.ram t (PTE_IDX vaddr)) = some p ∧
  ¬ s.ram t (PTE_IDX vaddr) &&& PAGE_WRITABLE ≠ 0 := by
 rw [walk_eq] at leads
 obtain ⟨t,table,ref⟩ := bind_eq_some_iff.mp leads
 exact ⟨t,table,ref,fun bit => readOnly ⟨t,p,table,ref,bit⟩⟩
lemma user_store_shared (ok : Sound extra (n + 1) s) (mem : cr3 ∈ s.procs) (user : User vaddr)
 (leads : walk s cr3 vaddr = some p) (readOnly : ¬ Writable s cr3 vaddr) (several : users s.map p ≠ 1) (value : Nat) :
 ∃ q s', user_store s cr3 vaddr value = some s' ∧ Sound extra n s' ∧ s'.procs = s.procs ∧ q ≠ p ∧
  (∀ cr3' ∈ s.procs, ∀ v, User v -> walk s' cr3' v =
   if cr3' = cr3 ∧ v / 4096 = vaddr / 4096 then some q else walk s cr3' v) ∧
  ∀ cr3' ∈ s.procs, ∀ v, User v -> ¬ (cr3' = cr3 ∧ v / 4096 = vaddr / 4096) -> Writable s' cr3' v -> Writable s cr3' v := by
 obtain ⟨t,table,ref,bit⟩ := read_only_entry leads readOnly
 have maps := mem_mapped.mpr ⟨cr3,mem,vaddr,user,leads⟩
 obtain ⟨q,s1,swapped,ok1,made,new,_,walks,_⟩ := un_swap_shared ok (table_of_entry mem user table)
  (pte_idx_lt vaddr) ref (by rw [ok.count_users maps]; exact several)
 have leads1 : walk s1 cr3 vaddr = some q := by rw [walks cr3 mem vaddr user,if_pos ⟨table,rfl⟩]
 obtain ⟨s',stored,ok',procs,_,ownedKept,effect⟩ := store_spec ok1 (made.procs ▸ mem) user leads1 value
 refine ⟨q,s',?_,ok',procs.trans made.procs,?_,?_,?_⟩
 · rw [user_store_fault table ref bit,swapped]
   exact stored
 · rintro rfl
   exact new maps
 · intro cr3' mem' v user'
   rw [(effect cr3' (made.procs ▸ mem') v user').1,walks cr3' mem' v user']
   exact if_congr (ok.entry_iff mem user table mem' user') rfl rfl
 rintro cr3' mem' v user' elsewhere ⟨u,r,leads',ref',bit'⟩
 have member1 : cr3' ∈ s1.procs := made.procs ▸ mem'
 rw [ownedKept _ (mem_append_left _ (mem_dirs member1))] at leads'
 rw [ownedKept u (mem_append_right _ (table_of_entry member1 user' leads'))] at ref' bit'
 refine made.only mem' user' ?_ ⟨u,r,leads',ref',bit'⟩
 rwa [ok.entry_iff mem user table mem' user']
lemma user_store_alone (ok : Sound extra n s) (mem : cr3 ∈ s.procs) (user : User vaddr)
 (leads : walk s cr3 vaddr = some p) (readOnly : ¬ Writable s cr3 vaddr) (alone : users s.map p = 1) (value : Nat) :
 ∃ s', user_store s cr3 vaddr value = some s' ∧ ∀ cr3' ∈ s.procs, ∀ v, User v -> walk s cr3' v = some p ->
  v / 4 % 1024 = vaddr / 4 % 1024 -> load s' cr3' v = some value := by
 obtain ⟨t,table,ref,bit⟩ := read_only_entry leads readOnly
 have maps := mem_mapped.mpr ⟨cr3,mem,vaddr,user,leads⟩
 obtain ⟨s1,swapped,ok1,kept,made,_⟩ := un_swap_alone ok (table_of_entry mem user table) (pte_idx_lt vaddr)
  ref (by rw [ok.count_users maps]; exact alone)
 have leads1 : walk s1 cr3 vaddr = some p := by rw [(kept cr3 mem vaddr user).1,leads]
 obtain ⟨s',stored,_,_,_,_,effect⟩ := store_spec ok1 (made.procs ▸ mem) user leads1 value
 refine ⟨s',by rw [user_store_fault table ref bit,swapped]; exact stored,?_⟩
 intro cr3' mem' v user' leads' sameWord
 have leads1' : walk s1 cr3' v = some p := by rw [(kept cr3' mem' v user').1,leads']
 rw [(effect cr3' (made.procs ▸ mem') v user').2,if_pos ⟨leads1',sameWord⟩]

end
lemma users_shared {n F : Nat} {s : Machine} {l : List (Nat × Nat)} (ok : Sound [F] n s) (once : l.Nodup)
 (inside : ∀ x ∈ l, x.1 ∈ s.procs ∧ User x.2 ∧ x.2 % 4096 = 0)
 (exact : ∀ cr3 ∈ s.procs, ∀ v, User v -> v % 4096 = 0 -> (walk s cr3 v = some F ↔ (cr3,v) ∈ l)) :
 users s.map F + 1 = l.length := by
 have maps : F ∈ mapped s := ok.counts.aliases F (by simp)
 have counted := (ok.counts.counted F maps).2.2
 rw [count_cons_self,count_nil,count_of_walks ok once] at counted
 · push_cast at counted ⊢
   omega
 intro x
 constructor
 · intro mem
   obtain ⟨isProc,user,al⟩ := inside x mem
   exact ⟨isProc,user,al,(exact x.1 isProc x.2 user al).mpr mem⟩
 rintro ⟨isProc,user,al,leads⟩
 exact (exact x.1 isProc x.2 user al).mp leads
lemma start_pages {v : Nat} (al : v % 4096 = 0) :
 (v / 4096 = USER_SPACE_ADDR / 4096 ↔ v = USER_SPACE_ADDR) ∧
  (v / 4096 = (USER_SPACE_ADDR + 4096) / 4096 ↔ v = USER_SPACE_ADDR + 4096) := by
 unfold USER_SPACE_ADDR
 omega
theorem not_isolated_shared : ∃ map pool P C s s0 s1 value,
 memory_init (cp_grub_info 0) (check_kmem 20) (fun _ => ⟨0,0,0⟩) 0x4000000 = some (map,pool) ∧
  Meets step Served (booted map (cp_grub_info 0) (fun _ _ => 0))
   [.create,.page_in P USER_SPACE_ADDR,.share P USER_SPACE_ADDR (USER_SPACE_ADDR + 4096) 1] ∧
  run step (booted map (cp_grub_info 0) (fun _ _ => 0))
   [.create,.page_in P USER_SPACE_ADDR,.share P USER_SPACE_ADDR (USER_SPACE_ADDR + 4096) 1] = some s ∧
  Served s (.fork P) ∧ fork s P = some s0 ∧ s0.procs = C :: s.procs ∧
  Meets step Served s0
   [.store P USER_SPACE_ADDR 1,.store C USER_SPACE_ADDR 1,.store P (USER_SPACE_ADDR + 4096) value] ∧
  run step s0 [.store P USER_SPACE_ADDR 1,.store C USER_SPACE_ADDR 1,.store P (USER_SPACE_ADDR + 4096) value] =
   some s1 ∧
  load s1 C (USER_SPACE_ADDR + 4096) ≠ ownStores C (USER_SPACE_ADDR + 4096)
   [.store P USER_SPACE_ADDR 1,.store C USER_SPACE_ADDR 1,.store P (USER_SPACE_ADDR + 4096) value]
   (load s0 C (USER_SPACE_ADDR + 4096)) := by
 obtain ⟨map,pool,accepted,sound⟩ := booted_small
 obtain ⟨user,user'⟩ := user_start
 obtain ⟨P,F,a1,a2,s,created,paged,shared,soundA1,soundA2,sound3,procsA1,procsA2,procs3,blank,walks3⟩ :=
  one_page_shared (n := 614) sound
 have member3 : P ∈ s.procs := by simp [procs3]
 have procsP : s.procs = [P] := procs3
 obtain ⟨C,s0,forked,sound4,procs4,new,kept4,walksC,_,readOnly4⟩ := fork_spec (n := 229) sound3 member3
 have apart : C ≠ P := fun eq => new (eq ▸ member3)
 have procs4' : s0.procs = [C,P] := by rw [procs4,procsP]
 have memberP : P ∈ s0.procs := by simp [procs4']
 have memberC : C ∈ s0.procs := by simp [procs4']
 have isEither : ∀ cr3 ∈ s0.procs, cr3 = C ∨ cr3 = P := by simp [procs4']
 have aligned1 : USER_SPACE_ADDR % 4096 = 0 := by decide
 have aligned2 : (USER_SPACE_ADDR + 4096) % 4096 = 0 := by decide
 -- Both processes map both addresses to the page: four entries and the count is 3.
 have walks4 : ∀ cr3 ∈ s0.procs, ∀ v, User v -> walk s0 cr3 v =
   if v / 4096 = USER_SPACE_ADDR / 4096 ∨ v / 4096 = (USER_SPACE_ADDR + 4096) / 4096 then some F else none := by
  intro cr3 mem v userV
  rw [procs4'] at mem
  rcases List.mem_cons.mp mem with rfl | mem
  · rw [walksC v userV,walks3 v userV]
  · rw [List.mem_singleton.mp mem,(kept4 P member3 v userV).1,walks3 v userV]
 have leads4 : ∀ cr3 ∈ s0.procs, ∀ v, User v -> v % 4096 = 0 ->
   (walk s0 cr3 v = some F ↔ v = USER_SPACE_ADDR ∨ v = USER_SPACE_ADDR + 4096) := by
  intro cr3 mem v userV aligned
  rw [walks4 cr3 mem v userV]
  simp only [(start_pages aligned).1,(start_pages aligned).2]
  split_ifs with either
  · simp [either]
  · simp [either]
 have users4 : users s0.map F + 1 = 4 := by
  refine users_shared (l := [(P,USER_SPACE_ADDR),(P,USER_SPACE_ADDR + 4096),(C,USER_SPACE_ADDR),
   (C,USER_SPACE_ADDR + 4096)]) sound4 (by simp [apart.symm]) (by simp [memberP,memberC,user,user',aligned1,aligned2]) ?_
  intro cr3 mem v userV aligned
  rw [leads4 cr3 mem v userV aligned]
  rcases isEither cr3 mem with rfl | rfl
  · simp [apart]
  · simp [apart.symm]
 have fst : walk s0 P USER_SPACE_ADDR = some F := (leads4 P memberP _ user aligned1).mpr (.inl rfl)
 obtain ⟨q1,b1,stored1,sound5,procs5,other1,walks5,writable5⟩ := user_store_shared sound4 memberP user fst
  (readOnly4 _ user).1 (by omega) 1
 -- The parent left the first address: three entries.
 have leads5 : ∀ cr3 ∈ s0.procs, ∀ v, User v -> v % 4096 = 0 -> (walk b1 cr3 v = some F ↔
   ¬ (cr3 = P ∧ v = USER_SPACE_ADDR) ∧ (v = USER_SPACE_ADDR ∨ v = USER_SPACE_ADDR + 4096)) := by
  intro cr3 mem v userV aligned
  rw [walks5 cr3 mem v userV,<- leads4 cr3 mem v userV aligned]
  simp only [(start_pages aligned).1]
  split_ifs with here
  · simp [here,other1]
  · simp [here]
 have users5 : users b1.map F + 1 = 3 := by
  refine users_shared (l := [(P,USER_SPACE_ADDR + 4096),(C,USER_SPACE_ADDR),(C,USER_SPACE_ADDR + 4096)]) sound5
   (by simp [apart.symm]) (by simp [procs5,memberP,memberC,user,user',aligned1,aligned2]) ?_
  intro cr3 mem v userV aligned
  rw [procs5] at mem
  rw [leads5 cr3 mem v userV aligned]
  rcases isEither cr3 mem with rfl | rfl
  · simp [apart]
  have distinct : v = USER_SPACE_ADDR + 4096 -> v ≠ USER_SPACE_ADDR := by omega
  simp only [List.mem_cons,Prod.mk.injEq,apart.symm,List.not_mem_nil,true_and,false_and,or_false]
  exact ⟨fun both => both.2.resolve_left both.1,fun eq => ⟨distinct eq,.inr eq⟩⟩
 have snd : walk b1 C USER_SPACE_ADDR = some F :=
  (leads5 C memberC _ user aligned1).mpr ⟨fun both => apart both.1,.inl rfl⟩
 have readOnly5 : ∀ cr3 v, User v -> (cr3 = C ∨ v / 4096 ≠ USER_SPACE_ADDR / 4096) -> cr3 ∈ s0.procs ->
   ¬ Writable b1 cr3 v := by
  intro cr3 v userV away mem writable
  have pre := writable5 cr3 mem v userV (by
   rintro ⟨rfl,page⟩
   rcases away with eq | away
   · exact apart eq.symm
   · exact away page) writable
  rcases isEither cr3 mem with rfl | rfl
  · exact (readOnly4 v userV).2 pre
  · exact (readOnly4 v userV).1 pre
 obtain ⟨q2,b2,stored2,sound6,procs6,other2,walks6,writable6⟩ := user_store_shared sound5 (procs5 ▸ memberC) user snd
  (readOnly5 C _ user (.inl rfl) memberC) (by omega) 1
 -- So did the child: two entries, and the count is 1.
 have leads6 : ∀ cr3 ∈ s0.procs, ∀ v, User v -> v % 4096 = 0 -> (walk b2 cr3 v = some F ↔
   v = USER_SPACE_ADDR + 4096) := by
  intro cr3 mem v userV aligned
  have distinct : v = USER_SPACE_ADDR + 4096 -> v ≠ USER_SPACE_ADDR := by omega
  have pre := leads5 cr3 mem v userV aligned
  rw [walks6 cr3 (procs5 ▸ mem) v userV]
  simp only [(start_pages aligned).1]
  rcases isEither cr3 mem with rfl | rfl
  · split_ifs with here
    · simp only [Option.some.injEq,other2,false_iff]
      exact fun eq => distinct eq here.2
    rw [pre]
    simp only [apart,false_and,not_false_eq_true,true_and] at here ⊢
    exact or_iff_right here
  rw [if_neg (fun both => apart.symm both.1),pre]
  simp only [true_and]
  exact ⟨fun both => both.2.resolve_left both.1,fun eq => ⟨distinct eq,.inr eq⟩⟩
 have users6 : users b2.map F + 1 = 2 := by
  refine users_shared (l := [(P,USER_SPACE_ADDR + 4096),(C,USER_SPACE_ADDR + 4096)]) sound6
   (by simp [apart.symm]) (by simp [procs6,procs5,memberP,memberC,user',aligned2]) ?_
  intro cr3 mem v userV aligned
  rw [procs6,procs5] at mem
  rw [leads6 cr3 mem v userV aligned]
  rcases isEither cr3 mem with rfl | rfl
  · simp [apart]
  · simp [apart.symm]
 have third : ∀ cr3 ∈ s0.procs, walk b2 cr3 (USER_SPACE_ADDR + 4096) = some F :=
  fun cr3 mem => (leads6 cr3 mem _ user' aligned2).mpr rfl
 have readOnly6 : ¬ Writable b2 P (USER_SPACE_ADDR + 4096) := by
  intro writable
  refine readOnly5 P _ user' (.inr (by decide)) memberP (writable6 P (procs5 ▸ memberP) _ user' ?_ writable)
  exact fun both => apart.symm both.1
 set value := (load s0 C (USER_SPACE_ADDR + 4096)).getD 0 + 1 with valueIs
 obtain ⟨s1,stored3,seen⟩ := user_store_alone sound6 (procs6.trans procs5 ▸ memberP) user' (third P memberP) readOnly6
  (by omega) value
 have loaded := seen C (procs6.trans procs5 ▸ memberC) _ user' (third C memberC) rfl
 refine ⟨map,pool,P,C,s,s0,s1,value,accepted,?_,by simp [run,step,created,paged,shared],
  ⟨member3,sound3.spare.mono (by simp [need])⟩,forked,procs4,?_,by simp [run,step,stored1,stored2,stored3],?_⟩
 · refine meets_cons.mpr ⟨⟨trivial,sound.spare.mono (by decide)⟩,?_⟩
   intro s' taken
   rw [step,created] at taken
   cases taken
   refine meets_cons.mpr ⟨⟨⟨by simp [procsA1],user,blank⟩,soundA1.spare.mono (by simp [need])⟩,?_⟩
   intro s' taken
   rw [step,paged] at taken
   cases taken
   exact meets_cons.mpr ⟨⟨show P ∈ a2.procs by simp [procsA2],soundA2.spare.mono (by simp [need])⟩,fun s' _ => trivial⟩
 · refine meets_cons.mpr ⟨⟨⟨memberP,user,by rw [fst]; simp⟩,sound4.spare.mono (by simp [need])⟩,?_⟩
   intro s' taken
   rw [step,stored1] at taken
   cases taken
   refine meets_cons.mpr ⟨⟨⟨procs5 ▸ memberC,user,by rw [snd]; simp⟩,sound5.spare.mono (by simp [need])⟩,?_⟩
   intro s' taken
   rw [step,stored2] at taken
   cases taken
   exact meets_cons.mpr ⟨⟨⟨procs6.trans procs5 ▸ memberP,user',by rw [third P memberP]; simp⟩,
    sound6.spare.mono (by simp [need])⟩,fun s' _ => trivial⟩
 rw [loaded]
 have notOwn : ownStores C (USER_SPACE_ADDR + 4096)
   [.store P USER_SPACE_ADDR 1,.store C USER_SPACE_ADDR 1,.store P (USER_SPACE_ADDR + 4096) value]
   (load s0 C (USER_SPACE_ADDR + 4096)) = load s0 C (USER_SPACE_ADDR + 4096) := by
  have words : (USER_SPACE_ADDR + 4096) / 4 ≠ USER_SPACE_ADDR / 4 := by decide
  simp only [ownStores,List.foldl_cons,List.foldl_nil,ownStore,apart,words,false_and,and_false,if_false]
 rw [notOwn]
 intro eq
 rw [<- eq] at valueIs
 simp at valueIs

end Netbas.CopyOnWrite
