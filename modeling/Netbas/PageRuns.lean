import Netbas.MemoryInit
import Netbas.Teardown

/-!
Runs of the paging code from boot. While no shared mapping changes what an entry maps, every mapped
frame has the count of its entries (`counts_exact_along`); `attach_share_page` counts nothing
(`counts_inexact_shared`).
-/
namespace Netbas.PageRuns
open Chains Runs Frames FrameUse List Option
open FrameRuns (HoleList)
open MemoryInit Paging PageTables PageOps PageFaults Teardown
lemma untouched_linked {m : PageMap} {f : Int} (new : Untouched m f) (last : m.hole_tail_pos = m.PHI_BLOCKS - 1)
 (more : f < m.PHI_BLOCKS) : Linked m ((range (m.PHI_BLOCKS - 1 - f).toNat).map (fun i : Nat => f + i)) := by
 have low := new.low
 set k := (m.PHI_BLOCKS - 1 - f).toNat with kIs
 have members : ∀ g ∈ (range k).map (fun i : Nat => f + i) ++ [m.hole_tail_pos], f ≤ g ∧ g < m.PHI_BLOCKS := by
  intro g mem
  rcases mem_append.mp mem with inside | atEnd
  · obtain ⟨i,idx,rfl⟩ := mem_map.mp inside
    have := mem_range.mp idx
    omega
  rw [mem_singleton.mp atEnd,last]
  omega
 refine ⟨new.bound,?_,?_,?_⟩
 · rw [new.head,last]
   have walk := follows_range f k fun i less => new.linked (f + i) (by omega) (by omega)
   rwa [show f + (k : Int) = m.PHI_BLOCKS - 1 by omega] at walk
 · refine nodup_append.mpr ⟨?_,by simp,?_⟩
   · refine List.Nodup.map ?_ nodup_range
     intro i j eq
     dsimp only at eq
     omega
   intro a inside b atEnd
   obtain ⟨i,idx,rfl⟩ := mem_map.mp inside
   have := mem_range.mp idx
   rw [mem_singleton.mp atEnd,last]
   omega
 intro g mem
 obtain ⟨above,lt⟩ := members g mem
 exact ⟨by omega,lt,new.free g above lt⟩
lemma memory_init_spare {modules_end mem_size pool : Nat} {kmem : Int} {start : Int -> PgmapsStruct} {map : PageMap}
 (low : modules_end < 2^31) (word : mem_size < 2^32)
 (took : memory_init (cp_grub_info modules_end) (check_kmem kmem) start mem_size = some (map,pool)) :
 Geometry map ∧ Spare (capacity map - (check_kmem kmem / 4096).toNat) map := by
 obtain ⟨k,slab,above,cases⟩ := memory_init_cases kmem start low word
 rcases cases with ⟨_,refused⟩ | ⟨_,fits,map',pool',ran,new,blocks,lowIs,highIs,last⟩
 · rw [refused] at took
   cases took
 rw [ran] at took
 cases took
 have al : map.LOW_MEM % 4096 = 0 := by
  rw [lowIs]
  unfold poolStart
  omega
 set mm_pool := poolStart (cp_grub_info modules_end) mem_size
 rw [slab,show ((k : Int) * 4096 / 4096).toNat = k by omega]
 refine ⟨⟨al,by omega,by omega,by omega⟩,_,untouched_linked new last (by omega),?_,?_⟩
 · rw [length_map,length_range]
   unfold capacity
   omega
 intro f mem
 rw [<- map_take,take_range] at mem
 obtain ⟨i,idx,rfl⟩ := mem_map.mp mem
 have := mem_range.mp idx
 unfold capacity at this
 omega
def booted (map : PageMap) (KERN_PG_DIR_ADDR : Nat) (ram : Nat -> Nat -> Nat) : Machine :=
 ⟨map,KERN_PG_DIR_ADDR,ram,[]⟩
lemma booted_sound {map : PageMap} {KERN_PG_DIR_ADDR n : Nat} {ram : Nat -> Nat -> Nat} (geometry : Geometry map)
 (spare : Spare n map) : Sound [] n (booted map KERN_PG_DIR_ADDR ram) :=
 ⟨⟨geometry,.nil,by rintro p (_ | _),by rintro p (_ | _),by simp⟩,spare,by rintro cr3 (_ | _),by rintro c (_ | _)⟩
lemma booted_exclusive (map : PageMap) (KERN_PG_DIR_ADDR : Nat) (ram : Nat -> Nat -> Nat) :
 Exclusive (booted map KERN_PG_DIR_ADDR ram) := by
 rintro x (_ | _)
inductive Action where
 | create
 | page_in (cr3 vaddr : Nat)
 | fork (cr3 : Nat)
 | store (cr3 vaddr value : Nat)
 | kstore (cr3 vaddr size : Nat) (value : Nat -> Nat)
 | share (cr3 form_addr to_addr pages : Nat)
 | exec (cr3 : Nat)
 | exit (cr3 : Nat)

section
variable (s : Machine)
def step : Action -> Option Machine
 | .create => (arch_proc_init s).map Prod.snd
 | .page_in cr3 vaddr => (do_no_page s cr3 vaddr).map Prod.snd
 | .fork cr3 => Paging.fork s cr3
 | .store cr3 vaddr value => user_store s cr3 vaddr value
 | .kstore cr3 vaddr size value => kernel_store s cr3 vaddr size value
 | .share cr3 form_addr to_addr pages => (map_to s cr3 form_addr to_addr pages).map Prod.snd
 | .exec cr3 => some (unmap_proc s cr3 false)
 | .exit cr3 => some (unmap_proc s cr3 true)
def need : Action -> Nat
 | .create => 385
 | .page_in _ _ => 2
 | .fork _ => 385
 | .store _ _ _ => 1
 | .kstore _ vaddr size _ => bufferPages vaddr size
 | .share _ _ _ _ => 0
 | .exec _ => 0
 | .exit _ => 0

/-- The process exists. A page-in comes from a fault on a user address without a
  page; stores are to user addresses with a page. -/
def Proper : Action -> Prop
 | .create => True
 | .page_in cr3 vaddr => cr3 ∈ s.procs ∧ User vaddr ∧ walk s cr3 vaddr = none
 | .fork cr3 => cr3 ∈ s.procs
 | .store cr3 vaddr _ => cr3 ∈ s.procs ∧ User vaddr ∧ walk s cr3 vaddr ≠ none
 | .kstore cr3 vaddr size _ => cr3 ∈ s.procs ∧ ∀ k < bufferPages vaddr size,
   User (vaddr / 4096 * 4096 + k * 4096) ∧ walk s cr3 (vaddr / 4096 * 4096 + k * 4096) ≠ none
 | .share cr3 _ _ _ => cr3 ∈ s.procs
 | .exec cr3 => cr3 ∈ s.procs
 | .exit cr3 => cr3 ∈ s.procs
def Served (a : Action) : Prop := Proper s a ∧ Spare (need a) s.map
def Counted : Action -> Prop
 | .share cr3 form_addr to_addr pages => Neutral s cr3 form_addr to_addr pages
 | _ => True
end
def Unshared : Action -> Prop
 | .share _ _ _ _ => False
 | _ => True

section
variable {n : Nat} {s : Machine} {a : Action}
lemma step_sound (ok : Sound [] (n + need a) s) (proper : Proper s a) (counted : Counted s a) :
 ∃ s', step s a = some s' ∧ Sound [] n s' ∧ (Unshared a -> Exclusive s -> Exclusive s') := by
 cases a with
 | create =>
  obtain ⟨cr3,s',created,_,ok',_,_,_,excl,_⟩ := arch_proc_init_spec ok
  exact ⟨s',by simp [step,created],ok',fun _ => excl⟩
 | page_in cr3 vaddr =>
  obtain ⟨mem,user,out⟩ := proper
  obtain ⟨r,s',paged,ok',_,excl⟩ := do_no_page_spec ok mem user out
  exact ⟨s',by simp [step,paged],ok',fun _ => excl⟩
 | fork cr3 =>
  obtain ⟨child,s',forked,ok',_,_,_,_,excl,_⟩ := fork_spec ok proper
  exact ⟨s',forked,ok',fun _ => excl⟩
 | store cr3 vaddr value =>
  obtain ⟨mem,user,maps⟩ := proper
  obtain ⟨s',stored,ok',_,excl⟩ := user_store_spec ok mem user maps value
  exact ⟨s',stored,ok',fun _ pre => (excl rfl pre).1⟩
 | kstore cr3 vaddr size value =>
  obtain ⟨mem,buffer⟩ := proper
  obtain ⟨s',stored,ok',_,excl⟩ := kernel_store_spec ok mem buffer value
  exact ⟨s',stored,ok',fun _ pre => (excl rfl pre).1⟩
 | share cr3 form_addr to_addr pages =>
  obtain ⟨r,s',held,ok',_⟩ := map_to_neutral ok proper counted
  exact ⟨s',by simp [step,held],ok',fun unshared => unshared.elim⟩
 | exec cr3 =>
  obtain ⟨s',unmapped,ok',_,excl⟩ := unmap_proc_spec ok proper false
  exact ⟨s',by rw [step,unmapped],ok',fun _ => excl⟩
 | exit cr3 =>
  obtain ⟨s',unmapped,ok',_,excl⟩ := unmap_proc_spec ok proper true
  exact ⟨s',by rw [step,unmapped],ok',fun _ => excl⟩
lemma served_sound (ok : Sound [] 0 s) (done : Served s a) : Sound [] (0 + need a) s :=
 ⟨ok.counts,by rw [Nat.zero_add]; exact done.2,ok.pages,ok.whole⟩
lemma run_sound (acts : List Action) : ∀ (s : Machine), Sound [] 0 s ->
 Meets step (fun s a => Served s a ∧ Counted s a) s acts -> ∃ s', run step s acts = some s' ∧ Sound [] 0 s' ∧
  ((∀ a ∈ acts, Unshared a) -> Exclusive s -> Exclusive s') := by
 induction acts with
 | nil =>
  intro s ok _
  exact ⟨s,rfl,ok,fun _ => id⟩
 | cons a rest ih =>
  intro s ok meets
  obtain ⟨⟨done,counted⟩,later⟩ := meets_cons.mp meets
  obtain ⟨s1,ran,ok1,excl1⟩ := step_sound (served_sound ok done) done.1 counted
  obtain ⟨s2,ends,ok2,excl2⟩ := ih s1 ok1 (later s1 ran)
  refine ⟨s2,by rw [run,ran]; exact ends,ok2,?_⟩
  intro unshared excl
  exact excl2 (fun b mem => unshared b (by simp [mem])) (excl1 (unshared a (by simp)) excl)

end
def CountsExact (s : Machine) : Prop :=
 (∀ p ∈ mapped s, users s.map p = (mapped s).count p) ∧
  ∃ l, HoleList s.map l ∧ ∀ p ∈ mapped s, frameOf s.map p ∉ l
lemma sound_exact {n : Nat} {s : Machine} (ok : Sound [] n s) : CountsExact s := by
 refine ⟨?_,?_⟩
 · intro p mem
   have count := (ok.counts.counted p mem).2.2
   simpa using count
 obtain ⟨l,link,_⟩ := ok.spare
 refine ⟨l ++ [s.map.hole_tail_pos],.inr ⟨l,rfl,link.walk⟩,?_⟩
 intro p mem inside
 have zero := (link.free _ inside).2.2
 have pos := ok.counts.mapped_pos mem
 unfold users at pos
 omega

/-- From boot, every run whose frames suffice and whose shared mappings change no
  reference is taken to its end and keeps the counts exact. -/
theorem counts_exact_along (modules_end mem_size pool : Nat) (kmem : Int) (start : Int -> PgmapsStruct) (map : PageMap)
 (ram : Nat -> Nat -> Nat) (low : modules_end < 2^31) (word : mem_size < 2^32)
 (accepted : memory_init (cp_grub_info modules_end) (check_kmem kmem) start mem_size = some (map,pool))
 (acts : List Action)
 (meets : Meets step (fun s a => Served s a ∧ Counted s a) (booted map (cp_grub_info modules_end) ram) acts) :
 Along step CountsExact (fun _ _ => True) (booted map (cp_grub_info modules_end) ram) acts ∧
  ∃ s, run step (booted map (cp_grub_info modules_end) ram) acts = some s := by
 obtain ⟨geometry,spare⟩ := memory_init_spare low word accepted
 have sound : Sound [] 0 (booted map (cp_grub_info modules_end) ram) := booted_sound geometry (spare.mono (Nat.zero_le _))
 refine ⟨?_,?_⟩
 · refine along_of_invariant (I := Sound [] 0) (fun s => sound_exact) (fun _ _ _ _ => trivial) ?_ acts _ sound meets
   rintro s a s' inv ⟨served,counted⟩ taken
   obtain ⟨s1,taken1,sound1,_⟩ := step_sound (served_sound inv served) served.1 counted
   rw [taken] at taken1
   cases taken1
   exact sound1
 obtain ⟨s,ends,_⟩ := run_sound acts _ sound meets
 exact ⟨s,ends⟩
lemma meets_of_sound {n : Nat} {s : Machine} {a : Action} {rest : List Action} (ok : Sound [] (n + need a) s)
 (proper : Proper s a) (counted : Counted s a)
 (later : ∀ s', step s a = some s' -> Meets step (fun s a => Served s a ∧ Counted s a) s' rest) :
 Meets step (fun s a => Served s a ∧ Counted s a) s (a :: rest) :=
 meets_cons.mpr ⟨⟨⟨proper,ok.spare.mono (Nat.le_add_left _ _)⟩,counted⟩,later⟩
lemma booted_small : ∃ map pool,
 memory_init (cp_grub_info 0) (check_kmem 20) (fun _ => ⟨0,0,0⟩) 0x4000000 = some (map,pool) ∧
  Sound [] 1000 (booted map (cp_grub_info 0) (fun _ _ => 0)) := by
 obtain ⟨map,pool,took,_,_,lowIs,highIs⟩ := memory_init_small
 obtain ⟨geometry,spare⟩ := memory_init_spare (by norm_num) (by norm_num) took
 have room : 1000 ≤ capacity map - (check_kmem 20 / 4096).toNat := by
  rw [capacity,lowIs,highIs]
  decide
 exact ⟨map,pool,took,booted_sound geometry (spare.mono room)⟩
lemma user_start : User USER_SPACE_ADDR ∧ User (USER_SPACE_ADDR + 4096) := by
 unfold User userEntries
 rw [mem_range'_1,mem_range'_1]
 decide
lemma one_page {n : Nat} {s : Machine} (ok : Sound [] (n + 1 + 385) s) :
 ∃ P F t s1 s2, arch_proc_init s = some (P,s1) ∧ do_no_page s1 P USER_SPACE_ADDR = some (0,s2) ∧
  Sound [] (n + 1) s1 ∧ Sound [] n s2 ∧ s1.procs = P :: s.procs ∧ s2.procs = P :: s.procs ∧
  target (s2.ram (P / 4096) 512) = some t ∧ (∀ v, User v -> walk s1 P v = none) ∧
  ∀ v, User v -> walk s2 P v = if v / 4096 = USER_SPACE_ADDR / 4096 then some F else none := by
 obtain ⟨P,s1,created,_,ok1,_,procs1,_,_,here,blank⟩ := arch_proc_init_spec ok
 have mem : P ∈ s1.procs := by simp [procs1]
 obtain ⟨user,_⟩ := user_start
 obtain ⟨t,table⟩ := ne_none_iff_exists'.mp (here _ user)
 have out := blank _ user
 rw [walk_eq,table,bind_some] at out
 obtain ⟨F,s2,paged,ok2,procs2,_,_,dirs2,walks⟩ := do_no_page_present ok1 mem user table out
 refine ⟨P,F,t,s1,s2,created,paged,ok1,ok2,procs1,procs2.trans procs1,?_,blank,?_⟩
 · rw [dirs2 _ (mem_dirs mem)]
   exact table
 intro v userV
 rw [walks P mem v userV,blank v userV]
 simp
theorem counts_exact_small : ∃ map pool P,
 memory_init (cp_grub_info 0) (check_kmem 20) (fun _ => ⟨0,0,0⟩) 0x4000000 = some (map,pool) ∧
  Along step CountsExact (fun _ _ => True) (booted map (cp_grub_info 0) (fun _ _ => 0))
   [.create,.page_in P USER_SPACE_ADDR,.fork P,.store P USER_SPACE_ADDR 7,.exit P] := by
 obtain ⟨map,pool,accepted,sound⟩ := booted_small
 obtain ⟨user,_⟩ := user_start
 obtain ⟨P,F,t,s1,s2,created,paged,sound1,sound2,procs1,procs2,_,blank,walks⟩ := one_page (n := 614) sound
 have member1 : P ∈ s1.procs := by simp [procs1]
 have member2 : P ∈ s2.procs := by simp [procs2]
 obtain ⟨C,s3,forked,sound3,procs3,_,kept3,_⟩ := fork_spec (n := 229) sound2 member2
 have member3 : P ∈ s3.procs := by simp [procs3,member2]
 have page3 : walk s3 P USER_SPACE_ADDR ≠ none := by
  rw [(kept3 P member2 _ user).1,walks _ user]
  simp
 obtain ⟨s4,stored,sound4,procs4,_⟩ := user_store_spec (n := 228) sound3 member3 user page3 7
 have member4 : P ∈ s4.procs := procs4 ▸ member3
 refine ⟨map,pool,P,accepted,(counts_exact_along 0 _ pool 20 _ map _ (by norm_num) (by norm_num) accepted _ ?_).1⟩
 -- Each action finds the process and its page as it needs them.
 refine meets_of_sound (n := 615) sound trivial trivial ?_
 intro s' taken
 rw [step,created] at taken
 cases taken
 refine meets_of_sound (n := 613) sound1 ⟨member1,user,blank _ user⟩ trivial ?_
 intro s' taken
 rw [step,paged] at taken
 cases taken
 refine meets_of_sound (n := 229) sound2 member2 trivial ?_
 intro s' taken
 rw [step,forked] at taken
 cases taken
 refine meets_of_sound (n := 228) sound3 ⟨member3,user,page3⟩ trivial ?_
 intro s' taken
 rw [step,stored] at taken
 cases taken
 exact meets_of_sound (n := 228) sound4 member4 trivial fun s' _ => trivial
lemma one_page_shared {n : Nat} {s : Machine} (ok : Sound [] (n + 1 + 385) s) :
 ∃ P F s1 s2 s3, arch_proc_init s = some (P,s1) ∧ do_no_page s1 P USER_SPACE_ADDR = some (0,s2) ∧
  map_to s2 P USER_SPACE_ADDR (USER_SPACE_ADDR + 4096) 1 = some (0,s3) ∧
  Sound [] (n + 1) s1 ∧ Sound [] n s2 ∧ Sound [F] n s3 ∧
  s1.procs = P :: s.procs ∧ s2.procs = P :: s.procs ∧ s3.procs = P :: s.procs ∧ walk s1 P USER_SPACE_ADDR = none ∧
  ∀ v, User v -> walk s3 P v =
   if v / 4096 = USER_SPACE_ADDR / 4096 ∨ v / 4096 = (USER_SPACE_ADDR + 4096) / 4096 then some F else none := by
 obtain ⟨P,F,t,s1,s2,created,paged,ok1,ok2,procs1,procs2,table,blank,walks⟩ := one_page ok
 obtain ⟨user,user'⟩ := user_start
 have mem : P ∈ s2.procs := by simp [procs2]
 have fst := walks _ user
 rw [if_pos rfl] at fst
 have snd := walks _ user'
 rw [if_neg (by decide)] at snd
 have maps : F ∈ mapped s2 := mem_mapped.mpr ⟨P,mem,_,user,fst⟩
 have here : target (s2.ram (P / 4096) (PDE_IDX USER_SPACE_ADDR)) = some t := table
 have here' : target (s2.ram (P / 4096) (PDE_IDX (USER_SPACE_ADDR + 4096))) = some t := table
 rw [walk_eq,here,bind_some] at fst
 rw [walk_eq,here',bind_some] at snd
 obtain ⟨s3,shared,sound3,procs3,walks3⟩ :=
  map_to_page ok2 mem user' ⟨by decide,by decide⟩ here here' fst maps snd
 refine ⟨P,F,s1,s2,s3,created,paged,shared,ok1,ok2,sound3,procs1,procs2,procs3.trans procs2,blank _ user,?_⟩
 intro v userV
 rw [walks3 P mem v userV,walks v userV]
 by_cases atSecond : v / 4096 = (USER_SPACE_ADDR + 4096) / 4096
 · rw [if_pos ⟨rfl,atSecond⟩,if_pos (.inr atSecond)]
 rw [if_neg (fun both => atSecond both.2)]
 exact if_congr ⟨.inl,fun either => either.resolve_right atSecond⟩ rfl rfl
theorem counts_inexact_shared : ∃ map pool P s,
 memory_init (cp_grub_info 0) (check_kmem 20) (fun _ => ⟨0,0,0⟩) 0x4000000 = some (map,pool) ∧
  Meets step Served (booted map (cp_grub_info 0) (fun _ _ => 0))
   [.create,.page_in P USER_SPACE_ADDR,.share P USER_SPACE_ADDR (USER_SPACE_ADDR + 4096) 1] ∧
  run step (booted map (cp_grub_info 0) (fun _ _ => 0))
   [.create,.page_in P USER_SPACE_ADDR,.share P USER_SPACE_ADDR (USER_SPACE_ADDR + 4096) 1] = some s ∧
  ¬ CountsExact s := by
 obtain ⟨map,pool,accepted,sound⟩ := booted_small
 obtain ⟨user,_⟩ := user_start
 obtain ⟨P,F,s1,s2,s3,created,paged,shared,sound1,sound2,sound3,procs1,procs2,procs3,blank,walks⟩ :=
  one_page_shared (n := 614) sound
 refine ⟨map,pool,P,s3,accepted,?_,by simp [run,step,created,paged,shared],?_⟩
 · refine meets_cons.mpr ⟨⟨trivial,sound.spare.mono (by decide)⟩,?_⟩
   intro s' taken
   rw [step,created] at taken
   cases taken
   refine meets_cons.mpr ⟨⟨⟨by simp [procs1],user,blank⟩,sound1.spare.mono (by simp [need])⟩,?_⟩
   intro s' taken
   rw [step,paged] at taken
   cases taken
   exact meets_cons.mpr ⟨⟨show P ∈ s2.procs by simp [procs2],sound2.spare.mono (by simp [need])⟩,fun s' _ => trivial⟩
 rintro ⟨exact,_⟩
 have isMapped : F ∈ mapped s3 := by
  refine mem_mapped.mpr ⟨P,by simp [procs3],_,user,?_⟩
  rw [walks _ user,if_pos (.inl rfl)]
 have counted := (sound3.counts.counted F isMapped).2.2
 rw [exact F isMapped,count_cons_self] at counted
 push_cast at counted
 omega

end Netbas.PageRuns
