import Netbas.Frames

/-!
What the frames are used for: owned by page directories and tables, or mapped by page table entries.
`Counts` ties the counts to both, up to entries that were never counted.
-/
namespace Netbas.FrameUse
open Frames Chains List
structure Geometry (m : PageMap) : Prop where
 aligned : m.LOW_MEM % 4096 = 0
 low : 0 < m.LOW_MEM
 word : m.HIGH_MEM ≤ 2^32
 covered : (m.HIGH_MEM : Int) ≤ m.LOW_MEM + m.PHI_BLOCKS * 4096
def InMemory (m : PageMap) (p : Nat) : Prop := m.LOW_MEM ≤ p * 4096 ∧ p * 4096 < m.HIGH_MEM
def frameOf (m : PageMap) (p : Nat) : Int := (p : Int) - (m.LOW_MEM / 4096 : Nat)
def users (m : PageMap) (p : Nat) : Int := m.count (frameOf m p)

/-- The counts of the frames that are owned and mapped, where `extra` lists the
  frames of the entries that were not counted. -/
structure Counts (m : PageMap) (extra owned mapped : List Nat) : Prop where
 geometry : Geometry m
 once : owned.Nodup
 owned : ∀ p ∈ owned, InMemory m p ∧ users m p = 1 ∧ p ∉ mapped
 counted : ∀ p ∈ mapped, InMemory m p ∧ 1 ≤ users m p ∧ users m p + extra.count p = mapped.count p
 aliases : ∀ p ∈ extra, p ∈ mapped
def Spare (n : Nat) (m : PageMap) : Prop :=
 ∃ l, Linked m l ∧ n ≤ l.length ∧ ∀ f ∈ l.take n, (m.LOW_MEM : Int) + f * 4096 < m.HIGH_MEM
structure Fresh (m : PageMap) (owned mapped : List Nat) (p : Nat) : Prop where
 memory : InMemory m p
 single : users m p = 1
 unowned : p ∉ owned
 unmapped : p ∉ mapped

section
variable {m m' : PageMap} {extra owned mapped : List Nat} {p q n : Nat}

variable {addr : Nat}
lemma map_nr_eq (geometry : Geometry m) (low : m.LOW_MEM ≤ addr) (word : addr < 2^32) :
 (m.MAP_NR addr : Int) = frameOf m (addr / 4096) := by
 have aligned := geometry.aligned
 unfold PageMap.MAP_NR frameOf
 omega
lemma frameOf_inj : frameOf m p = frameOf m q ↔ p = q := by
 unfold frameOf
 omega
lemma Spare.mono {k : Nat} (spare : Spare n m) (fewer : k ≤ n) : Spare k m := by
 obtain ⟨l,link,many,inside⟩ := spare
 exact ⟨l,link,by omega,fun f mem => inside f ((take_sublist_take_left fewer).subset mem)⟩
lemma Counts.perm {owned' mapped' : List Nat} (counts : Counts m extra owned mapped) (eq : owned.Perm owned')
 (same' : mapped.Perm mapped') : Counts m extra owned' mapped' := by
 refine ⟨counts.geometry,eq.nodup_iff.mp counts.once,?_,?_,fun p mem => same'.mem_iff.mp (counts.aliases p mem)⟩
 · intro p mem
   obtain ⟨memory,single,unmapped⟩ := counts.owned p (eq.mem_iff.mpr mem)
   exact ⟨memory,single,fun inside => unmapped (same'.mem_iff.mpr inside)⟩
 intro p mem
 obtain ⟨memory,pos,count⟩ := counts.counted p (same'.mem_iff.mpr mem)
 exact ⟨memory,pos,by rw [count,same'.count_eq]⟩
lemma Counts.mapped_pos (counts : Counts m extra owned mapped) (mem : p ∈ mapped) : 1 ≤ users m p :=
 (counts.counted p mem).2.1
lemma geometry_congr (geometry : Geometry m) (low : m'.LOW_MEM = m.LOW_MEM) (high : m'.HIGH_MEM = m.HIGH_MEM)
 (blocks : m'.PHI_BLOCKS = m.PHI_BLOCKS) : Geometry m' := by
 obtain ⟨aligned,pos,word,covered⟩ := geometry
 constructor
 · rw [low]; exact aligned
 · rw [low]; exact pos
 · rw [high]; exact word
 · rw [low,high,blocks]; exact covered
lemma users_update (low : m'.LOW_MEM = m.LOW_MEM) {v : Int} (counts : m'.count = Function.update m.count (frameOf m p) v) :
 users m' q = if q = p then v else users m q := by
 unfold users
 rw [counts,show frameOf m' q = frameOf m q by unfold frameOf; rw [low]]
 by_cases eq : q = p
 · rw [eq,Function.update_self,if_pos rfl]
 · rw [Function.update_of_ne (fun equal => eq (frameOf_inj.mp equal)),if_neg eq]

section
variable (counts : Counts m extra owned mapped)
include counts
lemma Counts.elsewhere (low : m'.LOW_MEM = m.LOW_MEM)
 (high : m'.HIGH_MEM = m.HIGH_MEM) (blocks : m'.PHI_BLOCKS = m.PHI_BLOCKS)
 (eq : ∀ q, q ∈ owned ∨ q ∈ mapped -> users m' q = users m q) : Counts m' extra owned mapped := by
 refine ⟨geometry_congr counts.geometry low high blocks,counts.once,?_,?_,counts.aliases⟩
 · intro q mem
   obtain ⟨memory,single,unmapped⟩ := counts.owned q mem
   exact ⟨by unfold InMemory; rw [low,high]; exact memory,by rw [eq q (.inl mem),single],unmapped⟩
 intro q mem
 obtain ⟨memory,count⟩ := counts.counted q mem
 exact ⟨by unfold InMemory; rw [low,high]; exact memory,by rw [eq q (.inr mem)]; exact count⟩
lemma Counts.get (spare : Spare (n + 1) m) :
 ∃ p m', get_page m = some (p * 4096,m') ∧ Counts m' extra owned mapped ∧ Spare n m' ∧ Fresh m' owned mapped p ∧
  m'.LOW_MEM = m.LOW_MEM ∧ m'.HIGH_MEM = m.HIGH_MEM ∧ users m p = 0 ∧ ∀ q, q ≠ p -> users m' q = users m q := by
 obtain ⟨l,link,many,inside⟩ := spare
 cases l with
 | nil => simp at many
 | cons fst rest =>
  obtain ⟨headIs,_⟩ := link.walk
  have apart : m.hole_head_pos ≠ m.hole_tail_pos := by
   intro eq
   exact tail_not_before link (by simp [<- headIs,eq])
  obtain ⟨m',rest',ran,split,linked',counts',_,blocks,low,high⟩ := get_page_linked link apart
  obtain ⟨atLeast,_,zero⟩ := linked_head link
  simp only [List.cons.injEq] at split
  obtain ⟨_,rfl⟩ := split
  have here := inside fst (by simp)
  rw [<- headIs] at here
  obtain ⟨aligned,pos,word,_⟩ := counts.geometry
  set f := m.hole_head_pos
  obtain ⟨k,kIs⟩ : ∃ k : Nat, f = k := ⟨f.toNat,by omega⟩
  have addr : m.address f = (m.LOW_MEM / 4096 + k) * 4096 := by
   unfold PageMap.address PTOB u32
   omega
  have frame : frameOf m (m.LOW_MEM / 4096 + k) = f := by
   unfold frameOf
   omega
  have uses : ∀ q, users m' q = if q = m.LOW_MEM / 4096 + k then 1 else users m q := by
   intro q
   exact users_update low (by rw [frame]; exact counts')
  have unused : users m (m.LOW_MEM / 4096 + k) = 0 := by
   unfold users
   rw [frame]
   exact zero
  have away : ∀ q, q ∈ owned ∨ q ∈ mapped -> q ≠ m.LOW_MEM / 4096 + k := by
   rintro q (mem | mem) rfl
   · have := (counts.owned _ mem).2.1
     omega
   have := counts.mapped_pos mem
   omega
  refine ⟨m.LOW_MEM / 4096 + k,m',by rw [ran,addr],?_,⟨rest,linked',by simpa using many,?_⟩,⟨?_,?_,?_,?_⟩,low,
   high,unused,fun q ne => by rw [uses,if_neg ne]⟩
  · refine counts.elsewhere low high blocks ?_
    intro q mem
    rw [uses,if_neg (away q mem)]
  · intro g mem
    rw [low,high]
    exact inside g (by simp [mem])
  · unfold InMemory
    rw [low,high]
    omega
  · rw [uses,if_pos rfl]
  · exact fun mem => away _ (.inl mem) rfl
  · exact fun mem => away _ (.inr mem) rfl
lemma Counts.own (new : Fresh m owned mapped p) : Counts m extra (p :: owned) mapped := by
 refine ⟨counts.geometry,nodup_cons.mpr ⟨new.unowned,counts.once⟩,?_,counts.counted,counts.aliases⟩
 exact forall_mem_cons.mpr ⟨⟨new.memory,new.single,new.unmapped⟩,counts.owned⟩
lemma Counts.map (new : Fresh m owned mapped p) : Counts m extra owned (p :: mapped) := by
 refine ⟨counts.geometry,counts.once,?_,?_,fun q mem => mem_cons_of_mem _ (counts.aliases q mem)⟩
 · intro q mem
   obtain ⟨memory,single,unmapped⟩ := counts.owned q mem
   refine ⟨memory,single,?_⟩
   rintro (_ | ⟨_,inside⟩)
   · exact new.unowned mem
   · exact unmapped inside
 intro q mem
 by_cases eq : q = p
 · subst eq
   have counted : q ∉ extra := fun inside => new.unmapped (counts.aliases q inside)
   rw [count_cons_self,count_eq_zero.mpr new.unmapped,count_eq_zero.mpr counted,new.single]
   exact ⟨new.memory,le_refl _,rfl⟩
 rw [count_cons_of_ne (Ne.symm eq)]
 exact counts.counted q ((mem_cons.mp mem).resolve_left eq)

end
lemma setCount_users (geometry : Geometry m) (memory : InMemory m (addr / 4096)) (word : addr < 2^32)
 (v : Int) : users (m.setCount (m.MAP_NR addr) v) q = if q = addr / 4096 then v else users m q := by
 have aligned := geometry.aligned
 have low : (m.setCount (m.MAP_NR addr) v).LOW_MEM = m.LOW_MEM := rfl
 refine users_update low ?_
 rw [setCount_count,map_nr_eq geometry (by unfold InMemory at memory; omega) word]
lemma setCount_linked {l : List Int} {f v : Int} (link : Linked m l) (used : f ∉ l ++ [m.hole_tail_pos]) :
 Linked (m.setCount f v) l := by
 refine ⟨link.bound,?_,link.once,?_⟩
 · show Follows (m.setCount f v).next _ _ _
   rw [setCount_next]
   exact link.walk
 intro g mem
 have ne : g ≠ f := fun eq => used (eq ▸ mem)
 rw [setCount_count,Function.update_of_ne ne]
 exact link.free g mem
lemma Spare.setCount {f v : Int} (spare : Spare n m) (used : m.count f ≠ 0) : Spare n (m.setCount f v) := by
 obtain ⟨l,link,many,inside⟩ := spare
 exact ⟨l,setCount_linked link (fun mem => used (link.free f mem).2.2),many,inside⟩
lemma Counts.share (counts : Counts m extra owned mapped) (mem : addr / 4096 ∈ mapped) (word : addr < 2^32) :
 Counts (m.setCount (m.MAP_NR addr) (m.count (m.MAP_NR addr) + 1)) extra owned (addr / 4096 :: mapped) := by
 have memory := (counts.counted _ mem).1
 have aligned := counts.geometry.aligned
 have old : m.count (m.MAP_NR addr) = users m (addr / 4096) := by
  rw [map_nr_eq counts.geometry (by unfold InMemory at memory; omega) word]
  rfl
 have uses := fun q => setCount_users (q := q) counts.geometry memory word (m.count (m.MAP_NR addr) + 1)
 rw [old] at uses ⊢
 refine ⟨geometry_congr counts.geometry rfl rfl rfl,counts.once,?_,?_,
  fun q inside => mem_cons_of_mem _ (counts.aliases q inside)⟩
 · intro q isOwned
   obtain ⟨memory',single,unmapped⟩ := counts.owned q isOwned
   have ne : q ≠ addr / 4096 := by
    rintro rfl
    exact unmapped mem
   refine ⟨memory',by rw [uses,if_neg ne,single],?_⟩
   rintro (_ | ⟨_,inside⟩)
   · exact unmapped mem
   · exact unmapped inside
 intro q maps
 by_cases eq : q = addr / 4096
 · obtain ⟨_,pos,count⟩ := counts.counted _ mem
   rw [eq,uses,if_pos rfl,count_cons_self]
   exact ⟨memory,by omega,by push_cast; omega⟩
 rw [uses,if_neg eq,count_cons_of_ne (Ne.symm eq)]
 exact counts.counted q ((mem_cons.mp maps).resolve_left eq)
lemma Counts.alias (counts : Counts m extra owned mapped) (mem : p ∈ mapped) :
 Counts m (p :: extra) owned (p :: mapped) := by
 refine ⟨counts.geometry,counts.once,?_,?_,?_⟩
 · intro q isOwned
   obtain ⟨memory,single,unmapped⟩ := counts.owned q isOwned
   refine ⟨memory,single,?_⟩
   rintro (_ | ⟨_,inside⟩)
   · exact unmapped mem
   · exact unmapped inside
 · intro q maps
   have old : q ∈ mapped := by
    rcases mem_cons.mp maps with rfl | inside
    · exact mem
    · exact inside
   obtain ⟨memory,pos,count⟩ := counts.counted q old
   refine ⟨memory,pos,?_⟩
   rw [count_cons,count_cons]
   push_cast
   omega
 intro q inside
 rcases mem_cons.mp inside with rfl | inside
 · exact mem_cons_self
 · exact mem_cons_of_mem _ (counts.aliases q inside)
lemma Counts.unshare (counts : Counts m extra owned (p :: mapped)) (mem : p ∈ mapped) {v : Int}
 (several : users m p ≠ 1) (lt : v = users m p - 1) : Counts (m.setCount (m.MAP_NR (p * 4096)) v) extra owned mapped := by
 have memory := (counts.counted p (by simp)).1
 have page : p * 4096 / 4096 = p := by omega
 have word : p * 4096 < 2^32 := by
  have := counts.geometry.word
  unfold InMemory at memory
  omega
 have uses := fun q => setCount_users (q := q) counts.geometry (show InMemory m (p * 4096 / 4096) by rw [page]; exact memory) word v
 rw [page] at uses
 refine ⟨geometry_congr counts.geometry rfl rfl rfl,counts.once,?_,?_,?_⟩
 · intro q isOwned
   obtain ⟨memory',single,unmapped⟩ := counts.owned q isOwned
   simp only [mem_cons,not_or] at unmapped
   exact ⟨memory',by rw [uses,if_neg unmapped.1,single],unmapped.2⟩
 · intro q isMapped
   obtain ⟨memory',pos,count⟩ := counts.counted q (mem_cons_of_mem _ isMapped)
   by_cases eq : q = p
   · subst eq
     rw [count_cons_self] at count
     rw [uses,if_pos rfl]
     exact ⟨memory',by omega,by push_cast at count; omega⟩
   rw [count_cons_of_ne (Ne.symm eq)] at count
   rw [uses,if_neg eq]
   exact ⟨memory',pos,count⟩
 intro q inside
 rcases mem_cons.mp (counts.aliases q inside) with rfl | isMapped
 · exact mem
 · exact isMapped
lemma free_page_used (geometry : Geometry m) (spare : Spare n m) (memory : InMemory m p) (used : users m p ≠ 0) :
 (∀ q, users (free_page m (p * 4096)).2 q = if q = p then users m p - 1 else users m q) ∧
  Spare n (free_page m (p * 4096)).2 ∧ (free_page m (p * 4096)).2.LOW_MEM = m.LOW_MEM ∧
  (free_page m (p * 4096)).2.HIGH_MEM = m.HIGH_MEM ∧ (free_page m (p * 4096)).2.PHI_BLOCKS = m.PHI_BLOCKS := by
 obtain ⟨l,link,many,inside⟩ := spare
 have frame : (m.MAP_NR (p * 4096) : Int) = frameOf m p := by
  rw [map_nr_eq geometry memory.1 (by have := geometry.word; have := memory.2; omega),
   show p * 4096 / 4096 = p by omega]
 have took : CHECK_PHY_PAGE m (p * 4096) = 0 := by
  unfold CHECK_PHY_PAGE
  rw [if_neg (by have := memory.1; have := memory.2; omega)]
 have bound : frameOf m p ≤ m.hole_max := by
  rw [link.bound]
  have := geometry.covered
  have := geometry.aligned
  have := memory.2
  unfold frameOf
  omega
 obtain ⟨l',linked',either,_⟩ := free_page_linked link (p * 4096)
 rcases free_page_cases (p * 4096) (linked_not_null link) with ⟨_,out | beyond | unused⟩ |
   ⟨m',freed,_,_,_,counts,_,_,blocks,low,high,_⟩
 · exact absurd took out
 · rw [frame] at beyond
   omega
 · rw [frame] at unused
   exact absurd unused used
 rw [freed] at linked' ⊢
 dsimp only at linked' ⊢
 rw [frame] at counts
 refine ⟨fun q => users_update low counts,⟨l',linked',?_,?_⟩,low,high,blocks⟩
 · rcases either with rfl | rfl
   · exact many
   simp only [length_append,length_cons,length_nil]
   omega
 intro f mem
 rw [low,high]
 apply inside f
 rcases either with rfl | rfl
 · exact mem
 · rwa [take_append_of_le_length many] at mem
lemma Counts.unmap (counts : Counts m [] owned (p :: mapped)) (spare : Spare n m) :
 Counts (free_page m (p * 4096)).2 [] owned mapped ∧ Spare n (free_page m (p * 4096)).2 := by
 obtain ⟨memory,_,count⟩ := counts.counted p (by simp)
 have used : users m p ≠ 0 := by
  have := counts.mapped_pos (p := p) (by simp)
  omega
 obtain ⟨uses,spare',low,high,blocks⟩ := free_page_used counts.geometry spare memory used
 refine ⟨⟨geometry_congr counts.geometry low high blocks,counts.once,?_,?_,by simp⟩,spare'⟩
 · intro q isOwned
   obtain ⟨memory',single,unmapped⟩ := counts.owned q isOwned
   simp only [mem_cons,not_or] at unmapped
   exact ⟨by unfold InMemory; rw [low,high]; exact memory',by rw [uses,if_neg unmapped.1,single],unmapped.2⟩
 intro q maps
 obtain ⟨memory',pos,count'⟩ := counts.counted q (mem_cons_of_mem _ maps)
 refine ⟨by unfold InMemory; rw [low,high]; exact memory',?_⟩
 by_cases eq : q = p
 · subst eq
   have again := count_pos_iff.mpr maps
   rw [count_cons_self] at count
   rw [uses,if_pos rfl]
   simp only [count_nil] at count ⊢
   push_cast at count ⊢
   exact ⟨by omega,by omega⟩
 rw [count_cons_of_ne (Ne.symm eq)] at count'
 rw [uses,if_neg eq]
 exact ⟨pos,count'⟩
lemma Counts.disown (counts : Counts m extra (p :: owned) mapped) (spare : Spare n m) :
 Counts (free_page m (p * 4096)).2 extra owned mapped ∧ Spare n (free_page m (p * 4096)).2 := by
 obtain ⟨memory,single,unmapped⟩ := counts.owned p (by simp)
 have once := nodup_cons.mp counts.once
 have rest : Counts m extra owned mapped :=
  ⟨counts.geometry,once.2,fun q mem => counts.owned q (mem_cons_of_mem _ mem),counts.counted,counts.aliases⟩
 obtain ⟨uses,spare',low,high,blocks⟩ := free_page_used counts.geometry spare memory (by omega)
 refine ⟨rest.elsewhere low high blocks ?_,spare'⟩
 rintro q mem
 rw [uses,if_neg]
 rintro rfl
 rcases mem with mem | mem
 · exact once.1 mem
 · exact unmapped mem

end
end Netbas.FrameUse
