import Netbas.Runs
import Netbas.Intervals

/-!
The allocator of low memory (`mem.c`), a table of fifty free blocks. The free entries and the blocks
handed out are a layout of the recorded region in every run (`low_memory_kept`).
-/
namespace Netbas.LowMemory
open Runs Intervals List Option
open Function
def LOW_BLKS : Nat := 50
structure DosMem where
 used : Bool
 addr : Nat
 size : Nat
abbrev Table := Nat -> DosMem
section
variable (mem_table : Table)
def low_mem_init : Table := fun i =>
 -- the size of the whole megabyte does not fit the field: its low 16 bits are stored
 if i = 0 then ⟨true,0x4000,(0x100000-0x4000) % 2^16⟩
 else if i < LOW_BLKS then {mem_table i with used := false}
 else mem_table i

section
variable (t : Table)
/-- The block handed out (0 for none) and the table after the call. An entry at
  address 0 would keep the search loop where it is for ever. -/
def low_alloc (len : Nat) : Option (Nat × Table) :=
 match (range LOW_BLKS).find? (fun i => (t i).used && decide (len ≤ (t i).size)) with
 | none => some (0,t)
 | some i =>
  if (t i).addr = 0 then none
  else if len < (t i).size then
   some ((t i).addr,
    update t i {t i with size := (t i).size-len, addr := ((t i).addr+len) % 2^32})
  else some ((t i).addr,update t i {t i with used := false})
def scan_entry (p len : Nat) (found : Nat × Nat) (i : Nat) : Nat × Nat :=
 if found.1 = 0 ∨ found.2 = 0 then
  if (t i).used then
   (if ((t i).addr+(t i).size) % 2^32 = p then i else found.1,
    if (t i).addr = (p+len) % 2^32 then i else found.2)
  else found
 else found
def scan (p len : Nat) : Nat × Nat :=
 (range' 1 (LOW_BLKS-1)).foldl (scan_entry t p len) (0,0)
def low_free (p len : Nat) : Table × Bool :=
 let found := scan t p len
 let i1 := found.1
 let i2 := found.2
 if i1 ≠ 0 ∧ i2 ≠ 0 then
  let grown := update t i1
   {t i1 with size := ((t i1).size+((t i2).size+len) % 2^32) % 2^16}
  (update grown i2 {grown i2 with used := false},true)
 else if i1 = 0 ∧ i2 ≠ 0 then
  (update t i2 {t i2 with addr := p, size := ((t i2).size+len) % 2^16},true)
 else if i1 ≠ 0 ∧ i2 = 0 then
  (update t i1 {t i1 with size := ((t i1).size+len) % 2^16},true)
 else
  match (range LOW_BLKS).find? (fun i => !(t i).used) with
  | none => (t,false)
  | some i => (update t i ⟨true,p,len % 2^16⟩,true)
end
structure State where
 table : Table
 live : List (Nat × Nat)
inductive Action where
 | alloc (len : UInt16)
 | free (p len : Nat)

/-- One call. Only a block that was handed out is freed, with its length; it
  stays with its holder when `low_free` finds no entry for it. -/
def step (s : State) : Action -> Option State
 | .alloc len =>
  (low_alloc s.table len.toNat).map (fun (p,t) => ⟨t,if p = 0 then s.live else (p,len.toNat) :: s.live⟩)
 | .free p len =>
  if (p,len) ∈ s.live then
   let (t,done) := low_free s.table p len
   some ⟨t,if done then s.live.erase (p,len) else s.live⟩
  else none
def start : State := ⟨low_mem_init mem_table,[]⟩
def own (e : DosMem) : Option (Nat × Nat) := if e.used then some (e.addr,e.size) else none
def entries (t : Table) : List (Nat × Nat) := (range LOW_BLKS).filterMap (fun i => own (t i))
def regionStart : Nat := 0x4000
def regionEnd : Nat := 0x4000+0xc000
lemma region_recorded :
 entries (low_mem_init mem_table) = [(regionStart,regionEnd-regionStart)] := by
 have later : ∀ i ∈ range' 1 49, own (low_mem_init mem_table i) = none := by
  intro i inside
  have bounds : 1 ≤ i ∧ i < 50 := by simpa using mem_range'_1.mp inside
  have ne0 : i ≠ 0 := by omega
  simp [own,low_mem_init,LOW_BLKS,ne0,bounds.2]
 have split : range LOW_BLKS = 0 :: range' 1 49 := by decide
 rw [entries,split,filterMap_cons,filterMap_eq_nil_iff.mpr later]
 rfl
end
def Laid (s : State) : Prop := Layout regionStart regionEnd (entries s.table ++ s.live)
def Grows (s : State) : Action -> Prop
 | .alloc len => (low_alloc s.table len.toNat).isSome
 | .free p len => (p,len) ∈ s.live -> (low_free s.table p len).2 = true ->
   total (entries (low_free s.table p len).1) = total (entries s.table)+len
def rest (t : Table) (i : Nat) : List (Nat × Nat) := ((range LOW_BLKS).erase i).filterMap (fun j => own (t j))

variable {t : Table} {i j p len : Nat} {live : List (Nat × Nat)}
lemma entries_perm (inside : i < LOW_BLKS) : (entries t).Perm ((own (t i)).toList ++ rest t i) := by
 have split := (perm_cons_erase (mem_range.mpr inside)).filterMap fun j => own (t j)
 refine split.trans ?_
 rw [filterMap_cons]
 cases own (t i) <;> exact List.Perm.refl _
lemma rest_update (t : Table) (i : Nat) (e : DosMem) : rest (update t i e) i = rest t i := by
 apply filterMap_congr
 intro j inside
 have differs : j ≠ i := ((nodup_range).mem_erase_iff.mp inside).1
 rw [update_of_ne differs]
lemma entries_used (inside : i < LOW_BLKS) (used : (t i).used) :
 (entries t).Perm (((t i).addr,(t i).size) :: rest t i) := by
 have split := entries_perm (t := t) inside
 simpa [own,used] using split
lemma entries_update (inside : i < LOW_BLKS) (e : DosMem) :
 (entries (update t i e)).Perm ((own e).toList ++ rest t i) := by
 have split := entries_perm (t := update t i e) inside
 rwa [rest_update,update_self] at split
variable {e : DosMem}
lemma entries_set (inside : i < LOW_BLKS) (used : e.used) :
 (entries (update t i e)).Perm ((e.addr,e.size) :: rest t i) := by
 have split := entries_update (t := t) inside e
 simpa [own,used] using split
lemma entries_clear (inside : i < LOW_BLKS) (unused : e.used = false) :
 (entries (update t i e)).Perm (rest t i) := by
 have split := entries_update (t := t) inside e
 simpa [own,unused] using split
lemma rest_mem (inside : j < LOW_BLKS) (used : (t j).used) (differs : j ≠ i) :
 ((t j).addr,(t j).size) ∈ rest t i := by
 refine mem_filterMap.mpr ⟨j,?_,by simp [own,used]⟩
 exact (nodup_range).mem_erase_iff.mpr ⟨differs,mem_range.mpr inside⟩
lemma low_alloc_laid (laid : Layout regionStart regionEnd (entries t ++ live)) (len : Nat) :
 ∃ p t', low_alloc t len = some (p,t') ∧
  Layout regionStart regionEnd (entries t' ++ if p = 0 then live else (p,len) :: live) := by
 rw [low_alloc]
 cases hit : (range LOW_BLKS).find? (fun i => (t i).used && decide (len ≤ (t i).size)) with
 | none => exact ⟨0,t,rfl,by simpa using laid⟩
 | some i =>
  have inside := mem_range.mp (mem_of_find?_eq_some hit)
  obtain ⟨used,fits⟩ : (t i).used = true ∧ len ≤ (t i).size := by simpa using find?_some hit
  have split := laid.perm ((entries_used inside used).append_right live)
  obtain ⟨above,lt⟩ := split.within _ mem_cons_self
  dsimp only at above lt
  have ne0 : (t i).addr ≠ 0 := by
   intro zero
   rw [zero,regionStart] at above
   omega
  simp only [ne0,if_false]
  split
  · rename_i smaller
    refine ⟨_,_,rfl,?_⟩
    simp only [ne0,if_false]
    have small : (t i).addr+len < 2^32 := by
     rw [regionEnd] at lt
     omega
    have cut : (t i).size = len+((t i).size-len) := by omega
    rw [cut] at split
    refine (layout_split.mp split).perm ?_
    refine List.Perm.trans ?_ ((entries_update inside _).symm.append_right _)
    rw [Nat.mod_eq_of_lt small]
    simp only [own,used,if_true,toList_some,cons_append]
    refine (List.Perm.swap _ _ _).trans (List.Perm.cons _ ?_)
    exact perm_middle.symm
  rename_i exact_size
  refine ⟨_,_,rfl,?_⟩
  simp only [ne0,if_false]
  have whole : (t i).size = len := by omega
  rw [whole] at split
  refine split.perm ?_
  refine List.Perm.trans ?_ ((entries_update inside _).symm.append_right _)
  simpa [own] using perm_middle.symm
structure Touching (t : Table) (p len : Nat) (found : Nat × Nat) : Prop where
 before : found.1 ≠ 0 -> found.1 < LOW_BLKS ∧ (t found.1).used ∧ ((t found.1).addr+(t found.1).size) % 2^32 = p
 behind : found.2 ≠ 0 -> found.2 < LOW_BLKS ∧ (t found.2).used ∧ (t found.2).addr = (p+len) % 2^32
lemma scan_entry_touching {hit : Nat × Nat} (hits : Touching t p len hit) (inside : i < LOW_BLKS) :
 Touching t p len (scan_entry t p len hit i) := by
 rw [scan_entry]
 split
 · split
   · rename_i used
     constructor
     · dsimp only
       split
       · rename_i ends
         exact fun _ => ⟨inside,used,ends⟩
       · exact hits.before
     dsimp only
     split
     · rename_i starts
       exact fun _ => ⟨inside,used,starts⟩
     · exact hits.behind
   · exact hits
 · exact hits
lemma scan_touching (t : Table) (p len : Nat) : Touching t p len (scan t p len) := by
 have rounds : ∀ (indices : List Nat) (hit : Nat × Nat), (∀ i ∈ indices, i < LOW_BLKS) ->
   Touching t p len hit -> Touching t p len (indices.foldl (scan_entry t p len) hit) := by
  intro indices
  induction indices with
  | nil => intro hit _ hits; exact hits
  | cons i later ih =>
   intro hit inside hits
   exact ih _ (fun j mem => inside j (by simp [mem]))
    (scan_entry_touching hits (inside i (by simp)))
 refine rounds _ _ ?_ ⟨by simp,by simp⟩
 intro i mem
 have bounds := mem_range'_1.mp mem
 rw [LOW_BLKS] at bounds ⊢
 omega
structure Returned (t t' : Table) (p len : Nat) (live : List (Nat × Nat)) : Prop where
 laid : Layout regionStart regionEnd (entries t' ++ live)
 grown : total (entries t') = total (entries t)+len

variable (laid : Layout regionStart regionEnd (entries t ++ (p,len) :: live))
include laid
lemma freed_bounds : 0x4000 ≤ p ∧ p+len ≤ 0x10000 := laid.within (p,len) (by simp)
section
variable (inside : i < LOW_BLKS)
include inside
section
variable (used : (t i).used)
include used
lemma entry_bounds :
 0x4000 ≤ (t i).addr ∧ (t i).addr+(t i).size ≤ 0x10000 :=
 laid.within ((t i).addr,(t i).size) (by simp [(entries_used inside used).mem_iff])
lemma returned_joined (still : e.used)
 (joined : ∀ bs, Layout regionStart regionEnd (((t i).addr,(t i).size) :: (p,len) :: bs) ->
  Layout regionStart regionEnd ((e.addr,e.size) :: bs))
 (size : e.size = (t i).size+len) : Returned t (update t i e) p len live := by
 have split := entries_used inside used
 have after := entries_set (t := t) inside still
 constructor
 · have moved := laid.perm ((split.append_right _).trans (perm_middle.cons _))
   exact (joined _ moved).perm (after.symm.append_right live)
 rw [total_perm after,total_perm split]
 simp only [total_cons,size]
 omega
lemma returned_before
 (ends : ((t i).addr+(t i).size) % 2^32 = p) :
 Returned t (update t i {t i with size := ((t i).size+len) % 2^16}) p len live := by
 have bounds := entry_bounds laid inside used
 have freed := freed_bounds laid
 rw [Nat.mod_eq_of_lt (by omega)] at ends
 have size : ((t i).size+len) % 2^16 = (t i).size+len := Nat.mod_eq_of_lt (by omega)
 refine returned_joined laid inside used used (fun bs moved => ?_) size
 dsimp only
 rw [size,layout_split,ends]
 exact moved
lemma returned_behind (starts : (t i).addr = (p+len) % 2^32) :
 Returned t (update t i {t i with addr := p, size := ((t i).size+len) % 2^16}) p len live := by
 have bounds := entry_bounds laid inside used
 have freed := freed_bounds laid
 rw [Nat.mod_eq_of_lt (by omega)] at starts
 have size : ((t i).size+len) % 2^16 = (t i).size+len := Nat.mod_eq_of_lt (by omega)
 refine returned_joined laid inside used used (fun bs moved => ?_) size
 dsimp only
 rw [size,Nat.add_comm,layout_split,<- starts]
 exact moved.perm (List.Perm.swap _ _ _)
end
lemma returned_alone (unused : (t i).used = false) :
 Returned t (update t i ⟨true,p,len % 2^16⟩) p len live := by
 have split := entries_perm (t := t) inside
 simp only [own,unused,Bool.false_eq_true,if_false,toList_none,nil_append] at split
 have freed := freed_bounds laid
 have size : len % 2^16 = len := Nat.mod_eq_of_lt (by omega)
 have after := entries_set (t := t) (e := ⟨true,p,len⟩) inside rfl
 rw [size]
 constructor
 · refine (laid.perm perm_middle).perm ?_
   exact ((split.append_right live).cons _).trans (after.symm.append_right live)
 rw [total_perm after,total_perm split,total_cons]
 exact Nat.add_comm _ _
end
lemma returned_between (insideBefore : i < LOW_BLKS) (usedBefore : (t i).used)
  (ends : ((t i).addr+(t i).size) % 2^32 = p) (insideBehind : j < LOW_BLKS) (usedBehind : (t j).used)
  (starts : (t j).addr = (p+len) % 2^32) (differs : j ≠ i) :
  Returned t (update
   (update t i {t i with size := ((t i).size+((t j).size+len) % 2^32) % 2^16}) j
    {t j with used := false}) p len live := by
 have pre := entry_bounds laid insideBefore usedBefore
 have behind := entry_bounds laid insideBehind usedBehind
 have freed := freed_bounds laid
 rw [Nat.mod_eq_of_lt (by omega)] at ends
 rw [Nat.mod_eq_of_lt (by omega)] at starts
 have size : ((t i).size+((t j).size+len) % 2^32) % 2^16 = (t i).size+(len+(t j).size) := by
  rw [Nat.mod_eq_of_lt (a := (t j).size+len) (by omega),Nat.mod_eq_of_lt (by omega)]
  omega
 rw [size]
 -- the block behind at1 among the entries other than `i`
 have split := entries_used insideBefore usedBefore
 have hit := perm_cons_erase (rest_mem (i := i) insideBehind usedBehind differs)
 have grown := entries_set (t := t) (e := {t i with size := (t i).size+(len+(t j).size)}) insideBefore usedBefore
 have kept : update t i {t i with size := (t i).size+(len+(t j).size)} j = t j :=
  update_of_ne differs _ _
 generalize update t i {t i with size := (t i).size+(len+(t j).size)} = grownTable at grown kept ⊢
 have cleared := entries_clear (t := grownTable) (e := {t j with used := false}) insideBehind rfl
 have whole := entries_used (t := grownTable) insideBehind (by rw [kept]; exact usedBehind)
 rw [kept] at whole
 have after : (entries (update grownTable j {t j with used := false})).Perm
   (((t i).addr,(t i).size+(len+(t j).size)) :: (rest t i).erase ((t j).addr,(t j).size)) := by
  refine (perm_cons ((t j).addr,(t j).size)).mp ?_
  refine ((cleared.cons _).trans whole.symm).trans ?_
  exact (grown.trans (hit.cons _)).trans (List.Perm.swap _ _ _)
 have all := split.trans (hit.cons _)
 constructor
 · refine Layout.perm ?_ (after.symm.append_right live)
   rw [cons_append,layout_split,ends]
   have moved := laid.perm ((all.append_right _).trans perm_middle)
   have hits : Layout regionStart regionEnd ((p,len) :: (p+len,(t j).size) :: ((t i).addr,(t i).size) ::
     ((rest t i).erase ((t j).addr,(t j).size) ++ live)) := by
    rw [<- starts]
    exact moved.perm ((List.Perm.swap _ _ _).cons _)
   exact (layout_split.mpr hits).perm (List.Perm.swap _ _ _)
 rw [total_perm after,total_perm all]
 simp only [total_cons]
 omega
lemma returned_empty (inside : i < LOW_BLKS) (used : (t i).used)
 (ends : ((t i).addr+(t i).size) % 2^32 = p) (starts : (t i).addr = (p+len) % 2^32)
 (unused : e.used = false) : Returned t (update t i e) p len live := by
 have bounds := entry_bounds laid inside used
 have freed := freed_bounds laid
 rw [Nat.mod_eq_of_lt (by omega)] at ends
 rw [Nat.mod_eq_of_lt (by omega)] at starts
 have split := entries_used inside used
 have cleared := entries_clear (t := t) inside unused
 constructor
 · have moved := laid.perm ((split.append_right _).trans (perm_middle.cons _))
   exact moved.tail.tail.perm (cleared.symm.append_right live)
 rw [total_perm cleared,total_perm split,total_cons]
 dsimp only
 omega
lemma low_free_returned : ((low_free t p len).2 = true ∧ Returned t (low_free t p len).1 p len live) ∨
 low_free t p len = (t,false) := by
 have hits := scan_touching t p len
 rw [low_free]
 generalize scan t p len = hit at hits
 obtain ⟨i1,i2⟩ := hit
 have pre := hits.before
 have behind := hits.behind
 dsimp only at pre behind ⊢
 by_cases fst : i1 = 0
 · by_cases snd : i2 = 0
   · simp only [fst,snd,ne_eq,not_true_eq_false,and_self,and_false,false_and,if_false]
     cases unused : (range LOW_BLKS).find? (fun i => !(t i).used) with
     | none => exact Or.inr rfl
     | some i =>
      have inside := mem_range.mp (mem_of_find?_eq_some unused)
      have free : (t i).used = false := by simpa using find?_some unused
      exact Or.inl ⟨rfl,returned_alone laid inside free⟩
   obtain ⟨inside,used,starts⟩ := behind snd
   simp only [fst,snd,ne_eq,not_true_eq_false,not_false_eq_true,false_and,and_self,if_true,if_false]
   exact Or.inl ⟨trivial,returned_behind laid inside used starts⟩
 obtain ⟨inside,used,ends⟩ := pre fst
 by_cases snd : i2 = 0
 · simp only [fst,snd,ne_eq,not_true_eq_false,not_false_eq_true,and_false,and_self,if_true,if_false]
   exact Or.inl ⟨trivial,returned_before laid inside used ends⟩
 obtain ⟨insideBehind,usedBehind,starts⟩ := behind snd
 simp only [fst,snd,ne_eq,not_false_eq_true,and_self,if_true]
 refine Or.inl ⟨trivial,?_⟩
 by_cases eq : i2 = i1
 · subst eq
   rw [update_idem]
   exact returned_empty laid inside used ends starts rfl
 rw [update_of_ne eq]
 exact returned_between laid inside used ends insideBehind usedBehind starts eq

omit laid
lemma start_laid (mem_table : Table) : Laid (start mem_table) := by
 rw [Laid,start,region_recorded]
 refine ⟨?_,by simp⟩
 intro b mem
 obtain rfl : b = (regionStart,regionEnd-regionStart) := by simpa using mem
 decide
lemma live_first {s : State} (laid : Laid s) (mem : (p,len) ∈ s.live) :
 Layout regionStart regionEnd (entries s.table ++ (p,len) :: s.live.erase (p,len)) :=
 Layout.perm laid ((perm_cons_erase mem).append_left _)
lemma step_laid {s s' : State} (laid : Laid s) (a : Action) (ran : step s a = some s') : Laid s' := by
 cases a with
 | alloc len =>
  obtain ⟨p,t,gives,after⟩ := low_alloc_laid laid len.toNat
  rw [step,gives] at ran
  obtain rfl := some.inj ran
  exact after
 | free p len =>
  rw [step] at ran
  split at ran
  · rename_i mem
    rcases low_free_returned (live_first laid mem) with ⟨done,returned⟩ | refused
    · generalize low_free s.table p len = res at ran done returned
      obtain ⟨t,ok⟩ := res
      obtain rfl : ok = true := done
      obtain rfl := some.inj ran
      exact returned.laid
    rw [refused] at ran
    obtain rfl := some.inj ran
    exact laid
  · cases ran
lemma step_grows {s : State} (laid : Laid s) (a : Action) : Grows s a := by
 cases a with
 | alloc len =>
  obtain ⟨p,t,gives,_⟩ := low_alloc_laid laid len.toNat
  simp [Grows,gives]
 | free p len =>
  intro mem done
  rcases low_free_returned (live_first laid mem) with ⟨_,returned⟩ | refused
  · exact returned.grown
  rw [refused] at done
  cases done

/-- `low_mem_init` records one region. Whatever is allocated and freed from
  then on, the free entries and the live blocks share no byte and stay in that
  region, and a call of `low_free` that returns TRUE makes exactly `len` more
  bytes free. -/
theorem low_memory_kept (mem_table : Table) (actions : List Action) :
 entries (start mem_table).table = [(regionStart,regionEnd-regionStart)] ∧
  Along step Laid Grows (start mem_table) actions := by
 constructor
 · exact region_recorded mem_table
 exact along_invariant (fun _ laid => laid) (fun _ a laid => step_grows laid a)
  (fun _ a _ laid => step_laid laid a) actions _ (start_laid mem_table)

end Netbas.LowMemory
