import Netbas.MemoryInit

/-!
Allocation of several frames in one call. `get_pages_index` finds a row of free entries, but the
loop of `get_pages` ends at entry `n` and not at the end of the row (`get_pages_exact_iff`).
-/
namespace Netbas.FrameBlocks
open Frames FrameRuns MemoryInit

variable {s s' : PageMap} {x i cnt : Int}
def OnList (s : PageMap) (f : Int) : Prop := ∃ l, HoleList s l ∧ f ∈ l
def KeepsFrames (s : PageMap) (fst n : Int) (acts : List Action) : Prop :=
 ∀ addr, .free addr ∈ acts -> ∀ i, fst ≤ i -> i < fst + n -> addr ≠ s.address i
structure Taken (s s' : PageMap) (first n : Int) : Prop where
 free : ∀ i, first ≤ i -> i < first + n -> s.count i = 0 ∧ OnList s i
 marked : ∀ i, first ≤ i -> i < first + n -> s'.count i = 1 ∧ ¬ OnList s' i
 others : ∀ i, 0 ≤ i -> i < s.PHI_BLOCKS -> ¬ (first ≤ i ∧ i < first + n) ->
  s'.count i = s.count i ∧ (OnList s' i ↔ OnList s i)
 later : ∀ actions, KeepsFrames s first n actions ->
  ∀ addr ∈ returned s' actions, ∀ i, first ≤ i -> i < first + n -> addr ≠ s.address i

/-- When `get_pages` returns an address, the `n` frames that start there have been taken. -/
def GetPagesExact (s : PageMap) (n : Int) : Prop :=
 ∀ addr s', get_pages s n = (addr,s') -> addr ≠ 0 -> ∃ fst, addr = s.address fst ∧ Taken s s' fst n
def Between (s : PageMap) (i : Int) : Prop := s.count i = 0 ∧ s.prev i = i - 1 ∧ s.next i = i + 1
instance (s : PageMap) (i : Int) : Decidable (Between s i) :=
 inferInstanceAs (Decidable (s.count i = 0 ∧ s.prev i = i - 1 ∧ s.next i = i + 1))
def Row (s : PageMap) (fst n : Int) : Prop := ∀ i, fst ≤ i -> i < fst + n -> Between s i
structure FirstRow (s : PageMap) (n first : Int) : Prop where
 low : 1 ≤ first
 high : first + n ≤ s.PHI_BLOCKS
 row : Row s first n
 least : ∀ f, 1 ≤ f -> f < first -> ¬ Row s f n
lemma pages_scan_succ (s : PageMap) (x : Int) (rounds : Nat) (i start cnt : Int) :
 pages_scan s x (rounds + 1) i start cnt =
  if Between s i then
   if cnt + 1 = x then (if start = 0 then i else start,cnt + 1)
   else pages_scan s x rounds (i + 1) (if start = 0 then i else start) (cnt + 1)
  else pages_scan s x rounds (i + 1) 0 0 := by
 rw [pages_scan]
 by_cases free : s.count i = 0
 · by_cases left : s.prev i = i - 1
   · by_cases right : s.next i = i + 1
     · simp [Between,free,left,right]
     · simp [Between,free,left,right]
   · simp [Between,free,left]
 · simp [Between,free]

/-- The search has passed the entries before `i`: the last `cnt` of them are a row and no row of `x`
  entries starts before those. -/
structure Passed (s : PageMap) (x i cnt : Int) : Prop where
 count : 0 ≤ cnt
 short : cnt < x
 low : 1 ≤ i - cnt
 row : Row s (i - cnt) cnt
 none : ∀ f, 1 ≤ f -> f < i - cnt -> ¬ Row s f x
lemma Passed.extend (passed : Passed s x i cnt) (more : cnt + 1 ≠ x) (here : Between s i) :
  Passed s x (i + 1) (cnt + 1) where
 count := by linarith [passed.count]
 short := by have := passed.short; omega
 low := by linarith [passed.low]
 row := by
  intro j after pre
  by_cases last : j = i
  · rw [last]
    exact here
  · exact passed.row j (by omega) (by omega)
 none := by
  intro f after pre
  exact passed.none f after (by omega)
lemma Passed.restart (passed : Passed s x i cnt) (here : ¬ Between s i) : Passed s x (i + 1) 0 where
 count := le_rfl
 short := by linarith [passed.count,passed.short]
 low := by linarith [passed.count,passed.low]
 row := by
  intro j after pre
  omega
 none := by
  intro f after pre row
  have short := passed.short
  by_cases early : f < i - cnt
  · exact passed.none f after early row
  · exact here (row i (by omega) (by omega))
lemma pages_scan_spec (rounds : Nat) : ∀ {i cnt : Int}, Passed s x i cnt -> i + rounds = s.PHI_BLOCKS ->
  let result := pages_scan s x rounds i (if cnt = 0 then 0 else i - cnt) cnt
  (result.2 ≠ x ∧ ∀ fst, ¬ FirstRow s x fst) ∨ (result.2 = x ∧ FirstRow s x result.1) := by
 induction rounds with
 | zero =>
  intro i cnt passed total
  have short := passed.short
  refine .inl ⟨by simpa [pages_scan] using short.ne,fun fst hit => ?_⟩
  have high := hit.high
  exact passed.none fst hit.low (by omega) hit.row
 | succ rounds ih =>
  intro i cnt passed total
  have count := passed.count
  have low := passed.low
  -- The row that goes on at `i` started there or where it was already noted.
  have begins : (if (if cnt = 0 then 0 else i - cnt) = 0 then i else if cnt = 0 then 0 else i - cnt) = i - cnt := by
   split_ifs <;> omega
  simp only [pages_scan_succ,begins]
  by_cases here : Between s i
  · by_cases done : cnt + 1 = x
    · simp only [here,done,if_true]
      refine .inr ⟨trivial,low,by omega,?_,passed.none⟩
      intro j after pre
      by_cases last : j = i
      · rw [last]
        exact here
      · exact passed.row j after (by omega)
    simp only [here,done,if_true,if_false]
    have later := ih (passed.extend done here) (by omega)
    rwa [if_neg (by omega),show i + 1 - (cnt + 1) = i - cnt by ring] at later
  simp only [here,if_false]
  have later := ih (passed.restart here) (by omega)
  rwa [if_pos rfl] at later
lemma get_pages_index_spec (s : PageMap) {n : Int} (pos : 1 ≤ n) :
 (get_pages_index s n = 0 ∧ ∀ fst, ¬ FirstRow s n fst) ∨ FirstRow s n (get_pages_index s n) := by
 by_cases empty : s.PHI_BLOCKS < 1
 · refine .inl ⟨?_,fun fst hit => ?_⟩
   · rw [get_pages_index,show s.PHI_BLOCKS.toNat - 1 = 0 by omega]
     exact ite_self _
   have low := hit.low
   have high := hit.high
   omega
 have begin : Passed s n 1 0 := ⟨le_rfl,by omega,by omega,fun _ _ _ => by omega,fun _ _ _ => by omega⟩
 have ends := pages_scan_spec (s.PHI_BLOCKS.toNat - 1) begin (by omega)
 rw [if_pos rfl] at ends
 rw [get_pages_index]
 obtain ⟨missing,absent⟩ | ⟨whole,hit⟩ := ends
 · exact .inl ⟨by simp [missing],absent⟩
 · exact .inr (by simpa [whole] using hit)
lemma FirstRow.unique {n first other : Int} (hit : FirstRow s n first) (found' : FirstRow s n other) :
 first = other := by
 rcases lt_trichotomy first other with pre | eq | after
 · exact absurd hit.row (found'.least first hit.low pre)
 · exact eq
 · exact absurd found'.row (hit.least other found'.low after)
lemma get_pages_spec (s : PageMap) {n : Int} (pos : 1 ≤ n) :
 (get_pages s n = (0,s) ∧ ∀ fst, ¬ FirstRow s n fst) ∨
  ∃ fst s', FirstRow s n fst ∧ get_pages s n = (s.address fst,s') ∧
   ∀ j, s'.count j = if fst ≤ j ∧ j < n then 1 else s.count j := by
 have some : n ≠ 0 := by omega
 obtain ⟨zero,absent⟩ | found := get_pages_index_spec s pos
 · exact .inl ⟨by simp [get_pages,some,zero],absent⟩
 have low := found.low
 have ne0 : get_pages_index s n ≠ 0 := by omega
 have ran : get_pages s n = (s.address (get_pages_index s n),((List.range (n - get_pages_index s n).toNat).map
   (fun i : Nat => get_pages_index s n + i)).foldl take_entry s) := by
  rw [get_pages,if_neg some]
  exact if_neg ne0
 obtain ⟨_,_,_,_,_,_,_,counts⟩ := taken_entries (s := s) (get_pages_index s n) (n - get_pages_index s n).toNat
 refine .inr ⟨get_pages_index s n,_,found,ran,fun j => ?_⟩
 rw [counts j]
 have range : (get_pages_index s n ≤ j ∧ j < get_pages_index s n + ((n - get_pages_index s n).toNat : Int)) ↔
   get_pages_index s n ≤ j ∧ j < n := by omega
 simp only [range]

/-- A call takes the frames that it returns exactly when it returns none: there is no row of `n` free
  frames, or its address is 0. -/
theorem get_pages_exact_iff (s : PageMap) (n : Int) (pos : 1 ≤ n) :
 GetPagesExact s n ↔ ∀ fst, FirstRow s n fst -> s.address fst = 0 := by
 obtain ⟨nothing,absent⟩ | ⟨fst,s',found,returned,counts⟩ := get_pages_spec s pos
 · refine iff_of_true ?_ (fun fst found => absurd found (absent fst))
   intro addr s' called ne0
   rw [nothing] at called
   exact absurd (congrArg Prod.fst called).symm ne0
 constructor
 · intro exact ne found'
   rw [<- found.unique found']
   by_contra ne0
   obtain ⟨claimed,_,taken⟩ := exact _ _ returned ne0
   -- All of the frames were marked, but the loop marks fewer than `n`.
   have changed : ∀ i, claimed ≤ i -> i < claimed + n -> fst ≤ i ∧ i < n := by
    intro i after pre
    by_contra out
    have one := (taken.marked i after pre).1
    rw [counts i,if_neg out,(taken.free i after pre).1] at one
    exact absurd one (by decide)
   have start := changed claimed le_rfl (by omega)
   have last := changed (claimed + n - 1) (by omega) (by omega)
   have low := found.low
   omega
 intro zero addr after called ne0
 rw [returned] at called
 exact absurd ((congrArg Prod.fst called).symm.trans (zero fst found)) ne0
theorem get_pages_exact_three : (1 : Int) ≤ 3 ∧
 GetPagesExact (memory_slot_init 0x2800000 0x4000000 (fun _ => ⟨0,0,0⟩) 4) 3 := by
 refine ⟨by decide,(get_pages_exact_iff _ 3 (by decide)).mpr (fun fst found => ?_)⟩
 have low := found.low
 have high : fst + 3 ≤ 4 := found.high
 have last := found.row 3 (by omega) (by omega)
 exact absurd last (by decide)
theorem get_pages_unmarked :
  let s := memory_slot_init 0x2800000 0x4000000 (fun _ => ⟨0,0,0⟩) 4
  HolesExact s ∧ ¬ GetPagesExact s 1 ∧ (get_pages s 1).1 = 0x2801000 ∧
   returned (get_pages s 1).2 [.get,.get] = [0x2800000,0x2801000] := by
 refine ⟨?_,fun exact => ?_,by decide,by decide⟩
 · obtain ⟨l,listed⟩ := memory_slot_init_listed 0x2800000 0x4000000 (fun _ => ⟨0,0,0⟩) (show (2 : Int) ≤ 4 by decide)
   exact listed_exact listed
 obtain ⟨claimed,_,taken⟩ := exact _ _ rfl (by decide)
 have pre := (taken.free claimed le_rfl (by omega)).1
 have after := (taken.marked claimed le_rfl (by omega)).1
 exact absurd (pre.symm.trans after) (by decide)

end Netbas.FrameBlocks
