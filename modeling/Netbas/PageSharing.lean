import Netbas.Copies
import Netbas.Teardown

/-!
Sharing pages inside one address space. `attach_share_page` copies page table entries in rounds that
end with the page table of the source; `shares_iff` says when the right ones are copied.
-/
namespace Netbas.PageSharing
open Frames Paging PageTables Teardown Copies List

/-! ### The entries of an address space -/
section
variable (s : Machine)
def tableOf (pgdir d : Nat) : Nat := (s.word pgdir d &&& PT_PFNMASK) / 4096
section
variable (pgdir addr : Nat)
def HasTable : Prop := s.word pgdir (PDE_IDX addr) &&& PAGE_PRESENT ≠ 0
def slot : Nat := (s.word pgdir (PDE_IDX addr) &&& PT_PFNMASK) / 4 + PTE_IDX addr
def pte : Nat := s.at (slot s pgdir addr)
end
end
structure Space (s : Machine) (pgdir : Nat) : Prop where
 outside : ∀ d < 1024, s.word pgdir d &&& PAGE_PRESENT ≠ 0 -> tableOf s pgdir d ≠ pgdir / 4096
 once : ∀ d < 1024, ∀ d' < 1024, s.word pgdir d &&& PAGE_PRESENT ≠ 0 -> s.word pgdir d' &&& PAGE_PRESENT ≠ 0 ->
  tableOf s pgdir d = tableOf s pgdir d' -> d = d'
def place (tab : Nat -> Nat) (p : Nat) : Nat := tab (p / 1024) * 1024 + p % 1024

variable (addr : Nat)
section
variable {s s' : Machine} {pgdir p q : Nat}
lemma masked_page (word : Nat) : (word &&& PT_PFNMASK) / 4096 * 4096 = word &&& PT_PFNMASK := by
 have lt : word &&& PT_PFNMASK < 2^32 := lt_of_le_of_lt Nat.and_le_right (by decide)
 have masked := pfnmask_eq lt
 rw [Nat.and_assoc,Nat.and_self] at masked
 exact masked.symm
lemma masked_word (word : Nat) : (word &&& PT_PFNMASK) / 4 = (word &&& PT_PFNMASK) / 4096 * 1024 := by
 have := masked_page word
 omega
lemma slot_page : slot s pgdir addr = place (tableOf s pgdir) (addr / 4096) := by
 have dir : PDE_IDX addr = addr / 4096 / 1024 := by
  rw [PDE_IDX]
  omega
 rw [slot,masked_word,dir,place,tableOf,PTE_IDX]
 rfl
lemma hasTable_page :
 HasTable s pgdir addr ↔ s.word pgdir (addr / 4096 / 1024) &&& PAGE_PRESENT ≠ 0 := by
 have dir : PDE_IDX addr = addr / 4096 / 1024 := by
  rw [PDE_IDX]
  omega
 rw [HasTable,dir]
lemma Space.place_inj (space : Space s pgdir) (fst : p < 2^20) (snd : q < 2^20)
 (table : s.word pgdir (p / 1024) &&& PAGE_PRESENT ≠ 0) (table' : s.word pgdir (q / 1024) &&& PAGE_PRESENT ≠ 0)
 (eq : place (tableOf s pgdir) p = place (tableOf s pgdir) q) : p = q := by
 unfold place at eq
 have frames : tableOf s pgdir (p / 1024) = tableOf s pgdir (q / 1024) := by omega
 have dirs := space.once (p / 1024) (by omega) (q / 1024) (by omega) table table' frames
 omega
lemma Space.place_outside (space : Space s pgdir) (lt : p < 2^20)
 (table : s.word pgdir (p / 1024) &&& PAGE_PRESENT ≠ 0) : place (tableOf s pgdir) p / 1024 ≠ pgdir / 4096 := by
 have out := space.outside (p / 1024) (by omega) table
 unfold place
 omega
lemma walk_pte {addr : Nat} (table : HasTable s pgdir addr) : walk s pgdir addr = target (pte s pgdir addr) := by
 have idx : PTE_IDX addr < 1024 := Nat.mod_lt _ (by norm_num)
 have row (t : Nat) : (t * 1024 + PTE_IDX addr) / 1024 = t := by omega
 have col (t : Nat) : (t * 1024 + PTE_IDX addr) % 1024 = PTE_IDX addr := by omega
 have dir : target (s.word pgdir (PDE_IDX addr)) = some ((s.word pgdir (PDE_IDX addr) &&& PT_PFNMASK) / 4096) := by
  rw [target,if_neg table]
 rw [walk,entryOf,dir,pte,slot,masked_word,Machine.at,row,col]
 rfl
lemma walk_none {addr : Nat} (gone : ¬ HasTable s pgdir addr) : walk s pgdir addr = none := by
 rw [HasTable,not_not] at gone
 rw [walk,entryOf,target,if_pos gone]
 rfl
lemma target_word {e : Nat} (here : e &&& PAGE_PRESENT ≠ 0) (word : e < 2^32) : target e = some (e / 4096) := by
 rw [target,if_neg here,pfnmask_eq word,Nat.mul_div_cancel _ (by norm_num)]
lemma word_at {d : Nat} (lt : d < 1024) : s.word pgdir d = s.at (pgdir / 4096 * 1024 + d) := by
 have row : (pgdir / 4096 * 1024 + d) / 1024 = pgdir / 4096 := by omega
 have col : (pgdir / 4096 * 1024 + d) % 1024 = d := by omega
 rw [Machine.word,Machine.at,row,col]
lemma slot_congr {addr : Nat} (low : addr < 2^32)
 (dir : ∀ d < 1024, s'.at (pgdir / 4096 * 1024 + d) = s.at (pgdir / 4096 * 1024 + d)) :
 slot s' pgdir addr = slot s pgdir addr := by
 have idx : PDE_IDX addr < 1024 := by
  rw [PDE_IDX]
  omega
 rw [slot,slot,word_at idx,word_at idx,dir _ idx]
lemma tableOf_congr (eq : s'.ram (pgdir / 4096) = s.ram (pgdir / 4096)) : tableOf s' pgdir = tableOf s pgdir := by
 funext d
 rw [tableOf,tableOf,Machine.word,Machine.word,eq]

end

/-! ### The loop as copies -/
section
variable {s : Machine} {pgdir pages : Nat}

variable (l : List (Nat × Nat))
lemma moves_at (s : Machine) :
 (l.foldl (fun s x => s.put x.1 (s.at x.2)) s).at = copies s.at l := by
 induction l generalizing s with
 | nil => rfl
 | cons x rest ih =>
  rw [foldl_cons,ih,put_at]
  rfl
lemma moves_ram {page : Nat} (s : Machine) (ne : ∀ x ∈ l, x.1 / 1024 ≠ page) :
 (l.foldl (fun s x => s.put x.1 (s.at x.2)) s).ram page = s.ram page := by
 induction l generalizing s with
 | nil => rfl
 | cons x rest ih =>
  rw [foldl_cons,ih _ (fun y mem => ne y (mem_cons_of_mem x mem)),put_ram,
   Function.update_of_ne (ne x mem_cons_self).symm]
lemma attach_pages_moves (rounds : Nat) : ∀ (s : Machine) (left form_addr to_addr : Nat),
 (∀ x ∈ sharedEntries s pgdir pages rounds left form_addr to_addr, x.1 / 1024 ≠ pgdir / 4096) ->
 (attach_pages pgdir pages rounds s left form_addr to_addr).2 =
  (sharedEntries s pgdir pages rounds left form_addr to_addr).foldl (fun s x => s.put x.1 (s.at x.2)) s := by
 induction rounds with
 | zero => intro _ _ _ _ _; rfl
 | succ rounds ih =>
  intro s left form_addr to_addr out
  unfold sharedEntries at out ⊢
  unfold attach_pages
  by_cases more : left < pages
  · rw [if_pos more] at out ⊢
    rw [if_pos more]
    dsimp only at out ⊢
    by_cases gone : s.word pgdir (PDE_IDX form_addr) &&& PAGE_PRESENT = 0
    · rw [if_pos gone,if_pos gone]
      rfl
    rw [if_neg gone] at out ⊢
    rw [if_neg gone,foldl_append,foldl_map]
    have kept := moves_ram _ s fun x mem => out x (mem_append_left _ mem)
    rw [foldl_map] at kept
    have entries (left form_addr to_addr : Nat) : sharedEntries _ pgdir pages rounds left form_addr to_addr =
      sharedEntries s pgdir pages rounds left form_addr to_addr := sharedEntries_congr kept rounds left form_addr to_addr
    rw [<- entries]
    apply ih
    intro x mem
    rw [copy_page,entries] at mem
    exact out x (mem_append_right _ mem)
  rw [if_neg more,if_neg more]
  rfl

end

/-! ### Which entries are copied -/
/-- Where the round that copies entry `j` starts: at the first page, or at the last
  page before that starts a page table of the source. -/
def start (a j : Nat) : Nat := j - (a + j) % 1024
def copied (a n : Nat) : Nat := start a (n - 1) + min n (1024 - (a + start a (n - 1)) % 1024)

/-- Where entry `j` is written: behind the entry with which its round starts. -/
def dest (tab : Nat -> Nat) (a b j : Nat) : Nat := place tab (b + start a j) + (j - start a j)

section
variable {s : Machine} {pgdir a b n : Nat}
lemma start_round {left i : Nat} (round : left = 0 ∨ (a + left) % 1024 = 0) (lt : i < 1024 - (a + left) % 1024) :
 start a (left + i) = left := by
 unfold start
 omega
lemma start_lt (one : 1 ≤ n) : start a (n - 1) < n := by
 unfold start
 omega
lemma le_copied (one : 1 ≤ n) : n ≤ copied a n := by
 unfold copied start
 omega
lemma start_le {j : Nat} (lt : j < copied a n) : start a j ≤ start a (n - 1) := by
 unfold copied start at *
 omega
lemma place_round (tab : Nat -> Nat) {left i : Nat} (lt : i < 1024 - (a + left) % 1024) :
 place tab (a + left) + i = place tab (a + (left + i)) := by
 have dir : (a + (left + i)) / 1024 = (a + left) / 1024 := by omega
 unfold place
 rw [dir]
 omega
lemma sharedEntries_from (source : a + n ≤ 2^20) (target : b + n ≤ 2^20)
 (tables : ∀ j < n, s.word pgdir ((a + j) / 1024) &&& PAGE_PRESENT ≠ 0) (rounds : Nat) :
 ∀ left, left < n -> left = 0 ∨ (a + left) % 1024 = 0 -> n ≤ left + rounds ->
  sharedEntries s pgdir n rounds left ((a + left) * 4096) ((b + left) * 4096) =
   (range (copied a n - left)).map (fun j =>
    (dest (tableOf s pgdir) a b (left + j),place (tableOf s pgdir) (a + (left + j)))) := by
 induction rounds with
 | zero => intro left _ _ _; omega
 | succ rounds ih =>
  intro left less round enough
  have idx : PTE_IDX ((a + left) * 4096) = (a + left) % 1024 := by
   rw [PTE_IDX]
   omega
  have dir : PDE_IDX ((a + left) * 4096) = (a + left) / 1024 := by
   rw [PDE_IDX]
   omega
  unfold sharedEntries
  dsimp only
  have slots (c : Nat) : (s.word pgdir (PDE_IDX ((c + left) * 4096)) &&& PT_PFNMASK) / 4 + PTE_IDX ((c + left) * 4096) =
    place (tableOf s pgdir) (c + left) := by
   have here : slot s pgdir ((c + left) * 4096) = _ := slot_page _
   rwa [slot,Nat.mul_div_cancel _ (by norm_num)] at here
  rw [if_pos less,slots,slots,idx,if_neg (by rw [dir]; exact tables left less)]
  have fst : (range (min n (1024 - (a + left) % 1024))).map (fun i =>
    (place (tableOf s pgdir) (b + left) + i,place (tableOf s pgdir) (a + left) + i)) =
    (range (min n (1024 - (a + left) % 1024))).map (fun j =>
     (dest (tableOf s pgdir) a b (left + j),place (tableOf s pgdir) (a + (left + j)))) := by
   apply map_congr_left
   intro i mem
   have lt : i < 1024 - (a + left) % 1024 := (mem_range.mp mem).trans_le (min_le_right _ _)
   rw [dest,start_round round lt,place_round _ lt,Nat.add_sub_cancel_left]
  rw [fst]
  by_cases more : left + min n (1024 - (a + left) % 1024) < n
  · -- The round ended with the page table of its source.
    have cnt : min n (1024 - (a + left) % 1024) = 1024 - (a + left) % 1024 := by omega
    rw [cnt] at more ⊢
    have whole : copied a n - left = 1024 - (a + left) % 1024 + (copied a n - (left + (1024 - (a + left) % 1024))) := by
     have := le_copied (a := a) (n := n) (by omega)
     omega
    have next (c : Nat) (low : c + n ≤ 2^20) : ((c + left) * 4096 + (1024 - (a + left) % 1024) * 4096) % 2^32 =
      (c + (left + (1024 - (a + left) % 1024))) * 4096 := by omega
    rw [next a source,next b target,ih _ more (.inr (by omega)) (by omega),whole,range_add,map_append,map_map]
    simp only [Function.comp_def,Nat.add_assoc]
  have last : start a (n - 1) = left := by
   have := start_round (i := n - 1 - left) round (by omega)
   rwa [Nat.add_sub_cancel' (by omega)] at this
  have none : ∀ fa ta, sharedEntries s pgdir n rounds (left + min n (1024 - (a + left) % 1024)) fa ta = [] := by
   intro fa ta
   cases rounds with
   | zero => rfl
   | succ rounds =>
    unfold sharedEntries
    rw [if_neg more]
  rw [none,append_nil,copied,last,Nat.add_sub_cancel_left]
lemma sharedEntries_eq (one : 1 ≤ n) (source : a + n ≤ 2^20) (target : b + n ≤ 2^20)
 (tables : ∀ j < n, s.word pgdir ((a + j) / 1024) &&& PAGE_PRESENT ≠ 0) :
 sharedEntries s pgdir n n 0 (a * 4096) (b * 4096) = (range (copied a n)).map (fun j =>
  (dest (tableOf s pgdir) a b j,place (tableOf s pgdir) (a + j))) := by
 have entries := sharedEntries_from (b := b) source target tables n 0 one (.inl rfl) (by omega)
 simpa only [Nat.add_zero,Nat.sub_zero,Nat.zero_add] using entries

end

/-! ### Requests -/
structure Request where
 form_addr : Nat
 to_addr : Nat
 pages : Nat
 aligned : form_addr % 4096 = 0 ∧ to_addr % 4096 = 0
 one : 1 ≤ pages
 source : form_addr + pages * 4096 ≤ 2^32
 target : to_addr + pages * 4096 ≤ 2^32
 apart : form_addr + pages * 4096 ≤ to_addr ∨ to_addr + pages * 4096 ≤ form_addr

namespace Request

section
variable (r : Request)
def a : Nat := r.form_addr / 4096
def b : Nat := r.to_addr / 4096
def moves (tab : Nat -> Nat) : List (Nat × Nat) :=
 (range (copied r.a r.pages)).map (fun j => (PageSharing.dest tab r.a r.b j,place tab (r.a + j)))
lemma form_addr_eq : r.form_addr = r.a * 4096 := by
 have := r.aligned.1
 unfold a
 omega
lemma to_addr_eq : r.to_addr = r.b * 4096 := by
 have := r.aligned.2
 unfold b
 omega
lemma form_page (i : Nat) : (r.form_addr + i * 4096) / 4096 = r.a + i := by
 rw [r.form_addr_eq]
 omega
lemma to_page (i : Nat) : (r.to_addr + i * 4096) / 4096 = r.b + i := by
 rw [r.to_addr_eq]
 omega
lemma bounds :
 r.a + r.pages ≤ 2^20 ∧ r.b + r.pages ≤ 2^20 ∧ (r.a + r.pages ≤ r.b ∨ r.b + r.pages ≤ r.a) := by
 have := r.source
 have := r.target
 have := r.apart
 have := r.form_addr_eq
 have := r.to_addr_eq
 omega
end

end Request
structure Ready (s : Machine) (pgdir : Nat) (r : Request) : Prop extends Space s pgdir where
 sources : ∀ i < r.pages, HasTable s pgdir (r.form_addr + i * 4096)
 targets : ∀ i < r.pages, HasTable s pgdir (r.to_addr + i * 4096)
def attached (s : Machine) (pgdir : Nat) (r : Request) : Machine :=
 (attach_share_page s pgdir r.form_addr r.to_addr r.pages).2

/-- Each page of the second range has the entry of its page in the first, and all
  other pages have the entries they had. -/
structure Shares (s : Machine) (pgdir : Nat) (r : Request) : Prop where
 equal : ∀ i < r.pages, pte (attached s pgdir r) pgdir (r.to_addr + i * 4096) =
  pte (attached s pgdir r) pgdir (r.form_addr + i * 4096)
 others : ∀ addr < 2^32, HasTable s pgdir addr -> addr < r.to_addr ∨ r.to_addr + r.pages * 4096 ≤ addr ->
  pte (attached s pgdir r) pgdir addr = pte s pgdir addr

/-- Neither range leaves its page table, or both start at the same index and end
  with their page tables. -/
def Fits (r : Request) : Prop :=
 PTE_IDX r.form_addr + r.pages ≤ 1024 ∧ PTE_IDX r.to_addr + r.pages ≤ 1024 ∨
  PTE_IDX r.form_addr = PTE_IDX r.to_addr ∧ (PTE_IDX r.form_addr + r.pages) % 1024 = 0

section
variable {s : Machine} {pgdir : Nat} {r : Request}

section
variable (ready : Ready s pgdir r)
include ready
lemma Ready.source {j : Nat} (lt : j < r.pages) :
 s.word pgdir ((r.a + j) / 1024) &&& PAGE_PRESENT ≠ 0 := by
 have table := (hasTable_page _).mp (ready.sources j lt)
 rwa [r.form_page] at table
lemma Ready.target {j : Nat} (lt : j < r.pages) :
 s.word pgdir ((r.b + j) / 1024) &&& PAGE_PRESENT ≠ 0 := by
 have table := (hasTable_page _).mp (ready.targets j lt)
 rwa [r.to_page] at table
lemma attached_pte
 (clear : ∀ x ∈ r.moves (tableOf s pgdir), x.1 / 1024 ≠ pgdir / 4096) (addr : Nat) :
 pte (attached s pgdir r) pgdir addr =
  copies s.at (r.moves (tableOf s pgdir)) (place (tableOf s pgdir) (addr / 4096)) := by
 obtain ⟨source,target,_⟩ := r.bounds
 have entries := sharedEntries_eq (b := r.b) r.one source target fun j lt => ready.source lt
 have moved : attached s pgdir r = (r.moves (tableOf s pgdir)).foldl (fun s x => s.put x.1 (s.at x.2)) s := by
  rw [attached,attach_share_page,r.form_addr_eq,r.to_addr_eq,attach_pages_moves _ _ _ _ _ (entries ▸ clear),entries]
  rfl
 have dir : tableOf (attached s pgdir r) pgdir = tableOf s pgdir := by
  apply tableOf_congr
  rw [moved]
  exact moves_ram _ s clear
 rw [pte,slot_page,dir,moved,moves_at]
end

/-! ### Requests that fit -/
lemma fits_pages : Fits r ↔ r.a % 1024 + r.pages ≤ 1024 ∧ r.b % 1024 + r.pages ≤ 1024 ∨
 r.a % 1024 = r.b % 1024 ∧ (r.a % 1024 + r.pages) % 1024 = 0 := by
 rw [Fits,PTE_IDX,PTE_IDX]
 rfl
lemma Fits.moves (fits : Fits r) (tab : Nat -> Nat) :
 r.moves tab = (range r.pages).map (fun j => (place tab (r.b + j),place tab (r.a + j))) := by
 have one := r.one
 rw [fits_pages] at fits
 have many : copied r.a r.pages = r.pages := by
  unfold copied start
  omega
 unfold Request.moves
 rw [many]
 apply map_congr_left
 intro j mem
 have lt := mem_range.mp mem
 have dir : (r.b + start r.a j) / 1024 = (r.b + j) / 1024 := by
  unfold start
  omega
 have idx : (r.b + start r.a j) % 1024 + (j - start r.a j) = (r.b + j) % 1024 := by
  unfold start
  omega
 have here : dest tab r.a r.b j = place tab (r.b + j) := by rw [dest,place,place,dir,Nat.add_assoc,idx]
 rw [here]
lemma shares_of_fits (ready : Ready s pgdir r) (fits : Fits r) : Shares s pgdir r := by
 obtain ⟨source,target,ne⟩ := r.bounds
 have entries := fits.moves (tableOf s pgdir)
 have once : ∀ i < r.pages, ∀ j < r.pages,
   place (tableOf s pgdir) (r.b + i) = place (tableOf s pgdir) (r.b + j) -> i = j := by
  intro i lt j lt' eq
  have := ready.place_inj (by omega) (by omega) (ready.target lt) (ready.target lt') eq
  omega
 have clear : ∀ x ∈ r.moves (tableOf s pgdir), x.1 / 1024 ≠ pgdir / 4096 := by
  intro x mem
  rw [entries] at mem
  obtain ⟨j,below,rfl⟩ := mem_map.mp mem
  have lt := mem_range.mp below
  exact ready.place_outside (by omega) (ready.target lt)
 -- Words of pages outside the second range are not written.
 have unwritten : ∀ p < 2^20, s.word pgdir (p / 1024) &&& PAGE_PRESENT ≠ 0 -> p < r.b ∨ r.b + r.pages ≤ p ->
   ∀ j < r.pages, place (tableOf s pgdir) (r.b + j) ≠ place (tableOf s pgdir) p := by
  intro p low table away j lt eq
  have := ready.place_inj (by omega) low (ready.target lt) table eq
  omega
 have kept : ∀ p < 2^20, s.word pgdir (p / 1024) &&& PAGE_PRESENT ≠ 0 -> p < r.b ∨ r.b + r.pages ≤ p ->
   copies s.at (r.moves (tableOf s pgdir)) (place (tableOf s pgdir) p) = s.at (place (tableOf s pgdir) p) := by
  intro p low table away
  apply copies_other
  intro x mem
  rw [entries] at mem
  obtain ⟨j,below,rfl⟩ := mem_map.mp mem
  exact unwritten p low table away j (mem_range.mp below)
 constructor
 · intro i lt
   rw [attached_pte ready clear,attached_pte ready clear,r.to_page,r.form_page,
    kept _ (by omega) (ready.source lt) (by omega),entries]
   exact copies_range_apart _ once lt
    (fun j pre => unwritten (r.a + i) (by omega) (ready.source lt) (by omega) j (by omega))
 intro addr low table away
 rw [r.to_addr_eq] at away
 rw [attached_pte ready clear,pte,slot_page]
 exact kept _ (by omega) ((hasTable_page addr).mp table) (by omega)
lemma Shares.copied (shares : Shares s pgdir r) (ready : Ready s pgdir r) {i : Nat} (lt : i < r.pages) :
 pte (attached s pgdir r) pgdir (r.to_addr + i * 4096) = pte s pgdir (r.form_addr + i * 4096) := by
 have source := r.source
 have ne := r.apart
 rw [shares.equal i lt]
 exact shares.others _ (by omega) (ready.sources i lt) (by omega)

end

/-! ### Requests that do not fit -/
def laid (map : PageMap) (tab content : Nat -> Nat) : Machine where
 map := map
 KERN_PG_DIR_ADDR := 0
 ram := fun page i => if page = 0 then tab i * 4096 + PAGE_PRESENT else content (page * 1024 + i)
 procs := [0]
structure Layout (tab : Nat -> Nat) : Prop where
 low : ∀ d < 1024, 1 ≤ tab d ∧ tab d < 2^20
 once : ∀ d < 1024, ∀ d' < 1024, tab d = tab d' -> d = d'

section
variable {map : PageMap} {tab content : Nat -> Nat}
lemma laid_present (d : Nat) : (laid map tab content).word 0 d &&& PAGE_PRESENT ≠ 0 := by
 have word : (laid map tab content).word 0 d = tab d * 4096 + 1 := rfl
 rw [word,PAGE_PRESENT,Nat.and_one_is_mod]
 omega
lemma laid_hasTable : HasTable (laid map tab content) 0 addr := laid_present _
section
variable (layout : Layout tab)
include layout
lemma Layout.table_laid {d : Nat} (lt : d < 1024) : tableOf (laid map tab content) 0 d = tab d := by
 have low := layout.low d lt
 have word : (laid map tab content).word 0 d = tab d * 4096 + 1 := rfl
 rw [tableOf,word,pfnmask_eq (by omega)]
 omega
lemma Layout.place_laid {p : Nat} (lt : p < 2^20) :
 place (tableOf (laid map tab content) 0) p = place tab p := by
 rw [place,place,layout.table_laid (by omega)]
lemma Layout.space : Space (laid map tab content) 0 := by
 constructor
 · intro d lt _
   have low := layout.low d lt
   rw [layout.table_laid lt]
   omega
 intro d lt d' lt' _ _ eq
 rw [layout.table_laid lt,layout.table_laid lt'] at eq
 exact layout.once d lt d' lt' eq
lemma Layout.place_high {p : Nat} (lt : p < 2^20) : 1024 ≤ place tab p := by
 have low := layout.low (p / 1024) (by omega)
 unfold place
 omega
lemma Layout.place_inj {p q : Nat} (lt : p < 2^20) (lt' : q < 2^20)
 (eq : place tab p = place tab q) : p = q := by
 unfold place at eq
 have := layout.once (p / 1024) (by omega) (q / 1024) (by omega) (by omega)
 omega
end
lemma laid_at {pos : Nat} (high : 1024 ≤ pos) : (laid map tab content).at pos = content pos := by
 have page : pos / 1024 ≠ 0 := by omega
 have whole : pos / 1024 * 1024 + pos % 1024 = pos := by omega
 rw [Machine.at,laid]
 dsimp only
 rw [if_neg page,whole]
lemma Layout.pte_laid (layout : Layout tab) {addr : Nat} (lt : addr < 2^32) :
 pte (laid map tab content) 0 addr = content (place tab (addr / 4096)) := by
 have page : addr / 4096 < 2^20 := by omega
 rw [pte,slot_page,layout.place_laid page,laid_at (layout.place_high page)]

variable {r : Request}
lemma Layout.ready (layout : Layout tab) : Ready (laid map tab content) 0 r :=
 ⟨layout.space,fun _ _ => laid_hasTable _,fun _ _ => laid_hasTable _⟩
lemma Layout.moves_laid (layout : Layout tab) : r.moves (tableOf (laid map tab content) 0) = (range (copied r.a r.pages)).map
 (fun j => (dest tab r.a r.b j,place tab (r.a + j))) := by
 obtain ⟨source,target,_⟩ := r.bounds
 have last := start_lt (a := r.a) r.one
 unfold Request.moves
 apply map_congr_left
 intro j mem
 have lt := mem_range.mp mem
 have fst := start_le lt
 have low : r.a + j < 2^20 := by
  unfold copied start at lt
  omega
 rw [dest,dest,layout.place_laid (by omega),layout.place_laid low]
lemma Layout.pte_attached (layout : Layout tab) {addr : Nat} (lt : addr < 2^32) :
 pte (attached (laid map tab content) 0 r) 0 addr = copies (laid map tab content).at
  ((range (copied r.a r.pages)).map (fun j => (dest tab r.a r.b j,place tab (r.a + j))))
  (place tab (addr / 4096)) := by
 rw [attached_pte layout.ready,layout.moves_laid,layout.place_laid (by omega)]
 intro x mem
 rw [layout.moves_laid] at mem
 obtain ⟨j,below,rfl⟩ := mem_map.mp mem
 have fst := start_le (mem_range.mp below)
 have last := start_lt (a := r.a) r.one
 have high := layout.place_high (p := r.b + start r.a j) (by have := r.bounds; omega)
 rw [dest]
 omega
lemma missed (map : PageMap) (behind : (r.b + start r.a (r.pages - 1)) / 1024 < (r.b + (r.pages - 1)) / 1024) :
 ∃ s, Ready s 0 r ∧ ¬ Shares s 0 r := by
 obtain ⟨source,target,ne⟩ := r.bounds
 have one := r.one
 obtain ⟨tab,lie⟩ : ∃ tab : Nat -> Nat, ∀ d, tab d = 1 + 2 * d := ⟨_,fun _ => rfl⟩
 have layout : Layout tab := by
  constructor
  · intro d lt
    rw [lie]
    omega
  intro d _ d' _ eq
  rw [lie,lie] at eq
  omega
 refine ⟨laid map tab (fun pos => if pos = place tab (r.a + (r.pages - 1)) then 1 else 0),layout.ready,?_⟩
 intro shares
 have low := r.source
 have low' := r.target
 have last := shares.copied layout.ready (i := r.pages - 1) (by omega)
 rw [layout.pte_laid (by omega),layout.pte_attached (by omega),r.form_page,r.to_page,if_pos rfl,copies_other,
  laid_at (layout.place_high (by omega)),if_neg] at last
 · exact absurd last (by norm_num)
 · intro eq
   have := layout.place_inj (by omega) (by omega) eq
   omega
 intro x mem
 obtain ⟨j,below,rfl⟩ := mem_map.mp mem
 have fst := start_le (mem_range.mp below)
 have le : j - start r.a j < 1024 := by
  unfold start
  omega
 show dest tab r.a r.b j ≠ place tab (r.b + (r.pages - 1))
 rw [dest,place,place,lie,lie]
 omega
lemma overrun (map : PageMap) (more : r.pages < copied r.a r.pages) : ∃ s, Ready s 0 r ∧ ¬ Shares s 0 r := by
 obtain ⟨source,target,apart⟩ := r.bounds
 have one := r.one
 have mem : (r.a + r.pages) % 1024 ≠ 0 := by
  unfold copied start at more
  omega
 obtain ⟨tab,lie⟩ : ∃ tab : Nat -> Nat, ∀ d, tab d = 1 + (d + 1024 - r.b / 1024) % 1024 := ⟨_,fun _ => rfl⟩
 have layout : Layout tab := by
  constructor
  · intro d lt
    rw [lie]
    omega
  intro d _ d' _ eq
  rw [lie,lie] at eq
  omega
 have row : ∀ p, r.b ≤ p -> p < 2^20 -> place tab p = 1024 + (p - r.b / 1024 * 1024) := by
  intro p le lt
  rw [place,lie]
  omega
 have dests : ∀ j < copied r.a r.pages, dest tab r.a r.b j = 1024 + (r.b + j - r.b / 1024 * 1024) := by
  intro j lt
  have fst := start_le lt
  have last := start_lt (a := r.a) one
  have pre : start r.a j ≤ j := Nat.sub_le _ _
  rw [dest,row _ (by omega) (by omega)]
  omega
 have once : ∀ i < copied r.a r.pages, ∀ j < copied r.a r.pages, dest tab r.a r.b i = dest tab r.a r.b j -> i = j := by
  intro i lt j lt' eq
  rw [dests i lt,dests j lt'] at eq
  omega
 -- The page behind the second range; behind the last page comes page 0.
 have behind : place tab ((r.b + r.pages) % 2^20) = dest tab r.a r.b r.pages := by
  rw [dests _ more,place,lie]
  omega
 -- What is copied hit stood in a page that is another one.
 have spilled : ∃ p < 2^20, p ≠ (r.b + r.pages) % 2^20 ∧ ∀ m : Nat -> Nat,
   copies m ((range (copied r.a r.pages)).map (fun j => (dest tab r.a r.b j,place tab (r.a + j))))
    (dest tab r.a r.b r.pages) = m (place tab p) := by
  by_cases next : r.b = r.a + r.pages
  · refine ⟨r.a,by omega,by omega,?_⟩
    intro m
    have fst : place tab (r.a + r.pages) = dest tab r.a r.b 0 := by
     rw [dests 0 (by omega),<- next,row _ (le_refl _) (by omega)]
     rfl
    rw [copies_range_at m once more,fst]
    exact copies_range_apart m (fun i lt j lt' => once i (by omega) j (by omega)) (by omega) (by omega)
  refine ⟨r.a + r.pages,by omega,by omega,?_⟩
  intro m
  apply copies_range_apart m once more
  intro j lt eq
  rw [dests j (by omega),<- row _ (by omega) (by omega)] at eq
  have := layout.place_inj (by omega) (by omega) eq
  omega
 obtain ⟨p,low,ne,spills⟩ := spilled
 refine ⟨laid map tab (fun pos => if pos = place tab p then 1 else 0),layout.ready,?_⟩
 intro shares
 have page : (r.b + r.pages) % 2^20 * 4096 / 4096 = (r.b + r.pages) % 2^20 := by omega
 have kept := shares.others ((r.b + r.pages) % 2^20 * 4096) (by omega) (laid_hasTable _)
  (by rw [r.to_addr_eq]; omega)
 rw [layout.pte_laid (by omega),layout.pte_attached (by omega),page,behind,spills,laid_at (layout.place_high low),
  if_pos rfl,if_neg] at kept
 · exact absurd kept (by norm_num)
 intro eq
 rw [<- behind] at eq
 exact ne (layout.place_inj low (by omega) eq.symm)

end

/-- `attach_share_page` shares the pages of exactly the requests that fit. -/
theorem shares_iff (r : Request) : (∀ s pgdir, Ready s pgdir r -> Shares s pgdir r) ↔ Fits r := by
 constructor
 · intro always
   by_contra unfit
   have one := r.one
   have map := memory_slot_init 0 0 (fun _ => ⟨0,0,0⟩) 1
   have wrong : ∃ s, Ready s 0 r ∧ ¬ Shares s 0 r := by
    by_cases behind : (r.b + start r.a (r.pages - 1)) / 1024 < (r.b + (r.pages - 1)) / 1024
    · exact missed map behind
    apply overrun map
    rw [fits_pages] at unfit
    unfold start at behind
    unfold copied start
    omega
   obtain ⟨s,ready,broken⟩ := wrong
   exact broken (always s 0 ready)
 intro fits s pgdir ready
 exact shares_of_fits ready fits
def acrossTables : Request where
 form_addr := 0x803ff000
 to_addr := 0x80800000
 pages := 2
 aligned := by decide
 one := by decide
 source := by decide
 target := by decide
 apart := by decide
def onePageBehind : Machine :=
 laid (memory_slot_init 0 0 (fun _ => ⟨0,0,0⟩) 1) (fun d => 1 + d) (fun pos => if pos = 0x80801 then 0x5007 else 0)
theorem page_behind_mapped : Ready onePageBehind 0 acrossTables ∧ pte onePageBehind 0 0x80401000 = 0x5007 ∧
 pte onePageBehind 0 0x80802000 = 0 ∧ pte (attached onePageBehind 0 acrossTables) 0 0x80802000 = 0x5007 := by
 have layout : Layout (fun d => 1 + d) := ⟨fun d lt => by omega,fun d _ d' _ eq => by omega⟩
 exact ⟨layout.ready,by decide +kernel,by decide +kernel,by decide +kernel⟩

end Netbas.PageSharing
