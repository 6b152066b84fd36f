import Netbas.Frames
import Netbas.Runs

/-!
Runs of the frame allocator. The free list is exact if and only if no `get_page` takes the last free
frame (`holes_exact_along_iff`).
-/
namespace Netbas.FrameRuns
open Chains Runs Frames
def HoleList (s : PageMap) (l : List Int) : Prop :=
 (s.hole_head_pos = HOLE_NULL ∧ l = []) ∨
  ∃ pre, l = pre ++ [s.hole_tail_pos] ∧ Follows s.next s.hole_head_pos pre s.hole_tail_pos
def HolesExact (s : PageMap) : Prop :=
 ∃ l, HoleList s l ∧ l.Nodup ∧ ∀ f, f ∈ l ↔ 0 ≤ f ∧ f < s.PHI_BLOCKS ∧ s.count f = 0

/-- A `get_page` that returns gives a frame whose count goes from 0 to 1 and
  leaves every other count as it is. -/
def GetExact (s : PageMap) : Prop :=
 ∀ addr s', get_page s = some (addr,s') -> ∃ f, 0 ≤ f ∧ f < s.PHI_BLOCKS ∧ addr = s.address f ∧
  s.count f = 0 ∧ s'.count f = 1 ∧ ∀ g, g ≠ f -> s'.count g = s.count g
inductive Action where
 | get
 | free (addr : Nat)

section
variable (s : PageMap × List Nat)
/-- The allocator and the addresses held: returned by `get_page` and not freed
  since. A run stops at a panic and frees only what is held. -/
def step : Action -> Option (PageMap × List Nat)
 | .get => (get_page s.1).map (fun (addr,s') => (s',addr :: s.2))
 | .free addr => if addr ∈ s.2 then some ((free_page s.1 addr).2,s.2.erase addr) else none
def Exact : Action -> Prop
 | .get => GetExact s.1
 | .free _ => True
def Spares : Action -> Prop
 | .get => s.1.hole_head_pos ≠ s.1.hole_tail_pos
 | .free _ => True
end
instance (s : PageMap × List Nat) : (a : Action) -> Decidable (Spares s a)
 | .get => inferInstanceAs (Decidable (_ ≠ _))
 | .free _ => .isTrue trivial

variable {s : PageMap} {l : List Int}
lemma listed_exact (listed : Listed s l) : HolesExact s :=
 ⟨l ++ [s.hole_tail_pos],.inr ⟨l,rfl,listed.walk⟩,listed.once,listed_iff listed⟩
lemma spare_exact (listed : Listed s l) (spare : s.hole_head_pos ≠ s.hole_tail_pos) :
 GetExact s := by
 obtain ⟨s1,_,ran,_,counts⟩ := get_page_spare listed spare
 have head := linked_head listed.toLinked
 intro addr s' returned
 rw [ran] at returned
 cases returned
 refine ⟨s.hole_head_pos,head.1,head.2.1,rfl,head.2.2,?_,?_⟩
 · rw [counts,Function.update_self]
 intro g ne
 rw [counts,Function.update_of_ne ne]
lemma step_listed {s s' : PageMap × List Nat} {a : Action} (listed : ∃ l, Listed s.1 l) (spares : Spares s a)
 (ran : step s a = some s') : ∃ l, Listed s'.1 l := by
 obtain ⟨l,listed⟩ := listed
 cases a with
 | get =>
  obtain ⟨s1,rest,returned,kept,_⟩ := get_page_spare listed spares
  simp only [step,returned,Option.map_some,Option.some.injEq] at ran
  exact ⟨rest,ran ▸ kept⟩
 | free addr =>
  simp only [step] at ran
  split at ran
  · cases ran
    exact free_page_listed listed addr
  · cases ran
lemma last_inexact (listed : Listed s l) (last : s.hole_head_pos = s.hole_tail_pos)
 (exact : GetExact s) : ∃ addr s', get_page s = some (addr,s') ∧ ¬ HolesExact s' := by
 obtain ⟨s',ran,head,tail,_,counts⟩ := get_page_last last
 -- The walk from the tail to itself is empty, so the tail is the only free frame.
 have only : ∀ f, 0 ≤ f -> f < s.PHI_BLOCKS -> s.count f = 0 -> f = s.hole_tail_pos := by
  intro f low high zero
  have mem := listed.all f low high zero
  have walk := listed.walk
  cases l with
  | nil => simpa using mem
  | cons x rest => exact absurd (by simp [<- walk.1,last]) (tail_not_before listed.toLinked)
 obtain ⟨f,low,high,_,zero,one,_⟩ := exact _ _ ran
 have isTail := only f low high zero
 subst isTail
 have fst : s.hole_tail_pos = 0 := by
  by_contra ne
  rw [counts,Function.update_of_ne ne,zero] at one
  exact absurd one (by decide)
 refine ⟨_,s',ran,?_⟩
 rintro ⟨l',list,_,free⟩
 rcases list with ⟨null,_⟩ | ⟨pre,split,_⟩
 · rw [head] at null
   exact absurd null (by decide)
 have zeroCount := ((free s'.hole_tail_pos).mp (by simp [split])).2.2
 rw [tail,fst,counts,Function.update_self] at zeroCount
 exact absurd zeroCount (by decide)
theorem holes_exact_along_iff (LOW_MEM HIGH_MEM : Nat) (start : Int -> PgmapsStruct) (size : Int) (two : 2 ≤ size)
 (actions : List Action) :
 Along step (fun s => HolesExact s.1) Exact (memory_slot_init LOW_MEM HIGH_MEM start size,[]) actions ↔
  Meets step Spares (memory_slot_init LOW_MEM HIGH_MEM start size,[]) actions := by
 apply along_iff (I := fun s => ∃ l, Listed s.1 l)
 · rintro s ⟨l,listed⟩
   exact listed_exact listed
 · rintro s a ⟨l,listed⟩ spares
   cases a with
   | get => exact spare_exact listed spares
   | free addr => trivial
 · intro s a s' listed spares taken
   exact step_listed listed spares taken
 · rintro s a ⟨l,listed⟩ tight exact
   cases a with
   | get =>
    obtain ⟨addr,s',taken,bad⟩ := last_inexact listed (not_not.mp tight) exact
    exact ⟨(s',addr :: s.2),by simp [step,taken],bad⟩
   | free addr => exact absurd trivial tight
 · exact memory_slot_init_listed LOW_MEM HIGH_MEM start two
theorem holes_exact_three_frames :
 (2 : Int) ≤ 3 ∧
  Along step (fun s => HolesExact s.1) Exact (memory_slot_init 0x2800000 0x4000000 (fun _ => ⟨0,0,0⟩) 3,[])
   [.get,.get,.free 0x2800000,.get] :=
 ⟨by decide,(holes_exact_along_iff _ _ _ 3 (by decide) _).mpr (by decide)⟩
theorem holes_inexact_two_frames :
 ¬ Along step (fun s => HolesExact s.1) Exact (memory_slot_init 0x2800000 0x4000000 (fun _ => ⟨0,0,0⟩) 2,[])
  [.get,.get] := by
 rintro ⟨_,_,snd⟩
 obtain ⟨_,exact,_⟩ := snd _ rfl
 obtain ⟨f,low,high,_,zero,one,_⟩ := exact _ _ rfl
 have either : f = 0 ∨ f = 1 := by
  have : f < 2 := high
  omega
 rcases either with rfl | rfl
 · exact absurd zero (by decide)
 · exact absurd one (by decide)

end Netbas.FrameRuns
