import Netbas.Chains
import Netbas.Fuel
import Netbas.Runs

/-!
The list of proc entries. The walk of `unregister_proc_entry` starts with both pointers at the first
entry, so that it is not removed and all others are lost (`removes_iff`).
-/
namespace Netbas.ProcEntries
open Runs Fuel Chains List
open Function
universe u
structure State (Entry : Type u) where
 proc_entry_head : Option Entry
 next : Entry -> Option Entry
 time : Entry -> Nat

section
variable {Entry : Type u} [DecidableEq Entry]

section
variable (s : State Entry)
def register_proc_entry (proc : Option Entry) (ticks : Nat) : Int × State Entry :=
 match proc with
 | none => (-1,s)
 | some p =>
  let s := {s with next := update s.next p none, time := update s.time p ticks}
  match s.proc_entry_head with
  | none => (0,{s with proc_entry_head := some p})
  | some head => (0,{s with next := update s.next p (some head), proc_entry_head := some p})
def unregister_loop (proc : Option Entry) : Nat -> (Entry -> Option Entry) -> Option Entry -> Option Entry -> Int ->
  Option (Int × (Entry -> Option Entry))
 | 0, _, _, _, _ => none
 | _ + 1, next, _, none, error => some (error,next)
 | fuel + 1, next, tail, some tmp, error =>
  if proc = some tmp then
   match tail with
   | none => none
   | some pre =>
    let next := update next pre (next tmp)
    let next := update next tmp none
    unregister_loop proc fuel next tail (next tmp) 0
  else unregister_loop proc fuel next (some tmp) (next tmp) error
def unregister_proc_entry (proc : Option Entry) (fuel : Nat) : Option (Int × State Entry) :=
 (unregister_loop proc fuel s.next s.proc_entry_head s.proc_entry_head (-1)).map
  (fun r => (r.1,{s with next := r.2}))
inductive Call (Entry : Type u) where
 | register_proc_entry (proc : Option Entry) (ticks : Nat)
 | unregister_proc_entry (proc : Option Entry) (fuel : Nat)
def step : Call Entry -> Option (State Entry)
 | .register_proc_entry proc ticks => some (register_proc_entry s proc ticks).2
 | .unregister_proc_entry proc fuel => (unregister_proc_entry s proc fuel).map Prod.snd
end
def boot : State Entry := {proc_entry_head := none, next := fun _ => none, time := fun _ => 0}

end

section
variable {Entry : Type u}
def Lists (s : State Entry) (xs : List Entry) : Prop :=
 Follows (fun p => p.bind s.next) s.proc_entry_head (xs.map some) none

section
variable [DecidableEq Entry]
/-- A new entry comes first; an entry that is removed is missing from the list, and
  the others are there in their order. -/
def Right (s : State Entry) : Call Entry -> Prop
 | .register_proc_entry (some p) ticks => ∀ xs, Lists s xs -> p ∉ xs ->
   Lists (register_proc_entry s (some p) ticks).2 (p :: xs)
 | .unregister_proc_entry (some e) _ => ∀ xs, Lists s xs -> e ∈ xs ->
   ∃ s', Returns (unregister_proc_entry s (some e)) (0,s') ∧ Lists s' (xs.erase e)
 | _ => True
def Later (s : State Entry) : Call Entry -> Prop
 | .unregister_proc_entry (some e) _ => ∀ xs, Lists s xs -> xs.head? ≠ some e
 | _ => True

end

variable {s : State Entry} {xs : List Entry}
lemma lists_nodup (lists : Lists s xs) : xs.Nodup :=
 (follows_nodup lists (by simp)).of_map
lemma lists_unique {ys : List Entry} (lists : Lists s xs) (ne : Lists s ys) : xs = ys :=
 map_injective_iff.mpr (Option.some_injective Entry) (follows_unique lists ne (by simp) (by simp))
lemma lists_head (lists : Lists s xs) : s.proc_entry_head = xs.head? := by
 cases xs with
 | nil => exact lists
 | cons x rest => exact lists.1
lemma part_congr {next next' : Entry -> Option Entry} {p q : Option Entry} (eq : ∀ x ∈ xs, next' x = next x)
 (walk : Follows (fun p => p.bind next) p (xs.map some) q) :
 Follows (fun p => p.bind next') p (xs.map some) q := by
 refine (follows_congr ?_).mp walk
 intro c mem
 obtain ⟨x,inside,rfl⟩ := mem_map.mp mem
 exact (eq x inside).symm

variable [DecidableEq Entry]
lemma register_lists (lists : Lists s xs) {p : Entry} (new : p ∉ xs) (ticks : Nat) :
 Lists (register_proc_entry s (some p) ticks).2 (p :: xs) := by
 have others : ∀ (q : Option Entry), ∀ x ∈ xs, update s.next p q x = s.next x := by
  intro q x mem
  rw [update_of_ne]
  rintro rfl
  exact new mem
 cases head : s.proc_entry_head with
 | none =>
  simp only [register_proc_entry,head]
  refine ⟨rfl,?_⟩
  have walk := part_congr (others none) lists
  simpa [head] using walk
 | some h =>
  simp only [register_proc_entry,head]
  refine ⟨rfl,?_⟩
  have walk := part_congr (others (some h)) lists
  simpa [head] using walk
lemma loop_returns {next : Entry -> Option Entry} {e l : Entry} {pre post : List Entry} :
 ∀ {tail tmp : Option Entry} {n : Int}, Follows (fun p => p.bind next) tmp ((pre ++ e :: post).map some) none ->
 e ∉ pre -> pre.getLast?.or tail = some l ->
 Returns (fun fuel => unregister_loop (some e) fuel next tail tmp n)
  (0,update (update next l (next e)) e none) := by
 induction pre with
 | nil =>
  rintro tail tmp n ⟨rfl,_⟩ _ last
  obtain rfl : tail = some l := by simpa using last
  generalize relinked : update (update next l (next e)) e none = next'
  -- the link of the entry is null now, and the loop ends
  have ends : Returns (fun fuel => unregister_loop (some e) fuel next' (some l) none 0) (0,next') :=
   .turn rfl (fun _ => rfl) (returns_const _)
  refine .turn rfl (fun fuel => ?_) ends
  simp [unregister_loop,<- relinked]
 | cons b rest ih =>
  rintro tail tmp n ⟨rfl,walk⟩ gone last
  have ne : e ≠ b := fun eq => gone (by simp [eq])
  have last' : rest.getLast?.or (some b) = some l := by
   rw [getLast?_cons,Option.some_or] at last
   rw [<- last]
   cases rest.getLast? <;> rfl
  refine .turn rfl (fun fuel => ?_) (ih walk (fun later => gone (by simp [later])) last' (n := n))
  simp [unregister_loop,ne]
lemma unregister_returns {e l : Entry} {pre post : List Entry} (lists : Lists s (pre ++ e :: post)) (gone : e ∉ pre)
 (last : pre.getLast?.or s.proc_entry_head = some l) : Returns (unregister_proc_entry s (some e))
  (0,{s with next := update (update s.next l (s.next e)) e none}) := by
 have loop := loop_returns lists gone last (n := -1)
 exact loop.map fun r => (r.1,{s with next := r.2})
lemma unregister_later {e : Entry} (lists : Lists s xs) (inside : e ∈ xs) (later : xs.head? ≠ some e) :
 ∃ s', Returns (unregister_proc_entry s (some e)) (0,s') ∧ Lists s' (xs.erase e) := by
 obtain ⟨pre,post,rfl,gone⟩ := eq_append_cons_of_mem inside
 rcases eq_nil_or_concat pre with rfl | ⟨init,l,rfl⟩
 · exact absurd rfl later
 rw [concat_eq_append] at lists gone ⊢
 refine ⟨_,unregister_returns lists gone (l := l) (by simp),?_⟩
 have less : (init ++ [l] ++ e :: post).erase e = init ++ l :: post := by
  rw [erase_append_right _ gone,erase_cons_head,append_assoc]
  rfl
 have once := lists_nodup lists
 have eq : ∀ x ∈ init ++ post, update (update s.next l (s.next e)) e none x = s.next x := by
  intro x mem
  have others : x ≠ l ∧ x ≠ e := by
   simp only [append_assoc,nodup_append,nodup_cons,mem_append,mem_cons] at once mem
   grind
  rw [update_of_ne others.2,update_of_ne others.1]
 rw [Lists,append_assoc,map_append,follows_append] at lists
 obtain ⟨r,fst,rfl,before,rest⟩ := lists
 rw [less,Lists,map_append,follows_append]
 refine ⟨some l,part_congr (fun x mem => eq x (by simp [mem])) fst,rfl,?_⟩
 have ne : l ≠ e := fun equal => gone (by simp [equal])
 simp only [Option.bind_some,update_of_ne ne,update_self]
 exact part_congr (fun x mem => eq x (by simp [mem])) rest
lemma unregister_first {e : Entry} {rest : List Entry} (lists : Lists s (e :: rest)) :
 ∃ s', Returns (unregister_proc_entry s (some e)) (0,s') ∧ Lists s' [e] := by
 have split : Lists s ([] ++ e :: rest) := lists
 refine ⟨_,unregister_returns split (by simp) (l := e) (by simp [lists_head lists]),?_⟩
 refine ⟨lists_head lists,?_⟩
 simp [Follows]
lemma first_wrong {e : Entry} {rest : List Entry} (lists : Lists s (e :: rest)) (fuel : Nat) :
 ¬ Right s (.unregister_proc_entry (some e) fuel) := by
 intro right
 obtain ⟨s',ret,ls'⟩ := right _ lists (by simp)
 obtain ⟨s'',returns',stays⟩ := unregister_first lists
 obtain rfl : s'' = s' := congrArg Prod.snd (ret.unique returns')
 have eq := lists_unique ls' stays
 have mem : e ∈ (e :: rest).erase e := by rw [eq]; simp
 exact absurd rfl ((lists_nodup lists).mem_erase_iff.mp mem).1

/-- In every history of calls, with any lists, a removal gives the list without the
  entry exactly when the entry is not the first of its list. -/
theorem removes_iff (calls : List (Call Entry)) :
 Along step (fun _ => True) Right (boot : State Entry) calls ↔ Meets step Later boot calls := by
 refine along_iff (I := fun _ => True) (fun _ _ => trivial) ?_ (fun _ _ _ _ _ _ => trivial) ?_ calls boot trivial
 · rintro s (⟨proc,ticks⟩ | ⟨proc,fuel⟩) _ later
   · cases proc with
     | none => trivial
     | some p => exact fun xs lists new => register_lists lists new ticks
   cases proc with
   | none => trivial
   | some e => exact fun xs lists inside => unregister_later lists inside (later xs lists)
 rintro s (⟨proc,ticks⟩ | ⟨proc,fuel⟩) _ fst right
 · exact absurd trivial fst
 cases proc with
 | none => exact absurd trivial fst
 | some e =>
  simp only [Later,not_forall,not_not] at fst
  obtain ⟨xs,lists,fst⟩ := fst
  obtain ⟨rest,rfl⟩ := List.head?_eq_some_iff.mp fst
  exact absurd right (first_wrong lists fuel)

end
theorem first_entry_stays :
 ∃ s, run step (boot : State (Fin 3)) [.register_proc_entry (some 0) 0,.register_proc_entry (some 1) 0,
   .register_proc_entry (some 2) 0] = some s ∧ Lists s [2,1,0] ∧
  (∃ s', Returns (unregister_proc_entry s (some 2)) (0,s') ∧ Lists s' [2]) ∧
  ¬ Right s (.unregister_proc_entry (some 2) 2) := by
 have lists : Lists (register_proc_entry (register_proc_entry (register_proc_entry (boot : State (Fin 3)) (some 0) 0).2
   (some 1) 0).2 (some 2) 0).2 [2,1,0] := by
  simp [Lists,Follows,register_proc_entry,boot]
 exact ⟨_,rfl,lists,unregister_first lists,first_wrong lists 2⟩

end Netbas.ProcEntries
