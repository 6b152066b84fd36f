import Netbas.IoMuxWakeups
import Netbas.Referents

/-!
What `vfs_select` reports. Every bit that comes back was asked for and found ready, but with a
timeout of 0 the sets are left as they were passed (`reports_iff`).
-/
namespace Netbas.SelectResults
open Runs IoMux List Option
open Function
def FD_SETSIZE : Nat := 256
structure Traced (Thread Obj : Type) where
 state : State Thread Obj
 args : Thread -> Option Select
 seen : Thread -> Which -> Nat -> Bool

section
variable {Thread Obj : Type} [DecidableEq Thread] [DecidableEq Obj]
def looks : Status Thread -> Option (Which × Nat)
 | .running (.select a) _ (.check_fds _ w i _) => if (i : Int) < a.nfds.toInt then some (w,i) else none
 | _ => none
def reads : Status Thread -> Option Nat
 | .running (.select a) _ (.check_fds _ _ i _) => if (i : Int) < a.nfds.toInt then some i else none
 | .running (.select a) _ (.add_fds_to_iomux w n _) => if (a.set w).isSome ∧ n < a.nfds.toNat then some n else none
 | _ => none
def matching (s : State Thread Obj) (t : Thread) (w : Which) (i : Nat) : Bool :=
 match s.files t i with
 | none => false
 | some o => decide ((s.kernel.iob o).events_signaled &&& w.eventmask ≠ 0)
def Traced.look (z : Traced Thread Obj) (t : Thread) : Which -> Nat -> Bool :=
 match looks (z.state.status t) with
 | none => z.seen t
 | some (w,i) => update (z.seen t) w (update (z.seen t w) i (matching z.state t w i))

/-- What is traced of an action. A bit outside the array of an `fd_set` is not to be
  read. -/
def trace (z : Traced Thread Obj) (s' : State Thread Obj) : Action Thread Obj -> Option (Traced Thread Obj)
 | .vfs_select t a _ => some {z with state := s', args := update z.args t (some a)}
 | .poll t _ _ _ _ => some {z with state := s', args := update z.args t none}
 | .advance t =>
  if ∀ i ∈ reads (z.state.status t), i < FD_SETSIZE then
   some {z with state := s', seen := update z.seen t (z.look t)}
  else none
 | _ => some {z with state := s'}
def tracedStep [Fintype Obj] (z : Traced Thread Obj) (a : Action Thread Obj) : Option (Traced Thread Obj) :=
 (step z.state a).bind (fun s' => trace z s' a)
def start (files : Thread -> Nat -> Option Obj) : Traced Thread Obj :=
 {state := boot files, args := fun _ => none, seen := fun _ _ _ => false}

end

/-! ### The property -/
def count (fds : FdSet) : Nat := (range FD_SETSIZE).countP fds
def bits (out : Which -> Option FdSet) : Nat :=
 (out .readset).elim 0 count + (out .writeset).elim 0 count + (out .exceptset).elim 0 count
def Ready (a : Select) (seen : Which -> Nat -> Bool) (w : Which) (fds : FdSet) : Prop :=
 ∀ i < FD_SETSIZE, fds i = true -> (i : Int) < a.nfds.toInt ∧ a.copy w i = true ∧ seen w i = true

/-- The value counts the bits of the sets that were passed, and all bits are
  ready. -/
structure Reports (a : Select) (seen : Which -> Nat -> Bool) (rc : Int) (out : Which -> Option FdSet) : Prop where
 value : rc = bits out
 passed : ∀ w, (out w).isSome = (a.set w).isSome
 ready : ∀ w fds, out w = some fds -> Ready a seen w fds
def Passes (a : Select) : Prop := ∃ w, (a.set w).isSome

/-- A call of `vfs_select` that has come back without an error has reported rightly. -/
def Right {Thread Obj : Type} (z : Traced Thread Obj) : Prop :=
 ∀ t a rc out, z.args t = some a -> z.state.status t = .returned (.select rc out) -> 0 ≤ rc -> Passes a ->
  Reports a (z.seen t) rc out
def Empty (a : Select) : Prop := ∀ w fds, a.set w = some fds -> ∀ i < FD_SETSIZE, fds i = false

/-- A call whose first check ends without a ready descriptor, and whose timeout is
  0, was passed empty sets. -/
def Asks {Thread Obj : Type} (z : Traced Thread Obj) : Action Thread Obj -> Prop
 | .advance t =>
  match z.state.status t with
  | .running (.select a) _ (.check_fds false .exceptset i found) =>
   ¬ (i : Int) < a.nfds.toInt -> found.num = 0 -> a.timeout = some 0 -> Empty a
  | _ => True
 | _ => True

/-! ### Counting -/
variable {fds : FdSet}
lemma count_none (nil : ∀ i < FD_SETSIZE, fds i = false) : count fds = 0 := by
 refine countP_eq_zero.mpr ?_
 intro i mem
 rw [nil i (mem_range.mp mem)]
 simp
lemma count_pos {i : Nat} (mem : i < FD_SETSIZE) (set : fds i = true) : 0 < count fds :=
 countP_pos_iff.mpr ⟨i,mem_range.mpr mem,set⟩
lemma count_hit {i : Nat} (mem : i < FD_SETSIZE) (clear : fds i = false) :
 count (update fds i true) = count fds + 1 := by
 have rest : ∀ j ∈ range FD_SETSIZE, j ≠ i -> update fds i true j = fds j :=
  fun j _ ne => update_of_ne ne ..
 have exchange := Referents.countP_exchange nodup_range (mem_range.mpr mem) rest
 simpa [count,clear] using exchange

variable {a : Select} {seen : Which -> Nat -> Bool}
lemma bits_put {fds : Which -> FdSet} (ready : ∀ w, Ready a seen w (fds w)) :
 bits (a.put fds) = count (fds .readset) + count (fds .writeset) + count (fds .exceptset) := by
 have each : ∀ w, ((a.put fds) w).elim 0 count = count (fds w) := by
  intro w
  cases passed : a.set w with
  | some set => simp [Select.put,passed]
  | none =>
   have nil : count (fds w) = 0 := by
    refine count_none fun i mem => ?_
    by_contra set
    have asked := (ready w i mem (by simpa using set)).2.1
    simp [Select.copy,passed] at asked
   simp [Select.put,passed,nil]
 rw [bits,each,each,each]
lemma reports_put {fds : Which -> FdSet} {n : Nat} (ready : ∀ w, Ready a seen w (fds w))
  (num : n = count (fds .readset) + count (fds .writeset) + count (fds .exceptset)) :
  Reports a seen n (a.put fds) where
 value := by rw [bits_put ready,num]
 passed w := by simp [Select.put]
 ready w set mem := by
  obtain ⟨_,_,rfl⟩ := map_eq_some_iff.mp mem
  exact ready w
lemma reports_empty (nil : Empty a) : Reports a seen 0 a.set where
 value := by
  have each : ∀ w, (a.set w).elim 0 count = 0 := by
   intro w
   cases passed : a.set w with
   | none => rfl
   | some fds => exact count_none (nil w fds passed)
  rw [bits,each,each,each]
  rfl
 passed _ := rfl
 ready w fds passed i mem set := by
  rw [nil w fds passed i mem] at set
  cases set
lemma empty_of_reports (reports : Reports a seen 0 a.set) : Empty a := by
 intro w fds passed i mem
 by_contra set
 have pos := count_pos mem (by simpa using set)
 have here : (a.set w).elim 0 count = count fds := by rw [passed]; rfl
 have value := reports.value
 rw [bits] at value
 cases w <;> rw [here] at value <;> omega

/-! ### A check of the sets -/
def before (fds : Which -> FdSet) : Which -> Nat
 | .readset => 0
 | .writeset => count (fds .readset)
 | .exceptset => count (fds .readset) + count (fds .writeset)
structure Partial (a : Select) (seen : Which -> Nat -> Bool) (w : Which) (i : Nat) (found : Found) : Prop where
 copies : ∀ w', w.index ≤ w'.index -> found.fds w' = a.copy w'
 stored : ∀ w', w'.index < w.index -> Ready a seen w' (found.fds w')
 current : Ready a seen w found.lset
 below : ∀ j, found.lset j = true -> j < i
 num : found.num = before found.fds w + count found.lset
lemma partial_start (a : Select) (seen : Which -> Nat -> Bool) (again : Bool) :
 ∃ found, a.check again = .check_fds again .readset 0 found ∧ Partial a seen .readset 0 found := by
 refine ⟨_,rfl,fun _ _ => rfl,?_,?_,?_,?_⟩
 · intro w' lt
   simp [Which.index] at lt
 · intro i _ set
   cases set
 · intro j set
   cases set
 · simp [before,count_none]

variable {w : Which} {i : Nat} {found : Found} {b : Bool}
def note (seen : Which -> Nat -> Bool) (w : Which) (i : Nat) (b : Bool) : Which -> Nat -> Bool :=
 update seen w (update (seen w) i b)

variable {w' : Which}
lemma note_other {j : Nat} (ne : w' ≠ w ∨ j ≠ i) : note seen w i b w' j = seen w' j := by
 by_cases eq : w' = w
 · subst eq
   rw [note,update_self,update_of_ne (ne.resolve_left (by simp))]
 · rw [note,update_of_ne eq]
lemma note_self : note seen w i b w i = b := by simp [note]
lemma Partial.noted (part : Partial a seen w i found) : Partial a (note seen w i b) w i found := by
 refine {part with stored := ?_, current := ?_}
 · intro w' lt j mem set
   obtain ⟨small,asked,saw⟩ := part.stored w' lt j mem set
   refine ⟨small,asked,?_⟩
   rwa [note_other (.inl (by rintro rfl; omega))]
 intro j mem set
 obtain ⟨small,asked,saw⟩ := part.current j mem set
 refine ⟨small,asked,?_⟩
 have lt := part.below j set
 rwa [note_other (.inr (by omega))]
lemma Partial.next (part : Partial a seen w i found) : Partial a seen w (i + 1) found :=
 {part with below := fun j set => Nat.lt_succ_of_lt (part.below j set)}
lemma Partial.hit (part : Partial a seen w i found) (mem : i < FD_SETSIZE) (lt : (i : Int) < a.nfds.toInt)
 (asked : found.fds w i = true) (saw : seen w i = true) : Partial a seen w (i + 1) (found.hit i) := by
 have clear : found.lset i = false := by
  by_contra set
  exact absurd (part.below i (by simpa using set)) (lt_irrefl i)
 refine {part with current := ?_, below := ?_, num := ?_}
 · intro j mem set
   by_cases eq : j = i
   · subst eq
     refine ⟨lt,?_,saw⟩
     rw [<- part.copies w le_rfl]
     exact asked
   · exact part.current j mem (by simpa [Found.hit,eq] using set)
 · intro j set
   by_cases eq : j = i
   · omega
   · exact Nat.lt_succ_of_lt (part.below j (by simpa [Found.hit,eq] using set))
 simp only [Found.hit,count_hit mem clear,part.num]
 omega
lemma before_store (found : Found) (next : w.next = some w') :
 before (found.store w).fds w' = before found.fds w + count found.lset := by
 cases w <;> cases next <;> simp [before,Found.store]
lemma Partial.store (part : Partial a seen w i found) (next : w.next = some w') :
 Partial a seen w' 0 (found.store w) := by
 have follows := next_index next
 refine ⟨?_,?_,?_,?_,?_⟩
 · intro v least
   have ne : v ≠ w := by
    rintro rfl
    omega
   simp only [Found.store,update_of_ne ne]
   exact part.copies v (by omega)
 · intro v lt
   by_cases eq : v = w
   · subst eq
     simp only [Found.store,update_self]
     exact part.current
   simp only [Found.store,update_of_ne eq]
   refine part.stored v ?_
   have differs : v.index ≠ w.index := fun equal => eq (index_inj equal)
   omega
 · intro j _ set
   cases set
 · intro j set
   cases set
 have cleared : count (found.store w).lset = 0 := count_none fun _ _ => rfl
 rw [before_store found next,cleared]
 exact part.num
lemma Partial.final (part : Partial a seen w i found) (last : w.next = none) :
 Reports a seen (found.store w).num (a.put (found.store w).fds) := by
 cases w with
 | readset => cases last
 | writeset => cases last
 | exceptset =>
  refine reports_put ?_ ?_
  · intro v
    by_cases eq : v = .exceptset
    · subst eq
      simp only [Found.store,update_self]
      exact part.current
    simp only [Found.store,update_of_ne eq]
    refine part.stored v ?_
    have most := last_index (w := .exceptset) rfl v
    have differs : v.index ≠ Which.index .exceptset := fun equal => eq (index_inj equal)
    omega
  have num := part.num
  simpa [Found.store,before] using num

/-! ### A call -/
def PcFine (a : Select) (seen : Which -> Nat -> Bool) : Pc -> Prop
 | .check_fds _ w i found => Partial a seen w i found
 | .close_iomux (.select rc out) => 0 ≤ rc -> Reports a seen rc out
 | .msleep => ¬ Passes a
 | _ => True
def Fine {Thread : Type} (args : Option Select) (seen : Which -> Nat -> Bool) : Status Thread -> Prop
 | .idle => True
 | .running (.select a) _ pc => args = some a ∧ PcFine a seen pc
 | .running (.poll _) _ _ => args = none
 | .returned (.select rc out) => ∀ a, args = some a -> 0 ≤ rc -> Passes a -> Reports a seen rc out
 | .returned (.poll _ _) => True

section
variable {Thread Obj : Type} [DecidableEq Thread] [DecidableEq Obj] {k k' : Kernel Thread Obj} {m : Mux Thread}
 {files : Nat -> Option Obj} {st : Status Thread}
lemma fine_check (again : Bool) : Fine (some a) seen (.running (.select a) m (a.check again)) := by
 obtain ⟨found,eq,part⟩ := partial_start a seen again
 rw [eq]
 exact ⟨rfl,part⟩

variable {c : Call} {args : Option Select}
lemma fine_error {rc : Int} (error : rc < 0) : Fine args seen
 (.returned (c.fail rc) : Status Thread) := by
 cases c with
 | select a => exact fun _ _ pos => absurd pos (by omega)
 | poll a => trivial
lemma fine_wait (asks : a.timeout = some 0 -> Empty a) : Fine (some a) seen (a.wait m : Status Thread) := by
 rw [Select.wait]
 split
 · exact ⟨rfl,trivial⟩
 rename_i tmo timeout
 split
 · rename_i zero
   rintro a' eq _ _
   obtain rfl := some.inj eq
   exact reports_empty (asks (by rw [timeout,zero]))
 split
 · rename_i out
   refine ⟨rfl,?_⟩
   rintro ⟨w,passed⟩
   cases w <;> simp [out] at passed
 · exact ⟨rfl,trivial⟩
lemma check_fds_fine {again : Bool} (part : Partial a seen w i found)
 (mem : (i : Int) < a.nfds.toInt -> i < FD_SETSIZE ∧
  ∀ o, files i = some o -> seen w i = decide ((k.iob o).events_signaled &&& w.eventmask ≠ 0))
 (asks : again = false -> w = .exceptset -> ¬ (i : Int) < a.nfds.toInt -> found.num = 0 -> a.timeout = some 0 -> Empty a) :
 Fine (some a) seen (check_fds k files a m again w i found) := by
 rw [check_fds]
 split
 · rename_i lt
   obtain ⟨le,saw⟩ := mem lt
   split
   · rename_i asked
     split
     · cases again with
       | true => exact ⟨rfl,fun pos => absurd pos (by decide)⟩
       | false => exact fun _ _ pos => absurd pos (by decide)
     rename_i o file
     refine ⟨rfl,?_⟩
     split
     · rename_i sig
       refine part.hit le lt asked ?_
       rw [saw o file]
       exact decide_eq_true sig
     · exact part.next
   · exact ⟨rfl,part.next⟩
 rename_i done
 dsimp only
 split
 · rename_i w' next
   exact ⟨rfl,part.store next⟩
 rename_i last
 have reports := part.final last
 cases again with
 | true => exact ⟨rfl,fun _ => reports⟩
 | false =>
  simp only [Bool.false_eq_true,if_false]
  split
  · rintro a' eq _ _
    obtain rfl := some.inj eq
    exact reports
  rename_i none_found
  have zero : found.num = 0 := by
   simpa [Found.store] using none_found
  have set : w = .exceptset := by
   cases w with
   | exceptset => rfl
   | _ => cases last
  exact fine_wait (asks rfl set done zero)
lemma added_fine {count : Nat} : Fine (some a) seen (a.added m w count : Status Thread) := by
 rw [Select.added]
 split
 · exact fine_check true
 split
 · exact ⟨rfl,trivial⟩
 · exact ⟨rfl,trivial⟩

variable {n : Nat}
lemma add_fds_fine {count : Nat} (ran : add_fds_to_iomux k files a m w n count = some (k',st)) :
 Fine (some a) seen st := by
 have closes : Fine (some a) seen (.running (.select a) m (.close_iomux (.select EBADF a.set)) : Status Thread) :=
  ⟨rfl,fun pos => absurd pos (by decide)⟩
 rw [add_fds_to_iomux] at ran
 split at ran
 · cases ran
   exact added_fine
 split at ran
 · split at ran
   · split at ran
     · cases ran
       exact closes
     obtain ⟨r,_,eq⟩ := map_eq_some_iff.mp ran
     cases eq
     split
     · exact closes
     · exact ⟨rfl,trivial⟩
   cases ran
   exact ⟨rfl,trivial⟩
 cases ran
 exact added_fine

section
variable (caller : Fine args seen (.running c m .lock : Status Thread))
include caller
lemma fine_running
 {pc : Pc} (fine : ∀ a, PcFine a seen pc) : Fine args seen (.running c m pc : Status Thread) := by
 cases c with
 | select a => exact ⟨caller.1,fine a⟩
 | poll a => exact caller
lemma fine_again :
 Fine args seen (.running c m (c.check true) : Status Thread) := by
 cases c with
 | select a =>
  rw [caller.1]
  exact fine_check true
 | poll a => exact caller
lemma lock_fine :
 Fine args seen (lock k c m).2 := by
 rw [lock]
 split
 · split
   · exact fine_running caller fun _ => trivial
   · exact fine_again caller
 split
 · exact fine_again caller
 · exact fine_running caller fun _ => trivial
lemma wake_fine
 (value : Int) : Fine args seen (wake k c m value).2 := by
 rw [wake]
 split
 · exact fine_again caller
 split
 · cases c with
   | select a =>
    refine ⟨caller.1,fun _ => ?_⟩
    refine reports_put (n := 0) ?_ (by simp [count_none])
    intro w i _ set
    cases set
   | poll a => exact caller
 · exact fine_again caller

end
lemma poll_fine {p : Poll} {again : Bool} {ready : Nat} :
 Fine none seen (check_poll k files p m again n ready) := by
 rw [check_poll]
 split
 · rfl
 split
 · rfl
 split
 · trivial
 split
 · trivial
 · rfl
lemma add_fd_fine {p : Poll} (ran : add_fd_to_iomux k files p m n = some (k',st)) : Fine none seen st := by
 rw [add_fd_to_iomux] at ran
 split at ran
 · split at ran
   · split at ran
     · cases ran
       rfl
     obtain ⟨r,_,eq⟩ := map_eq_some_iff.mp ran
     cases eq
     split <;> rfl
   cases ran
   rfl
 cases ran
 rfl
lemma close_fine {out : Outcome}
 (fine : Fine args seen (.running c m (.close_iomux out) : Status Thread)) :
 Fine args seen (.returned out : Status Thread) := by
 cases out with
 | poll rc fds => trivial
 | select rc set =>
  intro a args' pos _
  cases c with
  | select a' =>
   obtain rfl := some.inj (fine.1.symm.trans args')
   exact fine.2 pos
  | poll p =>
   rw [show args = none from fine] at args'
   cases args'

/-! ### Whole runs -/
def Known (z : Traced Thread Obj) : Prop := ∀ t, Fine (z.args t) (z.seen t) (z.state.status t)

variable {z z' : Traced Thread Obj} {t : Thread}
lemma known_right (kn : Known z) : Right z := by
 intro t a rc out args returned pos passes
 have fine := kn t
 rw [returned] at fine
 exact fine a args pos passes
lemma known_other (s' : State Thread Obj) (args : Option Select) (seen : Which -> Nat -> Bool) (kn : Known z)
 (rest : ∀ u, u ≠ t -> s'.status u = z.state.status u) (own : Fine args seen (s'.status t)) :
 Known {z with state := s', args := update z.args t args, seen := update z.seen t seen} := by
 intro u
 by_cases eq : u = t
 · subst eq
   simpa using own
 simp only [update_of_ne eq,rest u eq]
 exact kn u
lemma known_status {s' : State Thread Obj} (kn : Known z)
 (rest : ∀ u, u ≠ t -> s'.status u = z.state.status u) (own : Fine (z.args t) (z.seen t) (s'.status t)) :
 Known {z with state := s'} := by
 have step := known_other s' (z.args t) (z.seen t) kn rest own
 rwa [update_eq_self,update_eq_self] at step

variable [Fintype Obj]
lemma advance_fine {pc : Pc} (runs : z.state.status t = .running c m pc)
 (fine : Fine (z.args t) (z.seen t) (z.state.status t)) (asks : Asks z (.advance t))
 (le : ∀ i ∈ reads (z.state.status t), i < FD_SETSIZE)
 (ran : advance z.state.kernel (z.state.files t) m c pc = some (k',st)) : Fine (z.args t) (z.look t) st := by
 have away : looks (z.state.status t) = none -> z.look t = z.seen t := by
  intro nowhere
  rw [Traced.look,nowhere]
 rw [runs] at fine
 rw [advance.eq_def] at ran
 split at ran
 · rename_i a again w i found
   cases ran
   obtain ⟨args,part⟩ := fine
   rw [args]
   by_cases lt : (i : Int) < a.nfds.toInt
   · have looked : z.look t = note (z.seen t) w i (matching z.state t w i) := by
      simp [Traced.look,looks,runs,lt,note]
     rw [looked]
     refine check_fds_fine (Partial.noted part) (fun _ => ⟨?_,?_⟩) fun _ _ done => absurd lt done
     · exact le i (by simp [reads,runs,lt])
     intro o file
     rw [note_self,matching,file]
   rw [away (by simp [looks,runs,lt])]
   refine check_fds_fine part (fun mem => absurd mem lt) ?_
   rintro rfl rfl done zero timeout
   simp only [Asks,runs] at asks
   exact asks done zero timeout
 · cases ran
   rw [away (by simp [looks,runs]),show z.args t = none from fine]
   exact poll_fine
 · cases ran
   rw [away (by cases c <;> simp [looks,runs])]
   cases c with
   | select a => exact ⟨fine.1,trivial⟩
   | poll p => exact fine
 · rw [away (by simp [looks,runs]),fine.1]
   exact add_fds_fine ran
 · rw [away (by simp [looks,runs]),show z.args t = none from fine]
   exact add_fd_fine ran
 · rw [away (by cases c <;> simp [looks,runs])]
   have locked := lock_fine (k := z.state.kernel) fine
   rwa [some.inj ran] at locked
 · cases ran
   rw [away (by cases c <;> simp [looks,runs])]
   cases c with
   | select a => exact ⟨fine.1,trivial⟩
   | poll p => exact fine
 · obtain ⟨k1,_,eq⟩ := map_eq_some_iff.mp ran
   cases eq
   rw [away (by cases c <;> simp [looks,runs])]
   exact close_fine fine
 · cases ran
lemma enter_fine (nfds : Nat) (fds : Option (Nat -> Pollfd)) (timeout : Nat) :
 Fine none seen (poll_enter m nfds fds timeout) := by
 rw [poll_enter.eq_def]
 split
 · split
   · trivial
   · rfl
 split
 · trivial
 · rfl
variable {s : State Thread Obj}
lemma status_other {u : Thread} (ne : u ≠ t) :
 (s.set_status t st).status u = s.status u :=
 update_of_ne ne ..
lemma status_self : (s.set_status t st).status t = st :=
 update_self ..
variable {x : Action Thread Obj}
lemma step_known (kn : Known z) (asks : Asks z x) (ran : tracedStep z x = some z') :
 Known z' := by
 obtain ⟨s',done,traced⟩ := bind_eq_some_iff.mp ran
 cases x with
 | vfs_select t a addr =>
  obtain ⟨_,eq⟩ := ite_none_left_eq_some.mp done
  cases eq
  cases traced
  have begun := known_other (z.state.set_status t (.running (.select a) ⟨t,addr⟩ (a.check false))) (some a)
   (z.seen t) kn (fun u ne => status_other ne) (by rw [status_self]; exact fine_check false)
  rwa [update_eq_self] at begun
 | poll t nfds fds timeout addr =>
  obtain ⟨_,eq⟩ := ite_none_left_eq_some.mp done
  cases eq
  cases traced
  have begun := known_other (z.state.set_status t (poll_enter ⟨t,addr⟩ nfds fds timeout)) none (z.seen t)
   kn (fun u ne => status_other ne) (by rw [status_self]; exact enter_fine nfds fds timeout)
  rwa [update_eq_self] at begun
 | advance t =>
  rw [trace] at traced
  obtain ⟨le,eq⟩ := ite_none_right_eq_some.mp traced
  cases eq
  rw [step] at done
  split at done
  · rename_i c m pc runs
    obtain ⟨⟨k',st⟩,adv,eq⟩ := map_eq_some_iff.mp done
    cases eq
    have fine := advance_fine runs (kn t) asks le adv
    have went := known_other ((z.state.set_kernel k').set_status t st) (z.args t) (z.look t) kn
     (fun u ne => status_other ne) (by rw [status_self]; exact fine)
    rwa [update_eq_self] at went
  · cases done
 | no_semaphore t =>
  cases traced
  rw [step] at done
  split at done
  · cases done
    refine known_status (t := t) kn (fun u ne => status_other ne) ?_
    rw [status_self]
    exact fine_error (by decide)
  · cases done
 | resume t value =>
  cases traced
  have fine := kn t
  rw [step] at done
  split at done
  · rename_i c m runs
    rw [runs] at fine
    cases done
    refine known_status (t := t) kn (fun u ne => status_other ne) ?_
    rw [status_self]
    refine wake_fine ?_ value
    cases c with
    | select a => exact ⟨fine.1,trivial⟩
    | poll p => exact fine
  · rename_i c m runs
    rw [runs] at fine
    cases done
    refine known_status (t := t) kn (fun u ne => status_other ne) ?_
    rw [status_self]
    cases c with
    | select a =>
     intro a' args _ passes
     obtain rfl := some.inj (fine.1.symm.trans args)
     exact absurd passes fine.2
    | poll p => trivial
  · cases done
 | set_io_event o events =>
  cases done
  cases traced
  exact kn
 | clear_io_event o events =>
  cases done
  cases traced
  exact kn
 | detach_ioobject o =>
  obtain ⟨_,_,eq⟩ := map_eq_some_iff.mp done
  cases eq
  cases traced
  exact kn
 | change_files t files =>
  cases done
  cases traced
  exact kn
lemma step_wrong (kn : Known z) (out : ¬ Asks z x) :
 ∃ z', tracedStep z x = some z' ∧ ¬ Right z' := by
 cases x with
 | advance t =>
  rw [Asks] at out
  split at out
  · rename_i a m i found runs
    simp only [not_forall] at out
    obtain ⟨done,zero,timeout,asked⟩ := out
    have fine := kn t
    rw [runs] at fine
    have res : check_fds z.state.kernel (z.state.files t) a m false .exceptset i found =
      .returned (.select 0 a.set) := by
     simp [check_fds,done,Which.next,Found.store,zero,Select.wait,timeout]
    have adv : step z.state (.advance t) =
      some ((z.state.set_kernel z.state.kernel).set_status t (.returned (.select 0 a.set))) := by
     simp [step,runs,advance,res]
    have inBounds : ∀ i ∈ reads (z.state.status t), i < FD_SETSIZE := by
     simp [reads,runs,done]
    refine ⟨_,by rw [tracedStep,adv,bind_some,trace,if_pos inBounds],?_⟩
    intro right
    have passes : Passes a := by
     by_contra gone
     refine asked fun w fds passed => ?_
     exact absurd ⟨w,by rw [passed]; rfl⟩ gone
    exact asked (empty_of_reports (right t a 0 a.set fine.1 status_self le_rfl passes))
  · exact absurd trivial out
 | _ => exact absurd trivial out

/-- `vfs_select` reports rightly throughout a run exactly when no call of the run
  that asked for something gives up because of a timeout of 0. -/
theorem reports_iff (files : Thread -> Nat -> Option Obj) (actions : List (Action Thread Obj)) :
 Along tracedStep Right (fun _ _ => True) (start files) actions ↔ Meets tracedStep Asks (start files) actions := by
 refine along_iff (I := Known) (fun _ known => known_right known) (fun _ _ _ _ => trivial)
  (fun _ _ _ known asks taken => step_known known asks taken) ?_ actions _ ?_
 · intro z x known out _
   exact step_wrong known out
 · exact fun _ => trivial

end
theorem polling_keeps_bits :
  let a : Select := {nfds := 1, set := fun w => if w = .readset then some (fun n => n == 0) else none, timeout := some 0}
  ∃ z, run tracedStep (start (fun _ d => if d = 0 then some 0 else none) : Traced (Fin 1) (Fin 1))
    (.vfs_select 0 a 0 :: replicate 6 (.advance 0)) = some z ∧
   z.state.status 0 = .returned (.select 0 a.set) ∧ ¬ Right z := by
 refine ⟨_,rfl,rfl,?_⟩
 intro right
 have empty := empty_of_reports (right 0 _ 0 _ rfl rfl le_rfl ⟨.readset,rfl⟩)
 have clear := empty .readset _ rfl 0 (by decide)
 cases clear

end Netbas.SelectResults
