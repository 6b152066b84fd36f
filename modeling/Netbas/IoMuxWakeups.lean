import Netbas.IoMuxLinks

/-!
Wakeups of `vfs_select` and `poll`. `no_lost_wakeup` says when a call without a timeout does not
sleep through an event of one of its descriptors: it returns after as many steps of its own as
`Status.rank` counts.
-/
namespace Netbas.IoMux
open Runs HeadLists Option
open Threads (INFINITE)
open Function (update update_of_ne update_self)

/-! ### The descriptors of a call -/
inductive Entry where
 | fd (w : Which) (n : Nat)
 | pollfd (n : Nat)
def Call.entry : Call -> Entry -> Option (Nat × Events)
 | .select a, .fd w n => if (n : Int) < a.nfds.toInt ∧ a.copy w n then some (n,w.eventmask) else none
 | .poll a, .pollfd n =>
  if n < a.nfds ∧ 0 ≤ (a.fds n).fd then some ((a.fds n).fd.toNat,poll_mask (a.fds n).events) else none
 | _, _ => none
def Which.index : Which -> Nat
 | .readset => 0
 | .writeset => 1
 | .exceptset => 2
def Outcome.Reports : Outcome -> Entry -> Prop
 | .select rc set, .fd w n => 0 < rc ∧ ∃ fds, set w = some fds ∧ fds n = true
 | .poll rc fds, .pollfd n => 0 < rc ∧ ∃ array, fds = some array ∧ (array n).revents ≠ 0
 | _, _ => False
def Ahead : Call -> Pc -> Entry -> Prop
 | .select _, .check_fds false w i _, .fd w' n => w.index < w'.index ∨ w = w' ∧ i ≤ n
 | .poll _, .check_poll false i _, .pollfd n => i ≤ n
 | .select _, .add_fds_to_iomux _ _ _, _ | .poll _, .add_fd_to_iomux _, _ => True
 | _, .init_iomux, _ | _, .lock, _ | _, .sleep, _ => True
 | _, _, _ => False
def Select.checks (a : Select) : Nat := a.nfds.toInt.toNat
def Call.checkRank : Call -> Nat
 | .select a => 2 * (a.checks + 1) + a.checks + 2
 | .poll a => a.nfds + 2
def Call.initRank : Call -> Nat
 | .select a => 2 * (a.nfds.toNat + 1) + a.nfds.toNat + 3 + (Call.select a).checkRank
 | .poll a => a.nfds + 3 + (Call.poll a).checkRank
def Call.rank : Call -> Pc -> Nat
 | .select a, .check_fds again w i _ =>
  (2 - w.index) * (a.checks + 1) + (a.checks - i) + 2 + if again then 0 else (Call.select a).initRank
 | .poll a, .check_poll again n _ => (a.nfds - n) + 2 + if again then 0 else (Call.poll a).initRank
 | c, .init_iomux => c.initRank
 | .select a, .add_fds_to_iomux w n _ =>
  (2 - w.index) * (a.nfds.toNat + 1) + (a.nfds.toNat - n) + 2 + (Call.select a).checkRank
 | .poll a, .add_fd_to_iomux n => (a.nfds - n) + 2 + (Call.poll a).checkRank
 | c, .lock => 1 + c.checkRank
 | _, .close_iomux _ => 1
 | _, _ => 0
def Status.rank {Thread : Type} : Status Thread -> Nat
 | .running c _ pc => c.rank pc
 | _ => 0

section
variable {Thread Obj : Type} [DecidableEq Thread] [DecidableEq Obj]

section
variable (t : Thread)
def Action.advances : Action Thread Obj -> Bool
 | .advance u => u = t
 | _ => false
def Action.begins : Action Thread Obj -> Bool
 | .vfs_select u _ _ | .poll u _ _ _ _ => u = t
 | _ => false

/-- The descriptors of the thread's call stay valid and are not attached elsewhere, and
  the semaphore can be had. -/
def Undisturbed (s : State Thread Obj) : Action Thread Obj -> Prop
 | .advance u => u = t -> ∀ c m pc, s.status t = .running c m pc -> ∀ e d mask, c.entry e = some (d,mask) ->
   ∃ o, s.files t d = some o ∧ ∀ r, (s.kernel.iob o).iomux = some r -> r = m
 | .no_semaphore u => u ≠ t
 | .detach_ioobject o => ∀ m, (s.kernel.iob o).iomux = some m -> m.stack ≠ t
 | .change_files u _ => u = t -> (s.status t).isRunning = false
 | _ => True

/-- No object is taken out of a list that it is not in; no `queue_ioobject` of the
  thread's `poll` finds an event signaled; and none of its events is signaled first
  between the test of the counter and the sleep. -/
def Heard (s : State Thread Obj) : Action Thread Obj -> Prop
 | .advance u => Unlinks s (.advance u) ∧
   (u = t -> ∀ a m pc, s.status t = .running (.poll a) m pc -> Unready s (.advance t))
 | .set_io_event o events => ∀ c m, s.status t = .running c m .sleep -> (s.kernel.iob o).iomux = some m ->
   (s.kernel.iob o).events_monitored &&& (s.kernel.iob o).events_signaled ≠ 0 ∨
    (s.kernel.iob o).events_monitored &&& events = 0
 | a => Unlinks s a
end

/-! ### What the objects of a call are monitored for -/
def Pc.Added : Pc -> Entry -> Prop
 | .add_fds_to_iomux w n _, .fd w' n' => w'.index < w.index ∨ w' = w ∧ n' < n
 | .add_fd_to_iomux n, .pollfd n' => n' < n
 | .lock, _ | .sleep, _ => True
 | _, _ => False
def Pc.Adding : Pc -> Prop
 | .add_fds_to_iomux _ _ _ | .add_fd_to_iomux _ | .lock => True
 | _ => False
def Kernel.Excused (k : Kernel Thread Obj) (m : Mux Thread) : Pc -> Prop
 | .add_fds_to_iomux _ _ count => 0 < k.counter m ∨ 0 < count
 | .add_fd_to_iomux _ | .lock => 0 < k.counter m
 | _ => False
structure Watched (k : Kernel Thread Obj) (m : Mux Thread) (pc : Pc) (o : Obj) (mask : Events) : Prop where
 attached : (k.iob o).iomux = some m
 monitored : mask &&& (k.iob o).events_monitored = mask
 edge : (k.iob o).events_monitored &&& (k.iob o).events_signaled = 0 ∨ k.Excused m pc
structure Watch (k : Kernel Thread Obj) (files : Nat -> Option Obj) (c : Call) (m : Mux Thread) (pc : Pc) : Prop where
 watched : ∀ {e d mask}, c.entry e = some (d,mask) -> pc.Added e -> ∃ o, files d = some o ∧ Watched k m pc o mask
 counter : pc.Adding -> 0 ≤ k.counter m
 copies : ∀ {a again w i found}, c = .select a -> pc = .check_fds again w i found ->
  ∀ w', w.index ≤ w'.index -> found.fds w' = a.copy w'

variable {k k' : Kernel Thread Obj} {files : Nat -> Option Obj} {c : Call} {m : Mux Thread} {pc pc' : Pc} {o x : Obj}
 {mask events : Events}
lemma signaled_monitored {mask monitored sig : Events} (lt : mask &&& monitored = mask)
 (ready : mask &&& sig ≠ 0) : monitored &&& sig ≠ 0 := by
 intro zero
 apply ready
 rw [<- lt,BitVec.and_assoc,zero]
 exact BitVec.and_zero
lemma within_or {mask monitored : Events} (lt : mask &&& monitored = mask) (events : Events) :
 mask &&& (events ||| monitored) = mask := by
 rw [BitVec.and_or_distrib_left,lt]
 ext i mem
 simp only [BitVec.getElem_or,BitVec.getElem_and]
 cases mask[i] <;> simp
lemma within_self (mask events : Events) : mask &&& (mask ||| events) = mask := by
 ext i mem
 simp only [BitVec.getElem_or,BitVec.getElem_and]
 cases mask[i] <;> simp
lemma Watched.ready (watched : Watched k m pc o mask) (ready : mask &&& (k.iob o).events_signaled ≠ 0) :
 k.Excused m pc :=
 watched.edge.resolve_left (signaled_monitored watched.monitored ready)
lemma Excused.mono (exc : k.Excused m pc) (more : k.counter m ≤ k'.counter m) : k'.Excused m pc := by
 cases pc with
 | add_fds_to_iomux w n count => exact exc.imp_left (fun pos => lt_of_lt_of_le pos more)
 | add_fd_to_iomux n => exact lt_of_lt_of_le (show 0 < k.counter m from exc) more
 | lock => exact lt_of_lt_of_le (show 0 < k.counter m from exc) more
 | _ => exact exc.elim
lemma Watched.frame (watched : Watched k m pc o mask) (eq : k'.iob o = k.iob o)
 (more : k.counter m ≤ k'.counter m) : Watched k' m pc o mask := by
 refine ⟨?_,?_,?_⟩
 · rw [eq]
   exact watched.attached
 · rw [eq]
   exact watched.monitored
 rw [eq]
 exact watched.edge.imp_right fun exc => Excused.mono exc more
lemma Watch.frame (watch : Watch k files c m pc) (eq : ∀ o, (k.iob o).iomux = some m -> k'.iob o = k.iob o)
 (more : k.counter m ≤ k'.counter m) : Watch k' files c m pc := by
 refine ⟨?_,fun adding => le_trans (watch.counter adding) more,watch.copies⟩
 intro e d mask entry added
 obtain ⟨o,file,watched⟩ := watch.watched entry added
 exact ⟨o,file,watched.frame (eq o watched.attached) more⟩
lemma watch_none (none_added : ∀ e, ¬ pc.Added e) (pre : ¬ pc.Adding)
 (copies : ∀ {a again w i found}, c = .select a -> pc = .check_fds again w i found ->
  ∀ w', w.index ≤ w'.index -> found.fds w' = a.copy w') : Watch k files c m pc :=
 ⟨fun _ added => absurd added (none_added _),fun adding => absurd adding pre,copies⟩
def Pc.Resting : Pc -> Prop
 | .check_poll _ _ _ | .init_iomux | .asleep | .msleep | .close_iomux _ => True
 | _ => False
lemma watch_resting (resting : pc.Resting) : Watch k files c m pc := by
 cases pc <;> first
  | exact resting.elim
  | exact watch_none (by simp [Pc.Added]) (by simp [Pc.Adding]) (by simp)
lemma watch_check (c : Call) (again : Bool) : Watch k files c m (c.check again) := by
 cases c with
 | select a =>
  refine watch_none (by simp [Call.check,Select.check,Pc.Added]) (by simp [Call.check,Select.check,Pc.Adding]) ?_
  rintro a' again' w i found ⟨⟩ ⟨⟩ w' _
  rfl
 | poll a => exact watch_resting trivial
lemma Pc.Added.cases {e : Entry} (added : pc.Added e) : pc.Adding ∨ pc = .sleep := by
 cases pc with
 | add_fds_to_iomux w n count => exact .inl trivial
 | add_fd_to_iomux n => exact .inl trivial
 | lock => exact .inl trivial
 | sleep => exact .inr rfl
 | _ => cases e <;> exact added.elim
lemma excused_of_released (adding : pc.Adding) (freed : 0 < k.counter m) : k.Excused m pc := by
 cases pc with
 | add_fds_to_iomux w n count => exact .inl freed
 | add_fd_to_iomux n => exact freed
 | lock => exact freed
 | _ => exact adding.elim

/-! ### Events -/
lemma set_io_event_counter (k : Kernel Thread Obj) (x : Obj) (events : Events) :
 k.counter m ≤ (set_io_event k x events).2.counter m := by
 simp only [set_io_event]
 split
 · cases (k.iob x).iomux with
   | none => exact le_refl _
   | some r =>
    by_cases eq : m = r
    · subst eq
      simp [release_waiting_threads,Kernel.set_counter,Kernel.put]
    · simp [release_waiting_threads,Kernel.set_counter,Kernel.put,eq]
 · exact le_refl _
lemma set_io_event_releases (held : (k.iob x).iomux = some m)
 (quiet : (k.iob x).events_monitored &&& (k.iob x).events_signaled = 0)
 (fst : (k.iob x).events_monitored &&& events ≠ 0) :
 (set_io_event k x events).2.counter m = k.counter m + 1 := by
 simp only [set_io_event]
 rw [if_pos ⟨quiet,fst⟩]
 simp [held,release_waiting_threads,Kernel.set_counter,Kernel.put]
lemma Watch.set_io_event (watch : Watch k files c m pc)
 (heard : pc = .sleep -> (k.iob x).iomux = some m ->
  (k.iob x).events_monitored &&& (k.iob x).events_signaled ≠ 0 ∨ (k.iob x).events_monitored &&& events = 0) :
 Watch (set_io_event k x events).2 files c m pc := by
 have more := set_io_event_counter (m := m) k x events
 refine ⟨?_,fun adding => le_trans (watch.counter adding) more,watch.copies⟩
 intro e d mask entry added
 obtain ⟨o,file,watched⟩ := watch.watched entry added
 refine ⟨o,file,?_⟩
 by_cases eq : o = x
 · subst eq
   have held := watched.attached
   refine ⟨by simpa [set_io_event_iob] using held,by simpa [set_io_event_iob] using watched.monitored,?_⟩
   rcases watched.edge with quiet | excused
   · by_cases new : (k.iob o).events_monitored &&& events = 0
     · refine .inl ?_
       simp only [set_io_event_iob,update_self]
       rw [BitVec.and_or_distrib_left,quiet,new]
       rfl
     rcases added.cases with adding | rfl
     · refine .inr (excused_of_released adding ?_)
       rw [set_io_event_releases held quiet new]
       have := watch.counter adding
       omega
     · exact ((heard rfl held).elim (absurd quiet) new).elim
   · exact .inr (Excused.mono excused more)
 · exact watched.frame (by simp [set_io_event_iob,eq]) more
lemma Watch.clear_io_event (watch : Watch k files c m pc) (x : Obj) (events : Events) :
 Watch (clear_io_event k x events) files c m pc := by
 refine ⟨?_,watch.counter,watch.copies⟩
 intro e d mask entry added
 obtain ⟨o,file,watched⟩ := watch.watched entry added
 refine ⟨o,file,?_⟩
 by_cases eq : o = x
 · subst eq
   refine ⟨by simpa [IoMux.clear_io_event,Kernel.put] using watched.attached,
    by simpa [IoMux.clear_io_event,Kernel.put] using watched.monitored,?_⟩
   refine watched.edge.imp ?_ fun exc => Excused.mono exc (le_refl _)
   intro quiet
   simp only [IoMux.clear_io_event,Kernel.put,update_self]
   rw [<- BitVec.and_assoc,quiet]
   exact BitVec.zero_and
 refine watched.frame ?_ (le_refl _)
 simp [IoMux.clear_io_event,Kernel.put,eq]

/-! ### Steps of the calls -/
variable [Fintype Obj] {lists : Mux Thread -> List Obj} {st : Status Thread}
def Linked (k : Kernel Thread Obj) (lists : Mux Thread -> List Obj) (files : Nat -> Option Obj) (c : Call) (m : Mux Thread)
  (pc : Pc) : Prop :=
 ∀ d events o, c.request pc = some (d,events) -> files d = some o -> (k.iob o).iomux = some m -> o ∈ lists m

variable {r : Mux Thread}
lemma moves_frame (ok : Sound k lists) (ne : r ≠ m) (link : Linked k lists files c r pc)
 (moves : Moves k files r c pc k' st) :
 (∀ o, (k.iob o).iomux = some m -> k'.iob o = k.iob o) ∧ k.counter m ≤ k'.counter m := by
 cases moves with
 | goes c' pc' phase => exact ⟨fun _ _ => rfl,le_refl _⟩
 | returns out phase => exact ⟨fun _ _ => rfl,le_refl _⟩
 | inits pc' phase phase' =>
  refine ⟨fun _ _ => rfl,?_⟩
  simp [init_iomux,Kernel.set_links,Kernel.set_counter,ne.symm]
 | queues d events o rc _ pc' request file queued phase' =>
  rcases queue_spec ok (request_ne request) (link d events o request file) with ⟨_,refused⟩ | ⟨open_,k1,done,_,counter,iob⟩
  · cases refused.symm.trans queued
    exact ⟨fun _ _ => rfl,le_refl _⟩
  cases done.symm.trans queued
  refine ⟨?_,by rw [counter]⟩
  intro x held
  have unlike : x ≠ o := by
   rintro rfl
   rcases open_ with free | own
   · simp [held] at free
   · exact ne (some.inj (own.symm.trans held))
  simp [iob,unlike]
 | counts n pc' phase' =>
  refine ⟨fun _ _ => rfl,?_⟩
  simp [Kernel.set_counter,ne.symm]
 | closes out _ closed =>
  obtain ⟨k1,done,_,counter,iob⟩ := close_spec ok r
  cases done.symm.trans closed
  refine ⟨?_,by rw [counter]⟩
  intro x held
  have outside : x ∉ lists r := fun mem => ne (ok.only mem held).symm
  simp [iob,outside]
lemma queue_watched {events : Events}
  (iob : k'.iob = update k.iob o {k.iob o with iomux := some m, events_monitored := k.merged m o events})
  (ready : k.ready o (k.merged m o events) = true -> k'.Excused m pc') (kept : k.Excused m pc -> k'.Excused m pc') :
  Watched k' m pc' o events ∧ ∀ x mask, Watched k m pc x mask -> Watched k' m pc' x mask := by
 have edge : (k'.iob o).events_monitored &&& (k'.iob o).events_signaled = 0 ∨ k'.Excused m pc' := by
  cases found : k.ready o (k.merged m o events) with
  | true => exact .inr (ready found)
  | false =>
   refine .inl ?_
   simpa [Kernel.ready,iob] using found
 refine ⟨⟨by simp [iob],?_,edge⟩,?_⟩
 · simp only [iob,update_self,Kernel.merged]
   split
   · exact within_self _ _
   · exact BitVec.and_self
 intro x mask watched
 by_cases eq : x = o
 · subst eq
   refine ⟨by simp [iob],?_,edge⟩
   simp only [iob,update_self,Kernel.merged,watched.attached,if_true]
   exact within_or watched.monitored events
 have unchanged : k'.iob x = k.iob x := by simp [iob,eq]
 refine ⟨?_,?_,?_⟩
 · rw [unchanged]
   exact watched.attached
 · rw [unchanged]
   exact watched.monitored
 rw [unchanged]
 exact watched.edge.imp_right kept
def Status.Watching (k : Kernel Thread Obj) (files : Nat -> Option Obj) : Status Thread -> Prop
 | .running c m pc => Watch k files c m pc
 | _ => True
lemma Watch.goes (watch : Watch k files c m pc)
 (added : ∀ {e d mask}, c.entry e = some (d,mask) -> pc'.Added e -> pc.Added e)
 (kept : k.Excused m pc -> k.Excused m pc') (adding : pc.Adding) (adding' : pc'.Adding) : Watch k files c m pc' := by
 refine ⟨?_,fun _ => watch.counter adding,?_⟩
 swap
 · rintro _ _ _ _ _ _ rfl
   exact adding'.elim
 intro e d mask entry now
 obtain ⟨o,file,watched⟩ := watch.watched entry (added entry now)
 exact ⟨o,file,watched.attached,watched.monitored,watched.edge.imp_right kept⟩
lemma watch_queue (watch : Watch k files c m pc) {d : Nat} {events : Events} (file : files d = some o)
  (iob : k'.iob = update k.iob o {k.iob o with iomux := some m, events_monitored := k.merged m o events})
  (counter : k'.counter = k.counter) (ready : k.ready o (k.merged m o events) = true -> k'.Excused m pc')
  (kept : k.Excused m pc -> k'.Excused m pc') (adding : pc.Adding)
  (adding' : pc'.Adding)
  (added : ∀ {e d' mask}, c.entry e = some (d',mask) -> pc'.Added e -> pc.Added e ∨ d' = d ∧ mask = events) :
  Watch k' files c m pc' := by
 obtain ⟨new,old⟩ := queue_watched iob ready kept
 refine ⟨?_,?_,?_⟩
 · intro e d' mask entry now
   rcases added entry now with pre | ⟨rfl,rfl⟩
   · obtain ⟨x,file',watched⟩ := watch.watched entry pre
     exact ⟨x,file',old x mask watched⟩
   · exact ⟨o,file,new⟩
 · intro _
   rw [counter]
   exact watch.counter adding
 rintro _ _ _ _ _ _ rfl
 exact adding'.elim
lemma wait_watching (a : Select) : (a.wait m).Watching k files := by
 unfold Select.wait
 split
 · exact watch_resting trivial
 split
 · trivial
 · split <;> exact watch_resting trivial

variable {w w' : Which}
lemma next_index (next : w.next = some w') : w'.index = w.index + 1 := by
 cases w <;> cases next <;> rfl
lemma last_index (last : w.next = none) (w' : Which) : w'.index ≤ w.index := by
 cases w with
 | exceptset => cases w' <;> decide
 | _ => cases last
lemma index_inj (eq : w.index = w'.index) : w = w' := by
 cases w <;> cases w' <;> first | rfl | cases eq

variable {a : Select} {again : Bool} {i : Nat} {found : Found}
lemma check_fds_watching
 (watch : Watch k files (.select a) m (.check_fds again w i found)) :
 (check_fds k files a m again w i found).Watching k files := by
 have copies := watch.copies rfl rfl
 have goes : ∀ {w' i' hit'}, (∀ w'', w'.index ≤ w''.index -> hit'.fds w'' = a.copy w'') ->
   Watch k files (.select a) m (.check_fds again w' i' hit') := by
  intro w' i' hit' copies'
  refine watch_none (by simp [Pc.Added]) (by simp [Pc.Adding]) ?_
  rintro _ _ _ _ _ ⟨⟩ ⟨⟩
  exact copies'
 unfold check_fds
 split
 · split
   · cases files i with
     | none =>
      cases again with
      | true => exact watch_resting trivial
      | false => trivial
     | some o =>
      apply goes
      intro w' later
      split
      · exact copies w' later
      · exact copies w' later
   · exact goes copies
 cases next : w.next with
 | some w' =>
  apply goes
  intro w'' later
  have ne : w'' ≠ w := by
   rintro rfl
   have := next_index next
   omega
  simp only [Found.store,update_of_ne ne]
  exact copies w'' (by have := next_index next; omega)
 | none =>
  cases again with
  | true => exact watch_resting trivial
  | false =>
   simp only [Bool.false_eq_true,if_false]
   split
   · trivial
   · exact wait_watching a
lemma check_poll_watching (a : Poll) (again : Bool) (n ready : Nat) :
 (check_poll k files a m again n ready).Watching k files := by
 unfold check_poll
 split
 · exact watch_resting trivial
 cases again with
 | true => exact watch_resting trivial
 | false =>
  simp only [Bool.false_eq_true,if_false]
  split
  · trivial
  split
  · trivial
  · exact watch_resting trivial

variable {count n : Nat}
lemma added_watching
 (watch : Watch k files (.select a) m (.add_fds_to_iomux w n count))
 (finished : ∀ n' : Nat, (n' : Int) < a.nfds.toInt -> a.copy w n' -> n' < n) : (a.added m w count).Watching k files := by
 have entries : ∀ {w' n' d mask}, (Call.select a).entry (.fd w' n') = some (d,mask) -> w'.index ≤ w.index ->
   (Pc.add_fds_to_iomux w n count).Added (.fd w' n') := by
  intro w' n' d mask entry pre
  obtain ⟨⟨mem,isset⟩,_⟩ := ite_none_right_eq_some.mp entry
  rcases Nat.lt_or_eq_of_le pre with earlier | eq
  · exact .inl earlier
  obtain rfl := index_inj eq
  exact .inr ⟨rfl,finished n' mem isset⟩
 unfold Select.added
 split
 · exact watch_check (.select a) true
 rename_i found
 have kept : k.Excused m (.add_fds_to_iomux w n count) -> 0 < k.counter m := fun exc => exc.resolve_right found
 cases next : w.next with
 | some w' =>
  refine watch.goes ?_ (fun exc => .inl (kept exc)) trivial trivial
  intro e d mask entry added
  cases e with
  | fd w'' n'' =>
   have := next_index next
   rcases added with earlier | ⟨_,never⟩
   · exact entries entry (by omega)
   · omega
  | pollfd n'' => exact added.elim
 | none =>
  refine watch.goes ?_ kept trivial trivial
  intro e d mask entry _
  cases e with
  | fd w'' n'' => exact entries entry (last_index next w'')
  | pollfd n'' => cases entry
lemma toInt_le_toNat {x : BitVec 32} (lt : (n : Int) < x.toInt) : n < x.toNat := by
 have : x.toInt ≤ x.toNat := by
  rw [BitVec.toInt_eq_toNat_cond]
  split <;> omega
 omega
lemma queue_result (ok : Sound k lists) {events : Events} {rc : Int} (some_event : events ≠ 0)
 (mem : (k.iob o).iomux = some m -> o ∈ lists m) (queued : queue_ioobject k m o events = some (rc,k'))
 (took : ¬ rc < 0) :
 ((k.iob o).iomux = none ∨ (k.iob o).iomux = some m) ∧
  rc = (if k.ready o (k.merged m o events) then 1 else 0) ∧ k'.counter = k.counter ∧
  k'.iob = update k.iob o {k.iob o with iomux := some m, events_monitored := k.merged m o events} := by
 rcases queue_spec ok some_event mem with ⟨_,refused⟩ | ⟨open_,k1,done,_,counter,iob⟩
 · cases refused.symm.trans queued
   exact absurd (by decide) took
 cases done.symm.trans queued
 exact ⟨open_,rfl,counter,iob⟩
lemma add_fds_watching (ok : Sound k lists)
 (watch : Watch k files (.select a) m (.add_fds_to_iomux w n count))
 (link : Linked k lists files (.select a) m (.add_fds_to_iomux w n count))
 (ran : add_fds_to_iomux k files a m w n count = some (k',st)) : st.Watching k' files := by
 unfold add_fds_to_iomux at ran
 cases set : a.set w with
 | none =>
  simp only [set] at ran
  cases ran
  exact added_watching watch (by simp [Select.copy,set])
 | some fds =>
  simp only [set] at ran
  have copy : a.copy w = fds := by simp [Select.copy,set]
  split at ran
  · rename_i mem
    split at ran
    · rename_i isset
      cases file : files n with
      | none =>
       simp only [file] at ran
       cases ran
       exact watch_resting trivial
      | some o =>
       simp only [file] at ran
       obtain ⟨⟨rc,k1⟩,queued,eq⟩ := map_eq_some_iff.mp ran
       cases eq
       split
       · exact watch_resting trivial
       rename_i took
       have asked : a.copy w n := by rw [copy]; exact isset
       have request := select_request count mem asked
       obtain ⟨_,value,counter,iob⟩ :=
        queue_result ok (eventmask_ne w) (link n w.eventmask o request file) queued took
       refine watch_queue watch file iob counter ?_ ?_ trivial trivial ?_
       · intro ready
         rw [ready] at value
         exact .inr (by simp [value])
       · intro exc
         have more : 0 ≤ rc := by omega
         rcases exc with freed | found
         · exact .inl (by rwa [counter])
         · exact .inr (by omega)
       intro e d mask entry added
       cases e with
       | pollfd n' => exact added.elim
       | fd w' n' =>
        rcases added with earlier | ⟨rfl,lt⟩
        · exact .inl (.inl earlier)
        rcases Nat.lt_succ_iff_lt_or_eq.mp lt with lt | rfl
        · exact .inl (.inr ⟨rfl,lt⟩)
        obtain ⟨_,eq⟩ := ite_none_right_eq_some.mp entry
        cases eq
        exact .inr ⟨rfl,rfl⟩
    rename_i isset
    cases ran
    refine watch.goes ?_ (fun exc => exc) trivial trivial
    intro e d mask entry added
    cases e with
    | pollfd n' => exact added.elim
    | fd w' n' =>
     rcases added with earlier | ⟨rfl,lt⟩
     · exact .inl earlier
     rcases Nat.lt_succ_iff_lt_or_eq.mp lt with lt | rfl
     · exact .inr ⟨rfl,lt⟩
     obtain ⟨⟨_,asked⟩,_⟩ := ite_none_right_eq_some.mp entry
     rw [copy] at asked
     exact absurd asked isset
  rename_i out
  cases ran
  refine added_watching watch ?_
  intro n' mem _
  have := toInt_le_toNat mem
  omega
lemma add_fd_watching {a : Poll} (ok : Sound k lists)
 (watch : Watch k files (.poll a) m (.add_fd_to_iomux n))
 (link : Linked k lists files (.poll a) m (.add_fd_to_iomux n))
 (unready : ∀ d events o, (Call.poll a).request (.add_fd_to_iomux n) = some (d,events) -> files d = some o ->
  (k.iob o).iomux = none ∨ (k.iob o).iomux = some m -> k.ready o (k.merged m o events) = false)
 (ran : add_fd_to_iomux k files a m n = some (k',st)) : st.Watching k' files := by
 have skip : ∀ {pc'}, (pc' = .add_fd_to_iomux (n + 1) ∧ (n < a.nfds -> (a.fds n).fd < 0)) ∨ (pc' = .lock ∧ a.nfds ≤ n) ->
   Watch k files (.poll a) m pc' := by
  rintro pc' (⟨rfl,negative⟩ | ⟨rfl,out⟩)
  · refine watch.goes ?_ (fun exc => exc) trivial trivial
    intro e d mask entry added
    cases e with
    | fd w n' => cases entry
    | pollfd n' =>
     obtain ⟨⟨mem,pos⟩,_⟩ := ite_none_right_eq_some.mp entry
     rcases Nat.lt_succ_iff_lt_or_eq.mp added with lt | rfl
     · exact lt
     have := negative mem
     omega
  refine watch.goes ?_ (fun exc => exc) trivial trivial
  intro e d mask entry _
  cases e with
  | fd w n' => cases entry
  | pollfd n' =>
   obtain ⟨⟨mem,_⟩,_⟩ := ite_none_right_eq_some.mp entry
   exact lt_of_lt_of_le mem out
 unfold add_fd_to_iomux at ran
 split at ran
 · rename_i mem
   split at ran
   · rename_i pos
     cases file : files (a.fds n).fd.toNat with
     | none =>
      simp only [file] at ran
      cases ran
      exact watch_resting trivial
     | some o =>
      simp only [file] at ran
      obtain ⟨⟨rc,k1⟩,queued,eq⟩ := map_eq_some_iff.mp ran
      cases eq
      split
      · exact watch_resting trivial
      rename_i took
      have request := poll_request mem pos
      obtain ⟨open_,_,counter,iob⟩ :=
       queue_result ok (poll_mask_ne _) (link _ _ o request file) queued took
      refine watch_queue watch file iob counter ?_ ?_ trivial trivial ?_
      · intro ready
        rw [unready _ _ o request file open_] at ready
        cases ready
      · intro exc
        exact Excused.mono (show k.Excused m (.add_fd_to_iomux (n + 1)) from exc) (by rw [counter])
      intro e d mask entry added
      cases e with
      | fd w n' => exact added.elim
      | pollfd n' =>
       rcases Nat.lt_succ_iff_lt_or_eq.mp added with lt | rfl
       · exact .inl lt
       obtain ⟨_,eq⟩ := ite_none_right_eq_some.mp entry
       cases eq
       exact .inr ⟨rfl,rfl⟩
   rename_i negative
   cases ran
   exact skip (.inl ⟨rfl,fun _ => by omega⟩)
 rename_i out
 cases ran
 exact skip (.inr ⟨rfl,by omega⟩)
lemma lock_watching (watch : Watch k files c m .lock) : (lock k c m).2.Watching (lock k c m).1 files := by
 have asleep : ∀ {n : Int}, k.counter m ≤ 0 -> Watch (k.set_counter m n) files c m .sleep := by
  intro n spent
  refine ⟨?_,False.elim,by simp⟩
  intro e d mask entry _
  obtain ⟨o,file,watched⟩ := watch.watched entry trivial
  refine ⟨o,file,watched.attached,watched.monitored,.inl ?_⟩
  exact watched.edge.resolve_right fun (freed : 0 < k.counter m) => by omega
 unfold lock
 split
 · split
   · rename_i spent
     have eq : k.set_counter m (k.counter m) = k := by simp [Kernel.set_counter]
     have sleeps := asleep (n := k.counter m) spent
     rwa [eq] at sleeps
   · exact watch_check c true
 split
 · exact watch_check c true
 · exact asleep (by omega)
lemma advance_watching (ok : Sound k lists) (watch : Watch k files c m pc)
 (link : Linked k lists files c m pc)
 (unready : ∀ a, c = .poll a -> ∀ d events o, c.request pc = some (d,events) -> files d = some o ->
  (k.iob o).iomux = none ∨ (k.iob o).iomux = some m -> k.ready o (k.merged m o events) = false)
 (ran : advance k files m c pc = some (k',st)) : st.Watching k' files := by
 unfold advance at ran
 split at ran
 · cases ran
   exact check_fds_watching watch
 · cases ran
   exact check_poll_watching ..
 · cases ran
   refine ⟨?_,fun _ => by simp [init_iomux,Kernel.set_links,Kernel.set_counter],by cases c <;> simp [Call.add]⟩
   intro e d mask entry added
   cases c <;> cases e <;> simp [Call.add,Pc.Added,Which.index] at added
 · exact add_fds_watching ok watch link ran
 · exact add_fd_watching ok watch link (unready _ rfl) ran
 · have moved := lock_watching watch
   rwa [some.inj ran] at moved
 · cases ran
   exact watch_resting trivial
 · obtain ⟨k1,closed,eq⟩ := map_eq_some_iff.mp ran
   cases eq
   trivial
 · cases ran

/-! ### Whole runs -/
variable {s s' : State Thread Obj} {t : Thread}
def State.Watching (s : State Thread Obj) (t : Thread) : Prop := (s.status t).Watching s.kernel (s.files t)

variable {u : Thread}
lemma Fair.linked (fair : Fair s lists) (unlinks : Unlinks s (.advance u))
 (runs : s.status u = .running c r pc) : Linked s.kernel lists (s.files u) c r pc := by
 intro d events o request file held
 have queues : s.queues u = some (r,o,events) := by simp [State.queues,runs,request,file]
 exact fair.sound.member (unlinks r o events queues held) r held
lemma State.Watching.frame (sees : s.Watching t) (status : s'.status t = s.status t) (files : s'.files t = s.files t)
 (kept : ∀ c m pc, s.status t = .running c m pc -> Watch s.kernel (s.files t) c m pc ->
  Watch s'.kernel (s.files t) c m pc) : s'.Watching t := by
 unfold State.Watching at sees ⊢
 rw [status,files]
 cases running : s.status t with
 | running c m pc =>
  rw [running] at sees
  exact kept c m pc running sees
 | idle => trivial
 | returned out => trivial
lemma State.Watching.set_status (sees : s.Watching t) (own : u = t -> st.Watching s.kernel (s.files t)) :
 (s.set_status u st).Watching t := by
 by_cases here : u = t
 · subst here
   simpa [State.Watching,State.set_status] using own rfl
 · simpa [State.Watching,State.set_status,Ne.symm here] using sees
lemma enter_watching (m : Mux Thread) (nfds : Nat) (fds : Option (Nat -> Pollfd)) (timeout : Nat) :
 (poll_enter m nfds fds timeout).Watching k files := by
 unfold poll_enter
 split
 · split
   · trivial
   · exact watch_resting trivial
 cases fds with
 | none => trivial
 | some fds => exact watch_resting trivial
lemma advance_step_watching (fair : Fair s lists) (sees : s.Watching t)
 (heard : Heard t s (.advance u)) (runs : s.status u = .running c r pc)
 (adv : advance s.kernel (s.files u) r c pc = some (k',st)) :
 ((s.set_kernel k').set_status u st).Watching t := by
 have link := fair.linked heard.1 runs
 by_cases here : u = t
 · subst here
   unfold State.Watching at sees
   rw [runs] at sees
   have after := advance_watching fair.sound sees link ?_ adv
   · simpa [State.Watching,State.set_status,State.set_kernel] using after
   rintro a rfl d events o request file open_
   exact heard.2 rfl a r pc runs r o events (by simp [State.queues,runs,request,file]) open_
 refine sees.frame (by simp [State.set_status,State.set_kernel,Ne.symm here]) rfl ?_
 intro c' m pc' running' watch
 have ne := fair.mux_ne runs running' here
 obtain ⟨eq,more⟩ := moves_frame fair.sound ne link (advance_moves adv)
 exact watch.frame eq more
lemma wake_watching (k : Kernel Thread Obj) (c : Call) (m : Mux Thread) (value : Int) :
 (wake k c m value).2.Watching (wake k c m value).1 files := by
 unfold wake
 split
 · exact watch_check c true
 split
 · exact watch_resting trivial
 · exact watch_check c true
lemma wake_counter (ne : r ≠ m) (k : Kernel Thread Obj) (c : Call) (value : Int) :
 (wake k c r value).1.counter m = k.counter m := by
 unfold wake
 split
 · simp [Kernel.set_counter,ne.symm]
 split
 · simp [Kernel.set_counter,ne.symm]
 · rfl
lemma step_watching {a : Action Thread Obj} (fair : Fair s lists) (sees : s.Watching t)
 (same : Undisturbed t s a) (heard : Heard t s a) (ran : step s a = some s') : s'.Watching t := by
 cases a with
 | vfs_select u a addr =>
  obtain ⟨outside,eq⟩ := ite_none_left_eq_some.mp ran
  cases eq
  exact sees.set_status fun _ => watch_check (.select a) false
 | poll u nfds fds timeout addr =>
  obtain ⟨outside,eq⟩ := ite_none_left_eq_some.mp ran
  cases eq
  exact sees.set_status fun _ => enter_watching ..
 | advance u =>
  cases running : s.status u with
  | running c r pc =>
   simp only [step,running] at ran
   obtain ⟨⟨k',st⟩,adv,eq⟩ := map_eq_some_iff.mp ran
   cases eq
   exact advance_step_watching fair sees heard running adv
  | idle => simp [step,running] at ran
  | returned out => simp [step,running] at ran
 | no_semaphore u =>
  simp only [step] at ran
  split at ran
  · cases ran
    exact sees.set_status fun _ => trivial
  · cases ran
 | resume u value =>
  simp only [step] at ran
  split at ran
  · rename_i c r running
    cases ran
    by_cases here : u = t
    · subst here
      simpa [State.Watching,State.set_status,State.set_kernel] using wake_watching s.kernel c r value
    refine sees.frame (by simp [State.set_status,State.set_kernel,Ne.symm here]) rfl ?_
    intro c' m pc' running' watch
    have ne := fair.mux_ne running running' here
    obtain ⟨_,iob,_⟩ := wake_spec s.kernel c r value
    refine watch.frame ?_ ?_
    · intro o _
      exact congrFun iob o
    · exact le_of_eq (wake_counter ne s.kernel c value).symm
  · cases ran
    exact sees.set_status fun _ => trivial
  · cases ran
 | set_io_event o events =>
  cases ran
  refine sees.frame rfl rfl ?_
  intro c m pc running watch
  refine watch.set_io_event ?_
  rintro rfl held
  exact heard c m running held
 | clear_io_event o events =>
  cases ran
  exact sees.frame rfl rfl fun c m pc _ watch => watch.clear_io_event o events
 | detach_ioobject o =>
  obtain ⟨k',detached,eq⟩ := map_eq_some_iff.mp ran
  cases eq
  obtain ⟨k1,done,_,counter,iob⟩ := detach_spec fair.sound (fair.sound.member heard)
  cases done.symm.trans detached
  refine sees.frame rfl rfl ?_
  intro c m pc running watch
  refine watch.frame ?_ (le_of_eq (by rw [State.set_kernel,counter]))
  intro x held
  have ne : x ≠ o := by
   rintro rfl
   exact same m held (fair.own running)
  simp [State.set_kernel,iob,ne]
 | change_files u files =>
  cases ran
  by_cases here : u = t
  · subst here
    have outside := same rfl
    unfold State.Watching
    cases status : s.status u with
    | running c m pc => simp [status,Status.isRunning] at outside
    | idle => simp [Status.Watching]
    | returned out => simp [Status.Watching]
  refine sees.frame rfl ?_ fun _ _ _ _ watch => watch
  simp [Ne.symm here]

/-! ### The descriptor is reported -/
def Noted : Call -> Pc -> Entry -> Prop
 | .select _, .check_fds _ w i found, .fd w' n =>
  (w'.index < w.index -> found.fds w' n = true ∧ 0 < found.num) ∧
   (w' = w -> n < i -> found.lset n = true ∧ 0 < found.num)
 | .poll a, .check_poll _ i ready, .pollfd n => n < i -> (a.fds n).revents ≠ 0 ∧ 0 < ready
 | .select _, .add_fds_to_iomux _ _ _, _ | .poll _, .add_fd_to_iomux _, _ => True
 | _, .init_iomux, _ | _, .lock, _ => True
 | _, .close_iomux out, e => out.Reports e
 | _, _, _ => False
def Promised (e : Entry) (d : Nat) (mask : Events) : Status Thread -> Prop
 | .running c _ pc => c.tmo = INFINITE ∧ c.entry e = some (d,mask) ∧ Noted c pc e
 | .returned out => out.Reports e
 | .idle => False

variable {e : Entry} {d : Nat}
lemma noted_check (entry : c.entry e = some (d,mask)) (again : Bool) : Noted c (c.check again) e := by
 cases c with
 | select a =>
  cases e with
  | fd w n => exact ⟨fun pre => absurd pre (Nat.not_lt_zero _),fun _ pre => absurd pre (Nat.not_lt_zero _)⟩
  | pollfd n => cases entry
 | poll a =>
  cases e with
  | fd w n => cases entry
  | pollfd n => exact fun pre => absurd pre (Nat.not_lt_zero _)
lemma rank_check (c : Call) : c.rank (c.check true) = c.checkRank := by
 cases c <;> simp [Call.check,Select.check,Call.rank,Call.checkRank,Which.index]
lemma noted_add (c : Call) (e : Entry) : Noted c c.add e := by
 cases c <;> exact trivial
lemma rank_add (c : Call) : c.rank c.add < c.rank .init_iomux := by
 cases c <;> simp [Call.add,Call.rank,Call.initRank,Which.index]
lemma rank_lock (c : Call) : c.rank (c.check true) < c.rank .lock := by
 rw [rank_check]
 cases c <;> simp [Call.rank]
lemma poll_revents_ne {asked sig : Events} (ready : poll_mask asked &&& sig ≠ 0) :
 poll_revents (poll_mask asked &&& sig) ≠ 0 := by
 have known : poll_mask asked &&& 0x3f = poll_mask asked := by
  unfold poll_mask
  split <;> split <;> decide
 generalize found : poll_mask asked &&& sig = x at ready ⊢
 have lt : x &&& 0x3f = x := by
  rw [<- found,BitVec.and_assoc,BitVec.and_comm sig,<- BitVec.and_assoc,known]
 -- If no bit is set then no event of any of the four groups is in the mask.
 intro none
 have bit : ∀ {g b : Events}, (if x &&& g ≠ 0 then b else 0) = 0 -> b ≠ 0 -> x &&& g = 0 := by
  intro g b zero ne0
  by_contra ne
  rw [if_pos ne] at zero
  exact ne0 zero
 obtain ⟨rest,close⟩ := BitVec.or_eq_zero_iff.mp none
 obtain ⟨rest,error⟩ := BitVec.or_eq_zero_iff.mp rest
 obtain ⟨read,write⟩ := BitVec.or_eq_zero_iff.mp rest
 apply ready
 have groups : (0x3f : Events) =
   (IOEVT_READ ||| IOEVT_ACCEPT) ||| (IOEVT_WRITE ||| IOEVT_CONNECT) ||| IOEVT_ERROR ||| IOEVT_CLOSE := by decide
 rw [<- lt,groups,BitVec.and_or_distrib_left,BitVec.and_or_distrib_left,BitVec.and_or_distrib_left,
  bit read (by decide),bit write (by decide),bit error (by decide),bit close (by decide)]
 rfl
def Progress (e : Entry) (d : Nat) (mask : Events) (c : Call) (pc : Pc) (st : Status Thread) : Prop :=
 Promised e d mask st ∧ st.rank < c.rank pc
lemma reports_stored
 (entry : (Call.select a).entry (.fd w' n) = some (d,mask)) (noted : Noted (.select a) (.check_fds again w i found) (.fd w' n))
 (out : ¬ (i : Int) < a.nfds.toInt) (last : w'.index ≤ w.index) :
 (found.store w).fds w' n = true ∧ 0 < found.num := by
 obtain ⟨⟨mem,_⟩,_⟩ := ite_none_right_eq_some.mp entry
 rcases Nat.lt_or_eq_of_le last with earlier | eq
 · have ne : w' ≠ w := by
    rintro rfl
    omega
   simpa [Found.store,ne] using noted.1 earlier
 obtain rfl := index_inj eq
 simpa [Found.store] using noted.2 rfl (by omega)
lemma check_fds_progress
 (inf : (Call.select a).tmo = INFINITE) (entry : (Call.select a).entry (.fd w' n) = some (d,mask))
 (noted : Noted (.select a) (.check_fds again w i found) (.fd w' n))
 (copies : ∀ w', w.index ≤ w'.index -> found.fds w' = a.copy w')
 (ok : ∀ e d mask, (Call.select a).entry e = some (d,mask) -> files d ≠ none) (file : files d = some o)
 (ready : mask &&& (k.iob o).events_signaled ≠ 0) :
 Progress (.fd w' n) d mask (.select a) (.check_fds again w i found) (check_fds k files a m again w i found) := by
 unfold check_fds
 split
 · rename_i mem
   have less : (Call.select a).rank (.check_fds again w (i + 1) found) < (Call.select a).rank (.check_fds again w i found) := by
    simp only [Call.rank,Select.checks]
    omega
   split
   · rename_i isset
     cases file' : files i with
     | none =>
      refine absurd file' (ok (.fd w i) i w.eventmask ?_)
      rw [copies w (le_refl _)] at isset
      simp [Call.entry,mem,isset]
     | some x =>
      refine ⟨⟨inf,entry,?_⟩,less⟩
      refine ⟨?_,?_⟩
      · intro earlier
        obtain ⟨kept,counted⟩ := noted.1 earlier
        split
        · exact ⟨kept,Nat.succ_pos _⟩
        · exact ⟨kept,counted⟩
      intro eq pre
      rcases Nat.lt_succ_iff_lt_or_eq.mp pre with pre | rfl
      · obtain ⟨kept,counted⟩ := noted.2 eq pre
        split
        · exact ⟨by simp [Found.hit,kept,Nat.ne_of_lt pre],Nat.succ_pos _⟩
        · exact ⟨kept,counted⟩
      -- The check has come to the desc itself.
      subst eq
      obtain ⟨_,here⟩ := ite_none_right_eq_some.mp entry
      cases here
      cases file'.symm.trans file
      rw [if_pos (by rwa [BitVec.and_comm])]
      exact ⟨by simp [Found.hit],Nat.succ_pos _⟩
   rename_i unset
   refine ⟨⟨inf,entry,noted.1,?_⟩,less⟩
   intro eq pre
   rcases Nat.lt_succ_iff_lt_or_eq.mp pre with pre | rfl
   · exact noted.2 eq pre
   subst eq
   obtain ⟨⟨_,asked⟩,_⟩ := ite_none_right_eq_some.mp entry
   rw [copies w' (le_refl _)] at unset
   exact absurd asked unset
 rename_i out
 cases next : w.next with
 | some v =>
  have idx := next_index next
  refine ⟨⟨inf,entry,?_,fun _ pre => absurd pre (Nat.not_lt_zero _)⟩,?_⟩
  · intro earlier
    exact reports_stored entry noted out (by omega)
  simp only [Status.rank,Call.rank]
  cases w <;> cases next <;> simp [Which.index]
  · omega
  · omega
 | none =>
  obtain ⟨stored,counted⟩ := reports_stored entry noted out (last_index next w')
  have reports : (Outcome.select (found.store w).num (a.put (found.store w).fds)).Reports (.fd w' n) := by
   obtain ⟨⟨_,asked⟩,_⟩ := ite_none_right_eq_some.mp entry
   cases set : a.set w' with
   | none => simp [Select.copy,set] at asked
   | some fds => exact ⟨by exact_mod_cast counted,(found.store w).fds w',by simp [Select.put,set],stored⟩
  cases again with
  | true =>
   refine ⟨⟨inf,entry,reports⟩,?_⟩
   simp [Status.rank,Call.rank]
  | false =>
   simp only [Bool.false_eq_true,if_false]
   rw [if_pos (show 0 < (found.store w).num from counted)]
   refine ⟨reports,?_⟩
   simp [Status.rank,Call.rank]
lemma check_poll_progress {a : Poll} {ready : Nat}
 (inf : (Call.poll a).tmo = INFINITE) (entry : (Call.poll a).entry (.pollfd n) = some (d,mask))
 (noted : Noted (.poll a) (.check_poll again i ready) (.pollfd n)) (file : files d = some o)
 (sig : mask &&& (k.iob o).events_signaled ≠ 0) :
 Progress (.pollfd n) d mask (.poll a) (.check_poll again i ready) (check_poll k files a m again i ready) := by
 obtain ⟨⟨in',pos⟩,here⟩ := ite_none_right_eq_some.mp entry
 unfold check_poll
 split
 · rename_i mem
   refine ⟨⟨inf,?_,?_⟩,?_⟩
   · simp only [Call.entry]
     by_cases eq : n = i
     · subst eq
       simpa [Call.entry] using entry
     · simpa [Call.entry,eq] using entry
   · intro pre
     rcases Nat.lt_succ_iff_lt_or_eq.mp pre with pre | rfl
     · obtain ⟨kept,counted⟩ := noted pre
       refine ⟨by simpa [Nat.ne_of_lt pre] using kept,?_⟩
       split
       · exact Nat.succ_pos _
       · exact counted
     -- The check has come to the desc itself.
     cases here
     have found : check_revents k files (a.fds n) ≠ 0 := by
      simp only [check_revents,pos,if_true,file]
      exact poll_revents_ne sig
     rw [if_pos found]
     exact ⟨by simpa using found,Nat.succ_pos _⟩
   simp only [Status.rank,Call.rank,Call.initRank,Call.checkRank]
   omega
 rename_i out
 obtain ⟨revents,counted⟩ := noted (by omega)
 have reports : (Outcome.poll ready (some a.fds)).Reports (.pollfd n) :=
  ⟨by exact_mod_cast counted,a.fds,rfl,revents⟩
 cases again with
 | true =>
  refine ⟨⟨inf,entry,reports⟩,?_⟩
  simp [Status.rank,Call.rank]
 | false =>
  simp only [Bool.false_eq_true,if_false]
  rw [if_pos counted]
  refine ⟨reports,?_⟩
  simp [Status.rank,Call.rank]
lemma queue_accepts (ok : Sound k lists) {events : Events} (some_event : events ≠ 0)
 (mem : (k.iob o).iomux = some m -> o ∈ lists m) (free : ∀ r, (k.iob o).iomux = some r -> r = m) :
 ∃ rc k', queue_ioobject k m o events = some (rc,k') ∧ ¬ rc < 0 := by
 rcases queue_spec ok some_event mem with ⟨⟨r,ne,held⟩,_⟩ | ⟨_,k',done,_⟩
 · exact absurd (free r held) ne
 refine ⟨_,k',done,?_⟩
 split <;> decide
lemma added_progress (inf : (Call.select a).tmo = INFINITE)
 (entry : (Call.select a).entry e = some (d,mask)) :
 Progress e d mask (.select a) (.add_fds_to_iomux w n count) (a.added m w count) := by
 unfold Select.added
 split
 · refine ⟨⟨inf,entry,noted_check entry true⟩,?_⟩
   have := rank_check (.select a)
   simp only [Status.rank,Call.rank,Call.check] at this ⊢
   omega
 cases next : w.next with
 | some w' =>
  refine ⟨⟨inf,entry,trivial⟩,?_⟩
  simp only [Status.rank,Call.rank]
  cases w <;> cases next <;> simp [Which.index]
  · omega
  · omega
 | none =>
  refine ⟨⟨inf,entry,trivial⟩,?_⟩
  simp only [Status.rank,Call.rank]
  omega
lemma add_fds_progress {n' : Nat} (sound : Sound k lists)
 (link : Linked k lists files (.select a) m (.add_fds_to_iomux w n count))
 (inf : (Call.select a).tmo = INFINITE) (entry : (Call.select a).entry (.fd w' n') = some (d,mask))
 (ok : ∀ e d mask, (Call.select a).entry e = some (d,mask) ->
  ∃ o, files d = some o ∧ ∀ r, (k.iob o).iomux = some r -> r = m) :
 ∃ k' st, add_fds_to_iomux k files a m w n count = some (k',st) ∧
  Progress (.fd w' n') d mask (.select a) (.add_fds_to_iomux w n count) st := by
 have next : n < a.nfds.toNat -> ∀ count', Progress (.fd w' n') d mask (.select a) (.add_fds_to_iomux w n count)
   (.running (.select a) m (.add_fds_to_iomux w (n + 1) count')) := by
  intro mem count'
  refine ⟨⟨inf,entry,trivial⟩,?_⟩
  simp only [Status.rank,Call.rank]
  omega
 unfold add_fds_to_iomux
 cases set : a.set w with
 | none => exact ⟨k,_,rfl,added_progress inf entry⟩
 | some fds =>
  simp only []
  split
  · rename_i mem
    split
    · rename_i isset
      have asked : a.copy w n := by simpa [Select.copy,set] using isset
      -- The number of descriptors is not negative, since one of them is asked for.
      have lt : (n : Int) < a.nfds.toInt := by
       obtain ⟨⟨pos,_⟩,_⟩ := ite_none_right_eq_some.mp entry
       rw [BitVec.toInt_eq_toNat_cond] at pos ⊢
       split at pos <;> omega
      obtain ⟨x,file,free⟩ := ok (.fd w n) n w.eventmask (by simp [Call.entry,lt,asked])
      have request := select_request count mem asked
      obtain ⟨rc,k',queued,took⟩ := queue_accepts sound (eventmask_ne w) (link _ _ x request file) free
      simp only [file,queued,map_some,took,if_false]
      exact ⟨k',_,rfl,next mem _⟩
    · exact ⟨k,_,rfl,next mem count⟩
  · exact ⟨k,_,rfl,added_progress inf entry⟩
lemma add_fd_progress {a : Poll} {n' : Nat} (sound : Sound k lists)
 (link : Linked k lists files (.poll a) m (.add_fd_to_iomux n))
 (inf : (Call.poll a).tmo = INFINITE) (entry : (Call.poll a).entry (.pollfd n') = some (d,mask))
 (ok : ∀ e d mask, (Call.poll a).entry e = some (d,mask) ->
  ∃ o, files d = some o ∧ ∀ r, (k.iob o).iomux = some r -> r = m) :
 ∃ k' st, add_fd_to_iomux k files a m n = some (k',st) ∧
  Progress (.pollfd n') d mask (.poll a) (.add_fd_to_iomux n) st := by
 have next : n < a.nfds -> Progress (.pollfd n') d mask (.poll a) (.add_fd_to_iomux n)
   (.running (.poll a) m (.add_fd_to_iomux (n + 1))) := by
  intro mem
  refine ⟨⟨inf,entry,trivial⟩,?_⟩
  simp only [Status.rank,Call.rank]
  omega
 unfold add_fd_to_iomux
 split
 · rename_i mem
   split
   · rename_i pos
     obtain ⟨x,file,free⟩ := ok (.pollfd n) (a.fds n).fd.toNat (poll_mask (a.fds n).events)
      (by simp [Call.entry,mem,pos])
     have request := poll_request mem pos
     obtain ⟨rc,k',queued,took⟩ := queue_accepts sound (poll_mask_ne (a.fds n).events) (link _ _ x request file) free
     simp only [file,queued,map_some,took,if_false]
     exact ⟨k',_,rfl,next mem⟩
   · exact ⟨k,_,rfl,next mem⟩
 refine ⟨k,_,rfl,⟨inf,entry,trivial⟩,?_⟩
 simp only [Status.rank,Call.rank]
 omega
lemma lock_progress (watch : Watch k files c m .lock) (inf : c.tmo = INFINITE)
 (entry : c.entry e = some (d,mask)) (file : files d = some o)
 (ready : mask &&& (k.iob o).events_signaled ≠ 0) : Progress e d mask c .lock (lock k c m).2 := by
 obtain ⟨x,file',watched⟩ := watch.watched entry trivial
 cases file'.symm.trans file
 have freed : 0 < k.counter m := watched.ready ready
 rw [lock,if_pos inf,if_neg (by omega)]
 exact ⟨⟨inf,entry,noted_check entry true⟩,rank_lock c⟩
lemma advance_progress (sound : Sound k lists) (watch : Watch k files c m pc)
 (link : Linked k lists files c m pc)
 (ok : ∀ e d mask, c.entry e = some (d,mask) -> ∃ o, files d = some o ∧ ∀ r, (k.iob o).iomux = some r -> r = m)
 (promised : Promised e d mask (.running c m pc)) (file : files d = some o)
 (ready : mask &&& (k.iob o).events_signaled ≠ 0) :
 ∃ k' st, advance k files m c pc = some (k',st) ∧ Progress e d mask c pc st := by
 obtain ⟨inf,entry,noted⟩ := promised
 have exists_ : ∀ e d mask, c.entry e = some (d,mask) -> files d ≠ none := by
  intro e d mask entry missing
  obtain ⟨o,file,_⟩ := ok e d mask entry
  rw [missing] at file
  cases file
 cases pc with
 | init_iomux =>
  exact ⟨init_iomux k m,.running c m c.add,by cases c <;> rfl,⟨inf,entry,noted_add c e⟩,rank_add c⟩
 | lock =>
  refine ⟨(lock k c m).1,(lock k c m).2,by cases c <;> rfl,?_⟩
  exact lock_progress watch inf entry file ready
 | close_iomux out =>
  obtain ⟨k',closed,_⟩ := close_spec sound m
  refine ⟨k',.returned out,by cases c <;> simp [advance,closed],?_,by cases c <;> simp [Status.rank,Call.rank]⟩
  cases c <;> exact noted
 | check_fds again w i found =>
  cases c with
  | poll a => exact noted.elim
  | select a =>
   cases e with
   | pollfd n => exact noted.elim
   | fd w' n =>
    exact ⟨k,_,rfl,check_fds_progress inf entry noted (watch.copies rfl rfl) exists_ file ready⟩
 | check_poll again n found =>
  cases c with
  | select a => exact noted.elim
  | poll a =>
   cases e with
   | fd w n' => exact noted.elim
   | pollfd n' => exact ⟨k,_,rfl,check_poll_progress inf entry noted file ready⟩
 | add_fds_to_iomux w n count =>
  cases c with
  | poll a => exact noted.elim
  | select a =>
   cases e with
   | pollfd n' => cases entry
   | fd w' n' => exact add_fds_progress sound link inf entry ok
 | add_fd_to_iomux n =>
  cases c with
  | select a => exact noted.elim
  | poll a =>
   cases e with
   | fd w' n' => cases entry
   | pollfd n' => exact add_fd_progress sound link inf entry ok
 | sleep => cases c <;> exact noted.elim
 | asleep => cases c <;> exact noted.elim
 | msleep => cases c <;> exact noted.elim
lemma heard_unlinks {a : Action Thread Obj} (heard : Heard t s a) : Unlinks s a := by
 cases a with
 | advance u => exact heard.1
 | set_io_event x events => trivial
 | _ => exact heard
lemma step_own {a : Action Thread Obj} (t : Thread) (ran : step s a = some s') :
 (a.advances t = false ∧ s'.status t = s.status t) ∨ a.begins t = true ∨ a = .no_semaphore t ∨
  (∃ c m pc, s.status t = .running c m pc ∧ (pc = .asleep ∨ pc = .msleep)) ∨
  a = .advance t ∧ ∃ c m pc k' st, s.status t = .running c m pc ∧
   advance s.kernel (s.files t) m c pc = some (k',st) ∧ s' = (s.set_kernel k').set_status t st := by
 have away : ∀ {k u st}, u ≠ t -> ((s.set_kernel k).set_status u st).status t = s.status t := by
  intro k u st ne
  simp [State.set_status,State.set_kernel,ne.symm]
 cases a with
 | vfs_select u a addr =>
  obtain ⟨_,eq⟩ := ite_none_left_eq_some.mp ran
  cases eq
  by_cases here : u = t
  · exact .inr (.inl (by simp [Action.begins,here]))
  · exact .inl ⟨rfl,away here⟩
 | poll u nfds fds timeout addr =>
  obtain ⟨_,eq⟩ := ite_none_left_eq_some.mp ran
  cases eq
  by_cases here : u = t
  · exact .inr (.inl (by simp [Action.begins,here]))
  · exact .inl ⟨rfl,away here⟩
 | advance u =>
  cases running : s.status u with
  | running c r pc =>
   simp only [step,running] at ran
   obtain ⟨⟨k',st⟩,adv,eq⟩ := map_eq_some_iff.mp ran
   cases eq
   by_cases here : u = t
   · subst here
     exact .inr (.inr (.inr (.inr ⟨rfl,c,r,pc,k',st,running,adv,rfl⟩)))
   · exact .inl ⟨by simp [Action.advances,here],away here⟩
  | idle => simp [step,running] at ran
  | returned out => simp [step,running] at ran
 | no_semaphore u =>
  simp only [step] at ran
  split at ran
  · cases ran
    by_cases here : u = t
    · exact .inr (.inr (.inl (by rw [here])))
    · exact .inl ⟨rfl,away here⟩
  · cases ran
 | resume u value =>
  simp only [step] at ran
  split at ran
  · rename_i c r running
    cases ran
    by_cases here : u = t
    · subst here
      exact .inr (.inr (.inr (.inl ⟨c,r,_,running,.inl rfl⟩)))
    · exact .inl ⟨rfl,away here⟩
  · rename_i c r running
    cases ran
    by_cases here : u = t
    · subst here
      exact .inr (.inr (.inr (.inl ⟨c,r,_,running,.inr rfl⟩)))
    · exact .inl ⟨rfl,away here⟩
  · cases ran
 | set_io_event x events =>
  cases ran
  exact .inl ⟨rfl,rfl⟩
 | clear_io_event x events =>
  cases ran
  exact .inl ⟨rfl,rfl⟩
 | detach_ioobject x =>
  obtain ⟨k',_,eq⟩ := map_eq_some_iff.mp ran
  cases eq
  exact .inl ⟨rfl,rfl⟩
 | change_files u files =>
  cases ran
  exact .inl ⟨rfl,rfl⟩
lemma step_files {a : Action Thread Obj} (ran : step s a = some s') :
 s'.files = s.files ∨ ∃ u files, a = .change_files u files ∧ s'.files = update s.files u files := by
 cases a with
 | change_files u files =>
  cases ran
  exact .inr ⟨u,files,rfl,rfl⟩
 | vfs_select u a addr =>
  obtain ⟨_,eq⟩ := ite_none_left_eq_some.mp ran
  cases eq
  exact .inl rfl
 | poll u nfds fds timeout addr =>
  obtain ⟨_,eq⟩ := ite_none_left_eq_some.mp ran
  cases eq
  exact .inl rfl
 | detach_ioobject x =>
  obtain ⟨k',_,eq⟩ := map_eq_some_iff.mp ran
  cases eq
  exact .inl rfl
 | advance u =>
  simp only [step] at ran
  split at ran
  · obtain ⟨r,_,eq⟩ := map_eq_some_iff.mp ran
    cases eq
    exact .inl rfl
  · cases ran
 | no_semaphore u =>
  simp only [step] at ran
  split at ran <;> cases ran
  exact .inl rfl
 | resume u value =>
  simp only [step] at ran
  split at ran <;> cases ran <;> exact .inl rfl
 | set_io_event x events =>
  cases ran
  exact .inl rfl
 | clear_io_event x events =>
  cases ran
  exact .inl rfl
lemma step_promised {a : Action Thread Obj} (fair : Fair s lists) (sees : s.Watching t)
 (same : Undisturbed t s a) (heard : Heard t s a) (ne : a.begins t = false)
 (promised : Promised e d mask (s.status t)) (file : (s.status t).isRunning -> s.files t d = some o)
 (ready : mask &&& (s.kernel.iob o).events_signaled ≠ 0) (ran : step s a = some s') :
 Promised e d mask (s'.status t) ∧ ((s'.status t).isRunning -> s'.files t d = some o) ∧
  (s'.status t).rank + (if a.advances t then 1 else 0) ≤ (s.status t).rank := by
 have files : (s.status t).isRunning -> s'.files t d = some o := by
  intro runs
  rcases step_files ran with eq | ⟨u,files,rfl,changed⟩
  · rw [eq]
    exact file runs
  have unlike : u ≠ t := fun here => by simp [same here] at runs
  rw [changed,update_of_ne unlike.symm]
  exact file runs
 rcases step_own t ran with ⟨idle,eq⟩ | begins | rfl | ⟨c,m,pc,runs,asleep⟩ | ⟨rfl,c,m,pc,k',st,runs,adv,rfl⟩
 · rw [eq,idle]
   exact ⟨promised,files,le_refl _⟩
 · rw [ne] at begins
   cases begins
 · exact absurd rfl same
 · rw [runs] at promised
   rcases asleep with rfl | rfl <;> cases c <;> exact promised.2.2.elim
 have mem : (s.status t).isRunning := by rw [runs]; rfl
 unfold State.Watching at sees
 rw [runs] at sees promised
 obtain ⟨k1,st1,advanced',kept,nearer⟩ := advance_progress fair.sound sees (fair.linked heard.1 runs)
  (same rfl c m pc runs) promised (file mem) ready
 cases advanced'.symm.trans adv
 refine ⟨by simpa [State.set_status] using kept,fun _ => files mem,?_⟩
 rw [runs]
 have nearer : st.rank + 1 ≤ (Status.running c m pc).rank := nearer
 simpa [State.set_status,Action.advances] using nearer
lemma run_promised : ∀ {after : List (Action Thread Obj)} {s : State Thread Obj} {lists : Mux Thread -> List Obj},
 Fair s lists -> s.Watching t -> Meets step (fun s a => Undisturbed t s a ∧ Heard t s a) s after ->
 (∀ a ∈ after, a.begins t = false) -> Promised e d mask (s.status t) ->
 ((s.status t).isRunning -> s.files t d = some o) ->
 Along step (fun s => mask &&& (s.kernel.iob o).events_signaled ≠ 0) (fun _ _ => True) s after ->
 run step s after = some s' ->
 (∃ ls', Fair s' ls') ∧ s'.Watching t ∧ Promised e d mask (s'.status t) ∧
  ((s'.status t).isRunning -> s'.files t d = some o) ∧
  mask &&& (s'.kernel.iob o).events_signaled ≠ 0 ∧
  (s'.status t).rank + after.countP (Action.advances t) ≤ (s.status t).rank := by
 intro after
 induction after with
 | nil =>
  intro s lists fair sees _ _ promised file ready ends
  cases ends
  exact ⟨⟨lists,fair⟩,sees,promised,file,ready,le_refl _⟩
 | cons a rest ih =>
  rintro s lists fair sees meets ne promised file ⟨ready,_,later⟩ ends
  obtain ⟨⟨same,heard⟩,meets⟩ := meets_cons.mp meets
  obtain ⟨middle,ran,ends⟩ := bind_eq_some_iff.mp ends
  obtain ⟨ls',fair',_⟩ := step_leaves fair (heard_unlinks heard) ran
  have watching' := step_watching fair sees same heard ran
  obtain ⟨promised',file',nearer⟩ :=
   step_promised fair sees same heard (ne a (by simp)) promised file ready ran
  obtain ⟨fair'',watching'',promised'',file'',ready'',le⟩ := ih fair' watching' (meets middle ran)
   (fun b mem => ne b (by simp [mem])) promised' file' (later middle ran) ends
  refine ⟨fair'',watching'',promised'',file'',ready'',?_⟩
  rw [List.countP_cons]
  omega
lemma Ahead.promised (ahead : Ahead c pc e) (watch : Watch k files c m pc) (inf : c.tmo = INFINITE)
 (entry : c.entry e = some (d,mask)) (file : files d = some o) (ready : mask &&& (k.iob o).events_signaled ≠ 0) :
 Promised e d mask (.running c m pc) := by
 refine ⟨inf,entry,?_⟩
 cases pc with
 | check_fds again w i found =>
  cases c <;> cases e <;> cases again <;> try exact ahead.elim
  rename_i a w' n
  refine ⟨?_,?_⟩
  · intro earlier
    rcases ahead with later | ⟨rfl,_⟩ <;> omega
  rintro rfl pre
  rcases ahead with later | ⟨_,later⟩ <;> omega
 | check_poll again i found =>
  cases c <;> cases e <;> cases again <;> try exact ahead.elim
  intro pre
  exact absurd pre (Nat.not_lt.mpr ahead)
 | sleep =>
  obtain ⟨x,file',watched⟩ := watch.watched entry trivial
  cases file'.symm.trans file
  exact (watched.ready ready).elim
 | init_iomux => cases c <;> exact trivial
 | lock => cases c <;> exact trivial
 | add_fds_to_iomux w n count => cases c <;> first | exact trivial | exact ahead.elim
 | add_fd_to_iomux n => cases c <;> first | exact trivial | exact ahead.elim
 | close_iomux out => cases c <;> exact ahead.elim
 | asleep => cases c <;> exact ahead.elim
 | msleep => cases c <;> exact ahead.elim
lemma Promised.rank_pos (promised : Promised e d mask (.running c m pc)) : 0 < c.rank pc := by
 have noted := promised.2.2
 cases pc with
 | check_fds again w i found => cases c <;> first | exact noted.elim | simp [Call.rank]
 | check_poll again n found => cases c <;> first | exact noted.elim | simp [Call.rank]
 | sleep => cases c <;> exact noted.elim
 | asleep => cases c <;> exact noted.elim
 | msleep => cases c <;> exact noted.elim
 | _ => cases c <;> first | exact noted.elim | simp [Call.rank,Call.initRank]
variable (start : Thread -> Nat -> Option Obj)
lemma run_watching {pre : List (Action Thread Obj)}
 (meets : Meets step (fun s a => Undisturbed t s a ∧ Heard t s a) (boot start) pre)
 (reached : run step (boot start) pre = some s) : ∃ lists, Fair s lists ∧ s.Watching t := by
 refine run_invariant (I := fun s => ∃ lists, Fair s lists ∧ s.Watching t) ?_ pre (boot start) s
  ⟨_,boot_fair start,trivial⟩ meets reached
 rintro s a s' ⟨lists,fair,sees⟩ ⟨same,heard⟩ ran
 obtain ⟨ls',fair',_⟩ := step_leaves fair (heard_unlinks heard) ran
 exact ⟨ls',fair',step_watching fair sees same heard ran⟩

/-- A call without a timeout, one of whose descriptors has an event signaled before the
  call sleeps, and from then on: the call returns and reports the descriptor, or it
  has not slept, can go on and has made fewer steps than its rank. -/
theorem no_lost_wakeup {pre after : List (Action Thread Obj)}
 (meets : Meets step (fun s a => Undisturbed t s a ∧ Heard t s a) (boot start) (pre ++ after))
 (reached : run step (boot start) pre = some s) (running : s.status t = .running c m pc)
 (infinite : c.tmo = INFINITE) (entry : c.entry e = some (d,mask)) (file : s.files t d = some o)
 (ahead : Ahead c pc e)
 (signaled : Along step (fun s => mask &&& (s.kernel.iob o).events_signaled ≠ 0) (fun _ _ => True) s after)
 (ne : ∀ a ∈ after, a.begins t = false) (ends : run step s after = some s') :
 (∃ out, s'.status t = .returned out ∧ out.Reports e) ∨
  after.countP (Action.advances t) < c.rank pc ∧
   ∃ c' m' pc', s'.status t = .running c' m' pc' ∧ pc' ≠ .asleep ∧
    (Undisturbed t s' (.advance t) -> Heard t s' (.advance t) -> ∃ s'', step s' (.advance t) = some s'') := by
 obtain ⟨lists,fair,watching⟩ := run_watching start (meets_left meets) reached
 have ready : mask &&& (s.kernel.iob o).events_signaled ≠ 0 := by
  cases after with
  | nil => exact signaled
  | cons a rest => exact signaled.1
 have watch : Watch s.kernel (s.files t) c m pc := by
  unfold State.Watching at watching
  rwa [running] at watching
 have promised : Promised e d mask (s.status t) := by
  rw [running]
  exact ahead.promised watch infinite entry file ready
 obtain ⟨⟨lists',fair'⟩,watching',promised',file',ready',bound⟩ :=
  run_promised fair watching (meets_append meets reached) ne promised (fun _ => file) signaled ends
 cases status : s'.status t with
 | idle =>
  rw [status] at promised'
  exact promised'.elim
 | returned out =>
  rw [status] at promised'
  exact .inl ⟨out,rfl,promised'⟩
 | running c' m' pc' =>
  unfold State.Watching at watching'
  rw [status] at promised' file' watching' bound
  rw [running] at bound
  refine .inr ⟨?_,c',m',pc',rfl,?_,?_⟩
  · have pos := promised'.rank_pos
    simp only [Status.rank] at bound
    omega
  · rintro rfl
    cases c' <;> exact promised'.2.2
  intro undisturbed heard
  obtain ⟨k',st,advanced,_⟩ := advance_progress fair'.sound watching' (fair'.linked heard.1 status)
   (undisturbed rfl c' m' pc' status) promised' (file' rfl) ready'
  exact ⟨_,by simp [step,status,advanced]; rfl⟩

end
def pollZero : Nat -> Pollfd := fun _ => {fd := 0, events := POLLIN, revents := 0}
lemma check_undisturbed {s : State (Fin 2) (Fin 1)} {a : Poll} {m : Mux (Fin 2)} {again : Bool} {n found : Nat}
 (runs : s.status 0 = .running (.poll a) m (.check_poll again n found)) (zero : ∀ n, (a.fds n).fd = 0)
 (file : s.files 0 0 = some 0) (free : (s.kernel.iob 0).iomux = none) :
 Undisturbed 0 s (.advance 0) ∧ Heard 0 s (.advance 0) := by
 have none_queued : s.queues 0 = none := by simp [State.queues,runs,Call.request]
 refine ⟨?_,?_,?_⟩
 · intro _ c m' pc running' e d mask entry
   cases runs.symm.trans running'
   cases e with
   | fd w n => cases entry
   | pollfd n =>
    obtain ⟨_,eq⟩ := ite_none_right_eq_some.mp entry
    cases eq
    exact ⟨0,by simpa [zero] using file,by simp [free]⟩
 · intro m' o events queued
   rw [none_queued] at queued
   cases queued
 intro _ a' m' pc' running' m'' o events queued
 rw [none_queued] at queued
 cases queued
theorem no_lost_wakeup_readable :
 ∃ s s', run step oneFile [.set_io_event 0 IOEVT_READ,.poll 0 1 (some pollZero) INFINITE 0] = some s ∧
  run step s [.advance 0,.advance 0] = some s' ∧
  ∃ out, s'.status 0 = .returned out ∧ out.Reports (.pollfd 0) := by
 refine ⟨_,_,rfl,rfl,?_⟩
 have meets : Meets step (fun s a => Undisturbed 0 s a ∧ Heard 0 s a) oneFile
   ([.set_io_event 0 IOEVT_READ,.poll 0 1 (some pollZero) INFINITE 0] ++ [.advance 0,.advance 0]) := by
  refine meets_cons.mpr ⟨⟨trivial,by rintro c m ⟨⟩⟩,?_⟩
  rintro _ ⟨⟩
  refine meets_cons.mpr ⟨⟨trivial,trivial⟩,?_⟩
  rintro _ ⟨⟩
  refine meets_cons.mpr ⟨check_undisturbed rfl (fun _ => rfl) rfl rfl,?_⟩
  rintro _ ⟨⟩
  refine meets_cons.mpr ⟨check_undisturbed rfl ?_ rfl rfl,fun _ _ => trivial⟩
  intro n
  cases n <;> rfl
 refine (no_lost_wakeup (fun _ d => if d = 0 then some 0 else none) (t := 0) (c := .poll ⟨1,pollZero,INFINITE⟩)
  (m := ⟨0,0⟩) (e := .pollfd 0) (d := 0) (o := 0) meets rfl rfl rfl rfl rfl (le_refl 0) ?_ (by decide) rfl).resolve_right ?_
 · refine ⟨by decide,trivial,?_⟩
   rintro _ ⟨⟩
   refine ⟨by decide,trivial,?_⟩
   rintro _ ⟨⟩ zero
   exact absurd zero (by decide)
 rintro ⟨_,c,m,pc,runs,_⟩
 cases runs
theorem poll_sleeps_through_event :
 ∃ s c, run step oneFile
   ([.poll 0 1 (some pollZero) INFINITE 0,.advance 0,.advance 0,.advance 0,.set_io_event 0 IOEVT_READ] ++
    List.replicate 4 (.advance 0)) = some s ∧
  s.status 0 = .running c ⟨0,0⟩ .asleep ∧ IOEVT_READ &&& (s.kernel.iob 0).events_signaled ≠ 0 ∧
  s.kernel.counter ⟨0,0⟩ = 0 ∧
  ∀ o events, (set_io_event s.kernel o events).2.counter ⟨0,0⟩ = 0 := by
 refine ⟨_,_,rfl,rfl,by decide,rfl,?_⟩
 intro o events
 obtain rfl : o = 0 := Subsingleton.elim _ _
 simp only [set_io_event]
 rw [if_neg (fun both => absurd both.1 (by decide))]
 rfl

end Netbas.IoMux
