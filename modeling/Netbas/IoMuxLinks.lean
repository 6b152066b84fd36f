import Netbas.IoMux

/-!
The `iomux` fields of the I/O objects and the lists of the iomuxes. `links_exact_iff`: they agree as
long as no `queue_ioobject` finds an event that it is to monitor signaled already.
-/
namespace Netbas.IoMux
open Runs HeadLists List Option
open Function (update update_eq_self update_of_ne update_self)

section
variable {Thread Obj : Type} [DecidableEq Thread] [DecidableEq Obj]

/-! ### What the operations do to the lists -/
structure Sound (k : Kernel Thread Obj) (lists : Mux Thread -> List Obj) : Prop where
 rep : Represents k.links lists
 attached : ∀ {o m}, o ∈ lists m -> (k.iob o).iomux = some m
def Kernel.Member (k : Kernel Thread Obj) (lists : Mux Thread -> List Obj) (o : Obj) : Prop :=
 ∀ m, (k.iob o).iomux = some m -> o ∈ lists m
def without (lists : Mux Thread -> List Obj) (o : Obj) : Mux Thread -> List Obj := fun m => (lists m).erase o
def Ioobject.detached (iob : Ioobject Thread) : Ioobject Thread :=
 match iob.iomux with
 | none => iob
 | some _ => {iob with events_monitored := 0, iomux := none}

variable {k k' : Kernel Thread Obj} {lists : Mux Thread -> List Obj} {o x : Obj} {m : Mux Thread} {events : Events}
 {rc : Int}
@[simp] lemma detached_iomux (iob : Ioobject Thread) : iob.detached.iomux = none := by
 unfold Ioobject.detached
 cases held : iob.iomux <;> simp [held]
@[simp] lemma detached_signaled (iob : Ioobject Thread) : iob.detached.events_signaled = iob.events_signaled := by
 unfold Ioobject.detached
 cases iob.iomux <;> rfl
variable {iob : Ioobject Thread}
lemma detached_of_none (free : iob.iomux = none) : iob.detached = iob := by
 simp [Ioobject.detached,free]

variable {r : Mux Thread}
lemma mem_without (once : ∀ m, (lists m).Nodup) : x ∈ without lists o r ↔ x ≠ o ∧ x ∈ lists r :=
 (once r).mem_erase_iff
lemma Sound.only (ok : Sound k lists) (fst : o ∈ lists m) (snd : (k.iob o).iomux = some r) :
 r = m :=
 some.inj (snd.symm.trans (ok.attached fst))
lemma Sound.congr (ok : Sound k lists) (links : k'.links = k.links)
 (same : ∀ o, (k'.iob o).iomux = (k.iob o).iomux) : Sound k' lists := by
 constructor
 · rw [links]
   exact ok.rep
 intro o m mem
 rw [same]
 exact ok.attached mem
lemma Sound.without_free (ok : Sound k lists) (free : (k.iob o).iomux = none) : without lists o = lists := by
 funext r
 apply erase_of_not_mem
 intro mem
 simp [ok.attached mem] at free
lemma Sound.remove (ok : Sound k lists) (mem : o ∈ lists m) :
 ∃ links, LIST_REMOVE k.links o = some links ∧ Represents links (without lists o) := by
 obtain ⟨links,gone,rep⟩ := ok.rep.remove mem
 refine ⟨links,gone,?_⟩
 have same : without lists o = update lists m ((lists m).erase o) := by
  funext r
  by_cases here : r = m
  · subst here
    simp [without]
  rw [update_of_ne here]
  exact erase_of_not_mem fun ne => here (ok.rep.apart ne mem)
 rwa [same]
lemma detach_spec (ok : Sound k lists) (member : k.Member lists o) :
 ∃ k', detach_ioobject k o = some k' ∧ Sound k' (without lists o) ∧ k'.counter = k.counter ∧
  k'.iob = update k.iob o (k.iob o).detached := by
 cases held : (k.iob o).iomux with
 | none =>
  refine ⟨k,by simp [detach_ioobject,held],?_,rfl,?_⟩
  · rwa [ok.without_free held]
  · rw [detached_of_none held,update_eq_self]
 | some m =>
  obtain ⟨links,gone,rep⟩ := ok.remove (member m held)
  refine ⟨(k.put o {k.iob o with events_monitored := 0, iomux := none}).set_links links,
   by simp only [detach_ioobject,held,gone,map_some],⟨rep,?_⟩,rfl,?_⟩
  · intro y r mem
    obtain ⟨ne,mem⟩ := (mem_without ok.rep.once).mp mem
    simpa [Kernel.put,Kernel.set_links,ne] using ok.attached mem
  · simp [Kernel.put,Kernel.set_links,Ioobject.detached,held]
def attachedLists (lists : Mux Thread -> List Obj) (m : Mux Thread) (o : Obj) (ready : Bool) : Mux Thread -> List Obj :=
 if ready then lists else update lists m (o :: lists m)
def Kernel.ready (k : Kernel Thread Obj) (o : Obj) (events : Events) : Bool :=
 decide (events &&& (k.iob o).events_signaled ≠ 0)
lemma attach_spec (ok : Sound k lists) (free : (k.iob o).iomux = none) (m : Mux Thread) (events : Events) :
 ∃ k', attach_ioobject k m o events = (if k.ready o events then 1 else 0,k') ∧
  Sound k' (attachedLists lists m o (k.ready o events)) ∧ k'.counter = k.counter ∧
  k'.iob = update k.iob o {k.iob o with iomux := some m, events_monitored := events} := by
 have new : ∀ r, o ∉ lists r := by
  intro r member
  simp [ok.attached member] at free
 have kept : ∀ {y r}, y ∈ lists r ->
   (update k.iob o {k.iob o with iomux := some m, events_monitored := events} y).iomux = some r := by
  intro y r member
  have ne : y ≠ o := fun same => new r (same ▸ member)
  simpa [ne] using ok.attached member
 have hit : attach_ioobject k m o events =
   if k.ready o events then (1,k.put o {k.iob o with iomux := some m, events_monitored := events})
   else (0,(k.put o {k.iob o with iomux := some m, events_monitored := events}).set_links
    (LIST_INSERT_HEAD k.links m o)) := by
  simp only [attach_ioobject,Kernel.ready,Kernel.put,update_self,decide_eq_true_eq]
 rw [hit]
 cases k.ready o events with
 | true =>
  refine ⟨_,rfl,⟨ok.rep,?_⟩,rfl,rfl⟩
  intro y r member
  exact kept member
 | false =>
  refine ⟨_,rfl,⟨ok.rep.insert_head m new,?_⟩,rfl,rfl⟩
  · intro y r member
    simp only [attachedLists,Bool.false_eq_true,if_false] at member
    by_cases here : r = m
    · subst here
      rw [update_self] at member
      rcases mem_cons.mp member with rfl | member
      · simp [Kernel.put,Kernel.set_links]
      · exact kept member
    rw [update_of_ne here] at member
    exact kept member
def Kernel.merged (k : Kernel Thread Obj) (m : Mux Thread) (o : Obj) (events : Events) : Events :=
 if (k.iob o).iomux = some m then events ||| (k.iob o).events_monitored else events
lemma queue_spec (ok : Sound k lists) (some_event : events ≠ 0)
 (mem : (k.iob o).iomux = some m -> o ∈ lists m) :
 ((∃ r, r ≠ m ∧ (k.iob o).iomux = some r) ∧ queue_ioobject k m o events = some (EPERM,k)) ∨
 ((k.iob o).iomux = none ∨ (k.iob o).iomux = some m) ∧
  ∃ k', queue_ioobject k m o events = some (if k.ready o (k.merged m o events) then 1 else 0,k') ∧
   Sound k' (attachedLists (without lists o) m o (k.ready o (k.merged m o events))) ∧ k'.counter = k.counter ∧
   k'.iob = update k.iob o {k.iob o with iomux := some m, events_monitored := k.merged m o events} := by
 cases held : (k.iob o).iomux with
 | none =>
  refine .inr ⟨.inl rfl,?_⟩
  obtain ⟨k',queued,ok',counter,iob⟩ := attach_spec ok held m events
  refine ⟨k',?_,?_,counter,?_⟩
  · rw [queue_ioobject,if_neg some_event]
    simpa [held,Kernel.merged] using queued
  · simpa [ok.without_free held,Kernel.merged,held] using ok'
  · simpa [Kernel.merged,held] using iob
 | some r =>
  by_cases own : r = m
  · subst own
    refine .inr ⟨.inr rfl,?_⟩
    have link : k.Member lists o := by
     intro r' attached'
     have same : r' = r := some.inj (attached'.symm.trans held)
     rw [same]
     exact mem held
    obtain ⟨k1,detached,ok1,counter1,iob1⟩ := detach_spec ok link
    have free : (k1.iob o).iomux = none := by simp [iob1]
    obtain ⟨k',queued,ok',counter,iob⟩ :=
     attach_spec ok1 free r (events ||| (k.iob o).events_monitored)
    have same : k1.ready o (events ||| (k.iob o).events_monitored) = k.ready o (k.merged r o events) := by
     simp [Kernel.ready,Kernel.merged,held,iob1]
    rw [same] at queued ok'
    refine ⟨k',?_,ok',counter.trans counter1,?_⟩
    · rw [queue_ioobject,if_neg some_event]
      simp [held,detached,queued]
    rw [iob,iob1]
    simp [Kernel.merged,held]
  refine .inl ⟨⟨r,own,rfl⟩,?_⟩
  rw [queue_ioobject,if_neg some_event]
  simp [held,own]
lemma close_loop_spec : ∀ (xs : List Obj) {fuel : Nat} {k : Kernel Thread Obj} {lists : Mux Thread -> List Obj},
 Sound k lists -> lists m = xs -> xs.length ≤ fuel ->
 ∃ k', close_loop fuel k xs.head? = some k' ∧ Sound k' (update lists m []) ∧ k'.counter = k.counter ∧
  ∀ o, k'.iob o = if o ∈ xs then (k.iob o).detached else k.iob o := by
 intro xs
 induction xs with
 | nil =>
  intro fuel k lists ok empty _
  refine ⟨k,by cases fuel <;> rfl,?_,rfl,by simp⟩
  rwa [<- empty,update_eq_self]
 | cons x rest ih =>
  intro fuel k lists ok list enough
  obtain ⟨fuel,rfl⟩ : ∃ n, fuel = n + 1 := ⟨fuel - 1,by simp at enough; omega⟩
  have fst : x ∈ lists m := by simp [list]
  have mem : k.Member lists x := fun r held => ok.only fst held ▸ fst
  obtain ⟨k1,detached,ok1,counter1,iob1⟩ := detach_spec ok mem
  have once : (x :: rest).Nodup := list ▸ ok.rep.once m
  have next : k.links.cell (.next x) = rest.head? := by
   have seg := ok.rep.seg m
   rw [list] at seg
   exact seg_first seg.2.2
  obtain ⟨k',shut,ok',counter',iob'⟩ :=
   ih ok1 (by simp [without,list]) (by simpa using enough : rest.length ≤ fuel)
  refine ⟨k',?_,?_,counter'.trans counter1,?_⟩
  · simpa [close_loop,detached,next] using shut
  · have same : update (without lists x) m [] = update lists m [] := by
     funext r
     by_cases here : r = m
     · subst here
       simp
     rw [update_of_ne here,update_of_ne here]
     exact erase_of_not_mem fun ne => here (ok.rep.apart ne fst)
    rwa [same] at ok'
  intro o
  rw [iob',iob1]
  by_cases same : o = x
  · subst same
    simp [(nodup_cons.mp once).1]
  · simp [same]
lemma close_spec [Fintype Obj] (ok : Sound k lists) (m : Mux Thread) :
 ∃ k', close_iomux k m = some k' ∧ Sound k' (update lists m []) ∧ k'.counter = k.counter ∧
  ∀ o, k'.iob o = if o ∈ lists m then (k.iob o).detached else k.iob o := by
 have enough : (lists m).length ≤ Fintype.card Obj := (ok.rep.once m).length_le_card
 have shut := close_loop_spec (lists m) ok rfl enough
 rwa [<- seg_first (ok.rep.seg m)] at shut
lemma set_io_event_iob (k : Kernel Thread Obj) (o : Obj) (events : Events) :
 (set_io_event k o events).2.iob =
  update k.iob o {k.iob o with events_signaled := (k.iob o).events_signaled ||| events} := by
 simp only [set_io_event]
 split
 · cases (k.iob o).iomux <;> rfl
 · rfl
lemma set_io_event_links (k : Kernel Thread Obj) (o : Obj) (events : Events) :
 (set_io_event k o events).2.links = k.links := by
 simp only [set_io_event]
 split
 · cases (k.iob o).iomux <;> rfl
 · rfl
lemma iomux_update {k : Kernel Thread Obj} (same : iob.iomux = (k.iob o).iomux) (x : Obj) :
 (update k.iob o iob x).iomux = (k.iob x).iomux := by
 by_cases here : x = o
 · subst here
   simpa using same
 · rw [update_of_ne here]
lemma Sound.init (ok : Sound k lists) (empty : lists m = []) : Sound (init_iomux k m) lists :=
 ⟨ok.rep.init empty,ok.attached⟩

/-! ### The descriptors that a call queues -/
def Call.request : Call -> Pc -> Option (Nat × Events)
 | .select a, .add_fds_to_iomux w n _ =>
  if n < a.nfds.toNat ∧ a.copy w n then some (n,w.eventmask) else none
 | .poll a, .add_fd_to_iomux n =>
  if n < a.nfds ∧ 0 ≤ (a.fds n).fd then some ((a.fds n).fd.toNat,poll_mask (a.fds n).events) else none
 | _, _ => none
variable {w : Which}
lemma select_request {a : Select} {n : Nat} (count : Nat) (mem : n < a.nfds.toNat) (asked : a.copy w n) :
 (Call.select a).request (.add_fds_to_iomux w n count) = some (n,w.eventmask) := by
 simp [Call.request,mem,asked]
lemma poll_request {a : Poll} {n : Nat} (mem : n < a.nfds) (pos : 0 ≤ (a.fds n).fd) :
 (Call.poll a).request (.add_fd_to_iomux n) = some ((a.fds n).fd.toNat,poll_mask (a.fds n).events) := by
 simp [Call.request,mem,pos]
def State.queues (s : State Thread Obj) (t : Thread) : Option (Mux Thread × Obj × Events) :=
 match s.status t with
 | .running c m pc =>
  match c.request pc with
  | some (d,events) => (s.files t d).map (fun o => (m,o,events))
  | none => none
 | _ => none
lemma eventmask_ne (w : Which) : w.eventmask ≠ 0 := by cases w <;> decide
lemma poll_mask_ne (events : Events) : poll_mask events ≠ 0 := by
 have always : poll_mask events &&& IOEVT_ERROR = IOEVT_ERROR := by
  unfold poll_mask
  split <;> split <;> decide
 intro zero
 rw [zero] at always
 exact absurd always (by decide)

variable {d : Nat}
lemma request_ne {c : Call} {pc : Pc} (request : c.request pc = some (d,events)) : events ≠ 0 := by
 unfold Call.request at request
 split at request
 · rename_i a w n count
   obtain ⟨_,same⟩ := ite_none_right_eq_some.mp request
   cases same
   exact eventmask_ne w
 · obtain ⟨_,same⟩ := ite_none_right_eq_some.mp request
   cases same
   exact poll_mask_ne _
 · cases request

/-! ### What a call does in one go -/
def Pc.Before : Pc -> Prop
 | .check_fds again _ _ _ => again = false
 | .check_poll again _ _ => again = false
 | .init_iomux | .msleep => True
 | _ => False
inductive Moves [Fintype Obj] (k : Kernel Thread Obj) (files : Nat -> Option Obj) (m : Mux Thread) (c : Call) (pc : Pc) :
  Kernel Thread Obj -> Status Thread -> Prop
 | goes (c' : Call) (pc' : Pc) (phase : pc'.Before ↔ pc.Before) : Moves k files m c pc k (.running c' m pc')
 | returns (out : Outcome) (phase : pc.Before) : Moves k files m c pc k (.returned out)
 | inits (pc' : Pc) (phase : pc.Before) (phase' : ¬ pc'.Before) :
   Moves k files m c pc (init_iomux k m) (.running c m pc')
 | queues (d : Nat) (events : Events) (o : Obj) (rc : Int) (k' : Kernel Thread Obj) (pc' : Pc)
   (request : c.request pc = some (d,events)) (file : files d = some o)
   (queued : queue_ioobject k m o events = some (rc,k')) (phase' : ¬ pc'.Before) :
   Moves k files m c pc k' (.running c m pc')
 | counts (n : Int) (pc' : Pc) (phase' : ¬ pc'.Before) :
   Moves k files m c pc (k.set_counter m n) (.running c m pc')
 | closes (out : Outcome) (k' : Kernel Thread Obj) (closed : close_iomux k m = some k') :
   Moves k files m c pc k' (.returned out)

variable [Fintype Obj] {files : Nat -> Option Obj} {c : Call} {pc : Pc} {st : Status Thread}
lemma check_before (c : Call) (again : Bool) : (c.check again).Before ↔ again = false := by
 cases c <;> rfl
lemma wait_moves (a : Select) {i : Nat} {hit : Found} :
 Moves k files m (.select a) (.check_fds false w i hit) k (a.wait m) := by
 cases timeout : a.timeout with
 | none =>
  simp only [Select.wait,timeout]
  exact .goes _ _ (by simp [Pc.Before])
 | some tmo =>
  simp only [Select.wait,timeout]
  split
  · exact .returns _ rfl
  split
  · exact .goes _ _ (by simp [Pc.Before])
  · exact .goes _ _ (by simp [Pc.Before])
lemma check_fds_moves (a : Select) (again : Bool) (w : Which) (i : Nat) (hit : Found) :
 Moves k files m (.select a) (.check_fds again w i hit) k (check_fds k files a m again w i hit) := by
 unfold check_fds
 split
 · split
   · cases files i with
     | none =>
      cases again with
      | true => exact .goes _ _ (by simp [Pc.Before])
      | false => exact .returns _ rfl
     | some o => exact .goes _ _ (by simp [Pc.Before])
   · exact .goes _ _ (by simp [Pc.Before])
 cases w.next with
 | some w' => exact .goes _ _ (by simp [Pc.Before])
 | none =>
  cases again with
  | true => exact .goes _ _ (by simp [Pc.Before])
  | false =>
   simp only [Bool.false_eq_true,if_false]
   split
   · exact .returns _ rfl
   · exact wait_moves a
lemma check_poll_moves (a : Poll) (again : Bool) (n ready : Nat) :
 Moves k files m (.poll a) (.check_poll again n ready) k (check_poll k files a m again n ready) := by
 unfold check_poll
 split
 · exact .goes _ _ (by simp [Pc.Before])
 cases again with
 | true => exact .goes _ _ (by simp [Pc.Before])
 | false =>
  simp only [Bool.false_eq_true,if_false]
  split
  · exact .returns _ rfl
  split
  · exact .returns _ rfl
  · exact .goes _ _ (by simp [Pc.Before])

variable {n : Nat}
lemma added_moves (a : Select) (w : Which) {count count' : Nat} :
 Moves k files m (.select a) (.add_fds_to_iomux w n count) k (a.added m w count') := by
 unfold Select.added
 split
 · exact .goes _ _ (by simp [Pc.Before,Select.check])
 cases w.next with
 | some w' => exact .goes _ _ (by simp [Pc.Before])
 | none => exact .goes _ _ (by simp [Pc.Before])
lemma add_fds_moves {a : Select} {count : Nat}
 (ran : add_fds_to_iomux k files a m w n count = some (k',st)) :
 Moves k files m (.select a) (.add_fds_to_iomux w n count) k' st := by
 unfold add_fds_to_iomux at ran
 cases set : a.set w with
 | none =>
  simp only [set] at ran
  cases ran
  exact added_moves a w
 | some fds =>
  simp only [set] at ran
  split at ran
  · rename_i mem
    split at ran
    · rename_i isset
      cases file : files n with
      | none =>
       simp only [file] at ran
       cases ran
       exact .goes _ _ (by simp [Pc.Before])
      | some o =>
       simp only [file] at ran
       obtain ⟨⟨rc,k1⟩,queued,same⟩ := map_eq_some_iff.mp ran
       have asked : a.copy w n := by simp [Select.copy,set,isset]
       have request := select_request count mem asked
       cases same
       split
       · exact .queues n w.eventmask o rc k1 _ request file queued (by simp [Pc.Before])
       · exact .queues n w.eventmask o rc k1 _ request file queued (by simp [Pc.Before])
    cases ran
    exact .goes _ _ (by simp [Pc.Before])
  cases ran
  exact added_moves a w
lemma add_fd_moves {a : Poll} (ran : add_fd_to_iomux k files a m n = some (k',st)) :
 Moves k files m (.poll a) (.add_fd_to_iomux n) k' st := by
 unfold add_fd_to_iomux at ran
 split at ran
 · rename_i mem
   split at ran
   · rename_i pos
     cases file : files (a.fds n).fd.toNat with
     | none =>
      simp only [file] at ran
      cases ran
      exact .goes _ _ (by simp [Pc.Before])
     | some o =>
      simp only [file] at ran
      obtain ⟨⟨rc,k1⟩,queued,same⟩ := map_eq_some_iff.mp ran
      have request := poll_request mem pos
      cases same
      split
      · exact .queues _ _ o rc k1 _ request file queued (by simp [Pc.Before])
      · exact .queues _ _ o rc k1 _ request file queued (by simp [Pc.Before])
   cases ran
   exact .goes _ _ (by simp [Pc.Before])
 cases ran
 exact .goes _ _ (by simp [Pc.Before])
lemma lock_moves (k : Kernel Thread Obj) (files : Nat -> Option Obj) (c : Call) (m : Mux Thread) :
 Moves k files m c .lock (lock k c m).1 (lock k c m).2 := by
 unfold lock
 split
 · split
   · exact .goes _ _ (by simp [Pc.Before])
   · exact .counts _ _ (by simp [check_before])
 split
 · exact .counts _ _ (by simp [check_before])
 · exact .counts _ _ (by simp [Pc.Before])
lemma advance_moves (ran : advance k files m c pc = some (k',st)) : Moves k files m c pc k' st := by
 unfold advance at ran
 split at ran
 · cases ran
   exact check_fds_moves ..
 · cases ran
   exact check_poll_moves ..
 · cases ran
   refine .inits _ trivial ?_
   cases c <;> simp [Call.add,Pc.Before]
 · exact add_fds_moves ran
 · exact add_fd_moves ran
 · have moved := lock_moves k files c m
   rwa [some.inj ran] at moved
 · cases ran
   exact .goes _ _ (by simp [Pc.Before])
 · obtain ⟨k1,shut,same⟩ := map_eq_some_iff.mp ran
   cases same
   exact .closes _ _ shut
 · cases ran
lemma request_advances (request : c.request pc = some (d,events)) (file : files d = some o)
 (queued : queue_ioobject k m o events = some (rc,k')) :
 ∃ pc', advance k files m c pc = some (k',.running c m pc') := by
 unfold Call.request at request
 split at request
 · rename_i a w n count
   obtain ⟨⟨mem,isset⟩,same⟩ := ite_none_right_eq_some.mp request
   cases same
   cases set : a.set w with
   | none => simp [Select.copy,set] at isset
   | some fds =>
    have isset : fds d := by simpa [Select.copy,set] using isset
    simp only [advance,add_fds_to_iomux,set,mem,isset,file,queued,if_true,map_some]
    split
    · exact ⟨_,rfl⟩
    · exact ⟨_,rfl⟩
 · rename_i a n
   obtain ⟨⟨mem,pos⟩,same⟩ := ite_none_right_eq_some.mp request
   cases same
   simp only [advance,add_fd_to_iomux,mem,pos,file,queued,if_true,map_some]
   split
   · exact ⟨_,rfl⟩
   · exact ⟨_,rfl⟩
 · cases request

/-! ### Whole runs -/
section
variable (k : Kernel Thread Obj)
/-- An object has a non-null `iomux` field exactly when it is linked in the list of
  that iomux. -/
def Kernel.Exact : Prop :=
 ∃ lists : Mux Thread -> List Obj, Represents k.links lists ∧ ∀ o m, (k.iob o).iomux = some m ↔ o ∈ lists m

section
variable (s : State Thread Obj)
/-- No object refers to an iomux other than that of a call in progress, and the
  fields and the lists agree. -/
def Clean : Prop :=
 s.kernel.Exact ∧ ∀ o m, (s.kernel.iob o).iomux = some m -> ∃ c pc, s.status m.stack = .running c m pc

/-- No `queue_ioobject` that attaches an object finds one of the events signaled that it
  is then monitored for. -/
def Unready : Action Thread Obj -> Prop
 | .advance t => ∀ m o events, s.queues t = some (m,o,events) ->
   (s.kernel.iob o).iomux = none ∨ (s.kernel.iob o).iomux = some m ->
   s.kernel.ready o (s.kernel.merged m o events) = false
 | _ => True
def Kernel.Linked (o : Obj) : Prop :=
 ∀ m, (k.iob o).iomux = some m -> ∃ xs, Seg k.links (.first m) xs ∧ o ∈ xs
def Unlinks : Action Thread Obj -> Prop
 | .advance t => ∀ m o events, s.queues t = some (m,o,events) -> (s.kernel.iob o).iomux = some m -> s.kernel.Linked o
 | .detach_ioobject o => s.kernel.Linked o
 | _ => True
end
structure Fair (s : State Thread Obj) (lists : Mux Thread -> List Obj) : Prop where
 sound : Sound s.kernel lists
 held : ∀ {o m}, o ∈ lists m -> ∃ c pc, s.status m.stack = .running c m pc ∧ ¬ pc.Before
 own : ∀ {t c m pc}, s.status t = .running c m pc -> m.stack = t
def Kernel.Full (lists : Mux Thread -> List Obj) : Prop := ∀ o, k.Member lists o
end

variable {lists' : Mux Thread -> List Obj} {s s' : State Thread Obj} {t : Thread}
lemma Sound.member (ok : Sound k lists) (link : k.Linked o) : k.Member lists o := by
 intro m held
 obtain ⟨xs,seg,mem⟩ := link m held
 rwa [seg_unique (ok.rep.seg m) seg]
lemma Sound.linked (ok : Sound k lists) (mem : k.Member lists o) : k.Linked o :=
 fun m held => ⟨lists m,ok.rep.seg m,mem m held⟩
lemma Fair.clean (fair : Fair s lists) (full : s.kernel.Full lists) : Clean s := by
 refine ⟨⟨lists,fair.sound.rep,fun o m => ⟨full o m,fair.sound.attached⟩⟩,?_⟩
 intro o m held
 obtain ⟨c,pc,runs,_⟩ := fair.held (full o m held)
 exact ⟨c,pc,runs⟩
section
variable (files : Thread -> Nat -> Option Obj)
lemma boot_fair : Fair (boot files) (fun _ => []) :=
 {sound := ⟨represents_empty,by simp⟩, held := by simp, own := by simp [boot]}
lemma boot_full : (boot files).kernel.Full (fun _ => []) := by
 simp [Kernel.Full,Kernel.Member,boot]
end

variable {pc' : Pc}
section
variable (fair : Fair s lists)
include fair
lemma Fair.mux_ne {c' : Call} {u : Thread} (runs : s.status u = .running c r pc)
 (running' : s.status t = .running c' m pc') (ne : u ≠ t) : r ≠ m := by
 rintro rfl
 exact ne ((fair.own runs).symm.trans (fair.own running'))
lemma Fair.same (runs : s.status t = .running c m pc)
 (mem : o ∈ lists r) (here : r.stack = t) : r = m ∧ ¬ pc.Before := by
 obtain ⟨c',pc',running',phase⟩ := fair.held mem
 rw [here,runs] at running'
 cases running'
 exact ⟨rfl,phase⟩
lemma Fair.move (ok : Sound k' lists')
 (held : ∀ o r, o ∈ lists' r -> (r.stack = t ∧ ∃ c pc, st = .running c r pc ∧ ¬ pc.Before) ∨ r.stack ≠ t ∧ o ∈ lists r)
 (own : ∀ c r pc, st = .running c r pc -> r.stack = t) : Fair ((s.set_kernel k').set_status t st) lists' := by
 refine ⟨ok,?_,?_⟩
 · intro o r mem
   rcases held o r mem with ⟨here,c,pc,runs,phase⟩ | ⟨ne,pre⟩
   · exact ⟨c,pc,by simp [State.set_status,here,runs],phase⟩
   obtain ⟨c,pc,runs,phase⟩ := fair.held pre
   exact ⟨c,pc,by simpa [State.set_status,State.set_kernel,ne] using runs,phase⟩
 intro u c r pc runs
 by_cases here : u = t
 · subst here
   exact own c r pc (by simpa [State.set_status] using runs)
 · exact fair.own (t := u) (by simpa [State.set_status,State.set_kernel,here] using runs)
lemma Fair.go (runs : s.status t = .running c m pc) (ok : Sound k' lists) {c' : Call} (phase : ¬ pc.Before -> ¬ pc'.Before) :
 Fair ((s.set_kernel k').set_status t (.running c' m pc')) lists := by
 refine fair.move ok ?_ ?_
 · intro o r mem
   by_cases here : r.stack = t
   · obtain ⟨rfl,started⟩ := fair.same runs mem here
     exact .inl ⟨here,c',pc',rfl,phase started⟩
   · exact .inr ⟨here,mem⟩
 rintro _ _ _ ⟨⟩
 exact fair.own runs
lemma Fair.leave (ok : Sound k' lists') (free : ∀ o r, o ∈ lists' r -> r.stack ≠ t ∧ o ∈ lists r)
 (own : ∀ c r pc, st = .running c r pc -> r.stack = t) : Fair ((s.set_kernel k').set_status t st) lists' :=
 fair.move ok (fun o r mem => .inr (free o r mem)) own
lemma Fair.free_before (runs : s.status t = .running c m pc) (phase : pc.Before) :
 ∀ o r, o ∈ lists r -> r.stack ≠ t ∧ o ∈ lists r :=
 fun _ _ mem => ⟨fun here => (fair.same runs mem here).2 phase,mem⟩
lemma Fair.free_outside (out : (s.status t).isRunning = false) :
 ∀ o r, o ∈ lists r -> r.stack ≠ t ∧ o ∈ lists r := by
 intro o r mem
 refine ⟨?_,mem⟩
 intro here
 obtain ⟨c,pc,runs,_⟩ := fair.held mem
 rw [here] at runs
 simp [runs,Status.isRunning] at out

end
lemma mem_attachedLists {ready : Bool} (member : x ∈ attachedLists lists m o ready r) :
 x = o ∧ r = m ∨ x ∈ lists r := by
 cases ready with
 | true => exact .inr member
 | false =>
  simp only [attachedLists,Bool.false_eq_true,if_false] at member
  by_cases own : r = m
  · subst own
    rw [update_self] at member
    rcases mem_cons.mp member with rfl | member
    · exact .inl ⟨rfl,rfl⟩
    · exact .inr member
  rw [update_of_ne own] at member
  exact .inr member
def Leaves (s : State Thread Obj) (lists : Mux Thread -> List Obj) (a : Action Thread Obj) (s' : State Thread Obj) : Prop :=
 ∃ lists', Fair s' lists' ∧ (s.kernel.Full lists -> Unready s a -> s'.kernel.Full lists')
section
variable (full : k.Full lists)
include full
lemma full_queue (once : ∀ m, (lists m).Nodup)
  (iob : k'.iob = update k.iob o {k.iob o with iomux := some m, events_monitored := events}) :
  k'.Full (attachedLists (without lists o) m o false) := by
 intro x r held
 by_cases same : x = o
 · subst same
   have hit : m = r := by simpa [iob] using held
   simp [attachedLists,hit]
 have mem : x ∈ without lists o r := (mem_without once).mpr ⟨same,full x r (by simpa [iob,same] using held)⟩
 by_cases own : r = m
 · subst own
   simp [attachedLists,mem]
 · simpa [attachedLists,own] using mem
lemma full_close (iob : ∀ o, k'.iob o = if o ∈ lists m then (k.iob o).detached else k.iob o) :
 k'.Full (update lists m []) := by
 intro x r held
 rw [iob] at held
 by_cases mem : x ∈ lists m
 · simp [mem] at held
 simp only [mem,if_false] at held
 have ne : r ≠ m := fun same => mem (full x m (same ▸ held))
 rw [update_of_ne ne]
 exact full x r held
lemma full_detach (once : ∀ m, (lists m).Nodup)
 (iob : k'.iob = update k.iob o (k.iob o).detached) : k'.Full (without lists o) := by
 intro x r held
 rw [iob] at held
 by_cases same : x = o
 · subst same
   simp at held
 · exact (mem_without once).mpr ⟨same,full x r (by simpa [same] using held)⟩
lemma full_congr (same : ∀ o, (k'.iob o).iomux = (k.iob o).iomux) : k'.Full lists :=
 fun o r held => full o r (same o ▸ held)
end
section
variable (fair : Fair s lists)
include fair
lemma queue_leaves (unlinks : Unlinks s (.advance t)) (runs : s.status t = .running c m pc)
 (request : c.request pc = some (d,events)) (file : s.files t d = some o) (phase' : ¬ pc'.Before)
 (queued : queue_ioobject s.kernel m o events = some (rc,k')) :
 Leaves s lists (.advance t) ((s.set_kernel k').set_status t (.running c m pc')) := by
 have here := fair.own runs
 have queues : s.queues t = some (m,o,events) := by simp [State.queues,runs,request,file]
 have member : (s.kernel.iob o).iomux = some m -> o ∈ lists m :=
  fun held => fair.sound.member (unlinks m o events queues held) m held
 rcases queue_spec fair.sound (request_ne request) member with ⟨_,refused⟩ | ⟨open_,k1,done,ok,_,iob⟩
 · cases refused.symm.trans queued
   exact ⟨lists,fair.go runs fair.sound (fun _ => phase'),fun full _ => full⟩
 cases done.symm.trans queued
 refine ⟨_,fair.move ok ?_ ?_,?_⟩
 · intro x r member
   rcases mem_attachedLists member with ⟨_,rfl⟩ | member
   · exact .inl ⟨here,c,pc',rfl,phase'⟩
   obtain ⟨_,member⟩ := (mem_without fair.sound.rep.once).mp member
   by_cases own : r.stack = t
   · obtain ⟨rfl,_⟩ := fair.same runs member own
     exact .inl ⟨own,c,pc',rfl,phase'⟩
   · exact .inr ⟨own,member⟩
 · rintro _ _ _ ⟨⟩
   exact here
 intro full unready
 rw [unready m o events queues open_]
 exact full_queue full fair.sound.rep.once iob
lemma close_leaves (runs : s.status t = .running c m pc)
 (shut : close_iomux s.kernel m = some k') (out : Outcome) :
 Leaves s lists (.advance t) ((s.set_kernel k').set_status t (.returned out)) := by
 obtain ⟨k1,done,ok,_,iob⟩ := close_spec fair.sound m
 cases done.symm.trans shut
 refine ⟨_,fair.leave ok ?_ (by simp),fun full _ => full_close full iob⟩
 intro x r mem
 by_cases own : r = m
 · simp [own] at mem
 rw [update_of_ne own] at mem
 exact ⟨fun here => own (fair.same runs mem here).1,mem⟩
lemma advance_leaves (unlinks : Unlinks s (.advance t)) (runs : s.status t = .running c m pc)
 (moves : Moves s.kernel (s.files t) m c pc k' st) :
 Leaves s lists (.advance t) ((s.set_kernel k').set_status t st) := by
 have here := fair.own runs
 cases moves with
 | goes c' pc' phase =>
  exact ⟨lists,fair.go runs fair.sound (fun started => mt phase.mp started),fun full _ => full⟩
 | returns out phase =>
  exact ⟨lists,fair.leave fair.sound (fair.free_before runs phase) (by simp),fun full _ => full⟩
 | inits pc' phase phase' =>
  have empty : lists m = [] := by
   refine eq_nil_iff_forall_not_mem.mpr fun o mem => ?_
   exact (fair.free_before runs phase o m mem).1 here
  refine ⟨lists,fair.leave (fair.sound.init empty) (fair.free_before runs phase) ?_,fun full _ => full⟩
  rintro _ _ _ ⟨⟩
  exact here
 | queues d events o rc _ pc' request file queued phase' =>
  exact queue_leaves fair unlinks runs request file phase' queued
 | counts n pc' phase' =>
  have ok : Sound (s.kernel.set_counter m n) lists := fair.sound.congr rfl fun _ => rfl
  exact ⟨lists,fair.go runs ok (fun _ => phase'),fun full _ => full⟩
 | closes out _ shut => exact close_leaves fair runs shut out
lemma signal_leaves (links : k'.links = s.kernel.links)
 (same : ∀ o, (k'.iob o).iomux = (s.kernel.iob o).iomux) (a : Action Thread Obj) : Leaves s lists a (s.set_kernel k') :=
 ⟨lists,⟨fair.sound.congr links same,fair.held,fair.own⟩,fun full _ => full_congr full same⟩
lemma detach_leaves (link : s.kernel.Linked o)
 (detached : detach_ioobject s.kernel o = some k') : Leaves s lists (.detach_ioobject o) (s.set_kernel k') := by
 obtain ⟨k1,done,ok,_,iob⟩ := detach_spec fair.sound (fair.sound.member link)
 cases done.symm.trans detached
 refine ⟨_,⟨ok,?_,fair.own⟩,fun full _ => full_detach full fair.sound.rep.once iob⟩
 intro x r mem
 exact fair.held ((mem_without fair.sound.rep.once).mp mem).2
end
lemma wake_spec (k : Kernel Thread Obj) (c : Call) (m : Mux Thread) (value : Int) :
 (wake k c m value).1.links = k.links ∧ (wake k c m value).1.iob = k.iob ∧
  ∃ pc', (wake k c m value).2 = .running c m pc' ∧ ¬ pc'.Before := by
 unfold wake
 split
 · exact ⟨rfl,rfl,c.check true,rfl,by simp [check_before]⟩
 split
 · exact ⟨rfl,rfl,.close_iomux c.expired,rfl,by simp [Pc.Before]⟩
 · exact ⟨rfl,rfl,c.check true,rfl,by simp [check_before]⟩
lemma wake_leaves (fair : Fair s lists) (runs : s.status t = .running c m .asleep) (value : Int)
 (a : Action Thread Obj) :
 Leaves s lists a ((s.set_kernel (wake s.kernel c m value).1).set_status t (wake s.kernel c m value).2) := by
 obtain ⟨links,iob,pc',woken,phase⟩ := wake_spec s.kernel c m value
 rw [woken]
 refine ⟨lists,fair.go runs (fair.sound.congr links ?_) (fun _ => phase),fun full _ => full_congr full ?_⟩
 · exact fun o => by rw [iob]
 · exact fun o => by simp [State.set_status,State.set_kernel,iob]
lemma enter_own {addr nfds : Nat} {fds : Option (Nat -> Pollfd)} {timeout : Nat} (c : Call) (r : Mux Thread)
 (pc : Pc) (came : poll_enter ⟨t,addr⟩ nfds fds timeout = .running c r pc) : r.stack = t := by
 unfold poll_enter at came
 split at came
 · split at came
   · cases came
   cases came
   rfl
 cases fds with
 | none => cases came
 | some fds =>
  cases came
  rfl
lemma step_leaves {a : Action Thread Obj} (fair : Fair s lists) (unlinks : Unlinks s a) (ran : step s a = some s') :
 Leaves s lists a s' := by
 have leave : ∀ {t st}, (∀ o r, o ∈ lists r -> r.stack ≠ t ∧ o ∈ lists r) ->
   (∀ c r pc, st = .running c r pc -> r.stack = t) -> Leaves s lists a (s.set_status t st) :=
  fun free own => ⟨lists,fair.leave fair.sound free own,fun full _ => full⟩
 cases a with
 | vfs_select t a addr =>
  obtain ⟨outside,same⟩ := ite_none_left_eq_some.mp ran
  cases same
  apply leave (fair.free_outside (by simpa using outside))
  rintro _ _ _ ⟨⟩
  rfl
 | poll t nfds fds timeout addr =>
  obtain ⟨outside,same⟩ := ite_none_left_eq_some.mp ran
  cases same
  exact leave (fair.free_outside (by simpa using outside)) enter_own
 | advance t =>
  cases running : s.status t with
  | running c m pc =>
   simp only [step,running] at ran
   obtain ⟨⟨k',st⟩,adv,same⟩ := map_eq_some_iff.mp ran
   cases same
   exact advance_leaves fair unlinks running (advance_moves adv)
  | idle => simp [step,running] at ran
  | returned out => simp [step,running] at ran
 | no_semaphore t =>
  simp only [step] at ran
  split at ran
  · rename_i c m running
    cases ran
    exact leave (fair.free_before running trivial) (by simp)
  · cases ran
 | resume t value =>
  simp only [step] at ran
  split at ran
  · rename_i c m running
    cases ran
    exact wake_leaves fair running value _
  · rename_i c m running
    cases ran
    exact leave (fair.free_before running trivial) (by simp)
  · cases ran
 | set_io_event o events =>
  cases ran
  refine signal_leaves fair (set_io_event_links ..) ?_ _
  rw [set_io_event_iob]
  exact iomux_update rfl
 | clear_io_event o events =>
  cases ran
  refine signal_leaves fair ?_ ?_ _
  · rfl
  · exact iomux_update rfl
 | detach_ioobject o =>
  obtain ⟨k',detached,same⟩ := map_eq_some_iff.mp ran
  cases same
  exact detach_leaves fair unlinks detached
 | change_files t files =>
  cases ran
  exact ⟨lists,⟨fair.sound,fair.held,fair.own⟩,fun full _ => full⟩
lemma Fair.unlinks (fair : Fair s lists) (full : s.kernel.Full lists) (a : Action Thread Obj) : Unlinks s a := by
 cases a with
 | advance t => exact fun _ o _ _ _ => fair.sound.linked (full o)
 | detach_ioobject o => exact fair.sound.linked (full o)
 | _ => trivial
lemma ready_breaks (fair : Fair s lists) (full : s.kernel.Full lists) (hit : ¬ Unready s (.advance t)) :
 ∃ s', step s (.advance t) = some s' ∧ ¬ Clean s' := by
 simp only [Unready,not_forall] at hit
 obtain ⟨m,o,events,queues,open_,ready⟩ := hit
 cases running : s.status t with
 | idle => simp [State.queues,running] at queues
 | returned out => simp [State.queues,running] at queues
 | running c m' pc =>
  cases request : c.request pc with
  | none => simp [State.queues,running,request] at queues
  | some r =>
   obtain ⟨d,events'⟩ := r
   simp only [State.queues,running,request] at queues
   obtain ⟨o',file,same⟩ := map_eq_some_iff.mp queues
   cases same
   rcases queue_spec fair.sound (request_ne request) (full o m) with ⟨⟨r,ne,held⟩,_⟩ | ⟨_,k',done,ok,_,iob⟩
   · simp [held,ne] at open_
   obtain ⟨pc',adv⟩ := request_advances request file done
   refine ⟨_,by simp [step,running,adv]; rfl,?_⟩
   rintro ⟨⟨lists',rep,exact_⟩,_⟩
   have held : (k'.iob o).iomux = some m := by simp [iob]
   have mem : o ∈ lists' m := (exact_ o m).mp held
   rw [Bool.not_eq_false] at ready
   have same : lists' m = without lists o m := by
    have seg := ok.rep.seg m
    rw [ready] at seg
    exact seg_unique (rep.seg m) seg
   rw [same,mem_without fair.sound.rep.once] at mem
   exact mem.1 rfl

/-- The fields and the lists agree along a run, and no call leaves an object attached,
  exactly when every object is queued before its events are signaled. -/
theorem links_exact_iff (files : Thread -> Nat -> Option Obj) (actions : List (Action Thread Obj)) :
 Along step Clean (fun _ _ => True) (boot files) actions ↔ Meets step Unready (boot files) actions := by
 refine along_iff (I := fun s => ∃ lists, Fair s lists ∧ s.kernel.Full lists) ?_ (fun _ _ _ _ => trivial) ?_ ?_
  actions _ ⟨_,boot_fair files,boot_full files⟩
 · rintro s ⟨lists,fair,full⟩
   exact fair.clean full
 · rintro s a s' ⟨lists,fair,full⟩ unready taken
   obtain ⟨lists',fair',kept⟩ := step_leaves fair (fair.unlinks full a) taken
   exact ⟨lists',fair',kept full unready⟩
 rintro s a ⟨lists,fair,full⟩ found _
 cases a with
 | advance t => exact ready_breaks fair full found
 | _ => exact absurd trivial found

end
def oneFile : State (Fin 2) (Fin 1) := boot (fun _ d => if d = 0 then some 0 else none)
def selectZero : Select :=
 {nfds := 1, set := fun w => if w = .readset then some (fun n => n == 0) else none, timeout := none}
theorem select_leaves_iomux :
 ∃ s set, run step oneFile
   ([.vfs_select 0 selectZero 0] ++ replicate 7 (.advance 0) ++ [.set_io_event 0 IOEVT_READ] ++
    replicate 9 (.advance 0)) = some s ∧
  s.status 0 = .returned (.select 1 set) ∧ (s.kernel.iob 0).iomux = some ⟨0,0⟩ := by
 refine ⟨_,_,rfl,rfl,rfl⟩

end Netbas.IoMux
