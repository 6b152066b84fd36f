import Netbas.HeadLists
import Netbas.Runs
import Netbas.Threads
import Mathlib.Data.Fintype.Card

/-!
The I/O multiplexer of `core/ipc/iomux.c`. The calls are modelled one turn of a loop at a time, so
that other threads and interrupts come between any two turns; what the source does with interrupts
disabled is one step.
-/
namespace Netbas.IoMux
open Runs HeadLists
open Function (update)
open Threads (INFINITE)
def EPERM : Int := -1
def EBADF : Int := -9
def EINVAL : Int := -22

/-- `unsigned short` -/
abbrev Events := BitVec 16
def IOEVT_READ : Events := 0x0001
def IOEVT_WRITE : Events := 0x0002
def IOEVT_ERROR : Events := 0x0004
def IOEVT_ACCEPT : Events := 0x0008
def IOEVT_CONNECT : Events := 0x0010
def IOEVT_CLOSE : Events := 0x0020
def POLLIN : Events := 0x0001
def POLLOUT : Events := 0x0004
def POLLERR : Events := 0x0008
def POLLHUP : Events := 0x0010
def POLLNVAL : Events := 0x0020
structure Mux (Thread : Type) where
 stack : Thread
 address : Nat
 deriving DecidableEq
structure Ioobject (Thread : Type) where
 iomux : Option (Mux Thread)
 events_signaled : Events
 events_monitored : Events
structure Kernel (Thread Obj : Type) where
 iob : Obj -> Ioobject Thread
 links : Links (Mux Thread) Obj
 counter : Mux Thread -> Int

section
variable {Thread Obj : Type} [DecidableEq Thread] [DecidableEq Obj]

section
variable (k : Kernel Thread Obj)
def Kernel.put (o : Obj) (iob : Ioobject Thread) : Kernel Thread Obj :=
 {k with iob := update k.iob o iob}
def Kernel.set_counter (m : Mux Thread) (n : Int) : Kernel Thread Obj :=
 {k with counter := update k.counter m n}
def Kernel.set_links (links : Links (Mux Thread) Obj) : Kernel Thread Obj :=
 {k with links := links}
def init_iomux (iomux : Mux Thread) : Kernel Thread Obj :=
 (k.set_counter iomux 0).set_links (LIST_INIT k.links iomux)
def detach_ioobject (o : Obj) : Option (Kernel Thread Obj) :=
 match (k.iob o).iomux with
 | none => some k
 | some _ => (LIST_REMOVE k.links o).map (fun links =>
   (k.put o {k.iob o with events_monitored := 0, iomux := none}).set_links links)
section
variable (iomux : Mux Thread)
def attach_ioobject (o : Obj) (events : Events) :
  Int × Kernel Thread Obj :=
 let k := k.put o {k.iob o with iomux := some iomux, events_monitored := events}
 if (k.iob o).events_monitored &&& (k.iob o).events_signaled ≠ 0 then (1,k)
 else (0,k.set_links (LIST_INSERT_HEAD k.links iomux o))
def queue_ioobject (o : Obj) (events : Events) :
  Option (Int × Kernel Thread Obj) :=
 if events = 0 then some (EINVAL,k)
 else
  match (k.iob o).iomux with
  | none => some (attach_ioobject k iomux o events)
  | some m =>
   if m ≠ iomux then some (EPERM,k)
   else (detach_ioobject k o).map (fun k' =>
    attach_ioobject k' iomux o (events ||| (k.iob o).events_monitored))
def release_waiting_threads : Kernel Thread Obj :=
 k.set_counter iomux (k.counter iomux + 1)
end
def set_io_event (o : Obj) (events : Events) : Int × Kernel Thread Obj :=
 let iob := k.iob o
 let k' := k.put o {iob with events_signaled := iob.events_signaled ||| events}
 if iob.events_monitored &&& iob.events_signaled = 0 ∧ iob.events_monitored &&& events ≠ 0 then
  match iob.iomux with
  | some m => (1,release_waiting_threads k' m)
  | none => (1,k')
 else (0,k')
def clear_io_event (o : Obj) (events : Events) : Kernel Thread Obj :=
 k.put o {k.iob o with events_signaled := (k.iob o).events_signaled &&& ~~~events}
end
def close_loop : Nat -> Kernel Thread Obj -> Option Obj -> Option (Kernel Thread Obj)
 | _, k, none => some k
 | 0, _, some _ => none
 | fuel + 1, k, some o => (detach_ioobject k o).bind (fun k' => close_loop fuel k' (k.links.cell (.next o)))

/-- A list has no more members than there are objects; a longer walk would not
  end. -/
def close_iomux [Fintype Obj] (k : Kernel Thread Obj) (iomux : Mux Thread) : Option (Kernel Thread Obj) :=
 close_loop (Fintype.card Obj) k (k.links.cell (.first iomux))

end
abbrev FdSet := Nat -> Bool
inductive Which where
 | readset
 | writeset
 | exceptset
 deriving DecidableEq
def Which.eventmask : Which -> Events
 | .readset => IOEVT_READ ||| IOEVT_ACCEPT ||| IOEVT_CLOSE
 | .writeset => IOEVT_WRITE ||| IOEVT_CONNECT
 | .exceptset => IOEVT_ERROR
def Which.next : Which -> Option Which
 | .readset => some .writeset
 | .writeset => some .exceptset
 | .exceptset => none
structure Select where
 nfds : BitVec 32
 set : Which -> Option FdSet
 timeout : Option Nat
structure Pollfd where
 fd : Int
 events : Events
 revents : Events
structure Poll where
 nfds : Nat
 fds : Nat -> Pollfd
 timeout : Nat
inductive Call where
 | select (a : Select)
 | poll (a : Poll)
inductive Outcome where
 | select (rc : Int) (set : Which -> Option FdSet)
 | poll (rc : Int) (fds : Option (Nat -> Pollfd))

/-- The variables of `check_select`: the sets as they stand, the members of the
  present one that were found ready, and how many were found in all. -/
structure Found where
 fds : Which -> FdSet
 lset : FdSet
 num : Nat
inductive Pc where
 | check_fds (again : Bool) (w : Which) (i : Nat) (found : Found)
 | check_poll (again : Bool) (n ready : Nat)
 | init_iomux
 | add_fds_to_iomux (w : Which) (n count : Nat)
 | add_fd_to_iomux (n : Nat)
 | lock
 /-- The counter of the semaphore has been tested. -/
 | sleep
 | asleep
 | close_iomux (out : Outcome)
 | msleep
inductive Status (Thread : Type) where
 | idle
 | running (c : Call) (m : Mux Thread) (pc : Pc)
 | returned (out : Outcome)
def Select.copy (a : Select) : Which -> FdSet := fun w => (a.set w).getD (fun _ => false)
def Select.put (a : Select) (fds : Which -> FdSet) : Which -> Option FdSet := fun w => (a.set w).map (fun _ => fds w)
def Select.check (a : Select) (again : Bool) : Pc :=
 .check_fds again .readset 0 {fds := a.copy, lset := fun _ => false, num := 0}
def Found.hit (found : Found) (i : Nat) : Found :=
 {found with lset := update found.lset i true, num := found.num + 1}
def Found.store (found : Found) (w : Which) : Found :=
 {found with fds := update found.fds w found.lset, lset := fun _ => false}
def poll_mask (events : Events) : Events :=
 IOEVT_ERROR ||| IOEVT_CLOSE ||| (if events &&& POLLIN ≠ 0 then IOEVT_READ ||| IOEVT_ACCEPT else 0) |||
  (if events &&& POLLOUT ≠ 0 then IOEVT_WRITE ||| IOEVT_CONNECT else 0)
def poll_revents (mask : Events) : Events :=
 (if mask &&& (IOEVT_READ ||| IOEVT_ACCEPT) ≠ 0 then POLLIN else 0) |||
  (if mask &&& (IOEVT_WRITE ||| IOEVT_CONNECT) ≠ 0 then POLLOUT else 0) |||
  (if mask &&& IOEVT_ERROR ≠ 0 then POLLERR else 0) ||| (if mask &&& IOEVT_CLOSE ≠ 0 then POLLHUP else 0)
def Call.check : Call -> Bool -> Pc
 | .select a, again => a.check again
 | .poll _, again => .check_poll again 0 0
def Call.tmo : Call -> Nat
 | .select a => a.timeout.getD INFINITE
 | .poll a => a.timeout
def Call.add : Call -> Pc
 | .select _ => .add_fds_to_iomux .readset 0 0
 | .poll _ => .add_fd_to_iomux 0
def Call.fail : Call -> Int -> Outcome
 | .select a, rc => .select rc a.set
 | .poll a, rc => .poll rc (some a.fds)
def Call.expired : Call -> Outcome
 | .select a => .select 0 (a.put (fun _ _ => false))
 | .poll a => .poll 0 (some a.fds)

section
variable {Thread Obj : Type} [DecidableEq Thread] [DecidableEq Obj]
def Select.wait (a : Select) (m : Mux Thread) : Status Thread :=
 match a.timeout with
 | none => .running (.select a) m .init_iomux
 | some tmo =>
  if tmo = 0 then .returned (.select 0 a.set)
  else if a.set .readset = none ∧ a.set .writeset = none ∧ a.set .exceptset = none then
   .running (.select a) m .msleep
  else .running (.select a) m .init_iomux
def check_fds (k : Kernel Thread Obj) (files : Nat -> Option Obj) (a : Select) (m : Mux Thread) (again : Bool)
  (w : Which) (i : Nat) (found : Found) : Status Thread :=
 if (i : Int) < a.nfds.toInt then
  if found.fds w i then
   match files i with
   | none =>
    if again then .running (.select a) m (.close_iomux (.select EBADF (a.put found.fds)))
    else .returned (.select EBADF a.set)
   | some o =>
    .running (.select a) m (.check_fds again w (i + 1)
     (if (k.iob o).events_signaled &&& w.eventmask ≠ 0 then found.hit i else found))
  else .running (.select a) m (.check_fds again w (i + 1) found)
 else
  let found := found.store w
  match w.next with
  | some w' => .running (.select a) m (.check_fds again w' 0 found)
  | none =>
   if again then .running (.select a) m (.close_iomux (.select found.num (a.put found.fds)))
   else if 0 < found.num then .returned (.select found.num (a.put found.fds))
   else a.wait m
section
variable (k : Kernel Thread Obj)
def check_revents (files : Nat -> Option Obj) (p : Pollfd) : Events :=
 if 0 ≤ p.fd then
  match files p.fd.toNat with
  | none => POLLNVAL
  | some o => poll_revents (poll_mask p.events &&& (k.iob o).events_signaled)
 else 0
def check_poll (k : Kernel Thread Obj) (files : Nat -> Option Obj) (a : Poll) (m : Mux Thread) (again : Bool)
  (n ready : Nat) : Status Thread :=
 if n < a.nfds then
  let revents := check_revents k files (a.fds n)
  .running (.poll {a with fds := update a.fds n {a.fds n with revents := revents}}) m
   (.check_poll again (n + 1) (if revents ≠ 0 then ready + 1 else ready))
 else if again then .running (.poll a) m (.close_iomux (.poll ready (some a.fds)))
 else if 0 < ready then .returned (.poll ready (some a.fds))
 else if a.timeout = 0 then .returned (.poll 0 (some a.fds))
 else .running (.poll a) m .init_iomux
def Select.added (a : Select) (m : Mux Thread) (w : Which) (count : Nat) : Status Thread :=
 if 0 < count then .running (.select a) m (a.check true)
 else
  match w.next with
  | some w' => .running (.select a) m (.add_fds_to_iomux w' 0 0)
  | none => .running (.select a) m .lock
def add_fds_to_iomux (k : Kernel Thread Obj) (files : Nat -> Option Obj) (a : Select) (m : Mux Thread)
  (w : Which) (n count : Nat) : Option (Kernel Thread Obj × Status Thread) :=
 match a.set w with
 -- A null set is left at once, with the count still 0.
 | none => some (k,a.added m w count)
 | some fds =>
  if n < a.nfds.toNat then
   if fds n then
    match files n with
    | none => some (k,.running (.select a) m (.close_iomux (.select EBADF a.set)))
    | some o => (queue_ioobject k m o w.eventmask).map (fun r =>
      (r.2,if r.1 < 0 then .running (.select a) m (.close_iomux (.select EBADF a.set))
       else .running (.select a) m (.add_fds_to_iomux w (n + 1) (count + r.1.toNat))))
   else some (k,.running (.select a) m (.add_fds_to_iomux w (n + 1) count))
  else some (k,a.added m w count)

/-- One turn of the loop of `poll`. A positive value of `queue_ioobject` is not looked
  at. -/
def add_fd_to_iomux (k : Kernel Thread Obj) (files : Nat -> Option Obj) (a : Poll) (m : Mux Thread) (n : Nat) :
  Option (Kernel Thread Obj × Status Thread) :=
 if n < a.nfds then
  if 0 ≤ (a.fds n).fd then
   match files (a.fds n).fd.toNat with
   | none => some (k,.running (.poll a) m (.close_iomux (.poll EBADF (some a.fds))))
   | some o => (queue_ioobject k m o (poll_mask (a.fds n).events)).map (fun r =>
     (r.2,if r.1 < 0 then .running (.poll a) m (.close_iomux (.poll r.1 (some a.fds)))
      else .running (.poll a) m (.add_fd_to_iomux (n + 1))))
  else some (k,.running (.poll a) m (.add_fd_to_iomux (n + 1)))
 else some (k,.running (.poll a) m .lock)

/-- `lock_semaphore_timeout` up to the sleep, which it does not enter with
  interrupts disabled. -/
def lock (c : Call) (m : Mux Thread) : Kernel Thread Obj × Status Thread :=
 if c.tmo = INFINITE then
  if k.counter m ≤ 0 then (k,.running c m .sleep)
  else (k.set_counter m (k.counter m - 1),.running c m (c.check true))
 else if 0 ≤ k.counter m - 1 then (k.set_counter m (k.counter m - 1),.running c m (c.check true))
 else (k.set_counter m (k.counter m - 1),.running c m .sleep)

/-- The rest of `lock_semaphore_timeout` once the sleep has returned a value, which
  `lock_semaphore` ignores. -/
def wake (c : Call) (m : Mux Thread) (value : Int) : Kernel Thread Obj × Status Thread :=
 if c.tmo = INFINITE then (k.set_counter m (k.counter m - 1),.running c m (c.check true))
 else if value ≠ 0 then (k.set_counter m (k.counter m + 1),.running c m (.close_iomux c.expired))
 else (k,.running c m (c.check true))
end

variable [Fintype Obj]
def advance (k : Kernel Thread Obj) (files : Nat -> Option Obj) (m : Mux Thread) :
  Call -> Pc -> Option (Kernel Thread Obj × Status Thread)
 | .select a, .check_fds again w i found => some (k,check_fds k files a m again w i found)
 | .poll a, .check_poll again n ready => some (k,check_poll k files a m again n ready)
 | c, .init_iomux => some (init_iomux k m,.running c m c.add)
 | .select a, .add_fds_to_iomux w n count => add_fds_to_iomux k files a m w n count
 | .poll a, .add_fd_to_iomux n => add_fd_to_iomux k files a m n
 | c, .lock => some (lock k c m)
 | c, .sleep => some (k,.running c m .asleep)
 | _, .close_iomux out => (close_iomux k m).map (fun k' => (k',.returned out))
 | _, _ => none
structure State (Thread Obj : Type) where
 kernel : Kernel Thread Obj
 /-- `fs_get_prvi_data` for a descriptor of a thread. -/
 files : Thread -> Nat -> Option Obj
 status : Thread -> Status Thread
def Status.isRunning : Status Thread -> Bool
 | .running _ _ _ => true
 | _ => false
inductive Action (Thread Obj : Type) where
 | vfs_select (t : Thread) (a : Select) (address : Nat)
 | poll (t : Thread) (nfds : Nat) (fds : Option (Nat -> Pollfd)) (timeout address : Nat)
 | advance (t : Thread)
 /-- `create_semaphore` fails in `init_iomux`. -/
 | no_semaphore (t : Thread)
 /-- A sleeper goes on; the sleep returns the value. -/
 | resume (t : Thread) (value : Int)
 | set_io_event (o : Obj) (events : Events)
 | clear_io_event (o : Obj) (events : Events)
 | detach_ioobject (o : Obj)
 /-- The descriptors of a thread become others. -/
 | change_files (t : Thread) (files : Nat -> Option Obj)
def poll_enter (m : Mux Thread) (nfds : Nat) (fds : Option (Nat -> Pollfd)) (timeout : Nat) : Status Thread :=
 if nfds = 0 then
  if timeout = 0 then .returned (.poll 0 fds)
  else .running (.poll {nfds := 0, fds := fds.getD (fun _ => ⟨-1,0,0⟩), timeout := timeout}) m .msleep
 else
  match fds with
  | none => .returned (.poll EINVAL none)
  | some fds => .running (.poll {nfds := nfds, fds := fds, timeout := timeout}) m (.check_poll false 0 0)
section
variable (s : State Thread Obj)
def State.set_status (t : Thread) (status : Status Thread) : State Thread Obj :=
 {s with status := update s.status t status}
def State.set_kernel (k : Kernel Thread Obj) : State Thread Obj := {s with kernel := k}
def step : Action Thread Obj -> Option (State Thread Obj)
 | .vfs_select t a addr =>
  if (s.status t).isRunning then none
  else some (s.set_status t (.running (.select a) ⟨t,addr⟩ (a.check false)))
 | .poll t nfds fds timeout addr =>
  if (s.status t).isRunning then none else some (s.set_status t (poll_enter ⟨t,addr⟩ nfds fds timeout))
 | .advance t =>
  match s.status t with
  | .running c m pc => (advance s.kernel (s.files t) m c pc).map (fun r => (s.set_kernel r.1).set_status t r.2)
  | _ => none
 | .no_semaphore t =>
  match s.status t with
  | .running c _ .init_iomux => some (s.set_status t (.returned (c.fail (-1))))
  | _ => none
 | .resume t value =>
  match s.status t with
  | .running c m .asleep =>
   let r := wake s.kernel c m value
   some ((s.set_kernel r.1).set_status t r.2)
  | .running c _ .msleep => some (s.set_status t (.returned (c.fail 0)))
  | _ => none
 | .set_io_event o events => some (s.set_kernel (set_io_event s.kernel o events).2)
 | .clear_io_event o events => some (s.set_kernel (clear_io_event s.kernel o events))
 | .detach_ioobject o => (detach_ioobject s.kernel o).map s.set_kernel
 | .change_files t files => some {s with files := update s.files t files}
end
def boot (files : Thread -> Nat -> Option Obj) : State Thread Obj :=
 { kernel := {iob := fun _ => ⟨none,0,0⟩, links := Links.empty, counter := fun _ => 0}
   files := files
   status := fun _ => .idle }

end
end Netbas.IoMux
