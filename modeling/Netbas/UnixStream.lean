import Netbas.UnixSockets

/-!
The bytes of a connection between unix sockets. A step is a call from its start, or from where it
was woken, until it returns or sleeps. `stream_ordered`: what one end receives is a prefix of what
the other sends, as long as no send pairs its socket anew.
-/
namespace Netbas.UnixStream
open Runs UnixSockets List Option
def ENOTCONN : Int := -107
def ETIMEDOUT : Int := -110
def UDS_RECV_MAX : Int := 65536 * 10
def UDS_RECV_BYTES : Nat := 65536 / 2
structure Request where
 thread : Nat
 size : Nat
deriving DecidableEq
structure Sender where
 thread : Nat
 ipcb : Nat
 peer : Nat
 read : Nat
 rest : List (List UInt8)
deriving DecidableEq

/-- The receiving side of a socket; `received` is what its receivers have been given. -/
structure Recv where
 recvhead : List (List UInt8)
 recv_count : Int
 waithead : List Request
 recv_wait : List Sender
 rcvtimeo : Nat
 received : List UInt8
deriving DecidableEq

/-- `ready` are the senders that were woken, `sent` is what the sends have handed over and
  `answers` is what the calls have returned. -/
structure Streams where
 net : Net
 recv : Nat -> Recv
 ready : List Sender
 sent : List UInt8
 answers : List (Nat × Int)

section
variable (s : Streams)
def Streams.set (k : Nat) (r : Recv) : Streams := {s with recv := Function.update s.recv k r}
def Streams.answer (thread : Nat) (rc : Int) : Streams := {s with answers := (thread,rc) :: s.answers}
def Streams.thread_wakeup_all (k : Nat) : Streams :=
 {s.set k {s.recv k with recv_wait := []} with ready := s.ready ++ (s.recv k).recv_wait}
def unix_fetch_rcvbuf (left : Nat) : List (List UInt8) -> List UInt8 × List (List UInt8)
 | [] => ([],[])
 | p :: rest =>
  if left = 0 then ([],p :: rest)
  else if left < p.length then (p.take left,p.drop left :: rest)
  else (p ++ (unix_fetch_rcvbuf (left - p.length) rest).1,(unix_fetch_rcvbuf (left - p.length) rest).2)
def Recv.fetched (r : Recv) (size : Nat) : Recv :=
 let (bytes,queue) := unix_fetch_rcvbuf size r.recvhead
 {r with recvhead := queue, recv_count := r.recv_count - bytes.length, received := r.received ++ bytes}

/-- A buffer is queued, and the first receiver that sleeps is served. Its release empties
  the list (`cancel_socket_request`), which ends the loop; it would not end if the
  receiver got nothing. A request of `accept` has no message to be served. -/
def recv_unix_cb (arg : Nat) (p : List UInt8) : Option Streams :=
 (s.net.sock arg).bind (fun t =>
  let r := {s.recv arg with recvhead := (s.recv arg).recvhead ++ [p]}
  if t.waithead ≠ [] then none
  else
   match r.waithead with
   | [] => some (s.set arg r)
   | req :: _ =>
    let bytes := (unix_fetch_rcvbuf req.size r.recvhead).1
    if bytes = [] then none
    else some ((s.set arg {r.fetched req.size with waithead := []}).answer req.thread bytes.length))
def pieces (bytes : List UInt8) : List (List UInt8) :=
 (List.range ((bytes.length + UDS_RECV_BYTES - 1) / UDS_RECV_BYTES)).map (fun i =>
  (bytes.drop (i * UDS_RECV_BYTES)).take UDS_RECV_BYTES)
def Streams.handed (peer : Nat) (p : List UInt8) : Streams :=
 {s.set peer {s.recv peer with recv_count := (s.recv peer).recv_count + p.length} with sent := s.sent ++ p}
def Streams.sleep (c : Sender) : Streams :=
 s.set c.peer {s.recv c.peer with recv_wait := (s.recv c.peer).recv_wait ++ [c]}
end

/-- The loop over the pieces; a counter past the end of `int` has no next state. -/
def unix_read_iovec (thread ipcb peer : Nat) : Nat -> Streams -> List (List UInt8) -> Option Streams
 | read, s, [] => some (s.answer thread read)
 | read, s, p :: rest =>
  (s.net.pcb ipcb).bind (fun q =>
   match q.recv_arg with
   | none => some (s.answer thread EINVAL)
   | some arg =>
    (recv_unix_cb s arg p).bind (fun s =>
     (s.net.sock peer).bind (fun _ =>
      if 2^31 ≤ ((s.handed peer p).recv peer).recv_count then none
      else if UDS_RECV_MAX ≤ ((s.handed peer p).recv peer).recv_count then
       some ((s.handed peer p).sleep ⟨thread,ipcb,peer,read + p.length,rest⟩)
      else unix_read_iovec thread ipcb peer (read + p.length) (s.handed peer p) rest)))

section
variable (s : Streams)
/-- The peer is looked up before the connect, the block that the bytes go to after it. -/
def unixsock_sendmsg (thread k : Nat) (msg_name : Option SockaddrUn) (kmalloc new_socket : Option Nat)
  (msg_iov : List (List UInt8)) : Option Streams :=
 (s.net.sock k).bind (fun t => t.pcb.bind (fun a => (s.net.pcb a).bind (fun p =>
  match p.remote_pcb with
  | none => some (s.answer thread 0)
  | some b =>
   (s.net.pcb b).bind (fun q =>
    match q.recv_arg with
    | none => some (s.answer thread (-1))
    | some peer =>
     (if msg_name.isSome then unixsock_connect s.net k msg_name none kmalloc new_socket
      else some (0,s.net)).bind (fun (rc,net) =>
      let s := {s with net := net}
      if rc < 0 then some (s.answer thread rc)
      else
       (net.sock k).bind (fun t =>
        if t.state ≠ .connected then some (s.answer thread ENOTCONN)
        else
         t.pcb.bind (fun a => (net.pcb a).bind (fun p => p.remote_pcb.bind (fun ipcb =>
          unix_read_iovec thread ipcb peer 0 s (msg_iov.flatMap pieces))))))))))
def await (thread k : Nat) (t : Socket) (peer : Option Nat) (size : Nat) : Option Streams :=
 match peer with
 | none => some (s.answer thread 0)
 | some peer =>
  (s.net.sock peer).bind (fun q =>
   if q.state = .closing ∨ q.state = .closed then some (s.answer thread 0)
   else if t.nbio then some (s.answer thread EAGAIN)
   else if (s.recv k).rcvtimeo = 0 then some (s.answer thread ETIMEDOUT)
   else some (s.set k {s.recv k with waithead := (s.recv k).waithead ++ [⟨thread,size⟩]}))
def Streams.fetched (s : Streams) (k size : Nat) : Streams :=
 let s := s.set k ((s.recv k).fetched size)
 if (s.recv k).recvhead = [] then s.thread_wakeup_all k else s
def unixsock_recvmsg (thread k : Nat) (size : BitVec 32) : Option Streams :=
 (s.net.sock k).bind (fun t => t.pcb.bind (fun a => (s.net.pcb a).bind (fun p =>
  (match p.remote_pcb with
   | none => some none
   | some b => (s.net.pcb b).map UnixPcb.recv_arg).bind (fun peer =>
   if size.toInt < 0 then some (s.answer thread EINVAL)
   else if size = 0 then some (s.answer thread 0)
   else
    let bytes := (unix_fetch_rcvbuf size.toNat (s.recv k).recvhead).1
    let s := s.fetched k size.toNat
    if bytes ≠ [] then some (s.answer thread bytes.length)
    else await (s.thread_wakeup_all k) thread k t peer size.toNat))))
inductive Action where
 | sendmsg (thread : Nat) (msg_name : Option SockaddrUn) (kmalloc new_socket : Option Nat) (msg_iov : List (List UInt8))
 | resume (i : Nat)
 | recvmsg (thread : Nat) (size : BitVec 32)
deriving DecidableEq
def step (out into : Nat) (s : Streams) : Action -> Option Streams
 | .sendmsg thread msg_name kmalloc new_socket msg_iov =>
  unixsock_sendmsg s thread out msg_name kmalloc new_socket msg_iov
 | .resume i =>
  (s.ready[i]?).bind (fun c =>
   unix_read_iovec c.thread c.ipcb c.peer c.read {s with ready := s.ready.eraseIdx i} c.rest)
 | .recvmsg thread size => unixsock_recvmsg s thread into size
def Connected (net : Net) (out into : Nat) : Prop :=
 ∃ t a p t' b q, net.sock out = some t ∧ t.pcb = some a ∧ t.state = .connected ∧ net.pcb a = some p ∧
  p.remote_pcb = some b ∧ p.recv_arg = some out ∧
  net.sock into = some t' ∧ t'.pcb = some b ∧ t'.state = .connected ∧ net.pcb b = some q ∧
  q.remote_pcb = some a ∧ q.recv_arg = some into
def Idle : Prop := s.ready = [] ∧ ∀ k, (s.recv k).recv_wait = []
end
structure Settled (s : Streams) (into : Nat) : Prop where
 idle : Idle s
 bytes : s.sent = (s.recv into).received ++ (s.recv into).recvhead.flatten
 count : (s.recv into).recv_count = (s.recv into).recvhead.flatten.length

/-- The bytes received are a prefix of the bytes sent, and the counter is right when no
  send is under way. -/
def Ordered (into : Nat) (s : Streams) : Prop :=
 (s.recv into).received <+: s.sent ∧
  (Idle s -> (s.recv into).recv_count = (s.recv into).recvhead.flatten.length)
def Handed (out into : Nat) (s : Streams) (action : Action) : Prop :=
 ∀ s', step out into s action = some s' ->
  match action with
  | .sendmsg _ _ _ _ msg_iov => ∃ bytes, s'.sent = s.sent ++ bytes ∧ bytes <+: msg_iov.flatten
  | .resume i => ∃ c ∈ s.ready[i]?, ∃ bytes, s'.sent = s.sent ++ bytes ∧ bytes <+: c.rest.flatten
  | .recvmsg _ _ => s'.sent = s.sent
def Kept (s : Streams) : Action -> Prop
 | .sendmsg _ msg_name kmalloc new_socket _ => ¬ Pairs s.net msg_name kmalloc new_socket
 | _ => True
lemma fetch_flatten (left : Nat) (queue : List (List UInt8)) :
  (unix_fetch_rcvbuf left queue).1 ++ (unix_fetch_rcvbuf left queue).2.flatten = queue.flatten := by
 induction queue generalizing left with
 | nil => rfl
 | cons p rest ih =>
  by_cases full : left = 0
  · simp [unix_fetch_rcvbuf,full]
  by_cases part : left < p.length
  · simp only [unix_fetch_rcvbuf,full,part,if_true,if_false,flatten_cons]
    rw [<- append_assoc,take_append_drop]
  · simp only [unix_fetch_rcvbuf,full,part,if_false,flatten_cons,append_assoc,ih]
lemma flatten_ranges (bytes : List UInt8) (width n : Nat) :
  ((List.range n).map (fun i => (bytes.drop (i * width)).take width)).flatten = bytes.take (n * width) := by
 induction n with
 | zero => simp
 | succ n ih =>
  rw [range_succ,map_append,flatten_append,ih,Nat.succ_mul,take_add]
  simp
lemma pieces_flatten (bytes : List UInt8) : (pieces bytes).flatten = bytes := by
 have enough : bytes.length ≤ (bytes.length + UDS_RECV_BYTES - 1) / UDS_RECV_BYTES * UDS_RECV_BYTES := by
  have : UDS_RECV_BYTES = 32768 := rfl
  rw [this]
  omega
 rw [pieces,flatten_ranges,take_of_length_le enough]
lemma flatMap_pieces_flatten (msg_iov : List (List UInt8)) : (msg_iov.flatMap pieces).flatten = msg_iov.flatten := by
 induction msg_iov with
 | nil => rfl
 | cons bytes rest ih => simp only [flatMap_cons,flatten_append,pieces_flatten,ih,flatten_cons]
def Recv.stream (r : Recv) : List UInt8 := r.received ++ r.recvhead.flatten
lemma fetched_stream (r : Recv) (size : Nat) : (r.fetched size).stream = r.stream := by
 simp only [Recv.fetched,Recv.stream,append_assoc,fetch_flatten]
def Recv.excess (r : Recv) : Int := r.recv_count - r.recvhead.flatten.length
lemma fetched_excess (r : Recv) (size : Nat) : (r.fetched size).excess = r.excess := by
 have length := congrArg List.length (fetch_flatten size r.recvhead)
 simp only [length_append] at length
 simp only [Recv.fetched,Recv.excess]
 omega

section
variable {s s' : Streams} {k : Nat} {r : Recv}
@[simp] lemma set_recv_self (s : Streams) (k : Nat) (r : Recv) : (s.set k r).recv k = r := by
 simp [Streams.set]
lemma recv_unix_cb_spec {p : List UInt8} (ran : recv_unix_cb s k p = some s') :
  (s'.recv k).stream = (s.recv k).stream ++ p ∧ (s'.recv k).excess = (s.recv k).excess - p.length ∧
  (s'.recv k).recv_wait = (s.recv k).recv_wait ∧ s'.net = s.net ∧ s'.ready = s.ready ∧ s'.sent = s.sent := by
 obtain ⟨t,sock,rest⟩ := bind_eq_some_iff.mp ran
 have stream : Recv.stream {s.recv k with recvhead := (s.recv k).recvhead ++ [p]} = (s.recv k).stream ++ p := by
  simp [Recv.stream]
 have excess : Recv.excess {s.recv k with recvhead := (s.recv k).recvhead ++ [p]} =
   (s.recv k).excess - p.length := by
  simp [Recv.excess]
  omega
 cases waiting : (s.recv k).waithead with
 | nil =>
  simp only [waiting] at rest
  split_ifs at rest
  cases rest
  exact ⟨by rw [set_recv_self]; exact stream,by rw [set_recv_self]; exact excess,by rw [set_recv_self],rfl,rfl,rfl⟩
 | cons req others =>
  simp only [waiting] at rest
  split_ifs at rest
  cases rest
  simp only [Streams.answer,set_recv_self]
  refine ⟨?_,?_,rfl,rfl,rfl,rfl⟩
  · exact (fetched_stream _ req.size).trans stream
  · exact (fetched_excess _ req.size).trans excess
structure Inv (out into a b : Nat) (s : Streams) : Prop where
 own : s.net.links.own out = some a
 remote : s.net.links.remote a = some b
 arg : s.net.links.arg b = some into
 ready : ∀ c ∈ s.ready, c.ipcb = b ∧ c.peer = into
 asleep : ∀ c ∈ (s.recv into).recv_wait, c.ipcb = b ∧ c.peer = into
 bytes : s.sent = (s.recv into).stream
 count : (s.recv into).excess = 0

variable {out into a b : Nat}

section
variable (inv : Inv out into a b s)
include inv
lemma Inv.ordered : Ordered into s := by
 constructor
 · rw [inv.bytes]
   exact prefix_append _ _
 intro _
 have := inv.count
 simp only [Recv.excess] at this
 omega
lemma Inv.answer (thread : Nat) (rc : Int) : Inv out into a b (s.answer thread rc) :=
 ⟨inv.own,inv.remote,inv.arg,inv.ready,inv.asleep,inv.bytes,inv.count⟩
lemma Inv.read_iovec {thread read : Nat} {rest : List (List UInt8)}
  (ran : unix_read_iovec thread b into read s rest = some s') :
  Inv out into a b s' ∧ ∃ bytes, s'.sent = s.sent ++ bytes ∧ bytes <+: rest.flatten := by
 induction rest generalizing s read with
 | nil =>
  cases ran
  exact ⟨inv.answer thread read,[],by simp [Streams.answer],by simp⟩
 | cons p rest ih =>
  obtain ⟨q,live,ran⟩ := bind_eq_some_iff.mp ran
  have arg : q.recv_arg = some into := by
   have := inv.arg
   simpa [Net.links,live] using this
  simp only [arg] at ran
  obtain ⟨middle,queued,ran⟩ := bind_eq_some_iff.mp ran
  obtain ⟨t,sock,ran⟩ := bind_eq_some_iff.mp ran
  obtain ⟨stream,excess,waiting,net,ready,sent⟩ := recv_unix_cb_spec queued
  have next : Inv out into a b (middle.handed into p) := by
   constructor
   case own => exact net ▸ inv.own
   case remote => exact net ▸ inv.remote
   case arg => exact net ▸ inv.arg
   case ready => exact ready ▸ inv.ready
   case asleep =>
    simp only [Streams.handed,set_recv_self,waiting]
    exact inv.asleep
   case bytes =>
    have same : ((middle.handed into p).recv into).stream = (middle.recv into).stream := by
     simp [Streams.handed,Recv.stream]
    rw [same,stream,<- inv.bytes,<- sent]
    rfl
   case count =>
    have same : ((middle.handed into p).recv into).excess = (middle.recv into).excess + p.length := by
     simp only [Streams.handed,Recv.excess,set_recv_self]
     omega
    rw [same,excess,inv.count]
    omega
  have handed : (middle.handed into p).sent = s.sent ++ p := by
   rw [<- sent]
   rfl
  split_ifs at ran
  · cases ran
    refine ⟨?_,p,handed,by simp⟩
    refine ⟨next.own,next.remote,next.arg,next.ready,?_,?_,?_⟩
    · intro c mem
      simp only [Streams.sleep,set_recv_self,mem_append,mem_singleton] at mem
      rcases mem with mem | rfl
      · exact next.asleep c mem
      · exact ⟨rfl,rfl⟩
    · rw [Streams.sleep,set_recv_self]
      exact next.bytes
    rw [Streams.sleep,set_recv_self]
    exact next.count
  obtain ⟨after,bytes,sent',mem⟩ := ih next ran
  refine ⟨after,p ++ bytes,?_,?_⟩
  · rw [sent',handed,append_assoc]
  rw [flatten_cons]
  exact prefix_append_right_inj p |>.mpr mem
lemma Inv.wakeup_all : Inv out into a b (s.thread_wakeup_all into) := by
 refine ⟨inv.own,inv.remote,inv.arg,?_,?_,?_,?_⟩
 · intro c inside
   rcases mem_append.mp inside with inside | inside
   · exact inv.ready c inside
   · exact inv.asleep c inside
 · intro c inside
   simp [Streams.thread_wakeup_all] at inside
 · have same : ((s.thread_wakeup_all into).recv into).stream = (s.recv into).stream := by
    simp [Streams.thread_wakeup_all,Recv.stream]
   rw [same]
   exact inv.bytes
 have same : ((s.thread_wakeup_all into).recv into).excess = (s.recv into).excess := by
  simp [Streams.thread_wakeup_all,Recv.excess]
 rw [same]
 exact inv.count
lemma Inv.set (stream : r.stream = (s.recv into).stream)
  (excess : r.excess = (s.recv into).excess) (waiting : r.recv_wait = (s.recv into).recv_wait) :
  Inv out into a b (s.set into r) := by
 refine ⟨inv.own,inv.remote,inv.arg,inv.ready,?_,?_,?_⟩
 · rw [set_recv_self,waiting]
   exact inv.asleep
 · rw [set_recv_self,stream]
   exact inv.bytes
 rw [set_recv_self,excess]
 exact inv.count
lemma Inv.await {thread size : Nat} {t : Socket} {peer : Option Nat}
  (ran : await s thread into t peer size = some s') : Inv out into a b s' ∧ s'.sent = s.sent := by
 cases peer with
 | none =>
  cases ran
  exact ⟨inv.answer _ _,rfl⟩
 | some peer =>
  obtain ⟨q,sock,ran⟩ := bind_eq_some_iff.mp ran
  simp only at ran
  split_ifs at ran <;> cases ran
  · exact ⟨inv.answer _ _,rfl⟩
  · exact ⟨inv.answer _ _,rfl⟩
  · exact ⟨inv.answer _ _,rfl⟩
  · exact ⟨inv.set rfl rfl rfl,rfl⟩
lemma Inv.fetched (size : Nat) :
  Inv out into a b (s.fetched into size) ∧ (s.fetched into size).sent = s.sent := by
 have after : Inv out into a b (s.set into ((s.recv into).fetched size)) :=
  inv.set (fetched_stream _ _) (fetched_excess _ _) rfl
 unfold Streams.fetched
 simp only
 split_ifs
 · exact ⟨after.wakeup_all,rfl⟩
 · exact ⟨after,rfl⟩
lemma Inv.recvmsg {thread : Nat} {size : BitVec 32}
  (ran : unixsock_recvmsg s thread into size = some s') : Inv out into a b s' ∧ s'.sent = s.sent := by
 obtain ⟨t,sock,ran⟩ := bind_eq_some_iff.mp ran
 obtain ⟨a',own,ran⟩ := bind_eq_some_iff.mp ran
 obtain ⟨p,live,ran⟩ := bind_eq_some_iff.mp ran
 obtain ⟨peer,hit,ran⟩ := bind_eq_some_iff.mp ran
 obtain ⟨fetched,sent⟩ := inv.fetched size.toNat
 by_cases negative : size.toInt < 0
 · rw [if_pos negative] at ran
   cases ran
   exact ⟨inv.answer _ _,rfl⟩
 rw [if_neg negative] at ran
 by_cases zero : size = 0
 · rw [if_pos zero] at ran
   cases ran
   exact ⟨inv.answer _ _,rfl⟩
 rw [if_neg zero] at ran
 by_cases some : (unix_fetch_rcvbuf size.toNat (s.recv into).recvhead).1 ≠ []
 · simp only [some,not_false_eq_true,ne_eq,if_true,Option.some.injEq] at ran
   subst ran
   exact ⟨fetched.answer _ _,sent⟩
 simp only [some,if_false] at ran
 obtain ⟨after,same⟩ := fetched.wakeup_all.await ran
 exact ⟨after,same.trans sent⟩
lemma Inv.unlinked {net : Net} (unlinked : s.net.links.Unlinked net.links) :
  Inv out into a b {s with net := net} := by
 obtain ⟨own,remote⟩ := Links.unlinked_own unlinked
 refine ⟨?_,?_,?_,inv.ready,inv.asleep,inv.bytes,inv.count⟩
 · rw [own]
   exact inv.own
 · rw [remote]
   exact inv.remote
 rcases unlinked with same | ⟨c,arg,free,same⟩
 · rw [same]
   exact inv.arg
 have other : b ≠ c := by
  rintro rfl
  have ran := inv.arg
  rw [free.arg] at ran
  cases ran
 rw [same]
 simp only [Links.leak,Function.update_of_ne other]
 exact inv.arg
lemma Inv.sendmsg {thread : Nat} {msg_name : Option SockaddrUn} {kmalloc new_socket : Option Nat}
  {msg_iov : List (List UInt8)} (kept : ¬ Pairs s.net msg_name kmalloc new_socket)
  (ran : unixsock_sendmsg s thread out msg_name kmalloc new_socket msg_iov = some s') :
  Inv out into a b s' ∧ ∃ bytes, s'.sent = s.sent ++ bytes ∧ bytes <+: msg_iov.flatten := by
 have nothing : ∃ bytes, s.sent = s.sent ++ bytes ∧ bytes <+: msg_iov.flatten := ⟨[],by simp,by simp⟩
 obtain ⟨t,sock,own⟩ := own_eq_some.mp inv.own
 obtain ⟨p,live,remote⟩ := remote_eq_some.mp inv.remote
 obtain ⟨q,live',arg⟩ := bind_eq_some_iff.mp inv.arg
 simp only [unixsock_sendmsg,sock,own,live,remote,live',arg,bind_some] at ran
 obtain ⟨⟨rc,net⟩,connected,ran⟩ := bind_eq_some_iff.mp ran
 have unlinked : s.net.links.Unlinked net.links := by
  split_ifs at connected
  · exact connect_unlinked sock own live connected kept
  cases connected
  exact .inl rfl
 have after := inv.unlinked unlinked
 by_cases refused : rc < 0
 · simp only [refused,if_true] at ran
   cases ran
   exact ⟨after.answer _ _,nothing⟩
 simp only [refused,if_false] at ran
 obtain ⟨t1,sock1,ran⟩ := bind_eq_some_iff.mp ran
 by_cases state : t1.state ≠ .connected
 · rw [if_pos state] at ran
   cases ran
   exact ⟨after.answer _ _,nothing⟩
 rw [if_neg state] at ran
 obtain ⟨a1,own1,ran⟩ := bind_eq_some_iff.mp ran
 obtain ⟨p1,live1,ran⟩ := bind_eq_some_iff.mp ran
 obtain ⟨ipcb,remote1,ran⟩ := bind_eq_some_iff.mp ran
 -- The same block is hit again.
 have same : a1 = a := some.inj ((own_eq_some.mpr ⟨t1,sock1,own1⟩).symm.trans after.own)
 rw [same] at live1
 have same : ipcb = b := some.inj ((remote_eq_some.mpr ⟨p1,live1,remote1⟩).symm.trans after.remote)
 rw [same] at ran
 obtain ⟨inv',bytes,sent,mem⟩ := after.read_iovec ran
 rw [flatMap_pieces_flatten] at mem
 exact ⟨inv',bytes,sent,mem⟩
lemma Inv.resume {c : Sender} {i : Nat} (hit : s.ready[i]? = some c)
  (ran : unix_read_iovec c.thread c.ipcb c.peer c.read {s with ready := s.ready.eraseIdx i} c.rest = some s') :
  Inv out into a b s' ∧ ∃ bytes, s'.sent = s.sent ++ bytes ∧ bytes <+: c.rest.flatten := by
 obtain ⟨block,peer⟩ := inv.ready c (mem_of_getElem? hit)
 rw [block,peer] at ran
 have less : Inv out into a b {s with ready := s.ready.eraseIdx i} :=
  ⟨inv.own,inv.remote,inv.arg,fun c mem => inv.ready c (mem_of_mem_eraseIdx mem),inv.asleep,inv.bytes,
   inv.count⟩
 exact less.read_iovec ran

end
lemma step_inv (action : Action) (inv : Inv out into a b s) (kept : Kept s action)
  (ran : step out into s action = some s') : Inv out into a b s' := by
 cases action with
 | sendmsg thread msg_name kmalloc new_socket msg_iov => exact (inv.sendmsg kept ran).1
 | resume i =>
  obtain ⟨c,hit,called⟩ := bind_eq_some_iff.mp ran
  exact (inv.resume hit called).1
 | recvmsg thread size => exact (inv.recvmsg ran).1
lemma step_handed (action : Action) (inv : Inv out into a b s) (kept : Kept s action) : Handed out into s action := by
 intro s' ran
 cases action with
 | sendmsg thread msg_name kmalloc new_socket msg_iov => exact (inv.sendmsg kept ran).2
 | resume i =>
  obtain ⟨c,hit,called⟩ := bind_eq_some_iff.mp ran
  exact ⟨c,hit,(inv.resume hit called).2⟩
 | recvmsg thread size => exact (inv.recvmsg ran).2
theorem stream_ordered (s : Streams) (out into : Nat) (connected : Connected s.net out into) (settled : Settled s into)
  (actions : List Action) (kept : Meets (step out into) Kept s actions) :
  Along (step out into) (Ordered into) (Handed out into) s actions := by
 obtain ⟨t,a,p,t',b,q,sock,own,_,live,remote,_,sock',own',_,live',remote',arg⟩ := connected
 have inv : Inv out into a b s := by
  refine ⟨own_eq_some.mpr ⟨t,sock,own⟩,remote_eq_some.mpr ⟨p,live,remote⟩,?_,?_,?_,settled.bytes,?_⟩
  · simp [Net.links,live',arg]
  · simp [settled.idle.1]
  · simp [settled.idle.2 into]
  · simp [Recv.excess,settled.count]
 exact along_of_invariant (I := Inv out into a b) (fun _ inv => inv.ordered)
  (fun _ action inv kept => step_handed action inv kept)
  (fun _ action _ inv kept taken => step_inv action inv kept taken) actions s inv kept
instance (s : Streams) (action : Action) : Decidable (Kept s action) :=
 match action with
 | .sendmsg _ msg_name kmalloc new_socket _ => inferInstanceAs (Decidable (¬ Pairs s.net msg_name kmalloc new_socket))
 | .resume _ => .isTrue trivial
 | .recvmsg _ _ => .isTrue trivial
def linked : Net :=
 (run UnixSockets.step start [.socket 0,.bind 0 (some address) (some 10),.listen 0 5 true,.socket 1,
  .connect 1 (some address) (some 11) (some 12) (some 2),.accept 0 7]).getD start
def begun : Streams := ⟨linked,fun _ => ⟨[],0,[],[],1,[]⟩,[],[],[]⟩
lemma linked_connected : Connected begun.net 1 2 :=
 ⟨_,11,_,_,12,_,rfl,rfl,rfl,rfl,rfl,rfl,rfl,rfl,rfl,rfl,rfl,rfl⟩
lemma begun_settled : Settled begun 2 := ⟨⟨rfl,fun _ => rfl⟩,rfl,rfl⟩
theorem stream_ordered_three : Along (step 1 2) (Ordered 2) (Handed 1 2) begun
  [.recvmsg 20 2,.sendmsg 21 none none none [[1,2],[3]],.recvmsg 20 9] :=
 stream_ordered begun 1 2 linked_connected begun_settled _ (by decide +kernel)
theorem sent_to_other_counted : Connected begun.net 1 2 ∧ Settled begun 2 ∧
  ∃ s, run (step 1 2) begun [.sendmsg 21 (some address) (some 13) (some 3) [[1]]] = some s ∧
   (s.recv 2).recv_count = 1 ∧ (s.recv 2).recvhead = [] ∧ ¬ Ordered 2 s := by
 refine ⟨linked_connected,begun_settled,_,rfl,rfl,rfl,?_⟩
 intro ordered
 have wrong := ordered.2 ⟨rfl,?_⟩
 · cases wrong
 intro k
 show (Function.update (Function.update begun.recv 3 _) 2 _ k).recv_wait = []
 by_cases old : k = 2
 · subst old
   rfl
 rw [Function.update_of_ne old]
 by_cases new : k = 3
 · subst new
   rfl
 rw [Function.update_of_ne new]
 rfl

end
end Netbas.UnixStream
