import Netbas.Circular
import Netbas.Runs

/-!
Pipes (`drv/fs/vfs/pipe.c`), one turn of the loop of a call at a time. `pipe_correct_iff` says when
the pipe is a bounded queue: the loop of `read_pipe` is done once even when no byte is asked for.
-/
namespace Netbas.Pipes
open Runs Circular List Option
open Function
def PAGE_SIZE : Nat := 4096
def EINTR : Int := 4
structure Pipe where
 data : Nat -> UInt8
 pipe_head : Nat
 pipe_tail : Nat

/-! ### The operations -/
def PIPE_SIZE (p : Pipe) : Int := ((p.pipe_head : Int) - p.pipe_tail) % PAGE_SIZE
def PIPE_EMPTY (p : Pipe) : Bool := p.pipe_head = p.pipe_tail
def PIPE_FULL (p : Pipe) : Bool := PIPE_SIZE p = PAGE_SIZE - 1
def INC_PIPE (index : Nat) : Nat := (index + 1) % PAGE_SIZE
inductive Call where
 /-- The bytes that are still to be read, and how many have been. -/
 | read (count ret : Int)
 /-- How many bytes of the buffer have been queued, and how many are still to be. -/
 | write (buf : Nat -> UInt8) (b : Nat) (count : Int)
structure Running where
 id : Nat
 asked : Int
 call : Call
structure State where
 pipe : Pipe
 calls : Nat -> Option Running
 /-- The thread that runs; the other calls are asleep. -/
 current : Option Nat
 started : Nat
 accepted : List (Nat × UInt8)
 delivered : List (Nat × UInt8)
 /-- The calls of `read_pipe` that have returned, what they asked for and returned. -/
 reads : List (Nat × Int × Int)
 writes : List (Nat × Int)

section
variable (s : State)
section
variable (t : Nat)
section
variable (r : Running)
def State.continue (call : Call) : State :=
 {s with calls := update s.calls t (some {r with call := call})}
def State.sleep : State := {s with current := none}
def State.return_read (ret : Int) : State :=
 {s with calls := update s.calls t none, current := none, reads := (r.id,r.asked,ret) :: s.reads}
def State.return_write (ret : Int) : State :=
 {s with calls := update s.calls t none, current := none, writes := (r.id,ret) :: s.writes}
def State.take : State :=
 { s with
   pipe := {s.pipe with pipe_tail := INC_PIPE s.pipe.pipe_tail}
   delivered := s.delivered ++ [(r.id,s.pipe.data s.pipe.pipe_tail)] }
def State.queue (x : UInt8) : State :=
 { s with
   pipe := { s.pipe with
    data := update s.pipe.data s.pipe.pipe_head x
    pipe_head := INC_PIPE s.pipe.pipe_head }
   accepted := s.accepted ++ [(r.id,x)] }

/-- One turn of the loop of `read_pipe`. `count--` below the least `int` is undefined. -/
def read_turn (count ret : Int) (shared nonblock : Bool) : Option State :=
 if PIPE_EMPTY s.pipe then
  if nonblock then some (s.return_read t r (if ret = 0 then -EINTR else ret))
  else if shared then some s.sleep
  else some (s.return_read t r ret)
 else if count = -2 ^ 31 then none
 else if 0 < count - 1 then some ((s.take r).continue t r (.read (count - 1) (ret + 1)))
 else some ((s.take r).return_read t r (ret + 1))
def write_turn (buf : Nat -> UInt8) (b : Nat) (count : Int) (shared : Bool) : State :=
 if count ≤ 0 then s.return_write t r b
 else if PIPE_FULL s.pipe then if shared then s.sleep else s.return_write t r b
 else (s.queue r (buf b)).continue t r (.write buf (b + 1) (count - 1))
end
end
inductive Action where
 | read_pipe (t : Nat) (count : Int)
 | write_pipe (t : Nat) (buf : Nat -> UInt8) (count : Int)
 | resume (t : Nat)
 | turn (shared nonblock : Bool)
def State.start (t : Nat) (asked : Int) (call : Call) : Option State :=
 if s.current = none ∧ s.calls t = none ∧ -2 ^ 31 ≤ asked ∧ asked < 2 ^ 31 then
  some {s with calls := update s.calls t (some ⟨s.started,asked,call⟩), current := some t, started := s.started + 1}
 else none
def turn (shared nonblock : Bool) : Option State :=
 s.current.bind (fun t => (s.calls t).bind (fun r =>
  match r.call with
  | .read count ret => read_turn s t r count ret shared nonblock
  | .write buf b count => some (write_turn s t r buf b count shared)))
def step : Action -> Option State
 | .read_pipe t count => s.start t count (.read count 0)
 | .write_pipe t buf count => s.start t count (.write buf 0 count)
 | .resume t => if s.current = none ∧ (s.calls t).isSome then some {s with current := some t} else none
 | .turn shared nonblock => turn s shared nonblock
end
def opened (data : Nat -> UInt8) (start : Fin 4096) : State :=
 { pipe := ⟨data,start,start⟩, calls := fun _ => none, current := none, started := 0, accepted := [], delivered := [],
   reads := [], writes := [] }

/-! ### What holds of a state -/
def bytesOf (id : Nat) (log : List (Nat × UInt8)) : Nat := log.countP (fun entry => entry.1 = id)
structure Correct (s : State) : Prop where
 head : s.pipe.pipe_head < PAGE_SIZE
 tail : s.pipe.pipe_tail < PAGE_SIZE
 fifo : s.delivered.map Prod.snd <+: s.accepted.map Prod.snd
 pending : s.accepted.length ≤ s.delivered.length + 4095
 /-- A read returns the number of its bytes, which is at most what it asked for, or `-EINTR`
   when it got none. -/
 reads : ∀ entry ∈ s.reads, entry.2.2 ≤ max entry.2.1 0 ∧
  (entry.2.2 = bytesOf entry.1 s.delivered ∨ entry.2.2 = -EINTR ∧ bytesOf entry.1 s.delivered = 0)
 writes : ∀ entry ∈ s.writes, entry.2 = bytesOf entry.1 s.accepted

/-- No call of `read_pipe` that asks for nothing finds a byte. -/
def Kept (s : State) (a : Action) : Prop :=
 (step s a).isSome ->
  match a with
  | .turn _ _ => ∀ t ∈ s.current, ∀ r ∈ s.calls t, ∀ count ret, r.call = .read count ret -> count ≤ 0 -> PIPE_EMPTY s.pipe
  | _ => True

variable {s s' : State} {t : Nat} {r : Running}

/-! ### The queue -/
def Pipe.bytes (p : Pipe) : List UInt8 := contents PAGE_SIZE p.data p.pipe_tail (distance PAGE_SIZE p.pipe_head p.pipe_tail)

variable {p : Pipe}
lemma PIPE_SIZE_eq (tail : p.pipe_tail < PAGE_SIZE) :
 PIPE_SIZE p = distance PAGE_SIZE p.pipe_head p.pipe_tail := by
 simp only [PIPE_SIZE,distance,PAGE_SIZE] at *
 omega
lemma INC_PIPE_lt (index : Nat) : INC_PIPE index < PAGE_SIZE := Nat.mod_lt _ (by decide)
lemma bytes_take (head : p.pipe_head < PAGE_SIZE) (tail : p.pipe_tail < PAGE_SIZE) (some : PIPE_EMPTY p = false) :
 p.bytes = p.data p.pipe_tail :: ({p with pipe_tail := INC_PIPE p.pipe_tail} : Pipe).bytes := by
 have ne : p.pipe_head ≠ p.pipe_tail := by simpa [PIPE_EMPTY] using some
 have fewer := distance_pop head tail ne
 rw [Pipe.bytes,<- fewer,contents_pop,Nat.mod_eq_of_lt tail]
 rfl
lemma bytes_queue (x : UInt8) (head : p.pipe_head < PAGE_SIZE) (tail : p.pipe_tail < PAGE_SIZE)
 (room : PIPE_FULL p = false) :
 ({p with data := update p.data p.pipe_head x, pipe_head := INC_PIPE p.pipe_head} : Pipe).bytes = p.bytes ++ [x] := by
 have lt : distance PAGE_SIZE p.pipe_head p.pipe_tail < PAGE_SIZE := distance_lt (by decide)
 have size := PIPE_SIZE_eq tail
 have free : distance PAGE_SIZE p.pipe_head p.pipe_tail + 1 < PAGE_SIZE := by
  simp only [PIPE_FULL,size,decide_eq_false_iff_not] at room
  simp only [PAGE_SIZE] at *
  omega
 have place := head_eq head tail
 have longer := distance_push free
 have pushed := contents_push p.data p.pipe_tail x lt
 rw [place] at pushed
 rw [Pipe.bytes,INC_PIPE,longer]
 exact pushed
lemma bytesOf_append (id : Nat) (log : List (Nat × UInt8)) (owner : Nat) (x : UInt8) :
 bytesOf id (log ++ [(owner,x)]) = bytesOf id log + (if owner = id then 1 else 0) := by
 simp only [bytesOf,countP_append,countP_singleton,decide_eq_true_eq]

/-! ### The invariant -/
structure Progress (s : State) (r : Running) : Prop where
 old : r.id < s.started
 open_read : ∀ entry ∈ s.reads, entry.1 ≠ r.id
 open_write : ∀ entry ∈ s.writes, entry.1 ≠ r.id
 read : ∀ count ret, r.call = .read count ret -> ret = bytesOf r.id s.delivered ∧ count + ret = r.asked ∧ (0 ≤ count ∨ ret = 0)
 write : ∀ buf b count, r.call = .write buf b count -> b = bytesOf r.id s.accepted
structure Sound (s : State) : Prop where
 head : s.pipe.pipe_head < PAGE_SIZE
 tail : s.pipe.pipe_tail < PAGE_SIZE
 queue : s.accepted.map Prod.snd = s.delivered.map Prod.snd ++ s.pipe.bytes
 reads : ∀ entry ∈ s.reads, entry.1 < s.started ∧ entry.2.2 ≤ max entry.2.1 0 ∧
  (entry.2.2 = bytesOf entry.1 s.delivered ∨ entry.2.2 = -EINTR ∧ bytesOf entry.1 s.delivered = 0)
 writes : ∀ entry ∈ s.writes, entry.1 < s.started ∧ entry.2 = bytesOf entry.1 s.accepted
 calls : ∀ t r, s.calls t = some r -> Progress s r
 apart : ∀ t u r q, s.calls t = some r -> s.calls u = some q -> t ≠ u -> r.id ≠ q.id
 fresh : ∀ id, s.started ≤ id -> bytesOf id s.accepted = 0 ∧ bytesOf id s.delivered = 0
lemma Sound.correct (ok : Sound s) : Correct s := by
 refine ⟨ok.head,ok.tail,⟨s.pipe.bytes,ok.queue.symm⟩,?_,fun entry mem => (ok.reads entry mem).2,
  fun entry mem => (ok.writes entry mem).2⟩
 have lengths := congrArg List.length ok.queue
 have lt : distance PAGE_SIZE s.pipe.pipe_head s.pipe.pipe_tail < PAGE_SIZE := distance_lt (by decide)
 simp only [length_map,length_append,Pipe.bytes,contents_length] at lengths
 simp only [PAGE_SIZE] at lt lengths
 omega
lemma opened_sound (data : Nat -> UInt8) (start : Fin 4096) : Sound (opened data start) := by
 refine ⟨start.isLt,start.isLt,?_,?_,?_,?_,?_,?_⟩
 · have none := (distance_eq_zero start.isLt start.isLt).mpr rfl
   simp only [opened,Pipe.bytes,PAGE_SIZE,none]
   rfl
 · intro entry mem
   simp [opened] at mem
 · intro entry mem
   simp [opened] at mem
 · intro t r call
   simp [opened] at call
 · intro t u r q call
   simp [opened] at call
 intro id _
 simp [opened,bytesOf]

variable {q : Running}
lemma Progress.mono (prog : Progress s q) (started : s.started ≤ s'.started)
 (reads : ∀ entry ∈ s'.reads, entry ∈ s.reads ∨ entry.1 ≠ q.id) (writes : ∀ entry ∈ s'.writes, entry ∈ s.writes ∨ entry.1 ≠ q.id)
 (delivered : bytesOf q.id s'.delivered = bytesOf q.id s.delivered)
 (took : bytesOf q.id s'.accepted = bytesOf q.id s.accepted) : Progress s' q := by
 refine ⟨by have := prog.old; omega,?_,?_,?_,?_⟩
 · intro entry mem
   rcases reads entry mem with pre | ne
   · exact prog.open_read entry pre
   · exact ne
 · intro entry mem
   rcases writes entry mem with pre | ne
   · exact prog.open_write entry pre
   · exact ne
 · intro count ret call
   rw [delivered]
   exact prog.read count ret call
 intro buf b count call
 rw [took]
 exact prog.write buf b count call
lemma Sound.sleep (ok : Sound s) : Sound s.sleep :=
 ⟨ok.head,ok.tail,ok.queue,ok.reads,ok.writes,
  fun t r call => (ok.calls t r call).mono le_rfl (fun _ mem => .inl mem) (fun _ mem => .inl mem) rfl rfl,
  ok.apart,ok.fresh⟩

variable {u : Nat}
lemma Sound.others (ok : Sound s) (call : s.calls t = some r)
 (ne : update s.calls t none u = some q) : u ≠ t ∧ s.calls u = some q ∧ r.id ≠ q.id := by
 by_cases eq : u = t
 · subst eq
   simp at ne
 rw [update_of_ne eq] at ne
 exact ⟨eq,ne,ok.apart t u r q call ne (Ne.symm eq)⟩
lemma Sound.apart_return (ok : Sound s) (call : s.calls t = some r) {w : Nat} {q' : Running}
 (fst : update s.calls t none u = some q) (snd : update s.calls t none w = some q') (distinct : u ≠ w) :
 q.id ≠ q'.id := by
 obtain ⟨_,fst,_⟩ := ok.others call fst
 obtain ⟨_,snd,_⟩ := ok.others call snd
 exact ok.apart u w q q' fst snd distinct
lemma Sound.late_ne (ok : Sound s) (call : s.calls t = some r) {id : Nat} (late : s.started ≤ id) : id ≠ r.id := by
 have := (ok.calls t r call).old
 omega

variable {ret : Int}
lemma Sound.return_read (ok : Sound s) (call : s.calls t = some r) (enough : ret ≤ max r.asked 0)
 (bytes : ret = bytesOf r.id s.delivered ∨ ret = -EINTR ∧ bytesOf r.id s.delivered = 0) : Sound (s.return_read t r ret) := by
 refine ⟨ok.head,ok.tail,ok.queue,?_,ok.writes,?_,?_,ok.fresh⟩
 · exact forall_mem_cons.mpr ⟨⟨(ok.calls t r call).old,enough,bytes⟩,ok.reads⟩
 · intro u q ne
   obtain ⟨_,pre,apart⟩ := ok.others call ne
   refine (ok.calls u q pre).mono le_rfl ?_ (fun _ mem => .inl mem) rfl rfl
   intro entry mem
   rcases mem_cons.mp mem with rfl | old
   · exact .inr apart
   · exact .inl old
 intro u w q q' fst snd distinct
 exact ok.apart_return call fst snd distinct
lemma Sound.return_write (ok : Sound s) (call : s.calls t = some r) (bytes : ret = bytesOf r.id s.accepted) :
 Sound (s.return_write t r ret) := by
 refine ⟨ok.head,ok.tail,ok.queue,ok.reads,?_,?_,?_,ok.fresh⟩
 · exact forall_mem_cons.mpr ⟨⟨(ok.calls t r call).old,bytes⟩,ok.writes⟩
 · intro u q ne
   obtain ⟨_,pre,apart⟩ := ok.others call ne
   refine (ok.calls u q pre).mono le_rfl (fun _ mem => .inl mem) ?_ rfl rfl
   intro entry mem
   rcases mem_cons.mp mem with rfl | old
   · exact .inr apart
   · exact .inl old
 intro u w q q' fst snd distinct
 exact ok.apart_return call fst snd distinct

/-! ### Turns -/
lemma return_after_continue (s : State) (t : Nat) (r : Running) (call : Call) (ret : Int) :
 (s.continue t r call).return_read t {r with call := call} ret = s.return_read t r ret := by
 simp [State.return_read,State.continue,update_idem]
lemma continue_cases {call : Call} (hit : (s.continue t r call).calls u = some q) :
 u = t ∧ q = {r with call := call} ∨ u ≠ t ∧ s.calls u = some q := by
 by_cases eq : u = t
 · subst eq
   simp only [State.continue,update_self,some.injEq] at hit
   exact .inl ⟨rfl,hit.symm⟩
 simp only [State.continue,update_of_ne eq] at hit
 exact .inr ⟨eq,hit⟩
lemma Sound.apart_continue (ok : Sound s) (runs : s.calls t = some r) (call : Call) {w : Nat} {q' : Running}
 (fst : (s.continue t r call).calls u = some q) (snd : (s.continue t r call).calls w = some q') (distinct : u ≠ w) :
 q.id ≠ q'.id := by
 rcases continue_cases fst with ⟨rfl,rfl⟩ | ⟨_,pre⟩ <;> rcases continue_cases snd with ⟨rfl,rfl⟩ | ⟨_,before'⟩
 · exact absurd rfl distinct
 · exact ok.apart u w r q' runs before' distinct
 · exact ok.apart u w q r pre runs distinct
 · exact ok.apart u w q q' pre before' distinct

variable {count : Int}
lemma Sound.take (ok : Sound s) (runs : s.calls t = some r) (reading : r.call = .read count ret)
 (some : PIPE_EMPTY s.pipe = false) (more : 0 < count) : Sound ((s.take r).continue t r (.read (count - 1) (ret + 1))) := by
 have prog := ok.calls t r runs
 obtain ⟨bytes,total,_⟩ := prog.read count ret reading
 have others : ∀ id ≠ r.id, bytesOf id ((s.take r).delivered) = bytesOf id s.delivered := by
  intro id ne
  rw [State.take,bytesOf_append,if_neg (Ne.symm ne),Nat.add_zero]
 refine ⟨ok.head,INC_PIPE_lt _,?_,?_,ok.writes,?_,?_,?_⟩
 · have front := bytes_take ok.head ok.tail some
   have queue := ok.queue
   rw [front] at queue
   simp only [State.continue,State.take,map_append,map_cons,map_nil,append_assoc,cons_append,nil_append]
   exact queue
 · intro entry mem
   obtain ⟨old,enough,delivered⟩ := ok.reads entry mem
   refine ⟨old,enough,?_⟩
   change entry.2.2 = bytesOf entry.1 (s.take r).delivered ∨ entry.2.2 = -EINTR ∧ bytesOf entry.1 (s.take r).delivered = 0
   rw [others entry.1 (prog.open_read entry mem)]
   exact delivered
 · intro u q hit
   rcases continue_cases hit with ⟨rfl,rfl⟩ | ⟨ne,pre⟩
   · refine ⟨prog.old,prog.open_read,prog.open_write,?_,?_⟩
     · intro count' ret' eq
       cases eq
       refine ⟨?_,show count - 1 + (ret + 1) = r.asked by omega,.inl (by omega)⟩
       change ret + 1 = bytesOf r.id (s.take r).delivered
       rw [State.take,bytesOf_append,if_pos rfl,bytes]
       push_cast
       rfl
     intro buf b count' eq
     cases eq
   have apart : q.id ≠ r.id := ok.apart u t q r pre runs ne
   exact (ok.calls u q pre).mono le_rfl (fun _ mem => .inl mem) (fun _ mem => .inl mem) (others q.id apart) rfl
 · intro u w q q' fst snd distinct
   exact ok.apart_continue runs _ fst snd distinct
 intro id late
 have ne := ok.late_ne runs late
 refine ⟨(ok.fresh id late).1,?_⟩
 change bytesOf id (s.take r).delivered = 0
 rw [others id ne]
 exact (ok.fresh id late).2
lemma Sound.enqueue (ok : Sound s) (runs : s.calls t = some r) {buf : Nat -> UInt8} {b : Nat}
 (writing : r.call = .write buf b count) (room : PIPE_FULL s.pipe = false) :
 Sound ((s.queue r (buf b)).continue t r (.write buf (b + 1) (count - 1))) := by
 have prog := ok.calls t r runs
 have bytes := prog.write buf b count writing
 have others : ∀ id ≠ r.id, bytesOf id ((s.queue r (buf b)).accepted) = bytesOf id s.accepted := by
  intro id ne
  rw [State.queue,bytesOf_append,if_neg (Ne.symm ne),Nat.add_zero]
 refine ⟨INC_PIPE_lt _,ok.tail,?_,ok.reads,?_,?_,?_,?_⟩
 · have longer := bytes_queue (buf b) ok.head ok.tail room
   simp only [State.continue,State.queue,map_append,map_cons,map_nil]
   rw [longer,ok.queue,append_assoc]
 · intro entry mem
   obtain ⟨old,accepted⟩ := ok.writes entry mem
   refine ⟨old,?_⟩
   change entry.2 = bytesOf entry.1 (s.queue r (buf b)).accepted
   rw [others entry.1 (prog.open_write entry mem)]
   exact accepted
 · intro u q hit
   rcases continue_cases hit with ⟨rfl,rfl⟩ | ⟨ne,pre⟩
   · refine ⟨prog.old,prog.open_read,prog.open_write,?_,?_⟩
     · intro count' ret' eq
       cases eq
     intro buf' b' count' eq
     cases eq
     change b + 1 = bytesOf r.id (s.queue r (buf b)).accepted
     rw [State.queue,bytesOf_append,if_pos rfl,bytes]
   have apart : q.id ≠ r.id := ok.apart u t q r pre runs ne
   exact (ok.calls u q pre).mono le_rfl (fun _ mem => .inl mem) (fun _ mem => .inl mem) rfl (others q.id apart)
 · intro u w q q' fst snd distinct
   exact ok.apart_continue runs _ fst snd distinct
 intro id late
 have ne := ok.late_ne runs late
 refine ⟨?_,(ok.fresh id late).2⟩
 change bytesOf id (s.queue r (buf b)).accepted = 0
 rw [others id ne]
 exact (ok.fresh id late).1
lemma Sound.read_turn {shared nonblock : Bool} (ok : Sound s) (runs : s.calls t = some r)
 (reading : r.call = .read count ret) (kept : count ≤ 0 -> PIPE_EMPTY s.pipe)
 (ran : read_turn s t r count ret shared nonblock = some s') : Sound s' := by
 obtain ⟨bytes,total,low⟩ := (ok.calls t r runs).read count ret reading
 have enough : ret ≤ max r.asked 0 := by omega
 rw [Pipes.read_turn] at ran
 split at ran
 · split at ran
   · cases ran
     split
     · rename_i none
       refine ok.return_read runs ?_ (.inr ⟨rfl,by omega⟩)
       simp only [EINTR]
       omega
     · exact ok.return_read runs enough (.inl bytes)
   split at ran
   · cases ran
     exact ok.sleep
   cases ran
   exact ok.return_read runs enough (.inl bytes)
 rename_i some
 have some : PIPE_EMPTY s.pipe = false := by simpa using some
 have more : 0 < count := by
  by_contra none
  rw [kept (by omega)] at some
  cases some
 obtain ⟨_,ran⟩ := ite_none_left_eq_some.mp ran
 have next := ok.take runs reading some more
 split at ran
 · cases ran
   exact next
 cases ran
 rw [<- return_after_continue (s.take r) t r (.read (count - 1) (ret + 1)) (ret + 1)]
 have going : ((s.take r).continue t r (.read (count - 1) (ret + 1))).calls t =
   Option.some {r with call := .read (count - 1) (ret + 1)} := by simp [State.continue]
 obtain ⟨bytes',total',_⟩ := (next.calls t _ going).read _ _ rfl
 exact next.return_read going (by simp only; omega) (.inl bytes')
lemma Sound.write_turn {buf : Nat -> UInt8} {b : Nat} {shared : Bool} (ok : Sound s) (runs : s.calls t = some r)
 (writing : r.call = .write buf b count) : Sound (write_turn s t r buf b count shared) := by
 have bytes : (b : Int) = bytesOf r.id s.accepted := by
  rw [<- (ok.calls t r runs).write buf b count writing]
 rw [Pipes.write_turn]
 split
 · exact ok.return_write runs bytes
 split
 · split
   · exact ok.sleep
   · exact ok.return_write runs bytes
 rename_i room
 exact ok.enqueue runs writing (by simpa using room)

/-! ### Runs -/
lemma Sound.start {asked : Int} {call : Call} (ok : Sound s) (read : ∀ count ret, call = .read count ret -> count = asked ∧ ret = 0)
 (write : ∀ buf b count, call = .write buf b count -> b = 0) (ran : s.start t asked call = some s') : Sound s' := by
 obtain ⟨⟨_,idle,_⟩,ran⟩ := ite_none_right_eq_some.mp ran
 cases ran
 have cases : ∀ u q, update s.calls t (some ⟨s.started,asked,call⟩) u = some q ->
   u = t ∧ q = ⟨s.started,asked,call⟩ ∨ u ≠ t ∧ s.calls u = some q := by
  intro u q hit
  by_cases eq : u = t
  · subst eq
    rw [update_self,some.injEq] at hit
    exact .inl ⟨rfl,hit.symm⟩
  rw [update_of_ne eq] at hit
  exact .inr ⟨eq,hit⟩
 obtain ⟨took,delivered⟩ := ok.fresh s.started le_rfl
 refine ⟨ok.head,ok.tail,ok.queue,?_,?_,?_,?_,?_⟩
 · intro entry mem
   obtain ⟨old,rest⟩ := ok.reads entry mem
   exact ⟨Nat.lt_succ_of_lt old,rest⟩
 · intro entry mem
   obtain ⟨old,rest⟩ := ok.writes entry mem
   exact ⟨Nat.lt_succ_of_lt old,rest⟩
 · intro u q hit
   rcases cases u q hit with ⟨_,rfl⟩ | ⟨_,pre⟩
   · refine ⟨Nat.lt_succ_self _,?_,?_,?_,?_⟩
     · intro entry mem
       exact Nat.ne_of_lt (ok.reads entry mem).1
     · intro entry mem
       exact Nat.ne_of_lt (ok.writes entry mem).1
     · intro count ret eq
       obtain ⟨rfl,rfl⟩ := read count ret eq
       exact ⟨by simp [delivered],by simp,.inr rfl⟩
     intro buf b count eq
     obtain rfl := write buf b count eq
     exact took.symm
   · exact (ok.calls u q pre).mono (Nat.le_succ _) (fun _ mem => .inl mem) (fun _ mem => .inl mem) rfl rfl
 · intro u w q q' fst snd distinct
   rcases cases u q fst with ⟨rfl,rfl⟩ | ⟨_,pre⟩ <;> rcases cases w q' snd with ⟨rfl,rfl⟩ | ⟨_,before'⟩
   · exact absurd rfl distinct
   · exact Nat.ne_of_gt (ok.calls w q' before').old
   · exact Nat.ne_of_lt (ok.calls u q pre).old
   · exact ok.apart u w q q' pre before' distinct
 intro id late
 exact ok.fresh id (Nat.le_of_succ_le late)
lemma step_sound (a : Action) (ok : Sound s) (kept : Kept s a) (ran : step s a = some s') : Sound s' := by
 have kept := kept (by simp [ran])
 cases a with
 | read_pipe t count =>
  refine ok.start ?_ ?_ ran
  · rintro count' ret ⟨⟩
    exact ⟨rfl,rfl⟩
  · rintro buf b count' ⟨⟩
 | write_pipe t buf count =>
  refine ok.start ?_ ?_ ran
  · rintro count' ret ⟨⟩
  rintro buf' b count' ⟨⟩
  rfl
 | resume t =>
  obtain ⟨_,ran⟩ := ite_none_right_eq_some.mp ran
  cases ran
  exact ⟨ok.head,ok.tail,ok.queue,ok.reads,ok.writes,
   fun u q hit => (ok.calls u q hit).mono le_rfl (fun _ mem => .inl mem) (fun _ mem => .inl mem) rfl rfl,
   ok.apart,ok.fresh⟩
 | turn shared nonblock =>
  obtain ⟨t,cur,ran⟩ := bind_eq_some_iff.mp ran
  obtain ⟨r,runs,ran⟩ := bind_eq_some_iff.mp ran
  cases call : r.call with
  | read count ret =>
   rw [call] at ran
   exact ok.read_turn runs call (kept t cur r runs count ret call) ran
  | write buf b count =>
   rw [call] at ran
   cases ran
   exact ok.write_turn runs call
lemma step_broken (a : Action) (ok : Sound s) (out : ¬ Kept s a) : ∃ s', step s a = some s' ∧ ¬ Correct s' := by
 obtain ⟨able,out⟩ := Classical.not_imp.mp out
 obtain ⟨s',ran⟩ := isSome_iff_exists.mp able
 refine ⟨s',ran,?_⟩
 cases a with
 | read_pipe t count => exact absurd trivial out
 | write_pipe t buf count => exact absurd trivial out
 | resume t => exact absurd trivial out
 | turn shared nonblock =>
  simp only [not_forall] at out
  obtain ⟨t,cur,r,runs,count,ret,call,none,some⟩ := out
  obtain ⟨bytes,total,low⟩ := (ok.calls t r runs).read count ret call
  have turned : step s (.turn shared nonblock) = read_turn s t r count ret shared nonblock := by
   simp only [step,turn,mem_def.mp cur,mem_def.mp runs,bind_some,call]
  rw [turned,read_turn,if_neg some] at ran
  obtain ⟨_,ran⟩ := ite_none_left_eq_some.mp ran
  rw [if_neg (by omega)] at ran
  cases ran
  intro correct
  have returned := (correct.reads (r.id,r.asked,ret + 1) (by simp [State.return_read])).1
  simp only at returned
  omega
theorem pipe_correct_iff (data : Nat -> UInt8) (start : Fin 4096) (actions : List Action) :
 Along step Correct (fun _ _ => True) (opened data start) actions ↔ Meets step Kept (opened data start) actions := by
 refine along_iff (I := Sound) (fun s sound => sound.correct) (fun _ _ _ _ => trivial) ?_ ?_ actions _ (opened_sound data start)
 · intro s a s' sound kept taken
   exact step_sound a sound kept taken
 intro s a sound out _
 exact step_broken a sound out
theorem read_nothing_returns_one :
 (run step (opened (fun _ => 0) 0) [.write_pipe 0 (fun _ => 65) 1,.turn true false,.turn true false,.read_pipe 1 0,
  .turn true false]).map (fun s => (s.reads,s.delivered)) = some ([(1,0,1)],[(1,65)]) := by
 decide +kernel

end Netbas.Pipes
