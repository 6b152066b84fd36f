import Netbas.Runs
import Netbas.Circular

/-!
The keyboard queues of the consoles (`clist.c`, `tty.c`), which all use the buffer `g_vc0_buf`.
`queues_iff`: they are queues as long as no character is put where another console has a different
one waiting.
-/
namespace Netbas.Keystrokes
open Runs Circular List Option
open Function
universe u
def NR_TTY : Nat := 10
def KBD_BUF_SIZE : Nat := 64
def g_vc0_buf : Nat := 0
structure KeyQueue where
 data : Nat
 size : Nat
 in_ptr : Nat
 out_ptr : Nat
deriving DecidableEq

variable (q : KeyQueue)
def inq (memory : Nat -> Nat -> UInt8) (data : UInt8) : Int × KeyQueue × (Nat -> Nat -> UInt8) :=
 let i := if q.size ≤ q.in_ptr + 1 then 0 else q.in_ptr + 1
 if i = q.out_ptr then (-1,q,memory)
 else
  (0,{q with in_ptr := i},update memory q.data (update (memory q.data) q.in_ptr data))
def deq (memory : Nat -> Nat -> UInt8) : Option UInt8 × KeyQueue :=
 if q.out_ptr = q.in_ptr then (none,q)
 else
  (some (memory q.data q.out_ptr),{q with out_ptr := if q.size ≤ q.out_ptr + 1 then 0 else q.out_ptr + 1})

/-- `enqueued` and `dequeued` are the characters of each console so far. -/
structure State (Con : Type u) where
 tty : Nat -> Option Con
 keystrokes : Con -> KeyQueue
 memory : Nat -> Nat -> UInt8
 enqueued : Con -> List UInt8
 dequeued : Con -> List UInt8

section
variable {Con : Type u} [DecidableEq Con]
def regster_console_device (s : State Con) : Option Con -> Int × State Con
 | none => (-1,s)
 | some con =>
  match (range NR_TTY).find? (fun i => (s.tty i).isNone) with
  | none => (-2,s)
  | some i =>
   (i,{ s with tty := update s.tty i (some con),
               keystrokes := update s.keystrokes con ⟨g_vc0_buf,KBD_BUF_SIZE,0,0⟩ })

variable (keystrokes : Con -> KeyQueue)
/-- Consoles are registered after `tty_init`; what their structures and the buffer held
  before is arbitrary. -/
def registered (memory : Nat -> Nat -> UInt8) (cons : List (Option Con)) : State Con :=
 cons.foldl (fun s con => (regster_console_device s con).2)
  ⟨fun _ => none,keystrokes,memory,fun _ => [],fun _ => []⟩

section
variable (s : State Con)
def Registered (con : Con) : Prop := ∃ i ∈ range NR_TTY, s.tty i = some con
instance (s : State Con) (con : Con) : Decidable (Registered s con) :=
 inferInstanceAs (Decidable (∃ i ∈ range NR_TTY, s.tty i = some con))
inductive Action (Con : Type u) where
 | inq (con : Con) (data : UInt8)
 | deq (con : Con)
deriving DecidableEq
def Action.con : Action Con -> Con
 | .inq con _ => con
 | .deq con => con
def State.inq (s : State Con) (con : Con) (data : UInt8) : State Con :=
 let (rc,q,memory) := Keystrokes.inq (s.keystrokes con) s.memory data
 { s with keystrokes := update s.keystrokes con q, memory := memory,
          enqueued := if rc = 0 then update s.enqueued con (s.enqueued con ++ [data]) else s.enqueued }
def State.deq (s : State Con) (con : Con) : State Con :=
 let (byte,q) := Keystrokes.deq (s.keystrokes con) s.memory
 { s with keystrokes := update s.keystrokes con q,
          dequeued := update s.dequeued con (s.dequeued con ++ byte.toList) }
def step : Action Con -> Option (State Con)
 | .inq con data => if Registered s con then some (s.inq con data) else none
 | .deq con => if Registered s con then some (s.deq con) else none
def pending (con : Con) : List UInt8 :=
 let q := s.keystrokes con
 contents q.size (s.memory q.data) q.out_ptr (distance q.size q.in_ptr q.out_ptr)
def Fifo : Prop := ∀ con, Registered s con -> s.dequeued con <+: s.enqueued con
def Apart (action : Action Con) : Prop :=
 ∀ s', step s action = some s' -> ∀ ne, ne ≠ action.con -> Registered s ne -> pending s' ne = pending s ne
def Room : Prop := (if q.size ≤ q.in_ptr + 1 then 0 else q.in_ptr + 1) ≠ q.out_ptr

/-- A character is not put where another console has a different one waiting. -/
def Kept : Action Con -> Prop
 | .inq con data => Registered s con -> Room (s.keystrokes con) -> ∀ ne, ne ≠ con -> Registered s ne ->
   ∀ i < distance KBD_BUF_SIZE (s.keystrokes ne).in_ptr (s.keystrokes ne).out_ptr,
    ((s.keystrokes ne).out_ptr + i) % KBD_BUF_SIZE = (s.keystrokes con).in_ptr ->
     s.memory g_vc0_buf (s.keystrokes con).in_ptr = data
 | .deq _ => True
end

variable {s s' : State Con} {con : Con} {data : UInt8}
structure Ready (q : KeyQueue) : Prop where
 data : q.data = g_vc0_buf
 size : q.size = KBD_BUF_SIZE
 in_ptr : q.in_ptr < KBD_BUF_SIZE
 out_ptr : q.out_ptr < KBD_BUF_SIZE
structure Inv (s : State Con) : Prop where
 ready : ∀ con, Registered s con -> Ready (s.keystrokes con)
 kept : ∀ con, Registered s con -> s.enqueued con = s.dequeued con ++ pending s con
lemma wrap_eq {i : Nat} (lt : i < KBD_BUF_SIZE) :
 (if KBD_BUF_SIZE ≤ i + 1 then 0 else i + 1) = (i + 1) % KBD_BUF_SIZE := by
 split_ifs with last
 · have : i + 1 = KBD_BUF_SIZE := by omega
   rw [this,Nat.mod_self]
 · rw [Nat.mod_eq_of_lt (by omega)]
lemma pending_eq (ready : Ready (s.keystrokes con)) : pending s con =
 contents KBD_BUF_SIZE (s.memory g_vc0_buf) (s.keystrokes con).out_ptr
  (distance KBD_BUF_SIZE (s.keystrokes con).in_ptr (s.keystrokes con).out_ptr) := by
 simp only [pending,ready.data,ready.size]
lemma room_iff {q : KeyQueue} (ready : Ready q) : Room q ↔ distance KBD_BUF_SIZE q.in_ptr q.out_ptr + 1 < KBD_BUF_SIZE := by
 have lt : distance KBD_BUF_SIZE q.in_ptr q.out_ptr < KBD_BUF_SIZE := distance_lt (by decide)
 rw [Room,ready.size,wrap_eq ready.in_ptr,Ne,next_eq_iff ready.in_ptr ready.out_ptr]
 omega
lemma inq_full (full : ¬ Room (s.keystrokes con)) : s.inq con data = s := by
 have eq : Keystrokes.inq (s.keystrokes con) s.memory data = (-1,s.keystrokes con,s.memory) := if_pos (not_not.mp full)
 simp [State.inq,eq]
section
variable (ready : Ready (s.keystrokes con))
include ready
lemma inq_room (room : Room (s.keystrokes con)) : s.inq con data =
  { s with
    keystrokes := update s.keystrokes con
     {s.keystrokes con with in_ptr := ((s.keystrokes con).in_ptr + 1) % KBD_BUF_SIZE},
    memory := update s.memory g_vc0_buf
     (update (s.memory g_vc0_buf) (s.keystrokes con).in_ptr data),
    enqueued := update s.enqueued con (s.enqueued con ++ [data]) } := by
 have stored : Keystrokes.inq (s.keystrokes con) s.memory data =
   (0,{s.keystrokes con with in_ptr := ((s.keystrokes con).in_ptr + 1) % KBD_BUF_SIZE},
    update s.memory g_vc0_buf (update (s.memory g_vc0_buf) (s.keystrokes con).in_ptr data)) := by
  rw [<- wrap_eq ready.in_ptr,<- ready.size,<- ready.data]
  exact if_neg room
 simp [State.inq,stored]
lemma pending_inq (room : Room (s.keystrokes con)) :
 pending (s.inq con data) con = pending s con ++ [data] := by
 have more := (room_iff ready).mp room
 rw [pending_eq ready,inq_room ready room]
 simp only [pending,update_self,ready.data,ready.size]
 rw [distance_push more]
 have cell := head_eq ready.in_ptr ready.out_ptr
 nth_rewrite 1 [<- cell]
 exact contents_push _ _ _ (by omega)
lemma pending_inq_other {ne : Con} (ready' : Ready (s.keystrokes ne))
 (room : Room (s.keystrokes con)) (different : ne ≠ con) :
 pending (s.inq con data) ne = pending s ne ↔
  ∀ i < distance KBD_BUF_SIZE (s.keystrokes ne).in_ptr (s.keystrokes ne).out_ptr,
   ((s.keystrokes ne).out_ptr + i) % KBD_BUF_SIZE = (s.keystrokes con).in_ptr ->
    s.memory g_vc0_buf (s.keystrokes con).in_ptr = data := by
 rw [pending_eq ready',inq_room ready room]
 simp only [pending,update_of_ne different,ready'.data,ready'.size,update_self]
 exact contents_update_iff _ _ _ _ _
end
lemma deq_empty (empty : (s.keystrokes con).out_ptr = (s.keystrokes con).in_ptr) : s.deq con = s := by
 simp [State.deq,Keystrokes.deq,empty]
lemma deq_some (ready : Ready (s.keystrokes con)) (some : (s.keystrokes con).out_ptr ≠ (s.keystrokes con).in_ptr) :
  s.deq con =
   { s with
     keystrokes := update s.keystrokes con
      {s.keystrokes con with out_ptr := ((s.keystrokes con).out_ptr + 1) % KBD_BUF_SIZE},
     dequeued := update s.dequeued con
      (s.dequeued con ++ [s.memory g_vc0_buf (s.keystrokes con).out_ptr]) } := by
 simp only [State.deq,Keystrokes.deq,some,if_false,toList_some,ready.size,ready.data,wrap_eq ready.out_ptr]
lemma pending_deq (ready : Ready (s.keystrokes con)) (some : (s.keystrokes con).out_ptr ≠ (s.keystrokes con).in_ptr) :
 pending s con = s.memory g_vc0_buf (s.keystrokes con).out_ptr :: pending (s.deq con) con := by
 rw [pending_eq ready,deq_some ready some]
 simp only [pending,update_self,ready.data,ready.size]
 rw [<- distance_pop ready.in_ptr ready.out_ptr some.symm,contents_pop,Nat.mod_eq_of_lt ready.out_ptr]
lemma pending_deq_other {other : Con} (different : other ≠ con) : pending (s.deq con) other = pending s other := by
 simp only [pending,State.deq,update_of_ne different]
lemma inq_inv (inv : Inv s) (known : Registered s con) (kept : Kept s (.inq con data)) : Inv (s.inq con data) := by
 by_cases room : Room (s.keystrokes con)
 swap
 · rw [inq_full room]
   exact inv
 have ready := inv.ready con known
 have tty : (s.inq con data).tty = s.tty := by rw [inq_room ready room]
 constructor
 case ready =>
  intro other known'
  have known' : Registered s other := by simpa only [Registered,tty] using known'
  rw [inq_room ready room]
  by_cases eq : other = con
  · subst eq
    simp only [update_self]
    exact ⟨ready.data,ready.size,Nat.mod_lt _ (by decide),ready.out_ptr⟩
  simp only [update_of_ne eq]
  exact inv.ready other known'
 case kept =>
  intro other known'
  have known' : Registered s other := by simpa only [Registered,tty] using known'
  by_cases eq : other = con
  · subst eq
    rw [pending_inq ready room,inq_room ready room]
    simp only [update_self]
    rw [inv.kept other known,append_assoc]
  rw [(pending_inq_other ready (inv.ready other known') room eq).mpr (kept known room other eq known'),
   inq_room ready room]
  simp only [update_of_ne eq]
  exact inv.kept other known'
lemma deq_inv (inv : Inv s) (known : Registered s con) : Inv (s.deq con) := by
 by_cases some : (s.keystrokes con).out_ptr = (s.keystrokes con).in_ptr
 · rw [deq_empty some]
   exact inv
 have ready := inv.ready con known
 constructor
 case ready =>
  intro other known'
  rw [deq_some ready some]
  by_cases eq : other = con
  · subst eq
    simp only [update_self]
    exact ⟨ready.data,ready.size,ready.in_ptr,Nat.mod_lt _ (by decide)⟩
  simp only [update_of_ne eq]
  exact inv.ready other known'
 case kept =>
  intro other known'
  by_cases eq : other = con
  · subst eq
    have enqueued : (s.deq other).enqueued other = s.dequeued other ++ pending s other := inv.kept other known
    have dequeued : (s.deq other).dequeued other =
      s.dequeued other ++ [s.memory g_vc0_buf (s.keystrokes other).out_ptr] := by
     rw [deq_some ready some]
     simp
    rw [enqueued,dequeued,pending_deq ready some,append_assoc]
    rfl
  have dequeued : (s.deq con).dequeued other = s.dequeued other := by
   rw [deq_some ready some]
   simp [eq]
  rw [dequeued,pending_deq_other eq]
  exact inv.kept other known'
lemma Inv.fifo (inv : Inv s) : Fifo s := by
 intro con known
 rw [inv.kept con known]
 exact prefix_append _ _
lemma step_inv (s : State Con) (action : Action Con) (s' : State Con) (inv : Inv s) (kept : Kept s action)
 (ran : step s action = some s') : Inv s' := by
 cases action with
 | inq con data =>
  obtain ⟨known,eq⟩ := ite_none_right_eq_some.mp ran
  cases eq
  exact inq_inv inv known kept
 | deq con =>
  obtain ⟨known,eq⟩ := ite_none_right_eq_some.mp ran
  cases eq
  exact deq_inv inv known
lemma apart_iff (action : Action Con) (inv : Inv s) : Apart s action ↔ Kept s action := by
 cases action with
 | inq con data =>
  constructor
  · intro apart known room ne different known'
    have eq := apart (s.inq con data) (if_pos known) ne different known'
    exact (pending_inq_other (inv.ready con known) (inv.ready ne known') room different).mp eq
  intro kept s' ran ne different known'
  obtain ⟨known,eq⟩ := ite_none_right_eq_some.mp ran
  cases eq
  by_cases room : Room (s.keystrokes con)
  · exact (pending_inq_other (inv.ready con known) (inv.ready ne known') room different).mpr
     (kept known room ne different known')
  · rw [inq_full room]
 | deq con =>
  constructor
  · intro _
    trivial
  intro _ s' ran ne different _
  obtain ⟨known,eq⟩ := ite_none_right_eq_some.mp ran
  cases eq
  exact pending_deq_other different
structure Unused (s : State Con) : Prop where
 empty : ∀ con, Registered s con -> s.keystrokes con = ⟨g_vc0_buf,KBD_BUF_SIZE,0,0⟩
 enqueued : ∀ con, s.enqueued con = []
 dequeued : ∀ con, s.dequeued con = []
lemma Unused.regster (unused : Unused s) (con : Option Con) : Unused (regster_console_device s con).2 := by
 cases con with
 | none => exact unused
 | some con =>
  cases free : (range NR_TTY).find? (fun i => (s.tty i).isNone) with
  | none =>
   simp only [regster_console_device,free]
   exact unused
  | some i =>
   simp only [regster_console_device,free]
   refine ⟨?_,unused.enqueued,unused.dequeued⟩
   rintro ne ⟨j,mem,hit⟩
   by_cases eq : ne = con
   · subst eq
     exact update_self _ _ _
   have elsewhere : j ≠ i := by
    rintro rfl
    simp only [update_self,some.injEq] at hit
    exact eq hit.symm
   simp only [update_of_ne elsewhere] at hit
   simp only [update_of_ne eq]
   exact unused.empty ne ⟨j,mem,hit⟩
lemma Unused.inv (unused : Unused s) : Inv s := by
 constructor
 case ready =>
  intro con known
  rw [unused.empty con known]
  exact ⟨rfl,rfl,by decide,by decide⟩
 case kept =>
  intro con known
  have none : pending s con = [] := by
   rw [pending,unused.empty con known]
   rfl
  rw [unused.enqueued,unused.dequeued,none,append_nil]
lemma registered_unused (memory : Nat -> Nat -> UInt8) (cons : List (Option Con)) :
 Unused (registered keystrokes memory cons) := by
 unfold registered
 refine foldlRecOn cons _ ?_ fun s unused con _ => unused.regster con
 refine ⟨?_,fun _ => rfl,fun _ => rfl⟩
 rintro con ⟨i,_,hit⟩
 cases hit
theorem queues_iff (memory : Nat -> Nat -> UInt8) (cons : List (Option Con))
 (actions : List (Action Con)) :
 Along step Fifo Apart (registered keystrokes memory cons) actions ↔
  Meets step Kept (registered keystrokes memory cons) actions :=
 along_iff (I := Inv) (fun _ inv => inv.fifo) (fun _ action inv kept => (apart_iff action inv).mpr kept) step_inv
  (fun _ action inv out apart => absurd ((apart_iff action inv).mp apart) out) actions _
  (registered_unused keystrokes memory cons).inv

end
theorem typed_elsewhere : ∃ s, run step (registered (fun _ : Bool => ⟨0,0,0,0⟩) (fun _ _ => 0) [some false,some true])
     [.inq false 97,.inq true 98,.deq false] = some s ∧
 s.enqueued false = [97] ∧ s.dequeued false = [98] ∧ ¬ Fifo s := by
 refine ⟨_,rfl,by decide,by decide,?_⟩
 intro fifo
 have wrong := fifo false (by decide)
 revert wrong
 decide

end Netbas.Keystrokes
