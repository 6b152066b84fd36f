import Netbas.UserStack

/-!
Signals of a thread (`core/ipc/signal.c`, `cpu/i386/kernel/signal.c`). `process_signal` takes the
lowest signal that is not masked, and goes on until one has a handler (`process_signal_takes`). The
handler gets back to the interrupted program by `sigreturn` (`sigreturn_restores`).
-/
namespace Netbas.Signals
open Bytes UserStack List
def NSIG : Nat := 32
def SIGKILL : Nat := 9
def SIGSTOP : Nat := 19
def EINVAL : Int := -22
def SIG_DFL : BitVec 32 := 0
def SIG_IGN : BitVec 32 := 1
def SAONESHOT : BitVec 32 := 0x80000000
def USER_CS : BitVec 32 := 0x0f
def USER_DS : BitVec 32 := 0x17
def EFLAGS_TF : BitVec 32 := 0x100
structure Sigaction where
 sa_flags : BitVec 32
 sa_handler : BitVec 32
structure Tcb where
 signal_bits : BitVec 32
 signal_mask : BitVec 32
 sigaction : Nat -> Sigaction
structure Regs where
 (ebx ecx edx esi edi ebp eax gs fs es ds eip cs eflags user_esp user_ss : BitVec 32)
inductive Default where
 | ignore
 | terminate
 | coredump
 | sigwakeup
 | proc_stop
 deriving DecidableEq

/-- The last two entries are `NULL`. -/
def sigdefaulthandler (signo : Nat) : Option Default :=
 [.ignore,.terminate,.terminate,.coredump,.coredump,.coredump,.coredump,.ignore,.coredump,.terminate,.terminate,
  .coredump,.terminate,.terminate,.sigwakeup,.terminate,.terminate,.ignore,.ignore,.proc_stop,.proc_stop,
  .proc_stop,.proc_stop,.terminate,.ignore,.coredump,.coredump,.terminate,.ignore,.ignore][signo]?
def sigisvalid (signo : Nat) : Bool := 0 < signo ∧ signo ≤ NSIG
def bit (signo : Nat) : BitVec 32 := 1#32 <<< (signo - 1)

section
variable (t : Tcb) (signo : Nat)
def sigdelset : Int × Tcb :=
 if sigisvalid signo then (0,{t with signal_bits := t.signal_bits &&& ~~~bit signo}) else (EINVAL,t)
def sigmasked : Bool := !sigisvalid signo || t.signal_mask &&& bit signo != 0
def unmaskedsig : BitVec 32 := t.signal_bits &&& ~~~t.signal_mask
def signo_loop : Nat -> Nat -> BitVec 32 -> Nat
 | 0, _, _ => 0
 | n + 1, i, sig => if sig &&& 1 ≠ 0 then i else signo_loop n (i + 1) (sig >>> 1)
def sigrecv : Nat := signo_loop NSIG 1 (unmaskedsig t)
end

/-- The words of `sigcontext_t`: a store of 16 bits leaves the upper half of a word alone. The code at the end pushes
  `eax` and calls `sigreturn`. -/
def sigcontext (m : Memory) (addr : Nat) (regs : Regs) (signo sc : Nat) (oldsigmask : BitVec 32) : List Nat :=
 let half (i : Nat) (w : BitVec 32) : Nat := w.toNat % 2^16 + 2^16 * peek16 m (addr + (4 * i + 2))
 [sc + 76,signo,half 2 regs.gs,half 3 regs.fs,half 4 regs.es,half 5 regs.ds,regs.edi.toNat,regs.esi.toNat,
  regs.ebp.toNat,regs.user_esp.toNat,regs.ebx.toNat,regs.edx.toNat,regs.ecx.toNat,regs.eax.toNat,regs.eip.toNat,
  half 15 regs.cs,regs.eflags.toNat,half 17 regs.user_ss,oldsigmask.toNat,0x0077b850,0x80cd0000]

/-- User addresses start at `base`. -/
def setulinux_type_sigframe (base : Nat) (m : Memory) (regs : Regs) (signo : Nat) (oldsigmask : BitVec 32) :
  Memory × BitVec 32 :=
 let sc := regs.user_esp - 84
 (put_words m (base + sc.toNat) (sigcontext m (base + sc.toNat) regs signo sc.toNat oldsigmask),sc)

/-- The value gets into `eax`. -/
def sigreturn (base : Nat) (m : Memory) (t : Tcb) (regs : Regs) : BitVec 32 × Tcb × Regs :=
 let word (i : Nat) : BitVec 32 := BitVec.ofNat 32 (peek32 m (base + (regs.user_esp.toNat + 4 * i)))
 let t := (sigdelset (sigdelset t SIGKILL).2 SIGSTOP).2
 (word 13,{t with signal_mask := word 18},
  {regs with
   cs := USER_CS, user_ss := USER_DS, ds := USER_DS, es := USER_DS, fs := USER_DS, gs := USER_DS
   ebx := word 10, ecx := word 12, edx := word 11, esi := word 7, edi := word 6
   user_esp := word 9, ebp := word 8, eip := word 14, eflags := word 16 })

/-- What becomes of a signal that is taken. In the kernel (`dropped`) the call returns before the action. -/
inductive Fate where
 | ignored
 | stopped
 | dropped
 | handled
 deriving DecidableEq

/-- `none`: the entry is past the end of the table, or the default is `NULL`. -/
def fate (t : Tcb) (cs : BitVec 32) (signo : Nat) : Option Fate :=
 let sa_handler := (t.sigaction signo).sa_handler
 if signo = NSIG then none
 else if sa_handler = SIG_DFL then (sigdefaulthandler signo).map (fun d => if d = .ignore then .ignored else .stopped)
 else if cs ≠ USER_CS then some .dropped
 else if sa_handler = SIG_IGN then some .ignored
 else some .handled
structure Result where
 ret : Int
 t : Tcb
 regs : Regs
 m : Memory
 taken : List (Nat × Fate)

section
variable (base : Nat) (regs : Regs) (m : Memory)
def handle (t : Tcb) (signo : Nat) : Result :=
 let sa := t.sigaction signo
 let (m,uespsave) := setulinux_type_sigframe base m regs signo t.signal_mask
 { ret := 1
   t := {t with sigaction := if sa.sa_flags &&& SAONESHOT ≠ 0 then
     Function.update t.sigaction signo {sa with sa_handler := SIG_DFL} else t.sigaction}
   regs := {regs with eflags := regs.eflags &&& ~~~EFLAGS_TF, user_esp := uespsave, eip := sa.sa_handler}
   m := m, taken := [(signo,.handled)] }
def process_loop : Nat -> Tcb -> Int -> Option Result
 | 0, _, _ => none
 | fuel + 1, t, ret =>
  let signo := sigrecv t
  if signo = 0 then some ⟨ret,t,regs,m,[]⟩
  else
   let t := (sigdelset t signo).2
   if sigmasked t signo ∧ signo ≠ SIGKILL ∧ signo ≠ SIGSTOP then process_loop fuel t ret
   else
    let ret := if (t.sigaction signo).sa_handler = SIG_DFL then 0 else ret
    match fate t regs.cs signo with
    | none => none
    | some .ignored => (process_loop fuel t ret).map (fun r => {r with taken := (signo,.ignored) :: r.taken})
    | some .handled => some (handle base regs m t signo)
    | some f => some ⟨ret,t,regs,m,[(signo,f)]⟩

/-- A signal is taken in each round. -/
def process_signal (t : Tcb) : Option Result := process_loop base regs m (NSIG + 1) t (-1)
end

def deliverable (t : Tcb) : List Nat := ((range NSIG).filter (unmaskedsig t).getLsbD).map (· + 1)

/-- Signals are taken until the action of one ends the call. -/
def takes (fate : Nat -> Option Fate) : List Nat -> Option (List (Nat × Fate))
 | [] => some []
 | n :: rest => (fate n).bind (fun f => if f = .ignored then (takes fate rest).map ((n,f) :: ·) else some [(n,f)])
def clear (bits : BitVec 32) (taken : List (Nat × Fate)) : BitVec 32 :=
 taken.foldl (fun bits p => bits &&& ~~~bit p.1) bits

lemma signo_loop_eq (n : Nat) : ∀ (i : Nat) (sig : BitVec 32),
 signo_loop n i sig = (((range n).filter sig.getLsbD).map (· + i)).head?.getD 0 := by
 induction n with
 | zero => intro i sig; rfl
 | succ n ih =>
  intro i sig
  have low : sig &&& 1#32 ≠ 0 ↔ sig.getLsbD 0 = true := by
   rw [BitVec.and_one_eq_setWidth_ofBool_getLsbD]
   cases sig.getLsbD 0 <;> decide
  have shifted : (sig >>> 1).getLsbD = sig.getLsbD ∘ Nat.succ := by
   funext k
   rw [BitVec.getLsbD_ushiftRight,Nat.add_comm]
   rfl
  rw [signo_loop,ih,range_succ_eq_map,filter_cons]
  split_ifs with here there there
  · simp
  · exact absurd (low.mp here) there
  · exact absurd (low.mpr there) here
  rw [filter_map,map_map,shifted]
  congr 3
  funext k
  exact (Nat.succ_add_eq_add_succ k i).symm

lemma sigrecv_eq (t : Tcb) : sigrecv t = (deliverable t).head?.getD 0 := signo_loop_eq NSIG 1 (unmaskedsig t)

section
variable {t : Tcb} {n i : Nat} {rest : List Nat}
lemma delset_get (lt : i < 32) (bits : BitVec 32) :
 (bits &&& ~~~bit (n + 1)).getLsbD i = (bits.getLsbD i && decide (i ≠ n)) := by
 have get := BitVec.getLsbD_twoPow (w := 32) n i
 rw [BitVec.twoPow] at get
 rw [BitVec.getLsbD_and,BitVec.getLsbD_not,bit,Nat.add_sub_cancel,get]
 by_cases eq : i = n
 · simp [<- eq,lt]
 · simp [eq,Ne.symm eq,lt]
lemma sigdelset_eq (lt : i < 32) :
 (sigdelset t (i + 1)).2 = {t with signal_bits := t.signal_bits &&& ~~~bit (i + 1)} := by
 rw [sigdelset,if_pos (by simp [sigisvalid,NSIG]; omega)]
lemma deliverable_del (is : deliverable t = n :: rest) :
 ∃ k < 32, n = k + 1 ∧ deliverable (sigdelset t n).2 = rest ∧ sigmasked (sigdelset t n).2 n = false := by
 obtain ⟨k,kept,all,rfl,tail⟩ := map_eq_cons_iff.mp is
 have mem : k ∈ (range NSIG).filter (unmaskedsig t).getLsbD := by rw [all]; exact mem_cons_self
 obtain ⟨lt,set⟩ := mem_filter.mp mem
 replace lt : k < 32 := mem_range.mp lt
 have once : (k :: kept).Nodup := by
  rw [<- all]
  exact nodup_range.filter _
 rw [sigdelset_eq lt]
 refine ⟨k,lt,rfl,?_,?_⟩
 · have split : ∀ i ∈ range NSIG, (unmaskedsig {t with signal_bits := t.signal_bits &&& ~~~bit (k + 1)}).getLsbD i =
     (decide (i ≠ k) && (unmaskedsig t).getLsbD i) := by
    intro i below
    simp only [unmaskedsig]
    rw [BitVec.getLsbD_and,delset_get (mem_range.mp below),BitVec.getLsbD_and,Bool.and_right_comm,Bool.and_comm]
   rw [deliverable,filter_congr split,<- filter_filter,all,filter_cons_of_neg (by simp),filter_eq_self.mpr]
   · exact tail
   intro i mem
   have ne : i ≠ k := fun eq => (nodup_cons.mp once).1 (eq ▸ mem)
   simpa using ne
 have free : t.signal_mask.getLsbD k = false := by
  rw [unmaskedsig,BitVec.getLsbD_and,BitVec.getLsbD_not] at set
  simpa [lt] using (Bool.and_eq_true_iff.mp set).2
 have none : t.signal_mask &&& bit (k + 1) = 0 := by
  rw [bit,Nat.add_sub_cancel]
  exact (BitVec.and_twoPow t.signal_mask k).trans (by rw [free]; rfl)
 simp [sigmasked,none,sigisvalid,NSIG]
 omega
lemma fate_del (cs : BitVec 32) : fate (sigdelset t n).2 cs = fate t cs := by
 rw [sigdelset]
 split <;> rfl
end

section
variable (base : Nat) (regs : Regs) (m : Memory)
lemma process_loop_takes : ∀ (pending : List Nat) (fuel : Nat) (t : Tcb) (ret : Int), deliverable t = pending ->
 pending.length < fuel -> (process_loop base regs m fuel t ret).map (fun r => (r.taken,r.t.signal_bits)) =
  (takes (fate t regs.cs) pending).map (fun taken => (taken,clear t.signal_bits taken)) := by
 intro pending
 induction pending with
 | nil =>
  intro fuel t ret is enough
  obtain ⟨fuel,rfl⟩ := Nat.exists_eq_add_one.mpr enough
  have none : sigrecv t = 0 := by
   rw [sigrecv_eq,is]
   rfl
  simp [process_loop,none,takes,clear]
 | cons n rest ih =>
  intro fuel t ret is enough
  obtain ⟨fuel,rfl⟩ := Nat.exists_eq_add_one.mpr (Nat.zero_lt_of_lt enough)
  have fst : sigrecv t = n := by
   rw [sigrecv_eq,is]
   rfl
  obtain ⟨k,lt,rfl,left,free⟩ := deliverable_del is
  have bits : (sigdelset t (k + 1)).2.signal_bits = t.signal_bits &&& ~~~bit (k + 1) := by rw [sigdelset_eq lt]
  simp only [process_loop,fst,Nat.add_eq_zero_iff,one_ne_zero,and_false,if_false,free,Bool.false_eq_true,
   false_and,fate_del,takes]
  cases fate t regs.cs (k + 1) with
  | none => rfl
  | some f =>
   cases f with
   | ignored =>
    have later := ih fuel (sigdelset t (k + 1)).2
     (if ((sigdelset t (k + 1)).2.sigaction (k + 1)).sa_handler = SIG_DFL then 0 else ret) left (by simpa using enough)
    rw [fate_del,bits] at later
    have longer := congrArg (Option.map (Prod.map ((k + 1,Fate.ignored) :: ·) id)) later
    simpa [Function.comp_def,clear] using longer
   | _ => simp [handle,clear,bits]

/-- The loop takes the signals that are not masked in ascending order, each of them once. -/
theorem process_signal_takes (t : Tcb) :
 (process_signal base regs m t).map (fun r => (r.taken,r.t.signal_bits)) =
  (takes (fate t regs.cs) (deliverable t)).map (fun taken => (taken,clear t.signal_bits taken)) :=
 process_loop_takes base regs m _ _ t _ rfl (by
  rw [deliverable,length_map]
  exact Nat.lt_succ_of_le (length_filter_le _ _))
lemma sigcontext_lt {signo sc : Nat} (addr : Nat) (valid : sigisvalid signo) (top : sc + 84 < 2^32) (mask : BitVec 32) :
 ∀ w ∈ sigcontext m addr regs signo sc mask, w < 2^32 := by
 have low : 0 < signo ∧ signo ≤ 32 := of_decide_eq_true valid
 have half : ∀ (w : BitVec 32) a, w.toNat % 2^16 + 2^16 * peek16 m a < 2^32 := by
  intro w a
  have := peek16_lt m a
  omega
 simp only [sigcontext,forall_mem_cons,half,BitVec.isLt,not_mem_nil,false_implies,implies_true,and_true,true_and]
 omega

/-- A handler that leaves its frame alone gets back to the interrupted program through the code in
  the frame: all registers and the mask are as they were. -/
theorem sigreturn_restores {m' : Memory} {regs' : Regs} {signo : Nat} (t t' : Tcb) (valid : sigisvalid signo)
 (room : 84 ≤ regs.user_esp.toNat)
 (kept : ∀ i, 4 ≤ i -> i < 76 -> peek m' (base + ((handle base regs m t signo).regs.user_esp.toNat + i)) =
  peek (handle base regs m t signo).m (base + ((handle base regs m t signo).regs.user_esp.toNat + i)))
 (back : regs'.user_esp = (handle base regs m t signo).regs.user_esp) :
 sigreturn base m' t' regs' = (regs.eax,
  {(sigdelset (sigdelset t' SIGKILL).2 SIGSTOP).2 with signal_mask := t.signal_mask},
  {regs with
   eax := regs'.eax, cs := USER_CS, user_ss := USER_DS, ds := USER_DS, es := USER_DS, fs := USER_DS, gs := USER_DS}) := by
 obtain ⟨sc,is⟩ : ∃ sc, regs.user_esp - 84 = sc := ⟨_,rfl⟩
 have top : sc.toNat + 84 < 2^32 := by
  have := regs.user_esp.isLt
  rw [<- is,BitVec.toNat_sub_of_le (by simpa [BitVec.le_def] using room)]
  simp
  omega
 have small := sigcontext_lt regs m (base + sc.toNat) valid top t.signal_mask
 have words := put_words_at base _ m sc.toNat (show _ ≤ 2^32 by simp [sigcontext]; omega) small
 simp only [handle,setulinux_type_sigframe,is] at kept back
 have read : ∀ i (word : BitVec 32), (sigcontext m (base + sc.toNat) regs signo sc.toNat t.signal_mask)[i]? = some word.toNat ->
   1 ≤ i -> i < 19 -> BitVec.ofNat 32 (peek32 m' (base + (regs'.user_esp.toNat + 4 * i))) = word := by
  intro i word member low high
  obtain ⟨lt,held⟩ := List.getElem?_eq_some_iff.mp member
  have same : peek32 m' (base + (sc.toNat + 4 * i)) = word.toNat := by
   rw [<- held,<- words i lt]
   refine peek32_congr fun j lt => ?_
   rw [Nat.add_assoc,Nat.add_assoc]
   exact kept _ (by omega) (by omega)
  rw [back,same,BitVec.ofNat_toNat,BitVec.setWidth_eq]
 simp only [sigreturn]
 rw [read 13 regs.eax,read 18 t.signal_mask,read 10 regs.ebx,read 12 regs.ecx,read 11 regs.edx,read 7 regs.esi,
  read 6 regs.edi,read 9 regs.user_esp,read 8 regs.ebp,read 14 regs.eip,read 16 regs.eflags]
 all_goals simp [sigcontext]
end
def interrupted : Regs := ⟨1,2,3,4,5,6,7,0x17,0x17,0x17,0x17,8,0x0f,0x100,84,0x17⟩

/-- `SIGHUP` has a handler. -/
theorem sigreturn_interrupted :
 let r := handle 0 interrupted (fun _ => 0) ⟨0,5,fun _ => ⟨0,40⟩⟩ 1
 sigreturn 0 r.m r.t r.regs = (7,⟨0,5,fun _ => ⟨0,40⟩⟩,{interrupted with eax := 7}) :=
 sigreturn_restores 0 interrupted (fun _ => 0) ⟨0,5,fun _ => ⟨0,40⟩⟩ ⟨0,5,fun _ => ⟨0,40⟩⟩ (by decide) (by decide)
  (fun _ _ _ => rfl) rfl
end Netbas.Signals
