import Netbas.AlarmClock
import Netbas.Fuel
import Netbas.Rings

/-!
The timer wheel of `core/driver/char/timer.c`. `Placed` states which slots are right for a timer
that is due in a given turn. Ticks count modulo `2^32` in the code; here `now` does not wrap, and a
due turn is absolute.
-/
namespace Netbas.TimerWheel
open AlarmClock Fuel Rings List Option
open Function
universe u
def TVN_BITS : Nat := 6
def TVR_BITS : Nat := 8
def TVN_SIZE : Nat := 1 <<< TVN_BITS
def TVR_SIZE : Nat := 1 <<< TVR_BITS
def TVN_MASK : Nat := TVN_SIZE - 1
def TVR_MASK : Nat := TVR_SIZE - 1
def NOOF_TVECS : Nat := 5

/-- An entry of `tvecs[level]->vec`; `tv1` is level 0. -/
structure Slot where
 level : Nat
 i : Nat
 deriving DecidableEq
structure Wheel (Timer : Type u) where
 links : Links Slot Timer
 index : Nat -> Nat
 timer_ticks : Nat
 ticks : Nat
 expires : Timer -> Nat
 active : Timer -> Bool

section
variable {Timer : Type u}
def init_timers : Wheel Timer :=
 { links := Links.empty
   index := fun _ => 0
   timer_ticks := 0
   ticks := 0
   expires := fun _ => 0
   active := fun _ => false }
def timer_vec (w : Wheel Timer) (t : Timer) : Slot :=
 let expires := w.expires t
 let idx := (expires + 2 ^ 32 - w.timer_ticks) % 2 ^ 32
 if idx < TVR_SIZE then ⟨0,expires &&& TVR_MASK⟩
 else if idx < 1 <<< (TVR_BITS + TVN_BITS) then ⟨1,(expires >>> TVR_BITS) &&& TVN_MASK⟩
 else if idx < 1 <<< (TVR_BITS + 2 * TVN_BITS) then ⟨2,(expires >>> (TVR_BITS + TVN_BITS)) &&& TVN_MASK⟩
 else if idx < 1 <<< (TVR_BITS + 3 * TVN_BITS) then ⟨3,(expires >>> (TVR_BITS + 2 * TVN_BITS)) &&& TVN_MASK⟩
 -- the difference is negative as a signed number
 else if 2 ^ 31 ≤ idx then ⟨0,w.index 0⟩
 else ⟨4,(expires >>> (TVR_BITS + 3 * TVN_BITS)) &&& TVN_MASK⟩

variable [DecidableEq Timer]
def attach_timer (w : Wheel Timer) (t : Timer) : Option (Wheel Timer) :=
 (w.links.insertTail (timer_vec w t) t).map
  (fun links => {w with links := links, active := update w.active t true})
def detach_timer (w : Wheel Timer) (t : Timer) : Option (Nat × Wheel Timer) :=
 if w.active t then
  (w.links.remove t).map (fun links => (1,{w with links := links, active := update w.active t false}))
 else some (0,w)
def cascade_loop (head : Slot) : Nat -> Wheel Timer -> Node Slot Timer -> Option (Wheel Timer)
 | 0, _, _ => none
 | fuel + 1, w, curr =>
  if curr = .head head then some w
  else
   match curr with
   | .head _ => none
   | .elem t =>
    match w.links.next (.elem t) with
    | none => none
    | some next => (attach_timer w t).bind (fun w => cascade_loop head fuel w next)
def cascade_timers (n fuel : Nat) (w : Wheel Timer) : Option (Wheel Timer) :=
 let head : Slot := ⟨n,w.index n⟩
 match w.links.next (.head head) with
 | none => none
 | some curr =>
  (cascade_loop head fuel w curr).map (fun w =>
   { w with
     links := w.links.reset head
     index := update w.index n ((w.index n + 1) &&& TVN_MASK) })
def cascade_from : Nat -> Nat -> Wheel Timer -> Option (Wheel Timer)
 | 0, _, _ => none
 | fuel + 1, n, w =>
  (cascade_timers n fuel w).bind (fun w =>
   if w.index n = 1 ∧ n + 1 < NOOF_TVECS then cascade_from fuel (n + 1) w else some w)

end

/-! ### The slot for a due turn -/
section
variable {Timer : Type u}
def shift (n : Nat) : Nat := TVR_BITS + (n - 1) * TVN_BITS
def delay (expires now : Nat) : Nat :=
 if (expires + 2 ^ 32 - now % 2 ^ 32) % 2 ^ 32 < 2 ^ 31 then (expires + 2 ^ 32 - now % 2 ^ 32) % 2 ^ 32 else 0

/-- A slot holds a timer that is due in turn `d`. Vector `n` will next cascade
  its slot `c n`, in turn `c n * 2 ^ shift n`; a timer in slot `k` is due in the turn
  that its `expires` asks for when the slot is cascaded. -/
inductive Holds (c : Nat -> Nat) (now expires : Nat) : Slot -> Nat -> Prop where
 | root {d : Nat} : now ≤ d -> d < now + 256 -> Holds c now expires ⟨0,d % 256⟩ d
 | level {n k : Nat} : 1 ≤ n -> n ≤ 4 -> c n ≤ k -> k < c n + 64 -> expires < 2 ^ 32 ->
   Holds c now expires ⟨n,k % 64⟩ (k * 2 ^ shift n + delay expires (k * 2 ^ shift n))
def Counters (c : Nat -> Nat) (now : Nat) : Prop :=
 ∀ n, 1 ≤ n -> n ≤ 4 -> now ≤ c n * 2 ^ shift n ∧ c n * 2 ^ shift n ≤ now + 2 ^ shift n

variable {d now : Nat}
lemma delay_of_due (low : now ≤ d) (high : d < now + 2 ^ 31) : now + delay (d % 2 ^ 32) now = d := by
 have distance : (d % 2 ^ 32 + 2 ^ 32 - now % 2 ^ 32) % 2 ^ 32 = d - now := by omega
 simp only [delay,distance]
 rw [if_pos (by omega)]
 omega
lemma delay_lt (expires now : Nat) : delay expires now < 2 ^ 31 := by
 rw [delay]
 split <;> omega
lemma timer_vec_cases {w : Wheel Timer} {t : Timer} (word : w.expires t < 2 ^ 32)
 (ticks : w.timer_ticks = now % 2 ^ 32) (root : w.index 0 = now % 256) (due : d = now + delay (w.expires t) now) :
 timer_vec w t = ⟨0,d % 256⟩ ∧ d < now + 256 ∨
 ∃ n, 1 ≤ n ∧ n ≤ 4 ∧ timer_vec w t = ⟨n,d / 2 ^ shift n % 64⟩ ∧ now + 2 ^ shift n ≤ d ∧
  d < now + 64 * 2 ^ shift n ∧ w.expires t = d % 2 ^ 32 := by
 have mask : ∀ x, x &&& 255 = x % 256 := fun x => Nat.and_two_pow_sub_one_eq_mod x 8
 have mask' : ∀ x, x &&& 63 = x % 64 := fun x => Nat.and_two_pow_sub_one_eq_mod x 6
 simp only [timer_vec,ticks,root,TVR_SIZE,TVR_MASK,TVN_MASK,TVN_SIZE,TVR_BITS,TVN_BITS,Nat.shiftRight_eq_div_pow,
  Nat.reduceShiftLeft,Nat.reduceAdd,Nat.reduceMul,Nat.reduceSub,mask,mask']
 generalize w.expires t = expires at word due ⊢
 generalize idx : (expires + 2 ^ 32 - now % 2 ^ 32) % 2 ^ 32 = far
 simp only [delay,idx] at due
 by_cases past : 2 ^ 31 ≤ far
 · rw [if_neg (by omega)] at due
   rw [if_neg (by omega),if_neg (by omega),if_neg (by omega),if_neg (by omega),if_pos past]
   exact .inl ⟨by rw [due,Nat.add_zero],by omega⟩
 rw [if_pos (by omega)] at due
 have eq : expires = d % 2 ^ 32 := by omega
 by_cases fst : far < 256
 · rw [if_pos fst]
   exact .inl ⟨by rw [eq]; congr 1; omega,by omega⟩
 rw [if_neg fst,if_neg (c := 2 ^ 31 ≤ far) past]
 refine .inr ?_
 by_cases snd : far < 16384
 · rw [if_pos snd]
   refine ⟨1,by omega,by omega,?_⟩
   simp only [shift,TVR_BITS,TVN_BITS,Nat.reduceSub,Nat.reduceMul,Nat.reduceAdd]
   exact ⟨by rw [eq]; congr 1; omega,by omega,by omega,eq⟩
 rw [if_neg snd]
 by_cases third : far < 1048576
 · rw [if_pos third]
   refine ⟨2,by omega,by omega,?_⟩
   simp only [shift,TVR_BITS,TVN_BITS,Nat.reduceSub,Nat.reduceMul,Nat.reduceAdd]
   exact ⟨by rw [eq]; congr 1; omega,by omega,by omega,eq⟩
 rw [if_neg third]
 by_cases fourth : far < 67108864
 · rw [if_pos fourth]
   refine ⟨3,by omega,by omega,?_⟩
   simp only [shift,TVR_BITS,TVN_BITS,Nat.reduceSub,Nat.reduceMul,Nat.reduceAdd]
   exact ⟨by rw [eq]; congr 1; omega,by omega,by omega,eq⟩
 rw [if_neg fourth]
 refine ⟨4,by omega,by omega,?_⟩
 simp only [shift,TVR_BITS,TVN_BITS,Nat.reduceSub,Nat.reduceMul,Nat.reduceAdd]
 exact ⟨by rw [eq]; congr 1; omega,by omega,by omega,eq⟩
lemma timer_vec_holds {w : Wheel Timer} {t : Timer} {c : Nat -> Nat} (word : w.expires t < 2 ^ 32)
 (ticks : w.timer_ticks = now % 2 ^ 32) (root : w.index 0 = now % 256) (counters : Counters c now) :
 Holds c now (w.expires t) (timer_vec w t) (now + delay (w.expires t) now) := by
 have bound := delay_lt (w.expires t) now
 rcases timer_vec_cases word ticks root rfl with ⟨slot,near⟩ | ⟨n,low,high,slot,far,near,eq⟩
 · rw [slot]
   exact .root (by omega) near
 rw [slot]
 obtain ⟨past,next⟩ := counters n low high
 generalize due : now + delay (w.expires t) now = d at slot far near eq bound ⊢
 have above : c n ≤ d / 2 ^ shift n := (Nat.le_div_iff_mul_le (by positivity)).mpr (by omega)
 have lt : d / 2 ^ shift n < c n + 64 := by
  refine Nat.div_lt_of_lt_mul ?_
  calc d < now + 64 * 2 ^ shift n := near
   _ ≤ c n * 2 ^ shift n + 64 * 2 ^ shift n := by omega
   _ = 2 ^ shift n * (c n + 64) := by ring
 have started : now ≤ d / 2 ^ shift n * 2 ^ shift n := past.trans (Nat.mul_le_mul_right _ above)
 have again := delay_of_due (Nat.div_mul_le_self d (2 ^ shift n)) (by omega)
 have holds : Holds c now (w.expires t) _ _ := .level low high above lt word
 rwa [eq,again,<- eq] at holds

variable {expires : Nat} {v : Slot}
lemma Holds.low {c : Nat -> Nat} (counters : Counters c now)
 (holds : Holds c now expires v d) : now ≤ d := by
 cases holds with
 | root low _ => exact low
 | @level n k low high next _ _ =>
  have started := (counters n low high).1.trans (Nat.mul_le_mul_right _ next)
  exact started.trans (Nat.le_add_right ..)
lemma Holds.next_slot {c : Nat -> Nat} (holds : Holds c now expires v d)
 (low : 1 ≤ v.level) (slot : v.i = c v.level % 64) :
 expires < 2 ^ 32 ∧ d = c v.level * 2 ^ shift v.level + delay expires (c v.level * 2 ^ shift v.level) := by
 cases holds with
 | root _ _ => simp at low
 | @level n k _ _ above lt word =>
  simp only at slot ⊢
  obtain rfl : k = c n := by omega
  exact ⟨word,rfl⟩
lemma Holds.advance {c : Nat -> Nat} {n : Nat} (holds : Holds c now expires v d)
 (ne : v ≠ ⟨n,c n % 64⟩) : Holds (update c n (c n + 1)) now expires v d := by
 cases holds with
 | root low high => exact .root low high
 | @level m k low high above lt word =>
  by_cases vector : m = n
  · subst vector
    have apart : k ≠ c m := fun eq => ne (by rw [eq])
    exact .level low high (by simp only [update_self]; omega)
     (by simp only [update_self]; omega) word
  · exact .level low high (by simpa [vector] using above) (by simpa [vector] using lt) word
lemma Holds.hand {c : Nat -> Nat} (holds : Holds c now expires v d)
 (root : v = ⟨0,now % 256⟩) : d = now := by
 cases holds with
 | root low high =>
  have eq := congrArg Slot.i root
  simp only at eq
  omega
 | level low _ _ _ _ =>
  have eq := congrArg Slot.level root
  simp only at eq
  omega
lemma Holds.beyond {c : Nat -> Nat} (holds : Holds c now expires v d)
 (past : ∀ n, 1 ≤ n -> n ≤ 4 -> now < c n * 2 ^ shift n) (ne : v ≠ ⟨0,now % 256⟩) : now < d := by
 cases holds with
 | root low high =>
  refine lt_of_le_of_ne low ?_
  rintro rfl
  exact ne rfl
 | @level n k low high above _ _ =>
  have started := (past n low high).trans_le (Nat.mul_le_mul_right _ above)
  exact started.trans_le (Nat.le_add_right ..)
lemma Holds.next_turn {c : Nat -> Nat} (holds : Holds c now expires v d)
 (beyond : now < d) : Holds c (now + 1) expires v d := by
 cases holds with
 | root low high => exact .root (by omega) (by omega)
 | level low high above lt word => exact .level low high above lt word

end

/-! ### Timers in their slots -/
section
variable {Timer : Type u}
structure Placed (w : Wheel Timer) (clock : Clock Timer) (c : Nat -> Nat) (lists : Slot -> List Timer)
  (pending : List Timer) : Prop where
 rings : Represents w.links lists
 ticks : w.timer_ticks = clock.now % 2 ^ 32
 root : w.index 0 = clock.now % 256
 index : ∀ n, 1 ≤ n -> n ≤ 4 -> w.index n = c n % 64
 counters : Counters c clock.now
 held : ∀ {v t}, t ∈ lists v -> ∃ d, clock.due t = some d ∧ Holds c clock.now (w.expires t) v d
 found : ∀ {t}, clock.due t ≠ none -> (∃ v, t ∈ lists v) ∨ t ∈ pending
 active : ∀ t, w.active t = (clock.due t).isSome
lemma placed_init : Placed (init_timers : Wheel Timer) {now := 0, due := fun _ => none} (fun _ => 0)
  (fun _ => []) [] :=
 { rings := represents_empty, ticks := rfl, root := rfl, index := fun _ _ _ => rfl
   counters := fun n _ _ => ⟨by simp,by simp⟩
   held := by simp, found := by simp, active := fun _ => rfl }

variable {w : Wheel Timer} {clock : Clock Timer} {c : Nat -> Nat} {lists : Slot -> List Timer} {pending : List Timer}

namespace Placed

variable {t : Timer}

section
variable (placed : Placed w clock c lists pending)
include placed
lemma idle (none : clock.due t = none) (v : Slot) :
 t ∉ lists v := by
 intro mem
 obtain ⟨d,due,_⟩ := placed.held mem
 simp [none] at due
lemma is_due (active : w.active t = true) :
 clock.due t ≠ none := by
 rw [placed.active] at active
 exact isSome_iff_ne_none.mp active
lemma not_due (idle : w.active t = false) :
 clock.due t = none := by
 rw [placed.active] at idle
 exact isNone_iff_eq_none.mp (by simpa using idle)
end

variable [DecidableEq Timer]
lemma insert (placed : Placed w clock c lists pending) {rest : List Timer} {links : Links Slot Timer}
  (word : w.expires t < 2 ^ 32) (left : ∀ u ∈ pending, u = t ∨ u ∈ rest) (fresh : ∀ v, t ∉ lists v)
  (rings : Represents links (update lists (timer_vec w t) (lists (timer_vec w t) ++ [t]))) :
  Placed {w with links := links, active := update w.active t true}
   {clock with due := update clock.due t (some (clock.now + delay (w.expires t) clock.now))} c
   (update lists (timer_vec w t) (lists (timer_vec w t) ++ [t])) rest := by
 have origin : ∀ {v u}, u ∈ update lists (timer_vec w t) (lists (timer_vec w t) ++ [t]) v ->
   u ≠ t ∧ u ∈ lists v ∨ u = t ∧ v = timer_vec w t := by
  intro v u inside
  by_cases chosen : v = timer_vec w t
  · subst chosen
    rw [update_self,mem_append,mem_singleton] at inside
    rcases inside with old | new
    · exact .inl ⟨fun eq => fresh _ (eq ▸ old),old⟩
    · exact .inr ⟨new,rfl⟩
  rw [update_of_ne chosen] at inside
  exact .inl ⟨fun eq => fresh _ (eq ▸ inside),inside⟩
 refine ⟨rings,placed.ticks,placed.root,placed.index,placed.counters,?_,?_,?_⟩
 · intro v u inside
   rcases origin inside with ⟨ne,old⟩ | ⟨rfl,rfl⟩
   · simpa [ne] using placed.held old
   · exact ⟨_,by simp,timer_vec_holds word placed.ticks placed.root placed.counters⟩
 · intro u due
   by_cases eq : u = t
   · subst eq
     exact .inl ⟨timer_vec w u,by simp⟩
   simp only [ne_eq,update_of_ne eq] at due
   rcases placed.found due with ⟨v,inside⟩ | inside
   · refine .inl ⟨v,?_⟩
     by_cases chosen : v = timer_vec w t
     · subst chosen
       simp [inside]
     · simpa [chosen] using inside
   · exact .inr ((left u inside).resolve_left eq)
 intro u
 by_cases eq : u = t
 · subst eq
   simp
 · simpa [eq] using placed.active u

section
variable (placed : Placed w clock c lists [])
include placed
lemma attach (word : w.expires t < 2 ^ 32)
  (idle : clock.due t = none) :
  ∃ w', attach_timer w t = some w' ∧ w'.ticks = w.ticks ∧ w'.timer_ticks = w.timer_ticks ∧
   Placed w' {clock with due := update clock.due t (some (clock.now + delay (w.expires t) clock.now))}
    c (update lists (timer_vec w t) (lists (timer_vec w t) ++ [t])) [] := by
 obtain ⟨links,inserted,rings⟩ := placed.rings.insert_tail (timer_vec w t) (placed.idle idle)
 refine ⟨{w with links := links, active := update w.active t true},?_,rfl,rfl,?_⟩
 · rw [attach_timer,inserted]
   rfl
 · exact placed.insert word (by simp) (placed.idle idle) rings
lemma unlink (active : w.active t = true) :
  ∃ links v, w.links.remove t = some links ∧ t ∈ lists v ∧
   Placed {w with links := links, active := update w.active t false}
    {clock with due := update clock.due t none} c (update lists v ((lists v).erase t)) [] := by
 obtain ⟨v,inside⟩ := (placed.found (placed.is_due active)).resolve_right (by simp)
 obtain ⟨links,gone,rings⟩ := placed.rings.remove inside
 have origin : ∀ {r u}, u ∈ update lists v ((lists v).erase t) r ↔ u ≠ t ∧ u ∈ lists r := by
  intro r u
  by_cases eq : r = v
  · subst eq
    rw [update_self,(placed.rings.once r).mem_erase_iff]
  rw [update_of_ne eq]
  refine ⟨fun mem => ⟨?_,mem⟩,fun both => both.2⟩
  rintro rfl
  exact eq (placed.rings.apart mem inside)
 refine ⟨links,v,gone,inside,rings,placed.ticks,placed.root,placed.index,placed.counters,?_,?_,?_⟩
 · intro r u mem
   obtain ⟨ne,old⟩ := origin.mp mem
   simpa [ne] using placed.held old
 · intro u due
   by_cases eq : u = t
   · simp [eq] at due
   simp only [ne_eq,update_of_ne eq] at due
   obtain ⟨r,mem⟩ := (placed.found due).resolve_right (by simp)
   exact .inl ⟨r,origin.mpr ⟨eq,mem⟩⟩
 intro u
 by_cases eq : u = t
 · subst eq
   simp
 · simpa [eq] using placed.active u
lemma clear (idle : clock.due t = none) :
 Placed {w with links := w.links.clear t} clock c lists [] :=
 {placed with rings := placed.rings.clear (placed.idle idle)}
lemma set_expires (idle : clock.due t = none) (expires : Nat) :
 Placed {w with expires := update w.expires t expires} clock c lists [] := by
 refine {placed with held := ?_}
 intro v u mem
 have ne : u ≠ t := by
  rintro rfl
  exact placed.idle idle v mem
 simpa [ne] using placed.held mem
lemma move_expires {v : Slot} (inside : t ∈ lists v) {e : Nat}
  (word : e < 2 ^ 32) :
  ∃ d, Placed {w with expires := update w.expires t e}
   {clock with due := update clock.due t (some d)} c lists [] ∧
   (v.level = 0 -> clock.due t = some d) := by
 obtain ⟨old,due,holds⟩ := placed.held inside
 obtain ⟨d,moved,root⟩ : ∃ d, Holds c clock.now e v d ∧ (v.level = 0 -> old = d) := by
  cases holds with
  | root low high => exact ⟨old,.root low high,fun _ => rfl⟩
  | level low high above lt _ =>
   refine ⟨_,.level low high above lt word,fun zero => ?_⟩
   simp only at zero
   omega
 refine ⟨d,{placed with held := ?_, found := ?_, active := ?_},fun zero => by rw [due,root zero]⟩
 · intro r u mem
   by_cases eq : u = t
   · subst eq
     obtain rfl := placed.rings.apart mem inside
     exact ⟨d,by simp,by simpa using moved⟩
   · simpa [eq] using placed.held mem
 · intro u isDue
   by_cases eq : u = t
   · subst eq
     exact .inl ⟨v,inside⟩
   · exact placed.found (by simpa [eq] using isDue)
 intro u
 by_cases eq : u = t
 · subst eq
   simp [placed.active u,due]
 · simpa [eq] using placed.active u
lemma beyond (past : ∀ n, 1 ≤ n -> n ≤ 4 -> clock.now < c n * 2 ^ shift n)
 (empty : lists ⟨0,clock.now % 256⟩ = []) {v : Slot} (mem : t ∈ lists v) :
 ∃ d, clock.due t = some d ∧ clock.now < d ∧ Holds c (clock.now + 1) (w.expires t) v d := by
 obtain ⟨d,due,holds⟩ := placed.held mem
 have ne : v ≠ ⟨0,clock.now % 256⟩ := by
  rintro rfl
  simp [empty] at mem
 have beyond := holds.beyond past ne
 exact ⟨d,due,beyond,holds.next_turn beyond⟩
section
variable (past : ∀ n, 1 ≤ n -> n ≤ 4 -> clock.now < c n * 2 ^ shift n)
include past
lemma quiet
 (empty : lists ⟨0,clock.now % 256⟩ = []) (t : Timer) : clock.due t ≠ some clock.now := by
 intro now
 obtain ⟨v,mem⟩ := (placed.found (t := t) (by simp [now])).resolve_right (by simp)
 obtain ⟨d,due,beyond,_⟩ := placed.beyond past empty mem
 have eq := some.inj (due.symm.trans now)
 omega
lemma next_turn (empty : lists ⟨0,clock.now % 256⟩ = []) :
  Placed { w with timer_ticks := (w.timer_ticks + 1) % 2 ^ 32
                  index := update w.index 0 ((w.index 0 + 1) &&& TVR_MASK) }
   {clock with now := clock.now + 1} c lists [] := by
 have mask : ∀ x, x &&& TVR_MASK = x % 256 := fun x => Nat.and_two_pow_sub_one_eq_mod x 8
 refine ⟨placed.rings,?_,?_,?_,?_,?_,placed.found,placed.active⟩
 · simp only [placed.ticks]
   omega
 · simp only [update_self,mask,placed.root]
   omega
 · intro n low high
   have ne : n ≠ 0 := by omega
   simpa [ne] using placed.index n low high
 · intro n low high
   have bound := (placed.counters n low high).2
   exact ⟨past n low high,by simp only; omega⟩
 intro v t mem
 obtain ⟨d,due,_,holds⟩ := placed.beyond past empty mem
 exact ⟨d,due,holds⟩
end

end

end Placed

/-! ### Cascades -/
variable [DecidableEq Timer]

variable {n : Nat}
lemma cascade_loop_returns {k : Nat} {head : Slot} (low : 1 ≤ n) (slot : head = ⟨n,k % 64⟩)
  (up : clock.now = k * 2 ^ shift n) (rest : List Timer) :
  ∀ (w : Wheel Timer) (lists : Slot -> List Timer),
  Placed {w with links := w.links.reset head} clock c lists rest ->
  (∀ t ∈ rest, w.expires t < 2 ^ 32 ∧ clock.due t = some (clock.now + delay (w.expires t) clock.now)) ->
  rest.Nodup -> (∀ t ∈ rest, ∀ v, t ∉ lists v) -> Forward w.links (.head head) rest -> lists head = [] ->
  ∃ w' ls', Returns (fun fuel => cascade_loop head fuel w (initial (.head head) rest)) w' ∧
   w'.ticks = w.ticks ∧ w'.timer_ticks = w.timer_ticks ∧ w'.index = w.index ∧
   Placed {w' with links := w'.links.reset head} clock c ls' [] ∧ ls' head = [] := by
 induction rest with
 | nil =>
  intro w lists placed _ _ _ _ empty
  refine ⟨w,lists,?_,rfl,rfl,rfl,placed,empty⟩
  refine .turn (g := fun _ => some w) rfl ?_ (returns_const w)
  intro fuel
  simp [cascade_loop,initial]
 | cons t rest ih =>
  intro w lists placed spans once new forward empty
  obtain ⟨word,due⟩ := spans t (by simp)
  -- no timer goes back into the slot that is emptied: it would be a round of the vector away
  have elsewhere : timer_vec w t ≠ head := by
   rw [slot]
   rcases timer_vec_cases word placed.ticks placed.root rfl with ⟨chosen,_⟩ | ⟨m,lower,_,chosen,far,near,_⟩
   · rw [chosen]
     intro eq
     have vector := congrArg Slot.level eq
     simp only at vector
     omega
   rw [chosen]
   intro eq
   obtain rfl : m = n := congrArg Slot.level eq
   have index := congrArg Slot.i eq
   simp only at index
   rw [up,<- Nat.succ_mul] at far
   rw [up,<- Nat.add_mul] at near
   have above := (Nat.le_div_iff_mul_le (Nat.two_pow_pos (shift m))).mpr far
   have lt := (Nat.div_lt_iff_lt_mul (Nat.two_pow_pos (shift m))).mpr near
   rw [up] at index
   omega
  have later : ∀ u ∈ rest, u ≠ t ∧ ∀ v, u ∉ lists v := by
   refine fun u mem => ⟨?_,new u (by simp [mem])⟩
   rintro rfl
   exact (nodup_cons.mp once).1 mem
  obtain ⟨links,inserted,rings,forward'⟩ :=
   insert_while_emptying elsewhere placed.rings (new t (by simp)) later forward.2
  have put' := placed.insert word (fun u mem => mem_cons.mp mem) (new t (by simp)) rings
  rw [<- due,update_eq_self] at put'
  have fresh' : ∀ u ∈ rest, ∀ v, u ∉ update lists (timer_vec w t) (lists (timer_vec w t) ++ [t]) v := by
   intro u mem v
   obtain ⟨ne,apart⟩ := later u mem
   by_cases chosen : v = timer_vec w t
   · subst chosen
     simp [apart,ne]
   · simpa [chosen] using apart v
  have empty' : update lists (timer_vec w t) (lists (timer_vec w t) ++ [t]) head = [] := by
   rw [update_of_ne elsewhere.symm]
   exact empty
  obtain ⟨w',ls',ret,ticks,timerTicks,index,final,emptied⟩ := ih
   {w with links := links, active := update w.active t true} _ put'
   (fun u mem => spans u (by simp [mem])) (nodup_cons.mp once).2 fresh' forward' empty'
  refine ⟨w',ls',.turn rfl ?_ ret,ticks,timerTicks,index,final,emptied⟩
  intro fuel
  simp only [initial,cascade_loop,reduceCtorEq,if_false,forward.1,attach_timer,inserted,map_some,
   bind_some]
lemma cascade_timers_returns (low : 1 ≤ n) (high : n ≤ 4) (placed : Placed w clock c lists [])
 (up : clock.now = c n * 2 ^ shift n) :
 ∃ w' ls', Returns (fun fuel => cascade_timers n fuel w) w' ∧ w'.ticks = w.ticks ∧
  w'.timer_ticks = w.timer_ticks ∧ Placed w' clock (update c n (c n + 1)) ls' [] := by
 have spans : ∀ t ∈ lists ⟨n,w.index n⟩,
   w.expires t < 2 ^ 32 ∧ clock.due t = some (clock.now + delay (w.expires t) clock.now) := by
  intro t mem
  obtain ⟨d,due,holds⟩ := placed.held mem
  obtain ⟨word,turn⟩ := holds.next_slot low (placed.index n low high)
  simp only [<- up] at turn
  rw [due,turn]
  exact ⟨word,rfl⟩
 have emptied : Placed {w with links := w.links.reset ⟨n,w.index n⟩} clock c
   (update lists ⟨n,w.index n⟩ []) (lists ⟨n,w.index n⟩) := by
  refine {placed with rings := placed.rings.reset _, held := ?_, found := ?_}
  · intro v t mem
    by_cases eq : v = ⟨n,w.index n⟩
    · simp [eq] at mem
    rw [update_of_ne eq] at mem
    exact placed.held mem
  intro t due
  obtain ⟨v,mem⟩ := (placed.found due).resolve_right (by simp)
  by_cases eq : v = ⟨n,w.index n⟩
  · exact .inr (eq ▸ mem)
  · exact .inl ⟨v,by simpa [eq] using mem⟩
 have apart : ∀ t ∈ lists ⟨n,w.index n⟩, ∀ v, t ∉ update lists ⟨n,w.index n⟩ [] v := by
  intro t mem v
  by_cases eq : v = ⟨n,w.index n⟩
  · simp [eq]
  rw [update_of_ne eq]
  exact fun ne => eq (placed.rings.apart ne mem)
 have ring := placed.rings.ring ⟨n,w.index n⟩
 obtain ⟨w',ls',ret,ticks,timerTicks,index,final,empty⟩ :=
  cascade_loop_returns low (by rw [placed.index n low high]) up _ w _ emptied spans (placed.rings.once _) apart (forward_of_linked ring)
   (update_self ..)
 refine ⟨{ w' with links := w'.links.reset ⟨n,w.index n⟩
                   index := update w'.index n ((w'.index n + 1) &&& TVN_MASK) },ls',?_,ticks,timerTicks,?_⟩
 · have eq : (fun fuel => cascade_timers n fuel w) = fun fuel =>
     (cascade_loop ⟨n,w.index n⟩ fuel w (initial (.head ⟨n,w.index n⟩) (lists ⟨n,w.index n⟩))).map (fun w' =>
      { w' with links := w'.links.reset ⟨n,w.index n⟩
                index := update w'.index n ((w'.index n + 1) &&& TVN_MASK) }) := by
    funext fuel
    simp only [cascade_timers,linked_next ring]
   rw [eq]
   exact ret.map _
 have mask : ∀ x, x &&& TVN_MASK = x % 64 := fun x => Nat.and_two_pow_sub_one_eq_mod x 6
 refine {final with root := ?_, index := ?_, counters := ?_, held := ?_}
 · have ne : 0 ≠ n := by omega
   simpa [ne] using final.root
 · intro m lower higher
   by_cases eq : m = n
   · subst eq
     simp only [update_self,mask,index,placed.index m low high]
     omega
   · simpa [eq] using final.index m lower higher
 · intro m lower higher
   by_cases eq : m = n
   · subst eq
     rw [update_self,Nat.add_mul,Nat.one_mul,<- up]
     exact ⟨Nat.le_add_right ..,le_rfl⟩
   · simpa [eq] using placed.counters m lower higher
 intro v t mem
 obtain ⟨d,due,holds⟩ := final.held mem
 refine ⟨d,due,?_⟩
 by_cases eq : v = ⟨n,w.index n⟩
 · simp [eq,empty] at mem
 rw [placed.index n low high] at eq
 exact holds.advance eq
lemma shift_add (low : 1 ≤ n) (k : Nat) : shift (n + 1 + k) = shift n + 6 + k * 6 := by
 simp only [shift,TVR_BITS,TVN_BITS]
 omega

variable {x : Nat}
lemma span_dvd_next (low : 1 ≤ n) (around : x % 64 = 0) : 2 ^ shift (n + 1) ∣ x * 2 ^ shift n := by
 obtain ⟨k,rfl⟩ := Nat.dvd_of_mod_eq_zero around
 refine ⟨k,?_⟩
 have span := shift_add low 0
 rw [Nat.add_zero,Nat.zero_mul,Nat.add_zero] at span
 rw [span,pow_add]
 ring
lemma around_of_span_dvd {m : Nat} (low : 1 ≤ n) (later : n < m) (multiple : 2 ^ shift m ∣ x * 2 ^ shift n) :
 x % 64 = 0 := by
 obtain ⟨k,rfl⟩ := Nat.exists_eq_add_of_lt later
 have span : 2 ^ shift (n + k + 1) = 64 * 2 ^ (k * 6) * 2 ^ shift n := by
  rw [show n + k + 1 = n + 1 + k by omega,shift_add low,pow_add,pow_add]
  ring
 rw [span] at multiple
 have divides := Nat.dvd_of_mul_dvd_mul_right (Nat.two_pow_pos _) multiple
 exact Nat.mod_eq_zero_of_dvd ((Nat.dvd_mul_right 64 _).trans divides)
lemma multiple_eq {now span : Nat} (multiple : span ∣ now) (low : now ≤ x * span) (high : x * span < now + span) :
 now = x * span := by
 obtain ⟨k,rfl⟩ := multiple
 rw [Nat.mul_comm span k] at low high ⊢
 rw [<- Nat.succ_mul] at high
 have pos : 0 < span := by
  by_contra zero
  simp [Nat.eq_zero_of_not_pos zero] at high
 have above := Nat.le_of_mul_le_mul_right low pos
 have lt := Nat.lt_of_mul_lt_mul_right high
 rw [show x = k by omega]
lemma advanced {now : Nat} (up : now = c n * 2 ^ shift n) :
 now < update c n (c n + 1) n * 2 ^ shift n := by
 rw [update_self,Nat.add_mul,Nat.one_mul,<- up]
 exact Nat.lt_add_of_pos_right (Nat.two_pow_pos _)
lemma cascade_from_returns (r : Nat) : ∀ {n : Nat} {w : Wheel Timer} {c : Nat -> Nat} {lists : Slot -> List Timer},
 1 ≤ n -> n + r = 4 -> Placed w clock c lists [] -> clock.now = c n * 2 ^ shift n ->
 (∀ m, 1 ≤ m -> m < n -> clock.now < c m * 2 ^ shift m) ->
 (∀ m, 1 ≤ m -> m ≤ 4 -> n ≤ m -> c m * 2 ^ shift m < clock.now + 2 ^ shift m) ->
 ∃ w' c' ls', Returns (fun fuel => cascade_from fuel n w) w' ∧ w'.ticks = w.ticks ∧
  w'.timer_ticks = w.timer_ticks ∧ Placed w' clock c' ls' [] ∧
  ∀ m, 1 ≤ m -> m ≤ 4 -> clock.now < c' m * 2 ^ shift m := by
 induction r with
 | zero =>
  intro n w c lists low last placed up done _
  obtain ⟨w',ls',ret,ticks,timerTicks,put'⟩ := cascade_timers_returns low (by omega) placed up
  refine ⟨w',_,ls',.turn rfl (fun _ => rfl) (ret.bind ?_),ticks,timerTicks,put',?_⟩
  · rw [show n = 4 by omega]
    simpa [NOOF_TVECS] using returns_const w'
  intro m lower higher
  by_cases eq : m = n
  · subst eq
    exact advanced up
  rw [update_of_ne eq]
  exact done m lower (by omega)
 | succ r ih =>
  intro n w c lists low last placed up done ready
  obtain ⟨w',ls',ret,ticks,timerTicks,put'⟩ := cascade_timers_returns low (by omega) placed up
  have index := put'.index n low (by omega)
  rw [update_self] at index
  by_cases around : c n % 64 = 0
  · have ne : n + 1 ≠ n := by omega
    have multiple : 2 ^ shift (n + 1) ∣ clock.now := up ▸ span_dvd_next low around
    have up' := multiple_eq multiple (placed.counters (n + 1) (by omega) (by omega)).1
     (ready (n + 1) (by omega) (by omega) (by omega))
    have done' : ∀ m, 1 ≤ m -> m < n + 1 -> clock.now < update c n (c n + 1) m * 2 ^ shift m := by
     intro m lower pre
     by_cases eq : m = n
     · subst eq
       exact advanced up
     rw [update_of_ne eq]
     exact done m lower (by omega)
    have rdy' : ∀ m, 1 ≤ m -> m ≤ 4 -> n + 1 ≤ m ->
      update c n (c n + 1) m * 2 ^ shift m < clock.now + 2 ^ shift m := by
     intro m lower higher after
     rw [update_of_ne (by omega)]
     exact ready m lower higher (by omega)
    obtain ⟨w'',c'',lists'',returns',ticks',timerTicks',placed'',all⟩ :=
     ih (n := n + 1) (by omega) (by omega) put' (by rwa [update_of_ne ne]) done' rdy'
    refine ⟨w'',c'',lists'',.turn rfl (fun _ => rfl) (ret.bind ?_),ticks'.trans ticks,
     timerTicks'.trans timerTicks,placed'',all⟩
    have goes : w'.index n = 1 ∧ n + 1 < NOOF_TVECS := ⟨by omega,by rw [NOOF_TVECS]; omega⟩
    simpa only [if_pos goes] using returns'
  have stops : ¬ (w'.index n = 1 ∧ n + 1 < NOOF_TVECS) := by omega
  refine ⟨w',_,ls',.turn rfl (fun _ => rfl) (ret.bind ?_),ticks,timerTicks,put',?_⟩
  · simpa only [if_neg stops] using returns_const w'
  intro m lower higher
  rcases Nat.lt_trichotomy m n with pre | rfl | after
  · rw [update_of_ne (by omega)]
    exact done m lower pre
  · exact advanced up
  rw [update_of_ne (by omega)]
  refine lt_of_le_of_ne (placed.counters m lower higher).1 ?_
  intro eq
  refine around (around_of_span_dvd low after ?_)
  rw [<- up,eq]
  exact Nat.dvd_mul_left ..
lemma Placed.cascades (placed : Placed w clock c lists [])
 (ready : ∀ n, 1 ≤ n -> n ≤ 4 -> c n * 2 ^ shift n < clock.now + 2 ^ shift n) :
 ∃ w' c' ls', Returns (fun fuel => if w.index 0 = 0 then cascade_from fuel 1 w else some w) w' ∧
  w'.ticks = w.ticks ∧ Placed w' clock c' ls' [] ∧ ∀ n, 1 ≤ n -> n ≤ 4 -> clock.now < c' n * 2 ^ shift n := by
 by_cases around : clock.now % 256 = 0
 · have multiple : 2 ^ shift 1 ∣ clock.now := Nat.dvd_of_mod_eq_zero around
   have up := multiple_eq multiple (placed.counters 1 (by omega) (by omega)).1 (ready 1 (by omega) (by omega))
   obtain ⟨w',c',ls',ret,ticks,_,put',past⟩ := cascade_from_returns 3 (n := 1) le_rfl rfl placed up
    (fun m lower pre => by omega) (fun m lower higher _ => ready m lower higher)
   refine ⟨w',c',ls',?_,ticks,put',past⟩
   simpa only [placed.root,around,if_true] using ret
 refine ⟨w,c,lists,?_,rfl,placed,?_⟩
 · simpa only [placed.root,around,if_false] using returns_const w
 intro n low high
 refine lt_of_le_of_ne (placed.counters n low high).1 ?_
 intro eq
 have divides : 256 ∣ clock.now := by
  rw [eq]
  refine Dvd.dvd.mul_left ?_ _
  exact Nat.pow_dvd_pow 2 (show 8 ≤ shift n by simp only [shift,TVR_BITS]; omega)
 exact around (Nat.mod_eq_zero_of_dvd divides)

end
end Netbas.TimerWheel
