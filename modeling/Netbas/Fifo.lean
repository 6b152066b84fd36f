import Netbas.Circular

/-!
The kernel FIFO (`core/fs/fifo.c`). A position runs from 0 to `size`, a power of two, and both ends
stand for the first cell. `fifo_is_queue`: the file is a queue of `size - 1` bytes.
-/
namespace Netbas.Fifo
open Circular List
def ENODEV : Int := -19
abbrev Data := Nat -> UInt8

/-- What a FIFO uses of a `file_t`. The positions are the words of the two `int` fields. -/
structure File where
 size : Nat
 data : Option Data
 readpos : Nat
 writepos : Nat
inductive Returns where
 | null
 | enomem
 | file (f : File)

/-- The loop of `fifo_init`, which goes on for ever when the bit has been shifted out. -/
def double (size : Nat) : Nat -> Nat -> Option Nat
 | 0, _ => none
 | fuel + 1, n => if n ≤ size then double size fuel (n * 2 % 2^32) else some n
def fifo_init (slot : Option File) (size : BitVec 32) (memory : Bool) : Option Returns :=
 match slot with
 | none => some .null
 | some f => (double size.toNat 33 1).map (fun n =>
   if memory then .file {f with size := n, data := some (fun _ => 0)} else .enomem)
section
variable (f : File)
def fifo_open : File := {f with readpos := 0, writepos := 0}
def fifo_used : Nat := (f.writepos + (2^32 - f.readpos)) % 2^32 &&& (f.size - 1)
def fifo_space : Nat := f.size - 1 - fifo_used f

/-- `memcpy` to the data; there is nothing behind them to write to. -/
def store (size : Nat) (data : Data) (i : Nat) (bytes : List UInt8) : Option Data :=
 if i + bytes.length ≤ size then
  some (fun j => if i ≤ j ∧ j < i + bytes.length then bytes.getD (j - i) 0 else data j)
 else none
def load (size : Nat) (data : Data) (i len : Nat) : Option (List UInt8) :=
 if i + len ≤ size then some ((range len).map (fun j => data (i + j))) else none
def fifo_write (buf : List UInt8) : Option (Int × File) :=
 match f.data with
 | none => some (-ENODEV,f)
 | some data =>
  let total := fifo_space f
  let len := if buf.length > total then total else buf.length
  let buf := buf.take len
  if f.writepos + len > f.size then
   let n := f.size - f.writepos
   (store f.size data f.writepos (buf.take n)).bind (fun data =>
    (store f.size data 0 (buf.drop n)).map (fun data => (len,{f with data := some data, writepos := len - n})))
  else
   (store f.size data f.writepos buf).map (fun data => (len,{f with data := some data, writepos := f.writepos + len}))
def fifo_read (len : Nat) : Option (Int × List UInt8 × File) :=
 match f.data with
 | none => some (-ENODEV,[],f)
 | some data =>
  let total := fifo_used f
  let len := if len > total then total else len
  if f.readpos + len > f.size then
   let n := f.size - f.readpos
   (load f.size data f.readpos n).bind (fun fst =>
    (load f.size data 0 (len - n)).map (fun snd => (len,fst ++ snd,{f with readpos := len - n})))
  else
   (load f.size data f.readpos len).map (fun bytes => (len,bytes,{f with readpos := f.readpos + len}))
inductive Call where
 | fifo_write (buf : List UInt8)
 | fifo_read (len : Nat)
inductive Answer where
 | wrote (total : Int)
 | read (total : Int) (bytes : List UInt8)
def step : Call -> Option (Answer × File)
 | .fifo_write buf => (fifo_write f buf).map (fun r => (.wrote r.1,r.2))
 | .fifo_read len => (fifo_read f len).map (fun r => (.read r.1 r.2.1,r.2.2))
end
def answers (f : File) : List Call -> Option (List Answer)
 | [] => some []
 | c :: rest => (step f c).bind (fun r => (answers r.2 rest).map (r.1 :: ·))
def queueStep (capacity : Nat) (q : List UInt8) : Call -> Answer × List UInt8
 | .fifo_write buf => (.wrote (min buf.length (capacity - q.length) : Nat),q ++ buf.take (capacity - q.length))
 | .fifo_read len => (.read (min len q.length : Nat) (q.take len),q.drop len)
def queueAnswers (capacity : Nat) (q : List UInt8) : List Call -> List Answer
 | [] => []
 | c :: rest => (queueStep capacity q c).1 :: queueAnswers capacity (queueStep capacity q c).2 rest
structure Holds (f : File) (data : Data) (q : List UInt8) : Prop where
 here : f.data = some data
 power : ∃ k ≤ 31, f.size = 2^k
 read : f.readpos ≤ f.size
 write : f.writepos ≤ f.size
 short : q.length < f.size
 meets : f.readpos + q.length ≡ f.writepos [MOD f.size]
 bytes : contents f.size data f.readpos q.length = q

variable {f : File} {data : Data} {q : List UInt8} {n i len size : Nat}
lemma contents_congr {r r' : Nat} (eq : r ≡ r' [MOD n]) (data : Data) (len : Nat) :
 contents n data r len = contents n data r' len := by
 rw [contents,contents]
 apply map_congr_left
 intro j _
 rw [eq.add_right j]
lemma contents_append (r len len' : Nat) :
 contents n data r (len + len') = contents n data r len ++ contents n data (r + len) len' := by
 simp [contents,range_add,Nat.add_assoc]
lemma used_eq (holds : Holds f data q) : fifo_used f = q.length := by
 obtain ⟨k,small,size⟩ := holds.power
 have word : f.size ∣ 2^32 := size ▸ Nat.pow_dvd_pow 2 (by omega)
 have bound : f.size ≤ 2^32 := Nat.le_of_dvd (by decide) word
 have lt := holds.read
 have eq : f.writepos + (2^32 - f.readpos) ≡ q.length [MOD f.size] := by
  calc f.writepos + (2^32 - f.readpos) ≡ f.readpos + q.length + (2^32 - f.readpos) [MOD f.size] :=
        (holds.meets.symm.add_right _)
   _ = q.length + 2^32 := by omega
   _ ≡ q.length + 0 [MOD f.size] := (Nat.modEq_zero_iff_dvd.mpr word).add_left _
 rw [fifo_used,size,Nat.and_two_pow_sub_one_eq_mod,<- size,Nat.mod_mod_of_dvd _ word,eq,Nat.mod_eq_of_lt holds.short]
lemma load_eq (mem : i + len ≤ n) : load n data i len = some (contents n data i len) := by
 rw [load,if_pos mem,contents]
 congr 1
 apply map_congr_left
 intro j lt
 rw [Nat.mod_eq_of_lt (by have := mem_range.mp lt; omega)]
lemma read_step (holds : Holds f data q) (len : Nat) :
 ∃ f', fifo_read f len = some (((min len q.length : Nat) : Int),q.take len,f') ∧ Holds f' data (q.drop len) ∧ f'.size = f.size := by
 have used := used_eq holds
 have few : (if len > fifo_used f then fifo_used f else len) = min len q.length := by
  rw [used]
  split <;> omega
 obtain ⟨m,isMin⟩ : ∃ m, m = min len q.length := ⟨_,rfl⟩
 have fits : m ≤ q.length := isMin ▸ Nat.min_le_right _ _
 have least : q.take len = q.take m ∧ q.drop len = q.drop m := by
  rw [isMin]
  simp
 have split' : contents f.size data f.readpos m ++ contents f.size data (f.readpos + m) (q.length - m) = q := by
  rw [<- contents_append,Nat.add_sub_cancel' fits,holds.bytes]
 have ran : contents f.size data f.readpos m = q.take m := by
  rw [<- split',take_left' (contents_length ..)]
 have left : contents f.size data (f.readpos + m) (q.length - m) = q.drop m := by
  conv_rhs => rw [<- split',drop_left' (contents_length ..)]
 have next : ∀ r, r ≤ f.size -> f.readpos + m ≡ r [MOD f.size] -> Holds {f with data := some data, readpos := r} data (q.drop m) := by
  intro r lt eq
  refine ⟨rfl,holds.power,lt,holds.write,?_,?_,?_⟩
  · simpa using lt_of_le_of_lt (Nat.sub_le _ _) holds.short
  · refine (eq.symm.add_right _).trans ?_
    rw [length_drop,Nat.add_assoc,Nat.add_sub_cancel' fits]
    exact holds.meets
  rw [length_drop,<- left]
  exact contents_congr eq.symm data _
 have lt := holds.read
 have short := holds.short
 rw [fifo_read,holds.here,least.1,least.2]
 simp only [few,<- isMin]
 by_cases wraps : f.readpos + m > f.size
 · rw [if_pos wraps,load_eq (by omega),Option.bind_some,load_eq (by omega),Option.map_some]
   have wrap : f.readpos + m = f.size + (m - (f.size - f.readpos)) := by omega
   have both : contents f.size data f.readpos (f.size - f.readpos) ++ contents f.size data 0 (m - (f.size - f.readpos)) =
     q.take m := by
    rw [<- ran]
    conv_rhs => rw [show m = f.size - f.readpos + (m - (f.size - f.readpos)) by omega,contents_append,
     Nat.add_sub_cancel' lt]
    rw [contents_congr (show 0 ≡ f.size [MOD f.size] by simp [Nat.ModEq])]
   rw [both]
   refine ⟨_,rfl,next _ (by omega) ?_,rfl⟩
   rw [wrap]
   simp [Nat.ModEq]
 rw [if_neg wraps,load_eq (by omega),Option.map_some,ran]
 exact ⟨_,rfl,next _ (by omega) rfl,rfl⟩
def Stored (n w : Nat) (bytes : List UInt8) (data data' : Data) : Prop :=
 contents n data' w bytes.length = bytes ∧
  ∀ j < n, (∀ t < bytes.length, (w + t) % n ≠ j) -> data' j = data j
variable {bytes : List UInt8}
lemma store_stored (data : Data) (mem : i + bytes.length ≤ n) :
 ∃ data', store n data i bytes = some data' ∧ Stored n i bytes data data' := by
 refine ⟨_,if_pos mem,?_,?_⟩
 · apply ext_getElem
   · simp
   intro t _ lt
   simp only [contents,getElem_map,getElem_range]
   rw [Nat.mod_eq_of_lt (by omega),if_pos (by omega),Nat.add_sub_cancel_left]
   simp [lt]
 intro j _ ne
 refine if_neg fun between => ne (j - i) (by omega) ?_
 rw [Nat.add_sub_cancel' between.1,Nat.mod_eq_of_lt (by omega)]
lemma Stored.append {w : Nat} {fst snd : List UInt8} {data data' data'' : Data}
 (one : Stored n w fst data data') (two : Stored n (w + fst.length) snd data' data'')
 (short : fst.length + snd.length ≤ n) : Stored n w (fst ++ snd) data data'' := by
 refine ⟨?_,?_⟩
 · rw [length_append,contents_append,two.1]
   congr 1
   refine Eq.trans ?_ one.1
   rw [contents,contents]
   apply map_congr_left
   intro t lt
   have lt := mem_range.mp lt
   refine two.2 _ (Nat.mod_lt _ (by omega)) fun s low eq => ?_
   rw [Nat.add_assoc] at eq
   have := index_injective (by omega) (by omega) eq
   omega
 intro j mem ne
 rw [two.2 j mem,one.2 j mem]
 · exact fun t low => ne t (by rw [length_append]; omega)
 intro t low
 rw [Nat.add_assoc]
 exact ne (fst.length + t) (by rw [length_append]; omega)
lemma Stored.congr {w w' : Nat} {data data' : Data} (stored : Stored n w bytes data data')
 (eq : w ≡ w' [MOD n]) : Stored n w' bytes data data' := by
 refine ⟨(contents_congr eq data' _) ▸ stored.1,fun j mem ne => stored.2 j mem (fun t low here => ?_)⟩
 exact ne t low (Eq.trans (eq.add_right t).symm here)
lemma write_step (holds : Holds f data q) (buf : List UInt8) :
 ∃ f' data', fifo_write f buf = some (((min buf.length (f.size - 1 - q.length) : Nat) : Int),f') ∧
  Holds f' data' (q ++ buf.take (f.size - 1 - q.length)) ∧ f'.size = f.size := by
 have space : fifo_space f = f.size - 1 - q.length := by rw [fifo_space,used_eq holds]
 obtain ⟨bytes,isBytes⟩ : ∃ bytes, bytes = buf.take (f.size - 1 - q.length) := ⟨_,rfl⟩
 have length : bytes.length = min buf.length (f.size - 1 - q.length) := by
  rw [isBytes,length_take,Nat.min_comm]
 have few : (if buf.length > fifo_space f then fifo_space f else buf.length) = bytes.length := by
  rw [space,length]
  split <;> omega
 have eq : buf.take bytes.length = bytes := by
  rw [length,isBytes,Nat.min_comm]
  simp
 have lt := holds.write
 have short := holds.short
 have pos : 0 < f.size := by omega
 have next : ∀ data' w, w ≤ f.size -> f.writepos + bytes.length ≡ w [MOD f.size] ->
   Stored f.size f.writepos bytes data data' ->
   Holds {f with data := some data', writepos := w} data' (q ++ bytes) := by
  intro data' w mem at' stored
  refine ⟨rfl,holds.power,holds.read,mem,?_,?_,?_⟩
  · rw [length_append]
    change q.length + bytes.length < f.size
    omega
  · rw [length_append,<- Nat.add_assoc]
    exact (holds.meets.add_right _).trans at'
  rw [length_append,contents_append]
  congr 1
  · conv_rhs => rw [<- holds.bytes]
    rw [contents,contents]
    apply map_congr_left
    intro t low
    have low := mem_range.mp low
    refine stored.2 _ (Nat.mod_lt _ pos) fun s inside' here => ?_
    have cell : (f.readpos + (q.length + s)) % f.size = (f.readpos + t) % f.size := by
     rw [<- Nat.add_assoc]
     exact (holds.meets.add_right s).trans here
    have := index_injective (i := q.length + s) (j := t) (by omega) (by omega) cell
    omega
  · exact (contents_congr holds.meets data' _).trans stored.1
 rw [fifo_write,holds.here,<- isBytes,<- length]
 simp only [few,eq]
 by_cases wraps : f.writepos + bytes.length > f.size
 · obtain ⟨n,isRoom⟩ : ∃ n, n = f.size - f.writepos := ⟨_,rfl⟩
   have ran : (bytes.take n).length = n := by
    rw [length_take]
    omega
   obtain ⟨data1,fst,stored1⟩ := store_stored data (show f.writepos + (bytes.take n).length ≤ f.size by omega)
   obtain ⟨data2,snd,stored2⟩ := store_stored data1 (show 0 + (bytes.drop n).length ≤ f.size by rw [length_drop]; omega)
   rw [if_pos wraps,<- isRoom,fst,Option.bind_some,snd,Option.map_some]
   have at' : f.writepos + n = f.size := by omega
   have whole := stored1.append (stored2.congr (by rw [ran,at']; simp [Nat.ModEq])) (by rw [ran,length_drop]; omega)
   rw [take_append_drop] at whole
   refine ⟨_,data2,rfl,next data2 _ (by omega) ?_ whole,rfl⟩
   rw [show f.writepos + bytes.length = f.size + (bytes.length - n) by omega]
   simp [Nat.ModEq]
 obtain ⟨data',done,stored⟩ := store_stored data (show f.writepos + bytes.length ≤ f.size by omega)
 rw [if_neg wraps,done,Option.map_some]
 exact ⟨_,data',rfl,next data' _ (by omega) rfl stored,rfl⟩
lemma answers_eq (calls : List Call) : ∀ (f : File) (data : Data) (q : List UInt8), Holds f data q ->
 answers f calls = some (queueAnswers (f.size - 1) q calls) := by
 induction calls with
 | nil => exact fun _ _ _ _ => rfl
 | cons c rest ih =>
  intro f data q holds
  cases c with
  | fifo_write buf =>
   obtain ⟨f',data',done,holds',eq⟩ := write_step holds buf
   simp only [answers,step,done,Option.map_some,Option.bind_some,ih f' data' _ holds',queueAnswers,queueStep,eq]
  | fifo_read len =>
   obtain ⟨f',done,holds',eq⟩ := read_step holds len
   simp only [answers,step,done,Option.map_some,Option.bind_some,ih f' data _ holds',queueAnswers,queueStep,eq]
lemma double_power (size fuel : Nat) : ∀ k, k ≤ 32 -> ∀ n, double size fuel (2^k % 2^32) = some n -> ∃ j ≤ 31, n = 2^j := by
 induction fuel with
 | zero => rintro k _ n ⟨⟩
 | succ fuel ih =>
  intro k small n hit
  rw [double] at hit
  by_cases last : k = 32
  · subst last
    rw [if_pos (by simp)] at hit
    exact ih 32 le_rfl n hit
  have fits : 2^k % 2^32 = 2^k := Nat.mod_eq_of_lt (Nat.pow_lt_pow_right (by decide) (by omega))
  rw [fits,<- pow_succ] at hit
  split at hit
  · exact ih (k + 1) (by omega) n hit
  · exact ⟨k,by omega,(Option.some.inj hit).symm⟩
variable {slot : Option File}
lemma holds_opened {size : BitVec 32} {memory : Bool}
 (made : fifo_init slot size memory = some (.file f)) : ∃ data, Holds (fifo_open f) data [] := by
 cases slot with
 | none => cases made
 | some old =>
  obtain ⟨n,hit,eq⟩ := Option.map_eq_some_iff.mp made
  cases memory with
  | false => cases eq
  | true =>
   cases eq
   obtain ⟨k,small,rfl⟩ := double_power size.toNat 33 0 (by decide) n hit
   exact ⟨_,rfl,⟨k,small,rfl⟩,Nat.zero_le _,Nat.zero_le _,Nat.two_pow_pos k,rfl,rfl⟩

/-- Whatever is written and read, the answers are those of a queue of `size - 1` bytes; there is always an
  answer, so that no copy leaves the data. -/
theorem fifo_is_queue {size : BitVec 32} {memory : Bool} {f : File}
 (made : fifo_init slot size memory = some (.file f)) (calls : List Call) :
 answers (fifo_open f) calls = some (queueAnswers (f.size - 1) [] calls) := by
 obtain ⟨data,holds⟩ := holds_opened made
 exact answers_eq calls (fifo_open f) data [] holds
theorem fifo_is_queue_five : ∃ f, fifo_init (some ⟨0,none,9,9⟩) 5 true = some (.file f) ∧
 answers (fifo_open f) [.fifo_write [1,2,3],.fifo_read 2,.fifo_write [4,5,6,7,8,9,10],.fifo_read 9] =
  some [.wrote 3,.read 2 [1,2],.wrote 6,.read 7 [3,4,5,6,7,8,9]] :=
 ⟨⟨8,some (fun _ => 0),9,9⟩,rfl,@fifo_is_queue (some ⟨0,none,9,9⟩) 5 true _ rfl _⟩

end Netbas.Fifo
