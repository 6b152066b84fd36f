import Mathlib.Tactic

/-!
Transfers of in-memory files (`core/fs/rawfs.c`). `fread` counts bytes where it should count
elements, and stops after the elements that cover `nmemb` bytes (`transfers_iff`).
-/
namespace Netbas.RawFiles
open List
/-- The size of a file is the length of its data; `modfs_add` is given it as an `int`. -/
structure File where
 data : List UInt8
 readpos : Nat
 writepos : Nat
def modfs_getc (f : File) : Option (UInt8 × File) := f.data[f.readpos]?.map (fun c => (c,{f with readpos := f.readpos + 1}))
def modfs_putc (c : UInt8) (f : File) : Option File :=
 if f.writepos ≥ f.data.length then none
 else some {f with data := f.data.set f.writepos c, writepos := f.writepos + 1}

/-- The file, what stands in the buffer, and `ndone`. -/
structure Reading where
 file : File
 buffer : List UInt8
 ndone : Nat

/-- The inner loop of `fread`; `false` is the return at the end of the file. -/
def fread_element : Nat -> Reading -> Bool × Reading
 | 0, r => (true,r)
 | s + 1, r =>
  match modfs_getc r.file with
  | some (c,file) => fread_element s ⟨file,r.buffer ++ [c],r.ndone + 1⟩
  | none => (false,r)
def fread_loop (size nmemb : Nat) : Nat -> Reading -> Option Reading
 | 0, _ => none
 | fuel + 1, r =>
  if r.ndone < nmemb then
   match fread_element size r with
   | (true,r) => fread_loop size nmemb fuel r
   | (false,r) => some r
  else some r
def fread (size nmemb : Nat) (f : File) : Option Reading :=
 if size = 0 then some ⟨f,[],0⟩ else fread_loop size nmemb (nmemb + 1) ⟨f,[],0⟩

/-- The file, what is left of the buffer, and `ndone`. -/
structure Writing where
 file : File
 buffer : List UInt8
 ndone : Nat

/-- The inner loop of `fwrite`; a read behind the buffer is undefined. -/
def fwrite_element : Nat -> Writing -> Option (Bool × Writing)
 | 0, w => some (true,w)
 | s + 1, w =>
  match w.buffer with
  | [] => none
  | c :: rest =>
   match modfs_putc c w.file with
   | some file => fwrite_element s ⟨file,rest,w.ndone⟩
   | none => some (false,w)
def fwrite_loop (size nmemb : Nat) : Nat -> Writing -> Option Writing
 | 0, _ => none
 | fuel + 1, w =>
  if w.ndone < nmemb then
   (fwrite_element size w).bind (fun r =>
    if r.1 then fwrite_loop size nmemb fuel {r.2 with ndone := r.2.ndone + 1} else some r.2)
  else some w
def fwrite (buffer : List UInt8) (size nmemb : Nat) (f : File) : Option Writing :=
 if size = 0 then some ⟨f,buffer,0⟩ else fwrite_loop size nmemb (nmemb + 1) ⟨f,buffer,0⟩
structure Transfer where
 file : File
 size : Nat
 nmemb : Nat
 buffer : List UInt8
 small : file.data.length < 2^31
 readable : file.readpos ≤ file.data.length
 writable : file.writepos ≤ file.data.length
 elements : 1 ≤ size ∧ 1 ≤ nmemb ∧ size * nmemb < 2^32
 whole : buffer.length = size * nmemb
def Reading.move (r : Reading) (k : Nat) : Reading :=
 ⟨{r.file with readpos := r.file.readpos + k},r.buffer ++ (r.file.data.drop r.file.readpos).take k,r.ndone + k⟩
def Writing.move (w : Writing) (k : Nat) : Writing :=
 ⟨{ w.file with
   data := w.file.data.take w.file.writepos ++ w.buffer.take k ++ w.file.data.drop (w.file.writepos + k),
   writepos := w.file.writepos + k },w.buffer.drop k,w.ndone⟩
def Reading.left (r : Reading) : Nat := r.file.data.length - r.file.readpos
def Writing.left (w : Writing) : Nat := w.file.data.length - w.file.writepos

namespace Transfer
variable (t : Transfer)
/-- Both calls move all bytes that they are asked for and that the file has room for. -/
def Right : Prop :=
 (∃ ndone, fread t.size t.nmemb t.file =
  some {Reading.move ⟨t.file,[],0⟩ (min (t.size * t.nmemb) (t.file.data.length - t.file.readpos)) with ndone := ndone}) ∧
 ∃ ndone, fwrite t.buffer t.size t.nmemb t.file =
  some {Writing.move ⟨t.file,t.buffer,0⟩ (min (t.size * t.nmemb) (t.file.data.length - t.file.writepos)) with ndone := ndone}

end Transfer

/-- What `fread` asks for: the elements that cover `n` bytes. -/
def covering (size n : Nat) : Nat := (n + size - 1) / size * size

variable {size n : Nat}
lemma covering_step (pos : 0 < size) (some : 0 < n) : covering size n = size + covering size (n - size) := by
 have rounds : (n + size - 1) / size = (n - size + size - 1) / size + 1 := by
  rcases Nat.lt_or_ge n size with lt | more
  · rw [show n - size + size - 1 = size - 1 by omega,Nat.div_eq_of_lt (by omega : size - 1 < size),
     show n + size - 1 = (n - 1) + size by omega,Nat.add_div_right _ pos,Nat.div_eq_of_lt (by omega)]
  · rw [show n + size - 1 = (n - size + size - 1) + size by omega,Nat.add_div_right _ pos]
 rw [covering,covering,rounds,Nat.add_mul,Nat.one_mul,Nat.add_comm]
lemma covering_zero {size : Nat} (pos : 0 < size) : covering size 0 = 0 := by
 rw [covering,Nat.div_eq_of_lt (by omega),Nat.zero_mul]
lemma Reading.move_move (r : Reading) (k l : Nat) : (r.move k).move l = r.move (k + l) := by
 simp only [move,append_assoc,take_add,drop_drop,Nat.add_assoc]
lemma fread_element_eq (s : Nat) : ∀ r : Reading,
 fread_element s r = (decide (s ≤ r.left),r.move (min s r.left)) := by
 induction s with
 | zero => simp [fread_element,Reading.move]
 | succ s ih =>
  intro r
  rw [fread_element,modfs_getc]
  by_cases mem : r.file.readpos < r.file.data.length
  · have fst : (r.file.data.drop r.file.readpos).take 1 = [r.file.data[r.file.readpos]] := by
     rw [drop_eq_getElem_cons mem]
     rfl
    have moved : (⟨{r.file with readpos := r.file.readpos + 1},r.buffer ++ [r.file.data[r.file.readpos]],r.ndone + 1⟩ : Reading) =
      r.move 1 := by
     rw [Reading.move,fst]
    have left : (r.move 1).left = r.left - 1 := Nat.sub_add_eq ..
    have some : 0 < r.left := Nat.sub_pos_of_lt mem
    simp only [getElem?_eq_getElem mem,Option.map_some,moved,ih,Reading.move_move,left]
    rw [show 1 + min s (r.left - 1) = min (s + 1) r.left by omega,decide_eq_decide.mpr (show s ≤ r.left - 1 ↔ s + 1 ≤ r.left by omega)]
  have none : r.left = 0 := Nat.sub_eq_zero_of_le (by omega)
  simp [getElem?_eq_none (Nat.le_of_not_lt mem),none,Reading.move]
lemma fread_loop_eq {size : Nat} (pos : 0 < size) (nmemb fuel : Nat) : ∀ r : Reading, nmemb - r.ndone < fuel ->
 fread_loop size nmemb fuel r = some (r.move (min (covering size (nmemb - r.ndone)) r.left)) := by
 induction fuel with
 | zero => intro r enough; omega
 | succ fuel ih =>
  intro r enough
  rw [fread_loop]
  by_cases more : r.ndone < nmemb
  · have step := covering_step pos (show 0 < nmemb - r.ndone by omega)
    rw [if_pos more,fread_element_eq]
    by_cases fits : size ≤ r.left
    · have left : (r.move size).left = r.left - size := Nat.sub_add_eq ..
      have done : (r.move size).ndone = r.ndone + size := rfl
      simp only [decide_eq_true fits,Nat.min_eq_left fits]
      rw [ih _ (by omega),Reading.move_move,left,done,Nat.sub_add_eq,step]
      congr 2
      omega
    simp only [decide_eq_false fits]
    congr 2
    omega
  rw [if_neg more,show nmemb - r.ndone = 0 by omega,covering_zero pos]
  simp [Reading.move]

section
variable {w : Writing} {k : Nat}
lemma Writing.length_eq (mem : w.file.writepos ≤ w.file.data.length) (enough : k ≤ w.buffer.length) :
 (w.file.data.take w.file.writepos ++ w.buffer.take k).length = w.file.writepos + k := by
 rw [length_append,length_take,length_take,Nat.min_eq_left mem,Nat.min_eq_left enough]
lemma Writing.move_move (mem : w.file.writepos ≤ w.file.data.length) (enough : k ≤ w.buffer.length) (l : Nat) :
 (w.move k).move l = w.move (k + l) := by
 have length := length_eq mem enough
 have fst : (w.move k).file.data.take (w.file.writepos + k) = w.file.data.take w.file.writepos ++ w.buffer.take k :=
  take_left' length
 have last : (w.move k).file.data.drop (w.file.writepos + k + l) = w.file.data.drop (w.file.writepos + k + l) := by
  have kept : (w.move k).file.data.drop (w.file.writepos + k) = w.file.data.drop (w.file.writepos + k) := drop_left' length
  simpa only [drop_drop] using congrArg (List.drop l) kept
 conv_lhs => rw [move]
 simp only [show (w.move k).file.writepos = w.file.writepos + k from rfl,fst,last]
 simp only [move,take_add,drop_drop,append_assoc,Nat.add_assoc]
lemma Writing.left_move (mem : k ≤ w.left) (enough : k ≤ w.buffer.length) (at_ : w.file.writepos ≤ w.file.data.length) :
 (w.move k).left = w.left - k ∧ (w.move k).file.writepos ≤ (w.move k).file.data.length := by
 have length := length_eq at_ enough
 have whole : (w.move k).file.data.length = w.file.data.length := by
  rw [move,length_append,length,length_drop]
  rw [left] at mem
  omega
 unfold left at *
 rw [whole]
 change w.file.data.length - (w.file.writepos + k) = _ ∧ w.file.writepos + k ≤ _
 omega
lemma fwrite_element_eq (s : Nat) : ∀ w : Writing, w.file.writepos ≤ w.file.data.length -> s ≤ w.buffer.length ->
 fwrite_element s w = some (decide (s ≤ w.left),w.move (min s w.left)) := by
 induction s with
 | zero => intro w _ _; simp [fwrite_element,Writing.move]
 | succ s ih =>
  intro w mem enough
  obtain ⟨c,rest,buffer⟩ := exists_cons_of_length_pos (show 0 < w.buffer.length by omega)
  rw [fwrite_element,buffer]
  by_cases more : w.file.writepos < w.file.data.length
  · have moved : (⟨{w.file with data := w.file.data.set w.file.writepos c, writepos := w.file.writepos + 1},rest,w.ndone⟩ : Writing) =
      w.move 1 := by
     simp [Writing.move,buffer,set_eq_take_append_cons_drop,more]
    have some : 0 < w.left := Nat.sub_pos_of_lt more
    obtain ⟨left,inside'⟩ := Writing.left_move some (by omega) mem
    simp only [modfs_putc,ge_iff_le,Nat.not_le.mpr more,if_false,moved]
    rw [ih _ inside' (by rw [Writing.move,length_drop]; omega),Writing.move_move mem (by omega),left,
     show 1 + min s (w.left - 1) = min (s + 1) w.left by omega,
     decide_eq_decide.mpr (show s ≤ w.left - 1 ↔ s + 1 ≤ w.left by omega)]
  have none : w.left = 0 := Nat.sub_eq_zero_of_le (by omega)
  simp [modfs_putc,Nat.le_of_not_lt more,none,Writing.move]
lemma fwrite_loop_eq (size nmemb fuel : Nat) : ∀ w : Writing,
 w.file.writepos ≤ w.file.data.length -> (nmemb - w.ndone) * size ≤ w.buffer.length -> nmemb - w.ndone < fuel ->
 ∃ ndone, fwrite_loop size nmemb fuel w =
  some {w.move (min ((nmemb - w.ndone) * size) w.left) with ndone := ndone} := by
 induction fuel with
 | zero => intro w _ _ enough; omega
 | succ fuel ih =>
  intro w mem enough fuel'
  rw [fwrite_loop]
  by_cases more : w.ndone < nmemb
  · obtain ⟨n,count⟩ : ∃ n, nmemb - w.ndone = n + 1 := ⟨nmemb - w.ndone - 1,by omega⟩
    rw [count,Nat.succ_mul] at enough ⊢
    rw [if_pos more,fwrite_element_eq size w mem (by omega),Option.bind_some]
    by_cases fits : size ≤ w.left
    · obtain ⟨left,inside'⟩ := Writing.left_move fits (by omega) mem
      have rest : nmemb - (w.ndone + 1) = n := by omega
      obtain ⟨ndone,done⟩ := ih {w.move size with ndone := w.ndone + 1} inside'
       (by rw [rest]; simp only [Writing.move,length_drop]; omega) (by simp only [rest]; omega)
      refine ⟨ndone,?_⟩
      simp only [decide_eq_true fits,Nat.min_eq_left fits,if_true]
      refine done.trans ?_
      have both := Writing.move_move mem (show size ≤ w.buffer.length by omega) (min (n * size) (w.left - size))
      rw [show size + min (n * size) (w.left - size) = min (n * size + size) w.left by omega] at both
      rw [<- both]
      simp only [rest]
      rw [show Writing.left {w.move size with ndone := w.ndone + 1} = w.left - size from left]
      rfl
    refine ⟨w.ndone,?_⟩
    simp only [decide_eq_false fits,Bool.false_eq_true,if_false]
    rw [show min (n * size + size) w.left = min size w.left by omega]
    rfl
  refine ⟨w.ndone,?_⟩
  rw [if_neg more,show nmemb - w.ndone = 0 by omega]
  simp [Writing.move]

end
lemma covering_le (pos : 0 < size) (positive' : 0 < n) : covering size n ≤ size * n := by
 obtain ⟨a,rfl⟩ : ∃ a, size = a + 1 := ⟨size - 1,by omega⟩
 obtain ⟨b,rfl⟩ : ∃ b, n = b + 1 := ⟨n - 1,by omega⟩
 have product : (a + 1) * (b + 1) = a * b + a + b + 1 := by ring
 rw [covering,Nat.mul_comm (a + 1)]
 exact Nat.mul_le_mul_right _ (Nat.div_le_of_le_mul (by omega))
lemma covering_lt (several : 1 < size) (several' : 1 < n) : covering size n < size * n := by
 have whole : covering size n ≤ n + size - 1 := Nat.div_mul_le_self _ _
 obtain ⟨a,rfl⟩ : ∃ a, size = a + 2 := ⟨size - 2,by omega⟩
 obtain ⟨b,rfl⟩ : ∃ b, n = b + 2 := ⟨n - 2,by omega⟩
 have product : (a + 2) * (b + 2) = a * b + 2 * a + 2 * b + 4 := by ring
 omega
theorem transfers_iff (t : Transfer) : t.Right ↔
 t.size = 1 ∨ t.nmemb = 1 ∨ t.file.data.length - t.file.readpos ≤ covering t.size t.nmemb := by
 obtain ⟨pos,positive',_⟩ := t.elements
 have reads := fread_loop_eq pos t.nmemb (t.nmemb + 1) ⟨t.file,[],0⟩ (Nat.lt_succ_self _)
 obtain ⟨ndone,writes⟩ := fwrite_loop_eq t.size t.nmemb (t.nmemb + 1) ⟨t.file,t.buffer,0⟩ t.writable
  (by rw [t.whole,Nat.mul_comm]; exact le_rfl) (Nat.lt_succ_self _)
 have read : fread t.size t.nmemb t.file = _ := (if_neg (by omega)).trans reads
 have write : fwrite t.buffer t.size t.nmemb t.file = _ := (if_neg (by omega)).trans writes
 rw [Nat.sub_zero,Nat.mul_comm] at write
 rw [Nat.sub_zero] at read
 constructor
 · rintro ⟨⟨ndone,all⟩,_⟩
   by_contra! ne
   obtain ⟨several,several',more⟩ := ne
   have few := covering_lt (show 1 < t.size by omega) (show 1 < t.nmemb by omega)
   rw [read,Option.some.injEq] at all
   have eq := congrArg (fun r : Reading => r.file.readpos) all
   simp only [Reading.move,Reading.left] at eq
   omega
 intro condition
 have eq : min (covering t.size t.nmemb) (t.file.data.length - t.file.readpos) =
   min (t.size * t.nmemb) (t.file.data.length - t.file.readpos) := by
  rcases condition with one | one | ends
  · rw [covering,one,Nat.add_sub_cancel,Nat.div_one,Nat.mul_comm]
  · rw [covering,one,Nat.add_sub_cancel_left,Nat.div_self pos,Nat.mul_comm]
  have := covering_le pos positive'
  omega
 rw [Reading.left,eq] at read
 exact ⟨⟨_,read⟩,ndone,write⟩
theorem fread_one_element :
 ¬ Transfer.Right ⟨⟨[1,2,3,4,5,6,7,8],0,0⟩,4,2,List.replicate 8 0,by decide,by decide,by decide,by decide,by decide⟩ := by
 rintro ⟨⟨ndone,eq⟩,_⟩
 have read : ([1,2,3,4] : List UInt8) = [1,2,3,4,5,6,7,8] := Option.some.inj (congrArg (Option.map Reading.buffer) eq)
 exact absurd read (by decide)

end Netbas.RawFiles
