import Mathlib.Tactic

/-!
Files in blocks (`do_filp_read` and `fwrite` of `drv/fs/vfs/stdio.c`), over any placement of the chunks
of a file and a cache that gives access to the blocks. Positions stay below `2 ^ 31`.
-/
namespace Netbas.BlockFiles
open List
structure Layout where
 dev_block_size : Nat
 block : Nat -> Nat
 /-- Given the size of the file, the position, and whether a missing block is made. -/
 vfs_bmap : Nat -> Nat -> Bool -> Int
 size_pos : 0 < dev_block_size
 positive : ∀ pos, 0 < block pos
 separate : ∀ p q, block p = block q ↔ p / dev_block_size = q / dev_block_size
 found : ∀ i_size pos create, create = true ∨ pos < i_size -> vfs_bmap i_size pos create = block pos
structure File where
 f_pos : Nat
 /-- `O_APPEND` is set. -/
 append : Bool
 i_size : Nat
 blocks : Nat -> Nat -> UInt8

/-- The loop of `do_filp_read`, with the bytes it has copied. When there is no block a null pointer is
  followed. -/
def read_loop (l : Layout) (f : File) (left real_reads : Nat) (buf : List UInt8) : Option (Nat × List UInt8 × File) :=
 if left = 0 then some (real_reads,buf,f)
 else if f.i_size < f.f_pos then some (0,buf,f)
 else
  let blk_no := l.vfs_bmap f.i_size f.f_pos false
  if blk_no = -1 then none
  else
   let off := f.f_pos % l.dev_block_size
   let char_counts := min (l.dev_block_size - off) left
   read_loop l {f with f_pos := f.f_pos + char_counts} (left - char_counts) (real_reads + char_counts)
    (buf ++ (range char_counts).map (fun k => f.blocks blk_no.toNat (off + k)))
termination_by left
decreasing_by
 have := Nat.mod_lt f.f_pos l.size_pos
 omega

/-- Behind the end of the file the difference wraps, and the loop returns 0. -/
def do_filp_read (l : Layout) (f : File) (count : Nat) : Option (Nat × List UInt8 × File) :=
 read_loop l f (min (f.i_size - f.f_pos) count) 0 []
def copy (blocks : Nat -> Nat -> UInt8) (block off : Nat) (data : List UInt8) : Nat -> Nat -> UInt8 :=
 fun b k => if b = block ∧ off ≤ k ∧ k < off + data.length then data.getD (k - off) 0 else blocks b k

/-- The loop of `fwrite` over the bytes that are left, with the position. -/
def write_loop (l : Layout) (f : File) (pos i : Nat) (buf : List UInt8) : Nat × Nat × File :=
 if buf = [] then (i,pos,f)
 else
  let block := l.vfs_bmap f.i_size pos true
  if block = 0 then (i,pos,f)
  else
   let off := pos % l.dev_block_size
   let c := min (l.dev_block_size - off) buf.length
   let i_size := if f.i_size < pos + c then pos + c else f.i_size
   write_loop l {f with i_size := i_size, blocks := copy f.blocks block.toNat off (buf.take c)} (pos + c) (i + c) (buf.drop c)
termination_by buf.length
decreasing_by
 have := Nat.mod_lt pos l.size_pos
 have := length_pos_iff.mpr ‹buf ≠ []›
 rw [length_drop]
 omega
def fwrite (l : Layout) (f : File) (buf : List UInt8) : Int × File :=
 let (i,pos,f') := write_loop l f (if f.append then f.i_size else f.f_pos) 0 buf
 (if i = 0 then -1 else i,if f.append then f' else {f' with f_pos := pos})
def File.byte (l : Layout) (f : File) (q : Nat) : UInt8 := f.blocks (l.block q) (q % l.dev_block_size)

variable (l : Layout) {f : File}
lemma chunk_div {p q : Nat} (low : p ≤ q) (high : q < p + (l.dev_block_size - p % l.dev_block_size)) :
 q / l.dev_block_size = p / l.dev_block_size ∧ q % l.dev_block_size = p % l.dev_block_size + (q - p) := by
 have mem := Nat.mod_lt p l.size_pos
 have split := Nat.mod_add_div p l.dev_block_size
 have eq : q = (p % l.dev_block_size + (q - p)) + l.dev_block_size * (p / l.dev_block_size) := by omega
 have low : p % l.dev_block_size + (q - p) < l.dev_block_size := by omega
 constructor
 · nth_rewrite 1 [eq]
   rw [Nat.add_mul_div_left _ _ l.size_pos,Nat.div_eq_of_lt low,Nat.zero_add]
 nth_rewrite 1 [eq]
 rw [Nat.add_mul_mod_self_left,Nat.mod_eq_of_lt low]
lemma read_loop_eq (left : Nat) : ∀ (f : File) (n : Nat) (buf : List UInt8), f.f_pos + left ≤ f.i_size ->
 read_loop l f left n buf =
  some (n + left,buf ++ (range left).map (fun k => f.byte l (f.f_pos + k)),{f with f_pos := f.f_pos + left}) := by
 induction left using Nat.strong_induction_on with
 | _ left ih =>
  intro f n buf inside
  rw [read_loop]
  split
  · simp [*]
  have block : l.vfs_bmap f.i_size f.f_pos false = l.block f.f_pos := l.found _ _ _ (.inr (by omega))
  have := Nat.mod_lt f.f_pos l.size_pos
  rw [if_neg (by omega)]
  simp only [block]
  rw [if_neg (by omega)]
  generalize chunk : min (l.dev_block_size - f.f_pos % l.dev_block_size) left = c
  have bytes : ∀ k < c, f.blocks (l.block f.f_pos) (f.f_pos % l.dev_block_size + k) = f.byte l (f.f_pos + k) := by
   intro k lt
   obtain ⟨eq,offset⟩ := chunk_div l (show f.f_pos ≤ f.f_pos + k by omega) (by omega)
   rw [File.byte,(l.separate _ _).mpr eq,offset,Nat.add_sub_cancel_left]
  have copied : (range c).map (fun k => f.blocks (l.block f.f_pos) (f.f_pos % l.dev_block_size + k)) =
    (range c).map (fun k => f.byte l (f.f_pos + k)) :=
   map_congr_left (fun k mem => bytes k (mem_range.mp mem))
  rw [ih (left - c) (by omega) _ _ _ (by simp only; omega),Int.toNat_natCast,copied]
  obtain ⟨rest,rfl⟩ : ∃ rest, left = c + rest := ⟨left - c,by omega⟩
  simp [range_add,Function.comp_def,File.byte,Nat.add_assoc]
lemma copy_byte (blocks : Nat -> Nat -> UInt8) {pos : Nat} {data : List UInt8}
 (mem : data.length ≤ l.dev_block_size - pos % l.dev_block_size) (q : Nat) :
 copy blocks (l.block pos) (pos % l.dev_block_size) data (l.block q) (q % l.dev_block_size) =
  if pos ≤ q ∧ q < pos + data.length then data.getD (q - pos) 0 else blocks (l.block q) (q % l.dev_block_size) := by
 rw [copy]
 by_cases within : pos ≤ q ∧ q < pos + data.length
 · obtain ⟨eq,offset⟩ := chunk_div l within.1 (by omega)
   rw [if_pos within,if_pos ⟨(l.separate _ _).mpr eq,by omega,by omega⟩,offset,Nat.add_sub_cancel_left]
 rw [if_neg within,if_neg]
 rintro ⟨eq,low,high⟩
 have chunk := (l.separate _ _).mp eq
 have := Nat.mod_add_div q l.dev_block_size
 have := Nat.mod_add_div pos l.dev_block_size
 rw [<- chunk] at this
 omega
lemma write_loop_eq (n : Nat) : ∀ (f : File) (pos i : Nat) (buf : List UInt8), buf.length = n -> (buf = [] -> pos ≤ f.i_size) ->
  ∃ blocks, write_loop l f pos i buf = (i + n,pos + n,{f with i_size := max f.i_size (pos + n), blocks := blocks}) ∧
   ∀ q, blocks (l.block q) (q % l.dev_block_size) =
    if pos ≤ q ∧ q < pos + n then buf.getD (q - pos) 0 else f.byte l q := by
 induction n using Nat.strong_induction_on with
 | _ n ih =>
  intro f pos i buf long start
  rw [write_loop]
  by_cases ended : buf = []
  · have zero : n = 0 := by simp [<- long,ended]
    have := start ended
    refine ⟨f.blocks,?_,fun q => ?_⟩
    · rw [if_pos ended,zero,Nat.add_zero,Nat.add_zero,max_eq_left this]
    · rw [if_neg (by omega),File.byte]
  have some := length_pos_iff.mpr ended
  have := Nat.mod_lt pos l.size_pos
  have := l.positive pos
  rw [if_neg ended]
  simp only [l.found f.i_size pos true (.inl rfl)]
  rw [if_neg (by omega)]
  generalize chunk : min (l.dev_block_size - pos % l.dev_block_size) buf.length = c
  have ran : (buf.take c).length = c := by
   rw [length_take]
   omega
  let g : File :=
   { f with
     i_size := if f.i_size < pos + c then pos + c else f.i_size
     blocks := copy f.blocks (l.block pos) (pos % l.dev_block_size) (buf.take c) }
  have large : pos + c ≤ g.i_size := by
   simp only [g]
   split <;> omega
  obtain ⟨blocks,eq,bytes⟩ := ih (n - c) (by omega) g (pos + c) (i + c) (buf.drop c) (by rw [length_drop,long]) fun _ => large
  refine ⟨blocks,?_,fun q => ?_⟩
  · rw [Int.toNat_natCast,eq]
    have size : max (if f.i_size < pos + c then pos + c else f.i_size) (pos + c + (n - c)) = max f.i_size (pos + n) := by
     split <;> omega
    rw [size,show i + c + (n - c) = i + n by omega,show pos + c + (n - c) = pos + n by omega]
  have stored : g.byte l q = if pos ≤ q ∧ q < pos + (buf.take c).length then (buf.take c).getD (q - pos) 0 else f.byte l q :=
   copy_byte l f.blocks (by omega) q
  rw [bytes q,stored,ran]
  by_cases later : pos + c ≤ q ∧ q < pos + c + (n - c)
  · rw [if_pos later,if_pos (by omega),getD_eq_getElem?_getD,getElem?_drop,show c + (q - (pos + c)) = q - pos by omega,<- getD_eq_getElem?_getD]
  rw [if_neg later]
  by_cases now : pos ≤ q ∧ q < pos + c
  · rw [if_pos now,if_pos (by omega),getD_eq_getElem?_getD,getElem?_take_of_lt (by omega),<- getD_eq_getElem?_getD]
  · rw [if_neg now,if_neg (by omega)]
lemma do_filp_read_eq (mem : f.f_pos ≤ f.i_size) (count : Nat) :
 do_filp_read l f count = some (min count (f.i_size - f.f_pos),
  (range (min count (f.i_size - f.f_pos))).map (fun k => f.byte l (f.f_pos + k)),
  {f with f_pos := f.f_pos + min count (f.i_size - f.f_pos)}) := by
 rw [do_filp_read,read_loop_eq l _ _ _ _ (by omega),min_comm]
 simp

/-- A file is read as it has been written, and reading stops at its end. -/
theorem file_io (f : File) (d : List UInt8) (plain : f.append = false) (nonempty : d ≠ []) :
  (∃ f', fwrite l f d = (↑d.length,f') ∧
   (∃ f'', do_filp_read l {f' with f_pos := f.f_pos} d.length = some (d.length,d,f'')) ∧
   (∀ q, q < f.f_pos ∨ f.f_pos + d.length ≤ q -> f'.byte l q = f.byte l q) ∧ f'.i_size = max f.i_size (f.f_pos + d.length)) ∧
  ∀ count, f.f_pos ≤ f.i_size -> ∃ buf, buf.length = min count (f.i_size - f.f_pos) ∧
   do_filp_read l f count = some (buf.length,buf,{f with f_pos := f.f_pos + buf.length}) := by
 constructor
 · obtain ⟨blocks,eq,bytes⟩ := write_loop_eq l d.length f f.f_pos 0 d rfl (fun none => absurd none nonempty)
   have long := length_pos_iff.mpr nonempty
   refine ⟨{f with f_pos := f.f_pos + d.length, i_size := max f.i_size (f.f_pos + d.length), blocks := blocks},?_,?_,?_,rfl⟩
   · simp only [fwrite,plain,Bool.false_eq_true,if_false,eq,Nat.zero_add]
     rw [if_neg (by omega)]
   · have copied : (range d.length).map (fun k => blocks (l.block (f.f_pos + k)) ((f.f_pos + k) % l.dev_block_size)) = d := by
      refine ext_getElem (by simp) fun k _ lt => ?_
      rw [getElem_map,getElem_range,bytes (f.f_pos + k),if_pos (by omega),Nat.add_sub_cancel_left]
      simp [lt]
     rw [do_filp_read_eq l (by simp) d.length]
     simp only [File.byte,show min d.length (max f.i_size (f.f_pos + d.length) - f.f_pos) = d.length by omega,copied]
     exact ⟨_,rfl⟩
   intro q out
   exact (bytes q).trans (if_neg (by omega))
 intro count inside
 refine ⟨(range (min count (f.i_size - f.f_pos))).map (fun k => f.byte l (f.f_pos + k)),by simp,?_⟩
 rw [do_filp_read_eq l inside count,length_map,length_range]
def twos : Layout :=
 { dev_block_size := 2, block := fun q => q / 2 + 1, vfs_bmap := fun _ q _ => ↑(q / 2 + 1), size_pos := by decide,
   positive := fun _ => Nat.succ_pos _, separate := fun _ _ => Nat.succ_inj, found := fun _ _ _ _ => rfl }
theorem file_io_three :
 ∃ f', fwrite twos ⟨1,false,2,fun _ _ => 7⟩ [1,2,3] = (3,f') ∧ f'.byte twos 0 = 7 ∧ f'.i_size = 4 := by
 obtain ⟨f',written,_,others,size⟩ := (file_io twos ⟨1,false,2,fun _ _ => 7⟩ [1,2,3] rfl (by decide)).1
 refine ⟨f',written,?_,size⟩
 rw [others 0 (.inl (by decide))]
 rfl

end Netbas.BlockFiles
