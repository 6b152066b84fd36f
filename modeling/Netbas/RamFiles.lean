import Netbas.Runs

/-!
The contents of the files of the memory file system. A write that ends past the size moves the file
to a new buffer, and every write sets the size to its own end (`contents_ideal_iff`).
-/
namespace Netbas.RamFiles
open Runs List Option
def RFS_MAX_FILESIZE : Nat := 2 * 1024 * 1024
def ENOMEM : Int := 12
def EINVAL : Int := 22
def EFBIG : Int := 27

/-- The size and the buffer of a `FileNode_s`. A size that is not zero comes with a buffer of at
  least that many bytes, and no buffer is as long as the address space. -/
structure FileNode where
 fn_nSize : Nat
 fn_pBuffer : Option (List UInt8)
 fits : fn_nSize ≤ (fn_pBuffer.getD []).length
 small : (fn_pBuffer.getD []).length < 2^32

variable (node : FileNode)
def FileNode.contents : List UInt8 := (node.fn_pBuffer.getD []).take node.fn_nSize
def FileNode.grows (last : Nat) : Prop := node.fn_nSize < last ∨ node.fn_pBuffer = none
instance (last : Nat) : Decidable (node.grows last) :=
 inferInstanceAs (Decidable (node.fn_nSize < last ∨ node.fn_pBuffer = none))
def moved (size : Nat) (memory : Nat -> UInt8) : List UInt8 :=
 (range size).map (fun i => if i < node.fn_nSize then node.contents.getD i 0 else memory i)
@[simp] lemma moved_length (size : Nat) (memory : Nat -> UInt8) :
 (moved node size memory).length = size := by
 simp [moved]
variable (buffer : List UInt8)
def overwrite (nPos : Nat) (buf : List UInt8) : List UInt8 :=
 buffer.take nPos ++ buf ++ buffer.drop (nPos + buf.length)

variable {buf : List UInt8} {nPos : Nat}
lemma overwrite_length {buffer : List UInt8} (mem : nPos + buf.length ≤ buffer.length) :
 (overwrite buffer nPos buf).length = buffer.length := by
 simp only [overwrite,length_append,length_take,length_drop]
 omega
def stored (nPos : Nat) (buf : List UInt8) (inside : nPos + buf.length ≤ buffer.length)
  (small : buffer.length < 2^32) : FileNode where
 fn_nSize := nPos + buf.length
 fn_pBuffer := some (overwrite buffer nPos buf)
 fits := by simpa [overwrite_length inside] using inside
 small := by simpa [overwrite_length inside] using small

/-- The call's result and the file after it. `memory` is what `kmalloc` gives: `NULL`, or memory
  with what was in it. The sum `nPos + nLen` is taken in 32 bits; bytes outside the buffer are
  written when it wraps around. `off_t` is unsigned, so that the test of its sign never holds. -/
def rfs_write (nPos : Nat) (buf : List UInt8) (memory : Option (Nat -> UInt8)) :
  Option (Int × FileNode) :=
 let last := (nPos + buf.length) % 2^32
 if RFS_MAX_FILESIZE < last then some (-EFBIG,node)
 else if node.grows last then
  match memory with
  | none => some (-ENOMEM,node)
  | some memory =>
   if inside : nPos + buf.length ≤ (moved node last memory).length then
    some (buf.length,stored (moved node last memory) nPos buf inside (by rw [moved_length]; omega))
   else none
 else if inside : nPos + buf.length ≤ (node.fn_pBuffer.getD []).length then
  some (buf.length,stored (node.fn_pBuffer.getD []) nPos buf inside node.small)
 else none

/-- What a write that ends at `last`, in 32 bits, needs to be made: the largest file is not
  exceeded, and there is memory if the file has to move. -/
def FileNode.Accepts (last : Nat) (memory : Option (Nat -> UInt8)) : Prop :=
 last ≤ RFS_MAX_FILESIZE ∧ (node.grows last -> memory ≠ none)
def rfs_read (nPos nSize : Nat) : Option (List UInt8) :=
 match node.fn_pBuffer with
 | none => some []
 | some buffer =>
  if node.fn_nSize ≤ nPos then some []
  else
   let n := if node.fn_nSize < (nPos + nSize) % 2^32 then node.fn_nSize - nPos else nSize
   if nPos + n ≤ buffer.length then some ((buffer.drop nPos).take n) else none

/-- The file as long as before or up to the end of the write, with zeros where nothing was written. -/
def ideal_write (old : List UInt8) (nPos : Nat) (buf : List UInt8) : List UInt8 :=
 (range (max old.length (nPos + buf.length))).map
  (fun i => if nPos ≤ i ∧ i < nPos + buf.length then buf.getD (i - nPos) 0 else old.getD i 0)
def ideal_read (old : List UInt8) (nPos nSize : Nat) : List UInt8 := (old.drop nPos).take nSize
structure State where
 nodes : Nat -> FileNode
 rv_nFSSize : Int
 ideal : Nat -> List UInt8
inductive Action where
 | rfs_write (psNode : Nat) (nPos : UInt32) (buf : List UInt8) (memory : Option (Nat -> UInt8))
 | rfs_read (psNode : Nat) (nPos nSize : UInt32)
def added (last : Nat) : Int :=
 if node.grows last then last - node.fn_nSize else 0
def step (s : State) : Action -> Option State
 | .rfs_write psNode nPos buf memory => do
  let (nError,node) <- rfs_write (s.nodes psNode) nPos.toNat buf memory
  if nError < 0 then some s
  else
   some ⟨Function.update s.nodes psNode node,s.rv_nFSSize + added (s.nodes psNode) (nPos.toNat + buf.length),
    Function.update s.ideal psNode (ideal_write (s.ideal psNode) nPos.toNat buf)⟩
 | .rfs_read psNode nPos nSize => (rfs_read (s.nodes psNode) nPos.toNat nSize.toNat).map (fun _ => s)
variable (nodes : Nat -> FileNode)
def mounted (rv_nFSSize : Int) : State :=
 ⟨nodes,rv_nFSSize,fun psNode => (nodes psNode).contents⟩
def Ideal (s : State) : Prop := ∀ psNode, (s.nodes psNode).contents = s.ideal psNode
def Reads (s : State) : Action -> Prop
 | .rfs_write _ _ _ _ => True
 | .rfs_read psNode nPos nSize =>
  rfs_read (s.nodes psNode) nPos.toNat nSize.toNat = some (ideal_read (s.ideal psNode) nPos.toNat nSize.toNat)

/-- A write that is made does not end before the end of the file, and the memory that the heap
  gives it is zero from the end of the file to the start of the write. A read that starts inside
  the file ends inside the address space. -/
def Kept (s : State) : Action -> Prop
 | .rfs_write psNode nPos buf memory =>
  (s.nodes psNode).Accepts (nPos.toNat + buf.length) memory ->
   (s.nodes psNode).fn_nSize ≤ nPos.toNat + buf.length ∧
    ∀ f ∈ memory, ∀ i, (s.nodes psNode).fn_nSize ≤ i -> i < nPos.toNat -> f i = 0
 | .rfs_read psNode nPos nSize => nPos.toNat < (s.nodes psNode).fn_nSize -> nPos.toNat + nSize.toNat < 2^32
lemma contents_length : node.contents.length = node.fn_nSize := by
 rw [FileNode.contents,length_take]
 exact Nat.min_eq_left node.fits
def written (nPos : Nat) (buf : List UInt8) (memory : Nat -> UInt8) : List UInt8 :=
 moved node nPos memory ++ buf
lemma stored_contents (nPos : Nat) (buf : List UInt8)
 (mem : nPos + buf.length ≤ buffer.length) (small : buffer.length < 2^32) :
 (stored buffer nPos buf mem small).contents = buffer.take nPos ++ buf := by
 have front : (buffer.take nPos ++ buf).length = nPos + buf.length := by
  simp only [length_append,length_take]
  omega
 simp only [FileNode.contents,stored,getD_some,overwrite]
 rw [<- front]
 exact take_left' rfl
lemma moved_take {size : Nat} (memory : Nat -> UInt8) (pre : nPos ≤ size) :
 (moved node size memory).take nPos = moved node nPos memory := by
 simp only [moved,<- map_take,take_range,Nat.min_eq_left pre]
lemma moved_inside (memory : Nat -> UInt8) (mem : nPos ≤ node.fn_nSize) :
 (node.fn_pBuffer.getD []).take nPos = moved node nPos memory := by
 have long := node.fits
 apply ext_getElem
 · simp only [length_take,moved_length]
   omega
 intro i fst snd
 rw [moved_length] at snd
 have early : i < node.fn_nSize := by omega
 simp [moved,early,FileNode.contents,getElem?_eq_getElem (show i < (node.fn_pBuffer.getD []).length by omega)]

variable {memory : Option (Nat -> UInt8)}
-- The three ways a write can go, by what it needs.
lemma write_refused {node : FileNode} (refused : ¬ node.Accepts ((nPos + buf.length) % 2^32) memory) :
 ∃ err, (err = -EFBIG ∨ err = -ENOMEM) ∧ rfs_write node nPos buf memory = some (err,node) := by
 by_cases large : RFS_MAX_FILESIZE < (nPos + buf.length) % 2^32
 · exact ⟨-EFBIG,.inl rfl,if_pos large⟩
 have lacks : node.grows ((nPos + buf.length) % 2^32) ∧ memory = none := by
  by_contra goes
  exact refused ⟨by omega,fun grows none => goes ⟨grows,none⟩⟩
 obtain ⟨grows,rfl⟩ := lacks
 exact ⟨-ENOMEM,.inr rfl,by simp only [rfs_write,large,grows,if_true,if_false]⟩
lemma write_stray {node : FileNode} (took : node.Accepts ((nPos + buf.length) % 2^32) memory)
 (wraps : 2^32 ≤ nPos + buf.length) : rfs_write node nPos buf memory = none := by
 obtain ⟨small,goes⟩ := took
 simp only [rfs_write,show ¬ RFS_MAX_FILESIZE < (nPos + buf.length) % 2^32 by omega,if_false]
 split_ifs with grows inside
 · obtain ⟨f,rfl⟩ := ne_none_iff_exists'.mp (goes grows)
   exact dif_neg (by rw [moved_length]; omega)
 · have short := node.small
   omega
 · rfl
lemma write_made {node : FileNode} (took : node.Accepts (nPos + buf.length) memory) :
 ∃ node', rfs_write node nPos buf memory = some ((buf.length : Int),node') ∧
  node'.contents = written node nPos buf (memory.getD (fun _ => 0)) := by
 obtain ⟨small,goes⟩ := took
 have last : (nPos + buf.length) % 2^32 = nPos + buf.length := by
  rw [Nat.mod_eq_of_lt]
  simp only [RFS_MAX_FILESIZE] at small
  omega
 simp only [rfs_write,last,show ¬ RFS_MAX_FILESIZE < nPos + buf.length by omega,if_false]
 by_cases grows : node.grows (nPos + buf.length)
 · obtain ⟨f,rfl⟩ := ne_none_iff_exists'.mp (goes grows)
   simp only [grows,if_true]
   rw [dif_pos (by rw [moved_length])]
   refine ⟨_,rfl,?_⟩
   rw [stored_contents,moved_take node f (by omega),written,getD_some]
 simp only [grows,if_false]
 have fits := node.fits
 have inside : nPos + buf.length ≤ node.fn_nSize := by
  rw [FileNode.grows] at grows
  omega
 rw [dif_pos (by omega)]
 refine ⟨_,rfl,?_⟩
 rw [stored_contents,moved_inside node (memory.getD (fun _ => 0)) (by omega),written]
lemma write_idle {node node' : FileNode} {err : Int} (idle : ¬ node.Accepts (nPos + buf.length) memory)
 (ran : rfs_write node nPos buf memory = some (err,node')) : err < 0 := by
 by_cases took : node.Accepts ((nPos + buf.length) % 2^32) memory
 · have wraps : 2^32 ≤ nPos + buf.length := by
    by_contra lt
    rw [Nat.mod_eq_of_lt (by omega)] at took
    exact idle took
   rw [write_stray took wraps] at ran
   cases ran
 obtain ⟨err',code,called⟩ := write_refused took
 rw [called] at ran
 cases ran
 rcases code with rfl | rfl <;> decide
lemma written_getD {i : Nat} (buf : List UInt8) (f : Nat -> UInt8) (pre : i < nPos) :
 (written node nPos buf f).getD i 0 = if i < node.fn_nSize then node.contents.getD i 0 else f i := by
 rw [written,getD_eq_getElem?_getD,getElem?_append_left (by rw [moved_length]; exact pre)]
 simp [moved,pre]
lemma written_ideal_iff (nPos : Nat) (buf : List UInt8) (f : Nat -> UInt8) :
 written node nPos buf f = ideal_write node.contents nPos buf ↔
  node.fn_nSize ≤ nPos + buf.length ∧ ∀ i, node.fn_nSize ≤ i -> i < nPos -> f i = 0 := by
 have length : (written node nPos buf f).length = nPos + buf.length := by
  simp [written]
 have idealLength : (ideal_write node.contents nPos buf).length = max node.fn_nSize (nPos + buf.length) := by
  simp [ideal_write,contents_length]
 constructor
 · intro eq
   have sizes : nPos + buf.length = max node.fn_nSize (nPos + buf.length) := by
    rw [<- idealLength,<- eq,length]
   refine ⟨by omega,fun i late early => ?_⟩
   have byte := written_getD node buf f early
   rw [if_neg (by omega),eq] at byte
   rw [<- byte]
   have out : node.contents[i]? = none := by
    rw [getElem?_eq_none_iff,contents_length]
    exact late
   simp [ideal_write,contents_length,show i < max node.fn_nSize (nPos + buf.length) by omega,
    show ¬ nPos ≤ i by omega,out]
 rintro ⟨long,zero⟩
 apply ext_getElem
 · rw [length,idealLength]
   omega
 intro i fst snd
 rw [length] at fst
 by_cases early : i < nPos
 · have byte := written_getD node buf f early
   rw [getD_eq_getElem?_getD,getElem?_eq_getElem (by rw [length]; exact fst),getD_some] at byte
   rw [byte]
   split_ifs with old
   · simp [ideal_write,show ¬ nPos ≤ i by omega]
   have out : node.contents[i]? = none := by
    rw [getElem?_eq_none_iff,contents_length]
    omega
   rw [zero i (by omega) early]
   simp [ideal_write,show ¬ nPos ≤ i by omega,out]
 have late : nPos ≤ i := by omega
 simp [written,ideal_write,late,fst,
  getElem?_eq_getElem (show i - nPos < buf.length by omega)]
lemma read_spec {nSize : Nat} (mem : nPos < node.fn_nSize -> nPos + nSize < 2^32) :
 rfs_read node nPos nSize = some (ideal_read node.contents nPos nSize) := by
 have long := node.fits
 rw [rfs_read,ideal_read,FileNode.contents]
 cases hit : node.fn_pBuffer with
 | none => simp
 | some buffer =>
  rw [hit,getD_some] at long
  by_cases past : node.fn_nSize ≤ nPos
  · simp [past]
  rw [Nat.mod_eq_of_lt (mem (by omega))]
  simp only [past,if_false,getD_some,drop_take,take_take]
  split_ifs with long
  · rw [Nat.min_eq_right (by omega)]
  · omega
  · rw [Nat.min_eq_left (by omega)]
  · omega
lemma read_outside {nSize : Nat} (few : nSize < 2^32) (mem : nPos < node.fn_nSize)
 (wraps : 2^32 ≤ nPos + nSize) : rfs_read node nPos nSize = none := by
 have long := node.fits
 have small := node.small
 rw [rfs_read]
 cases hit : node.fn_pBuffer with
 | none =>
  rw [hit] at long
  simp only [getD_none,length_nil] at long
  omega
 | some buffer =>
  rw [hit,getD_some] at long small
  have short : ¬ node.fn_nSize < (nPos + nSize) % 2^32 := by omega
  simp only [short,if_false]
  rw [if_neg (by omega),if_neg (by omega)]

variable {s s' : State}
lemma gap_iff (nPos : Nat) (memory : Option (Nat -> UInt8)) :
 (∀ i, node.fn_nSize ≤ i -> i < nPos -> memory.getD (fun _ => 0) i = 0) ↔
  ∀ f ∈ memory, ∀ i, node.fn_nSize ≤ i -> i < nPos -> f i = 0 := by
 cases memory with
 | none => simp
 | some f => simp
lemma step_write {psNode : Nat} {nPos : UInt32} (ideal : Ideal s)
 (took : (s.nodes psNode).Accepts (nPos.toNat + buf.length) memory) :
 ∃ s', step s (.rfs_write psNode nPos buf memory) = some s' ∧ (Ideal s' ↔ Kept s (.rfs_write psNode nPos buf memory)) := by
 obtain ⟨node,ran,after⟩ := write_made took
 have succeeds : ¬ (buf.length : Int) < 0 := by omega
 have exact := written_ideal_iff (s.nodes psNode) nPos.toNat buf (memory.getD (fun _ => 0))
 rw [<- after,gap_iff] at exact
 simp only [step,ran,bind_eq_bind,bind_some,succeeds,if_false]
 refine ⟨_,rfl,fun holds _ => ?_,fun kept ne => ?_⟩
 · apply exact.mp
   have here := holds psNode
   simp only [Function.update_self] at here
   rw [here,ideal psNode]
 by_cases eq : ne = psNode
 · subst eq
   simp only [Function.update_self]
   rw [exact.mpr (kept took),ideal ne]
 simp only [Function.update_of_ne eq]
 exact ideal ne
lemma step_idle {psNode : Nat} {nPos : UInt32} (idle : ¬ (s.nodes psNode).Accepts (nPos.toNat + buf.length) memory)
 (ran : step s (.rfs_write psNode nPos buf memory) = some s') : s' = s := by
 simp only [step,bind_eq_bind] at ran
 obtain ⟨⟨nError,node⟩,called,ran⟩ := bind_eq_some_iff.mp ran
 simp only [write_idle idle called,if_true,some.injEq] at ran
 exact ran.symm
lemma step_ideal (a : Action) (ideal : Ideal s) (kept : Kept s a) (ran : step s a = some s') : Ideal s' := by
 cases a with
 | rfs_write psNode nPos buf memory =>
  by_cases took : (s.nodes psNode).Accepts (nPos.toNat + buf.length) memory
  · obtain ⟨s1,taken,exact⟩ := step_write ideal took
    rw [taken] at ran
    cases ran
    exact exact.mpr kept
  · exact step_idle took ran ▸ ideal
 | rfs_read psNode nPos nSize =>
  obtain ⟨_,_,rfl⟩ := map_eq_some_iff.mp ran
  exact ideal
lemma step_broken (a : Action) (ideal : Ideal s) (out : ¬ Kept s a) (reads : Reads s a) :
 ∃ s', step s a = some s' ∧ ¬ Ideal s' := by
 cases a with
 | rfs_write psNode nPos buf memory =>
  obtain ⟨s',ran,exact⟩ := step_write ideal (Classical.not_imp.mp out).1
  exact ⟨s',ran,fun holds => out (exact.mp holds)⟩
 | rfs_read psNode nPos nSize =>
  obtain ⟨mem,wraps⟩ := Classical.not_imp.mp out
  have none := read_outside (s.nodes psNode) nSize.toNat_lt mem (by omega)
  rw [Reads,none] at reads
  cases reads
theorem contents_ideal_iff (rv_nFSSize : Int) (actions : List Action) :
 Along step Ideal Reads (mounted nodes rv_nFSSize) actions ↔ Meets step Kept (mounted nodes rv_nFSSize) actions := by
 refine along_iff (I := Ideal) (fun _ ideal => ideal) ?_ ?_ ?_ actions _ fun _ => rfl
 · intro s a ideal kept
   cases a with
   | rfs_write psNode nPos buf memory => trivial
   | rfs_read psNode nPos nSize =>
    rw [Reads,<- ideal psNode]
    exact read_spec (s.nodes psNode) kept
 · intro s a s' ideal kept taken
   exact step_ideal a ideal kept taken
 intro s a ideal out reads
 exact step_broken a ideal out reads
def empty : FileNode := ⟨0,none,le_rfl,by decide⟩
theorem overwrite_truncates :
 (run step (mounted (fun _ => empty) 0) [.rfs_write 0 0 [65,66,67] (some fun _ => 0),.rfs_write 0 0 [90] none]).map
  (fun s => ((s.nodes 0).contents,s.ideal 0)) = some ([90],[90,66,67]) := by
 decide +kernel

/-! ### Requests of `sys_write` -/
section
variable (node : FileNode) (f_pos : BitVec 32) (buf : Nat -> UInt8) (count : BitVec 32) (memory : Option (Nat -> UInt8))
/-- The bytes of a request. The `int` of the caller becomes a `size_t`. -/
def request : List UInt8 := (List.range count.toNat).map buf

/-- The position moves by the result, also by that of a failed write. -/
def ramfs_write : Option (Int × BitVec 32 × FileNode) :=
 (rfs_write node f_pos.toNat (request buf count) memory).map
  (fun (err,node') => (err,f_pos + BitVec.ofInt 32 err,node'))

/-- Refused with the node unchanged, or inside the largest file and the buffer of the node. -/
def Bounded : Prop :=
 ∃ err pos node', ramfs_write node f_pos buf count memory = some (err,pos,node') ∧ (err < 0 ∧ node' = node ∨
  f_pos.toNat + count.toNat ≤ RFS_MAX_FILESIZE ∧ f_pos.toNat + count.toNat ≤ (node'.fn_pBuffer.getD []).length)
def FailureKept : Prop :=
 ∀ err node', rfs_write node f_pos.toNat (request buf count) memory = some (err,node') -> err < 0 ->
  ∃ rc < 0, ramfs_write node f_pos buf count memory = some (rc,f_pos,node)
variable {node f_pos buf count memory}
lemma request_length : (request buf count).length = count.toNat := by simp [request]
lemma refusal_moves {err : Int} (code : err = -EFBIG ∨ err = -ENOMEM) : err < 0 ∧ BitVec.ofInt 32 err ≠ 0 := by
 rcases code with rfl | rfl <;> decide

variable (node f_pos buf count memory)
theorem write_bounded_iff : Bounded node f_pos buf count memory ↔
  (2^32 ≤ f_pos.toNat + count.toNat -> ¬ node.Accepts ((f_pos.toNat + count.toNat) % 2^32) memory) := by
 have length : (request buf count).length = count.toNat := request_length
 constructor
 · rintro ⟨err,pos,node',called,_⟩ wraps accepted
   rw [ramfs_write,write_stray (by rwa [length]) (by rwa [length])] at called
   cases called
 intro kept
 by_cases accepted : node.Accepts ((f_pos.toNat + count.toNat) % 2^32) memory
 · have lt : f_pos.toNat + count.toNat < 2^32 := by
    by_contra wraps
    exact kept (by omega) accepted
   rw [Nat.mod_eq_of_lt lt] at accepted
   obtain ⟨node',called,after⟩ := write_made
    (show node.Accepts (f_pos.toNat + (request buf count).length) memory by rwa [length])
   refine ⟨_,_,node',by rw [ramfs_write,called]; rfl,.inr ⟨accepted.1,?_⟩⟩
   have size : node'.fn_nSize = f_pos.toNat + count.toNat := by
    rw [<- contents_length,after,written,length_append,moved_length,length]
   exact size ▸ node'.fits
 obtain ⟨err,code,called⟩ := write_refused
  (show ¬ node.Accepts ((f_pos.toNat + (request buf count).length) % 2^32) memory by rwa [length])
 exact ⟨err,_,node,by rw [ramfs_write,called]; rfl,.inl ⟨(refusal_moves code).1,rfl⟩⟩
/-- One byte at the largest position is stored in front of the buffer. -/
theorem write_outside : ¬ Bounded empty (-1) (fun _ => 0) 1 (some fun _ => 0) := by
 rintro ⟨err,pos,node',called,_⟩
 rw [ramfs_write,write_stray ⟨by decide,by simp⟩ (by decide)] at called
 cases called

/-- A failed write leaves the position alone exactly when it does not happen: the sum is not
  too large, and there is memory if the file has to grow. -/
theorem failure_kept_iff : FailureKept node f_pos buf count memory ↔
  node.Accepts ((f_pos.toNat + count.toNat) % 2^32) memory := by
 have length : (request buf count).length = count.toNat := request_length
 constructor
 · intro kept
   by_contra refused
   obtain ⟨err,code,called⟩ := write_refused
    (show ¬ node.Accepts ((f_pos.toNat + (request buf count).length) % 2^32) memory by rwa [length])
   obtain ⟨rc,_,after⟩ := kept err node called (refusal_moves code).1
   rw [ramfs_write,called] at after
   have moved : f_pos + BitVec.ofInt 32 err = f_pos := congrArg (·.2.1) (some.inj after)
   exact (refusal_moves code).2 (by simpa using moved)
 intro accepted err node' called failed
 by_cases wraps : 2^32 ≤ f_pos.toNat + count.toNat
 · rw [write_stray (by rwa [length]) (by rwa [length])] at called
   cases called
 rw [Nat.mod_eq_of_lt (by omega)] at accepted
 obtain ⟨_,made,_⟩ := write_made
  (show node.Accepts (f_pos.toNat + (request buf count).length) memory by rwa [length])
 rw [made] at called
 cases called
 omega
theorem position_moves : ¬ FailureKept empty 100 (fun _ => 0) 1 none ∧
 (ramfs_write empty 100 (fun _ => 0) 1 none).map (fun r => (r.1,r.2.1)) = some (-ENOMEM,88) := by
 refine ⟨fun kept => ?_,by decide⟩
 obtain ⟨rc,_,after⟩ := kept (-ENOMEM) empty (by rfl) (by decide)
 have moved : (88 : BitVec 32) = 100 := congrArg (·.2.1) (some.inj after)
 exact absurd moved (by decide)
end

end Netbas.RamFiles
