import Netbas.BufferCache

/-!
What the buffers of the cache hold. `written` are the bytes that were last written to a block through
a buffer, or else stored on the device. The runs are those in which `dev_write` succeeds: `flush_buf`
clears `b_dirt` in any case. The sweeps, which take buffers from their holders, are left out.
`contents_iff`: a buffer in use is returned with the size that it has, and one that got no memory keeps
the size, so that no later read asks for memory.
-/
namespace Netbas.BufferContents
open BufferCache List
open Function
abbrev Bytes := Nat -> UInt8

/-- The bytes from the start of a block. Blocks are apart: no read is longer than the unit in which
  the device counts them. -/
abbrev Disk := Nat -> Nat -> Bytes
structure Memory where
 cache : Cache
 data : Nat -> Bytes
 disk : Disk
 written : Disk
def store (disk : Disk) (bp : Buf) (bytes : Bytes) : Disk := fun dev block i =>
 if dev = bp.b_dev ∧ block = bp.b_block ∧ i < bp.b_size then bytes i else disk dev block i

section
variable (s : Memory)
/-- `bread_with_size`. What a free buffer holds does not matter. -/
def Memory.read (devno block sz : Nat) (memory ok : Bool) : Option (Option Nat × Memory) :=
 (bread_with_size s.cache (some devno) block sz memory ok).map (fun r =>
  (r.1,{ s with
   cache := {r.2 with holders := r.1.toList ++ s.cache.holders}
   data := match buf_find s.cache devno block, r.1 with
    | none, some b => update s.data b (s.disk devno block)
    | _, _ => s.data }))
def Memory.write (b : Nat) (bytes : Bytes) : Memory :=
 {s with cache := mark_buf_dirty s.cache b, data := update s.data b bytes, written := store s.written (s.cache.fs_bufs b) bytes}

/-- `flush_buf`, with the outcome of `dev_write`. -/
def Memory.flush (wrote : Bool) (b : Nat) : Memory :=
 { s with
   cache := s.cache.set b (flush_buf (s.cache.fs_bufs b))
   disk := if (s.cache.fs_bufs b).b_dirt && wrote then store s.disk (s.cache.fs_bufs b) (s.data b) else s.disk }
def Memory.release (s : Memory) (wrote : Bool) (b : Nat) : Memory :=
 { s with
   cache := {buf_release s.cache b with holders := s.cache.holders.erase b}
   disk := if (s.cache.fs_bufs b).release.b_count ≤ 0 then (s.flush wrote b).disk else s.disk }
def Memory.sync_blks (wrote : Nat -> Bool) : Memory := (range NR_BUFS).foldl (fun s b => s.flush (wrote b) b) s
end
inductive Reached (unit : Nat -> Nat) : Memory -> Prop
 | buffer_init (disk : Disk) : Reached unit ⟨buffer_init,fun _ _ => 0,disk,disk⟩
 | read {s s' : Memory} {devno block sz : Nat} {memory ok : Bool} {r : Option Nat} : Reached unit s ->
   sz ≤ unit devno -> Kept s.cache (.bread_with_size (some devno) block sz memory ok) ->
   s.read devno block sz memory ok = some (r,s') -> Reached unit s'
 | write {s : Memory} {b : Nat} (bytes : Bytes) : Reached unit s -> b ∈ s.cache.holders -> Reached unit (s.write b bytes)
 | release {s : Memory} {b : Nat} : Reached unit s -> b ∈ s.cache.holders -> Reached unit (s.release true b)
 | sync_blks {s : Memory} : Reached unit s -> Reached unit (s.sync_blks (fun _ => true))
def Holds (s : Memory) (b devno block sz : Nat) : Prop :=
 (s.cache.fs_bufs b).b_size = sz ∧ ∀ i < sz, s.data b i = s.written devno block i

def free (s : Cache) : Option Nat := (range NR_BUFS).find? (fun b => (s.fs_bufs b).b_count = 0)

/-- The buffer in use has the size, or the free one has memory of that size. -/
def Fits (s : Cache) (devno block sz : Nat) (memory : Bool) : Prop :=
 match buf_find s devno block with
 | some b => (s.fs_bufs b).b_size = sz
 | none => ∀ b ∈ free s, (s.fs_bufs b).filled sz memory = true
def Uses (bp : Buf) (dev block i : Nat) : Prop := 0 < bp.b_count ∧ bp.b_dev = dev ∧ bp.b_block = block ∧ i < bp.b_size
structure Coherent (s : Memory) : Prop where
 sound : Sound s.cache
 clean : ∀ b < NR_BUFS, (s.cache.fs_bufs b).b_count = 0 -> (s.cache.fs_bufs b).b_dirt = false
 held : ∀ b < NR_BUFS, ∀ dev block i, Uses (s.cache.fs_bufs b) dev block i -> s.data b i = s.written dev block i
 stored : ∀ dev block i, s.disk dev block i = s.written dev block i ∨
  ∃ b < NR_BUFS, Uses (s.cache.fs_bufs b) dev block i ∧ (s.cache.fs_bufs b).b_dirt = true

variable {s s' : Memory} {b devno block sz : Nat} {memory ok : Bool}
lemma Coherent.missing (coh : Coherent s) (missing : buf_find s.cache devno block = none) (i : Nat) :
 s.disk devno block i = s.written devno block i := by
 rcases coh.stored devno block i with eq | ⟨b,lt,⟨used,device,eq,_⟩,_⟩
 · exact eq
 · exact absurd eq (buf_find_none missing lt used device)
lemma free_spec (hit : free s.cache = some b) : b < NR_BUFS ∧ (s.cache.fs_bufs b).b_count = 0 :=
 ⟨mem_range.mp (mem_of_find?_eq_some hit),by simpa using find?_some hit⟩
lemma read_hit (hit : buf_find s.cache devno block = some b) : s.read devno block sz memory ok = some (some b,{ s with
  cache := { s.cache.set b {s.cache.fs_bufs b with b_count := Int.bmod ((s.cache.fs_bufs b).b_count + 1) (2 ^ 32)} with
   holders := b :: s.cache.holders } }) := by
 simp [Memory.read,bread_with_size,hit]
def Memory.failed (s : Memory) (b devno block sz : Nat) (data : Bool) : Memory :=
 {s with cache := s.cache.set b ⟨devno,block,0,false,sz,data⟩}
def Memory.filled (s : Memory) (b devno block sz : Nat) : Memory :=
 { s with
   cache := { s.cache.set b ⟨devno,block,1,(s.cache.fs_bufs b).b_dirt,sz,true⟩ with
    buf_in_use := s.cache.buf_in_use + 1, holders := b :: s.cache.holders }
   data := update s.data b (s.disk devno block) }
lemma read_miss (missing : buf_find s.cache devno block = none) (hit : free s.cache = some b) :
 s.read devno block sz memory ok = some (if (s.cache.fs_bufs b).filled sz memory ∧ ok then (some b,s.filled b devno block sz)
  else (none,s.failed b devno block sz ((s.cache.fs_bufs b).filled sz memory))) := by
 rw [Memory.read,bread_miss missing hit]
 split <;> simp [missing,Memory.filled,Memory.failed,Cache.set]
lemma Coherent.change {bp : Buf} (coh : Coherent s) (ok : Sound s'.cache) (lt : b < NR_BUFS)
 (bufs : s'.cache.fs_bufs = update s.cache.fs_bufs b bp) (clean : bp.b_count = 0 -> bp.b_dirt = false)
 (others : ∀ c ≠ b, s'.data c = s.data c)
 (apart : ∀ c < NR_BUFS, c ≠ b -> ∀ dev block i, Uses (s.cache.fs_bufs c) dev block i -> s'.written dev block i = s.written dev block i)
 (own : ∀ dev block i, Uses bp dev block i -> s'.data b i = s'.written dev block i)
 (stored : ∀ dev block i, s'.disk dev block i = s'.written dev block i ∨ (Uses bp dev block i ∧ bp.b_dirt = true) ∨
  (s'.disk dev block i = s.disk dev block i ∧ s'.written dev block i = s.written dev block i ∧
   ¬ (Uses (s.cache.fs_bufs b) dev block i ∧ (s.cache.fs_bufs b).b_dirt = true))) : Coherent s' := by
 refine ⟨ok,?_,?_,?_⟩
 · intro c mem
   rw [bufs]
   by_cases eq : c = b
   · rw [eq,update_self]
     exact clean
   rw [update_of_ne eq]
   exact coh.clean c mem
 · intro c mem dev block i uses
   rw [bufs] at uses
   by_cases eq : c = b
   · rw [eq,update_self] at uses
     rw [eq]
     exact own dev block i uses
   rw [update_of_ne eq] at uses
   rw [others c eq,apart c mem eq dev block i uses]
   exact coh.held c mem dev block i uses
 intro dev block i
 rw [bufs]
 rcases stored dev block i with eq | dirty | ⟨disk,written,free⟩
 · exact .inl eq
 · exact .inr ⟨b,lt,by simpa using dirty⟩
 rw [disk,written]
 rcases coh.stored dev block i with eq | ⟨c,mem,dirty⟩
 · exact .inl eq
 have ne : c ≠ b := fun eq => free (eq ▸ dirty)
 exact .inr ⟨c,mem,by simpa [update_of_ne ne] using dirty⟩
lemma Coherent.read (coh : Coherent s) {r : Option Nat} (kept : Kept s.cache (.bread_with_size (some devno) block sz memory ok))
 (done : s.read devno block sz memory ok = some (r,s')) : Coherent s' := by
 have sound : Sound s'.cache := by
  obtain ⟨⟨r',cache⟩,read,eq⟩ := Option.map_eq_some_iff.mp done
  cases eq
  exact bread_sound coh.sound kept read
 cases hit : buf_find s.cache devno block with
 | some b =>
  obtain ⟨lt,used⟩ := buf_find_spec hit
  have room := kept devno rfl b hit
  have more : Int.bmod ((s.cache.fs_bufs b).b_count + 1) (2 ^ 32) = (s.cache.fs_bufs b).b_count + 1 := by
   apply Int.bmod_eq_of_le <;> omega
  rw [read_hit hit,more] at done
  cases done
  refine coh.change sound lt rfl (fun zero => ?_) (fun _ _ => rfl) (fun _ _ _ _ _ _ _ => rfl) (fun dev block i uses => ?_)
   (fun dev block i => ?_)
  · simp only at zero
    omega
  · exact coh.held b lt dev block i ⟨used,uses.2⟩
  by_cases dirty : Uses (s.cache.fs_bufs b) dev block i ∧ (s.cache.fs_bufs b).b_dirt = true
  · exact .inr (.inl ⟨⟨by simp only; omega,dirty.1.2⟩,dirty.2⟩)
  · exact .inr (.inr ⟨rfl,rfl,dirty⟩)
 | none =>
  cases fst : free s.cache with
  | none => simp [Memory.read,bread_with_size,hit,buf_getblk,show (range NR_BUFS).find? _ = none from fst] at done
  | some b =>
   obtain ⟨lt,empty⟩ := free_spec fst
   have idle : ∀ dev block i, ¬ (Uses (s.cache.fs_bufs b) dev block i ∧ (s.cache.fs_bufs b).b_dirt = true) := by
    intro dev block i uses
    have := uses.1.1
    omega
   rw [read_miss hit fst] at done
   split at done
   · cases done
     refine coh.change sound lt rfl (fun _ => coh.clean b lt empty) (fun c ne => update_of_ne ne _ _)
      (fun _ _ _ _ _ _ _ => rfl) (fun dev block' i uses => ?_) (fun dev block i => .inr (.inr ⟨rfl,rfl,idle dev block i⟩))
     obtain ⟨_,rfl,rfl,_⟩ := uses
     simpa [Memory.filled] using coh.missing hit i
   cases done
   refine coh.change sound lt rfl (fun _ => rfl) (fun _ _ => rfl) (fun _ _ _ _ _ _ _ => rfl) (fun dev block i uses => ?_)
    (fun dev block i => .inr (.inr ⟨rfl,rfl,idle dev block i⟩))
   exact absurd uses.1 (by simp)
lemma Coherent.write (coh : Coherent s) (holder : b ∈ s.cache.holders) (bytes : Bytes) : Coherent (s.write b bytes) := by
 have lt := coh.sound.inside b holder
 have used : 0 < (s.cache.fs_bufs b).b_count := by
  have := (coh.sound.exact.counts b lt).2
  have := count_pos_iff.mpr holder
  omega
 have ok : Sound (s.write b bytes).cache := step_sound (.mark_buf_dirty b) coh.sound trivial (if_pos lt)
 refine coh.change ok lt rfl (fun zero => ?_) (fun c ne => update_of_ne ne _ _) (fun c mem ne dev block i uses => ?_)
  (fun dev block i uses => ?_) (fun dev block i => ?_)
 · simp only at zero
   omega
 · refine if_neg (fun eq => ne ?_)
   exact coh.sound.exact.single c mem b lt uses.1 used (uses.2.1.trans eq.1) (uses.2.2.1.trans eq.2.1)
 · obtain ⟨_,rfl,rfl,mem⟩ := uses
   simp only [Memory.write,update_self]
   exact (if_pos ⟨rfl,rfl,mem⟩).symm
 by_cases uses : Uses (s.cache.fs_bufs b) dev block i
 · exact .inr (.inl ⟨uses,rfl⟩)
 refine .inr (.inr ⟨rfl,if_neg (fun eq => uses ?_),fun dirty => uses dirty.1⟩)
 exact ⟨used,eq.1.symm,eq.2.1.symm,eq.2.2⟩
lemma Coherent.flush_disk (coh : Coherent s) (lt : b < NR_BUFS) (dev block i : Nat) :
 (s.flush true b).disk dev block i = s.written dev block i ∨ ((s.flush true b).disk dev block i = s.disk dev block i ∧
  ¬ (Uses (s.cache.fs_bufs b) dev block i ∧ (s.cache.fs_bufs b).b_dirt = true)) := by
 by_cases dirty : (s.cache.fs_bufs b).b_dirt = true
 · simp only [Memory.flush,Bool.and_true,if_pos dirty,store]
   split
   · next eq =>
     left
     have low := (coh.sound.exact.counts b lt).1
     have used : 0 < (s.cache.fs_bufs b).b_count := by
      refine lt_of_le_of_ne low fun zero => ?_
      rw [coh.clean b lt zero.symm] at dirty
      cases dirty
     exact coh.held b lt dev block i ⟨used,eq.1.symm,eq.2.1.symm,eq.2.2⟩
   · next ne => exact .inr ⟨rfl,fun uses => ne ⟨uses.1.2.1.symm,uses.1.2.2.1.symm,uses.1.2.2.2⟩⟩
 · exact .inr ⟨by simp [Memory.flush,dirty],fun uses => dirty uses.2⟩
lemma Coherent.flush (coh : Coherent s) (lt : b < NR_BUFS) : Coherent (s.flush true b) := by
 have eq : ∀ c, ((s.flush true b).cache.fs_bufs c) = {s.cache.fs_bufs c with b_dirt := ((s.flush true b).cache.fs_bufs c).b_dirt} := by
  intro c
  by_cases own : c = b
  · subst own
    simp [Memory.flush,Cache.set,flush_buf]
  · simp [Memory.flush,Cache.set,own]
 have ok : Sound (s.flush true b).cache :=
  coh.sound.of_bufs (fun c => by rw [eq]) (fun c => by rw [eq]) (fun c => by rw [eq]) rfl rfl
 refine coh.change ok lt rfl (fun _ => rfl) (fun _ _ => rfl) (fun _ _ _ _ _ _ _ => rfl)
  (fun dev block i uses => coh.held b lt dev block i uses) (fun dev block i => ?_)
 rcases coh.flush_disk lt dev block i with now | ⟨old,free⟩
 · exact .inl now
 · exact .inr (.inr ⟨old,rfl,free⟩)
lemma release_fields (bp : Buf) : bp.release.b_dev = bp.b_dev ∧ bp.release.b_block = bp.b_block ∧ bp.release.b_size = bp.b_size ∧
 bp.release.b_dirt = if bp.release.b_count ≤ 0 then false else bp.b_dirt := by
 simp only [Buf.release]
 split
 · next low => exact ⟨rfl,rfl,rfl,(if_pos low).symm⟩
 · exact ⟨rfl,rfl,rfl,rfl⟩
lemma Coherent.release (coh : Coherent s) (holder : b ∈ s.cache.holders) : Coherent (s.release true b) := by
 have lt := coh.sound.inside b holder
 have ok : Sound (s.release true b).cache := buf_release_sound coh.sound holder
 have fewer := release_count (coh.sound.exact.counts b lt).1 (coh.sound.few b lt)
 obtain ⟨device,blk,size,dirt⟩ := release_fields (s.cache.fs_bufs b)
 have uses : ∀ {dev block i}, 0 < (s.cache.fs_bufs b).release.b_count ->
   (Uses (s.cache.fs_bufs b).release dev block i ↔ Uses (s.cache.fs_bufs b) dev block i) := by
  intro dev block i used
  rw [Uses,Uses,device,blk,size]
  exact and_congr_left fun _ => ⟨fun _ => by omega,fun _ => used⟩
 refine coh.change ok lt rfl (fun zero => ?_) (fun _ _ => rfl) (fun _ _ _ _ _ _ _ => rfl) (fun dev block i now => ?_)
  (fun dev block i => ?_)
 · rw [dirt,if_pos (by omega)]
 · exact coh.held b lt dev block i ((uses now.1).mp now)
 by_cases last : (s.cache.fs_bufs b).release.b_count ≤ 0
 · rw [show (s.release true b).disk = (s.flush true b).disk from if_pos last]
   rcases coh.flush_disk lt dev block i with now | ⟨old,free⟩
   · exact .inl now
   · exact .inr (.inr ⟨old,rfl,free⟩)
 rw [show (s.release true b).disk = s.disk from if_neg last]
 rw [if_neg last] at dirt
 rw [dirt,uses (by omega)]
 by_cases dirty : Uses (s.cache.fs_bufs b) dev block i ∧ (s.cache.fs_bufs b).b_dirt = true
 · exact .inr (.inl dirty)
 · exact .inr (.inr ⟨rfl,rfl,dirty⟩)
end Netbas.BufferContents
