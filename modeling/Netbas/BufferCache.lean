import Netbas.Referents
import Netbas.Runs

/-!
The buffer cache (`drv/fs/vfs/buffer.c`). A buffer is in the list of the holders once for every
`bread_with_size` that returned it and was not followed by a `buf_release`. `b_counts_exact_iff`
says when `b_count` is the number of holders along a run.
-/
namespace Netbas.BufferCache
open Runs Referents List Option
open Function
def NR_BUFS : Nat := 256
def NO_DEV : Nat := 0
structure Buf where
 b_dev : Nat
 b_block : Nat
 /-- `int` -/
 b_count : Int
 b_dirt : Bool
 b_size : Nat
 /-- Whether there is memory. -/
 b_data : Bool
structure Cache where
 fs_bufs : Nat -> Buf
 buf_in_use : Int
 holders : List Nat
def buffer_init : Cache := {fs_bufs := fun _ => ⟨NO_DEV,0,0,false,0,false⟩, buf_in_use := 0, holders := []}
section
variable (s : Cache)
def Cache.set (b : Nat) (bp : Buf) : Cache := {s with fs_bufs := update s.fs_bufs b bp}
def buf_getblk : Option (Nat × Cache) :=
 ((range NR_BUFS).find? (fun b => (s.fs_bufs b).b_count = 0)).map (fun b =>
  (b,{s.set b {s.fs_bufs b with b_count := 1} with buf_in_use := s.buf_in_use + 1}))
def flush_buf (bp : Buf) : Buf := {bp with b_dirt := false}
def Buf.release (bp : Buf) : Buf :=
 let bp := {bp with b_count := Int.bmod (bp.b_count - 1) (2 ^ 32)}
 if bp.b_count ≤ 0 then flush_buf bp else bp
def buf_release (b : Nat) : Cache :=
 { s.set b (s.fs_bufs b).release with
   buf_in_use := if (s.fs_bufs b).release.b_count ≤ 0 then s.buf_in_use - 1 else s.buf_in_use }
def buf_find (dev block : Nat) : Option Nat :=
 (range NR_BUFS).find? (fun b =>
  (s.fs_bufs b).b_block = block ∧ (s.fs_bufs b).b_dev = dev ∧ 0 < (s.fs_bufs b).b_count)
def sweep (selects : Buf -> Bool) : Cache :=
 (range NR_BUFS).foldl (fun s b => if selects (s.fs_bufs b) then buf_release s b else s) s
def invalidate (device : Nat) : Cache := sweep s (fun bp => bp.b_dev = device)
def flush_all (dev : Nat) : Cache := sweep s (fun bp => bp.b_dirt && bp.b_dev = dev)
def init_buf_blk (b dev blk size : Nat) (memory : Bool) : Int × Cache :=
 let bp := s.fs_bufs b
 let data := if size ≠ bp.b_size then memory else bp.b_data
 let s' := s.set b {bp with b_dev := dev, b_block := blk, b_size := size, b_data := data}
 if data then (0,s') else (-1,buf_release s' b)
def bread_with_size (dev : Option Nat) (block sz : Nat) (memory read : Bool) : Option (Option Nat × Cache) :=
 match dev with
 | none => some (none,s)
 | some devno =>
  match buf_find s devno block with
  | some b => some (some b,s.set b {s.fs_bufs b with b_count := Int.bmod ((s.fs_bufs b).b_count + 1) (2 ^ 32)})
  | none =>
   match buf_getblk s with
   | none => none
   | some (b,s1) =>
    match init_buf_blk s1 b devno block sz memory with
    | (0,s2) => if read then some (some b,s2) else some (none,buf_release s2 b)
    | (_,s2) => some (none,s2)
def sync_blks : Cache :=
 {s with fs_bufs := fun b => if b < NR_BUFS then flush_buf (s.fs_bufs b) else s.fs_bufs b}
def mark_buf_dirty (b : Nat) : Cache := s.set b {s.fs_bufs b with b_dirt := true}
inductive Action where
 | bread_with_size (dev : Option Nat) (block sz : Nat) (memory read : Bool)
 /-- By a holder of the buffer. -/
 | buf_release (b : Nat)
 | mark_buf_dirty (b : Nat)
 | flush_all (dev : Nat)
 | invalidate (device : Nat)
 | sync_blks
def step : Action -> Option Cache
 | .bread_with_size dev block sz memory read =>
  (bread_with_size s dev block sz memory read).map (fun r => {r.2 with holders := r.1.toList ++ s.holders})
 | .buf_release b =>
  if b ∈ s.holders then some {buf_release s b with holders := s.holders.erase b} else none
 | .mark_buf_dirty b => if b < NR_BUFS then some (mark_buf_dirty s b) else none
 | .flush_all dev => some (flush_all s dev)
 | .invalidate device => some (invalidate s device)
 | .sync_blks => some (sync_blks s)
def Cache.used : Nat := (range NR_BUFS).countP (fun b => 0 < (s.fs_bufs b).b_count)
end
structure Exact (s : Cache) : Prop where
 counts : ∀ b < NR_BUFS, 0 ≤ (s.fs_bufs b).b_count ∧ (s.fs_bufs b).b_count = s.holders.count b
 in_use : s.buf_in_use = s.used
 single : ∀ b < NR_BUFS, ∀ c < NR_BUFS, 0 < (s.fs_bufs b).b_count -> 0 < (s.fs_bufs c).b_count ->
  (s.fs_bufs b).b_dev = (s.fs_bufs c).b_dev -> (s.fs_bufs b).b_block = (s.fs_bufs c).b_block -> b = c

/-- No `flush_all` finds a dirty buffer of its device, no `invalidate` a buffer of its device,
  and no buffer with as many holders as an `int` can count is read again. -/
def Kept (s : Cache) : Action -> Prop
 | .bread_with_size dev block _ _ _ => ∀ devno ∈ dev, ∀ b ∈ buf_find s devno block, (s.fs_bufs b).b_count < 2 ^ 31 - 1
 | .flush_all dev => ∀ b < NR_BUFS, (s.fs_bufs b).b_dirt = true -> (s.fs_bufs b).b_dev ≠ dev
 | .invalidate device => ∀ b < NR_BUFS, (s.fs_bufs b).b_dev ≠ device
 | _ => True

variable {s s' : Cache} {b : Nat} {bp : Buf}

variable {block : Nat}
lemma buf_find_spec {dev : Nat} (hit : buf_find s dev block = some b) :
 b < NR_BUFS ∧ 0 < (s.fs_bufs b).b_count := by
 have holds := find?_some hit
 simp only [decide_eq_true_eq] at holds
 exact ⟨mem_range.mp (mem_of_find?_eq_some hit),holds.2.2⟩
lemma buf_find_none {dev : Nat} (missing : buf_find s dev block = none) (lt : b < NR_BUFS)
 (used : 0 < (s.fs_bufs b).b_count) (device : (s.fs_bufs b).b_dev = dev) : (s.fs_bufs b).b_block ≠ block := by
 intro eq
 have := find?_eq_none.mp missing b (mem_range.mpr lt)
 simp [eq,device,used] at this
lemma Exact.change {holders : List Nat} {n : Int} (exact : Exact s) (lt : b < NR_BUFS) (counted : bp.b_count = holders.count b)
 (others : ∀ c ≠ b, holders.count c = s.holders.count c)
 (in_use : n + (if 0 < (s.fs_bufs b).b_count then 1 else 0) = s.buf_in_use + (if 0 < bp.b_count then 1 else 0))
 (single : 0 < bp.b_count -> ∀ c < NR_BUFS, c ≠ b -> 0 < (s.fs_bufs c).b_count -> (s.fs_bufs c).b_dev = bp.b_dev ->
  (s.fs_bufs c).b_block ≠ bp.b_block) :
 Exact {fs_bufs := update s.fs_bufs b bp, buf_in_use := n, holders := holders} := by
 constructor
 · intro c mem
   by_cases eq : c = b
   · subst eq
     simp [counted]
   · simpa [eq,others c eq] using exact.counts c mem
 · have eq : ∀ c ∈ range NR_BUFS, c ≠ b ->
     decide (0 < (update s.fs_bufs b bp c).b_count) = decide (0 < (s.fs_bufs c).b_count) := by
    intro c _ ne
    simp [ne]
   have moved := countP_exchange nodup_range (mem_range.mpr lt) eq
   have pre := exact.in_use
   rw [Cache.used] at pre ⊢
   simp only [decide_eq_true_eq,update_self] at moved ⊢
   split_ifs at moved in_use <;> omega
 intro c mem d inside' used used' device block
 by_cases eq : c = b
 · subst eq
   by_cases same' : d = c
   · exact same'.symm
   simp only [update_self,update_of_ne same'] at used used' device block
   exact absurd block.symm (single used d inside' same' used' device.symm)
 by_cases same' : d = b
 · subst same'
   simp only [update_self,update_of_ne eq] at used used' device block
   exact absurd block (single used' c mem eq used device)
 simp only [update_of_ne eq,update_of_ne same'] at used used' device block
 exact exact.single c mem d inside' used used' device block
lemma release_single (single : bp.b_count = 1) : bp.release = {bp with b_count := 0, b_dirt := false} := by
 have zero : Int.bmod (bp.b_count - 1) (2 ^ 32) = 0 := by
  rw [single]
  rfl
 simp only [Buf.release,zero,le_refl,if_true,flush_buf]
lemma buf_release_taken (s : Cache) (b : Nat) {bp : Buf} (single : bp.b_count = 1) :
 buf_release {s.set b bp with buf_in_use := s.buf_in_use + 1} b = s.set b bp.release := by
 have own : (({s.set b bp with buf_in_use := s.buf_in_use + 1} : Cache).fs_bufs b) = bp := by simp [Cache.set]
 rw [buf_release,own]
 simp [release_single single,Cache.set,update_idem]
def Buf.filled (bp : Buf) (sz : Nat) (memory : Bool) : Bool := if sz ≠ bp.b_size then memory else bp.b_data

variable {sz : Nat} {memory read : Bool}
lemma bread_miss {devno : Nat} (missing : buf_find s devno block = none)
  (free : (range NR_BUFS).find? (fun b => (s.fs_bufs b).b_count = 0) = some b) :
  bread_with_size s (some devno) block sz memory read = some (if (s.fs_bufs b).filled sz memory ∧ read then
   (some b,{s.set b ⟨devno,block,1,(s.fs_bufs b).b_dirt,sz,true⟩ with buf_in_use := s.buf_in_use + 1})
   else (none,s.set b ⟨devno,block,0,false,sz,(s.fs_bufs b).filled sz memory⟩)) := by
 generalize memory_or : (s.fs_bufs b).filled sz memory = data
 have ran : buf_getblk s = some (b,{s.set b {s.fs_bufs b with b_count := 1} with buf_in_use := s.buf_in_use + 1}) := by
  rw [buf_getblk,free]
  rfl
 let bp : Buf := ⟨devno,block,1,(s.fs_bufs b).b_dirt,sz,data⟩
 have released : bp.release = ⟨devno,block,0,false,sz,data⟩ := release_single rfl
 have initialised : init_buf_blk {s.set b {s.fs_bufs b with b_count := 1} with buf_in_use := s.buf_in_use + 1} b devno
   block sz memory = if data then (0,{s.set b bp with buf_in_use := s.buf_in_use + 1}) else (-1,s.set b bp.release) := by
  rw [<- buf_release_taken s b (show bp.b_count = 1 from rfl),init_buf_blk]
  rw [Buf.filled] at memory_or
  simp [Cache.set,update_idem,memory_or,bp]
 rw [bread_with_size]
 simp only [missing,ran,initialised]
 cases data with
 | false => simp [released]
 | true =>
  cases read with
  | true => simp [bp]
  | false => simp [buf_release_taken s b (show bp.b_count = 1 from rfl),released]
lemma bread_cases {dev : Option Nat} {r : Option Nat}
  (done : bread_with_size s dev block sz memory read = some (r,s')) :
  r = none ∧ s' = s ∨
  (∃ devno b, dev = some devno ∧ buf_find s devno block = some b ∧ r = some b ∧
   s' = s.set b {s.fs_bufs b with b_count := Int.bmod ((s.fs_bufs b).b_count + 1) (2 ^ 32)}) ∨
  ∃ devno b, buf_find s devno block = none ∧ b < NR_BUFS ∧ (s.fs_bufs b).b_count = 0 ∧ ∃ bp, bp.b_dev = devno ∧
   bp.b_block = block ∧ (r = some b ∧ bp.b_count = 1 ∧ s' = {s.set b bp with buf_in_use := s.buf_in_use + 1} ∨
    r = none ∧ bp.b_count = 0 ∧ s' = s.set b bp) := by
 cases dev with
 | none =>
  cases done
  exact .inl ⟨rfl,rfl⟩
 | some devno =>
  cases kn : buf_find s devno block with
  | some b =>
   simp only [bread_with_size,kn] at done
   cases done
   exact .inr (.inl ⟨devno,b,rfl,kn,rfl,rfl⟩)
  | none =>
   cases free : (range NR_BUFS).find? (fun b => (s.fs_bufs b).b_count = 0) with
   | none => simp [bread_with_size,kn,buf_getblk,free] at done
   | some b =>
    have lt := mem_range.mp (mem_of_find?_eq_some free)
    have empty : (s.fs_bufs b).b_count = 0 := by simpa using find?_some free
    rw [bread_miss kn free] at done
    refine .inr (.inr ⟨devno,b,kn,lt,empty,?_⟩)
    split at done
    · cases done
      exact ⟨_,rfl,rfl,.inl ⟨rfl,rfl,rfl⟩⟩
    cases done
    exact ⟨_,rfl,rfl,.inr ⟨rfl,rfl,rfl⟩⟩
structure Sound (s : Cache) : Prop where
 exact : Exact s
 few : ∀ b < NR_BUFS, (s.fs_bufs b).b_count < 2 ^ 31
 inside : ∀ b ∈ s.holders, b < NR_BUFS
lemma Sound.few_set (ok : Sound s) (small : bp.b_count < 2 ^ 31) :
 ∀ c < NR_BUFS, ((s.set b bp).fs_bufs c).b_count < 2 ^ 31 := by
 intro c mem
 by_cases eq : c = b
 · subst eq
   simpa [Cache.set] using small
 · simpa [Cache.set,eq] using ok.few c mem
lemma bread_sound {dev : Option Nat} {r : Option Nat} (ok : Sound s)
 (kept : Kept s (.bread_with_size dev block sz memory read)) (done : bread_with_size s dev block sz memory read = some (r,s')) :
 Sound {s' with holders := r.toList ++ s.holders} := by
 rcases bread_cases done with ⟨rfl,rfl⟩ | ⟨devno,b,rfl,hit,rfl,rfl⟩ |
  ⟨devno,b,missing,lt,empty,bp,device,blk,⟨rfl,count,rfl⟩ | ⟨rfl,count,rfl⟩⟩
 · exact ok
 · obtain ⟨lt,used⟩ := buf_find_spec hit
   have room := kept devno rfl b hit
   have counted := (ok.exact.counts b lt).2
   have more : Int.bmod ((s.fs_bufs b).b_count + 1) (2 ^ 32) = (s.fs_bufs b).b_count + 1 := by
    apply Int.bmod_eq_of_le <;> omega
   rw [more]
   refine ⟨ok.exact.change lt ?_ ?_ ?_ ?_,?_,?_⟩
   · simp [counted]
   · intro c ne
     simp [Ne.symm ne]
   · simp only [Cache.set,if_pos used,if_pos (show 0 < (s.fs_bufs b).b_count + 1 by omega)]
   · intro _ c mem ne used' device eq
     exact ne (ok.exact.single c mem b lt used' used device eq)
   · refine ok.few_set ?_
     simp only
     omega
   · exact forall_mem_cons.mpr ⟨lt,ok.inside⟩
 · have free : s.holders.count b = 0 := by
    have := (ok.exact.counts b lt).2
    omega
   refine ⟨ok.exact.change lt ?_ ?_ ?_ ?_,?_,?_⟩
   · simp [count,free]
   · intro c ne
     simp [Ne.symm ne]
   · simp [empty,count]
   · intro _ c mem _ used' device'
     rw [blk]
     exact buf_find_none missing mem used' (device'.trans device)
   · exact ok.few_set (by omega)
   · exact forall_mem_cons.mpr ⟨lt,ok.inside⟩
 have free : s.holders.count b = 0 := by
  have := (ok.exact.counts b lt).2
  omega
 refine ⟨ok.exact.change lt ?_ (fun c _ => rfl) ?_ ?_,ok.few_set (by omega),ok.inside⟩
 · simp [count,free]
 · simp [empty,count,Cache.set]
 intro used
 omega
lemma release_count (low : 0 ≤ bp.b_count) (high : bp.b_count < 2 ^ 31) : bp.release.b_count = bp.b_count - 1 := by
 have value : Int.bmod (bp.b_count - 1) (2 ^ 32) = bp.b_count - 1 := by
  apply Int.bmod_eq_of_le <;> omega
 simp only [Buf.release,value]
 split <;> rfl
lemma buf_release_sound (ok : Sound s) (holder : b ∈ s.holders) :
 Sound {buf_release s b with holders := s.holders.erase b} := by
 have lt := ok.inside b holder
 have counted := (ok.exact.counts b lt).2
 have pos := count_pos_iff.mpr holder
 have small := ok.few b lt
 have fewer := release_count (ok.exact.counts b lt).1 small
 have place : (s.fs_bufs b).release.b_dev = (s.fs_bufs b).b_dev ∧ (s.fs_bufs b).release.b_block = (s.fs_bufs b).b_block := by
  simp only [Buf.release]
  split <;> exact ⟨rfl,rfl⟩
 refine ⟨ok.exact.change lt ?_ ?_ ?_ ?_,ok.few_set (by omega),?_⟩
 · rw [fewer,count_erase_self]
   omega
 · intro c ne
   rw [count_erase_of_ne ne]
 · simp only [buf_release,fewer,if_pos (show 0 < (s.fs_bufs b).b_count by omega)]
   split_ifs <;> omega
 · intro _ c inside ne used device
   rw [place.1] at device
   rw [place.2]
   intro eq
   exact ne (ok.exact.single c inside b lt used (by omega) device eq)
 intro c mem
 exact ok.inside c (mem_of_mem_erase mem)

variable (selects : Buf -> Bool)
lemma sweep_bufs (l : List Nat) (once : l.Nodup) : ∀ s : Cache, ∀ b,
 (l.foldl (fun s b => if selects (s.fs_bufs b) then buf_release s b else s) s).fs_bufs b =
  if b ∈ l ∧ selects (s.fs_bufs b) then (s.fs_bufs b).release else s.fs_bufs b := by
 induction l with
 | nil => intro s b; simp
 | cons c rest ih =>
  intro s b
  obtain ⟨new,once⟩ := nodup_cons.mp once
  rw [foldl_cons,ih once]
  by_cases eq : b = c
  · subst eq
    rw [if_neg (fun both => new both.1)]
    split
    · simp [*,buf_release,Cache.set]
    · simp [*]
  have kept : (if selects (s.fs_bufs c) then buf_release s c else s).fs_bufs b = s.fs_bufs b := by
   split
   · simp [buf_release,Cache.set,eq]
   · rfl
  rw [kept]
  simp [eq]
lemma sweep_nothing {selects : Buf -> Bool} (nothing : ∀ b < NR_BUFS, selects (s.fs_bufs b) = false) : sweep s selects = s := by
 have loop : ∀ l : List Nat, (∀ b ∈ l, b < NR_BUFS) ->
   l.foldl (fun s b => if selects (s.fs_bufs b) then buf_release s b else s) s = s := by
  intro l
  induction l with
  | nil => intro _; rfl
  | cons c rest ih =>
   intro inside
   rw [foldl_cons,if_neg (by simp [nothing c (inside c (by simp))])]
   exact ih fun b mem => inside b (by simp [mem])
 exact loop _ fun b mem => mem_range.mp mem
lemma sweep_holders (s : Cache) : (sweep s selects).holders = s.holders := by
 rw [sweep]
 induction range NR_BUFS generalizing s with
 | nil => rfl
 | cons c rest ih =>
  rw [foldl_cons,ih]
  split <;> rfl
lemma sweep_broken {selects : Buf -> Bool} (ok : Sound s) (lt : b < NR_BUFS) (selected : selects (s.fs_bufs b) = true) :
 ¬ Exact (sweep s selects) := by
 intro exact
 have now := exact.counts b lt
 have pre := ok.exact.counts b lt
 have small := ok.few b lt
 have buf : (sweep s selects).fs_bufs b = (s.fs_bufs b).release := by
  rw [sweep,sweep_bufs selects _ nodup_range,if_pos ⟨mem_range.mpr lt,selected⟩]
 have fewer := release_count pre.1 small
 rw [sweep_holders,buf,fewer] at now
 omega
lemma Sound.of_bufs (ok : Sound s) (cnt : ∀ b, (s'.fs_bufs b).b_count = (s.fs_bufs b).b_count)
 (devs : ∀ b, (s'.fs_bufs b).b_dev = (s.fs_bufs b).b_dev) (blocks : ∀ b, (s'.fs_bufs b).b_block = (s.fs_bufs b).b_block)
 (in_use : s'.buf_in_use = s.buf_in_use) (holders : s'.holders = s.holders) : Sound s' := by
 refine ⟨⟨?_,?_,?_⟩,?_,by rw [holders]; exact ok.inside⟩
 · intro b lt
   rw [cnt,holders]
   exact ok.exact.counts b lt
 · rw [in_use,Cache.used]
   simp only [cnt]
   exact ok.exact.in_use
 · intro b lt c below'
   rw [cnt,cnt,devs,devs,blocks,blocks]
   exact ok.exact.single b lt c below'
 intro b lt
 rw [cnt]
 exact ok.few b lt
lemma buffer_init_sound : Sound buffer_init := by
 refine ⟨⟨?_,?_,?_⟩,?_,?_⟩
 · intro b _
   simp [buffer_init]
 · simp [buffer_init,Cache.used,countP_false]
 · intro b _ c _ used
   simp [buffer_init] at used
 · intro b _
   simp [buffer_init]
 intro b mem
 simp [buffer_init] at mem
lemma step_sound (a : Action) (ok : Sound s) (kept : Kept s a) (ran : step s a = some s') : Sound s' := by
 cases a with
 | bread_with_size dev block sz memory read =>
  obtain ⟨⟨r,s1⟩,done,rfl⟩ := map_eq_some_iff.mp ran
  exact bread_sound ok kept done
 | buf_release b =>
  obtain ⟨holder,ran⟩ := ite_none_right_eq_some.mp ran
  cases ran
  exact buf_release_sound ok holder
 | mark_buf_dirty b =>
  obtain ⟨_,ran⟩ := ite_none_right_eq_some.mp ran
  cases ran
  have eq : ∀ c, (mark_buf_dirty s b).fs_bufs c = {s.fs_bufs c with b_dirt := ((mark_buf_dirty s b).fs_bufs c).b_dirt} := by
   intro c
   by_cases own : c = b
   · subst own
     simp [mark_buf_dirty,Cache.set]
   · simp [mark_buf_dirty,Cache.set,own]
  exact ok.of_bufs (fun c => by rw [eq]) (fun c => by rw [eq]) (fun c => by rw [eq]) rfl rfl
 | flush_all dev =>
  have eq := some.inj ran
  subst eq
  rw [flush_all,sweep_nothing]
  · exact ok
  intro b lt
  have := kept b lt
  by_cases dirty : (s.fs_bufs b).b_dirt = true
  · simp [this dirty]
  · simp [dirty]
 | invalidate device =>
  have eq := some.inj ran
  subst eq
  rw [invalidate,sweep_nothing]
  · exact ok
  intro b lt
  simp [kept b lt]
 | sync_blks =>
  cases ran
  have eq : ∀ c, (sync_blks s).fs_bufs c = {s.fs_bufs c with b_dirt := ((sync_blks s).fs_bufs c).b_dirt} := by
   intro c
   simp only [sync_blks]
   split <;> rfl
  exact ok.of_bufs (fun c => by rw [eq]) (fun c => by rw [eq]) (fun c => by rw [eq]) rfl rfl
lemma step_broken (a : Action) (ok : Sound s) (out : ¬ Kept s a) : ∃ s', step s a = some s' ∧ ¬ Exact s' := by
 cases a with
 | bread_with_size dev block sz memory read =>
  simp only [Kept,not_forall] at out
  obtain ⟨devno,kn,b,hit,many⟩ := out
  cases mem_def.mp kn
  obtain ⟨lt,_⟩ := buf_find_spec hit
  have small := ok.few b lt
  have last : (s.fs_bufs b).b_count = 2 ^ 31 - 1 := by omega
  refine ⟨_,by simp [step,bread_with_size,mem_def.mp hit]; rfl,?_⟩
  intro exact
  have now := (exact.counts b lt).1
  simp [Cache.set,last] at now
 | buf_release b => exact absurd trivial out
 | mark_buf_dirty b => exact absurd trivial out
 | flush_all dev =>
  simp only [Kept,not_forall,not_not] at out
  obtain ⟨b,lt,dirty,device⟩ := out
  exact ⟨_,rfl,sweep_broken ok lt (by simp [dirty,device])⟩
 | invalidate device =>
  simp only [Kept,not_forall,not_not] at out
  obtain ⟨b,lt,device'⟩ := out
  exact ⟨_,rfl,sweep_broken ok lt (by simp [device'])⟩
 | sync_blks => exact absurd trivial out
theorem b_counts_exact_iff (actions : List Action) :
 Along step Exact (fun _ _ => True) buffer_init actions ↔ Meets step Kept buffer_init actions := by
 refine along_iff (I := Sound) (fun s sound => sound.exact) (fun _ _ _ _ => trivial) ?_ ?_ actions buffer_init buffer_init_sound
 · intro s a s' sound kept taken
   exact step_sound a sound kept taken
 intro s a sound out _
 exact step_broken a sound out
theorem flush_all_drops_holder :
 (run step buffer_init [.bread_with_size (some 1) 7 512 true true,.mark_buf_dirty 0,.flush_all 1]).map (fun s =>
  ((s.fs_bufs 0).b_count,s.holders,(buf_getblk s).map Prod.fst)) = some (0,[0],some 0) := by
 decide +kernel

end Netbas.BufferCache
