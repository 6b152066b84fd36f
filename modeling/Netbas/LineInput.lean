import Mathlib.Tactic

/-!
Reading a line of keys (`terminal.c`, `clist.c`). Some keys stand for several bytes, and neither
their number nor the size of the block is compared with the room that is left (`line_iff`).
-/
namespace Netbas.LineInput
open List
def NCHARS_CLIST : Int := 255
def TTY_JUST_GET_ONE : Nat := 0x1000
structure cblock where
 start_pos : Int
 end_pos : Int
 cur_pos : Int
 data : Int -> UInt8
 written : List Int
def init_clist : cblock := {start_pos := 0, end_pos := 0, cur_pos := 0, data := fun _ => 0, written := []}

variable {c c' : cblock}

section
variable (c : cblock)
def cblock.store (i : Int) (b : UInt8) : cblock :=
 { c with
   data := Function.update c.data i b
   written := c.written ++ [i] }
def cblock.copy (c : cblock) (i : Int) : List UInt8 -> cblock
 | [] => c
 | b :: bytes => (c.store i b).copy (i + 1) bytes
def cblock.move (c : cblock) : Nat -> cblock
 | 0 => c
 | left + 1 => (c.store (c.cur_pos + (left + 1) + 1) (c.data (c.cur_pos + (left + 1)))).move left
def esc (s : String) : List UInt8 := 0x1b :: s.toList.map Char.toUInt8
def keycodes : List (UInt8 × List UInt8) :=
 [(0x80,esc "[[A"),(0x81,esc "[[B"),(0x82,esc "[[C"),(0x83,esc "[[D"),(0x84,esc "[[E"),
  (0x85,esc "[17~"),(0x86,esc "[18~"),(0x87,esc "[19~"),(0x88,esc "[20~"),(0x89,esc "[21~"),
  (0x8A,esc "[23~"),(0x8B,esc "[24~"),(9,[9]),(0x93,esc "[4~"),(0x92,esc "[1~"),
  (0x97,esc "[A"),(0x98,esc "[B"),(0x96,esc "[D"),(0x99,esc "[C"),(10,[10]),
  (8,[8]),(0x90,esc "[2~"),(0x91,esc "[3~"),(0x1b,esc ""),
  (0x94,esc "[5~"),(0x95,esc "[6~"),(10,[10])]
structure Key where
 code : UInt8
 raw : Bool
deriving DecidableEq
def vt100_conv (key : Key) : List UInt8 :=
 if key.raw then [key.code]
 else
  match keycodes.find? (fun k => k.1 = key.code) with
  | some k => k.2
  | none => [key.code]
inductive Event where
 | CLIST_DEL
 | CLIST_KEY
def key_clist (key : UInt8) : Event := if key = 8 then .CLIST_DEL else .CLIST_KEY
def fix (pos : Int) : Int := min NCHARS_CLIST (max 0 pos)
def clist_input (key : Key) (flags : Nat) : cblock × Int :=
 let c := {c with start_pos := fix c.start_pos, cur_pos := fix c.cur_pos, end_pos := fix c.end_pos}
 match key_clist key.code with
 | .CLIST_DEL =>
  if flags &&& TTY_JUST_GET_ONE ≠ 0 then
   ({c.store c.cur_pos key.code with cur_pos := c.cur_pos + 1, end_pos := c.end_pos + 1},-1)
  else ({c with cur_pos := c.cur_pos - 1, end_pos := c.end_pos - 1},-1)
 | .CLIST_KEY =>
  let c :=
   if c.cur_pos < c.end_pos then c.move (c.end_pos - c.cur_pos).toNat
   else if c.cur_pos > c.end_pos then {c with cur_pos := c.end_pos}
   else c
  let bytes := vt100_conv key
  let c := c.copy c.cur_pos bytes
  ({c with end_pos := c.end_pos + bytes.length, cur_pos := c.cur_pos + bytes.length},1)
def clist_size : Int := c.end_pos
def clist_done : List UInt8 × Int :=
 let len := c.end_pos - c.start_pos
 ((range len.toNat).map (fun i : Nat => c.data i),len)
end
inductive Outcome where
 | waiting (c : cblock)
 | returned (c : cblock) (buffer : List UInt8) (len : Int)
def read_keys (max_len : Int) (flag : Nat) (c : cblock) : List Key -> Outcome
 | [] => .waiting c
 | key :: keys =>
  let c := (clist_input c key flag).1
  if key.code = 10 ∨ key.code = 13 ∨ clist_size c ≥ max_len then
   .returned c (clist_done c).1 (clist_done c).2
  else read_keys max_len flag c keys
def kb_read (max_len : Int) (keys : List Key) : Outcome :=
 let flag := if max_len = 1 then TTY_JUST_GET_ONE else 0
 read_keys max_len flag init_clist keys
def Outcome.block : Outcome -> cblock
 | .waiting c => c
 | .returned c _ _ => c
def Inside (c : cblock) : Prop := ∀ i ∈ c.written, 0 ≤ i ∧ i < NCHARS_CLIST

/-- The stores are inside the block, and what is returned is the number of bytes in the caller's buffer, at
  most `max_len`. -/
def Right (max_len : Int) (outcome : Outcome) : Prop :=
 Inside outcome.block ∧ ∀ c buffer len, outcome = .returned c buffer len ->
  0 ≤ len ∧ len ≤ max_len ∧ (buffer.length : Int) = len
def Erases (max_len : Int) (key : Key) : Prop := key.code = 8 ∧ max_len ≠ 1
instance (max_len : Int) (key : Key) : Decidable (Erases max_len key) := inferInstanceAs (Decidable (_ ∧ _))
def stored (key : Key) : List UInt8 := if key.code = 8 then [8] else vt100_conv key
def Fits (max_len : Int) : Int -> List Key -> Prop
 | _, [] => True
 | n, key :: keys =>
  if Erases max_len key then Fits max_len (max 0 (n - 1)) keys
  else n + (stored key).length ≤ NCHARS_CLIST ∧ n + (stored key).length ≤ max_len ∧
   (key.code = 10 ∨ key.code = 13 ∨ n + (stored key).length ≥ max_len ∨ Fits max_len (n + (stored key).length) keys)

variable (bytes : List UInt8)
lemma copy_pos : ∀ (c : cblock) (i : Int), (c.copy i bytes).start_pos = c.start_pos ∧
 (c.copy i bytes).end_pos = c.end_pos ∧ (c.copy i bytes).cur_pos = c.cur_pos := by
 induction bytes with
 | nil => exact fun c i => ⟨rfl,rfl,rfl⟩
 | cons b bytes ih => exact fun c i => ih (c.store i b) (i + 1)
lemma copy_written : ∀ (c : cblock) (i : Int),
 (c.copy i bytes).written = c.written ++ (range bytes.length).map (fun j : Nat => i + j) := by
 induction bytes with
 | nil => simp [cblock.copy]
 | cons b bytes ih =>
  intro c i
  rw [cblock.copy,ih,cblock.store,length_cons,range_succ_eq_map,map_cons,map_map,append_assoc,
   singleton_append]
  congr 2
  · simp
  apply map_congr_left
  intro j _
  simp only [Function.comp_apply,Nat.cast_succ]
  omega
lemma move_written (left : Nat) : ∀ c : cblock, c.written ⊆ (c.move left).written := by
 induction left with
 | zero => exact fun c => List.Subset.refl _
 | succ left ih =>
  intro c i mem
  rw [cblock.move]
  exact ih _ (mem_append_left _ mem)
lemma input_written (c : cblock) (key : Key) (flags : Nat) : c.written ⊆ (clist_input c key flags).1.written := by
 intro i mem
 simp only [clist_input]
 cases key_clist key.code with
 | CLIST_DEL =>
  by_cases one : flags &&& TTY_JUST_GET_ONE ≠ 0
  · simp only [if_pos one]
    exact mem_append_left _ mem
  simp only [if_neg one]
  exact mem
 | CLIST_KEY =>
  simp only [copy_written]
  refine mem_append_left _ ?_
  split
  · exact move_written _ _ mem
  · split <;> exact mem
lemma read_written (max_len : Int) (flag : Nat) (keys : List Key) :
 ∀ c : cblock, c.written ⊆ (read_keys max_len flag c keys).block.written := by
 induction keys with
 | nil => exact fun c => List.Subset.refl _
 | cons key keys ih =>
  intro c i mem
  have more := input_written c key flag mem
  rw [read_keys]
  split
  · exact more
  · exact ih _ more
lemma stored_some (key : Key) : 0 < (stored key).length := by
 have table : ∀ k ∈ keycodes, 0 < k.2.length := by
  decide
 simp only [stored,vt100_conv]
 split
 · decide
 split
 · exact Nat.one_pos
 split
 · rename_i hit
   exact table _ (mem_of_find?_eq_some hit)
 · exact Nat.one_pos
structure Line (c : cblock) (n : Int) : Prop where
 start : c.start_pos = 0
 cursor : c.cur_pos = c.end_pos
 size : max 0 c.end_pos = n
 room : n ≤ NCHARS_CLIST
lemma Line.fixed {n : Int} (line : Line c n) : fix c.end_pos = n := by
 have := line.size
 have := line.room
 rw [fix]
 omega
def flagOf (max_len : Int) : Nat := if max_len = 1 then TTY_JUST_GET_ONE else 0

variable {max_len n : Int} {key : Key}
lemma input_erases (line : Line c n) (erases : Erases max_len key) :
 (clist_input c key (flagOf max_len)).1.written = c.written ∧
 (clist_input c key (flagOf max_len)).1.end_pos = n - 1 ∧
 Line (clist_input c key (flagOf max_len)).1 (max 0 (n - 1)) := by
 have event : key_clist key.code = .CLIST_DEL := if_pos erases.1
 have flag : flagOf max_len = 0 := if_neg erases.2
 have room := line.room
 have least : 0 ≤ n := by
  have := line.size
  omega
 have eq : NCHARS_CLIST = 255 := rfl
 simp only [clist_input,event,flag,Nat.zero_and,ne_eq,not_true_eq_false,if_false,line.cursor,line.fixed,line.start]
 refine ⟨trivial,trivial,rfl,rfl,rfl,?_⟩
 omega
lemma input_stores (line : Line c n) (stores : ¬Erases max_len key) :
 (clist_input c key (flagOf max_len)).1.written =
  c.written ++ (range (stored key).length).map (fun j : Nat => n + j) ∧
 (clist_input c key (flagOf max_len)).1.end_pos = n + (stored key).length ∧
 (clist_input c key (flagOf max_len)).1.cur_pos = n + (stored key).length ∧
 (clist_input c key (flagOf max_len)).1.start_pos = 0 := by
 have zero : fix 0 = 0 := by
  decide
 by_cases back : key.code = 8
 · have one : max_len = 1 := by
    by_contra ne
    exact stores ⟨back,ne⟩
   have event : key_clist key.code = .CLIST_DEL := if_pos back
   have flag : flagOf max_len &&& TTY_JUST_GET_ONE ≠ 0 := by
    rw [flagOf,if_pos one]
    decide
   have bytes : stored key = [8] := if_pos back
   simp only [clist_input,event,if_pos flag,line.cursor,line.fixed,line.start,bytes,cblock.store,zero]
   simp
 have event : key_clist key.code = .CLIST_KEY := if_neg back
 have bytes : stored key = vt100_conv key := if_neg back
 simp only [clist_input,event,line.cursor,line.fixed,line.start,bytes,lt_irrefl,if_false,copy_written,
  (copy_pos _ _ _).1,(copy_pos _ _ _).2.1,(copy_pos _ _ _).2.2,zero]
 simp
lemma read_right_iff (keys : List Key) : ∀ (c : cblock) (n : Int), Line c n -> n < max_len -> Inside c ->
 (Right max_len (read_keys max_len (flagOf max_len) c keys) ↔ Fits max_len n keys) := by
 induction keys with
 | nil =>
  intro c n _ _ inside
  exact iff_of_true ⟨inside,fun _ _ _ returned => by cases returned⟩ trivial
 | cons key keys ih =>
  intro c n line short inside
  have least : 0 ≤ n := by
   have := line.size
   omega
  rw [read_keys,Fits]
  by_cases erases : Erases max_len key
  · obtain ⟨written,ends,line'⟩ := input_erases line erases
    have goes : ¬(key.code = 10 ∨ key.code = 13 ∨ clist_size (clist_input c key (flagOf max_len)).1 ≥ max_len) := by
     rw [clist_size,ends,erases.1]
     have newline : ¬(8 : UInt8) = 10 := by
      decide
     have return_ : ¬(8 : UInt8) = 13 := by
      decide
     simp only [newline,return_,false_or]
     omega
    simp only [if_neg goes,if_pos erases]
    exact ih _ _ line' (by omega) fun i mem => inside i (written ▸ mem)
  obtain ⟨written,ends,cursor,start⟩ := input_stores line erases
  have some := stored_some key
  obtain ⟨m,total⟩ : ∃ m, n + ((stored key).length : Int) = m := ⟨_,rfl⟩
  rw [total] at ends cursor
  simp only [if_neg erases,total]
  have size : NCHARS_CLIST = 255 := rfl
  by_cases fits : m ≤ NCHARS_CLIST
  · have inside' : Inside (clist_input c key (flagOf max_len)).1 := by
     intro i mem
     rw [written] at mem
     rcases mem_append.mp mem with old | new
     · exact inside i old
     obtain ⟨j,lt,rfl⟩ := mem_map.mp new
     have := mem_range.mp lt
     omega
    by_cases stops : key.code = 10 ∨ key.code = 13 ∨ clist_size (clist_input c key (flagOf max_len)).1 ≥ max_len
    · -- the line is returned, and has the right length if it fits
      have ended : key.code = 10 ∨ key.code = 13 ∨ m ≥ max_len ∨ Fits max_len m keys := by
       rw [clist_size,ends] at stops
       tauto
      simp only [if_pos stops]
      constructor
      · rintro ⟨_,result⟩
        obtain ⟨_,short',_⟩ := result _ _ _ rfl
        simp only [clist_done,ends,start] at short'
        exact ⟨fits,by omega,ended⟩
      rintro ⟨_,asked,_⟩
      refine ⟨inside',fun c' buffer len returned => ?_⟩
      cases returned
      simp only [clist_done,ends,start,length_map,length_range]
      omega
    have goes := stops
    rw [clist_size,ends,not_or,not_or] at goes
    simp only [if_neg stops]
    have line' : Line (clist_input c key (flagOf max_len)).1 m := by
     refine ⟨start,cursor.trans ends.symm,?_,fits⟩
     rw [ends]
     omega
    rw [ih _ m line' (by omega) inside']
    constructor
    · exact fun rest => ⟨fits,by omega,.inr (.inr (.inr rest))⟩
    rintro ⟨_,_,newline | return_ | full | rest⟩
    · exact absurd newline goes.1
    · exact absurd return_ goes.2.1
    · exact absurd full goes.2.2
    · exact rest
  -- the last byte is stored behind the block
  refine iff_of_false (fun right => ?_) fun all => fits all.1
  have last : m - 1 ∈ (clist_input c key (flagOf max_len)).1.written := by
   rw [written]
   exact mem_append_right _ (mem_map.mpr ⟨(stored key).length - 1,by simp; omega,by omega⟩)
  have overrun : m - 1 ∈ (read_keys max_len (flagOf max_len) c (key :: keys)).block.written := by
   rw [read_keys]
   split
   · exact last
   · exact read_written _ _ _ _ last
  have := right.1 _ (by rw [read_keys] at overrun; exact overrun)
  omega
theorem line_iff (more : Nat) (keys : List Key) :
 Right (more + 1) (kb_read (more + 1) keys) ↔ Fits (more + 1) 0 keys :=
 read_right_iff keys init_clist 0 ⟨rfl,rfl,rfl,by decide⟩ (by omega) (by simp [Inside,init_clist])
theorem keys_overrun :
 (∃ c, kb_read 2 [⟨0x80,false⟩] = .returned c [0x1b,91,91,65] 4) ∧
 255 ∈ (kb_read 300 (replicate 256 ⟨97,false⟩)).block.written := by
 refine ⟨⟨_,rfl⟩,?_⟩
 decide +kernel

end Netbas.LineInput
