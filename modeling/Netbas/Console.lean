import Netbas.Runs

/-!
The console on the text screen: the escape sequences (`vt100.c`), the driver (`vga03h.c`) and
`tty_putchar`. `stored` keeps the offsets that have been written. `console_inside_iff` says which
bytes keep the cursor and all stores inside.
-/
namespace Netbas.Console
open Runs List
def VC_WIDTH : Int := 80
def VC_HEIGHT : Int := 25
def OLCUC : Nat := 2
inductive Status where
 | ST_NONE
 | ST_END_INPUT
 | ST_OTHER
 | ST_CURSOR
deriving DecidableEq
structure Screen where
 cur_x : Int
 cur_y : Int
 save_x : Int
 save_y : Nat
 lock_x1 : Int
 lock_x2 : Int
 esc : Nat
 esc1 : Nat
 esc2 : Nat
 esc3 : Nat
 attrib : Nat
 oflag : Nat
 Con_status : Status
 textmode : Int -> UInt8
 /-- The offsets of all bytes that have been stored, the last first. -/
 stored : List Int
def schar (n : Int) : Int := (n + 128) % 256 - 128
def isdigit (ch : Nat) : Prop := '0'.toNat ≤ ch ∧ ch ≤ '9'.toNat
instance (ch : Nat) : Decidable (isdigit ch) := inferInstanceAs (Decidable (_ ∧ _))
def toupper (ch : Nat) : Nat := if 'a'.toNat ≤ ch ∧ ch ≤ 'z'.toNat then ch - 32 else ch
def digit (number ch : Nat) : Nat := (number * 10 + (ch - '0'.toNat)) % 256
section
variable (s : Screen)
def Screen.draw (bytes : List (Int × UInt8)) : Screen :=
 { s with
   textmode := bytes.foldl (fun m byte => Function.update m byte.1 byte.2) s.textmode
   stored := (bytes.map Prod.fst).reverse ++ s.stored }
def Screen.cell : Int := s.cur_y * VC_WIDTH + s.cur_x

/-! ### Escape sequences -/
def erase (count : Int) : Screen :=
 s.draw ((range (count % 2^32).toNat).flatMap (fun (k : Nat) =>
  [((s.cell + k) * 2,32),((s.cell + k) * 2 + 1,.ofNat s.attrib)]))
def ansi_to_vga : List Nat := [0,4,2,6,1,5,3,7]
def set_attrib (att : Nat) : Screen :=
 let new_att := s.attrib
 let new_att :=
  if att = 0 then 7
  else if att = 1 then new_att ||| 0x08
  else if att = 7 then (new_att &&& 0x88) ||| ((new_att &&& 0x07) <<< 4) ||| ((new_att &&& 0x70) >>> 4)
  else if 30 ≤ att ∧ att ≤ 37 then (new_att &&& 0xf8) ||| ansi_to_vga.getD (att - 30) 0
  else if 40 ≤ att ∧ att ≤ 47 then (new_att &&& 0x8f) ||| (ansi_to_vga.getD (att - 40) 0 <<< 4)
  else new_att
 {s with attrib := new_att}
def Screen.done : Bool × Screen := (true,{s with esc := 0})
def Screen.give_up : Bool × Screen := (false,{s with esc := 0})
section
variable (ch : Nat)
def await_escape : Bool × Screen :=
 if ch = 0x1b then (true,{s with esc := 1}) else s.give_up
def await_bracket : Bool × Screen :=
 if ch = '['.toNat then (true,{s with esc1 := 0, esc := 2})
 else if ch = '('.toNat then (true,{s with esc1 := 0, esc := 2})
 else if ch = ')'.toNat then (true,{s with esc1 := 0, esc := 2, Con_status := .ST_END_INPUT})
 else s.give_up
def await_command : Bool × Screen :=
 if isdigit ch then
  (true,{s with esc1 := ch - '0'.toNat, esc := if s.Con_status = .ST_END_INPUT then 0 else 3})
 else if ch = 'm'.toNat then (set_attrib s 0).done
 else if ch = 's'.toNat then Screen.done {s with save_x := s.cur_x, save_y := (s.cur_y % 256).toNat}
 else if ch = 'u'.toNat then
  if 0 ≤ s.save_x then Screen.done {s with cur_x := s.save_x, cur_y := schar s.save_y, save_x := -1} else s.done
 else if ch = 'H'.toNat then Screen.done {s with cur_x := 0, cur_y := 0}
 -- the two erasures leave the sequence open
 else if ch = 'J'.toNat then (true,erase s ((VC_HEIGHT - s.cur_y) * VC_WIDTH - s.cur_x))
 else if ch = 'K'.toNat then (true,erase s (VC_WIDTH - s.cur_x))
 else if ch = 'A'.toNat then s.done
 else if ch = 'B'.toNat then s.done
 else if ch = 'C'.toNat then
  Screen.done {s with cur_x := if s.cur_x < s.lock_x2 then schar (s.cur_x + 1) else s.cur_x}
 else if ch = 'D'.toNat then
  Screen.done {s with cur_x := if s.lock_x1 < s.cur_x then schar (s.cur_x - 1) else s.cur_x}
 else s.give_up
def await_first : Bool × Screen :=
 if isdigit ch then (true,{s with esc1 := digit s.esc1 ch})
 else if ch = 'h'.toNat then s.done
 else if ch = '?'.toNat then (true,{s with Con_status := .ST_OTHER, esc2 := 0, esc := 4})
 else if ch = ';'.toNat then (true,{s with esc2 := 0, esc := 4})
 else if ch = 'J'.toNat then
  if s.esc1 = 2 then (erase {s with cur_x := 0, cur_y := 0} (VC_HEIGHT * VC_WIDTH)).done else s.give_up
 else if ch = 'm'.toNat then (set_attrib s s.esc1).done
 else if ch = 'A'.toNat then
  Screen.done {s with cur_y := if s.cur_y < s.esc1 then 0 else schar (s.cur_y - s.esc1)}
 else if ch = 'B'.toNat then
  Screen.done {s with cur_y := if s.cur_y + VC_HEIGHT ≤ s.esc1 then VC_HEIGHT - 1 else schar (s.cur_y + s.esc1)}
 else if ch = 'C'.toNat then
  Screen.done {s with cur_x := if s.cur_x + VC_WIDTH ≤ s.esc1 then VC_WIDTH - 1 else schar (s.cur_x + s.esc1)}
 else if ch = 'D'.toNat then
  Screen.done {s with cur_x := if s.cur_x < s.esc1 then 0 else schar (s.cur_x - s.esc1)}
 else s.give_up
def position (number : Nat) (limit : Int) : Int :=
 if number < 1 then 0 else if limit < number then limit - 1 else number - 1
def await_second : Bool × Screen :=
 if isdigit ch then (true,{s with esc2 := digit s.esc2 ch})
 else if ch = ';'.toNat then (true,{s with esc3 := 0, esc := 5})
 else if ch = 'H'.toNat ∨ ch = 'f'.toNat then
  Screen.done {s with cur_x := position s.esc2 VC_WIDTH, cur_y := position s.esc1 VC_HEIGHT}
 else if ch = 'm'.toNat then (set_attrib (set_attrib s s.esc1) s.esc2).done
 else if ch = 'l'.toNat ∨ ch = 'L'.toNat then s.done
 else if ch = 'h'.toNat ∨ ch = 'H'.toNat then s.done
 else if ch = 'J'.toNat then (erase {s with cur_x := 0, cur_y := 0} (VC_HEIGHT * VC_WIDTH)).done
 else if ch = 'r'.toNat then s.done
 else if ch = 0x0f then s.done
 else s.give_up
def await_third : Bool × Screen :=
 if isdigit ch then (true,{s with esc3 := digit s.esc3 ch})
 else if ch = 'm'.toNat then (set_attrib (set_attrib (set_attrib s s.esc1) s.esc2) s.esc3).done
 else s.give_up
def do_vt : Bool × Screen :=
 match s.esc with
 | 0 => await_escape s ch
 | 1 => await_bracket s ch
 | 2 => await_command s ch
 | 3 => await_first s ch
 | 4 => await_second s ch
 | 5 => await_third s ch
 | _ => s.give_up

/-! ### Drawing -/
def advance : Screen :=
 if VC_WIDTH ≤ schar (s.cur_x + 1) then {s with cur_x := 0, cur_y := schar (s.cur_y + 1)}
 else {s with cur_x := schar (s.cur_x + 1)}
def type : Screen :=
 if ch = '\r'.toNat then {s with cur_x := 0}
 else if ch = '\n'.toNat then {s with cur_x := 0, cur_y := schar (s.cur_y + 1)}
 else if ch = 8 then
  let s := {s with cur_x := schar (s.cur_x - 1), lock_x2 := schar (s.lock_x2 - 1)}
  s.draw [(s.cell * 2,32),(s.cell * 2 + 1,.ofNat s.attrib)]
 -- `& ~(8 - 1)` rounds down to a multiple of 8
 else if ch = '\t'.toNat then {s with cur_x := schar ((s.cur_x + 8) / 8 * 8)}
 else
  advance (s.draw [(s.cell * 2 + 1,.ofNat s.attrib),(s.cell * 2,.ofNat ch)])

/-- The rows move up by one and the last is cleared. Only the store of the spaces is in the loop:
  the attribute is stored once, at the `i` that the loop ends with. -/
def scroll : Screen :=
 s.draw ((range 3840).map (fun (i : Nat) => ((i : Int),s.textmode (i + 160))) ++
  (range 80).map (fun (k : Nat) => ((3840 + 2 * k : Int),32)) ++ [(4000 + 1,.ofNat s.attrib)])
def settle : Screen :=
 if VC_HEIGHT ≤ s.cur_y then {scroll s with cur_x := 0, cur_y := schar (s.cur_y - 1)} else s
def vga03_putchar (vt : Bool) : Screen :=
 if vt then settle s else if ch = 7 then s else settle (type s ch)
end
def output (c : UInt8) : Nat := if s.oflag &&& OLCUC ≠ 0 then toupper c.toNat else c.toNat
def tty_putchar (c : UInt8) : Screen :=
 let ch := output s c
 let (vt,s) := do_vt s ch
 vga03_putchar s ch vt

/-! ### Runs -/
def step (c : UInt8) : Option Screen := some (tty_putchar s c)
def console_init (x : Fin 80) (y : Fin 25) (attrib : UInt8) (oflag : Nat) (textmode : Int -> UInt8) : Screen where
 cur_x := x
 cur_y := y
 save_x := 0
 save_y := 0
 lock_x1 := 0
 lock_x2 := 0
 esc := 0
 esc1 := 0
 esc2 := 0
 esc3 := 0
 attrib := attrib.toNat
 oflag := oflag
 Con_status := .ST_NONE
 textmode := textmode
 stored := []
def Inside : Prop := (0 ≤ s.cur_x ∧ s.cur_x < VC_WIDTH) ∧ 0 ≤ s.cur_y ∧ s.cur_y < VC_HEIGHT
def Drawn : Prop := ∀ o ∈ s.stored, 0 ≤ o ∧ o < VC_WIDTH * VC_HEIGHT * 2
end

/-- The bytes that keep the cursor on the screen. -/
structure Kept (s : Screen) (c : UInt8) : Prop where
 backspace : output s c = 8 -> 0 < s.cur_x
 tab : output s c = '\t'.toNat -> s.cur_x < 72
 right : s.esc = 2 -> output s c = 'C'.toNat -> s.cur_x < s.lock_x2 -> s.cur_x < 79
 rightBy : s.esc = 3 -> output s c = 'C'.toNat -> s.esc1 < s.cur_x + 80 -> s.cur_x + s.esc1 < 80
 downBy : s.esc = 3 -> output s c = 'B'.toNat -> s.esc1 < s.cur_y + 25 -> s.cur_y + s.esc1 ≤ 25
def Printed (s : Screen) (c : UInt8) : Prop :=
 (do_vt s (output s c)).1 = false ∧ output s c ≠ 7 ∧ output s c ≠ 8 ∧ output s c ≠ '\t'.toNat ∧
  output s c ≠ '\n'.toNat ∧ output s c ≠ '\r'.toNat

/-- The bytes that keep the cursor on the screen and do not scroll it. -/
structure Still (s : Screen) (c : UInt8) : Prop extends Kept s c where
 newline : output s c = '\n'.toNat -> s.cur_y < 24
 last : Printed s c -> s.cur_y = 24 -> s.cur_x < 79
 down : s.esc = 3 -> output s c = 'B'.toNat -> s.esc1 < s.cur_y + 25 -> s.cur_y + s.esc1 ≠ 25

/-! ### One byte -/
variable {s s' : Screen} {c : UInt8} {ch : Nat}
lemma schar_of_small {n : Int} (low : -128 ≤ n) (high : n < 128) : schar n = n := by
 rw [schar]
 omega
structure Ready (s : Screen) : Prop where
 inside : Inside s
 saved : s.save_x < VC_WIDTH ∧ (s.save_y : Int) < VC_HEIGHT
 lock : s.lock_x1 = 0
structure Follows (last : Int) (s s' : Screen) : Prop where
 x : 0 ≤ s'.cur_x ∧ s'.cur_x < VC_WIDTH
 y : 0 ≤ s'.cur_y ∧ s'.cur_y ≤ last
 saved : s'.save_x < VC_WIDTH ∧ (s'.save_y : Int) < VC_HEIGHT
 lock : s'.lock_x1 = 0
 drawn : Drawn s -> Drawn s'

variable {last : Int}
lemma Ready.follows (ready : Ready s) (rows : 24 ≤ last) : Follows last s s := by
 have bottom := ready.inside.2.2
 refine ⟨ready.inside.1,⟨ready.inside.2.1,?_⟩,ready.saved,ready.lock,id⟩
 rw [VC_HEIGHT] at bottom
 omega

section
variable (follows : Follows last s s')
include follows
lemma Follows.done : Follows last s s'.done.2 :=
 ⟨follows.x,follows.y,follows.saved,follows.lock,follows.drawn⟩
lemma Follows.give_up : Follows last s s'.give_up.2 :=
 ⟨follows.x,follows.y,follows.saved,follows.lock,follows.drawn⟩
lemma Follows.set_attrib (att : Nat) : Follows last s (set_attrib s' att) :=
 ⟨follows.x,follows.y,follows.saved,follows.lock,follows.drawn⟩
lemma Follows.await (esc esc1 esc2 esc3 : Nat) (status : Status) :
 Follows last s {s' with esc := esc, esc1 := esc1, esc2 := esc2, esc3 := esc3, Con_status := status} :=
 ⟨follows.x,follows.y,follows.saved,follows.lock,follows.drawn⟩
lemma Follows.move {x y : Int} (col : 0 ≤ x ∧ x < VC_WIDTH) (row : 0 ≤ y ∧ y ≤ last) :
 Follows last s {s' with cur_x := x, cur_y := y} :=
 ⟨col,row,follows.saved,follows.lock,follows.drawn⟩

end
lemma drawn_draw {bytes : List (Int × UInt8)} (drawn : Drawn s)
 (lt : ∀ byte ∈ bytes, 0 ≤ byte.1 ∧ byte.1 < VC_WIDTH * VC_HEIGHT * 2) : Drawn (s.draw bytes) := by
 intro o mem
 simp only [Screen.draw,mem_append,mem_reverse,mem_map] at mem
 obtain ⟨byte,hit,rfl⟩ | before := mem
 · exact lt byte hit
 · exact drawn o before
lemma Follows.erase (follows : Follows last s s') {count : Int} (some : 0 ≤ count)
 (ends : s'.cell + count ≤ VC_WIDTH * VC_HEIGHT) : Follows last s (erase s' count) := by
 refine ⟨follows.x,follows.y,follows.saved,follows.lock,fun drawn => ?_⟩
 have fst : 0 ≤ s'.cell := by
  have := follows.x
  have := follows.y
  simp only [Screen.cell,VC_WIDTH]
  omega
 apply drawn_draw (follows.drawn drawn)
 intro byte mem
 simp only [mem_flatMap,mem_range,mem_cons,not_mem_nil,or_false] at mem
 simp only [VC_WIDTH,VC_HEIGHT] at ends ⊢
 obtain ⟨k,few,rfl | rfl⟩ := mem
 · constructor <;> simp only <;> omega
 · constructor <;> simp only <;> omega
lemma Follows.clear (follows : Follows last s s') (rows : 24 ≤ last) :
 Follows last s (Console.erase {s' with cur_x := 0, cur_y := 0} (VC_HEIGHT * VC_WIDTH)) :=
 (follows.move (x := 0) (y := 0) (by decide) ⟨le_rfl,by omega⟩).erase (by decide) (show (0 : Int) * 80 + 0 + 25 * 80 ≤ 80 * 25 by decide)
lemma position_inside {limit : Int} (number : Nat) (pos : 0 < limit) :
 0 ≤ position number limit ∧ position number limit < limit := by
 rw [position]
 split_ifs <;> omega

/-! ### The states of the sequences -/
variable {p : Prop} {no yes : Bool × Screen}
lemma follows_ite [Decidable p] (fst : p -> Follows last s yes.2)
 (snd : ¬ p -> Follows last s no.2) : Follows last s (if p then yes else no).2 := by
 by_cases holds : p
 · rw [if_pos holds]
   exact fst holds
 rw [if_neg holds]
 exact snd holds
lemma ite_between [Decidable p] {yes no low high : Int} (fst : p -> low ≤ yes ∧ yes < high)
 (snd : ¬ p -> low ≤ no ∧ no < high) : low ≤ (if p then yes else no) ∧ (if p then yes else no) < high := by
 split_ifs with holds
 · exact fst holds
 · exact snd holds

section
variable (ready : Ready s) (rows : 24 ≤ last)
include ready rows
lemma await_command_follows
 (right : ch = 'C'.toNat -> s.cur_x < s.lock_x2 -> s.cur_x < 79) :
 Follows last s (await_command s ch).2 := by
 have eq := ready.follows rows
 obtain ⟨⟨⟨left,edge⟩,top,bottom⟩,⟨savedX,savedY⟩,lock⟩ := ready
 simp only [VC_WIDTH,VC_HEIGHT] at edge bottom savedX savedY
 rw [await_command]
 refine follows_ite (fun _ => eq.await _ _ s.esc2 s.esc3 s.Con_status) fun _ => ?_
 refine follows_ite (fun _ => (eq.set_attrib 0).done) fun _ => ?_
 refine follows_ite (fun _ => ?_) fun _ => ?_
 · refine ⟨eq.x,eq.y,⟨edge,?_⟩,eq.lock,eq.drawn⟩
   simp only [Screen.done,VC_HEIGHT]
   omega
 refine follows_ite (fun _ => ?_) fun _ => ?_
 · apply follows_ite
   · intro known
     refine ⟨⟨known,savedX⟩,?_,⟨show (-1 : Int) < 80 by decide,savedY⟩,eq.lock,eq.drawn⟩
     simp only [Screen.done]
     rw [schar_of_small (by omega) (by omega)]
     omega
   intro _
   exact eq.done
 refine follows_ite (fun _ => (eq.move (by decide) ⟨le_rfl,by omega⟩).done) fun _ => ?_
 refine follows_ite (fun _ => eq.erase ?_ ?_) fun _ => ?_
 · simp only [VC_WIDTH,VC_HEIGHT]
   omega
 · simp only [Screen.cell,VC_WIDTH,VC_HEIGHT]
   omega
 refine follows_ite (fun _ => eq.erase ?_ ?_) fun _ => ?_
 · simp only [VC_WIDTH]
   omega
 · simp only [Screen.cell,VC_WIDTH,VC_HEIGHT]
   omega
 refine follows_ite (fun _ => eq.done) fun _ => ?_
 refine follows_ite (fun _ => eq.done) fun _ => ?_
 refine follows_ite (fun forward => (eq.move (ite_between (fun free => ?_) fun _ => eq.x) eq.y).done) fun _ => ?_
 · have := right forward free
   simp only [VC_WIDTH]
   rw [schar_of_small (by omega) (by omega)]
   omega
 refine follows_ite (fun _ => (eq.move (ite_between (fun free => ?_) fun _ => eq.x) eq.y).done) fun _ => ?_
 · simp only [VC_WIDTH]
   rw [schar_of_small (by omega) (by omega)]
   omega
 exact eq.give_up
lemma await_first_follows
 (rightBy : ch = 'C'.toNat -> s.esc1 < s.cur_x + 80 -> s.cur_x + s.esc1 < 80)
 (downBy : ch = 'B'.toNat -> s.esc1 < s.cur_y + 25 -> s.cur_y + s.esc1 ≤ last) : Follows last s (await_first s ch).2 := by
 have eq := ready.follows rows
 obtain ⟨⟨⟨left,edge⟩,top,bottom⟩,_,_⟩ := ready
 simp only [VC_WIDTH,VC_HEIGHT] at edge bottom
 rw [await_first]
 refine follows_ite (fun _ => eq.await s.esc _ s.esc2 s.esc3 s.Con_status) fun _ => ?_
 refine follows_ite (fun _ => eq.done) fun _ => ?_
 refine follows_ite (fun _ => eq.await _ s.esc1 _ s.esc3 _) fun _ => ?_
 refine follows_ite (fun _ => eq.await _ s.esc1 _ s.esc3 s.Con_status) fun _ => ?_
 refine follows_ite (fun _ => ?_) fun _ => ?_
 · apply follows_ite
   · intro _
     exact (eq.clear rows).done
   intro _
   exact eq.give_up
 refine follows_ite (fun _ => (eq.set_attrib _).done) fun _ => ?_
 refine follows_ite (fun _ => (eq.move eq.x ?_).done) fun _ => ?_
 · split_ifs with far
   · omega
   rw [schar_of_small (by omega) (by omega)]
   omega
 refine follows_ite (fun down => (eq.move eq.x ?_).done) fun _ => ?_
 · simp only [VC_HEIGHT]
   split_ifs with far
   · omega
   have := downBy down (by omega)
   rw [schar_of_small (by omega) (by omega)]
   omega
 refine follows_ite (fun forward => (eq.move (ite_between (fun _ => by decide) fun far => ?_) eq.y).done) fun _ => ?_
 · simp only [VC_WIDTH] at far ⊢
   have := rightBy forward (by omega)
   rw [schar_of_small (by omega) (by omega)]
   omega
 refine follows_ite (fun _ => (eq.move (ite_between (fun _ => by decide) fun far => ?_) eq.y).done) fun _ => ?_
 · simp only [VC_WIDTH] at far ⊢
   rw [schar_of_small (by omega) (by omega)]
   omega
 exact eq.give_up
lemma await_second_follows : Follows last s (await_second s ch).2 := by
 have eq := ready.follows rows
 have col := position_inside s.esc2 (show 0 < VC_WIDTH by decide)
 have row := position_inside s.esc1 (show (0 : Int) < 25 by decide)
 rw [await_second]
 refine follows_ite (fun _ => eq.await s.esc s.esc1 _ s.esc3 s.Con_status) fun _ => ?_
 refine follows_ite (fun _ => eq.await _ s.esc1 s.esc2 _ s.Con_status) fun _ => ?_
 refine follows_ite (fun _ => (eq.move col ⟨row.1,show position s.esc1 25 ≤ last by omega⟩).done) fun _ => ?_
 refine follows_ite (fun _ => ((eq.set_attrib _).set_attrib _).done) fun _ => ?_
 refine follows_ite (fun _ => eq.done) fun _ => ?_
 refine follows_ite (fun _ => eq.done) fun _ => ?_
 refine follows_ite (fun _ => ?_) fun _ => ?_
 · exact (eq.clear rows).done
 refine follows_ite (fun _ => eq.done) fun _ => ?_
 refine follows_ite (fun _ => eq.done) fun _ => ?_
 exact eq.give_up
lemma await_third_follows : Follows last s (await_third s ch).2 := by
 have eq := ready.follows rows
 rw [await_third]
 refine follows_ite (fun _ => eq.await s.esc s.esc1 s.esc2 _ s.Con_status) fun _ => ?_
 refine follows_ite (fun _ => (((eq.set_attrib _).set_attrib _).set_attrib _).done) fun _ => ?_
 exact eq.give_up
lemma do_vt_follows (kept : Kept s c)
 (down : s.esc = 3 -> output s c = 'B'.toNat -> s.esc1 < s.cur_y + 25 -> s.cur_y + s.esc1 ≤ last) :
 Follows last s (do_vt s (output s c)).2 := by
 have eq := ready.follows rows
 rw [do_vt]
 split
 · rw [await_escape]
   exact follows_ite (fun _ => eq.await _ s.esc1 s.esc2 s.esc3 s.Con_status) fun _ => eq.give_up
 · rw [await_bracket]
   refine follows_ite (fun _ => eq.await _ _ s.esc2 s.esc3 s.Con_status) fun _ => ?_
   refine follows_ite (fun _ => eq.await _ _ s.esc2 s.esc3 s.Con_status) fun _ => ?_
   refine follows_ite (fun _ => eq.await _ _ s.esc2 s.esc3 _) fun _ => ?_
   exact eq.give_up
 · rename_i state
   exact await_command_follows ready rows (kept.right state)
 · rename_i state
   exact await_first_follows ready rows (kept.rightBy state) (down state)
 · exact await_second_follows ready rows
 · exact await_third_follows ready rows
 exact eq.give_up

end
def Left (s : Screen) (result : Bool × Screen) : Prop := result.1 = false -> result.2 = {s with esc := 0}
lemma left_ite [Decidable p] (fst : Left s yes) (snd : Left s no) :
 Left s (if p then yes else no) := by
 split_ifs
 · exact fst
 · exact snd
lemma left_handled (s s' : Screen) : Left s (true,s') := by
 rintro ⟨⟩
lemma left_give_up (s : Screen) : Left s s.give_up := fun _ => rfl
lemma do_vt_left (s : Screen) (ch : Nat) : Left s (do_vt s ch) := by
 rw [do_vt]
 split
 all_goals
  try simp only [await_escape,await_bracket,await_command,await_first,await_second,await_third]
  repeat' first
   | exact left_give_up s
   | exact left_handled s _
   | apply left_ite
lemma unhandled_ite [Decidable p] (out : ¬ p) (rest : no.1 = false) :
 (if p then yes else no).1 = false := by
 rw [if_neg out]
 exact rest
lemma do_vt_control (s : Screen) (control : ch < 15) : (do_vt s ch).1 = false := by
 have ne : ∀ n, 15 ≤ n -> ¬ ch = n := by
  intro n large
  omega
 have number : ¬ isdigit ch := by
  rintro ⟨low,_⟩
  exact absurd (lt_of_le_of_lt low control) (by decide)
 have either : ∀ n m, 15 ≤ n -> 15 ≤ m -> ¬ (ch = n ∨ ch = m) := by
  intro n m large large'
  omega
 rw [do_vt]
 split
 all_goals
  try simp only [await_escape,await_bracket,await_command,await_first,await_second,await_third]
  repeat' first
   | rfl
   | exact number
   | exact ne _ (by decide)
   | exact either _ _ (by decide) (by decide)
   | apply unhandled_ite

/-! ### Drawing at the cursor -/
lemma drawn_cell (ready : Ready s) : 0 ≤ s.cell ∧ s.cell < 2000 := by
 obtain ⟨⟨⟨left,edge⟩,top,bottom⟩,_,_⟩ := ready
 simp only [Screen.cell,VC_WIDTH,VC_HEIGHT] at edge bottom ⊢
 omega
lemma Follows.advance (follows : Follows last s s') (row : 0 ≤ s'.cur_y ∧ s'.cur_y < 25)
 (wraps : s'.cur_x = 79 -> s'.cur_y + 1 ≤ last) : Follows last s (advance s') := by
 have col := follows.x
 rw [VC_WIDTH] at col
 rw [Console.advance,VC_WIDTH,schar_of_small (n := s'.cur_x + 1) (by omega) (by omega)]
 split_ifs with full
 · have := wraps (by omega)
   rw [schar_of_small (by omega) (by omega)]
   exact follows.move (by decide) ⟨by omega,this⟩
 exact follows.move ⟨by omega,show s'.cur_x + 1 < 80 by omega⟩ follows.y
lemma type_follows (ready : Ready s) (rows : 24 ≤ last) (backspace : ch = 8 -> 0 < s.cur_x)
 (tab : ch = '\t'.toNat -> s.cur_x < 72) (newline : ch = '\n'.toNat -> s.cur_y + 1 ≤ last)
 (text : ch ≠ 8 -> ch ≠ '\t'.toNat -> ch ≠ '\n'.toNat -> ch ≠ '\r'.toNat -> s.cur_x = 79 -> s.cur_y + 1 ≤ last) :
 Follows last s (type s ch) := by
 have eq := ready.follows rows
 have cell := drawn_cell ready
 obtain ⟨⟨⟨left,edge⟩,top,bottom⟩,_,_⟩ := ready
 simp only [VC_WIDTH,VC_HEIGHT] at edge bottom
 rw [type]
 by_cases carriage : ch = '\r'.toNat
 · rw [if_pos carriage]
   exact eq.move (by decide) eq.y
 rw [if_neg carriage]
 by_cases feed : ch = '\n'.toNat
 · rw [if_pos feed,schar_of_small (by omega) (by omega)]
   have := newline feed
   exact eq.move (by decide) ⟨by omega,this⟩
 rw [if_neg feed]
 by_cases back : ch = 8
 · rw [if_pos back,schar_of_small (by omega) (by omega)]
   have := backspace back
   refine ⟨⟨show 0 ≤ s.cur_x - 1 by omega,show s.cur_x - 1 < 80 by omega⟩,eq.y,eq.saved,eq.lock,fun drawn => ?_⟩
   refine drawn_draw drawn ?_
   simp only [Screen.cell,VC_WIDTH,VC_HEIGHT] at cell ⊢
   simp only [mem_cons,not_mem_nil,or_false]
   rintro byte (rfl | rfl)
   · simp only
     omega
   simp only
   omega
 rw [if_neg back]
 by_cases stop : ch = '\t'.toNat
 · rw [if_pos stop]
   have := tab stop
   rw [schar_of_small (by omega) (by omega)]
   exact eq.move ⟨by omega,show (s.cur_x + 8) / 8 * 8 < 80 by omega⟩ eq.y
 rw [if_neg stop]
 have wrote : Follows last s (s.draw [(s.cell * 2 + 1,.ofNat s.attrib),(s.cell * 2,.ofNat ch)]) := by
  refine ⟨eq.x,eq.y,eq.saved,eq.lock,fun drawn => drawn_draw drawn ?_⟩
  simp only [VC_WIDTH,VC_HEIGHT,mem_cons,not_mem_nil,or_false]
  rintro byte (rfl | rfl)
  · simp only
    omega
  simp only
  omega
 refine wrote.advance ⟨top,bottom⟩ fun edge => ?_
 exact text back stop feed carriage edge
lemma draw_keeps (s : Screen) (bytes : List (Int × UInt8)) :
 (s.draw bytes).save_x = s.save_x ∧ (s.draw bytes).save_y = s.save_y ∧ (s.draw bytes).lock_x1 = s.lock_x1 :=
 ⟨rfl,rfl,rfl⟩
lemma settle_ready (follows : Follows VC_HEIGHT s s') : Ready (settle s') := by
 have row := follows.y
 rw [VC_HEIGHT] at row
 rw [settle]
 split_ifs with lt
 · rw [VC_HEIGHT] at lt
   obtain ⟨saveX,saveY,lock⟩ : (scroll s').save_x = s'.save_x ∧ (scroll s').save_y = s'.save_y ∧
     (scroll s').lock_x1 = s'.lock_x1 := draw_keeps s' _
   generalize scroll s' = scrolled at saveX saveY lock ⊢
   rw [schar_of_small (by omega) (by omega)]
   refine ⟨⟨⟨le_rfl,show (0 : Int) < 80 by decide⟩,?_,?_⟩,?_,lock.trans follows.lock⟩
   · simp only
     omega
   · simp only [VC_HEIGHT]
     omega
   simp only [saveX,saveY]
   exact follows.saved
 · exact ⟨⟨follows.x,follows.y.1,by omega⟩,follows.saved,follows.lock⟩
lemma settle_still (follows : Follows 24 s s') : settle s' = s' := by
 have row := follows.y.2
 rw [settle,if_neg]
 rw [VC_HEIGHT]
 omega
lemma settle_broken (lt : VC_HEIGHT ≤ s.cur_y) : ¬ Drawn (settle s) := by
 intro drawn
 have out := drawn 4001 (by simp [settle,lt,scroll,Screen.draw])
 exact absurd out.2 (by decide)

/-! ### Whole runs -/
lemma putchar_cases (s : Screen) (c : UInt8) :
  (do_vt s (output s c)).1 = true ∧ tty_putchar s c = settle (do_vt s (output s c)).2 ∨
   (do_vt s (output s c)).1 = false ∧ output s c = 7 ∧ tty_putchar s c = {s with esc := 0} ∨
   (do_vt s (output s c)).1 = false ∧ output s c ≠ 7 ∧ tty_putchar s c = settle (type {s with esc := 0} (output s c)) := by
 have ran : tty_putchar s c = vga03_putchar (do_vt s (output s c)).2 (output s c) (do_vt s (output s c)).1 := rfl
 cases took : (do_vt s (output s c)).1 with
 | true =>
  rw [took] at ran
  exact .inl ⟨rfl,ran⟩
 | false =>
  rw [took,do_vt_left s (output s c) took,vga03_putchar,if_neg (by decide)] at ran
  by_cases bell : output s c = 7
  · rw [if_pos bell] at ran
    exact .inr (.inl ⟨rfl,bell,ran⟩)
  rw [if_neg bell] at ran
  exact .inr (.inr ⟨rfl,bell,ran⟩)
lemma Ready.stop (ready : Ready s) : Ready {s with esc := 0} := ⟨ready.inside,ready.saved,ready.lock⟩
lemma step_ready (ready : Ready s) (kept : Kept s c) : Ready (tty_putchar s c) := by
 obtain ⟨_,eq⟩ | ⟨_,_,eq⟩ | ⟨_,_,eq⟩ := putchar_cases s c
 · rw [eq]
   exact settle_ready (do_vt_follows ready (by decide) kept kept.downBy)
 · rw [eq]
   exact ready.stop
 rw [eq]
 have bottom := ready.inside.2.2
 exact settle_ready (type_follows ready.stop (by decide) kept.backspace kept.tab (fun _ => bottom)
  (fun _ _ _ _ _ => bottom))
lemma step_drawn (ready : Ready s) (still : Still s c) (drawn : Drawn s) : Drawn (tty_putchar s c) := by
 obtain ⟨_,eq⟩ | ⟨_,_,eq⟩ | ⟨unhandled,bell,eq⟩ := putchar_cases s c
 · have follows : Follows 24 s (do_vt s (output s c)).2 := by
    apply do_vt_follows ready le_rfl still.toKept
    intro state down near
    have := still.downBy state down near
    have := still.down state down near
    omega
   rw [eq,settle_still follows]
   exact follows.drawn drawn
 · rw [eq]
   exact drawn
 have bottom : s.cur_y < 25 := ready.inside.2.2
 have follows : Follows 24 {s with esc := 0} (type {s with esc := 0} (output s c)) := by
  apply type_follows ready.stop le_rfl still.backspace still.tab
  · intro feed
    have := still.newline feed
    change s.cur_y + 1 ≤ 24
    omega
  intro back stop feed carriage edge
  change s.cur_x = 79 at edge
  change s.cur_y + 1 ≤ 24
  have := still.last ⟨unhandled,bell,back,stop,feed,carriage⟩
  omega
 rw [eq,settle_still follows]
 exact follows.drawn drawn
lemma settle_inside (row : s.cur_y < 25) : settle s = s := by
 rw [settle,if_neg]
 rw [VC_HEIGHT]
 omega
lemma putchar_handled {s' : Screen} (took : do_vt s (output s c) = (true,s')) : tty_putchar s c = settle s' := by
 have ran : tty_putchar s c = vga03_putchar (do_vt s (output s c)).2 (output s c) (do_vt s (output s c)).1 := rfl
 rw [ran,took]
 rfl
lemma putchar_control (control : output s c < 15) (bell : output s c ≠ 7) :
 tty_putchar s c = settle (type {s with esc := 0} (output s c)) := by
 have unhandled := do_vt_control s control
 obtain ⟨took,_⟩ | ⟨_,rings,_⟩ | ⟨_,_,eq⟩ := putchar_cases s c
 · rw [unhandled] at took
   cases took
 · exact absurd rings bell
 · exact eq
lemma do_vt_right (state : s.esc = 3) : do_vt s 'C'.toNat =
 Screen.done {s with cur_x := if s.cur_x + VC_WIDTH ≤ s.esc1 then VC_WIDTH - 1 else schar (s.cur_x + s.esc1)} := by
 simp only [do_vt,state]
 rfl
lemma do_vt_down (state : s.esc = 3) : do_vt s 'B'.toNat =
 Screen.done {s with cur_y := if s.cur_y + VC_HEIGHT ≤ s.esc1 then VC_HEIGHT - 1 else schar (s.cur_y + s.esc1)} := by
 simp only [do_vt,state]
 rfl
lemma do_vt_step (state : s.esc = 2) : do_vt s 'C'.toNat =
 Screen.done {s with cur_x := if s.cur_x < s.lock_x2 then schar (s.cur_x + 1) else s.cur_x} := by
 simp only [do_vt,state]
 rfl
lemma kept_of_inside (ready : Ready s) (mem : Inside (tty_putchar s c)) : Kept s c := by
 obtain ⟨⟨⟨left,edge⟩,top,bottom⟩,_,_⟩ := ready
 simp only [VC_WIDTH,VC_HEIGHT] at edge bottom
 constructor
 · intro back
   rw [putchar_control (by omega) (by omega),back,settle_inside (s := type {s with esc := 0} 8) bottom] at mem
   have col : 0 ≤ schar (s.cur_x - 1) := mem.1.1
   rw [schar_of_small (by omega) (by omega)] at col
   omega
 · intro tab
   have control : output s c < 15 := by
    rw [tab]
    decide
   rw [putchar_control control (by rw [tab]; decide),tab,
    settle_inside (s := type {s with esc := 0} '\t'.toNat) bottom] at mem
   have col : schar ((s.cur_x + 8) / 8 * 8) < 80 := mem.1.2
   rw [schar_of_small (by omega) (by omega)] at col
   omega
 · intro state right free
   have took := do_vt_step state
   rw [<- right] at took
   rw [putchar_handled took,settle_inside (by exact bottom)] at mem
   have col := mem.1.2
   simp only [if_pos free,VC_WIDTH] at col
   rw [schar_of_small (by omega) (by omega)] at col
   omega
 · intro state right near
   have took := do_vt_right state
   rw [<- right,if_neg (by rw [VC_WIDTH]; omega)] at took
   rw [putchar_handled took,settle_inside (by exact bottom)] at mem
   have col := mem.1
   simp only [VC_WIDTH,schar] at col
   omega
 intro state down near
 have took := do_vt_down state
 rw [<- down] at took
 rw [putchar_handled took] at mem
 by_contra far
 have row := mem.2.2
 have moved : schar (s.cur_y + s.esc1) = s.cur_y + s.esc1 := schar_of_small (by omega) (by omega)
 simp only [settle,VC_HEIGHT,if_neg (show ¬ s.cur_y + 25 ≤ s.esc1 by omega),moved,
  if_pos (show 25 ≤ s.cur_y + s.esc1 by omega)] at row
 rw [schar_of_small (by omega) (by omega)] at row
 omega
lemma advance_corner (col : s.cur_x = 79) (row : s.cur_y = 24) : VC_HEIGHT ≤ (advance s).cur_y := by
 rw [advance,if_pos (by rw [col]; decide)]
 change 25 ≤ schar (s.cur_y + 1)
 rw [row]
 decide
lemma still_of_drawn (ready : Ready s) (kept : Kept s c) (drawn : Drawn (tty_putchar s c)) : Still s c := by
 obtain ⟨⟨⟨left,edge⟩,top,bottom⟩,_,_⟩ := ready
 simp only [VC_WIDTH,VC_HEIGHT] at edge bottom
 refine ⟨kept,?_,?_,?_⟩
 · intro feed
   by_contra last
   have control : output s c < 15 := by
    rw [feed]
    decide
   rw [putchar_control control (by rw [feed]; decide),feed] at drawn
   refine settle_broken ?_ drawn
   change 25 ≤ schar (s.cur_y + 1)
   rw [schar_of_small (by omega) (by omega)]
   omega
 · rintro ⟨unhandled,bell,back,stop,feed,carriage⟩ last
   by_contra full
   obtain ⟨took,_⟩ | ⟨_,rings,_⟩ | ⟨_,_,eq⟩ := putchar_cases s c
   · rw [unhandled] at took
     cases took
   · exact bell rings
   rw [eq,type,if_neg carriage,if_neg feed,if_neg back,if_neg stop] at drawn
   have corner : s.cur_x = 79 := by omega
   refine settle_broken ?_ drawn
   apply advance_corner
   · exact corner
   · exact last
 intro state down near last
 have took := do_vt_down state
 rw [<- down,if_neg (show ¬ s.cur_y + VC_HEIGHT ≤ s.esc1 from not_le.mpr near)] at took
 rw [putchar_handled took] at drawn
 refine settle_broken ?_ drawn
 change 25 ≤ schar (s.cur_y + s.esc1)
 rw [schar_of_small (by omega) (by omega)]
 omega
lemma console_ready (x : Fin 80) (y : Fin 25) (attrib : UInt8) (oflag : Nat) (textmode : Int -> UInt8) :
 Ready (console_init x y attrib oflag textmode) := by
 refine ⟨⟨⟨?_,?_⟩,?_,?_⟩,⟨show (0 : Int) < 80 by decide,show ((0 : Nat) : Int) < 25 by decide⟩,rfl⟩
 · exact Int.natCast_nonneg _
 · exact Int.ofNat_lt.mpr x.isLt
 · exact Int.natCast_nonneg _
 · exact Int.ofNat_lt.mpr y.isLt
theorem console_inside_iff (x : Fin 80) (y : Fin 25) (attrib : UInt8) (oflag : Nat) (textmode : Int -> UInt8)
 (bytes : List UInt8) :
 (Along step Inside (fun _ _ => True) (console_init x y attrib oflag textmode) bytes ↔
  Meets step Kept (console_init x y attrib oflag textmode) bytes) ∧
 (Along step (fun s => Inside s ∧ Drawn s) (fun _ _ => True) (console_init x y attrib oflag textmode) bytes ↔
  Meets step Still (console_init x y attrib oflag textmode) bytes) := by
 have ready := console_ready x y attrib oflag textmode
 constructor
 · refine along_iff (I := Ready) (fun _ ready => ready.inside) (fun _ _ _ _ => trivial) ?_ ?_ bytes _ ready
   · rintro s c _ ready kept ⟨⟩
     exact step_ready ready kept
   intro s c ready out _
   exact ⟨_,rfl,fun inside => out (kept_of_inside ready inside)⟩
 refine along_iff (I := fun s => Ready s ∧ Drawn s) (fun _ sound => ⟨sound.1.inside,sound.2⟩)
  (fun _ _ _ _ => trivial) ?_ ?_ bytes _ ⟨ready,by rintro o ⟨⟩⟩
 · rintro s c _ ⟨ready,drawn⟩ still ⟨⟩
   exact ⟨step_ready ready still.toKept,step_drawn ready still drawn⟩
 rintro s c ⟨ready,_⟩ out _
 refine ⟨_,rfl,?_⟩
 rintro ⟨inside,drawn⟩
 exact out (still_of_drawn ready (kept_of_inside ready inside) drawn)
theorem backspace_leaves_screen :
 (run step (console_init 0 0 7 0 (fun _ => 0)) [8]).map (fun s => (s.cur_x,s.cur_y,s.stored)) =
  some (-1,0,[-1,-2]) := by
 decide +kernel

end Netbas.Console
