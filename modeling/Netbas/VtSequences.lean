import Netbas.Console

/-!
The escape sequences of several consoles. `calls` lists what `do_vt` asks the driver of a console to
do. `parses_iff`: a complete sequence leaves a console ready for the next, but
for two erasures and `Con_status`, which all consoles share.
-/
namespace Netbas.VtSequences
open Runs Console List
universe u
inductive Op where
 | char_erase (count : Nat)
 | char_attrib (att : Nat)
deriving DecidableEq
def unsigned (n : Int) : Nat := (n % 2 ^ 32).toNat
def calls (s : Screen) (ch : Nat) : List Op :=
 match s.esc with
 | 2 =>
  if ch = 'm'.toNat then [.char_attrib 0]
  else if ch = 'J'.toNat then [.char_erase (unsigned ((VC_HEIGHT - s.cur_y) * VC_WIDTH - s.cur_x))]
  else if ch = 'K'.toNat then [.char_erase (unsigned (VC_WIDTH - s.cur_x))]
  else []
 | 3 =>
  if ch = 'J'.toNat then if s.esc1 = 2 then [.char_erase (unsigned (VC_HEIGHT * VC_WIDTH))] else []
  else if ch = 'm'.toNat then [.char_attrib s.esc1]
  else []
 | 4 =>
  if ch = 'm'.toNat then [.char_attrib s.esc1,.char_attrib s.esc2]
  else if ch = 'J'.toNat then [.char_erase (unsigned (VC_HEIGHT * VC_WIDTH))]
  else []
 | 5 => if ch = 'm'.toNat then [.char_attrib s.esc1,.char_attrib s.esc2,.char_attrib s.esc3] else []
 | _ => []

/-- The byte is the last of a sequence that is recognised. -/
def Completes (s : Screen) (ch : Nat) : Prop :=
 match s.esc with
 | 2 => isdigit ch ∧ s.Con_status = .ST_END_INPUT ∨ ch ∈ ['m','s','u','H','J','K','A','B','C','D'].map Char.toNat
 | 3 => ch ∈ ['h','m','A','B','C','D'].map Char.toNat ∨ ch = 'J'.toNat ∧ s.esc1 = 2
 | 4 => ch ∈ ['H','f','m','l','L','h','J','r'].map Char.toNat ∨ ch = 0x0f
 | 5 => ch = 'm'.toNat
 | _ => False
structure View where
 cur_x : Int
 cur_y : Int
 save_x : Int
 save_y : Nat
 lock_x1 : Int
 lock_x2 : Int
deriving DecidableEq
def view (s : Screen) : View := ⟨s.cur_x,s.cur_y,s.save_x,s.save_y,s.lock_x1,s.lock_x2⟩

/-- What happens to a console after `do_vt` has returned. The fields of the parser are
  left alone, and those that are seen depend on nothing else. -/
structure Driver where
 putchar : Screen -> Nat -> Bool -> Screen
 esc : ∀ s ch vt, (putchar s ch vt).esc = s.esc
 esc1 : ∀ s ch vt, (putchar s ch vt).esc1 = s.esc1
 esc2 : ∀ s ch vt, (putchar s ch vt).esc2 = s.esc2
 esc3 : ∀ s ch vt, (putchar s ch vt).esc3 = s.esc3
 status : ∀ s ch vt, (putchar s ch vt).Con_status = s.Con_status
 cursor : ∀ s s' ch vt, view s = view s' -> view (putchar s ch vt) = view (putchar s' ch vt)
structure System (Id : Type u) where
 con : Id -> Screen
 Con_status : Status
structure Answer where
 value : Bool
 fields : View
 ops : List Op
deriving DecidableEq
def answer (s : Screen) (ch : Nat) : Answer := ⟨(do_vt s ch).1,view (do_vt s ch).2,calls s ch⟩

section
variable {Id : Type u}
def System.screen (z : System Id) (i : Id) : Screen := {z.con i with Con_status := z.Con_status}

variable [DecidableEq Id]
def feed (d : Driver) (z : System Id) (i : Id) (c : UInt8) : System Id :=
 let r := do_vt (z.screen i) c.toNat
 let s := d.putchar r.2 c.toNat r.1
 {con := Function.update z.con i s, Con_status := s.Con_status}
def step (d : Driver) (z : System Id) (a : Id × UInt8) : Option (System Id) := some (feed d z a.1 a.2)
def interpret (d : Driver) (i : Id) : System Id -> List UInt8 -> List Answer
 | _, [] => []
 | z, c :: rest => answer (z.screen i) c.toNat :: interpret d i (feed d z i c) rest
structure Settings where
 x : Fin 80
 y : Fin 25
 attrib : UInt8
 oflag : Nat
 textmode : Int -> UInt8
def boot (settings : Id -> Settings) : System Id where
 con i :=
  let t := settings i
  console_init t.x t.y t.attrib t.oflag t.textmode
 Con_status := .ST_NONE

/-! ### The property -/
def Closes (z : System Id) (a : Id × UInt8) : Prop :=
 Completes (z.screen a.1) a.2.toNat -> (do_vt (z.screen a.1) a.2.toNat).2.esc = 0
def Ends (d : Driver) (z : System Id) (i : Id) (history : List (Id × UInt8)) (z' : System Id) : Prop :=
 ∃ pre c middle, history = pre ++ [(i,c)] ∧ run (step d) z pre = some middle ∧
  Completes (middle.screen i) c.toNat ∧ z' = feed d middle i c

/-- Sequences are closed by their last bytes, and what comes after one does not depend
  on what came before. -/
structure Parses (d : Driver) (z : System Id) (i : Id) (history other : List (Id × UInt8)) : Prop where
 closes : Along (step d) (fun _ => True) Closes z history
 closesOther : Along (step d) (fun _ => True) Closes z other
 later : ∀ z1 z2, Ends d z i history z1 -> Ends d z i other z2 -> view (z1.con i) = view (z2.con i) ->
  ∀ stream, interpret d i z1 stream = interpret d i z2 stream
def Whole (z : System Id) (a : Id × UInt8) : Prop :=
 ¬ ((z.con a.1).esc = 2 ∧ (a.2.toNat = 'J'.toNat ∨ a.2.toNat = 'K'.toNat))

/-- No erasure to the end of the screen or the line, and the same said about
  `ST_END_INPUT`. -/
structure Plain (d : Driver) (z : System Id) (i : Id) (history other : List (Id × UInt8)) : Prop where
 whole : Meets (step d) Whole z history
 wholeOther : Meets (step d) Whole z other
 status : ∀ z1 z2, Ends d z i history z1 -> Ends d z i other z2 -> view (z1.con i) = view (z2.con i) ->
  (z1.Con_status = .ST_END_INPUT ↔ z2.Con_status = .ST_END_INPUT)

end

/-! ### Drivers -/
def alone : Driver where
 putchar s _ _ := s
 esc _ _ _ := rfl
 esc1 _ _ _ := rfl
 esc2 _ _ _ := rfl
 esc3 _ _ _ := rfl
 status _ _ _ := rfl
 cursor _ _ _ _ same := same
def Unparsed (s s' : Screen) : Prop :=
 s'.esc = s.esc ∧ s'.esc1 = s.esc1 ∧ s'.esc2 = s.esc2 ∧ s'.esc3 = s.esc3 ∧ s'.Con_status = s.Con_status
lemma unparsed_refl (s : Screen) : Unparsed s s := ⟨rfl,rfl,rfl,rfl,rfl⟩

variable {s' : Screen}
lemma Unparsed.draw (same : Unparsed s s') (bytes : List (Int × UInt8)) : Unparsed s (s'.draw bytes) := same
lemma Unparsed.move (same : Unparsed s s') (x y : Int) : Unparsed s {s' with cur_x := x, cur_y := y} := same
lemma Unparsed.settle (same : Unparsed s s') : Unparsed s (settle s') := by
 rw [Console.settle]
 split_ifs
 · exact (same.draw _).move _ _
 · exact same
lemma type_unparsed (s : Screen) (ch : Nat) : Unparsed s (type s ch) := by
 simp only [type,advance]
 split_ifs <;> exact unparsed_refl s
lemma vga03_unparsed (s : Screen) (ch : Nat) (vt : Bool) : Unparsed s (vga03_putchar s ch vt) := by
 rw [vga03_putchar]
 split_ifs
 · exact (unparsed_refl s).settle
 · exact unparsed_refl s
 · exact (type_unparsed s ch).settle
lemma view_draw (s : Screen) (bytes : List (Int × UInt8)) : view (s.draw bytes) = view s := rfl
section
variable (same : view s = view s')
include same
lemma view_move {x x' y y' : Int} (column : x = x') (row : y = y') :
 view {s with cur_x := x, cur_y := y} = view {s' with cur_x := x', cur_y := y'} := by
 simp only [view,View.mk.injEq] at same ⊢
 exact ⟨column,row,same.2.2⟩
lemma view_x : s.cur_x = s'.cur_x := congrArg View.cur_x same
lemma view_y : s.cur_y = s'.cur_y := congrArg View.cur_y same
end
lemma view_ite {p : Prop} [Decidable p] {yes no yes' no' : Screen} (fst : view yes = view yes')
 (snd : view no = view no') : view (if p then yes else no) = view (if p then yes' else no') := by
 by_cases holds : p
 · rw [if_pos holds,if_pos holds,fst]
 · rw [if_neg holds,if_neg holds,snd]
section
variable (same : view s = view s')
include same
lemma settle_view : view (settle s) = view (settle s') := by
 rw [settle,settle,view_y same]
 refine view_ite (view_move ?_ rfl rfl) same
 rw [scroll,scroll,view_draw,view_draw,same]
lemma advance_view : view (advance s) = view (advance s') := by
 rw [advance,advance,view_x same]
 exact view_ite (view_move same rfl (by rw [view_y same])) (view_move same rfl (view_y same))
lemma type_view (ch : Nat) : view (type s ch) = view (type s' ch) := by
 rw [type,type]
 refine view_ite (view_move same rfl (view_y same)) ?_
 refine view_ite (view_move same rfl (by rw [view_y same])) ?_
 refine view_ite ?_ ?_
 · rw [view_draw,view_draw]
   simp only [view,View.mk.injEq] at same ⊢
   obtain ⟨x,y,sx,sy,l1,l2⟩ := same
   exact ⟨by rw [x],y,sx,sy,l1,by rw [l2]⟩
 refine view_ite (view_move same (by rw [view_x same]) (view_y same)) ?_
 refine advance_view ?_
 rw [view_draw,view_draw,same]
end
def vga03 : Driver where
 putchar := vga03_putchar
 esc s ch vt := (vga03_unparsed s ch vt).1
 esc1 s ch vt := (vga03_unparsed s ch vt).2.1
 esc2 s ch vt := (vga03_unparsed s ch vt).2.2.1
 esc3 s ch vt := (vga03_unparsed s ch vt).2.2.2.1
 status s ch vt := (vga03_unparsed s ch vt).2.2.2.2
 cursor s s' ch vt same := by
  rw [vga03_putchar,vga03_putchar]
  split_ifs
  · exact settle_view same
  · exact same
  · exact settle_view (type_view same ch)

/-! ### Screens that parse alike -/
structure Level (s s' : Screen) : Prop where
 fields : view s = view s'
 status : s.Con_status = .ST_END_INPUT ↔ s'.Con_status = .ST_END_INPUT
structure Alike (s s' : Screen) : Prop extends Level s s' where
 esc : s.esc = s'.esc
 first : 3 ≤ s.esc -> s.esc1 = s'.esc1
 second : 4 ≤ s.esc -> s.esc2 = s'.esc2
 third : 5 ≤ s.esc -> s.esc3 = s'.esc3
def Agree (r r' : Bool × Screen) : Prop := r.1 = r'.1 ∧ Alike r.2 r'.2
variable {yes no yes' no' : Bool × Screen}
lemma agree_branch {p p' : Prop} [Decidable p] [Decidable p'] (same : p ↔ p')
 (fst : p -> Agree yes yes') (snd : ¬ p -> Agree no no') :
 Agree (if p then yes else no) (if p' then yes' else no') := by
 by_cases holds : p
 · rw [if_pos holds,if_pos (same.mp holds)]
   exact fst holds
 rw [if_neg holds,if_neg (fun ne => holds (same.mpr ne))]
 exact snd holds
lemma agree_ite {p : Prop} [Decidable p] (fst : p -> Agree yes yes')
 (snd : ¬ p -> Agree no no') : Agree (if p then yes else no) (if p then yes' else no') :=
 agree_branch Iff.rfl fst snd

section
variable (level : Level s s')
include level
lemma Level.goes {e e' n1 n1' n2 n2' n3 n3' : Nat} (esc : e = e') (fst : 3 ≤ e -> n1 = n1')
  (snd : 4 ≤ e -> n2 = n2') (third : 5 ≤ e -> n3 = n3') (b : Bool) :
  Agree (b,{s with esc := e, esc1 := n1, esc2 := n2, esc3 := n3})
   (b,{s' with esc := e', esc1 := n1', esc2 := n2', esc3 := n3'}) :=
 ⟨rfl,⟨level.fields,level.status⟩,esc,fst,snd,third⟩
lemma Level.done : Agree s.done s'.done := level.goes rfl (by simp) (by simp) (by simp) true
lemma Level.give_up : Agree s.give_up s'.give_up :=
 level.goes rfl (by simp) (by simp) (by simp) false
lemma Level.set_status (status : Status) :
  Level {s with Con_status := status} {s' with Con_status := status} := ⟨level.fields,Iff.rfl⟩
lemma Level.erase (count count' : Int) :
  Level (Console.erase s count) (Console.erase s' count') := ⟨level.fields,level.status⟩
lemma Level.set_attrib (att att' : Nat) :
  Level (Console.set_attrib s att) (Console.set_attrib s' att') := ⟨level.fields,level.status⟩
lemma Level.move {x x' y y' : Int} (column : x = x') (row : y = y') :
 Level {s with cur_x := x, cur_y := y} {s' with cur_x := x', cur_y := y'} :=
 ⟨view_move level.fields column row,level.status⟩

end

section
variable (alike : Alike s s')
include alike
lemma command_agree : Agree (await_command s ch) (await_command s' ch) := by
 have level := alike.toLevel
 have fields := level.fields
 simp only [view,View.mk.injEq] at fields
 obtain ⟨x,y,sx,sy,l1,l2⟩ := fields
 rw [await_command,await_command]
 refine agree_ite (fun _ => level.goes ?_ (fun _ => rfl) ?_ ?_ true) fun _ => ?_
 · simp only [level.status]
 · split_ifs <;> simp
 · split_ifs <;> simp
 refine agree_ite (fun _ => (level.set_attrib 0 0).done) fun _ => ?_
 refine agree_ite (fun _ => Level.done ⟨?_,level.status⟩) fun _ => ?_
 · simp only [view,View.mk.injEq]
   exact ⟨x,y,x,by rw [y],l1,l2⟩
 refine agree_ite (fun _ => agree_branch (by rw [sx]) (fun _ => Level.done ⟨?_,level.status⟩) fun _ => level.done)
  fun _ => ?_
 · simp only [view,View.mk.injEq]
   exact ⟨sx,by rw [sy],trivial,sy,l1,l2⟩
 refine agree_ite (fun _ => (level.move rfl rfl).done) fun _ => ?_
 -- the erasures leave the sequence open
 have still : ∀ count count', Agree (true,Console.erase s count) (true,Console.erase s' count') :=
  fun count count' => ⟨rfl,level.erase count count',alike.esc,alike.first,alike.second,alike.third⟩
 refine agree_ite (fun _ => still _ _) fun _ => ?_
 refine agree_ite (fun _ => still _ _) fun _ => ?_
 refine agree_ite (fun _ => level.done) fun _ => ?_
 refine agree_ite (fun _ => level.done) fun _ => ?_
 refine agree_ite (fun _ => (level.move (by rw [x,l2]) y).done) fun _ => ?_
 refine agree_ite (fun _ => (level.move (by rw [x,l1]) y).done) fun _ => ?_
 exact level.give_up
lemma first_agree (state : s.esc = 3) : Agree (await_first s ch) (await_first s' ch) := by
 have level := alike.toLevel
 have x := view_x level.fields
 have y := view_y level.fields
 have number := alike.first (by omega)
 rw [await_first,await_first]
 refine agree_ite (fun _ => level.goes alike.esc (fun _ => by rw [number]) alike.second alike.third true) fun _ => ?_
 refine agree_ite (fun _ => level.done) fun _ => ?_
 refine agree_ite (fun _ => (level.set_status .ST_OTHER).goes rfl (fun _ => number) (fun _ => rfl) (by simp) true) fun _ => ?_
 refine agree_ite (fun _ => level.goes rfl (fun _ => number) (fun _ => rfl) (by simp) true) fun _ => ?_
 refine agree_ite (fun _ => agree_branch (by rw [number]) (fun _ => ?_) fun _ => level.give_up) fun _ => ?_
 · exact ((level.move rfl rfl).erase _ _).done
 refine agree_ite (fun _ => (level.set_attrib _ _).done) fun _ => ?_
 refine agree_ite (fun _ => (level.move x (by rw [y,number])).done) fun _ => ?_
 refine agree_ite (fun _ => (level.move x (by rw [y,number])).done) fun _ => ?_
 refine agree_ite (fun _ => (level.move (by rw [x,number]) y).done) fun _ => ?_
 refine agree_ite (fun _ => (level.move (by rw [x,number]) y).done) fun _ => ?_
 exact level.give_up
lemma second_agree (state : s.esc = 4) : Agree (await_second s ch) (await_second s' ch) := by
 have level := alike.toLevel
 have number := alike.first (by omega)
 have number' := alike.second (by omega)
 rw [await_second,await_second]
 refine agree_ite (fun _ => level.goes alike.esc alike.first (fun _ => by rw [number']) alike.third true) fun _ => ?_
 refine agree_ite (fun _ => level.goes rfl (fun _ => number) (fun _ => number') (fun _ => rfl) true) fun _ => ?_
 refine agree_ite (fun _ => (level.move (by rw [number']) (by rw [number])).done) fun _ => ?_
 refine agree_ite (fun _ => ((level.set_attrib _ _).set_attrib _ _).done) fun _ => ?_
 refine agree_ite (fun _ => level.done) fun _ => ?_
 refine agree_ite (fun _ => level.done) fun _ => ?_
 refine agree_ite (fun _ => ((level.move rfl rfl).erase _ _).done) fun _ => ?_
 refine agree_ite (fun _ => level.done) fun _ => ?_
 refine agree_ite (fun _ => level.done) fun _ => ?_
 exact level.give_up
lemma third_agree (state : s.esc = 5) : Agree (await_third s ch) (await_third s' ch) := by
 have level := alike.toLevel
 have number := alike.third (by omega)
 rw [await_third,await_third]
 refine agree_ite (fun _ => level.goes alike.esc alike.first alike.second (fun _ => by rw [number]) true) fun _ => ?_
 refine agree_ite (fun _ => (((level.set_attrib _ _).set_attrib _ _).set_attrib _ _).done) fun _ => ?_
 exact level.give_up
lemma do_vt_agree (ch : Nat) : Agree (do_vt s ch) (do_vt s' ch) := by
 have level := alike.toLevel
 rw [do_vt,do_vt,<- alike.esc]
 split
 · exact agree_ite (fun _ => level.goes rfl (by simp) (by simp) (by simp) true) fun _ => level.give_up
 · refine agree_ite (fun _ => level.goes rfl (by simp) (by simp) (by simp) true) fun _ => ?_
   refine agree_ite (fun _ => level.goes rfl (by simp) (by simp) (by simp) true) fun _ => ?_
   refine agree_ite (fun _ => (level.set_status .ST_END_INPUT).goes rfl (by simp) (by simp) (by simp) true) fun _ => ?_
   exact level.give_up
 · exact command_agree alike
 · rename_i state
   exact first_agree alike state
 · rename_i state
   exact second_agree alike state
 · rename_i state
   exact third_agree alike state
 · exact level.give_up
lemma calls_agree (ch : Nat) : calls s ch = calls s' ch := by
 have x := view_x alike.fields
 have y := view_y alike.fields
 rw [calls,calls,<- alike.esc]
 split
 · rw [x,y]
 · rename_i state
   rw [alike.first (by omega)]
 · rename_i state
   rw [alike.first (by omega),alike.second (by omega)]
 · rename_i state
   rw [alike.first (by omega),alike.second (by omega),alike.third (by omega)]
 · rfl
lemma answer_agree (ch : Nat) : answer s ch = answer s' ch := by
 obtain ⟨value,after⟩ := do_vt_agree alike ch
 rw [answer,answer,value,after.fields,calls_agree alike ch]

end

/-! ### Complete sequences -/
lemma command_closes (last : isdigit ch ∧ s.Con_status = .ST_END_INPUT ∨
     ch ∈ ['m','s','u','H','J','K','A','B','C','D'].map Char.toNat)
 (whole : ¬ (ch = 'J'.toNat ∨ ch = 'K'.toNat)) : (await_command s ch).2.esc = 0 := by
 rw [not_or] at whole
 by_cases number : isdigit ch
 · have ended : s.Con_status = .ST_END_INPUT := by
    rcases last with ⟨_,ended⟩ | letter
    · exact ended
    simp [isdigit] at letter number
    omega
   simp [await_command,number,ended]
 simp only [await_command,number,whole,if_false]
 split_ifs <;> rfl
lemma first_closes (last : ch ∈ ['h','m','A','B','C','D'].map Char.toNat ∨ ch = 'J'.toNat ∧ s.esc1 = 2) :
 (await_first s ch).2.esc = 0 := by
 have ne : ¬ isdigit ch ∧ ch ≠ '?'.toNat ∧ ch ≠ ';'.toNat := by
  simp [isdigit] at last ⊢
  omega
 simp only [await_first,ne,if_false]
 split_ifs <;> rfl
lemma second_closes (last : ch ∈ ['H','f','m','l','L','h','J','r'].map Char.toNat ∨ ch = 0x0f) :
 (await_second s ch).2.esc = 0 := by
 have ne : ¬ isdigit ch ∧ ch ≠ ';'.toNat := by
  simp [isdigit] at last ⊢
  omega
 simp only [await_second,ne,if_false]
 split_ifs <;> rfl
lemma do_vt_closes (last : Completes s ch) (whole : ¬ (s.esc = 2 ∧ (ch = 'J'.toNat ∨ ch = 'K'.toNat))) :
 (do_vt s ch).2.esc = 0 := by
 rw [Completes] at last
 rw [do_vt]
 split at last
 · rename_i state
   simp only [state]
   exact command_closes last fun erases => whole ⟨state,erases⟩
 · rename_i state
   simp only [state]
   exact first_closes last
 · rename_i state
   simp only [state]
   exact second_closes last
 · rename_i state
   simp only [state,last]
   rfl
 · cases last
lemma erasure_open (state : s.esc = 2) (erases : ch = 'J'.toNat ∨ ch = 'K'.toNat) :
 Completes s ch ∧ (do_vt s ch).2.esc = 2 := by
 rcases erases with rfl | rfl
 · simp only [Completes,do_vt,state]
   exact ⟨.inr (by decide),state⟩
 simp only [Completes,do_vt,state]
 exact ⟨.inr (by decide),state⟩

/-! ### Streams -/
section
variable {Id : Type u} {d : Driver} {z z' : System Id} {i : Id}
lemma closes_iff (a : Id × UInt8) : Closes z a ↔ Whole z a := by
 constructor
 · rintro closes ⟨state,erases⟩
   obtain ⟨last,still⟩ := erasure_open (s := z.screen a.1) state erases
   have ground := closes last
   omega
 · exact fun whole last => do_vt_closes last whole

variable [DecidableEq Id]
lemma feed_screen (c : UInt8) : (feed d z i c).screen i =
 d.putchar (do_vt (z.screen i) c.toNat).2 c.toNat (do_vt (z.screen i) c.toNat).1 := by
 simp [feed,System.screen]
lemma feed_vga03 (same : (z.con i).oflag &&& OLCUC = 0) (c : UInt8) :
 (feed vga03 z i c).screen i = tty_putchar (z.screen i) c := by
 have unchanged : output (z.screen i) c = c.toNat := if_neg (not_not.mpr same)
 rw [feed_screen,tty_putchar,unchanged]
 rfl
lemma feed_alike (alike : Alike (z.screen i) (z'.screen i)) (c : UInt8) :
 Alike ((feed d z i c).screen i) ((feed d z' i c).screen i) := by
 obtain ⟨value,after⟩ := do_vt_agree alike c.toNat
 rw [feed_screen,feed_screen,value]
 refine ⟨⟨d.cursor _ _ _ _ after.fields,?_⟩,?_,?_,?_,?_⟩
 · rw [d.status,d.status,after.status]
 · rw [d.esc,d.esc,after.esc]
 · rw [d.esc,d.esc1,d.esc1]
   exact after.first
 · rw [d.esc,d.esc2,d.esc2]
   exact after.second
 rw [d.esc,d.esc3,d.esc3]
 exact after.third
lemma interpret_alike (stream : List UInt8) : ∀ {z z' : System Id}, Alike (z.screen i) (z'.screen i) ->
 interpret d i z stream = interpret d i z' stream := by
 induction stream with
 | nil => intro _ _ _; rfl
 | cons c rest ih =>
  intro z z' alike
  rw [interpret,interpret,answer_agree alike,ih (feed_alike alike c)]
lemma feed_esc (c : UInt8) : ((feed d z i c).screen i).esc = (do_vt (z.screen i) c.toNat).2.esc := by
 rw [feed_screen,d.esc]
lemma feed_status (c : UInt8) : (feed d z i c).Con_status = (do_vt (z.screen i) c.toNat).2.Con_status :=
 d.status ..
lemma probe (ground : (z.screen i).esc = 0) : (interpret d i z [0x1b,0x5b,0x31,0x6d]).map Answer.value =
 [true,true,true,decide (z.Con_status ≠ .ST_END_INPUT)] := by
 have escape : do_vt (z.screen i) 0x1b = (true,{z.screen i with esc := 1}) := by
  simp [do_vt,ground,await_escape]
 generalize fst : feed d z i 0x1b = z1
 have esc₁ : (z1.screen i).esc = 1 := by
  rw [<- fst,feed_esc]
  exact congrArg (fun r => r.2.esc) escape
 have status1 : z1.Con_status = z.Con_status := by
  rw [<- fst,feed_status]
  exact congrArg (fun r => r.2.Con_status) escape
 have bracket : do_vt (z1.screen i) 0x5b = (true,{z1.screen i with esc1 := 0, esc := 2}) := by
  simp [do_vt,esc₁,await_bracket]
 generalize snd : feed d z1 i 0x5b = z2
 have esc₂ : (z2.screen i).esc = 2 := by
  rw [<- snd,feed_esc]
  exact congrArg (fun r => r.2.esc) bracket
 have status2 : z2.Con_status = z.Con_status := by
  rw [<- snd,feed_status,<- status1]
  exact congrArg (fun r => r.2.Con_status) bracket
 have number : do_vt (z2.screen i) 0x31 = (true,{ z2.screen i with
   esc1 := 1
   esc := if z.Con_status = .ST_END_INPUT then 0 else 3 }) := by
  have same : (z2.screen i).Con_status = z.Con_status := status2
  simp [do_vt,esc₂,await_command,isdigit,same]
 generalize third : feed d z2 i 0x31 = z3
 have esc₃ : (z3.screen i).esc = if z.Con_status = .ST_END_INPUT then 0 else 3 := by
  rw [<- third,feed_esc]
  exact congrArg (fun r => r.2.esc) number
 have last : (do_vt (z3.screen i) 0x6d).1 = decide (z.Con_status ≠ .ST_END_INPUT) := by
  by_cases ended : z.Con_status = .ST_END_INPUT
  · rw [if_pos ended] at esc₃
    simp [do_vt,esc₃,await_escape,Screen.give_up,ended]
  rw [if_neg ended] at esc₃
  simp [do_vt,esc₃,await_first,isdigit,Screen.done,ended]
 simp only [interpret,fst,snd,third,map_cons,map_nil,answer]
 refine cons_eq_cons.mpr ⟨congrArg Prod.fst escape,cons_eq_cons.mpr ⟨congrArg Prod.fst bracket,?_⟩⟩
 exact cons_eq_cons.mpr ⟨congrArg Prod.fst number,cons_eq_cons.mpr ⟨last,rfl⟩⟩
lemma along_closes (history : List (Id × UInt8)) :
 Along (step d) (fun _ => True) Closes z history ↔ Meets (step d) Whole z history :=
 along_iff (I := fun _ => True) (fun _ _ => trivial) (fun _ a _ whole => (closes_iff a).mpr whole)
  (fun _ _ _ _ _ _ => trivial) (fun _ a _ erased closes => absurd ((closes_iff a).mp closes) erased) history z trivial
lemma ends_ground {history : List (Id × UInt8)} (whole : Meets (step d) Whole z history)
 (ends : Ends d z i history z') : (z'.screen i).esc = 0 := by
 obtain ⟨pre,c,middle,rfl,reached,last,rfl⟩ := ends
 have here := (meets_cons.mp (meets_append whole reached)).1
 rw [feed_screen,d.esc]
 exact do_vt_closes last here
theorem parses_iff (d : Driver) (settings : Id -> Settings) (i : Id) (history other : List (Id × UInt8)) :
 Parses d (boot settings) i history other ↔ Plain d (boot settings) i history other := by
 constructor
 · rintro ⟨closes,closesOther,later⟩
   have whole := (along_closes history).mp closes
   have wholeOther := (along_closes other).mp closesOther
   refine ⟨whole,wholeOther,fun z1 z2 ends1 ends2 same => ?_⟩
   have equal := congrArg (List.map Answer.value) (later z1 z2 ends1 ends2 same [0x1b,0x5b,0x31,0x6d])
   rw [probe (ends_ground whole ends1),probe (ends_ground wholeOther ends2)] at equal
   simpa [not_iff_not] using equal
 rintro ⟨whole,wholeOther,status⟩
 refine ⟨(along_closes history).mpr whole,(along_closes other).mpr wholeOther,?_⟩
 intro z1 z2 ends1 ends2 same stream
 have ground1 := ends_ground whole ends1
 have ground2 := ends_ground wholeOther ends2
 refine interpret_alike stream ⟨⟨same,status z1 z2 ends1 ends2 same⟩,?_,?_,?_,?_⟩
 · rw [ground1,ground2]
 all_goals
  rw [ground1]
  simp

end
theorem other_console_interferes :
  let start : System (Fin 2) := boot (fun _ => ⟨0,0,7,0,fun _ => 32⟩)
  (∃ z1 z2, Ends alone start 0 [(0,0x1b),(0,0x5b),(0,0x6d)] z1 ∧
   Ends alone start 0 [(1,0x1b),(1,0x29),(0,0x1b),(0,0x5b),(0,0x6d)] z2 ∧ view (z1.con 0) = view (z2.con 0) ∧
   interpret alone 0 z1 [0x1b,0x5b,0x31,0x6d] ≠ interpret alone 0 z2 [0x1b,0x5b,0x31,0x6d]) ∧
  ¬ Along (step alone) (fun _ => True) Closes start [(0,0x1b),(0,0x5b),(0,0x4b)] := by
 intro start
 have open1 : ((feed alone (feed alone start 0 0x1b) 0 0x5b).screen 0).esc = 2 := by decide +kernel
 constructor
 · let other := feed alone (feed alone start 1 0x1b) 1 0x29
   have open2 : ((feed alone (feed alone other 0 0x1b) 0 0x5b).screen 0).esc = 2 := by decide +kernel
   let z1 := feed alone (feed alone (feed alone start 0 0x1b) 0 0x5b) 0 0x6d
   let z2 := feed alone (feed alone (feed alone other 0 0x1b) 0 0x5b) 0 0x6d
   have ground1 : (z1.screen 0).esc = 0 := by decide +kernel
   have ground2 : (z2.screen 0).esc = 0 := by decide +kernel
   have status1 : z1.Con_status = .ST_NONE := by decide +kernel
   have status2 : z2.Con_status = .ST_END_INPUT := by decide +kernel
   have same : view (z1.con 0) = view (z2.con 0) := by decide +kernel
   have differ : interpret alone 0 z1 [0x1b,0x5b,0x31,0x6d] ≠ interpret alone 0 z2 [0x1b,0x5b,0x31,0x6d] := by
    intro equal
    have values := congrArg (List.map Answer.value) equal
    rw [probe ground1,probe ground2,status1,status2] at values
    simp at values
   refine ⟨z1,z2,⟨[(0,0x1b),(0,0x5b)],0x6d,_,rfl,rfl,?_,rfl⟩,
    ⟨[(1,0x1b),(1,0x29),(0,0x1b),(0,0x5b)],0x6d,_,rfl,rfl,?_,rfl⟩,same,differ⟩
   · simp only [Completes,open1]
     exact .inr (by decide)
   simp only [Completes,other,open2]
   exact .inr (by decide)
 rintro ⟨_,_,closes⟩
 obtain ⟨_,_,closes⟩ := closes _ rfl
 obtain ⟨_,closes,_⟩ := closes _ rfl
 exact (closes_iff (0,0x4b)).mp closes ⟨open1,.inr rfl⟩

end Netbas.VtSequences
