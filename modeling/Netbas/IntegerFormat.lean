import Mathlib.Data.Nat.Digits.Lemmas
import Netbas.Formatting

/-!
The integer conversions of `do_printf` (`snprintf.c`). `num` is unsigned, so that a negative value
is printed as a large one, and a `-` that follows a `0` or a `-` ends the directive; `integer_iff`
says that these are the only deviations.
-/
namespace Netbas.IntegerFormat
open Formatting List

/-! ### Directives and what they stand for -/
inductive Flag where
 | minus
 | zero
deriving DecidableEq
inductive Size where
 | int
 | short
 | long
deriving DecidableEq
inductive Conv where
 | d
 | i
 | u
 | x
 | X
 | o
deriving DecidableEq
def Flag.char : Flag -> UInt8
 | .minus => '-'.toUInt8
 | .zero => '0'.toUInt8
def Size.text : Size -> Text
 | .int => []
 | .short => ['h'.toUInt8]
 | .long => ['l'.toUInt8]
def Conv.char : Conv -> UInt8
 | .d => 'd'.toUInt8
 | .i => 'i'.toUInt8
 | .u => 'u'.toUInt8
 | .x => 'x'.toUInt8
 | .X => 'X'.toUInt8
 | .o => 'o'.toUInt8
def Conv.radix : Conv -> Nat
 | .d | .i | .u => 10
 | .x | .X => 16
 | .o => 8
def Conv.signed (c : Conv) : Bool := c = .d || c = .i
structure Directive where
 flags : List Flag
 width : Nat
 size : Size
 conv : Conv
 narrow : width < 2 ^ 32
def widthText (width : Nat) : Text := (Nat.digits 10 width).reverse.map (fun n => UInt8.ofNat (n + 48))
def Directive.text (d : Directive) : Text :=
 '%'.toUInt8 :: (d.flags.map Flag.char ++ (widthText d.width ++ (d.size.text ++ [d.conv.char])))
def Directive.InRange (d : Directive) (value : Int) : Prop :=
 if d.conv.signed then
  if d.size = .short then -2 ^ 15 ≤ value ∧ value < 2 ^ 15 else -2 ^ 31 ≤ value ∧ value < 2 ^ 31
 else
  if d.size = .short then 0 ≤ value ∧ value < 2 ^ 16 else 0 ≤ value ∧ value < 2 ^ 32
structure Print where
 directive : Directive
 value : Int
 inRange : directive.InRange value
def digitChar (upper : Bool) (n : Nat) : UInt8 :=
 if n < 10 then UInt8.ofNat (n + 48) else if upper then UInt8.ofNat (n + 55) else UInt8.ofNat (n + 87)
def numeral (upper : Bool) (radix n : Nat) : Text :=
 if n = 0 then ['0'.toUInt8] else (Nat.digits radix n).reverse.map (digitChar upper)

namespace Print
variable (p : Print)
def sign : Text := if p.value < 0 then ['-'.toUInt8] else []
def body : Text := numeral (p.directive.conv = .X) p.directive.conv.radix p.value.natAbs
def pad : Nat := p.directive.width - (p.sign ++ p.body).length
def expected : Text :=
 if .minus ∈ p.directive.flags then p.sign ++ p.body ++ replicate p.pad ' '.toUInt8
 else if .zero ∈ p.directive.flags then p.sign ++ replicate p.pad '0'.toUInt8 ++ p.body
 else replicate p.pad ' '.toUInt8 ++ p.sign ++ p.body
def word : BitVec 32 := BitVec.ofInt 32 p.value

/-- For every limit, what is expected is passed on up to the limit. -/
def Right : Prop := ∀ maxbytes : BitVec 32,
 do_printf p.directive.text [.word p.word] maxbytes = some (p.expected.take maxbytes.toNat)

end Print
def Ordered (flags : List Flag) : Prop :=
 ∃ zeros, flags = replicate zeros .zero ∨ flags = .minus :: replicate zeros .zero

/-! ### Digits -/
lemma digit_eq (flags : Flags) (n : Nat) : digit flags n = digitChar flags.PR_CA n := by
 rw [digit,digitChar]
 by_cases lt : n < 10
 · rw [if_pos lt,if_pos lt]
 · rw [if_neg lt,if_neg lt,show n - 10 + 65 = n + 55 by omega,show n - 10 + 97 = n + 87 by omega]

variable {upper : Bool} {n radix : Nat}
lemma numeral_small (lt : n < radix) :
 numeral upper radix n = [digitChar upper n] := by
 rw [numeral]
 by_cases zero : n = 0
 · rw [if_pos zero,zero]
   rfl
 rw [if_neg zero,Nat.digits_of_lt radix n zero lt]
 rfl
lemma numeral_step (base : 1 < radix) (large : radix ≤ n) :
 numeral upper radix n = numeral upper radix (n / radix) ++ [digitChar upper (n % radix)] := by
 have quotient : n / radix ≠ 0 := by
  have := Nat.div_pos large (by omega)
  omega
 rw [numeral,if_neg (by omega),numeral,if_neg quotient,Nat.digits_def' base (by omega),reverse_cons,map_append]
 rfl
lemma fill_digits_eq (flags : Flags) (base : 1 < radix) (places : Nat) : ∀ (n : Nat) (text : Text),
 n < 2 ^ 32 -> n < radix ^ places -> 0 < places ->
 fill_digits flags radix places n text = some (numeral flags.PR_CA radix n ++ text) := by
 induction places with
 | zero => intro n text _ _ none; omega
 | succ places ih =>
  intro n text word fits _
  rw [fill_digits]
  simp only [Nat.mod_eq_of_lt word,digit_eq]
  by_cases large : radix ≤ n
  · have quotient : n / radix ≠ 0 := by
     have := Nat.div_pos large (by omega)
     omega
    have less : n / radix < radix ^ places := by
     rw [Nat.div_lt_iff_lt_mul (by omega)]
     rwa [pow_succ] at fits
    have lt : n / radix ≤ n := Nat.div_le_self n radix
    have more : 0 < places := by
     by_contra none
     have zero : places = 0 := by omega
     rw [zero,pow_zero] at less
     exact quotient (Nat.lt_one_iff.mp less)
    rw [if_pos quotient,ih _ _ (by omega) less more,numeral_step base large,append_assoc,singleton_append]
  have quotient : n / radix = 0 := Nat.div_eq_of_lt (by omega)
  rw [if_neg (by simp [quotient]),numeral_small (by omega),Nat.mod_eq_of_lt (by omega),singleton_append]
lemma fill_digits_some (flags : Flags) (base : 8 ≤ radix) (n : Nat) :
 ∃ m, fill_digits flags radix (PR_BUFLEN - 1) n [] =
  some (if m = 0 then [digitChar flags.PR_CA (n % radix)]
   else numeral flags.PR_CA radix m ++ [digitChar flags.PR_CA (n % radix)]) := by
 refine ⟨n % 2 ^ 32 / radix,?_⟩
 have word : n % 2 ^ 32 < 2 ^ 32 := Nat.mod_lt _ (by decide)
 have lt : n % 2 ^ 32 / radix ≤ n % 2 ^ 32 := Nat.div_le_self _ _
 have power : 8 ^ 14 ≤ radix ^ 14 := Nat.pow_le_pow_left base 14
 rw [show PR_BUFLEN - 1 = 14 + 1 from rfl,fill_digits]
 simp only [digit_eq]
 by_cases more : n % 2 ^ 32 / radix = 0
 · rw [if_neg (not_not.mpr more),if_pos more]
 · rw [if_pos more,if_neg more,fill_digits_eq flags (by omega) 14 _ _ (by omega) (by omega) (by omega)]
lemma digitChar_ne (c : Conv) (lt : n < c.radix) (upper : Bool) :
 digitChar upper n ≠ '-'.toUInt8 ∧ digitChar upper n ≠ ' '.toUInt8 ∧ digitChar upper n ≠ c.char := by
 have all : ∀ (c : Conv) (upper : Bool) (n : Fin 16), n.val < c.radix -> digitChar upper n ≠ '-'.toUInt8 ∧
   digitChar upper n ≠ ' '.toUInt8 ∧ digitChar upper n ≠ c.char := by
  intro c
  cases c <;> decide
 have le : n < 16 := lt_of_lt_of_le lt (by cases c <;> decide)
 exact all c upper ⟨n,le⟩ lt
lemma radix_base (c : Conv) : 8 ≤ c.radix := by
 cases c <;> decide

variable {b : UInt8}
lemma numeral_mem {c : Conv} (mem : b ∈ numeral upper c.radix n) :
 b ≠ '-'.toUInt8 ∧ b ≠ ' '.toUInt8 ∧ b ≠ c.char := by
 have base := radix_base c
 rw [numeral] at mem
 by_cases zero : n = 0
 · rw [if_pos zero,mem_singleton] at mem
   rw [mem]
   exact digitChar_ne c (n := 0) (by omega) upper
 rw [if_neg zero] at mem
 obtain ⟨m,inside,rfl⟩ := mem_map.mp mem
 exact digitChar_ne c (Nat.digits_lt_base (by omega) (mem_reverse.mp inside)) upper
lemma numeral_length (c : Conv) (upper : Bool) (word : n < 2 ^ 32) :
 0 < (numeral upper c.radix n).length ∧ (numeral upper c.radix n).length ≤ 11 := by
 have base := radix_base c
 rw [numeral]
 by_cases zero : n = 0
 · rw [if_pos zero]
   decide
 rw [if_neg zero,length_map,length_reverse]
 have power : 8 ^ 11 ≤ c.radix ^ 11 := Nat.pow_le_pow_left base 11
 have length := (Nat.digits_length_le_iff (by omega) n).mpr (show n < c.radix ^ 11 by omega)
 have some : Nat.digits c.radix n ≠ [] := Nat.digits_ne_nil_iff_ne_zero.mpr zero
 exact ⟨length_pos_of_ne_nil some,length⟩

/-! ### Following the machine -/
section
variable {p : Printer} {flags : Flags} {wd : Nat} {args : List Arg}
structure Ready (p : Printer) (flags : Flags) (wd : Nat) (args : List Arg) : Prop where
 state : p.state = .flags ∨ p.state = .width
 flags : p.flags = flags
 width : p.given_wd = wd
 args : p.args = args
lemma run_cons {c : UInt8} {fmt : Text} {q : Printer} (moved : advance p c = some (q,[])) :
 run p (c :: fmt) = run q fmt := by
 rw [run,moved]
 simp only [Option.bind_some]
 cases run q fmt <;> rfl
lemma advance_digit (ready : Ready p flags wd args) {n : Nat} (lt : n < 10) (fst : n ≠ 0 ∨ p.state = .width) :
 ∃ q, advance p (UInt8.ofNat (n + 48)) = some (q,[]) ∧ Ready q flags ((10 * wd + n) % 2 ^ 32) args ∧ q.state = .width := by
 have value : (UInt8.ofNat (n + 48)).toNat = n + 48 := by
  rw [UInt8.toNat_ofNat']
  omega
 have number : '0'.toUInt8 ≤ UInt8.ofNat (n + 48) ∧ UInt8.ofNat (n + 48) ≤ '9'.toUInt8 := by
  rw [UInt8.le_iff_toNat_le,UInt8.le_iff_toNat_le,value]
  exact ⟨Nat.le_add_left _ _,by change n + 48 ≤ 57; omega⟩
 have next : await_width p (UInt8.ofNat (n + 48)) =
   some ({p with state := .width, unchecked := false, given_wd := (10 * wd + n) % 2 ^ 32},[]) := by
  rw [await_width,if_pos number,value,ready.width,Nat.add_sub_cancel]
 refine ⟨{p with state := .width, unchecked := false, given_wd := (10 * wd + n) % 2 ^ 32},?_,
  ⟨.inr rfl,ready.flags,rfl,ready.args⟩,rfl⟩
 rw [<- next,advance]
 rcases ready.state with state | state
 · have ne0 : n ≠ 0 := by
    rcases fst with ne0 | state'
    · exact ne0
    rw [state] at state'
    cases state'
   have ne : ∀ c : UInt8, c.toNat ≤ 48 -> UInt8.ofNat (n + 48) ≠ c := by
    rintro c low rfl
    omega
   rw [state]
   simp only [await_flags]
   rw [if_neg (ne '%'.toUInt8 (by decide)),if_neg (ne '-'.toUInt8 (by decide)),
    if_neg (ne '0'.toUInt8 (by decide))]
 · rw [state]
lemma run_digits (ds : List Nat) : ∀ (p : Printer) (wd : Nat), Ready p flags wd args -> (∀ n ∈ ds, n < 10) ->
 (p.state = .width ∨ ∀ n ∈ ds.head?, n ≠ 0) -> wd < 2 ^ 32 ->
 ∃ q, run p (ds.map (fun n => UInt8.ofNat (n + 48))) = some (q,[]) ∧
  Ready q flags (ds.foldl (fun w n => (10 * w + n) % 2 ^ 32) wd) args ∧ (ds ≠ [] -> q.state = .width) := by
 induction ds with
 | nil => exact fun p wd ready _ _ _ => ⟨p,rfl,ready,fun some => absurd rfl some⟩
 | cons n ds ih =>
  intro p wd ready lt fst fits
  have start : n ≠ 0 ∨ p.state = .width := by
   rcases fst with state | head
   · exact .inr state
   · exact .inl (head n (by simp))
  obtain ⟨q,moved,rdy',state⟩ := advance_digit ready (lt n (by simp)) start
  obtain ⟨q',ran,ready'',state'⟩ := ih q _ rdy' (fun m mem => lt m (by simp [mem])) (.inl state)
   (Nat.mod_lt _ (by decide))
  refine ⟨q',?_,ready'',fun _ => ?_⟩
  · rw [map_cons,run_cons moved,ran]
  by_cases none : ds = []
  · rw [none,map_nil,run] at ran
    cases ran
    exact state
  · exact state' none
lemma foldl_width (ds : List Nat) : ∀ wd, ds.foldl (fun w n => (10 * w + n) % 2 ^ 32) (wd % 2 ^ 32) =
 ds.foldl (fun w n => 10 * w + n) wd % 2 ^ 32 := by
 induction ds with
 | nil => exact fun wd => rfl
 | cons n ds ih =>
  intro wd
  rw [foldl_cons,foldl_cons,<- ih]
  congr 1
  omega
lemma foldl_digits (width : Nat) : (Nat.digits 10 width).reverse.foldl (fun w n => 10 * w + n) 0 = width := by
 rw [foldl_reverse]
 conv_rhs => rw [<- Nat.ofDigits_digits 10 width]
 induction Nat.digits 10 width with
 | nil => rfl
 | cons n ds ih =>
  rw [foldr_cons,ih,Nat.ofDigits_cons]
  omega
lemma run_width (ready : Ready p flags 0 args) {width : Nat} (narrow : width < 2 ^ 32) :
 ∃ q, run p (widthText width) = some (q,[]) ∧ Ready q flags width args := by
 have lt : ∀ n ∈ (Nat.digits 10 width).reverse, n < 10 :=
  fun n mem => Nat.digits_lt_base (by decide) (mem_reverse.mp mem)
 have fst : ∀ n ∈ (Nat.digits 10 width).reverse.head?, n ≠ 0 := by
  intro n head
  rw [head?_reverse] at head
  by_cases zero : width = 0
  · rw [zero] at head
    simp at head
  have last := Nat.getLast_digit_ne_zero 10 zero
  rw [getLast?_eq_getLast_of_ne_nil (Nat.digits_ne_nil_iff_ne_zero.mpr zero)] at head
  rw [<- Option.some.inj head]
  exact last
 obtain ⟨q,ran,rdy',_⟩ := run_digits _ p 0 ready lt (.inr fst) (by decide)
 refine ⟨q,ran,?_⟩
 have folded := foldl_width (Nat.digits 10 width).reverse 0
 rw [Nat.zero_mod,foldl_digits,Nat.mod_eq_of_lt narrow] at folded
 rw [folded] at rdy'
 exact rdy'
lemma advance_letter (mem : p.state ≠ .percent) {c : UInt8}
 (letter : c ≠ '%'.toUInt8 ∧ c ≠ '-'.toUInt8 ∧ ¬('0'.toUInt8 ≤ c ∧ c ≤ '9'.toUInt8)) :
 advance p c = await_modifier p c := by
 obtain ⟨percent,minus,number⟩ := letter
 have zero : c ≠ '0'.toUInt8 := by
  rintro rfl
  exact number (by decide)
 have width : await_width p c = await_modifier p c := by
  rw [await_width,if_neg number]
 rw [advance]
 cases state : p.state with
 | percent => exact absurd state mem
 | flags => simp only [await_flags,if_neg percent,if_neg minus,if_neg zero,width]
 | width => exact width
 | modifier => rfl
def Size.mark (size : Size) (flags : Flags) : Flags :=
 match size with
 | .int => flags
 | .short => {flags with PR_16 := true}
 | .long => {flags with PR_32 := true}
def Conv.mark (c : Conv) (flags : Flags) : Flags :=
 match c with
 | .d | .i => {flags with PR_SG := true}
 | .X => {flags with PR_CA := true}
 | .u | .x | .o => flags
lemma conversion_eq (p : Printer) (c : Conv) : await_modifier p c.char = do_num p (c.mark p.flags) c.radix := by
 cases c <;> rfl
lemma run_conversion (ready : Ready p flags wd args) (size : Size) (c : Conv) :
 ∃ q, run p (size.text ++ [c.char]) = (do_num q (c.mark (size.mark flags)) c.radix).map (fun r => (r.1,r.2 ++ [])) ∧
  q.given_wd = wd ∧ q.args = args := by
 have mem : p.state ≠ .percent := by
  rcases ready.state with state | state <;> simp [state]
 have letter : c.char ≠ '%'.toUInt8 ∧ c.char ≠ '-'.toUInt8 ∧ ¬('0'.toUInt8 ≤ c.char ∧ c.char ≤ '9'.toUInt8) := by
  cases c <;> decide
 have last : ∀ q : Printer, q.state ≠ .percent ->
   run q [c.char] = (do_num q (c.mark q.flags) c.radix).map (fun r => (r.1,r.2 ++ [])) := by
  intro q state
  rw [run,advance_letter state letter,conversion_eq]
  cases do_num q (c.mark q.flags) c.radix <;> rfl
 have marked : ∀ (b : UInt8) (marked : Flags),
   advance p b = some ({p with state := .modifier, unchecked := false, flags := marked},[]) ->
   ∃ q, run p ([b] ++ [c.char]) = (do_num q (c.mark marked) c.radix).map (fun r => (r.1,r.2 ++ [])) ∧
    q.given_wd = wd ∧ q.args = args := by
  intro b marked moved
  refine ⟨{p with state := .modifier, unchecked := false, flags := marked},?_,ready.width,ready.args⟩
  rw [singleton_append,run_cons moved,last _ (by simp)]
 have flags' := ready.flags
 cases size with
 | int =>
  refine ⟨p,?_,ready.width,ready.args⟩
  rw [Size.text,nil_append,last p mem,flags',Size.mark]
 | short =>
  refine marked 'h'.toUInt8 {flags with PR_16 := true} ?_
  rw [advance_letter mem (by decide),<- flags']
  rfl
 | long =>
  refine marked 'l'.toUInt8 {flags with PR_32 := true} ?_
  rw [advance_letter mem (by decide),<- flags']
  rfl

/-! ### Flags -/
def begun (args : List Arg) : Printer := {start args with state := .flags, unchecked := true}
def flagsOf (l : List Flag) : Flags := {Flags.none with PR_LJ := decide (.minus ∈ l), PR_LZ := decide (.zero ∈ l)}
lemma run_zeros (zeros : Nat) : ∀ p : Printer, Ready p flags 0 args -> p.state = .width ->
 ∃ q, run p (replicate zeros '0'.toUInt8) = some (q,[]) ∧ Ready q flags 0 args ∧ q.state = .width := by
 induction zeros with
 | zero => exact fun p ready state => ⟨p,rfl,ready,state⟩
 | succ zeros ih =>
  intro p ready state
  obtain ⟨q,moved,rdy',state'⟩ := advance_digit ready (n := 0) (by decide) (.inr state)
  obtain ⟨q',ran,done⟩ := ih q rdy' state'
  exact ⟨q',by rw [replicate_succ,<- ran]; exact run_cons moved,done⟩
lemma run_zero_flags (zeros : Nat) (p : Printer) (ready : Ready p flags 0 args) (state : p.state = .flags) :
  ∃ q, run p (replicate zeros '0'.toUInt8) = some (q,[]) ∧
   Ready q {flags with PR_LZ := flags.PR_LZ || decide (0 < zeros)} 0 args ∧ (0 < zeros -> q.state = .width) ∧
   (zeros = 0 -> q.state = .flags) := by
 cases zeros with
 | zero =>
  refine ⟨p,rfl,?_,fun none => absurd none (by decide),fun _ => state⟩
  simpa using ready
 | succ zeros =>
  have moved : advance p '0'.toUInt8 =
    some ({p with state := .width, unchecked := true, flags := {p.flags with PR_LZ := true}},[]) := by
   rw [advance,state]
   rfl
  have flags' := ready.flags
  obtain ⟨q,ran,rdy',state'⟩ := run_zeros zeros
   {p with state := .width, unchecked := true, flags := {p.flags with PR_LZ := true}}
   ⟨.inr rfl,rfl,ready.width,ready.args⟩ rfl
  refine ⟨q,by rw [replicate_succ,run_cons moved,ran],?_,fun _ => state',fun none => absurd none (by omega)⟩
  rw [flags'] at rdy'
  simpa using rdy'

variable {l : List Flag}
lemma run_ordered (ordered : Ordered l) (args : List Arg) :
 ∃ q, run (begun args) (l.map Flag.char) = some (q,[]) ∧ Ready q (flagsOf l) 0 args ∧
  (l ≠ [] -> q.state = .flags -> .minus ∈ l) := by
 obtain ⟨zeros,rfl | rfl⟩ := ordered
 · obtain ⟨q,ran,ready,some,none⟩ := run_zero_flags zeros (begun args) ⟨.inl rfl,rfl,rfl,rfl⟩ rfl
   refine ⟨q,by rw [map_replicate]; exact ran,?_,fun any state => ?_⟩
   · have eq : flagsOf (replicate zeros .zero) = {Flags.none with PR_LZ := Flags.none.PR_LZ || decide (0 < zeros)} := by
      simp [flagsOf,mem_replicate,Flags.none,Nat.pos_iff_ne_zero]
     rw [eq]
     exact ready
   have more : 0 < zeros := by
    by_contra zero
    exact any (by simp [show zeros = 0 by omega])
   rw [some more] at state
   cases state
 have moved : advance (begun args) '-'.toUInt8 =
   Option.some ({begun args with unchecked := false, flags := {Flags.none with PR_LJ := true}},[]) := rfl
 obtain ⟨q,ran,ready,_,_⟩ := run_zero_flags zeros
  {begun args with unchecked := false, flags := {Flags.none with PR_LJ := true}} ⟨.inl rfl,rfl,rfl,rfl⟩ rfl
 refine ⟨q,?_,?_,fun _ _ => by simp⟩
 · rw [map_cons,map_replicate]
   exact (run_cons moved).trans ran
 have eq : flagsOf (.minus :: replicate zeros .zero) =
   {({Flags.none with PR_LJ := true} : Flags) with PR_LZ := Flags.none.PR_LZ || decide (0 < zeros)} := by
  simp [flagsOf,mem_replicate,Flags.none,Nat.pos_iff_ne_zero]
 rw [eq]
 exact ready
lemma unordered_split (unordered : ¬Ordered l) :
 ∃ fst rest, l = fst ++ .minus :: rest ∧ Ordered fst ∧ fst ≠ [] := by
 have zeros : ∀ l : List Flag, (∃ n, l = replicate n .zero) ∨ ∃ n rest, l = replicate n .zero ++ .minus :: rest := by
  intro l
  induction l with
  | nil => exact .inl ⟨0,rfl⟩
  | cons f l ih =>
   cases f with
   | minus => exact .inr ⟨0,l,rfl⟩
   | zero =>
    rcases ih with ⟨n,rfl⟩ | ⟨n,rest,rfl⟩
    · exact .inl ⟨n + 1,rfl⟩
    · exact .inr ⟨n + 1,rest,rfl⟩
 rcases zeros l with ⟨n,all⟩ | ⟨n,rest,split⟩
 · exact absurd ⟨n,.inl all⟩ unordered
 cases n with
 | succ n => exact ⟨_,rest,split,⟨n + 1,.inl rfl⟩,by simp⟩
 | zero =>
  rcases zeros rest with ⟨m,all⟩ | ⟨m,rest',split'⟩
  · exact absurd ⟨m,.inr (by rw [split,all]; rfl)⟩ unordered
  · exact ⟨.minus :: replicate m .zero,rest',by rw [split,split']; rfl,⟨m,.inr rfl⟩,by simp⟩
lemma run_echo (t : Text) (args : List Arg) (plain : '%'.toUInt8 ∉ t) : run (start args) t = some (start args,t) := by
 induction t with
 | nil => rfl
 | cons c t ih =>
  obtain ⟨ne,plain⟩ : ¬ '%'.toUInt8 = c ∧ '%'.toUInt8 ∉ t := by
   simpa only [mem_cons,not_or] using plain
  have moved : advance (start args) c = some (start args,[c]) := if_pos (Ne.symm ne)
  rw [run,moved,Option.bind_some]
  simp only [ih plain,Option.map_some,singleton_append]
lemma run_unordered (unordered : ¬Ordered l) (args : List Arg) (more : Text)
 (plain : '%'.toUInt8 ∉ more) :
 ∃ rest : List Flag, run (begun args) (l.map Flag.char ++ more) = some (start args,rest.map Flag.char ++ more) ∧
  .minus ∈ l := by
 obtain ⟨fst,rest,rfl,ordered,any⟩ := unordered_split unordered
 obtain ⟨q,ran,ready,minus⟩ := run_ordered ordered args
 refine ⟨rest,?_,by simp⟩
 have ends : advance q '-'.toUInt8 = some (start args,[]) := by
  rw [<- ready.args,advance]
  rcases ready.state with state | state
  · have twice : q.flags.PR_LJ = true := by
     rw [ready.flags]
     exact decide_eq_true (minus any state)
    simp only [state,await_flags,twice]
    rfl
  rw [state]
  rfl
 have echo := run_echo (rest.map Flag.char ++ more) args (by
  rw [mem_append,not_or]
  refine ⟨fun mem => ?_,plain⟩
  obtain ⟨f,_,eq⟩ := mem_map.mp mem
  cases f <;> exact absurd eq (by decide))
 rw [map_append,map_cons,append_assoc,cons_append,run_append,ran]
 simp only [Option.bind_some,Flag.char]
 rw [run_cons ends,echo]
 rfl

/-! ### The number -/
lemma do_num_eq {q : Printer} {w : BitVec 32} (word : q.args = [.word w]) (flags : Flags) (radix : Nat) :
 do_num q flags radix =
  (fill_digits flags radix (PR_BUFLEN - 1) (load flags w) []).map (fun text => (start [],emit flags q.given_wd text)) := by
 rw [do_num,word]
 -- an unsigned number is not negative
 have eq : (if flags.PR_SG = true then if load flags w < 0 then ({flags with PR_WS := true},2 ^ 64 - load flags w)
   else (flags,load flags w) else (flags,load flags w)) = (flags,load flags w) := by
  simp
 simp only [eq]
lemma emit_plain {flags : Flags} (unsigned : flags.PR_WS = false) (wd : Nat) (text : Text) : emit flags wd text =
 if flags.PR_LJ then text ++ replicate (wd - text.length) ' '.toUInt8
 else replicate (wd - text.length) (if flags.PR_LZ then '0'.toUInt8 else ' '.toUInt8) ++ text := by
 simp only [emit,emit2,unsigned,Bool.false_and,Bool.false_eq_true,if_false,nil_append,append_nil]
 cases flags.PR_LJ with
 | true =>
  simp only [if_true,Nat.sub_zero,replicate_zero,nil_append]
  congr 2
  split <;> omega
 | false =>
  simp only [Bool.false_eq_true,if_false]
  have none : (if wd - (wd - text.length) < text.length then 0 else wd - (wd - text.length) - text.length) = 0 := by
   split <;> omega
  rw [none,replicate_zero,append_nil]
def Directive.marks (d : Directive) : Flags := d.conv.mark (d.size.mark (flagsOf d.flags))
lemma run_percent (args : List Arg) (fmt : Text) : run (start args) ('%'.toUInt8 :: fmt) = run (begun args) fmt :=
 run_cons rfl
lemma run_directive (d : Directive) (ordered : Ordered d.flags) {w : BitVec 32} {text : Text}
 (filled : fill_digits d.marks d.conv.radix (PR_BUFLEN - 1) (load d.marks w) [] = some text) :
 run (start [.word w]) d.text = some (start [],emit d.marks d.width text) := by
 obtain ⟨q,ran,ready,_⟩ := run_ordered ordered [.word w]
 obtain ⟨q',ran',rdy'⟩ := run_width ready d.narrow
 obtain ⟨q'',ran'',width,args⟩ := run_conversion rdy' d.size d.conv
 rw [do_num_eq args,width,<- Directive.marks,filled] at ran''
 rw [Directive.text,run_percent,run_append,ran]
 simp only [Option.bind_some]
 rw [run_append,ran']
 simp only [Option.bind_some]
 rw [ran'']
 simp

end

/-! ### The conversions -/
lemma do_printf_run {fmt : Text} {args : List Arg} {p : Printer} {out : Text}
 (ran : run (start args) fmt = some (p,out)) (checked : p.unchecked = false) (maxbytes : BitVec 32) :
 do_printf fmt args maxbytes = some (out.take maxbytes.toNat) := by
 rw [do_printf,loop_eq fmt _ _ [] _ ran (by simp)]
 simp only [length_nil,Nat.zero_add,nil_append,checked,Bool.false_eq_true,if_false]
 by_cases le : out.length ≤ maxbytes.toNat
 · rw [if_pos le,take_of_length_le le]
 · rw [if_neg le]
lemma marks_fields (d : Directive) : d.marks.PR_32 = decide (d.size = .long) ∧ d.marks.PR_16 = decide (d.size = .short) ∧
 d.marks.PR_SG = d.conv.signed ∧ d.marks.PR_CA = decide (d.conv = .X) ∧ d.marks.PR_WS = false ∧
 d.marks.PR_LJ = decide (.minus ∈ d.flags) ∧ d.marks.PR_LZ = decide (.zero ∈ d.flags) := by
 rw [Directive.marks]
 cases d.size <;> cases d.conv <;> exact ⟨rfl,rfl,rfl,rfl,rfl,rfl,rfl⟩
section
variable (p : Print)
lemma natAbs_small : p.value.natAbs < 2 ^ 32 := by
 have range := p.inRange
 simp only [Directive.InRange] at range
 split at range <;> split at range <;> omega
lemma load_value (pos : 0 ≤ p.value) : load p.directive.marks p.word = p.value.natAbs := by
 obtain ⟨long,short,signed,_,_,_,_⟩ := marks_fields p.directive
 have range := p.inRange
 have lt := natAbs_small p
 have word : p.word.toNat = p.value.natAbs := by
  rw [Print.word,BitVec.toNat_ofInt]
  omega
 have half : (p.word.setWidth 16).toNat = p.value.natAbs % 2 ^ 16 := by
  rw [BitVec.toNat_setWidth,word]
 rw [load,long,short,signed]
 simp only [Directive.InRange] at range
 cases size : p.directive.size with
 | long => simpa using word
 | short =>
  cases conv : p.directive.conv.signed with
  | true =>
   simp only [size,conv,if_true] at range ⊢
   have value : (p.word.setWidth 16).toInt = p.value := by
    rw [BitVec.toInt_eq_toNat_cond,half]
    split <;> omega
   rw [value,extended]
   simp only [reduceCtorEq,decide_false,Bool.false_eq_true,if_false,decide_true,if_true]
   omega
  | false =>
   simp only [size,conv,if_true,Bool.false_eq_true,if_false] at range ⊢
   simp only [reduceCtorEq,decide_false,Bool.false_eq_true,if_false,decide_true,if_true,half]
   omega
 | int =>
  cases conv : p.directive.conv.signed with
  | true =>
   simp only [size,conv,if_true,reduceCtorEq,if_false] at range ⊢
   have value : p.word.toInt = p.value := by
    rw [BitVec.toInt_eq_toNat_cond,word]
    split <;> omega
   simp only [value,extended,decide_false,Bool.false_eq_true,if_false]
   omega
  | false => simpa using word
lemma right_of_positive (ordered : Ordered p.directive.flags) (pos : 0 ≤ p.value) : p.Right := by
 obtain ⟨_,_,_,upper,unsigned,left,zero⟩ := marks_fields p.directive
 have base := radix_base p.directive.conv
 have lt := natAbs_small p
 have power : 8 ^ 15 ≤ p.directive.conv.radix ^ 15 := Nat.pow_le_pow_left base 15
 have filled := fill_digits_eq p.directive.marks (show 1 < p.directive.conv.radix by omega) (PR_BUFLEN - 1) p.value.natAbs []
  lt (by change _ < p.directive.conv.radix ^ 15; omega) (by decide)
 rw [<- load_value p pos,append_nil] at filled
 have ran := run_directive p.directive ordered filled
 have expected : emit p.directive.marks p.directive.width
   (numeral p.directive.marks.PR_CA p.directive.conv.radix (load p.directive.marks p.word)) = p.expected := by
  have none : p.sign = [] := if_neg (by omega)
  rw [emit_plain unsigned,load_value p pos,upper,left,zero,Print.expected,Print.pad,none,nil_append,<- Print.body]
  simp only [decide_eq_true_eq,append_nil]
  split
  · rfl
  · split <;> rfl
 rw [expected] at ran
 exact fun maxbytes => do_printf_run ran rfl maxbytes
def unbounded : BitVec 32 := BitVec.allOnes 32
lemma unbounded_toNat : unbounded.toNat = 2 ^ 32 - 1 := rfl
lemma body_length : 0 < p.body.length ∧ (p.sign ++ p.body).length ≤ 12 := by
 obtain ⟨some,le⟩ := numeral_length p.directive.conv (decide (p.directive.conv = .X)) (natAbs_small p)
 refine ⟨some,?_⟩
 rw [length_append,Print.sign]
 have body : p.body.length ≤ 11 := le
 split <;> simp <;> omega
lemma expected_length : p.expected.length ≤ 2 ^ 32 - 1 := by
 have le := (body_length p).2
 have narrow := p.directive.narrow
 have pad : (p.sign ++ p.body).length + p.pad ≤ 2 ^ 32 - 1 := by
  rw [Print.pad]
  omega
 rw [length_append] at pad
 rw [Print.expected]
 split
 · simp only [length_append,length_replicate]
   omega
 split
 · simp only [length_append,length_replicate]
   omega
 simp only [length_append,length_replicate]
 omega
lemma not_right_negative (ordered : Ordered p.directive.flags) (negative : p.value < 0) : ¬p.Right := by
 intro right
 obtain ⟨_,_,_,_,unsigned,_,_⟩ := marks_fields p.directive
 obtain ⟨m,filled⟩ := fill_digits_some p.directive.marks (radix_base p.directive.conv) (load p.directive.marks p.word)
 have text := do_printf_run (run_directive p.directive ordered filled) rfl unbounded
 rw [right unbounded,Option.some.injEq,unbounded_toNat,take_of_length_le (expected_length p)] at text
 have minus : '-'.toUInt8 ∈ p.expected := by
  have sign : p.sign = ['-'.toUInt8] := if_pos negative
  rw [Print.expected,sign]
  split
  · simp
  · split <;> simp
 rw [text] at minus
 have emitted := mem_of_mem_take minus
 rw [emit_plain unsigned] at emitted
 have last := digitChar_ne p.directive.conv
  (Nat.mod_lt (load p.directive.marks p.word) (show 0 < p.directive.conv.radix by have := radix_base p.directive.conv; omega))
  p.directive.marks.PR_CA
 have digits : '-'.toUInt8 ∉ (if m = 0 then [digitChar p.directive.marks.PR_CA (load p.directive.marks p.word % p.directive.conv.radix)]
   else numeral p.directive.marks.PR_CA p.directive.conv.radix m ++
    [digitChar p.directive.marks.PR_CA (load p.directive.marks p.word % p.directive.conv.radix)]) := by
  intro mem
  split at mem
  · exact last.1 (mem_singleton.mp mem).symm
  rcases mem_append.mp mem with inside | inside
  · exact (numeral_mem inside).1 rfl
  · exact last.1 (mem_singleton.mp inside).symm
 have padding : ∀ b n, b = '0'.toUInt8 ∨ b = ' '.toUInt8 -> '-'.toUInt8 ∉ replicate n b := by
  rintro b n (rfl | rfl) mem <;> exact absurd (eq_of_mem_replicate mem) (by decide)
 split at emitted
 · rcases mem_append.mp emitted with inside | inside
   · exact digits inside
   · exact padding _ _ (.inr rfl) inside
 rcases mem_append.mp emitted with inside | inside
 · exact padding _ _ (by split <;> simp) inside
 · exact digits inside
lemma widthText_mem {width : Nat} (mem : b ∈ widthText width) : b ≠ '%'.toUInt8 ∧ b ≠ ' '.toUInt8 := by
 obtain ⟨n,inside,rfl⟩ := mem_map.mp mem
 have lt : n < 10 := Nat.digits_lt_base (by decide) (mem_reverse.mp inside)
 have all : ∀ n : Fin 10, UInt8.ofNat (n.val + 48) ≠ '%'.toUInt8 ∧ UInt8.ofNat (n.val + 48) ≠ ' '.toUInt8 := by
  decide
 exact all ⟨n,lt⟩
lemma tail_mem (d : Directive) (rest : List Flag)
 (mem : b ∈ rest.map Flag.char ++ (widthText d.width ++ (d.size.text ++ [d.conv.char]))) :
 b ≠ '%'.toUInt8 ∧ b ≠ ' '.toUInt8 := by
 rcases mem_append.mp mem with flag | mem
 · obtain ⟨f,_,rfl⟩ := mem_map.mp flag
   cases f <;> decide
 rcases mem_append.mp mem with digit | mem
 · exact widthText_mem digit
 rcases mem_append.mp mem with size | conv
 · cases kind : d.size with
   | int =>
    rw [kind] at size
    cases size
   | short =>
    rw [kind,Size.text,mem_singleton] at size
    rw [size]
    decide
   | long =>
    rw [kind,Size.text,mem_singleton] at size
    rw [size]
    decide
 rw [mem_singleton.mp conv]
 cases d.conv <;> decide
lemma not_right_unordered (unordered : ¬Ordered p.directive.flags) : ¬p.Right := by
 intro right
 obtain ⟨some,le⟩ := body_length p
 obtain ⟨rest,ran,minus⟩ := run_unordered unordered [.word p.word]
  (widthText p.directive.width ++ (p.directive.size.text ++ [p.directive.conv.char]))
  (fun percent => (tail_mem p.directive [] percent).1 rfl)
 have whole : run (start [.word p.word]) p.directive.text = _ := (run_percent _ _).trans ran
 have text := do_printf_run whole rfl unbounded
 rw [right unbounded,Option.some.injEq,unbounded_toNat,take_of_length_le (expected_length p)] at text
 obtain ⟨echo,isEcho⟩ : ∃ echo, rest.map Flag.char ++
  (widthText p.directive.width ++ (p.directive.size.text ++ [p.directive.conv.char])) = echo := ⟨_,rfl⟩
 rw [isEcho] at text
 -- hit are no spaces, so hit is no padding
 have none : p.pad = 0 := by
  by_contra padded
  have space : ' '.toUInt8 ∈ p.expected := by
   rw [Print.expected,if_pos minus]
   exact mem_append_right _ (mem_replicate.mpr ⟨padded,rfl⟩)
  rw [text] at space
  exact (tail_mem p.directive rest (isEcho ▸ mem_of_mem_take space)).2 rfl
 have expected : p.expected = p.sign ++ p.body := by
  rw [Print.expected,if_pos minus,none,replicate_zero,append_nil]
 -- so all is passed on, and the last character would be a digit
 have length := congrArg List.length text
 rw [expected,length_take] at length
 have all : echo.take (2 ^ 32 - 1) = echo := take_of_length_le (by omega)
 rw [expected,all,<- isEcho] at text
 have last := congrArg getLast? text
 rw [getLast?_append_of_ne_nil _ (ne_nil_of_length_pos some),<- append_assoc,<- append_assoc,
  getLast?_concat] at last
 exact (numeral_mem (mem_of_getLast? last)).2.2 rfl
theorem integer_iff : p.Right ↔ 0 ≤ p.value ∧ Ordered p.directive.flags := by
 constructor
 · intro right
   by_cases ordered : Ordered p.directive.flags
   · refine ⟨?_,ordered⟩
     by_contra negative
     exact not_right_negative p ordered (by omega) right
   · exact absurd right (not_right_unordered p ordered)
 rintro ⟨pos,ordered⟩
 exact right_of_positive p ordered pos
end
theorem minus_one_unsigned : ¬ Print.Right ⟨⟨[],0,.int,.d,by decide⟩,-1,⟨by decide,by decide⟩⟩ ∧
 ¬ Print.Right ⟨⟨[.zero,.minus],0,.int,.d,by decide⟩,7,⟨by decide,by decide⟩⟩ :=
 ⟨fun right => absurd (right 80) (by decide +kernel),fun right => absurd (right 80) (by decide +kernel)⟩

end Netbas.IntegerFormat
