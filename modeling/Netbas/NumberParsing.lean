import Mathlib.Tactic
import Mathlib.Data.Nat.Digits.Defs

/-!
Numerals (`strtou` in `scanf.c`, `strtoi`, `isnumber` and `tonumber` in `string.c`). An overflow is
taken to show when the result gets smaller; `parse_iff` says when the functions return the value of
a numeral.
-/
namespace Netbas.NumberParsing
open List
def INT_MAX : Nat := 2147483647
abbrev Text := List UInt8
def digits : Text := "0123456789ABCDEF".toList.map Char.toUInt8
def isnumber (c : UInt8) (base : Nat) : Bool := '0'.toUInt8 ≤ c && c ≤ digits.getD (base - 1) 0
def tonumber (c : UInt8) : Nat :=
 if '0'.toUInt8 ≤ c ∧ c ≤ '9'.toUInt8 then c.toNat - 48
 else if 'A'.toUInt8 ≤ c ∧ c ≤ 'F'.toUInt8 then c.toNat - 65 + 10
 else if 'a'.toUInt8 ≤ c ∧ c ≤ 'f'.toUInt8 then c.toNat - 97 + 10
 else c.toNat
inductive Scan where
 | returned
 | ended (result : Nat) (overflow : Bool) (s : Text)
deriving DecidableEq

/-- The loop of both functions; `next` is the multiplication and the addition. -/
def convert (next : Nat -> Nat -> Option Nat) (base : Nat) (result : Nat) (overflow : Bool) : Text -> Option Scan
 | [] => some (.ended result overflow [])
 | c :: s =>
  if isnumber c base then
   if tonumber c > base then some .returned
   else (next result (tonumber c)).bind (fun new => convert next base new (overflow || decide (result > new)) s)
  else some (.ended result overflow (c :: s))
def unsigned_next (base result value : Nat) : Option Nat := some ((result * base % 2 ^ 32 + value) % 2 ^ 32)

/-- A result beyond a `long int` is undefined; `result` is never negative here. -/
def signed_next (base result value : Nat) : Option Nat :=
 if result * base + value < 2 ^ 31 then some (result * base + value) else none
def skip_zeros (s : Text) : Text := s.dropWhile (· = '0'.toUInt8)
def strtou (s : Text) (base : Nat) : Option (Nat × Option Text) :=
 let s := skip_zeros s
 let s := if s.head? = some 'x'.toUInt8 ∧ base = 16 then skip_zeros s.tail else s
 (convert (unsigned_next base) base 0 false s).map (fun
  | .returned => (0,none)
  | .ended result overflow s => (if overflow then INT_MAX else result,some s))
def read_sign : Text -> Int × Text
 | [] => (1,[])
 | c :: s => if c = '-'.toUInt8 then (-1,s) else if c = '+'.toUInt8 then (1,s) else (1,c :: s)
def strtoi (s : Text) (base : Nat) : Option (Int × Option Text) :=
 let (sign,s) := read_sign s
 (convert (signed_next base) base 0 false (skip_zeros s)).map (fun
  | .returned => (0,none)
  | .ended result overflow s => ((if overflow then INT_MAX else result) * sign,some s))
def IsDecimal (c : UInt8) : Prop := '0'.toUInt8 ≤ c ∧ c ≤ '9'.toUInt8
def IsUpper (c : UInt8) : Prop := 'A'.toUInt8 ≤ c ∧ c ≤ 'F'.toUInt8
def IsLower (c : UInt8) : Prop := 'a'.toUInt8 ≤ c ∧ c ≤ 'f'.toUInt8
instance (c : UInt8) : Decidable (IsDecimal c) := inferInstanceAs (Decidable (_ ∧ _))
instance (c : UInt8) : Decidable (IsUpper c) := inferInstanceAs (Decidable (_ ∧ _))
instance (c : UInt8) : Decidable (IsLower c) := inferInstanceAs (Decidable (_ ∧ _))
inductive Base where
 | ten
 | sixteen
deriving DecidableEq
def Base.number : Base -> Nat
 | .ten => 10
 | .sixteen => 16
def Base.IsDigit : Base -> UInt8 -> Prop
 | .ten, c => IsDecimal c
 | .sixteen, c => IsDecimal c ∨ IsUpper c ∨ IsLower c
def digitValue (c : UInt8) : Nat :=
 if IsDecimal c then c.toNat - 48 else if IsUpper c then c.toNat - 55 else c.toNat - 87
def value (b : Base) (l : Text) : Nat := Nat.ofDigits b.number (l.map digitValue).reverse

/-- Digits, and a text after them that starts with neither a digit nor an `x`. -/
structure Numeral where
 base : Base
 digits : Text
 rest : Text
 any : digits ≠ []
 proper : ∀ c ∈ digits, base.IsDigit c
 ends : ¬base.IsDigit (rest.headD 0)
 noX : rest.headD 0 ≠ 'x'.toUInt8
def Base.Stray : Base -> UInt8 -> Prop
 | .ten, _ => False
 | .sixteen, c => '9'.toUInt8 < c ∧ c < 'A'.toUInt8
def Base.Missed : Base -> UInt8 -> Prop
 | .ten, _ => False
 | .sixteen, c => IsLower c

variable {b : Base} {c : UInt8}
lemma isDecimal_iff : IsDecimal c ↔ 48 ≤ c.toNat ∧ c.toNat ≤ 57 := by
 simp only [IsDecimal,UInt8.le_iff_toNat_le]
 rfl
lemma isUpper_iff : IsUpper c ↔ 65 ≤ c.toNat ∧ c.toNat ≤ 70 := by
 simp only [IsUpper,UInt8.le_iff_toNat_le]
 rfl
lemma isLower_iff : IsLower c ↔ 97 ≤ c.toNat ∧ c.toNat ≤ 102 := by
 simp only [IsLower,UInt8.le_iff_toNat_le]
 rfl
lemma stray_iff : Base.sixteen.Stray c ↔ 57 < c.toNat ∧ c.toNat < 65 := by
 simp only [Base.Stray,UInt8.lt_iff_toNat_lt]
 rfl
lemma isnumber_ten : isnumber c 10 = true ↔ 48 ≤ c.toNat ∧ c.toNat ≤ 57 := by
 simp only [isnumber,Bool.and_eq_true,decide_eq_true_eq,UInt8.le_iff_toNat_le]
 rfl
lemma isnumber_sixteen : isnumber c 16 = true ↔ 48 ≤ c.toNat ∧ c.toNat ≤ 70 := by
 simp only [isnumber,Bool.and_eq_true,decide_eq_true_eq,UInt8.le_iff_toNat_le]
 rfl
lemma isnumber_iff (b : Base) (c : UInt8) :
 isnumber c b.number = true ↔ (b.IsDigit c ∧ ¬b.Missed c) ∨ b.Stray c := by
 cases b with
 | ten =>
  rw [Base.number,isnumber_ten]
  simp [Base.IsDigit,Base.Missed,Base.Stray,isDecimal_iff]
 | sixteen =>
  rw [Base.number,isnumber_sixteen,stray_iff]
  simp only [Base.IsDigit,Base.Missed,isDecimal_iff,isUpper_iff,isLower_iff]
  omega
lemma tonumber_eq (c : UInt8) : tonumber c = if IsDecimal c then c.toNat - 48
  else if IsUpper c then c.toNat - 65 + 10 else if IsLower c then c.toNat - 97 + 10 else c.toNat := rfl
lemma tonumber_digit (digit : b.IsDigit c) : tonumber c = digitValue c := by
 have kinds : IsDecimal c ∨ IsUpper c ∨ IsLower c := by
  cases b with
  | ten => exact .inl digit
  | sixteen => exact digit
 rw [tonumber_eq,digitValue]
 rcases kinds with decimal | upper | lower
 · rw [if_pos decimal,if_pos decimal]
 · have := isUpper_iff.mp upper
   rw [if_neg (by rw [isDecimal_iff]; omega),if_pos upper,if_neg (by rw [isDecimal_iff]; omega),if_pos upper]
   omega
 have := isLower_iff.mp lower
 rw [if_neg (by rw [isDecimal_iff]; omega),if_neg (by rw [isUpper_iff]; omega),if_pos lower,
  if_neg (by rw [isDecimal_iff]; omega),if_neg (by rw [isUpper_iff]; omega)]
 omega
lemma tonumber_le (digit : b.IsDigit c) : tonumber c ≤ b.number := by
 rw [tonumber_digit digit,digitValue]
 cases b with
 | ten =>
  have decimal : IsDecimal c := digit
  rw [if_pos decimal,Base.number]
  have := isDecimal_iff.mp decimal
  omega
 | sixteen =>
  simp only [Base.IsDigit,isDecimal_iff,isUpper_iff,isLower_iff] at digit
  simp only [isDecimal_iff,isUpper_iff,Base.number]
  split
  · omega
  · split <;> omega
lemma tonumber_stray (stray : b.Stray c) : b.number < tonumber c := by
 cases b with
 | ten => exact stray.elim
 | sixteen =>
  have range := stray_iff.mp stray
  rw [tonumber_eq,if_neg (by rw [isDecimal_iff]; omega),if_neg (by rw [isUpper_iff]; omega),if_neg (by rw [isLower_iff]; omega),
   Base.number]
  omega
lemma value_concat (b : Base) (l : Text) (c : UInt8) : value b (l ++ [c]) = value b l * b.number + digitValue c := by
 simp [value,Nat.ofDigits_cons]
 ring
lemma value_le (b : Base) (l m : Text) : value b l ≤ value b (l ++ m) := by
 induction m using reverseRecOn with
 | nil => simp
 | append_singleton m c ih =>
  rw [<- append_assoc,value_concat]
  have pos : 0 < b.number := by
   cases b <;> decide
  nlinarith

section
variable {next : Nat -> Nat -> Option Nat} {result result' : Nat} {overflow overflow' : Bool} {rest : Text}
lemma convert_zero (still : next 0 0 = some 0) (s : Text) :
 convert next b.number 0 overflow ('0'.toUInt8 :: s) = convert next b.number 0 overflow s := by
 have number : isnumber '0'.toUInt8 b.number = true := by
  cases b <;> decide
 have zero : tonumber '0'.toUInt8 = 0 := by
  decide
 rw [convert,if_pos number,zero,if_neg (by omega),still]
 simp
lemma convert_skip (still : next 0 0 = some 0) (s : Text) :
 convert next b.number 0 overflow (skip_zeros s) = convert next b.number 0 overflow s := by
 induction s with
 | nil => rfl
 | cons c s ih =>
  by_cases zero : c = '0'.toUInt8
  · rw [zero,convert_zero still,<- ih,skip_zeros,dropWhile_cons_of_pos (by simp)]
    rfl
  · rw [skip_zeros,dropWhile_cons_of_neg (by simpa using zero)]
lemma convert_ended (l : Text) : ∀ result overflow, (∀ c ∈ l, b.IsDigit c) -> ¬b.IsDigit (rest.headD 0) ->
 convert next b.number result overflow (l ++ rest) = some (.ended result' overflow' rest) ->
 (∀ c ∈ l, ¬b.Missed c) ∧ ¬b.Stray (rest.headD 0) := by
 induction l with
 | nil =>
  intro result overflow _ _ stops
  refine ⟨by simp,fun stray => ?_⟩
  cases rest with
  | nil =>
   have none : ¬b.Stray 0 := by
    cases b with
    | ten => exact id
    | sixteen => exact fun stray => by have := stray_iff.mp stray; simp at this
   exact none stray
  | cons c s =>
   have number : isnumber c b.number = true := (isnumber_iff b c).mpr (.inr stray)
   have large : tonumber c > b.number := tonumber_stray stray
   rw [nil_append,convert,if_pos number,if_pos large] at stops
   cases stops
 | cons c l ih =>
  intro result overflow proper out stops
  rw [cons_append,convert] at stops
  by_cases number : isnumber c b.number = true
  · have digit := proper c (by simp)
    have small := tonumber_le digit
    rw [if_pos number,if_neg (by omega)] at stops
    obtain ⟨new,_,stops⟩ := Option.bind_eq_some_iff.mp stops
    obtain ⟨ran,follows⟩ := ih new _ (fun d mem => proper d (by simp [mem])) out stops
    refine ⟨fun d mem => ?_,follows⟩
    rcases mem_cons.mp mem with rfl | mem
    · rcases (isnumber_iff b d).mp number with plain | stray
      · exact plain.2
      have := tonumber_stray stray
      omega
    · exact ran d mem
  -- the rest would be longer than itself
  rw [if_neg number,Option.some.injEq] at stops
  injection stops with _ _ eq
  have := congrArg List.length eq
  simp at this
  omega

end
def Caught (b : Base) (l m : Text) : Prop :=
 ∃ k < m.length, value b (l ++ m.take (k + 1)) % 2 ^ 32 < value b (l ++ m.take k) % 2 ^ 32
lemma caught_cons (l m : Text) : Caught b l (c :: m) ↔
 value b (l ++ [c]) % 2 ^ 32 < value b l % 2 ^ 32 ∨ Caught b (l ++ [c]) m := by
 constructor
 · rintro ⟨k,mem,smaller⟩
   cases k with
   | zero =>
    left
    simpa using smaller
   | succ k =>
    right
    refine ⟨k,by simpa using mem,?_⟩
    simpa using smaller
 rintro (smaller | ⟨k,mem,smaller⟩)
 · exact ⟨0,by simp,by simpa using smaller⟩
 · exact ⟨k + 1,by simpa using mem,by simpa using smaller⟩
section
variable (next : Nat -> Nat -> Option Nat)
lemma convert_rest {rest : Text} (result : Nat) (overflow : Bool)
 (out : ¬b.IsDigit (rest.headD 0)) (follows : ¬b.Stray (rest.headD 0)) :
 convert next b.number result overflow rest = some (.ended result overflow rest) := by
 cases rest with
 | nil => rfl
 | cons c s =>
  have stops : ¬isnumber c b.number = true := by
   rw [isnumber_iff]
   rintro (digit | stray)
   · exact out digit.1
   · exact follows stray
  rw [convert,if_neg stops]
lemma convert_digit (result : Nat) (overflow : Bool) (s : Text) (digit : b.IsDigit c)
 (ran : ¬b.Missed c) : convert next b.number result overflow (c :: s) = (next result (digitValue c)).bind
  (fun new => convert next b.number new (overflow || decide (result > new)) s) := by
 have number : isnumber c b.number = true := (isnumber_iff b c).mpr (.inl ⟨digit,ran⟩)
 have small := tonumber_le digit
 rw [convert,if_pos number,if_neg (by omega),tonumber_digit digit]
end
lemma convert_unsigned {rest : Text} (out : ¬b.IsDigit (rest.headD 0)) (follows : ¬b.Stray (rest.headD 0))
 (m : Text) : ∀ l overflow, (∀ c ∈ m, b.IsDigit c) -> (∀ c ∈ m, ¬b.Missed c) ->
 ∃ overflow', convert (unsigned_next b.number) b.number (value b l % 2 ^ 32) overflow (m ++ rest) =
   some (.ended (value b (l ++ m) % 2 ^ 32) overflow' rest) ∧
  (overflow' = true ↔ overflow = true ∨ Caught b l m) := by
 induction m with
 | nil =>
  intro l overflow _ _
  refine ⟨overflow,?_,by simp [Caught]⟩
  rw [nil_append,append_nil]
  exact convert_rest _ _ _ out follows
 | cons c m ih =>
  intro l overflow proper ran
  have new : (value b l % 2 ^ 32 * b.number % 2 ^ 32 + digitValue c) % 2 ^ 32 = value b (l ++ [c]) % 2 ^ 32 := by
   rw [value_concat]
   conv_rhs => rw [Nat.add_mod,Nat.mul_mod]
   conv_lhs => rw [Nat.add_mod,Nat.mul_mod]
   simp
  obtain ⟨overflow',executed,caught⟩ := ih (l ++ [c])
   (overflow || decide (value b l % 2 ^ 32 > value b (l ++ [c]) % 2 ^ 32))
   (fun d mem => proper d (by simp [mem])) (fun d mem => ran d (by simp [mem]))
  refine ⟨overflow',?_,?_⟩
  · rw [cons_append,convert_digit _ _ _ _ (proper c (by simp)) (ran c (by simp)),unsigned_next,new,
     Option.bind_some,executed,append_assoc,singleton_append]
  · rw [caught,caught_cons,Bool.or_eq_true,decide_eq_true_eq,or_assoc]
lemma convert_signed {rest : Text} (out : ¬b.IsDigit (rest.headD 0)) (follows : ¬b.Stray (rest.headD 0))
 (m : Text) : ∀ l, value b l < 2 ^ 31 -> (∀ c ∈ m, b.IsDigit c) -> (∀ c ∈ m, ¬b.Missed c) ->
 convert (signed_next b.number) b.number (value b l) false (m ++ rest) =
  if value b (l ++ m) < 2 ^ 31 then some (.ended (value b (l ++ m)) false rest) else none := by
 induction m with
 | nil =>
  intro l fits _ _
  rw [nil_append,append_nil,if_pos fits]
  exact convert_rest _ _ _ out follows
 | cons c m ih =>
  intro l fits proper ran
  rw [cons_append,convert_digit _ _ _ _ (proper c (by simp)) (ran c (by simp)),signed_next,<- value_concat]
  have grows := value_le b l [c]
  by_cases next : value b (l ++ [c]) < 2 ^ 31
  · rw [if_pos next,Option.bind_some,decide_eq_false (by omega),Bool.or_false,
     ih _ next (fun d mem => proper d (by simp [mem])) (fun d mem => ran d (by simp [mem])),
     append_assoc,singleton_append]
  have more := value_le b (l ++ [c]) m
  rw [append_assoc,singleton_append] at more
  rw [if_neg next,if_neg (by omega)]
  rfl

namespace Numeral
variable (n : Numeral)
def value : Nat := NumberParsing.value n.base n.digits

/-- What `strtou` should return: the value, or `INT_MAX` when it does not fit, and the text behind the digits. -/
def StrtouRight : Prop :=
 strtou (n.digits ++ n.rest) n.base.number = some (if n.value < 2 ^ 32 then n.value else INT_MAX,some n.rest)

section
variable (sign : Option Bool)
def signed : Text :=
 match sign with
 | none => n.digits ++ n.rest
 | some false => '+'.toUInt8 :: (n.digits ++ n.rest)
 | some true => '-'.toUInt8 :: (n.digits ++ n.rest)
def signOf : Int := if sign = some true then -1 else 1
def StrtoiRight : Prop :=
 strtoi (n.signed sign) n.base.number =
  some (signOf sign * (if n.value < 2 ^ 31 then n.value else INT_MAX : Nat),some n.rest)
end

/-- A hexadecimal numeral has no lower case letters and is not followed by a character between `9` and `A`. -/
def Plain : Prop := (∀ c ∈ n.digits, ¬n.base.Missed c) ∧ ¬n.base.Stray (n.rest.headD 0)

end Numeral
lemma skip_head {rest : Text} (out : ¬b.IsDigit (rest.headD 0)) (noX : rest.headD 0 ≠ 'x'.toUInt8) (l : Text)
 (proper : ∀ c ∈ l, b.IsDigit c) : (skip_zeros (l ++ rest)).head? ≠ some 'x'.toUInt8 := by
 induction l with
 | nil =>
  cases rest with
  | nil => simp [skip_zeros]
  | cons c s =>
   have zero : b.IsDigit '0'.toUInt8 := by
    cases b with
    | ten => exact isDecimal_iff.mpr (by decide)
    | sixteen => exact .inl (isDecimal_iff.mpr (by decide))
   have ne : c ≠ '0'.toUInt8 := fun eq => out (eq ▸ zero)
   rw [nil_append,skip_zeros,dropWhile_cons_of_neg (by simpa using ne)]
   simpa using noX
 | cons c l ih =>
  by_cases zero : c = '0'.toUInt8
  · rw [cons_append,skip_zeros,dropWhile_cons_of_pos (by simp [zero])]
    exact ih fun d mem => proper d (by simp [mem])
  rw [cons_append,skip_zeros,dropWhile_cons_of_neg (by simpa using zero),head?_cons]
  rintro ⟨⟩
  have digit := proper 'x'.toUInt8 (by simp)
  have number : ¬b.IsDigit 'x'.toUInt8 := by
   cases b with
   | ten => exact fun decimal => absurd (isDecimal_iff.mp decimal) (by decide)
   | sixteen =>
    rintro (decimal | upper | lower)
    · exact absurd (isDecimal_iff.mp decimal) (by decide)
    · exact absurd (isUpper_iff.mp upper) (by decide)
    · exact absurd (isLower_iff.mp lower) (by decide)
  exact number digit
lemma digit_no_sign (digit : b.IsDigit c) : c ≠ '-'.toUInt8 ∧ c ≠ '+'.toUInt8 := by
 have least : 48 ≤ c.toNat := by
  cases b with
  | ten => exact (isDecimal_iff.mp digit).1
  | sixteen =>
   simp only [Base.IsDigit,isDecimal_iff,isUpper_iff,isLower_iff] at digit
   omega
 constructor
 · rintro rfl
   exact absurd least (by decide)
 rintro rfl
 exact absurd least (by decide)
section
variable (n : Numeral)
lemma strtou_eq : strtou (n.digits ++ n.rest) n.base.number =
 (convert (unsigned_next n.base.number) n.base.number 0 false (n.digits ++ n.rest)).map (fun
  | .returned => (0,none)
  | .ended result overflow s => (if overflow then INT_MAX else result,some s)) := by
 have noX := skip_head n.ends n.noX n.digits n.proper
 simp only [strtou]
 rw [if_neg (fun both => noX both.1),convert_skip (by simp [unsigned_next])]
lemma strtoi_eq (sign : Option Bool) : strtoi (n.signed sign) n.base.number =
 (convert (signed_next n.base.number) n.base.number 0 false (n.digits ++ n.rest)).map (fun
  | .returned => (0,none)
  | .ended result overflow s => ((if overflow then INT_MAX else result) * Numeral.signOf sign,some s)) := by
 have signs : read_sign (n.signed sign) = (Numeral.signOf sign,n.digits ++ n.rest) := by
  match sign with
  | some false => rfl
  | some true => rfl
  | none =>
   obtain ⟨c,l,fst⟩ := exists_cons_of_ne_nil n.any
   obtain ⟨minus,plus⟩ := digit_no_sign (n.proper c (by simp [fst]))
   simp only [Numeral.signed,fst,cons_append]
   rw [read_sign,if_neg minus,if_neg plus]
   rfl
 simp only [strtoi,signs]
 rw [convert_skip (by simp [signed_next])]
lemma plain_of_stops {next : Nat -> Nat -> Option Nat} {α : Type} {result : α} {f : Nat -> Bool -> α}
 {zero : α} (stops : (convert next n.base.number 0 false (n.digits ++ n.rest)).map (fun
  | .returned => (zero,none)
  | .ended result overflow s => (f result overflow,some s)) = some (result,some n.rest)) : n.Plain := by
 obtain ⟨scan,executed,eq⟩ := Option.map_eq_some_iff.mp stops
 cases scan with
 | returned => cases (Prod.mk.inj eq).2
 | ended r o s =>
  obtain rfl : s = n.rest := Option.some.inj (Prod.mk.inj eq).2
  exact convert_ended n.digits 0 false n.proper n.ends executed
lemma not_caught {m : Text} (fits : value b m < 2 ^ 32) : ¬Caught b [] m := by
 rintro ⟨k,mem,smaller⟩
 rw [nil_append,nil_append] at smaller
 have step : m.take (k + 1) = m.take k ++ [m[k]] := (take_append_getElem mem).symm
 have fst := value_le b (m.take k) [m[k]]
 have snd := value_le b (m.take (k + 1)) (m.drop (k + 1))
 rw [take_append_drop] at snd
 rw [<- step] at fst
 rw [Nat.mod_eq_of_lt (by omega),Nat.mod_eq_of_lt (by omega)] at smaller
 omega
lemma strtou_right_iff : n.StrtouRight ↔
 n.Plain ∧ (n.value < 2 ^ 32 ∨ Caught n.base [] n.digits ∨ n.value % 2 ^ 32 = INT_MAX) := by
 rw [Numeral.StrtouRight,strtou_eq]
 have equation : n.Plain -> ∃ overflow', convert (unsigned_next n.base.number) n.base.number 0 false (n.digits ++ n.rest) =
   some (.ended (n.value % 2 ^ 32) overflow' n.rest) ∧ (overflow' = true ↔ Caught n.base [] n.digits) := by
  intro plain
  obtain ⟨overflow',executed,caught⟩ := convert_unsigned n.ends plain.2 n.digits [] false n.proper plain.1
  exact ⟨overflow',executed,by simpa using caught⟩
 constructor
 · intro stops
   have plain := plain_of_stops n stops
   obtain ⟨overflow',executed,caught⟩ := equation plain
   rw [executed] at stops
   have eq := (Prod.mk.inj (Option.some.inj stops)).1
   refine ⟨plain,?_⟩
   by_cases fits : n.value < 2 ^ 32
   · exact .inl fits
   rw [if_neg fits] at eq
   by_cases flag : overflow' = true
   · exact .inr (.inl (caught.mp flag))
   rw [if_neg flag] at eq
   exact .inr (.inr eq)
 rintro ⟨plain,reason⟩
 obtain ⟨overflow',executed,caught⟩ := equation plain
 rw [executed,Option.map_some]
 by_cases fits : n.value < 2 ^ 32
 · have quiet : ¬overflow' = true := fun flag => not_caught fits (caught.mp flag)
   simp only [if_pos fits,if_neg quiet,Nat.mod_eq_of_lt fits]
 simp only [if_neg fits]
 by_cases flag : overflow' = true
 · simp only [if_pos flag]
 have rest : n.value % 2 ^ 32 = INT_MAX := by
  rcases reason with small | smaller | eq
  · exact absurd small fits
  · exact absurd (caught.mpr smaller) flag
  · exact eq
 simp only [if_neg flag,rest]
lemma strtoi_right_iff (sign : Option Bool) : n.StrtoiRight sign ↔ n.Plain ∧ n.value < 2 ^ 31 := by
 rw [Numeral.StrtoiRight,strtoi_eq]
 have equation : n.Plain -> convert (signed_next n.base.number) n.base.number 0 false (n.digits ++ n.rest) =
   if n.value < 2 ^ 31 then some (.ended n.value false n.rest) else none :=
  fun plain => convert_signed n.ends plain.2 n.digits [] (by simp [value]) n.proper plain.1
 constructor
 · intro stops
   have plain := plain_of_stops n (f := fun result overflow =>
    ((if overflow then INT_MAX else result : Nat) : Int) * Numeral.signOf sign) stops
   refine ⟨plain,?_⟩
   by_contra large
   rw [equation plain,if_neg large] at stops
   cases stops
 rintro ⟨plain,fits⟩
 rw [equation plain,if_pos fits,if_pos fits]
 simp [mul_comm]

/-- For every numeral and every sign: when `strtou` and `strtoi` return its value, or `INT_MAX` when it does
  not fit, and point behind its last digit. -/
theorem parse_iff :
 (n.StrtouRight ↔
  n.Plain ∧ (n.value < 2 ^ 32 ∨ Caught n.base [] n.digits ∨ n.value % 2 ^ 32 = INT_MAX)) ∧
 ∀ sign, n.StrtoiRight sign ↔ n.Plain ∧ n.value < 2 ^ 31 :=
 ⟨strtou_right_iff n,strtoi_right_iff n⟩
end
instance : DecidablePred b.IsDigit := fun c => by cases b <;> unfold Base.IsDigit <;> infer_instance
theorem numerals_misread :
 ¬ Numeral.StrtouRight ⟨.ten,"5000000000".toList.map Char.toUInt8,[],by simp,by decide +kernel,by decide +kernel,by decide⟩ ∧
 ¬ Numeral.StrtouRight ⟨.sixteen,"ff".toList.map Char.toUInt8,[],by simp,by decide +kernel,by decide +kernel,by decide⟩ ∧
 ¬ Numeral.StrtoiRight ⟨.sixteen,"1F".toList.map Char.toUInt8,[':'.toUInt8],by simp,by decide +kernel,by decide +kernel,by decide⟩ none := by
 simp only [Numeral.StrtouRight,Numeral.StrtoiRight]
 decide +kernel

end Netbas.NumberParsing
