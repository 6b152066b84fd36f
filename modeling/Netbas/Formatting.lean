import Netbas.Runs
import Netbas.Arguments

/-!
Formatted output (`snprintf.c`, `kprintf.c`). `do_printf` is a machine that takes the format
character by character (`advance`) and passes on `maxbytes` characters at most (`puts`).
`bounded_iff` says when it stays inside the buffer and the format.
-/
namespace Netbas.Formatting
open Runs List Option
abbrev Text := List UInt8
def PR_BUFLEN : Nat := 16
structure Flags where
 PR_LJ : Bool
 PR_CA : Bool
 PR_SG : Bool
 PR_32 : Bool
 PR_16 : Bool
 PR_WS : Bool
 PR_LZ : Bool
 PR_FP : Bool
deriving DecidableEq
def Flags.none : Flags := ⟨false,false,false,false,false,false,false,false⟩
inductive Arg where
 | word (w : BitVec 32)
 | string (s : Arguments.CString)
inductive State where
 | percent
 | flags
 | width
 | modifier
deriving DecidableEq

/-- The variables of the loop. After a `fmt++` inside the loop, the next character is taken without the test
  that it is not the end (`unchecked`). -/
structure Printer where
 state : State
 unchecked : Bool
 flags : Flags
 given_wd : Nat
 args : List Arg
def start (args : List Arg) : Printer :=
 {state := .percent, unchecked := false, flags := .none, given_wd := 0, args := args}

section
variable (flags : Flags)
def digit (temp : Nat) : UInt8 :=
 if temp < 10 then UInt8.ofNat (temp + 48)
 else if flags.PR_CA then UInt8.ofNat (temp - 10 + 65)
 else UInt8.ofNat (temp - 10 + 97)

/-- The loop that fills `buf` from its end, over the places before `where`. The quotient is one of 32 bits. -/
def fill_digits (flags : Flags) (radix : Nat) : Nat -> Nat -> Text -> Option Text
 | 0, _, _ => none
 | places + 1, num, text =>
  let text := digit flags (num % radix) :: text
  let num := num % 2 ^ 32 / radix
  if num ≠ 0 then fill_digits flags radix places num text else some text
def extended (z : Int) : Nat := (z % 2 ^ 64).toNat
def load (w : BitVec 32) : Nat :=
 if flags.PR_32 then w.toNat
 else if flags.PR_16 then
  if flags.PR_SG then extended (w.setWidth 16).toInt else (w.setWidth 16).toNat
 else if flags.PR_SG then extended w.toInt
 else w.toNat
def emit2 (given_wd actual_wd : Nat) (text : Text) : Text :=
 let left := if flags.PR_LJ then 0 else given_wd - actual_wd
 let given_wd := given_wd - left
 let sign : Text := if flags.PR_WS && !flags.PR_LZ then ['-'.toUInt8] else []
 let given_wd := if given_wd < actual_wd then 0 else given_wd - actual_wd
 replicate left (if flags.PR_LZ then '0'.toUInt8 else ' '.toUInt8) ++ sign ++ text ++
  replicate given_wd ' '.toUInt8
def emit (given_wd : Nat) (text : Text) : Text :=
 let actual_wd := if flags.PR_WS then text.length + 1 else text.length
 let sign : Text := if flags.PR_WS && flags.PR_LZ then ['-'.toUInt8] else []
 sign ++ emit2 flags given_wd actual_wd text
end

section
variable (p : Printer)
/-- From `DO_NUM` on. `num` is unsigned, as in the source. -/
def do_num (flags : Flags) (radix : Nat) : Option (Printer × Text) :=
 match p.args with
 | .word w :: args =>
  let num := load flags w
  let (flags,num) :=
   if flags.PR_SG then
    if num < 0 then ({flags with PR_WS := true},2 ^ 64 - num) else (flags,num)
   else (flags,num)
  (fill_digits flags radix (PR_BUFLEN - 1) num []).map (fun text => (start args,emit flags p.given_wd text))
 | _ => none
def do_char : Option (Printer × Text) :=
 match p.args with
 | .word w :: args =>
  let c := UInt8.ofBitVec (w.setWidth 8)
  some (start args,emit2 {p.flags with PR_LZ := false} p.given_wd 1 (if c = 0 then [] else [c]))
 | _ => none
def do_string : Option (Printer × Text) :=
 match p.args with
 | .string s :: args => some (start args,emit {p.flags with PR_LZ := false} p.given_wd s.val)
 | _ => none

section
variable (c : UInt8)
def conversion : Option (Printer × Text) :=
 if c = 'X'.toUInt8 then do_num p {p.flags with PR_CA := true} 16
 else if c = 'x'.toUInt8 ∨ c = 'p'.toUInt8 ∨ c = 'n'.toUInt8 then do_num p p.flags 16
 else if c = 'd'.toUInt8 ∨ c = 'i'.toUInt8 then do_num p {p.flags with PR_SG := true} 10
 else if c = 'u'.toUInt8 then do_num p p.flags 10
 else if c = 'o'.toUInt8 then do_num p p.flags 8
 else if c = 'c'.toUInt8 then do_char p
 else if c = 's'.toUInt8 then do_string p
 else some (start p.args,[])
def await_modifier : Option (Printer × Text) :=
 let next (flags : Flags) : Printer := {p with state := .modifier, unchecked := false, flags := flags}
 if c = 'F'.toUInt8 then some (next {p.flags with PR_FP := true},[])
 else if c = 'N'.toUInt8 then some (next p.flags,[])
 else if c = 'l'.toUInt8 then some (next {p.flags with PR_32 := true},[])
 else if c = 'h'.toUInt8 then some (next {p.flags with PR_16 := true},[])
 else conversion p c
def await_width : Option (Printer × Text) :=
 if '0'.toUInt8 ≤ c ∧ c ≤ '9'.toUInt8 then
  some ({p with state := .width, unchecked := false, given_wd := (10 * p.given_wd + (c.toNat - 48)) % 2 ^ 32},[])
 else await_modifier p c
def await_flags : Option (Printer × Text) :=
 if c = '%'.toUInt8 then some (start p.args,[c])
 else if c = '-'.toUInt8 then
  if p.flags.PR_LJ then some (start p.args,[])
  else some ({p with state := .flags, unchecked := false, flags := {p.flags with PR_LJ := true}},[])
 else if c = '0'.toUInt8 then
  some ({p with state := .width, unchecked := true, flags := {p.flags with PR_LZ := true}},[])
 else await_width p c
def advance : Option (Printer × Text) :=
 match p.state with
 | .percent =>
  if c ≠ '%'.toUInt8 then some (p,[c]) else some ({p with state := .flags, unchecked := true},[])
 | .flags => await_flags p c
 | .width => await_width p c
 | .modifier => await_modifier p c
end
end

/-- Each character is passed on while fewer than `maxbytes` have been; otherwise `do_printf` returns. -/
def puts (limit : Nat) (out : Text) : Text -> Except Text Text
 | [] => .ok out
 | c :: rest => if out.length < limit then puts limit (out ++ [c]) rest else .error out

/-- At the end of the format, a character that is taken unchecked is the NUL; it leads back to state 0, and the
  loop goes on behind it. -/
def print_loop (limit : Nat) (p : Printer) (out : Text) : Text -> Option Text
 | [] => if p.unchecked then none else some out
 | c :: fmt =>
  (advance p c).bind (fun (p,text) =>
   match puts limit out text with
   | .error out => some out
   | .ok out => print_loop limit p out fmt)

/-- What is passed to `fn`; the number of characters is returned. `count < maxbytes` is an unsigned comparison. -/
def do_printf (fmt : Text) (args : List Arg) (maxbytes : BitVec 32) : Option Text :=
 print_loop maxbytes.toNat (start args) [] fmt
def stores (out : Text) : List (Int × UInt8) := out.zipIdx.map (fun (c,i) => ((i : Int),c))
def vsprintf (max : BitVec 32) (fmt : Text) (args : List Arg) : Option (List (Int × UInt8) × Int) :=
 (do_printf fmt args max).map (fun out =>
  let rv := (BitVec.ofNat 32 out.length).toInt
  (stores out ++ [(rv,0)],rv))
def snprintf (len : BitVec 32) (fmt : Text) (args : List Arg) : Option (List (Int × UInt8) × Int) := vsprintf len fmt args
structure proc_entry where
 read_buffer : Bool
 read_size : Int
 read_pos : Int
 stored : List Int
def pprintf (pf : proc_entry) (fmt : Text) (args : List Arg) : Option (proc_entry × Int) :=
 if pf.read_buffer = false then some (pf,0)
 else
  let left := pf.read_size - pf.read_pos
  (vsprintf (BitVec.ofInt 32 left) fmt args).map (fun (new,rv) =>
   ({ pf with
    read_pos := pf.read_pos + rv
    stored := pf.stored ++ new.map (fun s => pf.read_pos + s.1) },rv))
def run : Printer -> Text -> Option (Printer × Text)
 | p, [] => some (p,[])
 | p, c :: fmt => (advance p c).bind (fun (p,text) => (run p fmt).map (fun (p',rest) => (p',text ++ rest)))
lemma run_append (fst : Text) : ∀ (p : Printer) (snd : Text), run p (fst ++ snd) =
 (run p fst).bind (fun (p,text) => (run p snd).map (fun (p',rest) => (p',text ++ rest))) := by
 induction fst with
 | nil =>
  intro p snd
  simp only [nil_append,run,bind_some]
  cases run p snd <;> rfl
 | cons c fst ih =>
  intro p snd
  simp only [cons_append,run]
  cases advance p c with
  | none => rfl
  | some r =>
   simp only [bind_some,ih]
   cases run r.1 fst with
   | none => rfl
   | some r' =>
    simp only [bind_some,map_some]
    cases run r'.1 snd <;> simp [append_assoc]
lemma puts_eq {limit : Nat} (text : Text) : ∀ out : Text, out.length ≤ limit ->
 puts limit out text = if out.length + text.length ≤ limit then .ok (out ++ text) else .error ((out ++ text).take limit) := by
 induction text with
 | nil =>
  intro out le
  rw [puts,length_nil,Nat.add_zero,if_pos le,append_nil]
 | cons c text ih =>
  intro out le
  rw [puts]
  by_cases room : out.length < limit
  · have size : (out ++ [c]).length = out.length + 1 := length_append
    rw [if_pos room,ih _ (by omega),size,append_assoc,singleton_append,length_cons,Nat.add_assoc,
     Nat.add_comm 1]
  rw [if_neg room,if_neg (by rw [length_cons]; omega),take_append_of_le_length (by omega),
   take_of_length_le le]
lemma loop_eq {limit : Nat} (fmt : Text) : ∀ (p p' : Printer) (out text : Text), run p fmt = some (p',text) ->
 out.length ≤ limit -> print_loop limit p out fmt =
  if out.length + text.length ≤ limit then if p'.unchecked then none else some (out ++ text)
  else some ((out ++ text).take limit) := by
 induction fmt with
 | nil =>
  intro p p' out text ran le
  cases ran
  rw [print_loop,length_nil,Nat.add_zero,if_pos le,append_nil]
 | cons c fmt ih =>
  intro p p' out text ran le
  obtain ⟨⟨q,fst⟩,moved,ran⟩ := bind_eq_some_iff.mp ran
  obtain ⟨⟨q',rest⟩,later,eq⟩ := map_eq_some_iff.mp ran
  obtain ⟨rfl,rfl⟩ := Prod.mk.inj eq
  rw [print_loop,moved,bind_some]
  simp only [puts_eq fst out le]
  by_cases room : out.length + fst.length ≤ limit
  · rw [if_pos room]
    simp only [ih q q' (out ++ fst) rest later (by rw [length_append]; exact room),length_append,
     append_assoc,Nat.add_assoc]
  rw [if_neg room,if_neg (by rw [length_append]; omega)]
  simp only [<- append_assoc]
  have first' : limit ≤ (out ++ fst).length := by
   rw [length_append]
   omega
  rw [take_append_of_le_length first']
structure Format where
 fmt : Text
 args : List Arg
 nonzero : 0 ∉ fmt
 matching : (run (start args) fmt).isSome

namespace Format
variable (f : Format)
def output : Text := ((run (start f.args) f.fmt).get f.matching).2

/-- The format ends where a character is taken unchecked: behind a `%`, or behind the `0` of a `%0`. -/
def Dangling : Prop := ((run (start f.args) f.fmt).get f.matching).1.unchecked = true
instance : Decidable f.Dangling := inferInstanceAs (Decidable (_ = true))
lemma do_printf_eq (maxbytes : BitVec 32) : do_printf f.fmt f.args maxbytes =
 if f.output.length ≤ maxbytes.toNat then if f.Dangling then none else some f.output
 else some (f.output.take maxbytes.toNat) := by
 have ran : run (start f.args) f.fmt = some (((run (start f.args) f.fmt).get f.matching).1,f.output) := by
  simp [output]
 rw [do_printf,loop_eq f.fmt _ _ [] _ ran (by simp)]
 simp only [length_nil,Nat.zero_add,nil_append]
 rfl

end Format

variable {max : BitVec 32} {out : Text}
lemma vsprintf_eq {f : Format} (text : do_printf f.fmt f.args max = some out) :
 vsprintf max f.fmt f.args = some (stores out ++ [((BitVec.ofNat 32 out.length).toInt,0)],
  (BitVec.ofNat 32 out.length).toInt) := by
 rw [vsprintf,text]
 rfl
lemma stores_mem {s : Int × UInt8} (mem : s ∈ stores out) : 0 ≤ s.1 ∧ s.1 < out.length := by
 obtain ⟨⟨c,i⟩,inside,rfl⟩ := mem_map.mp mem
 have := snd_lt_of_mem_zipIdx inside
 simp only
 omega
lemma printed_full {f : Format} (text : do_printf f.fmt f.args max = some out)
 (full : f.Dangling ∨ max.toNat ≤ f.output.length) : out.length = max.toNat := by
 rw [f.do_printf_eq] at text
 by_cases room : f.output.length ≤ max.toNat
 · rw [if_pos room] at text
   by_cases dangling : f.Dangling
   · rw [if_pos dangling] at text
     cases text
   rw [if_neg dangling,some.injEq] at text
   rcases full with dangling' | full
   · exact absurd dangling' dangling
   rw [<- text]
   omega
 rw [if_neg room,some.injEq] at text
 rw [<- text,length_take]
 omega
lemma printed_all {f : Format} (whole : ¬f.Dangling) (room : f.output.length ≤ max.toNat) :
 do_printf f.fmt f.args max = some f.output := by
 rw [f.do_printf_eq,if_pos room,if_neg whole]

/-- The format is read up to its NUL, the stores are inside `len` bytes and the last one is a NUL. -/
def SnprintfRight (len : BitVec 32) (f : Format) : Prop :=
 ∃ stored rv, snprintf len f.fmt f.args = some (stored,rv) ∧ (∀ s ∈ stored, 0 ≤ s.1 ∧ s.1 < len.toNat) ∧
  ∃ pre i, stored = pre ++ [(i,0)]
lemma toInt_count {n : Nat} (count : n < 2 ^ 32) :
 (BitVec.ofNat 32 n).toInt = if n < 2 ^ 31 then (n : Int) else n - 2 ^ 32 := by
 rw [BitVec.toInt_eq_toNat_cond,BitVec.toNat_ofNat,Nat.mod_eq_of_lt count]
 split <;> split <;> omega
lemma toInt_small {n : Nat} (lt : n < 2 ^ 31) : (BitVec.ofNat 32 n).toInt = n := by
 rw [toInt_count (by omega),if_pos lt]
lemma snprintf_iff (len : BitVec 32) (f : Format) :
 SnprintfRight len f ↔ ¬f.Dangling ∧ f.output.length < len.toNat ∧ f.output.length < 2 ^ 31 := by
 constructor
 · rintro ⟨stored,rv,returned,inside,_⟩
   rw [snprintf] at returned
   obtain ⟨out,text,eq⟩ := map_eq_some_iff.mp returned
   obtain ⟨rfl,rfl⟩ := Prod.mk.inj eq
   have last := inside _ (mem_append_right _ (mem_singleton_self _))
   have le := len.isLt
   by_cases fits : ¬f.Dangling ∧ f.output.length < len.toNat
   · rw [printed_all fits.1 fits.2.le,some.injEq] at text
     rw [<- text,toInt_count (by omega)] at last
     refine ⟨fits.1,fits.2,?_⟩
     by_contra large
     rw [if_neg large] at last
     omega
   have full := printed_full text (by
    rw [not_and_or,not_not,not_lt] at fits
    exact fits)
   rw [full,toInt_count le] at last
   split at last <;> omega
 rintro ⟨whole,room,lt⟩
 refine ⟨_,_,vsprintf_eq (printed_all whole room.le),fun s mem => ?_,_,_,by rw [toInt_small lt]⟩
 rcases mem_append.mp mem with char | last
 · have := stores_mem char
   omega
 rw [mem_singleton.mp last,toInt_small lt]
 omega

section
variable (pf : proc_entry)
def step (f : Format) : Option proc_entry := (pprintf pf f.fmt f.args).map Prod.fst
def Inside : Prop := ∀ i ∈ pf.stored, 0 ≤ i ∧ i < pf.read_size
def Defined (f : Format) : Prop := (pprintf pf f.fmt f.args).isSome
def Room (f : Format) : Prop :=
 pf.read_buffer = true -> ¬f.Dangling ∧ (f.output.length : Int) < pf.read_size - pf.read_pos
end
def opened (buffer : Bool) (size : Fin (2 ^ 31)) : proc_entry :=
 {read_buffer := buffer, read_size := size.val, read_pos := 0, stored := []}
structure Good (pf : proc_entry) : Prop where
 low : 0 ≤ pf.read_pos
 high : pf.read_pos ≤ pf.read_size
 small : pf.read_size < 2 ^ 31
 inside : Inside pf

variable {pf pf' : proc_entry} {f : Format}
lemma left_toNat (good : Good pf) :
 ((BitVec.ofInt 32 (pf.read_size - pf.read_pos)).toNat : Int) = pf.read_size - pf.read_pos := by
 obtain ⟨low,high,lt,_⟩ := good
 rw [BitVec.toNat_ofInt]
 omega
lemma pprintf_none (f : Format) (closed : pf.read_buffer = false) : pprintf pf f.fmt f.args = some (pf,0) := if_pos closed
lemma pprintf_printed (good : Good pf) (buffer : pf.read_buffer = true)
  (text : do_printf f.fmt f.args (BitVec.ofInt 32 (pf.read_size - pf.read_pos)) = some out)
  (le : (out.length : Int) ≤ pf.read_size - pf.read_pos) :
  pprintf pf f.fmt f.args = some ({ pf with
   read_pos := pf.read_pos + out.length
   stored := pf.stored ++ (stores out ++ [((out.length : Int),0)]).map (fun s : Int × UInt8 => pf.read_pos + s.1) },
   (out.length : Int)) := by
 have lt : (BitVec.ofNat 32 out.length).toInt = out.length := by
  have := good.small
  have := good.low
  exact toInt_small (by omega)
 rw [pprintf,if_neg (by simp [buffer])]
 simp only [vsprintf_eq text,lt,map_some]
lemma room_step (good : Good pf) (room : Room pf f) : ∃ pf', step pf f = some pf' ∧ Good pf' := by
 obtain ⟨low,high,lt,inside⟩ := good
 cases buffer : pf.read_buffer with
 | false => exact ⟨pf,by rw [step,pprintf_none f buffer]; rfl,⟨low,high,lt,inside⟩⟩
 | true =>
  obtain ⟨whole,le⟩ := room buffer
  have limit := left_toNat ⟨low,high,lt,inside⟩
  have text : do_printf f.fmt f.args (BitVec.ofInt 32 (pf.read_size - pf.read_pos)) = some f.output :=
   printed_all whole (by omega)
  refine ⟨_,by rw [step,pprintf_printed ⟨low,high,lt,inside⟩ buffer text (by omega)]; rfl,?_⟩
  refine ⟨by simp only; omega,by simp only; omega,lt,fun i mem => ?_⟩
  simp only at mem ⊢
  rcases mem_append.mp mem with old | new
  · exact inside i old
  obtain ⟨s,stored,rfl⟩ := mem_map.mp new
  rcases mem_append.mp stored with char | last
  · have := stores_mem char
    omega
  rw [mem_singleton.mp last]
  simp only
  omega
lemma full_step (good : Good pf) (full : ¬Room pf f) (defined : Defined pf f) : ∃ pf', step pf f = some pf' ∧ ¬Inside pf' := by
 rw [Room,Classical.not_imp] at full
 obtain ⟨buffer,full⟩ := full
 have limit := left_toNat good
 have eq : ∃ out, do_printf f.fmt f.args (BitVec.ofInt 32 (pf.read_size - pf.read_pos)) = some out := by
  rw [Defined,pprintf,if_neg (by simp [buffer])] at defined
  rw [isSome_map,vsprintf,isSome_map] at defined
  exact isSome_iff_exists.mp defined
 obtain ⟨out,text⟩ := eq
 have length := printed_full text (by
  by_cases dangling : f.Dangling
  · exact .inl dangling
  right
  by_contra le
  exact full ⟨dangling,by omega⟩)
 refine ⟨_,by rw [step,pprintf_printed good buffer text (by omega)]; rfl,fun mem => ?_⟩
 have last := mem (pf.read_pos + out.length) (mem_append_right _ (mem_map.mpr
  ⟨((out.length : Int),0),mem_append_right _ (mem_singleton_self _),rfl⟩))
 simp only at last
 omega
theorem bounded_iff (len : BitVec 32) (f : Format) (buffer : Bool) (size : Fin (2 ^ 31)) (formats : List Format) :
 (SnprintfRight len f ↔ ¬f.Dangling ∧ f.output.length < len.toNat ∧ f.output.length < 2 ^ 31) ∧
 (Along step Inside Defined (opened buffer size) formats ↔ Meets step Room (opened buffer size) formats) := by
 refine ⟨snprintf_iff len f,along_iff (I := Good) (fun _ good => good.inside) ?_ ?_ ?_ formats _ ?_⟩
 · intro pf f good room
   obtain ⟨pf',moved,_⟩ := room_step good room
   obtain ⟨r,returned,_⟩ := map_eq_some_iff.mp moved
   exact isSome_of_eq_some returned
 · intro pf f pf' good room moved
   obtain ⟨pf'',moved',good'⟩ := room_step good room
   rw [moved] at moved'
   cases moved'
   exact good'
 · exact fun pf f good full defined => full_step good full defined
 have := size.isLt
 refine ⟨le_rfl,?_,?_,by simp [Inside,opened]⟩
 · simp only [opened]
   omega
 simp only [opened]
 omega
theorem terminator_overruns :
 ¬ SnprintfRight 3 ⟨[97,98,99],[],by decide,by decide⟩ ∧ ¬ SnprintfRight 8 ⟨['%'.toUInt8],[],by decide,by decide⟩ := by
 refine ⟨?_,?_⟩
 · rintro ⟨_,_,stores,inside,_⟩
   have full : snprintf 3 [97,98,99] [] = some ([(0,97),(1,98),(2,99),(3,0)],3) := by decide
   cases full.symm.trans stores
   exact absurd (inside (3,0) (by decide)) (by decide)
 · rintro ⟨_,_,stores,_⟩
   have none : snprintf 8 ['%'.toUInt8] [] = none := by decide
   cases none.symm.trans stores

end Netbas.Formatting
