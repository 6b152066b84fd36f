import Mathlib.Data.List.TakeWhile
import Netbas.Fuel

/-!
How the arguments of a program cross `exec` (`ustack.c`). Each is stored behind a 16-bit length, and
`parse_args_new` stops where the low byte of a length is zero (`arguments_round_trip_iff`).
-/
namespace Netbas.Arguments
open Fuel List Option
open Function (update update_of_ne)
def PAGE_SIZE : Nat := 4096
def MAX_EXEC_ARGS : Nat := 32

/-- The bytes of a string before its terminator. -/
abbrev CString := {bytes : List UInt8 // 0 ∉ bytes}
abbrev Page := Nat -> UInt8

variable {p p' : Page} {o i : Nat}
def load16 (p : Page) (o : Nat) : Nat := (p o).toNat + 256 * (p (o + 1)).toNat
def store16 (p : Page) (o n : Nat) : Page :=
 update (update p o (UInt8.ofNat n)) (o + 1) (UInt8.ofNat (n / 256))
def strcpy (p : Page) (o : Nat) : List UInt8 -> Page
 | [] => update p o 0
 | b :: bytes => strcpy (update p o b) (o + 1) bytes
def strncpy (p : Page) (o : Nat) (bytes : List UInt8) (nr : Nat) : Page := strcpy p o (bytes.take nr)
def save_args (p : Page) (argptr : Nat) : List CString -> Page
 | [] => p
 | arg :: rest =>
  save_args (strcpy (store16 p argptr arg.val.length) (argptr + 2) arg.val) (argptr + 2 + arg.val.length) rest
def save_arg_space (p : Page) (file_name : CString) (argv : List CString) (start_arg : Nat) : Page :=
 let count := file_name.val.length
 save_args (strncpy (store16 p 0 count) 2 file_name.val PAGE_SIZE) (2 + count) (argv.drop start_arg)

/-- The pointers that are stored to `argv`, and the page after the lengths have been cleared. -/
def parse_args_new : Nat -> Page -> Nat -> Option (List Nat × Page)
 | 0, _, _ => none
 | fuel + 1, p, s =>
  let count := load16 p s
  let p := store16 p s 0
  let arg := s + 2
  let s := s + 2 + count
  if p s ≠ 0 then (parse_args_new fuel p s).map (fun (rest,p') => (arg :: rest,p')) else some ([arg],p)
def string (p : Page) (s : Nat) : List UInt8 := ((range PAGE_SIZE).map (fun i => p (s + i))).takeWhile (· ≠ 0)
def decode (fuel : Nat) (p : Page) : Option (List (List UInt8)) :=
 (parse_args_new fuel p 0).map (fun (argv,p') => argv.map (string p'))
def encoded (args : List CString) : Nat := (args.map (fun arg => 2 + arg.val.length)).sum

/-- A call of `save_arg_space`: fewer than `MAX_EXEC_ARGS` strings, that fit in a page. -/
structure Call where
 file_name : CString
 argv : List CString
 start_arg : Nat
 inside : start_arg ≤ argv.length
 few : 1 + (argv.drop start_arg).length < MAX_EXEC_ARGS
 fits : encoded (file_name :: argv.drop start_arg) + 1 ≤ PAGE_SIZE
lemma store16_other (n : Nat) (low : i ≠ o) (high : i ≠ o + 1) : store16 p o n i = p i := by
 simp [store16,low,high]
lemma load16_store16 (p : Page) (o : Nat) {n : Nat} (lt : n < 65536) : load16 (store16 p o n) o = n := by
 have low : store16 p o n o = UInt8.ofNat n := by
  simp [store16]
 have high : store16 p o n (o + 1) = UInt8.ofNat (n / 256) := by
  simp [store16]
 rw [load16,low,high,UInt8.toNat_ofNat',UInt8.toNat_ofNat']
 omega
lemma load16_congr (low : p' o = p o) (high : p' (o + 1) = p (o + 1)) : load16 p' o = load16 p o := by
 rw [load16,load16,low,high]
def StringAt (p : Page) (o : Nat) (bytes : List UInt8) : Prop :=
 (∀ i (inside : i < bytes.length), p (o + i) = bytes[i]) ∧ p (o + bytes.length) = 0
variable (bytes : List UInt8)
lemma strcpy_before : ∀ (p : Page) (o : Nat), i < o -> strcpy p o bytes i = p i := by
 induction bytes with
 | nil =>
  intro p o pre
  exact update_of_ne (by omega) _ _
 | cons b bytes ih =>
  intro p o pre
  rw [strcpy,ih _ _ (by omega)]
  exact update_of_ne (by omega) _ _
lemma strcpy_string : ∀ (p : Page) (o : Nat), StringAt (strcpy p o bytes) o bytes := by
 induction bytes with
 | nil =>
  intro p o
  refine ⟨fun i mem => absurd mem (by simp),?_⟩
  simp [strcpy]
 | cons b bytes ih =>
  intro p o
  obtain ⟨each,ends⟩ := ih (update p o b) (o + 1)
  rw [strcpy]
  refine ⟨fun i mem => ?_,?_⟩
  · cases i with
    | zero =>
     rw [Nat.add_zero,strcpy_before bytes _ _ (by omega)]
     simp
    | succ i =>
     rw [show o + (i + 1) = o + 1 + i by omega,each i (by simpa using mem)]
     simp
  rw [length_cons,show o + (bytes.length + 1) = o + 1 + bytes.length by omega]
  exact ends

variable {arg : CString}
lemma string_eq (hit : StringAt p o arg.val) (le : arg.val.length < PAGE_SIZE) :
 string p o = arg.val := by
 obtain ⟨each,ends⟩ := hit
 obtain ⟨more,rest⟩ : ∃ more, PAGE_SIZE = arg.val.length + (more + 1) := ⟨PAGE_SIZE - arg.val.length - 1,by omega⟩
 have fst : (range arg.val.length).map (fun i => p (o + i)) = arg.val := by
  apply ext_getElem
  · simp
  intro i inside _
  simp only [getElem_map,getElem_range]
  exact each i (by simpa using inside)
 have ne0 : ∀ b ∈ arg.val, decide (b ≠ 0) = true := by
  intro b mem
  simp only [ne_eq,decide_eq_true_eq]
  rintro rfl
  exact arg.property mem
 rw [string,rest,range_add,map_append,fst,takeWhile_append_of_pos ne0,range_succ_eq_map]
 simp [ends]
def Encoded (p : Page) : Nat -> List CString -> Prop
 | o, [] => p o = 0
 | o, arg :: rest =>
  load16 p o = arg.val.length ∧ (∀ i (inside : i < arg.val.length), p (o + 2 + i) = arg.val[i]) ∧
   Encoded p (o + 2 + arg.val.length) rest

variable {args : List CString}
lemma Encoded.congr (encoded : Encoded p o args) (eq : ∀ i, o ≤ i -> p' i = p i) : Encoded p' o args := by
 induction args generalizing o with
 | nil => exact (eq o le_rfl).trans encoded
 | cons arg rest ih =>
  obtain ⟨length,bytes,later⟩ := encoded
  refine ⟨?_,?_,ih later (fun i after => eq i (by omega))⟩
  · rw [load16_congr (eq o le_rfl) (eq (o + 1) (by omega)),length]
  intro i mem
  rw [eq _ (by omega),bytes i mem]
section
variable (args : List CString)
lemma save_args_before : ∀ (p : Page) (o : Nat), i < o -> save_args p o args i = p i := by
 induction args with
 | nil => intro _ _ _; rfl
 | cons arg rest ih =>
  intro p o pre
  rw [save_args,ih _ _ (by omega),strcpy_before _ _ _ (by omega),store16_other _ (by omega) (by omega)]
lemma saved_encoded : ∀ (p : Page) (o : Nat), (∀ arg ∈ args, arg.val.length < 65536) -> p o = 0 ->
 Encoded (save_args p o args) o args := by
 induction args with
 | nil => intro p o _ zero; exact zero
 | cons arg rest ih =>
  intro p o le zero
  obtain ⟨bytes,ends⟩ := strcpy_string arg.val (store16 p o arg.val.length) (o + 2)
  rw [save_args]
  refine ⟨?_,?_,?_⟩
  · have kept : ∀ j, j < o + 2 -> save_args (strcpy (store16 p o arg.val.length) (o + 2) arg.val) (o + 2 + arg.val.length)
      rest j = store16 p o arg.val.length j := by
     intro j pre
     rw [save_args_before _ _ _ (by omega),strcpy_before _ _ _ pre]
    rw [load16_congr (kept o (by omega)) (kept (o + 1) (by omega)),load16_store16 p o (le arg (by simp))]
  · intro i inside
    rw [save_args_before _ _ _ (by omega),bytes i inside]
  · exact ih _ _ (fun ne mem => le ne (by simp [mem])) ends
def reached : List CString := args.takeWhile (fun arg => arg.val.length % 256 ≠ 0)
end
variable {rest : List CString}
lemma Encoded.next (encoded : Encoded p o (arg :: rest)) :
 p o ≠ 0 ↔ arg.val.length % 256 ≠ 0 := by
 have length := encoded.1
 rw [load16] at length
 have low : (p o).toNat = arg.val.length % 256 := by
  have := (p o).toNat_lt
  omega
 rw [<- low,ne_eq,ne_eq,<- UInt8.toNat_inj]
 rfl
lemma parse_encoded (rest : List CString) : ∀ (arg : CString) (p : Page) (o fuel : Nat), Encoded p o (arg :: rest) ->
 rest.length < fuel -> ∃ argv p', parse_args_new fuel p o = some (argv,p') ∧ (∀ i < o, p' i = p i) ∧ p' o = 0 ∧
  List.Forall₂ (fun s (arg : CString) => StringAt p' s arg.val) argv (arg :: reached rest) := by
 induction rest with
 | nil =>
  intro arg p o fuel encoded enough
  obtain ⟨fuel,rfl⟩ : ∃ n, fuel = n + 1 := ⟨fuel - 1,by omega⟩
  obtain ⟨length,bytes,last⟩ := encoded
  have zero : store16 p o 0 (o + 2 + arg.val.length) = 0 := by
   rw [store16_other _ (by omega) (by omega)]
   exact last
  refine ⟨[o + 2],store16 p o 0,?_,?_,?_,?_⟩
  · simp only [parse_args_new,length,zero]
    rfl
  · intro i pre
    exact store16_other _ (by omega) (by omega)
  · simp [store16]
  refine .cons ⟨fun i mem => ?_,zero⟩ .nil
  rw [store16_other _ (by omega) (by omega),bytes i mem]
 | cons next rest ih =>
  intro arg p o fuel encoded enough
  obtain ⟨fuel,rfl⟩ : ∃ n, fuel = n + 1 := ⟨fuel - 1,by omega⟩
  obtain ⟨length,bytes,later⟩ := encoded
  have cleared : ∀ i, o + 2 ≤ i -> store16 p o 0 i = p i := fun i after => store16_other _ (by omega) (by omega)
  have later' : Encoded (store16 p o 0) (o + 2 + arg.val.length) (next :: rest) :=
   later.congr (fun i after => cleared i (by omega))
  by_cases goes : next.val.length % 256 ≠ 0
  · have on : store16 p o 0 (o + 2 + arg.val.length) ≠ 0 := later'.next.mpr goes
    obtain ⟨argv,p',parsed,pre,ended,hit⟩ := ih next _ _ fuel later' (by simpa using enough)
    refine ⟨(o + 2) :: argv,p',?_,?_,?_,?_⟩
    · simp only [parse_args_new,length,on,ne_eq,not_false_eq_true,if_true,parsed,map_some]
    · intro i earlier
      rw [pre i (by omega)]
      exact store16_other _ (by omega) (by omega)
    · rw [pre o (by omega)]
      simp [store16]
    rw [reached,takeWhile_cons_of_pos (by simpa using goes)]
    refine .cons ⟨fun i mem => ?_,ended⟩ hit
    rw [pre _ (by omega),cleared _ (by omega),bytes i mem]
  have stops : store16 p o 0 (o + 2 + arg.val.length) = 0 := by
   by_contra on
   exact goes (later'.next.mp on)
  refine ⟨[o + 2],store16 p o 0,?_,?_,?_,?_⟩
  · simp only [parse_args_new,length,stops]
    rfl
  · intro i pre
    exact store16_other _ (by omega) (by omega)
  · simp [store16]
  rw [reached,takeWhile_cons_of_neg (by simpa using goes)]
  refine .cons ⟨fun i mem => ?_,stops⟩ .nil
  rw [cleared _ (by omega),bytes i mem]
lemma parse_more (fuel : Nat) : ∀ (p : Page) (s more : Nat) (hit : List Nat × Page),
 parse_args_new fuel p s = some hit -> fuel ≤ more -> parse_args_new more p s = some hit := by
 induction fuel with
 | zero => intro p s more hit done _; cases done
 | succ fuel ih =>
  intro p s more hit done enough
  obtain ⟨more,rfl⟩ : ∃ n, more = n + 1 := ⟨more - 1,by omega⟩
  simp only [parse_args_new] at done ⊢
  split at done
  · rename_i on
    obtain ⟨rest,parsed,eq⟩ := map_eq_some_iff.mp done
    rw [if_pos on,ih _ _ more rest parsed (by omega),map_some,eq]
  rename_i stops
  rw [if_neg stops,done]
lemma strings_eq {argv : List Nat}
 (hit : List.Forall₂ (fun s (arg : CString) => StringAt p s arg.val) argv args)
 (le : ∀ arg ∈ args, arg.val.length < PAGE_SIZE) : argv.map (string p) = args.map Subtype.val := by
 induction hit with
 | nil => rfl
 | cons there _ ih =>
  rw [map_cons,map_cons,string_eq there (le _ (by simp)),ih (fun arg mem => le arg (by simp [mem]))]
lemma decode_encoded (encoded : Encoded p 0 (arg :: rest))
 (le : ∀ ne ∈ arg :: rest, ne.val.length < PAGE_SIZE) :
 Returns (fun fuel => decode fuel p) ((arg :: reached rest).map Subtype.val) := by
 obtain ⟨argv,p',parsed,_,_,hit⟩ := parse_encoded rest arg p 0 (rest.length + 1) encoded (by omega)
 have strings : argv.map (string p') = (arg :: reached rest).map Subtype.val := by
  apply strings_eq hit
  intro ne member
  apply le
  obtain rfl | member := mem_cons.mp member
  · exact mem_cons_self
  · exact mem_cons_of_mem _ ((takeWhile_sublist _).subset member)
 refine ⟨rest.length,fun fuel => ?_⟩
 by_cases enough : rest.length < fuel
 · refine .inl ?_
   simp only [decode,parse_more _ _ _ fuel _ parsed (by omega),map_some,strings]
 cases done : parse_args_new fuel p 0 with
 | none =>
  refine .inr ⟨?_,by omega⟩
  simp only [decode,done,map_none]
 | some res =>
  have eq := parse_more _ _ _ (rest.length + 1) _ done (by omega)
  rw [parsed] at eq
  cases eq
  refine .inl ?_
  simp only [decode,done,map_some,strings]
lemma encoded_length (mem : arg ∈ args) : arg.val.length ≤ encoded args := by
 have part := single_le_sum (l := args.map (fun arg => 2 + arg.val.length)) (by simp) _
  (mem_map_of_mem (f := fun arg : CString => 2 + arg.val.length) mem)
 rw [encoded]
 omega
lemma decode_saved (call : Call) (page : Page) :
 Returns (fun fuel => decode fuel (save_arg_space page call.file_name call.argv call.start_arg))
  ((call.file_name :: reached (call.argv.drop call.start_arg)).map Subtype.val) := by
 have fits := call.fits
 have le : ∀ arg ∈ call.file_name :: call.argv.drop call.start_arg, arg.val.length < PAGE_SIZE := by
  intro arg mem
  have := encoded_length mem
  omega
 have whole : call.file_name.val.take PAGE_SIZE = call.file_name.val :=
  take_of_length_le (le _ (by simp)).le
 have page_eq : save_arg_space page call.file_name call.argv call.start_arg =
   save_args (update page 0 0) 0 (call.file_name :: call.argv.drop call.start_arg) := by
  rw [save_arg_space,strncpy,whole,save_args]
  -- the first length is stored over whatever was hit
  simp only [store16,Function.update_idem,Nat.zero_add]
 rw [page_eq]
 apply decode_encoded _ le
 apply saved_encoded
 · intro arg mem
   have := le arg mem
   rw [PAGE_SIZE] at this
   omega
 · simp

/-- Exactly the calls without an argument whose length is a multiple of 256 give the program its
  name and all arguments in order. -/
theorem arguments_round_trip_iff (call : Call) (page : Page) :
 Returns (fun fuel => decode fuel (save_arg_space page call.file_name call.argv call.start_arg))
   ((call.file_name :: call.argv.drop call.start_arg).map Subtype.val) ↔
  ∀ arg ∈ call.argv.drop call.start_arg, arg.val.length % 256 ≠ 0 := by
 have decoded := decode_saved call page
 have all : reached (call.argv.drop call.start_arg) = call.argv.drop call.start_arg ↔
   ∀ arg ∈ call.argv.drop call.start_arg, arg.val.length % 256 ≠ 0 := by
  rw [reached,takeWhile_eq_self_iff]
  simp
 rw [<- all]
 constructor
 · intro returns
   have eq := decoded.unique returns
   have names := map_injective_iff.mpr Subtype.val_injective eq
   exact (List.cons.inj names).2.symm
 intro eq
 rw [eq] at decoded
 exact decoded
def withEmpty : Call where
 file_name := ⟨[97],by decide⟩
 argv := [⟨[],by decide⟩,⟨[98],by decide⟩]
 start_arg := 0
 inside := by decide
 few := by decide
 fits := by decide
theorem empty_argument_ends :
 decode 10 (save_arg_space (fun _ => 0) withEmpty.file_name withEmpty.argv withEmpty.start_arg) = some [[97]] := by
 decide +kernel

end Netbas.Arguments
