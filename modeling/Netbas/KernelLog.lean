import Mathlib.Tactic
import Netbas.Copies
import Netbas.Runs

/-!
The buffer of the kernel log (`log.c`). `held` is what the buffer holds (`step_good`), and
`log_reads_iff` says when the reads of the whole buffer do not show it.
-/
namespace Netbas.KernelLog
open Runs List
open Function (update)
def LOG_BUF_SIZE : Nat := 4096
structure Log where
 log_buffer : Nat -> UInt8
 log_chars : Nat

variable {log log' : Log}
def log_init : Log := { log_buffer := fun _ => 0, log_chars := 0 }
def shift (log_buffer : Nat -> UInt8) (count : Nat) : Nat -> UInt8 :=
 Copies.copies log_buffer ((List.range count).map (fun i => (i,i + 1)))
def log_putchar (log : Log) (ch : UInt8) : Log :=
 if log.log_chars < LOG_BUF_SIZE then
  { log_buffer := update log.log_buffer log.log_chars ch, log_chars := log.log_chars + 1 }
 else
  let log_buffer := shift log.log_buffer (LOG_BUF_SIZE - 1)
  let log_buffer := update log_buffer (LOG_BUF_SIZE - 2) ch
  { log with log_buffer := update log_buffer (LOG_BUF_SIZE - 1) 0 }

/-- The bytes that are copied to `buf`; what is returned is how many they are. A negative `size` makes the
  count of the copy a huge number, which is undefined. -/
def read_log (log : Log) (size : Int) : Option (List UInt8 × Log) :=
 let log_chars := min log.log_chars LOG_BUF_SIZE
 let len := min (log_chars : Int) size
 if len < 0 then none
 else some ((List.range len.toNat).map log.log_buffer,{ log with log_chars := log_chars })
abbrev Letter := { ch : UInt8 // ch ≠ 0 }
inductive Call where
 | putchar (ch : Letter)
 | read (size : Int)
structure State where
 log : Log
 said : List UInt8
def start : State := { log := log_init, said := [] }
def step (s : State) : Call -> Option State
 | .putchar ch => some { log := log_putchar s.log ch.val, said := s.said ++ [ch.val] }
 | .read size => (read_log s.log size).map (fun r => { s with log := r.2 })
def contents (log : Log) : List UInt8 := (List.range log.log_chars).map log.log_buffer
lemma shift_at (log_buffer : Nat -> UInt8) {count i : Nat} (mem : i < count) :
 shift log_buffer count i = log_buffer (i + 1) := by
 exact @Copies.copies_range_apart Nat UInt8 _ (fun j => j) (fun j => j + 1) count i log_buffer
  (fun i _ j _ eq => eq) mem (fun j lt => by omega)
lemma put_room (room : log.log_chars < LOG_BUF_SIZE) (ch : UInt8) :
 contents (log_putchar log ch) = contents log ++ [ch] := by
 rw [log_putchar,if_pos room]
 simp only [contents,range_succ,map_append,map_singleton,Function.update_self]
 congr 1
 apply map_congr_left
 intro i mem
 exact Function.update_of_ne (by have := mem_range.mp mem; omega) _ _
lemma shift_contents (buffer : Nat -> UInt8) (size : Nat) (ch nul : UInt8) :
 (List.range (size + 2)).map (update (update (shift buffer (size + 1)) size ch) (size + 1) nul) =
  ((List.range (size + 2)).map buffer).tail.dropLast ++ [ch,nul] := by
 have rest : ((List.range (size + 2)).map buffer).tail.dropLast = (List.range size).map (fun i => buffer (i + 1)) := by
  rw [range_succ_eq_map,map_cons,tail_cons,range_succ,map_append,map_append,
   map_singleton,map_singleton,dropLast_concat,map_map]
  rfl
 rw [rest,range_succ,range_succ,map_append,map_append,append_assoc]
 congr 1
 · apply map_congr_left
   intro i mem
   have lt := mem_range.mp mem
   rw [Function.update_of_ne (by omega),Function.update_of_ne (by omega),shift_at buffer (by omega)]
 · simp
lemma put_full (full : log.log_chars = LOG_BUF_SIZE) (ch : UInt8) :
 contents (log_putchar log ch) = (contents log).tail.dropLast ++ [ch,0] := by
 rw [log_putchar,if_neg (by omega)]
 simp only [contents,full]
 exact shift_contents log.log_buffer (LOG_BUF_SIZE - 2) ch 0
def kept (said : List UInt8) : List UInt8 := said.eraseIdx (LOG_BUF_SIZE - 1)
def held (said : List UInt8) : List UInt8 :=
 if said.length ≤ LOG_BUF_SIZE then said else (kept said).drop (said.length - LOG_BUF_SIZE) ++ [0]
structure Good (s : State) : Prop where
 letters : 0 ∉ s.said
 count : s.log.log_chars = min s.said.length LOG_BUF_SIZE
 text : contents s.log = held s.said

variable {said : List UInt8}

section
variable (full : LOG_BUF_SIZE ≤ said.length)
include full
lemma kept_append (ch : UInt8) :
 kept (said ++ [ch]) = kept said ++ [ch] := by
 have size : LOG_BUF_SIZE = 4096 := rfl
 rw [kept,eraseIdx_append_of_lt_length (by omega),kept]
lemma kept_length : (kept said).length = said.length - 1 := by
 have size : LOG_BUF_SIZE = 4096 := rfl
 rw [kept,length_eraseIdx_of_lt (by omega)]
lemma held_append (ch : UInt8) :
 held (said ++ [ch]) = (held said).tail.dropLast ++ [ch,0] := by
 have size : LOG_BUF_SIZE = 4096 := rfl
 have count := kept_length full
 rw [held,if_neg (by rw [length_append,length_singleton]; omega),kept_append full,
  drop_append_of_le_length (by simp; omega),append_assoc]
 rw [held]
 by_cases fst : said.length ≤ LOG_BUF_SIZE
 · rw [if_pos fst]
   have last : kept said = said.dropLast := by
    rw [kept,show LOG_BUF_SIZE - 1 = said.length - 1 by omega,eraseIdx_length_sub_one]
   rw [last,length_append,show said.length + [ch].length - LOG_BUF_SIZE = 1 by simp; omega,drop_one,
    tail_dropLast]
   rfl
 rw [if_neg fst,tail_append_of_ne_nil (by intro none; have := congrArg List.length none; simp at this; omega),
  dropLast_concat,tail_drop,length_append,length_singleton,
  show said.length + 1 - LOG_BUF_SIZE = said.length - LOG_BUF_SIZE + 1 by omega]
 rfl
end
lemma start_good : Good start := by
 refine ⟨by simp [start],rfl,rfl⟩
lemma step_good {s s' : State} (call : Call) (good : Good s) (ran : step s call = some s') : Good s' := by
 have size : LOG_BUF_SIZE = 4096 := rfl
 have count := good.count
 cases call with
 | putchar ch =>
  cases ran
  by_cases room : s.log.log_chars < LOG_BUF_SIZE
  · refine ⟨by simpa using ⟨good.letters,ch.property.symm⟩,?_,?_⟩
    · simp only [log_putchar,if_pos room,length_append,length_singleton]
      omega
    · rw [put_room room,good.text,held,held,if_pos (by omega),if_pos (by simp; omega)]
  refine ⟨by simpa using ⟨good.letters,ch.property.symm⟩,?_,?_⟩
  · simp only [log_putchar,if_neg room,length_append,length_singleton]
    omega
  · rw [put_full (by omega),good.text,held_append (by omega)]
 | read asked =>
  obtain ⟨r,returned,rfl⟩ := Option.map_eq_some_iff.mp ran
  simp only [read_log,Option.ite_none_left_eq_some] at returned
  cases returned.2
  have eq : min s.log.log_chars LOG_BUF_SIZE = s.log.log_chars := by omega
  refine ⟨good.letters,?_,?_⟩
  · simp only [eq]
    exact count
  simp only [eq]
  exact good.text

/-- The bytes are, but for a last NUL, the end of what was said, and not too little of it. -/
def Recent (said bytes : List UInt8) : Prop :=
 ∃ text, (bytes = text ∨ bytes = text ++ [0]) ∧ text <:+ said ∧ min said.length (LOG_BUF_SIZE - 1) ≤ text.length
def Reports (s : State) : Call -> Prop
 | .putchar _ => True
 | .read size => LOG_BUF_SIZE ≤ size -> ∃ r, read_log s.log size = some r ∧ Recent s.said r.1

/-- The characters that would still be in the buffer, up to the one that is lost, are all the same. -/
def Unnoticed (said : List UInt8) : Prop :=
 LOG_BUF_SIZE < said.length ->
  ∀ i, said.length - LOG_BUF_SIZE ≤ i -> i < LOG_BUF_SIZE - 1 -> said[i]? = said[i + 1]?
def Unharmed (s : State) : Call -> Prop
 | .putchar _ => True
 | .read size => LOG_BUF_SIZE ≤ size -> Unnoticed s.said
lemma read_whole {s : State} (good : Good s) {size : Int} (whole : LOG_BUF_SIZE ≤ size) :
 read_log s.log size = some (held s.said,s.log) := by
 have count := good.count
 have eq : min s.log.log_chars LOG_BUF_SIZE = s.log.log_chars := by omega
 have len : min (s.log.log_chars : Int) size = s.log.log_chars := by omega
 simp only [read_log,eq,len]
 rw [if_neg (by omega),Int.toNat_natCast,<- good.text,contents]
lemma kept_suffix_iff (more : LOG_BUF_SIZE < said.length) :
 (kept said).drop (said.length - LOG_BUF_SIZE) <:+ said ↔ Unnoticed said := by
 have size : LOG_BUF_SIZE = 4096 := rfl
 have count := kept_length more.le
 have length : ((kept said).drop (said.length - LOG_BUF_SIZE)).length = LOG_BUF_SIZE - 1 := by
  rw [length_drop]
  omega
 rw [suffix_iff_eq_drop,length]
 constructor
 · intro eq _ i low high
   have equal := congrArg (fun l => l[i - (said.length - LOG_BUF_SIZE)]?) eq
   simp only [getElem?_drop] at equal
   rw [kept,getElem?_eraseIdx_of_lt (by omega)] at equal
   rwa [show said.length - LOG_BUF_SIZE + (i - (said.length - LOG_BUF_SIZE)) = i by omega,
    show said.length - (LOG_BUF_SIZE - 1) + (i - (said.length - LOG_BUF_SIZE)) = i + 1 by omega] at equal
 intro unnoticed
 apply ext_getElem?
 intro i
 rw [getElem?_drop,getElem?_drop,kept,
  show said.length - (LOG_BUF_SIZE - 1) + i = said.length - LOG_BUF_SIZE + i + 1 by omega]
 by_cases early : said.length - LOG_BUF_SIZE + i < LOG_BUF_SIZE - 1
 · rw [getElem?_eraseIdx_of_lt early]
   exact unnoticed more _ (by omega) early
 · rw [getElem?_eraseIdx_of_ge (by omega)]
lemma recent_iff (letters : 0 ∉ said) : Recent said (held said) ↔ Unnoticed said := by
 have size : LOG_BUF_SIZE = 4096 := rfl
 rw [held]
 by_cases few : said.length ≤ LOG_BUF_SIZE
 · rw [if_pos few]
   exact iff_of_true ⟨said,.inl rfl,suffix_refl said,by omega⟩ fun more => absurd more (by omega)
 have more : LOG_BUF_SIZE < said.length := by omega
 rw [if_neg few,<- kept_suffix_iff more]
 constructor
 · rintro ⟨text,rfl | eq,suffix,_⟩
   · exact absurd (suffix.subset (by simp)) letters
   · rwa [<- append_inj_left' eq rfl] at suffix
 intro suffix
 refine ⟨_,.inr rfl,suffix,?_⟩
 rw [length_drop,kept_length more.le]
 omega
lemma run_putchars (word : List Letter) : ∀ s : State, Good s -> ∃ s', run step s (word.map .putchar) = some s' ∧
 Good s' ∧ s'.said = s.said ++ word.map Subtype.val := by
 induction word with
 | nil => exact fun s good => ⟨s,rfl,good,by simp⟩
 | cons ch word ih =>
  intro s good
  obtain ⟨s',ended,good',said⟩ := ih _ (step_good (.putchar ch) good rfl)
  exact ⟨s',ended,good',by simp [said]⟩
theorem log_reads_iff (calls : List Call) : Along step (fun _ => True) Reports start calls ↔ Meets step Unharmed start calls := by
 refine along_iff (I := Good) (fun _ _ => trivial) ?_ (fun s call s' good _ taken => step_good call good taken) ?_
  calls start start_good
 · intro s call good unharmed
   cases call with
   | putchar ch => trivial
   | read size => exact fun whole => ⟨_,read_whole good whole,(recent_iff good.letters).mpr (unharmed whole)⟩
 intro s call good harmed reports
 refine absurd ?_ harmed
 cases call with
 | putchar ch => trivial
 | read size =>
  intro whole
  obtain ⟨r,returned,recent⟩ := reports whole
  rw [read_whole good whole] at returned
  cases returned
  exact (recent_iff good.letters).mp recent
lemma a_letter : (97 : UInt8) ≠ 0 := by
 decide
lemma b_letter : (98 : UInt8) ≠ 0 := by
 decide
def tooMany : List Letter := List.replicate 4095 ⟨97,a_letter⟩ ++ [⟨98,b_letter⟩,⟨97,a_letter⟩]
theorem overflow_loses_letter : ∃ s, run step start (tooMany.map .putchar) = some s ∧ ¬Reports s (.read LOG_BUF_SIZE) := by
 obtain ⟨s,ended,good,said⟩ := run_putchars tooMany start start_good
 refine ⟨s,ended,fun reports => ?_⟩
 obtain ⟨r,returned,recent⟩ := reports le_rfl
 rw [read_whole good le_rfl,Option.some.injEq] at returned
 rw [<- returned] at recent
 have text : s.said = List.replicate 4095 97 ++ [98,97] := by
  rw [said]
  simp only [start,tooMany,List.map_append,List.map_replicate,List.nil_append,List.map_cons,List.map_nil]
 have size : LOG_BUF_SIZE = 4096 := rfl
 have length : s.said.length = 4097 := by
  rw [text,List.length_append,List.length_replicate]
  rfl
 have eq := (recent_iff good.letters).mp recent (by omega) 4094 (by omega) (by omega)
 rw [text,List.getElem?_append_left (by rw [List.length_replicate]; omega),
  List.getElem?_append_right (by rw [List.length_replicate]),List.getElem?_replicate,if_pos (by omega),
  List.length_replicate] at eq
 cases eq

end Netbas.KernelLog
