import Netbas.Bytes
import Netbas.Arguments

/-!
The first contents of a user stack (`put_linux_style_argv` in `ustack.c`), from the top downwards.
`stack_laid_out`: the program finds all of it, and no part overlaps another one; each store is below
all earlier ones (`Outside`).
-/
namespace Netbas.UserStack
open Bytes Arguments List
def USER_STACK_ADDR : Nat := 0x60000000 - 0x800000
def USER_STACK_ADDR_END : Nat := 0x60000000 - 0x1000
def ATEGID : Nat := 14
def auxvec (uid : BitVec 32) : List Nat :=
 [3,0,4,32,5,0,6,4096,7,0,8,0,ATEGID,0,11,uid.toNat,12,0,13,0,ATEGID,0,0,0]
def strcpy (m : Memory) (addr : Nat) : List UInt8 -> Memory
 | [] => poke m addr 0
 | b :: bytes => strcpy (poke m addr b) (addr + 1) bytes
def put_words (m : Memory) (addr : Nat) : List Nat -> Memory
 | [] => m
 | w :: words => put_words (poke32 m addr w) (addr + 4) words
def put_strings (proc_space_base : Nat) (m : Memory) (kesp : Nat) : List CString -> Memory × Nat × List Nat
 | [] => (m,kesp,[])
 | s :: rest =>
  let kesp := kesp - (s.val.length + 1)
  let m := strcpy m kesp s.val
  let (m,last,array) := put_strings proc_space_base m kesp rest
  (m,last,(kesp - proc_space_base) :: array)
def put_env (m : Memory) (addr : Nat) : List Nat -> Memory × Nat
 | [] => (m,addr)
 | w :: words =>
  let m := poke32 m addr w
  if w = 0 then (m,addr) else put_env m (addr + 4) words

/-- The memory and the stack pointer that is returned. Addresses are 32 bits wide where they are used; none
  gets below the base here. -/
def put_linux_style_argv (m : Memory) (proc_space_base : Nat) (uid : BitVec 32) (argv : List CString)
  (environ_arg : Option (List CString)) (default_env : List CString) : Memory × Nat :=
 let kesp := proc_space_base + USER_STACK_ADDR_END - 1
 let kesp := kesp - (ATEGID + 2) * 8
 let m := put_words m kesp (auxvec uid)
 let environ := environ_arg.getD default_env
 let arg_count := min argv.length (MAX_EXEC_ARGS - 1)
 let env_count := min environ.length (MAX_EXEC_ARGS - 1)
 let (m,kesp,env_array) := put_strings proc_space_base m kesp (environ.take env_count)
 let (m,kesp,argment_array) := put_strings proc_space_base m kesp (argv.take arg_count)
 let kesp := kesp - (env_count + 1) * 4
 let (m,last) := put_env m kesp env_array
 let m := poke32 m last 0
 let kesp := kesp - (arg_count + 1) * 4
 let m := put_words m kesp argment_array
 let m := poke32 m (kesp + arg_count * 4) 0
 let kesp := kesp - 4
 let m := poke32 m kesp arg_count
 (m,kesp - proc_space_base)

section
variable {base lo hi a : Nat} {m m' m'' : Memory}
/-- The user addresses outside of `lo` to `hi` keep their bytes. -/
def Outside (base lo hi : Nat) (m m' : Memory) : Prop :=
 ∀ u < 2^32, u < lo ∨ hi ≤ u -> peek m' (base + u) = peek m (base + u)
lemma Outside.refl (base lo hi : Nat) (m : Memory) : Outside base lo hi m m := fun _ _ _ => rfl
lemma Outside.trans (fst : Outside base lo hi m m') (snd : Outside base lo hi m' m'') :
 Outside base lo hi m m'' :=
 fun u user apart => (snd u user apart).trans (fst u user apart)
lemma Outside.mono {lo' hi' : Nat} (stores : Outside base lo hi m m') (low : lo' ≤ lo) (high : hi ≤ hi') :
 Outside base lo' hi' m m' :=
 fun u user apart => stores u user (by omega)
lemma poke_outside (m : Memory) (base : Nat) (user : a < 2^32) (b : UInt8) :
 Outside base a (a + 1) m (poke m (base + a) b) :=
 fun u user' apart => peek_poke_of_ne (by omega)
lemma poke32_outside (m : Memory) (base : Nat) (user : a + 4 ≤ 2^32) (w : Nat) :
 Outside base a (a + 4) m (poke32 m (base + a) w) := by
 intro u user' apart
 exact peek_poke32_of_apart fun i lt => by omega
lemma strcpy_outside (base : Nat) (bytes : List UInt8) : ∀ (m : Memory) (a : Nat), a + bytes.length < 2^32 ->
 Outside base a (a + bytes.length + 1) m (strcpy m (base + a) bytes) := by
 induction bytes with
 | nil => exact fun m a user => poke_outside m base user 0
 | cons b bytes ih =>
  intro m a user
  rw [length_cons] at user ⊢
  rw [strcpy,Nat.add_assoc]
  exact ((poke_outside m base (by omega) b).mono le_rfl (by omega)).trans
   ((ih _ (a + 1) (by omega)).mono (by omega) (by omega))
lemma put_words_outside (base : Nat) (words : List Nat) : ∀ (m : Memory) (a : Nat), a + 4 * words.length ≤ 2^32 ->
 Outside base a (a + 4 * words.length) m (put_words m (base + a) words) := by
 induction words with
 | nil => exact fun m a _ => Outside.refl base a _ m
 | cons w words ih =>
  intro m a user
  rw [length_cons] at user ⊢
  rw [put_words,Nat.add_assoc]
  exact ((poke32_outside m base (by omega) w).mono le_rfl (by omega)).trans
   ((ih _ (a + 4) (by omega)).mono (by omega) (by omega))
/-- The bytes are at user address `a`, with a NUL behind them. -/
def StringAt (m : Memory) (base a : Nat) (bytes : List UInt8) : Prop :=
 (∀ i (inside : i < bytes.length), peek m (base + (a + i)) = bytes[i]) ∧ peek m (base + (a + bytes.length)) = 0
/-- The words are at user address `a`, four bytes each. -/
def WordsAt (m : Memory) (base a : Nat) (words : List Nat) : Prop :=
 ∀ i (inside : i < words.length), peek32 m (base + (a + 4 * i)) = words[i]
lemma StringAt.kept {bytes : List UInt8} (hit : StringAt m base a bytes) (stores : Outside base lo hi m m')
 (user : a + bytes.length < 2^32) (apart : hi ≤ a ∨ a + bytes.length < lo) : StringAt m' base a bytes := by
 obtain ⟨each,ends⟩ := hit
 constructor
 · intro i mem
   rw [stores (a + i) (by omega) (by omega)]
   exact each i mem
 rw [stores (a + bytes.length) user (by omega)]
 exact ends
lemma WordsAt.kept {words : List Nat} (hit : WordsAt m base a words) (stores : Outside base lo hi m m')
 (user : a + 4 * words.length ≤ 2^32) (apart : hi ≤ a ∨ a + 4 * words.length ≤ lo) : WordsAt m' base a words := by
 intro i mem
 rw [<- hit i mem]
 refine peek32_congr fun j lt => ?_
 rw [Nat.add_assoc]
 exact stores (a + 4 * i + j) (by omega) (by omega)
lemma strcpy_string (base : Nat) (bytes : List UInt8) : ∀ (m : Memory) (a : Nat), a + bytes.length < 2^32 ->
 StringAt (strcpy m (base + a) bytes) base a bytes := by
 induction bytes with
 | nil =>
  intro m a _
  refine ⟨fun i mem => absurd mem (by simp),?_⟩
  exact peek_poke_same m (base + a) 0
 | cons b bytes ih =>
  intro m a user
  rw [length_cons] at user
  obtain ⟨each,ends⟩ := ih (poke m (base + a) b) (a + 1) (by omega)
  rw [strcpy,Nat.add_assoc]
  constructor
  · intro i mem
    cases i with
    | zero =>
     have kept := strcpy_outside base bytes (poke m (base + a) b) (a + 1) (by omega) a (by omega) (by omega)
     exact kept.trans (peek_poke_same m (base + a) b)
    | succ i =>
     rw [show a + (i + 1) = a + 1 + i by omega]
     exact each i (by simpa using mem)
  rw [length_cons,show a + (bytes.length + 1) = a + 1 + bytes.length by omega]
  exact ends
lemma put_words_at (base : Nat) (words : List Nat) : ∀ (m : Memory) (a : Nat), a + 4 * words.length ≤ 2^32 ->
 (∀ w ∈ words, w < 2^32) -> WordsAt (put_words m (base + a) words) base a words := by
 induction words with
 | nil => exact fun m a _ _ i inside => absurd inside (by simp)
 | cons w words ih =>
  intro m a user small
  rw [length_cons] at user
  rw [put_words,Nat.add_assoc]
  have rest := ih (poke32 m (base + a) w) (a + 4) (by omega) fun w mem => small w (by simp [mem])
  have fst : WordsAt (poke32 m (base + a) w) base a [w] := by
   intro i inside
   have zero : i = 0 := by simpa using inside
   subst zero
   exact peek32_poke32_same m (base + a) (small w (by simp))
  have kept := fst.kept (put_words_outside base words (poke32 m (base + a) w) (a + 4) (by omega))
   (by simp; omega) (.inr (by simp))
  intro i inside
  cases i with
  | zero => exact kept 0 (by simp)
  | succ i =>
   rw [show a + 4 * (i + 1) = a + 4 + 4 * i by omega]
   exact rest i (by simpa using inside)

section
variable (l : List CString)
def total : Nat := (l.map (fun s => s.val.length + 1)).sum
def places (a : Nat) : List CString -> List Nat
 | [] => []
 | s :: rest => (a - (s.val.length + 1)) :: places (a - (s.val.length + 1)) rest
lemma places_length : ∀ a, (places a l).length = l.length := by
 induction l with
 | nil => exact fun a => rfl
 | cons s l ih => exact fun a => congrArg (· + 1) (ih _)
def block (v : Nat) (s : CString) : Nat × Nat := (v,s.val.length + 1)
def Below (fst snd : Nat × Nat) : Prop := snd.1 + snd.2 ≤ fst.1
def Stacked (lo hi : Nat) (blocks : List (Nat × Nat)) : Prop :=
 blocks.Pairwise Below ∧ ∀ b ∈ blocks, lo ≤ b.1 ∧ b.1 + b.2 ≤ hi
lemma Stacked.append {mid : Nat} {fst snd : List (Nat × Nat)} (upper : Stacked mid hi fst)
 (lower : Stacked lo mid snd) (low : lo ≤ mid) (high : mid ≤ hi) : Stacked lo hi (fst ++ snd) := by
 constructor
 · refine pairwise_append.mpr ⟨upper.1,lower.1,fun a above b lt => ?_⟩
   exact (lower.2 b lt).2.trans (upper.2 a above).1
 intro b mem
 rcases mem_append.mp mem with above | lt
 · exact ⟨low.trans (upper.2 b above).1,(upper.2 b above).2⟩
 · exact ⟨(lower.2 b lt).1,(lower.2 b lt).2.trans high⟩
lemma Stacked.single {v size : Nat} (low : lo ≤ v) (high : v + size ≤ hi) : Stacked lo hi [(v,size)] := by
 refine ⟨pairwise_singleton _ _,fun b mem => ?_⟩
 rw [mem_singleton.mp mem]
 exact ⟨low,high⟩
lemma blocks_stacked : ∀ a, total l ≤ a ->
 Stacked (a - total l) a (zipWith block (places a l) l) := by
 induction l with
 | nil => exact fun a _ => ⟨.nil,by simp [places]⟩
 | cons s l ih =>
  intro a fits
  have sum : total (s :: l) = s.val.length + 1 + total l := by
   simp [total]
  rw [sum] at fits ⊢
  have rest := ih (a - (s.val.length + 1)) (by omega)
  rw [show a - (s.val.length + 1) - total l = a - (s.val.length + 1 + total l) by omega] at rest
  rw [places,zipWith_cons_cons,<- singleton_append]
  exact (Stacked.single le_rfl (by omega)).append rest (by omega) (by omega)
end
lemma put_strings_spec (base : Nat) (l : List CString) : ∀ (m : Memory) (a : Nat), total l ≤ a -> a < 2^32 ->
 ∃ m', put_strings base m (base + a) l = (m',base + (a - total l),places a l) ∧ Outside base (a - total l) a m m' ∧
  List.Forall₂ (fun v (s : CString) => a - total l ≤ v ∧ v + s.val.length < a ∧ StringAt m' base v s.val) (places a l) l := by
 induction l with
 | nil =>
  intro m a _ _
  exact ⟨m,rfl,Outside.refl base _ a m,.nil⟩
 | cons s l ih =>
  intro m a fits user
  have sum : total (s :: l) = s.val.length + 1 + total l := by
   simp [total]
  rw [sum] at fits ⊢
  obtain ⟨v,place⟩ : ∃ v, a - (s.val.length + 1) = v := ⟨_,rfl⟩
  obtain ⟨m',executed,stores,strings⟩ := ih (strcpy m (base + v) s.val) v (by omega) (by omega)
  have copied := strcpy_string base s.val m v (by omega)
  have fst := strcpy_outside base s.val m v (by omega)
  refine ⟨m',?_,?_,?_⟩
  · rw [put_strings,places]
    simp only [show base + a - (s.val.length + 1) = base + v by omega,executed,Nat.add_sub_cancel_left,place]
    rw [show a - (s.val.length + 1 + total l) = v - total l by omega]
  · exact (fst.mono (by omega) (by omega)).trans (stores.mono (by omega) (by omega))
  rw [places,place]
  refine .cons ⟨by omega,by omega,copied.kept stores (by omega) (.inl le_rfl)⟩ (strings.imp ?_)
  rintro u t ⟨low,high,hit⟩
  exact ⟨by omega,by omega,hit⟩
lemma put_env_eq (words : List Nat) : ∀ (m : Memory) (addr : Nat), (∀ w ∈ words, w ≠ 0) ->
 put_env m addr words = (put_words m addr words,addr + 4 * words.length) := by
 induction words with
 | nil => exact fun m addr _ => rfl
 | cons w words ih =>
  intro m addr some
  rw [put_env,put_words]
  simp only [if_neg (some w (by simp)),ih _ _ (fun w mem => some w (by simp [mem])),length_cons]
  congr 1
  omega
lemma put_words_append (fst : List Nat) : ∀ (m : Memory) (addr : Nat) (second : List Nat),
 put_words m addr (fst ++ second) = put_words (put_words m addr fst) (addr + 4 * fst.length) second := by
 induction fst with
 | nil => exact fun m addr second => rfl
 | cons w fst ih =>
  intro m addr second
  rw [cons_append,put_words,put_words,ih,length_cons,show addr + 4 + 4 * fst.length = addr + 4 * (fst.length + 1) by omega]

end
structure Call where
 proc_space_base : Nat
 uid : BitVec 32
 argv : List CString
 environ_arg : Option (List CString)
 default_env : List CString
 fits : 1 + (ATEGID + 2) * 8 + total ((environ_arg.getD default_env).take 31) + total (argv.take 31) +
  4 * (min (environ_arg.getD default_env).length 31 + 1) + 4 * (min argv.length 31 + 1) + 4 ≤
   USER_STACK_ADDR_END - USER_STACK_ADDR

namespace Call
variable (c : Call)
def argc : Nat := min c.argv.length 31
def args : List CString := c.argv.take 31
def env : List CString := (c.environ_arg.getD c.default_env).take 31

end Call
def aux : Nat := USER_STACK_ADDR_END - 1 - (ATEGID + 2) * 8

/-- What the program finds at its stack pointer `p`. Each part ends where the next one above begins, or before. -/
def LaidOut (c : Call) (m : Memory) (p : Nat) : Prop :=
 ∃ argv env : List Nat,
  WordsAt m c.proc_space_base p ([c.argc] ++ argv ++ [0] ++ env ++ [0]) ∧
  List.Forall₂ (fun v (s : CString) => StringAt m c.proc_space_base v s.val) argv c.args ∧
  List.Forall₂ (fun v (s : CString) => StringAt m c.proc_space_base v s.val) env c.env ∧
  WordsAt m c.proc_space_base aux (auxvec c.uid) ∧
  ([(aux,4 * (auxvec c.uid).length)] ++ zipWith block env c.env ++ zipWith block argv c.args ++
   [(p,4 * (argv.length + env.length + 3))]).Pairwise Below
lemma WordsAt.append {m : Memory} {base a : Nat} {fst snd : List Nat} (pre : WordsAt m base a fst)
 (after : WordsAt m base (a + 4 * fst.length) snd) : WordsAt m base a (fst ++ snd) := by
 intro i mem
 by_cases early : i < fst.length
 · rw [getElem_append_left early]
   exact pre i early
 rw [getElem_append_right (by omega)]
 have hit := after (i - fst.length) (by rw [length_append] at mem; omega)
 rwa [show a + 4 * fst.length + 4 * (i - fst.length) = a + 4 * i by omega] at hit
lemma tables_spec (base : Nat) (m : Memory) {z argc : Nat} {argv env : List Nat} (user : z < 2^32)
  (room : 4 * (env.length + 1) + 4 * (argv.length + 1) + 4 ≤ z) (count : argc < 2^32)
  (small : ∀ w ∈ argv ++ env, w < 2^32) :
  let e := z - 4 * (env.length + 1)
  let t := e - 4 * (argv.length + 1)
  let m' := put_words (put_words (put_words m (base + e) (env ++ [0])) (base + t) (argv ++ [0])) (base + (t - 4)) [argc]
  Outside base (t - 4) z m m' ∧ WordsAt m' base (t - 4) ([argc] ++ argv ++ [0] ++ env ++ [0]) := by
 intro e t m'
 have place : e = z - 4 * (env.length + 1) := rfl
 have place' : t = e - 4 * (argv.length + 1) := rfl
 have zero : ∀ l : List Nat, (∀ w ∈ l, w < 2^32) -> ∀ w ∈ l ++ [0], w < 2^32 := by
  intro l each w mem
  rcases mem_append.mp mem with inside | last
  · exact each w inside
  rw [mem_singleton.mp last]
  decide
 have envStores := put_words_outside base (env ++ [0]) m e (by simp; omega)
 have argStores := put_words_outside base (argv ++ [0]) (put_words m (base + e) (env ++ [0])) t (by simp; omega)
 have countStores := put_words_outside base [argc]
  (put_words (put_words m (base + e) (env ++ [0])) (base + t) (argv ++ [0])) (t - 4) (by simp; omega)
 have envWords := put_words_at base (env ++ [0]) m e (by simp; omega)
  (zero env (fun w mem => small w (by simp [mem])))
 have argWords := put_words_at base (argv ++ [0]) (put_words m (base + e) (env ++ [0])) t (by simp; omega)
  (zero argv (fun w mem => small w (by simp [mem])))
 have countWords := put_words_at base [argc]
  (put_words (put_words m (base + e) (env ++ [0])) (base + t) (argv ++ [0])) (t - 4) (by simp; omega) (by simpa using count)
 simp only [length_append,length_singleton] at envStores argStores countStores
 constructor
 · refine ((envStores.mono (by omega) (by omega)).trans (argStores.mono (by omega) (by omega))).trans
    (countStores.mono (by omega) (by omega))
 have envKept := (envWords.kept argStores (by simp; omega) (.inl (by omega))).kept countStores (by simp; omega)
  (.inl (by omega))
 have argKept := argWords.kept countStores (by simp; omega) (.inl (by omega))
 have pointers : WordsAt m' base t (argv ++ [0] ++ (env ++ [0])) := by
  refine argKept.append ?_
  rw [length_append,length_singleton,show t + 4 * (argv.length + 1) = e by omega]
  exact envKept
 have whole : WordsAt m' base (t - 4) ([argc] ++ (argv ++ [0] ++ (env ++ [0]))) := by
  refine countWords.append ?_
  rw [length_singleton,show t - 4 + 4 * 1 = t by omega]
  exact pointers
 simpa only [append_assoc] using whole
lemma pointers_inside {a low : Nat} {l : List CString} {P : Nat -> CString -> Prop} {ptrs : List Nat}
 (strings : List.Forall₂ (fun v (s : CString) => low ≤ v ∧ v + s.val.length < a ∧ P v s) ptrs l) :
 ∀ v ∈ ptrs, low ≤ v ∧ v < a := by
 induction strings with
 | nil => simp
 | cons fst _ ih =>
  intro v mem
  rcases mem_cons.mp mem with rfl | mem
  · exact ⟨fst.1,by omega⟩
  · exact ih v mem
lemma strings_kept {base a low lo hi : Nat} {m m' : Memory} {l : List CString} {ptrs : List Nat}
 (strings : List.Forall₂ (fun v (s : CString) => low ≤ v ∧ v + s.val.length < a ∧ StringAt m base v s.val) ptrs l)
 (user : a ≤ 2^32) (stores : Outside base lo hi m m') (lt : hi ≤ low) :
 List.Forall₂ (fun v (s : CString) => StringAt m' base v s.val) ptrs l := by
 refine strings.imp ?_
 rintro v s ⟨least,most,hit⟩
 exact hit.kept stores (by omega) (.inl (by omega))
lemma take_count (l : List CString) : l.take (min l.length (MAX_EXEC_ARGS - 1)) = l.take 31 := by
 rw [show MAX_EXEC_ARGS - 1 = 31 from rfl]
 rcases Nat.le_total l.length 31 with short | long
 · rw [Nat.min_eq_left short,take_length,take_of_length_le short]
 · rw [Nat.min_eq_right long]
lemma auxvec_small (uid : BitVec 32) : ∀ w ∈ auxvec uid, w < 2^32 := by
 have bound := uid.isLt
 simp only [auxvec,ATEGID,forall_mem_cons]
 simp [bound]

namespace Call
variable (c : Call)
def envEnd : Nat := aux - total c.env
def argEnd : Nat := c.envEnd - total c.args
def envTable : Nat := c.argEnd - 4 * (c.env.length + 1)
def argTable : Nat := c.envTable - 4 * (c.args.length + 1)
lemma env_length : c.env.length = min (c.environ_arg.getD c.default_env).length 31 := by
 rw [env,length_take,Nat.min_comm]
lemma args_length : c.args.length = min c.argv.length 31 := by
 rw [args,length_take,Nat.min_comm]
structure Room : Prop where
 env : total c.env ≤ aux
 args : total c.args ≤ c.envEnd
 envTable : (c.env.length + 1) * 4 ≤ c.argEnd
 argTable : (c.args.length + 1) * 4 ≤ c.envTable
 count : 4 ≤ c.argTable
 real : 0 < c.envEnd
 user : aux + 4 * 24 ≤ 2^32
lemma room : c.Room := by
 have fits := c.fits
 have size : USER_STACK_ADDR_END = 0x5FFFF000 := rfl
 have bottom : USER_STACK_ADDR = 0x5F800000 := rfl
 have top : aux = 0x5FFFEF7F := rfl
 have last : ATEGID = 14 := rfl
 rw [<- env_length,<- args_length,<- env,<- args] at fits
 have envEnd : c.envEnd = aux - total c.env := rfl
 have argEnd : c.argEnd = c.envEnd - total c.args := rfl
 have envTable : c.envTable = c.argEnd - 4 * (c.env.length + 1) := rfl
 have argTable : c.argTable = c.envTable - 4 * (c.args.length + 1) := rfl
 constructor <;> omega
lemma envEnd_le : c.envEnd ≤ aux := Nat.sub_le _ _
lemma argEnd_le : c.argEnd ≤ c.envEnd := Nat.sub_le _ _
lemma tables_size : c.argTable - 4 + 4 * (c.args.length + c.env.length + 3) = c.argEnd := by
 obtain ⟨_,_,envRoom,argRoom,count,_,_⟩ := c.room
 have envTable : c.envTable = c.argEnd - 4 * (c.env.length + 1) := rfl
 have argTable : c.argTable = c.envTable - 4 * (c.args.length + 1) := rfl
 omega
lemma pointer_le : c.argTable - 4 ≤ c.argEnd := (Nat.le_add_right _ _).trans c.tables_size.le

end Call
lemma kesp_eq (c : Call) :
 c.proc_space_base + USER_STACK_ADDR_END - 1 - (ATEGID + 2) * 8 = c.proc_space_base + aux ∧
 c.proc_space_base + c.argEnd - (c.env.length + 1) * 4 = c.proc_space_base + c.envTable ∧
 c.proc_space_base + c.envTable - (c.args.length + 1) * 4 = c.proc_space_base + c.argTable ∧
 c.proc_space_base + c.argTable - 4 = c.proc_space_base + (c.argTable - 4) := by
 have room := c.room
 refine ⟨?_,?_,?_,Nat.add_sub_assoc room.count _⟩
 · rw [Nat.add_sub_assoc (by decide),Nat.add_sub_assoc (by decide),aux]
 · rw [Nat.add_sub_assoc room.envTable,Call.envTable,Nat.mul_comm]
 · rw [Nat.add_sub_assoc room.argTable,Call.argTable,Nat.mul_comm]
lemma put_eq (c : Call) {m m1 m2 : Memory}
 (envPut : put_strings c.proc_space_base (put_words m (c.proc_space_base + aux) (auxvec c.uid)) (c.proc_space_base + aux) c.env =
  (m1,c.proc_space_base + c.envEnd,places aux c.env))
 (argPut : put_strings c.proc_space_base m1 (c.proc_space_base + c.envEnd) c.args =
  (m2,c.proc_space_base + c.argEnd,places c.envEnd c.args))
 (real : ∀ w ∈ places aux c.env, w ≠ 0) :
 put_linux_style_argv m c.proc_space_base c.uid c.argv c.environ_arg c.default_env =
  (put_words (put_words (put_words m2 (c.proc_space_base + c.envTable) (places aux c.env ++ [0]))
   (c.proc_space_base + c.argTable) (places c.envEnd c.args ++ [0])) (c.proc_space_base + (c.argTable - 4)) [c.argc],
   c.argTable - 4) := by
 obtain ⟨start,envPlace,argPlace,countPlace⟩ := kesp_eq c
 have envCount : min (c.environ_arg.getD c.default_env).length (MAX_EXEC_ARGS - 1) = c.env.length := c.env_length.symm
 have argCount : min c.argv.length (MAX_EXEC_ARGS - 1) = c.args.length := c.args_length.symm
 have envTaken : (c.environ_arg.getD c.default_env).take c.env.length = c.env := by
  rw [<- envCount,take_count,Call.env]
 have argTaken : c.argv.take c.args.length = c.args := by
  rw [<- argCount,take_count,Call.args]
 simp only [put_linux_style_argv,start,envCount,argCount,envTaken,argTaken,envPut,argPut,envPlace,put_env_eq _ _ _ real,argPlace,
  countPlace,Nat.add_sub_cancel_left]
 rw [put_words_append,put_words_append,places_length,places_length,show c.args.length * 4 = 4 * c.args.length by omega]
 simp only [put_words,Call.argc,c.args_length]
lemma parts_stacked (c : Call) :
 Stacked (c.argTable - 4) (2^32) ([(aux,4 * (auxvec c.uid).length)] ++ zipWith block (places aux c.env) c.env ++
  zipWith block (places c.envEnd c.args) c.args ++ [(c.argTable - 4,4 * (c.args.length + c.env.length + 3))]) := by
 have room := c.room
 have top : Stacked aux (2^32) [(aux,4 * (auxvec c.uid).length)] := .single le_rfl room.user
 have strings := (top.append (blocks_stacked c.env aux room.env) c.envEnd_le (by decide)).append
  (blocks_stacked c.args c.envEnd room.args) c.argEnd_le (c.envEnd_le.trans (by decide))
 exact strings.append (.single le_rfl c.tables_size.le) c.pointer_le ((c.argEnd_le.trans c.envEnd_le).trans (by decide))

/-- For every call that fits, the program finds its stack laid out. -/
theorem stack_laid_out (c : Call) (m : Memory) :
 LaidOut c (put_linux_style_argv m c.proc_space_base c.uid c.argv c.environ_arg c.default_env).1
  (put_linux_style_argv m c.proc_space_base c.uid c.argv c.environ_arg c.default_env).2 := by
 have room := c.room
 have user : aux < 2^32 := by decide
 have argUser : c.envEnd < 2^32 := c.envEnd_le.trans_lt user
 have auxWords := put_words_at c.proc_space_base (auxvec c.uid) m aux room.user (auxvec_small c.uid)
 obtain ⟨m1,envPut,envStores,envStrings⟩ := put_strings_spec c.proc_space_base c.env
  (put_words m (c.proc_space_base + aux) (auxvec c.uid)) aux room.env user
 obtain ⟨m2,argPut,argStores,argStrings⟩ := put_strings_spec c.proc_space_base c.args m1 c.envEnd room.args argUser
 have envInside := pointers_inside envStrings
 have argInside := pointers_inside argStrings
 have small : ∀ w ∈ places c.envEnd c.args ++ places aux c.env, w < 2^32 := by
  intro w mem
  rcases mem_append.mp mem with arg | env
  · exact (argInside w arg).2.trans argUser
  · exact (envInside w env).2.trans user
 have count : c.argc < 2^32 := (Nat.min_le_right _ 31).trans_lt (by decide)
 have size : 4 * ((places aux c.env).length + 1) + 4 * ((places c.envEnd c.args).length + 1) + 4 ≤ c.argEnd := by
  have tables := c.tables_size
  rw [places_length,places_length]
  omega
 rw [put_eq c envPut argPut (fun w mem => (room.real.trans_le (envInside w mem).1).ne')]
 obtain ⟨tableStores,words⟩ := tables_spec c.proc_space_base m2 (c.argEnd_le.trans_lt argUser) size count small
 simp only [places_length] at tableStores words
 -- all that is stored after the strings of the environment is below them
 have stores : Outside c.proc_space_base (c.argTable - 4) c.envEnd m1 _ :=
  (argStores.mono c.pointer_le le_rfl).trans (tableStores.mono le_rfl c.argEnd_le)
 refine ⟨places c.envEnd c.args,places aux c.env,words,?_,?_,?_,?_⟩
 · exact strings_kept argStrings argUser.le tableStores le_rfl
 · exact strings_kept envStrings user.le stores le_rfl
 · exact (auxWords.kept envStores room.user (.inl le_rfl)).kept stores room.user (.inl c.envEnd_le)
 rw [places_length,places_length]
 exact (parts_stacked c).1
theorem stack_laid_out_two : ∃ c : Call, c.args.map Subtype.val = [[97],[98,99]] ∧ c.env.map Subtype.val = [[100],[]] ∧
 let r := put_linux_style_argv (fun _ => 0) c.proc_space_base c.uid c.argv c.environ_arg c.default_env
 LaidOut c r.1 r.2 :=
 ⟨⟨0x40000000,0,[⟨[97],by decide⟩,⟨[98,99],by decide⟩],none,[⟨[100],by decide⟩,⟨[],by decide⟩],by decide⟩,rfl,rfl,
  stack_laid_out _ _⟩

end Netbas.UserStack
