import Netbas.Arguments

/-!
How the environment of a program crosses `exec` (`ustack.c`). The strings are joined with newlines
on a page and taken apart at newlines and tabs (`environment_round_trip_iff`).
-/
namespace Netbas.EnvPage
open Fuel Arguments List
def ENV_CHAR_FLAGS : UInt8 := 10
def tab : UInt8 := 9
abbrev Text := List UInt8

variable {p p' : Page} {s i : Nat} {t : Text}
def strcat (p : Page) (add_char : Text) : Page := strcpy p (string p 0).length add_char
def save_env (p : Page) : List CString -> Page
 | [] => p
 | env :: rest => rest.foldl (fun p env => strcat (strcat p [ENV_CHAR_FLAGS]) env.val) (strcpy p 0 env.val)
def separates (c : UInt8) : Bool := c = ENV_CHAR_FLAGS || c = tab
def clear_separators : Nat -> Page -> Nat -> Option (Page × Nat)
 | 0, _, _ => none
 | fuel + 1, p, s => if separates (p s) then clear_separators fuel (Function.update p s 0) (s + 1) else some (p,s)
def skip_word : Nat -> Page -> Nat -> Option Nat
 | 0, _, _ => none
 | fuel + 1, p, s => if ¬separates (p s) ∧ p s ≠ 0 then skip_word fuel p (s + 1) else some s

/-- The pointers that are stored to `_envs`, and the page without separators. There is room for fewer than
  `MAX_EXEC_ARGS` of them, which is all that an environment has. -/
def parse_words : Nat -> Page -> Nat -> Option (List Nat × Page)
 | 0, _, _ => none
 | fuel + 1, p, s =>
  (clear_separators fuel p s).bind (fun (p,s) =>
   let found := if p s ≠ 0 then [s] else []
   (skip_word fuel p s).bind (fun s =>
    if p s ≠ 0 then (parse_words fuel p s).map (fun (rest,p') => (found ++ rest,p')) else some (found,p)))

/-- `cmd_line` is copied to the new page `page`; without a terminator in the first page of it, the copy runs
  out of that page. -/
def parse_environs (fuel : Nat) (cmd_line page : Page) : Option (List Nat × Page) :=
 if (string cmd_line 0).length < PAGE_SIZE then
  parse_words fuel (strncpy page 0 (string cmd_line 0) PAGE_SIZE) 0
 else none
def strings (parsed : List Nat × Page) : List Text := parsed.1.map (string parsed.2)
def decode (fuel : Nat) (cmd_line page : Page) : Option (List Text) := (parse_environs fuel cmd_line page).map strings
structure Environment where
 env : List CString
 few : env.length < MAX_EXEC_ARGS
 fits : (env.map (fun e => e.val.length + 1)).sum ≤ PAGE_SIZE
def pieces (t : Text) : List Text :=
 match _after : t.dropWhile separates with
 | [] => []
 | c :: rest => (c :: rest.takeWhile (fun c => !separates c)) :: pieces (rest.dropWhile (fun c => !separates c))
termination_by t.length
decreasing_by
 have fst := (dropWhile_suffix (l := t) separates).length_le
 have snd := (dropWhile_suffix (l := rest) (fun c => !separates c)).length_le
 rw [_after,length_cons] at fst
 omega
lemma pieces_none (none : t.dropWhile separates = []) : pieces t = [] := by
 rw [pieces]
 split
 · rfl
 rename_i after
 rw [none] at after
 cases after
variable {c : UInt8}
lemma pieces_some {rest : Text} (after : t.dropWhile separates = c :: rest) :
 pieces t = (c :: rest.takeWhile (fun c => !separates c)) :: pieces (rest.dropWhile (fun c => !separates c)) := by
 rw [pieces]
 split
 · rename_i none
   rw [none] at after
   cases after
 rename_i after'
 rw [after] at after'
 cases after'
 rfl
lemma head_word {rest : Text} (after : t.dropWhile separates = c :: rest) : separates c = false := by
 have fst := head_dropWhile_not separates (l := t) (by simp [after])
 simpa only [after,head_cons] using fst
variable {w : Text}
lemma mem_pieces (mem : w ∈ pieces t) :
 w ≠ [] ∧ (∀ c ∈ w, separates c = false) ∧ w <:+: t := by
 induction size : t.length using Nat.strong_induction_on generalizing t with
 | _ size ih =>
  have skipped := dropWhile_suffix (l := t) separates
  cases after : t.dropWhile separates with
  | nil =>
   rw [pieces_none after] at mem
   cases mem
  | cons c rest =>
   rw [pieces_some after] at mem
   rw [after] at skipped
   rcases mem_cons.mp mem with rfl | mem
   · refine ⟨by simp,fun d inside => ?_,?_⟩
     · rcases mem_cons.mp inside with rfl | inside
       · exact head_word after
       · simpa using mem_takeWhile_imp inside
     have word : c :: rest.takeWhile (fun c => !separates c) <+: c :: rest :=
      cons_prefix_cons.mpr ⟨rfl, takeWhile_prefix _⟩
     exact word.isInfix.trans skipped.isInfix
   have rest' := dropWhile_suffix (l := rest) fun c => !separates c
   have less := skipped.length_le
   rw [length_cons] at less
   obtain ⟨some,plain,inside⟩ := ih _ (by have := rest'.length_le; omega) mem rfl
   have tail : rest <:+ c :: rest := suffix_cons c rest
   exact ⟨some,plain,inside.trans ((rest'.trans tail).trans skipped).isInfix⟩
lemma pieces_separator (sep : separates c = true) (t : Text) : pieces (c :: t) = pieces t := by
 have skip : (c :: t).dropWhile separates = t.dropWhile separates := dropWhile_cons_of_pos sep
 cases after : t.dropWhile separates with
 | nil => rw [pieces_none after,pieces_none (skip.trans after)]
 | cons d rest => rw [pieces_some after,pieces_some (skip.trans after)]
lemma pieces_word (any : w ≠ []) (plain : ∀ c ∈ w, separates c = false)
 (ends : ∀ c ∈ t.head?, separates c = true) : pieces (w ++ t) = w :: pieces t := by
 obtain ⟨c,w,rfl⟩ := exists_cons_of_ne_nil any
 have fst : separates c = false := plain c (by simp)
 have after : ((c :: w) ++ t).dropWhile separates = c :: (w ++ t) := by
  rw [cons_append,dropWhile_cons_of_neg (by simp [fst])]
 have rest : ∀ d ∈ w, (!separates d) = true := fun d mem => by simp [plain d (by simp [mem])]
 have none : t.takeWhile (fun c => !separates c) = [] ∧ t.dropWhile (fun c => !separates c) = t := by
  cases t with
  | nil => exact ⟨rfl,rfl⟩
  | cons d t =>
   have sep := ends d (by simp)
   constructor
   · exact takeWhile_cons_of_neg (by simp [sep])
   · exact dropWhile_cons_of_neg (by simp [sep])
 rw [pieces_some after,takeWhile_append_of_pos rest,dropWhile_append_of_pos rest,none.1,none.2,append_nil]
lemma pieces_empty_iff : pieces t = [] ↔ ∀ c ∈ t, separates c = true := by
 rw [<- dropWhile_eq_nil_iff]
 cases after : t.dropWhile separates with
 | nil => exact iff_of_true (pieces_none after) rfl
 | cons c rest => exact iff_of_false (by rw [pieces_some after]; simp) (by simp)
def joined : List CString -> Text
 | [] => []
 | e :: rest => e.val ++ rest.flatMap (fun e => ENV_CHAR_FLAGS :: e.val)
def Plain (e : CString) : Prop := e.val ≠ [] ∧ ∀ c ∈ e.val, separates c = false
variable {env : List CString}
lemma pieces_joined (plain : ∀ e ∈ env, Plain e) : pieces (joined env) = env.map Subtype.val := by
 have sep : separates ENV_CHAR_FLAGS = true := by
  decide
 have later : ∀ rest : List CString, (∀ e ∈ rest, Plain e) ->
   pieces (rest.flatMap (fun e => ENV_CHAR_FLAGS :: e.val)) = rest.map Subtype.val ∧
   ∀ c ∈ (rest.flatMap (fun e => ENV_CHAR_FLAGS :: e.val)).head?, separates c = true := by
  intro rest
  induction rest with
  | nil => exact fun _ => ⟨pieces_none rfl,by simp⟩
  | cons e rest ih =>
   intro plain
   obtain ⟨words,ends⟩ := ih fun e mem => plain e (by simp [mem])
   obtain ⟨any,none⟩ := plain e (by simp)
   rw [flatMap_cons,cons_append,pieces_separator sep,pieces_word any none ends,words]
   exact ⟨rfl,by simp [sep]⟩
 cases env with
 | nil => exact pieces_none rfl
 | cons e rest =>
  obtain ⟨words,ends⟩ := later rest fun e mem => plain e (by simp [mem])
  obtain ⟨any,none⟩ := plain e (by simp)
  rw [joined,pieces_word any none ends,words,map_cons]
lemma stringAt_cons : StringAt p s (c :: t) ↔ p s = c ∧ StringAt p (s + 1) t := by
 constructor
 · rintro ⟨each,ends⟩
   refine ⟨each 0 (by simp),fun i mem => ?_,?_⟩
   · rw [show s + 1 + i = s + (i + 1) by omega]
     exact each (i + 1) (by simpa using mem)
   rw [show s + 1 + t.length = s + (t.length + 1) by omega]
   exact ends
 rintro ⟨fst,each,ends⟩
 refine ⟨fun i mem => ?_,?_⟩
 · cases i with
   | zero => exact fst
   | succ i =>
    rw [show s + (i + 1) = s + 1 + i by omega]
    exact each i (by simpa using mem)
 rw [length_cons,show s + (t.length + 1) = s + 1 + t.length by omega]
 exact ends
lemma stringAt_congr (hit : StringAt p s t) (eq : ∀ i, s ≤ i -> p' i = p i) : StringAt p' s t := by
 obtain ⟨each,ends⟩ := hit
 refine ⟨fun i mem => ?_,?_⟩
 · rw [eq _ (by omega)]
   exact each i mem
 rw [eq _ (by omega)]
 exact ends
lemma stringAt_drop (hit : StringAt p s (w ++ t)) : StringAt p (s + w.length) t := by
 induction w generalizing s with
 | nil => exact hit
 | cons c w ih =>
  rw [length_cons,show s + (w.length + 1) = s + 1 + w.length by omega]
  exact ih (stringAt_cons.mp hit).2
lemma strcat_string (text : CString) (more : Text) (hit : StringAt p 0 text.val)
 (le : text.val.length < PAGE_SIZE) : StringAt (strcat p more) 0 (text.val ++ more) := by
 have length : (string p 0).length = text.val.length := by
  rw [string_eq hit le]
 have added := strcpy_string more p text.val.length
 rw [strcat,length]
 refine ⟨fun i mem => ?_,?_⟩
 · rw [Nat.zero_add]
   by_cases old : i < text.val.length
   · rw [strcpy_before more p _ old,getElem_append_left old]
     have eq := hit.1 i old
     rwa [Nat.zero_add] at eq
   rw [getElem_append_right (by omega)]
   have eq := added.1 (i - text.val.length) (by rw [length_append] at mem; omega)
   rwa [show text.val.length + (i - text.val.length) = i by omega] at eq
 rw [Nat.zero_add,length_append]
 exact added.2
lemma save_env_string (any : env ≠ []) (fits : (env.map (fun e => e.val.length + 1)).sum ≤ PAGE_SIZE)
 (page : Page) : StringAt (save_env page env) 0 (joined env) ∧ 0 ∉ joined env ∧ (joined env).length < PAGE_SIZE := by
 have later : ∀ (rest : List CString) (p : Page) (text : CString), StringAt p 0 text.val ->
   text.val.length + (rest.map (fun e => e.val.length + 1)).sum < PAGE_SIZE ->
   ∃ whole : CString, whole.val = text.val ++ rest.flatMap (fun e => ENV_CHAR_FLAGS :: e.val) ∧
    whole.val.length < PAGE_SIZE ∧
    StringAt (rest.foldl (fun p env => strcat (strcat p [ENV_CHAR_FLAGS]) env.val) p) 0 whole.val := by
  intro rest
  induction rest with
  | nil =>
   intro p text hit le
   exact ⟨text,by simp,by simpa using le,hit⟩
  | cons e rest ih =>
   intro p text hit le
   simp only [map_cons,sum_cons] at le
   have ne0 : (0 : UInt8) ∉ text.val ++ [ENV_CHAR_FLAGS] := by
    simp only [mem_append,mem_singleton,not_or]
    exact ⟨text.property,by decide⟩
   have more : (0 : UInt8) ∉ (text.val ++ [ENV_CHAR_FLAGS]) ++ e.val := by
    simp only [mem_append (s := text.val ++ [ENV_CHAR_FLAGS]),not_or]
    exact ⟨ne0,e.property⟩
   have newline := strcat_string text [ENV_CHAR_FLAGS] hit (by omega)
   have entry := strcat_string ⟨_,ne0⟩ e.val newline (by simp; omega)
   obtain ⟨whole,eq,length,string⟩ := ih _ ⟨_,more⟩ entry (by simp only [length_append,length_singleton]; omega)
   exact ⟨whole,by simp [eq],length,string⟩
 obtain ⟨e,rest,rfl⟩ := exists_cons_of_ne_nil any
 rw [map_cons,sum_cons] at fits
 obtain ⟨whole,eq,length,string⟩ := later rest _ e (strcpy_string e.val page 0) (by omega)
 rw [joined,<- eq]
 exact ⟨string,whole.property,length⟩
lemma clear_returns (t : Text) : ∀ (p : Page) (s : Nat), StringAt p s t ->
 ∃ p', Returns (fun fuel => clear_separators fuel p s) (p',s + (t.takeWhile separates).length) ∧
  (∀ i, i < s ∨ s + (t.takeWhile separates).length ≤ i -> p' i = p i) ∧
  ∀ i, s ≤ i -> i < s + (t.takeWhile separates).length -> p' i = 0 := by
 induction t with
 | nil =>
  intro p s hit
  have zero : p s = 0 := hit.2
  have stop : separates (p s) = false := by
   rw [zero]
   rfl
  refine ⟨p,Returns.turn rfl (fun fuel => ?_) (returns_const _),fun _ _ => rfl,fun i low high => ?_⟩
  · rw [clear_separators,if_neg (by simp [stop])]
    rfl
  simp at high
  omega
 | cons c t ih =>
  intro p s hit
  obtain ⟨fst,rest⟩ := stringAt_cons.mp hit
  by_cases sep : separates c = true
  · have after : StringAt (Function.update p s 0) (s + 1) t :=
     stringAt_congr rest (fun i low => Function.update_of_ne (by omega) _ _)
    obtain ⟨p',ret,kept,cleared⟩ := ih _ _ after
    rw [takeWhile_cons_of_pos sep,length_cons]
    refine ⟨p',?_,fun i out => ?_,fun i low high => ?_⟩
    · rw [show s + ((t.takeWhile separates).length + 1) = s + 1 + (t.takeWhile separates).length by omega]
      exact Returns.turn rfl (fun fuel => by rw [clear_separators,fst,if_pos sep]) ret
    · rw [kept i (by omega),Function.update_of_ne (by omega)]
    by_cases here : i = s
    · rw [here,kept s (by omega),Function.update_self]
    · exact cleared i (by omega) (by omega)
  rw [takeWhile_cons_of_neg sep]
  refine ⟨p,Returns.turn rfl (fun fuel => ?_) (returns_const _),fun _ _ => rfl,fun i low high => ?_⟩
  · rw [clear_separators,fst,if_neg sep]
    rfl
  simp at high
  omega
lemma skip_returns (t : Text) : ∀ (p : Page) (s : Nat), StringAt p s t -> 0 ∉ t ->
 Returns (fun fuel => skip_word fuel p s) (s + (t.takeWhile (fun c => !separates c)).length) := by
 induction t with
 | nil =>
  intro p s hit _
  have stop : p s = 0 := hit.2
  exact Returns.turn rfl (fun fuel => by rw [skip_word,if_neg (by simp [stop])]; rfl) (returns_const _)
 | cons c t ih =>
  intro p s hit ne0
  obtain ⟨fst,rest⟩ := stringAt_cons.mp hit
  obtain ⟨ne,ne0⟩ : ¬0 = c ∧ 0 ∉ t := by
   simpa only [mem_cons,not_or] using ne0
  by_cases sep : separates c = true
  · rw [takeWhile_cons_of_neg (by simp [sep])]
    exact Returns.turn rfl (fun fuel => by rw [skip_word,fst,if_neg (by simp [sep])]; rfl) (returns_const _)
  rw [takeWhile_cons_of_pos (by simpa using sep),length_cons,
   show s + ((t.takeWhile (fun c => !separates c)).length + 1) =
    s + 1 + (t.takeWhile (fun c => !separates c)).length by omega]
  exact Returns.turn rfl (fun fuel => by rw [skip_word,fst,if_pos ⟨sep,fun eq => ne eq.symm⟩])
   (ih _ _ rest ne0)
lemma words_turn {q : Page} {a b : Nat} {r : List Nat × Page}
 (clears : Returns (fun fuel => clear_separators fuel p s) (q,a)) (skips : Returns (fun fuel => skip_word fuel q a) b)
 (goes : q b ≠ 0 -> Returns (fun fuel => parse_words fuel q b) r) (stops : q b = 0 -> r = ([],q)) :
 Returns (fun fuel => parse_words fuel p s) ((if q a ≠ 0 then [a] else []) ++ r.1,r.2) := by
 refine Returns.turn rfl (fun fuel => rfl) (clears.bind (skips.bind ?_))
 by_cases more : q b ≠ 0
 · simp only [if_pos more]
   exact (goes more).map fun r => ((if q a ≠ 0 then [a] else []) ++ r.1,r.2)
 simp only [if_neg more,stops (not_not.mp more),append_nil]
 exact returns_const _
lemma words_return {t : Text} {p : Page} {s : Nat} (there : StringAt p s t) (ne0 : 0 ∉ t) :
 ∃ ptrs p', Returns (fun fuel => parse_words fuel p s) (ptrs,p') ∧ (∀ i < s, p' i = p i) ∧
  (∀ c ∈ t.head?, separates c = true -> p' s = 0) ∧ List.Forall₂ (StringAt p') ptrs (pieces t) := by
 induction size : t.length using Nat.strong_induction_on generalizing t p s with
 | _ size ih =>
  obtain ⟨q,clears,kept,cleared⟩ := clear_returns t p s there
  have split : t.takeWhile separates ++ t.dropWhile separates = t := takeWhile_append_dropWhile
  obtain ⟨s',place⟩ : ∃ s', s + (t.takeWhile separates).length = s' := ⟨_,rfl⟩
  rw [place] at clears kept cleared
  have after : StringAt q s' (t.dropWhile separates) := by
   have rest : StringAt p s' (t.dropWhile separates) := by
    rw [<- place]
    exact stringAt_drop (split.symm ▸ there)
   exact stringAt_congr rest fun i low => kept i (.inr low)
  have fst : ∀ c ∈ t.head?, separates c = true -> q s = 0 := by
   intro c head separator
   cases t with
   | nil => cases head
   | cons d t =>
    cases head
    rw [takeWhile_cons_of_pos separator,length_cons] at place
    exact cleared s le_rfl (by omega)
  cases hit : t.dropWhile separates with
  | nil =>
   rw [hit] at after
   have stop : q s' = 0 := after.2
   refine ⟨[],q,?_,fun i low => kept i (.inl low),fst,?_⟩
   · have turn := words_turn (r := ([],q)) clears (skip_returns [] q s' after (by simp)) (fun more => absurd stop more)
      (fun _ => rfl)
     simpa [stop] using turn
   rw [pieces_none hit]
   exact List.Forall₂.nil
  | cons c rest =>
   rw [hit] at after split
   have word : separates c = false := head_word hit
   have start : q s' = c := (stringAt_cons.mp after).1
   have nonzero' : 0 ∉ c :: rest := fun mem => ne0 (split ▸ mem_append_right _ mem)
   have goes : q s' ≠ 0 := fun zero => nonzero' (by simp [<- zero,start])
   have divide : (c :: rest.takeWhile (fun c => !separates c)) ++ rest.dropWhile (fun c => !separates c) = c :: rest := by
    rw [cons_append,takeWhile_append_dropWhile]
   have skips := skip_returns (c :: rest) q s' after nonzero'
   rw [takeWhile_cons_of_pos (by simp [word])] at skips
   obtain ⟨w,isWord⟩ : ∃ w, c :: rest.takeWhile (fun c => !separates c) = w := ⟨_,rfl⟩
   obtain ⟨u,isRest⟩ : ∃ u, rest.dropWhile (fun c => !separates c) = u := ⟨_,rfl⟩
   rw [isWord] at skips
   rw [isWord,isRest] at divide
   have later : StringAt q (s' + w.length) u := stringAt_drop (divide.symm ▸ after)
   rw [pieces_some hit,isWord,isRest]
   -- the word is there once its end is cleared
   have hit' : ∀ p' : Page, (∀ i < s' + w.length, p' i = q i) -> p' (s' + w.length) = 0 -> StringAt p' s' w := by
    intro p' eq zero
    refine ⟨fun i inside => ?_,zero⟩
    rw [eq _ (by omega)]
    have char := after.1 i (by rw [<- divide,length_append]; omega)
    rw [char]
    simp only [<- divide]
    exact getElem_append_left inside
   cases u with
   | nil =>
    have stop : q (s' + w.length) = 0 := later.2
    refine ⟨[s'],q,?_,fun i low => kept i (.inl low),fst,?_⟩
    · have turn := words_turn (r := ([],q)) clears skips (fun more => absurd stop more) (fun _ => rfl)
      simpa [goes] using turn
    rw [pieces_none rfl]
    exact .cons (hit' q (fun _ _ => rfl) stop) .nil
   | cons d u =>
    have separator : separates d = true := by
     have head := head_dropWhile_not (fun c => !separates c) (l := rest) (by simp [isRest])
     simpa only [isRest,head_cons,Bool.not_eq_false'] using head
    have nonzero'' : 0 ∉ d :: u := fun mem => nonzero' (divide ▸ mem_append_right _ mem)
    have more : q (s' + w.length) ≠ 0 := fun zero => nonzero'' (by simp [<- zero,(stringAt_cons.mp later).1])
    have less : (d :: u).length < t.length := by
     have fst := congrArg List.length split
     have snd := congrArg List.length divide
     rw [length_append] at fst snd
     have some : 0 < w.length := by
      simp [<- isWord]
     omega
    obtain ⟨ptrs,p',ret,eq,ended,strings⟩ := ih _ (size ▸ less) later nonzero'' rfl
    refine ⟨s' :: ptrs,p',?_,fun i low => ?_,fun e head sep => ?_,.cons (hit' p' eq ?_) strings⟩
    · have turn := words_turn clears skips (fun _ => ret) (fun stop => absurd stop more)
      simpa [goes] using turn
    · rw [eq i (by omega),kept i (.inl low)]
    · have word : 0 < w.length := by simp [<- isWord]
      rw [eq s (by omega)]
      exact fst e head sep
    · exact ended d (by simp) separator
lemma forall₂_strings {ptrs : List Nat} {words : List Text} (hit : List.Forall₂ (StringAt p) ptrs words)
 (each : ∀ w ∈ words, 0 ∉ w ∧ w.length < PAGE_SIZE) : ptrs.map (string p) = words := by
 induction hit with
 | nil => rfl
 | @cons ptr w ptrs words fst _ ih =>
  obtain ⟨ne0,le⟩ := each w (by simp)
  have here : string p ptr = w := @string_eq p ptr ⟨w,ne0⟩ fst le
  rw [map_cons,ih (fun w mem => each w (by simp [mem])),here]
lemma decode_text (text : CString) {cmd_line : Page} (hit : StringAt cmd_line 0 text.val)
 (le : text.val.length < PAGE_SIZE) (page : Page) :
 Returns (fun fuel => decode fuel cmd_line page) (pieces text.val) := by
 have read := string_eq hit le
 have copied : StringAt (strncpy page 0 text.val PAGE_SIZE) 0 text.val := by
  rw [strncpy,take_of_length_le le.le]
  exact strcpy_string _ _ _
 obtain ⟨ptrs,p',ret,_,_,strings⟩ := words_return copied text.property
 have parsed : Returns (fun fuel => parse_environs fuel cmd_line page) (ptrs,p') := by
  simp only [parse_environs,read,if_pos le]
  exact ret
 have each : ∀ w ∈ pieces text.val, 0 ∉ w ∧ w.length < PAGE_SIZE := by
  intro w mem
  have inside := (mem_pieces mem).2.2
  exact ⟨fun zero => text.property (inside.subset zero),lt_of_le_of_lt inside.length_le le⟩
 have words : EnvPage.strings (ptrs,p') = pieces text.val := forall₂_strings strings each
 rw [<- words]
 exact parsed.map EnvPage.strings
lemma string_nonzero (p : Page) (s : Nat) : 0 ∉ string p s := by
 intro mem
 have := mem_takeWhile_imp mem
 simp at this
lemma takeWhile_next (q : UInt8 -> Bool) {l : List UInt8} (mem : (l.takeWhile q).length < l.length) :
 q l[(l.takeWhile q).length] = false := by
 induction l with
 | nil => simp at mem
 | cons c l ih =>
  by_cases ran : q c = true
  · simp only [takeWhile_cons_of_pos ran,length_cons,getElem_cons_succ] at mem ⊢
    exact ih (by omega)
  simp only [takeWhile_cons_of_neg ran,length_nil,getElem_cons_zero]
  exact Bool.eq_false_iff.mpr ran
lemma string_there (le : (string p s).length < PAGE_SIZE) : StringAt p s (string p s) := by
 obtain ⟨l,bytes⟩ : ∃ l, l = (range PAGE_SIZE).map (fun i => p (s + i)) := ⟨_,rfl⟩
 have read : string p s = l.takeWhile (· ≠ 0) := by
  rw [bytes,string]
 have count : l.length = PAGE_SIZE := by
  rw [bytes,length_map,length_range]
 have at_ : ∀ i (mem : i < l.length), l[i] = p (s + i) := by
  intro i mem
  simp [bytes]
 rw [read] at le ⊢
 have pre := takeWhile_prefix (l := l) fun c => decide (c ≠ 0)
 refine ⟨fun i mem => ?_,?_⟩
 · rw [<- at_ i (by omega)]
   exact (pre.getElem mem).symm
 rw [<- at_ _ (by omega)]
 simpa using takeWhile_next (fun c : UInt8 => decide (c ≠ 0)) (show _ < l.length by omega)
def Survives (e : Environment) (page : Page) : Prop :=
 (∀ entry ∈ e.env, Plain entry) ∧
  (e.env = [] -> (string page 0).length < PAGE_SIZE ∧ ∀ c ∈ string page 0, separates c = true)

/-- What was on the two pages before is arbitrary. -/
theorem environment_round_trip_iff (e : Environment) (page new : Page) :
 Returns (fun fuel => decode fuel (save_env page e.env) new) (e.env.map Subtype.val) ↔ Survives e page := by
 by_cases any : e.env = []
 · have saved : save_env page e.env = page := by
    rw [any]
    rfl
   rw [saved,any]
   rw [Survives]
   by_cases short : (string page 0).length < PAGE_SIZE
   · have there := string_there short
     have ne0 := string_nonzero page 0
     obtain ⟨text,read⟩ : ∃ text, string page 0 = text := ⟨_,rfl⟩
     rw [read] at there ne0 short ⊢
     have decoded := decode_text ⟨text,ne0⟩ there short new
     constructor
     · intro returns
       have none : pieces text = [] := (decoded.unique returns).symm
       exact ⟨by simp [any],fun _ => ⟨short,pieces_empty_iff.mp none⟩⟩
     rintro ⟨_,blank⟩
     rw [map_nil,<- pieces_empty_iff.mpr (blank any).2]
     exact decoded
   constructor
   · intro returns
     obtain ⟨fuel,done⟩ := returns.some_fuel
     rw [decode,parse_environs,if_neg short] at done
     cases done
   rintro ⟨_,text⟩
   exact absurd (text any).1 short
 obtain ⟨there,ne0,short⟩ := save_env_string any e.fits page
 have decoded := decode_text ⟨joined e.env,ne0⟩ there short new
 constructor
 · intro returns
   have eq := decoded.unique returns
   refine ⟨fun entry mem => ?_,fun none => absurd none any⟩
   have piece : entry.val ∈ pieces (joined e.env) := eq ▸ mem_map_of_mem mem
   exact ⟨(mem_pieces piece).1,(mem_pieces piece).2.1⟩
 rintro ⟨plain,_⟩
 rw [<- pieces_joined plain]
 exact decoded
lemma newline_fits : (0 : UInt8) ∉ [97,10,98] := by
 decide
def lines : Environment := ⟨[⟨[97,10,98],newline_fits⟩],by decide,by decide⟩
theorem newline_splits :
 ¬ Returns (fun fuel => decode fuel (save_env (fun _ => 0) lines.env) (fun _ => 0)) (lines.env.map Subtype.val) := by
 rintro ⟨_,returns⟩
 obtain eq | ⟨eq,_⟩ := returns 10
 · exact absurd eq (by decide +kernel)
 · exact absurd eq (by decide +kernel)

end Netbas.EnvPage
