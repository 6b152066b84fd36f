import Netbas.Bytes

/-!
Relocation of kernel modules (`elf_dll.c`). The image is changed in place, and the tables are read
anew at every step. `relocation_correct_iff` says when the words are what the object format asks
for.
-/
namespace Netbas.Relocation
open Bytes List Option
def ENOEXEC : Int := -8
def SHT_RELA : Nat := 4
def SHT_NOBITS : Nat := 8
def SHT_REL : Nat := 9
def SHN_ABS : Nat := 0xfff1
def ET_REL : Nat := 1
def EM_386 : Nat := 3
def EV_CURRENT : Nat := 1
def R_386_32 : Nat := 1
def R_386_PC32 : Nat := 2
def R_386_GLOB_DAT : Nat := 6
def R_386_JMP_SLOT : Nat := 7
def chars : Nat -> Memory -> Nat -> List UInt8
 | 0, _, _ => []
 | n + 1, m, addr => if peek m addr = 0 then [] else peek m addr :: chars n m (addr + 1)
section
variable (m : Memory)
def string (addr : Nat) : List UInt8 := chars (2^32) m addr

/-! ### The tables -/
section
variable (sect : Nat)
def sect_type : Nat := peek32 m (sect + 4)
def sect_flags : Nat := peek32 m (sect + 8)
def sect_offset : Nat := peek32 m (sect + 16)
def sect_size : Nat := peek32 m (sect + 20)
def sect_link : Nat := peek32 m (sect + 24)
def sect_info : Nat := peek32 m (sect + 28)
end
def sym_name (sym : Nat) : Nat := peek32 m sym
def sym_value (sym : Nat) : Nat := peek32 m (sym + 4)
def sym_section (sym : Nat) : Nat := peek16 m (sym + 14)
def r_offset (reloc : Nat) : Nat := peek32 m reloc
def r_info (reloc : Nat) : Nat := peek32 m (reloc + 4)
def r_addend (reloc : Nat) : Nat := peek32 m (reloc + 8)
end
def ELF32_R_SYM (i : Nat) : Nat := i / 2^8
def ELF32_R_TYPE (i : Nat) : Nat := i % 2^8

section
variable (exported : List UInt8 -> Nat) (image : Nat)

section
variable (m : Memory)
def num_sects : Nat := peek16 m (image + 48)
def sect_at (i : Nat) : Nat := image + peek32 m (image + 32) + peek16 m (image + 46) * i
def reloc_size (type : Nat) : Option Nat :=
 if type = SHT_RELA then some 12 else if type = SHT_REL then some 8 else none

/-! ### The loader -/
/-- `exported` is what `find_sym` finds for a name, 0 when there is no such symbol. -/
def get_elf_sym (i symtab_sect : Nat) : Except Int Nat :=
 if num_sects image m ≤ symtab_sect then .error ENOEXEC
 else
  let sect := sect_at image m symtab_sect
  if sect_size m sect ≤ i then .error ENOEXEC
  else
   let sym := image + sect_offset m sect + 16 * i
   if sym_section m sym = 0 then
    let strtab := sect_at image m (sect_link m sect)
    let kern_addr := exported (string m (image + sect_offset m strtab + sym_name m sym))
    if kern_addr ≠ 0 then .ok kern_addr else .error (-1)
   else .ok (sym_value m sym + (image + sect_offset m (sect_at image m (sym_section m sym))))
def new_word (type sym_val w : Nat) : Option (Nat -> Nat) :=
 if type = R_386_32 then some (fun word => word + sym_val)
 else if type = R_386_PC32 then some (fun word => word + sym_val + (2^32 - w % 2^32))
 else if type = R_386_GLOB_DAT ∨ type = R_386_JMP_SLOT then some (fun _ => sym_val)
 else none
section
variable (reloc sect : Nat)
def place : Nat :=
 image + sect_offset m (sect_at image m (sect_info m sect)) + r_offset m reloc
def change : Except Int (Nat -> Nat) :=
 match get_elf_sym exported image m (ELF32_R_SYM (r_info m reloc)) (sect_link m sect) with
 | .error err => .error err
 | .ok sym_val =>
  match new_word (ELF32_R_TYPE (r_info m reloc)) sym_val (place image m reloc sect) with
  | some f => .ok f
  | none => .error ENOEXEC
def do_elf_reloc : Int × Memory :=
 match change exported image m reloc sect with
 | .error err => (err,m)
 | .ok f =>
  let w := place image m reloc sect
  (0,poke32 m w (f (peek32 m w) % 2^32))
end
def relocate_section (sect size : Nat) : Nat -> Nat -> Memory × Int -> Memory × Int
 | 0, _, s => s
 | fuel + 1, j, s =>
  if j < sect_size s.1 sect / size then
   let reloc := image + sect_offset s.1 sect + size * j
   let (res,m') := do_elf_reloc exported image s.1 reloc sect
   relocate_section sect size fuel (j + 1) (m',if res ≠ 0 then res else s.2)
  else s
def relocate : Nat -> Nat -> Memory × Int -> Memory × Int
 | 0, _, s => s
 | fuel + 1, i, s =>
  if i < num_sects image s.1 then
   let sect := sect_at image s.1 i
   match reloc_size (sect_type s.1 sect) with
   | none => relocate fuel (i + 1) s
   | some size => relocate fuel (i + 1) (relocate_section exported image sect size (2^32) 0 s)
  else s
def first_nobits : Option Nat :=
 (List.range (num_sects image m)).find? (fun i => sect_type m (sect_at image m i) = SHT_NOBITS)
def ALIGN (size : Nat) : Nat := (size + 3) / 4 * 4
def place_bss (i bss : Nat) : Memory :=
 let sect := sect_at image m i
 let cleared : Memory := fun a => if (a + 2^32 - bss % 2^32) % 2^32 < ALIGN (sect_size m sect) then 0 else m a
 poke32 cleared (sect + 16) ((bss + 2^32 - image % 2^32) % 2^32)
def placed (bss : Option Nat) : Memory :=
 match first_nobits image m, bss with
 | some i, some bss => place_bss image m i bss
 | _, _ => m
def valid : Int :=
 if ¬ (peek m image = 0x7f ∧ peek m (image + 1) = 0x45 ∧ peek m (image + 2) = 0x4c ∧ peek m (image + 3) = 0x46) then 1
 else if peek m (image + 4) ≠ 1 then ENOEXEC
 else if peek m (image + 5) ≠ 1 then ENOEXEC
 else if peek m (image + 6) ≠ 1 then ENOEXEC
 else if peek16 m (image + 16) ≠ ET_REL then ENOEXEC
 else if peek16 m (image + 18) ≠ EM_386 then ENOEXEC
 else if peek32 m (image + 20) ≠ EV_CURRENT then ENOEXEC
 else 0
structure Module where
 text_address : Nat
 data_address : Nat
 bss : Nat
 bss_size : Nat
deriving DecidableEq

/-- The fields for the section without bytes are set before the answer of `kcalloc` is looked at. -/
def note_bss (bss : Option Nat) (mod : Module) : Module :=
 match first_nobits image m with
 | none => mod
 | some i =>
  let sect := sect_at image m i
  {mod with data_address := (image + sect_offset m sect) % 2^32, bss_size := sect_size m sect, bss := bss.getD 0}
def first_text : Option Nat :=
 (List.range (num_sects image m)).find? (fun i => sect_flags m (sect_at image m i) &&& 4 ≠ 0)
def find_text (mod : Module) : Int × Module :=
 match first_text image m with
 | none => (ENOEXEC,mod)
 | some i =>
  let start_point := (image + sect_offset m (sect_at image m i)) % 2^32
  (if start_point = 0 then ENOEXEC else 0,{mod with text_address := start_point})

/-- `main` is what `get_main_elf_sym` returns, which only reads the image. -/
def load_elf_relocatable (mod : Module) (bss : Option Nat) (main : Memory -> Int) : Int × Memory × Module :=
 if valid image m ≠ 0 then (valid image m,m,mod)
 else
  let mod := note_bss image m bss mod
  if first_nobits image m ≠ none ∧ bss = none then (ENOEXEC,m,mod)
  else
   let (m',err) := relocate exported image (2^16) 0 (placed image m bss,0)
   if err ≠ 0 then (err,m',mod)
   else if main m' ≠ 0 then (main m',m',mod)
   else
    let (rc,mod) := find_text image m' mod
    (rc,m',mod)

/-! ### What the object format asks for -/
structure Entry where
 sect : Nat
 reloc : Nat
 size : Nat
deriving DecidableEq
def section_entries (sect : Nat) : List Entry :=
 match reloc_size (sect_type m sect) with
 | none => []
 | some size =>
  (List.range (sect_size m sect / size)).map (fun j => ⟨sect,image + sect_offset m sect + size * j,size⟩)
def entries : List Entry :=
 (List.range (num_sects image m)).flatMap (fun i => section_entries image m (sect_at image m i))
section
variable (e : Entry)
def word : Nat := place image m e.reloc e.sect
def type : Nat := ELF32_R_TYPE (r_info m e.reloc)
def symbol : Nat :=
 image + sect_offset m (sect_at image m (sect_link m e.sect)) + 16 * ELF32_R_SYM (r_info m e.reloc)
def symbol_name : Nat :=
 image + sect_offset m (sect_at image m (sect_link m (sect_at image m (sect_link m e.sect)))) +
  sym_name m (symbol image m e)
def Loaded (i : Nat) : Prop :=
 i < num_sects image m ∧ (sect_type m (sect_at image m i) = SHT_NOBITS -> first_nobits image m = some i)
instance (m : Memory) (i : Nat) : Decidable (Loaded image m i) := inferInstanceAs (Decidable (_ ∧ _))

/-- The value of an entry's symbol. It has none in a section that was not loaded. -/
def address : Option Nat :=
 let sym := symbol image m e
 if sym_section m sym = 0 then some (exported (string m (symbol_name image m e)))
 else if sym_section m sym = SHN_ABS then some (sym_value m sym)
 else if Loaded image m (sym_section m sym) then
  some (sym_value m sym + (image + sect_offset m (sect_at image m (sym_section m sym))))
 else none

/-- The addend: the entry's own, or the word before any relocation. -/
def addend : Nat :=
 if e.size = 12 then r_addend m e.reloc else peek32 m (word image m e)
end
end

/-- The word of an entry is as the format asks. `m` is the image with its sections placed. -/
structure Relocated (m final : Memory) (e : Entry) : Prop where
 absolute : type m e = R_386_32 -> ∃ value ∈ address exported image m e,
  peek32 final (word image m e) = (value + addend image m e) % 2^32
 relative : type m e = R_386_PC32 -> ∃ value ∈ address exported image m e,
  peek32 final (word image m e) = (value + addend image m e + (2^32 - word image m e % 2^32)) % 2^32

/-- Every word is as the format asks, and every other byte of the image is as in the file, apart from the offsets
  in the section headers. -/
structure Correct (len : Nat) (original : Memory) (bss : Option Nat) (final : Memory) : Prop where
 relocated : ∀ e ∈ entries image (placed image original bss),
  Relocated exported image (placed image original bss) final e
 unchanged : ∀ k < len,
  (∀ e ∈ entries image (placed image original bss), Apart (word image (placed image original bss) e) 4 (image + k) 1) ->
  (∀ i < num_sects image original, Apart (sect_at image original i + 16) 4 (image + k) 1) ->
  peek final (image + k) = peek original (image + k)

/-! ### Well-formed images -/
section
variable (m : Memory)
def header (i : Nat) : Nat × Nat := (sect_at image m i,40)
def entry_reads (e : Entry) : List (Nat × Nat) :=
 [(e.reloc,e.size),(symbol image m e,16),header image m (sect_info m e.sect),header image m (sect_link m e.sect)] ++
  if sym_section m (symbol image m e) = 0 then
   [header image m (sect_link m (sect_at image m (sect_link m e.sect))),
    (symbol_name image m e,(string m (symbol_name image m e)).length + 1)]
  else []
def consulted : List (Nat × Nat) :=
 (image,52) :: (List.range (num_sects image m)).map (header image m) ++ (entries image m).flatMap (entry_reads image m)

/-- The relocated words are pairwise disjoint, none is part of a table, and the memory that `kcalloc` gives
  is not in the image. -/
structure WellFormed (len : Nat) (original : Memory) (bss : Option Nat) : Prop where
 words : (entries image (placed image original bss)).Pairwise (fun e e' =>
  Apart (word image (placed image original bss) e) 4 (word image (placed image original bss) e') 4)
 tables : ∀ e ∈ entries image (placed image original bss), ∀ span ∈ consulted image (placed image original bss),
  Apart (word image (placed image original bss) e) 4 span.1 span.2
 fresh : ∀ i ∈ first_nobits image original, ∀ start ∈ bss,
  Apart start (ALIGN (sect_size original (sect_at image original i))) image len

/-! ### The loops go through the entries -/
def turn (s : Memory × Int) (e : Entry) : Memory × Int :=
 let (res,m') := do_elf_reloc exported image s.1 e.reloc e.sect
 (m',if res ≠ 0 then res else s.2)
def reached (e : Entry) : Memory :=
 (((entries image m).takeWhile (fun ne => ne ≠ e)).foldl (turn exported image) (m,0)).1
end
def Agree (m0 m : Memory) : Prop :=
 ∀ span ∈ consulted image m0, ∀ i < span.2, peek m (span.1 + i) = peek m0 (span.1 + i)
def Clear (m0 : Memory) : Prop :=
 ∀ e ∈ entries image m0, ∀ span ∈ consulted image m0, Apart (word image m0 e) 4 span.1 span.2

variable {exported} {image} {m0 m : Memory} {e : Entry} {s : Memory × Int}

section
variable (agree : Agree image m0 m)
include agree
private lemma Agree.word32 {a n off : Nat} (member : (a,n) ∈ consulted image m0)
 (fits : off + 4 ≤ n) : peek32 m (a + off) = peek32 m0 (a + off) := by
 apply peek32_congr
 intro i low
 rw [Nat.add_assoc]
 exact agree _ member (off + i) (by simp only; omega)

private lemma Agree.word16 {a n off : Nat} (member : (a,n) ∈ consulted image m0)
 (fits : off + 2 ≤ n) : peek16 m (a + off) = peek16 m0 (a + off) := by
 apply peek16_congr
 intro i low
 rw [Nat.add_assoc]
 exact agree _ member (off + i) (by simp only; omega)

private lemma Agree.header_word {i off : Nat} (member : header image m0 i ∈ consulted image m0)
 (fits : off + 4 ≤ 40) : peek32 m (sect_at image m0 i + off) = peek32 m0 (sect_at image m0 i + off) :=
 agree.word32 member fits
end

private lemma file_consulted (m : Memory) : (image,52) ∈ consulted image m := by
 simp [consulted]

private lemma header_consulted {i : Nat} (low : i < num_sects image m) :
 header image m i ∈ consulted image m := by
 simp only [consulted,header,cons_append,mem_cons,mem_append,List.mem_map,mem_range]
 exact Or.inr (Or.inl ⟨i,low,rfl⟩)

private lemma entry_consulted {span : Nat × Nat} (member : e ∈ entries image m)
 (read : span ∈ entry_reads image m e) : span ∈ consulted image m := by
 rw [consulted]
 exact mem_append_right _ (mem_flatMap.mpr ⟨e,member,read⟩)

private lemma Agree.num_sects_eq (agree : Agree image m0 m) : num_sects image m = num_sects image m0 :=
 agree.word16 (file_consulted m0) (by norm_num)

private lemma Agree.sect_at_eq (agree : Agree image m0 m) (i : Nat) : sect_at image m i = sect_at image m0 i := by
 rw [sect_at,sect_at,agree.word32 (file_consulted m0) (by norm_num),agree.word16 (file_consulted m0) (by norm_num)]

private lemma mem_entries : e ∈ entries image m ↔ ∃ i < num_sects image m, ∃ size,
 reloc_size (sect_type m (sect_at image m i)) = some size ∧ ∃ j < sect_size m (sect_at image m i) / size,
  e = ⟨sect_at image m i,image + sect_offset m (sect_at image m i) + size * j,size⟩ := by
 simp only [entries,mem_flatMap,mem_range,section_entries]
 constructor
 · rintro ⟨i,low,member⟩
   cases kind : reloc_size (sect_type m (sect_at image m i)) with
   | none => simp [kind] at member
   | some size =>
    simp only [kind,List.mem_map,mem_range] at member
    obtain ⟨j,bound,rfl⟩ := member
    exact ⟨i,low,size,kind,j,bound,rfl⟩
 rintro ⟨i,low,size,kind,j,bound,rfl⟩
 refine ⟨i,low,?_⟩
 simp only [kind,List.mem_map,mem_range]
 exact ⟨j,bound,rfl⟩

section
variable (member : e ∈ entries image m)
include member
private lemma size_ge : 8 ≤ e.size := by
 obtain ⟨i,-,size,kind,j,-,rfl⟩ := mem_entries.mp member
 show 8 ≤ size
 simp only [reloc_size] at kind
 split_ifs at kind <;> simp only [some.injEq] at kind <;> omega

private lemma sect_consulted : (e.sect,40) ∈ consulted image m := by
 obtain ⟨i,low,size,-,j,-,rfl⟩ := mem_entries.mp member
 exact header_consulted low

private lemma reloc_consulted : (e.reloc,e.size) ∈ consulted image m :=
 entry_consulted member (by simp [entry_reads])
end

section
variable (agree : Agree image m0 m) (member : e ∈ entries image m0)
include agree member

private lemma Agree.r_info_eq :
 r_info m e.reloc = r_info m0 e.reloc :=
 agree.word32 (reloc_consulted member) (size_ge member)

private lemma Agree.sect_link_eq :
 sect_link m e.sect = sect_link m0 e.sect :=
 agree.word32 (sect_consulted member) (by norm_num)

private lemma Agree.place_eq :
 place image m e.reloc e.sect = word image m0 e := by
 have info : sect_info m e.sect = sect_info m0 e.sect := agree.word32 (sect_consulted member) (by norm_num)
 have target : sect_offset m (sect_at image m0 (sect_info m0 e.sect)) =
   sect_offset m0 (sect_at image m0 (sect_info m0 e.sect)) :=
  agree.header_word (entry_consulted member (by simp [entry_reads])) (by norm_num)
 have offset : r_offset m e.reloc = r_offset m0 e.reloc := by
  have size := size_ge member
  have fst : peek32 m (e.reloc + 0) = peek32 m0 (e.reloc + 0) := agree.word32 (reloc_consulted member) (by omega)
  exact fst
 rw [place,word,place,info,agree.sect_at_eq,target,offset]

end

private lemma change_ok {reloc sect : Nat} {f : Nat -> Nat} (changed : change exported image m reloc sect = .ok f) :
 ∃ sym_val, get_elf_sym exported image m (ELF32_R_SYM (r_info m reloc)) (sect_link m sect) = .ok sym_val ∧
  new_word (ELF32_R_TYPE (r_info m reloc)) sym_val (place image m reloc sect) = some f := by
 rw [change] at changed
 cases found : get_elf_sym exported image m (ELF32_R_SYM (r_info m reloc)) (sect_link m sect) with
 | error err => simp [found] at changed
 | ok sym_val =>
  simp only [found] at changed
  refine ⟨sym_val,rfl,?_⟩
  split at changed
  next f' chosen => rw [chosen,Except.ok.inj changed]
  next => cases changed

private lemma change_error {reloc sect : Nat} {err : Int}
 (failed : change exported image m reloc sect = .error err) : err ≠ 0 := by
 rw [change] at failed
 cases found : get_elf_sym exported image m (ELF32_R_SYM (r_info m reloc)) (sect_link m sect) with
 | error ne =>
  simp only [found,Except.error.injEq] at failed
  simp only [get_elf_sym] at found
  split_ifs at found <;> simp only [Except.error.injEq,ENOEXEC] at found <;> omega
 | ok sym_val =>
  simp only [found] at failed
  split at failed
  · cases failed
  simp only [Except.error.injEq,ENOEXEC] at failed
  omega

private lemma turn_other (agree : Agree image m0 s.1) (member : e ∈ entries image m0) {addr : Nat}
 (apart : Apart (word image m0 e) 4 addr 1) : peek (turn exported image s e).1 addr = peek s.1 addr := by
 simp only [turn,do_elf_reloc]
 cases change exported image s.1 e.reloc e.sect with
 | error err => rfl
 | ok f =>
  simp only [agree.place_eq member]
  exact peek_poke32_of_apart fun i low => apart i low 0 (by norm_num)

section
variable (clear : Clear image m0)
include clear
private lemma turn_agree (agree : Agree image m0 s.1) (member : e ∈ entries image m0) :
 Agree image m0 (turn exported image s e).1 := by
 intro span read i low
 refine (turn_other agree member ?_).trans (agree span read i low)
 intro j high k one
 rw [show span.1 + i + k = span.1 + i by omega]
 exact clear e member span read j high i low

private lemma run_agree {es : List Entry} : ∀ {s : Memory × Int}, Agree image m0 s.1 ->
 (∀ e ∈ es, e ∈ entries image m0) -> Agree image m0 (es.foldl (turn exported image) s).1 := by
 induction es with
 | nil => intro s agree _; exact agree
 | cons e rest ih =>
  intro s agree mem
  rw [foldl_cons]
  exact ih (turn_agree clear agree (mem e (by simp))) fun ne member => mem ne (by simp [member])

private lemma run_other {es : List Entry} {addr : Nat} : ∀ {s : Memory × Int},
 Agree image m0 s.1 -> (∀ e ∈ es, e ∈ entries image m0) -> (∀ e ∈ es, Apart (word image m0 e) 4 addr 1) ->
 peek (es.foldl (turn exported image) s).1 addr = peek s.1 addr := by
 induction es with
 | nil => intro s _ _ _; rfl
 | cons e rest ih =>
  intro s agree mem apart
  have fst := mem e (by simp)
  rw [foldl_cons]
  refine (ih (turn_agree clear agree fst) (fun ne member => mem ne (by simp [member]))
   (fun ne member => apart ne (by simp [member]))).trans ?_
  exact turn_other agree fst (apart e (by simp))

private lemma run_word_other {es : List Entry} {addr : Nat} (agree : Agree image m0 s.1)
 (mem : ∀ e ∈ es, e ∈ entries image m0) (apart : ∀ e ∈ es, Apart (word image m0 e) 4 addr 4) :
 peek32 (es.foldl (turn exported image) s).1 addr = peek32 s.1 addr := by
 apply peek32_congr
 intro i low
 apply run_other clear agree mem
 intro e member j high k one
 rw [show addr + i + k = addr + i by omega]
 exact apart e member j high i low
end

private lemma run_error {es : List Entry} : ∀ {s : Memory × Int},
 (es.foldl (turn exported image) s).2 = 0 -> s.2 = 0 := by
 induction es with
 | nil => intro s done; exact done
 | cons e rest ih =>
  intro s done
  have next := ih done
  simp only [turn] at next
  split_ifs at next with failed
  · exact absurd next failed
  · exact next

private lemma relocate_section_turn {sect size fuel j : Nat} (more : j < sect_size s.1 sect / size) :
 relocate_section exported image sect size (fuel + 1) j s =
  relocate_section exported image sect size fuel (j + 1)
   (turn exported image s ⟨sect,image + sect_offset s.1 sect + size * j,size⟩) := by
 rw [relocate_section,if_pos more]
 simp only [turn]

section
variable (clear : Clear image m0)
include clear
private lemma relocate_section_eq {i size : Nat} (low : i < num_sects image m0)
 (kind : reloc_size (sect_type m0 (sect_at image m0 i)) = some size) : ∀ (k fuel j : Nat) (s : Memory × Int),
 Agree image m0 s.1 -> j + k = sect_size m0 (sect_at image m0 i) / size -> k ≤ fuel ->
 relocate_section exported image (sect_at image m0 i) size fuel j s =
  ((List.range' j k).map (fun j => Entry.mk (sect_at image m0 i)
   (image + sect_offset m0 (sect_at image m0 i) + size * j) size)).foldl (turn exported image) s := by
 intro k
 induction k with
 | zero =>
  intro fuel j s agree total enough
  have length : sect_size s.1 (sect_at image m0 i) = sect_size m0 (sect_at image m0 i) :=
   agree.header_word (header_consulted low) (by norm_num)
  cases fuel with
  | zero => rfl
  | succ fuel =>
   rw [relocate_section,if_neg (by rw [length]; omega)]
   rfl
 | succ k ih =>
  intro fuel j s agree total enough
  have length : sect_size s.1 (sect_at image m0 i) = sect_size m0 (sect_at image m0 i) :=
   agree.header_word (header_consulted low) (by norm_num)
  have start : sect_offset s.1 (sect_at image m0 i) = sect_offset m0 (sect_at image m0 i) :=
   agree.header_word (header_consulted low) (by norm_num)
  have member : Entry.mk (sect_at image m0 i) (image + sect_offset m0 (sect_at image m0 i) + size * j) size ∈
    entries image m0 := mem_entries.mpr ⟨i,low,size,kind,j,by omega,rfl⟩
  cases fuel with
  | zero => omega
  | succ fuel =>
   rw [relocate_section_turn (by rw [length]; omega),start,range'_succ,map_cons,foldl_cons]
   exact ih fuel (j + 1) _ (turn_agree clear agree member) (by omega) (by omega)

private lemma relocate_eq : ∀ (k fuel i : Nat) (s : Memory × Int),
 Agree image m0 s.1 -> i + k = num_sects image m0 -> k ≤ fuel ->
 relocate exported image fuel i s =
  ((List.range' i k).flatMap (fun i => section_entries image m0 (sect_at image m0 i))).foldl (turn exported image) s := by
 intro k
 induction k with
 | zero =>
  intro fuel i s agree total enough
  cases fuel with
  | zero => rfl
  | succ fuel =>
   rw [relocate,if_neg (by rw [agree.num_sects_eq]; omega)]
   rfl
 | succ k ih =>
  intro fuel i s agree total enough
  have low : i < num_sects image m0 := by omega
  have eq : sect_type s.1 (sect_at image m0 i) = sect_type m0 (sect_at image m0 i) :=
   agree.header_word (header_consulted low) (by norm_num)
  cases fuel with
  | zero => omega
  | succ fuel =>
   rw [relocate,if_pos (by rw [agree.num_sects_eq]; omega),range'_succ,flatMap_cons,foldl_append]
   simp only [agree.sect_at_eq,eq]
   cases kind : reloc_size (sect_type m0 (sect_at image m0 i)) with
   | none =>
    have empty : section_entries image m0 (sect_at image m0 i) = [] := by simp [section_entries,kind]
    rw [empty]
    exact ih fuel (i + 1) s agree (by omega) (by omega)
   | some size =>
    have listed : section_entries image m0 (sect_at image m0 i) =
      (List.range' 0 (sect_size m0 (sect_at image m0 i) / size)).map (fun j => Entry.mk (sect_at image m0 i)
       (image + sect_offset m0 (sect_at image m0 i) + size * j) size) := by
     simp [section_entries,kind,range_eq_range']
    have bound : sect_size m0 (sect_at image m0 i) / size ≤ 2^32 :=
     (Nat.div_le_self _ _).trans (peek32_lt _ _).le
    simp only
    rw [relocate_section_eq clear low kind _ _ 0 s agree (by omega) bound,<- listed]
    refine ih fuel (i + 1) _ (run_agree clear agree ?_) (by omega) (by omega)
    intro e member
    exact mem_flatMap.mpr ⟨i,mem_range.mpr low,member⟩
lemma relocate_entries :
 relocate exported image (2^16) 0 (m0,0) = (entries image m0).foldl (turn exported image) (m0,0) := by
 have bound : num_sects image m0 ≤ 2^16 := (peek16_lt _ _).le
 rw [relocate_eq clear (num_sects image m0) (2^16) 0 (m0,0) (fun _ _ _ _ => rfl) (by omega) bound,entries,
  range_eq_range']

/-! ### What a load leaves -/
lemma relocated_word
 (apart : (entries image m0).Pairwise (fun e e' => Apart (word image m0 e) 4 (word image m0 e') 4))
 (done : ((entries image m0).foldl (turn exported image) (m0,0)).2 = 0) (member : e ∈ entries image m0) :
 Agree image m0 (reached exported image m0 e) ∧
 ∃ f, change exported image (reached exported image m0 e) e.reloc e.sect = .ok f ∧
  peek32 ((entries image m0).foldl (turn exported image) (m0,0)).1 (word image m0 e) =
   f (peek32 m0 (word image m0 e)) % 2^32 := by
 obtain ⟨pre,after,split,new⟩ := eq_append_cons_of_mem member
 have mem : ∀ ne ∈ pre ++ e :: after, ne ∈ entries image m0 := by simp [split]
 have start : Agree image m0 (m0,(0 : Int)).1 := fun _ _ _ _ => rfl
 have fst : reached exported image m0 e = (pre.foldl (turn exported image) (m0,0)).1 := by
  rw [reached,split,takeWhile_append_of_pos]
  · simp
  intro ne there
  simp only [ne_eq,decide_not,Bool.not_eq_eq_eq_not,Bool.not_true,decide_eq_false_iff_not]
  rintro rfl
  exact new there
 have agree : Agree image m0 (pre.foldl (turn exported image) (m0,0)).1 :=
  run_agree clear start (fun ne there => mem ne (by simp [there]))
 rw [split] at apart
 obtain ⟨-,later,earlier⟩ := pairwise_append.mp apart
 have kept : peek32 (pre.foldl (turn exported image) (m0,0)).1 (word image m0 e) = peek32 m0 (word image m0 e) :=
  run_word_other clear start (fun ne there => mem ne (by simp [there]))
   (fun ne there => earlier ne there e (by simp))
 rw [split,foldl_append,foldl_cons] at done ⊢
 rw [run_word_other clear (turn_agree clear agree member) (fun ne there => mem ne (by simp [there]))
  (fun ne there => ((pairwise_cons.mp later).1 ne there).symm),fst]
 refine ⟨agree,?_⟩
 generalize pre.foldl (turn exported image) (m0,0) = s at agree kept done
 have fine := run_error done
 simp only [turn,do_elf_reloc] at fine ⊢
 cases changed : change exported image s.1 e.reloc e.sect with
 | error err =>
  have ne0 := change_error changed
  simp only [changed,ne_eq,ne0,not_false_eq_true,if_true] at fine
 | ok f =>
  refine ⟨f,rfl,?_⟩
  rw [agree.place_eq member,<- kept]
  exact peek32_poke32_same _ _ (Nat.mod_lt _ (by norm_num))
end

private lemma chars_congr {m m' : Memory} : ∀ {n addr : Nat},
 (∀ i < (chars n m addr).length + 1, peek m' (addr + i) = peek m (addr + i)) -> chars n m' addr = chars n m addr := by
 intro n
 induction n with
 | zero => intro addr _; rfl
 | succ n ih =>
  intro addr eq
  have fst : peek m' addr = peek m addr := eq 0 (by omega)
  rw [chars,chars,fst]
  by_cases ended : peek m addr = 0
  · rw [if_pos ended,if_pos ended]
  rw [if_neg ended,if_neg ended,ih]
  intro i low
  rw [Nat.add_assoc]
  refine eq (1 + i) ?_
  rw [chars,if_neg ended,length_cons]
  omega
def taken (exported : List UInt8 -> Nat) (image : Nat) (m0 m : Memory) (e : Entry) : Nat :=
 if sym_section m0 (symbol image m0 e) = 0 then exported (string m0 (symbol_name image m0 e))
 else sym_value m0 (symbol image m0 e) +
  (image + sect_offset m (sect_at image m0 (sym_section m0 (symbol image m0 e))))

private lemma taken_of_get_elf_sym (agree : Agree image m0 m) (member : e ∈ entries image m0) {sym_val : Nat}
 (found : get_elf_sym exported image m (ELF32_R_SYM (r_info m e.reloc)) (sect_link m e.sect) = .ok sym_val) :
 sym_val = taken exported image m0 m e := by
 have table : header image m0 (sect_link m0 e.sect) ∈ consulted image m0 :=
  entry_consulted member (by simp [entry_reads])
 have start : sect_offset m (sect_at image m0 (sect_link m0 e.sect)) =
   sect_offset m0 (sect_at image m0 (sect_link m0 e.sect)) := agree.header_word table (by norm_num)
 have link : sect_link m (sect_at image m0 (sect_link m0 e.sect)) =
   sect_link m0 (sect_at image m0 (sect_link m0 e.sect)) := agree.header_word table (by norm_num)
 have entry : (symbol image m0 e,16) ∈ consulted image m0 := entry_consulted member (by simp [entry_reads])
 have number : sym_section m (symbol image m0 e) = sym_section m0 (symbol image m0 e) :=
  agree.word16 entry (by norm_num)
 have value : sym_value m (symbol image m0 e) = sym_value m0 (symbol image m0 e) := agree.word32 entry (by norm_num)
 have name : peek32 m (symbol image m0 e + 0) = peek32 m0 (symbol image m0 e + 0) := agree.word32 entry (by norm_num)
 simp only [get_elf_sym,agree.r_info_eq member,agree.sect_link_eq member,agree.sect_at_eq,start,link] at found
 rw [show image + sect_offset m0 (sect_at image m0 (sect_link m0 e.sect)) + 16 * ELF32_R_SYM (r_info m0 e.reloc) =
  symbol image m0 e from rfl,number,value] at found
 rw [taken]
 split_ifs at found with _ _ out _ <;> simp only [Except.ok.injEq] at found
 · rw [if_pos out,<- found]
   have strings : sect_offset m (sect_at image m0 (sect_link m0 (sect_at image m0 (sect_link m0 e.sect)))) =
     sect_offset m0 (sect_at image m0 (sect_link m0 (sect_at image m0 (sect_link m0 e.sect)))) :=
    agree.header_word (entry_consulted member (by simp [entry_reads,out])) (by norm_num)
   have text : sym_name m (symbol image m0 e) = sym_name m0 (symbol image m0 e) := name
   rw [strings,text]
   have read : (symbol_name image m0 e,(string m0 (symbol_name image m0 e)).length + 1) ∈ consulted image m0 :=
    entry_consulted member (by simp [entry_reads,out])
   exact congrArg exported (chars_congr (agree _ read))
 · rw [if_neg out,<- found]

variable (exported image) in
/-- The loader gets the word of an entry right: it knows where the symbol is, and finds the addend in place. What it
  adds to an absolute symbol is made up for by the word. -/
def Honest (m : Memory) (e : Entry) : Prop :=
 type m e = R_386_32 ∨ type m e = R_386_PC32 ->
  let number := sym_section m (symbol image m e)
  if number = SHN_ABS then
   (peek32 m (word image m e) + (image + sect_offset (reached exported image m e) (sect_at image m SHN_ABS))) % 2^32 =
    addend image m e
  else (number ≠ 0 -> Loaded image m number) ∧ peek32 m (word image m e) = addend image m e
instance : Decidable (Honest exported image m e) := inferInstanceAs (Decidable (_ -> ite _ _ _))

private lemma addend_lt : addend image m e < 2^32 := by
 rw [addend]
 split_ifs
 · exact peek32_lt _ _
 · exact peek32_lt _ _

private lemma honest_iff (agree : Agree image m0 (reached exported image m0 e))
 (kind : type m0 e = R_386_32 ∨ type m0 e = R_386_PC32) (c : Nat) :
 (∃ value ∈ address exported image m0 e,
  (peek32 m0 (word image m0 e) + taken exported image m0 (reached exported image m0 e) e + c) % 2^32 =
   (value + addend image m0 e + c) % 2^32) ↔ Honest exported image m0 e := by
 have word_lt := peek32_lt m0 (word image m0 e)
 have addend_lt : addend image m0 e < 2^32 := addend_lt
 rw [Honest]
 simp only [kind,forall_const,address,taken]
 by_cases out : sym_section m0 (symbol image m0 e) = 0
 · have ne : ¬ (0 = SHN_ABS) := by decide
   simp only [out,if_true,ne,if_false,mem_some_iff,exists_eq_left',ne_eq,not_true_eq_false,
    false_implies,true_and]
   omega
 by_cases absolute : sym_section m0 (symbol image m0 e) = SHN_ABS
 · have ne : ¬ (SHN_ABS = 0) := by decide
   simp only [absolute,if_true,ne,if_false,mem_some_iff,exists_eq_left']
   omega
 by_cases loaded : Loaded image m0 (sym_section m0 (symbol image m0 e))
 · have start : sect_offset (reached exported image m0 e) (sect_at image m0 (sym_section m0 (symbol image m0 e))) =
     sect_offset m0 (sect_at image m0 (sym_section m0 (symbol image m0 e))) :=
    agree.header_word (header_consulted loaded.1) (by norm_num)
   simp only [out,absolute,loaded,if_true,if_false,mem_some_iff,exists_eq_left',implies_true,
    true_and,start]
   omega
 · simp [out,absolute,loaded]

private lemma relocated_iff (clear : Clear image m0)
 (apart : (entries image m0).Pairwise (fun e e' => Apart (word image m0 e) 4 (word image m0 e') 4))
 (done : ((entries image m0).foldl (turn exported image) (m0,0)).2 = 0) (member : e ∈ entries image m0) :
 Relocated exported image m0 ((entries image m0).foldl (turn exported image) (m0,0)).1 e ↔
  Honest exported image m0 e := by
 obtain ⟨agree,f,changed,final⟩ := relocated_word clear apart done member
 obtain ⟨sym_val,found,chosen⟩ := change_ok changed
 obtain rfl := taken_of_get_elf_sym agree member found
 rw [agree.place_eq member,agree.r_info_eq member,show ELF32_R_TYPE (r_info m0 e.reloc) = type m0 e from rfl] at chosen
 by_cases absolute : type m0 e = R_386_32
 · have ne : ¬ (R_386_32 = R_386_PC32) := by decide
   simp only [absolute,new_word,if_true,some.injEq] at chosen
   rw [<- chosen] at final
   rw [<- honest_iff agree (Or.inl absolute) 0]
   constructor
   · intro relocated
     simpa only [final,Nat.add_zero] using relocated.absolute absolute
   intro right
   exact ⟨fun _ => by simpa only [final,Nat.add_zero] using right,fun relative => absurd (absolute.symm.trans relative) ne⟩
 by_cases relative : type m0 e = R_386_PC32
 · have ne : ¬ (R_386_PC32 = R_386_32) := by decide
   simp only [relative,new_word,ne,if_false,if_true,some.injEq] at chosen
   rw [<- chosen] at final
   rw [<- honest_iff agree (Or.inr relative) (2^32 - word image m0 e % 2^32)]
   constructor
   · intro relocated
     simpa only [final] using relocated.relative relative
   intro right
   exact ⟨fun absolute => absurd (relative.symm.trans absolute) ne,fun _ => by simpa only [final] using right⟩
 constructor
 · rintro - (one | two)
   · exact absurd one absolute
   · exact absurd two relative
 intro _
 exact ⟨fun one => absurd one absolute,fun two => absurd two relative⟩

private lemma placed_other {original : Memory} {bss : Option Nat} {len k : Nat}
 (new : ∀ i ∈ first_nobits image original, ∀ start ∈ bss,
  Apart start (ALIGN (sect_size original (sect_at image original i))) image len) (low : k < len)
 (offsets : ∀ i < num_sects image original, Apart (sect_at image original i + 16) 4 (image + k) 1) :
 peek (placed image original bss) (image + k) = peek original (image + k) := by
 cases fst : first_nobits image original with
 | none => simp only [placed,fst]
 | some i =>
  cases bss with
  | none => simp only [placed,fst]
  | some start =>
   have mem : i < num_sects image original := mem_range.mp (mem_of_find?_eq_some fst)
   have apart : ∀ j < 4, (sect_at image original i + 16 + j) % 2^32 ≠ (image + k) % 2^32 :=
    fun j high => offsets i mem j high 0 (by norm_num)
   simp only [placed,fst,place_bss]
   rw [peek_poke32_of_apart apart,peek,peek,if_neg]
   intro cleared
   refine new i (by simp [fst]) start rfl _ cleared k low ?_
   omega

private lemma load_ok {original final : Memory} {mod mod' : Module} {bss : Option Nat} {main : Memory -> Int}
 (loaded : load_elf_relocatable exported image original mod bss main = (0,final,mod')) :
 relocate exported image (2^16) 0 (placed image original bss,0) = (final,0) := by
 simp only [load_elf_relocatable] at loaded
 generalize relocate exported image (2^16) 0 (placed image original bss,0) = s at loaded ⊢
 split_ifs at loaded with invalid missing failed refused <;> simp only [Prod.mk.injEq] at loaded
 · exact absurd loaded.1 invalid
 · exact absurd loaded.1 (by decide)
 · exact absurd loaded.1 failed
 · exact absurd loaded.1 refused
 obtain ⟨final',err⟩ := s
 have fine : err = 0 := not_not.mp failed
 have eq : final' = final := loaded.2.1
 rw [fine,eq]

/-- A load that succeeds leaves the image that the object format asks for exactly when all its entries are honest. -/
theorem relocation_correct_iff {original final : Memory} {mod mod' : Module} {bss : Option Nat} {main : Memory -> Int}
 {len : Nat} (formed : WellFormed image len original bss)
 (loaded : load_elf_relocatable exported image original mod bss main = (0,final,mod')) :
 Correct exported image len original bss final ↔
  ∀ e ∈ entries image (placed image original bss), Honest exported image (placed image original bss) e := by
 have run := load_ok loaded
 rw [relocate_entries formed.tables] at run
 have done : ((entries image (placed image original bss)).foldl (turn exported image) (placed image original bss,0)).2 = 0 := by
  rw [run]
 have relocated (e : Entry) (member : e ∈ entries image (placed image original bss)) :=
  relocated_iff formed.tables formed.words done member
 rw [run] at relocated
 constructor
 · intro correct e member
   exact (relocated e member).mp (correct.relocated e member)
 intro honest
 refine ⟨fun e member => (relocated e member).mpr (honest e member),?_⟩
 intro k low words offsets
 have eq : peek ((entries image (placed image original bss)).foldl (turn exported image)
   (placed image original bss,0)).1 (image + k) = peek (placed image original bss) (image + k) :=
  run_other formed.tables (fun _ _ _ _ => rfl) (fun e member => member) words
 rw [run] at eq
 exact eq.trans (placed_other formed.fresh low offsets)

end

/-! ### An image with one entry -/
def sample (r_addend : Nat) : Memory :=
 let file := [0x464c457f,0x10101,0,0,0x30001,1,0,0,52,0,52,40 * 2^16,5]
 let null := [0,0,0,0,0,0,0,0,0,0]
 let text := [0,1,6,0,252,4,0,0,4,0]
 let rela := [0,4,0,0,256,12,3,1,4,12]
 let symtab := [0,2,0,0,268,32,0,0,4,16]
 let bss := [0,8,3,0,300,4,0,0,4,0]
 let words := file ++ null ++ text ++ rela ++ symtab ++ bss ++ [0] ++ [0,0x101,r_addend] ++ [0,0,0,0] ++ [0,0,0,4 * 2^16]
 fun a => let k := (a + 2^32 - 0x100000) % 2^32; UInt8.ofNat (words.getD (k / 4) 0 / 2^(8 * (k % 4)))
def load_sample (r_addend : Nat) : Int × Memory × Module :=
 load_elf_relocatable (fun _ => 0) 0x100000 (sample r_addend) ⟨0,0,0,0⟩ (some 0x200000) (fun _ => 0)
theorem relocation_correct_sample :
 Correct (fun _ => 0) 0x100000 300 (sample 0) (some 0x200000) (load_sample 0).2.1 := by
 have formed : WellFormed 0x100000 300 (sample 0) (some 0x200000) :=
  ⟨by decide +kernel,by decide +kernel,by decide +kernel⟩
 have done : (load_sample 0).1 = 0 := by decide +kernel
 have loaded : load_elf_relocatable (fun _ => 0) 0x100000 (sample 0) ⟨0,0,0,0⟩ (some 0x200000) (fun _ => 0) =
   (0,(load_sample 0).2.1,(load_sample 0).2.2) := Prod.ext done rfl
 exact (relocation_correct_iff formed loaded).mpr (by decide +kernel)
theorem addend_lost : WellFormed 0x100000 300 (sample 8) (some 0x200000) ∧ (load_sample 8).1 = 0 ∧
 ¬ Correct (fun _ => 0) 0x100000 300 (sample 8) (some 0x200000) (load_sample 8).2.1 := by
 refine ⟨⟨by decide +kernel,by decide +kernel,by decide +kernel⟩,by decide +kernel,?_⟩
 intro correct
 have entry : Entry.mk 0x100084 0x100100 12 ∈ entries 0x100000 (placed 0x100000 (sample 8) (some 0x200000)) := by
  decide +kernel
 obtain ⟨value,symbol,stored⟩ := (correct.relocated _ entry).absolute (by decide +kernel)
 have start : address (fun _ => 0) 0x100000 (placed 0x100000 (sample 8) (some 0x200000)) (Entry.mk 0x100084 0x100100 12) =
   some 0x200000 := by decide +kernel
 obtain rfl := Option.some.inj (start.symm.trans symbol)
 exact absurd stored (by decide +kernel)

end Netbas.Relocation
