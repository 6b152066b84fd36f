import Netbas.Runs

/-!
Unix domain sockets (`net/unixsock.c`). What `kmalloc` and `new_socket` answer is given with the
call; one that follows NULL or a freed block, or leaves an array, has no next state. `Links` is who
points at whom; `pairing_iff` says when the pointers come in pairs.
-/
namespace Netbas.UnixSockets
open Runs List Option
open Function
def EAGAIN : Int := -11
def ENOMEM : Int := -12
def EFAULT : Int := -14
def EINVAL : Int := -22
def EAFNOSUPPORT : Int := -97
def EISCONN : Int := -106
def EHOSTDOWN : Int := -112
def AF_UNSPEC : Nat := 0
def AF_UNIX : Nat := 1
structure Path where
 chars : List UInt8
 fits : chars.length < 108
 text : 0 ∉ chars
deriving DecidableEq
def tolower (c : UInt8) : UInt8 := if 65 ≤ c ∧ c ≤ 90 then c + 32 else c
def stricmp : List UInt8 -> List UInt8 -> Int
 | c :: src1, c' :: src2 =>
  if tolower c = tolower c' then stricmp src1 src2 else (tolower c).toNat - (tolower c').toNat
 | c :: _, [] => (tolower c).toNat - (tolower 0).toNat
 | [], c' :: _ => (tolower 0).toNat - (tolower c').toNat
 | [], [] => 0
structure SockaddrUn where
 sun_family : Nat
 sun_path : Path
deriving DecidableEq
structure UnixPcb where
 local_path : Path
 remote_path : Path
 remote_pcb : Option Nat
 recv_arg : Option Nat
deriving DecidableEq
inductive SockState where
 | unbound | bound | closing | closed | connecting | connected | listening
deriving DecidableEq

/-- What a `struct socket *` that `accept` hands out can be: besides a socket, NULL, the
  number ENOMEM as a pointer, or what an array from `kmalloc` holds. -/
inductive NewSock where
 | null
 | enomem
 | garbage
 | socket (k : Nat)
deriving DecidableEq
structure Socket where
 state : SockState
 nbio : Bool
 waithead : List Nat
 pcb : Option Nat
 backlog : BitVec 32
 pending : List NewSock
 capacity : Nat
deriving DecidableEq
structure Wake where
 thread : Nat
 rc : Int
 newsock : NewSock
deriving DecidableEq
structure Net where
 unix_pcbs : List Nat
 pcb : Nat -> Option UnixPcb
 sock : Nat -> Option Socket
 wakes : List Wake

section
variable (s : Net)
def Net.alloc (a : Nat) (p : UnixPcb) : Net :=
 {s with pcb := update s.pcb a (some p)}
def Net.edit (a : Nat) (f : UnixPcb -> UnixPcb) : Net :=
 {s with pcb := update s.pcb a ((s.pcb a).map f)}
section
variable (k : Nat)
def Net.put (t : Socket) : Net :=
 {s with sock := update s.sock k (some t)}
def Net.editSock (f : Socket -> Socket) : Net :=
 {s with sock := update s.sock k ((s.sock k).map f)}
lemma nil_fits : ([] : List UInt8).length < 108 := by decide
lemma nil_text : (0 : UInt8) ∉ ([] : List UInt8) := not_mem_nil
def noPath : Path := ⟨[],nil_fits,nil_text⟩
def zeroed : UnixPcb := ⟨noPath,noPath,none,none⟩
def fresh : Socket := ⟨.unbound,false,[],none,0,[],0⟩
def unix_new : Option Nat -> Option (Option Nat × Net)
 | none => some (none,s)
 | some a => if (s.pcb a).isSome then none else some (some a,s.alloc a zeroed)
def unix_recv (a k : Nat) : Net := s.edit a (fun p => {p with recv_arg := some k})
def own_pcb (t : Socket) (kmalloc : Option Nat) : Option (Option Nat × Net) :=
 match t.pcb with
 | some a => some (some a,s)
 | none =>
  match unix_new s kmalloc with
  | none => none
  | some (none,s) => some (none,s)
  | some (some a,s) => some (some a,unix_recv (s.put k {t with pcb := some a}) a k)
def unix_bind (a : Nat) (path : Path) : Net :=
 if a ∈ s.unix_pcbs then s
 else {s.edit a (fun p => {p with local_path := path}) with unix_pcbs := a :: s.unix_pcbs}
def unixsock_bind (name : Option SockaddrUn) (kmalloc : Option Nat) :
  Option (Int × Net) :=
 (s.sock k).bind (fun t =>
  match name with
  | none => some (EFAULT,s)
  | some sun =>
   if sun.sun_family ≠ AF_UNIX ∧ sun.sun_family ≠ AF_UNSPEC then some (EAFNOSUPPORT,s)
   else
    match own_pcb s k t kmalloc with
    | none => none
    | some (none,s) => some (ENOMEM,s)
    | some (some a,s) => some (0,(unix_bind s a sun.sun_path).editSock k (fun t => {t with state := .bound})))

/-- The array is new, so what it holds is not what was pending. The source gives no
  answer when all goes well. -/
def unixsock_listen (backlog : BitVec 32) (kmalloc : Bool) : Option (Option Int × Net) :=
 (s.sock k).bind (fun t =>
  if t.state = .connected then some (some EISCONN,s)
  else if t.state ≠ .bound then some (some EINVAL,s)
  else
   let t := {t with backlog := backlog, pending := t.pending.map (fun _ => .garbage)}
   if kmalloc then
    some (none,s.put k {t with capacity := (4 * backlog).toNat / 4, state := .listening})
   else some (some ENOMEM,s.put k {t with capacity := 0}))
end
def unix_find_pcb (sun : SockaddrUn) : Option Nat :=
 if sun.sun_family ≠ AF_UNIX then none
 else s.unix_pcbs.find? (fun a => (s.pcb a).any (fun p =>
  p.remote_pcb = none ∧ stricmp sun.sun_path.chars p.local_path.chars = 0))
def tie (a lpcb k : Nat) (l : UnixPcb) : Net :=
 let s := s.put k {fresh with state := .connected, pcb := some a}
 let s := s.edit a (fun p => {p with remote_pcb := some lpcb, remote_path := l.local_path})
 unix_recv s a k

/-- A block that cannot be had is answered with a number that is not NULL; a socket that
  cannot be had leaves the copied block behind. -/
def accept_uds_connection (rpcb lpcb : Nat) (kmalloc new_socket : Option Nat) :
  Option (NewSock × Net) :=
 match kmalloc with
 | none => some (.enomem,s)
 | some a =>
  if (s.pcb a).isSome then none
  else
   (s.pcb rpcb).bind (fun r =>
    let s := s.alloc a r
    match new_socket with
    | none => some (.null,s)
    | some k =>
     if (s.sock k).isSome then none
     else
      (s.pcb lpcb).bind (fun l =>
       let s := unix_bind (tie s a lpcb k l) a r.local_path
       some (.socket k,s.edit lpcb (fun p => {p with remote_pcb := some a}))))

/-- The request at the head is taken out with the rest of the list lost, as
  `cancel_socket_request` clears its link before the head is advanced. -/
def release_socket_request (k thread : Nat) (rc : Int) (newsock : NewSock) : Net :=
 {s.editSock k (fun t => {t with waithead := []}) with wakes := ⟨thread,rc,newsock⟩ :: s.wakes}
def accept_unix (arg : Option Nat) (newpcb pcb : Nat) (kmalloc new_socket : Option Nat) :
  Option (Int × Net) :=
 arg.bind (fun k => (s.sock k).bind (fun t =>
  match t.waithead with
  | thread :: _ =>
   (accept_uds_connection s newpcb pcb kmalloc new_socket).map (fun (newsock,s) =>
    (0,release_socket_request s k thread 0 newsock))
  | [] =>
   if t.pending.length < t.backlog.toInt then
    (accept_uds_connection s newpcb pcb kmalloc new_socket).bind (fun (newsock,s) =>
     if newsock = .null then some (ENOMEM,s)
     else if t.capacity ≤ t.pending.length then none
     else some (0,s.editSock k (fun t => {t with pending := t.pending ++ [newsock]})))
   else some (EFAULT,s)))
def unix_connect (a : Nat) (sun : SockaddrUn) (kmalloc new_socket : Option Nat) :
  Option (Int × Net) :=
 match unix_find_pcb s sun with
 | none => some (EINVAL,s)
 | some ipcb =>
  let s := s.edit a (fun p => {p with remote_path := sun.sun_path})
  (s.pcb ipcb).bind (fun p =>
   (accept_unix s p.recv_arg ipcb a kmalloc new_socket).map (fun (_,s) => (0,s)))
def unixsock_connect (k : Nat) (name : Option SockaddrUn) (own kmalloc new_socket : Option Nat) :
  Option (Int × Net) :=
 (s.sock k).bind (fun t =>
  match name with
  | none => some (EFAULT,s)
  | some sun =>
   if sun.sun_family ≠ AF_UNIX ∧ sun.sun_family ≠ AF_UNSPEC then some (EAFNOSUPPORT,s)
   else if t.state = .closed then some (EINVAL,s)
   else
    match own_pcb s k t own with
    | none => none
    | some (none,s) => some (ENOMEM,s)
    | some (some a,s) =>
     (unix_connect s a sun kmalloc new_socket).map (fun (rc,s) =>
      if rc < 0 then (rc,s) else (0,s.editSock k (fun t => {t with state := .connected}))))

/-- A thread that finds nothing pending sleeps, and its answer is among the `wakes` later. -/
def unixsock_accept (k thread : Nat) : Option (Option (Int × NewSock) × Net) :=
 (s.sock k).bind (fun t =>
  if t.state ≠ .listening then some (some (EINVAL,.null),s)
  else
   match t.pending with
   | [] =>
    if t.nbio then some (some (EAGAIN,.null),s)
    else some (none,s.put k {t with waithead := t.waithead ++ [thread]})
   | newsock :: rest =>
    if t.capacity < t.pending.length then none
    else some (some (0,newsock),s.put k {t with pending := rest}))
def unixsock_ioctl (k : Nat) (nbio : Bool) : Option Net :=
 (s.sock k).map (fun t => s.put k {t with nbio := nbio})
def peer_socket (p : UnixPcb) : Option (Option Socket) :=
 match p.remote_pcb with
 | none => some none
 | some b => (s.pcb b).bind (fun q => q.recv_arg.bind (fun k => (s.sock k).map some))
def unixsock_shutdown (k : Nat) : Option (Int × Net) :=
 (s.sock k).bind (fun t => t.pcb.bind (fun a => (s.pcb a).bind (fun p =>
  (peer_socket s p).map (fun _ => (0,s.put k {t with state := .closing})))))
def unix_remove (a : Nat) : Net :=
 {s with unix_pcbs := s.unix_pcbs.erase a, pcb := update s.pcb a none}
def unixsock_close (k : Nat) : Option (Int × Net) :=
 (s.sock k).bind (fun t => t.pcb.bind (fun a => (s.pcb a).bind (fun p =>
  (peer_socket s p).map (fun _ =>
   let woken := t.waithead.map (fun thread => (⟨thread,EHOSTDOWN,.null⟩ : Wake))
   let s := {s.put k {t with state := .closed, waithead := []} with wakes := woken ++ s.wakes}
   (0,unix_remove s a)))))
def closesocket (k : Nat) : Option (Int × Net) :=
 (unixsock_close s k).map (fun (rc,s) => (rc,{s with sock := update s.sock k none}))
inductive Action where
 | socket (k : Nat)
 | ioctl (k : Nat) (nbio : Bool)
 | bind (k : Nat) (name : Option SockaddrUn) (kmalloc : Option Nat)
 | listen (k : Nat) (backlog : BitVec 32) (kmalloc : Bool)
 | connect (k : Nat) (name : Option SockaddrUn) (own kmalloc new_socket : Option Nat)
 | accept (k thread : Nat)
 | shutdown (k : Nat)
 | close (k : Nat)
def step : Action -> Option Net
 | .socket k => if (s.sock k).isSome then none else some (s.put k fresh)
 | .ioctl k nbio => unixsock_ioctl s k nbio
 | .bind k name kmalloc => (unixsock_bind s k name kmalloc).map Prod.snd
 | .listen k backlog kmalloc => (unixsock_listen s k backlog kmalloc).map Prod.snd
 | .connect k name own kmalloc new_socket => (unixsock_connect s k name own kmalloc new_socket).map Prod.snd
 | .accept k thread => (unixsock_accept s k thread).map Prod.snd
 | .shutdown k => (unixsock_shutdown s k).map Prod.snd
 | .close k => (closesocket s k).map Prod.snd
def start : Net := ⟨[],fun _ => none,fun _ => none,[]⟩

/-! ### What the pointers are for -/
/-- Every remote block of a block is there and points back. -/
def Paired : Prop :=
 ∀ a p b, s.pcb a = some p -> p.remote_pcb = some b -> ∃ q, s.pcb b = some q ∧ q.remote_pcb = some a
def HasPeer (k : Nat) : Prop :=
 ∃ t a p b q, s.sock k = some t ∧ t.pcb = some a ∧ s.pcb a = some p ∧ p.remote_pcb = some b ∧
  s.pcb b = some q ∧ q.remote_pcb = some a
def Answered : Action -> Prop
 | .connect k name own kmalloc new_socket =>
  ∀ s', unixsock_connect s k name own kmalloc new_socket = some (0,s') -> HasPeer s' k
 | _ => True
def peer (k : Nat) : Option Nat :=
 (s.sock k).bind (fun t => t.pcb.bind (fun a => (s.pcb a).bind UnixPcb.remote_pcb))
def listener (name : Option SockaddrUn) : Option Socket :=
 name.bind (fun sun => (unix_find_pcb s sun).bind (fun a => (s.pcb a).bind (fun p => p.recv_arg.bind s.sock)))
def Room (t : Socket) : Prop := t.waithead ≠ [] ∨ t.pending.length < t.backlog.toInt
instance (t : Socket) : Decidable (Room t) := inferInstanceAs (Decidable (_ ∨ _))
def Pairs (name : Option SockaddrUn) (kmalloc new_socket : Option Nat) : Prop :=
 (listener s name).any (fun t => Room t) = true ∧ kmalloc.isSome = true ∧ new_socket.isSome = true
instance (s : Net) (name : Option SockaddrUn) (kmalloc new_socket : Option Nat) :
  Decidable (Pairs s name kmalloc new_socket) := inferInstanceAs (Decidable (_ ∧ _))

/-- No socket with a peer is closed, and a connect that answers 0 makes a pair exactly
  when its socket has no peer yet. -/
def Kept : Action -> Prop
 | .connect k name own kmalloc new_socket =>
  (unixsock_connect s k name own kmalloc new_socket).map Prod.fst = some 0 ->
   (Pairs s name kmalloc new_socket ↔ peer s k = none)
 | .close k => peer s k = none
 | _ => True
end

/-! ### Who points at whom -/
@[ext] structure Links where
 remote : Nat -> Option Nat
 arg : Nat -> Option Nat
 own : Nat -> Option Nat
 listed : List Nat
structure Links.Good (l : Links) : Prop where
 symm : ∀ a b, l.remote a = some b -> l.remote b = some a
 apart : ∀ a, l.remote a ≠ some a
 owner : ∀ k a, l.own k = some a -> l.arg a = some k
 paired : ∀ a b, l.remote a = some b -> ∃ k, l.own k = some a
 bound : ∀ a ∈ l.listed, ∃ k, l.own k = some a
 once : l.listed.Nodup
structure Links.Free (l : Links) (a : Nat) : Prop where
 remote : l.remote a = none
 arg : l.arg a = none

section
variable (l : Links)
def Links.create (k a : Nat) : Links :=
 {l with arg := update l.arg a (some k), own := update l.own k (some a)}
def Links.enlist (a : Nat) : Links :=
 if a ∈ l.listed then l else {l with listed := a :: l.listed}
def Links.leak (a : Nat) (arg : Option Nat) : Links :=
 {l with arg := update l.arg a arg}
def Links.pair (a b k : Nat) : Links :=
 { remote := update (update l.remote b (some a)) a (some b),
   arg := update l.arg b (some k), own := update l.own k (some b), listed := (l.enlist b).listed }
def Links.drop (k a : Nat) : Links :=
 { remote := update l.remote a none, arg := update l.arg a none,
   own := update l.own k none, listed := l.listed.erase a }
def Links.Linked (a : Nat) (l' : Links) : Prop :=
 ∃ b k, l.Free b ∧ l.own k = none ∧ l' = l.pair a b k
end
def Links.Unlinked (l l' : Links) : Prop := l' = l ∨ ∃ b arg, l.Free b ∧ l' = l.leak b arg

namespace Links
variable {l : Links} {k a b : Nat}
lemma Good.ne_free (good : l.Good) (owned : l.own k = some a) (free : l.Free b) : a ≠ b := by
 rintro rfl
 have arg := good.owner k a owned
 rw [free.arg] at arg
 cases arg
lemma Good.unlisted (good : l.Good) (free : l.Free b) : b ∉ l.listed := by
 intro listed
 obtain ⟨k,owned⟩ := good.bound b listed
 exact good.ne_free owned free rfl
lemma Good.create (good : l.Good) (free : l.Free a) (without : l.own k = none) : (l.create k a).Good := by
 have still : ∀ b, (∃ k', l.own k' = some b) -> ∃ k', (l.create k a).own k' = some b := by
  rintro b ⟨k',owned⟩
  have ne : k' ≠ k := by
   rintro rfl
   rw [without] at owned
   cases owned
  exact ⟨k',by simp [Links.create,ne,owned]⟩
 refine ⟨good.symm,good.apart,?_,fun b c link => still b (good.paired b c link),
  fun b inl => still b (good.bound b inl),good.once⟩
 intro k' b owned
 by_cases eq : k' = k
 · subst eq
   simp only [Links.create,update_self,some.injEq] at owned
   subst owned
   simp [Links.create]
 have pre : l.own k' = some b := by simpa [Links.create,eq] using owned
 have ne := good.ne_free pre free
 simp [Links.create,ne,good.owner k' b pre]
lemma Good.enlist (good : l.Good) (owned : l.own k = some a) : (l.enlist a).Good := by
 unfold Links.enlist
 split
 case isTrue => exact good
 case isFalse new =>
  refine ⟨good.symm,good.apart,good.owner,good.paired,?_,nodup_cons.mpr ⟨new,good.once⟩⟩
  exact forall_mem_cons.mpr ⟨⟨k,owned⟩,good.bound⟩
lemma Good.leak (good : l.Good) (free : l.Free a) (arg : Option Nat) : (l.leak a arg).Good := by
 refine ⟨good.symm,good.apart,?_,good.paired,good.bound,good.once⟩
 intro k' b owned
 have ne := good.ne_free owned free
 simp [Links.leak,ne,good.owner k' b owned]
lemma Good.not_remote (good : l.Good) (single : l.remote b = none) (c : Nat) : l.remote c ≠ some b := by
 intro link
 have back := good.symm c b link
 rw [single] at back
 cases back
lemma pair_remote_left (l : Links) (a b k : Nat) : (l.pair a b k).remote a = some b := by
 simp [Links.pair]
lemma pair_remote_right (ne : a ≠ b) : (l.pair a b k).remote b = some a := by
 simp [Links.pair,ne.symm]
lemma pair_remote_other {c : Nat} (left : c ≠ a) (right : c ≠ b) : (l.pair a b k).remote c = l.remote c := by
 simp [Links.pair,left,right]
lemma Good.pair_own {k' : Nat} (without : l.own k = none) (owned : l.own k' = some a) (b c : Nat) :
 (l.pair c b k).own k' = some a := by
 have ne : k' ≠ k := by
  rintro rfl
  rw [without] at owned
  cases owned
 simp [Links.pair,ne,owned]
lemma Good.pair (good : l.Good) {k' : Nat} (owned : l.own k' = some a) (single : l.remote a = none)
 (free : l.Free b) (without : l.own k = none) : (l.pair a b k).Good := by
 have ne : a ≠ b := good.ne_free owned free
 have remote : ∀ c d, (l.pair a b k).remote c = some d ->
   (c = a ∧ d = b) ∨ (c = b ∧ d = a) ∨ (c ≠ a ∧ c ≠ b ∧ d ≠ a ∧ d ≠ b ∧ l.remote c = some d) := by
  intro c d link
  by_cases left : c = a
  · subst left
    rw [pair_remote_left] at link
    exact .inl ⟨rfl,(some.inj link).symm⟩
  by_cases right : c = b
  · subst right
    rw [pair_remote_right ne] at link
    exact .inr (.inl ⟨rfl,(some.inj link).symm⟩)
  rw [pair_remote_other left right] at link
  refine .inr (.inr ⟨left,right,?_,?_,link⟩)
  · rintro rfl
    exact good.not_remote single c link
  rintro rfl
  exact good.not_remote free.remote c link
 have still : ∀ c, (∃ k, l.own k = some c) -> ∃ k', (l.pair a b k).own k' = some c := by
  rintro c ⟨k',owned⟩
  exact ⟨k',Good.pair_own without owned b a⟩
 have new : (l.pair a b k).own k = some b := by simp [Links.pair]
 have listing : (l.pair a b k).listed = b :: l.listed := by simp [Links.pair,Links.enlist,good.unlisted free]
 constructor
 case symm =>
  intro c d link
  rcases remote c d link with ⟨rfl,rfl⟩ | ⟨rfl,rfl⟩ | ⟨_,_,left,right,link⟩
  · exact pair_remote_right ne
  · exact pair_remote_left l _ _ k
  rw [pair_remote_other left right]
  exact good.symm c d link
 case apart =>
  intro c link
  rcases remote c c link with ⟨rfl,eq⟩ | ⟨rfl,eq⟩ | ⟨_,_,_,_,link⟩
  · exact ne eq
  · exact ne eq.symm
  · exact good.apart c link
 case owner =>
  intro k' c owned
  by_cases eq : k' = k
  · subst eq
    rw [new] at owned
    cases owned
    simp [Links.pair]
  have pre : l.own k' = some c := by simpa [Links.pair,eq] using owned
  have apart := good.ne_free pre free
  simp [Links.pair,apart,good.owner k' c pre]
 case paired =>
  intro c d link
  rcases remote c d link with ⟨rfl,rfl⟩ | ⟨rfl,rfl⟩ | ⟨_,_,_,_,link⟩
  · exact still _ ⟨k',owned⟩
  · exact ⟨k,new⟩
  · exact still c (good.paired c d link)
 case bound =>
  intro c listed
  rw [listing] at listed
  rcases mem_cons.mp listed with rfl | listed
  · exact ⟨k,new⟩
  · exact still c (good.bound c listed)
 case once =>
  rw [listing]
  exact nodup_cons.mpr ⟨good.unlisted free,good.once⟩
lemma Good.pair_again {c : Nat} (good : l.Good) (link : l.remote a = some c) (free : l.Free b) :
 ¬ ∀ x y, (l.pair a b k).remote x = some y -> (l.pair a b k).remote y = some x := by
 intro symm
 have left : c ≠ a := by
  rintro rfl
  exact good.apart c link
 have right : c ≠ b := by
  rintro rfl
  exact good.not_remote free.remote a link
 have back : (l.pair a b k).remote c = some a := by
  rw [pair_remote_other left right]
  exact good.symm a c link
 have forth := symm c a back
 rw [pair_remote_left] at forth
 exact right (some.inj forth).symm
lemma Good.drop (good : l.Good) (owned : l.own k = some a) (single : l.remote a = none) : (l.drop k a).Good := by
 have eq : (l.drop k a).remote = l.remote := by
  simp [Links.drop,<- single]
 have still : ∀ c, c ≠ a -> (∃ k, l.own k = some c) -> ∃ k', (l.drop k a).own k' = some c := by
  rintro c ne ⟨k',owned'⟩
  have apart : k' ≠ k := by
   rintro rfl
   rw [owned] at owned'
   exact ne (some.inj owned').symm
  exact ⟨k',by simp [Links.drop,apart,owned']⟩
 constructor
 case symm => rw [eq]; exact good.symm
 case apart => rw [eq]; exact good.apart
 case owner =>
  intro k' c owned'
  have apart : k' ≠ k := by
   rintro rfl
   simp [Links.drop] at owned'
  have pre : l.own k' = some c := by simpa [Links.drop,apart] using owned'
  have ne : c ≠ a := by
   rintro rfl
   have fst := good.owner k' c pre
   rw [good.owner k c owned] at fst
   exact apart (some.inj fst).symm
  simp [Links.drop,ne,good.owner k' c pre]
 case paired =>
  intro c d link
  rw [eq] at link
  refine still c ?_ (good.paired c d link)
  rintro rfl
  rw [single] at link
  cases link
 case bound =>
  intro c inl
  obtain ⟨ne,inl⟩ := (List.Nodup.mem_erase_iff good.once).mp inl
  exact still c ne (good.bound c inl)
 case once => exact good.once.erase a
lemma Good.drop_paired (good : l.Good) (link : l.remote a = some b) :
 ¬ ∀ x y, (l.drop k a).remote x = some y -> (l.drop k a).remote y = some x := by
 intro symm
 have ne : b ≠ a := by
  rintro rfl
  exact good.apart b link
 have back : (l.drop k a).remote b = some a := by simp [Links.drop,ne,good.symm a b link]
 have forth := symm b a back
 simp [Links.drop] at forth

end Links

/-! ### What the calls do to the pointers -/
def Net.links (s : Net) : Links where
 remote a := (s.pcb a).bind UnixPcb.remote_pcb
 arg a := (s.pcb a).bind UnixPcb.recv_arg
 own k := (s.sock k).bind Socket.pcb
 listed := s.unix_pcbs

section
variable {s s' : Net} {k a : Nat} {t : Socket} {p : UnixPcb}
lemma remote_eq_some {b : Nat} :
  s.links.remote a = some b ↔ ∃ p, s.pcb a = some p ∧ p.remote_pcb = some b := bind_eq_some_iff
lemma own_eq_some : s.links.own k = some a ↔ ∃ t, s.sock k = some t ∧ t.pcb = some a := bind_eq_some_iff
lemma peer_eq (s : Net) (k : Nat) : peer s k = (s.links.own k).bind s.links.remote := by
 simp only [peer,Net.links,bind_assoc]
lemma paired_iff : Paired s ↔ ∀ a b, s.links.remote a = some b -> s.links.remote b = some a := by
 constructor
 · intro paired a b link
   obtain ⟨p,live,remote⟩ := remote_eq_some.mp link
   exact remote_eq_some.mpr (paired a p b live remote)
 intro symm a p b live remote
 exact remote_eq_some.mp (symm a b (remote_eq_some.mpr ⟨p,live,remote⟩))
lemma hasPeer_iff : HasPeer s k ↔
 ∃ a b, s.links.own k = some a ∧ s.links.remote a = some b ∧ s.links.remote b = some a := by
 constructor
 · rintro ⟨t,a,p,b,q,sock,own,live,remote,live',remote'⟩
   exact ⟨a,b,own_eq_some.mpr ⟨t,sock,own⟩,remote_eq_some.mpr ⟨p,live,remote⟩,remote_eq_some.mpr ⟨q,live',remote'⟩⟩
 rintro ⟨a,b,own,link,back⟩
 obtain ⟨t,sock,own⟩ := own_eq_some.mp own
 obtain ⟨p,live,remote⟩ := remote_eq_some.mp link
 obtain ⟨q,live',remote'⟩ := remote_eq_some.mp back
 exact ⟨t,a,p,b,q,sock,own,live,remote,live',remote'⟩
lemma free_of_none (freed : s.pcb a = none) : s.links.Free a := by
 constructor <;> simp [Net.links,freed]
lemma bind_update {α : Type} (table : Nat -> Option α) (a : Nat) (x : Option α) (field : α -> Option Nat) :
 (fun b => (update table a x b).bind field) =
  update (fun b => (table b).bind field) a (x.bind field) := by
 funext b
 by_cases eq : b = a
 · subst eq
   simp
 · simp [eq]
lemma map_bind_same {α : Type} {x : Option α} {f : α -> α} {field : α -> Option Nat}
 (eq : ∀ y, field (f y) = field y) : (x.map f).bind field = x.bind field := by
 cases x with
 | none => rfl
 | some y => exact eq y
@[simp] lemma alloc_links (s : Net) (a : Nat) (p : UnixPcb) : (s.alloc a p).links =
  { s.links with remote := update s.links.remote a p.remote_pcb,
                 arg := update s.links.arg a p.recv_arg } := by
 simp [Net.links,Net.alloc,bind_update]
@[simp] lemma put_links (s : Net) (k : Nat) (t : Socket) : (s.put k t).links =
 {s.links with own := update s.links.own k t.pcb} := by
 simp [Net.links,Net.put,bind_update]
lemma put_links_same (sock : s.sock k = some t) {t' : Socket} (eq : t'.pcb = t.pcb) :
 (s.put k t').links = s.links := by
 have own : s.links.own k = t.pcb := by simp [Net.links,sock]
 rw [put_links,eq,<- own,update_eq_self]
variable (f : UnixPcb -> UnixPcb)
lemma edit_links (remote : ∀ p, (f p).remote_pcb = p.remote_pcb)
 (arg : ∀ p, (f p).recv_arg = p.recv_arg) : (s.edit a f).links = s.links := by
 simp only [Net.links,Net.edit,bind_update,map_bind_same remote,map_bind_same arg,update_eq_self]
lemma editSock_links (f : Socket -> Socket) (pcb : ∀ t, (f t).pcb = t.pcb) : (s.editSock k f).links = s.links := by
 simp only [Net.links,Net.editSock,bind_update,map_bind_same pcb,update_eq_self]
lemma edit_of_live (live : s.pcb a = some p) : s.edit a f = s.alloc a (f p) := by
 simp [Net.edit,Net.alloc,live]
@[simp] lemma alloc_pcb_self (s : Net) (a : Nat) (p : UnixPcb) : (s.alloc a p).pcb a = some p := by
 simp [Net.alloc]
lemma alloc_pcb_other {b : Nat} (ne : b ≠ a) : (s.alloc a p).pcb b = s.pcb b := by
 simp [Net.alloc,ne]
@[simp] lemma alloc_sock (s : Net) (a : Nat) (p : UnixPcb) : (s.alloc a p).sock = s.sock := rfl
@[simp] lemma put_pcb (s : Net) (k : Nat) (t : Socket) : (s.put k t).pcb = s.pcb := rfl
lemma put_sock_other {k' : Nat} (ne : k' ≠ k) : (s.put k t).sock k' = s.sock k' := by
 simp [Net.put,ne]
lemma unix_bind_links (s : Net) (a : Nat) (path : Path) : (unix_bind s a path).links = s.links.enlist a := by
 by_cases listed : a ∈ s.unix_pcbs
 · have mem : a ∈ s.links.listed := listed
   simp only [unix_bind,Links.enlist,listed,mem,if_true]
 have out : a ∉ s.links.listed := listed
 have eq := edit_links (s := s) (a := a) (fun p => {p with local_path := path}) (fun _ => rfl) fun _ => rfl
 simp only [unix_bind,Links.enlist,listed,out,if_false]
 rw [<- eq]
 rfl
def created (s : Net) (k a : Nat) (t : Socket) : Net :=
 (s.alloc a {zeroed with recv_arg := some k}).put k {t with pcb := some a}

variable {kmalloc : Option Nat}
lemma own_pcb_cases {r : Option Nat} (ran : own_pcb s k t kmalloc = some (r,s')) :
 (r = none ∧ s' = s) ∨
 (∃ a, r = some a ∧ t.pcb = some a ∧ s' = s) ∨
 (∃ a, r = some a ∧ t.pcb = none ∧ s.pcb a = none ∧
  s' = created s k a t) := by
 simp only [own_pcb] at ran
 cases own : t.pcb with
 | some a =>
  simp only [own,some.injEq,Prod.mk.injEq] at ran
  exact .inr (.inl ⟨a,ran.1.symm,rfl,ran.2.symm⟩)
 | none =>
  cases kmalloc with
  | none =>
   simp only [own,unix_new,some.injEq,Prod.mk.injEq] at ran
   exact .inl ⟨ran.1.symm,ran.2.symm⟩
  | some a =>
   cases live : s.pcb a with
   | some p => simp [own,unix_new,live] at ran
   | none =>
    simp only [own,unix_new,live,isSome_none,Bool.false_eq_true,if_false,some.injEq,
     Prod.mk.injEq] at ran
    refine .inr (.inr ⟨a,ran.1.symm,rfl,live,?_⟩)
    rw [<- ran.2,unix_recv,edit_of_live (p := zeroed) _ (by simp)]
    simp [created,Net.alloc,Net.put]
lemma created_links (freed : s.pcb a = none) :
 (created s k a t).links = s.links.create k a := by
 have none : s.links.remote a = none := (free_of_none freed).remote
 simp [created,Links.create,zeroed,<- none]
lemma point_links (live : s.pcb a = some p) (b : Nat) :
  (s.edit a (fun p => {p with remote_pcb := some b})).links =
   {s.links with remote := update s.links.remote a (some b)} := by
 have arg : s.links.arg a = p.recv_arg := by simp [Net.links,live]
 rw [edit_of_live _ live,alloc_links,<- arg,update_eq_self]
lemma unix_bind_pcb_other {b : Nat} (ne : b ≠ a) (path : Path) : (unix_bind s a path).pcb b = s.pcb b := by
 unfold unix_bind
 split
 · rfl
 · simp [Net.edit,ne]
@[simp] lemma unix_bind_sock (s : Net) (a : Nat) (path : Path) : (unix_bind s a path).sock = s.sock := by
 unfold unix_bind
 split <;> rfl

variable {r : UnixPcb}
lemma tie_eq (lpcb : Nat) (live : s.pcb a = some r) : tie s a lpcb k p =
  (s.put k {fresh with state := .connected, pcb := some a}).alloc a
   {r with remote_pcb := some lpcb, remote_path := p.local_path, recv_arg := some k} := by
 simp [tie,unix_recv,Net.edit,Net.put,Net.alloc,live]
lemma own_eq_none (shut : s.sock k = none) : s.links.own k = none := by
 simp [Net.links,shut]

variable {new_socket : Option Nat}
lemma accept_uds_cases {rpcb lpcb : Nat} {newsock : NewSock}
 (hit : s.pcb rpcb = some r) (single : r.remote_pcb = none) (mine : s.pcb lpcb = some p)
 (ran : accept_uds_connection s rpcb lpcb kmalloc new_socket = some (newsock,s')) :
 ((kmalloc.isSome = true ∧ new_socket.isSome = true) ∧ s.links.Linked lpcb s'.links) ∨
 (¬ (kmalloc.isSome = true ∧ new_socket.isSome = true) ∧ s.links.Unlinked s'.links) := by
 cases kmalloc with
 | none =>
  cases ran
  exact .inr ⟨by simp,.inl rfl⟩
 | some b =>
  cases freed : s.pcb b with
  | some q => simp [accept_uds_connection,freed] at ran
  | none =>
   have free := free_of_none freed
   simp only [accept_uds_connection,freed,hit,isSome_none,Bool.false_eq_true,if_false,
    bind_some,alloc_sock] at ran
   cases new_socket with
   | none =>
    cases ran
    refine .inr ⟨by simp,.inr ⟨b,r.recv_arg,free,?_⟩⟩
    simp [Links.leak,single,<- free.remote]
   | some k =>
    have ne : lpcb ≠ b := by
     rintro rfl
     rw [freed] at mine
     cases mine
    cases shut : s.sock k with
    | some t => simp [shut] at ran
    | none =>
     simp only [shut,isSome_none,Bool.false_eq_true,if_false,alloc_pcb_other ne,mine,
      bind_some,some.injEq,Prod.mk.injEq] at ran
     obtain ⟨-,rfl⟩ := ran
     have tied := tie_eq (k := k) (p := p) lpcb (alloc_pcb_self s b r)
     have live : (unix_bind (tie (s.alloc b r) b lpcb k p) b r.local_path).pcb lpcb = some p := by
      rw [unix_bind_pcb_other ne,tied,alloc_pcb_other ne,put_pcb,alloc_pcb_other ne]
      exact mine
     refine .inl ⟨by simp,b,k,free,own_eq_none shut,?_⟩
     rw [point_links live,unix_bind_links,tied]
     by_cases inl : b ∈ s.links.listed
     · simp [Links.enlist,Links.pair,inl]
     · simp [Links.enlist,Links.pair,inl]

variable {rc : Int}
lemma accept_unix_cases {arg : Option Nat} {newpcb : Nat}
 (hit : s.pcb newpcb = some r) (single : r.remote_pcb = none) (mine : s.pcb a = some p)
 (ran : accept_unix s arg newpcb a kmalloc new_socket = some (rc,s')) :
 (((arg.bind s.sock).any (fun t => Room t) = true ∧ kmalloc.isSome = true ∧ new_socket.isSome = true) ∧
  s.links.Linked a s'.links) ∨
 (¬ ((arg.bind s.sock).any (fun t => Room t) = true ∧ kmalloc.isSome = true ∧ new_socket.isSome = true) ∧
  s.links.Unlinked s'.links) := by
 obtain ⟨k,named,rest⟩ := bind_eq_some_iff.mp ran
 obtain ⟨t,sock,ran⟩ := bind_eq_some_iff.mp rest
 simp only [named,bind_some,sock,any_some,decide_eq_true_eq]
 cases wait : t.waithead with
 | cons thread rest =>
  have room : Room t := .inl (by simp [wait])
  simp only [wait] at ran
  obtain ⟨⟨newsock,middle⟩,made,eq⟩ := map_eq_some_iff.mp ran
  cases eq
  have links : (release_socket_request middle k thread 0 newsock).links = middle.links :=
   editSock_links (s := middle) (k := k) (fun t => {t with waithead := []}) (fun _ => rfl)
  rw [links]
  simpa only [room,true_and] using accept_uds_cases hit single mine made
 | nil =>
  by_cases few : t.pending.length < t.backlog.toInt
  · have room : Room t := .inr few
    simp only [wait,few,if_true] at ran
    obtain ⟨⟨newsock,middle⟩,made,rest⟩ := bind_eq_some_iff.mp ran
    have links : s'.links = middle.links := by
     simp only at rest
     split_ifs at rest
     · cases rest
       rfl
     cases rest
     exact editSock_links (fun t => {t with pending := t.pending ++ [newsock]}) fun _ => rfl
    rw [links]
    simpa only [room,true_and] using accept_uds_cases hit single mine made
  have full : ¬ Room t := by
   rintro (some | few')
   · exact some wait
   · exact few few'
  simp only [wait,few,if_false,some.injEq,Prod.mk.injEq] at ran
  rw [<- ran.2]
  exact .inr ⟨fun room => full room.1,.inl rfl⟩

variable {sun : SockaddrUn}
lemma find_pcb_single {ipcb : Nat} {q : UnixPcb} (hit : unix_find_pcb s sun = some ipcb)
 (live : s.pcb ipcb = some q) : q.remote_pcb = none := by
 unfold unix_find_pcb at hit
 split_ifs at hit
 have matched := find?_some hit
 simp only [live,any_some,decide_eq_true_eq] at matched
 exact matched.1
lemma find_pcb_spec {ipcb : Nat} (good : s.links.Good) (hit : unix_find_pcb s sun = some ipcb) :
 ∃ q k t, s.pcb ipcb = some q ∧ q.recv_arg = some k ∧ s.sock k = some t ∧ t.pcb = some ipcb := by
 unfold unix_find_pcb at hit
 split_ifs at hit
 obtain ⟨k,owned⟩ := good.bound ipcb (mem_of_find?_eq_some hit)
 obtain ⟨q,live,arg⟩ := bind_eq_some_iff.mp (good.owner k ipcb owned)
 obtain ⟨t,sock,pcb⟩ := own_eq_some.mp owned
 exact ⟨q,k,t,live,arg,sock,pcb⟩
lemma unix_connect_cases
 (mine : s.pcb a = some p) (ran : unix_connect s a sun kmalloc new_socket = some (rc,s')) :
 (rc = EINVAL ∧ s' = s) ∨
 (rc = 0 ∧ ((Pairs s (some sun) kmalloc new_socket ∧ s.links.Linked a s'.links) ∨
  (¬ Pairs s (some sun) kmalloc new_socket ∧ s.links.Unlinked s'.links))) := by
 cases hit : unix_find_pcb s sun with
 | none =>
  simp only [unix_connect,hit,some.injEq,Prod.mk.injEq] at ran
  exact .inl ⟨ran.1.symm,ran.2.symm⟩
 | some ipcb =>
  simp only [unix_connect,hit] at ran
  obtain ⟨q',live',ran⟩ := bind_eq_some_iff.mp ran
  obtain ⟨⟨answer,after⟩,took,eq⟩ := map_eq_some_iff.mp ran
  cases eq
  have links : (s.edit a (fun p => {p with remote_path := sun.sun_path})).links = s.links :=
   edit_links _ (fun _ => rfl) (fun _ => rfl)
  -- The block that is hit may be the caller's own, which keeps its pointers.
  obtain ⟨q,live,remote,arg⟩ : ∃ q, s.pcb ipcb = some q ∧ q'.remote_pcb = q.remote_pcb ∧ q'.recv_arg = q.recv_arg := by
   by_cases own : ipcb = a
   · subst own
     rw [edit_of_live _ mine,alloc_pcb_self,some.injEq] at live'
     exact ⟨p,mine,by rw [<- live'],by rw [<- live']⟩
   rw [edit_of_live _ mine,alloc_pcb_other own] at live'
   exact ⟨q',live',rfl,rfl⟩
  have pairs : Pairs s (some sun) kmalloc new_socket ↔
    (q'.recv_arg.bind s.sock).any (fun t => Room t) = true ∧ kmalloc.isSome = true ∧ new_socket.isSome = true := by
   simp [Pairs,listener,hit,live,arg]
  have mine' : (s.edit a (fun p => {p with remote_path := sun.sun_path})).pcb a =
    some {p with remote_path := sun.sun_path} := by
   rw [edit_of_live _ mine,alloc_pcb_self]
  have single : q'.remote_pcb = none := remote.trans (find_pcb_single hit live)
  have cases := accept_unix_cases live' single mine' took
  rw [links] at cases
  rw [pairs]
  exact .inr ⟨rfl,cases⟩
lemma listener_created (good : s.links.Good) (sock : s.sock k = some t) (without : t.pcb = none)
 (freed : s.pcb a = none) (name : Option SockaddrUn) :
 listener (created s k a t) name =
  listener s name := by
 have eq : ∀ b ∈ s.unix_pcbs, (created s k a t).pcb b = s.pcb b := by
  intro b inl
  apply alloc_pcb_other
  rintro rfl
  exact good.unlisted (free_of_none freed) inl
 cases name with
 | none => rfl
 | some sun =>
  have find : unix_find_pcb (created s k a t) sun =
    unix_find_pcb s sun := by
   unfold unix_find_pcb
   split_ifs
   · rfl
   apply find?_congr
   intro b inl
   rw [eq b inl]
  simp only [listener,bind_some,find]
  cases hit : unix_find_pcb s sun with
  | none => rfl
  | some ipcb =>
   obtain ⟨q,k',t',live,arg,sock',own⟩ := find_pcb_spec good hit
   have apart : ipcb ≠ a := by
    rintro rfl
    rw [freed] at live
    cases live
   have ne : k' ≠ k := by
    rintro rfl
    rw [sock,some.injEq] at sock'
    rw [<- sock',without] at own
    cases own
   have live' : (created s k a t).pcb ipcb = some q := (alloc_pcb_other apart).trans live
   have sock'' : (created s k a t).sock k' = s.sock k' := put_sock_other ne
   simp only [bind_some,live',live,arg,sock'']
lemma live_of_own (good : s.links.Good) (sock : s.sock k = some t) (own : t.pcb = some a) : ∃ p, s.pcb a = some p := by
 obtain ⟨p,live,_⟩ := bind_eq_some_iff.mp (good.owner k a (own_eq_some.mpr ⟨t,sock,own⟩))
 exact ⟨p,live⟩
def Outcome (s : Net) (k : Nat) (name : Option SockaddrUn) (kmalloc new_socket : Option Nat) (rc : Int)
  (after : Links) : Prop :=
 (rc ≠ 0 ∧ after.Good) ∨
 (rc = 0 ∧ ∃ l a, Links.Good l ∧ l.own k = some a ∧ l.remote a = peer s k ∧
  ((Pairs s name kmalloc new_socket ∧ l.Linked a after) ∨ (¬ Pairs s name kmalloc new_socket ∧ l.Unlinked after)))
lemma unix_connect_outcome {s1 : Net}
  (good : s1.links.Good) (live : s1.pcb a = some p) (own : s1.links.own k = some a)
  (remote : s1.links.remote a = peer s k) (eq : listener s1 (some sun) = listener s (some sun))
  (ran : (unix_connect s1 a sun kmalloc new_socket).map (fun (rc,s) =>
   if rc < 0 then (rc,s) else (0,s.editSock k (fun t => {t with state := .connected}))) = some (rc,s')) :
  Outcome s k (some sun) kmalloc new_socket rc s'.links := by
 obtain ⟨⟨answer,after⟩,connected,res⟩ := map_eq_some_iff.mp ran
 have pairs : Pairs s1 (some sun) kmalloc new_socket ↔ Pairs s (some sun) kmalloc new_socket := by
  simp only [Pairs,eq]
 rcases unix_connect_cases live connected with ⟨rfl,rfl⟩ | ⟨rfl,done⟩
 · have negative : EINVAL < 0 := by decide
   simp only [negative,if_true,Prod.mk.injEq] at res
   obtain ⟨rfl,rfl⟩ := res
   exact .inl ⟨by decide,good⟩
 simp only [lt_irrefl,if_false,Prod.mk.injEq] at res
 obtain ⟨rfl,rfl⟩ := res
 rw [pairs] at done
 rw [editSock_links (fun t => {t with state := .connected}) (fun _ => rfl)]
 exact .inr ⟨rfl,s1.links,a,good,own,remote,done⟩

variable {name : Option SockaddrUn} {own : Option Nat}
lemma connect_reaches
 (ran : unixsock_connect s k name own kmalloc new_socket = some (rc,s')) :
 (rc ≠ 0 ∧ s' = s) ∨
 ∃ t sun a s1, s.sock k = some t ∧ name = some sun ∧ own_pcb s k t own = some (some a,s1) ∧
  (unix_connect s1 a sun kmalloc new_socket).map (fun (rc,s) =>
   if rc < 0 then (rc,s) else (0,s.editSock k (fun t => {t with state := .connected}))) = some (rc,s') := by
 obtain ⟨t,sock,rest⟩ := bind_eq_some_iff.mp ran
 cases name with
 | none =>
  cases rest
  exact .inl ⟨by decide,rfl⟩
 | some sun =>
  simp only at rest
  by_cases family : sun.sun_family ≠ AF_UNIX ∧ sun.sun_family ≠ AF_UNSPEC
  · rw [if_pos family] at rest
    cases rest
    exact .inl ⟨by decide,rfl⟩
  rw [if_neg family] at rest
  by_cases shut : t.state = .closed
  · rw [if_pos shut] at rest
    cases rest
    exact .inl ⟨by decide,rfl⟩
  rw [if_neg shut] at rest
  cases made : own_pcb s k t own with
  | none => simp [made] at rest
  | some res =>
   obtain ⟨r,s1⟩ := res
   simp only [made] at rest
   cases r with
   | none =>
    cases rest
    rcases own_pcb_cases made with ⟨_,eq⟩ | ⟨a,some,_⟩ | ⟨a,some,_⟩
    · exact .inl ⟨by decide,eq⟩
    · cases some
    · cases some
   | some a => exact .inr ⟨t,sun,a,s1,sock,rfl,made,rest⟩
lemma connect_outcome
 (good : s.links.Good) (ran : unixsock_connect s k name own kmalloc new_socket = some (rc,s')) :
 Outcome s k name kmalloc new_socket rc s'.links := by
 rcases connect_reaches ran with ⟨ne0,rfl⟩ | ⟨t,sun,a,s1,sock,rfl,made,rest⟩
 · exact .inl ⟨ne0,good⟩
 rcases own_pcb_cases made with ⟨none,_⟩ | ⟨a',eq,own,same'⟩ | ⟨a',eq,without,freed,same'⟩
 · cases none
 · cases eq
   rw [same'] at rest
   have owned := own_eq_some.mpr ⟨t,sock,own⟩
   obtain ⟨p,live⟩ := live_of_own good sock own
   refine unix_connect_outcome good live owned ?_ rfl rest
   rw [peer_eq,owned]
   rfl
 cases eq
 rw [same'] at rest
 have none : s.links.own k = none := by simp [Net.links,sock,without]
 have free := free_of_none freed
 have live : (created s k a t).pcb a = some {zeroed with recv_arg := some k} := alloc_pcb_self s a _
 refine unix_connect_outcome ?_ live ?_ ?_ (listener_created good sock without freed _) rest
 · rw [created_links freed]
   exact good.create free none
 · rw [created_links freed]
   simp [Links.create]
 rw [created_links freed,peer_eq,none]
 exact free.remote
lemma connect_unlinked
 (sock : s.sock k = some t) (mine : t.pcb = some a) (live : s.pcb a = some p)
 (ran : unixsock_connect s k name own kmalloc new_socket = some (rc,s'))
 (alone : ¬ Pairs s name kmalloc new_socket) : s.links.Unlinked s'.links := by
 rcases connect_reaches ran with ⟨_,rfl⟩ | ⟨t',sun,a',s1,sock',rfl,made,rest⟩
 · exact .inl rfl
 rw [sock,some.injEq] at sock'
 subst sock'
 simp only [own_pcb,mine,some.injEq,Prod.mk.injEq] at made
 obtain ⟨rfl,rfl⟩ := made
 obtain ⟨⟨answer,after⟩,connected,res⟩ := map_eq_some_iff.mp rest
 have eq : s'.links = after.links := by
  simp only at res
  split_ifs at res
  · cases res
    rfl
  cases res
  exact editSock_links (fun t => {t with state := .connected}) fun _ => rfl
 rw [eq]
 rcases unix_connect_cases live connected with ⟨_,rfl⟩ | ⟨_,⟨pairs,_⟩ | ⟨_,loose⟩⟩
 · exact .inl rfl
 · exact absurd pairs alone
 · exact loose

/-! ### Runs -/
lemma bind_good (good : s.links.Good)
 (ran : unixsock_bind s k name kmalloc = some (rc,s')) : s'.links.Good := by
 obtain ⟨t,sock,rest⟩ := bind_eq_some_iff.mp ran
 clear ran
 cases name with
 | none =>
  cases rest
  exact good
 | some sun =>
  simp only at rest
  split_ifs at rest
  · cases rest
    exact good
  have le : ∀ {s1 : Net} {a : Nat}, s1.links.Good -> s1.links.own k = some a ->
    ((unix_bind s1 a sun.sun_path).editSock k (fun t => {t with state := .bound})).links.Good := by
   intro s1 a good own
   rw [editSock_links (fun t => {t with state := .bound}) (fun _ => rfl),unix_bind_links]
   exact good.enlist own
  cases made : own_pcb s k t kmalloc with
  | none => simp [made] at rest
  | some res =>
   obtain ⟨r,s1⟩ := res
   simp only [made] at rest
   rcases own_pcb_cases made with ⟨rfl,rfl⟩ | ⟨a,rfl,own,rfl⟩ | ⟨a,rfl,without,freed,rfl⟩
   · cases rest
     exact good
   · cases rest
     exact le good (own_eq_some.mpr ⟨t,sock,own⟩)
   cases rest
   have none : s.links.own k = none := by simp [Net.links,sock,without]
   refine le ?_ ?_
   · rw [created_links freed]
     exact good.create (free_of_none freed) none
   rw [created_links freed]
   simp [Links.create]
lemma listen_links {backlog : BitVec 32} {kmalloc : Bool} {rc : Option Int}
 (ran : unixsock_listen s k backlog kmalloc = some (rc,s')) : s'.links = s.links := by
 obtain ⟨t,sock,rest⟩ := bind_eq_some_iff.mp ran
 simp only at rest
 split_ifs at rest <;> cases rest
 · rfl
 · rfl
 · exact put_links_same sock rfl
 · exact put_links_same sock rfl
lemma accept_links {thread : Nat} {answer : Option (Int × NewSock)}
 (ran : unixsock_accept s k thread = some (answer,s')) : s'.links = s.links := by
 obtain ⟨t,sock,rest⟩ := bind_eq_some_iff.mp ran
 cases pending : t.pending with
 | nil =>
  simp only [pending] at rest
  split_ifs at rest <;> cases rest
  · rfl
  · rfl
  · exact put_links_same sock rfl
 | cons newsock others =>
  simp only [pending] at rest
  split_ifs at rest <;> cases rest
  · rfl
  · exact put_links_same sock rfl
lemma shutdown_links (ran : unixsock_shutdown s k = some (rc,s')) : s'.links = s.links := by
 obtain ⟨t,sock,rest⟩ := bind_eq_some_iff.mp ran
 obtain ⟨a,own,rest⟩ := bind_eq_some_iff.mp rest
 obtain ⟨p,live,rest⟩ := bind_eq_some_iff.mp rest
 obtain ⟨_,_,eq⟩ := map_eq_some_iff.mp rest
 cases eq
 exact put_links_same sock rfl
lemma close_links (ran : closesocket s k = some (rc,s')) :
 ∃ a, s.links.own k = some a ∧ s'.links = s.links.drop k a := by
 obtain ⟨⟨rc',shut⟩,rest,res⟩ := map_eq_some_iff.mp ran
 obtain ⟨t,sock,rest⟩ := bind_eq_some_iff.mp rest
 obtain ⟨a,own,rest⟩ := bind_eq_some_iff.mp rest
 obtain ⟨p,live,rest⟩ := bind_eq_some_iff.mp rest
 obtain ⟨_,_,eq⟩ := map_eq_some_iff.mp rest
 cases eq
 cases res
 refine ⟨a,own_eq_some.mpr ⟨t,sock,own⟩,?_⟩
 simp [Net.links,Net.put,unix_remove,Links.drop,bind_update]
lemma close_answers {b : Nat} (good : s.links.Good) (own : s.links.own k = some a)
 (link : s.links.remote a = some b) : ∃ s', closesocket s k = some (0,s') := by
 obtain ⟨t,sock,pcb⟩ := own_eq_some.mp own
 obtain ⟨p,live,remote⟩ := remote_eq_some.mp link
 obtain ⟨k',own'⟩ := good.paired b a (good.symm a b link)
 obtain ⟨q,live',arg⟩ := bind_eq_some_iff.mp (good.owner k' b own')
 obtain ⟨t',sock',_⟩ := own_eq_some.mp own'
 simp [closesocket,unixsock_close,peer_socket,sock,pcb,live,remote,live',arg,sock']
lemma Links.Good.unlinked {l l' : Links} (good : l.Good) (loose : l.Unlinked l') : l'.Good := by
 rcases loose with rfl | ⟨b,arg,free,rfl⟩
 · exact good
 · exact good.leak free arg
lemma Links.unlinked_own {l l' : Links} (loose : l.Unlinked l') : l'.own = l.own ∧ l'.remote = l.remote := by
 rcases loose with rfl | ⟨b,arg,free,rfl⟩
 · exact ⟨rfl,rfl⟩
 · exact ⟨rfl,rfl⟩
lemma start_good : start.links.Good := by
 constructor <;> simp [start,Net.links]
lemma allowed (s : Net) (action : Action) (good : s.links.Good) (kept : Kept s action) : Answered s action := by
 cases action with
 | connect k name own kmalloc new_socket =>
  intro s' ran
  have exact : Pairs s name kmalloc new_socket ↔ peer s k = none := kept (by rw [ran]; rfl)
  rcases connect_outcome good ran with ⟨ne0,_⟩ | ⟨_,l,a,good,own,remote,paired | unpaired⟩
  · exact absurd rfl ne0
  · obtain ⟨_,b,k',free,without,eq⟩ := paired
    rw [hasPeer_iff,eq]
    exact ⟨a,b,Links.Good.pair_own without own b a,Links.pair_remote_left l a b k',
     Links.pair_remote_right (good.ne_free own free)⟩
  obtain ⟨not,loose⟩ := unpaired
  have some := (not_congr exact).mp not
  obtain ⟨b,link⟩ := ne_none_iff_exists'.mp some
  obtain ⟨eq,same'⟩ := Links.unlinked_own loose
  rw [hasPeer_iff,eq,same']
  exact ⟨a,b,own,remote.trans link,good.symm a b (remote.trans link)⟩
 | _ => trivial
lemma step_good (s : Net) (action : Action) (s' : Net) (good : s.links.Good) (kept : Kept s action)
 (ran : step s action = some s') : s'.links.Good := by
 cases action with
 | socket k =>
  cases shut : s.sock k with
  | some t => simp [step,shut] at ran
  | none =>
   simp only [step,shut,isSome_none,Bool.false_eq_true,if_false,some.injEq] at ran
   have eq : (s.put k fresh).links = s.links := by
    rw [put_links]
    simp [fresh,<- own_eq_none shut]
   rw [<- ran,eq]
   exact good
 | ioctl k nbio =>
  obtain ⟨t,sock,rfl⟩ := map_eq_some_iff.mp ran
  have eq : (s.put k {t with nbio := nbio}).links = s.links := put_links_same sock rfl
  rw [eq]
  exact good
 | bind k name kmalloc =>
  obtain ⟨⟨rc,after⟩,called,rfl⟩ := map_eq_some_iff.mp ran
  exact bind_good good called
 | listen k backlog kmalloc =>
  obtain ⟨⟨rc,after⟩,called,rfl⟩ := map_eq_some_iff.mp ran
  rw [listen_links called]
  exact good
 | connect k name own kmalloc new_socket =>
  obtain ⟨⟨rc,after⟩,called,rfl⟩ := map_eq_some_iff.mp ran
  rcases connect_outcome good called with ⟨_,good⟩ | ⟨rfl,l,a,good,own,remote,paired | unpaired⟩
  · exact good
  · obtain ⟨pairs,b,k',free,without,eq⟩ := paired
    have exact : Pairs s name kmalloc new_socket ↔ peer s k = none := kept (by rw [called]; rfl)
    rw [eq]
    exact good.pair own (remote.trans (exact.mp pairs)) free without
  · exact good.unlinked unpaired.2
 | accept k thread =>
  obtain ⟨⟨rc,after⟩,called,rfl⟩ := map_eq_some_iff.mp ran
  rw [accept_links called]
  exact good
 | shutdown k =>
  obtain ⟨⟨rc,after⟩,called,rfl⟩ := map_eq_some_iff.mp ran
  rw [shutdown_links called]
  exact good
 | close k =>
  obtain ⟨⟨rc,after⟩,called,rfl⟩ := map_eq_some_iff.mp ran
  obtain ⟨a,own,eq⟩ := close_links called
  have alone : peer s k = none := kept
  rw [peer_eq,own] at alone
  rw [eq]
  exact good.drop own alone
lemma step_broken (s : Net) (action : Action) (good : s.links.Good) (out : ¬ Kept s action)
 (answered : Answered s action) : ∃ s', step s action = some s' ∧ ¬ Paired s' := by
 cases action with
 | connect k name own kmalloc new_socket =>
  obtain ⟨zero,differs⟩ := Classical.not_imp.mp out
  obtain ⟨⟨rc,s'⟩,ran,rfl⟩ := map_eq_some_iff.mp zero
  refine ⟨s',by simp only [step,ran,map_some],?_⟩
  rcases connect_outcome good ran with ⟨ne0,_⟩ | ⟨_,l,a,good,own,remote,paired | unpaired⟩
  · exact absurd rfl ne0
  · obtain ⟨pairs,b,k',free,without,eq⟩ := paired
    have some : peer s k ≠ none := fun alone => differs ⟨fun _ => alone,fun _ => pairs⟩
    obtain ⟨c,link⟩ := ne_none_iff_exists'.mp some
    rw [paired_iff,eq]
    exact good.pair_again (remote.trans link) free
  -- The connect answers 0 and its socket has no peer.
  obtain ⟨not,loose⟩ := unpaired
  have alone : peer s k = none := by
   by_contra some
   exact differs ⟨fun pairs => absurd pairs not,fun none => absurd none some⟩
  obtain ⟨a',b,own',link,_⟩ := hasPeer_iff.mp (answered s' ran)
  obtain ⟨eq,same'⟩ := Links.unlinked_own loose
  rw [eq,own,some.injEq] at own'
  subst own'
  rw [same',remote,alone] at link
  cases link
 | close k =>
  obtain ⟨b,link⟩ := ne_none_iff_exists'.mp out
  rw [peer_eq] at link
  obtain ⟨a,own,link⟩ := bind_eq_some_iff.mp link
  obtain ⟨s',ran⟩ := close_answers good own link
  refine ⟨s',by simp only [step,ran,map_some],?_⟩
  obtain ⟨a',own',eq⟩ := close_links ran
  rw [own,some.injEq] at own'
  subst own'
  rw [paired_iff,eq]
  exact good.drop_paired link
 | _ => exact absurd trivial out
theorem pairing_iff (actions : List Action) :
 Along step Paired Answered start actions ↔ Meets step Kept start actions :=
 along_iff (I := fun s => s.links.Good) (fun _ good => paired_iff.mpr good.symm) allowed step_good step_broken
  actions start start_good
lemma letter_text : (0 : UInt8) ∉ [(97 : UInt8)] := by decide
def address : SockaddrUn := ⟨AF_UNIX,⟨[97],Nat.le_of_ble_eq_true rfl,letter_text⟩⟩
theorem close_leaves_pointer : ∃ s, run step start [.socket 0,.bind 0 (some address) (some 10),.listen 0 5 true,
     .socket 1,.connect 1 (some address) (some 11) (some 12) (some 2),.accept 0 7,.close 1] = some s ∧
 (s.pcb 12).bind UnixPcb.remote_pcb = some 11 ∧ s.pcb 11 = none ∧ ¬ Paired s := by
 refine ⟨_,rfl,by decide,by decide,?_⟩
 intro paired
 obtain ⟨q,live,_⟩ := paired 12 _ 11 rfl rfl
 cases live

end
end Netbas.UnixSockets
