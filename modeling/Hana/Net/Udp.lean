import Mathlib.Tactic.IntervalCases
import Hana.Common
import Hana.Lib.Run

/-!
# Ports of UDP sockets

`bind`, `connect` and `send` on UDP sockets, and the hash table of their ports. A port is in network
order in a `sockaddr_in` and in host order in the table. `udp_bind` looks for the port as it is in
the address, and `udp_bind_to_ephemeral` for its candidate with the bytes swapped, while
`udp_do_bind` enters it in host order: the lookup is for another port, unless the two bytes are
equal.
-/

namespace Hana.Udp

open Function Lib

abbrev Port := BitVec 16

def ntohs (orig : Port) : Port := (orig &&& 0xFF#16) <<< 8 ||| (orig &&& 0xFF00#16) >>> 8

def htons (orig : Port) : Port := ntohs orig

structure SockaddrIn where
  sinPort : Port
  sAddr : Nat
deriving DecidableEq, Repr

/-- A socket, with the address of its network device. -/
structure Socket where
  bound : Bool
  connected : Bool
  src : SockaddrIn
  dst : SockaddrIn
  ip : Nat
deriving DecidableEq, Repr

structure Entry where
  sock : Nat
  port : Port
deriving DecidableEq, Repr

/-- The table with the entries of each hash value, newest first, and the `static` variable of
`udp_bind_to_ephemeral`. -/
structure Net where
  hlist : Nat → List Entry
  sock : Nat → Socket
  ephemeral : Port

def udpHash (port : Port) : Nat := port.toNat % 128

def lookupEntry (port : Port) (n : Net) : Option Entry :=
  (n.hlist (udpHash port)).find? fun entry => entry.port == port

/-- The allocation of the entry succeeds. -/
def udpDoBind (sock : Nat) (addr : SockaddrIn) (n : Net) : Net :=
  let hash := udpHash (ntohs addr.sinPort)
  { n with
    hlist := update n.hlist hash (⟨sock, ntohs addr.sinPort⟩ :: n.hlist hash)
    sock := update n.sock sock { n.sock sock with src := addr, bound := true } }

def ephemeralBegin : Port := 20000#16

def ephemeralEnd : Port := 65535#16

def nextEphemeral (i : Port) : Port := if i = ephemeralEnd then ephemeralBegin else i + 1

/-- The loop of `udp_bind_to_ephemeral`, with the tries that are left. -/
def bindLoop (sock : Nat) : (tries : Nat) → Net → Bool × Net
  | 0, n => (false, n)
  | tries + 1, n =>
    let prev := n.ephemeral
    let n := { n with ephemeral := nextEphemeral prev }
    if lookupEntry (htons prev) n = none then (true, udpDoBind sock ⟨htons prev, 0⟩ n)
    else bindLoop sock tries n

def udpBindToEphemeral (sock : Nat) (n : Net) : Bool × Net := bindLoop sock 100 n

def einval : Int := 22

def edestaddrreq : Int := 89

def emsgsize : Int := 90

def eaddrinuse : Int := 98

def eaddrnotavail : Int := 99

def sizeofSockaddrIn : Nat := 12

/-- `address` is what `copy_from_user` gets, if it succeeds. -/
def udpBind (sock addressLen : Nat) (address : Option SockaddrIn) (n : Net) : Int × Net :=
  if (n.sock sock).bound then (-einval, n)
  else if addressLen ≠ sizeofSockaddrIn then (-einval, n)
  else match address with
    | none => (-1, n)
    | some addr =>
      if addr.sAddr ≠ 0 ∧ addr.sAddr ≠ (n.sock sock).ip then (-eaddrnotavail, n)
      else if (lookupEntry addr.sinPort n).isSome then (-eaddrinuse, n)
      else (0, udpDoBind sock addr n)

def udpConnect (sock addressLen : Nat) (address : Option SockaddrIn) (n : Net) : Int × Net :=
  if addressLen ≠ sizeofSockaddrIn then (-einval, n)
  else match address with
    | none => (-1, n)
    | some addr =>
      (0, { n with sock := update n.sock sock { n.sock sock with dst := addr, connected := true } })

/-- The headers of Ethernet, IP and UDP. -/
def udpReserve : Nat := 42

def maxEthPktSize : Nat := 1514

/-- `udp_sys_send` up to the packet; `copied` is whether the data can be read. -/
def udpSysSend (sock len : Nat) (copied : Bool) (n : Net) : Int × Net :=
  if maxEthPktSize < wrap64 (udpReserve + len) then (-emsgsize, n)
  else if (n.sock sock).connected = false then (-edestaddrreq, n)
  else if (n.sock sock).bound then (if copied then toInt32 len else -1, n)
  else
    let (ok, n) := udpBindToEphemeral sock n
    if ok then (if copied then toInt32 len else -1, n) else (-eaddrinuse, n)

inductive Call where
  | bind (sock addressLen : Nat) (address : Option SockaddrIn)
  | connect (sock addressLen : Nat) (address : Option SockaddrIn)
  | send (sock len : Nat) (copied : Bool)
deriving DecidableEq, Repr

def serve (n : Net) : Call → Int × Net
  | .bind sock addressLen address => udpBind sock addressLen address n
  | .connect sock addressLen address => udpConnect sock addressLen address n
  | .send sock len copied => udpSysSend sock len copied n

def Step (n : Net) (c : Call) (n' : Net) : Prop := (serve n c).2 = n'

/-- What `udp_init` leaves, with the addresses of the network devices of the sockets. -/
def start (ip : Nat → Nat) : Net where
  hlist _ := []
  sock a := ⟨false, false, ⟨0, 0⟩, ⟨0, 0⟩, ip a⟩
  ephemeral := ephemeralBegin

/-! ## Byte order -/

lemma ntohs_ntohs (x : Port) : ntohs (ntohs x) = x := by
  unfold ntohs
  ext i hi
  interval_cases i <;> simp

/-! ## What has to hold -/

/-- The socket is bound to the port, in host order. -/
def BoundTo (n : Net) (sock : Nat) (port : Port) : Prop :=
  (n.sock sock).bound = true ∧ ntohs (n.sock sock).src.sinPort = port

instance (n : Net) (sock : Nat) (port : Port) : Decidable (BoundTo n sock port) :=
  inferInstanceAs (Decidable (_ ∧ _))

/-- No two sockets are bound to the same port. -/
def Exclusive (n : Net) : Prop := ∀ a b port, BoundTo n a port → BoundTo n b port → a = b

/-- A `bind` that comes to the lookup. -/
def reachesLookup (n : Net) (sock addressLen : Nat) (addr : SockaddrIn) : Bool :=
  !(n.sock sock).bound && addressLen == sizeofSockaddrIn &&
    (addr.sAddr == 0 || addr.sAddr == (n.sock sock).ip)

/-- A `send` that needs an ephemeral port. -/
def reachesEphemeral (n : Net) (sock len : Nat) : Bool :=
  decide (wrap64 (udpReserve + len) ≤ maxEthPktSize) && (n.sock sock).connected && !(n.sock sock).bound

/-- A call leaves the ports exclusive; a `bind` to a port in use fails and changes nothing, and an
ephemeral port was not in use. -/
structure Respects (n : Net) (c : Call) (n' : Net) : Prop where
  exclusive : Exclusive n'
  bind : ∀ sock addressLen addr, c = .bind sock addressLen (some addr) →
    reachesLookup n sock addressLen addr = true → (∃ a, BoundTo n a (ntohs addr.sinPort)) →
    serve n c = (-eaddrinuse, n)
  ephemeral : ∀ sock len copied, c = .send sock len copied → reachesEphemeral n sock len = true →
    ∀ port, BoundTo n' sock port → ∀ a, ¬ BoundTo n a port

/-- The candidates of `udp_bind_to_ephemeral`. -/
def candidates : (tries : Nat) → Port → List Port
  | 0, _ => []
  | tries + 1, i => i :: candidates tries (nextEphemeral i)

/-- The candidate that is taken. -/
def choice (n : Net) : Option Port :=
  (candidates 100 n.ephemeral).find? fun port => lookupEntry (htons port) n == none

/-- The call looks for the right port, as far as the table goes: if the port of a `bind` is in the
table, so is the one with its bytes swapped; and the first ephemeral candidate whose swapped port
is not in the table is not in it either. -/
def looksRight (n : Net) : Call → Bool
  | .bind sock addressLen (some addr) =>
    !(reachesLookup n sock addressLen addr && (lookupEntry (ntohs addr.sinPort) n).isSome) ||
      (lookupEntry addr.sinPort n).isSome
  | .send sock len _ =>
    !reachesEphemeral n sock len || (choice n).all fun port => (lookupEntry port n).isNone
  | _ => true

/-- The entries of the table are the sockets that are bound. -/
structure TableOk (n : Net) : Prop where
  entry : ∀ hash, ∀ e ∈ n.hlist hash, BoundTo n e.sock e.port
  sock : ∀ a port, BoundTo n a port → ⟨a, port⟩ ∈ n.hlist (udpHash port)

section

variable {n n' : Net} {sock : Nat} {port : Port} {addr : SockaddrIn}

lemma TableOk.lookup_isSome (h : TableOk n) (port : Port) :
    (lookupEntry port n).isSome = true ↔ ∃ a, BoundTo n a port := by
  unfold lookupEntry
  rw [List.find?_isSome]
  constructor
  · rintro ⟨e, he, hp⟩
    refine ⟨e.sock, ?_⟩
    rw [← beq_iff_eq.mp hp]
    exact h.entry _ e he
  · rintro ⟨a, ha⟩
    exact ⟨_, h.sock a port ha, beq_self_eq_true port⟩

lemma udpDoBind_boundTo_self : BoundTo (udpDoBind sock addr n) sock port ↔ ntohs addr.sinPort = port := by
  simp [BoundTo, udpDoBind]

lemma udpDoBind_boundTo_of_ne {a : Nat} (ha : a ≠ sock) :
    BoundTo (udpDoBind sock addr n) a port ↔ BoundTo n a port := by
  simp [BoundTo, udpDoBind, ha]

lemma TableOk.udpDoBind (h : TableOk n) (hfree : (n.sock sock).bound = false) :
    TableOk (udpDoBind sock addr n) := by
  have hne : ∀ a p, BoundTo n a p → a ≠ sock := by
    rintro a p ha rfl
    exact absurd (ha.1.symm.trans hfree) nofun
  constructor
  · intro hash e he
    have hcases : e = ⟨sock, ntohs addr.sinPort⟩ ∨ e ∈ n.hlist hash := by
      change e ∈ update n.hlist _ _ hash at he
      by_cases hh : hash = udpHash (ntohs addr.sinPort)
      · subst hh
        rw [update_self] at he
        exact List.mem_cons.mp he
      · rw [update_of_ne hh] at he
        exact .inr he
    rcases hcases with rfl | he
    · exact udpDoBind_boundTo_self.mpr rfl
    · have hb := h.entry hash e he
      exact (udpDoBind_boundTo_of_ne (hne _ _ hb)).mpr hb
  · intro a p hb
    change _ ∈ update n.hlist _ _ (udpHash p)
    by_cases ha : a = sock
    · subst ha
      rw [← udpDoBind_boundTo_self.mp hb, update_self]
      exact List.mem_cons_self
    · have hmem := h.sock a p ((udpDoBind_boundTo_of_ne ha).mp hb)
      by_cases hh : udpHash p = udpHash (ntohs addr.sinPort)
      · rw [hh, update_self]
        exact List.mem_cons_of_mem _ (hh ▸ hmem)
      · rw [update_of_ne hh]
        exact hmem

lemma Exclusive.udpDoBind (h : Exclusive n) (hport : ∀ a, ¬ BoundTo n a (ntohs addr.sinPort)) :
    Exclusive (udpDoBind sock addr n) := by
  intro a b p ha hb
  by_cases has : a = sock <;> by_cases hbs : b = sock
  · rw [has, hbs]
  · subst has
    have hp := udpDoBind_boundTo_self.mp ha
    exact absurd ((udpDoBind_boundTo_of_ne hbs).mp hb) (hp ▸ hport b)
  · subst hbs
    have hp := udpDoBind_boundTo_self.mp hb
    exact absurd ((udpDoBind_boundTo_of_ne has).mp ha) (hp ▸ hport a)
  · exact h a b p ((udpDoBind_boundTo_of_ne has).mp ha) ((udpDoBind_boundTo_of_ne hbs).mp hb)

/-! ## The calls -/

/-- A `bind` fails and changes nothing, or it has looked for the port of the address. -/
lemma udpBind_cases (sock addressLen : Nat) (address : Option SockaddrIn) (n : Net) :
    (udpBind sock addressLen address n).2 = n ∧
        (∀ addr, address = some addr → reachesLookup n sock addressLen addr = false) ∨
      ∃ addr, address = some addr ∧ reachesLookup n sock addressLen addr = true ∧
        udpBind sock addressLen address n =
          if (lookupEntry addr.sinPort n).isSome then (-eaddrinuse, n) else (0, udpDoBind sock addr n) := by
  unfold udpBind reachesLookup
  cases hb : (n.sock sock).bound with
  | true => exact .inl ⟨by simp, fun addr _ => by simp⟩
  | false =>
    by_cases hl : addressLen = sizeofSockaddrIn
    · cases address with
      | none => exact .inl ⟨by simp [hl], fun addr ha => by cases ha⟩
      | some addr =>
        by_cases ha : addr.sAddr ≠ 0 ∧ addr.sAddr ≠ (n.sock sock).ip
        · refine .inl ⟨by simp [hl, ha], fun addr' heq => ?_⟩
          cases heq
          simp [ha]
        · refine .inr ⟨addr, rfl, ?_, ?_⟩
          · simp only [hl, beq_self_eq_true, Bool.not_false, Bool.and_self, Bool.true_and,
              Bool.or_eq_true, beq_iff_eq]
            by_contra hor
            exact ha (not_or.mp hor)
          · simp [hl, ha]
    · exact .inl ⟨by simp [hl], fun addr _ => by simp [hl]⟩

/-- Which port the loop takes does not depend on how it counts. -/
lemma bindLoop_cases (sock tries : Nat) (n : Net) : ∃ i,
    bindLoop sock tries n =
      match (candidates tries n.ephemeral).find? fun port => lookupEntry (htons port) n == none with
      | none => (false, { n with ephemeral := i })
      | some port => (true, udpDoBind sock ⟨htons port, 0⟩ { n with ephemeral := i }) := by
  induction tries generalizing n with
  | zero => exact ⟨n.ephemeral, rfl⟩
  | succ tries ih =>
    rw [bindLoop, candidates]
    by_cases hl : lookupEntry (htons n.ephemeral) n = none
    · refine ⟨nextEphemeral n.ephemeral, ?_⟩
      have hl' : lookupEntry (htons n.ephemeral) { n with ephemeral := nextEphemeral n.ephemeral } = none := hl
      rw [List.find?_cons_of_pos (by rw [hl]; rfl)]
      simp only [hl', if_true]
    · obtain ⟨i, hi⟩ := ih { n with ephemeral := nextEphemeral n.ephemeral }
      refine ⟨i, ?_⟩
      have hl' : ¬ lookupEntry (htons n.ephemeral) { n with ephemeral := nextEphemeral n.ephemeral } =
        none := hl
      rw [List.find?_cons_of_neg (by simpa using hl)]
      simp only [hl', if_false]
      exact hi

/-- A `send` changes the table only to take an ephemeral port. -/
lemma udpSysSend_cases (sock len : Nat) (copied : Bool) (n : Net) :
    (reachesEphemeral n sock len = false ∧ (udpSysSend sock len copied n).2 = n) ∨
    (reachesEphemeral n sock len = true ∧ ∃ i,
      (choice n = none ∧ (udpSysSend sock len copied n).2 = { n with ephemeral := i } ∨
        ∃ port, choice n = some port ∧ (udpSysSend sock len copied n).2 =
          udpDoBind sock ⟨htons port, 0⟩ { n with ephemeral := i })) := by
  unfold udpSysSend reachesEphemeral
  by_cases hlen : maxEthPktSize < wrap64 (udpReserve + len)
  · refine .inl ⟨by simp [not_le.mpr hlen], by simp [hlen]⟩
  · cases hc : (n.sock sock).connected with
    | false => exact .inl ⟨by simp, by simp [hlen]⟩
    | true =>
      cases hb : (n.sock sock).bound with
      | true => exact .inl ⟨by simp, by simp [hlen]⟩
      | false =>
        refine .inr ⟨by simp [not_lt.mp hlen], ?_⟩
        obtain ⟨i, hi⟩ := bindLoop_cases sock 100 n
        refine ⟨i, ?_⟩
        cases hfind : choice n with
        | none =>
          rw [choice] at hfind
          rw [hfind] at hi
          exact .inl ⟨rfl, by simp [hlen, udpBindToEphemeral, hi]⟩
        | some port =>
          rw [choice] at hfind
          rw [hfind] at hi
          exact .inr ⟨port, rfl, by simp [hlen, udpBindToEphemeral, hi]⟩

/-- A `connect` binds no socket. -/
lemma udpConnect_boundTo (sock addressLen : Nat) (address : Option SockaddrIn) (a : Nat) (p : Port) :
    BoundTo (udpConnect sock addressLen address n).2 a p ↔ BoundTo n a p := by
  unfold udpConnect
  split_ifs
  · rfl
  · cases address with
    | none => rfl
    | some addr =>
      by_cases ha : a = sock
      · subst ha
        simp [BoundTo]
      · simp [BoundTo, ha]

structure NetInv (n : Net) : Prop where
  table : TableOk n
  exclusive : Exclusive n

lemma NetInv.start (ip : Nat → Nat) : NetInv (start ip) where
  table := ⟨fun _ _ he => absurd he List.not_mem_nil, fun _ _ ha => absurd ha.1 nofun⟩
  exclusive _ _ _ ha := absurd ha.1 nofun

lemma NetInv.withEphemeral (h : NetInv n) (i : Port) : NetInv { n with ephemeral := i } :=
  ⟨⟨h.table.entry, h.table.sock⟩, h.exclusive⟩

lemma NetInv.udpDoBind (h : NetInv n) (hfree : (n.sock sock).bound = false)
    (hport : ∀ a, ¬ BoundTo n a (ntohs addr.sinPort)) : NetInv (udpDoBind sock addr n) :=
  ⟨h.table.udpDoBind hfree, h.exclusive.udpDoBind hport⟩

lemma NetInv.udpConnect (h : NetInv n) (sock addressLen : Nat) (address : Option SockaddrIn) :
    NetInv (udpConnect sock addressLen address n).2 := by
  have hsame := udpConnect_boundTo (n := n) sock addressLen address
  have htable : (Udp.udpConnect sock addressLen address n).2.hlist = n.hlist := by
    unfold Udp.udpConnect
    split_ifs
    · rfl
    · cases address <;> rfl
  refine ⟨⟨fun hash e he => ?_, fun a p ha => ?_⟩, fun a b p ha hb => ?_⟩
  · rw [htable] at he
    exact (hsame _ _).mpr (h.table.entry hash e he)
  · rw [htable]
    exact h.table.sock a p ((hsame a p).mp ha)
  · exact h.exclusive a b p ((hsame a p).mp ha) ((hsame b p).mp hb)

/-- A `bind` whose lookup is right. -/
lemma NetInv.bind (h : NetInv n) {addressLen : Nat} {address : Option SockaddrIn}
    (hc : looksRight n (.bind sock addressLen address) = true) :
    NetInv (udpBind sock addressLen address n).2 ∧
      ∀ addr, address = some addr → reachesLookup n sock addressLen addr = true →
        (∃ a, BoundTo n a (ntohs addr.sinPort)) → udpBind sock addressLen address n = (-eaddrinuse, n) := by
  rcases udpBind_cases sock addressLen address n with ⟨heq, hno⟩ | ⟨addr, rfl, hreach, heq⟩
  · rw [heq]
    refine ⟨h, fun addr ha hreach => ?_⟩
    rw [hno addr ha] at hreach
    cases hreach
  · have hright : (∃ a, BoundTo n a (ntohs addr.sinPort)) → (lookupEntry addr.sinPort n).isSome = true := by
      intro hused
      have hsome := (h.table.lookup_isSome _).mpr hused
      simpa [looksRight, hreach, hsome] using hc
    have hfree : (n.sock sock).bound = false := by
      simp only [reachesLookup, Bool.and_eq_true, Bool.not_eq_true'] at hreach
      exact hreach.1.1
    rw [heq]
    split_ifs with hl
    · exact ⟨h, fun _ _ _ _ => rfl⟩
    · have hport : ∀ a, ¬ BoundTo n a (ntohs addr.sinPort) := fun a ha => hl (hright ⟨a, ha⟩)
      refine ⟨h.udpDoBind hfree hport, fun addr' ha _ hused => ?_⟩
      cases ha
      exact absurd (hright hused) hl

lemma NetInv.send (h : NetInv n) {len : Nat} {copied : Bool}
    (hc : looksRight n (.send sock len copied) = true) :
    NetInv (udpSysSend sock len copied n).2 ∧ (reachesEphemeral n sock len = true →
      ∀ port, BoundTo (udpSysSend sock len copied n).2 sock port → ∀ a, ¬ BoundTo n a port) := by
  rcases udpSysSend_cases sock len copied n with
    ⟨hno, heq⟩ | ⟨hreach, i, ⟨-, heq⟩ | ⟨port, hchoice, heq⟩⟩ <;> rw [heq]
  · refine ⟨h, fun hreach => ?_⟩
    rw [hno] at hreach
    cases hreach
  all_goals
    have hfree : (n.sock sock).bound = false := by
      simp only [reachesEphemeral, Bool.and_eq_true, Bool.not_eq_true'] at hreach
      exact hreach.2
  · refine ⟨h.withEphemeral i, fun _ port hb => ?_⟩
    exact absurd (hb.1.symm.trans hfree) nofun
  · have hnone : (lookupEntry port n).isSome = false := by
      simpa [looksRight, hreach, hchoice] using hc
    have hport : ∀ a, ¬ BoundTo n a (ntohs (htons port)) := by
      intro a ha
      rw [htons, ntohs_ntohs] at ha
      exact absurd (((h.table.lookup_isSome port).mpr ⟨a, ha⟩).symm.trans hnone) nofun
    refine ⟨(h.withEphemeral i).udpDoBind hfree hport, fun _ p hb a ha => ?_⟩
    rw [← udpDoBind_boundTo_self.mp hb] at ha
    exact hport a ha

lemma NetInv.step (h : NetInv n) {c : Call} (hc : looksRight n c = true) (hs : Step n c n') :
    NetInv n' ∧ Respects n c n' := by
  obtain rfl := hs
  cases c with
  | bind sock addressLen address =>
    obtain ⟨hinv, hbind⟩ := h.bind hc
    refine ⟨hinv, hinv.exclusive, fun _ _ addr heq => ?_, fun _ _ _ heq => absurd heq nofun⟩
    cases heq
    exact hbind addr rfl
  | connect sock addressLen address =>
    have hinv := h.udpConnect sock addressLen address
    exact ⟨hinv, hinv.exclusive, fun _ _ _ heq => absurd heq nofun, fun _ _ _ heq => absurd heq nofun⟩
  | send sock len copied =>
    obtain ⟨hinv, hport⟩ := h.send hc
    refine ⟨hinv, hinv.exclusive, fun _ _ _ heq => absurd heq nofun, fun _ _ _ heq => ?_⟩
    cases heq
    exact hport

/-- Only a lookup that is right respects the ports. -/
lemma NetInv.respects_iff (h : NetInv n) {c : Call} (hs : Step n c n') :
    Respects n c n' ↔ looksRight n c = true := by
  refine ⟨fun hr => ?_, fun hc => (h.step hc hs).2⟩
  obtain rfl := hs
  cases c with
  | bind sock addressLen address =>
    cases address with
    | none => rfl
    | some addr =>
      by_contra hc
      simp only [looksRight, Bool.or_eq_true, Bool.not_eq_true', not_or, Bool.not_eq_false,
        Bool.and_eq_true, Bool.not_eq_true] at hc
      obtain ⟨⟨hreach, hused⟩, hother⟩ := hc
      have hret := hr.bind sock addressLen addr rfl hreach ((h.table.lookup_isSome _).mp hused)
      rcases udpBind_cases sock addressLen (some addr) n with ⟨-, hno⟩ | ⟨addr', heq, -, hbind⟩
      · exact absurd ((hno addr rfl).symm.trans hreach) nofun
      · cases heq
        rw [hother, if_neg Bool.false_ne_true] at hbind
        have hcode : (0 : Int) = -eaddrinuse := congrArg Prod.fst (hbind.symm.trans hret)
        exact absurd hcode (by decide)
  | connect sock addressLen address => rfl
  | send sock len copied =>
    by_contra hc
    simp only [looksRight, Bool.or_eq_true, Bool.not_eq_true', not_or, Bool.not_eq_false] at hc
    obtain ⟨hreach, hall⟩ := hc
    rcases udpSysSend_cases sock len copied n with ⟨hno, -⟩ | ⟨-, i, ⟨hnone, -⟩ | ⟨port, hchoice, heq⟩⟩
    · exact absurd (hno.symm.trans hreach) nofun
    · rw [hnone] at hall
      exact hall rfl
    · have hused : (lookupEntry port n).isSome = true := by
        simpa [hchoice, Option.isSome_iff_ne_none] using hall
      obtain ⟨a, ha⟩ := (h.table.lookup_isSome port).mp hused
      refine hr.ephemeral sock len copied rfl hreach port ?_ a ha
      change BoundTo (udpSysSend sock len copied n).2 sock port
      rw [heq]
      exact udpDoBind_boundTo_self.mpr (ntohs_ntohs port)

end

/-- From `udp_init` on, the ports of all sockets stay exclusive, a `bind` to a port in use fails and no
ephemeral port was in use, exactly if every call looks for the right port as far as the table
goes. -/
theorem ports_exclusive_iff {ip : Nat → Nat} {ts : List (Transition Net Call)} {n : Net}
    (hr : Run Step (start ip) ts n) :
    (∀ t ∈ ts, Respects t.source t.label t.target) ↔ ∀ t ∈ ts, looksRight t.source t.label = true := by
  have hstep : ∀ n c n', NetInv n → looksRight n c = true → Step n c n' → NetInv n' :=
    fun _ _ _ hi hc hs => (hi.step hc hs).1
  have hexact : ∀ n c n', NetInv n → Step n c n' → (Respects n c n' ↔ looksRight n c = true) :=
    fun _ _ _ hi hs => hi.respects_iff hs
  exact hr.forall_iff (NetInv.start ip) hstep hexact

/-- Port 0x5050 has two equal bytes: a second `bind` to it fails, and a third socket gets the
ephemeral port 20000. -/
theorem ports_exclusive_symmetric : ∃ ts n, Run Step (start fun _ => 0) ts n ∧
    (∀ t ∈ ts, Respects t.source t.label t.target) ∧ (n.sock 0).src.sinPort = 0x5050#16 ∧
    (n.sock 1).bound = false ∧ BoundTo n 2 20000#16 := by
  have hr : Run Step (start fun _ => 0) _ _ :=
    (((Run.nil.snoc (a := Call.bind 0 12 (some ⟨0x5050#16, 0⟩)) rfl).snoc
      (a := Call.bind 1 12 (some ⟨0x5050#16, 0⟩)) rfl).snoc
      (a := Call.connect 2 12 (some ⟨0x3500#16, 0x0101A8C0⟩)) rfl).snoc (a := Call.send 2 8 true) rfl
  refine ⟨_, _, hr, (ports_exclusive_iff hr).mpr (by decide), ?_, ?_, ?_⟩ <;> decide

lemma not_exclusive {n : Net} {a b : Nat} {port : Port} (ha : BoundTo n a port) (hb : BoundTo n b port)
    (hne : a ≠ b) : ¬ Exclusive n := fun h => hne (h a b port ha hb)

/-- Two sockets bind to port 80, which is 0x5000 in the address; and the ephemeral port of a third
is the one that a fourth is bound to. -/
theorem port_bound_twice :
    (∃ ts n, Run Step (start fun _ => 0) ts n ∧ (∀ t ∈ ts, (serve t.source t.label).1 = 0) ∧
      BoundTo n 0 80#16 ∧ BoundTo n 1 80#16 ∧ ¬ Exclusive n) ∧
    (∃ ts n, Run Step (start fun _ => 0) ts n ∧ BoundTo n 2 20000#16 ∧ BoundTo n 3 20000#16 ∧
      ¬ Exclusive n) := by
  constructor
  · have hr : Run Step (start fun _ => 0) _ _ :=
      (Run.nil.snoc (a := Call.bind 0 12 (some ⟨0x5000#16, 0⟩)) rfl).snoc
        (a := Call.bind 1 12 (some ⟨0x5000#16, 0⟩)) rfl
    refine ⟨_, _, hr, by decide, ?h0, ?h1, not_exclusive ?h0 ?h1 Nat.zero_ne_one⟩ <;> decide
  · have hr : Run Step (start fun _ => 0) _ _ :=
      ((Run.nil.snoc (a := Call.bind 3 12 (some ⟨htons 20000#16, 0⟩)) rfl).snoc
        (a := Call.connect 2 12 (some ⟨0x3500#16, 0x0101A8C0⟩)) rfl).snoc (a := Call.send 2 8 true) rfl
    refine ⟨_, _, hr, ?h2, ?h3, not_exclusive ?h2 ?h3 (by decide)⟩ <;> decide

end Hana.Udp
