import Hana.Net.Udp
import Hana.Proc.Sched

/-!
# Receiving datagrams

A frame goes from `virtio_handle_rxused` through `eth_recv` and `ip_recv` to `udp_recv`, which puts the
packet into the queue of a socket or hands it to a process in `udp_wait`. Every layer sets the pointer
to the header of the next one; only `ip_recv` compares one with the end of the frame.

* `received_ordered_iff`: the pointers of a packet are in order exactly when the UDP header is within
  the frame.
* `udpRecv_right_iff`: a datagram goes where it should, and wakes who waits for it, exactly when the
  entry of its bucket that the loop stops at has its port and nobody sleeps there, or sleeps on the very
  address that is woken.
-/

namespace Hana.Udp

open Function

open Hana.Sched (Sys)

/-- The memory of a received frame and the pointers into it. -/
structure Packet where
  byte : Nat → UInt8
  ll : Nat
  nl : Nat
  tl : Nat
  al : Nat
  end_ : Nat

/-- The addresses of an interface, as they are in memory. -/
structure Netif where
  ip : List UInt8
  mac : List UInt8

def Packet.bytes (pkt : Packet) (a n : Nat) : List UInt8 := (List.range n).map fun i => pkt.byte (a + i)

def Packet.u16 (pkt : Packet) (a : Nat) : Port :=
  BitVec.ofNat 16 ((pkt.byte a).toNat + 256 * (pkt.byte (a + 1)).toNat)

/-- `virtio_handle_rxused`, with the length of the used entry. -/
def rxPacket (byte : Nat → UInt8) (ll len : Nat) : Packet :=
  ⟨byte, ll, 0, 0, 0, ll + (len + 2 ^ 32 - 10) % 2 ^ 32⟩

/-- `ip_get_length` -/
def ipGetLength (pkt : Packet) : Nat := ((pkt.byte pkt.nl).toNat &&& 0x0F) * 4

/-- `ip_recv` and the first statement of `udp_recv`. -/
def ipRecv (netif : Netif) (pkt : Packet) : Option Packet :=
  let dst := pkt.bytes (pkt.nl + 16) 4
  if dst ≠ netif.ip ∧ dst ≠ [255, 255, 255, 255] then none
  else
    let pkt := { pkt with tl := pkt.nl + ipGetLength pkt }
    if pkt.end_ < pkt.tl then none
    else if pkt.byte (pkt.nl + 9) = 17 then some { pkt with al := pkt.tl + 8 } else none

/-- `eth_recv` -/
def ethRecv (netif : Netif) (pkt : Packet) : Option Packet :=
  let pkt := { pkt with nl := pkt.ll + 14 }
  let dstMac := pkt.bytes pkt.ll 6
  if dstMac = [255, 255, 255, 255, 255, 255] ∨ dstMac = netif.mac then
    if ntohs (pkt.u16 (pkt.ll + 12)) = 0x0800#16 then ipRecv netif pkt else none
  else none

/-- The length that `udp_sys_recv` computes. -/
def pktlen (pkt : Packet) : Nat := (((pkt.end_ : Int) - pkt.al) % 2 ^ 32).toNat

/-- The pointers are in order, and the length is the one of the payload. -/
def Ordered (pkt : Packet) : Prop :=
  pkt.ll ≤ pkt.nl ∧ pkt.nl ≤ pkt.tl ∧ pkt.tl ≤ pkt.al ∧ pkt.al ≤ pkt.end_ ∧ pkt.al + pktlen pkt = pkt.end_

/-- The pointers of a datagram are in order exactly when its UDP header fits into the frame. -/
theorem received_ordered_iff {byte : Nat → UInt8} {ll len : Nat} {netif : Netif} {pkt : Packet}
    (h : ethRecv netif (rxPacket byte ll len) = some pkt) :
    Ordered pkt ↔ 14 + ((byte (ll + 14)).toNat &&& 0x0F) * 4 + 8 ≤ (len + 2 ^ 32 - 10) % 2 ^ 32 := by
  simp only [ethRecv, ipRecv] at h
  split_ifs at h
  cases h
  simp only [Ordered, pktlen, rxPacket, ipGetLength]
  omega

/-- A frame to the broadcast addresses with the given first byte of the IP header. -/
def frame (verihl : UInt8) : Nat → UInt8 := fun i =>
  if i = 12 then 8 else if i = 13 then 0 else if i = 14 then verihl else if i = 23 then 17
  else if i < 34 then 255 else 0

/-- A frame of 50 bytes with a datagram of 8 bytes. -/
theorem received_ordered_eight : ∃ pkt, ethRecv ⟨[10, 0, 2, 15], []⟩ (rxPacket (frame 0x45) 0 60) = some pkt ∧
    Ordered pkt ∧ pktlen pkt = 8 := by
  have h : ethRecv ⟨[10, 0, 2, 15], []⟩ (rxPacket (frame 0x45) 0 60) = some _ := rfl
  exact ⟨_, h, (received_ordered_iff h).mpr (by decide), rfl⟩

/-- A frame of 34 bytes ends before the UDP header, and its datagram has 4294967288 bytes. -/
theorem received_wraps : ∃ pkt, ethRecv ⟨[10, 0, 2, 15], []⟩ (rxPacket (frame 0x45) 0 44) = some pkt ∧
    pkt.end_ < pkt.al ∧ pktlen pkt = 4294967288 := by
  refine ⟨_, rfl, ?_, ?_⟩ <;> decide

/-! ## The receiver -/

/-- A `struct udp_wait_entry`; without a socket it belongs to a process in `udp_wait`. -/
structure WaitEntry where
  addr : Nat
  sock : Nat
  port : Port

structure Table where
  hlist : Nat → List WaitEntry
  recvq : Nat → List Packet
  rcv : Nat → Option Packet
  sys : Sys

def Packet.dstPort (pkt : Packet) : Port := ntohs (pkt.u16 (pkt.tl + 2))

/-- The loop of `udp_recv`, whose variable `entry` is at the address `var`. It gives the packet to an
entry, or to nobody. -/
def recvLoop (var : Nat) (pkt : Packet) (t : Table) : List WaitEntry → Option WaitEntry × Table
  | [] => (none, t)
  | entry :: rest =>
    if entry.sock ≠ 0 then
      (some entry, { t with
        recvq := update t.recvq entry.sock (t.recvq entry.sock ++ [pkt])
        -- `&entry->sock`
        sys := t.sys.wakeup (entry.addr + 8) })
    else if entry.port = pkt.dstPort then
      (some entry, { t with rcv := update t.rcv entry.addr (some pkt), sys := t.sys.wakeup var })
    else recvLoop var pkt t rest

/-- `udp_recv`; a packet that nobody gets is freed. -/
def udpRecv (var : Nat) (pkt : Packet) (t : Table) : Option WaitEntry × Table :=
  recvLoop var pkt t (t.hlist (udpHash pkt.dstPort))

/-- The channel on which a process sleeps in `udp_sys_recv` or in `udp_wait`. -/
def WaitEntry.sleepChan (entry : WaitEntry) : Nat := if entry.sock ≠ 0 then entry.sock else entry.addr

/-- The channel that `udp_recv` wakes. -/
def WaitEntry.wakeChan (var : Nat) (entry : WaitEntry) : Nat :=
  if entry.sock ≠ 0 then entry.addr + 8 else var

def Asleep (s : Sys) (p chan : Nat) : Prop :=
  p ∈ s.procList ∧ (s.proc p).state = .sleeping ∧ (s.proc p).chan = chan

/-- A datagram goes to its port only, it is freed if there is no such port, and nobody who has waited
for it sleeps on. -/
structure Right (var : Nat) (pkt : Packet) (t : Table) : Prop where
  port : ∀ entry, (udpRecv var pkt t).1 = some entry → entry.port = pkt.dstPort
  frees : (∀ hash, ∀ entry ∈ t.hlist hash, entry.port ≠ pkt.dstPort) → (udpRecv var pkt t).1 = none
  wakes : ∀ entry, (udpRecv var pkt t).1 = some entry → ∀ p, Asleep t.sys p entry.sleepChan →
    ((udpRecv var pkt t).2.sys.proc p).state ≠ .sleeping

/-- The loop stops at the first socket or at the first entry with the port. -/
lemma recvLoop_eq (var : Nat) (pkt : Packet) (t : Table) (l : List WaitEntry) :
    (recvLoop var pkt t l).1 = l.find? (fun entry => entry.sock ≠ 0 ∨ entry.port = pkt.dstPort) ∧
      ∀ entry, (recvLoop var pkt t l).1 = some entry →
        (recvLoop var pkt t l).2.sys = t.sys.wakeup (entry.wakeChan var) := by
  induction l with
  | nil => exact ⟨rfl, nofun⟩
  | cons entry l ih =>
    unfold recvLoop
    split_ifs with hsock hport
    · rw [List.find?_cons_of_pos (by simp [hsock])]
      refine ⟨rfl, fun e he => ?_⟩
      cases he
      rw [WaitEntry.wakeChan, if_pos hsock]
    · rw [List.find?_cons_of_pos (by simp [hport])]
      refine ⟨rfl, fun e he => ?_⟩
      cases he
      rw [WaitEntry.wakeChan, if_neg hsock]
    · rw [List.find?_cons_of_neg (by simp [hsock, hport])]
      exact ih

lemma wakeup_asleep {s : Sys} {p c : Nat} (h : Asleep s p c) (chan : Nat) :
    ((s.wakeup chan).proc p).state ≠ .sleeping ↔ chan = c ∧ s.cur ≠ some p := by
  obtain ⟨hp, hstate, rfl⟩ := h
  simp only [Sys.wakeup, hp, hstate, true_and]
  split_ifs with hwake
  · exact iff_of_true (by simp) ⟨hwake.2.symm, hwake.1⟩
  · exact iff_of_false (by simp [hstate]) fun hno => hwake ⟨hno.2, hno.1.symm⟩

/-- A datagram is delivered as it should be exactly when the entry that the loop stops at has its port,
and whoever sleeps there sleeps on the address that is woken. -/
theorem udpRecv_right_iff (var : Nat) (pkt : Packet) (t : Table) :
    Right var pkt t ↔ ∀ entry,
      (t.hlist (udpHash pkt.dstPort)).find? (fun e => e.sock ≠ 0 ∨ e.port = pkt.dstPort) = some entry →
        entry.port = pkt.dstPort ∧ ∀ p, Asleep t.sys p entry.sleepChan →
          entry.wakeChan var = entry.sleepChan ∧ t.sys.cur ≠ some p := by
  obtain ⟨hfind, hsys⟩ := recvLoop_eq var pkt t (t.hlist (udpHash pkt.dstPort))
  rw [← hfind]
  constructor
  · intro h entry hentry
    refine ⟨h.port entry hentry, fun p hp => ?_⟩
    have hwake := h.wakes entry hentry p hp
    rw [udpRecv, hsys entry hentry] at hwake
    exact (wakeup_asleep hp _).mp hwake
  · intro h
    refine ⟨fun entry hentry => (h entry hentry).1, fun hno => ?_, fun entry hentry p hp => ?_⟩
    · by_contra hsome
      obtain ⟨entry, hentry⟩ := Option.ne_none_iff_exists'.mp hsome
      exact hno _ entry (List.mem_of_find?_eq_some (hfind ▸ hentry)) (h entry hentry).1
    · rw [udpRecv, hsys entry hentry]
      exact (wakeup_asleep hp _).mpr ((h entry hentry).2 p hp)

/-- A process sleeps in `udp_sys_recv` on the socket at `0x2000`, which is bound to a port of the bucket
of the port 80. -/
def sleeper (port : Port) : Table where
  hlist hash := if hash = 80 then [⟨0x1000, 0x2000, port⟩] else []
  recvq _ := []
  rcv _ := none
  sys := ⟨fun _ => { Sched.newProc with state := .sleeping, chan := 0x2000 }, [1], [], none, false, 0, false, 0,
    false⟩

/-- A datagram for the port 80. -/
def toWeb : Packet := ⟨fun i => if i = 37 then 80 else 0, 0, 14, 34, 42, 50⟩

/-- The reader of the port 80 sleeps on, and a datagram for it is queued on the port 208. -/
theorem udpRecv_wrong : ¬ Right 0x3000 toWeb (sleeper 80) ∧ ¬ Right 0x3000 toWeb (sleeper 208) := by
  constructor
  · intro h
    exact h.wakes _ rfl 1 ⟨by decide, rfl, rfl⟩ rfl
  · intro h
    exact absurd (h.port _ rfl) (by decide)

end Hana.Udp
