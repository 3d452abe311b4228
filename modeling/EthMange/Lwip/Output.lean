import EthMange.Lwip.Pbuf

/-!
# Sending a datagram from the buffer of another one

`udp_send`, `ip_output_if` and `etharp_output` write their headers in front of
the payload, over whatever lies there. For a buffer that came in with a datagram
that is the old headers, and a pointer into them sees the new ones.
-/

namespace EthMange

/-- The bytes `bs` are written from `off` on. -/
def Memory.put (m : Memory) (off : ℕ) (bs : Bytes) : Memory := m.memcpy off (.ofBytes bs) bs.length

namespace Lwip

/-- `struct ip_addr`, its bytes as they lie in memory. -/
structure IpAddr where
  a : UInt8
  b : UInt8
  c : UInt8
  d : UInt8
  deriving DecidableEq, Repr

/-- `IP_ADDR_ANY` -/
def ipAddrAny : IpAddr := ⟨0, 0, 0, 0⟩

def IpAddr.bytes (ip : IpAddr) : Bytes := [ip.a, ip.b, ip.c, ip.d]

/-- `struct eth_addr` -/
structure EthAddr where
  a : UInt8
  b : UInt8
  c : UInt8
  d : UInt8
  e : UInt8
  f : UInt8
  deriving DecidableEq, Repr

def EthAddr.bytes (hw : EthAddr) : Bytes := [hw.a, hw.b, hw.c, hw.d, hw.e, hw.f]

def hiByte (n : UInt16) : UInt8 := (n >>> 8).toUInt8

def loByte (n : UInt16) : UInt8 := n.toUInt8

/-- The bytes of `htons(n)`. -/
def htons (n : UInt16) : Bytes := [hiByte n, loByte n]

/-- The address at offset `off`. -/
def ipAddrAt (m : Memory) (off : ℕ) : IpAddr := ⟨m off, m (off + 1), m (off + 2), m (off + 3)⟩

/-- A pbuf of the pool: the memory behind its `struct pbuf`, where in it
`payload` points to, and `tot_len`. -/
structure Packet where
  mem : Memory
  payload : ℕ
  totLen : UInt16

namespace Packet

/-- `pbuf_header` with a positive increment. -/
def pbufHeader (p : Packet) (size : ℕ) : Option Packet :=
  if p.payload < size then none
  else some ⟨p.mem, p.payload - size, p.totLen + UInt16.ofNat size⟩

/-- The bytes at the payload pointer are written. -/
def write (p : Packet) (bs : Bytes) : Packet := { p with mem := p.mem.put p.payload bs }

end Packet

/-- What `etharp_output` does with a packet that has its header: it is sent from
its buffer to a hardware address, or dropped, or a copy of it waits in a queue. -/
inductive ArpOutcome
  | send (dst : EthAddr) (err : Err)
  | keep (err : Err)
  deriving DecidableEq, Repr

/-- The interface and the rest of the stack as one call of `udp_send` meets them. -/
structure SendEnv where
  -- whether `ip_route` finds the interface
  route : Bool
  ipAddr : IpAddr
  hwaddr : EthAddr
  mtu : UInt16
  -- the counter of `ip_output_if`
  ipId : UInt16
  arp : ArpOutcome
  -- what comes back when the headers go to a pbuf of their own, and from `ip_frag`
  headerPbuf : Err
  frag : Err

def sizeofEthHdr : ℕ := 14

/-- `IP_HLEN` -/
def ipHlen : ℕ := 20

/-- `UDP_HLEN` -/
def udpHlen : ℕ := 8

/-- The header that `etharp_send_ip` writes. -/
def ethHdr (env : SendEnv) (dst : EthAddr) : Bytes := dst.bytes ++ env.hwaddr.bytes ++ [0x08, 0x00]

/-- `etharp_output` -/
def etharpOutput (env : SendEnv) (p : Packet) : Err × Packet :=
  match p.pbufHeader sizeofEthHdr with
  | none => (.buf, p)
  | some p =>
    match env.arp with
    | .send dst err => (err, p.write (ethHdr env dst))
    | .keep err => (err, p)

/-- The header that `ip_output_if` writes for `udp_send`. The checksum is left
to the hardware. -/
def ipHdr (env : SendEnv) (dest : IpAddr) (totLen : UInt16) : Bytes :=
  [0x45, 0] ++ htons totLen ++ htons env.ipId ++ [0, 0] ++ [255, 17, 0, 0] ++
    env.ipAddr.bytes ++ dest.bytes

/-- `ip_output_if`. A packet over the MTU is sent by `ip_frag` in copies. -/
def ipOutputIf (env : SendEnv) (dest : IpAddr) (p : Packet) : Err × Packet :=
  match p.pbufHeader ipHlen with
  | none => (.buf, p)
  | some p =>
    let p := p.write (ipHdr env dest p.totLen)
    if env.mtu ≠ 0 ∧ env.mtu < p.totLen then (env.frag, p) else etharpOutput env p

/-- The header that `udp_sendto_if` writes, without a checksum. -/
def udpHdr (src dest totLen : UInt16) : Bytes :=
  htons src ++ htons dest ++ htons totLen ++ [0, 0]

/-- `udp_sendto_if` for a control block that is bound to a port and to no address.
Without room for the header, all of them go to another pbuf in front of `p`. -/
def udpSendtoIf (env : SendEnv) (src : UInt16) (dstIp : IpAddr) (dstPort : UInt16) (p : Packet) :
    Err × Packet :=
  match p.pbufHeader udpHlen with
  | none => (env.headerPbuf, p)
  | some p => ipOutputIf env dstIp (p.write (udpHdr src dstPort p.totLen))

/-- `udp_sendto` -/
def udpSendto (env : SendEnv) (src : UInt16) (dstIp : IpAddr) (dstPort : UInt16) (p : Packet) :
    Err × Packet :=
  if env.route then udpSendtoIf env src dstIp dstPort p else (.rte, p)

/-- The hardware address in the Ethernet header of an IP packet, if that header
is to go in front of it. -/
def linkDst (env : SendEnv) (totLen : UInt16) : Option EthAddr :=
  if env.mtu ≠ 0 ∧ env.mtu < totLen then none
  else
    match env.arp with
    | .send dst _ => some dst
    | .keep _ => none

def linkHeaders (env : SendEnv) (payload : ℕ) (totLen : UInt16) : Bytes :=
  match linkDst env totLen with
  | some dst => if payload < sizeofEthHdr then [] else ethHdr env dst
  | none => []

/-- The headers that go in front of what `ip_output_if` is given. -/
def ipHeaders (env : SendEnv) (dest : IpAddr) (payload : ℕ) (totLen : UInt16) : Bytes :=
  if payload < ipHlen then []
  else
    linkHeaders env (payload - ipHlen) (totLen + UInt16.ofNat ipHlen) ++
      ipHdr env dest (totLen + UInt16.ofNat ipHlen)

/-- The headers that go in front of the payload that `udp_sendto` is given. -/
def udpHeaders (env : SendEnv) (src : UInt16) (dstIp : IpAddr) (dstPort : UInt16) (payload : ℕ)
    (totLen : UInt16) : Bytes :=
  if env.route = false ∨ payload < udpHlen then []
  else ipHeaders env dstIp (payload - udpHlen) (totLen + UInt16.ofNat udpHlen) ++
    udpHdr src dstPort (totLen + UInt16.ofNat udpHlen)

theorem put_nil (m : Memory) (off : ℕ) : m.put off [] = m := by
  funext a
  exact Memory.memcpy_outside _ _ (by simp only [List.length_nil]; omega)

theorem put_inside (m : Memory) (off : ℕ) {bs : Bytes} {k : ℕ} (h : k < bs.length) :
    m.put off bs (off + k) = bs[k] := by
  rw [Memory.put, Memory.memcpy_inside _ _ _ h, Memory.ofBytes, List.getD_eq_getElem?_getD,
    List.getElem?_eq_getElem h, Option.getD_some]

theorem put_outside (m : Memory) {off a : ℕ} {bs : Bytes} (h : a < off ∨ off + bs.length ≤ a) :
    m.put off bs a = m a :=
  Memory.memcpy_outside _ _ h

/-- What is written in front of bytes that were written before joins them. -/
theorem put_put (m : Memory) (off : ℕ) (bs cs : Bytes) :
    (m.put (off + bs.length) cs).put off bs = m.put off (bs ++ cs) := by
  funext a
  by_cases hlow : a < off
  · rw [put_outside _ (.inl hlow), put_outside _ (.inl (by omega)), put_outside _ (.inl hlow)]
  obtain ⟨k, rfl⟩ := Nat.exists_eq_add_of_le (Nat.not_lt.mp hlow)
  by_cases hfront : k < bs.length
  · have hall : k < (bs ++ cs).length := by
      rw [List.length_append]
      omega
    rw [put_inside _ _ hfront, put_inside _ _ hall, List.getElem_append_left hfront]
  rw [put_outside _ (.inr (by omega))]
  obtain ⟨l, rfl⟩ := Nat.exists_eq_add_of_le (Nat.not_lt.mp hfront)
  by_cases hback : l < cs.length
  · have hall : bs.length + l < (bs ++ cs).length := by
      rw [List.length_append]
      omega
    rw [← Nat.add_assoc, put_inside _ _ hback, Nat.add_assoc, put_inside _ _ hall,
      List.getElem_append_right (Nat.le_add_right _ _)]
    simp only [Nat.add_sub_cancel_left]
  · rw [put_outside _ (.inr (by omega)), put_outside _ (.inr (by rw [List.length_append]; omega))]

@[simp] theorem ethHdr_length (env : SendEnv) (dst : EthAddr) :
    (ethHdr env dst).length = sizeofEthHdr := rfl

@[simp] theorem ipHdr_length (env : SendEnv) (dest : IpAddr) (totLen : UInt16) :
    (ipHdr env dest totLen).length = ipHlen := rfl

@[simp] theorem udpHdr_length (src dest totLen : UInt16) :
    (udpHdr src dest totLen).length = udpHlen := rfl

theorem linkHeaders_length_le (env : SendEnv) (payload : ℕ) (totLen : UInt16) :
    (linkHeaders env payload totLen).length ≤ payload := by
  rw [linkHeaders]
  split
  · split_ifs with h
    · exact Nat.zero_le _
    · exact Nat.not_lt.mp h
  · exact Nat.zero_le _

theorem ipHeaders_length_le (env : SendEnv) (dest : IpAddr) (payload : ℕ) (totLen : UInt16) :
    (ipHeaders env dest payload totLen).length ≤ payload := by
  rw [ipHeaders]
  split_ifs with h
  · exact Nat.zero_le _
  · have hlink := linkHeaders_length_le env (payload - ipHlen) (totLen + UInt16.ofNat ipHlen)
    rw [List.length_append, ipHdr_length]
    omega

/-- The bytes `bs` in front of what `payload` points at. -/
def Packet.front (p : Packet) (bs : Bytes) : Memory := p.mem.put (p.payload - bs.length) bs

theorem front_append (p : Packet) {bs cs : Bytes} (h : bs.length + cs.length ≤ p.payload) :
    p.front (bs ++ cs) =
      (p.mem.put (p.payload - cs.length) cs).put (p.payload - cs.length - bs.length) bs := by
  have hmid : p.payload - cs.length = p.payload - (bs ++ cs).length + bs.length := by
    rw [List.length_append]
    omega
  rw [hmid, Nat.add_sub_cancel, put_put, Packet.front]

theorem etharpOutput_mem (env : SendEnv) (p : Packet) (h : ¬ (env.mtu ≠ 0 ∧ env.mtu < p.totLen)) :
    (etharpOutput env p).2.mem = p.front (linkHeaders env p.payload p.totLen) := by
  rw [etharpOutput, linkHeaders, linkDst, if_neg h, Packet.pbufHeader]
  by_cases hroom : p.payload < sizeofEthHdr
  · simp only [hroom, if_true]
    cases env.arp <;> exact (put_nil _ _).symm
  · simp only [hroom, if_false]
    cases env.arp with
    | send dst err => rfl
    | keep err => exact (put_nil _ _).symm

theorem ipOutputIf_of_le (env : SendEnv) (dest : IpAddr) {p : Packet} (h : ipHlen ≤ p.payload) :
    ipOutputIf env dest p =
      let totLen := p.totLen + UInt16.ofNat ipHlen
      let q := (⟨p.mem, p.payload - ipHlen, totLen⟩ : Packet).write (ipHdr env dest totLen)
      if env.mtu ≠ 0 ∧ env.mtu < totLen then (env.frag, q) else etharpOutput env q := by
  rw [ipOutputIf, Packet.pbufHeader, if_neg (Nat.not_lt.mpr h)]
  rfl

theorem ipOutputIf_mem (env : SendEnv) (dest : IpAddr) (p : Packet) :
    (ipOutputIf env dest p).2.mem = p.front (ipHeaders env dest p.payload p.totLen) := by
  by_cases h : p.payload < ipHlen
  · rw [ipOutputIf, ipHeaders, Packet.pbufHeader, if_pos h, if_pos h]
    exact (put_nil _ _).symm
  rw [ipOutputIf_of_le env dest (Nat.not_lt.mp h), ipHeaders, if_neg h]
  dsimp only
  split_ifs with hfrag
  · rw [linkHeaders, linkDst, if_pos hfrag]
    rfl
  · have hlink := linkHeaders_length_le env (p.payload - ipHlen) (p.totLen + UInt16.ofNat ipHlen)
    rw [etharpOutput_mem _ _ hfrag, front_append _ (by rw [ipHdr_length]; omega)]
    rfl

/-- `udp_sendto` writes its headers in front of the payload and nothing else. -/
theorem udpSendto_mem (env : SendEnv) (src : UInt16) (dstIp : IpAddr) (dstPort : UInt16)
    (p : Packet) :
    (udpSendto env src dstIp dstPort p).2.mem =
      p.front (udpHeaders env src dstIp dstPort p.payload p.totLen) := by
  rw [udpSendto, udpHeaders]
  cases hroute : env.route with
  | false => exact (put_nil _ _).symm
  | true =>
    rw [if_pos rfl, udpSendtoIf, Packet.pbufHeader]
    by_cases h : p.payload < udpHlen
    · simp only [h, if_true, or_true]
      exact (put_nil _ _).symm
    simp only [h, if_false, or_false, Bool.true_eq_false]
    have hip :=
      ipHeaders_length_le env dstIp (p.payload - udpHlen) (p.totLen + UInt16.ofNat udpHlen)
    rw [ipOutputIf_mem, front_append _ (by rw [udpHdr_length]; omega)]
    rfl

/-- An address in front of the headers, or at or behind the payload, stays. -/
theorem ipAddrAt_front_of_le (p : Packet) {hs : Bytes} {off : ℕ}
    (h : off + 4 + hs.length ≤ p.payload ∨ p.payload ≤ off) (hroom : hs.length ≤ p.payload) :
    ipAddrAt (p.front hs) off = ipAddrAt p.mem off := by
  simp only [ipAddrAt, Packet.front, IpAddr.mk.injEq]
  refine ⟨?_, ?_, ?_, ?_⟩ <;> exact put_outside _ (by omega)

/-- An address in the headers is read from them. -/
theorem ipAddrAt_front_append (p : Packet) (hs cs : Bytes) (ip : IpAddr) {off : ℕ}
    (h : off + 4 + cs.length = p.payload) (hroom : hs.length ≤ off) :
    ipAddrAt (p.front (hs ++ ip.bytes ++ cs)) off = ip := by
  have hlen : (hs ++ ip.bytes ++ cs).length = hs.length + 4 + cs.length := by
    rw [List.length_append, List.length_append]
    rfl
  obtain ⟨start, rfl⟩ := Nat.exists_eq_add_of_le' hroom
  have hstart : p.payload - (hs ++ ip.bytes ++ cs).length = start := by omega
  have hbyte (k : ℕ) (hk : k < 4) :
      p.front (hs ++ ip.bytes ++ cs) (start + hs.length + k) = ip.bytes[k] := by
    rw [Packet.front, hstart, Nat.add_assoc, put_inside _ _ (by omega), List.getElem_append_left,
      List.getElem_append_right (Nat.le_add_right _ _)]
    · simp only [Nat.add_sub_cancel_left]
      rfl
    · rw [List.length_append]
      exact Nat.add_lt_add_left hk _
  rw [ipAddrAt, IpAddr.mk.injEq]
  exact ⟨hbyte 0 (by decide), hbyte 1 (by decide), hbyte 2 (by decide), hbyte 3 (by decide)⟩

end Lwip

end EthMange
