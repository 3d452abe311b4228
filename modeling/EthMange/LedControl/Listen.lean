import EthMange.Lwip.Output

/-!
# The hello datagram of the LED client

`udp_server_callback` answers a hello with the packet itself and then listens on
the address that its argument `addr` points at, a field of the IP header in that
packet. What the headers of the answer leave there depends on the length of the
IP header that came in.
-/

namespace EthMange.LedControl

open Lwip

def udpServerPort : UInt16 := 8

def udpClientPort : UInt16 := 4

def tcpPort : UInt16 := 4

/-- The local end of a TCP control block. -/
structure TcpPcb where
  localIp : IpAddr
  localPort : UInt16
  deriving DecidableEq, Repr

/-- The lists of TCP control blocks. -/
structure TcpPcbs where
  listen : List TcpPcb
  active : List TcpPcb
  bound : List TcpPcb
  timeWait : List TcpPcb

/-- Whether a control block that is not in TIME-WAIT is in the way of a bind. -/
def TcpPcb.Uses (cpcb : TcpPcb) (ipaddr : IpAddr) (port : UInt16) : Prop :=
  cpcb.localPort = port ∧
    (cpcb.localIp = ipAddrAny ∨ ipaddr = ipAddrAny ∨ cpcb.localIp = ipaddr)

instance (cpcb : TcpPcb) (ipaddr : IpAddr) (port : UInt16) : Decidable (cpcb.Uses ipaddr port) :=
  inferInstanceAs (Decidable (_ ∧ _))

/-- `tcp_bind` of a new control block to a port other than zero. Nothing comes
back for `ERR_USE`. -/
def tcpBind (pcbs : TcpPcbs) (ipaddr : IpAddr) (port : UInt16) : Option TcpPcb :=
  if ∃ cpcb ∈ pcbs.listen ++ pcbs.active ++ pcbs.bound, cpcb.Uses ipaddr port then none
  else if ∃ cpcb ∈ pcbs.timeWait, cpcb.localPort = port ∧ cpcb.localIp = ipaddr then none
  else some ⟨ipaddr, port⟩

/-- The listening control block to which `tcp_input` gives a segment. -/
def tcpInputListen (lpcbs : List TcpPcb) (dest : IpAddr) (port : UInt16) : Option TcpPcb :=
  lpcbs.find? fun lpcb =>
    (lpcb.localIp = ipAddrAny ∨ lpcb.localIp = dest) ∧ lpcb.localPort = port

/-- TCP as one call of the callback meets it. -/
structure TcpEnv where
  -- the lists after `tcp_new`, which may abort connections to get a control block
  new : Option TcpPcbs
  -- whether `tcp_listen` gets its smaller control block
  listenFree : Bool

/-- What a hello comes to. -/
inductive Hello
  | noPcb
  | inUse
  | noListenPcb
  -- the control block that enters LISTEN, and the ones behind it in the list
  | listening (pcb : TcpPcb) (others : List TcpPcb)
  deriving DecidableEq

/-- `udp_server_callback`, without its lines on the display. The result of
`udp_send` is not looked at. -/
def udpServerCallback (env : SendEnv) (tcp : TcpEnv) (p : Packet) (addr : ℕ) : Hello :=
  -- `udp_connect` copies the address before the packet changes
  let remoteIp := ipAddrAt p.mem addr
  let p := (udpSendto env udpServerPort remoteIp udpClientPort p).2
  match tcp.new with
  | none => .noPcb
  | some pcbs =>
    match tcpBind pcbs (ipAddrAt p.mem addr) tcpPort with
    | none => .inUse
    | some pcb => if tcp.listenFree then .listening pcb pcbs.listen else .noListenPcb

/-- Where the source address of the IP header lies in a received packet. -/
def srcField : ℕ := sizeofEthHdr + 12

/-- `IPH_HL` of the IP header of a received packet. -/
def iphHl (m : Memory) : ℕ := (m sizeofEthHdr &&& 0x0f).toNat

/-- The packet as `udp_input` hands it to the callback, behind its headers. -/
def helloPacket (m : Memory) (totLen : UInt16) : Packet :=
  ⟨m, sizeofEthHdr + 4 * iphHl m + udpHlen, totLen⟩

/-- A control block that enters LISTEN does so on the address of the interface,
and a SYN to that address finds it. -/
def ListensOnOwnAddress (own : IpAddr) (hello : Hello) : Prop :=
  ∀ pcb others, hello = .listening pcb others →
    (pcb.localIp = own ∨ pcb.localIp = ipAddrAny) ∧
      tcpInputListen (pcb :: others) own tcpPort = some pcb

/-- Whether a bind to `ip` and the call of `tcp_listen` after it succeed. -/
def EntersListen (tcp : TcpEnv) (ip : IpAddr) : Prop :=
  tcp.listenFree ∧ ∃ pcbs, tcp.new = some pcbs ∧ (tcpBind pcbs ip tcpPort).isSome

/-- What `addr` points at after the answer, by the length of the IP header of the
hello in words. -/
def addrAfterSend (env : SendEnv) (m : Memory) (totLen : UInt16) : IpAddr :=
  let client := ipAddrAt m srcField
  let udpLen := totLen + 8
  let ipLen := totLen + 8 + 20
  if env.route = false then client
  else
    match iphHl m, linkDst env ipLen with
    -- in the UDP header: the length, the ports
    | 2, _ => ⟨hiByte udpLen, loByte udpLen, 0, 0⟩
    | 3, _ => ⟨0, 8, 0, 4⟩
    -- in the IP header: the source, the time to live, the number, the first word;
    -- with 4 words the destination, which is the client
    | 5, _ => env.ipAddr
    | 6, _ => ⟨255, 17, 0, 0⟩
    | 7, _ => ⟨hiByte env.ipId, loByte env.ipId, 0, 0⟩
    | 8, _ => ⟨0x45, 0, hiByte ipLen, loByte ipLen⟩
    -- in the Ethernet header
    | 9, some _ => ⟨env.hwaddr.e, env.hwaddr.f, 0x08, 0x00⟩
    | 10, some _ => ⟨env.hwaddr.a, env.hwaddr.b, env.hwaddr.c, env.hwaddr.d⟩
    | 11, some dst => ⟨dst.c, dst.d, dst.e, dst.f⟩
    | 12, some dst => ⟨client.a, client.b, dst.a, dst.b⟩
    | _, _ => client

variable {env : SendEnv} {m : Memory} {totLen : UInt16}

theorem iphHl_lt (m : Memory) : iphHl m < 16 := by
  rw [iphHl, UInt8.toNat_and]
  exact Nat.and_lt_two_pow _ (show UInt8.toNat 0x0f < 2 ^ 4 by decide)

/-- The packet after the answer. -/
def answered (env : SendEnv) (m : Memory) (totLen : UInt16) : Packet :=
  (udpSendto env udpServerPort (ipAddrAt m srcField) udpClientPort (helloPacket m totLen)).2

/-- The headers of the answer from the IP header on. -/
def answerHdr (env : SendEnv) (m : Memory) (totLen : UInt16) : Bytes :=
  ipHdr env (ipAddrAt m srcField) (totLen + 8 + 20) ++
    udpHdr udpServerPort udpClientPort (totLen + 8)

def answerLink (env : SendEnv) (m : Memory) (totLen : UInt16) : Bytes :=
  linkHeaders env (4 * iphHl m - 6) (totLen + 8 + 20)

theorem helloPacket_payload : (helloPacket m totLen).payload = 22 + 4 * iphHl m := by
  simp only [helloPacket, sizeofEthHdr, udpHlen]
  omega

/-- There is always room for the UDP header in front of a hello. -/
theorem answered_mem_ip (hroute : env.route = true) :
    (answered env m totLen).mem = (helloPacket m totLen).front
      (ipHeaders env (ipAddrAt m srcField) (14 + 4 * iphHl m) (totLen + 8) ++
        udpHdr udpServerPort udpClientPort (totLen + 8)) := by
  have hroom : ¬ (22 + 4 * iphHl m < udpHlen) := by
    rw [udpHlen]
    omega
  have hip : 22 + 4 * iphHl m - udpHlen = 14 + 4 * iphHl m := by
    rw [udpHlen]
    omega
  rw [answered, udpSendto_mem, udpHeaders, helloPacket_payload, if_neg (by simp [hroute, hroom]),
    hip]
  rfl

theorem answered_mem (hroute : env.route = true) (h : 2 ≤ iphHl m) :
    (answered env m totLen).mem =
      (helloPacket m totLen).front (answerLink env m totLen ++ answerHdr env m totLen) := by
  have hip : ¬ 14 + 4 * iphHl m < ipHlen := by
    rw [ipHlen]
    omega
  have hlink : 14 + 4 * iphHl m - ipHlen = 4 * iphHl m - 6 := by
    rw [ipHlen]
    omega
  rw [answered_mem_ip hroute, ipHeaders, if_neg hip, hlink, List.append_assoc]
  rfl

theorem answerHdr_length (env : SendEnv) (m : Memory) (totLen : UInt16) :
    (answerHdr env m totLen).length = 28 := rfl

theorem answerLink_length_le (env : SendEnv) (m : Memory) (totLen : UInt16) :
    (answerLink env m totLen).length ≤ 4 * iphHl m - 6 :=
  linkHeaders_length_le _ _ _

theorem eq_of_bytes {hs : Bytes} {k : ℕ} {ip : IpAddr} (h : (hs.drop k).take 4 = ip.bytes) :
    hs = hs.take k ++ ip.bytes ++ hs.drop (k + 4) := by
  rw [← h, List.append_assoc, ← List.drop_drop, List.take_append_drop, List.take_append_drop]

/-- Four bytes of the UDP or the IP header lie where the address was. -/
theorem addr_of_answerHdr (hroute : env.route = true) (h2 : 2 ≤ iphHl m) (h8 : iphHl m ≤ 8)
    {ip : IpAddr}
    (hbytes : ((answerHdr env m totLen).drop (32 - 4 * iphHl m)).take 4 = ip.bytes) :
    ipAddrAt (answered env m totLen).mem srcField = ip := by
  have hlen := answerHdr_length env m totLen
  have hlink := answerLink_length_le env m totLen
  rw [answered_mem hroute h2, eq_of_bytes hbytes, ← List.append_assoc, ← List.append_assoc]
  refine ipAddrAt_front_append _ _ _ _ ?_ ?_
  · rw [helloPacket_payload, List.length_drop, hlen, srcField, sizeofEthHdr]
    omega
  · rw [List.length_append, List.length_take, hlen, srcField, sizeofEthHdr]
    omega

theorem answerLink_of_none (hlink : linkDst env (totLen + 8 + 20) = none) :
    answerLink env m totLen = [] := by
  rw [answerLink, linkHeaders, hlink]

theorem answerLink_of_some {dst : EthAddr} (hlink : linkDst env (totLen + 8 + 20) = some dst)
    (h : 5 ≤ iphHl m) : answerLink env m totLen = ethHdr env dst := by
  have hroom : ¬ 4 * iphHl m - 6 < sizeofEthHdr := by
    rw [sizeofEthHdr]
    omega
  rw [answerLink, linkHeaders, hlink]
  exact if_neg hroom

/-- Four bytes of the Ethernet header lie where the address was. -/
theorem addr_of_ethHdr (hroute : env.route = true) (h9 : 9 ≤ iphHl m) (h11 : iphHl m ≤ 11)
    {dst : EthAddr} (hlink : linkDst env (totLen + 8 + 20) = some dst) {ip : IpAddr}
    (hbytes : ((ethHdr env dst).drop (46 - 4 * iphHl m)).take 4 = ip.bytes) :
    ipAddrAt (answered env m totLen).mem srcField = ip := by
  have hlen : (ethHdr env dst).length = 14 := ethHdr_length env dst
  rw [answered_mem hroute (by omega), answerLink_of_some hlink (by omega), eq_of_bytes hbytes,
    List.append_assoc]
  refine ipAddrAt_front_append _ _ _ _ ?_ ?_
  · rw [helloPacket_payload, List.length_append, List.length_drop, hlen, answerHdr_length,
      srcField, sizeofEthHdr]
    omega
  · rw [List.length_take, hlen, srcField, sizeofEthHdr]
    omega

/-- The headers are all behind the address, or all in front of it. -/
theorem addr_of_front {hs : Bytes} (hmem : (answered env m totLen).mem =
      (helloPacket m totLen).front hs) (hroom : hs.length ≤ 22 + 4 * iphHl m)
    (h : hs.length + 8 ≤ 4 * iphHl m ∨ iphHl m ≤ 1) :
    ipAddrAt (answered env m totLen).mem srcField = ipAddrAt m srcField := by
  rw [hmem]
  refine ipAddrAt_front_of_le _ ?_ ?_
  · rw [helloPacket_payload, srcField, sizeofEthHdr]
    omega
  · rw [helloPacket_payload]
    exact hroom

theorem addr_of_no_route (hroute : env.route = false) :
    ipAddrAt (answered env m totLen).mem srcField = ipAddrAt m srcField := by
  rw [answered, udpSendto, hroute]
  rfl

theorem addr_of_short (hroute : env.route = true) (h : iphHl m ≤ 1) :
    ipAddrAt (answered env m totLen).mem srcField = ipAddrAt m srcField := by
  have hip : 14 + 4 * iphHl m < ipHlen := by
    rw [ipHlen]
    omega
  have hmem : (answered env m totLen).mem = _ := answered_mem_ip hroute
  rw [ipHeaders, if_pos hip, List.nil_append] at hmem
  refine addr_of_front hmem ?_ (.inr h)
  rw [udpHdr_length, udpHlen]
  omega

/-- Without an Ethernet header, long options keep the address. -/
theorem addr_of_none (hroute : env.route = true) (h : 9 ≤ iphHl m)
    (hlink : linkDst env (totLen + 8 + 20) = none) :
    ipAddrAt (answered env m totLen).mem srcField = ipAddrAt m srcField := by
  refine addr_of_front (answered_mem hroute (by omega)) ?_ (.inl ?_)
  all_goals
    rw [List.length_append, answerHdr_length, answerLink_of_none hlink, List.length_nil]
    omega

theorem addr_of_long (hroute : env.route = true) (h : 13 ≤ iphHl m) :
    ipAddrAt (answered env m totLen).mem srcField = ipAddrAt m srcField := by
  have hlink : (answerLink env m totLen).length ≤ 14 := by
    cases hdst : linkDst env (totLen + 8 + 20) with
    | none =>
      rw [answerLink_of_none hdst]
      exact Nat.zero_le _
    | some dst => rw [answerLink_of_some hdst (by omega), ethHdr_length, sizeofEthHdr]
  refine addr_of_front (answered_mem hroute (by omega)) ?_ (.inl ?_)
  all_goals
    rw [List.length_append, answerHdr_length]
    omega

/-- The Ethernet header begins in the middle of the address. -/
theorem addr_of_split (hroute : env.route = true) (h : iphHl m = 12) {dst : EthAddr}
    (hlink : linkDst env (totLen + 8 + 20) = some dst) :
    ipAddrAt (answered env m totLen).mem srcField =
      ⟨(ipAddrAt m srcField).a, (ipAddrAt m srcField).b, dst.a, dst.b⟩ := by
  have hmem : (answered env m totLen).mem =
      m.put 28 (ethHdr env dst ++ answerHdr env m totLen) := by
    rw [answered_mem hroute (by omega), answerLink_of_some hlink (by omega), Packet.front,
      helloPacket_payload, h]
    rfl
  have hlen : (ethHdr env dst ++ answerHdr env m totLen).length = 42 := rfl
  rw [hmem, ipAddrAt, IpAddr.mk.injEq]
  refine ⟨put_outside _ (.inl (by decide)), put_outside _ (.inl (by decide)), ?_, ?_⟩
  · exact put_inside m 28 (hlen ▸ (by decide : 0 < 42))
  · exact put_inside m 28 (hlen ▸ (by decide : 1 < 42))

/-- What the callback binds to, for each length of the IP header. -/
theorem ipAddrAt_answered (env : SendEnv) (m : Memory) (totLen : UInt16) :
    ipAddrAt (answered env m totLen).mem srcField = addrAfterSend env m totLen := by
  cases hroute : env.route with
  | false => rw [addr_of_no_route hroute, addrAfterSend, if_pos hroute]
  | true =>
    have hlt := iphHl_lt m
    simp only [addrAfterSend, hroute, Bool.true_eq_false, if_false]
    by_cases hshort : iphHl m ≤ 1
    · rw [addr_of_short hroute hshort]
      interval_cases iphHl m <;> rfl
    by_cases hhdr : iphHl m ≤ 8
    · apply addr_of_answerHdr hroute (by omega) hhdr
      interval_cases iphHl m <;> rfl
    cases hlink : linkDst env (totLen + 8 + 20) with
    | none =>
      rw [addr_of_none hroute (by omega) hlink]
      interval_cases iphHl m <;> rfl
    | some dst =>
      by_cases heth : iphHl m ≤ 11
      · apply addr_of_ethHdr hroute (by omega) heth hlink
        interval_cases iphHl m <;> rfl
      by_cases hsplit : iphHl m = 12
      · rw [addr_of_split hroute hsplit hlink, hsplit]
        rfl
      · have hlong : 13 ≤ iphHl m := by omega
        rw [addr_of_long hroute hlong]
        interval_cases iphHl m <;> rfl

theorem tcpBind_eq_some {pcbs : TcpPcbs} {ip : IpAddr} {port : UInt16} {pcb : TcpPcb}
    (h : tcpBind pcbs ip port = some pcb) : pcb = ⟨ip, port⟩ := by
  rw [tcpBind] at h
  split_ifs at h
  exact (Option.some.inj h).symm

theorem udpServerCallback_hello (env : SendEnv) (tcp : TcpEnv) (m : Memory) (totLen : UInt16) :
    udpServerCallback env tcp (helloPacket m totLen) srcField =
      match tcp.new with
      | none => .noPcb
      | some pcbs =>
        match tcpBind pcbs (addrAfterSend env m totLen) tcpPort with
        | none => .inUse
        | some pcb => if tcp.listenFree then .listening pcb pcbs.listen else .noListenPcb := by
  rw [← ipAddrAt_answered]
  rfl

/-- The control block that enters LISTEN has the address that `addr` shows after
the answer. -/
theorem udpServerCallback_eq_listening {tcp : TcpEnv} {pcb : TcpPcb} {others : List TcpPcb} :
    udpServerCallback env tcp (helloPacket m totLen) srcField = .listening pcb others ↔
      EntersListen tcp (addrAfterSend env m totLen) ∧
        pcb = ⟨addrAfterSend env m totLen, tcpPort⟩ ∧
        ∃ pcbs, tcp.new = some pcbs ∧ pcbs.listen = others := by
  rw [udpServerCallback_hello, EntersListen]
  cases hnew : tcp.new with
  | none => simp
  | some pcbs =>
    cases hbind : tcpBind pcbs (addrAfterSend env m totLen) tcpPort with
    | none => simp [hbind]
    | some bound =>
      have hbound := tcpBind_eq_some hbind
      subst hbound
      cases tcp.listenFree with
      | false => simp [hbind]
      | true =>
        simp only [hbind, if_true, Hello.listening.injEq, true_and, Option.some.injEq]
        constructor
        · rintro ⟨rfl, rfl⟩
          exact ⟨⟨pcbs, rfl, by rw [hbind]; rfl⟩, rfl, pcbs, rfl, rfl⟩
        · rintro ⟨-, rfl, _, rfl, rfl⟩
          exact ⟨rfl, rfl⟩

theorem tcpInputListen_head (ip : IpAddr) (port : UInt16) (others : List TcpPcb) {own : IpAddr}
    (h : ip = own ∨ ip = ipAddrAny) :
    tcpInputListen (⟨ip, port⟩ :: others) own port = some ⟨ip, port⟩ := by
  rw [tcpInputListen, List.find?_cons_of_pos]
  simpa [or_comm] using h

theorem listensOnOwnAddress_of_addr {tcp : TcpEnv}
    (h : EntersListen tcp (addrAfterSend env m totLen) →
      addrAfterSend env m totLen = env.ipAddr ∨ addrAfterSend env m totLen = ipAddrAny) :
    ListensOnOwnAddress env.ipAddr
      (udpServerCallback env tcp (helloPacket m totLen) srcField) := by
  intro pcb others hlisten
  obtain ⟨henters, rfl, _⟩ := udpServerCallback_eq_listening.mp hlisten
  exact ⟨h henters, tcpInputListen_head _ _ _ (h henters)⟩

/-- Without options and with a route the server does listen on its own address. -/
theorem listensOnOwnAddress_of_plain (tcp : TcpEnv) (hroute : env.route = true)
    (h : iphHl m = 5) :
    ListensOnOwnAddress env.ipAddr
      (udpServerCallback env tcp (helloPacket m totLen) srcField) := by
  have haddr : addrAfterSend env m totLen = env.ipAddr := by
    simp only [addrAfterSend, hroute, h, Bool.true_eq_false, if_false]
  exact listensOnOwnAddress_of_addr fun _ => .inl haddr

/-- The server listens on its own address if and only if nothing comes to listen,
or the headers of the answer leave that address, or none, where `addr` points. -/
theorem hello_listens_iff (env : SendEnv) (tcp : TcpEnv) (m : Memory) (totLen : UInt16) :
    ListensOnOwnAddress env.ipAddr
        (udpServerCallback env tcp (helloPacket m totLen) srcField) ↔
      (EntersListen tcp (addrAfterSend env m totLen) →
        addrAfterSend env m totLen = env.ipAddr ∨ addrAfterSend env m totLen = ipAddrAny) := by
  constructor
  · intro hown henters
    obtain ⟨_, pcbs, hnew, _⟩ := id henters
    have hlisten := udpServerCallback_eq_listening.mpr ⟨henters, rfl, pcbs, hnew, rfl⟩
    exact (hown _ _ hlisten).1
  · exact listensOnOwnAddress_of_addr

/-- A hello with one word of options, answered well, makes the server listen on
an address made of the time to live and the protocol number of the answer. -/
theorem hello_with_options_listens :
    ¬ ∀ env tcp m totLen, ListensOnOwnAddress env.ipAddr
        (udpServerCallback env tcp (helloPacket m totLen) srcField) := by
  intro h
  have hown := h
    ⟨true, ⟨192, 168, 0, 8⟩, ⟨0, 0, 0, 0, 0, 1⟩, 1500, 0,
      .send ⟨0, 0, 0, 0, 0, 2⟩ .ok, .ok, .ok⟩
    ⟨some ⟨[], [], [], []⟩, true⟩
    (.ofBytes ([0, 0, 0, 0, 0, 1, 0, 0, 0, 0, 0, 2, 0x08, 0x00] ++
      [0x46, 0, 0, 36, 0, 0, 0, 0, 128, 17, 0, 0, 192, 168, 0, 2, 192, 168, 0, 8, 1, 1, 1, 0] ++
      [0, 4, 0, 8, 0, 12, 0, 0] ++ [104, 105, 33, 10]))
    4 ⟨⟨255, 17, 0, 0⟩, tcpPort⟩ [] (by decide)
  exact absurd hown.1 (by decide)

end EthMange.LedControl
