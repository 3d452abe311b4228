import EthMange.LedControl.Apps
import EthMange.Lwip.Heap

/-!
# The first datagram of the client

`client_init` allocates a pbuf with room for the headers and then points it to the static
array `Sent`, which has none. `pbuf_header` only compares the pointer with the address of
the pbuf, so for an array above the pbuf it finds the room.
-/

namespace EthMange.LedControl

open Lwip

/-- `sizeof(Sent)`, with the terminating zero. -/
def sizeofSent : ℕ := sent.length

/-- `PBUF_TRANSPORT_HLEN` -/
def pbufTransportHlen : ℕ := 20

/-- The room that `PBUF_TRANSPORT` leaves in front of the payload. -/
def transportOffset : ℕ := pbufTransportHlen + ipHlen + sizeofEthHdr

/-- The size of the block that `client_init` allocates. -/
def clientBlockSize : ℕ := pbufSize transportOffset sizeofSent

theorem sizeofSent_eq : sizeofSent = 24 := by decide

theorem clientBlockSize_eq : clientBlockSize = 96 := by decide

/-- The heap block of the pbuf and the array, somewhere in memory. -/
structure Placement where
  block : HeapBlock clientBlockSize
  sent : UInt32
  sent_fits : sent.toNat + sizeofSent ≤ 2 ^ 32
  disjoint : sent.toNat + sizeofSent ≤ block.addr.toNat ∨
    block.addr.toNat + clientBlockSize ≤ sent.toNat

namespace Placement

variable (m : Placement)

/-- The pbuf that `client_init` passes to `udp_send`. -/
def clientPbuf : HeapPbuf :=
  { pbufAlloc m.block transportOffset sizeofSent with payload := m.sent }

/-- `client_init`, from its allocation to the end of `udp_send`. -/
def clientInit (env : HeapEnv) : Err × List MemEvent := env.udpSend m.clientPbuf

/-- The headers are written to the block of the pbuf, or to blocks allocated for them. -/
def StorageKept (env : HeapEnv) : Prop :=
  Contained [(m.block.addr, clientBlockSize)] (m.clientInit env).2

instance (env : HeapEnv) : Decidable (m.StorageKept env) :=
  inferInstanceAs (Decidable (Contained _ _))

/-- The array lies before the block, with the length of a UDP header before it. -/
def Before : Prop := udpHlen ≤ m.sent.toNat ∧ m.sent < m.block.addr

/-- The array starts with the byte behind the block. -/
def Adjoins : Prop := m.sent = m.block.addr + UInt32.ofNat clientBlockSize

/-- Where the block and the array may lie. -/
theorem bounds : m.block.addr.toNat + 96 ≤ 2 ^ 32 ∧ m.sent.toNat + 24 ≤ 2 ^ 32 ∧
    (m.sent.toNat + 24 ≤ m.block.addr.toNat ∨ m.block.addr.toNat + 96 ≤ m.sent.toNat) := by
  have hfits := m.block.fits
  have hsent := m.sent_fits
  have hdisjoint := m.disjoint
  have hsize := clientBlockSize_eq
  have hlen := sizeofSent_eq
  omega

/-- For an array before the block there is no room. -/
theorem pbufHeader_of_before (h : m.Before) : m.clientPbuf.pbufHeader udpHlen = none := by
  obtain ⟨hlow, hlt⟩ := h
  obtain ⟨hfits, -, -⟩ := m.bounds
  apply if_pos
  show m.sent - UInt32.ofNat udpHlen < m.block.addr + UInt32.ofNat sizeofStructPbuf
  rw [UInt32.lt_iff_toNat_lt] at hlt ⊢
  rw [UInt32.toNat_sub, UInt32.toNat_add, UInt32.toNat_ofNat', UInt32.toNat_ofNat']
  simp only [udpHlen, sizeofStructPbuf] at hlow ⊢
  omega

/-- For any other array `pbuf_header` moves the pointer in front of it. -/
theorem pbufHeader_of_not_before (h : ¬ m.Before) :
    ∃ q : HeapPbuf, m.clientPbuf.pbufHeader udpHlen = some q ∧
      q.payload = m.sent - UInt32.ofNat udpHlen := by
  obtain ⟨hfits, hsent, hdisjoint⟩ := m.bounds
  rw [Before, UInt32.lt_iff_toNat_lt] at h
  have habove : ¬ m.sent - UInt32.ofNat udpHlen <
      m.block.addr + UInt32.ofNat sizeofStructPbuf := by
    rw [UInt32.lt_iff_toNat_lt, UInt32.toNat_sub, UInt32.toNat_add, UInt32.toNat_ofNat',
      UInt32.toNat_ofNat']
    simp only [udpHlen, sizeofStructPbuf] at h ⊢
    omega
  exact ⟨_, if_neg habove, rfl⟩

/-- The byte in front of the array is one of the block only where the block ends there. -/
theorem adjoins_of_within
    (hin : Within (m.block.addr, clientBlockSize)
      (m.sent - UInt32.ofNat udpHlen + UInt32.ofNat 7)) : m.Adjoins := by
  obtain ⟨hfits, hsent, hdisjoint⟩ := m.bounds
  rw [Within, UInt32.toNat_sub, UInt32.toNat_add, UInt32.toNat_sub, UInt32.toNat_ofNat',
    UInt32.toNat_ofNat'] at hin
  apply UInt32.toNat_inj.mp
  rw [UInt32.toNat_add, UInt32.toNat_ofNat']
  simp only [udpHlen, clientBlockSize_eq] at hin ⊢
  omega

end Placement

/-- The headers of the client's first datagram stay in the block of its pbuf and in new
ones exactly where they are not written: there is no route, or the array lies before the
block and they go to a new pbuf; and where the array is what follows the block. -/
theorem storage_kept_iff (m : Placement) (env : HeapEnv) :
    m.StorageKept env ↔ env.route = false ∨ m.Before ∨ m.Adjoins := by
  unfold Placement.StorageKept Placement.clientInit HeapEnv.udpSend
  have htot : m.clientPbuf.totLen ≤ 24 := sizeofSent_eq.le
  constructor
  · intro hkept
    by_cases hroute : env.route = true
    · right
      rw [if_pos hroute] at hkept
      by_cases hbefore : m.Before
      · exact Or.inl hbefore
      · right
        obtain ⟨q, hq, hpayload⟩ := m.pbufHeader_of_not_before hbefore
        unfold HeapEnv.udpSendtoIf at hkept
        rw [hq] at hkept
        -- the last byte of the UDP header
        obtain ⟨block, hblock, hin⟩ := hkept.1 7 (by decide)
        rw [List.mem_singleton.mp hblock, hpayload] at hin
        exact m.adjoins_of_within hin
    · left
      exact Bool.eq_false_iff.mpr hroute
  · rintro (hroute | hbefore | hadjoins)
    · rw [hroute]
      trivial
    · split
      · exact env.udpSendtoIf_contained_of_none (m.pbufHeader_of_before hbefore) htot _
      · trivial
    · split
      · exact env.udpSendtoIf_contained ⟨rfl, hadjoins⟩ List.mem_cons_self m.block.fits
          le_rfl (by decide) htot
      · trivial

/-- The array lies above the heap, and the header goes over the variables before it. -/
theorem storage_not_kept : ¬ ∀ (m : Placement) (env : HeapEnv), m.StorageKept env := by
  intro h
  exact absurd
    (h ⟨⟨0x20001000, by decide, by decide⟩, 0x20008000, by decide, by decide⟩
      ⟨true, none, .send .ok⟩)
    (by decide)

end EthMange.LedControl
