import EthMange.Eeprom.Driver

/-!
# Writing and reading back

A buffer is stored where it belongs if it is at least a page long or ends in the
page it begins in. A shorter one that begins near the end of a page is written at
once and wraps in the page.
-/

namespace EthMange.Eeprom

open Paged I2c

/-- After the write the cells hold the buffer, every other cell holds what it did,
and a read returns the buffer. -/
def RoundTrip (pBuffer : ℕ → UInt8) (addr : UInt8) (n : UInt16) (s : I2c) : Prop :=
  ∃ s', bufferWrite pBuffer addr n s = some s' ∧
    (∀ i < n.toNat, s'.eeprom.mem (addr.toNat + i) = pBuffer i) ∧
    (∀ x, x < addr.toNat ∨ addr.toNat + n.toNat ≤ x → s'.eeprom.mem x = s.eeprom.mem x) ∧
    ∃ s'', bufferRead addr n s' = some ((List.range n.toNat).map pBuffer, s'')

/-- The bytes that a write at `addr` has room for in its page. -/
def pageRoom (addr : UInt8) : ℕ := i2cPageSize - addr.toNat % i2cPageSize

/-- The bytes from the page end on are in the memory already, both behind the
page, where they belong, and at its start, where they are written to. -/
def AlreadyThere (pBuffer : ℕ → UInt8) (addr : UInt8) (n : UInt16) (M : ℕ → UInt8) : Prop :=
  ∀ j < n.toNat - pageRoom addr,
    M (addr.toNat + (pageRoom addr + j)) = pBuffer (pageRoom addr + j) ∧
    M (addr.toNat / i2cPageSize * i2cPageSize + j) = pBuffer (pageRoom addr + j)

section RoundTrip

variable {p : ℕ → UInt8} {a : UInt8} {n : UInt16} {s : I2c}

theorem eq_store_iff {M M' : ℕ → UInt8} : M' = store M a.toNat p n.toNat ↔
    (∀ i < n.toNat, M' (a.toNat + i) = p i) ∧
      ∀ x, x < a.toNat ∨ a.toNat + n.toNat ≤ x → M' x = M x := by
  constructor
  · rintro rfl
    exact ⟨fun i hi => store_at _ _ _ hi, fun x hx => store_outside _ _ hx⟩
  · rintro ⟨hin, hout⟩
    funext x
    by_cases hx : a.toNat ≤ x ∧ x < a.toNat + n.toNat
    · obtain ⟨i, rfl⟩ := Nat.exists_eq_add_of_le hx.1
      rw [hin i (by omega), store_at _ _ _ (by omega)]
    · rw [hout x (by omega), store_outside _ _ (by omega)]

/-- The round trip is that the write is a plain store. -/
theorem roundTrip_iff_store {M : ℕ → UInt8} (hend : a.toNat + n.toNat ≤ 256)
    (h : Yields (bufferWrite p a n s) M) :
    RoundTrip p a n s ↔ M = store s.eeprom.mem a.toNat p n.toNat := by
  rw [eq_store_iff]
  constructor
  · rintro ⟨s', hs', hin, hout, -⟩
    obtain ⟨-, rfl⟩ := h.unique hs'
    exact ⟨hin, hout⟩
  · rintro ⟨hin, hout⟩
    obtain ⟨s', hs', hstandby, rfl⟩ := h
    obtain ⟨s'', hs''⟩ := bufferRead_eq (a := a) (n := n) hstandby
    have hbytes : (List.range n.toNat).map (fun i => s'.eeprom.mem ((a.toNat + i) % 256)) =
        (List.range n.toNat).map p := by
      refine List.map_congr_left fun i hi => ?_
      have hi := List.mem_range.mp hi
      rw [Nat.mod_eq_of_lt (by omega), hin i hi]
    exact ⟨s', hs', hin, hout, s'', hs''.trans (by rw [hbytes])⟩

theorem roundTrip_of_fits (hs : Standby s) (hend : a.toNat + n.toNat ≤ 256)
    (hfits : ¬ Crosses a n) : RoundTrip p a n s := by
  by_cases hshort : n.toNat < 8
  · have hyields := bufferWrite_of_short (p := p) (a := a) hs hshort
    rw [roundTrip_iff_store hend hyields]
    apply pageStore_of_le _ _
    have hpage : ¬ 8 < a.toNat % 8 + n.toNat := fun h => hfits ⟨hshort, h⟩
    exact not_lt.mp hpage
  · by_cases ha : a.toNat % 8 = 0
    · exact (roundTrip_iff_store hend (bufferWrite_of_aligned hs ha (by omega) hend)).mpr rfl
    · exact (roundTrip_iff_store hend (bufferWrite_of_unaligned hs ha (by omega) hend)).mpr rfl

theorem roundTrip_of_crosses (hs : Standby s) (hend : a.toNat + n.toNat ≤ 256)
    (hcross : Crosses a n) : RoundTrip p a n s ↔ AlreadyThere p a n s.eeprom.mem := by
  obtain ⟨hshort, hpage⟩ := hcross
  have hroom : a.toNat % i2cPageSize + pageRoom a = i2cPageSize := by
    have hlt : a.toNat % i2cPageSize < i2cPageSize := Nat.mod_lt _ (by decide)
    rw [pageRoom]
    omega
  have hroom' : a.toNat % 8 + pageRoom a = 8 := hroom
  have hsplit : pageRoom a + (n.toNat - pageRoom a) = n.toNat := by omega
  have hle : n.toNat - pageRoom a ≤ a.toNat % i2cPageSize := by
    rw [show i2cPageSize = 8 from rfl]
    omega
  have hiff := pageStore_eq_store_iff s.eeprom.mem p hroom (by omega) hle
  rw [hsplit] at hiff
  rw [roundTrip_iff_store hend (bufferWrite_of_short hs hshort)]
  exact hiff

end RoundTrip

/-- A buffer that ends in the memory makes the round trip exactly if it is not a
short one that crosses a page end, or the bytes behind the page end were in the
memory already. -/
theorem buffer_round_trip (pBuffer : ℕ → UInt8) (addr : UInt8) (n : UInt16) (s : I2c)
    (hs : Standby s) (hend : addr.toNat + n.toNat ≤ 256) :
    RoundTrip pBuffer addr n s ↔
      ¬ Crosses addr n ∨ AlreadyThere pBuffer addr n s.eeprom.mem := by
  by_cases hcross : Crosses addr n
  · rw [roundTrip_of_crosses hs hend hcross]
    exact ⟨.inr, fun h => h.resolve_left (not_not_intro hcross)⟩
  · exact ⟨fun _ => .inl hcross, fun _ => roundTrip_of_fits hs hend hcross⟩

/-- An empty memory whose write cycles last for three polls. -/
def blankEeprom : I2c := ⟨⟨fun _ => 0, 0, .idle, 0, fun _ => 3⟩, false, true⟩

/-- A buffer over two pages. -/
theorem buffer_round_trip_ten_bytes : RoundTrip (fun i => UInt8.ofNat (i + 1)) 6 10 blankEeprom :=
  (buffer_round_trip (fun i => UInt8.ofNat (i + 1)) 6 10 blankEeprom ⟨rfl, rfl⟩
    (by decide)).mpr (.inl (by decide))

/-- Five bytes from address 6 on: the third one is not in cell 8. -/
theorem short_write_wraps :
    ¬ ∀ (pBuffer : ℕ → UInt8) (addr : UInt8) (n : UInt16) (s : I2c), Standby s →
      1 ≤ n.toNat → addr.toNat + n.toNat ≤ 256 → RoundTrip pBuffer addr n s := by
  intro hall
  obtain ⟨s', hs', hin, -, -⟩ := hall (fun i => UInt8.ofNat (i + 1)) 6 5 blankEeprom ⟨rfl, rfl⟩
    (by decide) (by decide)
  have hcell : (bufferWrite (fun i => UInt8.ofNat (i + 1)) 6 5 blankEeprom).map
      (fun t => t.eeprom.mem 8) = some 0 := by
    decide
  rw [hs', Option.map_some, Option.some.injEq] at hcell
  have hthree : s'.eeprom.mem 8 = 3 := hin 2 (by decide)
  rw [hcell] at hthree
  exact absurd hthree (by decide)

end EthMange.Eeprom
