import EthMange.Eeprom.Device

/-!
# The EEPROM driver

`i2c_ee.c` writes a buffer in page writes with a poll for the standby state after
each of them, and reads one in a single transaction. `none` is a busy wait with no
end.
-/

namespace EthMange.Eeprom

open Paged I2c

/-! ### The functions -/

/-- The loop of `I2C_EE_PageWrite`. -/
def sendBytes : (n : ℕ) → (pBuffer : ℕ → UInt8) → I2c → I2c
  | 0, _, s => s
  | n + 1, pBuffer, s => sendBytes n (advance pBuffer 1) (s.sendData (pBuffer 0))

def pageWrite (pBuffer : ℕ → UInt8) (writeAddr numByteToWrite : UInt8) (s : I2c) : Option I2c :=
  if s.busy then none
  else
    (s.generateStart.select .transmitter).map fun s =>
      (sendBytes numByteToWrite.toNat pBuffer (s.sendData writeAddr)).generateStop

/-- The polls of `I2C_EE_WaitEepromStandbyState`. -/
def pollAddress : (fuel : ℕ) → I2c → Option I2c
  | 0, _ => none
  | fuel + 1, s =>
    match s.generateStart.send7bitAddress .transmitter with
    | (true, s) => some s
    | (false, s) => pollAddress fuel s

def waitEepromStandbyState (s : I2c) : Option I2c :=
  (pollAddress (s.eeprom.cycle + 1) s).map generateStop

/-- The loop over whole pages. -/
def writePages : (numOfPage : ℕ) → (pBuffer : ℕ → UInt8) → (writeAddr : UInt8) → I2c →
    Option ((ℕ → UInt8) × UInt8 × I2c)
  | 0, pBuffer, writeAddr, s => some (pBuffer, writeAddr, s)
  | numOfPage + 1, pBuffer, writeAddr, s => do
    let s ← pageWrite pBuffer writeAddr 8 s
    let s ← waitEepromStandbyState s
    writePages numOfPage (advance pBuffer 8) (writeAddr + 8) s

/-- The pages and the rest, the end of both branches of `I2C_EE_BufferWrite`. -/
def writeAligned (numOfPage numOfSingle : UInt8) (pBuffer : ℕ → UInt8) (writeAddr : UInt8)
    (s : I2c) : Option I2c := do
  let (pBuffer, writeAddr, s) ← writePages numOfPage.toNat pBuffer writeAddr s
  if numOfSingle ≠ 0 then
    let s ← pageWrite pBuffer writeAddr numOfSingle s
    waitEepromStandbyState s
  else some s

def bufferWrite (pBuffer : ℕ → UInt8) (writeAddr : UInt8) (numByteToWrite : UInt16) (s : I2c) :
    Option I2c :=
  let addr := writeAddr % 8
  let count := 8 - addr
  let numOfPage := (numByteToWrite / 8).toUInt8
  let numOfSingle := (numByteToWrite % 8).toUInt8
  if addr = 0 then
    if numOfPage = 0 then do
      let s ← pageWrite pBuffer writeAddr numOfSingle s
      waitEepromStandbyState s
    else writeAligned numOfPage numOfSingle pBuffer writeAddr s
  else
    if numOfPage = 0 then do
      let s ← pageWrite pBuffer writeAddr numOfSingle s
      waitEepromStandbyState s
    else
      let numByteToWrite := numByteToWrite - count.toUInt16
      let numOfPage := (numByteToWrite / 8).toUInt8
      let numOfSingle := (numByteToWrite % 8).toUInt8
      if count ≠ 0 then do
        let s ← pageWrite pBuffer writeAddr count s
        let s ← waitEepromStandbyState s
        writeAligned numOfPage numOfSingle (advance pBuffer count.toNat) (writeAddr + count) s
      else writeAligned numOfPage numOfSingle pBuffer writeAddr s

/-- The loop of `I2C_EE_BufferRead`. The last byte gets no acknowledge and is
followed by the STOP. -/
def receiveBytes : (n : ℕ) → I2c → List UInt8 × I2c
  | 0, s => ([], s)
  | n + 1, s =>
    let s := if n = 0 then { s with ack := false }.generateStop else s
    let (b, s) := s.receiveData
    let (bs, s) := receiveBytes n s
    (b :: bs, s)

/-- `I2C_EE_BufferRead`, with the bytes it puts into `pBuffer`. -/
def bufferRead (readAddr : UInt8) (numByteToRead : UInt16) (s : I2c) :
    Option (List UInt8 × I2c) :=
  if s.busy then none
  else do
    let s ← s.generateStart.select .transmitter
    let s ← (s.sendData readAddr).generateStart.select .receiver
    let (bs, s) := receiveBytes numByteToRead.toNat s
    some (bs, { s with ack := true })

/-! ### What they do -/

/-- The call comes back in standby, with the given memory. -/
def Yields (r : Option I2c) (M : ℕ → UInt8) : Prop :=
  ∃ s, r = some s ∧ Standby s ∧ s.eeprom.mem = M

theorem Yields.bind {r : Option I2c} {f : I2c → Option I2c} {M M' : ℕ → UInt8} (h : Yields r M)
    (hf : ∀ s, Standby s → s.eeprom.mem = M → Yields (f s) M') : Yields (r.bind f) M' := by
  obtain ⟨s, rfl, hs, hM⟩ := h
  exact hf s hs hM

theorem Yields.unique {r : Option I2c} {M : ℕ → UInt8} {s : I2c} (h : Yields r M)
    (hs : r = some s) : Standby s ∧ s.eeprom.mem = M := by
  obtain ⟨s', hs', hstandby, hM⟩ := h
  obtain rfl := Option.some.inj (hs'.symm.trans hs)
  exact ⟨hstandby, hM⟩

theorem sendBytes_spec {n : ℕ} {p : ℕ → UInt8} {s : I2c} {w : Bool}
    (hmode : s.eeprom.mode = .data w) :
    (sendBytes n p s).eeprom.mem = pageStore i2cPageSize n s.eeprom.pointer p s.eeprom.mem := by
  induction n generalizing p s w with
  | zero => rfl
  | succ n ih =>
    have hsend : s.sendData (p 0) = { s with
        eeprom := { s.eeprom with
          mem := Function.update s.eeprom.mem s.eeprom.pointer (p 0)
          pointer := next i2cPageSize s.eeprom.pointer
          mode := .data true } } := by
      simp [I2c.sendData, hmode]
    rw [sendBytes, hsend, ih rfl]
    rfl

/-- The device answers after at most `cycle` polls. -/
theorem pollAddress_spec (s : I2c) :
    ∃ t, pollAddress (s.eeprom.cycle + 1) s = some t ∧ t.eeprom.mode = .wordAddress ∧
      t.eeprom.cycle = 0 ∧ t.eeprom.mem = s.eeprom.mem := by
  generalize hn : s.eeprom.cycle = n
  induction n generalizing s with
  | zero =>
    have hanswer : pollAddress (0 + 1) s = some { s.generateStart with
        eeprom := { s.generateStart.eeprom with mode := .wordAddress } } := by
      simp [pollAddress, send7bitAddress, generateStart, hn, Direction.mode]
    exact ⟨_, hanswer, rfl, hn, rfl⟩
  | succ n ih =>
    obtain ⟨t, ht, hmode, hcycle, hmem⟩ := ih
      { s with busy := true, eeprom := { s.eeprom with mode := .idle, cycle := n } } rfl
    refine ⟨t, ?_, hmode, hcycle, hmem⟩
    rw [pollAddress]
    simpa [send7bitAddress, generateStart, hn] using ht

theorem waitEepromStandbyState_yields (s : I2c) :
    Yields (waitEepromStandbyState s) s.eeprom.mem := by
  obtain ⟨t, ht, hmode, hcycle, hmem⟩ := pollAddress_spec s
  refine ⟨t.generateStop, by rw [waitEepromStandbyState, ht, Option.map_some], ⟨rfl, ?_⟩, ?_⟩
  · rw [generateStop_cycle (by simp [hmode]), hcycle]
  · rw [generateStop_mem, hmem]

/-- A page write and the wait after it. -/
theorem pageWrite_yields {p : ℕ → UInt8} {a n : UInt8} {s : I2c} (hs : Standby s) :
    Yields ((pageWrite p a n s).bind waitEepromStandbyState)
      (pageStore i2cPageSize n.toNat a.toNat p s.eeprom.mem) := by
  have hselect := select_of_standby (s := s.generateStart) .transmitter hs.cycle
  rw [pageWrite, hs.busy, if_neg Bool.false_ne_true, hselect, Option.map_some, Option.bind_some]
  have hwait := waitEepromStandbyState_yields (generateStop (sendBytes n.toNat p
    (I2c.sendData a { s.generateStart with
      eeprom := { s.generateStart.eeprom with mode := Direction.transmitter.mode } })))
  rw [generateStop_mem, sendBytes_spec (w := false) rfl] at hwait
  exact hwait

/-- A page write that stays in its page. -/
theorem pageWrite_yields_store {p : ℕ → UInt8} {a n : UInt8} {s : I2c} (hs : Standby s)
    (h : a.toNat % 8 + n.toNat ≤ 8) :
    Yields ((pageWrite p a n s).bind waitEepromStandbyState)
      (store s.eeprom.mem a.toNat p n.toNat) := by
  have hyields := pageWrite_yields (p := p) (a := a) (n := n) hs
  rwa [pageStore_of_le (P := i2cPageSize) _ _ h] at hyields

/-! ### The split into pages -/

theorem pages_toNat {n : UInt16} (h : n.toNat ≤ 256) : (n / 8).toUInt8.toNat = n.toNat / 8 := by
  rw [UInt16.toNat_toUInt8, UInt16.toNat_div]
  exact Nat.mod_eq_of_lt (by simp; omega)

theorem single_toNat (n : UInt16) : (n % 8).toUInt8.toNat = n.toNat % 8 := by
  rw [UInt16.toNat_toUInt8, UInt16.toNat_mod]
  exact Nat.mod_eq_of_lt (by simp; omega)

/-- Whole pages from the start of a page on. -/
theorem writePages_spec {k : ℕ} {p : ℕ → UInt8} {a : UInt8} {s : I2c} (hs : Standby s)
    (ha : a.toNat % 8 = 0) (hend : a.toNat + 8 * k ≤ 256) :
    ∃ a' s', writePages k p a s = some (advance p (8 * k), a', s') ∧
      a'.toNat = (a.toNat + 8 * k) % 256 ∧ Standby s' ∧
      s'.eeprom.mem = store s.eeprom.mem a.toNat p (8 * k) := by
  induction k generalizing p a s with
  | zero =>
    refine ⟨a, s, rfl, ?_, hs, (store_zero _ _ _).symm⟩
    exact (Nat.mod_eq_of_lt a.toNat_lt).symm
  | succ k ih =>
    obtain ⟨t, ht, hstandby, hmem⟩ := pageWrite_yields_store (p := p) (a := a) (n := 8) hs
      (by rw [ha]; rfl)
    have hnext : (a + 8).toNat = (a.toNat + 8) % 256 := UInt8.toNat_add a 8
    -- the counter wraps only behind the last page
    obtain ⟨a', s', hs', ha', hstandby', hmem'⟩ := ih (p := advance p 8) (a := a + 8) hstandby
      (by omega) (by omega)
    refine ⟨a', s', ?_, by omega, hstandby', ?_⟩
    · have hbind : writePages (k + 1) p a s =
          ((pageWrite p a 8 s).bind waitEepromStandbyState).bind
            (writePages k (advance p 8) (a + 8)) := by
        rw [Option.bind_assoc]
        rfl
      rw [hbind, ht, Option.bind_some, hs', advance_advance, Nat.mul_succ, Nat.add_comm 8]
    · rw [hmem', hmem, Nat.mul_succ, Nat.add_comm _ 8, ← store_store]
      obtain rfl | hk := Nat.eq_zero_or_pos k
      · simp
      · rw [hnext, Nat.mod_eq_of_lt (by omega)]
        rfl

/-- Whole pages and a rest, from the start of a page on. -/
theorem writeAligned_yields (pages single : UInt8) {p : ℕ → UInt8} {a : UInt8} {s : I2c}
    (hs : Standby s) (ha : a.toNat % 8 = 0) (hsingle : single.toNat < 8)
    (hend : a.toNat + 8 * pages.toNat + single.toNat ≤ 256) :
    Yields (writeAligned pages single p a s)
      (store s.eeprom.mem a.toNat p (8 * pages.toNat + single.toNat)) := by
  obtain ⟨a', s', hs', ha', hstandby, hmem⟩ :=
    writePages_spec (k := pages.toNat) (p := p) hs ha (by omega)
  have hrest : writeAligned pages single p a s =
      if single ≠ 0 then
        (pageWrite (advance p (8 * pages.toNat)) a' single s').bind waitEepromStandbyState
      else some s' := by
    rw [writeAligned, hs']
    rfl
  rw [hrest]
  by_cases hzero : single = 0
  · subst hzero
    rw [if_neg (by simp)]
    exact ⟨s', rfl, hstandby, hmem⟩
  · rw [if_pos hzero]
    have hpos : 0 < single.toNat := by
      rw [Nat.pos_iff_ne_zero]
      exact fun h => hzero (UInt8.toNat_inj.mp h)
    have hyields := pageWrite_yields_store (p := advance p (8 * pages.toNat)) (a := a')
      (n := single) hstandby (by omega)
    rw [hmem, ha', Nat.mod_eq_of_lt (by omega), store_store] at hyields
    exact hyields

/-- A short write to the end of a page and over it. -/
def Crosses (a : UInt8) (n : UInt16) : Prop := n.toNat < 8 ∧ 8 < a.toNat % 8 + n.toNat

instance (a : UInt8) (n : UInt16) : Decidable (Crosses a n) :=
  inferInstanceAs (Decidable (_ ∧ _))

section BufferWrite

variable {p : ℕ → UInt8} {a : UInt8} {n : UInt16} {s : I2c}

/-- Less than a page is written at once, wherever it begins. -/
theorem bufferWrite_of_short (hs : Standby s) (hn : n.toNat < 8) :
    Yields (bufferWrite p a n s) (pageStore i2cPageSize n.toNat a.toNat p s.eeprom.mem) := by
  have hpages : (n / 8).toUInt8 = 0 := by
    rw [← UInt8.toNat_inj, pages_toNat (by omega), Nat.div_eq_of_lt hn]
    rfl
  have hsingle : (n % 8).toUInt8.toNat = n.toNat := by
    rw [single_toNat, Nat.mod_eq_of_lt hn]
  have hshort : bufferWrite p a n s =
      (pageWrite p a (n % 8).toUInt8 s).bind waitEepromStandbyState := by
    simp only [bufferWrite, hpages, if_true, ite_self]
    rfl
  rw [hshort, ← hsingle]
  exact pageWrite_yields hs

theorem pages_ne_zero (hn : 8 ≤ n.toNat) (hle : n.toNat ≤ 256) : (n / 8).toUInt8 ≠ 0 := by
  intro h
  have hzero := pages_toNat hle
  rw [h] at hzero
  have hone : 0 = n.toNat / 8 := hzero
  omega

theorem bufferWrite_of_aligned (hs : Standby s) (ha : a.toNat % 8 = 0) (hn : 8 ≤ n.toNat)
    (hend : a.toNat + n.toNat ≤ 256) :
    Yields (bufferWrite p a n s) (store s.eeprom.mem a.toNat p n.toNat) := by
  have haddr : a % 8 = 0 := UInt8.toNat_inj.mp ((UInt8.toNat_mod a 8).trans ha)
  have haligned : bufferWrite p a n s =
      writeAligned (n / 8).toUInt8 (n % 8).toUInt8 p a s := by
    simp only [bufferWrite, haddr, if_true, if_neg (pages_ne_zero hn (by omega))]
  have hpages := pages_toNat (n := n) (by omega)
  have hsingle := single_toNat n
  have hyields := writeAligned_yields (n / 8).toUInt8 (n % 8).toUInt8 (p := p) (a := a) hs ha
    (by omega) (by omega)
  rw [hpages, hsingle, Nat.div_add_mod] at hyields
  rw [haligned]
  exact hyields

/-- From within a page there is a byte to write up to its end. -/
theorem count_toNat (a : UInt8) : (8 - a % 8).toNat = 8 - a.toNat % 8 := by
  have hmod : (a % 8).toNat = a.toNat % 8 := UInt8.toNat_mod a 8
  have hle : a % 8 ≤ 8 := by
    rw [UInt8.le_iff_toNat_le, hmod]
    exact (Nat.mod_lt _ (by decide)).le
  rw [UInt8.toNat_sub_of_le _ _ hle, hmod]
  rfl

theorem count_ne_zero (a : UInt8) : 8 - a % 8 ≠ 0 := by
  intro h
  have hzero : 8 - a.toNat % 8 = 0 := (count_toNat a).symm.trans (congrArg UInt8.toNat h)
  omega

theorem bufferWrite_of_unaligned (hs : Standby s) (ha : a.toNat % 8 ≠ 0) (hn : 8 ≤ n.toNat)
    (hend : a.toNat + n.toNat ≤ 256) :
    Yields (bufferWrite p a n s) (store s.eeprom.mem a.toNat p n.toNat) := by
  have hmod : (a % 8).toNat = a.toNat % 8 := UInt8.toNat_mod a 8
  have haddr : a % 8 ≠ 0 := fun h => ha (hmod.symm.trans (congrArg UInt8.toNat h))
  have hcount := count_toNat a
  have hcount_ne : 8 - a % 8 ≠ 0 := count_ne_zero a
  set count := 8 - a % 8 with hcount_def
  have hrest : (n - count.toUInt16).toNat = n.toNat - count.toNat := by
    rw [UInt16.toNat_sub_of_le _ _ (by rw [UInt16.le_iff_toNat_le, UInt8.toNat_toUInt16]; omega),
      UInt8.toNat_toUInt16]
  set rest := n - count.toUInt16 with hrest_def
  have hsplit : bufferWrite p a n s = ((pageWrite p a count s).bind waitEepromStandbyState).bind
      (writeAligned (rest / 8).toUInt8 (rest % 8).toUInt8 (advance p count.toNat) (a + count)) := by
    simp only [bufferWrite, if_neg haddr, if_neg (pages_ne_zero hn (by omega)),
      ← hcount_def, ← hrest_def, if_pos hcount_ne, Option.bind_assoc]
    rfl
  rw [hsplit]
  refine (pageWrite_yields_store hs (by omega)).bind fun t ht hmem => ?_
  have hnext : (a + count).toNat = a.toNat + count.toNat := by
    rw [UInt8.toNat_add]
    exact Nat.mod_eq_of_lt (by omega)
  have hpages := pages_toNat (n := rest) (by omega)
  have hsingle := single_toNat rest
  have hyields := writeAligned_yields (rest / 8).toUInt8 (rest % 8).toUInt8
    (p := advance p count.toNat) (a := a + count) ht (by omega) (by omega) (by omega)
  rw [hpages, hsingle, Nat.div_add_mod, hmem, hnext, store_store, hrest,
    Nat.add_sub_cancel' (by omega)] at hyields
  exact hyields

end BufferWrite

/-! ### Reading -/

theorem receiveBytes_fst (n : ℕ) {s : I2c} (h : s.eeprom.pointer < 256) :
    (receiveBytes n s).1 =
      (List.range n).map fun i => s.eeprom.mem ((s.eeprom.pointer + i) % 256) := by
  induction n generalizing s with
  | zero => rfl
  | succ n ih =>
    have hstep (t : I2c) (hmem : t.eeprom.mem = s.eeprom.mem)
        (hpointer : t.eeprom.pointer = s.eeprom.pointer) :
        t.receiveData.1 :: (receiveBytes n t.receiveData.2).1 =
          (List.range (n + 1)).map fun i => s.eeprom.mem ((s.eeprom.pointer + i) % 256) := by
      rw [ih (Nat.mod_lt _ (by decide)), List.range_succ_eq_map, List.map_cons, List.map_map]
      simp only [receiveData, hmem, hpointer, Nat.add_zero, Nat.mod_eq_of_lt h]
      refine congrArg _ (List.map_congr_left fun i _ => ?_)
      simp only [Function.comp_apply, Nat.mod_add_mod, Nat.succ_eq_add_one]
      rw [Nat.add_assoc, Nat.add_comm 1 i]
    simp only [receiveBytes]
    split_ifs with hlast
    · exact hstep _ generateStop_mem generateStop_pointer
    · exact hstep s rfl rfl

/-- The bus when a read has sent both its addresses. -/
def I2c.addressed (s : I2c) (readAddr : UInt8) : I2c :=
  { s with
    busy := true
    eeprom := { s.eeprom with
      pointer := readAddr.toNat
      mode := .read } }

/-- A read in standby finds its address and receives. -/
theorem bufferRead_of_standby (a : UInt8) (n : UInt16) {s : I2c} (hs : Standby s) :
    bufferRead a n s = some ((receiveBytes n.toNat (s.addressed a)).1,
      { (receiveBytes n.toNat (s.addressed a)).2 with ack := true }) := by
  let u : I2c := { s with
    busy := true
    eeprom := { s.eeprom with mode := .wordAddress } }
  have hwrite : s.generateStart.select .transmitter = some u :=
    select_of_standby .transmitter hs.cycle
  have hread : (u.sendData a).generateStart.select .receiver = some (s.addressed a) :=
    select_of_standby .receiver hs.cycle
  rw [bufferRead, hs.busy, if_neg Bool.false_ne_true]
  exact Option.bind_eq_some_iff.mpr ⟨u, hwrite, Option.bind_eq_some_iff.mpr ⟨_, hread, rfl⟩⟩

/-- A read in standby returns the cells from its address on. -/
theorem bufferRead_eq {a : UInt8} {n : UInt16} {s : I2c} (hs : Standby s) :
    ∃ t, bufferRead a n s =
      some ((List.range n.toNat).map fun i => s.eeprom.mem ((a.toNat + i) % 256), t) := by
  have hbytes : (receiveBytes n.toNat (s.addressed a)).1 =
      (List.range n.toNat).map fun i => s.eeprom.mem ((a.toNat + i) % 256) :=
    receiveBytes_fst _ a.toNat_lt
  rw [bufferRead_of_standby a n hs, hbytes]
  exact ⟨_, rfl⟩

end EthMange.Eeprom
