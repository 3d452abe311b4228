import EthMange.Eeprom.Driver

/-!
# The transactions on the bus

Every call begins with a START and has to end with a STOP. The writes do, for all
lengths; a read issues its STOP with the last byte, and a read of no bytes has
none.
-/

namespace EthMange.Eeprom

open Paged I2c

/-- `I2C_EE_ByteWrite`. It waits neither for the bus nor for the end of the write
cycle. -/
def byteWrite (pBuffer writeAddr : UInt8) (s : I2c) : Option I2c :=
  (s.generateStart.select .transmitter).map fun s =>
    ((s.sendData writeAddr).sendData pBuffer).generateStop

/-- The calls of the driver. -/
inductive EepromCall
  | bufferWrite (pBuffer : ℕ → UInt8) (writeAddr : UInt8) (numByteToWrite : UInt16)
  | byteWrite (pBuffer writeAddr : UInt8)
  | bufferRead (readAddr : UInt8) (numByteToRead : UInt16)

namespace EepromCall

def Reads : EepromCall → Prop
  | bufferRead .. => True
  | _ => False

/-- A read of no bytes. -/
def IsEmptyRead : EepromCall → Prop
  | bufferRead _ n => n = 0
  | _ => False

instance : (call : EepromCall) → Decidable call.IsEmptyRead
  | bufferRead _ n => inferInstanceAs (Decidable (n = 0))
  | bufferWrite .. | byteWrite .. => .isFalse id

/-- The bus after a call. -/
def step (s : I2c) : EepromCall → Option I2c
  | bufferWrite p a n => Eeprom.bufferWrite p a n s
  | byteWrite b a => Eeprom.byteWrite b a s
  | bufferRead a n => (Eeprom.bufferRead a n s).map Prod.snd

end EepromCall

/-- Every call of the sequence returns with the bus idle, and a read with the
acknowledge on. -/
def Balanced : I2c → List EepromCall → Prop
  | _, [] => True
  | s, call :: calls =>
    ∃ t, call.step s = some t ∧ t.busy = false ∧ (call.Reads → t.ack = true) ∧ Balanced t calls

/-- The EEPROM answers to its address at the start of every call, and no call is a
read of no bytes. -/
def Answered : I2c → List EepromCall → Prop
  | _, [] => True
  | s, call :: calls =>
    s.eeprom.cycle = 0 ∧ ¬ call.IsEmptyRead ∧ ∀ t, call.step s = some t → Answered t calls

/-- Write cycles take no time: the EEPROM always answers. -/
structure Responsive (s : I2c) : Prop where
  cycle : s.eeprom.cycle = 0
  cycles : ∀ k, s.eeprom.cycles k = 0

/-! ### Calls in standby -/

/-- The call comes back in standby. -/
def Returns (r : Option I2c) : Prop := ∃ t, r = some t ∧ Standby t

theorem Yields.returns {r : Option I2c} {M : ℕ → UInt8} (h : Yields r M) : Returns r := by
  obtain ⟨t, ht, hstandby, -⟩ := h
  exact ⟨t, ht, hstandby⟩

theorem Returns.bind {α : Type*} {r : Option α} {f : α → Option I2c} {P : α → Prop}
    (h : ∃ a, r = some a ∧ P a) (hf : ∀ a, P a → Returns (f a)) : Returns (r.bind f) := by
  obtain ⟨a, rfl, ha⟩ := h
  exact hf a ha

section Standby

variable {p : ℕ → UInt8} {a : UInt8} {n : UInt16} {s : I2c}

theorem pageWrite_returns {m : UInt8} (hs : Standby s) :
    Returns ((pageWrite p a m s).bind waitEepromStandbyState) :=
  (pageWrite_yields hs).returns

theorem writePages_returns {k : ℕ} (hs : Standby s) :
    ∃ r, writePages k p a s = some r ∧ Standby r.2.2 := by
  induction k generalizing p a s with
  | zero => exact ⟨_, rfl, hs⟩
  | succ k ih =>
    obtain ⟨t, ht, hstandby⟩ := pageWrite_returns (p := p) (a := a) (m := 8) hs
    obtain ⟨r, hr, hrest⟩ := ih (p := advance p 8) (a := a + 8) hstandby
    refine ⟨r, ?_, hrest⟩
    have hbind : writePages (k + 1) p a s =
        ((pageWrite p a 8 s).bind waitEepromStandbyState).bind
          (writePages k (advance p 8) (a + 8)) := by
      rw [Option.bind_assoc]
      rfl
    rw [hbind, ht, Option.bind_some, hr]

theorem writeAligned_returns (pages single : UInt8) (hs : Standby s) :
    Returns (writeAligned pages single p a s) := by
  apply Returns.bind (writePages_returns hs)
  rintro ⟨q, b, t⟩ ht
  dsimp only
  split_ifs
  · exact pageWrite_returns ht
  · exact ⟨t, rfl, ht⟩

/-- A write comes back in standby whatever its length. -/
theorem bufferWrite_returns (hs : Standby s) : Returns (bufferWrite p a n s) := by
  rw [bufferWrite]
  dsimp only
  split_ifs
  · exact pageWrite_returns hs
  · exact writeAligned_returns _ _ hs
  · exact pageWrite_returns hs
  · have hfirst := pageWrite_returns (p := p) (a := a) (m := 8 - a % 8) hs
    simp only [Option.bind_eq_bind, ← Option.bind_assoc]
    exact Returns.bind hfirst fun t ht => writeAligned_returns _ _ ht
  · exact writeAligned_returns _ _ hs

theorem receiveBytes_busy (n : ℕ) (s : I2c) :
    (receiveBytes n s).2.busy = if n = 0 then s.busy else false := by
  induction n generalizing s with
  | zero => rfl
  | succ n ih =>
    simp only [receiveBytes, ih, Nat.add_one_ne_zero, if_false, receiveData]
    split_ifs <;> rfl

/-- A read comes back with the acknowledge on, and the bus is idle if there was a
byte to read. -/
theorem bufferRead_returns (a : UInt8) (n : UInt16) (hs : Standby s) :
    ∃ r, bufferRead a n s = some r ∧ r.2.ack = true ∧ r.2.busy = decide (n = 0) := by
  refine ⟨_, bufferRead_of_standby a n hs, rfl, ?_⟩
  have hbusy := receiveBytes_busy n.toNat (s.addressed a)
  have hzero : n.toNat = 0 ↔ n = 0 := by rw [← UInt16.toNat_inj, UInt16.toNat_zero]
  simp only [hzero] at hbusy
  rw [hbusy]
  split_ifs with hn <;> simp [hn, I2c.addressed]

theorem byteWrite_returns (b a : UInt8) (hs : s.eeprom.cycle = 0) :
    ∃ t, byteWrite b a s = some t ∧ t.busy = false := by
  have hselect := select_of_standby (s := s.generateStart) .transmitter hs
  rw [byteWrite, hselect]
  exact ⟨_, rfl, rfl⟩

end Standby

/-! ### Calls in a write cycle -/

section Cycle

variable {p : ℕ → UInt8} {a : UInt8} {n : UInt16} {s : I2c}

/-- The driver asks once for the address and waits for the answer for ever. -/
theorem select_of_cycle (dir : Direction) (hcycle : 0 < s.eeprom.cycle) :
    s.generateStart.select dir = none := by
  have hcycle' : 0 < s.generateStart.eeprom.cycle := hcycle
  simp [select, send7bitAddress, hcycle']

theorem pageWrite_of_cycle {m : UInt8} (hcycle : 0 < s.eeprom.cycle) :
    pageWrite p a m s = none := by
  rw [pageWrite, select_of_cycle _ hcycle]
  split_ifs <;> rfl

theorem writeAligned_of_cycle {pages single : UInt8} (hcycle : 0 < s.eeprom.cycle)
    (hpages : pages ≠ 0) : writeAligned pages single p a s = none := by
  have hne : pages.toNat ≠ 0 := fun h => hpages (UInt8.toNat_inj.mp h)
  obtain ⟨k, hk⟩ := Nat.exists_eq_succ_of_ne_zero hne
  rw [writeAligned, hk, writePages, pageWrite_of_cycle hcycle]
  rfl

theorem bufferWrite_of_cycle (hcycle : 0 < s.eeprom.cycle) : bufferWrite p a n s = none := by
  rw [bufferWrite]
  simp only [pageWrite_of_cycle hcycle]
  split_ifs with haddr hpages hpages hcount
  · rfl
  · exact writeAligned_of_cycle hcycle hpages
  · rfl
  · rfl
  · exact absurd (count_ne_zero a) hcount

theorem step_of_cycle (hcycle : 0 < s.eeprom.cycle) (call : EepromCall) : call.step s = none := by
  cases call with
  | bufferWrite p a n => exact bufferWrite_of_cycle hcycle
  | byteWrite b a => rw [EepromCall.step, byteWrite, select_of_cycle _ hcycle, Option.map_none]
  | bufferRead a n =>
    rw [EepromCall.step, bufferRead, select_of_cycle _ hcycle]
    split_ifs <;> rfl

end Cycle

/-! ### A responsive EEPROM -/

/-- No result leaves the EEPROM in a write cycle. -/
def KeepsResponsive (r : Option I2c) : Prop := ∀ t, r = some t → Responsive t

section Responsive

variable {s : I2c}

theorem KeepsResponsive.bind {α : Type*} {r : Option α} {f : α → Option I2c} {P : α → Prop}
    (h : ∀ a, r = some a → P a) (hf : ∀ a, P a → KeepsResponsive (f a)) :
    KeepsResponsive (r.bind f) := by
  intro t ht
  obtain ⟨a, ha, hft⟩ := Option.bind_eq_some_iff.mp ht
  exact hf a (h a ha) t hft

theorem Responsive.generateStart (h : Responsive s) : Responsive s.generateStart :=
  ⟨h.cycle, h.cycles⟩

theorem Responsive.generateStop (h : Responsive s) : Responsive s.generateStop := by
  rw [I2c.generateStop]
  split_ifs
  · exact ⟨h.cycles 0, fun k => h.cycles (k + 1)⟩
  · exact ⟨h.cycle, h.cycles⟩

theorem Responsive.sendData (h : Responsive s) (b : UInt8) : Responsive (s.sendData b) := by
  rw [I2c.sendData]
  split <;> exact ⟨h.cycle, h.cycles⟩

theorem Responsive.select (h : Responsive s) (dir : Direction) :
    KeepsResponsive (s.select dir) := by
  intro t ht
  rw [select_of_standby dir h.cycle] at ht
  obtain rfl := Option.some.inj ht
  exact ⟨h.cycle, h.cycles⟩

theorem Responsive.sendBytes (h : Responsive s) (n : ℕ) (p : ℕ → UInt8) :
    Responsive (sendBytes n p s) := by
  induction n generalizing p s with
  | zero => exact h
  | succ n ih => exact ih (h.sendData _) _

theorem Responsive.pageWrite (h : Responsive s) (p : ℕ → UInt8) (a n : UInt8) :
    KeepsResponsive (pageWrite p a n s) := by
  rw [Eeprom.pageWrite]
  split_ifs
  · exact fun _ ht => by simp at ht
  · rw [Option.map_eq_bind]
    apply KeepsResponsive.bind (h.generateStart.select .transmitter)
    intro u hu t ht
    obtain rfl := Option.some.inj ht
    exact ((hu.sendData a).sendBytes _ _).generateStop

theorem Responsive.waitEepromStandbyState (h : Responsive s) :
    KeepsResponsive (waitEepromStandbyState s) := by
  intro t ht
  rw [Eeprom.waitEepromStandbyState, h.cycle] at ht
  have hpoll : pollAddress (0 + 1) s = some { s.generateStart with
      eeprom := { s.generateStart.eeprom with mode := .wordAddress } } := by
    simp [pollAddress, send7bitAddress, I2c.generateStart, h.cycle, Direction.mode]
  rw [hpoll] at ht
  obtain rfl := Option.some.inj ht
  exact Responsive.generateStop ⟨h.cycle, h.cycles⟩

/-- A page write and the wait after it. -/
theorem Responsive.writePage (h : Responsive s) (p : ℕ → UInt8) (a n : UInt8) :
    KeepsResponsive ((Eeprom.pageWrite p a n s).bind Eeprom.waitEepromStandbyState) :=
  KeepsResponsive.bind (h.pageWrite p a n) fun _ ht => ht.waitEepromStandbyState

theorem Responsive.writePages (h : Responsive s) (k : ℕ) (p : ℕ → UInt8) (a : UInt8) :
    ∀ r, writePages k p a s = some r → Responsive r.2.2 := by
  induction k generalizing p a s with
  | zero =>
    intro r hr
    obtain rfl := Option.some.inj hr
    exact h
  | succ k ih =>
    intro r hr
    obtain ⟨t, ht, hr⟩ := Option.bind_eq_some_iff.mp hr
    obtain ⟨u, hu, hr⟩ := Option.bind_eq_some_iff.mp hr
    exact ih (h.writePage p a 8 u (Option.bind_eq_some_iff.mpr ⟨t, ht, hu⟩)) _ _ r hr

theorem Responsive.writeAligned (h : Responsive s) (pages single : UInt8) (p : ℕ → UInt8)
    (a : UInt8) : KeepsResponsive (writeAligned pages single p a s) := by
  apply KeepsResponsive.bind (h.writePages pages.toNat p a)
  rintro ⟨q, b, t⟩ ht
  dsimp only
  split_ifs
  · exact ht.writePage q b single
  · intro u hu
    obtain rfl := Option.some.inj hu
    exact ht

theorem Responsive.bufferWrite (h : Responsive s) (p : ℕ → UInt8) (a : UInt8) (n : UInt16) :
    KeepsResponsive (bufferWrite p a n s) := by
  rw [Eeprom.bufferWrite]
  dsimp only
  split_ifs
  · exact h.writePage _ _ _
  · exact h.writeAligned _ _ _ _
  · exact h.writePage _ _ _
  · simp only [Option.bind_eq_bind, ← Option.bind_assoc]
    exact KeepsResponsive.bind (h.writePage p a _) fun t ht => ht.writeAligned _ _ _ _
  · exact h.writeAligned _ _ _ _

theorem Responsive.receiveBytes (h : Responsive s) (n : ℕ) : Responsive (receiveBytes n s).2 := by
  induction n generalizing s with
  | zero => exact h
  | succ n ih =>
    have hlast : Responsive
        (if n = 0 then { s with ack := false }.generateStop else s) := by
      split_ifs
      · exact Responsive.generateStop ⟨h.cycle, h.cycles⟩
      · exact h
    exact ih ⟨hlast.cycle, hlast.cycles⟩

theorem Responsive.bufferRead (h : Responsive s) (a : UInt8) (n : UInt16) :
    KeepsResponsive ((bufferRead a n s).map Prod.snd) := by
  intro t ht
  obtain ⟨r, hr, rfl⟩ := Option.map_eq_some_iff.mp ht
  rw [Eeprom.bufferRead] at hr
  split_ifs at hr
  obtain ⟨u, hu, hr⟩ := Option.bind_eq_some_iff.mp hr
  obtain ⟨v, hv, hr⟩ := Option.bind_eq_some_iff.mp hr
  have hwrite := h.generateStart.select .transmitter u hu
  have hread := (hwrite.sendData a).generateStart.select .receiver v hv
  obtain rfl := Option.some.inj hr
  have hbytes := hread.receiveBytes n.toNat
  exact ⟨hbytes.cycle, hbytes.cycles⟩

theorem Responsive.step (h : Responsive s) (call : EepromCall) :
    KeepsResponsive (call.step s) := by
  cases call with
  | bufferWrite p a n => exact h.bufferWrite p a n
  | byteWrite b a =>
    rw [EepromCall.step, byteWrite, Option.map_eq_bind]
    apply KeepsResponsive.bind (h.generateStart.select .transmitter)
    intro u hu t ht
    obtain rfl := Option.some.inj ht
    exact ((hu.sendData a).sendData b).generateStop
  | bufferRead a n => exact h.bufferRead a n

end Responsive

/-! ### Sequences of calls -/

/-- What a call does to an idle bus. -/
theorem step_spec {s : I2c} (hs : Standby s) (call : EepromCall) :
    ∃ t, call.step s = some t ∧ (call.Reads → t.ack = true) ∧
      (t.busy = false ↔ ¬ call.IsEmptyRead) := by
  cases call with
  | bufferWrite p a n =>
    obtain ⟨t, ht, hstandby⟩ := bufferWrite_returns (p := p) (a := a) (n := n) hs
    exact ⟨t, ht, False.elim, iff_of_true hstandby.busy id⟩
  | byteWrite b a =>
    obtain ⟨t, ht, hbusy⟩ := byteWrite_returns b a hs.cycle
    exact ⟨t, ht, False.elim, iff_of_true hbusy id⟩
  | bufferRead a n =>
    obtain ⟨r, hr, hack, hbusy⟩ := bufferRead_returns a n hs
    refine ⟨r.2, ?_, fun _ => hack, ?_⟩
    · rw [EepromCall.step, hr, Option.map_some]
    · rw [hbusy, decide_eq_false_iff_not]
      exact Iff.rfl

/-- The calls of a sequence are balanced as long as the EEPROM answers and no read
is empty. -/
theorem balanced_iff_answered {s : I2c} (hbusy : s.busy = false) (calls : List EepromCall) :
    Balanced s calls ↔ Answered s calls := by
  induction calls generalizing s with
  | nil => exact Iff.rfl
  | cons call calls ih =>
    obtain hcycle | hcycle := Nat.eq_zero_or_pos s.eeprom.cycle
    · obtain ⟨t, ht, hack, hidle⟩ := step_spec ⟨hbusy, hcycle⟩ call
      constructor
      · rintro ⟨u, hu, hfree, -, hrest⟩
        obtain rfl : t = u := Option.some.inj (ht.symm.trans hu)
        refine ⟨hcycle, hidle.mp hfree, fun v hv => ?_⟩
        obtain rfl : t = v := Option.some.inj (ht.symm.trans hv)
        exact (ih hfree).mp hrest
      · rintro ⟨-, hread, hrest⟩
        exact ⟨t, ht, hidle.mpr hread, hack, (ih (hidle.mpr hread)).mpr (hrest t ht)⟩
    · have hnone := step_of_cycle hcycle call
      refine iff_of_false ?_ fun h => hcycle.ne' h.1
      rintro ⟨t, ht, -⟩
      rw [hnone] at ht
      simp at ht

/-- A responsive EEPROM answers at every call. -/
theorem answered_iff {s : I2c} (h : Responsive s) (calls : List EepromCall)
    (hbusy : s.busy = false) :
    Answered s calls ↔ ∀ call ∈ calls, ¬ call.IsEmptyRead := by
  induction calls generalizing s with
  | nil => simp [Answered]
  | cons call calls ih =>
    obtain ⟨t, ht, -, hidle⟩ := step_spec ⟨hbusy, h.cycle⟩ call
    rw [List.forall_mem_cons]
    constructor
    · rintro ⟨-, hread, hrest⟩
      exact ⟨hread, (ih (h.step call t ht) (hidle.mpr hread)).mp (hrest t ht)⟩
    · rintro ⟨hread, hrest⟩
      refine ⟨h.cycle, hread, fun u hu => ?_⟩
      obtain rfl : t = u := Option.some.inj (ht.symm.trans hu)
      exact (ih (h.step call t ht) (hidle.mpr hread)).mpr hrest

/-- With a responsive EEPROM every call returns with the bus idle if and only if
none is a read of no bytes. -/
theorem transactions_balanced_iff {s : I2c} (hbusy : s.busy = false) (hresp : Responsive s)
    (calls : List EepromCall) :
    Balanced s calls ↔ ∀ call ∈ calls, ¬ call.IsEmptyRead := by
  rw [balanced_iff_answered hbusy, answered_iff hresp calls hbusy]

/-- An EEPROM that stores a page in no time. -/
def quickEeprom : I2c := ⟨⟨fun _ => 0, 0, .idle, 0, fun _ => 0⟩, false, true⟩

theorem transactions_balanced_three_calls :
    Balanced quickEeprom [.bufferWrite (fun _ => 7) 6 20, .byteWrite 1 3, .bufferRead 0 256] :=
  (transactions_balanced_iff (s := quickEeprom) rfl ⟨rfl, fun _ => rfl⟩ _).mpr (by decide)

/-- A read of no bytes leaves the bus busy, and the next read waits for ever. -/
theorem empty_read_hangs :
    (∃ t, (EepromCall.bufferRead 0 0).step quickEeprom = some t ∧ t.busy = true ∧
      (EepromCall.bufferRead 0 1).step t = none) ∧
    ¬ Balanced quickEeprom [.bufferRead 0 0, .bufferRead 0 1] := by
  refine ⟨⟨_, rfl, rfl, rfl⟩, ?_⟩
  rintro ⟨t, ht, hbusy, -⟩
  obtain rfl := Option.some.inj ht
  exact absurd hbusy (by decide)

end EthMange.Eeprom
