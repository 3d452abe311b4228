import EthMange.Lib.Lines
import EthMange.Telnet.Server

/-!
# The reply of the telnet servers

The block of a connection holds the first 32 bytes of the unfinished line, and what
the receive callback does with a segment is what a reader of lines does that drops
the rest of a segment after the end of a line. Every line is answered with its first
30 bytes and CR LF.
-/

namespace EthMange.Telnet

open Lines

/-- CR or LF. -/
def IsEol (c : UInt8) : Prop := c = 0x0D ∨ c = 0x0A

instance : DecidablePred IsEol := fun c => inferInstanceAs (Decidable (c = 0x0D ∨ c = 0x0A))

/-- The block holds the start of the unfinished line `w`. -/
def Name.Holds (name : Name) (w : Bytes) : Prop :=
  name.bytes.read 0 name.length = w.take maxNameSize

/-- What is sent back for the line `w`. -/
def replyBody (w : Bytes) : Bytes := w.take 30 ++ [0x0D, 0x0A]

/-- The data of the calls of `tcp_write`. -/
def writes (log : List TelnetAction) : List Bytes :=
  log.filterMap fun
    | .write data _ => some data
    | _ => none

/-! ### The block -/

/-- A byte is put behind the others if there is room. -/
def Name.store (name : Name) (c : UInt8) : Name :=
  if name.length < maxNameSize then
    ⟨name.length + 1, Function.update name.bytes name.length c⟩
  else name

section Name

variable {name : Name} {w bs : Bytes} {c : UInt8}

theorem read_update (m : Memory) (l : ℕ) (c : UInt8) :
    Memory.read (Function.update m l c) 0 (l + 1) = m.read 0 l ++ [c] := by
  have hbefore : Memory.read (Function.update m l c) 0 l = m.read 0 l :=
    Memory.read_congr fun a _ ha => Function.update_of_ne (by omega) _ _
  rw [Memory.read_add, hbefore]
  simp [Memory.read]

theorem holds_nil : name.Holds [] ↔ name.length = 0 := by
  constructor
  · intro h
    simpa using congrArg List.length h
  · intro h
    rw [Name.Holds, h]
    rfl

theorem Name.Holds.length (h : name.Holds w) : name.length = min maxNameSize w.length := by
  simpa using congrArg List.length h

theorem Name.Holds.getElem? (h : name.Holds w) {i : ℕ} (hi : i < name.length) :
    w[i]? = some (name.bytes i) := by
  have hget := congrArg (·[i]?) h
  have hlen := h.length
  have hmax : i < maxNameSize := by omega
  simpa [Memory.read, hi, hmax, List.getElem?_take] using hget.symm

theorem Name.Holds.store (h : name.Holds w) : (name.store c).Holds (w ++ [c]) := by
  have hlen := h.length
  rw [Name.store]
  split_ifs with hroom
  · have hshort : w.length < maxNameSize := by omega
    rw [Name.Holds] at h ⊢
    simp only
    rw [read_update, h, List.take_of_length_le hshort.le, List.take_of_length_le]
    simpa using hshort
  · rw [Name.Holds] at h ⊢
    rw [h, List.take_append_of_le_length (by omega)]

theorem Name.Holds.storeAll (h : name.Holds w) : (bs.foldl Name.store name).Holds (w ++ bs) := by
  induction bs generalizing name w with
  | nil => simpa using h
  | cons c bs ih =>
    rw [List.foldl_cons, List.append_cons]
    exact ih h.store

end Name

/-! ### Reading a segment -/

section Recv

variable {name : Name} {bs v rest : Bytes} {t : UInt8} {log : List TelnetAction}

theorem foldl_recvChar_done (s : NameLoop) (h : s.done = true) : bs.foldl recvChar s = s := by
  induction bs with
  | nil => rfl
  | cons c bs ih => rw [List.foldl_cons, recvChar, if_pos h, ih]

/-- A byte is stored while the line is open; only the log grows besides. -/
theorem recvChar_open (name : Name) (log : List TelnetAction) (c : UInt8) : ∃ log',
    recvChar ⟨name, false, log⟩ c = ⟨name.store c, decide (IsEol c), log'⟩ := by
  simp only [recvChar, Name.store, Bool.false_eq_true, if_false]
  split_ifs
  · exact ⟨_, rfl⟩
  · exact ⟨_, rfl⟩

theorem foldl_recvChar_open (h : ∀ c ∈ bs, ¬ IsEol c) : ∃ log',
    bs.foldl recvChar ⟨name, false, log⟩ = ⟨bs.foldl Name.store name, false, log'⟩ := by
  induction bs generalizing name log with
  | nil => exact ⟨log, rfl⟩
  | cons c bs ih =>
    obtain ⟨hc, hbs⟩ := List.forall_mem_cons.mp h
    obtain ⟨log', hchar⟩ := recvChar_open name log c
    rw [List.foldl_cons, List.foldl_cons, hchar, decide_eq_false hc]
    exact ih hbs

theorem recvChain_open (name : Name) {p : Pbuf} (h : ∀ c ∈ p.bytes, ¬ IsEol c) : ∃ log,
    recvChain p name = ⟨p.bytes.foldl Name.store name, false, log⟩ := by
  rw [recvChain_eq]
  exact foldl_recvChar_open h

/-- What follows the end of the line is not looked at. -/
theorem recvChain_end (name : Name) {p : Pbuf} (hp : p.bytes = v ++ t :: rest)
    (hv : ∀ c ∈ v, ¬ IsEol c) (ht : IsEol t) : ∃ log,
    recvChain p name = ⟨(v ++ [t]).foldl Name.store name, true, log⟩ := by
  obtain ⟨log, hline⟩ := foldl_recvChar_open hv
  obtain ⟨log', hend⟩ := recvChar_open (v.foldl Name.store name) log t
  rw [decide_eq_true ht] at hend
  refine ⟨log', ?_⟩
  rw [recvChain_eq, hp, List.foldl_append, List.foldl_cons, hline, hend,
    foldl_recvChar_done _ rfl, List.foldl_append, List.foldl_cons, List.foldl_nil]

end Recv

/-! ### CR and LF at the end of the line -/

section CrLf

variable {name : Name} {w : Bytes} {t : UInt8}

theorem Name.get_sub {k : ℕ} (h : k ≤ name.length) :
    name.get (name.length - k) = name.bytes (name.length - k) := by
  have hcast : (name.length : ℤ) - k = (name.length - k : ℕ) := by omega
  rw [hcast, Name.get, if_pos (Int.natCast_nonneg _), Int.toNat_natCast]

/-- In front of the bytes of a line with one byte lies a zero byte of its length. -/
theorem Name.get_of_one (h : name.length = 1) : name.get (name.length - 2) = 0 := by
  have hneg : ¬ (0 : ℤ) ≤ ((1 : ℕ) : ℤ) - 2 := by decide
  rw [Name.get, h, if_neg hneg]
  rfl

/-- A line that has just got its CR or LF does not end with both of them. -/
theorem hasCrLf_of_holds (h : name.Holds (w ++ [t])) (hw : ∀ c ∈ w, ¬ IsEol c) :
    name.hasCrLf = false := by
  have hlen := h.length
  have hmax : maxNameSize = 32 := rfl
  rw [List.length_append, List.length_singleton] at hlen
  rw [Name.hasCrLf, Bool.and_eq_false_iff, decide_eq_false_iff_not]
  left
  obtain hone | hmore : name.length = 1 ∨ 2 ≤ name.length := by omega
  · rw [Name.get_of_one hone]
    decide
  · have hget := h.getElem? (i := name.length - 2) (by omega)
    rw [List.getElem?_append_left (by omega)] at hget
    rw [show ((2 : ℤ)) = ((2 : ℕ) : ℤ) from rfl, Name.get_sub hmore]
    intro hcr
    exact hw _ (List.mem_of_getElem? hget) (.inl hcr)

theorem crLfLength_of_holds (h : name.Holds (w ++ [t])) (ht : IsEol t) :
    crLfLength name = min w.length 30 + 2 := by
  have hlen := h.length
  have hmax : maxNameSize = 32 := rfl
  rw [List.length_append, List.length_singleton] at hlen
  by_cases hshort : w.length ≤ 30
  · have hget := h.getElem? (i := name.length - 1) (by omega)
    have hlast : name.length - 1 = w.length := by omega
    rw [hlast, List.getElem?_concat_length, Option.some.injEq] at hget
    have hend : name.get (name.length - 1) = t := by
      rw [show ((1 : ℤ)) = ((1 : ℕ) : ℤ) from rfl, Name.get_sub (by omega), hlast, hget]
    rw [crLfLength, hend, if_pos ⟨ht, by omega⟩]
    omega
  · rw [crLfLength, if_neg (by omega), if_neg (by omega)]
    omega

/-- The line as it is sent back, however long it is. -/
theorem crLf_of_holds (h : name.Holds (w ++ [t])) (hw : ∀ c ∈ w, ¬ IsEol c) (ht : IsEol t) :
    crLf name = ⟨min w.length 30 + 2,
      Function.update (Function.update name.bytes (min w.length 30) 0x0D)
        (min w.length 30 + 1) 0x0A⟩ := by
  rw [crLf, hasCrLf_of_holds h hw, if_neg Bool.false_ne_true]
  simp only [crLfLength_of_holds h ht]
  rfl

theorem read_crLf (h : name.Holds (w ++ [t])) (hw : ∀ c ∈ w, ¬ IsEol c) (ht : IsEol t) :
    (crLf name).bytes.read 0 (crLf name).length = replyBody w := by
  have hlen := h.length
  have hmax : maxNameSize = 32 := rfl
  rw [List.length_append, List.length_singleton] at hlen
  have hline : name.bytes.read 0 (min w.length 30) = w.take 30 := by
    have hread : name.length = min w.length 30 + (name.length - min w.length 30) := by omega
    rw [Name.Holds, hread, Memory.read_add] at h
    have htake := congrArg (List.take (min w.length 30)) h
    rw [List.take_left' (Memory.read_length _ _ _), List.take_take, hmax,
      List.take_append_of_le_length (by omega)] at htake
    rw [htake]
    obtain hle | hlt := le_or_gt w.length 30
    · rw [List.take_of_length_le (by omega), List.take_of_length_le hle]
    · rw [show min (min w.length 30) 32 = 30 by omega]
  rw [crLf_of_holds h hw ht]
  simp only
  rw [read_update, read_update, hline, List.append_assoc]
  rfl

end CrLf

/-! ### The callback as a reader of lines -/

section Writes

variable {as bs : List TelnetAction}

theorem writes_append : writes (as ++ bs) = writes as ++ writes bs := List.filterMap_append

theorem AccessOnly.writes (h : AccessOnly as) : writes as = [] := by
  apply List.filterMap_eq_nil_iff.mpr
  intro a ha
  obtain rfl | ⟨i, rfl⟩ := h a ha <;> rfl

theorem writes_replyLog (hello : Bytes) (env : TelnetEnv) (name : Name) :
    writes (replyLog hello env name) =
      [hello, (crLf name).bytes.read 0 (crLf name).length] := by
  rw [replyLog, writes_append, (crLfLog_accessOnly name).writes]
  rfl

theorem recvChain_accessOnly (p : Pbuf) (name : Name) : AccessOnly (recvChain p name).log := by
  obtain ⟨as, has, hlog⟩ := foldl_recvChar_log p.bytes ⟨name, false, []⟩
  rw [recvChain_eq, hlog]
  exact has

end Writes

section Recv

variable {p : Pbuf} {v rest : Bytes} {t : UInt8}

/-- A segment without CR and LF is stored. -/
theorem telnetRecv_open (hello : Bytes) (err : Err) (env : TelnetEnv) (c : TelnetConn)
    (hp : ∀ b ∈ p.bytes, ¬ IsEol b) :
    telnetRecv hello true (some p) err env c =
      (.ok, { c.act (.recved p.totLen :: (recvChain p c.name).log ++ [.pbufFree]) with
        name := p.bytes.foldl Name.store c.name }) := by
  obtain ⟨log, hchain⟩ := recvChain_open c.name hp
  simp [telnetRecv, hchain, TelnetConn.act]

/-- The first CR or LF of a segment ends the line, which is answered. -/
theorem telnetRecv_end (hello : Bytes) (err : Err) (env : TelnetEnv) (c : TelnetConn)
    (hp : p.bytes = v ++ t :: rest) (hv : ∀ b ∈ v, ¬ IsEol b) (ht : IsEol t) :
    telnetRecv hello true (some p) err env c =
      (.ok, { c.act (.recved p.totLen :: (recvChain p c.name).log ++
          replyLog hello env ((v ++ [t]).foldl Name.store c.name) ++ [.pbufFree]) with
        name := ⟨0, (crLf ((v ++ [t]).foldl Name.store c.name)).bytes⟩ }) := by
  obtain ⟨log, hchain⟩ := recvChain_end c.name hp hv ht
  simp [telnetRecv, hchain, TelnetConn.act]

end Recv

/-- A segment as the stack delivers it, and what the stack returns meanwhile. -/
structure Delivery where
  p : Pbuf
  err : Err
  env : TelnetEnv

/-- The segments are delivered in order, with the argument of the connection. -/
def recvAll (app : TelnetApp) (c : TelnetConn) (ds : List Delivery) : TelnetConn :=
  ds.foldl (fun c d => (app.recv c.callbackArg (some d.p) d.err d.env c).2) c

/-- The greeting and the line. -/
def reply (app : TelnetApp) (w : Bytes) : List Bytes := [app.hello, replyBody w]

/-- `c` has the line `w` open and has written `sent`. -/
structure Reads (c : TelnetConn) (w : Bytes) (sent : List Bytes) : Prop where
  block : c.callbackArg = true
  holds : c.name.Holds w
  written : writes c.log = sent
  noEol : ∀ b ∈ w, ¬ IsEol b

section Reads

variable {app : TelnetApp} {c : TelnetConn} {w : Bytes} {sent : List Bytes}

/-- The receive callback does with a segment what the reader of lines does. -/
theorem Reads.recv (app : TelnetApp) (h : Reads c w sent) (d : Delivery) :
    Reads (app.recv c.callbackArg (some d.p) d.err d.env c).2 (readSegment IsEol w d.p.bytes).1
      (sent ++ (readSegment IsEol w d.p.bytes).2.flatMap (reply app)) := by
  have haccess := recvChain_accessOnly d.p c.name
  rw [app.recv_eq, h.block]
  by_cases hend : ∃ b ∈ d.p.bytes, IsEol b
  · obtain ⟨v, t, rest, hp, hv, ht⟩ := exists_end_split hend
    have hline : ((v ++ [t]).foldl Name.store c.name).Holds (w ++ v ++ [t]) := by
      rw [List.append_assoc]
      exact h.holds.storeAll
    have hopen : ∀ b ∈ w ++ v, ¬ IsEol b := List.forall_mem_append.mpr ⟨h.noEol, hv⟩
    rw [telnetRecv_end app.hello d.err d.env c hp hv ht, hp, readSegment_end hv ht]
    refine ⟨h.block, holds_nil.mpr rfl, ?_, by simp⟩
    show writes (c.log ++ (_ :: (recvChain d.p c.name).log ++ _ ++ _)) = _
    rw [writes_append, writes_append, writes_append, writes_replyLog, read_crLf hline hopen ht,
      ← List.singleton_append, writes_append, haccess.writes, h.written]
    rfl
  · have hopen : ∀ b ∈ d.p.bytes, ¬ IsEol b := fun b hb hc => hend ⟨b, hb, hc⟩
    rw [telnetRecv_open app.hello d.err d.env c hopen, readSegment_open hopen]
    refine ⟨h.block, h.holds.storeAll, ?_, List.forall_mem_append.mpr ⟨h.noEol, hopen⟩⟩
    show writes (c.log ++ (_ :: (recvChain d.p c.name).log ++ _)) = _
    rw [writes_append, writes_append, ← List.singleton_append, writes_append, haccess.writes,
      h.written]
    rfl

theorem Reads.recvAll (app : TelnetApp) (h : Reads c w sent) (ds : List Delivery) :
    Reads (Telnet.recvAll app c ds) (afterSegments IsEol w (ds.map (·.p.bytes)))
      (sent ++ (readSegments IsEol w (ds.map (·.p.bytes))).flatMap (reply app)) := by
  induction ds generalizing c w sent with
  | nil =>
    rw [List.map_nil, readSegments, List.flatMap_nil, List.append_nil]
    exact h
  | cons d ds ih =>
    have hrest := ih (h.recv app d)
    rw [List.append_assoc, ← List.flatMap_append] at hrest
    exact hrest

/-- A line of any length, in any number of segments, is answered when its end arrives:
with its first 30 bytes and CR LF, once, and what follows in that segment is ignored. -/
theorem reply_law (app : TelnetApp) {c : TelnetConn} (harg : c.callbackArg = true)
    (hempty : c.name.length = 0) {w w₂ rest : Bytes} {t : UInt8} (hw : ∀ b ∈ w, ¬ IsEol b)
    (ht : IsEol t) {segs : List Delivery} {last : Delivery}
    (hcut : segs.flatMap (·.p.bytes) ++ w₂ = w) (hlast : last.p.bytes = w₂ ++ t :: rest) :
    writes (Telnet.recvAll app c segs).log = writes c.log ∧
    writes (Telnet.recvAll app c (segs ++ [last])).log =
      writes c.log ++ [app.hello, w.take 30 ++ [0x0D, 0x0A]] ∧
    (w.take 30 ++ [0x0D, 0x0A]).length = min w.length 30 + 2 ∧
    min w.length 30 + 2 ≤ 32 ∧
    (Telnet.recvAll app c (segs ++ [last])).name.length = 0 := by
  have hstart : Reads c [] (writes c.log) := ⟨harg, holds_nil.mpr hempty, rfl, by simp⟩
  rw [← hcut, List.forall_mem_append] at hw
  rw [List.flatMap_def] at hcut hw
  obtain ⟨hnone, hafter⟩ := readSegments_open [] hw.1
  have hbefore := hstart.recvAll app segs
  rw [hnone, hafter, List.nil_append, List.flatMap_nil, List.append_nil] at hbefore
  have hreply := hbefore.recv app last
  rw [hlast, readSegment_end hw.2 ht, hcut] at hreply
  have hlast' : Telnet.recvAll app c (segs ++ [last]) =
      (app.recv (Telnet.recvAll app c segs).callbackArg (some last.p) last.err last.env
        (Telnet.recvAll app c segs)).2 := by
    rw [Telnet.recvAll, List.foldl_concat]
    rfl
  rw [hlast']
  refine ⟨hbefore.written, ?_, ?_, by omega, holds_nil.mp hreply.holds⟩
  · rw [hreply.written]
    simp [reply, replyBody]
  · rw [List.length_append, List.length_take, Nat.min_comm]
    rfl

end Reads

/-- A line in two segments, with more behind its end. -/
theorem reply_law_hi :
    writes (recvAll .helloWorld (telnetAccept true ⟨false, false, false, ⟨0, fun _ => 0⟩, []⟩).2
      [⟨.single [72] (by decide), .ok, ⟨.ok, .ok, .ok⟩⟩,
        ⟨.single [105, 13, 10, 33] (by decide), .ok, ⟨.ok, .ok, .ok⟩⟩]).log =
      [helloWorldHello, [72, 105, 13, 10]] :=
  (@reply_law .helloWorld (telnetAccept true ⟨false, false, false, ⟨0, fun _ => 0⟩, []⟩).2 rfl rfl
    [72, 105] [105] [10, 33] 13 (by simp [IsEol]) (.inl rfl)
    [⟨.single [72] (by decide), .ok, ⟨.ok, .ok, .ok⟩⟩]
    ⟨.single [105, 13, 10, 33] (by decide), .ok, ⟨.ok, .ok, .ok⟩⟩ (by decide) (by decide)).2.1

end EthMange.Telnet
