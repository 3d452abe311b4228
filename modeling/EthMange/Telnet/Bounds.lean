import EthMange.Telnet.Lifecycle
import EthMange.Telnet.Reply

/-!
# The places of the name block that are used

The length of the line stays between 0 and 32 in every run. The places in front of
the end of the line and the string that is printed are inside the block as long as
no line is empty and a NUL is left behind every line.
-/

namespace EthMange.Telnet

open Lines Run

/-- What is used of the block are its 32 bytes. -/
def Inside (hello : Bytes) : TelnetAction → Prop
  | .byte i => 0 ≤ i ∧ i < maxNameSize
  -- `%s` stops at a NUL
  | .printf bytes => 0 ∈ bytes
  -- the greeting, or the bytes of the block from the first on
  | .write data _ => data = hello ∨ data.length ≤ maxNameSize
  | _ => True

structure NameBounded (app : TelnetApp) (s : TelnetSystem) : Prop where
  length : s.conn.callbackArg = true → s.conn.name.length ≤ maxNameSize
  inside : ∀ a ∈ s.conn.log, Inside app.hello a

/-- The line that ends in `p` is not empty, and there is a NUL among its first 30
bytes or in what older lines have left behind its CR LF. -/
def LineFits (name : Name) (p : Pbuf) : Prop :=
  (∃ b ∈ p.bytes, IsEol b) →
    0 < name.length + (p.bytes.takeWhile fun b => ¬ IsEol b).length ∧
    (0 ∈ (name.bytes.read 0 name.length ++ p.bytes.takeWhile fun b => ¬ IsEol b).take 30 ∨
      ∃ i < maxNameSize,
        name.length + (p.bytes.takeWhile fun b => ¬ IsEol b).length + 2 ≤ i ∧ name.bytes i = 0)

instance (name : Name) (p : Pbuf) : Decidable (LineFits name p) :=
  inferInstanceAs (Decidable (_ → _))

/-- Every line that ends fits. -/
def Fits (s : TelnetSystem) : TelnetEvent → Prop
  | .recv (some p) _ => s.conn.callbackArg = true → LineFits s.conn.name p
  | _ => True

instance (s : TelnetSystem) (e : TelnetEvent) : Decidable (Fits s e) :=
  match e with
  | .recv (some _) _ => inferInstanceAs (Decidable (_ → _))
  | .recv none _ | .accept _ | .error | .removed => .isTrue trivial

/-! ### The unfinished line -/

/-- The bytes of the unfinished line. -/
def Name.line (name : Name) : Bytes := name.bytes.read 0 name.length

/-- The block holds an unfinished line and nothing else below `length`. -/
structure Name.Open (name : Name) : Prop where
  length : name.length ≤ maxNameSize
  noEol : ∀ b ∈ name.line, ¬ IsEol b

section Open

variable {name : Name} {w v bs : Bytes} {t : UInt8}

theorem Name.Open.holds (h : name.Open) : name.Holds name.line := by
  have hlen := h.length
  rw [Name.Holds, Name.line, List.take_of_length_le]
  rwa [Memory.read_length]

theorem Name.Holds.open (h : name.Holds w) (hw : ∀ b ∈ w, ¬ IsEol b) : name.Open := by
  refine ⟨h.length.trans_le (min_le_left _ _), fun b hb => ?_⟩
  rw [Name.line, h] at hb
  exact hw b (List.mem_of_mem_take hb)

/-- What lies behind the stored bytes stays. -/
theorem storeAll_bytes {i : ℕ} (hi : name.length + bs.length ≤ i) :
    (bs.foldl Name.store name).bytes i = name.bytes i := by
  induction bs generalizing name with
  | nil => rfl
  | cons c bs ih =>
    rw [List.length_cons] at hi
    have hstore : (name.store c).bytes i = name.bytes i ∧
        (name.store c).length ≤ name.length + 1 := by
      rw [Name.store]
      split_ifs
      · exact ⟨Function.update_of_ne (by omega) _ _, le_rfl⟩
      · exact ⟨rfl, Nat.le_succ _⟩
    rw [List.foldl_cons, ih (by omega)]
    exact hstore.1

/-! ### What is printed -/

/-- The NULs that stop `printf` are bytes of the line or lie behind its CR LF. -/
theorem zero_mem_printed (h : name.Holds (w ++ [t])) (hw : ∀ c ∈ w, ¬ IsEol c) (ht : IsEol t) :
    0 ∈ (crLf name).bytes.read 0 maxNameSize ↔
      0 ∈ w.take 30 ∨ ∃ i < maxNameSize, w.length + 2 ≤ i ∧ name.bytes i = 0 := by
  have hmax : maxNameSize = 32 := rfl
  have hlen := h.length
  rw [List.length_append, List.length_singleton] at hlen
  have hread : (crLf name).bytes.read 0 (min w.length 30 + 2) = replyBody w := by
    have hline := read_crLf h hw ht
    rwa [crLf_of_holds h hw ht] at hline ⊢
  -- the printed bytes are the reply and what lies behind it
  have hsplit : maxNameSize = min w.length 30 + 2 + (maxNameSize - (min w.length 30 + 2)) := by
    omega
  have hrest : 0 ∈ (crLf name).bytes.read (min w.length 30 + 2)
      (maxNameSize - (min w.length 30 + 2)) ↔
      ∃ i < maxNameSize, w.length + 2 ≤ i ∧ name.bytes i = 0 := by
    have hbehind {i : ℕ} (hi : min w.length 30 + 2 ≤ i) : (crLf name).bytes i = name.bytes i := by
      rw [crLf_of_holds h hw ht]
      simp only
      rw [Function.update_of_ne (by omega), Function.update_of_ne (by omega)]
    simp only [Memory.read, List.mem_map, List.mem_range]
    constructor
    · rintro ⟨k, hk, hzero⟩
      rw [hbehind (by omega)] at hzero
      exact ⟨min w.length 30 + 2 + k, by omega, by omega, hzero⟩
    · rintro ⟨i, hi, hle, hzero⟩
      refine ⟨i - (min w.length 30 + 2), by omega, ?_⟩
      rw [Nat.add_sub_cancel' (by omega), hbehind (by omega), hzero]
  have hprinted := Memory.read_add (crLf name).bytes 0 (min w.length 30 + 2)
    (maxNameSize - (min w.length 30 + 2))
  rw [Nat.zero_add, hread, ← hsplit] at hprinted
  rw [hprinted, List.mem_append, hrest, replyBody, List.mem_append]
  simp

end Open

/-! ### One callback -/

section Callback

variable {name : Name} {w : Bytes} {t : UInt8} {hello : Bytes}

/-- The turns of the loop store inside the block. -/
theorem foldl_recvChar_inside (bs : Bytes) (s : NameLoop) (hs : ∀ a ∈ s.log, Inside hello a) :
    ∀ a ∈ (bs.foldl recvChar s).log, Inside hello a := by
  induction bs generalizing s with
  | nil => exact hs
  | cons c bs ih =>
    rw [List.foldl_cons]
    apply ih _
    rw [recvChar]
    split_ifs with hdone hroom
    · exact hs
    · exact List.forall_mem_append.mpr ⟨hs, by simp [Inside, hroom]⟩
    · exact List.forall_mem_append.mpr ⟨hs, by simp [Inside]⟩

theorem crLfLog_inside (h : name.Holds (w ++ [t])) (hw : ∀ c ∈ w, ¬ IsEol c) (ht : IsEol t) :
    (∀ a ∈ crLfLog name, Inside hello a) ↔ 0 < w.length := by
  have hlen := h.length
  have hmax : maxNameSize = 32 := rfl
  rw [List.length_append, List.length_singleton] at hlen
  rw [crLfLog, hasCrLf_of_holds h hw, if_neg Bool.false_ne_true, crLfLength_of_holds h ht]
  simp only [List.forall_mem_append, List.forall_mem_cons, Inside, true_and, hmax]
  push_cast
  constructor
  · rintro ⟨⟨⟨hfront, -⟩, -⟩, -⟩
    omega
  · intro hpos
    refine ⟨⟨by omega, by omega, by simp⟩, by omega, by omega, by simp⟩

theorem replyLog_inside (hello : Bytes) (env : TelnetEnv) (h : name.Holds (w ++ [t]))
    (hw : ∀ c ∈ w, ¬ IsEol c) (ht : IsEol t) :
    (∀ a ∈ replyLog hello env name, Inside hello a) ↔
      0 < w.length ∧
        (0 ∈ w.take 30 ∨ ∃ i < maxNameSize, w.length + 2 ≤ i ∧ name.bytes i = 0) := by
  have hbody : (replyBody w).length ≤ maxNameSize := by
    rw [replyBody, List.length_append, List.length_take]
    exact Nat.add_le_add_right (min_le_left 30 _) 2
  rw [replyLog, List.forall_mem_append, crLfLog_inside h hw ht, ← zero_mem_printed h hw ht]
  simp [Inside, read_crLf h hw ht, hbody]

/-- Everything that a segment makes the callback use is inside the block if and only if
the line that it ends fits. -/
theorem telnetRecv_inside (hello : Bytes) (err : Err) (env : TelnetEnv) (c : TelnetConn)
    (p : Pbuf) (hopen : c.name.Open) : ∃ as name,
    telnetRecv hello true (some p) err env c = (.ok, { c.act as with name := name }) ∧
    name.Open ∧ ((∀ a ∈ as, Inside hello a) ↔ LineFits c.name p) := by
  have hchain : ∀ a ∈ (recvChain p c.name).log, Inside hello a := by
    rw [recvChain_eq]
    exact foldl_recvChar_inside p.bytes _ (by simp)
  have hfirst : Inside hello (.recved p.totLen) := trivial
  have hlast : Inside hello .pbufFree := trivial
  by_cases hend : ∃ b ∈ p.bytes, IsEol b
  · obtain ⟨v, t, rest, hp, hv, ht⟩ := exists_end_split hend
    have hline : ((v ++ [t]).foldl Name.store c.name).Holds (c.name.line ++ v ++ [t]) := by
      rw [List.append_assoc]
      exact hopen.holds.storeAll
    have hw : ∀ b ∈ c.name.line ++ v, ¬ IsEol b := List.forall_mem_append.mpr ⟨hopen.noEol, hv⟩
    have hlen : (c.name.line ++ v).length = c.name.length + v.length := by
      rw [List.length_append, Name.line, Memory.read_length]
    refine ⟨_, _, telnetRecv_end hello err env c hp hv ht,
      (holds_nil.mpr rfl : Name.Holds _ []).open (by simp), ?_⟩
    have hbehind : (∃ i < maxNameSize, c.name.length + v.length + 2 ≤ i ∧
        ((v ++ [t]).foldl Name.store c.name).bytes i = 0) ↔
        ∃ i < maxNameSize, c.name.length + v.length + 2 ≤ i ∧ c.name.bytes i = 0 := by
      refine exists_congr fun i => and_congr_right fun _ => and_congr_right fun hi => ?_
      rw [storeAll_bytes]
      rw [List.length_append, List.length_singleton]
      omega
    have htake : (p.bytes.takeWhile fun b => ¬ IsEol b) = v := by
      rw [hp]
      exact takeWhile_end hv ht
    have hreply := replyLog_inside hello env hline hw ht
    rw [hlen, hbehind, Name.line] at hreply
    rw [List.forall_mem_append, List.forall_mem_append, List.forall_mem_cons, hreply, LineFits,
      htake]
    constructor
    · rintro ⟨⟨-, hfits⟩, -⟩ -
      exact hfits
    · intro hfits
      exact ⟨⟨⟨hfirst, hchain⟩, hfits hend⟩, by simp [hlast]⟩
  · have hp : ∀ b ∈ p.bytes, ¬ IsEol b := fun b hb hc => hend ⟨b, hb, hc⟩
    refine ⟨_, _, telnetRecv_open hello err env c hp,
      hopen.holds.storeAll.open (List.forall_mem_append.mpr ⟨hopen.noEol, hp⟩), ?_⟩
    rw [List.forall_mem_append, List.forall_mem_cons]
    exact ⟨fun _ hc => absurd hc hend, fun _ => ⟨⟨hfirst, hchain⟩, by simp [hlast]⟩⟩

end Callback

/-! ### Whole runs -/

/-- Where there is a block it holds an unfinished line. -/
structure LineInv (s : TelnetSystem) : Prop where
  registered : Registered s
  line : s.conn.callbackArg = true → s.conn.name.Open

section Runs

variable {app : TelnetApp} {s t : TelnetSystem} {e : TelnetEvent}

theorem lineInv_init (name : Name) : LineInv (telnetInit name) :=
  ⟨⟨fun _ => ⟨rfl, rfl⟩, nofun⟩, nofun⟩

theorem registered_step (h : Registered s) (hstep : telnetStep app s e = some t) :
    Registered t := by
  by_cases he : e = .removed
  · subst he
    obtain ⟨_, rfl⟩ := removed_eq hstep
    exact ⟨nofun, nofun⟩
  · exact (telnetStep_effect h he hstep).registered h

/-- A step adds these uses of the block to the log. -/
def Adds (app : TelnetApp) (s t : TelnetSystem) (fits : Prop) : Prop :=
  ∃ as, t.conn.log = s.conn.log ++ as ∧ ((∀ a ∈ as, Inside app.hello a) ↔ fits)

theorem Adds.inside {fits : Prop} (h : Adds app s t fits) :
    (∀ a ∈ t.conn.log, Inside app.hello a) ↔ (∀ a ∈ s.conn.log, Inside app.hello a) ∧ fits := by
  obtain ⟨as, hlog, has⟩ := h
  rw [hlog, List.forall_mem_append, has]

theorem adds_nil (hlog : t.conn.log = s.conn.log) : Adds app s t True :=
  ⟨[], by rw [hlog, List.append_nil], by simp⟩

theorem recv_adds {p : Option Pbuf} {env : TelnetEnv} (h : LineInv s)
    (hstep : telnetStep app s (.recv p env) = some t) :
    (t.conn.callbackArg = true → t.conn.name.Open) ∧ Adds app s t (Fits s (.recv p env)) := by
  simp only [telnetStep] at hstep
  split_ifs at hstep with hready hrecv
  · obtain rfl := Option.some.inj hstep
    rw [app.recv_eq]
    cases p with
    | none => exact ⟨h.line, [.memFree s.conn.callbackArg, .close env.close], rfl,
        by simp [Inside, Fits]⟩
    | some p =>
      cases harg : s.conn.callbackArg with
      | true =>
        obtain ⟨as, name, hcall, hopen, hinside⟩ :=
          telnetRecv_inside app.hello .ok env s.conn p (h.line harg)
        rw [hcall]
        exact ⟨fun _ => hopen, as, rfl, by simp [hinside, Fits, harg]⟩
      | false =>
        rw [telnetRecv_null]
        refine ⟨fun hblock => absurd (harg.symm.trans hblock) Bool.false_ne_true, _, rfl, ?_⟩
        simp [Inside, Fits, harg]
  · exact absurd (h.registered.active hready.1).1 hrecv

/-- What a step uses is inside the block if and only if the line that it ends fits. -/
theorem step_adds (h : LineInv s) (hstep : telnetStep app s e = some t) :
    (t.conn.callbackArg = true → t.conn.name.Open) ∧ Adds app s t (Fits s e) := by
  cases e with
  | accept calloc =>
    simp only [telnetStep] at hstep
    split_ifs at hstep
    obtain rfl := Option.some.inj hstep
    refine ⟨?_, _, rfl, by split_ifs <;> simp [Inside, Fits]⟩
    rintro rfl
    exact (holds_nil.mpr rfl : Name.Holds _ []).open (by simp)
  | recv p env => exact recv_adds h hstep
  | error =>
    simp only [telnetStep] at hstep
    split_ifs at hstep
    obtain rfl := Option.some.inj hstep
    simp only [errorEvent]
    split_ifs
    · exact ⟨h.line, [.memFree s.conn.callbackArg], rfl, by simp [Inside, Fits]⟩
    · exact ⟨h.line, adds_nil rfl⟩
  | removed =>
    obtain ⟨_, rfl⟩ := removed_eq hstep
    exact ⟨h.line, adds_nil rfl⟩

theorem lineInv_step (s : TelnetSystem) (e : TelnetEvent) (t : TelnetSystem) (h : LineInv s)
    (hstep : telnetStep app s e = some t) : LineInv t :=
  ⟨registered_step h.registered hstep, (step_adds h hstep).1⟩

/-- In every run only the 32 bytes of the block are used if and only if every line that
ends fits; the length of the line is at most 32 in any case. -/
theorem name_bounded_iff (app : TelnetApp) (name : Name) {es : List TelnetEvent}
    {t : TelnetSystem} (hrun : run (telnetStep app) (telnetInit name) es = some t) :
    (t.conn.callbackArg = true → t.conn.name.length ≤ maxNameSize) ∧
    (NameBounded app t ↔ Along (telnetStep app) Fits (telnetInit name) es) := by
  have hline : LineInv t := run_invariant lineInv_step (lineInv_init name) hrun
  have hlength : t.conn.callbackArg = true → t.conn.name.length ≤ maxNameSize :=
    fun harg => (hline.line harg).length
  refine ⟨hlength, ?_⟩
  have hinside : (∀ a ∈ t.conn.log, Inside app.hello a) ↔
      Along (telnetStep app) Fits (telnetInit name) es := by
    obtain ⟨hfits, ht⟩ | ⟨hover, ht⟩ := invariant_or_lost
      (I := fun s => LineInv s ∧ ∀ a ∈ s.conn.log, Inside app.hello a)
      (L := fun s => LineInv s ∧ ¬ ∀ a ∈ s.conn.log, Inside app.hello a)
      (fun s e t h hfits hstep => ⟨lineInv_step s e t h.1 hstep,
        (step_adds h.1 hstep).2.inside.mpr ⟨h.2, hfits⟩⟩)
      (fun s e t h hover hstep => ⟨lineInv_step s e t h.1 hstep,
        fun hall => hover ((step_adds h.1 hstep).2.inside.mp hall).2⟩)
      (fun s e t h hstep => ⟨lineInv_step s e t h.1 hstep,
        fun hall => h.2 ((step_adds h.1 hstep).2.inside.mp hall).1⟩)
      ⟨lineInv_init name, by simp [telnetInit]⟩ hrun
    · exact iff_of_true ht.2 hfits
    · exact iff_of_false ht.2 hover
  exact ⟨fun hbounded => hinside.mp hbounded.inside, fun hfits => ⟨hlength, hinside.mpr hfits⟩⟩

end Runs

/-- One short line. -/
def shortLineRun : List TelnetEvent :=
  [.accept true, .recv (some (.single [79, 107, 13, 10] (by decide))) ⟨.ok, .ok, .ok⟩]

theorem name_bounded_short_line :
    ∃ t, run (telnetStep .helloWorld) (telnetInit ⟨0, fun _ => 0⟩) shortLineRun = some t ∧
      NameBounded .helloWorld t := by
  have hfits : Along (telnetStep .helloWorld) Fits (telnetInit ⟨0, fun _ => 0⟩) shortLineRun := by
    decide +kernel
  exact ⟨_, rfl, (name_bounded_iff .helloWorld ⟨0, fun _ => 0⟩ rfl).2.mpr hfits⟩

/-- An empty line reads the byte in front of the block. -/
theorem empty_line_out_of_bounds :
    ∃ t, run (telnetStep .helloWorld) (telnetInit ⟨0, fun _ => 0⟩)
        [.accept true, .recv (some (.single [10] (by decide))) ⟨.ok, .ok, .ok⟩] = some t ∧
      .byte (-1) ∈ t.conn.log ∧ ¬ NameBounded .helloWorld t :=
  ⟨_, rfl, by decide +kernel, fun h => absurd (h.inside (.byte (-1)) (by decide +kernel)).1
    (by decide)⟩

end EthMange.Telnet
