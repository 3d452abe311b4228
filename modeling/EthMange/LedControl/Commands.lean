import EthMange.LedControl.Apps

/-!
# Commands from the client to the server

The client writes its banner and then one byte for each command; the connection
delivers these bytes cut into segments. The server looks at the first byte of
the first pbuf of a segment and at no other, so a command arrives if its byte
begins a segment.
-/

namespace EthMange.LedControl

/-- A byte of the stream, by what it was written for. -/
inductive StreamByte
  | banner (i : Fin 24)
  | command (led : Led)
  deriving DecidableEq, Repr

def StreamByte.byte : StreamByte → UInt8
  | .banner i => sent.getD i 0
  | .command led => led.byte

/-- The NUL at the end of `Sent`. -/
def bannerNul : StreamByte := .banner 23

/-! ### The client -/

/-- What `tcp_client_connected` writes, if `tcp_write` takes it. -/
def tcpClientConnected (write : Err) (stream : List StreamByte) : List StreamByte :=
  if write = .ok then stream ++ (List.finRange 24).map .banner else stream

/-- `tcp_led_control`. The result of `tcp_write` is not looked at. -/
def tcpLedControl (led : Led) (write : Err) (stream : List StreamByte) : List StreamByte :=
  if write = .ok then stream ++ [.command led] else stream

/-- The stream of a client: each call with what `tcp_write` returns. -/
def clientStream (banner : Err) (calls : List (Led × Err)) : List StreamByte :=
  calls.foldl (fun stream call => tcpLedControl call.1 call.2 stream) (tcpClientConnected banner [])

def called (calls : List (Led × Err)) (led : Led) : ℕ := calls.countP fun call => call.1 = led

/-- The commands that `tcp_write` has refused. -/
def refused (calls : List (Led × Err)) (led : Led) : ℕ :=
  calls.countP fun call => call.1 = led ∧ call.2 ≠ .ok

/-! ### The segments -/

/-- A segment with the piece of the stream it carries. -/
structure Segment where
  p : Pbuf
  piece : List StreamByte
  carries : p.bytes = piece.map StreamByte.byte
  nonempty : piece ≠ []

namespace Segment

/-- The byte of the stream at the start of the first pbuf, if that is not empty. -/
def begins (s : Segment) : Option StreamByte := if s.p.len = 0 then none else s.piece.head?

/-- The bytes of the stream that the server does not look at. -/
def unread (s : Segment) : List StreamByte := if s.p.len = 0 then s.piece else s.piece.tail

/-- The first pbuf is empty, and an old byte in its place is the number of the LED. -/
def Stale (led : Led) (s : Segment) : Prop := s.p.len = 0 ∧ s.p.payload 0 = led.byte

instance (led : Led) (s : Segment) : Decidable (s.Stale led) :=
  inferInstanceAs (Decidable (_ ∧ _))

end Segment

/-- What `tcp_server_recv` does over the segments of a connection. -/
def serverLog (nullData : UInt8) (segs : List Segment) : List LedAction :=
  segs.flatMap fun s => (tcpServerRecv nullData (some s.p)).2

/-- Each LED is toggled as often as it was commanded, and not by the banner. -/
structure CommandsFaithful (nullData : UInt8) (calls : List (Led × Err)) (segs : List Segment) :
    Prop where
  toggled : ∀ led, (serverLog nullData segs).count (.toggle led) = called calls led
  banner : ∀ s ∈ segs, ∀ i, s.begins = some (.banner i) →
    ∀ led, .toggle led ∉ (tcpServerRecv nullData (some s.p)).2

def staleCount (segs : List Segment) (led : Led) : ℕ := segs.countP fun s => s.Stale led

def heads (segs : List Segment) : List StreamByte := segs.flatMap fun s => s.begins.toList

/-- The commands that have no effect: refused, or not at the start of a segment. -/
def lost (calls : List (Led × Err)) (segs : List Segment) (led : Led) : ℕ :=
  refused calls led + (segs.flatMap Segment.unread).count (.command led)

/-- The NUL of the banner begins no segment, and old bytes make up exactly for the
commands that are lost. -/
structure CommandsArrive (calls : List (Led × Err)) (segs : List Segment) : Prop where
  banner : ∀ s ∈ segs, s.begins ≠ some bannerNul
  lost : ∀ led, lost calls segs led = staleCount segs led

/-! ### Counting -/

section Client

variable {calls : List (Led × Err)}

theorem clientStream_append (calls : List (Led × Err)) (stream : List StreamByte) :
    calls.foldl (fun stream call => tcpLedControl call.1 call.2 stream) stream =
      stream ++ calls.foldl (fun stream call => tcpLedControl call.1 call.2 stream) [] := by
  induction calls generalizing stream with
  | nil => simp
  | cons call calls ih =>
    rw [List.foldl_cons, List.foldl_cons, ih, ih (tcpLedControl call.1 call.2 []), tcpLedControl,
      tcpLedControl]
    split_ifs <;> simp

theorem count_banner (banner : Err) (led : Led) :
    (tcpClientConnected banner []).count (.command led) = 0 := by
  refine List.count_eq_zero.mpr fun hmem => ?_
  rw [tcpClientConnected] at hmem
  split_ifs at hmem <;> simp at hmem

/-- Every command is in the stream or has been refused. -/
theorem count_clientStream (banner : Err) (calls : List (Led × Err)) (led : Led) :
    (clientStream banner calls).count (.command led) + refused calls led = called calls led := by
  rw [clientStream, clientStream_append, List.count_append, count_banner, Nat.zero_add]
  induction calls with
  | nil => rfl
  | cons call calls ih =>
    rw [List.foldl_cons, clientStream_append, List.count_append, called, refused, List.countP_cons,
      List.countP_cons, ← called, ← refused, ← ih, tcpLedControl]
    by_cases hled : call.1 = led
    · by_cases hok : call.2 = .ok
      · simp [hled, hok]
        omega
      · simp [hled, hok]
        omega
    · by_cases hok : call.2 = .ok
      · simp [hled, hok]
      · simp [hled, hok]

end Client

namespace Segment

variable {s : Segment}

/-- The first byte is the one the server looks at; it does not look at the others. -/
theorem piece_eq (s : Segment) : s.piece = s.begins.toList ++ s.unread := by
  rw [begins, unread]
  split_ifs
  · rfl
  · cases hpiece : s.piece with
    | nil => exact absurd hpiece s.nonempty
    | cons b bs => rfl

theorem payload_of_begins {b : StreamByte} (h : s.begins = some b) : s.p.payload 0 = b.byte := by
  rw [begins] at h
  split_ifs at h with hlen
  obtain ⟨rest, hpiece⟩ := List.head?_eq_some_iff.mp h
  have hfirst := congrArg List.head? s.carries
  have hread : s.p.bytes.head? = some (s.p.payload 0) := by
    obtain ⟨rest, hbytes⟩ := s.p.bytes_eq_read (Nat.one_le_iff_ne_zero.mpr hlen)
    rw [hbytes]
    rfl
  rw [hread, hpiece] at hfirst
  exact Option.some.inj hfirst

end Segment

/-- The only byte of the banner that is the number of an LED is its NUL. -/
theorem byte_banner_eq_iff (i : Fin 24) (led : Led) :
    (StreamByte.banner i).byte = led.byte ↔ i = 23 ∧ led = .led1 := by
  revert i
  cases led <;> decide

theorem byte_command_eq_iff (led other : Led) :
    (StreamByte.command led).byte = other.byte ↔ led = other := by
  cases led <;> cases other <;> decide

section Server

variable {nullData : UInt8} {calls : List (Led × Err)} {segs : List Segment}

theorem count_tcpServerRecv (p : Pbuf) (led : Led) :
    (tcpServerRecv nullData (some p)).2.count (.toggle led) =
      if p.payload 0 = led.byte then 1 else 0 := by
  rw [tcpServerRecv, ← count_toggleLed]
  simp [List.count_append]

/-- One segment toggles an LED for a command at its start, for the NUL of the
banner at its start, or for an old byte. -/
theorem count_segment (s : Segment) (led : Led) :
    (tcpServerRecv nullData (some s.p)).2.count (.toggle led) =
      s.begins.toList.count (.command led) +
        (if led = .led1 then s.begins.toList.count bannerNul else 0) +
        if s.Stale led then 1 else 0 := by
  rw [count_tcpServerRecv]
  by_cases hlen : s.p.len = 0
  · simp [Segment.begins, Segment.Stale, hlen]
  · have hstale : ¬ s.Stale led := fun h => hlen h.1
    rw [if_neg hstale]
    cases hb : s.begins with
    | none =>
      rw [Segment.begins, if_neg hlen, List.head?_eq_none_iff] at hb
      exact absurd hb s.nonempty
    | some b =>
      rw [Segment.payload_of_begins hb]
      cases b with
      | banner i =>
        simp only [byte_banner_eq_iff, bannerNul]
        by_cases hi : i = 23 <;> by_cases hled : led = .led1 <;> simp [hi, hled]
      | command other =>
        simp only [byte_command_eq_iff, bannerNul]
        by_cases hother : other = led <;> simp [hother]

theorem heads_cons (s : Segment) (segs : List Segment) :
    heads (s :: segs) = s.begins.toList ++ heads segs := rfl

theorem count_serverLog (segs : List Segment) (led : Led) :
    (serverLog nullData segs).count (.toggle led) = (heads segs).count (.command led) +
      (if led = .led1 then (heads segs).count bannerNul else 0) + staleCount segs led := by
  induction segs with
  | nil => cases led <;> rfl
  | cons s segs ih =>
    have hone : (tcpServerRecv nullData (some s.p)).2.count (.toggle led) = _ := count_segment s led
    rw [serverLog, List.flatMap_cons, List.count_append, ← serverLog, ih, hone, heads_cons,
      List.count_append, List.count_append, staleCount, staleCount, List.countP_cons]
    simp only [decide_eq_true_eq]
    split_ifs <;> omega

/-- A command of the stream begins a segment or is not looked at. -/
theorem count_pieces (segs : List Segment) (led : Led) :
    (segs.flatMap Segment.piece).count (.command led) =
      (heads segs).count (.command led) + (segs.flatMap Segment.unread).count (.command led) := by
  induction segs with
  | nil => rfl
  | cons s segs ih =>
    rw [List.flatMap_cons, List.count_append, ih, Segment.piece_eq, List.count_append, heads_cons,
      List.count_append, List.flatMap_cons, List.count_append]
    omega

theorem count_bannerNul (h : ∀ s ∈ segs, s.begins ≠ some bannerNul) :
    (heads segs).count bannerNul = 0 := by
  refine List.count_eq_zero.mpr fun hmem => ?_
  obtain ⟨s, hs, hb⟩ := List.mem_flatMap.mp hmem
  exact h s hs (Option.mem_toList.mp hb)

end Server

/-- The commands reach the server if and only if none is lost that old bytes do
not make up for, and the NUL of the banner is not taken for one. -/
theorem commands_faithful_iff (nullData : UInt8) (banner : Err) (calls : List (Led × Err))
    (segs : List Segment) (hstream : segs.flatMap Segment.piece = clientStream banner calls) :
    CommandsFaithful nullData calls segs ↔ CommandsArrive calls segs := by
  have hcount (hnul : (heads segs).count bannerNul = 0) (led : Led) :
      (serverLog nullData segs).count (.toggle led) = called calls led ↔
        lost calls segs led = staleCount segs led := by
    have hserver : (serverLog nullData segs).count (.toggle led) = _ := count_serverLog segs led
    have hpieces := count_pieces segs led
    have hclient := count_clientStream banner calls led
    rw [hnul, ite_self] at hserver
    rw [hstream] at hpieces
    rw [lost]
    omega
  constructor
  · intro h
    have hbanner : ∀ s ∈ segs, s.begins ≠ some bannerNul := by
      intro s hs hb
      have hmem : .toggle .led1 ∈ (tcpServerRecv nullData (some s.p)).2 := by
        rw [← List.count_pos_iff, count_tcpServerRecv, Segment.payload_of_begins hb]
        decide
      exact h.banner s hs 23 hb .led1 hmem
    exact ⟨hbanner, fun led => (hcount (count_bannerNul hbanner) led).mp (h.toggled led)⟩
  · intro h
    refine ⟨fun led => (hcount (count_bannerNul h.banner) led).mpr (h.lost led), ?_⟩
    intro s hs i hb led hmem
    rw [← List.count_pos_iff, count_tcpServerRecv, Segment.payload_of_begins hb] at hmem
    split_ifs at hmem with hbyte
    · obtain ⟨rfl, _⟩ := (byte_banner_eq_iff i led).mp hbyte
      exact h.banner s hs hb
    · exact absurd hmem (lt_irrefl 0)

/-- Where no segment begins with an empty pbuf, every command must be accepted by
`tcp_write` and begin a segment of its own. -/
theorem commandsArrive_iff_of_data {calls : List (Led × Err)} {segs : List Segment}
    (hdata : ∀ s ∈ segs, s.p.len ≠ 0) : CommandsArrive calls segs ↔
      (∀ s ∈ segs, s.begins ≠ some bannerNul) ∧ (∀ call ∈ calls, call.2 = .ok) ∧
        ∀ s ∈ segs, ∀ led, .command led ∉ s.piece.tail := by
  have hstale (led : Led) : staleCount segs led = 0 :=
    List.countP_eq_zero.mpr fun s hs => by simp [Segment.Stale, hdata s hs]
  have hrefused : (∀ led, refused calls led = 0) ↔ ∀ call ∈ calls, call.2 = .ok := by
    simp only [refused, List.countP_eq_zero, decide_eq_true_eq, not_and, not_not]
    exact ⟨fun h call hcall => h call.1 call hcall rfl, fun h _ call hcall _ => h call hcall⟩
  have hunread : (∀ led, (segs.flatMap Segment.unread).count (.command led) = 0) ↔
      ∀ s ∈ segs, ∀ led, .command led ∉ s.piece.tail := by
    simp only [List.count_eq_zero, List.mem_flatMap, not_exists, not_and]
    constructor
    · intro h s hs led
      have hs' := h led s hs
      rwa [Segment.unread, if_neg (hdata s hs)] at hs'
    · intro h led s hs
      rw [Segment.unread, if_neg (hdata s hs)]
      exact h s hs led
  rw [← hrefused, ← hunread]
  constructor
  · rintro ⟨hbanner, hlost⟩
    have hzero (led : Led) := (hlost led).trans (hstale led)
    simp only [lost, Nat.add_eq_zero_iff] at hzero
    exact ⟨hbanner, fun led => (hzero led).1, fun led => (hzero led).2⟩
  · rintro ⟨hbanner, hnone, hfirst⟩
    exact ⟨hbanner, fun led => by rw [lost, hnone, hfirst, hstale]⟩

/-- A segment of one pbuf. -/
def Segment.single (piece : List StreamByte) (h : piece ≠ []) (hlen : piece.length < 2 ^ 16) :
    Segment where
  p := .single (piece.map StreamByte.byte) (by simpa using hlen)
  piece := piece
  carries := by
    rw [Pbuf.bytes, Pbuf.chain, Pbuf.single, List.flatMap_singleton]
    exact Memory.read_ofBytes _
  nonempty := h

/-- The banner in a segment of its own. -/
def bannerSegment : Segment := .single ((List.finRange 24).map .banner) (by decide) (by decide)

theorem commands_faithful_two_segments :
    CommandsFaithful 0 [(.led1, .ok)] [bannerSegment, .single [.command .led1] (by decide)
      (by decide)] :=
  (commands_faithful_iff 0 .ok [(.led1, .ok)] _ (by decide)).mpr
    ⟨by decide, fun led => by cases led <;> decide⟩

/-- Two commands in one segment: the second LED is not toggled. -/
theorem coalesced_command_lost :
    bannerSegment.piece ++ [.command .led1, .command .led2] =
        clientStream .ok [(.led1, .ok), (.led2, .ok)] ∧
      (serverLog 0 [bannerSegment, .single [.command .led1, .command .led2] (by decide)
        (by decide)]).count (.toggle .led2) = 0 ∧
      ¬ CommandsFaithful 0 [(.led1, .ok), (.led2, .ok)]
        [bannerSegment, .single [.command .led1, .command .led2] (by decide) (by decide)] := by
  refine ⟨by decide, by decide, fun h => ?_⟩
  exact absurd (h.toggled .led2) (by decide)

end EthMange.LedControl
