import EthMange.Lib.Ownership
import EthMange.Httpd.Pages

/-!
# The pbuf of a request

`http_recv` owns the pbuf it is called with. Its accesses to the payload are written
down between its other actions; without them the trace is what the call adds to the
log.
-/

namespace EthMange.Httpd

open Ownership

inductive RecvEvent
  -- a byte of the payload is read or written
  | payload (i : ℕ)
  | act (a : HttpAction)
  deriving DecidableEq

def payloadEvents (is : List ℕ) : List RecvEvent := is.map .payload

def actEvents (as : List HttpAction) : List RecvEvent := as.map .act

/-- The trace without the accesses to the payload. -/
def actions (es : List RecvEvent) : List HttpAction :=
  es.filterMap fun
    | .payload _ => none
    | .act a => some a

/-! ### The trace of a call -/

/-- `strncmp(data, s, strlen(s))` -/
def compareEvents (data : Memory) (s : String) : List RecvEvent :=
  payloadEvents (strcmpReads data (textBytes s) 0)

/-- The loop over the query. -/
def scanEvents (data : Memory) : (fuel i : ℕ) → Option (List RecvEvent)
  | 0, _ => none
  | fuel + 1, i =>
    if data i = 0x20 then some (payloadEvents [i])
    else (scanEvents data fuel (i + scanStep data i)).map
      ((payloadEvents (i :: turnReads data i) ++ actEvents (scanLeds data i)) ++ ·)

/-- The second loop over the name. -/
def copyReads (data : Memory) : (n i : ℕ) → List ℕ
  | 0, _ => []
  | n + 1, i => (4 + i) :: if data (4 + i) ≠ 0 then copyReads data n (i + 1) else []

def pageEvents (file : Option (ℕ × UInt32)) (env : HttpEnv) (c : HttpConn) : List RecvEvent :=
  actEvents (sendPage file env { c with log := [] }).log

/-- The trace of `httpRequest`. -/
def requestEvents (fs : FsImage) (p : Pbuf) (env : HttpEnv) (c : HttpConn) :
    Option (List RecvEvent) :=
  let data := p.payload
  let adc := compareEvents data "GET /STM32F107ADC"
  let query := adc ++ compareEvents data "GET /method=get"
  let get := query ++ compareEvents data "GET "
  if startsWith data "GET /STM32F107ADC" then
    some (adc ++ .act .pbufFree :: (actEvents (adcDigits env.adc) ++
      pageEvents (fsOpen fs.root (literal "/STM32F107ADC.html")) env c))
  else if startsWith data "GET /method=get" then
    (scanEvents data (2 ^ 32) 15).map fun es =>
      query ++ actEvents ledsOff ++ es ++
        .act .pbufFree :: pageEvents (fsOpen fs.root (literal "/STM32F107LED.html")) env c
  else if startsWith data "GET " then
    let fname := copyName (terminate data) 40 0 fun _ => 0
    let file :=
      (fsOpen fs.root fname).or (fsOpen fs.root (literal "/STM32F107.html"))
    some (get ++ payloadEvents (List.range' 4 40) ++
      payloadEvents (copyReads (terminate data) 40 0) ++ .act .pbufFree :: pageEvents file env c)
  else some (get ++ actEvents (closeConn true env { c with log := [] }).log)

/-- The trace of `httpRecv` for a connection with its block. -/
def recvEvents (fs : FsImage) (p : Pbuf) (env : HttpEnv) (c : HttpConn) :
    Option (List RecvEvent) :=
  if c.hs.file = 0 then
    (requestEvents fs p env c).map (actEvents [.recved p.totLen, .access] ++ ·)
  else some (actEvents [.recved p.totLen, .access] ++ [.act .pbufFree])

section Trace

variable {fs : FsImage} {env : HttpEnv} {c : HttpConn} {p : Pbuf} {es es' : List RecvEvent}

theorem actions_append : actions (es ++ es') = actions es ++ actions es' := List.filterMap_append

@[simp] theorem actions_payloadEvents (is : List ℕ) : actions (payloadEvents is) = [] := by
  rw [actions, payloadEvents, List.filterMap_map, List.filterMap_eq_nil_iff]
  intro i _
  rfl

@[simp] theorem actions_actEvents (as : List HttpAction) : actions (actEvents as) = as := by
  rw [actions, actEvents, List.filterMap_map]
  exact List.filterMap_some

@[simp] theorem actions_compareEvents (data : Memory) (s : String) :
    actions (compareEvents data s) = [] :=
  actions_payloadEvents _

@[simp] theorem actions_nil : actions [] = [] := rfl

@[simp] theorem actions_cons_act (a : HttpAction) : actions (.act a :: es) = a :: actions es := rfl

theorem actions_scanEvents (data : Memory) (fuel i : ℕ) :
    (scanEvents data fuel i).map actions = ledScan data fuel i := by
  induction fuel generalizing i with
  | zero => rfl
  | succ fuel ih =>
    rw [scanEvents, ledScan_succ, ← ih]
    split_ifs with hspace
    · rw [Option.map_some, actions_payloadEvents]
    · rw [Option.map_map, Option.map_map]
      congr 1
      funext es
      simp [actions_append]

/-- What a page adds to the log does not depend on the connection. -/
theorem sendPage_log_append (file : Option (ℕ × UInt32)) (env : HttpEnv) (c : HttpConn)
    (as : List HttpAction) :
    (sendPage file env (c.act as)).log =
      c.log ++ as ++ (sendPage file env { c with log := [] }).log := by
  cases file with
  | some f => rw [sendPage_log, sendPage_log, act_log, List.nil_append]
  | none =>
    have hsome (d : HttpConn) : sendPage none env d = sendPage (some (0, 0)) env d := rfl
    rw [hsome, hsome, sendPage_log, sendPage_log, act_log, List.nil_append]

/-- Without the accesses to the payload the trace is what a call adds to the log. -/
theorem httpRecv_log (fs : FsImage) (p : Pbuf) (env : HttpEnv) (c : HttpConn) :
    (httpRecv fs true (some p) .ok env c).map HttpConn.log =
      (recvEvents fs p env c).map fun es => c.log ++ actions es := by
  rw [recvEvents]
  by_cases hfile : c.hs.file = 0
  · rw [httpRecv_of_no_file hfile, if_pos hfile, httpRequest, requestEvents]
    simp only [act_act]
    split_ifs with hadc hled hget
    · simp [pageEvents, sendPage_log_append, actions_append]
    · rw [← actions_scanEvents]
      simp only [Option.map_map]
      congr 1
      funext es
      simp [pageEvents, ledsOff, sendPage_log_append, actions_append]
    · rw [requestPayload_of_name hadc hled hget]
      simp [pageEvents, sendPage_log_append, actions_append]
    · simp [closeConn_log, actions_append]
  · rw [if_neg hfile]
    simp [httpRecv, hfile, actions_append]

end Trace

/-! ### The release of the pbuf -/

def IsPayload : RecvEvent → Prop
  | .payload _ => True
  | .act _ => False

/-- The pbuf is freed once and its payload is not touched afterwards. -/
structure ReleasedOnce (es : List RecvEvent) : Prop where
  once : es.count (.act .pbufFree) = 1
  unused : NoUseAfter (· = .act .pbufFree) IsPayload es

/-- The call returns and releases the pbuf as it should. -/
def PbufConsumed (fs : FsImage) (env : HttpEnv) (c : HttpConn) (p : Pbuf) : Prop :=
  ∃ c' es, httpRecv fs true (some p) .ok env c = some c' ∧ recvEvents fs p env c = some es ∧
    c'.log = c.log ++ actions es ∧ ReleasedOnce es

section Release

variable {fs : FsImage} {env : HttpEnv} {c : HttpConn} {p : Pbuf} {es es' : List RecvEvent}
  {as : List HttpAction}

theorem actEvents_append (as bs : List HttpAction) :
    actEvents (as ++ bs) = actEvents as ++ actEvents bs :=
  List.map_append

theorem not_mem_payloadEvents (is : List ℕ) : .act .pbufFree ∉ payloadEvents is := by
  simp [payloadEvents]

theorem not_mem_actEvents (h : .pbufFree ∉ as) : .act .pbufFree ∉ actEvents as := by
  simpa [actEvents] using h

theorem releasedOnce_append (hes : .act .pbufFree ∉ es) (has : .pbufFree ∉ as) :
    ReleasedOnce (es ++ .act .pbufFree :: actEvents as) := by
  have hrest := not_mem_actEvents has
  constructor
  · rw [List.count_append, List.count_cons_self, List.count_eq_zero.mpr hes,
      List.count_eq_zero.mpr hrest]
  · have hbefore : ∀ e ∈ es, e ≠ .act .pbufFree := fun e he => ne_of_mem_of_not_mem he hes
    have hbehind : ∀ e ∈ actEvents as, e ≠ .act .pbufFree :=
      fun e he => ne_of_mem_of_not_mem he hrest
    rw [noUseAfter_append_of_unreleased hbefore]
    refine List.Pairwise.cons (fun e he _ => ?_) (noUseAfter_of_unreleased hbehind)
    obtain ⟨a, -, rfl⟩ := List.mem_map.mp he
    exact id

theorem not_mem_sendPage (file : Option (ℕ × UInt32)) (env : HttpEnv) (c : HttpConn) :
    .pbufFree ∉ (sendPage file env { c with log := [] }).log := by
  have hsome : sendPage file env { c with log := [] } =
      sendPage (some (file.getD (0, 0))) env { c with log := [] } := by
    cases file <;> rfl
  rw [hsome, sendPage_log]
  split_ifs <;> simp

theorem not_mem_scanEvents {data : Memory} {fuel i : ℕ} (h : scanEvents data fuel i = some es) :
    .act .pbufFree ∉ es := by
  induction fuel generalizing i es with
  | zero => cases h
  | succ fuel ih =>
    rw [scanEvents] at h
    split_ifs at h with hspace
    · rw [Option.some.injEq] at h
      exact h ▸ not_mem_payloadEvents _
    · rw [Option.map_eq_some_iff] at h
      obtain ⟨rest, hrest, rfl⟩ := h
      have hleds : .pbufFree ∉ scanLeds data i := by
        rw [scanLeds, ledOn]
        split_ifs <;> simp
      simp only [List.mem_append, not_or]
      exact ⟨⟨not_mem_payloadEvents _, not_mem_actEvents hleds⟩, ih hrest⟩

/-- The trace of a request that is answered releases the pbuf once. -/
theorem releasedOnce_of_get (hfile : c.hs.file = 0) (hget : startsWith p.payload "GET " = true)
    (h : recvEvents fs p env c = some es) : ReleasedOnce es := by
  rw [recvEvents, if_pos hfile, Option.map_eq_some_iff] at h
  obtain ⟨es, h, rfl⟩ := h
  have htaken : RecvEvent.act .pbufFree ∉ actEvents [.recved p.totLen, .access] :=
    not_mem_actEvents (by simp)
  have hcompare (s : String) : RecvEvent.act .pbufFree ∉ compareEvents p.payload s :=
    not_mem_payloadEvents _
  rw [requestEvents] at h
  simp only at h
  split_ifs at h with hadc hled
  · rw [Option.some.injEq] at h
    rw [← h, ← List.append_assoc, pageEvents, ← actEvents_append]
    refine releasedOnce_append ?_ ?_
    · simp [htaken, hcompare]
    · simp [adcDigits, not_mem_sendPage]
  · rw [Option.map_eq_some_iff] at h
    obtain ⟨scan, hscan, rfl⟩ := h
    have hoff : RecvEvent.act .pbufFree ∉ actEvents ledsOff :=
      not_mem_actEvents (by simp [ledsOff])
    rw [← List.append_assoc]
    refine releasedOnce_append ?_ (not_mem_sendPage _ _ _)
    simp [htaken, hcompare, hoff, not_mem_scanEvents hscan]
  · rw [Option.some.injEq] at h
    rw [← h, ← List.append_assoc]
    refine releasedOnce_append ?_ (not_mem_sendPage _ _ _)
    simp [htaken, hcompare, not_mem_payloadEvents]

/-- Before a page is selected a pbuf is freed by what answers a request only. -/
theorem not_consumed_of_no_get (hfile : c.hs.file = 0)
    (hget : startsWith p.payload "GET " = false) : ¬ PbufConsumed fs env c p := by
  rintro ⟨c', es, -, hes, -, hreleased⟩
  obtain ⟨hadc, hled⟩ := not_page_of_not_get hget
  rw [recvEvents, if_pos hfile, requestEvents] at hes
  simp only [hadc, hled, hget, Bool.false_eq_true, if_false, Option.map_some,
    Option.some.injEq] at hes
  have hkept : RecvEvent.act .pbufFree ∉ es := by
    rw [← hes, closeConn_log]
    simp [actEvents, compareEvents, not_mem_payloadEvents]
  have hzero := List.count_eq_zero.mpr hkept
  have hone := hreleased.once
  omega

theorem consumed_of_recv {c' : HttpConn} (hrecv : httpRecv fs true (some p) .ok env c = some c')
    (h : ∀ es, recvEvents fs p env c = some es → ReleasedOnce es) : PbufConsumed fs env c p := by
  have hlog := httpRecv_log fs p env c
  rw [hrecv, Option.map_some] at hlog
  obtain ⟨es, hes, hactions⟩ := Option.map_eq_some_iff.mp hlog.symm
  exact ⟨c', es, hrecv, hes, hactions.symm, h es hes⟩

/-- Once a page is selected a pbuf is freed unread. -/
theorem consumed_of_file (hfile : c.hs.file ≠ 0) : PbufConsumed fs env c p := by
  have hrecv : httpRecv fs true (some p) .ok env c =
      some (c.act [.recved p.totLen, .access, .pbufFree]) := by
    simp [httpRecv, hfile]
  apply consumed_of_recv hrecv
  intro es hes
  rw [recvEvents, if_neg hfile, Option.some.injEq] at hes
  rw [← hes]
  exact releasedOnce_append (not_mem_actEvents (by simp)) List.not_mem_nil

/-- A request whose scan, if it has one, comes to an end is answered. -/
theorem consumed_of_get (hfile : c.hs.file = 0) (hget : startsWith p.payload "GET " = true)
    (hscan : startsWith p.payload "GET /method=get" = true →
      (ledScan p.payload (2 ^ 32) 15).isSome = true) : PbufConsumed fs env c p := by
  obtain ⟨c', hrecv⟩ : ∃ c', httpRecv fs true (some p) .ok env c = some c' := by
    cases hadc : startsWith p.payload "GET /STM32F107ADC" with
    | true => exact ⟨_, httpRecv_adc fs env hfile hadc⟩
    | false =>
      cases hled : startsWith p.payload "GET /method=get" with
      | true =>
        obtain ⟨leds, hleds⟩ := Option.isSome_iff_exists.mp (hscan hled)
        obtain ⟨f, -, hrecv⟩ := httpRecv_query fs env hfile hled hleds
        exact ⟨_, hrecv⟩
      | false => exact ⟨_, httpRecv_get fs env hfile hadc hled hget⟩
  exact consumed_of_recv hrecv fun es hes => releasedOnce_of_get hfile hget hes

end Release

/-- Whatever lies behind the received bytes the pbuf is freed once and not touched
afterwards, if and only if a page was selected before or the received bytes begin a
request that is answered: they begin with "GET ", and differ from a query or hold the
space at which its scan ends. -/
theorem pbuf_consumed_iff (fs : FsImage) (env : HttpEnv) (c : HttpConn) (p : Pbuf) :
    (∀ tail, PbufConsumed fs env c (withTail p tail)) ↔
      c.hs.file ≠ 0 ∨ (4 ≤ p.len ∧ startsWith p.payload "GET " = true ∧
        ((∀ a < min p.len 15, p.payload a = literal "GET /method=get" a) →
          ∃ m, 15 ≤ m ∧ m < p.len ∧ EndsAt p.payload 15 m)) := by
  constructor
  · intro h
    by_cases hfile : c.hs.file = 0
    · right
      have hget (tail : Memory) : startsWith (withTail p tail).payload "GET " = true := by
        by_contra hno
        exact not_consumed_of_no_get hfile (Bool.eq_false_iff.mpr hno) (h tail)
      have hbegun : 4 ≤ p.len := length_le_of_zeros (s := "GET ") (by decide) (hget _)
      refine ⟨hbegun, (startsWith_withTail (s := "GET ") (fun _ => 0) hbegun).symm.trans
        (hget _), fun hquery => ?_⟩
      by_contra hno
      -- what is missing of the query lies behind it, and no space
      have hled : startsWith (withTail p (literal "GET /method=get")).payload "GET /method=get" =
          true := startsWith_completed hquery
      have hnone : httpRecv fs true (some (withTail p (literal "GET /method=get"))) .ok env c =
          none := by
        refine not_returned_of_query hfile hled (fun m hm hlow hends => hno ⟨m, hlow, hm, hends⟩)
          fun a ha => ?_
        rw [literal_of_le ha]
        decide
      obtain ⟨c', es, hrecv, -⟩ := h (literal "GET /method=get")
      rw [hnone] at hrecv
      cases hrecv
    · exact .inl hfile
  · rintro (hfile | ⟨hbegun, hget, hquery⟩) tail
    · exact consumed_of_file hfile
    · by_cases hfile : c.hs.file = 0
      · refine consumed_of_get hfile ((startsWith_withTail (s := "GET ") tail hbegun).trans hget)
          fun hled => (scan_ends_iff p).mpr (hquery fun a ha => ?_) tail
        rw [← startsWith_iff.mp hled a (lt_min_iff.mp ha).2,
          withTail_of_lt tail (lt_min_iff.mp ha).1]
      · exact consumed_of_file hfile

def postRequest : Pbuf := .single (textBytes "POST / HTTP/1.1\r\n\r\n") (by decide)

/-- A request of another method closes the connection and keeps its pbuf. -/
theorem post_keeps_pbuf :
    (httpRecv sampleFs true (some postRequest) .ok (idleEnv 1460) idleConn).map HttpConn.log =
        some [.recved 19, .access, .free, .close .ok] ∧
      ¬ PbufConsumed sampleFs (idleEnv 1460) idleConn postRequest :=
  ⟨by decide +kernel, not_consumed_of_no_get rfl (by decide)⟩

end EthMange.Httpd
