import EthMange.Httpd.Connection

/-!
# What lies behind a request

`http_recv` compares, scans and terminates what it finds at `p->payload` without
looking at `p->len`. Whether the bytes behind the payload, which earlier packets
have left there, matter or are overwritten depends on how far the received bytes
decide the request.
-/

namespace EthMange.Httpd

/-- The same pbuf with other bytes behind its payload. -/
def withTail (p : Pbuf) (tail : Memory) : Pbuf :=
  { p with
    head := { p.head with payload := fun a => if a < p.len then p.payload a else tail a }
    tot_lt := p.tot_lt }

/-- A page is selected or an LED is set. -/
def HttpAction.isChoice : HttpAction → Bool
  | .select _ _ | .led _ _ => true
  | _ => false

/-- The page and the LEDs that a call has chosen, or that it does not return. -/
def outcome (r : Option HttpConn) : Option (List HttpAction) :=
  r.map fun c => c.log.filter HttpAction.isChoice

/-- The bytes behind the payload influence nothing and are not overwritten. -/
structure Noninterfering (fs : FsImage) (env : HttpEnv) (c : HttpConn) (p : Pbuf) : Prop where
  same : ∀ tail tail', outcome (httpRecv fs true (some (withTail p tail)) .ok env c) =
    outcome (httpRecv fs true (some (withTail p tail')) .ok env c)
  inside : ∀ tail a, p.len ≤ a →
    requestPayload (withTail p tail).payload a = (withTail p tail).payload a

/-! ### The scan of a query -/

/-- How far one turn of the scan goes. -/
def scanStep (data : Memory) (i : ℕ) : ℕ :=
  if data (i + 1) = 0x6C then
    if data (i + 2) = 0x65 then
      if data (i + 3) = 0x64 then 5 else 3
    else 2
  else 1

/-- The LEDs of one turn of the scan. -/
def scanLeds (data : Memory) (i : ℕ) : List HttpAction :=
  if scanStep data i = 5 then ledOn (data (i + 5)) else []

/-- The indexes that one turn of the loop reads, behind the space check. -/
def turnReads (data : Memory) (i : ℕ) : List ℕ :=
  if data (i + 1) = 0x6C then
    if data (i + 2) = 0x65 then
      if data (i + 3) = 0x64 then [i + 1, i + 2, i + 3, i + 5] else [i + 1, i + 2, i + 3]
    else [i + 1, i + 2]
  else [i + 1]

/-- The scan from index `i` comes to a space among the first `len` bytes. -/
def queryEnds (data : Memory) (len : ℕ) : (fuel i : ℕ) → Bool
  | 0, _ => false
  | fuel + 1, i =>
    if len ≤ i then false
    else if data i = 0x20 then true
    else queryEnds data len fuel (i + scanStep data i)

/-- The received bytes decide the request: they are none, or the request for the
ADC page is complete, or the query has its space, or the name is followed by all
bytes that are looked at. -/
def DecidedWithin (data : Memory) (len : ℕ) : Prop :=
  (∃ i < min len 4, data i ≠ literal "GET " i) ∨
    (17 ≤ len ∧ startsWith data "GET /STM32F107ADC" = true) ∨
    (15 ≤ len ∧ startsWith data "GET /method=get" = true ∧ queryEnds data len len 15 = true) ∨
    (44 ≤ len ∧ startsWith data "GET /method=get" = false)

instance (data : Memory) (len : ℕ) : Decidable (DecidedWithin data len) :=
  inferInstanceAs (Decidable (_ ∨ _ ∨ _ ∨ _))

section Scan

variable {data data' : Memory} {len fuel i : ℕ}

theorem scanStep_pos (data : Memory) (i : ℕ) : 0 < scanStep data i := by
  rw [scanStep]
  split_ifs <;> decide

theorem ledScan_succ (data : Memory) (fuel i : ℕ) :
    ledScan data (fuel + 1) i =
      if data i = 0x20 then some []
      else (ledScan data fuel (i + scanStep data i)).map (scanLeds data i ++ ·) := by
  have hnil : (fun leds : List HttpAction => [] ++ leds) = id := rfl
  rw [ledScan, scanLeds, scanStep]
  split_ifs <;> simp_all

theorem turnReads_le (data : Memory) (i : ℕ) : ∀ a ∈ turnReads data i, a ≤ i + scanStep data i := by
  rw [turnReads, scanStep]
  split_ifs <;> simp

/-- A turn reads nothing but what decides it. -/
theorem turn_congr (h : ∀ a ∈ turnReads data i, data a = data' a) :
    scanStep data' i = scanStep data i ∧ scanLeds data' i = scanLeds data i := by
  rw [scanLeds, scanLeds, scanStep, scanStep]
  rw [turnReads] at h
  split_ifs at h with hl he hd <;> simp_all

/-- A turn that ends among the first `len` bytes looks at no other bytes. -/
theorem scan_congr (h : ∀ a < len, data a = data' a) (hi : i + scanStep data i < len) :
    scanStep data' i = scanStep data i ∧ scanLeds data' i = scanLeds data i :=
  turn_congr fun a ha => h a ((turnReads_le data i a ha).trans_lt hi)

theorem lt_of_queryEnds (h : queryEnds data len fuel i = true) : i < len := by
  cases fuel with
  | zero => simp [queryEnds] at h
  | succ fuel =>
    rw [queryEnds] at h
    split_ifs at h with hle <;> omega

theorem queryEnds_succ (h : queryEnds data len (fuel + 1) i = true) :
    data i = 0x20 ∨ data i ≠ 0x20 ∧ i + scanStep data i < len ∧
      queryEnds data len fuel (i + scanStep data i) = true := by
  rw [queryEnds] at h
  split_ifs at h with hle hspace
  · exact .inl hspace
  · exact .inr ⟨hspace, lt_of_queryEnds h, h⟩

theorem queryEnds_congr (hsame : ∀ a < len, data a = data' a)
    (h : queryEnds data len fuel i = true) : queryEnds data' len fuel i = true := by
  induction fuel generalizing i with
  | zero => simp [queryEnds] at h
  | succ fuel ih =>
    have hi := lt_of_queryEnds h
    rw [queryEnds, if_neg (not_le.mpr hi), ← hsame i hi]
    obtain hspace | ⟨hspace, hnext, hrest⟩ := queryEnds_succ h
    · rw [if_pos hspace]
    · rw [if_neg hspace, (scan_congr hsame hnext).1]
      exact ih hrest

/-- As many turns as there are bytes are enough. -/
theorem queryEnds_of_le {fuel' : ℕ} (h : queryEnds data len fuel i = true)
    (hfuel : len ≤ i + fuel') : queryEnds data len fuel' i = true := by
  induction fuel generalizing i fuel' with
  | zero => simp [queryEnds] at h
  | succ fuel ih =>
    have hi := lt_of_queryEnds h
    obtain ⟨n, rfl⟩ : ∃ n, fuel' = n + 1 := ⟨fuel' - 1, by omega⟩
    rw [queryEnds, if_neg (not_le.mpr hi)]
    obtain hspace | ⟨hspace, hnext, hrest⟩ := queryEnds_succ h
    · rw [if_pos hspace]
    · rw [if_neg hspace]
      have hpos := scanStep_pos data i
      exact ih hrest (by omega)

/-- A query whose space is among the received bytes is scanned alike. -/
theorem ledScan_congr (hsame : ∀ a < len, data a = data' a)
    (h : queryEnds data len fuel i = true) {fuel' : ℕ} (hfuel : fuel ≤ fuel') :
    ledScan data' fuel' i = ledScan data fuel' i := by
  induction fuel generalizing i fuel' with
  | zero => simp [queryEnds] at h
  | succ fuel ih =>
    obtain ⟨n, rfl⟩ : ∃ n, fuel' = n + 1 := ⟨fuel' - 1, by omega⟩
    rw [ledScan_succ, ledScan_succ, ← hsame i (lt_of_queryEnds h)]
    obtain hspace | ⟨hspace, hnext, hrest⟩ := queryEnds_succ h
    · rw [if_pos hspace, if_pos hspace]
    · obtain ⟨hstep, hleds⟩ := scan_congr hsame hnext
      rw [if_neg hspace, if_neg hspace, hstep, hleds, ih hrest (by omega)]

/-- Where no space follows the received bytes the scan ends among them or not at
all. -/
theorem queryEnds_of_ledScan (htail : ∀ a, len ≤ a → data a ≠ 0x20)
    (h : (ledScan data fuel i).isSome = true) : queryEnds data len fuel i = true := by
  induction fuel generalizing i with
  | zero => simp [ledScan] at h
  | succ fuel ih =>
    rw [ledScan_succ] at h
    rw [queryEnds]
    by_cases hle : len ≤ i
    · rw [if_neg (htail i hle), Option.isSome_map] at h
      have hnext := lt_of_queryEnds (ih h)
      omega
    · rw [if_neg hle]
      split_ifs at h ⊢ with hspace
      · rfl
      · exact ih (by simpa using h)

/-- Where spaces follow the received bytes the scan ends. -/
theorem ledScan_of_spaces (htail : ∀ a, len ≤ a → data a = 0x20) (hpos : 0 < fuel)
    (hfuel : len < i + fuel) : (ledScan data fuel i).isSome = true := by
  induction fuel generalizing i with
  | zero => exact absurd hpos (lt_irrefl 0)
  | succ fuel ih =>
    have hstep := scanStep_pos data i
    rw [ledScan_succ]
    split_ifs with hspace
    · rfl
    · have hi : i < len := by
        by_contra hle
        exact hspace (htail i (not_lt.mp hle))
      rw [Option.isSome_map]
      exact ih (by omega) (by omega)

end Scan

/-! ### The comparisons -/

section Compare

variable {data data' : Memory}

theorem startsWith_congr {s : String} (h : ∀ a < s.length, data a = data' a) :
    startsWith data s = startsWith data' s := by
  rw [startsWith, startsWith, Memory.read_congr fun a _ ha => h a (by omega)]

theorem read_literal (s : String) : (literal s).read 0 s.length ++ [0] = stringBytes s := by
  have hlen : (stringBytes s).length = s.length + 1 := by
    simp [stringBytes, String.length_toList]
  have hread := Memory.read_ofBytes (stringBytes s)
  rw [hlen, Memory.read_add, stringBytes] at hread
  have hfront := (List.append_inj hread (by simp [String.length_toList])).1
  rw [literal, stringBytes, hfront]

/-- A comparison with a string literal looks at all its bytes. -/
theorem startsWith_iff {s : String} :
    startsWith data s = true ↔ ∀ a < s.length, data a = literal s a := by
  rw [startsWith, decide_eq_true_eq, ← read_literal, List.append_left_inj, Memory.read,
    Memory.read, List.map_inj_left]
  simp only [List.mem_range, Nat.zero_add]

theorem not_startsWith {s : String} {a : ℕ} (ha : a < s.length) (hne : data a ≠ literal s a) :
    startsWith data s = false :=
  Bool.eq_false_iff.mpr fun h => hne (startsWith_iff.mp h a ha)

/-- Every request begins like a request for a page. -/
theorem startsWith_get (h : startsWith data "GET /STM32F107ADC" = true ∨
    startsWith data "GET /method=get" = true) : startsWith data "GET " = true := by
  rw [startsWith_iff] at h ⊢
  have hadc : ∀ a < 4, literal "GET /STM32F107ADC" a = literal "GET " a := by decide
  have hled : ∀ a < 4, literal "GET /method=get" a = literal "GET " a := by decide
  intro a ha
  obtain h | h := h
  · exact (h a (Nat.lt_of_lt_of_le ha (by decide))).trans (hadc a ha)
  · rw [startsWith_iff] at h
    exact (h a (Nat.lt_of_lt_of_le ha (by decide))).trans (hled a ha)

theorem not_page_of_not_get (h : startsWith data "GET " = false) :
    startsWith data "GET /STM32F107ADC" = false ∧ startsWith data "GET /method=get" = false := by
  constructor
  · exact Bool.eq_false_iff.mpr fun hadc => by simp [startsWith_get (.inl hadc)] at h
  · exact Bool.eq_false_iff.mpr fun hled => by simp [startsWith_get (.inr hled)] at h

theorem not_adc_of_led (h : startsWith data "GET /method=get" = true) :
    startsWith data "GET /STM32F107ADC" = false := by
  have h5 := startsWith_iff.mp h 5 (by decide)
  exact not_startsWith (a := 5) (by decide) (by rw [h5]; decide)

end Compare

/-! ### What a request chooses -/

section Outcome

variable {fs : FsImage} {env : HttpEnv} {c : HttpConn} {p p' : Pbuf}

theorem copyName_congr {data data' : Memory} (n : ℕ) {i : ℕ} {fname : Memory}
    (h : ∀ a, 4 + i ≤ a → a < 4 + i + n → data a = data' a) :
    copyName data n i fname = copyName data' n i fname := by
  induction n generalizing i fname with
  | zero => rfl
  | succ n ih =>
    rw [copyName, copyName, h (4 + i) le_rfl (by omega)]
    split_ifs
    · exact ih fun a hlow hhigh => h a (by omega) (by omega)
    · rfl

theorem terminate_congr {data data' : Memory} {a : ℕ} (h : data a = data' a) :
    terminate data a = terminate data' a := by
  rw [terminate, terminate, h]

/-- The request is handled alike when the comparisons, the scan of a query and the
bytes of a name are the same. -/
theorem httpRequest_congr
    (hadc : startsWith p.payload "GET /STM32F107ADC" = startsWith p'.payload "GET /STM32F107ADC")
    (hled : startsWith p.payload "GET /method=get" = startsWith p'.payload "GET /method=get")
    (hget : startsWith p.payload "GET " = startsWith p'.payload "GET ")
    (hscan : startsWith p.payload "GET /method=get" = true →
      ledScan p.payload (2 ^ 32) 15 = ledScan p'.payload (2 ^ 32) 15)
    (hname : startsWith p.payload "GET /STM32F107ADC" = false →
      startsWith p.payload "GET /method=get" = false → startsWith p.payload "GET " = true →
      ∀ a, 4 ≤ a → a < 44 → p.payload a = p'.payload a) :
    httpRequest fs true p env c = httpRequest fs true p' env c := by
  simp only [httpRequest, requestPayload, ← hadc, ← hled, ← hget]
  split_ifs with h1 h2 h3
  · rfl
  · rw [hscan h2]
  · have hcopy : copyName (terminate p.payload) 40 0 (fun _ => 0) =
        copyName (terminate p'.payload) 40 0 fun _ => 0 :=
      copyName_congr 40 fun a hlow hhigh => terminate_congr
        (hname (Bool.eq_false_iff.mpr h1) (Bool.eq_false_iff.mpr h2) h3 a hlow hhigh)
    rw [hcopy]
  · rfl

/-- A connection without a page looks at the request. -/
theorem httpRecv_of_no_file (hfile : c.hs.file = 0) :
    httpRecv fs true (some p) .ok env c =
      httpRequest fs true p env (c.act [.recved p.totLen, .access]) := by
  simp only [httpRecv, ne_eq, not_true_eq_false, if_false, act_act, act_hs, if_pos hfile]
  rfl

theorem sendPage_choice (f : ℕ × UInt32) (env : HttpEnv) (c : HttpConn) :
    (sendPage (some f) env c).log.filter HttpAction.isChoice =
      c.log.filter HttpAction.isChoice ++ [.select f.1 f.2] := by
  rw [sendPage_log, List.filter_append]
  congr 1
  split_ifs <;> rfl

/-- The request for the ADC page selects a page. -/
theorem outcome_adc (hfile : c.hs.file = 0)
    (h : startsWith p.payload "GET /STM32F107ADC" = true) :
    ∃ f : ℕ × UInt32, outcome (httpRecv fs true (some p) .ok env c) =
      some (c.log.filter HttpAction.isChoice ++ [.select f.1 f.2]) := by
  obtain ⟨f, hf⟩ := fsOpen_literal fs (s := "/STM32F107ADC.html") (by simp [FsImage.root])
  refine ⟨f, ?_⟩
  rw [httpRecv_of_no_file hfile, httpRequest]
  simp only [if_pos h, hf, outcome, Option.map_some, sendPage_choice]
  simp [HttpAction.isChoice, adcDigits]

/-- Bytes that are no request select nothing. -/
theorem outcome_none (hfile : c.hs.file = 0) (h : startsWith p.payload "GET " = false) :
    outcome (httpRecv fs true (some p) .ok env c) =
      some (c.log.filter HttpAction.isChoice) := by
  obtain ⟨hadc, hled⟩ := not_page_of_not_get h
  rw [httpRecv_of_no_file hfile, httpRequest]
  simp [hadc, hled, h, outcome, closeConn, HttpAction.isChoice]

/-- A query is answered if the scan ends. -/
theorem outcome_led (hfile : c.hs.file = 0) (h : startsWith p.payload "GET /method=get" = true) :
    (outcome (httpRecv fs true (some p) .ok env c)).isSome =
      (ledScan p.payload (2 ^ 32) 15).isSome := by
  rw [httpRecv_of_no_file hfile, httpRequest]
  simp [not_adc_of_led h, h, outcome]

end Outcome

/-! ### Requests decided by the received bytes -/

section Decided

variable {fs : FsImage} {env : HttpEnv} {c : HttpConn} {p : Pbuf}

theorem withTail_of_lt (tail : Memory) {a : ℕ} (h : a < p.len) :
    (withTail p tail).payload a = p.payload a := if_pos h

theorem withTail_of_le (tail : Memory) {a : ℕ} (h : p.len ≤ a) :
    (withTail p tail).payload a = tail a := if_neg (not_lt.mpr h)

theorem startsWith_withTail {s : String} (tail : Memory) (h : s.length ≤ p.len) :
    startsWith (withTail p tail).payload s = startsWith p.payload s :=
  startsWith_congr fun _ ha => withTail_of_lt tail (Nat.lt_of_lt_of_le ha h)

/-- What is missing of a string lies behind the received bytes. -/
theorem startsWith_completed {s : String}
    (h : ∀ a < min p.len s.length, p.payload a = literal s a) :
    startsWith (withTail p (literal s)).payload s = true := by
  rw [startsWith_iff]
  intro a ha
  obtain hin | hout := lt_or_ge a p.len
  · rw [withTail_of_lt _ hin]
    exact h a (lt_min hin ha)
  · rw [withTail_of_le _ hout]

/-- Zeros behind the received bytes complete nothing. -/
theorem length_le_of_zeros {s : String} (hs : ∀ a < s.length, 0 ≠ literal s a)
    (h : startsWith (withTail p fun _ => 0).payload s = true) : s.length ≤ p.len := by
  by_contra hshort
  have hbyte := startsWith_iff.mp h p.len (not_le.mp hshort)
  rw [withTail_of_le _ le_rfl] at hbyte
  exact hs p.len (not_le.mp hshort) hbyte

theorem not_request {tail : Memory} {a : ℕ} (ha : a < min p.len 4)
    (hne : p.payload a ≠ literal "GET " a) :
    startsWith (withTail p tail).payload "GET " = false := by
  refine not_startsWith (a := a) (lt_min_iff.mp ha).2 ?_
  rwa [withTail_of_lt tail (lt_min_iff.mp ha).1]

theorem noninterfering_of_not_request (hfile : c.hs.file = 0) {a : ℕ} (ha : a < min p.len 4)
    (hne : p.payload a ≠ literal "GET " a) : Noninterfering fs env c p := by
  refine ⟨fun tail tail' => ?_, fun tail b _ => ?_⟩
  · rw [outcome_none hfile (not_request ha hne), outcome_none hfile (not_request ha hne)]
  · have hget : startsWith (withTail p tail).payload "GET " = false := not_request ha hne
    obtain ⟨hadc, hled⟩ := not_page_of_not_get hget
    rw [requestPayload, hadc, hled, hget]
    rfl

theorem noninterfering_of_adc (hfile : c.hs.file = 0) (hlen : 17 ≤ p.len)
    (hadc : startsWith p.payload "GET /STM32F107ADC" = true) : Noninterfering fs env c p := by
  have hall (tail : Memory) : startsWith (withTail p tail).payload "GET /STM32F107ADC" = true :=
    (startsWith_withTail (s := "GET /STM32F107ADC") tail hlen).trans hadc
  refine ⟨fun tail tail' => ?_, fun tail b _ => ?_⟩
  · rw [httpRecv_of_no_file hfile, httpRecv_of_no_file hfile, httpRequest, httpRequest]
    simp only [hall, if_true]
    rfl
  · rw [requestPayload, if_pos (hall tail)]

/-- The scan of a query with its space stays in the segment. -/
theorem noninterfering_of_led (hfile : c.hs.file = 0) (hlen : 15 ≤ p.len)
    (hled : startsWith p.payload "GET /method=get" = true)
    (hends : queryEnds p.payload p.len p.len 15 = true) : Noninterfering fs env c p := by
  have hall (tail : Memory) : startsWith (withTail p tail).payload "GET /method=get" = true :=
    (startsWith_withTail (s := "GET /method=get") tail hlen).trans hled
  have hscan (tail : Memory) : ledScan (withTail p tail).payload (2 ^ 32) 15 =
      ledScan p.payload (2 ^ 32) 15 := by
    refine ledScan_congr (fun a ha => (withTail_of_lt tail ha).symm) hends ?_
    have hlt := p.len_lt
    omega
  refine ⟨fun tail tail' => ?_, fun tail b _ => ?_⟩
  · rw [httpRecv_of_no_file hfile, httpRecv_of_no_file hfile, httpRequest, httpRequest]
    simp only [hall, not_adc_of_led (hall _), hscan, if_true, Bool.false_eq_true, if_false]
    rfl
  · rw [requestPayload, if_neg (by simp [not_adc_of_led (hall tail)]), if_pos (hall tail)]

/-- Without the scan nothing behind the 44 bytes of prefix and name is looked at. -/
theorem noninterfering_of_long (hfile : c.hs.file = 0) (hlen : 44 ≤ p.len)
    (hled : startsWith p.payload "GET /method=get" = false) : Noninterfering fs env c p := by
  have hsame (tail tail' : Memory) (s : String) (hs : s.length ≤ 44) :
      startsWith (withTail p tail).payload s = startsWith (withTail p tail').payload s :=
    (startsWith_withTail tail (hs.trans hlen)).trans
      (startsWith_withTail tail' (hs.trans hlen)).symm
  have hno (tail : Memory) : startsWith (withTail p tail).payload "GET /method=get" = false :=
    (startsWith_withTail tail (Nat.le_trans (by decide) hlen)).trans hled
  refine ⟨fun tail tail' => ?_, fun tail b hb => ?_⟩
  · rw [httpRecv_of_no_file hfile, httpRecv_of_no_file hfile]
    refine congrArg outcome (httpRequest_congr ?_ ?_ ?_ (fun h => ?_) fun _ _ _ a _ ha => ?_)
    · exact hsame tail tail' _ (by decide)
    · exact hsame tail tail' _ (by decide)
    · exact hsame tail tail' _ (by decide)
    · rw [hno tail] at h
      exact absurd h (by decide)
    · rw [withTail_of_lt tail (by omega), withTail_of_lt tail' (by omega)]
  · rw [requestPayload]
    split_ifs
    · rfl
    · rfl
    · rw [terminate, if_neg (by omega)]
    · rfl

theorem noninterfering_of_decided (hfile : c.hs.file = 0) (h : DecidedWithin p.payload p.len) :
    Noninterfering fs env c p := by
  obtain ⟨a, ha, hne⟩ | ⟨hlen, hadc⟩ | ⟨hlen, hled, hends⟩ | ⟨hlen, hled⟩ := h
  · exact noninterfering_of_not_request hfile ha hne
  · exact noninterfering_of_adc hfile hlen hadc
  · exact noninterfering_of_led hfile hlen hled hends
  · exact noninterfering_of_long hfile hlen hled

/-- Fewer than four bytes: what lies behind them may complete a request. -/
theorem not_same_of_short (hfile : c.hs.file = 0)
    (hget : ∀ a < min p.len 4, p.payload a = literal "GET " a) (hlen : p.len < 4) :
    ¬ Noninterfering fs env c p := by
  intro h
  have hfull : startsWith (withTail p (literal "GET /STM32F107ADC")).payload "GET /STM32F107ADC" =
      true := by
    have hliteral : ∀ a < 4, literal "GET " a = literal "GET /STM32F107ADC" a := by decide
    apply startsWith_completed
    intro a ha
    rw [hget a (by omega), hliteral a (by omega)]
  have hnone : startsWith (withTail p fun _ => 0).payload "GET " = false := by
    rw [Bool.eq_false_iff]
    intro hstart
    have hle : 4 ≤ p.len := length_le_of_zeros (s := "GET ") (by decide) hstart
    omega
  have hadc : ∃ f : ℕ × UInt32, outcome (httpRecv fs true
      (some (withTail p (literal "GET /STM32F107ADC"))) .ok env c) =
        some (c.log.filter HttpAction.isChoice ++ [.select f.1 f.2]) := outcome_adc hfile hfull
  obtain ⟨f, hf⟩ := hadc
  have hsame := h.same (literal "GET /STM32F107ADC") fun _ => 0
  rw [hf, outcome_none hfile hnone] at hsame
  simp at hsame

/-- A query without a space: what lies behind it decides whether the scan ends. -/
theorem not_same_of_query (hfile : c.hs.file = 0) (hlen : 15 ≤ p.len)
    (hled : startsWith p.payload "GET /method=get" = true)
    (hends : queryEnds p.payload p.len p.len 15 = false) : ¬ Noninterfering fs env c p := by
  intro h
  have hall (tail : Memory) : startsWith (withTail p tail).payload "GET /method=get" = true :=
    (startsWith_withTail (s := "GET /method=get") tail hlen).trans hled
  have hsame := congrArg Option.isSome (h.same (fun _ => 0x20) fun _ => 0)
  rw [outcome_led hfile (hall _), outcome_led hfile (hall _)] at hsame
  have hlt := p.len_lt
  have hspaces : (ledScan (withTail p fun _ => 0x20).payload (2 ^ 32) 15).isSome = true :=
    ledScan_of_spaces (fun a ha => withTail_of_le _ ha) (by decide) (by omega)
  have hzeros := queryEnds_of_ledScan
    (fun a ha => by rw [withTail_of_le _ ha]; decide) (hsame.symm.trans hspaces)
  have hpayload := queryEnds_congr (fun a ha => withTail_of_lt _ ha) hzeros
  have hstill := queryEnds_of_le hpayload (Nat.le_add_left p.len 15)
  rw [hends] at hstill
  exact absurd hstill (by decide)

/-- A name that may end behind the received bytes: a space there is overwritten. -/
theorem not_inside_of_name (hget : ∀ a < min p.len 4, p.payload a = literal "GET " a)
    (hlow : 4 ≤ p.len) (hhigh : p.len < 44)
    (hadc : ¬ (17 ≤ p.len ∧ startsWith p.payload "GET /STM32F107ADC" = true))
    (hled : ¬ (15 ≤ p.len ∧ startsWith p.payload "GET /method=get" = true)) :
    ¬ Noninterfering fs env c p := by
  intro h
  have hspace : (withTail p fun _ => 0x20).payload p.len = 0x20 := withTail_of_le _ le_rfl
  have hno (s : String) (hliteral : ∀ a < s.length, 4 ≤ a → (0x20 : UInt8) ≠ literal s a)
      (hs : ¬ (s.length ≤ p.len ∧ startsWith p.payload s = true)) :
      startsWith (withTail p fun _ => 0x20).payload s = false := by
    obtain hle | hlt := le_or_gt s.length p.len
    · rw [startsWith_withTail _ hle]
      exact Bool.eq_false_iff.mpr fun htrue => hs ⟨hle, htrue⟩
    · apply not_startsWith hlt
      rw [hspace]
      exact hliteral p.len hlt hlow
  have hstart : startsWith (withTail p fun _ => 0x20).payload "GET " = true :=
    startsWith_iff.mpr fun a ha => by
      have ha : a < 4 := ha
      rw [withTail_of_lt _ (by omega), hget a (by omega)]
  have hkept := h.inside (fun _ => 0x20) p.len le_rfl
  rw [requestPayload, hno "GET /STM32F107ADC" (by decide) hadc,
    hno "GET /method=get" (by decide) hled, hstart, hspace] at hkept
  simp only [Bool.false_eq_true, if_false, if_true] at hkept
  rw [terminate, if_pos ⟨hlow, hhigh, .inl hspace⟩] at hkept
  exact absurd hkept (by decide)

theorem decided_of_noninterfering (hfile : c.hs.file = 0) (h : Noninterfering fs env c p) :
    DecidedWithin p.payload p.len := by
  by_contra hno
  simp only [DecidedWithin, not_or, not_exists, not_and, not_not] at hno
  obtain ⟨hget, hadc, hled, hname⟩ := hno
  obtain hshort | hlow := lt_or_ge p.len 4
  · exact not_same_of_short hfile hget hshort h
  · by_cases hquery : 15 ≤ p.len ∧ startsWith p.payload "GET /method=get" = true
    · exact not_same_of_query hfile hquery.1 hquery.2
        (Bool.eq_false_iff.mpr (hled hquery.1 hquery.2)) h
    · have hhigh : p.len < 44 := by
        by_contra hle
        have h44 := not_lt.mp hle
        exact hname h44 (Bool.eq_false_iff.mpr fun hl => hquery ⟨by omega, hl⟩)
      exact not_inside_of_name hget hlow hhigh (fun hc => hadc hc.1 hc.2) hquery h

end Decided

/-- What lies behind the first pbuf of a request matters to nothing and is not
overwritten if and only if the received bytes decide the request. -/
theorem request_noninterfering_iff (fs : FsImage) (env : HttpEnv) (c : HttpConn) (p : Pbuf)
    (hfile : c.hs.file = 0) : Noninterfering fs env c p ↔ DecidedWithin p.payload p.len :=
  ⟨decided_of_noninterfering hfile, noninterfering_of_decided hfile⟩

theorem request_noninterfering_query :
    Noninterfering sampleFs (idleEnv 1460) ⟨⟨true, true, false, true, true⟩, ⟨0, 0⟩, []⟩
      (.single [71, 69, 84, 32, 47, 109, 101, 116, 104, 111, 100, 61, 103, 101, 116, 63, 32]
        (by decide)) :=
  (request_noninterfering_iff sampleFs (idleEnv 1460)
    ⟨⟨true, true, false, true, true⟩, ⟨0, 0⟩, []⟩ _ rfl).mpr (by decide)

/-- The three bytes of a first segment "GET": behind them may lie the rest of an
old request for the ADC page, or nothing. -/
theorem short_segment_interferes :
    outcome (httpRecv sampleFs true
        (some (withTail (.single [71, 69, 84] (by decide)) (literal "GET /STM32F107ADC"))) .ok
        (idleEnv 1460) ⟨⟨true, true, false, true, true⟩, ⟨0, 0⟩, []⟩) =
      some [.select 0x9000 5350] ∧
    outcome (httpRecv sampleFs true
        (some (withTail (.single [71, 69, 84] (by decide)) fun _ => 0)) .ok
        (idleEnv 1460) ⟨⟨true, true, false, true, true⟩, ⟨0, 0⟩, []⟩) = some [] ∧
    ¬ Noninterfering sampleFs (idleEnv 1460) ⟨⟨true, true, false, true, true⟩, ⟨0, 0⟩, []⟩
      (.single [71, 69, 84] (by decide)) := by
  refine ⟨by decide +kernel, by decide +kernel, ?_⟩
  exact not_same_of_short rfl (by decide) (by decide)

end EthMange.Httpd
