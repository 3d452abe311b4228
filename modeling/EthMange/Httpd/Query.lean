import EthMange.Httpd.Noninterference

/-!
# The query of the LED page

The loop over a query looks ahead of its index and jumps over what it has
matched. Byte by byte it is an automaton that starts behind the first byte of the
query; where it is in step decides which LEDs a query switches on and at which
space the loop ends.
-/

namespace EthMange.Httpd

/-- The bytes of a string without its NUL. -/
def textBytes (s : String) : Bytes := s.toList.map fun c => UInt8.ofNat c.toNat

/-- What the loop has matched in front of a byte. -/
inductive LedState
  | start
  | l
  | le
  | led
  -- behind the byte that is jumped over
  | gap
  deriving DecidableEq, Repr

namespace LedState

def next : LedState → UInt8 → LedState
  | start, b => if b = 0x6C then l else start
  | l, b => if b = 0x65 then le else start
  | le, b => if b = 0x64 then led else start
  | led, _ => gap
  | gap, _ => start

def after (s : LedState) (r : Bytes) : LedState := r.foldl next s

/-- The bytes that are compared with the digits. -/
def digits : LedState → Bytes → Bytes
  | _, [] => []
  | s, b :: r => if s = gap then b :: digits (s.next b) r else digits (s.next b) r

variable {s : LedState} {b : UInt8} {r : Bytes}

@[simp] theorem after_nil (s : LedState) : s.after [] = s := rfl

@[simp] theorem after_cons (s : LedState) (b : UInt8) (r : Bytes) :
    s.after (b :: r) = (s.next b).after r := rfl

theorem after_append (s : LedState) (r r' : Bytes) : s.after (r ++ r') = (s.after r).after r' :=
  List.foldl_append

theorem digits_append (s : LedState) (r r' : Bytes) :
    s.digits (r ++ r') = s.digits r ++ (s.after r).digits r' := by
  induction r generalizing s with
  | nil => rfl
  | cons b r ih =>
    rw [List.cons_append, digits, digits, ih, after_cons]
    split_ifs
    · rfl
    · rfl

theorem mem_digits : b ∈ s.digits r ↔ ∃ u v, r = u ++ b :: v ∧ s.after u = gap := by
  induction r generalizing s with
  | nil => simp [digits]
  | cons a r ih =>
    have hrest : b ∈ (s.next a).digits r ↔
        ∃ u v, a :: r = a :: u ++ b :: v ∧ s.after (a :: u) = gap := by
      rw [ih]
      simp
    constructor
    · intro h
      by_cases hgap : s = gap
      · rw [digits, if_pos hgap, List.mem_cons] at h
        obtain rfl | h := h
        · exact ⟨[], r, rfl, hgap⟩
        · obtain ⟨u, v, hr, hu⟩ := hrest.mp h
          exact ⟨a :: u, v, hr, hu⟩
      · rw [digits, if_neg hgap] at h
        obtain ⟨u, v, hr, hu⟩ := hrest.mp h
        exact ⟨a :: u, v, hr, hu⟩
    · rintro ⟨u, v, hr, hu⟩
      cases u with
      | nil =>
        obtain ⟨rfl, rfl⟩ := List.cons.inj hr
        have hgap : s = gap := hu
        rw [digits, if_pos hgap]
        exact List.mem_cons_self
      | cons a' u =>
        obtain rfl := (List.cons.inj hr).1
        have hmem := hrest.mpr ⟨u, v, hr, hu⟩
        rw [digits]
        split_ifs
        · exact List.mem_cons_of_mem _ hmem
        · exact hmem

/-- The last byte that led to a state that is not the first one. -/
theorem eq_concat_of_after {t : LedState} (h : start.after r = t) (ht : t ≠ start) :
    ∃ u b, r = u ++ [b] ∧ (start.after u).next b = t := by
  cases r using List.reverseRecOn with
  | nil => exact absurd h.symm ht
  | append_singleton u b => exact ⟨u, b, rfl, by rw [← h, after_append]; rfl⟩

/-- A byte that does not lead back to the first state. -/
theorem next_cases (s : LedState) (b : UInt8) : s.next b = start ∨
    (s = start ∧ b = 0x6C ∧ s.next b = l) ∨ (s = l ∧ b = 0x65 ∧ s.next b = le) ∨
      (s = le ∧ b = 0x64 ∧ s.next b = led) ∨ (s = led ∧ s.next b = gap) := by
  cases s with
  | start | l | le =>
    simp only [next]
    split_ifs with hb <;> simp [hb]
  | led | gap => simp [next]

theorem next_eq_gap (h : s.next b = gap) : s = led := by simpa [h] using next_cases s b

theorem next_eq_led (h : s.next b = led) : s = le ∧ b = 0x64 := by
  simpa [h] using next_cases s b

theorem next_eq_le (h : s.next b = le) : s = l ∧ b = 0x65 := by simpa [h] using next_cases s b

theorem next_eq_l (h : s.next b = l) : s = start ∧ b = 0x6C := by simpa [h] using next_cases s b

/-- A digit is compared behind "led" in step and one more byte. -/
theorem after_eq_gap :
    start.after r = gap ↔ ∃ u x, r = u ++ [0x6C, 0x65, 0x64, x] ∧ start.after u = start := by
  constructor
  · intro h
    obtain ⟨r₄, x, rfl, h₄⟩ := eq_concat_of_after h (by decide)
    obtain ⟨r₃, b₃, rfl, h₃⟩ := eq_concat_of_after (next_eq_gap h₄) (by decide)
    obtain ⟨hle, rfl⟩ := next_eq_led h₃
    obtain ⟨r₂, b₂, rfl, h₂⟩ := eq_concat_of_after hle (by decide)
    obtain ⟨hl, rfl⟩ := next_eq_le h₂
    obtain ⟨u, b₁, rfl, h₁⟩ := eq_concat_of_after hl (by decide)
    obtain ⟨hstart, rfl⟩ := next_eq_l h₁
    exact ⟨u, x, by simp, hstart⟩
  · rintro ⟨u, x, rfl, hu⟩
    rw [after_append, hu]
    rfl

/-- One space brings every state back but the one in which it is jumped over. -/
theorem after_concat_space : s.after (r ++ [0x20]) = start ↔ s.after r ≠ led := by
  rw [after_append, after_cons, after_nil]
  cases s.after r <;> decide

end LedState

open LedState

/-! ### Turns and tokens -/

/-- The loop that began at index `i` ends at the space at index `m`. -/
def EndsAt (data : Memory) (i m : ℕ) : Prop :=
  data m = 0x20 ∧ start.after (data.read (i + 1) (m - (i + 1))) ≠ led

instance (data : Memory) (i m : ℕ) : Decidable (EndsAt data i m) :=
  inferInstanceAs (Decidable (_ ∧ _))

/-- The indexes that `ledScan` reads. -/
def scanReads (data : Memory) : (fuel i : ℕ) → List ℕ
  | 0, _ => []
  | fuel + 1, i =>
    if data i = 0x20 then [i]
    else i :: turnReads data i ++ scanReads data fuel (i + scanStep data i)

section Turn

variable {data data' : Memory} {fuel i m : ℕ}

theorem after_turn (data : Memory) (i : ℕ) :
    start.after (data.read (i + 1) (scanStep data i)) = start := by
  rw [scanStep]
  split_ifs with hl he hd <;> simp [Memory.read_succ, next, *]

theorem digits_turn (data : Memory) (i : ℕ) :
    (start.digits (data.read (i + 1) (scanStep data i))).flatMap ledOn = scanLeds data i := by
  rw [scanLeds, scanStep]
  split_ifs with hl he hd <;> simp_all [Memory.read_succ, digits, next]

/-- What the loop does not read it does not depend on. -/
theorem ledScan_congr_reads (h : ∀ a ∈ scanReads data fuel i, data a = data' a) :
    ledScan data' fuel i = ledScan data fuel i := by
  induction fuel generalizing i with
  | zero => rfl
  | succ fuel ih =>
    rw [scanReads] at h
    rw [ledScan_succ, ledScan_succ]
    by_cases hspace : data i = 0x20
    · rw [if_pos hspace] at h
      have hi : data i = data' i := h i List.mem_cons_self
      rw [← hi, if_pos hspace, if_pos hspace]
    · rw [if_neg hspace, List.cons_append, List.forall_mem_cons, List.forall_mem_append] at h
      obtain ⟨hi, hturn, hrest⟩ := h
      obtain ⟨hstep, hleds⟩ := turn_congr hturn
      rw [← hi, if_neg hspace, if_neg hspace, hstep, hleds, ih hrest]

/-- A turn ends in front of a space or at it, or jumps over it. -/
theorem turn_le (him : i < m) (hm : data m = 0x20) :
    i + scanStep data i ≤ m ∨ scanStep data i = 5 ∧ m = i + 4 := by
  have hne {a : ℕ} (h : data a ≠ 0x20) : m ≠ a := fun hma => h (hma ▸ hm)
  rw [scanStep]
  split_ifs with hl he hd
  · have h1 := hne (a := i + 1) (by rw [hl]; decide)
    have h2 := hne (a := i + 2) (by rw [he]; decide)
    have h3 := hne (a := i + 3) (by rw [hd]; decide)
    omega
  · have h1 := hne (a := i + 1) (by rw [hl]; decide)
    have h2 := hne (a := i + 2) (by rw [he]; decide)
    omega
  · have h1 := hne (a := i + 1) (by rw [hl]; decide)
    omega
  · omega

end Turn

/-! ### Where the loop ends -/

section Ends

variable {data : Memory} {len fuel i m : ℕ}

theorem endsAt_iff (him : i ≤ m) :
    EndsAt data i m ↔ data m = 0x20 ∧ start.after (data.read (i + 1) (m - i)) = start := by
  obtain rfl | hlt := him.eq_or_lt
  · have hempty : i - (i + 1) = 0 := by omega
    simp [EndsAt, hempty]
  · have hlen : m - i = m - (i + 1) + 1 := by omega
    have hlast : i + 1 + (m - (i + 1)) = m := by omega
    rw [EndsAt, hlen, Memory.read_add, hlast]
    apply and_congr_right
    intro hm
    have hone : data.read m 1 = [0x20] := by rw [Memory.read_succ, hm, Memory.read_zero]
    rw [hone, after_concat_space]

/-- The loop goes on behind a turn as if it began there. -/
theorem endsAt_turn (h : i + scanStep data i ≤ m) :
    EndsAt data i m ↔ EndsAt data (i + scanStep data i) m := by
  have hlen : m - i = scanStep data i + (m - (i + scanStep data i)) := by omega
  have hnext : i + 1 + scanStep data i = i + scanStep data i + 1 := by omega
  rw [endsAt_iff (by omega), endsAt_iff h, hlen, Memory.read_add, after_append, after_turn, hnext]

theorem eq_led_of_scanStep (h : scanStep data i = 5) :
    data (i + 1) = 0x6C ∧ data (i + 2) = 0x65 ∧ data (i + 3) = 0x64 := by
  rw [scanStep] at h
  split_ifs at h with hl he hd
  · exact ⟨hl, he, hd⟩
  · cases h
  · cases h
  · cases h

theorem turn_le_of_endsAt (him : i < m) (h : EndsAt data i m) : i + scanStep data i ≤ m := by
  obtain hle | ⟨hfive, rfl⟩ := turn_le him h.1
  · exact hle
  · obtain ⟨hl, he, hd⟩ := eq_led_of_scanStep hfive
    have hthree : i + 4 - (i + 1) = 3 := by omega
    exfalso
    apply h.2
    simp [hthree, Memory.read_succ, hl, he, hd, next]

theorem endsAt_self (h : data i = 0x20) : EndsAt data i i := by
  rw [endsAt_iff le_rfl, Nat.sub_self]
  exact ⟨h, rfl⟩

/-- Up to the first space at which it ends the loop does what the automaton does. -/
theorem ledScan_of_endsAt (him : i ≤ m) (h : EndsAt data i m)
    (hfirst : ∀ a, i ≤ a → a < m → ¬ EndsAt data i a) (hfuel : m < i + fuel) :
    ledScan data fuel i = some ((start.digits (data.read (i + 1) (m - i))).flatMap ledOn) ∧
      ∀ a ∈ scanReads data fuel i, a ≤ m := by
  induction fuel generalizing i with
  | zero => omega
  | succ fuel ih =>
    rw [ledScan_succ, scanReads]
    obtain rfl | hlt := him.eq_or_lt
    · rw [if_pos h.1, if_pos h.1, Nat.sub_self]
      exact ⟨rfl, by simp⟩
    · have hspace : data i ≠ 0x20 := fun hi => hfirst i le_rfl hlt (endsAt_self hi)
      have hturn := turn_le_of_endsAt hlt h
      have hpos := scanStep_pos data i
      have hnext : ∀ a, i + scanStep data i ≤ a → a < m →
          ¬ EndsAt data (i + scanStep data i) a := by
        intro a hia ham
        rw [← endsAt_turn hia]
        exact hfirst a (by omega) ham
      obtain ⟨hscan, hreads⟩ := ih hturn ((endsAt_turn hturn).mp h) hnext (by omega)
      have hlen : m - i = scanStep data i + (m - (i + scanStep data i)) := by omega
      have hbehind : i + 1 + scanStep data i = i + scanStep data i + 1 := by omega
      rw [if_neg hspace, if_neg hspace, hscan, Option.map_some, hlen, Memory.read_add,
        digits_append, after_turn, List.flatMap_append, digits_turn, hbehind]
      refine ⟨rfl, ?_⟩
      rw [List.cons_append, List.forall_mem_cons, List.forall_mem_append]
      exact ⟨him, fun a ha => (turnReads_le data i a ha).trans hturn, hreads⟩

/-- A first space at which the loop does not end is jumped over. -/
theorem mem_scanReads_of_skipped (him : i ≤ m) (hm : data m = 0x20)
    (hfirst : ∀ a, i ≤ a → a < m → data a ≠ 0x20) (h : ¬ EndsAt data i m)
    (hfuel : m < i + fuel) : m + 1 ∈ scanReads data fuel i := by
  induction fuel generalizing i with
  | zero => omega
  | succ fuel ih =>
    have hne : i ≠ m := by
      rintro rfl
      exact h (endsAt_self hm)
    have hlt : i < m := him.lt_of_ne hne
    have hpos := scanStep_pos data i
    rw [scanReads, if_neg (hfirst i le_rfl hlt), List.cons_append]
    refine List.mem_cons_of_mem _ (List.mem_append.mpr ?_)
    obtain hturn | ⟨hfive, rfl⟩ := turn_le hlt hm
    · right
      rw [endsAt_turn hturn] at h
      exact ih hturn (fun a hia ham => hfirst a (by omega) ham) h (by omega)
    · left
      obtain ⟨hl, he, hd⟩ := eq_led_of_scanStep hfive
      simp [turnReads, hl, he, hd]

/-- The scan comes to an end among the received bytes where it ends at one of their
spaces. -/
theorem queryEnds_iff_endsAt (hfuel : len ≤ i + fuel) :
    queryEnds data len fuel i = true ↔ ∃ m, i ≤ m ∧ m < len ∧ EndsAt data i m := by
  induction fuel generalizing i with
  | zero =>
    rw [queryEnds]
    constructor
    · intro h
      cases h
    · rintro ⟨m, him, hm, -⟩
      omega
  | succ fuel ih =>
    have hpos := scanStep_pos data i
    constructor
    · intro h
      have hi := lt_of_queryEnds h
      obtain hspace | ⟨-, -, hrest⟩ := queryEnds_succ h
      · exact ⟨i, le_rfl, hi, endsAt_self hspace⟩
      · obtain ⟨m, him, hm, hends⟩ := (ih (by omega)).mp hrest
        exact ⟨m, by omega, hm, (endsAt_turn him).mpr hends⟩
    · rintro ⟨m, him, hm, hends⟩
      rw [queryEnds, if_neg (by omega)]
      split_ifs with hspace
      · rfl
      · have hlt : i < m := him.lt_of_ne fun hi => hspace (hi ▸ hends.1)
        have hturn := turn_le_of_endsAt hlt hends
        exact (ih (by omega)).mpr ⟨m, hturn, hm, (endsAt_turn hturn).mp hends⟩

/-- A scan that comes to an end does so at a space. -/
theorem exists_endsAt_of_ledScan (h : (ledScan data fuel i).isSome = true) :
    ∃ m, i ≤ m ∧ EndsAt data i m := by
  induction fuel generalizing i with
  | zero => simp [ledScan] at h
  | succ fuel ih =>
    rw [ledScan_succ] at h
    by_cases hspace : data i = 0x20
    · exact ⟨i, le_rfl, endsAt_self hspace⟩
    · rw [if_neg hspace, Option.isSome_map] at h
      obtain ⟨m, him, hends⟩ := ih h
      exact ⟨m, (Nat.le_add_right _ _).trans him, (endsAt_turn him).mpr hends⟩

theorem endsAt_withTail {p : Pbuf} (tail : Memory) (hm : m < p.len) :
    EndsAt (withTail p tail).payload 15 m ↔ EndsAt p.payload 15 m := by
  have hread : (withTail p tail).payload.read 16 (m - 16) = p.payload.read 16 (m - 16) :=
    Memory.read_congr fun a hlow hhigh => withTail_of_lt tail (by omega)
  rw [EndsAt, EndsAt, hread, withTail_of_lt tail hm]

/-- Whatever lies behind the received bytes the scan comes to an end if and only if
it ends at a received space. -/
theorem scan_ends_iff (p : Pbuf) :
    (∀ tail, (ledScan (withTail p tail).payload (2 ^ 32) 15).isSome = true) ↔
      ∃ m, 15 ≤ m ∧ m < p.len ∧ EndsAt p.payload 15 m := by
  have hlt := p.len_lt
  constructor
  · intro h
    obtain ⟨m, hlow, hends⟩ := exists_endsAt_of_ledScan (h fun _ => 0)
    have hm : m < p.len := by
      by_contra hle
      have hspace := hends.1
      rw [withTail_of_le _ (not_lt.mp hle)] at hspace
      cases hspace
    exact ⟨m, hlow, hm, (endsAt_withTail _ hm).mp hends⟩
  · intro h tail
    have hends := (queryEnds_iff_endsAt (Nat.le_add_left p.len 15)).mpr h
    have hsame (tail : Memory) : ledScan (withTail p tail).payload (2 ^ 32) 15 =
        ledScan p.payload (2 ^ 32) 15 :=
      ledScan_congr (fun a ha => (withTail_of_lt tail ha).symm) hends (by omega)
    rw [hsame, ← hsame fun _ => 0x20]
    exact ledScan_of_spaces (fun a ha => withTail_of_le _ ha) (by decide) (by omega)

end Ends

/-! ### The LEDs -/

/-- The LEDs after some actions. -/
def ledsAfter (was : ℕ → Bool) : List HttpAction → ℕ → Bool
  | [] => was
  | .led n on :: as => ledsAfter (Function.update was n on) as
  | _ :: as => ledsAfter was as

/-- All LEDs are switched off before the query is looked at. -/
def ledsOff : List HttpAction := [.led 1 false, .led 2 false, .led 3 false, .led 4 false]

/-- What is done for the query in `p` before the page is selected. -/
def queryActions (p : Pbuf) (leds : List HttpAction) : List HttpAction :=
  [.recved p.totLen, .access] ++ (ledsOff ++ leds ++ [.pbufFree])

/-- The request `p` is a query, and `q` is what it has in front of its first space. -/
structure LedQuery (p : Pbuf) (q : Bytes) : Prop where
  query : startsWith p.payload "GET /method=get" = true
  text : p.payload.read 15 q.length = q
  closed : p.payload (15 + q.length) = 0x20
  first : 0x20 ∉ q
  received : 15 + q.length < p.len

-- "led", any byte and the digit of LED `k`
def ledToken (x : UInt8) (k : ℕ) : Bytes := [0x6C, 0x65, 0x64, x, UInt8.ofNat (0x30 + k)]

def NamesLed (q : Bytes) (k : ℕ) : Prop := ∃ x, ledToken x k <:+: q

/-- A name of LED `k` that begins where the loop is in step. -/
def NamesLedInStep (q : Bytes) (k : ℕ) : Prop :=
  ∃ u x v, q = u ++ ledToken x k ++ v ∧ u ≠ [] ∧ start.after u.tail = start

/-- The LEDs that are on are those the query names, and the scan has looked at no
byte behind its space. -/
structure QueryObeyed (fs : FsImage) (env : HttpEnv) (c : HttpConn) (p : Pbuf) (q : Bytes) :
    Prop where
  leds : ∃ c', httpRecv fs true (some p) .ok env c = some c' ∧
    ∀ was, ∀ k ∈ [1, 2, 3, 4], ledsAfter was c'.log k = true ↔ NamesLed q k
  scan : ∀ a ∈ scanReads p.payload (2 ^ 32) 15, a ≤ 15 + q.length

section Leds

variable {was : ℕ → Bool} {k : ℕ}

theorem ledsAfter_append (was : ℕ → Bool) (as bs : List HttpAction) :
    ledsAfter was (as ++ bs) = ledsAfter (ledsAfter was as) bs := by
  induction as generalizing was with
  | nil => rfl
  | cons a as ih => cases a <;> exact ih _

theorem ledsAfter_ledOn (hk : k ∈ [1, 2, 3, 4]) (b : UInt8) :
    ledsAfter was (ledOn b) k = true ↔ was k = true ∨ b = UInt8.ofNat (0x30 + k) := by
  simp only [List.mem_cons, List.not_mem_nil, or_false] at hk
  rw [ledOn]
  split_ifs with h1 h2 h3 h4
  all_goals rcases hk with rfl | rfl | rfl | rfl <;> simp [ledsAfter, *]

theorem ledsAfter_off (hk : k ∈ [1, 2, 3, 4]) :
    ledsAfter was ledsOff k = false := by
  simp only [List.mem_cons, List.not_mem_nil, or_false] at hk
  rcases hk with rfl | rfl | rfl | rfl <;> simp [ledsOff, ledsAfter]

theorem ledsAfter_digits (hk : k ∈ [1, 2, 3, 4]) (ds : Bytes) :
    ledsAfter was (ds.flatMap ledOn) k = true ↔
      was k = true ∨ UInt8.ofNat (0x30 + k) ∈ ds := by
  induction ds generalizing was with
  | nil => simp [ledsAfter]
  | cons b ds ih =>
    rw [List.flatMap_cons, ledsAfter_append, ih, ledsAfter_ledOn hk, List.mem_cons, or_assoc,
      @eq_comm _ b]

end Leds

/-! ### Answered queries -/

section Query

variable {fs : FsImage} {env : HttpEnv} {c : HttpConn} {p : Pbuf} {q : Bytes} {k : ℕ}
  {leds : List HttpAction}

/-- The answer to a query whose scan comes to an end. -/
theorem httpRecv_query (fs : FsImage) (env : HttpEnv) (hfile : c.hs.file = 0)
    (h : startsWith p.payload "GET /method=get" = true)
    (hscan : ledScan p.payload (2 ^ 32) 15 = some leds) :
    ∃ f, fsOpen fs.root (literal "/STM32F107LED.html") = some f ∧
      httpRecv fs true (some p) .ok env c =
        some (sendPage (some f) env (c.act (queryActions p leds))) := by
  obtain ⟨f, hf⟩ := fsOpen_literal fs (s := "/STM32F107LED.html") (by simp [FsImage.root])
  refine ⟨f, hf, ?_⟩
  rw [httpRecv_of_no_file hfile, httpRequest]
  simp only [not_adc_of_led h, h, hscan, hf, Bool.false_eq_true, if_false, if_true,
    Option.map_some, act_act]
  rfl

theorem LedQuery.not_space (h : LedQuery p q) {a : ℕ} (hlow : 15 ≤ a)
    (hhigh : a < 15 + q.length) : p.payload a ≠ 0x20 := by
  intro ha
  apply h.first
  rw [← h.text, ← ha]
  exact Memory.mem_read _ hlow hhigh

/-- Behind its first byte the query is followed by its space. -/
theorem LedQuery.read (h : LedQuery p q) (hne : q ≠ []) :
    p.payload.read 16 q.length = q.tail ++ [0x20] := by
  obtain ⟨b, r, rfl⟩ := List.exists_cons_of_ne_nil hne
  have htext := h.text
  have hspace := h.closed
  have hlast : 15 + (r.length + 1) = 16 + r.length := by omega
  rw [List.length_cons, Memory.read_succ] at htext
  rw [List.length_cons, hlast] at hspace
  rw [List.length_cons, Memory.read_add, (List.cons.inj htext).2, Memory.read_succ, hspace,
    Memory.read_zero, List.tail_cons]

theorem LedQuery.endsAt_iff (h : LedQuery p q) :
    EndsAt p.payload 15 (15 + q.length) ↔ start.after q.tail ≠ led := by
  rw [Httpd.endsAt_iff (Nat.le_add_right _ _), Nat.add_sub_cancel_left, and_iff_right h.closed]
  by_cases hne : q = []
  · subst hne
    simp
  · rw [h.read hne, after_concat_space]

/-- Digits of LEDs are compared where the loop is in step. -/
theorem LedQuery.mem_digits (h : LedQuery p q) (hk : k ∈ [1, 2, 3, 4]) :
    UInt8.ofNat (0x30 + k) ∈ start.digits (p.payload.read 16 q.length) ↔
      NamesLedInStep q k := by
  have hspace : UInt8.ofNat (0x30 + k) ≠ 0x20 := by
    simp only [List.mem_cons, List.not_mem_nil, or_false] at hk
    rcases hk with rfl | rfl | rfl | rfl <;> decide
  cases q with
  | nil =>
    constructor
    · intro hmem
      cases hmem
    · rintro ⟨u, x, v, hq, hu, -⟩
      simp [ledToken] at hq
  | cons b r =>
    have hlast : UInt8.ofNat (0x30 + k) ∉ (start.after r).digits [0x20] := by
      rw [LedState.digits, LedState.digits]
      split_ifs
      · simpa using hspace
      · simp
    rw [h.read (List.cons_ne_nil b r), List.tail_cons, digits_append, List.mem_append,
      or_iff_left hlast, LedState.mem_digits]
    constructor
    · rintro ⟨u, v, rfl, hu⟩
      obtain ⟨w, x, rfl, hw⟩ := after_eq_gap.mp hu
      exact ⟨b :: w, x, v, by simp [ledToken], List.cons_ne_nil b w, hw⟩
    · rintro ⟨u, x, v, hq, hu, hstep⟩
      obtain ⟨b', w, rfl⟩ := List.exists_cons_of_ne_nil hu
      refine ⟨w ++ [0x6C, 0x65, 0x64, x], v, ?_, after_eq_gap.mpr ⟨w, x, rfl, hstep⟩⟩
      have htail := congrArg List.tail hq
      simpa [ledToken] using htail

theorem NamesLedInStep.namesLed (h : NamesLedInStep q k) : NamesLed q k := by
  obtain ⟨u, x, v, hq, -, -⟩ := h
  exact ⟨x, u, v, hq.symm⟩

/-- What a query whose space is not jumped over does. -/
theorem LedQuery.answered (fs : FsImage) (env : HttpEnv) (h : LedQuery p q) (hfile : c.hs.file = 0)
    (hends : EndsAt p.payload 15 (15 + q.length)) :
    (∃ c', httpRecv fs true (some p) .ok env c = some c' ∧
      ∀ was, ∀ k ∈ [1, 2, 3, 4], ledsAfter was c'.log k = true ↔ NamesLedInStep q k) ∧
      ∀ a ∈ scanReads p.payload (2 ^ 32) 15, a ≤ 15 + q.length := by
  have hlt := p.len_lt
  have hreceived := h.received
  have hfuel : 15 + q.length < 15 + 2 ^ 32 := by omega
  obtain ⟨hscan, hreads⟩ := ledScan_of_endsAt (Nat.le_add_right 15 q.length) hends
    (fun a hlow hhigh ha => h.not_space hlow hhigh ha.1) hfuel
  rw [Nat.add_sub_cancel_left] at hscan
  refine ⟨?_, hreads⟩
  obtain ⟨f, -, hrecv⟩ := httpRecv_query fs env hfile h.query hscan
  refine ⟨_, hrecv, fun was k hk => ?_⟩
  have hlog (leds : List HttpAction) :
      ledsAfter was (sendPage (some f) env (c.act (queryActions p leds))).log =
        ledsAfter (ledsAfter (ledsAfter was c.log) ledsOff) leds := by
    rw [sendPage_log, act_log, queryActions]
    split_ifs <;> simp only [ledsAfter_append, ledsAfter]
  rw [hlog, ledsAfter_digits hk, ledsAfter_off hk, h.mem_digits hk]
  simp

/-- A query is not answered when no received space ends the loop and no space
follows. -/
theorem not_returned_of_query {tail : Memory} (hfile : c.hs.file = 0)
    (hled : startsWith (withTail p tail).payload "GET /method=get" = true)
    (hends : ∀ m < p.len, 15 ≤ m → ¬ EndsAt p.payload 15 m)
    (htail : ∀ a, 15 ≤ a → tail a ≠ 0x20) :
    httpRecv fs true (some (withTail p tail)) .ok env c = none := by
  cases hrecv : httpRecv fs true (some (withTail p tail)) .ok env c with
  | none => rfl
  | some c' =>
    have hscan : (ledScan (withTail p tail).payload (2 ^ 32) 15).isSome = true := by
      rw [← @outcome_led fs env c _ hfile hled, hrecv]
      rfl
    obtain ⟨m, hlow, hm⟩ := exists_endsAt_of_ledScan hscan
    obtain hlt | hle := lt_or_ge m p.len
    · exact absurd ((endsAt_withTail tail hlt).mp hm) (hends m hlt hlow)
    · exact absurd ((withTail_of_le tail hle).symm.trans hm.1) (htail m hlow)

end Query

/-- A query sets the LEDs that it names, and its scan looks at nothing behind it, if
and only if the loop does not jump over its space and is in step at a name of each
LED that it names. -/
theorem led_query_obeyed_iff (fs : FsImage) (env : HttpEnv) (c : HttpConn) (p : Pbuf)
    (q : Bytes) (hq : LedQuery p q) (hfile : c.hs.file = 0) :
    QueryObeyed fs env c p q ↔ start.after q.tail ≠ led ∧
      ∀ k ∈ [1, 2, 3, 4], NamesLed q k → NamesLedInStep q k := by
  constructor
  · intro h
    have hends : EndsAt p.payload 15 (15 + q.length) := by
      by_contra hskip
      have hlt := p.len_lt
      have hreceived := hq.received
      have hbehind : 15 + q.length + 1 ∈ scanReads p.payload (2 ^ 32) 15 :=
        mem_scanReads_of_skipped (Nat.le_add_right _ _) hq.closed
          (fun a hlow hhigh => hq.not_space hlow hhigh) hskip (by omega)
      have hle := h.scan _ hbehind
      omega
    refine ⟨hq.endsAt_iff.mp hends, fun k hk hnames => ?_⟩
    obtain ⟨c', hrecv, hleds⟩ := h.leds
    obtain ⟨⟨d, hd, hstep⟩, -⟩ := hq.answered fs env hfile hends
    obtain rfl : c' = d := Option.some.inj (hrecv.symm.trans hd)
    have hon := (hleds (fun _ => false) k hk).mpr hnames
    exact (hstep _ k hk).mp hon
  · rintro ⟨hspace, hstep⟩
    obtain ⟨⟨c', hrecv, hleds⟩, hreads⟩ := hq.answered fs env hfile
      (hq.endsAt_iff.mpr hspace)
    refine ⟨⟨c', hrecv, fun was k hk => ?_⟩, hreads⟩
    rw [hleds was k hk]
    exact ⟨NamesLedInStep.namesLed, hstep k hk⟩

/-! ### Two queries -/

/-- A connection that waits for its request. -/
def idleConn : HttpConn := ⟨⟨true, true, false, true, true⟩, ⟨0, 0⟩, []⟩

/-- The form of the page with all its boxes ticked. -/
def ledForm : Pbuf :=
  .single (textBytes "GET /method=get?led=1&led=2&led=3&led=4 HTTP/1.1") (by decide)

def ledFormQuery : Bytes := textBytes "?led=1&led=2&led=3&led=4"

theorem ledForm_query : LedQuery ledForm ledFormQuery where
  query := by decide
  text := by decide
  closed := by decide
  first := by decide
  received := by decide

theorem led_query_obeyed_form :
    QueryObeyed sampleFs (idleEnv 1460) idleConn ledForm ledFormQuery := by
  have hiff := led_query_obeyed_iff sampleFs (idleEnv 1460) idleConn ledForm ledFormQuery
    ledForm_query rfl
  refine hiff.mpr ⟨by decide, ?_⟩
  intro k hk _
  simp only [List.mem_cons, List.not_mem_nil, or_false] at hk
  rcases hk with rfl | rfl | rfl | rfl
  · exact ⟨textBytes "?", 0x3D, textBytes "&led=2&led=3&led=4", by decide, by decide, rfl⟩
  · exact ⟨textBytes "?led=1&", 0x3D, textBytes "&led=3&led=4", by decide, by decide, rfl⟩
  · exact ⟨textBytes "?led=1&led=2&", 0x3D, textBytes "&led=4", by decide, by decide, rfl⟩
  · exact ⟨textBytes "?led=1&led=2&led=3&", 0x3D, [], by decide, by decide, rfl⟩

def firstName : Pbuf := .single (textBytes "GET /method=getled=1 HTTP/1.1") (by decide)

/-- A name at the first byte of the query switches nothing on. -/
theorem first_name_ignored :
    LedQuery firstName (textBytes "led=1") ∧ NamesLed (textBytes "led=1") 1 ∧
      (httpRecv sampleFs true (some firstName) .ok (idleEnv 1460) idleConn).map
        (fun c => ledsAfter (fun _ => false) c.log 1) = some false ∧
      ¬ QueryObeyed sampleFs (idleEnv 1460) idleConn firstName (textBytes "led=1") := by
  have hnames : NamesLed (textBytes "led=1") 1 := ⟨0x3D, by decide⟩
  have hoff : (httpRecv sampleFs true (some firstName) .ok (idleEnv 1460) idleConn).map
      (fun c => ledsAfter (fun _ => false) c.log 1) = some false := by
    decide +kernel
  refine ⟨⟨by decide, by decide, by decide, by decide, by decide⟩, hnames, hoff, ?_⟩
  intro h
  obtain ⟨c', hrecv, hleds⟩ := h.leds
  have hon := (hleds (fun _ => false) 1 List.mem_cons_self).mpr hnames
  rw [hrecv, Option.map_some, hon] at hoff
  cases hoff

end EthMange.Httpd
