import EthMange.Httpd.Query

/-!
# The page of a request

The name in a request ends at a blank, a line end or a NUL, or fills the 40 bytes of
`fname` and leaves it without its NUL. `fs_open` compares it with the names of the
list, which are all shorter, and so never looks behind `fname`.
-/

namespace EthMange.Httpd

/-- A byte at which a name ends. -/
def IsStop (b : UInt8) : Prop := b = 0x20 ∨ b = 0x0D ∨ b = 0x0A ∨ b = 0

instance : DecidablePred IsStop := fun _ => inferInstanceAs (Decidable (_ ∨ _))

/-- The name in a request: at most 40 of the received bytes behind "GET ". -/
def target (p : Pbuf) : Bytes :=
  (p.payload.read 4 (min (p.len - 4) 40)).takeWhile fun b => ! decide (IsStop b)

/-- The first page of that name in the list. -/
def FsImage.entry (fs : FsImage) (name : Bytes) : Option FsdataFile :=
  fs.root.find? fun f => textBytes f.name = name

/-- The page that a name stands for. -/
def FsImage.pageOf (fs : FsImage) (t : Bytes) : Option FsdataFile :=
  if textBytes "/STM32F107ADC" <+: t then fs.entry (textBytes "/STM32F107ADC.html")
  else if textBytes "/method=get" <+: t then fs.entry (textBytes "/STM32F107LED.html")
  else (fs.entry t).or (fs.entry (textBytes "/STM32F107.html"))

/-- A request that begins with "GET " and holds the end of its name, or all the bytes
that are taken for it. -/
structure GetRequest (p : Pbuf) : Prop where
  begun : 4 ≤ p.len
  get : startsWith p.payload "GET " = true
  ended : 44 ≤ p.len ∨ ∃ i, 4 ≤ i ∧ i < 44 ∧ i < p.len ∧ IsStop (p.payload i)

/-- The page `f`, and no other, is put into the block before its first bytes are sent. -/
structure PageSelected (env : HttpEnv) (c c' : HttpConn) (f : FsdataFile) : Prop where
  selected : selectedOf c'.log = selectedOf c.log ++ [(f.data, f.len)]
  held : ∃ d : HttpConn, d.hs = ⟨f.data, f.len⟩ ∧ c'.hs = (sendData env d).hs

/-! ### Comparing names -/

/-- The indexes at which `strcmp` reads `name`, which it compares with the bytes from
index `i` on. -/
def strcmpReads (name : Memory) : Bytes → (i : ℕ) → List ℕ
  | [], _ => []
  | b :: bs, i => i :: if name i = b ∧ b ≠ 0 then strcmpReads name bs (i + 1) else []

/-- The indexes at which `fs_open` reads `name`. -/
def fsOpenReads (name : Memory) : List FsdataFile → List ℕ
  | [] => []
  | f :: fs =>
    strcmpReads name (stringBytes f.name) 0 ++
      if strEq name f.name then [] else fsOpenReads name fs

section Strcmp

variable {name name' : Memory} {s : String} {bs t : Bytes} {i : ℕ}

theorem textBytes_length (s : String) : (textBytes s).length = s.length := by
  simp [textBytes, String.length_toList]

theorem stringBytes_eq (s : String) : stringBytes s = textBytes s ++ [0] := rfl

theorem literal_of_le {a : ℕ} (h : s.length ≤ a) : literal s a = 0 := by
  rw [literal, Memory.ofBytes, stringBytes_eq, List.getD_eq_getElem?_getD]
  obtain rfl | hlt := h.eq_or_lt
  · rw [← textBytes_length, List.getElem?_concat_length, Option.getD_some]
  · rw [List.getElem?_eq_none (by simpa [textBytes_length] using hlt), Option.getD_none]

theorem strEq_iff :
    strEq name s = true ↔ name.read 0 s.length = textBytes s ∧ name s.length = 0 := by
  have hlast : name.read (0 + s.length) 1 = [name s.length] := by
    rw [Nat.zero_add, Memory.read_succ, Memory.read_zero]
  rw [strEq, decide_eq_true_eq, Memory.read_add, stringBytes_eq, hlast]
  constructor
  · intro h
    obtain ⟨hread, hend⟩ := List.append_inj h (by simp [textBytes_length])
    exact ⟨hread, List.singleton_inj.mp hend⟩
  · rintro ⟨hread, hend⟩
    rw [hread, hend]

theorem strcmpReads_lt : ∀ a ∈ strcmpReads name bs i, a < i + bs.length := by
  induction bs generalizing i with
  | nil => simp [strcmpReads]
  | cons b bs ih =>
    intro a ha
    rw [strcmpReads, List.mem_cons] at ha
    rw [List.length_cons]
    obtain rfl | ha := ha
    · omega
    · split_ifs at ha with hb
      · have hlt := ih a ha
        omega
      · cases ha

/-- A comparison depends on nothing but the bytes that are read. -/
theorem read_congr_strcmpReads (hbs : 0 ∉ bs)
    (h : ∀ a ∈ strcmpReads name (bs ++ [0]) i, name a = name' a) :
    name.read i (bs.length + 1) = bs ++ [0] ↔ name'.read i (bs.length + 1) = bs ++ [0] := by
  induction bs generalizing i with
  | nil =>
    have hi : name i = name' i := h i (by simp [strcmpReads])
    simp [Memory.read_succ, hi]
  | cons b bs ih =>
    rw [List.mem_cons, not_or] at hbs
    rw [List.cons_append, strcmpReads, List.forall_mem_cons] at h
    rw [List.length_cons, Memory.read_succ, Memory.read_succ name', List.cons_append,
      List.cons.injEq, List.cons.injEq, ← h.1]
    refine and_congr_right fun hb => ih hbs.2 ?_
    rw [if_pos ⟨hb, fun h0 => hbs.1 h0.symm⟩] at h
    exact h.2

theorem strEq_congr_reads (hs : 0 ∉ textBytes s)
    (h : ∀ a ∈ strcmpReads name (stringBytes s) 0, name a = name' a) :
    strEq name' s = strEq name s := by
  have hread := read_congr_strcmpReads hs h
  rw [textBytes_length, ← stringBytes_eq] at hread
  rw [strEq, strEq, decide_eq_decide]
  exact hread.symm

/-- What `fs_open` does not read of a name it does not depend on. -/
theorem fsOpen_congr_reads {root : List FsdataFile} (hroot : ∀ f ∈ root, 0 ∉ textBytes f.name)
    (h : ∀ a ∈ fsOpenReads name root, name a = name' a) :
    fsOpen root name' = fsOpen root name := by
  apply congrArg (Option.map _)
  induction root with
  | nil => rfl
  | cons f root ih =>
    rw [List.forall_mem_cons] at hroot
    rw [fsOpenReads, List.forall_mem_append] at h
    have heq := strEq_congr_reads hroot.1 h.1
    rw [List.find?_cons, List.find?_cons, heq]
    cases hf : strEq name f.name with
    | true => rfl
    | false =>
      rw [hf, if_neg Bool.false_ne_true] at h
      exact ih hroot.2 h.2

theorem fsOpenReads_le {root : List FsdataFile} {n : ℕ} (h : ∀ f ∈ root, f.name.length ≤ n) :
    ∀ a ∈ fsOpenReads name root, a ≤ n := by
  induction root with
  | nil => simp [fsOpenReads]
  | cons f root ih =>
    rw [List.forall_mem_cons] at h
    intro a ha
    rw [fsOpenReads, List.mem_append] at ha
    obtain ha | ha := ha
    · have hlt := strcmpReads_lt a ha
      rw [stringBytes_eq, List.length_append, textBytes_length, List.length_singleton] at hlt
      omega
    · split_ifs at ha
      · cases ha
      · exact ih h.2 a ha

end Strcmp

/-- The names of the list are shorter than `fname` and hold no NUL. -/
theorem root_names (fs : FsImage) :
    ∀ f ∈ fs.root, f.name.length ≤ 26 ∧ 0 ∉ textBytes f.name := by
  have hnames : ∀ s ∈ ["/STM32F107LED.html", "/STM32F107ADC.html", "/STM32F107.html",
      "/images/stm32_newline_.gif", "/images/ST.gif"], s.length ≤ 26 ∧ 0 ∉ textBytes s := by
    decide
  have hroot : fs.root.map FsdataFile.name = ["/STM32F107LED.html", "/STM32F107ADC.html",
      "/STM32F107.html", "/images/stm32_newline_.gif", "/images/ST.gif"] := rfl
  intro f hf
  exact hnames f.name (hroot ▸ List.mem_map_of_mem hf)

/-! ### The copied name -/

/-- A name of at most 40 bytes lies in `name`, with its NUL where there is room for it. -/
structure HoldsName (name : Memory) (t : Bytes) : Prop where
  text : name.read 0 t.length = t
  closed : t.length < 40 → name t.length = 0
  no_null : 0 ∉ t

section Name

variable {name data : Memory} {t : Bytes} {s : String} {fs : FsImage} {off n i k : ℕ}

theorem strEq_iff_of_holds (h : HoldsName name t) (hs : 0 ∉ textBytes s) (hlen : s.length < 40) :
    strEq name s = true ↔ textBytes s = t := by
  rw [strEq_iff]
  constructor
  · rintro ⟨hread, hend⟩
    obtain hlt | heq | hgt := lt_trichotomy s.length t.length
    · exfalso
      apply h.no_null
      rw [← hend, ← h.text]
      exact Memory.mem_read name (Nat.zero_le _) (by simpa using hlt)
    · rw [← hread, heq, h.text]
    · exfalso
      apply hs
      rw [← h.closed (by omega), ← hread]
      exact Memory.mem_read name (Nat.zero_le _) (by simpa using hgt)
  · rintro rfl
    rw [← textBytes_length]
    rw [← textBytes_length] at hlen
    exact ⟨h.text, h.closed hlen⟩

/-- `fs_open` finds the first page of the name. -/
theorem fsOpen_of_holds (fs : FsImage) (h : HoldsName name t) :
    fsOpen fs.root name = (fs.entry t).map fun f => (f.data, f.len) := by
  refine congrArg (Option.map _) (List.find?_congr fun f hf => ?_)
  obtain ⟨hlen, hs⟩ := root_names fs f hf
  rw [Bool.eq_iff_iff, strEq_iff_of_holds h hs (by omega), decide_eq_true_eq]

theorem literal_holds (hs : 0 ∉ textBytes s) : HoldsName (literal s) (textBytes s) := by
  obtain ⟨hread, hend⟩ := strEq_iff.mp (strEq_literal s)
  rw [← textBytes_length] at hread hend
  exact ⟨hread, fun _ => hend, hs⟩

theorem copyName_of_lt (h : k < i) : copyName data n i name k = name k := by
  induction n generalizing i name with
  | zero => rfl
  | succ n ih =>
    rw [copyName]
    split_ifs
    · rw [ih (by omega), Function.update_of_ne (by omega)]
    · rw [Function.update_of_ne (by omega)]

/-- The bytes up to the first NUL are copied. -/
theorem copyName_apply (hlow : i ≤ k) (hhigh : k < i + n)
    (h : ∀ j, i ≤ j → j < k → data (4 + j) ≠ 0) : copyName data n i name k = data (4 + k) := by
  induction n generalizing i name with
  | zero => omega
  | succ n ih =>
    rw [copyName, Function.update_self]
    obtain rfl | hlt := hlow.eq_or_lt
    · split_ifs
      · rw [copyName_of_lt (Nat.lt_succ_self i), Function.update_self]
      · rw [Function.update_self]
    · rw [if_pos (h i le_rfl hlt)]
      exact ih hlt (by omega) fun j hj hjk => h j (by omega) hjk

/-- What is taken while no byte ends it. -/
theorem takeWhile_read (data : Memory) (off n : ℕ) :
    ∃ k ≤ n, ((data.read off n).takeWhile fun b => ! decide (IsStop b)) = data.read off k ∧
      (∀ a, off ≤ a → a < off + k → ¬ IsStop (data a)) ∧ (k < n → IsStop (data (off + k))) := by
  induction n generalizing off with
  | zero => exact ⟨0, le_rfl, rfl, fun a hlow hhigh => by omega, fun h => absurd h (lt_irrefl 0)⟩
  | succ n ih =>
    rw [Memory.read_succ, List.takeWhile_cons]
    by_cases hstop : IsStop (data off)
    · refine ⟨0, Nat.zero_le _, by simp [hstop], fun a hlow hhigh => by omega, fun _ => hstop⟩
    · obtain ⟨k, hk, htake, hopen, hend⟩ := ih (off + 1)
      refine ⟨k + 1, Nat.succ_le_succ hk, ?_, fun a hlow hhigh => ?_, fun hlt => ?_⟩
      · simp [hstop, htake, Memory.read_succ]
      · obtain rfl | hlow := hlow.eq_or_lt
        · exact hstop
        · exact hopen a hlow (by omega)
      · have hshift : off + 1 + k = off + (k + 1) := by omega
        exact hshift ▸ hend (by omega)

end Name

section Target

variable {p : Pbuf} {fs : FsImage}

/-- Where the name of a request ends. -/
theorem GetRequest.target_spec (h : GetRequest p) :
    target p = p.payload.read 4 (target p).length ∧ 4 + (target p).length ≤ p.len ∧
      (target p).length ≤ 40 ∧
      (∀ a, 4 ≤ a → a < 4 + (target p).length → ¬ IsStop (p.payload a)) ∧
      ((target p).length < 40 → 4 + (target p).length < p.len ∧
        IsStop (p.payload (4 + (target p).length))) := by
  obtain ⟨k, hk, htake, hopen, hend⟩ := takeWhile_read p.payload 4 (min (p.len - 4) 40)
  have hlen : (target p).length = k := by rw [target, htake, Memory.read_length]
  have hbegun := h.begun
  rw [hlen]
  refine ⟨htake, by omega, by omega, hopen, fun hlt => ?_⟩
  have hk : k < min (p.len - 4) 40 := by
    by_contra hall
    obtain hlong | ⟨i, hlow, hhigh, hi, hstop⟩ := h.ended
    · omega
    · exact hopen i hlow (by omega) hstop
  exact ⟨by omega, hend hk⟩

/-- What `fname` holds after the two loops, whatever it held before. -/
theorem GetRequest.target_holds (h : GetRequest p) (tail stack : Memory) :
    HoldsName (copyName (terminate (withTail p tail).payload) 40 0 stack) (target p) := by
  obtain ⟨htext, hlen, hmax, hopen, hend⟩ := h.target_spec
  have hkept : ∀ a, 4 ≤ a → a < 4 + (target p).length →
      terminate (withTail p tail).payload a = p.payload a := by
    intro a hlow hhigh
    have hno := hopen a hlow hhigh
    rw [terminate, withTail_of_lt tail (by omega)]
    refine if_neg fun hterm => hno ?_
    obtain hb | hb | hb := hterm.2.2
    · exact .inl hb
    · exact .inr (.inl hb)
    · exact .inr (.inr (.inl hb))
  have hcopied : ∀ k ≤ (target p).length, k < 40 →
      copyName (terminate (withTail p tail).payload) 40 0 stack k =
        terminate (withTail p tail).payload (4 + k) := by
    intro k hk hk40
    apply copyName_apply (Nat.zero_le k) (by omega)
    intro j _ hj hzero
    rw [hkept (4 + j) (by omega) (by omega)] at hzero
    exact hopen (4 + j) (by omega) (by omega) (.inr (.inr (.inr hzero)))
  constructor
  · rw [htext, Memory.read_length]
    apply List.map_congr_left
    intro k hk
    have hk := List.mem_range.mp hk
    rw [Nat.zero_add, hcopied k hk.le (by omega), hkept (4 + k) (by omega) (by omega)]
  · intro hlt
    obtain ⟨hreceived, hstop⟩ := hend hlt
    rw [hcopied _ le_rfl hlt, terminate, withTail_of_lt tail hreceived]
    split_ifs with hterm
    · rfl
    · obtain hb | hb | hb | hb := hstop
      · exact absurd ⟨by omega, by omega, .inl hb⟩ hterm
      · exact absurd ⟨by omega, by omega, .inr (.inl hb)⟩ hterm
      · exact absurd ⟨by omega, by omega, .inr (.inr hb)⟩ hterm
      · exact hb
  · intro hnull
    rw [htext, Memory.read, List.mem_map] at hnull
    obtain ⟨k, hk, hzero⟩ := hnull
    have hk := List.mem_range.mp hk
    exact hopen (4 + k) (by omega) (by omega) (.inr (.inr (.inr hzero)))

theorem read_literal_eq (s : String) : (literal s).read 0 s.length = textBytes s :=
  (List.append_left_inj [0]).mp (read_literal s)

/-- A comparison with "GET " and the beginning of a name is one with the name. -/
theorem GetRequest.startsWith_iff (h : GetRequest p) (tail : Memory) {line s : String}
    (hlen : line.length = 4 + s.length) (hmax : s.length ≤ 40)
    (hget : ∀ a < 4, literal line a = literal "GET " a)
    (hline : ∀ a < s.length, literal line (4 + a) = literal s a ∧ ¬ IsStop (literal s a)) :
    startsWith (withTail p tail).payload line = true ↔ textBytes s <+: target p := by
  obtain ⟨htext, hreceived, -, -, hend⟩ := h.target_spec
  have hbegun := h.begun
  rw [Httpd.startsWith_iff, htext, hlen, ← read_literal_eq]
  constructor
  · intro hall
    have hle : s.length ≤ (target p).length := by
      by_contra hlt
      obtain ⟨hin, hstop⟩ := hend (by omega)
      have hbyte := hall (4 + (target p).length) (by omega)
      obtain ⟨heq, hno⟩ := hline (target p).length (by omega)
      rw [withTail_of_lt tail hin, heq] at hbyte
      exact hno (hbyte ▸ hstop)
    have hread : p.payload.read 4 s.length = (literal s).read 0 s.length := by
      apply List.map_congr_left
      intro k hk
      have hk := List.mem_range.mp hk
      have hbyte := hall (4 + k) (by omega)
      rw [withTail_of_lt tail (by omega), (hline k hk).1] at hbyte
      rw [hbyte, Nat.zero_add]
    rw [← hread]
    exact Memory.read_prefix _ _ hle
  · intro hbegins a ha
    have hle : s.length ≤ (target p).length := by simpa using hbegins.length_le
    have hread : (literal s).read 0 s.length = p.payload.read 4 s.length :=
      (List.prefix_of_prefix_length_le hbegins (Memory.read_prefix _ _ hle)
        (by simp)).eq_of_length (by simp)
    rw [withTail_of_lt tail (by omega)]
    obtain hlow | hhigh := lt_or_ge a 4
    · rw [hget a hlow]
      exact Httpd.startsWith_iff.mp h.get a hlow
    · obtain ⟨k, rfl⟩ := Nat.exists_eq_add_of_le hhigh
      have hk : k < s.length := by omega
      have hbyte := List.map_inj_left.mp hread k (List.mem_range.mpr hk)
      rw [(hline k hk).1, ← hbyte, Nat.zero_add]

end Target

/-! ### The page that is selected -/

/-- The right page is selected whatever lies behind the request, and no comparison of
`fs_open` reads behind `fname` or depends on what it held before. -/
structure PageResolved (fs : FsImage) (env : HttpEnv) (c : HttpConn) (p : Pbuf) : Prop where
  page : (textBytes "/method=get" <+: target p →
      ∃ m, 15 ≤ m ∧ m < p.len ∧ p.payload m = 0x20) →
    ∀ tail, ∃ f c', fs.pageOf (target p) = some f ∧
      httpRecv fs true (some (withTail p tail)) .ok env c = some c' ∧ PageSelected env c c' f
  compared : ∀ tail stack,
    ∀ a ∈ fsOpenReads (copyName (terminate (withTail p tail).payload) 40 0 stack) fs.root, a ≤ 39
  stack : ∀ tail stack, fsOpen fs.root (copyName (terminate (withTail p tail).payload) 40 0 stack) =
    fsOpen fs.root (copyName (terminate (withTail p tail).payload) 40 0 fun _ => 0)

section Page

variable {fs : FsImage} {env : HttpEnv} {c : HttpConn} {p : Pbuf} {f : FsdataFile}
  {as : List HttpAction}

theorem pageSelected_sendPage (h : Quiet as) :
    PageSelected env c (sendPage (some (f.data, f.len)) env (c.act as)) f := by
  constructor
  · rw [sendPage_log, act_log, selectedOf_append, selectedOf_silent _ h.silent]
    split_ifs <;> simp [selectedOf]
  · exact ⟨{ c.act as with hs := ⟨f.data, f.len⟩ }.act [.access, .select f.data f.len], rfl, rfl⟩

theorem exists_entry (fs : FsImage) {s : String} (h : ∃ f ∈ fs.root, f.name = s) :
    ∃ f, fs.entry (textBytes s) = some f := by
  obtain ⟨f, hf, rfl⟩ := h
  refine Option.isSome_iff_exists.mp (List.find?_isSome.mpr ⟨f, hf, ?_⟩)
  exact decide_eq_true rfl

theorem httpRecv_adc (fs : FsImage) (env : HttpEnv) (hfile : c.hs.file = 0)
    (h : startsWith p.payload "GET /STM32F107ADC" = true) :
    httpRecv fs true (some p) .ok env c =
      some (sendPage (fsOpen fs.root (literal "/STM32F107ADC.html")) env
        (c.act (.recved p.totLen :: .access :: .pbufFree :: adcDigits env.adc))) := by
  rw [httpRecv_of_no_file hfile, httpRequest]
  simp only [h, if_true, act_act]
  rfl

theorem httpRecv_get (fs : FsImage) (env : HttpEnv) (hfile : c.hs.file = 0)
    (hadc : startsWith p.payload "GET /STM32F107ADC" = false)
    (hled : startsWith p.payload "GET /method=get" = false)
    (hget : startsWith p.payload "GET " = true) :
    httpRecv fs true (some p) .ok env c =
      some (sendPage ((fsOpen fs.root (copyName (terminate p.payload) 40 0 fun _ => 0)).or
        (fsOpen fs.root (literal "/STM32F107.html"))) env
          (c.act [.recved p.totLen, .access, .pbufFree])) := by
  rw [httpRecv_of_no_file hfile, httpRequest,
    requestPayload_of_name (by simp [hadc]) (by simp [hled]) hget]
  simp only [hadc, hled, hget, Bool.false_eq_true, if_false, if_true, act_act]
  rfl

theorem GetRequest.adc_iff (h : GetRequest p) (tail : Memory) :
    startsWith (withTail p tail).payload "GET /STM32F107ADC" = true ↔
      textBytes "/STM32F107ADC" <+: target p :=
  h.startsWith_iff tail (by decide) (by decide) (by decide) (by decide)

theorem GetRequest.led_iff (h : GetRequest p) (tail : Memory) :
    startsWith (withTail p tail).payload "GET /method=get" = true ↔
      textBytes "/method=get" <+: target p :=
  h.startsWith_iff tail (by decide) (by decide) (by decide) (by decide)

theorem GetRequest.get_tail (h : GetRequest p) (tail : Memory) :
    startsWith (withTail p tail).payload "GET " = true :=
  (startsWith_withTail (s := "GET ") tail h.begun).trans h.get

theorem not_adc_of_led_name (h : textBytes "/method=get" <+: target p) :
    ¬ textBytes "/STM32F107ADC" <+: target p := by
  intro hadc
  have hboth := List.prefix_of_prefix_length_le h hadc (by decide)
  exact absurd hboth (by decide)

theorem GetRequest.page_adc (h : GetRequest p) (hfile : c.hs.file = 0)
    (hadc : textBytes "/STM32F107ADC" <+: target p) (tail : Memory) :
    ∃ f c', fs.pageOf (target p) = some f ∧
      httpRecv fs true (some (withTail p tail)) .ok env c = some c' ∧
      PageSelected env c c' f := by
  obtain ⟨f, hf⟩ := exists_entry fs (s := "/STM32F107ADC.html") (by simp [FsImage.root])
  have hopen := fsOpen_of_holds fs (literal_holds (s := "/STM32F107ADC.html") (by decide))
  rw [hf, Option.map_some] at hopen
  refine ⟨f, _, ?_, httpRecv_adc fs env hfile ((h.adc_iff tail).mpr hadc), ?_⟩
  · rw [FsImage.pageOf, if_pos hadc, hf]
  · rw [hopen]
    exact pageSelected_sendPage (by simp [adcDigits, HttpAction.Quiet])

theorem GetRequest.page_led (h : GetRequest p) (hfile : c.hs.file = 0)
    (hled : textBytes "/method=get" <+: target p)
    (hends : ∃ m, 15 ≤ m ∧ m < p.len ∧ EndsAt p.payload 15 m) (tail : Memory) :
    ∃ f c', fs.pageOf (target p) = some f ∧
      httpRecv fs true (some (withTail p tail)) .ok env c = some c' ∧
      PageSelected env c c' f := by
  obtain ⟨leds, hscan⟩ := Option.isSome_iff_exists.mp ((scan_ends_iff p).mpr hends tail)
  obtain ⟨g, hg, hrecv⟩ := httpRecv_query fs env hfile
    ((h.led_iff tail).mpr hled) hscan
  rw [fsOpen_of_holds fs (literal_holds (by decide)), Option.map_eq_some_iff] at hg
  obtain ⟨f, hf, rfl⟩ := hg
  refine ⟨f, _, ?_, hrecv, pageSelected_sendPage ?_⟩
  · rw [FsImage.pageOf, if_neg (not_adc_of_led_name hled), if_pos hled, hf]
  · simp [queryActions, ledsOff, quiet_append, ledScan_quiet hscan, HttpAction.Quiet]

/-- A name of neither kind is looked up, and is the first page's name if it is none. -/
theorem GetRequest.page_name (h : GetRequest p) (hfile : c.hs.file = 0)
    (hadc : ¬ textBytes "/STM32F107ADC" <+: target p)
    (hled : ¬ textBytes "/method=get" <+: target p) (tail : Memory) :
    ∃ f c', fs.pageOf (target p) = some f ∧
      httpRecv fs true (some (withTail p tail)) .ok env c = some c' ∧
      PageSelected env c c' f := by
  obtain ⟨g, hg⟩ := exists_entry fs (s := "/STM32F107.html") (by simp [FsImage.root])
  have hpage : fs.pageOf (target p) =
      (fs.entry (target p)).or (fs.entry (textBytes "/STM32F107.html")) := by
    rw [FsImage.pageOf, if_neg hadc, if_neg hled]
  obtain ⟨f, hf⟩ : ∃ f, fs.pageOf (target p) = some f := by
    rw [hpage, hg]
    cases fs.entry (target p) with
    | none => exact ⟨g, rfl⟩
    | some f => exact ⟨f, rfl⟩
  have hrecv := httpRecv_get fs env hfile
    (Bool.eq_false_iff.mpr (mt (h.adc_iff tail).mp hadc))
    (Bool.eq_false_iff.mpr (mt (h.led_iff tail).mp hled)) (h.get_tail tail)
  rw [fsOpen_of_holds fs (h.target_holds tail fun _ => 0),
    fsOpen_of_holds fs (literal_holds (by decide)), ← Option.map_or, ← hpage, hf] at hrecv
  exact ⟨f, _, hf, hrecv, pageSelected_sendPage (by simp [HttpAction.Quiet])⟩

end Page

/-- The page of a request is the one that its name stands for, and its name is compared
inside `fname`, if and only if the scan of a query with a space ends at a received
space. -/
theorem page_resolved_iff (fs : FsImage) (env : HttpEnv) (c : HttpConn) (p : Pbuf)
    (h : GetRequest p) (hfile : c.hs.file = 0) :
    PageResolved fs env c p ↔
      (textBytes "/method=get" <+: target p →
        (∃ m, 15 ≤ m ∧ m < p.len ∧ p.payload m = 0x20) →
          ∃ m, 15 ≤ m ∧ m < p.len ∧ EndsAt p.payload 15 m) := by
  constructor
  · intro hpage hled hspace
    apply (scan_ends_iff p).mp
    intro tail
    obtain ⟨f, c', -, hrecv, -⟩ := hpage.page (fun _ => hspace) tail
    rw [← outcome_led hfile ((h.led_iff tail).mpr hled), hrecv]
    rfl
  · intro hends
    refine ⟨fun hspace tail => ?_, fun tail stack a ha => ?_, fun tail stack => ?_⟩
    · by_cases hadc : textBytes "/STM32F107ADC" <+: target p
      · exact h.page_adc hfile hadc tail
      · by_cases hled : textBytes "/method=get" <+: target p
        · exact h.page_led hfile hled (hends hled (hspace hled)) tail
        · exact h.page_name hfile hadc hled tail
    · have hle := fsOpenReads_le (fun f hf => (root_names fs f hf).1) a ha
      omega
    · rw [fsOpen_of_holds fs (h.target_holds tail stack),
        fsOpen_of_holds fs (h.target_holds tail _)]

theorem page_resolved_gif : PageResolved sampleFs (idleEnv 1460) idleConn gifRequest := by
  have hreq : GetRequest gifRequest := ⟨by decide, by decide, .inr ⟨18, by decide⟩⟩
  exact (page_resolved_iff sampleFs (idleEnv 1460) idleConn gifRequest hreq rfl).mpr
    fun hled => absurd hled (by decide)

/-- A whole request of which the only space is jumped over. -/
def jumpedSpace : Pbuf := .single (textBytes "GET /method=get?led HTTP/1.0\r\n\r\n") (by decide)

/-- With zeros behind it the request is not answered. -/
theorem jumped_space_unanswered :
    GetRequest jumpedSpace ∧
      httpRecv sampleFs true (some (withTail jumpedSpace fun _ => 0)) .ok (idleEnv 1460) idleConn =
        none ∧
      ¬ PageResolved sampleFs (idleEnv 1460) idleConn jumpedSpace := by
  have hnone : httpRecv sampleFs true (some (withTail jumpedSpace fun _ => 0)) .ok (idleEnv 1460)
      idleConn = none :=
    not_returned_of_query rfl (by decide) (by decide) fun _ _ => by decide
  refine ⟨⟨by decide, by decide, .inr ⟨19, by decide⟩⟩, hnone, fun h => ?_⟩
  obtain ⟨f, c', -, hrecv, -⟩ := h.page (fun _ => ⟨19, by decide⟩) fun _ => 0
  rw [hnone] at hrecv
  cases hrecv

end EthMange.Httpd
