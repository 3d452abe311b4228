import EthMange.Lwip.Pbuf

/-!
# The web server

The callbacks of `httpd.c` on one connection: its PCB with the callbacks that are
set, and its `http_state` block. What they do to the block and ask of the stack
is kept in a log.
-/

namespace EthMange.Httpd

/-! ### The pages -/

structure FsdataFile where
  name : String
  data : ℕ
  len : UInt32

/-- The addresses at which the linker has put the page data. -/
structure FsImage where
  ledHtml : ℕ
  adcHtml : ℕ
  html : ℕ
  newlineGif : ℕ
  stGif : ℕ
  not_null : ledHtml ≠ 0 ∧ adcHtml ≠ 0 ∧ html ≠ 0 ∧ newlineGif ≠ 0 ∧ stGif ≠ 0

/-- The list that begins at `FS_ROOT`. -/
def FsImage.root (fs : FsImage) : List FsdataFile :=
  [⟨"/STM32F107LED.html", fs.ledHtml, 3930⟩,
    ⟨"/STM32F107ADC.html", fs.adcHtml, 5350⟩,
    ⟨"/STM32F107.html", fs.html, 6600⟩,
    ⟨"/images/stm32_newline_.gif", fs.newlineGif, 18977⟩,
    ⟨"/images/ST.gif", fs.stGif, 2707⟩]

/-- `!strcmp(name, s)` -/
def strEq (name : Memory) (s : String) : Bool := name.read 0 (s.length + 1) = stringBytes s

def fsOpen (root : List FsdataFile) (name : Memory) : Option (ℕ × UInt32) :=
  (root.find? fun f => strEq name f.name).map fun f => (f.data, f.len)

-- the memory of a string literal
def literal (s : String) : Memory := .ofBytes (stringBytes s)

/-! ### A connection -/

structure HttpState where
  file : ℕ
  left : UInt32

/-- The callbacks of a PCB. `callbackArg` is the `http_state` block or NULL. -/
structure TcpPcb where
  callbackArg : Bool
  recv : Bool
  sent : Bool
  poll : Bool
  errf : Bool
  deriving DecidableEq, Repr

inductive HttpAction
  -- the `http_state` block is allocated, read or written, given to `mem_free`
  | malloc
  | access
  | free
  -- a field of a NULL block is read
  | nullAccess
  -- a page is put into the block
  | select (data : ℕ) (len : UInt32)
  | write (data : ℕ) (len : UInt16) (err : Err)
  | close (err : Err)
  | recved (len : ℕ)
  | pbufFree
  | led (n : ℕ) (on : Bool)
  -- a byte of the page with the ADC value is set
  | digit (offset : ℕ) (value : UInt8)
  deriving DecidableEq, Repr

structure HttpConn where
  pcb : TcpPcb
  hs : HttpState
  log : List HttpAction

def HttpConn.act (c : HttpConn) (as : List HttpAction) : HttpConn := { c with log := c.log ++ as }

/-- What the stack and the ADC return during a callback. -/
structure HttpEnv where
  sndbuf : UInt16
  write : Err
  close : Err
  adc : ℕ

def connErr (arg : Bool) (c : HttpConn) : HttpConn := if arg then c.act [.free] else c

/-- `close_conn`. The result of `tcp_close` is not looked at. -/
def closeConn (hs : Bool) (env : HttpEnv) (c : HttpConn) : HttpConn :=
  let c := { c with pcb := { c.pcb with callbackArg := false, sent := false, recv := false } }
  let c := if hs then c.act [.free] else c
  c.act [.close env.close]

/-- The `len` of `send_data`, a `u16_t`. -/
def sendLen (sndbuf : UInt16) (left : UInt32) : UInt16 :=
  if sndbuf.toUInt32 < left then sndbuf else left.toUInt16

def sendData (env : HttpEnv) (c : HttpConn) : HttpConn :=
  let len := sendLen env.sndbuf c.hs.left
  let c := c.act [.access, .write c.hs.file len env.write]
  if env.write = .ok then
    { c with hs := ⟨c.hs.file + len.toNat, c.hs.left - len.toUInt32⟩ }.act [.access]
  else c

def httpPoll (arg : Bool) (env : HttpEnv) (c : HttpConn) : HttpConn :=
  if ¬ arg then c.act [.close env.close] else sendData env c

def httpSent (arg : Bool) (env : HttpEnv) (c : HttpConn) : HttpConn :=
  if ¬ arg then c.act [.nullAccess]
  else
    let c := c.act [.access]
    if 0 < c.hs.left then sendData env c else closeConn arg env c

/-! ### Requests -/

/-- `strncmp(data, s, strlen(s)) == 0` -/
def startsWith (data : Memory) (s : String) : Bool :=
  data.read 0 s.length ++ [0] = stringBytes s

/-- The three digits of the ADC value and where they go in the page. -/
def adcDigits (adc : ℕ) : List HttpAction :=
  let adcVal := adc / 8
  let digit1 := adcVal / 100
  let digit2 := (adcVal - digit1 * 100) / 10
  let digit3 := adcVal - digit1 * 100 - digit2 * 10
  [.digit 0xE90 (UInt8.ofNat (0x30 + digit1)), .digit 0xE91 (UInt8.ofNat (0x30 + digit2)),
    .digit 0xE92 (UInt8.ofNat (0x30 + digit3))]

/-- The LED that a digit switches on. -/
def ledOn (b : UInt8) : List HttpAction :=
  if b = 0x31 then [.led 1 true]
  else if b = 0x32 then [.led 2 true]
  else if b = 0x33 then [.led 3 true]
  else if b = 0x34 then [.led 4 true]
  else []

/-- The loop over the query, from index `i` to the first space. It ends with
nothing but a space; `fuel` is the size of the memory. -/
def ledScan (data : Memory) : (fuel i : ℕ) → Option (List HttpAction)
  | 0, _ => none
  | fuel + 1, i =>
    if data i = 0x20 then some []
    else if data (i + 1) = 0x6C then
      if data (i + 2) = 0x65 then
        if data (i + 3) = 0x64 then
          (ledScan data fuel (i + 5)).map (ledOn (data (i + 5)) ++ ·)
        else ledScan data fuel (i + 3)
      else ledScan data fuel (i + 2)
    else ledScan data fuel (i + 1)

/-- The first loop over the name: it ends at a blank or a line end. -/
def terminate (data : Memory) : Memory := fun a =>
  if 4 ≤ a ∧ a < 44 ∧ (data a = 0x20 ∨ data a = 0x0D ∨ data a = 0x0A) then 0 else data a

/-- The payload after the call: only the first loop over the name writes to it. -/
def requestPayload (data : Memory) : Memory :=
  if startsWith data "GET /STM32F107ADC" then data
  else if startsWith data "GET /method=get" then data
  else if startsWith data "GET " then terminate data
  else data

theorem requestPayload_of_name {data : Memory} (hadc : ¬ startsWith data "GET /STM32F107ADC")
    (hled : ¬ startsWith data "GET /method=get") (hget : startsWith data "GET ") :
    requestPayload data = terminate data := by
  rw [requestPayload, if_neg hadc, if_neg hled, if_pos hget]

/-- The second loop: the name is copied, with its NUL if it has one in time. -/
def copyName (data : Memory) : (n i : ℕ) → Memory → Memory
  | 0, _, fname => fname
  | n + 1, i, fname =>
    let fname := Function.update fname i (data (4 + i))
    if fname i ≠ 0 then copyName data n (i + 1) fname else fname

/-- A page is chosen and its first bytes are sent. -/
def sendPage (file : Option (ℕ × UInt32)) (env : HttpEnv) (c : HttpConn) : HttpConn :=
  let (data, len) := file.getD (0, 0)
  let c := { c with hs := ⟨data, len⟩ }.act [.access, .select data len]
  let c := sendData env c
  { c with pcb := { c.pcb with sent := true } }

/-- The part of `http_recv` for a connection without a page. -/
def httpRequest (fs : FsImage) (arg : Bool) (p : Pbuf) (env : HttpEnv) (c : HttpConn) :
    Option HttpConn :=
  let data := p.payload
  if startsWith data "GET /STM32F107ADC" then
    let c := c.act ([.pbufFree] ++ adcDigits env.adc)
    some (sendPage (fsOpen fs.root (literal "/STM32F107ADC.html")) env c)
  else if startsWith data "GET /method=get" then
    (ledScan data (2 ^ 32) 15).map fun leds =>
      let c := c.act
        ([.led 1 false, .led 2 false, .led 3 false, .led 4 false] ++ leds ++ [.pbufFree])
      sendPage (fsOpen fs.root (literal "/STM32F107LED.html")) env c
  else if startsWith data "GET " then
    -- what is behind the NUL of `fname` is not initialised and not compared
    let fname := copyName (requestPayload data) 40 0 fun _ => 0
    let c := c.act [.pbufFree]
    let file :=
      (fsOpen fs.root fname).or (fsOpen fs.root (literal "/STM32F107.html"))
    some (sendPage file env c)
  else some (closeConn arg env c)

/-- `http_recv`. It returns `ERR_OK`, or does not return when the query has no
end. -/
def httpRecv (fs : FsImage) (arg : Bool) (p : Option Pbuf) (err : Err) (env : HttpEnv)
    (c : HttpConn) : Option HttpConn :=
  if err ≠ .ok then some c
  else
    match p with
    | some p =>
      let c := c.act [.recved p.totLen]
      if ¬ arg then some (c.act [.nullAccess])
      else
        let c := c.act [.access]
        if c.hs.file = 0 then httpRequest fs arg p env c else some (c.act [.pbufFree])
    | none => some (closeConn arg env c)

/-- `http_accept`, without its output on the display. `malloc` says whether there
is memory for the block. -/
def httpAccept (malloc : Bool) (c : HttpConn) : Err × HttpConn :=
  if ¬ malloc then (.mem, c)
  else
    (.ok,
      { c with
        hs := ⟨0, 0⟩
        pcb := { callbackArg := true, recv := true, sent := c.pcb.sent, poll := true, errf := true }
      }.act [.malloc, .access])

end EthMange.Httpd
