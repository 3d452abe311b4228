import EthMange.Lwip.Pbuf

/-!
# The telnet servers

`helloworld.c` and `helloarmjishu.c` are the same program on two ports: a line is
collected in the `name` block of the connection and sent back after a greeting.
What the callbacks do to the block and ask of the stack is kept in a log.
-/

namespace EthMange.Telnet

/-- `MAX_NAME_SIZE` -/
def maxNameSize : ℕ := 32

/-- `struct name` -/
structure Name where
  length : ℕ
  bytes : Memory

/-- `name->bytes[i]`. In front of the array lies `length`. -/
def Name.get (name : Name) (i : ℤ) : UInt8 :=
  if 0 ≤ i then name.bytes i.toNat else UInt8.ofNat (name.length / 256 ^ (i + 4).toNat)

inductive TelnetAction
  | calloc
  -- `mem_free` of the block, or of NULL
  | memFree (block : Bool)
  -- `name->length` and `name->bytes[i]` are read or written
  | length
  | byte (i : ℤ)
  | write (data : Bytes) (err : Err)
  -- the bytes from which `printf` prints a string
  | printf (bytes : Bytes)
  | recved (len : ℕ)
  | pbufFree
  | close (err : Err)
  deriving DecidableEq, Repr

/-- `callbackArg` is the block or NULL; the others say which callbacks are set. -/
structure TelnetConn where
  callbackArg : Bool
  recv : Bool
  errf : Bool
  name : Name
  log : List TelnetAction

def TelnetConn.act (c : TelnetConn) (as : List TelnetAction) : TelnetConn :=
  { c with log := c.log ++ as }

/-- What the stack returns during a callback. -/
structure TelnetEnv where
  hello : Err
  reply : Err
  close : Err

/-! ### Collecting a line -/

structure NameLoop where
  name : Name
  done : Bool
  log : List TelnetAction

/-- One turn of the inner loop. -/
def recvChar (s : NameLoop) (c : UInt8) : NameLoop :=
  if s.done then s
  else
    let done := decide (c = 0x0D ∨ c = 0x0A)
    if s.name.length < maxNameSize then
      ⟨⟨s.name.length + 1, Function.update s.name.bytes s.name.length c⟩, done,
        s.log ++ [.length, .byte s.name.length]⟩
    else ⟨s.name, done, s.log ++ [.length]⟩

def recvPbuf (s : NameLoop) (q : PbufSeg) : NameLoop := q.bytes.foldl recvChar s

/-- The two nested loops over the chain. -/
def recvChain (p : Pbuf) (name : Name) : NameLoop := p.chain.foldl recvPbuf ⟨name, false, []⟩

/-- The line ends with CR and LF already. -/
def Name.hasCrLf (name : Name) : Bool :=
  name.get (name.length - 2) = 0x0D && name.get (name.length - 1) = 0x0A

/-- The length after CR and LF have been put at the end of the line. -/
def crLfLength (name : Name) : ℕ :=
  if (name.get (name.length - 1) = 0x0D ∨ name.get (name.length - 1) = 0x0A) ∧
      name.length + 1 ≤ maxNameSize then name.length + 1
  else if name.length + 2 ≤ maxNameSize then name.length + 2
  else maxNameSize

/-- The line as it is sent back. -/
def crLf (name : Name) : Name :=
  if name.hasCrLf then name
  else
    let length := crLfLength name
    ⟨length, Function.update (Function.update name.bytes (length - 2) 0x0D) (length - 1) 0x0A⟩

/-- The places of the block that are used on the way. -/
def crLfLog (name : Name) : List TelnetAction :=
  [.length, .byte (name.length - 2), .byte (name.length - 1)] ++
    if name.hasCrLf then []
    else
      let length : ℤ := crLfLength name
      [.byte (length - 2), .byte (length - 1)]

/-! ### The callbacks -/

/-- What happens once a line has its end. -/
def replyLog (hello : Bytes) (env : TelnetEnv) (name : Name) : List TelnetAction :=
  let line := crLf name
  crLfLog name ++ [.write hello env.hello, .length,
    .write (line.bytes.read 0 line.length) env.reply, .printf (line.bytes.read 0 maxNameSize),
    .length]

/-- The receive callback of both programs; `hello` is the greeting of the reply. -/
def telnetRecv (hello : Bytes) (arg : Bool) (p : Option Pbuf) (err : Err) (env : TelnetEnv)
    (c : TelnetConn) : Err × TelnetConn :=
  match p with
  | some p =>
    let c := c.act [.recved p.totLen]
    if ¬ arg then (.arg, c.act [.pbufFree])
    else
      let s := recvChain p c.name
      let c := { c with name := s.name }.act s.log
      let c :=
        if s.done then
          { c with name := ⟨0, (crLf s.name).bytes⟩ }.act (replyLog hello env s.name)
        else c
      (.ok, c.act [.pbufFree])
  | none => if err = .ok then (env.close, c.act [.memFree arg, .close env.close]) else (.ok, c)

/-- The accept callback of both programs, without the texts it sends. `calloc`
says whether there is memory for the block. -/
def telnetAccept (calloc : Bool) (c : TelnetConn) : Err × TelnetConn :=
  (.ok,
    { c with
      callbackArg := calloc
      recv := true
      errf := true
      name := if calloc then ⟨0, fun _ => 0⟩ else c.name }.act (if calloc then [.calloc] else []))

/-- `HelloWorld_conn_err` and `helloarmjishu_conn_err` -/
def connErr (arg : Bool) (c : TelnetConn) : TelnetConn := c.act [.memFree arg]

/-- `HELLO` on port 23, in the encoding of the source file. -/
def helloWorldHello : Bytes :=
  [10, 13, 83, 84, 77, 51, 50, 201, 241, 214, 219, 207, 181, 193, 208, 191, 170, 183, 162, 176,
    229, 161, 190, 50, 51, 161, 191, 182, 203, 191, 218, 32, 72, 101, 108, 108, 111, 32]

/-- `HELLO` on port 8000. -/
def helloarmjishuHello : Bytes :=
  [10, 13, 83, 84, 77, 51, 50, 201, 241, 214, 219, 207, 181, 193, 208, 191, 170, 183, 162, 176,
    229, 161, 190, 56, 48, 48, 48, 161, 191, 182, 203, 191, 218, 32, 72, 101, 108, 108, 111, 32]

inductive TelnetApp
  | helloWorld
  | helloarmjishu
  deriving DecidableEq, Repr

def TelnetApp.hello : TelnetApp → Bytes
  | .helloWorld => helloWorldHello
  | .helloarmjishu => helloarmjishuHello

def helloWorldRecv := telnetRecv helloWorldHello

def helloarmjishuRecv := telnetRecv helloarmjishuHello

def TelnetApp.recv : TelnetApp → Bool → Option Pbuf → Err → TelnetEnv → TelnetConn →
    Err × TelnetConn
  | .helloWorld => helloWorldRecv
  | .helloarmjishu => helloarmjishuRecv

theorem TelnetApp.recv_eq (app : TelnetApp) : app.recv = telnetRecv app.hello := by
  cases app <;> rfl

/-! ### What a callback logs -/

@[simp] theorem act_log (c : TelnetConn) (as : List TelnetAction) :
    (c.act as).log = c.log ++ as := rfl

/-- Parts of the block are read or written, and nothing else. -/
def AccessOnly (as : List TelnetAction) : Prop := ∀ a ∈ as, a = .length ∨ ∃ i, a = .byte i

theorem AccessOnly.append {as bs : List TelnetAction} (ha : AccessOnly as) (hb : AccessOnly bs) :
    AccessOnly (as ++ bs) := List.forall_mem_append.mpr ⟨ha, hb⟩

/-- A turn of the loop adds accesses to the log. -/
theorem recvChar_log (s : NameLoop) (c : UInt8) :
    ∃ as, AccessOnly as ∧ (recvChar s c).log = s.log ++ as := by
  rw [recvChar]
  split_ifs
  · exact ⟨[], by simp [AccessOnly], by simp⟩
  · exact ⟨_, by simp [AccessOnly], rfl⟩
  · exact ⟨_, by simp [AccessOnly], rfl⟩

theorem foldl_recvChar_log (cs : Bytes) (s : NameLoop) :
    ∃ as, AccessOnly as ∧ (cs.foldl recvChar s).log = s.log ++ as := by
  induction cs generalizing s with
  | nil => exact ⟨[], by simp [AccessOnly], by simp⟩
  | cons c cs ih =>
    obtain ⟨as, has, hlog⟩ := recvChar_log s c
    obtain ⟨bs, hbs, hrest⟩ := ih (recvChar s c)
    exact ⟨as ++ bs, has.append hbs, by rw [List.foldl_cons, hrest, hlog, List.append_assoc]⟩

theorem recvChain_eq (p : Pbuf) (name : Name) :
    recvChain p name = p.bytes.foldl recvChar ⟨name, false, []⟩ := by
  rw [recvChain, Pbuf.bytes, List.foldl_flatMap]
  rfl

/-- A segment with data looks at the block. -/
theorem recvChain_log {p : Pbuf} (hdata : 0 < p.totLen) (name : Name) :
    ∃ as, AccessOnly as ∧ (recvChain p name).log = .length :: as := by
  rw [← Pbuf.bytes_length] at hdata
  obtain ⟨c, cs, hbytes⟩ := List.exists_cons_of_length_pos hdata
  have hfirst : ∃ as, AccessOnly as ∧ (recvChar ⟨name, false, []⟩ c).log = .length :: as := by
    simp only [recvChar, Bool.false_eq_true, if_false]
    split_ifs
    · exact ⟨[.byte name.length], by simp [AccessOnly], rfl⟩
    · exact ⟨[], by simp [AccessOnly], rfl⟩
  obtain ⟨as, has, hlog⟩ := hfirst
  obtain ⟨bs, hbs, hrest⟩ := foldl_recvChar_log cs (recvChar ⟨name, false, []⟩ c)
  refine ⟨as ++ bs, has.append hbs, ?_⟩
  rw [recvChain_eq, hbytes, List.foldl_cons, hrest, hlog, List.cons_append]

theorem crLfLog_accessOnly (name : Name) : AccessOnly (crLfLog name) := by
  rw [crLfLog]
  split_ifs <;> simp [AccessOnly]

end EthMange.Telnet
