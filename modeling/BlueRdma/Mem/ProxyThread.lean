import BlueRdma.Mem.MemoryProxy

namespace BlueRdma

/-- The kinds of errors of the connection. -/
inductive ProxyError
  | wouldBlock
  | timedOut
  | unexpectedEof (msg : String)
  | invalidData
  | other (msg : String)
  deriving DecidableEq

/-- `serde_json`, as far as the proxy uses it. Bytes that are not UTF-8 hold no request: `read_line`
refuses them with the kind of error a line gets that cannot be parsed. -/
structure ProxyFormat where
  fromStr : List UInt8 → Option SimpleMemRequest
  toString : SimpleMemResponse → List UInt8

def newline : UInt8 := 10

/-- The characters of white space, in UTF-8. -/
def whiteSpace : List (List UInt8) :=
  [[0x09],[0x0A],[0x0B],[0x0C],[0x0D],[0x20],[0xC2,0x85],[0xC2,0xA0],[0xE1,0x9A,0x80]] ++
    (List.range 11).map (fun k => [0xE2,0x80,0x80+k.toUInt8]) ++
    [[0xE2,0x80,0xA8],[0xE2,0x80,0xA9],[0xE2,0x80,0xAF],[0xE2,0x81,0x9F],[0xE3,0x80,0x80]]

/-- Takes characters off the front of a line, at most so many. -/
def strip (chars : List (List UInt8)) (line : List UInt8) : Nat → List UInt8
  | 0 => line
  | n+1 => match chars.find? (·.isPrefixOf line) with
    | none => line
    | some c => strip chars (line.drop c.length) n

/-- `str::trim`. -/
def trim (line : List UInt8) : List UInt8 :=
  let rest := strip whiteSpace line line.length
  (strip (whiteSpace.map List.reverse) rest.reverse rest.length).reverse

/-- What `read_line` waits for: the next byte, the end of its patience, the end of the stream or
an error. -/
inductive ReadIo
  | byte (b : UInt8)
  | timeout
  | eof
  | error (e : ProxyError)

/-- A write gets all of its bytes through, or some of them before it fails. -/
inductive WriteIo
  | ok
  | cut (n : Nat) (e : ProxyError)

/-- The connection: what `read_line` has read of the next line, and what was written. -/
structure SimpleTcpClient where
  line : List UInt8 := []
  written : List UInt8 := []
  deriving DecidableEq

namespace SimpleTcpClient

def parse (f : ProxyFormat) (line : List UInt8) : Except ProxyError SimpleMemRequest :=
  match f.fromStr (trim line) with
  | none => .error .invalidData
  | some request => .ok request

/-- `get_request`, which has no result while `read_line` goes on. The line is a local variable:
what was read of it is gone when the call returns. -/
def getRequest (f : ProxyFormat) (c : SimpleTcpClient) :
    ReadIo → SimpleTcpClient × Option (Except ProxyError SimpleMemRequest)
  | .byte b =>
    let line := c.line++[b]
    if b=newline then ({c with line := []},some (parse f line)) else ({c with line := line},none)
  | .timeout => ({c with line := []},some (.error .wouldBlock))
  | .eof =>
    if c.line.isEmpty then (c,some (.error (.unexpectedEof "Connection closed")))
    else ({c with line := []},some (parse f c.line))
  | .error e => ({c with line := []},some (.error e))

theorem getRequest_written (f : ProxyFormat) (c : SimpleTcpClient) (r : ReadIo) :
    (c.getRequest f r).1.written=c.written := by
  cases r with
  | byte b =>
      rw [getRequest]
      split_ifs <;> rfl
  | timeout => rfl
  | eof =>
      rw [getRequest]
      split_ifs <;> rfl
  | error e => rfl

/-- Writes a line. -/
def writeLine (c : SimpleTcpClient) (line : List UInt8) :
    WriteIo → SimpleTcpClient × Except ProxyError Unit
  | .ok => ({c with written := c.written++(line++[newline])},.ok ())
  | .cut n e => ({c with written := c.written++line.take n},.error e)

def sendResponse (f : ProxyFormat) (c : SimpleTcpClient) (response : SimpleMemResponse)
    (io : WriteIo) : SimpleTcpClient × Except ProxyError Unit :=
  c.writeLine (f.toString response) io

end SimpleTcpClient

inductive ThreadEnd
  | error (e : ProxyError)
  | panicked
  deriving DecidableEq

structure ProxyThread where
  tcpClient : SimpleTcpClient := {}
  ended : Option ThreadEnd := none
  deriving DecidableEq

namespace ProxyThread

/-- The loop of the thread goes on unless the call returned an error. -/
def goOn : SimpleTcpClient × Except ProxyError Unit → ProxyThread
  | (c,.ok ()) => ⟨c,none⟩
  | (c,.error e) => ⟨c,some (.error e)⟩

/-- What the thread has done when its call returns: the memory afterwards, the request it has
received and the response it sends. -/
structure Turn where
  thread : ProxyThread
  mem : Memory
  request : Option SimpleMemRequest := none
  response : Option SimpleMemResponse := none

/-- `process_request` in the loop of `start_processing`. A timeout is answered with an empty
line. -/
def startProcessing (f : ProxyFormat) (m : PaVaMap) (mem : Memory) (t : ProxyThread) (r : ReadIo)
    (w : WriteIo) : Turn :=
  if t.ended.isSome then ⟨t,mem,none,none⟩
  else match t.tcpClient.getRequest f r with
    | (c,none) => ⟨⟨c,none⟩,mem,none,none⟩
    | (c,some (.error e)) =>
      if e=.wouldBlock ∨ e=.timedOut then ⟨goOn (c.writeLine [] w),mem,none,none⟩
      else ⟨⟨c,some (.error e)⟩,mem,none,none⟩
    | (c,some (.ok request)) =>
      match SimpleMemoryProxyClient.processRequest m mem request with
      | none => ⟨⟨c,some .panicked⟩,mem,some request,none⟩
      | some (mem',none) => ⟨⟨c,none⟩,mem',some request,none⟩
      | some (mem',some response) =>
        ⟨goOn (c.sendResponse f response w),mem',some request,some response⟩

section
variable (f : ProxyFormat) (m : PaVaMap) (mem : Memory) (t : ProxyThread) (r : ReadIo) (w : WriteIo)

theorem startProcessing_ended (h : t.ended≠none) :
    t.startProcessing f m mem r w=⟨t,mem,none,none⟩ := by
  rw [startProcessing,if_pos (Option.isSome_iff_ne_none.mpr h)]

theorem startProcessing_waits (h : t.ended=none) (c : SimpleTcpClient)
    (hget : t.tcpClient.getRequest f r=(c,none)) :
    t.startProcessing f m mem r w=⟨⟨c,none⟩,mem,none,none⟩ := by
  rw [startProcessing,h,hget]
  rfl

theorem startProcessing_error (h : t.ended=none) (c : SimpleTcpClient) (e : ProxyError)
    (hget : t.tcpClient.getRequest f r=(c,some (.error e))) :
    t.startProcessing f m mem r w=
      ⟨if e=.wouldBlock ∨ e=.timedOut then goOn (c.writeLine [] w) else ⟨c,some (.error e)⟩,mem,
        none,none⟩ := by
  rw [startProcessing,h,hget]
  dsimp only [Option.isSome_none]
  rw [if_neg Bool.false_ne_true]
  split_ifs <;> rfl

theorem startProcessing_panics (h : t.ended=none) (c : SimpleTcpClient) (request : SimpleMemRequest)
    (hget : t.tcpClient.getRequest f r=(c,some (.ok request)))
    (hprocess : SimpleMemoryProxyClient.processRequest m mem request=none) :
    t.startProcessing f m mem r w=⟨⟨c,some .panicked⟩,mem,some request,none⟩ := by
  rw [startProcessing,h,hget]
  dsimp only [Option.isSome_none]
  rw [if_neg Bool.false_ne_true,hprocess]

theorem startProcessing_request (h : t.ended=none) (c : SimpleTcpClient)
    (request : SimpleMemRequest) (mem' : Memory) (response : Option SimpleMemResponse)
    (hget : t.tcpClient.getRequest f r=(c,some (.ok request)))
    (hprocess : SimpleMemoryProxyClient.processRequest m mem request=some (mem',response)) :
    t.startProcessing f m mem r w=
      ⟨response.elim ⟨c,none⟩ (fun x => goOn (c.sendResponse f x w)),mem',some request,
        response⟩ := by
  rw [startProcessing,h,hget]
  dsimp only [Option.isSome_none]
  rw [if_neg Bool.false_ne_true,hprocess]
  cases response <;> rfl

end

theorem goOn_tcpClient (x : SimpleTcpClient × Except ProxyError Unit) :
    (goOn x).tcpClient=x.1 := by
  rcases x with ⟨c,e|⟨⟨⟩⟩⟩ <;> rfl

theorem goOn_ended (x : SimpleTcpClient × Except ProxyError Unit) :
    (goOn x).ended≠some .panicked := by
  rcases x with ⟨c,e|⟨⟨⟩⟩⟩ <;> simp [goOn]

end ProxyThread
end BlueRdma
