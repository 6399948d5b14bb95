import BlueRdma.Math.Framing
import BlueRdma.Mem.ProxyThread

namespace BlueRdma
namespace ProxySystem
open SimpleMemoryProxyClient

/-- How the simulator writes its requests. One request is one line, and what is left of a line
whose beginning is missing is no request. -/
structure Dialect (f : ProxyFormat) where
  encode : SimpleMemRequest → List UInt8
  Sendable : SimpleMemRequest → Prop
  one_line : ∀ r,Sendable r → newline∉encode r
  parsed : ∀ r,Sendable r → SimpleTcpClient.parse f (encode r++[newline])=.ok r
  headless : ∀ r,Sendable r → ∀ p q,p≠[] → encode r=p++q →
    SimpleTcpClient.parse f (q++[newline])=.error .invalidData
  response_line : ∀ response,newline∉f.toString response ∧ f.toString response≠[]

/-- The proxy with the bytes that have not reached it. For the record: the requests sent, those
the thread has taken, its responses, and whether reading has failed inside a line. -/
structure State where
  map : PaVaMap
  mem : Memory
  stream : List UInt8 := []
  thread : ProxyThread := {}
  sent : List SimpleMemRequest := []
  executed : List SimpleMemRequest := []
  responses : List SimpleMemResponse := []
  struck : Bool := false

inductive Label
  | send (r : SimpleMemRequest)
  | read (w : WriteIo)
  | timeout (w : WriteIo)
  | eof (w : WriteIo)
  | error (e : ProxyError) (w : WriteIo)
  | memory (map : PaVaMap) (mem : Memory)

section
variable (f : ProxyFormat) (d : Dialect f)

/-- The call the thread waits in returns. -/
def turn (s : State) (r : ReadIo) (w : WriteIo) : State :=
  let t := s.thread.startProcessing f s.map s.mem r w
  { s with
    mem := t.mem
    thread := t.thread
    executed := s.executed++t.request.toList
    responses := s.responses++t.response.toList }

/-- A call that fails forgets the beginning of the line. -/
def fail (s : State) (r : ReadIo) (w : WriteIo) : State :=
  let s' := turn f s r w
  {s' with struck := s.struck || (s.thread.ended.isNone && !s.thread.tcpClient.line.isEmpty)}

def step (s : State) : Label → State
  | .send r => {s with stream := s.stream++(d.encode r++[newline]),sent := s.sent++[r]}
  | .read w => match s.stream with
    | [] => s
    | b::rest => {turn f s (.byte b) w with stream := rest}
  | .timeout w => fail f s .timeout w
  | .eof w => if s.stream.isEmpty then turn f s .eof w else s
  | .error e w => fail f s (.error e) w
  | .memory map mem => {s with map := map,mem := mem}

def Allowed (_ : State) : Label → Prop
  | .send r => d.Sendable r
  | _ => True

/-- Requests taken whole and one at a time. -/
structure Server where
  map : PaVaMap
  mem : Memory
  executed : List SimpleMemRequest := []
  responses : List SimpleMemResponse := []
  panicked : Bool := false

inductive Request
  | access (r : SimpleMemRequest)
  | memory (map : PaVaMap) (mem : Memory)

def Server.step (s : Server) : Request → Server
  | .access r => match processRequest s.map s.mem r with
    | none => {s with executed := s.executed++[r],panicked := true}
    | some (mem,response) =>
      {s with mem := mem,executed := s.executed++[r],responses := s.responses++response.toList}
  | .memory map mem => {s with map := map,mem := mem}

def toServer (s : State) : Server where
  map := s.map
  mem := s.mem
  executed := s.executed
  responses := s.responses
  panicked := s.thread.ended=some .panicked

/-- The request a turn of the thread takes. -/
def taken (s : State) (r : ReadIo) (w : WriteIo) : List Request :=
  (s.thread.startProcessing f s.map s.mem r w).request.toList.map .access

def abstractLabel (s : State) : Label → List Request
  | .read w => match s.stream with
    | [] => []
    | b::_ => taken f s (.byte b) w
  | .timeout w => taken f s .timeout w
  | .eof w => if s.stream.isEmpty then taken f s .eof w else []
  | .error e w => taken f s (.error e) w
  | .memory map mem => [.memory map mem]
  | .send _ => []

theorem turn_refined (s : State) (r : ReadIo) (w : WriteIo) :
    toServer (turn f s r w)=Run.run Server.step (toServer s) (taken f s r w) := by
  rw [turn,taken]
  by_cases hended : s.thread.ended=none
  swap
  · rw [s.thread.startProcessing_ended f s.map s.mem r w hended]
    simp [toServer]
  rcases hget : s.thread.tcpClient.getRequest f r with ⟨c,_|e|request⟩
  · rw [s.thread.startProcessing_waits f s.map s.mem r w hended c hget]
    simp [toServer,hended]
  · rw [s.thread.startProcessing_error f s.map s.mem r w hended c e hget]
    have hpanic := ProxyThread.goOn_ended (c.writeLine [] w)
    split_ifs <;> simp [toServer,hended,hpanic]
  · rcases hprocess : processRequest s.map s.mem request with _|⟨mem',response⟩
    · rw [s.thread.startProcessing_panics f s.map s.mem r w hended c request hget hprocess]
      simp [toServer,Server.step,hprocess]
    · rw [s.thread.startProcessing_request f s.map s.mem r w hended c request mem' response hget
        hprocess]
      have hpanic (x : SimpleMemResponse) := ProxyThread.goOn_ended (c.sendResponse f x w)
      cases response <;> simp [toServer,Server.step,hprocess,hended,hpanic]

theorem step_refined (s : State) (l : Label) :
    toServer (step f d s l)=Run.run Server.step (toServer s) (abstractLabel f s l) := by
  cases l with
  | send r => rfl
  | read w =>
      rw [step,abstractLabel]
      rcases hs : s.stream with _|⟨b,rest⟩
      · rfl
      · exact turn_refined f s (.byte b) w
  | timeout w => exact turn_refined f s .timeout w
  | eof w =>
      rw [step,abstractLabel]
      split_ifs
      · exact turn_refined f s .eof w
      · rfl
  | error e w => exact turn_refined f s (.error e) w
  | memory map mem => rfl

/-- The line of a request. -/
def lineOf (r : SimpleMemRequest) : List UInt8 := d.encode r++[newline]

/-- What the thread waits for: the lines of the requests that are left, or the rest of a line whose
beginning was forgotten. -/
inductive Waits : Bool → List SimpleMemRequest → List UInt8 → Prop
  | whole (rest : List SimpleMemRequest) : Waits false rest (rest.flatMap (lineOf f d))
  | headless (lost : SimpleMemRequest) (rest : List SimpleMemRequest) (p q : List UInt8)
      (hp : p≠[]) (hlost : d.encode lost=p++q) :
      Waits true (lost::rest) (q++newline::rest.flatMap (lineOf f d))

theorem Waits.send (struck : Bool) (rest : List SimpleMemRequest) (bytes : List UInt8)
    (r : SimpleMemRequest) (h : Waits f d struck rest bytes) :
    Waits f d struck (rest++[r]) (bytes++lineOf f d r) := by
  cases h with
  | whole rest =>
      have hlines : (rest++[r]).flatMap (lineOf f d)=rest.flatMap (lineOf f d)++lineOf f d r := by
        simp
      rw [← hlines]
      exact .whole _
  | headless lost rest p q hp hlost =>
      have hlines : q++newline::rest.flatMap (lineOf f d)++lineOf f d r=
          q++newline::(rest++[r]).flatMap (lineOf f d) := by simp
      rw [hlines]
      exact .headless lost (rest++[r]) p q hp hlost

theorem Waits.lost (rest : List SimpleMemRequest) (bytes : List UInt8)
    (h : Waits f d true rest bytes) : rest≠[] := by
  cases h with
  | headless lost rest p q hp hlost => exact List.cons_ne_nil lost rest

/-- Bytes that are forgotten before the end of their line. -/
theorem Waits.forget (struck : Bool) (rest : List SimpleMemRequest) (line bytes all : List UInt8)
    (h : Waits f d struck rest all) (hall : line++bytes=all) (hline : newline∉line) :
    Waits f d (struck || !line.isEmpty) rest bytes := by
  cases h with
  | whole rest =>
      rcases line with _|⟨b,line⟩
      · rw [List.nil_append] at hall
        rw [hall]
        exact .whole rest
      rcases rest with _|⟨lost,rest⟩
      · cases hall
      rw [List.flatMap_cons,lineOf,List.append_assoc,List.singleton_append] at hall
      obtain ⟨q,hlost,hbytes⟩ := Framing.split_line newline _ _ _ _ hall hline
      rw [hbytes]
      exact .headless lost rest (b::line) q (List.cons_ne_nil b line) hlost
  | headless lost rest p q hp hlost =>
      obtain ⟨q',rfl,hbytes⟩ := Framing.split_line newline _ _ _ _ hall hline
      rw [hbytes,Bool.true_or]
      refine .headless lost rest (p++line) q' ?_ ?_
      · simp [hp]
      · rw [hlost,List.append_assoc]

/-- The end of the line is that of the next request. -/
theorem Waits.line_end (struck : Bool) (rest : List SimpleMemRequest) (line bytes all : List UInt8)
    (h : Waits f d struck rest all) (hall : line++newline::bytes=all)
    (hline : newline∉line) (hsend : ∀ r∈rest,d.Sendable r) :
    (struck=false ∧ ∃ r rest',rest=r::rest' ∧
      SimpleTcpClient.parse f (line++[newline])=.ok r ∧ Waits f d false rest' bytes) ∨
    (struck=true ∧
      SimpleTcpClient.parse f (line++[newline])=.error .invalidData ∧ rest≠[]) := by
  cases h with
  | whole rest =>
      rcases rest with _|⟨r,rest⟩
      · simp at hall
      have hr := hsend r List.mem_cons_self
      rw [List.flatMap_cons,lineOf,List.append_assoc,List.singleton_append] at hall
      obtain ⟨rfl,rfl⟩ := Framing.line_eq newline _ _ _ _ hall hline (d.one_line r hr)
      exact .inl ⟨rfl,r,rest,rfl,d.parsed r hr,.whole rest⟩
  | headless lost rest p q hp hlost =>
      have hr := hsend lost List.mem_cons_self
      have hq : newline∉q := by
        intro hmem
        exact d.one_line lost hr (hlost ▸ List.mem_append_right p hmem)
      obtain ⟨rfl,rfl⟩ := Framing.line_eq newline _ _ _ _ hall hline hq
      exact .inr ⟨rfl,d.headless lost hr p line hp hlost,List.cons_ne_nil lost rest⟩

/-- The requests are taken in the order they were sent, and none after reading has failed inside a
line. -/
structure Ordered (s : State) (rest : List SimpleMemRequest) : Prop where
  sent : s.sent=s.executed++rest
  struck : s.struck=true → rest≠[]
  waits : s.thread.ended=none → newline∉s.thread.tcpClient.line ∧
    Waits f d s.struck rest (s.thread.tcpClient.line++s.stream)

/-- Lines that are left end with a newline. -/
theorem Waits.drained (struck : Bool) (rest : List SimpleMemRequest) (line : List UInt8)
    (h : Waits f d struck rest line) (hline : newline∉line) :
    struck=false ∧ rest=[] ∧ line=[] := by
  cases h with
  | whole rest =>
      rcases rest with _|⟨r,rest⟩
      · exact ⟨rfl,rfl,rfl⟩
      · simp [lineOf] at hline
  | headless lost rest p q hp hlost => simp at hline

section Turns
variable (s : State) (r : ReadIo) (w : WriteIo) (stream : List UInt8)

theorem turn_ended (h : s.thread.ended≠none) : turn f s r w=s := by
  rw [turn,s.thread.startProcessing_ended f s.map s.mem r w h]
  simp

theorem turn_waits_ordered (rest : List SimpleMemRequest) (line : List UInt8)
    (hended : s.thread.ended=none) (hget : s.thread.tcpClient.getRequest f r=
      ({s.thread.tcpClient with line := line},none)) (hline : newline∉line)
    (hwaits : Waits f d s.struck rest (line++stream)) (h : Ordered f d s rest) :
    Ordered f d {turn f s r w with stream := stream} rest := by
  rw [turn,s.thread.startProcessing_waits f s.map s.mem r w hended _ hget]
  refine ⟨?_,h.struck,fun _ => ⟨hline,hwaits⟩⟩
  simpa using h.sent

theorem turn_error_ordered (rest : List SimpleMemRequest) (struck : Bool) (e : ProxyError)
    (hended : s.thread.ended=none) (hget : s.thread.tcpClient.getRequest f r=
      ({s.thread.tcpClient with line := []},some (.error e))) (hstruck : struck=true → rest≠[])
    (hwaits : e=.wouldBlock ∨ e=.timedOut → Waits f d struck rest stream)
    (h : Ordered f d s rest) :
    Ordered f d {turn f s r w with stream := stream,struck := struck} rest := by
  rw [turn,s.thread.startProcessing_error f s.map s.mem r w hended _ e hget]
  refine ⟨by simpa using h.sent,hstruck,?_⟩
  dsimp only
  intro halive
  split_ifs at halive ⊢ with he
  · -- the answer to a timeout does not touch the line
    have hline : (ProxyThread.goOn (SimpleTcpClient.writeLine
        {s.thread.tcpClient with line := []} [] w)).tcpClient.line=[] := by
      rw [ProxyThread.goOn_tcpClient]
      cases w <;> rfl
    rw [hline]
    exact ⟨List.not_mem_nil,hwaits he⟩

theorem turn_request_ordered (request : SimpleMemRequest) (rest : List SimpleMemRequest)
    (hended : s.thread.ended=none) (hget : s.thread.tcpClient.getRequest f r=
      ({s.thread.tcpClient with line := []},some (.ok request)))
    (hstruck : s.struck=false) (hwaits : Waits f d false rest stream)
    (h : Ordered f d s (request::rest)) :
    Ordered f d {turn f s r w with stream := stream} rest := by
  have hsent : s.sent=s.executed++[request]++rest := by simpa using h.sent
  rw [turn]
  rcases hprocess : processRequest s.map s.mem request with _|⟨mem',response⟩
  · rw [s.thread.startProcessing_panics f s.map s.mem r w hended _ request hget hprocess]
    exact ⟨hsent,by simp [hstruck],fun hnone => by cases hnone⟩
  · rw [s.thread.startProcessing_request f s.map s.mem r w hended _ request mem' response hget
      hprocess]
    refine ⟨hsent,by simp [hstruck],fun _ => ?_⟩
    have hline : (response.elim (ProxyThread.mk {s.thread.tcpClient with line := []} none)
        (fun x => ProxyThread.goOn (SimpleTcpClient.sendResponse f
          {s.thread.tcpClient with line := []} x w))).tcpClient.line=[] := by
      cases response with
      | none => rfl
      | some x =>
          dsimp only [Option.elim_some]
          rw [ProxyThread.goOn_tcpClient]
          cases w <;> rfl
    dsimp only
    rw [hline,hstruck]
    exact ⟨List.not_mem_nil,hwaits⟩

end Turns

theorem fail_ordered (s : State) (rest : List SimpleMemRequest) (r : ReadIo) (w : WriteIo)
    (e : ProxyError) (hget : s.thread.tcpClient.getRequest f r=
      ({s.thread.tcpClient with line := []},some (.error e))) (h : Ordered f d s rest) :
    Ordered f d (fail f s r w) rest := by
  rw [fail]
  by_cases hended : s.thread.ended=none
  swap
  · rw [turn_ended f s r w hended]
    have hsome : s.thread.ended.isNone=false := by simpa [Option.isSome_iff_ne_none] using hended
    simpa [hsome] using h
  obtain ⟨hline,hwaits⟩ := h.waits hended
  have hforget := hwaits.forget f d s.struck rest _ s.stream _ rfl hline
  rw [hended,Option.isNone_none,Bool.true_and]
  apply turn_error_ordered f d s r w s.stream rest _ e hended hget _ (fun _ => hforget) h
  intro hstruck
  rw [hstruck] at hforget
  exact hforget.lost f d rest _

theorem read_ordered (s : State) (rest : List SimpleMemRequest) (b : UInt8) (bytes : List UInt8)
    (w : WriteIo) (hs : s.stream=b::bytes) (hsend : ∀ r∈s.sent,d.Sendable r)
    (h : Ordered f d s rest) :
    ∃ rest',Ordered f d {turn f s (.byte b) w with stream := bytes} rest' := by
  by_cases hended : s.thread.ended=none
  swap
  · rw [turn_ended f s _ w hended]
    exact ⟨rest,h.sent,h.struck,fun hnone => absurd hnone hended⟩
  obtain ⟨hline,hwaits⟩ := h.waits hended
  rw [hs] at hwaits
  by_cases hb : b=newline
  swap
  · refine ⟨rest,turn_waits_ordered f d s _ w bytes rest (s.thread.tcpClient.line++[b]) hended ?_
      ?_ ?_ h⟩
    · rw [SimpleTcpClient.getRequest,if_neg hb]
    · simp [hline,Ne.symm hb]
    · simpa using hwaits
  · subst hb
    have hrest : ∀ r∈rest,d.Sendable r := by
      intro r hr
      exact hsend r (h.sent ▸ List.mem_append_right _ hr)
    rcases hwaits.line_end f d s.struck rest _ bytes _ rfl hline hrest with
      ⟨hstruck,request,rest',rfl,hparse,hnext⟩|⟨hstruck,hparse,hne⟩
    · refine ⟨rest',turn_request_ordered f d s _ w bytes request rest' hended ?_ hstruck hnext h⟩
      rw [SimpleTcpClient.getRequest,if_pos rfl,hparse]
    · refine ⟨rest,turn_error_ordered f d s _ w bytes rest s.struck .invalidData hended ?_
        (fun _ => hne) (by simp) h⟩
      rw [SimpleTcpClient.getRequest,if_pos rfl,hparse]

theorem eof_ordered (s : State) (rest : List SimpleMemRequest) (w : WriteIo) (hs : s.stream=[])
    (h : Ordered f d s rest) : Ordered f d (turn f s .eof w) rest := by
  by_cases hended : s.thread.ended=none
  swap
  · rwa [turn_ended f s _ w hended]
  obtain ⟨hline,hwaits⟩ := h.waits hended
  rw [hs,List.append_nil] at hwaits
  obtain ⟨hstruck,rfl,hempty⟩ := hwaits.drained f d s.struck rest _ hline
  have hget : s.thread.tcpClient.getRequest f .eof=({s.thread.tcpClient with line := []},
      some (.error (.unexpectedEof "Connection closed"))) := by
    rw [SimpleTcpClient.getRequest,if_pos (List.isEmpty_iff.mpr hempty),← hempty]
  have hturn := turn_error_ordered f d s .eof w s.stream [] s.struck _ hended hget
    (by simp [hstruck]) (by simp) h
  exact ⟨hturn.sent,hturn.struck,hturn.waits⟩

theorem step_ordered (s : State) (l : Label) (hl : Allowed f d s l)
    (hsend : ∀ r∈s.sent,d.Sendable r) (h : ∃ rest,Ordered f d s rest) :
    ∃ rest,Ordered f d (step f d s l) rest := by
  obtain ⟨rest,h⟩ := h
  cases l with
  | send r =>
      refine ⟨rest++[r],?_,?_,?_⟩
      · simp [step,h.sent]
      · simp
      · intro hended
        obtain ⟨hline,hwaits⟩ := h.waits hended
        refine ⟨hline,?_⟩
        simp only [step]
        rw [← List.append_assoc]
        exact hwaits.send f d s.struck rest _ r
  | read w =>
      rw [step]
      rcases hs : s.stream with _|⟨b,bytes⟩
      · exact ⟨rest,h⟩
      · exact read_ordered f d s rest b bytes w hs hsend h
  | timeout w => exact ⟨rest,fail_ordered f d s rest _ w .wouldBlock rfl h⟩
  | eof w =>
      rw [step]
      split_ifs with hs
      · exact ⟨rest,eof_ordered f d s rest w (List.isEmpty_iff.mp hs) h⟩
      · exact ⟨rest,h⟩
  | error e w => exact ⟨rest,fail_ordered f d s rest _ w e rfl h⟩
  | memory map mem => exact ⟨rest,h.sent,h.struck,h.waits⟩

/-- A response, or the empty line that answers a timeout. -/
def outLine : Option SimpleMemResponse → List UInt8
  | none => [newline]
  | some response => f.toString response++[newline]

/-- The lines of some bytes that are not empty. -/
def linesIn (bytes : List UInt8) : List (List UInt8) :=
  (Framing.feed (Framing.endsWith newline) [] bytes).1.filter (·≠[newline])

/-- The thread has written a line for each response and each timeout, and behind them at most the
beginning of a last response. -/
structure Answered (s : State) (items : List (Option SimpleMemResponse)) (tail : List UInt8) :
    Prop where
  written : s.thread.tcpClient.written=items.flatMap (outLine f)++tail
  cut : newline∉tail
  responses : items.filterMap id<+:s.responses
  alive : s.thread.ended=none → tail=[] ∧ items.filterMap id=s.responses

include d in
theorem outLine_frame (item : Option SimpleMemResponse) :
    Framing.Frame (Framing.endsWith newline) (outLine f item) := by
  cases item with
  | none => exact Framing.frame_line newline [] List.not_mem_nil
  | some response => exact Framing.frame_line newline _ (d.response_line response).1

include d in
theorem Answered.linesIn (s : State) (items : List (Option SimpleMemResponse)) (tail : List UInt8)
    (h : Answered f s items tail) :
    linesIn s.thread.tcpClient.written=(items.filterMap id).map (fun x => outLine f (some x)) := by
  have htail : Framing.feed (Framing.endsWith newline) [] tail=([],tail) := by
    apply Framing.feed_open
    intro p hp _
    apply Framing.endsWith_of_notMem
    intro hmem
    exact h.cut (hp.subset hmem)
  rw [ProxySystem.linesIn,h.written,
    Framing.feed_flatMap _ _ items tail (fun item _ => outLine_frame f d item),htail,
    List.append_nil]
  clear h
  induction items with
  | nil => rfl
  | cons item items ih =>
      rw [List.map_cons,List.filter_cons,List.filterMap_cons,ih]
      cases item with
      | none => simp [outLine]
      | some response => simp [outLine,(d.response_line response).2]

/-- A line is written, or cut off. -/
theorem goOn_answered (s : State) (items : List (Option SimpleMemResponse))
    (item : Option SimpleMemResponse) (line : List UInt8) (c : SimpleTcpClient) (w : WriteIo)
    (mem : Memory) (executed : List SimpleMemRequest)
    (hitem : outLine f item=line++[newline]) (hline : newline∉line)
    (hwritten : c.written=items.flatMap (outLine f)) (hresponses : items.filterMap id=s.responses) :
    ∃ items tail,Answered f {s with
      mem := mem
      thread := ProxyThread.goOn (c.writeLine line w)
      executed := executed
      responses := s.responses++item.toList} items tail := by
  cases w with
  | ok =>
      have hitems : (items++[item]).filterMap id=s.responses++item.toList := by
        rw [List.filterMap_append,hresponses]
        cases item <;> rfl
      refine ⟨items++[item],[],?_,List.not_mem_nil,?_,fun _ => ⟨rfl,hitems⟩⟩
      · simp [SimpleTcpClient.writeLine,ProxyThread.goOn,hwritten,hitem]
      · rw [hitems]
  | cut n e =>
      refine ⟨items,line.take n,?_,?_,?_,?_⟩
      · simp [SimpleTcpClient.writeLine,ProxyThread.goOn,hwritten]
      · intro hmem
        exact hline (List.mem_of_mem_take hmem)
      · exact ⟨item.toList,by rw [hresponses]⟩
      · intro halive
        cases halive

include d in
theorem turn_answered (s : State) (r : ReadIo) (w : WriteIo)
    (h : ∃ items tail,Answered f s items tail) :
    ∃ items tail,Answered f (turn f s r w) items tail := by
  by_cases hended : s.thread.ended=none
  swap
  · rwa [turn_ended f s r w hended]
  obtain ⟨items,tail,h⟩ := h
  obtain ⟨rfl,hresponses⟩ := h.alive hended
  have hwritten := s.thread.tcpClient.getRequest_written f r
  rw [h.written,List.append_nil] at hwritten
  have hkeep (t : ProxyThread) (mem : Memory) (executed : List SimpleMemRequest)
      (ht : t.tcpClient.written=items.flatMap (outLine f)) :
      ∃ items tail,Answered f {s with
        mem := mem
        thread := t
        executed := executed
        responses := s.responses++[]} items tail :=
    ⟨items,[],by rw [ht,List.append_nil],List.not_mem_nil,by rw [hresponses,List.append_nil],
      fun _ => ⟨rfl,by rw [hresponses,List.append_nil]⟩⟩
  rw [turn]
  rcases hget : s.thread.tcpClient.getRequest f r with ⟨c,_|e|request⟩
  all_goals rw [hget] at hwritten
  · rw [s.thread.startProcessing_waits f s.map s.mem r w hended c hget]
    exact hkeep _ _ _ hwritten
  · rw [s.thread.startProcessing_error f s.map s.mem r w hended c e hget]
    dsimp only
    split_ifs
    · exact goOn_answered f s items none [] c w s.mem _ rfl List.not_mem_nil hwritten hresponses
    · exact hkeep _ _ _ hwritten
  · rcases hprocess : processRequest s.map s.mem request with _|⟨mem',response⟩
    · rw [s.thread.startProcessing_panics f s.map s.mem r w hended c request hget hprocess]
      exact hkeep _ _ _ hwritten
    · rw [s.thread.startProcessing_request f s.map s.mem r w hended c request mem' response hget
        hprocess]
      cases response with
      | none => exact hkeep _ _ _ hwritten
      | some x =>
          exact goOn_answered f s items (some x) _ c w mem' _ rfl (d.response_line x).1 hwritten
            hresponses

theorem step_answered (s : State) (l : Label) (h : ∃ items tail,Answered f s items tail) :
    ∃ items tail,Answered f (step f d s l) items tail := by
  have hturn (r : ReadIo) (w : WriteIo) (stream : List UInt8) (struck : Bool) :
      ∃ items tail,Answered f {turn f s r w with stream := stream,struck := struck} items tail := by
    obtain ⟨items,tail,ht⟩ := turn_answered f d s r w h
    exact ⟨items,tail,ht.written,ht.cut,ht.responses,ht.alive⟩
  have hsame (s' : State) (ht : s'.thread=s.thread) (hr : s'.responses=s.responses) :
      ∃ items tail,Answered f s' items tail := by
    obtain ⟨items,tail,hwritten,hcut,hresponses,halive⟩ := h
    rw [← ht] at hwritten halive
    rw [← hr] at hresponses halive
    exact ⟨items,tail,hwritten,hcut,hresponses,halive⟩
  cases l with
  | send r => exact hsame _ rfl rfl
  | read w =>
      rw [step]
      rcases s.stream with _|⟨b,bytes⟩
      · exact h
      · exact hturn (.byte b) w bytes _
  | timeout w => exact hturn .timeout w _ _
  | eof w =>
      rw [step]
      split_ifs
      · exact hturn .eof w _ _
      · exact h
  | error e w => exact hturn (.error e) w _ _
  | memory map mem => exact hsame _ rfl rfl

structure Inv (s : State) : Prop where
  sendable : ∀ r∈s.sent,d.Sendable r
  ordered : ∃ rest,Ordered f d s rest
  answered : ∃ items tail,Answered f s items tail

theorem step_inv (s : State) (l : Label) (hl : Allowed f d s l) (h : Inv f d s) :
    Inv f d (step f d s l) := by
  refine ⟨?_,step_ordered f d s l hl h.sendable h.ordered,step_answered f d s l h.answered⟩
  cases l with
  | send r =>
      intro x hx
      rcases List.mem_append.mp hx with hx|hx
      · exact h.sendable x hx
      · rw [List.mem_singleton.mp hx]
        exact hl
  | read w =>
      rw [step]
      rcases s.stream with _|⟨b,bytes⟩ <;> exact h.sendable
  | timeout w => exact h.sendable
  | eof w =>
      rw [step]
      split_ifs <;> exact h.sendable
  | error e w => exact h.sendable
  | memory map mem => exact h.sendable

theorem turn_error_executed (s : State) (r : ReadIo) (w : WriteIo) (c : SimpleTcpClient)
    (e : ProxyError) (hget : s.thread.tcpClient.getRequest f r=(c,some (.error e))) :
    (turn f s r w).executed=s.executed := by
  by_cases hended : s.thread.ended=none
  · rw [turn,s.thread.startProcessing_error f s.map s.mem r w hended c e hget]
    exact List.append_nil _
  · rw [turn_ended f s r w hended]

section Struck
variable (s : State) (h : Inv f d s) (hstruck : s.struck=true) (hended : s.thread.ended=none)
  (b : UInt8) (bytes : List UInt8) (w : WriteIo) (hs : s.stream=b::bytes)
include h hstruck hended hs

/-- In the rest of a line whose beginning was forgotten the thread goes on reading, and its end is
no request. -/
theorem struck_getRequest : s.thread.tcpClient.getRequest f (.byte b)=
    if b=newline then ({s.thread.tcpClient with line := []},some (.error .invalidData))
    else ({s.thread.tcpClient with line := s.thread.tcpClient.line++[b]},none) := by
  rw [SimpleTcpClient.getRequest]
  split_ifs with hb
  swap
  · rfl
  obtain ⟨rest,hordered⟩ := h.ordered
  obtain ⟨hline,hwaits⟩ := hordered.waits hended
  have hrest : ∀ r∈rest,d.Sendable r := by
    intro r hr
    exact h.sendable r (hordered.sent ▸ List.mem_append_right _ hr)
  rw [hs,hb] at hwaits
  rcases hwaits.line_end f d s.struck rest _ bytes _ rfl hline hrest with ⟨hno,-⟩|⟨-,hparse,-⟩
  · rw [hstruck] at hno
    cases hno
  · rw [hb,hparse]

/-- With the end of the line the thread ends. -/
theorem struck_read : (step f d s (.read w)).executed=s.executed ∧
    (step f d s (.read w)).thread.ended=
      if b=newline then some (.error .invalidData) else none := by
  have hget := struck_getRequest f d s h hstruck hended b bytes hs
  simp only [step,hs,turn]
  split_ifs at hget ⊢ with hb
  · rw [s.thread.startProcessing_error f s.map s.mem _ w hended _ _ hget]
    exact ⟨List.append_nil _,rfl⟩
  · rw [s.thread.startProcessing_waits f s.map s.mem _ w hended _ hget]
    exact ⟨List.append_nil _,rfl⟩

end Struck

/-- Once reading has failed inside a line no request is taken any more. -/
theorem step_struck (s : State) (l : Label) (h : Inv f d s) (hstruck : s.struck=true) :
    (step f d s l).struck=true ∧ (step f d s l).executed=s.executed := by
  cases l with
  | send r => exact ⟨hstruck,rfl⟩
  | read w =>
      rcases hs : s.stream with _|⟨b,bytes⟩
      · rw [step,hs]
        exact ⟨hstruck,rfl⟩
      refine ⟨by rw [step,hs]; exact hstruck,?_⟩
      by_cases hended : s.thread.ended=none
      · exact (struck_read f d s h hstruck hended b bytes w hs).1
      · rw [step,hs]
        change (turn f s (.byte b) w).executed=s.executed
        rw [turn_ended f s (.byte b) w hended]
  | timeout w => exact ⟨by simp [step,fail,hstruck],turn_error_executed f s _ w _ _ rfl⟩
  | eof w =>
      rw [step]
      split_ifs with hs
      · refine ⟨hstruck,?_⟩
        by_cases hended : s.thread.ended=none
        swap
        · rw [turn_ended f s _ w hended]
        obtain ⟨rest,hordered⟩ := h.ordered
        obtain ⟨hline,hwaits⟩ := hordered.waits hended
        rw [List.isEmpty_iff.mp hs,List.append_nil] at hwaits
        obtain ⟨hno,-⟩ := hwaits.drained f d s.struck rest _ hline
        rw [hstruck] at hno
        cases hno
      · exact ⟨hstruck,rfl⟩
  | error e w => exact ⟨by simp [step,fail,hstruck],turn_error_executed f s _ w _ _ rfl⟩
  | memory map mem => exact ⟨hstruck,rfl⟩

theorem run_struck (s : State) (ls : List Label) (hls : Run.Along (step f d) (Allowed f d) s ls)
    (h : Inv f d s) (hstruck : s.struck=true) :
    (Run.run (step f d) s ls).executed=s.executed := by
  have hend := Run.run_inv (step f d) (Allowed f d)
    (fun t => Inv f d t ∧ t.struck=true ∧ t.executed=s.executed)
    (fun t l hl ht => by
      obtain ⟨hkept,hsame⟩ := step_struck f d t l ht.1 ht.2.1
      exact ⟨step_inv f d t l hl ht.1,hkept,hsame.trans ht.2.2⟩) s ls hls ⟨h,hstruck,rfl⟩
  exact hend.2.2

def start (map : PaVaMap) (mem : Memory) : State := {map := map,mem := mem}

theorem start_inv (map : PaVaMap) (mem : Memory) : Inv f d (start map mem) where
  sendable := by simp [start]
  ordered := ⟨[],rfl,by simp [start],fun _ => ⟨List.not_mem_nil,.whole []⟩⟩
  answered := ⟨[],[],rfl,List.not_mem_nil,List.prefix_refl _,fun _ => ⟨rfl,rfl⟩⟩

end
end ProxySystem

open ProxySystem in
/-- The thread does to memory what a server does that is handed whole requests, in the order the
simulator sent them and each at most once, and the simulator reads its responses in this order.
As long as no timeout and no error falls inside a line none is left out. After one no request is
taken any more, that of the line and all behind it being lost, and the thread ends with the line,
which is no request without its beginning. -/
theorem proxy_requests_in_order (f : ProxyFormat) (d : Dialect f) (map : PaVaMap) (mem : Memory)
    (ls : List ProxySystem.Label) (hls : Run.Along (step f d) (Allowed f d) (start map mem) ls) :
    let s := Run.run (step f d) (start map mem) ls
    toServer s=Run.run Server.step ⟨map,mem,[],[],false⟩
      (Run.refined (step f d) (abstractLabel f) (start map mem) ls) ∧
    s.executed<+:s.sent ∧
    linesIn s.thread.tcpClient.written<+:s.responses.map (fun x => outLine f (some x)) ∧
    (s.thread.ended=none →
      linesIn s.thread.tcpClient.written=s.responses.map (fun x => outLine f (some x))) ∧
    (s.stream=[] → s.thread.ended=none → s.struck=false ∧ s.executed=s.sent) ∧
    (s.struck=true → s.executed≠s.sent ∧
      (∀ ms,Run.Along (step f d) (Allowed f d) s ms →
        (Run.run (step f d) s ms).executed=s.executed) ∧
      (s.thread.ended=none → ∀ b rest w,s.stream=b::rest → (step f d s (.read w)).thread.ended=
        if b=newline then some (.error .invalidData) else none)) := by
  intro s
  have hinv : Inv f d s := Run.run_inv (step f d) (Allowed f d) (Inv f d) (step_inv f d) _ ls hls
    (start_inv f d map mem)
  have hserver := Run.run_refined (step f d) (Allowed f d) Server.step toServer (abstractLabel f)
    (Inv f d) (step_inv f d) (fun s l _ _ => step_refined f d s l) _ ls hls
    (start_inv f d map mem)
  obtain ⟨rest,hordered⟩ := hinv.ordered
  obtain ⟨items,tail,hanswered⟩ := hinv.answered
  have hlines := hanswered.linesIn f d s items tail
  refine ⟨hserver,⟨rest,hordered.sent.symm⟩,?_,?_,?_,fun hstruck => ⟨?_,?_,?_⟩⟩
  · rw [hlines]
    exact hanswered.responses.map _
  · intro halive
    rw [hlines,(hanswered.alive halive).2]
  · intro hstream halive
    obtain ⟨hline,hwaits⟩ := hordered.waits halive
    rw [hstream,List.append_nil] at hwaits
    obtain ⟨hstruck,hrest,-⟩ := hwaits.drained f d s.struck rest _ hline
    refine ⟨hstruck,?_⟩
    rw [hordered.sent,hrest,List.append_nil]
  · intro heq
    have hsent := hordered.sent
    rw [heq] at hsent
    exact hordered.struck hstruck (List.self_eq_append_right.mp hsent)
  · exact fun ms hms => run_struck f d s ms hms hinv hstruck
  · exact fun halive b bytes w hs => (struck_read f d s hinv hstruck halive b bytes w hs).2

namespace ProxySystem

/-- A read of one byte at the start of a page. -/
def oneRead : SimpleMemRequest :=
  {requestType := "mem_read",channelId := 0,address := 0x1000,length := 1}

/-- The line the simulator writes for it. -/
def oneReadLine : List UInt8 :=
  ("\x7b\"type\": \"mem_read\", \"channel_id\": 0, \"address\": 4096, " ++
    "\"length\": 1\x7d").toUTF8.toList

/-- The response to it from memory that holds zeros. -/
def zeroReadLine : List UInt8 :=
  "\x7b\"type\":\"mem_read_response\",\"channel_id\":0,\"data\":[0]\x7d".toUTF8.toList

/-- As much of the format as these two lines need. -/
def oneReadFormat : ProxyFormat where
  fromStr := fun line => if line=oneReadLine then some oneRead else none
  toString := fun _ => zeroReadLine

def oneReadDialect : Dialect oneReadFormat where
  encode := fun _ => oneReadLine
  Sendable := fun r => r=oneRead
  one_line := by
    intro r _
    show newline∉oneReadLine
    decide +kernel
  parsed := by
    intro r hr
    have htrim : trim (oneReadLine++[newline])=oneReadLine := by decide +kernel
    have hfound : oneReadFormat.fromStr oneReadLine=some oneRead := if_pos rfl
    rw [hr,SimpleTcpClient.parse,htrim,hfound]
  headless := by
    intro r _ p q hp hsplit
    have hrest : ∀ k<68,0<k → trim (oneReadLine.drop k++[newline])≠oneReadLine := by decide +kernel
    have hlength : oneReadLine.length=67 := by decide +kernel
    have hq : q=oneReadLine.drop p.length := by
      rw [show oneReadLine=p++q from hsplit,List.drop_left]
    have hlen : p.length<68 := by
      have := congrArg List.length hsplit
      rw [hlength,List.length_append] at this
      omega
    have hne := hrest p.length hlen (List.length_pos_iff.mpr hp)
    rw [← hq] at hne
    have hnone : oneReadFormat.fromStr (trim (q++[newline]))=none := if_neg hne
    rw [SimpleTcpClient.parse,hnone]
  response_line := by
    intro _
    show newline∉zeroReadLine ∧ zeroReadLine≠[]
    decide +kernel

/-- The thread gets as far as the second byte of the line before its patience ends. -/
def impatient : List Label := [.send oneRead,.read .ok,.read .ok,.timeout .ok,.send oneRead]

end ProxySystem

open ProxySystem in
/-- The patience of the thread ends inside the line of a request: the request is lost, and so is the
next one, even if everything is read. -/
theorem proxy_requests_in_order_struck :
    let s := Run.run (step oneReadFormat oneReadDialect)
      (start SimpleMemoryProxyClient.onePage (fun _ => 0)) impatient
    s.struck=true ∧ s.sent.length=2 ∧ s.executed=[] ∧
    (Run.run (step oneReadFormat oneReadDialect) s (List.replicate 136 (.read .ok))).executed=
      s.executed := by
  intro s
  have hstruck : s.struck=true := by decide +kernel
  refine ⟨hstruck,by decide +kernel,by decide +kernel,?_⟩
  have hreads (n : Nat) (t : State) : Run.Along (step oneReadFormat oneReadDialect)
      (Allowed oneReadFormat oneReadDialect) t (List.replicate n (.read .ok)) := by
    induction n generalizing t with
    | zero => trivial
    | succ n ih => exact ⟨trivial,ih _⟩
  exact ((proxy_requests_in_order oneReadFormat oneReadDialect SimpleMemoryProxyClient.onePage
    (fun _ => 0) impatient ⟨rfl,trivial,trivial,trivial,rfl,trivial⟩).2.2.2.2.2 hstruck).2.1 _
    (hreads _ s)

end BlueRdma
