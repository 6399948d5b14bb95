import BlueRdma.RingBuf.DmaRb

namespace BlueRdma

/-- The bytes of one descriptor. -/
abbrev DescBytes := Vector UInt8 32

instance : Zeroed DescBytes := ⟨Vector.replicate 32 0⟩

class DescSerialize (T : Type) where
  serialize : T → DescBytes

class DescDeserialize (T : Type) where
  deserialize : DescBytes → T

instance : DescSerialize DescBytes := ⟨id⟩

instance : DescDeserialize DescBytes := ⟨id⟩

/-- A ring of descriptors. -/
structure DescRingBuffer where
  ring : DmaRingBuf DescBytes

namespace DescRingBuffer

/-- A ring in fresh memory. -/
def zeroed : DescRingBuffer := ⟨.new fun _ => Zeroed.zeroed⟩

/-- Highest bit is the valid bit. -/
def isValid (desc : DescBytes) : Bool := desc[31]>>>7==1

def hasNext (desc : DescBytes) : Bool := (desc[31]>>>6)&&&1==1

def push {T : Type} [DescSerialize T] (rb : DescRingBuffer) (value : T) :
    DescRingBuffer × Bool :=
  let (ring,ok) := rb.ring.push (DescSerialize.serialize value)
  (⟨ring⟩,ok)

def pop (T : Type) [DescDeserialize T] (rb : DescRingBuffer) : DescRingBuffer × Option T :=
  let (ring,desc) := rb.ring.pop isValid
  (⟨ring⟩,desc.map DescDeserialize.deserialize)

def popTwo (A B : Type) [DescDeserialize A] [DescDeserialize B] (rb : DescRingBuffer) :
    DescRingBuffer × Option A × Option B :=
  let (ring,a,b) := rb.ring.popTwo isValid hasNext
  (⟨ring⟩,a.map DescDeserialize.deserialize,b.map DescDeserialize.deserialize)

def remaining (rb : DescRingBuffer) : UInt64 := rb.ring.remaining

def setTail (rb : DescRingBuffer) (tail : UInt32) : DescRingBuffer := ⟨rb.ring.setTail tail⟩

def setHead (rb : DescRingBuffer) (head : UInt32) : DescRingBuffer := ⟨rb.ring.setHead head⟩

def head (rb : DescRingBuffer) : UInt64 := rb.ring.head

def tail (rb : DescRingBuffer) : UInt64 := rb.ring.tail

section Refinement
variable (T A B : Type) [DescSerialize T] [DescDeserialize A] [DescDeserialize B]

/-- The three operations as requests with their answers. -/
def handle (rb : DescRingBuffer) : Fifo.Request T → DescRingBuffer × Fifo.Answer A B
  | .push value => ((rb.push value).1,.pushed (rb.push value).2)
  | .pop => ((rb.pop A).1,.popped (rb.pop A).2)
  | .popTwo => ((rb.popTwo A B).1,.poppedTwo (rb.popTwo A B).2.1 (rb.popTwo A B).2.2)

/-- A list of `ringBufLen` descriptors at most, from which whole descriptors are read. -/
def fifo (l : List DescBytes) (r : Fifo.Request T) : List DescBytes × Fifo.Answer A B :=
  let (l,answer) := Fifo.step ringBufLen hasNext l (r.map DescSerialize.serialize)
  (l,answer.map DescDeserialize.deserialize DescDeserialize.deserialize)

/-- The ring holds the listed descriptors, all of them valid. -/
structure Holds (rb : DescRingBuffer) (l : List DescBytes) : Prop where
  stores : rb.ring.Stores l
  valid : ∀ d∈l,isValid d=true

/-- Descriptors are pushed with the valid bit set. -/
def Pushable : Fifo.Request T → Prop
  | .push value => isValid (DescSerialize.serialize value)=true
  | _ => True

theorem zeroed_invalid : isValid Zeroed.zeroed=false := by decide

theorem holds_zeroed : Holds zeroed [] := ⟨DmaRingBuf.new_stores,fun d hd => by cases hd⟩

/-- One request: the ring answers like the list, and is untouched where the list is. -/
theorem handle_fifo (rb : DescRingBuffer) (l : List DescBytes) (r : Fifo.Request T)
    (h : Holds rb l) (hr : Pushable T r) :
    Holds (handle T A B rb r).1 (fifo T A B l r).1 ∧
      (handle T A B rb r).2=(fifo T A B l r).2 ∧
      ((fifo T A B l r).1=l → (handle T A B rb r).1=rb) := by
  obtain ⟨hstores,hvalid⟩ := h
  cases r with
  | push value =>
      rcases Nat.lt_or_ge l.length 4096 with hroom|hfull
      · obtain ⟨hok,hnext⟩ := hstores.push_stores hroom (DescSerialize.serialize value)
        have hfifo : fifo T A B l (.push value)=
            (l++[DescSerialize.serialize value],.pushed true) := by
          rw [fifo,Fifo.Request.map,Fifo.step_push_room ringBufLen hroom]
          rfl
        rw [hfifo]
        refine ⟨⟨hnext,?_⟩,congrArg Fifo.Answer.pushed hok,?_⟩
        · intro d hd
          rcases List.mem_append.mp hd with hd|hd
          · exact hvalid d hd
          · rw [List.mem_singleton.mp hd]
            exact hr
        · intro hsame
          have := congrArg List.length hsame
          simp at this
      · have hlen : l.length=4096 := Nat.le_antisymm hstores.window.fits hfull
        have hpush := hstores.window.push_full hlen (DescSerialize.serialize value)
        have hfifo : fifo T A B l (.push value)=(l,.pushed false) := by
          rw [fifo,Fifo.Request.map,Fifo.step_push_full ringBufLen hlen]
          rfl
        have hhandle : handle T A B rb (.push value)=(rb,.pushed false) := by
          simp only [handle,push,hpush]
        rw [hfifo,hhandle]
        exact ⟨⟨hstores,hvalid⟩,rfl,fun _ => rfl⟩
  | pop =>
      obtain ⟨hvalue,hnext,hempty⟩ := hstores.pop_stores zeroed_invalid hvalid
      refine ⟨⟨hnext,fun d hd => hvalid d (List.mem_of_mem_tail hd)⟩,?_,?_⟩
      · exact congrArg (fun x : Option DescBytes =>
          (Fifo.Answer.popped (x.map DescDeserialize.deserialize) : Fifo.Answer A B)) hvalue
      · intro hsame
        have hnil : l=[] := by
          have hlen := congrArg List.length hsame
          change l.tail.length=l.length at hlen
          rw [List.length_tail] at hlen
          exact List.length_eq_zero_iff.mp (by omega)
        simp only [handle,pop,hempty hnil]
  | popTwo =>
      obtain ⟨hvalue,hnext,hsame⟩ :=
        hstores.popTwo_stores hasNext zeroed_invalid hvalid
      refine ⟨⟨hnext,fun d hd => hvalid d (Fifo.mem_popTwo d hd)⟩,?_,?_⟩
      · exact congrArg (fun x : Option DescBytes × Option DescBytes =>
          (Fifo.Answer.poppedTwo (x.1.map DescDeserialize.deserialize)
            (x.2.map DescDeserialize.deserialize) : Fifo.Answer A B)) hvalue
      · intro hl
        exact congrArg DescRingBuffer.mk (hsame hl)

/-- The ring of descriptors is a bounded list: the answers to any requests are those of the list,
and a request that leaves the list alone leaves the ring alone. -/
theorem ring_is_fifo (rs : List (Fifo.Request T)) (hrs : ∀ r∈rs,Pushable T r) :
    (Run.serve (handle T A B) zeroed rs).2=(Run.serve (fifo T A B) [] rs).2 ∧
    ∀ r,Pushable T r →
      (fifo T A B (Run.serve (fifo T A B) [] rs).1 r).1=(Run.serve (fifo T A B) [] rs).1 →
      (handle T A B (Run.serve (handle T A B) zeroed rs).1 r).1=
        (Run.serve (handle T A B) zeroed rs).1 := by
  obtain ⟨hend,hanswers⟩ := Run.serve_related (handle T A B) (fifo T A B) Holds (Pushable T)
    (fun rb l r hr h => ⟨(handle_fifo T A B rb l r h hr).1,(handle_fifo T A B rb l r h hr).2.1⟩)
    rs hrs zeroed [] holds_zeroed
  exact ⟨hanswers,fun r hr hsame => (handle_fifo T A B _ _ r hend hr).2.2 hsame⟩

/-- A descriptor with the given last byte. -/
def lastByte (b : UInt8) : DescBytes := (Vector.replicate 32 0).set 31 b

/-- Two descriptors of which the first announces the second, then one on its own: what is
announced is only taken when it is there. -/
theorem ring_is_fifo_pair :
    (Run.serve (handle DescBytes DescBytes DescBytes) zeroed
      [.push (lastByte 0xC0),.popTwo,.push (lastByte 0x80),.popTwo,.pop]).2=
      [.pushed true,.poppedTwo none none,.pushed true,
        .poppedTwo (some (lastByte 0xC0)) (some (lastByte 0x80)),.popped none] :=
  (ring_is_fifo DescBytes DescBytes DescBytes _ (by
    intro r hr
    simp only [List.mem_cons,List.not_mem_nil,or_false] at hr
    rcases hr with rfl|rfl|rfl|rfl|rfl <;> trivial)).1.trans (by decide)

end Refinement
end DescRingBuffer
end BlueRdma
