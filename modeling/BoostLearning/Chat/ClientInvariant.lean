import BoostLearning.Chat.Client

/-!
# The write pipeline of the client

The messages reach `_write_msgs` in the order of the calls, whichever handlers run in between,
and the bytes reach the transport in the order of the queue. Nothing records whether a write is
in progress: while the socket is open, that is what a non-empty queue means.
-/

namespace BoostLearning.Chat

namespace ClientObs

@[simp]
def called? : ClientObs → Option ChatMessage
  | .called msg => some msg
  | _ => none

@[simp]
def pushed? : ClientObs → Option ChatMessage
  | .pushed msg => some msg
  | _ => none

@[simp]
def printed? : ClientObs → Option (List Byte)
  | .printed text => some text
  | _ => none

@[simp]
def act? : ClientObs → Option SocketAct
  | .socket act => some act
  | _ => none

end ClientObs

/-- The messages `write` was called with, those pushed on `_write_msgs`, and what was printed. -/
def calledOf (tr : List ClientObs) : List ChatMessage := tr.filterMap ClientObs.called?

def pushedOf (tr : List ClientObs) : List ChatMessage := tr.filterMap ClientObs.pushed?

def printedOf (tr : List ClientObs) : List (List Byte) := tr.filterMap ClientObs.printed?

def actsOf (tr : List ClientObs) : List SocketAct := tr.filterMap ClientObs.act?

def receivedOf (tr : List ClientObs) : List Byte := (actsOf tr).flatMap SocketAct.input

def sentOf (tr : List ClientObs) : List Byte := (actsOf tr).flatMap SocketAct.output

def waiting (posted : List Posted) : List ChatMessage :=
  posted.filterMap fun
    | .write msg => some msg
    | .close => none

section Projections

variable (tr obs : List ClientObs)

@[simp]
theorem calledOf_append : calledOf (tr ++ obs) = calledOf tr ++ calledOf obs :=
  List.filterMap_append

@[simp]
theorem pushedOf_append : pushedOf (tr ++ obs) = pushedOf tr ++ pushedOf obs :=
  List.filterMap_append

@[simp]
theorem printedOf_append : printedOf (tr ++ obs) = printedOf tr ++ printedOf obs :=
  List.filterMap_append

@[simp]
theorem actsOf_append : actsOf (tr ++ obs) = actsOf tr ++ actsOf obs := List.filterMap_append

@[simp]
theorem calledOf_cons (o : ClientObs) : calledOf (o :: tr) = o.called?.toList ++ calledOf tr := by
  cases o <;> rfl

@[simp]
theorem pushedOf_cons (o : ClientObs) : pushedOf (o :: tr) = o.pushed?.toList ++ pushedOf tr := by
  cases o <;> rfl

@[simp]
theorem printedOf_cons (o : ClientObs) :
    printedOf (o :: tr) = o.printed?.toList ++ printedOf tr := by
  cases o <;> rfl

@[simp]
theorem actsOf_cons (o : ClientObs) : actsOf (o :: tr) = o.act?.toList ++ actsOf tr := by
  cases o <;> rfl

@[simp]
theorem calledOf_nil : calledOf [] = [] := rfl

@[simp]
theorem pushedOf_nil : pushedOf [] = [] := rfl

@[simp]
theorem printedOf_nil : printedOf [] = [] := rfl

@[simp]
theorem actsOf_nil : actsOf [] = [] := rfl

@[simp]
theorem receivedOf_append : receivedOf (tr ++ obs) = receivedOf tr ++ receivedOf obs := by
  simp [receivedOf]

@[simp]
theorem receivedOf_cons (o : ClientObs) :
    receivedOf (o :: tr) = o.act?.toList.flatMap SocketAct.input ++ receivedOf tr := by
  simp [receivedOf]

@[simp]
theorem receivedOf_nil : receivedOf [] = [] := rfl

@[simp]
theorem sentOf_cons (o : ClientObs) :
    sentOf (o :: tr) = o.act?.toList.flatMap SocketAct.output ++ sentOf tr := by
  simp [sentOf]

@[simp]
theorem sentOf_nil : sentOf [] = [] := rfl

@[simp]
theorem sentOf_append : sentOf (tr ++ obs) = sentOf tr ++ sentOf obs := by
  simp [sentOf]

@[simp]
theorem waiting_write (m : ChatMessage) (ps : List Posted) :
    waiting (.write m :: ps) = m :: waiting ps := rfl

@[simp]
theorem waiting_close (ps : List Posted) : waiting (.close :: ps) = waiting ps := rfl

end Projections

namespace ClientHandled

variable {c c' : ChatClient} {e : ClientEvent} {tr obs : List ClientObs}

private theorem order (hh : ClientHandled c e c' obs)
    (h : calledOf tr = pushedOf tr ++ waiting c.posted) :
    calledOf (tr ++ obs) = pushedOf (tr ++ obs) ++ waiting c'.posted := by
  rw [calledOf_append, pushedOf_append, h, List.append_assoc, List.append_assoc]
  congr 1
  cases hh with
  | write => simp [waiting]
  | close => simp [waiting]
  | pushed hp => simp [hp]
  | closed hp => simp [hp]
  | _ => simp

private theorem writes (hh : ClientHandled c e c' obs)
    (h : c.writes.Inv wireFormat (pushedOf tr) (sentOf tr))
    (hlive : c.closed = false → c.writes.Live) :
    c'.writes.Inv wireFormat (pushedOf (tr ++ obs)) (sentOf (tr ++ obs)) ∧
      (c'.closed = false → c'.writes.Live) := by
  cases hh with
  | @pushed msg rest hp =>
    constructor
    · simpa using h.enqueue msg
    · intro hopen
      exact (hlive hopen).enqueue msg
  | @transmit i n q bytes hopen hq =>
    obtain ⟨hinv, hl, -⟩ := h.transmit hq
    constructor
    · simpa [SocketAct.output] using hinv
    · intro _
      exact hl.2 (hlive hopen)
  | written hq =>
    obtain ⟨rfl, hinv, -, m, hm, hwire⟩ := h.retire hq
    obtain ⟨hadv, hl⟩ := hinv.advance rfl hm (hwire rfl)
    constructor
    · simpa using hadv
    · intro _
      exact hl
  | writeFailed hq =>
    obtain ⟨rfl, hinv, -⟩ := h.retire hq
    constructor
    · simpa using hinv
    · intro hopen
      exact absurd hopen (by simp)
  | closed hp =>
    constructor
    · simpa using h
    · intro hopen
      exact absurd hopen (by simp)
  | headerRejected hr hs hrej =>
    constructor
    · simpa using h
    · intro hopen
      exact absurd hopen (by simp)
  | readFailed hr =>
    constructor
    · simpa [SocketAct.output] using h
    · intro hopen
      exact absurd hopen (by simp)
  | receive hopen hr =>
    constructor
    · simpa [SocketAct.output] using h
    · exact hlive
  | _ =>
    constructor
    · simpa using h
    · exact hlive

end ClientHandled

/-- The socket is being connected, and nothing has been read, or `do_connect` is over. -/
def Connecting (c : ChatClient) (tr : List ClientObs) : Prop :=
  c.connects = 0 ∨
    (c.connects = 1 ∧ c.reads.reads = [] ∧ receivedOf tr = [] ∧ printedOf tr = [])

/-- What has been printed are the messages that the read chain has handed on. -/
def Printing (c : ChatClient) (tr : List ClientObs) : Prop :=
  ∃ published, printedOf tr = published.map ChatMessage.shown ∧
    c.reads.Inv (CleanReads (actsOf tr)) (receivedOf tr) published

/-- A header that is refused stands behind frames of the input. -/
def RejectedAt (tr : List ClientObs) : Prop :=
  ∃ (frames : List (List Byte)) (header : List Byte), (∀ f ∈ frames, chatCodec.IsFrame f) ∧
    frames.flatten ++ header <+: receivedOf tr ∧ chatCodec.Rejected header

namespace ClientHandled

variable {c c' : ChatClient} {e : ClientEvent} {tr obs : List ClientObs}

private theorem connecting (hh : ClientHandled c e c' obs) (h : Connecting c tr) :
    Connecting c' (tr ++ obs) := by
  rcases h with h0 | ⟨h1, hreads, hreceived, hprinted⟩
  · left
    cases hh with
    | connected hpos => omega
    | notConnected hpos => omega
    | _ => exact h0
  · cases hh with
    | connected hpos => exact Or.inl (by simp [h1])
    | notConnected hpos => exact Or.inl (by simp [h1])
    | receive hopen hr => simp [ReadChain.receive, hreads] at hr
    | headerAccepted hr hs hacc => simp [ReadChain.retire, hreads] at hr
    | headerRejected hr hs hrej => simp [ReadChain.retire, hreads] at hr
    | body hr hs => simp [ReadChain.retire, hreads] at hr
    | readFailed hr => simp [ReadChain.retire, hreads] at hr
    | transmit hopen hq =>
      right
      simp [h1, hreads, hreceived, hprinted, SocketAct.input]
    | _ =>
      right
      simp [h1, hreads, hreceived, hprinted]

private theorem printing (hh : ClientHandled c e c' obs) (hconnecting : Connecting c tr)
    (h : Printing c tr) : Printing c' (tr ++ obs) := by
  obtain ⟨published, hprinted, hinv⟩ := h
  cases hh with
  | connected hpos =>
    rcases hconnecting with h0 | ⟨-, hreads, hreceived, hnone⟩
    · omega
    · refine ⟨[], ?_, ?_⟩
      · simpa using hnone
      · have hstart := ReadChain.inv_doReadHeader (CleanReads (actsOf tr)) c.reads hreads
          (List.forall_mem_nil ChatMessage.Framed)
        simpa [hreceived] using hstart
  | receive hopen hr =>
    refine ⟨published, by simpa using hprinted, ?_⟩
    simpa [SocketAct.input]
      using (hinv.receive hr).1.mono CleanReads.of_append
  | headerAccepted hr hs hacc =>
    refine ⟨published, by simpa using hprinted, ?_⟩
    simpa using (hinv.header_accepted hr hs hacc).2
  | headerRejected hr hs hrej =>
    refine ⟨published, by simpa using hprinted, ?_⟩
    simpa using (hinv.header_rejected hr hs hrej).2.1
  | @body i op r hr hs =>
    refine ⟨published ++ [r.readMsg], ?_, ?_⟩
    · simp [hprinted]
    · simpa using (hinv.body hr hs).2.2
  | @readFailed i op r hr =>
    refine ⟨published, by simpa using hprinted, ?_⟩
    have hclean : CleanReads (actsOf tr ++ [.readError op.got op.size]) →
        CleanReads (actsOf tr) ∧ op.got ≠ op.size := by
      intro hclean
      refine ⟨hclean.of_append, ?_⟩
      intro heq
      apply hclean op.size
      simp [heq]
    simpa [SocketAct.input] using (hinv.fail hr).2.mono hclean
  | transmit hopen hq =>
    refine ⟨published, by simpa using hprinted, ?_⟩
    simpa [SocketAct.input]
      using hinv.mono CleanReads.of_append
  | _ =>
    refine ⟨published, by simpa using hprinted, ?_⟩
    simpa using hinv

private theorem rejectedAt (hh : ClientHandled c e c' obs) (hprinting : Printing c tr)
    (h : .decoded false ∈ tr → RejectedAt tr) :
    .decoded false ∈ tr ++ obs → RejectedAt (tr ++ obs) := by
  intro hmem
  rcases List.mem_append.1 hmem with hold | hnew
  · obtain ⟨frames, header, hframes, hpre, hrej⟩ := h hold
    refine ⟨frames, header, hframes, hpre.trans ?_, hrej⟩
    rw [receivedOf_append]
    exact List.prefix_append _ _
  · obtain ⟨published, -, hinv⟩ := hprinting
    cases hh with
    | headerRejected hr hs hrej =>
      obtain ⟨-, -, header, hsplit, hheader⟩ := hinv.header_rejected hr hs hrej
      refine ⟨published.map ChatMessage.wire, header, hinv.isFrame, ?_, hheader⟩
      rw [receivedOf_append, ← hsplit, List.flatMap_def]
      exact List.prefix_append _ _
    | _ => exact absurd hnew (by simp)

end ClientHandled

namespace ClientRun

structure Inv (w : ClientRun) : Prop where
  order : calledOf w.trace = pushedOf w.trace ++ waiting w.client.posted
  writes : w.client.writes.Inv wireFormat (pushedOf w.trace) (sentOf w.trace)
  live : w.client.closed = false → w.client.writes.Live
  connecting : Connecting w.client w.trace
  printing : Printing w.client w.trace
  rejected : .decoded false ∈ w.trace → RejectedAt w.trace

variable {w w' : ClientRun}

theorem inv_init (storage : Storage) : (init storage).Inv where
  order := rfl
  writes := WriteQueue.inv_empty
  live := fun _ => WriteQueue.live_empty
  connecting := Or.inr ⟨rfl, rfl, rfl, rfl⟩
  printing := by
    refine ⟨[], rfl, List.forall_mem_nil _, [], rfl, ?_⟩
    exact .stopped rfl fun _ => FrameCodec.stuck_nil
  rejected := fun h => absurd h (by simp [init])

theorem Inv.step {e : ClientEvent} (h : w.Inv) (he : w.step e = some w') : w'.Inv := by
  obtain ⟨-, c, obs, hh, rfl⟩ := step_cases he
  obtain ⟨hwrites, hlive⟩ := hh.writes h.writes h.live
  constructor
  · exact hh.order h.order
  · exact hwrites
  · exact hlive
  · exact hh.connecting h.connecting
  · exact hh.printing h.connecting h.printing
  · exact hh.rejectedAt h.printing h.rejected

theorem inv_reachable {storage : Storage} (h : (chatClient storage).Reachable w) : w.Inv := by
  apply System.reachable_induction (M := chatClient storage) (P := Inv) (inv_init storage) _ h
  intro w e w' _ hw he
  exact hw.step he

end ClientRun

end BoostLearning.Chat
