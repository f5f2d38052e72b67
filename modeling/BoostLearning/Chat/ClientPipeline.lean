import BoostLearning.Chat.ClientInvariant

/-!
# What the client transmits

In order, nothing twice, and nothing any more once the socket is closed. `close` posts a lambda
that closes the socket when its turn comes; it does not wait for the queue, so it cuts off what
has not been transmitted by then.
-/

namespace BoostLearning.Chat

namespace ClientRun

variable {w w' : ClientRun} {e : ClientEvent} {storage : Storage}

/-- A closed socket stays closed and transmits nothing. -/
theorem closed_step (hclosed : w.client.closed = true) (he : w.step e = some w') :
    w'.client.closed = true ∧ sentOf w'.trace = sentOf w.trace := by
  obtain ⟨-, c, obs, hh, rfl⟩ := step_cases he
  rw [sentOf_append]
  cases hh with
  | transmit hopen hq => exact absurd (hclosed.symm.trans hopen) (by simp)
  | receive hopen hr => exact absurd (hclosed.symm.trans hopen) (by simp)
  | closed hp => simp
  | headerRejected hr hs hrej => simp
  | readFailed hr => simp [SocketAct.output]
  | writeFailed hq => simp
  | _ => simp [hclosed]

theorem closed_exec {es : List ClientEvent} (hclosed : w.client.closed = true)
    (hrun : (chatClient storage).exec w es = some w') :
    w'.client.closed = true ∧ sentOf w'.trace = sentOf w.trace := by
  apply System.exec_induction (M := chatClient storage)
    (P := fun u => u.client.closed = true ∧ sentOf u.trace = sentOf w.trace) _
    ⟨hclosed, rfl⟩ hrun
  intro u e u' hu he
  obtain ⟨hclosed', hsent⟩ := closed_step hu.1 he
  exact ⟨hclosed', hsent.trans hu.2⟩

private theorem closed_of_failure {i : Nat}
    (he : w.step (.readDone i .failure) = some w' ∨ w.step (.writeDone i .failure) = some w') :
    w'.client.closed = true := by
  rcases he with he | he <;> obtain ⟨-, c, obs, hh, rfl⟩ := step_cases he <;> cases hh <;> rfl

theorem closed_of_runPosted {rest : List Posted} (hposted : w.client.posted = .close :: rest)
    (he : w.step .runPosted = some w') : w'.client.closed = true := by
  obtain ⟨-, c, obs, hh, rfl⟩ := step_cases he
  cases hh with
  | pushed hp => simp [hposted] at hp
  | closed hp => rfl

end ClientRun

/-- At most one write is outstanding, of the unchanged front; while the socket is open it is there
exactly when something is queued. The lambdas push the messages in the order of the calls of
`write`; those that were popped have been handed to the transport, the others are queued, and the
transport is handed a prefix of all of them. After a read or a write that fails, or the lambda of
`close`, it is handed nothing more. -/
theorem client_write_pipeline (storage : Storage) (w : ClientRun)
    (h : (chatClient storage).Reachable w) :
    w.client.writes.writes.length ≤ 1 ∧
      (∀ op ∈ w.client.writes.writes, ∃ m, w.client.writes.WritesFront wireFormat op m) ∧
      (w.client.closed = false →
        (w.client.writes.writes ≠ [] ↔ w.client.writes.msgs ≠ [])) ∧
      calledOf w.trace = pushedOf w.trace ++ waiting w.client.posted ∧
      w.client.writes.popped ≤ (pushedOf w.trace).length ∧
      w.client.writes.msgs = (pushedOf w.trace).drop w.client.writes.popped ∧
      ((pushedOf w.trace).take w.client.writes.popped).flatMap ChatMessage.wire <+:
        sentOf w.trace ∧
      sentOf w.trace <+: (calledOf w.trace).flatMap ChatMessage.wire ∧
      (∀ i v, w.step (.readDone i .failure) = some v ∨ w.step (.writeDone i .failure) = some v →
        v.client.closed = true) ∧
      (∀ rest v, w.client.posted = .close :: rest → w.step .runPosted = some v →
        v.client.closed = true) ∧
      (w.client.closed = true → ∀ es v, (chatClient storage).exec w es = some v →
        v.client.closed = true ∧ sentOf v.trace = sentOf w.trace) := by
  have hw := ClientRun.inv_reachable h
  have hcalled : sentOf w.trace <+: (calledOf w.trace).flatMap ChatMessage.wire := by
    apply hw.writes.wire_prefix.trans
    rw [hw.order, List.flatMap_append]
    exact List.prefix_append _ _
  refine ⟨hw.writes.writes_length, fun op hop => hw.writes.writesFront hop, hw.live, hw.order,
    hw.writes.popped_le, hw.writes.queue, hw.writes.popped_prefix, hcalled, ?_, ?_, ?_⟩
  · intro i v he
    exact ClientRun.closed_of_failure he
  · intro rest v hposted he
    exact ClientRun.closed_of_runPosted hposted he
  · intro hclosed es v hrun
    exact ClientRun.closed_exec hclosed hrun

/-- The write of a line fails when half of its header is out, and another line is written. -/
def failsHalfway : List ClientEvent :=
  [.connectDone .success, .write (.ofBody (.fill _ 0) [104, 105]), .runPosted, .transmit 0 2,
    .writeDone 0 .failure, .write (.ofBody (.fill _ 0) [104]), .runPosted]

theorem client_write_pipeline_failsHalfway :
    ∃ w, (chatClient (.fill _ 0)).exec (ClientRun.init (.fill _ 0)) failsHalfway = some w ∧
      w.client.closed = true ∧ w.client.writes.writes = [] ∧
      w.client.writes.msgs.map ChatMessage.body = [[104, 105], [104]] ∧
      w.client.writes.msgs = pushedOf w.trace ∧ sentOf w.trace = [32, 32] ∧
      ∃ v, (chatClient (.fill _ 0)).exec w [.close, .runPosted, .readDone 0 .failure] = some v ∧
        v.running = false ∧ sentOf v.trace = [32, 32] := by
  have hend : ((chatClient (.fill _ 0)).exec (ClientRun.init (.fill _ 0)) failsHalfway).any
      (fun w => decide (w.client.closed = true ∧ w.client.writes.writes = [] ∧
        w.client.writes.msgs.map ChatMessage.body = [[104, 105], [104]] ∧
        w.client.writes.popped = 0 ∧ sentOf w.trace = [32, 32]) &&
      ((chatClient (.fill _ 0)).exec w [.close, .runPosted, .readDone 0 .failure]).any
        fun v => v.running = false) = true := by
    decide +kernel
  obtain ⟨w, hrun, htest⟩ := exists_eq_some_of_any hend
  rw [Bool.and_eq_true, decide_eq_true_eq] at htest
  obtain ⟨⟨hclosed, hwrites, hmsgs, hpopped, hsent⟩, hmore⟩ := htest
  obtain ⟨v, hrun', hstop⟩ := exists_eq_some_of_any hmore
  obtain ⟨-, -, -, -, -, hqueue, -, -, -, -, hafter⟩ :=
    client_write_pipeline _ w ⟨failsHalfway, hrun⟩
  rw [hpopped, List.drop_zero] at hqueue
  obtain ⟨-, hsent'⟩ := hafter hclosed _ v hrun'
  exact ⟨w, hrun, hclosed, hwrites, hmsgs, hqueue, hsent, v, hrun', of_decide_eq_true hstop,
    hsent'.trans hsent⟩

/-! ## Closing -/

def ClientEvent.isFailure : ClientEvent → Bool
  | .connectDone .failure => true
  | .readDone _ .failure => true
  | .writeDone _ .failure => true
  | _ => false

/-- The runs in which nothing fails before the client has closed its socket itself. -/
def undisturbed (storage : Storage) : System ClientRun ClientEvent :=
  (chatClient storage).restrict fun w e => !e.isFailure || w.client.closed

namespace ClientRun

variable {w w' : ClientRun} {e : ClientEvent} {storage : Storage}

/-- While nothing fails, a client with an open socket connects or reads. -/
def Busy (w : ClientRun) : Prop :=
  w.client.closed = false →
    (w.client.connects = 1 ∧ w.client.reads.reads = []) ∨ w.client.reads.reads.length = 1

def Idle (w : ClientRun) : Prop :=
  w.running = false →
    w.client.connects = 0 ∧ w.client.reads.reads = [] ∧ w.client.writes.writes = []

theorem Busy.step (hw : w.Inv) (h : w.Busy) (hguard : !e.isFailure || w.client.closed)
    (he : w.step e = some w') : w'.Busy := by
  obtain ⟨-, c, obs, hh, rfl⟩ := step_cases he
  obtain ⟨published, -, hreads⟩ := hw.printing
  intro hopen
  cases hh with
  | connected hpos =>
    right
    rcases hw.connecting with h0 | ⟨-, hnil, -⟩
    · omega
    · simp [ReadChain.doReadHeader, hnil]
  | notConnected hpos =>
    have hclosed : w.client.closed = true := by simpa [ClientEvent.isFailure] using hguard
    exact absurd (hclosed.symm.trans hopen) (by simp)
  | receive hopen' hr =>
    rcases h hopen' with ⟨-, hnil⟩ | hone
    · simp [ReadChain.receive, hnil] at hr
    · right
      rw [(hreads.receive hr).2, hone]
  | headerAccepted hr hs hacc =>
    right
    simp [ReadChain.doReadBody, (hreads.header_accepted hr hs hacc).1]
  | body hr hs =>
    right
    simp [ReadChain.doReadHeader, (hreads.body hr hs).1]
  | closed hp => exact absurd hopen (by simp)
  | headerRejected hr hs hrej => exact absurd hopen (by simp)
  | readFailed hr => exact absurd hopen (by simp)
  | writeFailed hq => exact absurd hopen (by simp)
  | _ => exact h hopen

theorem Idle.step (h : w.Idle) (he : w.step e = some w') : w'.Idle := by
  obtain ⟨hrun, c, obs, hh, rfl⟩ := step_cases he
  intro hstop
  cases hw : w.running with
  | false =>
    -- after `run()` has returned the input thread may go on posting
    have hcall : e.isCall = true := by
      rcases hrun with hcall | hrun
      · exact hcall
      · rw [hw] at hrun
        exact absurd hrun (by simp)
    cases hh with
    | write => exact h hw
    | close => exact h hw
    | _ => exact absurd hcall (by simp [ClientEvent.isCall])
  | true =>
    simp only [hw, Bool.true_and, ChatClient.hasWork, Bool.or_eq_false_iff,
      decide_eq_false_iff_not, not_not, Bool.not_eq_false', List.isEmpty_iff] at hstop
    obtain ⟨-, ⟨⟨hconnects, hreads⟩, hwrites⟩, -⟩ := hstop
    exact ⟨hconnects, hreads, hwrites⟩

theorem idle_reachable (h : (chatClient storage).Reachable w) : w.Idle := by
  apply System.reachable_induction (M := chatClient storage) (P := Idle) _ _ h
  · intro hstop
    exact absurd hstop (by simp [chatClient, init])
  · intro u e u' _ hu he
    exact hu.step he

theorem undisturbed_exec {es : List ClientEvent}
    (hrun : (undisturbed storage).exec (init storage) es = some w) :
    w.Inv ∧ w.Busy ∧ w.Idle := by
  apply System.exec_induction (M := undisturbed storage) (P := fun w => w.Inv ∧ w.Busy ∧ w.Idle)
    _ _ hrun
  · rintro u e u' ⟨hinv, hbusy, hidle⟩ he
    obtain ⟨hguard, he⟩ := System.restrict_step.1 he
    exact ⟨hinv.step he, hbusy.step hinv hguard he, hidle.step he⟩
  · refine ⟨inv_init storage, fun _ => Or.inl ⟨rfl, rfl⟩, ?_⟩
    intro hstop
    exact absurd hstop (by simp [init])

private theorem live_of_first_close (hw : w.Inv) (hguard : !e.isFailure || w.client.closed)
    (hopen : w.client.closed = false) (he : w.step e = some w')
    (hclosed : w'.client.closed = true) :
    w'.client.writes.Live := by
  obtain ⟨-, c, obs, hh, rfl⟩ := step_cases he
  have hlive := hw.live hopen
  have hok : e.isFailure = false := by simpa [hopen] using hguard
  cases hh with
  | closed hp => exact hlive
  | headerRejected hr hs hrej => exact hlive
  | readFailed hr => exact absurd hok (by simp [ClientEvent.isFailure])
  | writeFailed hq => exact absurd hok (by simp [ClientEvent.isFailure])
  | connected hpos => exact absurd (hopen.symm.trans hclosed) (by simp)
  | _ => exact absurd (hopen.symm.trans hclosed) (by simp)

theorem trace_prefix_exec {es : List ClientEvent}
    (hrun : (chatClient storage).exec w es = some w') : w.trace <+: w'.trace := by
  apply System.exec_induction (M := chatClient storage) (P := fun u => w.trace <+: u.trace) _
    List.prefix_rfl hrun
  intro u e u' hu he
  obtain ⟨-, c, obs, -, rfl⟩ := step_cases he
  exact hu.trans (List.prefix_append _ _)

end ClientRun

private theorem eq_nil_of_wires {ms : List ChatMessage}
    (hms : ∀ m ∈ ms, m.bodyLength.toNat ≤ maxBodyLength)
    (h : ms.flatMap ChatMessage.wire = []) : ms = [] := by
  have h4 : headerLength = 4 := rfl
  cases ms with
  | nil => rfl
  | cons m ms =>
    have hlen := ChatMessage.wire_length (hms m List.mem_cons_self)
    have hnil : m.wire = [] := (List.append_eq_nil_iff.1 h).1
    rw [hnil, List.length_nil] at hlen
    omega

/-- When `run()` has returned, after a run in which nothing but the client's own closing of the
socket made an operation fail, all messages are out if and only if none was left to be pushed or
transmitted when the socket was closed. -/
theorem close_flushes_iff (storage : Storage) (es : List ClientEvent) (w : ClientRun)
    (hrun : (undisturbed storage).exec (ClientRun.init storage) es = some w)
    (hstop : w.running = false)
    (hmsgs : ∀ m ∈ calledOf w.trace, m.bodyLength.toNat ≤ maxBodyLength) :
    ∃ before e after u v, es = before ++ e :: after ∧
      (undisturbed storage).exec (ClientRun.init storage) before = some u ∧
      u.client.closed = false ∧ (undisturbed storage).step u e = some v ∧
      v.client.closed = true ∧ (undisturbed storage).exec v after = some w ∧
      (sentOf w.trace = (calledOf w.trace).flatMap ChatMessage.wire ↔
        v.client.writes.unsent wireFormat = [] ∧ waiting v.client.posted = [] ∧
          calledOf w.trace = calledOf v.trace) := by
  obtain ⟨hw, hbusy, hidle⟩ := ClientRun.undisturbed_exec hrun
  have hclosed : w.client.closed = true := by
    by_contra hopen
    rw [Bool.not_eq_true] at hopen
    obtain ⟨hconnects, hreads, -⟩ := hidle hstop
    rcases hbusy hopen with ⟨hone, -⟩ | hone
    · omega
    · simp [hreads] at hone
  obtain ⟨before, e, after, u, v, hes, hbefore, hopen, hstep, hv, hafter⟩ :=
    System.exec_first (p := fun w => w.client.closed) rfl hclosed hrun
  refine ⟨before, e, after, u, v, hes, hbefore, hopen, hstep, hv, hafter, ?_⟩
  obtain ⟨hu, -, -⟩ := ClientRun.undisturbed_exec hbefore
  obtain ⟨hguard, hstep'⟩ := System.restrict_step.1 hstep
  have hvinv := hu.step hstep'
  have hlive := ClientRun.live_of_first_close hu hguard hopen hstep' hv
  have hafter' := System.exec_of_restrict hafter
  obtain ⟨-, hsent⟩ := ClientRun.closed_exec hv hafter'
  have hunsent := hvinv.writes.wire_append_unsent hlive
  obtain ⟨later, hlater⟩ := ClientRun.trace_prefix_exec hafter'
  have hcalled : calledOf w.trace = calledOf v.trace ++ calledOf later := by
    rw [← hlater, calledOf_append]
  have hall : (calledOf w.trace).flatMap ChatMessage.wire = sentOf v.trace ++
      (v.client.writes.unsent wireFormat ++ ((waiting v.client.posted).flatMap ChatMessage.wire ++
        (calledOf later).flatMap ChatMessage.wire)) := by
    rw [hcalled, hvinv.order, List.flatMap_append, List.flatMap_append, ← hunsent]
    simp only [List.append_assoc]
  rw [hsent, hall, List.self_eq_append_right, List.append_eq_nil_iff, List.append_eq_nil_iff]
  rw [hcalled, hvinv.order] at hmsgs
  constructor
  · rintro ⟨hq, hposted, hcalls⟩
    refine ⟨hq, eq_nil_of_wires ?_ hposted, ?_⟩
    · intro m hm
      exact hmsgs m (by simp [hm])
    · rw [hcalled, eq_nil_of_wires (fun m hm => hmsgs m (by simp [hm])) hcalls, List.append_nil]
  · rintro ⟨hq, hposted, hcalls⟩
    rw [hcalled, List.append_right_eq_self] at hcalls
    simp [hq, hposted, hcalls]

/-- A line is written and the input ends, all before the socket is connected. -/
def closesEarly : List ClientEvent :=
  [.write (.ofBody (.fill _ 0) [104, 105]), .close, .connectDone .success, .runPosted, .runPosted,
    .writeDone 0 .failure, .readDone 0 .failure]

private theorem closesEarly_ends :
    ∃ w, (undisturbed (.fill _ 0)).exec (ClientRun.init (.fill _ 0)) closesEarly = some w ∧
      w.running = false ∧ (∀ m ∈ calledOf w.trace, m.bodyLength.toNat ≤ maxBodyLength) ∧
      sentOf w.trace ≠ (calledOf w.trace).flatMap ChatMessage.wire := by
  have hend : ((undisturbed (.fill _ 0)).exec (ClientRun.init (.fill _ 0)) closesEarly).any
      (fun w : ClientRun => decide (w.running = false ∧
        (∀ m ∈ calledOf w.trace, m.bodyLength.toNat ≤ maxBodyLength) ∧
        sentOf w.trace ≠ (calledOf w.trace).flatMap ChatMessage.wire)) = true := by
    decide +kernel
  obtain ⟨w, hw, htest⟩ := exists_eq_some_of_any hend
  exact ⟨w, hw, of_decide_eq_true htest⟩

theorem close_flushes_iff_closesEarly :
    ∃ w, (undisturbed (.fill _ 0)).exec (ClientRun.init (.fill _ 0)) closesEarly = some w ∧
      ∃ before e after u v, closesEarly = before ++ e :: after ∧
        (undisturbed (.fill _ 0)).exec (ClientRun.init (.fill _ 0)) before = some u ∧
        u.client.closed = false ∧ (undisturbed (.fill _ 0)).step u e = some v ∧
        v.client.closed = true ∧ (undisturbed (.fill _ 0)).exec v after = some w ∧
        (sentOf w.trace = (calledOf w.trace).flatMap ChatMessage.wire ↔
          v.client.writes.unsent wireFormat = [] ∧ waiting v.client.posted = [] ∧
            calledOf w.trace = calledOf v.trace) := by
  obtain ⟨w, hw, hstop, hmsgs, -⟩ := closesEarly_ends
  exact ⟨w, hw, close_flushes_iff _ closesEarly w hw hstop hmsgs⟩

/-- Closing does not flush. -/
theorem close_does_not_flush :
    ¬ ∀ (storage : Storage) (es : List ClientEvent) (ms : List ChatMessage) (w : ClientRun),
      (undisturbed storage).exec (ClientRun.init storage) es = some w →
      es.filter ClientEvent.isCall = ms.map ClientEvent.write ++ [.close] → w.running = false →
      sentOf w.trace = (calledOf w.trace).flatMap ChatMessage.wire := by
  intro h
  obtain ⟨w, hw, hstop, -, hne⟩ := closesEarly_ends
  exact hne (h _ closesEarly [.ofBody (.fill _ 0) [104, 105]] w hw rfl hstop)

end BoostLearning.Chat
