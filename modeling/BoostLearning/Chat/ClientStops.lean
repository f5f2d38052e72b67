import BoostLearning.Chat.Bounds
import BoostLearning.Chat.ClientPipeline

/-!
# The client stops after `close`

On a closed socket an operation that had succeeded before may still start another one, but that one
cannot succeed any more, except for a read of no bytes. So each outstanding operation leads to a
few handlers only, and each posted lambda to its own and to that of one write.
-/

namespace BoostLearning.Chat

/-- How many handlers the outstanding reads can still lead to when nothing is received any more. A
full header may be followed by the read of an empty body, and that by the read of a header. -/
def ReadChain.handlersLeft (c : ReadChain) : Nat :=
  (c.reads.map fun op =>
    if op.got = op.size then
      match op.stage with
      | .header => 3
      | .body => 2
    else 1).sum

namespace ChatClient

def handlersLeft (c : ChatClient) : Nat :=
  2 * c.posted.length + 2 * c.connects + c.reads.handlersLeft + c.writes.handlersLeft

end ChatClient

/-! ## The reads -/

namespace ReadChain

variable {c : ReadChain}

private theorem handlersLeft_le (c : ReadChain) : c.handlersLeft ≤ 3 * c.reads.length := by
  rw [handlersLeft]
  induction c.reads with
  | nil => simp
  | cons op ops ih =>
    rw [List.map_cons, List.sum_cons, List.length_cons]
    split
    · cases op.stage <;> dsimp only <;> omega
    · omega

private theorem handlersLeft_doReadHeader (c : ReadChain) :
    c.doReadHeader.handlersLeft = c.handlersLeft + 1 := by
  simp [handlersLeft, doReadHeader, headerLength]

private theorem handlersLeft_doReadBody (c : ReadChain) :
    c.doReadBody.handlersLeft ≤ c.handlersLeft + 2 := by
  simp only [handlersLeft, doReadBody, List.map_append, List.sum_append, List.map_cons,
    List.map_nil, List.sum_cons, List.sum_nil]
  split <;> omega

private theorem handlersLeft_retire (hlen : c.reads.length ≤ 1) {i : Nat} {ec : ErrorCode}
    {op : AsyncRead} {r : ReadChain} (hr : c.retire i ec = some (op, r)) :
    r.handlersLeft = 0 ∧ 0 < c.handlersLeft ∧ (ec = .success →
      c.handlersLeft = match op.stage with | .header => 3 | .body => 2) := by
  obtain ⟨hreads, rfl, hfull⟩ := retire_cases hlen hr
  have hc : c.handlersLeft = if op.got = op.size then
      match op.stage with
      | .header => 3
      | .body => 2
    else 1 := by
    simp [handlersLeft, hreads]
  refine ⟨rfl, ?_, fun hec => ?_⟩
  · rw [hc]
    split
    · cases op.stage <;> dsimp only <;> omega
    · omega
  · rw [hc, if_pos (hfull hec)]

private theorem handlersLeft_headerAccepted (c : ReadChain) (ec : ErrorCode) :
    (c.headerAccepted ec).2.handlersLeft = c.handlersLeft := by
  cases ec <;> rfl

end ReadChain

/-! ## One handler -/

private theorem ChatClient.handlersLeft_le (c : ChatClient) :
    c.handlersLeft ≤ 2 * c.posted.length + 2 * c.connects + 3 * c.reads.reads.length +
      2 * c.writes.writes.length := by
  have hreads := c.reads.handlersLeft_le
  have hwrites := c.writes.handlersLeft_le
  rw [handlersLeft]
  omega

/-- Every handler that runs on a closed socket leaves fewer to run. -/
private theorem ClientHandled.handlersLeft_lt {c c' : ChatClient} {e : ClientEvent}
    {obs : List ClientObs}
    (hh : ClientHandled c e c' obs) (hclosed : c.closed = true) (hcall : e.isCall = false)
    (hreads : c.reads.reads.length ≤ 1) (hwrites : c.writes.writes.length ≤ 1)
    (hmsgs : ∀ m ∈ c.writes.msgs, 0 < wireFormat.length m)
    (hposted : ∀ m ∈ waiting c.posted, 0 < wireFormat.length m) :
    c'.handlersLeft < c.handlersLeft := by
  cases hh with
  | write => exact absurd hcall (by simp [ClientEvent.isCall])
  | close => exact absurd hcall (by simp [ClientEvent.isCall])
  | receive hopen => rw [hclosed] at hopen; exact absurd hopen (by simp)
  | transmit hopen => rw [hclosed] at hopen; exact absurd hopen (by simp)
  | @pushed msg rest hp =>
    have hle := WriteQueue.handlersLeft_enqueue hmsgs
      (hposted msg (by rw [hp, waiting_write]; exact List.mem_cons_self))
    simp only [ChatClient.handlersLeft, hp, List.length_cons]
    omega
  | closed hp =>
    simp only [ChatClient.handlersLeft, hp, List.length_cons]
    omega
  | connected hpos =>
    simp only [ChatClient.handlersLeft, ReadChain.handlersLeft_doReadHeader]
    omega
  | notConnected hpos =>
    simp only [ChatClient.handlersLeft]
    omega
  | @headerAccepted i op r hr hstage hacc =>
    obtain ⟨hzero, -, hthree⟩ := ReadChain.handlersLeft_retire hreads hr
    have hbody := ReadChain.handlersLeft_doReadBody (r.headerAccepted .success).2
    rw [ReadChain.handlersLeft_headerAccepted, hzero] at hbody
    have hc := hthree rfl
    simp only [hstage] at hc
    simp only [ChatClient.handlersLeft, hc]
    omega
  | @headerRejected i op r hr hstage hrej =>
    obtain ⟨hzero, hpos, -⟩ := ReadChain.handlersLeft_retire hreads hr
    simp only [ChatClient.handlersLeft, ReadChain.handlersLeft_headerAccepted, hzero]
    omega
  | body hr hstage =>
    obtain ⟨hzero, -, htwo⟩ := ReadChain.handlersLeft_retire hreads hr
    have hc := htwo rfl
    simp only [hstage] at hc
    simp only [ChatClient.handlersLeft, ReadChain.handlersLeft_doReadHeader, hzero, hc]
    omega
  | readFailed hr =>
    obtain ⟨hzero, hpos, -⟩ := ReadChain.handlersLeft_retire hreads hr
    simp only [ChatClient.handlersLeft, hzero]
    omega
  | written hq =>
    have hlt := (WriteQueue.handlersLeft_retire wireFormat hwrites hq).2 rfl hmsgs
    simp only [ChatClient.handlersLeft]
    omega
  | writeFailed hq =>
    have hlt := (WriteQueue.handlersLeft_retire wireFormat hwrites hq).1
    simp only [ChatClient.handlersLeft]
    omega

theorem ClientHandled.calledOf_eq {c c' : ChatClient} {e : ClientEvent} {obs : List ClientObs}
    (hh : ClientHandled c e c' obs) (hcall : e.isCall = false) : calledOf obs = [] := by
  cases hh with
  | write => exact absurd hcall (by simp [ClientEvent.isCall])
  | _ => rfl

/-! ## Whether `run()` has returned -/

def ClientRun.Awake (w : ClientRun) : Prop := w.running = true → w.client.hasWork = true

private theorem ClientRun.awake_of_step {w w' : ClientRun} {e : ClientEvent}
    (he : w.step e = some w') : w'.Awake := by
  obtain ⟨-, c, obs, hh, rfl⟩ := step_cases he
  intro hgo
  simp only [Bool.and_eq_true, Bool.or_eq_true] at hgo
  cases hgo.2 with
  | inr hwork => exact hwork
  | inl hcall =>
    -- a call posts a lambda
    cases hh with
    | write => simp [ChatClient.hasWork]
    | close => simp [ChatClient.hasWork]
    | _ => exact absurd hcall (by simp [ClientEvent.isCall])

theorem ClientRun.awake_reachable {storage : Storage} {w : ClientRun}
    (h : (chatClient storage).Reachable w) : w.Awake := by
  apply System.reachable_induction (M := chatClient storage) (P := Awake) _ _ h
  · intro _
    rfl
  · intro w e w' _ _ he
    exact awake_of_step he

private theorem ChatClient.exists_handler {c : ChatClient} (h : c.hasWork = true) :
    ∃ e, e.isCall = false ∧ (c.handle e).isSome = true := by
  simp only [hasWork, Bool.or_eq_true, decide_eq_true_eq, Bool.not_eq_true',
    List.isEmpty_eq_false_iff] at h
  obtain ((hconnects | hreads) | hwrites) | hposted := h
  · exact ⟨.connectDone .failure, rfl, by simp [handle, Nat.pos_of_ne_zero hconnects]⟩
  · obtain ⟨op, ops, hreads⟩ := List.exists_cons_of_ne_nil hreads
    exact ⟨.readDone 0 .failure, rfl, by simp [handle, ReadChain.retire, hreads]⟩
  · obtain ⟨op, ops, hwrites⟩ := List.exists_cons_of_ne_nil hwrites
    exact ⟨.writeDone 0 .failure, rfl, by simp [handle, WriteQueue.retire, hwrites]⟩
  · obtain ⟨p, ps, hposted⟩ := List.exists_cons_of_ne_nil hposted
    refine ⟨.runPosted, rfl, ?_⟩
    cases p <;> simp [handle, hposted]

/-! ## The last handlers -/

/-- A client whose socket is closed and whose messages are not empty on the wire. -/
structure ClientRun.Stopping (w : ClientRun) : Prop where
  inv : w.Inv
  awake : w.Awake
  idle : w.Idle
  closed : w.client.closed = true
  messages : ∀ m ∈ calledOf w.trace, 0 < wireFormat.length m

theorem ClientRun.Stopping.step {w w' : ClientRun} {e : ClientEvent} (h : w.Stopping)
    (hcall : e.isCall = false) (he : w.step e = some w') :
    w'.Stopping ∧ w'.client.handlersLeft < w.client.handlersLeft := by
  have hinv := h.inv.step he
  have hawake := awake_of_step he
  have hidle := h.idle.step he
  have hclosed := (closed_step h.closed he).1
  obtain ⟨-, c, obs, hh, rfl⟩ := step_cases he
  obtain ⟨published, -, hreads⟩ := h.inv.printing
  have hmsgs : ∀ m ∈ w.client.writes.msgs, 0 < wireFormat.length m := by
    intro m hm
    rw [h.inv.writes.queue] at hm
    exact h.messages m (h.inv.pushed_called m (List.mem_of_mem_drop hm))
  have hposted : ∀ m ∈ waiting w.client.posted, 0 < wireFormat.length m := by
    intro m hm
    apply h.messages m
    rw [h.inv.order]
    exact List.mem_append_right _ hm
  refine ⟨⟨hinv, hawake, hidle, hclosed, ?_⟩, ?_⟩
  · rw [calledOf_append, hh.calledOf_eq hcall, List.append_nil]
    exact h.messages
  · exact hh.handlersLeft_lt h.closed hcall hreads.reads_length h.inv.writes.writes_length hmsgs
      hposted

/-- Without further calls a bounded number of handlers is left, and when none can run any more,
`run()` has returned and nothing is outstanding. -/
theorem ClientRun.Stopping.exec {storage : Storage} {w w' : ClientRun} {es : List ClientEvent}
    (h : w.Stopping) (hes : ∀ e ∈ es, e.isCall = false)
    (hrun : (chatClient storage).exec w es = some w') :
    es.length ≤ w.client.handlersLeft ∧
      ((∀ e, e.isCall = false → w'.step e = none) → w'.running = false ∧
        w'.client.connects = 0 ∧ w'.client.reads.reads = [] ∧ w'.client.writes.writes = []) := by
  obtain ⟨hstop, hlen⟩ := System.exec_bounded (M := chatClient storage)
    (P := ClientRun.Stopping) (f := fun w => w.client.handlersLeft)
    (p := fun e => e.isCall = false) (fun _ _ _ hs hcall he => hs.step hcall he) h hes hrun
  refine ⟨by omega, ?_⟩
  intro hnone
  have hdone : w'.running = false := by
    by_contra hgo
    have hgo' : w'.running = true := by simpa using hgo
    obtain ⟨e, hcall, hsome⟩ := ChatClient.exists_handler (hstop.awake hgo')
    have hstep := hnone e hcall
    rw [ClientRun.step, if_pos (by simp [hgo']), Option.map_eq_none_iff] at hstep
    rw [hstep] at hsome
    exact absurd hsome (by simp)
  exact ⟨hdone, hstop.idle hdone⟩

private theorem ChatMessage.Built.length_pos {m : ChatMessage} (h : m.Built) :
    0 < wireFormat.length m := by
  change 0 < m.length.toNat
  have h4 : headerLength = 4 := rfl
  rw [length_toNat h.bodyLength_le]
  omega

theorem ClientRun.stopping_reachable {storage : Storage} {w : ClientRun}
    (h : (chatClient storage).Reachable w) (hclosed : w.client.closed = true)
    (hbuilt : ∀ m ∈ calledOf w.trace, m.Built) : w.Stopping :=
  ⟨inv_reachable h, awake_reachable h, idle_reachable h, hclosed,
    fun m hm => (hbuilt m hm).length_pos⟩

/-- Whatever was outstanding when the socket was closed, and in whatever order it ends: without
further calls the client runs a bounded number of handlers, and when none of them can run any more
`run()` has returned and nothing is outstanding. -/
theorem client_stops (storage : Storage) {w : ClientRun} (hw : (chatClient storage).Reachable w)
    (hclosed : w.client.closed = true) (hbuilt : ∀ m ∈ calledOf w.trace, m.Built)
    {es : List ClientEvent} {w' : ClientRun} (hes : ∀ e ∈ es, e.isCall = false)
    (hrun : (chatClient storage).exec w es = some w') :
    es.length ≤ 2 * w.client.posted.length + 2 * w.client.connects +
        3 * w.client.reads.reads.length + 2 * w.client.writes.writes.length ∧
      ((∀ e, e.isCall = false → w'.step e = none) → w'.running = false ∧
        w'.client.connects = 0 ∧ w'.client.reads.reads = [] ∧ w'.client.writes.writes = []) := by
  have hstop := ClientRun.stopping_reachable hw hclosed hbuilt
  obtain ⟨hlen, hend⟩ := hstop.exec hes hrun
  exact ⟨hlen.trans w.client.handlersLeft_le, hend⟩

/-- A write and a header had succeeded when the socket was closed, with another message behind. -/
def closesBusy : List ClientEvent :=
  [.connectDone .success, .write (.ofBody (.fill _ 0) [104, 105]), .runPosted,
    .write (.ofBody (.fill _ 0) [104]), .receive 0 [32, 32, 32, 48], .transmit 0 6, .close,
    .runPosted, .runPosted]

/-- The empty body that the header announces is read, and so is the next header. -/
def lastHandlers : List ClientEvent :=
  [.readDone 0 .success, .writeDone 0 .success, .readDone 0 .success, .writeDone 0 .failure,
    .readDone 0 .failure]

theorem client_stops_closesBusy :
    ((chatClient (.fill _ 0)).final closesBusy).client.closed = true ∧
      lastHandlers.length ≤ 5 ∧
      ((chatClient (.fill _ 0)).final (closesBusy ++ lastHandlers)).running = false := by
  have hcalled : ∀ m ∈ calledOf ((chatClient (.fill _ 0)).final closesBusy).trace, m.Built := by
    have heq : calledOf ((chatClient (.fill _ 0)).final closesBusy).trace =
        [.ofBody (.fill _ 0) [104, 105], .ofBody (.fill _ 0) [104]] := by decide +kernel
    intro m hm
    rw [heq] at hm
    simp only [List.mem_cons, List.not_mem_nil, or_false] at hm
    obtain rfl | rfl := hm <;> exact ChatMessage.ofBody_built _ _
  have hrun : (chatClient (.fill _ 0)).exec ((chatClient (.fill _ 0)).final closesBusy)
      lastHandlers = some ((chatClient (.fill _ 0)).final (closesBusy ++ lastHandlers)) := by
    decide +kernel
  obtain ⟨hlen, hstopped⟩ := client_stops (.fill _ 0) (System.reachable_final _ closesBusy)
    (by decide +kernel) hcalled (by decide) hrun
  refine ⟨by decide +kernel, hlen.trans (by decide +kernel), ?_⟩
  have hidle : ((chatClient (.fill _ 0)).final (closesBusy ++ lastHandlers)).running = false := by
    decide +kernel
  refine (hstopped fun e he => ?_).1
  rw [ClientRun.step, he, hidle]
  rfl

theorem closed_of_close {storage : Storage} {u v w : ClientRun} {rest : List Posted}
    {es : List ClientEvent} (hposted : u.client.posted = .close :: rest)
    (hstep : u.step .runPosted = some v) (hrun : (chatClient storage).exec v es = some w) :
    w.client.closed = true :=
  (ClientRun.closed_exec (ClientRun.closed_of_runPosted hposted hstep) hrun).1

/-- From the lambda of `close` on, the client stops as soon as nothing more is called. -/
theorem stops_after_close (storage : Storage) {u v w w' : ClientRun} {rest : List Posted}
    {es es' : List ClientEvent} (hu : (chatClient storage).Reachable u)
    (hposted : u.client.posted = .close :: rest) (hstep : u.step .runPosted = some v)
    (hrun : (chatClient storage).exec v es = some w) (hbuilt : ∀ m ∈ calledOf w.trace, m.Built)
    (hes : ∀ e ∈ es', e.isCall = false) (hrun' : (chatClient storage).exec w es' = some w') :
    es'.length ≤ 2 * w.client.posted.length + 2 * w.client.connects +
        3 * w.client.reads.reads.length + 2 * w.client.writes.writes.length ∧
      ((∀ e, e.isCall = false → w'.step e = none) → w'.running = false ∧
        w'.client.connects = 0 ∧ w'.client.reads.reads = [] ∧ w'.client.writes.writes = []) := by
  have hw := (hu.step hstep).exec hrun
  have hstop := ClientRun.stopping_reachable hw (closed_of_close hposted hstep hrun) hbuilt
  obtain ⟨hlen, hend⟩ := hstop.exec hes hrun'
  exact ⟨hlen.trans w.client.handlersLeft_le, hend⟩

end BoostLearning.Chat
