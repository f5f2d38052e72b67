import BoostLearning.Chat.ClientPipeline
import BoostLearning.Chat.Relay
import BoostLearning.Chat.StreamReader

/-!
# Framing round trip

Messages built the way `main` of the client builds them, sent one after another and cut into any
chunks, come out of the read loop of a session and of a client as the lines they were made of.
-/

namespace BoostLearning.Chat

/-! ## The read loop of a session -/

/-- Session `s` of a server as a reader of its socket. -/
def sessionReader (s : SessionId) : StreamReader World where
  chain := fun w => (w.sessions s).map fun x => x.reads
  receive := fun w bytes => w.step (.session s (.receive 0 bytes))
  complete := fun w ec => w.step (.session s (.readDone 0 ec))

def SessionReads (s : SessionId) (w : World) (input : List Byte) (published : List ChatMessage) :
    Prop :=
  w.Inv ∧ (w.sessions s).isSome = true ∧ inputOf s w.trace = input ∧
    publishedBy s w.trace = published

private theorem eq_of_chain {s : SessionId} {w : World} {x : ChatSession} {c : ReadChain}
    (hx : w.sessions s = some x) (hc : (sessionReader s).chain w = some c) : x.reads = c := by
  simpa [sessionReader, hx] using hc

private theorem sessionReader_lawful (s : SessionId) :
    (sessionReader s).Lawful (SessionReads s) (fun w published =>
      publishedBy s w.trace = published) where
  chain := by
    rintro w input published ⟨hw, hsome, rfl, rfl⟩
    obtain ⟨x, hx⟩ := Option.isSome_iff_exists.1 hsome
    exact ⟨x.reads, by simp [sessionReader, hx], (hw.session s x hx).reads.mono False.elim⟩
  receive := by
    rintro w input published c c' bytes ⟨hw, hsome, rfl, rfl⟩ hc hr
    obtain ⟨x, hx⟩ := Option.isSome_iff_exists.1 hsome
    obtain rfl := eq_of_chain hx hc
    have hhandle : x.handle (.receive 0 bytes) =
        some ⟨{ x with reads := c' }, [.received bytes], .none⟩ := by
      simp [ChatSession.handle, hr]
    have hstep := World.step_iff.2 (.quiet hx hhandle rfl)
    refine ⟨_, hstep, ?_, hw.step hstep, ?_, ?_, ?_⟩
    · simp [sessionReader]
    · simp
    · simp [inputOf, Obs.socketAct?, SocketAct.input]
    · simp [Obs.published?]
  header := by
    rintro w input published c c' op ⟨hw, hsome, rfl, rfl⟩ hc hr hstage hacc
    obtain ⟨x, hx⟩ := Option.isSome_iff_exists.1 hsome
    obtain rfl := eq_of_chain hx hc
    have hhandle : x.handle (.readDone 0 .success) =
        some ⟨{ x with reads := (c'.headerAccepted .success).2.doReadBody }, [], .none⟩ := by
      simp [ChatSession.handle, hr, hstage, ChatSession.onReadHeader, hacc,
        ChatSession.doReadBody]
    have hstep := World.step_iff.2 (.quiet hx hhandle rfl)
    refine ⟨_, hstep, ?_, hw.step hstep, ?_, ?_, ?_⟩
    · simp [sessionReader]
    · simp
    · simp
    · simp
  body := by
    rintro w input published c c' op ⟨hw, hsome, rfl, rfl⟩ hc hr hstage
    obtain ⟨x, hx⟩ := Option.isSome_iff_exists.1 hsome
    obtain rfl := eq_of_chain hx hc
    have hhandle : x.handle (.readDone 0 .success) =
        some ⟨{ x with reads := c' }, [], .deliver c'.readMsg⟩ := by
      simp [ChatSession.handle, hr, hstage, ChatSession.onReadBody]
    have hstep := World.step_iff.2 (.delivered hx hhandle rfl)
    refine ⟨_, hstep, ?_, hw.step hstep, ?_, ?_, ?_⟩
    · by_cases hs : s ∈ (w.room x.room).participants.ids <;> simp [sessionReader, hs]
    · simp
    · simp [inputOf, Obs.socketAct?]
    · simp [Obs.published?]
  fail := by
    rintro w input published c c' op ⟨hw, hsome, rfl, rfl⟩ hc hr
    obtain ⟨x, hx⟩ := Option.isSome_iff_exists.1 hsome
    obtain rfl := eq_of_chain hx hc
    have hhandle : x.handle (.readDone 0 .failure) =
        some ⟨{ x with reads := c' }, [.readError op.got op.size], .leave .read⟩ := by
      cases hstage : op.stage <;> simp [ChatSession.handle, hr, hstage, ChatSession.onReadHeader,
        ChatSession.onReadBody, ReadChain.headerAccepted]
    refine ⟨_, World.step_iff.2 (.left hx hhandle rfl), ?_, ?_⟩
    · simp [sessionReader]
    · simp [Obs.published?]

/-! ## The read loop of the client -/

def clientReader : StreamReader ClientRun where
  chain := fun w => some w.client.reads
  receive := fun w bytes => w.step (.receive 0 bytes)
  complete := fun w ec => w.step (.readDone 0 ec)

def ClientReads (w : ClientRun) (input : List Byte) (published : List ChatMessage) : Prop :=
  w.running = true ∧ w.client.closed = false ∧ w.client.reads.Inv False input published ∧
    printedOf w.trace = published.map ChatMessage.shown

private theorem hasWork_of_reads {c : ChatClient} (h : c.reads.reads ≠ []) :
    c.hasWork = true := by
  simp [ChatClient.hasWork, h]

private theorem clientReader_lawful :
    clientReader.Lawful ClientReads (fun w published =>
      printedOf w.trace = published.map ChatMessage.shown) where
  chain := by
    rintro w input published ⟨-, -, hinv, -⟩
    exact ⟨_, rfl, hinv⟩
  receive := by
    rintro w input published c c' bytes ⟨hrun, hopen, hinv, hprinted⟩ hc hr
    obtain rfl := Option.some.inj hc
    obtain ⟨hinv', hlen⟩ := hinv.receive hr
    have hwork : c'.reads ≠ [] := by
      intro hnil
      rw [hnil, List.length_nil, eq_comm, List.length_eq_zero_iff] at hlen
      have hr' : w.client.reads.receive 0 bytes = some c' := hr
      rw [ReadChain.receive, hlen] at hr'
      exact absurd hr' (by simp)
    refine ⟨⟨{ w.client with reads := c' }, true,
      w.trace ++ [.socket (.received bytes)]⟩, ?_, rfl, rfl, hopen, hinv', ?_⟩
    · simp [clientReader, ClientRun.step, ClientEvent.isCall, hrun, ChatClient.handle, hopen, hr,
        hasWork_of_reads, hwork]
    · simpa using hprinted
  header := by
    rintro w input published c c' op ⟨hrun, hopen, hinv, hprinted⟩ hc hr hstage hacc
    obtain rfl := Option.some.inj hc
    refine ⟨⟨{ w.client with reads := (c'.headerAccepted .success).2.doReadBody }, true,
      w.trace ++ [.decoded true]⟩, ?_, rfl, rfl, hopen,
      (hinv.header_accepted hr hstage hacc).2, ?_⟩
    · simp [clientReader, ClientRun.step, ClientEvent.isCall, hrun, ChatClient.handle, hr, hstage,
        ChatClient.onReadHeader, hacc, ChatClient.doReadBody, hasWork_of_reads,
        ReadChain.doReadBody]
    · simpa using hprinted
  body := by
    rintro w input published c c' op ⟨hrun, hopen, hinv, hprinted⟩ hc hr hstage
    obtain rfl := Option.some.inj hc
    refine ⟨⟨{ w.client with reads := c'.doReadHeader }, true,
      w.trace ++ [.printed c'.readMsg.shown]⟩, ?_, rfl, rfl, hopen,
      (hinv.body hr hstage).2.2, ?_⟩
    · simp [clientReader, ClientRun.step, ClientEvent.isCall, hrun, ChatClient.handle, hr, hstage,
        ChatClient.onReadBody, ChatClient.doReadHeader, hasWork_of_reads, ReadChain.doReadHeader]
    · simp [hprinted]
  fail := by
    rintro w input published c c' op ⟨hrun, hopen, hinv, hprinted⟩ hc hr
    obtain rfl := Option.some.inj hc
    refine ⟨⟨{ w.client with reads := c', closed := true },
      ({ w.client with reads := c', closed := true } : ChatClient).hasWork,
      w.trace ++ [.socket (.readError op.got op.size), .closed]⟩, ?_, rfl, ?_⟩
    · cases hstage : op.stage <;> simp [clientReader, ClientRun.step, ClientEvent.isCall, hrun,
        ChatClient.handle, hr, hstage, ChatClient.onReadHeader, ChatClient.onReadBody,
        ReadChain.headerAccepted, ChatClient.closeSocket]
    · simpa using hprinted

/-! ## The round trip -/

private theorem body_eq_of_wire {m : ChatMessage} {storage : Storage} {line : List Byte}
    (hm : m.Framed) (hline : line.length ≤ maxBodyLength)
    (h : m.wire = (ChatMessage.ofBody storage line).wire) : m.body = line := by
  have hheader : (sprintf4d line.length).length = headerLength :=
    sprintf4d_length (by have h512 : maxBodyLength = 512 := rfl; omega)
  rw [hm.body_eq, h, (ChatMessage.ofBody_wire storage hline).1]
  exact List.drop_left' hheader

private theorem bodies_eq {ms : List ChatMessage} {lines : List (Storage × List Byte)}
    (hms : ∀ m ∈ ms, m.Framed) (hlines : ∀ p ∈ lines, p.2.length ≤ maxBodyLength)
    (h : ms.map ChatMessage.wire =
      (lines.map fun p => ChatMessage.ofBody p.1 p.2).map ChatMessage.wire) :
    ms.map ChatMessage.body = lines.map Prod.snd := by
  induction ms generalizing lines with
  | nil =>
    cases lines with
    | nil => rfl
    | cons p lines => simp at h
  | cons m ms ih =>
    cases lines with
    | nil => simp at h
    | cons p lines =>
      simp only [List.map_cons, List.cons.injEq] at h ⊢
      constructor
      · exact body_eq_of_wire (hms m (by simp)) (hlines p (by simp)) h.1
      · apply ih
        · intro m' hm'
          exact hms m' (by simp [hm'])
        · intro p' hp'
          exact hlines p' (by simp [hp'])
        · exact h.2

/-- A session whose socket has brought neither a byte nor an error since the accept reads. -/
private theorem reads_of_accepted {ports : Nat} {w : World} {s : SessionId} {x : ChatSession}
    (h : (chatServer ports).Reachable w) (hx : w.sessions s = some x)
    (hinput : inputOf s w.trace = [])
    (herror : ∀ got size, .readError got size ∉ socketActs s w.trace) : x.reads.reads ≠ [] := by
  intro hnil
  rcases ((World.inv_reachable h).session s x hx).ended hnil with
    ⟨got, size, hmem⟩ | ⟨header, hsplit, hrej⟩
  · exact herror got size hmem
  · rw [hinput, List.append_eq_nil_iff] at hsplit
    have hlong := hrej.1
    simp [hsplit.2, chatCodec_headerLength, headerLength] at hlong

private theorem reads_of_connected {storage : Storage} {c c' : ClientRun} {es : List ClientEvent}
    (hreads : c.client.reads.reads ≠ []) (hinv : c.Inv)
    (hrun : (chatClient storage).exec c es = some c') (hopen : c'.client.closed = false) :
    c'.client.reads.reads ≠ [] := by
  have hall : c'.Inv ∧ (c'.client.closed = false → c'.client.reads.reads ≠ []) := by
    apply System.exec_induction (M := chatClient storage)
      (P := fun u => u.Inv ∧ (u.client.closed = false → u.client.reads.reads ≠ [])) _
      ⟨hinv, fun _ => hreads⟩ hrun
    rintro u e u' ⟨hu, hne⟩ he
    refine ⟨hu.step he, ?_⟩
    obtain ⟨-, d, obs, hh, rfl⟩ := ClientRun.step_cases he
    obtain ⟨published, -, hchain⟩ := hu.printing
    intro hopen'
    cases hh with
    | connected hpos => simp [ReadChain.doReadHeader]
    | receive hop hr =>
      obtain ⟨op, -, -, rfl⟩ := ReadChain.receive_cases hchain.reads_length hr
      exact List.cons_ne_nil _ _
    | headerAccepted hr hs hacc => simp [ReadChain.doReadBody]
    | body hr hs => simp [ReadChain.doReadHeader]
    | closed hp => exact absurd hopen' (by simp)
    | headerRejected hr hs hrej => exact absurd hopen' (by simp)
    | readFailed hr => exact absurd hopen' (by simp)
    | writeFailed hq => exact absurd hopen' (by simp)
    | _ => exact hne hopen'
  exact hall.2 hopen

/-- An accept of a server of the program can complete with any new connection, on which nothing
has happened then. -/
private theorem accept_new {ports : Nat} {w : World} {r : ServerId} {s : SessionId}
    (h : (chatServer ports).Reachable w) (hr : r < ports) (hnew : w.sessions s = none) (pos : Nat)
    (storage : Storage) :
    ∃ u x, w.step (.acceptDone r s pos storage) = some u ∧ u.sessions s = some x ∧
      socketActs s u.trace = [] := by
  have hacc : 0 < (w.servers r).accepts := by
    rw [World.accepts_reachable h hr]
    exact Nat.one_pos
  refine ⟨_, _, World.step_iff.2 (.accepted hacc hnew), Function.update_self _ _ _, ?_⟩
  simp [((World.inv_reachable h).unstarted s hnew).acts, Obs.socketAct?]

private theorem connect_open {storage : Storage} {c : ClientRun}
    (h : (chatClient storage).Reachable c) (hconnects : 0 < c.client.connects)
    (hopen : c.client.closed = false) :
    ∃ d, c.step (.connectDone .success) = some d ∧ d.client.closed = false ∧
      receivedOf d.trace = [] ∧ d.client.reads.reads ≠ [] := by
  have hrun : c.running = true := by
    by_contra hstop
    rw [Bool.not_eq_true] at hstop
    have := (ClientRun.idle_reachable h hstop).1
    omega
  have hreceived : receivedOf c.trace = [] := by
    rcases (ClientRun.inv_reachable h).connecting with h0 | ⟨-, -, hreceived, -⟩
    · omega
    · exact hreceived
  refine ⟨_, by simp [ClientRun.step, hrun, ChatClient.handle, hconnects]; rfl, ?_, ?_, ?_⟩
  · simpa [ChatClient.onConnect, ChatClient.doReadHeader] using hopen
  · simpa using hreceived
  · simp [ChatClient.onConnect, ChatClient.doReadHeader, ReadChain.doReadHeader]

/-- Lines, each sent as `main` of the client sends it, followed by a part of one more frame and
the end of the stream: in whichever chunks they arrive, a session publishes messages with just
these bodies, and a client prints just these lines, and then the read loop has ended. The session
is any one that a server accepts and the client any one that connects, at any time before the
first byte or error comes, whatever else has happened by then. -/
theorem framing_round_trip (lines : List (Storage × List Byte))
    (hlines : ∀ p ∈ lines, p.2.length ≤ maxBodyLength) (storage : Storage) (line part : List Byte)
    (hline : line.length ≤ maxBodyLength)
    (hpart : part <+: (ChatMessage.ofBody storage line).wire)
    (hstrict : part ≠ (ChatMessage.ofBody storage line).wire) (chunks : List (List Byte))
    (hcut : chunks.flatten =
      (lines.map fun p => ChatMessage.ofBody p.1 p.2).flatMap ChatMessage.wire ++ part)
    (fuel : Nat) (hfuel : 3 * chunks.flatten.length + chunks.length + 2 < fuel) :
    (∀ ports w r s pos buffer, (chatServer ports).Reachable w → r < ports →
      w.sessions s = none →
      ∃ u, w.step (.acceptDone r s pos buffer) = some u ∧ socketActs s u.trace = [] ∧
        ∀ es v, (chatServer ports).exec u es = some v → inputOf s v.trace = [] →
          (∀ got size, .readError got size ∉ socketActs s v.trace) →
          ∃ v' x, (sessionReader s).readToEnd fuel v chunks = some (v', []) ∧
            (publishedBy s v'.trace).map ChatMessage.body = lines.map Prod.snd ∧
            v'.sessions s = some x ∧ x.reads.reads = []) ∧
    (∀ initial c, (chatClient initial).Reachable c → 0 < c.client.connects →
      c.client.closed = false →
      ∃ d, c.step (.connectDone .success) = some d ∧ d.client.closed = false ∧
        receivedOf d.trace = [] ∧
        ∀ es e, (chatClient initial).exec d es = some e → e.client.closed = false →
          receivedOf e.trace = [] →
          ∃ e', clientReader.readToEnd fuel e chunks = some (e', []) ∧
            printedOf e'.trace = lines.map (fun p => p.2 ++ [10]) ∧
            e'.client.reads.reads = []) := by
  have hframes : ∀ m ∈ lines.map (fun p => ChatMessage.ofBody p.1 p.2),
      chatCodec.IsFrame m.wire := by
    intro m hm
    obtain ⟨p, hp, rfl⟩ := List.mem_map.1 hm
    exact ChatMessage.ofBody_isFrame p.1 (hlines p hp)
  have hlast := ChatMessage.ofBody_isFrame storage hline
  constructor
  · intro ports w r s pos buffer hw hr hnew
    obtain ⟨u, y, hstep, hy, hacts⟩ := accept_new hw hr hnew pos buffer
    refine ⟨u, hstep, hacts, ?_⟩
    intro es v hrun hinput herror
    have hu : (chatServer ports).Reachable u := hw.step (e := .acceptDone r s pos buffer) hstep
    have hv := hu.exec hrun
    obtain ⟨x, hx⟩ := World.started_exec hy hrun
    have hI : SessionReads s v [] (publishedBy s v.trace) :=
      ⟨World.inv_reachable hv, by simp [hx], hinput, rfl⟩
    obtain ⟨v', c', published, hend, hdone, hchain, hnil, hframed, hwires⟩ :=
      (sessionReader_lawful s).readToEnd_frames hframes hlast hpart hstrict hcut hfuel hI
        (by simp [sessionReader, hx]) (reads_of_accepted hv hx hinput herror)
    obtain ⟨x', hx', rfl⟩ := Option.map_eq_some_iff.1 hchain
    refine ⟨v', x', hend, ?_, hx', hnil⟩
    rw [hdone]
    exact bodies_eq hframed hlines hwires
  · intro initial c hc hconnects hopen
    obtain ⟨d, hstep, hopen', hreceived', hreads⟩ := connect_open hc hconnects hopen
    refine ⟨d, hstep, hopen', hreceived', ?_⟩
    intro es e hrun hopen'' hreceived
    have hd : (chatClient initial).Reachable d := hc.step (e := .connectDone .success) hstep
    have he := hd.exec hrun
    have hne := reads_of_connected hreads (ClientRun.inv_reachable hd) hrun hopen''
    have hgo : e.running = true := by
      by_contra hstop
      rw [Bool.not_eq_true] at hstop
      exact hne (ClientRun.idle_reachable he hstop).2.1
    obtain ⟨published, hprinted, hchain⟩ := (ClientRun.inv_reachable he).printing
    have hI : ClientReads e [] published :=
      ⟨hgo, hopen'', hreceived ▸ hchain.mono False.elim, hprinted⟩
    obtain ⟨e', q, published', hend, hdone, hc', hnil, hframed, hwires⟩ :=
      clientReader_lawful.readToEnd_frames hframes hlast hpart hstrict hcut hfuel hI rfl hne
    obtain rfl := Option.some.inj hc'
    refine ⟨e', hend, ?_, hnil⟩
    have hbodies := congrArg (List.map fun b => b ++ [10]) (bodies_eq hframed hlines hwires)
    rw [List.map_map, List.map_map] at hbodies
    rw [hdone]
    exact hbodies

/-- One line, in two chunks, and the first byte of another one: read by the first session of a
server, and by a client as soon as it is connected. -/
theorem framing_round_trip_line :
    (∃ u v x, (World.init 1).step (.acceptDone 0 7 0 (.fill _ 0)) = some u ∧
      (sessionReader 7).readToEnd 30 u [[32, 32], [32, 49, 104, 32]] = some (v, []) ∧
      (publishedBy 7 v.trace).map ChatMessage.body = [[104]] ∧ v.sessions 7 = some x ∧
      x.reads.reads = []) ∧
    ∃ d e, (ClientRun.init (.fill _ 0)).step (.connectDone .success) = some d ∧
      clientReader.readToEnd 30 d [[32, 32], [32, 49, 104, 32]] = some (e, []) ∧
      printedOf e.trace = [[104, 10]] ∧ e.client.reads.reads = [] := by
  obtain ⟨hsession, hclient⟩ := framing_round_trip [(.fill _ 0, [104])] (by decide) (.fill _ 0) []
    [32] (by decide) (by decide +kernel) (by decide +kernel) [[32, 32], [32, 49, 104, 32]]
    (by decide +kernel) 30 (by decide)
  constructor
  · obtain ⟨u, hstep, hacts, hread⟩ := hsession 1 (World.init 1) 0 7 0 (.fill _ 0)
      (chatServer 1).reachable_init (by decide) rfl
    obtain ⟨v, x, hend, hbodies, hx, hnil⟩ := hread [] u rfl (by simp [inputOf, hacts])
      (by simp [hacts])
    exact ⟨u, v, x, hstep, hend, hbodies, hx, hnil⟩
  · obtain ⟨d, hstep, hopen, hreceived, hread⟩ := hclient (.fill _ 0) (ClientRun.init (.fill _ 0))
      (chatClient (.fill _ 0)).reachable_init (by decide) rfl
    obtain ⟨e, hend, hprinted, hnil⟩ := hread [] d rfl hopen hreceived
    exact ⟨d, e, hstep, hend, hprinted, hnil⟩

end BoostLearning.Chat
