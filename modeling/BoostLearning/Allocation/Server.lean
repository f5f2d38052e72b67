import BoostLearning.Chat.CString
import BoostLearning.Framework.Transition
import BoostLearning.Framework.WriteQueue

/-!
# The accept loop and the object it captured

The handler of `async_accept` captures `this` and calls `do_accept` again, after a connection and
after an error. Whether there is still a server then is decided in `main`, by how the server is
declared there. A state says where `main` stands, whether the server object exists, and which
accepts are outstanding; the sessions that are started have no part in it.
-/

namespace BoostLearning.Allocation

/-- A server that `main` creates is destroyed at the end of the statement, or of the block. -/
inductive Declaration where
  | temporary
  | named
deriving DecidableEq

/-- Where `main` stands. After a call on an object that is gone, nothing is known any more. -/
inductive Main where
  | start
  | constructed
  | running
  | returned (code : Int)
  | undefined
deriving DecidableEq

/-- An outstanding `async_accept`, or its handler that is ready to run. -/
inductive Accept where
  | pending
  | ready (ec : ErrorCode)
deriving DecidableEq

def Accept.complete (ec : ErrorCode) : Accept → Accept
  | .pending => .ready ec
  | .ready ec' => .ready ec'

structure Server where
  port : UInt16
  acceptorOpen : Bool
deriving DecidableEq

namespace Server

def new (port : UInt16) : Server := ⟨port, true⟩

/-- On a closed acceptor, an accept ends at once. -/
def doAccept (s : Server) : Accept := if s.acceptorOpen then .pending else .ready .failure

end Server

/-- `main` and the accept loop; the trace holds what each accept handler found of its server. -/
structure AcceptWorld where
  main : Main
  server : Option Server
  accepts : List Accept
  sessions : Nat
  trace : List (Option Server)
deriving DecidableEq

/-- The constructor returns or throws, the statement ends, an accept has an outcome, its handler
runs, and `run()` is out of work. -/
inductive AcceptEvent where
  | construct (ok : Bool)
  | endStatement
  | complete (i : Nat) (ec : ErrorCode)
  | handler (i : Nat)
  | runReturns
deriving DecidableEq

namespace AcceptWorld

/-- `~server`: the acceptor is closed, which cancels what is outstanding. -/
def destroy (w : AcceptWorld) : AcceptWorld :=
  { w with server := none, accepts := w.accepts.map (.complete .failure) }

/-- The handler that `do_accept` passes, on the server there is. -/
def onAccept (w : AcceptWorld) (ec : ErrorCode) : AcceptWorld :=
  let w := { w with trace := w.trace ++ [w.server] }
  match w.server with
  | none => { w with main := .undefined }
  | some s =>
    { w with
      sessions := if ec = .success then w.sessions + 1 else w.sessions
      accepts := w.accepts ++ [s.doAccept] }

/-- One event. `io_context.run()` runs handlers, and only between the two statements around it. -/
def step (d : Declaration) (port : UInt16) (w : AcceptWorld) : AcceptEvent → Option AcceptWorld
  | .construct ok =>
    if w.main = .start then
      if ok then
        let s := Server.new port
        some { w with main := .constructed, server := some s, accepts := w.accepts ++ [s.doAccept] }
      else some { w with main := .returned 0 }
    else none
  | .endStatement =>
    if w.main = .constructed then
      match d with
      | .temporary => some { w.destroy with main := .running }
      | .named => some { w with main := .running }
    else none
  | .complete i ec =>
    if w.accepts[i]? = some .pending then some { w with accepts := w.accepts.set i (.ready ec) }
    else none
  | .handler i =>
    match w.main, w.accepts[i]? with
    | .running, some (.ready ec) => some ({ w with accepts := w.accepts.eraseIdx i }.onAccept ec)
    | _, _ => none
  | .runReturns =>
    if w.main = .running ∧ w.accepts = [] then some { w.destroy with main := .returned 0 } else none

end AcceptWorld

/-- `argc` is checked first; the port goes from `int` through `short` to `unsigned short`. -/
def serverMain (d : Declaration) (argv : List (List Chat.Byte)) :
    System AcceptWorld AcceptEvent where
  init := ⟨if argv.length = 2 then .start else .returned 1, none, [], 0, []⟩
  step := AcceptWorld.step d (.ofInt (Chat.atoi (argv[1]?.getD [])))

/-- `main` as it stands: `server(io_context, std::atoi(argv[1]));` declares no name. -/
def allocationMain (argv : List (List Chat.Byte)) : System AcceptWorld AcceptEvent :=
  serverMain .temporary argv

namespace AcceptWorld

variable {d : Declaration} {port : UInt16} {argv : List (List Chat.Byte)} {w w' : AcceptWorld}
  {e : AcceptEvent}

/-- Every accept handler that ran found its server with an open acceptor, and while `run()` is
executing there is exactly one accept on such a server. -/
def AcceptLoop (w : AcceptWorld) : Prop :=
  (∀ found ∈ w.trace, found.any Server.acceptorOpen = true) ∧
    (w.main = .running → w.accepts.length = 1 ∧ w.server.any Server.acceptorOpen = true)

/-! ## With a name -/

/-- A server that lives as long as the block keeps one accept outstanding. -/
structure Named (w : AcceptWorld) : Prop where
  found : ∀ found ∈ w.trace, found.any Server.acceptorOpen = true
  defined : w.main ≠ .undefined
  start : w.main = .start → w.accepts = []
  loop : w.main = .constructed ∨ w.main = .running →
    w.accepts.length = 1 ∧ w.server.any Server.acceptorOpen = true

theorem Named.step (hi : w.Named) (he : w.step .named port e = some w') : w'.Named := by
  cases e with
  | construct ok =>
    simp only [AcceptWorld.step, Option.ite_none_right_eq_some] at he
    obtain ⟨hstart, he⟩ := he
    cases ok with
    | false =>
      obtain rfl : _ = w' := Option.some.inj he
      exact ⟨hi.found, by simp, by simp, by simp⟩
    | true =>
      obtain rfl : _ = w' := Option.some.inj he
      refine ⟨hi.found, by simp, by simp, fun _ => ⟨?_, rfl⟩⟩
      rw [hi.start hstart]
      rfl
  | endStatement =>
    simp only [AcceptWorld.step, Option.ite_none_right_eq_some, Option.some.injEq] at he
    obtain ⟨hmain, rfl⟩ := he
    exact ⟨hi.found, by simp, by simp, fun _ => hi.loop (.inl hmain)⟩
  | complete i ec =>
    simp only [AcceptWorld.step, Option.ite_none_right_eq_some, Option.some.injEq] at he
    obtain ⟨hpending, rfl⟩ := he
    refine ⟨hi.found, hi.defined, ?_, ?_⟩
    · intro hmain
      rw [hi.start hmain] at hpending
      exact absurd hpending (by simp)
    · simpa using hi.loop
  | handler i =>
    simp only [AcceptWorld.step] at he
    split at he
    · rename_i ec hmain haccept
      obtain rfl : _ = w' := Option.some.inj he
      obtain ⟨hlen, hopen⟩ := hi.loop (.inr hmain)
      obtain ⟨s, hs, hs'⟩ := exists_eq_some_of_any hopen
      have hlt := (List.getElem?_eq_some_iff.1 haccept).1
      simp only [onAccept, hs]
      refine ⟨?_, by simp [hmain], by simp [hmain], fun _ => ⟨?_, by simp [hs']⟩⟩
      · intro found hfound
        cases List.mem_append.1 hfound with
        | inl hold => exact hi.found found hold
        | inr hnew =>
          rw [List.mem_singleton.1 hnew]
          exact hs'
      · rw [List.length_append, List.length_singleton, List.length_eraseIdx_of_lt hlt, hlen]
    · exact absurd he (by simp)
  | runReturns =>
    simp only [AcceptWorld.step, Option.ite_none_right_eq_some] at he
    obtain ⟨⟨hmain, hnone⟩, -⟩ := he
    have hlen := (hi.loop (.inr hmain)).1
    rw [hnone] at hlen
    exact absurd hlen (by simp)

/-- Had the server a name, as in the other programs, the accept loop would stay alive. -/
theorem named_acceptLoop (hr : (serverMain .named argv).Reachable w) : w.AcceptLoop := by
  have hi : w.Named := by
    apply System.reachable_induction (P := Named) _ (fun _ _ _ _ hi he => hi.step he) hr
    refine ⟨by simp [serverMain], ?_, by simp [serverMain], ?_⟩
    · simp only [serverMain]
      split <;> simp
    · simp only [serverMain]
      split <;> simp
  exact ⟨hi.found, fun hmain => hi.loop (.inr hmain)⟩

/-! ## Without a name -/

/-- All the states there are when the server is gone before `run()` is called. -/
inductive Unnamed (port : UInt16) : AcceptWorld → Prop
  | start : Unnamed port ⟨.start, none, [], 0, []⟩
  | constructed (a : Accept) : Unnamed port ⟨.constructed, some (.new port), [a], 0, []⟩
  | running (ec : ErrorCode) : Unnamed port ⟨.running, none, [.ready ec], 0, []⟩
  | returned (code : Int) : Unnamed port ⟨.returned code, none, [], 0, []⟩
  | undefined : Unnamed port ⟨.undefined, none, [], 0, [none]⟩

private theorem complete_eq_ready (ec : ErrorCode) (a : Accept) :
    ∃ ec', a.complete ec = .ready ec' := by
  cases a with
  | pending => exact ⟨ec, rfl⟩
  | ready ec' => exact ⟨ec', rfl⟩

/-- Whatever has become of the accept, its handler is ready when `run()` starts, and the first
thing it does is a call on a server that is gone. -/
theorem Unnamed.step (hi : Unnamed port w) (he : w.step .temporary port e = some w') :
    Unnamed port w' := by
  cases hi with
  | start =>
    cases e with
    | construct ok =>
      cases ok with
      | false => exact Option.some.inj he ▸ .returned 0
      | true => exact Option.some.inj he ▸ .constructed _
    | _ => simp [AcceptWorld.step] at he
  | constructed a =>
    cases e with
    | endStatement =>
      obtain ⟨ec, hec⟩ := complete_eq_ready .failure a
      obtain rfl := Option.some.inj he
      simp only [destroy, List.map_cons, List.map_nil, hec]
      exact .running ec
    | complete i ec =>
      cases i with
      | zero =>
        simp only [AcceptWorld.step, Option.ite_none_right_eq_some, Option.some.injEq] at he
        obtain ⟨-, rfl⟩ := he
        exact .constructed _
      | succ i => simp [AcceptWorld.step] at he
    | _ => simp [AcceptWorld.step] at he
  | running ec =>
    cases e with
    | handler i =>
      cases i with
      | zero => exact Option.some.inj he ▸ .undefined
      | succ i => simp [AcceptWorld.step] at he
    | complete i ec' =>
      cases i with
      | zero => simp [AcceptWorld.step] at he
      | succ i => simp [AcceptWorld.step] at he
    | _ => simp [AcceptWorld.step] at he
  | returned code =>
    cases e <;> simp [AcceptWorld.step] at he
  | undefined =>
    cases e <;> simp [AcceptWorld.step] at he

theorem unnamed_reachable (hr : (allocationMain argv).Reachable w) :
    Unnamed (.ofInt (Chat.atoi (argv[1]?.getD []))) w := by
  apply System.reachable_induction (P := Unnamed _) _ (fun _ _ _ _ hi he => hi.step he) hr
  simp only [allocationMain, serverMain]
  split
  · exact .start
  · exact .returned 1

end AcceptWorld

private theorem eq_init_of_no_port {argv : List (List Chat.Byte)} {w : AcceptWorld}
    (hargc : argv.length ≠ 2) (hr : (allocationMain argv).Reachable w) :
    w = ⟨.returned 1, none, [], 0, []⟩ := by
  apply System.reachable_induction (P := fun w => w = ⟨.returned 1, none, [], 0, []⟩) _ _ hr
  · simp [allocationMain, serverMain, hargc]
  · rintro w e w' - rfl he
    cases e <;> simp [allocationMain, serverMain, AcceptWorld.step] at he

private theorem running_of_port {argv : List (List Chat.Byte)} (hargc : argv.length = 2) :
    (allocationMain argv).Reachable ⟨.running, none, [.ready .failure], 0, []⟩ := by
  refine ⟨[.construct true, .endStatement], ?_⟩
  simp [System.exec, allocationMain, serverMain, hargc, AcceptWorld.step, AcceptWorld.destroy,
    Server.new, Server.doAccept, Accept.complete]

/-- The accept loop stays alive in every run if and only if there is no port argument, so that
`main` returns before there is a server. Whenever `run()` is executing the server is gone, and one
accept handler is ready that finds it so. -/
theorem acceptLoop_iff_no_port (argv : List (List Chat.Byte)) :
    ((∀ w, (allocationMain argv).Reachable w → w.AcceptLoop) ↔ argv.length ≠ 2) ∧
      ∀ w, (allocationMain argv).Reachable w → w.main = .running →
        w.server = none ∧ ∃ ec w', w.accepts = [.ready ec] ∧
          (allocationMain argv).step w (.handler 0) = some w' ∧ w'.trace = [none] := by
  refine ⟨⟨?_, ?_⟩, ?_⟩
  · intro hloop hargc
    obtain ⟨-, hopen⟩ := (hloop _ (running_of_port hargc)).2 rfl
    exact absurd hopen (by simp)
  · intro hargc w hr
    rw [eq_init_of_no_port hargc hr]
    simp [AcceptWorld.AcceptLoop]
  · intro w hr hmain
    cases AcceptWorld.unnamed_reachable hr with
    | running ec => exact ⟨rfl, ec, _, rfl, rfl, rfl⟩
    | _ => exact absurd hmain (by simp)

/-- `server 8080`, with a client that connects before the end of the statement. -/
def earlyClient : List AcceptEvent := [.construct true, .complete 0 .success, .endStatement]

theorem acceptLoop_iff_no_port_earlyClient :
    ∃ w w', (allocationMain [[115], [56, 48, 56, 48]]).exec
        (allocationMain [[115], [56, 48, 56, 48]]).init earlyClient = some w ∧
      w.main = .running ∧ w.accepts = [.ready .success] ∧ w.server = none ∧
      (allocationMain [[115], [56, 48, 56, 48]]).step w (.handler 0) = some w' ∧
      w'.trace = [none] ∧
      ¬ ∀ w, (allocationMain [[115], [56, 48, 56, 48]]).Reachable w → w.AcceptLoop := by
  have hend : ((allocationMain [[115], [56, 48, 56, 48]]).exec
      (allocationMain [[115], [56, 48, 56, 48]]).init earlyClient).any
        (fun w => decide (w.main = .running ∧ w.accepts = [.ready .success])) = true := by
    decide +kernel
  obtain ⟨w, hrun, htest⟩ := exists_eq_some_of_any hend
  obtain ⟨hmain, haccepts⟩ := of_decide_eq_true htest
  obtain ⟨hiff, hgone⟩ := acceptLoop_iff_no_port [[115], [56, 48, 56, 48]]
  obtain ⟨hserver, _, w', -, hstep, htrace⟩ := hgone w ⟨earlyClient, hrun⟩ hmain
  exact ⟨w, w', hrun, hmain, haccepts, hserver, hstep, htrace, fun hloop => hiff.1 hloop rfl⟩

/-- The handler of that client runs on a server that is gone. -/
theorem not_acceptLoop_earlyClient :
    ¬ ∀ argv w, (allocationMain argv).Reachable w → w.AcceptLoop := by
  intro hloop
  have h := hloop _ _ ((allocationMain [[115], [56, 48, 56, 48]]).reachable_final
    (earlyClient ++ [.handler 0]))
  exact absurd (h.1 none (by decide +kernel)) (by simp)

end BoostLearning.Allocation
