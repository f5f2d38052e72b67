import BoostLearning.Chat.ClientInvariant
import BoostLearning.Framework.InputStream

/-!
# The input loop of the client

`main` reads lines into an array of `max_body_length + 1` characters, makes a message of each and
calls `write` with it. The loop goes on while `getline` does not fail, and `getline` fails at the
end of the input and on a full array alike.
-/

namespace BoostLearning.Chat

def newline : Byte := 10

abbrev LineBuffer := Buffer Byte (maxBodyLength + 1)

def LineBuffer.text (line : LineBuffer) : List Byte := line.elems.takeWhile (· ≠ 0)

/-- The loop, with the messages that `write` is called with. The `i`-th `msg` is constructed in
`storage i`. -/
def inputLoop (storage : Nat → Storage) (i : Nat) (line : LineBuffer) (cin : InputStream Byte) :
    List ChatMessage × InputStream Byte :=
  let r := cin.getline newline (maxBodyLength + 1)
  let line := line.store 0 (r.1 ++ [0])
  if _h : r.2.failbit = true then ([], r.2)
  else
    let msg := ChatMessage.ofBody (storage i) (LineBuffer.text line)
    let rest := inputLoop storage (i + 1) line r.2
    (msg :: rest.1, rest.2)
termination_by cin.remaining
decreasing_by exact InputStream.remaining_getline (Bool.eq_false_iff.2 _h)

/-- The calls of the input thread: those of the loop, and `close`. -/
def mainCalls (storage : Nat → Storage) (line : LineBuffer) (input : List Byte) :
    List ClientEvent :=
  (inputLoop storage 0 line (.ofList input)).1.map .write ++ [.close]

/-- Every line that fits a message is passed on, in order, and the loop ends at the end of the
input. -/
def InputPassed (storage : Nat → Storage) (line : LineBuffer) (input : List Byte) : Prop :=
  ((InputStream.lines newline input).filter (·.length ≤ maxBodyLength)).Sublist
      ((inputLoop storage 0 line (.ofList input)).1.map ChatMessage.body) ∧
    (inputLoop storage 0 line (.ofList input)).2.eofbit = true ∧
    (inputLoop storage 0 line (.ofList input)).2.rest = []

/-! ## What is in the array -/

private theorem LineBuffer.text_store (line : LineBuffer) {t : List Byte} (hnul : 0 ∉ t)
    (hlen : t.length ≤ maxBodyLength) : LineBuffer.text (line.store 0 (t ++ [0])) = t := by
  have hfit : 0 + (t ++ [0]).length ≤ maxBodyLength + 1 := by
    rw [List.length_append, List.length_singleton]
    omega
  have hpos : ∀ c ∈ t, decide (c ≠ 0) = true := by
    intro c hc
    exact decide_eq_true fun h => hnul (h ▸ hc)
  rw [text, line.store_elems hfit, List.take_zero, List.nil_append, List.append_assoc,
    List.takeWhile_append_of_pos hpos, List.singleton_append,
    List.takeWhile_cons_of_neg (by simp), List.append_nil]

private theorem inputLoop_eq (storage : Nat → Storage) (i : Nat) (line : LineBuffer)
    {cin : InputStream Byte} (hnul : 0 ∉ cin.rest) :
    (inputLoop storage i line cin).1.map ChatMessage.body =
        (cin.readLines newline (maxBodyLength + 1)).1 ∧
      (inputLoop storage i line cin).2 = (cin.readLines newline (maxBodyLength + 1)).2 := by
  induction hk : cin.remaining using Nat.strongRecOn generalizing i line cin with
  | ind k ih =>
    subst hk
    cases hfail : (cin.getline newline (maxBodyLength + 1)).2.failbit with
    | true =>
      rw [inputLoop, dif_pos hfail, InputStream.readLines_fail Prod.mk.eta.symm hfail]
      exact ⟨rfl, rfl⟩
    | false =>
      obtain ⟨hnul', hrest, hlen⟩ := InputStream.getline_bounds hnul newline maxBodyLength
      have hneg := Bool.eq_false_iff.1 hfail
      rw [InputStream.readLines_cons Prod.mk.eta.symm hfail]
      obtain ⟨hbodies, hend⟩ := ih _ (InputStream.remaining_getline hfail) (i + 1)
        (line.store 0 ((cin.getline newline (maxBodyLength + 1)).1 ++ [0])) hrest rfl
      rw [inputLoop, dif_neg hneg]
      refine ⟨?_, hend⟩
      rw [List.map_cons, LineBuffer.text_store line hnul' hlen, hbodies,
        (ChatMessage.ofBody_wire (storage i) hlen).2.1]

/-! ## The calls of `main` -/

def ClientEvent.written? : ClientEvent → Option ChatMessage
  | .write msg => some msg
  | _ => none

theorem calledOf_exec {storage : Storage} {w w' : ClientRun} {es : List ClientEvent}
    (h : (chatClient storage).exec w es = some w') :
    calledOf w'.trace = calledOf w.trace ++ es.filterMap ClientEvent.written? := by
  induction es generalizing w with
  | nil =>
    obtain rfl : w = w' := Option.some.inj h
    simp
  | cons e es ih =>
    obtain ⟨u, hu, hrun⟩ := (System.exec_cons_some _).1 h
    have hstep : calledOf u.trace = calledOf w.trace ++ (ClientEvent.written? e).toList := by
      obtain ⟨-, c, obs, hc, rfl⟩ := ClientRun.step_cases hu
      cases hc <;> simp [ClientEvent.written?]
    rw [ih hrun, hstep, List.append_assoc, List.filterMap_cons]
    cases ClientEvent.written? e <;> rfl

/-- In a run whose calls are those of `main`, `write` has been called with the messages of the
loop. -/
theorem calledOf_main {storage : Nat → Storage} {line : LineBuffer} {input : List Byte}
    {msgStorage : Storage} {w : ClientRun} {es : List ClientEvent}
    (h : (chatClient msgStorage).exec (chatClient msgStorage).init es = some w)
    (hcalls : es.filter ClientEvent.isCall = mainCalls storage line input) :
    calledOf w.trace = (inputLoop storage 0 line (.ofList input)).1 := by
  have hwrites : es.filterMap ClientEvent.written? =
      (es.filter ClientEvent.isCall).filterMap ClientEvent.written? := by
    rw [List.filterMap_filter]
    congr 1
    funext e
    cases e <;> rfl
  rw [calledOf_exec h, hwrites, hcalls, mainCalls]
  simp [chatClient, ClientRun.init, List.filterMap_append, List.filterMap_map,
    Function.comp_def, ClientEvent.written?]

/-- The loop passes on what it should exactly when no line of the input is too long; it always
passes on the lines in front of the first one that is. -/
theorem inputPassed_iff (storage : Nat → Storage) (line : LineBuffer) {input : List Byte}
    (hnul : 0 ∉ input) :
    (InputPassed storage line input ↔
      ∀ l ∈ InputStream.lines newline input, l.length ≤ maxBodyLength) ∧
    (inputLoop storage 0 line (.ofList input)).1.map ChatMessage.body =
      (InputStream.lines newline input).takeWhile (·.length ≤ maxBodyLength) := by
  have hcin : 0 ∉ (InputStream.ofList input).rest := hnul
  obtain ⟨hbodies, hstream⟩ := inputLoop_eq storage 0 line hcin
  obtain ⟨hread, hend, hstop⟩ := InputStream.readLines_spec newline maxBodyLength input
  rw [hread] at hbodies
  refine ⟨⟨?_, fun hall => ?_⟩, hbodies⟩
  · rintro ⟨-, -, hrest⟩ l hl
    by_contra hlong
    exact hstop ⟨l, hl, Nat.not_le.1 hlong⟩ (hstream ▸ hrest)
  · have hdone := hstream.trans (hend hall)
    refine ⟨?_, by rw [hdone], by rw [hdone]⟩
    have htake : (InputStream.lines newline input).takeWhile (·.length ≤ maxBodyLength) =
        InputStream.lines newline input :=
      List.takeWhile_eq_self_iff.2 fun l hl => decide_eq_true (hall l hl)
    rw [hbodies, htake]
    exact List.filter_sublist

/-- Two lines, the second one without a newline, and an empty one between them. -/
theorem inputPassed_iff_twoLines :
    InputPassed (fun _ => .fill _ 0) (.fill _ 0) [104, 105, 10, 10, 120] ∧
      (inputLoop (fun _ => .fill _ 0) 0 (.fill _ 0) (.ofList [104, 105, 10, 10, 120])).1.map
        ChatMessage.body = [[104, 105], [], [120]] := by
  have hnul : (0 : Byte) ∉ [104, 105, 10, 10, 120] := by decide
  obtain ⟨hiff, hbodies⟩ := inputPassed_iff (fun _ => .fill _ 0) (.fill _ 0) hnul
  exact ⟨hiff.2 (by decide), hbodies.trans (by decide)⟩

/-- A line of 513 characters, and a short one behind it. -/
def longLine : List Byte := List.replicate 512 97 ++ 97 :: [newline, 98, newline]

/-- The array is full in the middle of the first line, and the second one is not read. -/
theorem not_inputPassed_longLine :
    0 ∉ longLine ∧ [98] ∈ InputStream.lines newline longLine ∧
      (inputLoop (fun _ => .fill _ 0) 0 (.fill _ 0) (.ofList longLine)).1 = [] ∧
      ¬ InputPassed (fun _ => .fill _ 0) (.fill _ 0) longLine := by
  have hfull : (InputStream.ofList longLine).getline newline (maxBodyLength + 1) =
      (List.replicate 512 97, ⟨[97, newline, 98, newline], false, true⟩) :=
    InputStream.getline_long (fun h => absurd (List.eq_of_mem_replicate h) (by decide))
      (by decide) (List.length_replicate ..)
  have hloop : inputLoop (fun _ => .fill _ 0) 0 (.fill _ 0) (.ofList longLine) =
      ([], ⟨[97, newline, 98, newline], false, true⟩) := by
    rw [inputLoop, dif_pos (by rw [hfull]), hfull]
  refine ⟨by decide +kernel, by decide +kernel, by rw [hloop], ?_⟩
  rintro ⟨-, heof, -⟩
  rw [hloop] at heof
  exact absurd heof (by decide)

end BoostLearning.Chat
