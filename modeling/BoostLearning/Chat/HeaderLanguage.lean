import BoostLearning.Chat.Bounds

/-!
# What is read as a header

`decode_header` accepts whatever `atoi` makes of the four bytes, and `atoi` makes something of
every string. The spellings of a number are given as a grammar; the ones that `encode_header`
writes are among them, one for each length.
-/

namespace BoostLearning.Chat

/-- The strings that `atoi` reads as a number: white space, perhaps a sign, and as many digits as
there are; anything may follow. Without a digit the number is 0. -/
inductive Spells : List Byte → Int → Prop
  | digits {ws ds rest : List Byte} (hws : ∀ c ∈ ws, isspace c = true) (hne : ds ≠ [])
      (hds : ∀ c ∈ ds, isdigit c = true) (hrest : ∀ c ∈ rest.head?, isdigit c = false) :
      Spells (ws ++ (ds ++ rest)) (digitsValue ds)
  | plus {ws ds rest : List Byte} (hws : ∀ c ∈ ws, isspace c = true)
      (hds : ∀ c ∈ ds, isdigit c = true) (hrest : ∀ c ∈ rest.head?, isdigit c = false) :
      Spells (ws ++ 43 :: (ds ++ rest)) (digitsValue ds)
  | minus {ws ds rest : List Byte} (hws : ∀ c ∈ ws, isspace c = true)
      (hds : ∀ c ∈ ds, isdigit c = true) (hrest : ∀ c ∈ rest.head?, isdigit c = false) :
      Spells (ws ++ 45 :: (ds ++ rest)) (-digitsValue ds)
  | junk {ws rest : List Byte} (hws : ∀ c ∈ ws, isspace c = true)
      (hrest : ∀ c ∈ rest.head?, isspace c = false ∧ isdigit c = false ∧ c ≠ 43 ∧ c ≠ 45) :
      Spells (ws ++ rest) 0

section Munch

variable {α : Type*} {p : α → Bool} {l r : List α}

private theorem munch (hl : ∀ a ∈ l, p a = true) (hr : ∀ a ∈ r.head?, p a = false) :
    (l ++ r).takeWhile p = l ∧ (l ++ r).dropWhile p = r := by
  rw [List.takeWhile_append_of_pos hl, List.dropWhile_append_of_pos hl]
  cases r with
  | nil => exact ⟨List.append_nil l, rfl⟩
  | cons a r =>
    have ha : ¬ p a = true := by simp [hr a rfl]
    rw [List.takeWhile_cons_of_neg ha, List.dropWhile_cons_of_neg ha]
    exact ⟨List.append_nil l, rfl⟩

private theorem head_dropWhile (l : List α) : ∀ a ∈ (l.dropWhile p).head?, p a = false := by
  induction l with
  | nil => simp
  | cons b l ih =>
    rw [List.dropWhile_cons]
    split
    · exact ih
    · rename_i hb
      simpa using hb

end Munch

private theorem Spells.atoi {s : List Byte} {i : Int} (h : Spells s i) : atoi s = i := by
  cases h with
  | @digits ws ds rest hws hne hds hrest =>
    obtain ⟨d, ds, rfl⟩ := List.exists_cons_of_ne_nil hne
    have hd := hds d List.mem_cons_self
    have hdrop := (munch hws (r := d :: ds ++ rest) (by simpa using isdigit_not_space hd)).2
    have htake := (munch hds hrest).1
    obtain ⟨-, hplus, hminus⟩ := isdigit_ne hd
    unfold Chat.atoi
    rw [hdrop]
    simp only [List.cons_append, if_neg hplus, if_neg hminus]
    rw [← List.cons_append, htake]
  | @plus ws ds rest hws hds hrest =>
    have hdrop := (munch hws (r := 43 :: (ds ++ rest)) (by simp [isspace])).2
    unfold Chat.atoi
    rw [hdrop]
    simp only [if_true, (munch hds hrest).1]
  | @minus ws ds rest hws hds hrest =>
    have hdrop := (munch hws (r := 45 :: (ds ++ rest)) (by simp [isspace])).2
    unfold Chat.atoi
    rw [hdrop]
    simp only [(munch hds hrest).1]
    rfl
  | @junk ws rest hws hrest =>
    have hdrop := (munch hws (fun c hc => (hrest c hc).1)).2
    unfold Chat.atoi
    rw [hdrop]
    cases rest with
    | nil => rfl
    | cons c rest =>
      obtain ⟨-, hdigit, hplus, hminus⟩ := hrest c rfl
      simp only [if_neg hplus, if_neg hminus]
      rw [List.takeWhile_cons_of_neg (by simp [hdigit])]
      rfl

/-- Every string spells a number. -/
private theorem spells_atoi (s : List Byte) : Spells s (atoi s) := by
  have hws : ∀ c ∈ s.takeWhile isspace, isspace c = true := fun c => List.mem_takeWhile_imp
  have hhead := head_dropWhile (p := isspace) s
  have hsplit := s.takeWhile_append_dropWhile (p := isspace)
  have hdigits : ∀ t : List Byte, ∀ c ∈ t.takeWhile isdigit, isdigit c = true :=
    fun t c => List.mem_takeWhile_imp
  unfold atoi
  cases hs : s.dropWhile isspace with
  | nil =>
    rw [hs] at hsplit
    rw [← hsplit]
    exact .junk hws (by simp)
  | cons c t =>
    rw [hs] at hsplit hhead
    have ht := t.takeWhile_append_dropWhile (p := isdigit)
    simp only
    split
    · rename_i hplus
      have hspell := Spells.plus hws (hdigits t) (head_dropWhile t)
      rwa [ht, ← hplus, hsplit] at hspell
    · rename_i hplus
      split
      · rename_i hminus
        have hspell := Spells.minus hws (hdigits t) (head_dropWhile t)
        rwa [ht, ← hminus, hsplit] at hspell
      · rename_i hminus
        by_cases hc : isdigit c = true
        · have hne : (c :: t).takeWhile isdigit ≠ [] := by
            rw [List.takeWhile_cons_of_pos hc]
            exact List.cons_ne_nil _ _
          have hspell := Spells.digits hws hne (hdigits (c :: t)) (head_dropWhile (c :: t))
          rwa [List.takeWhile_append_dropWhile, hsplit] at hspell
        · have hspell : Spells (s.takeWhile isspace ++ c :: t) 0 := by
            apply Spells.junk hws
            intro c' hc'
            obtain rfl : c = c' := by simpa using hc'
            exact ⟨hhead c rfl, by simpa using hc, hplus, hminus⟩
          rw [List.takeWhile_cons_of_neg hc]
          rwa [hsplit] at hspell

private theorem spells_iff {s : List Byte} {i : Int} : Spells s i ↔ atoi s = i := by
  constructor
  · exact Spells.atoi
  · rintro rfl
    exact spells_atoi s

/-- The text that is read as a header: the first four bytes, up to a NUL. -/
def ChatMessage.headerText (m : ChatMessage) : List Byte := strncat m.data.elems headerLength

namespace ChatMessage

private theorem decodeHeader_of_spells {m : ChatMessage} {n : Nat} (hn : n ≤ maxBodyLength)
    (h : Spells m.headerText n) : m.decodeHeader = (true, { m with bodyLength := n.toUInt64 }) := by
  have hlength : chatCodec.bodyLength? (m.data.elems.take headerLength) = some n := by
    rw [chatCodec_bodyLength?, headerBodyLength?, strncat_take]
    have hatoi : atoi (strncat m.data.elems headerLength) = n := spells_iff.1 h
    rw [hatoi, if_pos ⟨Int.natCast_nonneg n, Int.ofNat_le.2 hn⟩, Int.toNat_natCast]
  rw [decodeHeader_eq, hlength]

private theorem decodeHeader_of_not_spells {m : ChatMessage}
    (h : ∀ n : Nat, n ≤ maxBodyLength → ¬ Spells m.headerText n) :
    m.decodeHeader = (false, { m with bodyLength := 0 }) := by
  have hlength : chatCodec.bodyLength? (m.data.elems.take headerLength) = none := by
    rw [chatCodec_bodyLength?, headerBodyLength?, strncat_take]
    apply if_neg
    rintro ⟨hpos, hle⟩
    apply h (atoi (strncat m.data.elems headerLength)).toNat (by omega)
    rw [Int.toNat_of_nonneg hpos]
    exact spells_atoi _
  rw [decodeHeader_eq, hlength]

private theorem decodeHeader_cases (m : ChatMessage) :
    (∃ n : Nat, n ≤ maxBodyLength ∧ Spells m.headerText n ∧
      m.decodeHeader = (true, { m with bodyLength := n.toUInt64 })) ∨
    (∀ n : Nat, n ≤ maxBodyLength → ¬ Spells m.headerText n) ∧
      m.decodeHeader = (false, { m with bodyLength := 0 }) := by
  by_cases h : ∃ n : Nat, n ≤ maxBodyLength ∧ Spells m.headerText n
  · obtain ⟨n, hn, hspell⟩ := h
    exact .inl ⟨n, hn, hspell, decodeHeader_of_spells hn hspell⟩
  · have hnone : ∀ n : Nat, n ≤ maxBodyLength → ¬ Spells m.headerText n :=
      fun n hn hspell => h ⟨n, hn, hspell⟩
    exact .inr ⟨hnone, decodeHeader_of_not_spells hnone⟩

private theorem spells_of_encoded {m : ChatMessage} {n : Nat} (hn : n ≤ maxBodyLength)
    (h : m.data.elems.take headerLength = sprintf4d n) : Spells m.headerText n := by
  have h512 : maxBodyLength = 512 := rfl
  rw [spells_iff, headerText, ← strncat_take, h]
  exact atoi_sprintf4d (by omega)

private theorem take_encodeHeader {m : ChatMessage} {n : Nat} (hn : n ≤ maxBodyLength)
    (hm : m.bodyLength = n.toUInt64) :
    m.encodeHeader.data.elems.take headerLength = sprintf4d n := by
  have h512 : maxBodyLength = 512 := rfl
  have h4 : headerLength = 4 := rfl
  have hlen : (sprintf4d (n : Int)).length = headerLength := sprintf4d_length (by omega)
  have hint : toInt m.bodyLength = n := by
    rw [hm, toInt_of_le (by rw [toNat_toUInt64 hn]; exact hn), toNat_toUInt64 hn]
  have hstore := m.data.take_store 0 (sprintf4d (n : Int)) (by omega)
  rw [encodeHeader, hint, List.take_of_length_le (Nat.le_of_eq hlen)]
  simpa [hlen] using hstore

private theorem encode_decode_iff (m : ChatMessage) :
    m.decodeHeader.2.encodeHeader.data.elems.take headerLength =
        m.data.elems.take headerLength ↔
      ∃ n : Nat, n ≤ maxBodyLength ∧ m.data.elems.take headerLength = sprintf4d n := by
  obtain ⟨n, hn, hspell, hdecode⟩ | ⟨hnone, hdecode⟩ := m.decodeHeader_cases
  · rw [hdecode, take_encodeHeader hn (m := { m with bodyLength := n.toUInt64 }) rfl]
    constructor
    · intro h
      exact ⟨n, hn, h.symm⟩
    · rintro ⟨n', hn', h⟩
      have hsame : (n : Int) = n' :=
        (spells_iff.1 hspell).symm.trans (spells_iff.1 (spells_of_encoded hn' h))
      rw [h, hsame]
  · rw [hdecode, take_encodeHeader (Nat.zero_le _) (m := { m with bodyLength := 0 }) rfl]
    constructor
    · intro h
      exact absurd (spells_of_encoded (Nat.zero_le _) h.symm) (hnone 0 (Nat.zero_le _))
    · rintro ⟨n, hn, h⟩
      exact absurd (spells_of_encoded hn h) (hnone n hn)

end ChatMessage

/-- A header is accepted with the length that it spells, and refused when it spells none within
the limit. Those that `encode_header` writes are accepted, and are the ones that come back. -/
theorem header_language (m : ChatMessage) :
    (∀ n : Nat, n ≤ maxBodyLength →
      (m.decodeHeader = (true, { m with bodyLength := n.toUInt64 }) ↔ Spells m.headerText n)) ∧
    ((∀ n : Nat, n ≤ maxBodyLength → ¬ Spells m.headerText n) →
      m.decodeHeader = (false, { m with bodyLength := 0 })) ∧
    (∀ n : Nat, n ≤ maxBodyLength → m.data.elems.take headerLength = sprintf4d n →
      m.decodeHeader = (true, { m with bodyLength := n.toUInt64 })) ∧
    (m.decodeHeader.2.encodeHeader.data.elems.take headerLength =
        m.data.elems.take headerLength ↔
      ∃ n : Nat, n ≤ maxBodyLength ∧ m.data.elems.take headerLength = sprintf4d n) := by
  refine ⟨?_, ChatMessage.decodeHeader_of_not_spells, ?_, m.encode_decode_iff⟩
  · intro n hn
    constructor
    · intro h
      obtain ⟨n', hn', hspell, h'⟩ | ⟨-, h'⟩ := m.decodeHeader_cases
      · have hlengths : n'.toUInt64 = n.toUInt64 := by
          have := h'.symm.trans h
          simpa using this
        have hsame : n' = n := by
          rw [← toNat_toUInt64 hn', ← toNat_toUInt64 hn, hlengths]
        exact hsame ▸ hspell
      · exact absurd (h'.symm.trans h) (by simp)
    · exact ChatMessage.decodeHeader_of_spells hn
  · intro n hn h
    exact ChatMessage.decodeHeader_of_spells hn (ChatMessage.spells_of_encoded hn h)

/-- The header `abcd` is accepted, as that of an empty message. -/
theorem not_only_encoded_headers :
    ¬ ∀ (m : ChatMessage) (n : Nat), n ≤ maxBodyLength →
      (m.decodeHeader = (true, { m with bodyLength := n.toUInt64 }) ↔
        m.data.elems.take headerLength = sprintf4d n) := by
  intro h
  have habcd := h (.init ((Buffer.fill _ 0).store 0 [97, 98, 99, 100])) 0 (Nat.zero_le _)
  exact absurd (habcd.1 (by decide +kernel)) (by decide +kernel)

end BoostLearning.Chat
