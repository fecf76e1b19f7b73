import ServiceDirectory.Proofs.Dictionary
import ServiceDirectory.Row

/-! # Objects of strings as JSON text

Reading the text of an object of strings gives its members back. Metadata is kept as such a text, so
it is the same after it was written and read (`Metadata.parse_stringObjectText`), and two metadata
with one text are one.
-/

namespace ServiceDirectory.Json

theorem skipSpace_cons {c : Char} (h : isSpace c = false) (r : List Char) :
    skipSpace (c :: r) = c :: r := by
  simp [skipSpace, h]

theorem hexDigit?_digitChar : ∀ n < 16, Text.hexDigit? (Nat.digitChar n) = some n := by
  decide

theorem readCoded_control {c : Char} (h : c.toNat < 32) (r : List Char) :
    readCoded ('0' :: '0' :: Nat.digitChar (c.toNat / 16) :: Nat.digitChar (c.toNat % 16) :: r) =
      some (c, r) := by
  have h₀ : Text.hexDigit? '0' = some 0 := rfl
  have h₁ := hexDigit?_digitChar (c.toNat / 16) (by omega)
  have h₂ := hexDigit?_digitChar (c.toNat % 16) (by omega)
  have hc : 16 * (c.toNat / 16) + c.toNat % 16 = c.toNat := by omega
  have hn : ¬ 56320 ≤ c.toNat ∧ ¬ 55296 ≤ c.toNat := by omega
  simp [readCoded, readCode, h₀, h₁, h₂, hc, hn, Char.ofNat_toNat]

theorem readChars_backslash {fuel : Nat} {t r : List Char} {c : Char}
    (h : readEscape t = some (c, r)) :
    readChars (fuel + 1) ('\\' :: t) = (readChars fuel r).map fun p => (c :: p.1, p.2) := by
  cases hr : readChars fuel r <;> simp [readChars, h, hr]

theorem readChars_plain {fuel : Nat} {c : Char} (hq : c ≠ '"') (hb : c ≠ '\\')
    (hc : ¬ c.toNat < 32) (r : List Char) :
    readChars (fuel + 1) (c :: r) = (readChars fuel r).map fun p => (c :: p.1, p.2) := by
  cases hr : readChars fuel r <;> simp [readChars, hq, hb, hc, hr]

theorem readChars_escape (fuel : Nat) (c : Char) (r : List Char) :
    readChars (fuel + 1) (escape c ++ r) = (readChars fuel r).map fun p => (c :: p.1, p.2) := by
  unfold escape
  split_ifs with hq hb
  all_goals first
    | subst_vars; exact readChars_backslash rfl
    | skip
  · next h => exact readChars_backslash (by simp [readEscape, readCoded_control h])
  · next h => exact readChars_plain hq hb h r

theorem readChars_quoted (s : List Char) (r : List Char) {fuel : Nat} (h : s.length < fuel) :
    readChars fuel (s.flatMap escape ++ '"' :: r) = some (s, r) := by
  induction s generalizing fuel with
  | nil =>
    obtain ⟨n, rfl⟩ := Nat.exists_eq_succ_of_ne_zero (Nat.ne_of_gt h)
    simp [readChars]
  | cons c s ih =>
    obtain ⟨n, rfl⟩ := Nat.exists_eq_succ_of_ne_zero (Nat.ne_zero_of_lt h)
    have hn : s.length < n := by simpa using h
    rw [List.flatMap_cons, List.append_assoc, readChars_escape, ih hn]
    rfl

theorem length_le_length_escaped (s : List Char) : s.length ≤ (s.flatMap escape).length := by
  induction s with
  | nil => simp
  | cons c s ih =>
    have hc : 1 ≤ (escape c).length := by
      unfold escape
      split_ifs <;> simp
    rw [List.flatMap_cons, List.length_append, List.length_cons]
    omega

theorem readString_quote (s : String) (r : List Char) :
    readString (quote s ++ r) = some (s, r) := by
  have h : s.toList.length < (s.toList.flatMap escape ++ '"' :: r).length + 1 := by
    have := length_le_length_escaped s.toList
    rw [List.length_append]
    omega
  simp only [quote, quoteChars, List.cons_append, List.append_assoc, List.nil_append, readString]
  rw [readChars_quoted _ _ h]
  simp

theorem readValue_quote (depth : Nat) (s : String) (r : List Char) :
    readValue depth (quote s ++ r) = some (.string s, r) := by
  have h : quote s ++ r = '"' :: (s.toList.flatMap escape ++ '"' :: r) := by
    simp [quote, quoteChars]
  have hs := readString_quote s r
  rw [h] at hs ⊢
  rw [readValue, skipSpace_cons (by decide)]
  simp [hs]

theorem readMember_memberText (depth : Nat) (k v : String) (r : List Char) :
    readMember (readValue depth) (memberText k (quote v) ++ r) = some ((k, .string v), r) := by
  have h : memberText k (quote v) ++ r = quote k ++ ':' :: (quote v ++ r) := by
    simp [memberText]
  have hq : skipSpace (quote k ++ ':' :: (quote v ++ r)) = quote k ++ ':' :: (quote v ++ r) :=
    skipSpace_cons (by decide) _
  rw [h, readMember, hq, readString_quote]
  simp [skipSpace_cons (show isSpace ':' = false by decide), readValue_quote]

/-- Items that are each read as written are read one after the other. -/
theorem readItems_commaSeparated {α β : Type} {item : List Char → Option (β × List Char)}
    {close : Char} (text : α → List Char) (value : α → β)
    (hitem : ∀ a r, item (text a ++ r) = some (value a, r)) (hc : close ≠ ',')
    (hs : isSpace close = false) (a : α) (l : List α) (r : List Char) {fuel : Nat}
    (h : l.length < fuel) :
    readItems item close fuel (commaSeparated ((a :: l).map text) ++ close :: r) =
      some ((a :: l).map value, r) := by
  induction l generalizing a fuel with
  | nil =>
    obtain ⟨n, rfl⟩ := Nat.exists_eq_succ_of_ne_zero (Nat.ne_zero_of_lt h)
    simp [commaSeparated, readItems, hitem, skipSpace_cons hs, hc]
  | cons b l ih =>
    obtain ⟨n, rfl⟩ := Nat.exists_eq_succ_of_ne_zero (Nat.ne_zero_of_lt h)
    have hn : l.length < n := by simpa using h
    have hr := ih b hn
    simp only [List.map_cons] at hr ⊢
    simp [commaSeparated, readItems, hitem, skipSpace_cons (show isSpace ',' = false by decide), hr]

theorem length_le_length_commaSeparated {l : List (List Char)} (h : ∀ t ∈ l, t ≠ []) :
    l.length ≤ (commaSeparated l).length := by
  induction l with
  | nil => simp
  | cons t l ih =>
    have ht : 0 < t.length := List.length_pos_iff.2 (h t (.head _))
    have hl := ih fun t ht => h t (.tail _ ht)
    cases l with
    | nil => simp [commaSeparated]; omega
    | cons u l => simp [commaSeparated] at hl ⊢; omega

theorem memberText_ne_nil (k : String) (v : List Char) : memberText k v ≠ [] := by
  simp [memberText, quote, quoteChars]

theorem memberTexts_strings (l : List (String × String)) :
    memberTexts (l.map fun e => (e.1, .string e.2)) =
      l.map fun e => memberText e.1 (quote e.2) := by
  induction l with
  | nil => rfl
  | cons e l ih => simp [memberTexts, Value.chars, ih]

theorem readContainer_strings (depth : Nat) (l : List (String × String)) :
    readContainer (readMember (readValue depth)) '\x7d'
        (commaSeparated (l.map fun e => memberText e.1 (quote e.2)) ++ ['\x7d']) =
      some (l.map fun e => (e.1, .string e.2), []) := by
  cases l with
  | nil => rfl
  | cons e l =>
    obtain ⟨t, ht⟩ : ∃ t, commaSeparated ((e :: l).map fun e => memberText e.1 (quote e.2)) ++
        ['\x7d'] = '"' :: t := by
      cases l <;> exact ⟨_, rfl⟩
    have hl : l.length < t.length + 1 := by
      have h : ((e :: l).map fun e => memberText e.1 (quote e.2)).length ≤ _ :=
        length_le_length_commaSeparated (List.forall_mem_map.2 fun e _ => memberText_ne_nil e.1 _)
      have := congrArg List.length ht
      simp only [List.length_append, List.length_cons, List.length_map, List.length_nil] at h this
      omega
    rw [readContainer, ht, skipSpace_cons (by decide)]
    simp only [Char.reduceEq, ↓reduceIte]
    rw [← ht]
    exact readItems_commaSeparated (fun e : String × String => memberText e.1 (quote e.2))
      (fun e => (e.1, Value.string e.2)) (fun e => readMember_memberText depth e.1 e.2)
      (by decide) (by decide) e l [] hl

theorem parseEntries_of_toList {s : String} {r : List Char} (h : s.toList = '\x7b' :: r) :
    parseEntries s = (readContainer (readMember (readValue (maxDepth - 1))) '\x7d' r).bind fun p =>
      if (skipSpace p.2).isEmpty then some p.1 else none := by
  rw [parseEntries, h, skipSpace_cons (by decide)]
  rfl

theorem parseEntries_stringObjectText (d : Dictionary String String) :
    parseEntries (stringObjectText d) = some (d.entries.map fun e => (e.1, .string e.2)) := by
  have h : (stringObjectText d).toList = '\x7b' :: (commaSeparated
      (d.entries.map fun e => memberText e.1 (quote e.2)) ++ ['\x7d']) := by
    simp [stringObjectText, Value.text, Value.chars, memberTexts_strings]
  rw [parseEntries_of_toList h, readContainer_strings, Option.bind_some]
  simp [skipSpace]

end ServiceDirectory.Json

namespace ServiceDirectory

open Json

theorem Metadata.parse_stringObjectText (m : Metadata) : parse (stringObjectText m) = some m := by
  have h : (m.entries.map fun e => (e.1, Value.string e.2)).mapM
      (fun (e : String × Value) => e.2.string?.map fun s => (e.1, s)) = some m.entries := by
    induction m.entries with
    | nil => rfl
    | cons e l ih =>
      rw [List.map_cons, List.mapM_cons, ih]
      rfl
  simp only [parse, parseEntries_stringObjectText, Option.bind_eq_bind, Option.bind_some]
  rw [h]
  simp [Dictionary.ofList_entries]

theorem Json.stringObjectText_injective : Function.Injective stringObjectText := by
  have h : Metadata.parse ∘ stringObjectText = some := funext Metadata.parse_stringObjectText
  exact .of_comp (h ▸ Option.some_injective Metadata)

end ServiceDirectory
