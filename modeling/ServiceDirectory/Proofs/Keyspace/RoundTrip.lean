import ServiceDirectory.Proofs.Keyspace.Values

/-! # Values that are read back

A row is faithful if its data is the text of metadata without a reserved key, as that of a
registered or a decoded row is. The value under which a faithful row is kept is decoded into the
same row again (`decode_key_valueOf`), and the row of a service that passed the check into that
service (`Service.toService_toRow`).
-/

namespace ServiceDirectory

namespace Text

theorem isBlank_of_isDigit {c : Char} (h : c.isDigit = true) : isBlank c = false := by
  simp only [Char.isDigit, Bool.and_eq_true, decide_eq_true_eq, ge_iff_le, UInt32.le_iff_toNat_le]
    at h
  change 48 ≤ c.toNat ∧ c.toNat ≤ 57 at h
  simp only [isBlank, blankRanges, List.any_cons, List.any_nil, Bool.or_false, Bool.or_eq_false_iff,
    Bool.and_eq_false_iff, decide_eq_false_iff_not]
  omega

theorem dropWhile_isBlank_of_isDigit {s : List Char} (h : ∀ c ∈ s, c.isDigit = true) :
    s.dropWhile isBlank = s := by
  cases s with
  | nil => rfl
  | cons c s => simp [isBlank_of_isDigit (h c (.head _))]

theorem trimChars_of_isDigit {s : List Char} (h : ∀ c ∈ s, c.isDigit = true) :
    trimChars s = s := by
  have hr : ∀ c ∈ s.reverse, c.isDigit = true := fun c hc => h c (List.mem_reverse.1 hc)
  rw [trimChars, dropWhile_isBlank_of_isDigit h, dropWhile_isBlank_of_isDigit hr,
    List.reverse_reverse]

theorem isDigit_of_mem_natText {n : Nat} {c : Char} (h : c ∈ (natText n).toList) :
    c.isDigit = true := by
  rw [natText, String.toList_ofList] at h
  exact Nat.isDigit_of_mem_toDigits (by decide) (by decide) h

theorem natOfChars?_natText (n : Nat) : natOfChars? (natText n).toList = some n := by
  have hplus : natOfChars? (natText n).toList = natOfDigits? (natText n).toList := by
    unfold natOfChars?
    split
    · next heq =>
      have hplus : '+' ∈ (natText n).toList := heq ▸ List.mem_cons_self
      exact absurd (isDigit_of_mem_natText hplus) (by decide)
    · rfl
  rw [hplus, natText, String.toList_ofList, natOfDigits?_toDigits]

theorem natText_injective : Function.Injective natText := by
  have h : (fun s => natOfChars? s.toList) ∘ natText = some := funext natOfChars?_natText
  exact .of_comp (h ▸ Option.some_injective Nat)

theorem natBelow?_natText {bound n : Nat} (h : n < bound) :
    natBelow? bound (natText n).toList = some n := by
  rw [natBelow?, natOfChars?_natText]
  simp [h]

theorem int64?_natText {n : Nat} (h : (n : Int) ≤ Int64.maxValue.toInt) :
    int64? (natText n).toList = some (n : Int) := by
  have hminus : intOfChars? (natText n).toList =
      (natOfChars? (natText n).toList).map Int.ofNat := by
    unfold intOfChars?
    split
    · next heq =>
      have hminus : '-' ∈ (natText n).toList := heq ▸ List.mem_cons_self
      exact absurd (isDigit_of_mem_natText hminus) (by decide)
    · rfl
  rw [int64?, hminus, natOfChars?_natText]
  simp [h]

end Text

/-- The data is the text of metadata that uses no field of a remote value. -/
def Row.IsFaithful (row : Row) : Prop :=
  ∃ m : Metadata, row.data = Json.stringObjectText m ∧ ∀ key ∈ reservedKeys, m.find? key = none

theorem Row.IsFaithful.isCanonical {row : Row} (h : row.IsFaithful) : row.IsCanonical := by
  obtain ⟨m, hm, -⟩ := h
  exact ⟨m, hm⟩

theorem Service.make_eq_ok_iff {id : ServiceId} {hostname : String} {port : UInt16} {ttl : UInt32}
    {m : Metadata} {s : Service} : make id hostname port ttl m = .ok s ↔
      id.isValid = true ∧ ttl ≠ 0 ∧ (∀ key ∈ m.keys, key ∉ reservedKeys ∧ key ≠ "") ∧
        s = ⟨id, hostname, port, ttl, m⟩ := by
  unfold make ServiceId.isValid
  cases id.check with
  | error e => exact iff_of_false (by rintro ⟨⟩) (by simp [Except.toBool])
  | ok _ =>
    by_cases ht : ttl = 0
    · simp only [ht, ↓reduceIte]
      exact iff_of_false (by rintro ⟨⟩) fun h => absurd rfl h.2.1
    · cases hr : m.keys.find? reservedKeys.contains with
      | some key =>
        simp only [ht, ↓reduceIte]
        refine iff_of_false (by rintro ⟨⟩) fun h => ?_
        have hkey := List.find?_some hr
        exact absurd (by simpa using hkey) (h.2.2.1 key (List.mem_of_find?_eq_some hr)).1
      | none =>
        have hno : ∀ key ∈ m.keys, key ∉ reservedKeys := by simpa using hr
        by_cases he : m.keys.any String.isEmpty
        · simp only [ht, he, ↓reduceIte]
          obtain ⟨key, hkey, hempty⟩ := List.any_eq_true.1 he
          exact iff_of_false (by rintro ⟨⟩) fun h => (h.2.2.1 key hkey).2 (by simpa using hempty)
        · have hne : "" ∉ m.keys := by simpa using he
          simp only [ht, he, Bool.false_eq_true, ↓reduceIte]
          constructor
          · intro h
            cases h
            exact ⟨rfl, ht, fun key hkey => ⟨hno key hkey, ne_of_mem_of_not_mem hkey hne⟩, rfl⟩
          · rintro ⟨-, -, -, rfl⟩
            rfl

theorem Service.isValid_of_make {id : ServiceId} {hostname : String} {port : UInt16}
    {ttl : UInt32} {m : Metadata} {s : Service} (h : make id hostname port ttl m = .ok s) :
    s.id.isValid = true := by
  obtain ⟨hv, -, -, rfl⟩ := make_eq_ok_iff.1 h
  exact hv

theorem Service.isFaithful_toRow {id : ServiceId} {hostname : String} {port : UInt16}
    {ttl : UInt32} {m : Metadata} {s : Service} (h : make id hostname port ttl m = .ok s) :
    s.toRow.IsFaithful := by
  obtain ⟨-, -, hm, rfl⟩ := make_eq_ok_iff.1 h
  refine ⟨m, rfl, fun key hkey => ?_⟩
  cases hf : m.find? key with
  | none => rfl
  | some v => exact absurd hkey (hm key ((Dictionary.mem_keys_iff m key).2 ⟨v, hf⟩)).1

namespace Keyspace

variable {k : Keyspace} {id : ServiceId} {key value : Bytes} {row : Row}

theorem decodeValue_isFaithful (h : decodeValue id value = some row) : row.IsFaithful := by
  simp only [decodeValue, Option.bind_eq_bind, Option.bind_eq_some_iff] at h
  obtain ⟨_, -, members, -, _, -, hostname, -, _, -, port, -, _, -, ttl, -, h⟩ := h
  cases h
  refine ⟨_, rfl, fun key hkey => ?_⟩
  rw [Dictionary.find?_mapValues, Dictionary.find?_filter]
  simp [hkey]

theorem decode_isFaithful (h : k.decode key value = some row) : row.IsFaithful :=
  decodeValue_isFaithful (decode_eq_some_iff.1 h).2.2

theorem ofList_parseEntries (d : Dictionary String String) :
    (Json.parseEntries (Json.stringObjectText d)).map Dictionary.ofList =
      some (d.mapValues Json.Value.string) := by
  rw [Json.parseEntries_stringObjectText, Option.map_some]
  exact congrArg some (Dictionary.ofList_entries (d.mapValues Json.Value.string))

theorem naturalBelow?_natText {bound n : Nat} (h : n < bound) :
    naturalBelow? bound (.string (Text.natText n)) = some n := by
  rw [naturalBelow?, Text.trimChars_of_isDigit fun c => Text.isDigit_of_mem_natText,
    Text.natBelow?_natText h]

theorem find?_fields (row : Row) (m : Metadata) (key : String) :
    (fields row m).find? key =
      if key = "ttl" then some (Text.natText row.ttl.toNat)
      else if key = "port" then some (Text.natText row.port.toNat)
      else if key = "hostname" then some row.hostname
      else m.find? key := by
  simp only [fields, Dictionary.find?_insert]

theorem filter_fields (row : Row) {m : Metadata}
    (hm : ∀ key ∈ reservedKeys, m.find? key = none) :
    ((((fields row m).mapValues Json.Value.string).filter fun key _ =>
      !reservedKeys.contains key).mapValues metadataText) = m := by
  apply Dictionary.ext_find?
  intro key
  rw [Dictionary.find?_mapValues, Dictionary.find?_filter, Dictionary.find?_mapValues, find?_fields]
  by_cases hkey : key ∈ reservedKeys
  · rw [hm key hkey]
    simp [hkey]
  · have hne : key ≠ "hostname" ∧ key ≠ "port" ∧ key ≠ "ttl" := by
      simpa [reservedKeys] using hkey
    simp only [hne, ↓reduceIte]
    cases m.find? key <;> simp [Option.filter, hkey, metadataText]

theorem decodeValue_valueOf (h : row.IsFaithful) : decodeValue row.id (valueOf row) = some row := by
  obtain ⟨m, hm, hr⟩ := h
  obtain ⟨id, hostname, port, ttl, data⟩ := row
  obtain rfl : data = Json.stringObjectText m := hm
  have hvalue : valueOf ⟨id, hostname, port, ttl, Json.stringObjectText m⟩ =
      utf8 (Json.stringObjectText
        (fields ⟨id, hostname, port, ttl, Json.stringObjectText m⟩ m)) := by
    simp [valueOf, encodeValue, Row.metadata, Metadata.parse_stringObjectText]
  generalize hrow : (⟨id, hostname, port, ttl, Json.stringObjectText m⟩ : Row) = row at hvalue ⊢
  obtain ⟨members, hp, hd⟩ := Option.map_eq_some_iff.1 (ofList_parseEntries (fields row m))
  have hport := naturalBelow?_natText port.toNat_lt
  have httl := naturalBelow?_natText ttl.toNat_lt
  have hfilter := filter_fields row hr
  simp only [decodeValue, hvalue, text?_utf8, hp, hd, Option.bind_eq_bind, Option.bind_some,
    Dictionary.find?_mapValues, find?_fields, hfilter]
  subst hrow
  simp [Json.Value.string?, hport, httl]

theorem decode_key_valueOf (h : row.IsFaithful) (hv : row.id.isValid = true) :
    k.decode (k.key row.id) (valueOf row) = some row :=
  decode_eq_some_iff.2 ⟨hv, rfl, decodeValue_valueOf h⟩

end Keyspace

namespace Service

variable {id : ServiceId} {hostname : String} {port : UInt16} {ttl : UInt32} {m : Metadata}
  {s : Service}

theorem toService_toRow (h : make id hostname port ttl m = .ok s) : s.toRow.toService = .ok s := by
  obtain ⟨-, -, -, rfl⟩ := make_eq_ok_iff.1 h
  have hm : (toRow ⟨id, hostname, port, ttl, m⟩).metadata = .ok m := by
    simp [Row.metadata, toRow, Metadata.parse_stringObjectText]
  rw [Row.toService, hm]
  exact h

/-- A service that passed the check can be written under every namespace. What is read from there is
its row, and the row is the service again. -/
theorem decode_encode_toRow (space : String) (h : make id hostname port ttl m = .ok s) :
    ∃ key value, (Keyspace.ofNamespace space).encode s.toRow = .ok (key, value) ∧
      (Keyspace.ofNamespace space).decode key value = some s.toRow ∧
      s.toRow.toService = .ok s := by
  have hf := isFaithful_toRow h
  exact ⟨_, _, Keyspace.encode_eq hf.isCanonical,
    Keyspace.decode_key_valueOf hf (isValid_of_make h), toService_toRow h⟩

/-- Metadata with keys in front of, between and behind the fields of a remote value, and with
characters that a text of it escapes. -/
def oddMetadata : Metadata :=
  Dictionary.ofList [("HOSTNAME", ""), ("hostname\x00", "\"\\\"\n"), ("porta", "𝄞/\x1f"),
    ("ttl ", "\x7b\"ttl\":\"1\"\x7d"), ("\\u0000", "\u2028"), ("𝄞", "\t")]

theorem decode_encode_toRow_odd : ∃ s,
    make ⟨"\"\\", " \n", "𝄞\x00"⟩ "" 0 4294967295 oddMetadata = .ok s ∧
    ∃ key value, (Keyspace.ofNamespace "//\"𝄞//").encode s.toRow = .ok (key, value) ∧
      (Keyspace.ofNamespace "//\"𝄞//").decode key value = some s.toRow ∧
      s.toRow.toService = .ok s := by
  have h : make ⟨"\"\\", " \n", "𝄞\x00"⟩ "" 0 4294967295 oddMetadata =
      .ok ⟨⟨"\"\\", " \n", "𝄞\x00"⟩, "", 0, 4294967295, oddMetadata⟩ :=
    make_eq_ok_iff.2 ⟨by decide, by decide, by decide +kernel, rfl⟩
  exact ⟨_, h, decode_encode_toRow _ h⟩

end Service

end ServiceDirectory
