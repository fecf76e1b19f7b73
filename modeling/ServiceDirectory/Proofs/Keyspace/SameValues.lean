import ServiceDirectory.Proofs.Keyspace.Namespaces
import ServiceDirectory.Proofs.Keyspace.RoundTrip

/-! # Rows with one key and value

To be the same is an equivalence of rows, whether their data can be read or not. Two rows with valid
ids whose metadata uses no field of a remote value are the same if and only if they are written at
one key with one value (`same_iff_encode_eq`). A reserved field of the metadata is not written, so
rows that differ in it alone are kept alike without being the same.
-/

namespace ServiceDirectory

namespace Row

theorem same_equivalence : Equivalence fun a b : Row => a.same b = true where
  refl := same_refl
  symm h := same_iff_meaning_eq.2 (same_iff_meaning_eq.1 h).symm
  trans h h' := same_iff_meaning_eq.2
    ((same_iff_meaning_eq.1 h).trans (same_iff_meaning_eq.1 h'))

/-- The id is valid, and the data can be read as metadata that uses no field of a remote value. -/
structure IsWritable (row : Row) (m : Metadata) : Prop where
  isValid : row.id.isValid = true
  parse : Metadata.parse row.data = some m
  unreserved : ∀ key ∈ reservedKeys, m.find? key = none

theorem same_iff_of_parse {a b : Row} {m n : Metadata} (ha : Metadata.parse a.data = some m)
    (hb : Metadata.parse b.data = some n) : a.same b = true ↔
      a.id = b.id ∧ a.hostname = b.hostname ∧ a.port = b.port ∧ a.ttl = b.ttl ∧ m = n := by
  simp [same, ha, hb, and_assoc]

end Row

namespace Keyspace

variable {k : Keyspace} {a b : Row} {m n : Metadata}

theorem encode_of_parse (h : Metadata.parse a.data = some m) :
    k.encode a = .ok (k.key a.id, utf8 (Json.stringObjectText (fields a m))) := by
  simp [encode, encodeValue, Row.metadata, h]

/-- The fields tell everything but the metadata under reserved keys, which they hide. -/
theorem fields_eq_iff : fields a m = fields b n ↔
    a.hostname = b.hostname ∧ a.port = b.port ∧ a.ttl = b.ttl ∧
      ∀ key, key ∉ reservedKeys → m.find? key = n.find? key := by
  have hreserved : ∀ key, key ∉ reservedKeys ↔
      key ≠ "ttl" ∧ key ≠ "port" ∧ key ≠ "hostname" := fun key => by
    simp only [reservedKeys, List.mem_cons, List.not_mem_nil, or_false, not_or]
    constructor
    · rintro ⟨hh, hp, ht⟩
      exact ⟨ht, hp, hh⟩
    · rintro ⟨ht, hp, hh⟩
      exact ⟨hh, hp, ht⟩
  constructor
  · intro h
    have hfind : ∀ key, (fields a m).find? key = (fields b n).find? key := fun key => by rw [h]
    simp only [find?_fields] at hfind
    have hhost : a.hostname = b.hostname := by simpa using hfind "hostname"
    have hport : Text.natText a.port.toNat = Text.natText b.port.toNat := by
      simpa using hfind "port"
    have httl : Text.natText a.ttl.toNat = Text.natText b.ttl.toNat := by simpa using hfind "ttl"
    refine ⟨hhost, UInt16.toNat_inj.1 (Text.natText_injective hport),
      UInt32.toNat_inj.1 (Text.natText_injective httl), fun key hkey => ?_⟩
    simpa [(hreserved key).1 hkey] using hfind key
  · rintro ⟨hhost, hport, httl, hm⟩
    apply Dictionary.ext_find?
    intro key
    simp only [find?_fields, hhost, hport, httl]
    split_ifs with h₁ h₂ h₃
    · rfl
    · rfl
    · rfl
    · exact hm key ((hreserved key).2 ⟨h₁, h₂, h₃⟩)

theorem fields_inj (hm : ∀ key ∈ reservedKeys, m.find? key = none)
    (hn : ∀ key ∈ reservedKeys, n.find? key = none) : fields a m = fields b n ↔
      a.hostname = b.hostname ∧ a.port = b.port ∧ a.ttl = b.ttl ∧ m = n := by
  have hdict : (∀ key, key ∉ reservedKeys → m.find? key = n.find? key) ↔ m = n := by
    constructor
    · intro h
      apply Dictionary.ext_find?
      intro key
      by_cases hkey : key ∈ reservedKeys
      · rw [hm key hkey, hn key hkey]
      · exact h key hkey
    · rintro rfl key -
      rfl
  rw [fields_eq_iff, hdict]

/-- To be the same is an equivalence. Rows with valid ids and metadata without reserved keys can be
written under every namespace, and the same rows are those with one key and one value. -/
theorem same_iff_encode_eq : (Equivalence fun a b : Row => a.same b = true) ∧
    ∀ space a b m n, Row.IsWritable a m → Row.IsWritable b n →
      ∃ key value key' value', (ofNamespace space).encode a = .ok (key, value) ∧
        (ofNamespace space).encode b = .ok (key', value') ∧
        (a.same b = true ↔ key = key' ∧ value = value') := by
  refine ⟨Row.same_equivalence, fun space a b m n ha hb =>
    ⟨_, _, _, _, encode_of_parse ha.parse, encode_of_parse hb.parse, ?_⟩⟩
  have hkey := key_eq_key_iff (k := ofNamespace space) (l := ofNamespace space)
    ha.isValid hb.isValid
  have hvalue := fields_inj (a := a) (b := b) ha.unreserved hb.unreserved
  rw [Row.same_iff_of_parse ha.parse hb.parse, hkey, utf8_injective.eq_iff,
    Json.stringObjectText_injective.eq_iff, hvalue]
  simp

def plainRow : Row := ⟨⟨"node-1", "http", "web"⟩, "h", 80, 30, "\x7b\"a\":\"1\",\"b\":\"\"\x7d"⟩

def spacedRow : Row :=
  { plainRow with data := " \x7b \"b\" : \"x\", \"\\u0061\":\"\\u0031\", \"b\":\"\" \x7d\n" }

def plainMetadata : Metadata := Dictionary.ofList [("a", "1"), ("b", "")]

theorem same_iff_encode_eq_plain : plainRow.data ≠ spacedRow.data ∧
    plainRow.same spacedRow = true ∧ spacedRow.same plainRow = true ∧
    (ofNamespace "/discovery").encode plainRow = (ofNamespace "/discovery").encode spacedRow := by
  have hplain : plainRow.IsWritable plainMetadata :=
    ⟨by decide, by decide +kernel, by decide +kernel⟩
  have hspaced : spacedRow.IsWritable plainMetadata :=
    ⟨by decide, by decide +kernel, by decide +kernel⟩
  have hsame : plainRow.same spacedRow = true := by decide +kernel
  obtain ⟨hequiv, hencode⟩ := same_iff_encode_eq
  obtain ⟨key, value, key', value', hp, hs, hiff⟩ := hencode "/discovery" _ _ _ _ hplain hspaced
  obtain ⟨rfl, rfl⟩ := hiff.1 hsame
  exact ⟨by decide, hsame, hequiv.symm hsame, hp.trans hs.symm⟩

end Keyspace

end ServiceDirectory
