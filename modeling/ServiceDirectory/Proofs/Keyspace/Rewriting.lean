import ServiceDirectory.Proofs.Keyspace.RoundTrip

/-! # Keys that are read and written again

A node that reads a key and its value as a row writes the row under the same key. The value may
differ from the one that was read, as values of other writers are accepted in many forms, but it is
written the same way in every round after that (`rewritten_once`).
-/

namespace ServiceDirectory.Keyspace

open Relation

variable {k : Keyspace} {key value : Bytes} {row : Row} {a b c : Bytes × Bytes}

/-- One round: a key and its value are read as a row, and the row is written. -/
def Rewrites (k : Keyspace) (a b : Bytes × Bytes) : Prop :=
  ∃ row, k.decode a.1 a.2 = some row ∧ k.encode row = .ok b

theorem encode_of_decode (h : k.decode key value = some row) :
    k.encode row = .ok (key, valueOf row) := by
  have hkey := (decode_eq_some_iff.1 h).2.1
  rw [encode_eq (decode_isCanonical h), ← hkey]

theorem decode_valueOf (h : k.decode key value = some row) :
    k.decode key (valueOf row) = some row := by
  obtain ⟨hv, rfl, -⟩ := decode_eq_some_iff.1 h
  exact decode_key_valueOf (decode_isFaithful h) hv

theorem Rewrites.det (hb : k.Rewrites a b) (hc : k.Rewrites a c) : b = c := by
  obtain ⟨row, hd, hb⟩ := hb
  obtain ⟨row', hd', hc⟩ := hc
  rw [hd] at hd'
  cases hd'
  exact Except.ok.inj (hb.symm.trans hc)

theorem Rewrites.again (h : k.Rewrites a b) : k.Rewrites b b := by
  obtain ⟨row, hd, hb⟩ := h
  obtain rfl := Except.ok.inj ((encode_of_decode hd).symm.trans hb)
  exact ⟨row, decode_valueOf hd, encode_of_decode hd⟩

theorem Rewrites.transGen_iff (h : k.Rewrites a b) : TransGen k.Rewrites a c ↔ c = b := by
  constructor
  · intro hrun
    induction hrun with
    | single hc => exact hc.det h
    | tail _ hc ih => exact (ih ▸ hc).det h.again
  · rintro rfl
    exact .single h

/-- The row of a key and a value can be written, under that key, and it is read from there again.
After the first round no other changes anything. -/
theorem rewritten_once (space : String) (h : (ofNamespace space).decode key value = some row) :
    ∃ value', (ofNamespace space).encode row = .ok (key, value') ∧
      (ofNamespace space).decode key value' = some row ∧
      ∀ c, TransGen (ofNamespace space).Rewrites (key, value) c ↔ c = (key, value') := by
  have hencode := encode_of_decode h
  have hround : (ofNamespace space).Rewrites (key, value) (key, valueOf row) := ⟨row, h, hencode⟩
  exact ⟨valueOf row, hencode, decode_valueOf h, fun c => hround.transGen_iff⟩

/-- A value of another writer: numbers and a padded text in place of plain texts, a field that comes
twice, escapes, and metadata that is no text. -/
def foreignValue : Bytes :=
  utf8 ("\x7b \"ttl\" : \" +060\\n\", \"port\":8080,\"hostname\":\"a\",\t\"hostname\":" ++
    "\"\\u0062\\/\",\n\"tags\":[ 1, \x7b\"b\":null,\"a\":[true,-2]\x7d ]," ++
    "\"\":\"\\ud834\\udd1e\" \x7d")

def foreignRow : Row :=
  ⟨⟨"node-2", "http", "web"⟩, "b/", 8080, 60,
    "\x7b\"\":\"𝄞\",\"tags\":\"[1,\x7b\\\"a\\\":[true,-2],\\\"b\\\":null\x7d]\"\x7d"⟩

theorem rewritten_once_foreign :
    (ofNamespace "/discovery/").decode (utf8 "/discovery/node-2/http/web") foreignValue =
      some foreignRow ∧
    valueOf foreignRow ≠ foreignValue ∧
    ∃ value', (ofNamespace "/discovery/").encode foreignRow =
        .ok (utf8 "/discovery/node-2/http/web", value') ∧
      (ofNamespace "/discovery/").decode (utf8 "/discovery/node-2/http/web") value' =
        some foreignRow ∧
      ∀ c, TransGen (ofNamespace "/discovery/").Rewrites
        (utf8 "/discovery/node-2/http/web", foreignValue) c ↔
          c = (utf8 "/discovery/node-2/http/web", value') := by
  have h : (ofNamespace "/discovery/").decode (utf8 "/discovery/node-2/http/web") foreignValue =
      some foreignRow := by decide +kernel
  exact ⟨h, by decide +kernel, rewritten_once "/discovery/" h⟩

end ServiceDirectory.Keyspace
