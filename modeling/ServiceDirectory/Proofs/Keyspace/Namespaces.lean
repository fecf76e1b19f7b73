import Mathlib.Tactic
import ServiceDirectory.Proofs.Keyspace.Keys
import ServiceDirectory.Proofs.Store.Range

/-! # Keys of several namespaces

The segments of a valid id hold no separator, so a key can be taken apart from its end in one way
only: it belongs to one namespace and to one id (`Keyspace.key_eq_key_iff`). It makes no difference
whether the name of one namespace begins with that of another.
-/

namespace ServiceDirectory

theorem utf8_injective : Function.Injective utf8 := by
  have h : text? ∘ utf8 = some := funext text?_utf8
  exact .of_comp (h ▸ Option.some_injective String)

/-- A text is taken apart at its last separator in one way. -/
theorem append_separator_inj {x y s t : List Char} (hs : '/' ∉ s) (ht : '/' ∉ t) :
    x ++ '/' :: s = y ++ '/' :: t ↔ x = y ∧ s = t := by
  constructor
  · intro h
    obtain ⟨z, hy, hz⟩ | ⟨z, hx, hz⟩ := List.append_eq_append_iff.1 h
    · cases z with
      | nil => exact ⟨by simpa using hy.symm, (List.cons.inj hz).2⟩
      | cons c z => exact absurd (by simp [(List.cons.inj hz).2]) hs
    · cases z with
      | nil => exact ⟨by simpa using hx, (List.cons.inj hz).2.symm⟩
      | cons c z => exact absurd (by simp [(List.cons.inj hz).2]) ht
  · rintro ⟨rfl, rfl⟩
    rfl

namespace ServiceId

variable {id other : ServiceId} {x y : List Char}

theorem append_toList_text (x : List Char) (id : ServiceId) : x ++ '/' :: id.text.toList =
    x ++ '/' :: id.instanceName.toList ++ '/' :: id.serviceType.toList ++
      '/' :: id.serviceName.toList := by
  simp [text]

theorem notMem_of_isValid (h : id.isValid = true) : '/' ∉ id.instanceName.toList ∧
    '/' ∉ id.serviceType.toList ∧ '/' ∉ id.serviceName.toList := by
  have hs := isValid_iff.1 h
  simp only [segments, List.forall_mem_cons] at hs
  exact ⟨hs.1.2, hs.2.1.2, hs.2.2.1.2⟩

theorem ext_toList (hi : id.instanceName.toList = other.instanceName.toList)
    (ht : id.serviceType.toList = other.serviceType.toList)
    (hn : id.serviceName.toList = other.serviceName.toList) : id = other :=
  segments_inj.1 (by
    simp [segments, String.toList_injective hi, String.toList_injective ht,
      String.toList_injective hn])

theorem append_text_inj (h : id.isValid = true) (h' : other.isValid = true) :
    x ++ '/' :: id.text.toList = y ++ '/' :: other.text.toList ↔ x = y ∧ id = other := by
  obtain ⟨hi, ht, hn⟩ := notMem_of_isValid h
  obtain ⟨hi', ht', hn'⟩ := notMem_of_isValid h'
  constructor
  · intro heq
    rw [append_toList_text, append_toList_text, append_separator_inj hn hn',
      append_separator_inj ht ht', append_separator_inj hi hi'] at heq
    obtain ⟨⟨⟨hx, hi⟩, ht⟩, hn⟩ := heq
    exact ⟨hx, ext_toList hi ht hn⟩
  · rintro ⟨rfl, rfl⟩
    rfl

/-- No other id has the text of a valid one, as no segment of it holds a separator more. -/
theorem eq_of_text_eq (h : other.isValid = true) (heq : id.text = other.text) : id = other := by
  obtain ⟨hi', ht', hn'⟩ := notMem_of_isValid h
  have hl : [] ++ '/' :: id.text.toList = [] ++ '/' :: other.text.toList := by rw [heq]
  rw [append_toList_text, append_toList_text] at hl
  have hcount := congrArg (List.count '/') hl
  simp only [List.count_append, List.count_cons_self, List.count_eq_zero_of_not_mem hi',
    List.count_eq_zero_of_not_mem ht', List.count_eq_zero_of_not_mem hn'] at hcount
  have ht : '/' ∉ id.serviceType.toList := List.count_eq_zero.1 (by omega)
  have hn : '/' ∉ id.serviceName.toList := List.count_eq_zero.1 (by omega)
  have hi : '/' ∉ id.instanceName.toList := List.count_eq_zero.1 (by omega)
  rw [append_separator_inj hn hn', append_separator_inj ht ht', append_separator_inj hi hi'] at hl
  exact ext_toList hl.1.1.2 hl.1.2 hl.2

end ServiceId

namespace Keyspace

variable {k l : Keyspace} {id other : ServiceId}

theorem key_eq_key_iff (h : id.isValid = true) (h' : other.isValid = true) :
    k.key id = l.key other ↔ k = l ∧ id = other := by
  rw [key, key, utf8_injective.eq_iff, ← String.toList_inj]
  have hroot : k.root.toList = l.root.toList ↔ k = l := by
    rw [String.toList_inj, Keyspace.mk.injEq]
  simpa [← hroot, String.toList_append] using ServiceId.append_text_inj h h'

theorem parseKey_key_eq (k : Keyspace) (id : ServiceId) :
    k.parseKey (k.key id) = if id.isValid then some id else none := by
  split
  · next h => exact parseKey_key h
  · next h =>
    rw [Option.eq_none_iff_forall_ne_some]
    intro other ho
    obtain ⟨hv, hkey⟩ := parseKey_eq_some_iff.1 ho
    -- The namespace is the same, so the texts are.
    have htext : id.text = other.text := by
      simpa [key, utf8_injective.eq_iff] using hkey
    exact h (ServiceId.eq_of_text_eq hv htext ▸ hv)

theorem parseKey_key_of_isValid (k l : Keyspace) (h : id.isValid = true) :
    l.parseKey (k.key id) = if k = l then some id else none := by
  split
  · next hkl => exact hkl ▸ parseKey_key h
  · next hkl =>
    rw [Option.eq_none_iff_forall_ne_some]
    intro other ho
    obtain ⟨hv, hkey⟩ := parseKey_eq_some_iff.1 ho
    exact hkl ((key_eq_key_iff h hv).1 hkey).1

theorem beginning_eq (k : Keyspace) : k.beginning = utf8 k.root ++ [47] := by
  simp only [beginning, utf8, String.toUTF8_eq_toByteArray, String.toByteArray_append]
  rfl

/-- The separator can be raised, so a key lies between the beginning and its end, byte by byte. -/
theorem key_between (k : Keyspace) (id : ServiceId) :
    (compare k.beginning (k.key id)).isLE = true ∧
      compare (k.key id) (prefixEnd k.beginning) = .lt := by
  obtain ⟨rest, hrest⟩ := beginning_prefix_key k id
  constructor
  · rw [← hrest]
    exact isLE_compare_append _ _
  · rw [← hrest, beginning_eq, prefixEnd_append_singleton _ (by decide), List.append_assoc,
      List.singleton_append]
    exact compare_lt_raised (by decide) _ _

/-- Under a namespace, exactly the keys of the valid ids are read as ids, each as its own, and they
lie in the range of the namespace. Another namespace reads one of them only if it has the same name
up to the separators at its end. -/
theorem namespaces_isolated (space : String) :
    (∀ id, (ofNamespace space).parseKey ((ofNamespace space).key id) =
      if id.isValid then some id else none) ∧
    (∀ key id, (ofNamespace space).parseKey key = some id →
      id.isValid = true ∧ (ofNamespace space).key id = key) ∧
    (∀ other id, id.isValid = true →
      ((ofNamespace other).parseKey ((ofNamespace space).key id) =
        if normalizeNamespace space = normalizeNamespace other then some id else none)) ∧
    ∀ id, id.isValid = true →
      (KeyRange.withPrefix (ofNamespace space).beginning).contains ((ofNamespace space).key id) =
        true ∧
      (compare (ofNamespace space).beginning ((ofNamespace space).key id)).isLE = true ∧
      compare ((ofNamespace space).key id) (prefixEnd (ofNamespace space).beginning) = .lt := by
  refine ⟨parseKey_key_eq _, fun key id h => ?_, fun other id h => ?_, fun id _ => ?_⟩
  · obtain ⟨hv, hkey⟩ := parseKey_eq_some_iff.1 h
    exact ⟨hv, hkey.symm⟩
  · simp only [parseKey_key_of_isValid _ _ h, ofNamespace, Keyspace.mk.injEq]
  · exact ⟨KeyRange.contains_withPrefix (beginning_prefix_key _ id), key_between _ id⟩

/-- The name of the third namespace begins with that of the first, and what is left of it is the
first segment of the id. -/
theorem namespaces_isolated_nested :
    (⟨"b", "http", "web"⟩ : ServiceId).isValid = true ∧
    (ofNamespace "/a//").parseKey ((ofNamespace "/a").key ⟨"b", "http", "web"⟩) =
      some ⟨"b", "http", "web"⟩ ∧
    (ofNamespace "/a/b").parseKey ((ofNamespace "/a").key ⟨"b", "http", "web"⟩) = none ∧
    (ofNamespace "/a").parseKey ((ofNamespace "/a").key ⟨"b/c", "http", "web"⟩) = none ∧
    (ofNamespace "/a").key ⟨"b", "http", "web"⟩ = utf8 "/a/b/http/web" ∧
    compare ((ofNamespace "/a").key ⟨"b", "http", "web"⟩)
      (prefixEnd (ofNamespace "/a").beginning) = .lt := by
  have hv : (⟨"b", "http", "web"⟩ : ServiceId).isValid = true := by decide
  have hread : (ofNamespace "/a").parseKey (utf8 "/a/b/http/web") = some ⟨"b", "http", "web"⟩ :=
    parseKey_key hv
  obtain ⟨hown, hexact, hother, hrange⟩ := namespaces_isolated "/a"
  exact ⟨hv, hother "/a//" _ hv, hother "/a/b" _ hv, hown ⟨"b/c", "http", "web"⟩,
    (hexact _ _ hread).2, (hrange _ hv).2.2⟩

end Keyspace

end ServiceDirectory
