import Rgw.Http

/-! # Header maps

What each operation on a header map does to the lines of one name, and to those of another. -/
namespace HeaderMaps

open ByteStrings Http

variable {h : HeaderMap} {name : HeaderName} {value : HeaderValue} {other : Str}

theorem getAll_remove_self (h : HeaderMap) (other : Str) : (h.remove other).getAll other = [] := by
  simp [HeaderMap.getAll, HeaderMap.remove, List.filter_filter]

theorem getAll_remove_ne {name : Str} (hne : other ≠ name) :
    (h.remove name).getAll other = h.getAll other := by
  rw [HeaderMap.getAll, HeaderMap.remove, List.filter_filter, HeaderMap.getAll]
  congr 2
  funext e
  by_cases he : e.1.val = other
  · simp [he, hne]
  · simp [he]

theorem getAll_append_self : (h.append name value).getAll name.val = h.getAll name.val ++
    [value.val] := by
  simp [HeaderMap.append, HeaderMap.getAll]

theorem getAll_append_ne (hne : other ≠ name.val) :
    (h.append name value).getAll other = h.getAll other := by
  simp [HeaderMap.append, HeaderMap.getAll, Ne.symm hne]

theorem getAll_insert_self : (h.insert name value).getAll name.val = [value.val] := by
  rw [HeaderMap.insert, getAll_append_self, getAll_remove_self]
  rfl

theorem getAll_insert_ne (hne : other ≠ name.val) :
    (h.insert name value).getAll other = h.getAll other := by
  rw [HeaderMap.insert, getAll_append_ne hne, getAll_remove_ne hne]

theorem getAll_cons_self {name : Str} {e : HeaderName × HeaderValue}
    {entries : List (HeaderName × HeaderValue)} (h : e.1.val = name) :
    (HeaderMap.mk (e :: entries)).getAll name = e.2.val :: (HeaderMap.mk entries).getAll name := by
  simp [HeaderMap.getAll, h]

theorem getAll_cons_ne {name : Str} {e : HeaderName × HeaderValue}
    {entries : List (HeaderName × HeaderValue)} (h : e.1.val ≠ name) :
    (HeaderMap.mk (e :: entries)).getAll name = (HeaderMap.mk entries).getAll name := by
  simp [HeaderMap.getAll, h]

theorem getAll_empty (name : Str) : HeaderMap.empty.getAll name = [] := rfl

/-- A value that arrived in a header can be sent in one. -/
theorem getAll_isHeaderValue {value : Str} (hv : value ∈ h.getAll other) :
    isHeaderValue value = true := by
  obtain ⟨e, -, rfl⟩ := List.mem_map.mp hv
  exact e.2.2

theorem headerValue_ok {s : Str} (hs : isHeaderValue s = true) : headerValue s = .ok ⟨s, hs⟩ :=
  dif_pos hs

theorem isHeaderValue_append {s t : Str} :
    isHeaderValue (s ++ t) = (isHeaderValue s && isHeaderValue t) := List.all_append

theorem isHeaderValue_cons {b : UInt8} {s : Str} :
    isHeaderValue (b :: s) = (isHeaderValue [b] && isHeaderValue s) := isHeaderValue_append (s := [b])

end HeaderMaps
