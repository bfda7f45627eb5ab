import Mathlib
import Placement.Yaml.Stream

/-!
# Bytes of texts

A text comes back from its bytes (`Text.ofBytes?_toBytes`), and bytes encode no more characters than they are
(`Text.length_le_of_ofBytes?`).  So of bytes that are no text, if they are few, none is passed on
(`Stream.ofBytes_of_short`).
-/

namespace Placement
set_option autoImplicit false

namespace Text

theorem toList_byteArray (bs : ByteArray) : bs.toList = bs.data.toList := by
  have hloop (i : ℕ) (r : List UInt8) : ByteArray.toList.loop bs i r = r.reverse ++ bs.data.toList.drop i := by
    fun_induction ByteArray.toList.loop bs i r with
    | case1 i r hlt ih =>
      have hi : i < bs.data.toList.length := hlt
      have hget : bs.get! i = bs.data.toList[i] := getElem!_pos bs.data i hlt
      rw [ih, List.drop_eq_getElem_cons hi, hget, List.reverse_cons, List.append_assoc, List.singleton_append]
    | case2 i r hge =>
      have hi : bs.data.toList.length ≤ i := Nat.not_lt.1 hge
      rw [List.drop_eq_nil_of_le hi, List.append_nil]
  rw [ByteArray.toList, hloop, List.reverse_nil, List.nil_append, List.drop_zero]

theorem ofBytes?_toBytes (s : String) : ofBytes? (toBytes s) = some s := by
  have hbytes : (⟨(toBytes s).toArray⟩ : ByteArray) = s.toByteArray := by
    rw [toBytes, toList_byteArray, Array.toArray_toList]
    rfl
  rw [ofBytes?, hbytes, String.fromUTF8?, dif_pos s.isValidUTF8]
  rfl

theorem length_toList_le (s : String) : s.toList.length ≤ s.utf8ByteSize := by
  have hlist (cs : List Char) : cs.length ≤ (String.ofList cs).utf8ByteSize := by
    induction cs with
    | nil => exact Nat.zero_le _
    | cons c cs ih =>
      have hc := c.utf8Size_pos
      rw [String.ofList_cons, String.utf8ByteSize_append, String.utf8ByteSize_singleton, List.length_cons]
      omega
  have := hlist s.toList
  rwa [String.ofList_toList] at this

theorem length_le_of_ofBytes? {bs : List UInt8} {s : String} (h : ofBytes? bs = some s) :
    s.toList.length ≤ bs.length := by
  unfold ofBytes? String.fromUTF8? at h
  split at h
  · cases h
    exact length_toList_le _
  · cases h

theorem length_unifyLines_le (cs : List Char) : (unifyLines cs).length ≤ cs.length := by
  fun_induction unifyLines cs with
  | case1 cs ih =>
    simp only [List.length_cons]
    omega
  | case2 cs _ ih =>
    simp only [List.length_cons]
    omega
  | case3 c cs _ _ ih =>
    simp only [List.length_cons]
    omega
  | case4 => exact Nat.le_refl 0

theorem length_decodeFront_le (bs : List UInt8) : (Utf8.decodeFront bs).length ≤ bs.length := by
  unfold Utf8.decodeFront
  dsimp only
  split
  · rename_i s heq
    obtain ⟨front, hfront, hs⟩ := List.exists_of_findSome?_eq_some heq
    obtain ⟨n, -, rfl⟩ := List.mem_map.1 hfront
    exact (length_le_of_ofBytes? hs).trans (List.length_take_le' _ _)
  · exact Nat.zero_le _

end Text

namespace Yaml.Stream

theorem length_decodable_le (bs : List UInt8) : (decodable bs).length ≤ bs.length := by
  have hfront (whole : ℕ) : (Text.Utf8.decodeFront (bs.take whole)).length ≤ bs.length :=
    (Text.length_decodeFront_le _).trans (List.length_take_le' _ _)
  have hlast (cs : List Char) : (if cs.getLast? = some '\r' then cs.dropLast else cs).length ≤ cs.length := by
    split
    · exact (List.dropLast_sublist cs).length_le
    · exact le_rfl
  exact (Text.length_unifyLines_le _).trans ((hlast _).trans (hfront _))

/-- A text that is all printable is passed on as it is. -/
theorem ofChars_of_printable {cs : List Char} (h : ∀ c ∈ cs, isPrintable c = true ∧ c ≠ '\r') :
    ofChars cs = ⟨cs, none⟩ := by
  have hlines : Text.unifyLines cs = cs := Text.unifyLines_of_not_mem fun hm => (h _ hm).2 rfl
  have hprintable : cs.takeWhile isPrintable = cs := List.takeWhile_eq_self_iff.2 fun c hc => (h c hc).1
  unfold ofChars printable
  rw [hlines]
  dsimp only
  rw [hprintable, if_pos rfl]

theorem fault_before (index : ℕ) (e : Error) (cs : List Char) : (before index e cs).fault = some e := rfl

theorem fault_printable (s : Stream) :
    s.printable.fault = s.fault ∨ s.printable.fault = some (.malformed .unprintable) := by
  by_cases h : (s.chars.takeWhile isPrintable).length = s.chars.length
  · have hwhole : s.printable = s := if_pos h
    exact .inl (congrArg fault hwhole)
  · have hbroken : s.printable = before _ (.malformed .unprintable) s.chars := if_neg h
    right
    rw [hbroken, fault_before]

/-- A file breaks off at a character that no document may contain, or because its bytes are no text. -/
theorem fault_ofBytes {bs : List UInt8} {e : Error} (h : (ofBytes bs).fault = some e) :
    e = .malformed .unprintable ∨ e = .notText ∧ Text.ofBytes? bs = none := by
  unfold ofBytes at h
  split at h
  · rename_i s _
    obtain hnone | hsome := fault_printable ⟨Text.unifyLines s.toList, none⟩
    · cases hnone.symm.trans h
    · exact .inl (Option.some.inj (hsome.symm.trans h)).symm
  · rename_i hbytes
    obtain hnone | hsome := fault_printable (before (decodable bs).length .notText (decodable bs))
    · exact .inr ⟨Option.some.inj (h.symm.trans hnone), hbytes⟩
    · exact .inl (Option.some.inj (hsome.symm.trans h)).symm

/-- Bytes that are no text break off somewhere. -/
theorem fault_ofBytes_ne_none {bs : List UInt8} (h : Text.ofBytes? bs = none) : (ofBytes bs).fault ≠ none := by
  have hprintable := fault_printable (before (decodable bs).length .notText (decodable bs))
  rw [fault_before] at hprintable
  rw [ofBytes, h]
  dsimp only
  obtain hfault | hfault := hprintable <;>
    rw [hfault] <;>
    exact Option.some_ne_none _

/-- Of few bytes that are no text no character is passed on. -/
theorem ofBytes_of_short {bs : List UInt8} (hlength : bs.length < 2 * blockLength) (h : Text.ofBytes? bs = none) :
    ofBytes bs = ⟨[], some .notText⟩ := by
  have hstart : blockStart (decodable bs).length = 0 :=
    if_pos ((length_decodable_le bs).trans_lt hlength)
  rw [ofBytes, h]
  dsimp only
  rw [before, hstart]
  rfl

end Yaml.Stream

end Placement
