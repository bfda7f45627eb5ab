import Placement.Proofs.Identity
import Placement.Proofs.Numeral

/-!
# Addresses and names in writing

The port behind the last colon of a written address has no colon in it, whatever the host looks like, so an
address can be told from its text (`Address.text_injective`).  In the same way the last two commas of a name in
writing are its separators, and its numbers and bytes can be told from their digits.  A name with a number of too
many digits is not written at all (`texts_identify`).
-/

namespace Placement
set_option autoImplicit false

/-! ## Separators -/

/-- A text is split in one way only at a separator that does not come again. -/
theorem append_separator_inj {c : Char} {xs ys xs' ys' : List Char} (h : xs ++ c :: ys = xs' ++ c :: ys')
    (hys : c ∉ ys) (hys' : c ∉ ys') : xs = xs' ∧ ys = ys' := by
  rcases List.append_eq_append_iff.1 h with ⟨gap, rfl, hgap⟩ | ⟨gap, rfl, hgap⟩
  all_goals cases gap with
    | nil => simp_all
    | cons first gap =>
      obtain ⟨-, rfl⟩ := List.cons.inj hgap
      simp at hys hys'

/-- Of three fields with commas between them only the first may have commas of its own. -/
theorem commas_inj {first second third first' second' third' : String}
    (h : first ++ "," ++ second ++ "," ++ third = first' ++ "," ++ second' ++ "," ++ third')
    (hsecond : ',' ∉ second.toList) (hsecond' : ',' ∉ second'.toList)
    (hthird : ',' ∉ third.toList) (hthird' : ',' ∉ third'.toList) :
    first = first' ∧ second = second' ∧ third = third' := by
  have hchars : (first.toList ++ ',' :: second.toList) ++ ',' :: third.toList =
      (first'.toList ++ ',' :: second'.toList) ++ ',' :: third'.toList := by
    simpa using congrArg String.toList h
  obtain ⟨hfront, hlast⟩ := append_separator_inj hchars hthird hthird'
  obtain ⟨hfirst, hmiddle⟩ := append_separator_inj hfront hsecond hsecond'
  exact ⟨String.toList_inj.1 hfirst, String.toList_inj.1 hmiddle, String.toList_inj.1 hlast⟩

/-! ## Numbers and bytes -/

namespace Numeral

theorem digits_injective : Function.Injective digits := by
  intro m n h
  have hvalue := value?_digits m
  rw [h, value?_digits] at hvalue
  exact (Option.some.inj hvalue).symm

theorem notMem_digits {c : Char} (hc : isDecimal c = false) (n : Nat) : c ∉ digits n := by
  intro hmem
  rw [isDecimal_of_mem_digits n c hmem] at hc
  cases hc

theorem notMem_ofNat {c : Char} (hc : isDecimal c = false) (n : Nat) : c ∉ (ofNat n).toList := by
  rw [toList_ofNat]
  exact notMem_digits hc n

theorem notMem_ofInt {c : Char} (hc : isDecimal c = false) (hminus : c ≠ '-') (i : Int) : c ∉ (ofInt i).toList := by
  cases i with
  | ofNat n => exact notMem_ofNat hc n
  | negSucc n =>
    rw [toList_ofInt_negSucc, List.mem_cons, not_or]
    exact ⟨hminus, notMem_digits hc _⟩

theorem ofNat_injective : Function.Injective ofNat := by
  intro m n h
  apply digits_injective
  rw [← toList_ofNat, h, toList_ofNat]

/-- The sign tells negative integers from the others. -/
theorem ofInt_injective : Function.Injective ofInt := by
  have hsign : ∀ m n : Nat, (ofInt (.ofNat m)).toList ≠ (ofInt (.negSucc n)).toList := by
    intro m n h
    rw [toList_ofInt_negSucc] at h
    exact notMem_ofNat (c := '-') (by decide) m (h ▸ List.mem_cons_self)
  intro i j h
  have hchars := congrArg String.toList h
  cases i with
  | ofNat m =>
    cases j with
    | ofNat n => rw [ofNat_injective h]
    | negSucc n => exact absurd hchars (hsign m n)
  | negSucc m =>
    cases j with
    | ofNat n => exact absurd hchars.symm (hsign n m)
    | negSucc n =>
      rw [toList_ofInt_negSucc, toList_ofInt_negSucc] at hchars
      rw [Nat.succ.inj (digits_injective (List.cons.inj hchars).2)]

theorem hexByte_injective : Function.Injective hexByte := by
  have hread : ∀ d e, d < 16 → e < 16 → digitChar d = digitChar e → d = e := by
    intro d e hd he h
    have hvalue := digitIn?_hexadecimal hd
    rw [h, digitIn?_hexadecimal he] at hvalue
    exact (Option.some.inj hvalue).symm
  intro b c h
  have hb := b.toNat_lt
  have hc := c.toNat_lt
  obtain ⟨hhigh, hlow⟩ := List.cons.inj h
  have hquotient := hread _ _ (by omega) (by omega) hhigh
  have hremainder := hread _ _ (by omega) (by omega) (List.cons.inj hlow).1
  exact UInt8.toNat_inj.1 (by omega)

/-- Every byte takes two digits, so no two runs of bytes are written alike. -/
theorem ofBytes_injective : Function.Injective ofBytes := by
  intro bs cs h
  replace h : bs.flatMap hexByte = cs.flatMap hexByte := String.ofList_injective h
  induction bs generalizing cs with
  | nil =>
    cases cs with
    | nil => rfl
    | cons c cs => cases h
  | cons b bs ih =>
    cases cs with
    | nil => cases h
    | cons c cs =>
      rw [List.flatMap_cons, List.flatMap_cons] at h
      obtain ⟨hfirst, hothers⟩ := List.append_inj h rfl
      rw [hexByte_injective hfirst, ih hothers]

theorem comma_notMem_ofBytes (bytes : List UInt8) : ',' ∉ (ofBytes bytes).toList := by
  have hdigit : ∀ d < 16, ',' ≠ digitChar d := by decide
  rw [ofBytes, String.toList_ofList, List.mem_flatMap]
  rintro ⟨b, -, hmem⟩
  have hb := b.toNat_lt
  rw [hexByte, List.mem_pair] at hmem
  exact hmem.elim (hdigit _ (by omega)) (hdigit _ (by omega))

end Numeral

/-! ## What a text stands for -/

theorem Address.text_injective : Function.Injective Address.text := by
  rintro ⟨host, port⟩ ⟨host', port'⟩ h
  have hchars : host.toList ++ ':' :: Numeral.digits port.val =
      host'.toList ++ ':' :: Numeral.digits port'.val := by
    simpa [Address.text, Numeral.ofNat] using congrArg String.toList h
  have hcolon := Numeral.notMem_digits (c := ':') (by decide)
  obtain ⟨hhost, hport⟩ := append_separator_inj hchars (hcolon _) (hcolon _)
  rw [String.toList_inj.1 hhost, Fin.ext (Numeral.digits_injective hport)]

/-- A name is written unless its start code has too many digits. -/
theorem Node.text_eq_ok_iff (n : Node) (t : String) :
    n.text = .ok t ↔ Numeral.Writable n.startCode ∧
      n.host ++ "," ++ Numeral.ofNat n.port.val ++ "," ++ Numeral.ofInt n.startCode = t := by
  rw [text]
  by_cases h : Numeral.Writable n.startCode
  · simp [Numeral.written_of_writable h, Except.map, h]
  · simp [Numeral.written_of_not_writable h, Except.map, h]

theorem Node.text_of_not_writable {n : Node} (h : ¬ Numeral.Writable n.startCode) : n.text = .error .digits := by
  rw [text, Numeral.written_of_not_writable h]
  rfl

theorem Node.text_inj {a b : Node} {t : String} (ha : a.text = .ok t) (hb : b.text = .ok t) : a = b := by
  have hport := Numeral.notMem_ofNat (c := ',') (by decide)
  have hcode := Numeral.notMem_ofInt (c := ',') (by decide) (by decide)
  have h := ((a.text_eq_ok_iff t).1 ha).2.trans ((b.text_eq_ok_iff t).1 hb).2.symm
  obtain ⟨hhost, hports, hcodes⟩ := commas_inj h (hport _) (hport _) (hcode _) (hcode _)
  have haddress := (Node.address_eq_iff a b).2 ⟨hhost, Fin.ext (Numeral.ofNat_injective hports)⟩
  exact Node.eq_of_address haddress (Numeral.ofInt_injective hcodes)

theorem Shard.text_eq_ok_iff (s : Shard) (t : String) :
    s.text = .ok t ↔ Numeral.Writable s.shardId ∧
      s.table ++ "," ++ Numeral.ofBytes s.startKey ++ "," ++ Numeral.ofInt s.shardId = t := by
  rw [text]
  by_cases h : Numeral.Writable s.shardId
  · simp [Numeral.written_of_writable h, Except.map, h]
  · simp [Numeral.written_of_not_writable h, Except.map, h]

theorem Shard.text_of_not_writable {s : Shard} (h : ¬ Numeral.Writable s.shardId) : s.text = .error .digits := by
  rw [text, Numeral.written_of_not_writable h]
  rfl

/-- The end key is the one field of a shard that is not written. -/
theorem Shard.text_inj {s t : Shard} {x : String} (hs : s.text = .ok x) (ht : t.text = .ok x) :
    s.table = t.table ∧ s.startKey = t.startKey ∧ s.shardId = t.shardId := by
  have hkey := Numeral.comma_notMem_ofBytes
  have hid := Numeral.notMem_ofInt (c := ',') (by decide) (by decide)
  have h := ((s.text_eq_ok_iff x).1 hs).2.trans ((t.text_eq_ok_iff x).1 ht).2.symm
  obtain ⟨htable, hkeys, hids⟩ := commas_inj h (hkey _) (hkey _) (hid _) (hid _)
  exact ⟨htable, Numeral.ofBytes_injective hkeys, Numeral.ofInt_injective hids⟩

/-- Texts tell what they stand for, and there is a text unless an id has too many digits. -/
theorem texts_identify :
    (∀ a b : Node, a.address.text = b.address.text ↔ a.host = b.host ∧ a.port = b.port) ∧
    (∀ a b : Node, Numeral.Writable a.startCode → Numeral.Writable b.startCode →
      ∃ t u, a.text = .ok t ∧ b.text = .ok u ∧ (t = u ↔ a = b)) ∧
    (∀ s t : Shard, Numeral.Writable s.shardId → Numeral.Writable t.shardId →
      ∃ x y, s.text = .ok x ∧ t.text = .ok y ∧
        (x = y ↔ s.table = t.table ∧ s.startKey = t.startKey ∧ s.shardId = t.shardId)) ∧
    (∀ a : Node, ¬ Numeral.Writable a.startCode → a.text = .error .digits) ∧
    ∀ s : Shard, ¬ Numeral.Writable s.shardId → s.text = .error .digits := by
  refine ⟨fun a b => ?_, fun a b ha hb => ?_, fun s t hs ht => ?_, fun a => Node.text_of_not_writable,
    fun s => Shard.text_of_not_writable⟩
  · rw [Address.text_injective.eq_iff, Node.address_eq_iff]
  · have htext := (a.text_eq_ok_iff _).2 ⟨ha, rfl⟩
    have hother := (b.text_eq_ok_iff _).2 ⟨hb, rfl⟩
    refine ⟨_, _, htext, hother, fun h => Node.text_inj htext (h ▸ hother), ?_⟩
    rintro rfl
    rfl
  · have htext := (s.text_eq_ok_iff _).2 ⟨hs, rfl⟩
    have hother := (t.text_eq_ok_iff _).2 ⟨ht, rfl⟩
    refine ⟨_, _, htext, hother, fun h => Shard.text_inj htext (h ▸ hother), ?_⟩
    rintro ⟨htable, hkeys, hids⟩
    rw [htable, hkeys, hids]

/-- The separators of one name come up in the host of the other. -/
theorem texts_identify_separators :
    Numeral.Writable (-3) ∧ ∃ t u, (⟨"h,1", 2, -3⟩ : Node).text = .ok t ∧ (⟨"h", 1, -3⟩ : Node).text = .ok u ∧
      t ≠ u ∧ ∃ x, (⟨"t", [0x2c], [], -3⟩ : Shard).text = .ok x ∧ (⟨"t", [0x2c], [0], -3⟩ : Shard).text = .ok x := by
  have hid : Numeral.Writable (-3) := by decide +kernel
  obtain ⟨-, hnodes, hshards, -, -⟩ := texts_identify
  obtain ⟨t, u, ht, hu, hnode⟩ := hnodes ⟨"h,1", 2, -3⟩ ⟨"h", 1, -3⟩ hid hid
  obtain ⟨x, y, hx, hy, hshard⟩ := hshards ⟨"t", [0x2c], [], -3⟩ ⟨"t", [0x2c], [0], -3⟩ hid hid
  obtain rfl := hshard.2 ⟨rfl, rfl, rfl⟩
  exact ⟨hid, t, u, ht, hu, fun h => absurd (hnode.1 h) (by decide), x, hx, hy⟩

/-- A node and a shard that equal themselves but have no names to show for it. -/
theorem texts_identify_overlong :
    (⟨"h", 1, Numeral.overlong⟩ : Node).text = .error .digits ∧
      (⟨"t", [], [], Numeral.overlong⟩ : Shard).text = .error .digits ∧
      (¬ ∀ a b : Node, (∃ t, a.text = .ok t ∧ b.text = .ok t) ↔ a = b) ∧
      ¬ ∀ s t : Shard, (∃ x, s.text = .ok x ∧ t.text = .ok x) ↔
        s.table = t.table ∧ s.startKey = t.startKey ∧ s.shardId = t.shardId := by
  have hnode : (⟨"h", 1, Numeral.overlong⟩ : Node).text = .error .digits :=
    Node.text_of_not_writable Numeral.not_writable_overlong
  have hshard : (⟨"t", [], [], Numeral.overlong⟩ : Shard).text = .error .digits :=
    Shard.text_of_not_writable Numeral.not_writable_overlong
  refine ⟨hnode, hshard, fun h => ?_, fun h => ?_⟩
  · obtain ⟨t, ht, -⟩ := (h ⟨"h", 1, Numeral.overlong⟩ _).2 rfl
    rw [hnode] at ht
    cases ht
  · obtain ⟨t, ht, -⟩ := (h ⟨"t", [], [], Numeral.overlong⟩ _).2 ⟨rfl, rfl, rfl⟩
    rw [hshard] at ht
    cases ht

end Placement
