import Mathlib
import Placement.Table

/-!
# What tables answer

The keys of a table are distinct, so `Table.get?` and membership of a pair say the same.  A change of one
key is a change of all values in place (`Table.modify_eq_mapValues`), and among pairs that are inserted one
after another the last one of a key counts (`Table.get?_insertAll`).  Values that are collected by key lose
neither members nor order (`Table.row_grouped`, `Table.values_grouped`), and a table of lists is what its own
pairs are collected to (`Table.grouped_pairs`).
-/

namespace Placement
set_option autoImplicit false

/-! ## Entry lists -/

namespace Entries
variable {κ ν : Type} [DecidableEq κ]

theorem find?_eq_some_iff {es : List (κ × ν)} (h : (es.map Prod.fst).Nodup) (k : κ) (v : ν) :
    find? k es = some v ↔ (k, v) ∈ es := by
  induction es with
  | nil => simp [find?]
  | cons e es ih =>
    rw [List.map_cons, List.nodup_cons] at h
    by_cases hk : e.1 = k
    · subst hk
      have hnot : (e.1, v) ∉ es := fun hm => h.1 (List.mem_map.2 ⟨_, hm, rfl⟩)
      simp [find?, hnot, Prod.ext_iff, eq_comm]
    · have hne : (k, v) ≠ e := fun he => hk (he ▸ rfl)
      simp [find?, hk, ih h.2, hne]

theorem alter_eq_map (k : κ) (f : ν → ν) {es : List (κ × ν)} (h : (es.map Prod.fst).Nodup) :
    alter k f es = es.map fun e => (e.1, if e.1 = k then f e.2 else e.2) := by
  induction es with
  | nil => rfl
  | cons e es ih =>
    rw [List.map_cons, List.nodup_cons] at h
    by_cases hk : e.1 = k
    · subst hk
      have hrest : (es.map fun x => (x.1, if x.1 = e.1 then f x.2 else x.2)) = es := by
        refine (List.map_congr_left fun x hx => ?_).trans (List.map_id es)
        have hne : x.1 ≠ e.1 := fun he => h.1 (he ▸ List.mem_map_of_mem hx)
        simp [hne]
      simp [alter, hrest]
    · simp [alter, hk, ih h.2]

theorem put_append {k : κ} {es : List (κ × ν)} (h : k ∉ es.map Prod.fst) (v : ν) (fs : List (κ × ν)) :
    put k v (es ++ fs) = es ++ put k v fs := by
  induction es with
  | nil => rfl
  | cons e es ih =>
    rw [List.map_cons, List.mem_cons, not_or] at h
    simp [put, Ne.symm h.1, ih h.2]

theorem put_of_notMem {k : κ} {es : List (κ × ν)} (h : k ∉ es.map Prod.fst) (v : ν) :
    put k v es = es ++ [(k, v)] := by
  have happend := put_append h v []
  rwa [List.append_nil] at happend

theorem keys_put_of_mem {k : κ} {es : List (κ × ν)} (h : k ∈ es.map Prod.fst) (v : ν) :
    (put k v es).map Prod.fst = es.map Prod.fst := by
  induction es with
  | nil => simp at h
  | cons e es ih =>
    by_cases hk : e.1 = k
    · simp [put, hk]
    · rw [List.map_cons, List.mem_cons] at h
      simp [put, hk, ih (h.resolve_left (Ne.symm hk))]

/-- A value that is put behind the others of its key comes to the values of all keys. -/
theorem flatten_put (k : κ) (v : ν) (es : List (κ × List ν)) :
    ((put k ((find? k es).getD [] ++ [v]) es).map Prod.snd).flatten.Perm
      ((es.map Prod.snd).flatten ++ [v]) := by
  induction es with
  | nil => exact List.Perm.refl _
  | cons e es ih =>
    by_cases hk : e.1 = k
    · simp only [put, find?, hk, if_true, Option.getD_some, List.map_cons, List.flatten_cons, List.append_assoc]
      exact List.perm_append_comm.append_left e.2
    · simp only [put, find?, hk, if_false, List.map_cons, List.flatten_cons, List.append_assoc]
      exact ih.append_left e.2

end Entries

namespace Table
variable {κ ν μ : Type}

@[ext] theorem ext {t u : Table κ ν} (h : t.entries = u.entries) : t = u := by
  cases t
  cases u
  cases h
  rfl

@[simp] theorem keys_mapValues (t : Table κ ν) (f : κ → ν → μ) : (t.mapValues f).keys = t.keys := by
  simp [mapValues, keys, Function.comp_def]

theorem mapValues_mapValues {ρ : Type} (t : Table κ ν) (f : κ → ν → μ) (g : κ → μ → ρ) :
    (t.mapValues f).mapValues g = t.mapValues fun k v => g k (f k v) := by
  ext1
  simp [mapValues, Function.comp_def]

theorem mapValues_self (t : Table κ ν) : (t.mapValues fun _ v => v) = t := by
  ext1
  simp [mapValues]

variable [DecidableEq κ]

/-! ## Looking up -/

theorem get?_eq_some_iff (t : Table κ ν) (k : κ) (v : ν) : t.get? k = some v ↔ (k, v) ∈ t.entries :=
  Entries.find?_eq_some_iff t.keys_nodup k v

/-- Tables with the same answers have the same entries, up to their order. -/
theorem entries_perm {t u : Table κ ν} (h : ∀ k, t.get? k = u.get? k) : t.entries.Perm u.entries := by
  rw [List.perm_ext_iff_of_nodup (t.keys_nodup.of_map Prod.fst) (u.keys_nodup.of_map Prod.fst)]
  rintro ⟨k, v⟩
  rw [← get?_eq_some_iff, h k, get?_eq_some_iff]

theorem mem_keys_iff (t : Table κ ν) (k : κ) : k ∈ t.keys ↔ ∃ v, t.get? k = some v := by
  simp [keys, get?_eq_some_iff]

theorem get?_eq_none_iff (t : Table κ ν) (k : κ) : t.get? k = none ↔ k ∉ t.keys := by
  rw [mem_keys_iff, ← Option.isSome_iff_exists, Option.not_isSome_iff_eq_none]

theorem contains_iff (t : Table κ ν) (k : κ) : t.contains k = true ↔ k ∈ t.keys := by
  rw [contains, Option.isSome_iff_exists, mem_keys_iff]

theorem get?_mapValues (t : Table κ ν) (f : κ → ν → μ) (k : κ) :
    (t.mapValues f).get? k = (t.get? k).map (f k) := by
  refine Option.ext fun v => ?_
  rw [Option.map_eq_some_iff, get?_eq_some_iff]
  simp only [get?_eq_some_iff, mapValues, List.mem_map, Prod.mk.injEq, Prod.exists]
  constructor
  · rintro ⟨k', w, hm, rfl, rfl⟩
    exact ⟨w, hm, rfl⟩
  · rintro ⟨w, hm, rfl⟩
    exact ⟨k, w, hm, rfl, rfl⟩

theorem modify_eq_mapValues (t : Table κ ν) (k : κ) (f : ν → ν) :
    t.modify k f = t.mapValues fun x v => if x = k then f v else v := by
  ext1
  exact Entries.alter_eq_map k f t.keys_nodup

/-- Of several pairs with one key the last one counts. -/
theorem get?_insertAll (t : Table κ ν) (pairs : List (κ × ν)) (k : κ) :
    (t.insertAll pairs).get? k =
      ((pairs.reverse.find? fun e => e.1 = k).map Prod.snd).or (t.get? k) := by
  induction pairs generalizing t with
  | nil => simp [insertAll]
  | cons e pairs ih =>
    have hstep : t.insertAll (e :: pairs) = (t.insert e.1 e.2).insertAll pairs := rfl
    rw [hstep, ih, get?_insert, List.reverse_cons, List.find?_append]
    by_cases hk : e.1 = k
    · subst hk
      cases pairs.reverse.find? fun x => x.1 = e.1 <;> simp
    · have hk' : k ≠ e.1 := fun h => hk h.symm
      simp [hk, hk']

theorem get?_ofList (pairs : List (κ × ν)) (k : κ) :
    (ofList pairs).get? k = (pairs.reverse.find? fun e => e.1 = k).map Prod.snd := by
  rw [ofList, get?_insertAll, get?_empty, Option.or_none]

theorem get?_insertAll_eq_or (t : Table κ ν) (pairs : List (κ × ν)) (k : κ) :
    (t.insertAll pairs).get? k = ((ofList pairs).get? k).or (t.get? k) := by
  rw [get?_insertAll, get?_ofList]

theorem mem_of_get?_ofList {pairs : List (κ × ν)} {k : κ} {v : ν} (h : (ofList pairs).get? k = some v) :
    (k, v) ∈ pairs := by
  rw [get?_ofList, Option.map_eq_some_iff] at h
  obtain ⟨e, hfind, rfl⟩ := h
  have hkey : e.1 = k := by simpa using List.find?_some hfind
  have hmem := List.mem_reverse.1 (List.mem_of_find?_eq_some hfind)
  rw [← hkey]
  exact hmem

theorem exists_get?_ofList {pairs : List (κ × ν)} {k : κ} {v : ν} (h : (k, v) ∈ pairs) :
    ∃ w, (ofList pairs).get? k = some w := by
  rw [← Option.isSome_iff_exists, get?_ofList, Option.isSome_map, List.find?_isSome]
  exact ⟨(k, v), List.mem_reverse.2 h, by simp⟩

/-- A pair counts when its key does not occur behind it. -/
theorem get?_ofList_of_last {pairs : List (κ × ν)} {j : Nat} {k : κ} {v : ν} (h : pairs[j]? = some (k, v))
    (hlast : k ∉ (pairs.drop (j + 1)).map Prod.fst) : (ofList pairs).get? k = some v := by
  have hlater : (pairs.drop (j + 1)).reverse.find? (fun e => e.1 = k) = none := by
    rw [List.find?_eq_none]
    intro e he hk
    exact hlast (List.mem_map.2 ⟨e, List.mem_reverse.1 he, of_decide_eq_true hk⟩)
  obtain ⟨hj, hpair⟩ := List.getElem?_eq_some_iff.1 h
  have hsplit : pairs = pairs.take j ++ (k, v) :: pairs.drop (j + 1) := by
    rw [← hpair, List.getElem_cons_drop, List.take_append_drop]
  rw [hsplit, get?_ofList, List.reverse_append, List.reverse_cons, List.append_assoc, List.find?_append, hlater]
  simp

/-- Among pairs whose values never decrease the last value of a key is the greatest. -/
theorem le_of_get?_ofList [Preorder ν] {pairs : List (κ × ν)} (h : pairs.Pairwise fun e f => e.2 ≤ f.2)
    {k : κ} {v w : ν} (hget : (ofList pairs).get? k = some v) (hmem : (k, w) ∈ pairs) : w ≤ v := by
  induction pairs using List.reverseRecOn with
  | nil => cases hmem
  | append_singleton pairs e ih =>
    obtain ⟨hpairs, -, hlast⟩ := List.pairwise_append.1 h
    rw [List.mem_append, List.mem_singleton] at hmem
    have hinsert : ofList (pairs ++ [e]) = (ofList pairs).insert e.1 e.2 := by simp [ofList, insertAll]
    rw [hinsert, get?_insert] at hget
    split_ifs at hget with hk
    · cases hget
      obtain hmem | rfl := hmem
      · exact hlast _ hmem e (List.mem_singleton.2 rfl)
      · exact le_rfl
    · exact ih hpairs hget (hmem.resolve_right fun he => hk (congrArg Prod.fst he))

/-! ## Order of insertion -/

theorem entries_insert_of_notMem {t : Table κ ν} {k : κ} (h : k ∉ t.keys) (v : ν) :
    (t.insert k v).entries = t.entries ++ [(k, v)] := Entries.put_of_notMem h v

theorem keys_insert (t : Table κ ν) (k : κ) (v : ν) :
    (t.insert k v).keys = if k ∈ t.keys then t.keys else t.keys ++ [k] := by
  split_ifs with h
  · exact Entries.keys_put_of_mem h v
  · rw [keys, entries_insert_of_notMem h, List.map_append]
    rfl

theorem mem_keys_insert_iff (t : Table κ ν) (k x : κ) (v : ν) : x ∈ (t.insert k v).keys ↔ x = k ∨ x ∈ t.keys :=
  Entries.mem_keys_put k x v t.entries

theorem insertAll_concat (t : Table κ ν) (pairs : List (κ × ν)) (e : κ × ν) :
    t.insertAll (pairs ++ [e]) = (t.insertAll pairs).insert e.1 e.2 := by
  simp [insertAll]

/-- Keys that are there keep their places. -/
theorem keys_prefix_insertAll (t : Table κ ν) (pairs : List (κ × ν)) : t.keys <+: (t.insertAll pairs).keys := by
  induction pairs using List.reverseRecOn with
  | nil => exact List.prefix_refl _
  | append_singleton pairs e ih =>
    rw [insertAll_concat, keys_insert]
    split_ifs
    · exact ih
    · exact ih.trans (List.prefix_append _ _)

theorem eraseDups_concat (ks : List κ) (k : κ) :
    (ks ++ [k]).eraseDups = if k ∈ ks then ks.eraseDups else ks.eraseDups ++ [k] := by
  rw [List.eraseDups_append]
  by_cases h : k ∈ ks
  · simp [List.removeAll, h]
  · simp [List.removeAll, List.eraseDups_cons, h]

/-- The keys come in the order in which they first occur. -/
theorem keys_ofList (pairs : List (κ × ν)) : (ofList pairs).keys = (pairs.map Prod.fst).eraseDups := by
  unfold ofList
  induction pairs using List.reverseRecOn with
  | nil => rfl
  | append_singleton pairs e ih =>
    rw [insertAll_concat, keys_insert, ih, List.map_append, List.map_singleton, eraseDups_concat]
    simp only [List.mem_eraseDups]

theorem get?_insertAll_of_notMem {pairs : List (κ × ν)} {k : κ} (h : k ∉ pairs.map Prod.fst) (t : Table κ ν) :
    (t.insertAll pairs).get? k = t.get? k := by
  have hnone : (ofList pairs).get? k = none := by
    rw [get?_eq_none_iff, keys_ofList, List.mem_eraseDups]
    exact h
  rw [get?_insertAll_eq_or, hnone, Option.none_or]

theorem entries_ofList {pairs : List (κ × ν)} (h : (pairs.map Prod.fst).Nodup) :
    (ofList pairs).entries = pairs := by
  unfold ofList
  induction pairs using List.reverseRecOn with
  | nil => rfl
  | append_singleton pairs e ih =>
    rw [List.map_append, List.nodup_append] at h
    have hentries := ih h.1
    have hnew : e.1 ∉ (empty.insertAll pairs).keys := by
      rw [keys, hentries]
      exact fun hm => h.2.2 e.1 hm e.1 (by simp) rfl
    rw [insertAll_concat, entries_insert_of_notMem hnew, hentries]

theorem mem_values_ofList {pairs : List (κ × ν)} {v : ν} (h : v ∈ (ofList pairs).values) :
    ∃ k, (k, v) ∈ pairs := by
  obtain ⟨e, he, rfl⟩ := List.mem_map.1 h
  exact ⟨e.1, mem_of_get?_ofList ((get?_eq_some_iff _ e.1 e.2).2 he)⟩

theorem ofList_entries (t : Table κ ν) : ofList t.entries = t := by
  ext1
  exact entries_ofList t.keys_nodup

/-- The table that comes later wins. -/
theorem get?_merge (t u : Table κ ν) (k : κ) : (t.merge u).get? k = (u.get? k).or (t.get? k) := by
  rw [merge, get?_insertAll_eq_or, ofList_entries]

theorem mem_keys_merge_iff (t u : Table κ ν) (k : κ) : k ∈ (t.merge u).keys ↔ k ∈ t.keys ∨ k ∈ u.keys := by
  simp only [mem_keys_iff, get?_merge, ← Option.isSome_iff_exists, Option.isSome_or, Bool.or_eq_true]
  exact or_comm

/-! ## Lists as values -/

/-- The list of a key; a key that is not listed has the empty list. -/
def row (t : Table κ (List ν)) (k : κ) : List ν := (t.get? k).getD []

theorem row_of_get? {t : Table κ (List ν)} {k : κ} {l : List ν} (h : t.get? k = some l) : t.row k = l := by
  rw [row, h, Option.getD_some]

theorem get?_of_mem_keys {t : Table κ (List ν)} {k : κ} (h : k ∈ t.keys) : t.get? k = some (t.row k) := by
  obtain ⟨l, hl⟩ := (mem_keys_iff t k).1 h
  rw [row_of_get? hl, hl]

theorem mem_keys_of_mem_row {t : Table κ (List ν)} {k : κ} {x : ν} (h : x ∈ t.row k) : k ∈ t.keys := by
  rw [mem_keys_iff]
  cases hk : t.get? k with
  | some l => exact ⟨l, rfl⟩
  | none => simp [row, hk] at h

theorem row_mapValues {t : Table κ (List ν)} (f : κ → List ν → List μ) {k : κ} (h : k ∈ t.keys) :
    (t.mapValues f).row k = f k (t.row k) := by
  rw [row, get?_mapValues, get?_of_mem_keys h]
  rfl

theorem row_of_mem_entries {t : Table κ (List ν)} {e : κ × List ν} (h : e ∈ t.entries) :
    t.row e.1 = e.2 := row_of_get? ((get?_eq_some_iff t e.1 e.2).2 h)

theorem row_eq_nil {t : Table κ (List ν)} (h : ∀ l ∈ t.values, l = []) (k : κ) : t.row k = [] := by
  cases hget : t.get? k with
  | none => rw [row, hget, Option.getD_none]
  | some l =>
    rw [row_of_get? hget]
    exact h l (List.mem_map_of_mem (f := Prod.snd) ((get?_eq_some_iff t k l).1 hget))

theorem mem_keys_iff_row_ne_nil {t : Table κ (List ν)} (h : ∀ l ∈ t.values, l ≠ []) {k : κ} :
    k ∈ t.keys ↔ t.row k ≠ [] := by
  constructor
  · intro hk
    exact h _ (List.mem_map_of_mem (f := Prod.snd) ((get?_eq_some_iff t k _).1 (get?_of_mem_keys hk)))
  · intro hrow
    obtain ⟨x, hx⟩ := List.exists_mem_of_ne_nil _ hrow
    exact mem_keys_of_mem_row hx

theorem mem_flatten_values_iff (t : Table κ (List ν)) (x : ν) : x ∈ t.values.flatten ↔ ∃ k, x ∈ t.row k := by
  rw [List.mem_flatten]
  constructor
  · rintro ⟨l, hl, hx⟩
    obtain ⟨e, he, rfl⟩ := List.mem_map.1 hl
    exact ⟨e.1, (row_of_mem_entries he).symm ▸ hx⟩
  · rintro ⟨k, hx⟩
    have hentry := (get?_eq_some_iff t k _).1 (get?_of_mem_keys (mem_keys_of_mem_row hx))
    exact ⟨t.row k, List.mem_map_of_mem (f := Prod.snd) hentry, hx⟩

/-! ## Collecting values -/

theorem keys_push (t : Table κ (List ν)) (k : κ) (v : ν) :
    (t.push k v).keys = if k ∈ t.keys then t.keys else t.keys ++ [k] := keys_insert _ _ _

theorem row_push (t : Table κ (List ν)) (k x : κ) (v : ν) :
    (t.push k v).row x = if x = k then t.row x ++ [v] else t.row x := by
  rw [row, push, get?_insert]
  split_ifs with h
  · rw [h]
    rfl
  · rfl

theorem values_push (t : Table κ (List ν)) (k : κ) (v : ν) :
    (t.push k v).values.flatten.Perm (t.values.flatten ++ [v]) := Entries.flatten_put k v t.entries

theorem pushAll_concat (t : Table κ (List ν)) (pairs : List (κ × ν)) (e : κ × ν) :
    t.pushAll (pairs ++ [e]) = (t.pushAll pairs).push e.1 e.2 := by
  simp [pushAll]

theorem mem_keys_pushAll_iff (t : Table κ (List ν)) (pairs : List (κ × ν)) (k : κ) :
    k ∈ (t.pushAll pairs).keys ↔ k ∈ t.keys ∨ k ∈ pairs.map Prod.fst := by
  induction pairs using List.reverseRecOn with
  | nil => simp [pushAll]
  | append_singleton pairs e ih =>
    rw [pushAll_concat, push, mem_keys_insert_iff, ih, List.map_append, List.mem_append, List.map_singleton,
      List.mem_singleton]
    exact or_comm.trans or_assoc

/-- The values of the pairs of a key come behind those that the key has already, in their order. -/
theorem row_pushAll (t : Table κ (List ν)) (pairs : List (κ × ν)) (k : κ) :
    (t.pushAll pairs).row k = t.row k ++ (pairs.filter fun e => e.1 = k).map Prod.snd := by
  induction pairs using List.reverseRecOn with
  | nil => simp [pushAll]
  | append_singleton pairs e ih =>
    rw [pushAll_concat, row_push, ih, List.filter_append, List.map_append]
    by_cases h : k = e.1
    · simp [h]
    · simp [h, Ne.symm h]

theorem values_pushAll (t : Table κ (List ν)) (pairs : List (κ × ν)) :
    (t.pushAll pairs).values.flatten.Perm (t.values.flatten ++ pairs.map Prod.snd) := by
  induction pairs using List.reverseRecOn with
  | nil => simp [pushAll]
  | append_singleton pairs e ih =>
    rw [pushAll_concat, List.map_append, ← List.append_assoc]
    exact (values_push _ _ _).trans (ih.append_right _)

theorem grouped_concat (pairs : List (κ × ν)) (e : κ × ν) :
    grouped (pairs ++ [e]) = (grouped pairs).push e.1 e.2 := pushAll_concat empty pairs e

theorem keys_grouped (pairs : List (κ × ν)) : (grouped pairs).keys = (pairs.map Prod.fst).eraseDups := by
  induction pairs using List.reverseRecOn with
  | nil => rfl
  | append_singleton pairs e ih =>
    rw [grouped_concat, keys_push, ih, List.map_append, List.map_singleton, eraseDups_concat]
    simp only [List.mem_eraseDups]

theorem row_grouped (pairs : List (κ × ν)) (k : κ) :
    (grouped pairs).row k = (pairs.filter fun e => e.1 = k).map Prod.snd := row_pushAll empty pairs k

theorem values_grouped (pairs : List (κ × ν)) : (grouped pairs).values.flatten.Perm (pairs.map Prod.snd) :=
  values_pushAll empty pairs

theorem mem_keys_grouped_iff (pairs : List (κ × ν)) (k : κ) :
    k ∈ (grouped pairs).keys ↔ (grouped pairs).row k ≠ [] := by
  rw [keys_grouped, List.mem_eraseDups, row_grouped, Ne, List.map_eq_nil_iff, List.filter_eq_nil_iff]
  simp

theorem ne_nil_of_mem_grouped {pairs : List (κ × ν)} {l : List ν} (h : l ∈ (grouped pairs).values) : l ≠ [] := by
  obtain ⟨e, he, rfl⟩ := List.mem_map.1 h
  rw [← row_of_mem_entries he, ← mem_keys_grouped_iff]
  exact List.mem_map_of_mem he

/-- Every value with its key, list after list. -/
def pairs (t : Table κ (List ν)) : List (κ × ν) := t.entries.flatMap fun e => e.2.map fun v => (e.1, v)

omit [DecidableEq κ] in
theorem values_pairs (t : Table κ (List ν)) : t.pairs.map Prod.snd = t.values.flatten := by
  simp [pairs, values, List.flatMap, Function.comp_def]

omit [DecidableEq κ] in
theorem mem_keys_of_mem_pairs {t : Table κ (List ν)} {e : κ × ν} (h : e ∈ t.pairs) : e.1 ∈ t.keys := by
  obtain ⟨entry, hentry, he⟩ := List.mem_flatMap.1 h
  obtain ⟨v, -, rfl⟩ := List.mem_map.1 he
  exact List.mem_map_of_mem hentry

theorem entries_push (t : Table κ (List ν)) (k : κ) (v : ν) :
    (t.push k v).entries = Entries.put k (t.row k ++ [v]) t.entries := rfl

theorem entries_pushAll_of_notMem {t : Table κ (List ν)} {k : κ} (h : k ∉ t.keys) {l : List ν} (hl : l ≠ []) :
    (t.pushAll (l.map fun v => (k, v))).entries = t.entries ++ [(k, l)] := by
  induction l using List.reverseRecOn with
  | nil => exact absurd rfl hl
  | append_singleton l v ih =>
    rw [List.map_append, List.map_singleton, pushAll_concat, entries_push]
    by_cases hfirst : l = []
    · subst hfirst
      have hrow : t.row k = [] := List.eq_nil_iff_forall_not_mem.2 fun x hx => h (mem_keys_of_mem_row hx)
      rw [List.map_nil, pushAll, List.foldl_nil, hrow]
      exact Entries.put_of_notMem h _
    · have hentries := ih hfirst
      have hrow : (t.pushAll (l.map fun v => (k, v))).row k = l := by
        apply row_of_get?
        rw [get?_eq_some_iff, hentries]
        simp
      rw [hrow, hentries, Entries.put_append h]
      simp [Entries.put]

/-- Lists that are taken apart come together again. -/
theorem grouped_pairs (t : Table κ (List ν)) (h : ∀ l ∈ t.values, l ≠ []) : grouped t.pairs = t := by
  obtain ⟨es, hnodup⟩ := t
  ext1
  induction es using List.reverseRecOn with
  | nil => rfl
  | append_singleton es e ih =>
    have hnodup' := hnodup
    rw [List.map_append, List.map_singleton, List.nodup_append] at hnodup'
    have hes := ih hnodup'.1 fun l hl => h l (by simp_all [values])
    have hfresh : e.1 ∉ (grouped (pairs ⟨es, hnodup'.1⟩)).keys := by
      rw [keys, hes]
      exact fun hmem => hnodup'.2.2 e.1 hmem e.1 (by simp) rfl
    have hsplit : pairs ⟨es ++ [e], hnodup⟩ = pairs ⟨es, hnodup'.1⟩ ++ e.2.map fun v => (e.1, v) := by
      simp [pairs]
    rw [hsplit, grouped, pushAll, List.foldl_append]
    refine (entries_pushAll_of_notMem hfresh (h e.2 (by simp [values]))).trans ?_
    rw [hes]

end Table
end Placement
