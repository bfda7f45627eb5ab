import Mathlib.Data.List.TakeDrop
import Mathlib.Data.List.TakeWhile
import Mathlib.Tactic.SplitIfs
import Placement.Yaml.Lexer

/-!
# Lines of a block mapping

A line holds a key, a colon, a space and a word.  `Lexer.tokens_lines` gives the tokens of a text of such lines: three
steps of the lexer read one line and leave it at the next one (`Lexer.run_line`).
-/

namespace Placement.Yaml
set_option autoImplicit false

/-- Characters that do not end a plain scalar and are one column wide. -/
def isPlainChar (c : Char) : Bool :=
  isPrintable c && !isSpaceOrTab c && !isBreak c && c != ':' && c != '\r' && c != byteOrderMark

/-- A plain scalar without white space and colons. -/
structure IsWord (w : List Char) : Prop where
  starts : ∃ c cs, w = c :: cs ∧ Lexer.startsPlain false c cs.head? = true
  chars : ∀ c ∈ w, isPlainChar c = true

/-- A word that may begin a line and is short enough for a key. -/
structure IsKey (w : List Char) : Prop extends IsWord w where
  head_ne : ∀ c ∈ w.head?, c ≠ '%' ∧ c ≠ '-' ∧ c ≠ '.'
  length_le : w.length ≤ 1024

theorem isWord_of_all {c : Char} {cs : List Char} (hstarts : Lexer.startsPlain false c cs.head? = true)
    (hchars : (c :: cs).all isPlainChar = true) : IsWord (c :: cs) :=
  ⟨⟨c, cs, rfl, hstarts⟩, List.all_eq_true.1 hchars⟩

theorem isKey_of_all {c : Char} {cs : List Char} (hstarts : Lexer.startsPlain false c cs.head? = true)
    (hchars : (c :: cs).all isPlainChar = true) (hhead : c ≠ '%' ∧ c ≠ '-' ∧ c ≠ '.')
    (hlength : (c :: cs).length ≤ 1024) : IsKey (c :: cs) :=
  ⟨isWord_of_all hstarts hchars, fun _ hx => Option.some.inj hx ▸ hhead, hlength⟩

structure Line where
  key : List Char
  word : List Char

namespace Line

def chars (e : Line) : List Char := e.key ++ ':' :: ' ' :: (e.word ++ ['\n'])

structure Valid (e : Line) : Prop where
  key : IsKey e.key
  word : IsWord e.word

def tokens (e : Line) : List Token := [.key, .scalar e.key true, .value, .scalar e.word true]

end Line

/-! ## Plain scalars -/

section
variable {w : List Char} (hw : ∀ c ∈ w, isPlainChar c = true)
include hw

theorem skip_plain (rest : List Char) (index line column : Nat) :
    Cursor.skip w.length ⟨w ++ rest, index, line, column⟩ = ⟨rest, index + w.length, line, column + w.length⟩ := by
  induction w generalizing index column with
  | nil => rfl
  | cons c cs ih =>
    obtain ⟨hc, hcs⟩ := List.forall_mem_cons.1 hw
    have hstep : Cursor.step ⟨c :: (cs ++ rest), index, line, column⟩ = ⟨cs ++ rest, index + 1, line, column + 1⟩ := by
      simp only [isPlainChar, Bool.and_eq_true, Bool.not_eq_true', bne_iff_ne] at hc
      simp [Cursor.step, hc]
    rw [List.length_cons, List.cons_append, Cursor.skip, hstep, ih hcs]
    congr 1 <;> omega

theorem run_plain (rest : List Char) : Plain.run false (w ++ rest) = w ++ Plain.run false rest := by
  induction w with
  | nil => rfl
  | cons c cs ih =>
    obtain ⟨hc, hcs⟩ := List.forall_mem_cons.1 hw
    simp only [isPlainChar, Bool.and_eq_true, Bool.not_eq_true', bne_iff_ne] at hc
    simp [Plain.run, hc, ih hcs]

/-- A key ends at a colon with a space behind it. -/
theorem read_key (limit : Nat) (indent : Int) (rest : List Char) (index line column : Nat) :
    Plain.read (limit + 1) false indent ⟨w ++ ':' :: ' ' :: rest, index, line, column⟩ =
      (w, false, ⟨':' :: ' ' :: rest, index + w.length, line, column + w.length⟩) := by
  have hrun : Plain.run false (w ++ ':' :: ' ' :: rest) = w := by
    rw [run_plain hw]
    exact List.append_nil w
  unfold Plain.read Plain.lines
  dsimp only
  rw [hrun, skip_plain hw]
  rfl

/-- What begins a line keeps a word before it from going on. -/
def EndsWord (rest : List Char) : Prop :=
  ∀ c ∈ rest.head?, c ≠ ' ' ∧ isBreak c = false ∧ c ≠ '-' ∧ c ≠ '.'

omit hw in
theorem not_atDocumentMark {rest : List Char} (h : EndsWord rest) (index line column : Nat) :
    Cursor.atDocumentMark ⟨rest, index, line, column⟩ = false := by
  cases rest with
  | nil => rfl
  | cons c cs =>
    obtain ⟨-, -, hhyphen, hpoint⟩ := h c rfl
    simp [Cursor.atDocumentMark, Cursor.hasMark, hhyphen, hpoint]

omit hw in
theorem breaks_of_endsWord {rest : List Char} (h : EndsWord rest) (fuel index line column : Nat) :
    Plain.breaks fuel ⟨rest, index, line, column⟩ = ([], false, ⟨rest, index, line, column⟩) := by
  cases fuel with
  | zero => rfl
  | succ fuel =>
    cases rest with
    | nil => rfl
    | cons c cs =>
      obtain ⟨hspace, hbreak, -⟩ := h c rfl
      simp [Plain.breaks, Cursor.head?, hspace, hbreak]

/-- A word ends with its line, where the next line is not indented. -/
theorem read_word (limit : Nat) {rest : List Char} (hrest : EndsWord rest) (index line column : Nat) :
    Plain.read (limit + 1) false 1 ⟨w ++ '\n' :: rest, index, line, column⟩ =
      (w, true, ⟨rest, index + w.length + 1, line + 1, 0⟩) := by
  have hrun : Plain.run false (w ++ '\n' :: rest) = w := by
    rw [run_plain hw]
    exact List.append_nil w
  have hgap : Plain.gap (limit + 1) ⟨'\n' :: rest, index + w.length, line, column + w.length⟩ =
      ⟨[' '], true, ⟨rest, index + w.length + 1, line + 1, 0⟩⟩ := by
    have hstart : Plain.gap (limit + 1) ⟨'\n' :: rest, index + w.length, line, column + w.length⟩ =
        (if Cursor.atDocumentMark ⟨rest, index + w.length + 1, line + 1, 0⟩ then
          ⟨[], true, ⟨rest, index + w.length + 1, line + 1, 0⟩⟩
        else
          let x := Plain.breaks (limit + 1) ⟨rest, index + w.length + 1, line + 1, 0⟩
          ⟨if x.2.1 then [] else foldBreaks ['\n'] x.1, true, x.2.2⟩) := rfl
    rw [hstart, not_atDocumentMark hrest, breaks_of_endsWord hrest]
    rfl
  unfold Plain.read Plain.lines
  dsimp only
  rw [hrun, skip_plain hw, hgap]
  simp

end

/-! ## Steps of the lexer -/

namespace Lexer

/-- A lexer outside brackets in a text that does not break off. -/
def inBlock (limit : Nat) (cursor : Cursor) (columns : List Nat) (pending : List PendingKey) (keyAllowed : Bool)
    (output : List Token) : Lexer :=
  ⟨limit, cursor, none, columns, 0, pending, keyAllowed, output, output.length⟩

/-- A character at which white space is over. -/
def EndsGap (c : Char) : Prop := c ≠ ' ' ∧ c ≠ '#' ∧ isBreak c = false

section
variable {limit index line column : Nat} {columns : List Nat} {pending : List PendingKey} {keyAllowed : Bool}
  {output : List Token} {c : Char} {rest : List Char}

theorem gap_endsGap (h : EndsGap c) :
    gap (limit + 1) ⟨c :: rest, index, line, column⟩ = (false, ⟨c :: rest, index, line, column⟩) := by
  obtain ⟨hspace, hcomment, hbreak⟩ := h
  simp [gap, Cursor.skipWhile, Cursor.skip, Cursor.head?, Cursor.takeBreak, hspace, hcomment, hbreak]

theorem gap_space (h : EndsGap c) :
    gap (limit + 1) ⟨' ' :: c :: rest, index, line, column⟩ = (false, ⟨c :: rest, index + 1, line, column + 1⟩) := by
  obtain ⟨hspace, hcomment, hbreak⟩ := h
  have hstep : Cursor.step ⟨' ' :: c :: rest, index, line, column⟩ = ⟨c :: rest, index + 1, line, column + 1⟩ := rfl
  simp [gap, Cursor.skipWhile, Cursor.skip, Cursor.head?, Cursor.takeBreak, hspace, hcomment, hbreak, hstep]

/-- No collection lies to the right of those at the left edge. -/
theorem closeTo_left {l : Lexer} (hcolumns : ∀ x ∈ l.columns, x = 0) : closeTo column l = l := by
  have hopen : l.columns.takeWhile (fun x : Nat => decide ((column : Int) < x)) = [] := by
    cases hl : l.columns with
    | nil => rfl
    | cons x xs => simp [hcolumns x (hl ▸ List.mem_cons_self)]
  unfold closeTo
  dsimp only
  rw [hopen]
  exact ite_self l

theorem dropStale_fresh {l : Lexer} (hpending : ∀ k ∈ l.pending, k.isStale l.cursor = false) :
    l.dropStale = .ok l := by
  have hfresh : ∀ k ∈ l.pending, (!k.isStale l.cursor) = true := fun k hk => by rw [hpending k hk]; rfl
  unfold dropStale
  rw [List.span_eq_takeWhile_dropWhile, List.takeWhile_eq_self_iff.2 hfresh, List.dropWhile_eq_nil_iff.2 hfresh]
  rfl

theorem checked_inBlock (limit : Nat) (cursor : Cursor) (columns : List Nat) (pending : List PendingKey)
    (keyAllowed : Bool) (output : List Token) :
    (inBlock limit cursor columns pending keyAllowed output).checked =
      .ok (inBlock limit cursor columns pending keyAllowed output) := by
  unfold checked
  split
  · rename_i hfault
    cases hfault
  · rfl

/-- White space in a line closes no collection at the left edge. -/
theorem advance_inBlock {cursor place : Cursor} (hgap : gap limit cursor = (false, place))
    (hmark : cursor.head? ≠ some byteOrderMark) (hcolumns : ∀ x ∈ columns, x = 0)
    (hpending : ∀ k ∈ pending, k.isStale place = false) :
    (inBlock limit cursor columns pending keyAllowed output).advance =
      .ok (inBlock limit place columns pending keyAllowed output) := by
  have hstart : (if cursor.index = 0 ∧ cursor.head? = some byteOrderMark then cursor.step else cursor) = cursor :=
    if_neg fun h => hmark h.2
  have hadvance (x : Bool × Cursor) (hx : gap limit
        (if cursor.index = 0 ∧ cursor.head? = some byteOrderMark then cursor.step else cursor) = x) :
      (inBlock limit cursor columns pending keyAllowed output).advance =
        (inBlock limit x.2 columns pending (keyAllowed || (x.1 && true)) output).checked.bind
          fun l => l.dropStale.map (closeTo x.2.column) := by
    rw [← hx]
    rfl
  rw [hstart] at hadvance
  rw [hadvance _ hgap, Bool.false_and, Bool.or_false, checked_inBlock]
  show (dropStale _).map _ = _
  rw [dropStale_fresh hpending]
  exact congrArg Except.ok (closeTo_left hcolumns)

end

theorem hasMark_eq_false {mark x : Char} {cursor : Cursor} (hhead : cursor.head? = some x) (hne : x ≠ mark) :
    cursor.hasMark mark = false := by
  obtain ⟨rest, index, line, column⟩ := cursor
  cases rest with
  | nil => cases hhead
  | cons y rest =>
    cases hhead
    simp [Cursor.hasMark, hne]

theorem token_plain {l : Lexer} {x : Char} (hhead : l.cursor.head? = some x) (hlevel : l.level = 0)
    (hstart : startsPlain false x l.cursor.second? = true)
    (hcolumn : l.cursor.column = 0 → x ≠ '%' ∧ x ≠ '-' ∧ x ≠ '.') : l.token x = l.plain := by
  have hne (mark : Char) (hmark : startsPlain false mark l.cursor.second? = false) : x ≠ mark := by
    rintro rfl
    rw [hstart] at hmark
    cases hmark
  have hinFlow : l.inFlow = false := by rw [inFlow, hlevel]; rfl
  have hword (mark : Char) (hend : endsWord l.cursor.second? = true → startsPlain false mark l.cursor.second? = false) :
      ¬ (x = mark ∧ (l.inFlow = true ∨ endsWord l.cursor.second? = true)) := by
    rintro ⟨hx, hflow | hends⟩
    · rw [hinFlow] at hflow
      cases hflow
    · exact hne mark (hend hends) hx
  unfold token
  dsimp only
  rw [if_neg fun h => (hcolumn h.1).1 h.2,
    if_neg fun h => by simp [hasMark_eq_false hhead (hcolumn h.1).2.1] at h,
    if_neg fun h => by simp [hasMark_eq_false hhead (hcolumn h.1).2.2] at h,
    if_neg (hne '[' rfl), if_neg (hne '{' rfl), if_neg (hne ']' rfl), if_neg (hne '}' rfl), if_neg (hne ',' rfl),
    if_neg fun h => hword '-' (fun hends => by simp [startsPlain, hends]) ⟨h.1, .inr h.2⟩,
    if_neg (hword '?' fun hends => by simp [startsPlain, hends]),
    if_neg (hword ':' fun hends => by simp [startsPlain, hends]),
    if_neg (hne '*' rfl), if_neg (hne '&' rfl), if_neg (hne '!' rfl),
    if_neg fun h => h.1.elim (hne '|' rfl) (hne '>' rfl), if_neg (not_or.2 ⟨hne '\'' rfl, hne '"' rfl⟩),
    if_pos (hinFlow ▸ hstart)]

theorem token_colon {l : Lexer} {rest : List Char} (hrest : l.cursor.rest = ':' :: ' ' :: rest) :
    l.token ':' = l.colon := by
  have hhead : l.cursor.head? = some ':' := by rw [Cursor.head?, hrest]; rfl
  have hsecond : endsWord l.cursor.second? = true := by rw [Cursor.second?, hrest]; rfl
  have hne (mark : Char) (hmark : (':' == mark) = false) : ':' ≠ mark := by simpa using hmark
  unfold token
  dsimp only
  rw [if_neg fun h => hne '%' rfl h.2,
    if_neg fun h => by simp [hasMark_eq_false hhead (hne '-' rfl)] at h,
    if_neg fun h => by simp [hasMark_eq_false hhead (hne '.' rfl)] at h,
    if_neg (hne '[' rfl), if_neg (hne '{' rfl), if_neg (hne ']' rfl), if_neg (hne '}' rfl), if_neg (hne ',' rfl),
    if_neg fun h => hne '-' rfl h.1, if_neg fun h => hne '?' rfl h.1, if_pos ⟨rfl, .inr hsecond⟩]

theorem step_of_advance {l m : Lexer} {x : Char} (hadvance : l.advance = .ok m) (hhead : m.cursor.head? = some x) :
    l.step = (m.token x).bind checked := by
  unfold step
  rw [hadvance]
  dsimp only [Except.bind]
  rw [hhead]

theorem startsPlain_append {c d : Char} {cs : List Char} (h : startsPlain false c cs.head? = true) (rest : List Char) :
    startsPlain false c (cs ++ d :: rest).head? = true := by
  cases cs with
  | cons _ _ => exact h
  | nil =>
    unfold startsPlain at h ⊢
    split_ifs at h ⊢
    · cases h
    · cases h
    · exact h

/-- The first character of a word ends white space and begins a token. -/
theorem exists_cons_of_isWord {w : List Char} (hw : IsWord w) (d : Char) (rest : List Char) :
    ∃ c cs, w ++ d :: rest = c :: cs ∧ w.head? = some c ∧ EndsGap c ∧ c ≠ byteOrderMark ∧
      startsPlain false c cs.head? = true := by
  obtain ⟨c, cs, rfl, hstart⟩ := hw.starts
  have hc := hw.chars c List.mem_cons_self
  simp only [isPlainChar, isSpaceOrTab, Bool.and_eq_true, Bool.not_eq_true', bne_iff_ne, Bool.or_eq_false_iff,
    beq_eq_false_iff_ne] at hc
  have hcomment : c ≠ '#' := by
    rintro rfl
    cases hstart
  exact ⟨c, cs ++ d :: rest, rfl, rfl, ⟨hc.1.1.1.1.2.1, hcomment, hc.1.1.1.2⟩, hc.2, startsPlain_append hstart rest⟩

variable {limit index line : Nat} {columns : List Nat} {output : List Token} {key word rest : List Char}

/-- The key that is pending behind the first word of a line. -/
def lineKey (columns : List Nat) (index line count : Nat) : PendingKey := ⟨0, count, index, line, 0, columns == [0]⟩

/-- The columns of the collections that are open at a line are none or the left edge. -/
def IsLeft (columns : List Nat) : Prop := columns = [] ∨ columns = [0]

theorem IsLeft.eq_zero (h : IsLeft columns) : ∀ x ∈ columns, x = 0 := by
  obtain rfl | rfl := h <;> simp

theorem plain_of_read {l m : Lexer} {text : List Char} {crosses : Bool} {c : Cursor} (hsave : l.saveKey = .ok m)
    (hread : Plain.read m.limit m.inFlow (m.indent + 1) m.cursor = (text, crosses, c)) :
    l.plain = .ok (m.put (.scalar text true) c crosses) := by
  unfold plain
  rw [hsave]
  show Except.ok (m.put (.scalar (Plain.read m.limit m.inFlow (m.indent + 1) m.cursor).1 true)
    (Plain.read m.limit m.inFlow (m.indent + 1) m.cursor).2.2
    (Plain.read m.limit m.inFlow (m.indent + 1) m.cursor).2.1) = _
  rw [hread]

theorem step_key (hkey : IsKey key) (hcolumns : IsLeft columns) :
    (inBlock (limit + 1) ⟨key ++ ':' :: ' ' :: rest, index, line, 0⟩ columns [] true output).step =
      .ok (inBlock (limit + 1) ⟨':' :: ' ' :: rest, index + key.length, line, key.length⟩ columns
        [lineKey columns index line output.length] false (.scalar key true :: output)) := by
  obtain ⟨c, cs, hcs, hhead, hgap, hmark, hstart⟩ := exists_cons_of_isWord hkey.toIsWord ':' (' ' :: rest)
  have hadvance : (inBlock (limit + 1) ⟨key ++ ':' :: ' ' :: rest, index, line, 0⟩ columns [] true output).advance =
      .ok (inBlock (limit + 1) ⟨key ++ ':' :: ' ' :: rest, index, line, 0⟩ columns [] true output) := by
    rw [hcs]
    exact advance_inBlock (gap_endsGap hgap) (fun h => hmark (Option.some.inj h)) hcolumns.eq_zero (by simp)
  have htoken : (inBlock (limit + 1) ⟨key ++ ':' :: ' ' :: rest, index, line, 0⟩ columns [] true output).token c =
      (inBlock (limit + 1) ⟨key ++ ':' :: ' ' :: rest, index, line, 0⟩ columns [] true output).plain := by
    rw [hcs]
    exact token_plain rfl rfl hstart fun _ => hkey.head_ne c hhead
  have hsave : (inBlock (limit + 1) ⟨key ++ ':' :: ' ' :: rest, index, line, 0⟩ columns [] true output).saveKey =
      .ok (inBlock (limit + 1) ⟨key ++ ':' :: ' ' :: rest, index, line, 0⟩ columns
        [lineKey columns index line output.length] true output) := by
    obtain rfl | rfl := hcolumns <;> rfl
  rw [step_of_advance hadvance (x := c) (by rw [hcs]; rfl), htoken,
    plain_of_read hsave (read_key hkey.chars limit _ rest index line 0), Nat.zero_add]
  rfl

/-- The tokens that a colon puts in front of a key. -/
def keyMarks (columns : List Nat) : List Token := if columns = [] then [.key, .blockMappingStart] else [.key]

theorem step_colon (hcolumns : IsLeft columns) {width : Nat} (hwidth : width ≤ 1024) :
    (inBlock (limit + 1) ⟨':' :: ' ' :: rest, index + width, line, width⟩ columns
        [lineKey columns index line output.length] false (.scalar key true :: output)).step =
      .ok (inBlock (limit + 1) ⟨' ' :: rest, index + width + 1, line, width + 1⟩ [0] [] false
        (.value :: .scalar key true :: (keyMarks columns ++ output))) := by
  have hfresh : (lineKey columns index line output.length).isStale ⟨':' :: ' ' :: rest, index + width, line, width⟩ =
      false := by
    simp [PendingKey.isStale, lineKey, hwidth]
  have hadvance : (inBlock (limit + 1) ⟨':' :: ' ' :: rest, index + width, line, width⟩ columns
        [lineKey columns index line output.length] false (.scalar key true :: output)).advance =
      .ok (inBlock (limit + 1) ⟨':' :: ' ' :: rest, index + width, line, width⟩ columns
        [lineKey columns index line output.length] false (.scalar key true :: output)) :=
    advance_inBlock (gap_endsGap ⟨by decide, by decide, rfl⟩) (fun h => absurd (Option.some.inj h) (by decide))
      hcolumns.eq_zero (List.forall_mem_singleton.2 hfresh)
  have hcolon : (inBlock (limit + 1) ⟨':' :: ' ' :: rest, index + width, line, width⟩ columns
        [lineKey columns index line output.length] false (.scalar key true :: output)).colon =
      .ok (inBlock (limit + 1) ⟨' ' :: rest, index + width + 1, line, width + 1⟩ [0] [] false
        (.value :: .scalar key true :: (keyMarks columns ++ output))) := by
    -- The mapping begins with the first key; later keys find it open.
    have hinsert : insertKey (lineKey columns index line output.length)
        (inBlock (limit + 1) ⟨':' :: ' ' :: rest, index + width, line, width⟩ columns
          [lineKey columns index line output.length] false (.scalar key true :: output)) =
        inBlock (limit + 1) ⟨':' :: ' ' :: rest, index + width, line, width⟩ [0] [] false
          (.scalar key true :: (keyMarks columns ++ output)) := by
      obtain rfl | rfl := hcolumns
      · simp [insertKey, inBlock, lineKey, keyMarks, inFlow, indent]
      · simp [insertKey, inBlock, lineKey, keyMarks, inFlow, indent]
    show Except.ok ((insertKey (lineKey columns index line output.length) _).put .value _ false) = _
    rw [hinsert]
    rfl
  rw [step_of_advance hadvance rfl, token_colon rfl, hcolon]
  rfl

theorem step_word (hword : IsWord word) (hrest : EndsWord rest) (width : Nat) :
    (inBlock (limit + 1) ⟨' ' :: (word ++ '\n' :: rest), index, line, width⟩ [0] [] false output).step =
      .ok (inBlock (limit + 1) ⟨rest, index + 1 + word.length + 1, line + 1, 0⟩ [0] [] true
        (.scalar word true :: output)) := by
  obtain ⟨c, cs, hcs, hhead, hgap, hmark, hstart⟩ := exists_cons_of_isWord hword '\n' rest
  have hadvance :
      (inBlock (limit + 1) ⟨' ' :: (word ++ '\n' :: rest), index, line, width⟩ [0] [] false output).advance =
      .ok (inBlock (limit + 1) ⟨word ++ '\n' :: rest, index + 1, line, width + 1⟩ [0] [] false output) := by
    rw [hcs]
    exact advance_inBlock (gap_space hgap) (fun h => absurd (Option.some.inj h) (by decide)) (by simp) (by simp)
  have htoken : (inBlock (limit + 1) ⟨word ++ '\n' :: rest, index + 1, line, width + 1⟩ [0] [] false output).token c =
      (inBlock (limit + 1) ⟨word ++ '\n' :: rest, index + 1, line, width + 1⟩ [0] [] false output).plain := by
    rw [hcs]
    exact token_plain rfl rfl hstart fun h => absurd h (Nat.succ_ne_zero width)
  have hsave : (inBlock (limit + 1) ⟨word ++ '\n' :: rest, index + 1, line, width + 1⟩ [0] [] false output).saveKey =
      .ok (inBlock (limit + 1) ⟨word ++ '\n' :: rest, index + 1, line, width + 1⟩ [0] [] false output) := rfl
  rw [step_of_advance hadvance (x := c) (by rw [hcs]; rfl), htoken,
    plain_of_read hsave (read_word hword.chars limit hrest (index + 1) line (width + 1))]
  cases rest <;> rfl

/-! ## Runs of the lexer -/

theorem run_step {l m : Lexer} (hstep : l.step = .ok m) (hend : m.output.head? ≠ some .streamEnd) (fuel : Nat) :
    l.run (fuel + 1) = m.run fuel := by
  rw [run, hstep]
  exact if_neg hend

theorem run_line (limit index line : Nat) (output : List Token) {e : Line} (he : e.Valid) (hcolumns : IsLeft columns)
    (hrest : EndsWord rest) (fuel : Nat) :
    ∃ index', (inBlock (limit + 1) ⟨e.chars ++ rest, index, line, 0⟩ columns [] true output).run (fuel + 3) =
      (inBlock (limit + 1) ⟨rest, index', line + 1, 0⟩ [0] [] true
        (.scalar e.word true :: .value :: .scalar e.key true :: (keyMarks columns ++ output))).run fuel := by
  have hchars : e.chars ++ rest = e.key ++ ':' :: ' ' :: (e.word ++ '\n' :: rest) := by simp [Line.chars]
  -- One step each for the key, the colon and the word.
  refine ⟨index + e.key.length + 1 + 1 + e.word.length + 1, ?_⟩
  rw [hchars, run_step (step_key he.key hcolumns) (by simp [inBlock]),
    run_step (step_colon hcolumns he.key.length_le) (by simp [inBlock]),
    run_step (step_word he.word hrest _) (by simp [inBlock])]

theorem endsWord_lines {es : List Line} (hes : ∀ e ∈ es, e.Valid) : EndsWord (es.flatMap Line.chars) := by
  cases es with
  | nil => simp [EndsWord]
  | cons e es =>
    have he := (hes e List.mem_cons_self).key
    obtain ⟨c, cs, hcs, hhead, ⟨hspace, -, hbreak⟩, -⟩ :=
      exists_cons_of_isWord he.toIsWord ':' (' ' :: (e.word ++ ['\n']) ++ es.flatMap Line.chars)
    have hchars : (e :: es).flatMap Line.chars = c :: cs := by
      rw [← hcs]
      simp [Line.chars]
    rw [hchars]
    intro x hx
    cases hx
    exact ⟨hspace, hbreak, (he.head_ne c hhead).2⟩

/-- The tokens of further lines, last first. -/
def linesOutput (es : List Line) (output : List Token) : List Token :=
  (es.flatMap Line.tokens).reverse ++ output

theorem run_lines (limit index line : Nat) (output : List Token) {es : List Line} (hes : ∀ e ∈ es, e.Valid)
    (fuel : Nat) :
    ∃ index' line', (inBlock (limit + 1) ⟨es.flatMap Line.chars, index, line, 0⟩ [0] [] true output).run
        (fuel + 3 * es.length) =
      (inBlock (limit + 1) ⟨[], index', line', 0⟩ [0] [] true (linesOutput es output)).run fuel := by
  induction es generalizing index line output with
  | nil => exact ⟨index, line, rfl⟩
  | cons e es ih =>
    obtain ⟨he, hes⟩ := List.forall_mem_cons.1 hes
    obtain ⟨index₁, hline⟩ := run_line limit index line output he (.inr rfl) (endsWord_lines hes)
      (fuel + 3 * es.length)
    obtain ⟨index₂, line₂, hlines⟩ := ih index₁ (line + 1)
      (.scalar e.word true :: .value :: .scalar e.key true :: (keyMarks [0] ++ output)) hes
    refine ⟨index₂, line₂, ?_⟩
    rw [List.flatMap_cons, List.length_cons, Nat.mul_succ, ← Nat.add_assoc, hline, hlines]
    simp [linesOutput, Line.tokens, keyMarks]

theorem step_end (index line : Nat) :
    (inBlock (limit + 1) ⟨[], index, line, 0⟩ [0] [] true output).step =
      .ok (inBlock (limit + 1) ⟨[], index, line, 0⟩ [] [] false (.streamEnd :: .blockEnd :: output)) := by
  have hadvance : (inBlock (limit + 1) ⟨[], index, line, 0⟩ [0] [] true output).advance =
      .ok (inBlock (limit + 1) ⟨[], index, line, 0⟩ [0] [] true output) :=
    advance_inBlock rfl nofun (by simp) (by simp)
  rw [step, hadvance]
  rfl

theorem length_lines {es : List Line} (hes : ∀ e ∈ es, e.Valid) :
    5 * es.length ≤ (es.flatMap Line.chars).length := by
  induction es with
  | nil => exact Nat.le_refl 0
  | cons e es ih =>
    obtain ⟨he, hes⟩ := List.forall_mem_cons.1 hes
    have hword {w : List Char} (hw : IsWord w) : 0 < w.length := by
      obtain ⟨c, cs, rfl, -⟩ := hw.starts
      exact Nat.succ_pos _
    have hkey := hword he.key.toIsWord
    have hvalue := hword he.word
    have := ih hes
    simp only [List.flatMap_cons, List.length_append, List.length_cons, Line.chars, List.length_nil]
    omega

theorem tokens_lines {e : Line} {es : List Line} (hes : ∀ x ∈ e :: es, x.Valid) :
    tokens ⟨(e :: es).flatMap Line.chars, none⟩ =
      .blockMappingStart :: ((e :: es).flatMap Line.tokens ++ [.blockEnd, .streamEnd]) := by
  obtain ⟨limit, hlimit⟩ : ∃ limit, ((e :: es).flatMap Line.chars).length = limit := ⟨_, rfl⟩
  have hlength := length_lines hes
  rw [hlimit, List.length_cons] at hlength
  obtain ⟨he, hrest⟩ := List.forall_mem_cons.1 hes
  obtain ⟨fuel, hfuel⟩ : ∃ fuel, limit + 1 = fuel + 1 + 3 * es.length + 3 := ⟨limit - 3 * es.length - 3, by omega⟩
  have hstart : start ⟨(e :: es).flatMap Line.chars, none⟩ =
      inBlock (limit + 1) ⟨e.chars ++ es.flatMap Line.chars, 0, 0, 0⟩ [] [] true [] := by
    rw [start, hlimit]
    rfl
  obtain ⟨index₁, hline⟩ := run_line limit 0 0 [] he (.inl rfl) (endsWord_lines hrest) (fuel + 1 + 3 * es.length)
  obtain ⟨index₂, line₂, hlines⟩ := run_lines limit index₁ 1
    (.scalar e.word true :: .value :: .scalar e.key true :: (keyMarks [] ++ [])) hrest (fuel + 1)
  have hend (output : List Token) : (inBlock (limit + 1) ⟨[], index₂, line₂, 0⟩ [0] [] true output).run (fuel + 1) =
      .streamEnd :: .blockEnd :: output := by
    rw [run, step_end]
    rfl
  have hrun : (start ⟨(e :: es).flatMap Line.chars, none⟩).limit = fuel + 1 + 3 * es.length + 3 := by
    rw [hstart, ← hfuel]
    rfl
  rw [tokens, hrun, hstart, hline, hlines, hend]
  simp [linesOutput, Line.tokens, keyMarks]

end Lexer

end Placement.Yaml
