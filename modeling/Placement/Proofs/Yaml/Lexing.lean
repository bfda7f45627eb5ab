import Mathlib.Tactic.SplitIfs
import Placement.Yaml.Lexer

/-!
# What can go wrong while a text is cut

A text that cannot be cut into tokens is malformed, or has a number or an escape that stands for nothing, or breaks
off.  `Lexer.step_goes` says so for one token and `Lexer.of_broken_mem_tokens` for a text; where the text breaks off, no
token tells of its end (`Lexer.fault_of_streamEnd_mem_tokens`).
-/

namespace Placement.Yaml
set_option autoImplicit false

/-! ## Attempts -/

/-- What an attempt comes to: an error of one kind or a result of another. -/
def Yields {ε α : Type} (bad : ε → Prop) (good : α → Prop) : Except ε α → Prop
  | .error e => bad e
  | .ok a => good a

section
variable {ε α β : Type} {bad worse : ε → Prop} {good better : α → Prop} {fine : β → Prop} {x : Except ε α}

theorem Yields.bind {f : α → Except ε β} (h : Yields bad good x) (hf : ∀ a, good a → Yields bad fine (f a)) :
    Yields bad fine (x.bind f) := by
  cases x with
  | error e => exact h
  | ok a => exact hf a h

theorem Yields.map {f : α → β} (h : Yields bad good x) (hf : ∀ a, good a → fine (f a)) :
    Yields bad fine (x.map f) := by
  cases x with
  | error e => exact h
  | ok a => exact hf a h

theorem Yields.ite {y : Except ε α} {p : Prop} [Decidable p] (hx : Yields bad good x) (hy : Yields bad good y) :
    Yields bad good (if p then x else y) := by
  split
  · exact hx
  · exact hy

theorem Yields.mono (h : Yields bad good x) (hbad : ∀ e, bad e → worse e) (hgood : ∀ a, good a → better a) :
    Yields worse better x := by
  cases x with
  | error e => exact hbad e h
  | ok a => exact hgood a h

end

/-- Errors of the texts of tokens. -/
inductive Lexical : Error → Prop
  | malformed (cause : Malformed) : Lexical (.malformed cause)
  | tooManyDigits (count : Nat) : Lexical (.scalar (.tooManyDigits count))
  | beyondUnicode : Lexical (.scalar .beyondUnicode)
  | beyondWord : Lexical (.scalar .beyondWord)

/-- Any result, unless there is an error in the text. -/
abbrev Spells {α : Type} : Except Error α → Prop := Yields Lexical fun _ => True

/-- Tokens behind which there are no others. -/
def Token.isLast : Token → Bool
  | .streamEnd | .broken _ => true
  | _ => false

/-- A token that is not the last one, unless there is an error in the text. -/
abbrev Marks : Except Error (Token × Cursor) → Prop := Yields Lexical fun x => x.1.isLast = false

/-! ## Anchors, tags and directives -/

namespace Mark

theorem word_spells (p : Char → Bool) (cause : Malformed) (c : Cursor) : Spells (word p cause c) := by
  unfold word
  dsimp only
  split
  · exact .malformed cause
  · trivial

theorem followedBy_yields {α : Type} {good : α × Cursor → Prop} (p : Option Char → Bool) (cause : Malformed)
    (x : α × Cursor) (h : good x) : Yields Lexical good (followedBy p cause x) := by
  unfold followedBy
  split
  · exact h
  · exact .malformed cause

theorem anchorName_spells (c : Cursor) : Spells (anchorName c) :=
  (word_spells _ _ c).bind fun x _ => followedBy_yields _ _ x trivial

theorem uri_spells (cause : Malformed) (c : Cursor) : Spells (uri cause c) := by
  unfold uri
  dsimp only
  split
  · split
    · exact .malformed cause
    · trivial
  · exact .malformed cause

theorem handle_spells (cause : Malformed) (c : Cursor) : Spells (handle cause c) := by
  unfold handle
  dsimp only
  split_ifs <;> first | exact .malformed cause | trivial

theorem tag_marks (c : Cursor) : Marks (tag c) := by
  have suffixed (handle : Option String) (d : Cursor) :
      Marks ((uri .tag d).map fun x => (.tag handle x.1, x.2)) :=
    (uri_spells _ d).map fun _ _ => rfl
  refine Yields.bind (?_ : Marks _) fun x hx => followedBy_yields _ _ x hx
  split_ifs
  · exact ((suffixed none _).bind fun x hx => followedBy_yields _ _ x hx).map fun _ hx => hx
  · exact rfl
  · exact (handle_spells _ c).bind fun x _ => suffixed _ _
  · exact suffixed _ _

theorem digits_spells (c : Cursor) : Spells (digits c) := by
  unfold digits
  dsimp only
  split
  · exact .tooManyDigits _
  · split
    · trivial
    · exact .malformed _

theorem version_marks (c : Cursor) : Marks (version c) := by
  have number (p : Option Char → Bool) (d : Cursor) :
      Spells ((digits d).bind (followedBy p .directive)) :=
    (digits_spells d).bind fun x _ => followedBy_yields _ _ x trivial
  exact (number _ _).bind fun x _ => (number _ _).bind fun y _ => rfl

theorem tagHandle_marks (c : Cursor) : Marks (tagHandle c) :=
  ((handle_spells _ _).bind fun x _ => followedBy_yields _ _ x trivial).bind fun _ _ =>
    ((uri_spells _ _).bind fun x _ => followedBy_yields _ _ x trivial).bind fun _ _ => rfl

theorem lastField_marks (x : Token × Cursor) (hx : x.1.isLast = false) :
    Marks (match x.2.restOfLine? with
      | some f => .ok (x.1, f)
      | none => .error (.malformed .directive)) := by
  split
  · exact hx
  · exact .malformed _

theorem directive_marks (c : Cursor) : Marks (directive c) := by
  refine ((word_spells _ _ _).bind fun x _ => followedBy_yields _ _ x trivial).bind fun x _ => ?_
  dsimp only
  split_ifs
  · exact (version_marks _).bind lastField_marks
  · exact (tagHandle_marks _).bind lastField_marks
  · exact lastField_marks _ rfl

end Mark

/-! ## Quoted and block scalars -/

namespace Quoted

theorem character_spells (n : Nat) : Spells (character n) := by
  unfold character
  split_ifs
  · exact .beyondWord
  · exact .beyondUnicode
  · trivial
  · trivial

theorem breaks_spells (fuel : Nat) (c : Cursor) : Spells (breaks fuel c) := by
  induction fuel generalizing c with
  | zero => trivial
  | succ fuel ih =>
    unfold breaks
    dsimp only
    split
    · exact .malformed _
    · split
      · trivial
      · exact (ih _).map fun _ _ => trivial

theorem escape_spells (limit : Nat) (c : Cursor) : Spells (escape limit c) := by
  unfold escape
  split
  · exact .malformed _
  · split
    · trivial
    · split
      · dsimp only
        split
        · exact .malformed _
        · split
          · exact .malformed _
          · exact (character_spells _).map fun _ _ => trivial
      · split
        · exact breaks_spells limit _
        · exact .malformed _

theorem run_spells (limit : Nat) (quote : Char) (fuel : Nat) (c : Cursor) :
    Spells (run limit quote fuel c) := by
  induction fuel generalizing c with
  | zero => trivial
  | succ fuel ih =>
    have more {α : Type} (d : Cursor) (f : List Char × Cursor → α) : Spells ((run limit quote fuel d).map f) :=
      (ih d).map fun _ _ => trivial
    unfold run
    split
    · trivial
    · split_ifs
      · trivial
      · exact more _ _
      · trivial
      · have he := escape_spells limit c.step
        split
        · simp_all [Yields]
        · exact more _ _
      · exact more _ _

theorem gap_spells (limit : Nat) (c : Cursor) : Spells (gap limit c) := by
  unfold gap
  dsimp only
  split
  · exact .malformed _
  · split
    · trivial
    · exact (breaks_spells limit _).map fun _ _ => trivial

theorem read_spells (limit : Nat) (quote : Char) (c : Cursor) : Spells (read limit quote c) := by
  have loop (fuel : Nat) (c : Cursor) : Spells (lines limit quote fuel c) := by
    induction fuel generalizing c with
    | zero => exact .malformed _
    | succ fuel ih =>
      have hrun := run_spells limit quote limit c
      unfold lines
      split
      · simp_all [Yields]
      · split
        · trivial
        · rename_i d _ _
          have hgap := gap_spells limit d
          split
          · simp_all [Yields]
          · exact (ih _).map fun _ _ => trivial
  exact loop limit c

end Quoted

namespace Block

theorem header_spells (c : Cursor) : Spells (header c) := by
  unfold header
  dsimp only
  repeat' split
  all_goals first | exact .malformed _ | trivial

theorem read_spells (limit : Nat) (folded : Bool) (parent : Int) (c : Cursor) :
    Spells (read limit folded parent c) := by
  have hheader := header_spells c
  unfold read
  split
  · simp_all [Yields]
  · split
    · exact .malformed _
    · trivial

end Block

/-! ## Lexers -/

namespace Lexer
variable {l m n : Lexer}

/-- A lexer further on in the same text.  Its new tokens are not the last one, but for the end of a text that does
not break off. -/
structure Follows (l m : Lexer) : Prop where
  fault_eq : m.fault = l.fault
  last_mem : ∀ t ∈ m.output, t.isLast = true → t ∈ l.output ∨ t = .streamEnd ∧ l.fault = none

theorem Follows.refl (l : Lexer) : l.Follows l := ⟨rfl, fun _ ht _ => .inl ht⟩

theorem Follows.trans (h : l.Follows m) (h' : m.Follows n) : l.Follows n where
  fault_eq := h'.fault_eq.trans h.fault_eq
  last_mem t ht hlast := by
    obtain hm | ⟨hend, hfault⟩ := h'.last_mem t ht hlast
    · exact h.last_mem t hm hlast
    · exact .inr ⟨hend, h.fault_eq ▸ hfault⟩

theorem Follows.of_output (hfault : m.fault = l.fault)
    (houtput : ∀ t ∈ m.output, t ∈ l.output ∨ t.isLast = false) : l.Follows m :=
  ⟨hfault, fun t ht hlast => .inl ((houtput t ht).resolve_right fun h => by simp [hlast] at h)⟩

theorem Follows.of_eq (hfault : m.fault = l.fault) (houtput : m.output = l.output) : l.Follows m :=
  .of_output hfault fun _ ht => .inl (houtput ▸ ht)

theorem push_follows (l : Lexer) {t : Token} (ht : t.isLast = false) : l.Follows (l.push t) :=
  .of_output rfl fun _ hu => (List.mem_cons.1 hu).elim (fun h => .inr (h ▸ ht)) .inl

theorem put_follows (l : Lexer) {t : Token} (ht : t.isLast = false) (c : Cursor) (keyAllowed : Bool) :
    l.Follows (l.put t c keyAllowed) :=
  (push_follows l ht).trans (.of_eq rfl rfl)

/-- An attempt to go on in a text: it fails on an error in the text or at the place where the text breaks off. -/
abbrev Goes (l : Lexer) : Except Error Lexer → Prop := Yields (fun e => Lexical e ∨ l.fault = some e) l.Follows

theorem Goes.bind {x : Except Error Lexer} {f : Lexer → Except Error Lexer} (h : l.Goes x)
    (hf : ∀ m, l.Follows m → m.Goes (f m)) : l.Goes (x.bind f) :=
  Yields.bind h fun m hm => (hf m hm).mono (fun _ he => he.imp_right fun hm' => hm.fault_eq ▸ hm') fun _ => hm.trans

theorem Goes.map {x : Except Error Lexer} {f : Lexer → Lexer} (h : l.Goes x) (hf : ∀ m : Lexer, m.Follows (f m)) :
    l.Goes (x.map f) :=
  Yields.map h fun m hm => hm.trans (hf m)

theorem Goes.of_follows {x : Except Error Lexer} (h : l.Follows m) (hx : m.Goes x) : l.Goes x :=
  hx.mono (fun _ he => he.imp_right fun hm => h.fault_eq ▸ hm) fun _ => h.trans

theorem checked_goes (l : Lexer) : l.Goes l.checked := by
  unfold checked
  split
  · rename_i e _ he
    exact .inr he
  · exact .refl l

/-! ## Keys and block collections -/

theorem dropKey_goes (l : Lexer) : l.Goes l.dropKey := by
  unfold dropKey
  split
  · split
    · exact .inl (.malformed _)
    · exact Follows.of_eq rfl rfl
  · exact .refl l

theorem saveKey_goes (l : Lexer) : l.Goes l.saveKey := by
  unfold saveKey
  split
  · exact (dropKey_goes l).map fun _ => .of_eq rfl rfl
  · exact .refl l

theorem dropStale_goes (l : Lexer) : l.Goes l.dropStale := by
  unfold dropStale
  dsimp only
  split
  · exact .inl (.malformed _)
  · exact Follows.of_eq rfl rfl

theorem closeTo_follows (column : Int) (l : Lexer) : l.Follows (l.closeTo column) := by
  have hloop (closed : List Nat) (m : Lexer) : m.Follows (closed.foldl (fun l _ => l.push .blockEnd) m) := by
    induction closed generalizing m with
    | nil => exact .refl m
    | cons _ closed ih => exact (push_follows m rfl).trans (ih _)
  unfold closeTo
  dsimp only
  split
  · exact .refl l
  · refine Follows.trans ?_ (hloop _ _)
    exact .of_eq rfl rfl

theorem openAt_follows (column : Nat) {t : Token} (ht : t.isLast = false) (l : Lexer) :
    l.Follows (l.openAt column t) := by
  unfold openAt
  split
  · refine Follows.trans ?_ (push_follows _ ht)
    exact .of_eq rfl rfl
  · exact .refl l

theorem insertKey_follows (k : PendingKey) (l : Lexer) : l.Follows (l.insertKey k) := by
  have hmarks (opens : Bool) (t : Token)
      (ht : t ∈ if opens then [Token.key, .blockMappingStart] else [.key]) : t.isLast = false := by
    cases opens <;> simp at ht
    · exact ht ▸ rfl
    · exact ht.elim (fun h => h ▸ rfl) fun h => h ▸ rfl
  refine .of_output rfl fun t ht => ?_
  simp only [insertKey, List.mem_append] at ht
  obtain (ht | ht) | ht := ht
  · exact .inl (List.mem_of_mem_take ht)
  · exact .inr (hmarks _ t ht)
  · exact .inl (List.mem_of_mem_drop ht)

theorem advance_goes (l : Lexer) : l.Goes l.advance := by
  unfold advance
  dsimp only
  refine Goes.of_follows ?_ ((checked_goes _).bind fun m _ => (dropStale_goes m).map (closeTo_follows _))
  exact .of_eq rfl rfl

/-! ## Tokens -/

variable {read : Cursor → Except Error (Token × Cursor)}

theorem put_goes (l : Lexer) (h : ∀ c, Marks (read c)) (keyAllowed : Bool) :
    l.Goes ((read l.cursor).map fun x => l.put x.1 x.2 keyAllowed) :=
  Yields.map ((h l.cursor).mono (fun _ => .inl) fun _ => id) fun _ hx => put_follows l hx _ _

theorem outermost_goes (l : Lexer) (h : ∀ c, Marks (read c)) : l.Goes (l.outermost read) :=
  .of_follows (closeTo_follows _ l) ((dropKey_goes _).bind fun m _ => put_goes m h false)

theorem node_goes (l : Lexer) (h : ∀ c, Marks (read c)) : l.Goes (l.node read) :=
  (saveKey_goes l).bind fun m _ => put_goes m h false

theorem openBracket_goes {t : Token} (ht : t.isLast = false) (l : Lexer) : l.Goes (l.openBracket t) :=
  (saveKey_goes l).map fun m => (put_follows m ht m.cursor.step true).trans (.of_eq rfl rfl)

theorem closeBracket_goes {t : Token} (ht : t.isLast = false) (l : Lexer) : l.Goes (l.closeBracket t) := by
  refine (dropKey_goes l).bind fun m _ => ?_
  split
  · exact .inl (.malformed _)
  · exact (put_follows m ht m.cursor.step false).trans (.of_eq rfl rfl)

theorem blockMark_goes {start t : Token} (hstart : start.isLast = false) (ht : t.isLast = false) (cause : Malformed)
    (l : Lexer) : l.Goes (l.blockMark start t cause) := by
  have hopen : l.Follows (if l.inFlow then l else l.openAt l.cursor.column start) := by
    split
    · exact .refl l
    · exact openAt_follows _ hstart l
  unfold blockMark
  split
  · exact .of_follows hopen ((dropKey_goes _).map fun m => put_follows m ht _ _)
  · exact .inl (.malformed _)

theorem colon_goes (l : Lexer) : l.Goes l.colon := by
  unfold colon
  split
  · exact (insertKey_follows _ l).trans (put_follows _ rfl _ _)
  · exact blockMark_goes rfl rfl _ l

theorem plain_goes (l : Lexer) : l.Goes l.plain :=
  (saveKey_goes l).map fun m => put_follows m rfl _ _

theorem quoted_goes (quote : Char) (l : Lexer) : l.Goes (l.quoted quote) := by
  have hput (m : Lexer) (x : Token × Cursor) (hx : x.1.isLast = false) : m.Follows (m.put x.1 x.2 false) :=
    put_follows m hx _ _
  refine (saveKey_goes l).bind fun m hm => Yields.map ?_ (hput m)
  have hread := Quoted.read_spells l.limit quote m.cursor.step
  dsimp only
  split
  · exact rfl
  · rw [← hm.fault_eq]
    cases hfault : m.fault with
    | none => exact .inl (.malformed _)
    | some e => exact .inr rfl
  · rename_i e _ he
    rw [he] at hread
    exact .inl hread

theorem blockScalar_goes (folded : Bool) (l : Lexer) : l.Goes (l.blockScalar folded) := by
  refine (dropKey_goes l).bind fun m _ => ?_
  exact ((Block.read_spells _ _ _ _).mono (fun _ => .inl) fun _ => id).map fun _ _ => put_follows m rfl _ _

theorem token_goes (x : Char) (l : Lexer) : l.Goes (l.token x) := by
  have word (f : String → Token) (hf : ∀ name, (f name).isLast = false) (c : Cursor) :
      Marks ((Mark.anchorName c.step).map fun y => (f y.1, y.2)) :=
    (Mark.anchorName_spells _).map fun _ _ => hf _
  unfold token
  dsimp only
  refine .ite (outermost_goes l Mark.directive_marks) ?_
  refine .ite (outermost_goes l fun _ => rfl) ?_
  refine .ite (outermost_goes l fun _ => rfl) ?_
  refine .ite (openBracket_goes rfl l) ?_
  refine .ite (openBracket_goes rfl l) ?_
  refine .ite (closeBracket_goes rfl l) ?_
  refine .ite (closeBracket_goes rfl l) ?_
  refine .ite ((dropKey_goes l).map fun m => put_follows m rfl _ _) ?_
  refine .ite (blockMark_goes rfl rfl _ l) ?_
  refine .ite (blockMark_goes rfl rfl _ l) ?_
  refine .ite (colon_goes l) ?_
  refine .ite (node_goes l (word .alias fun _ => rfl)) ?_
  refine .ite (node_goes l (word .anchor fun _ => rfl)) ?_
  refine .ite (node_goes l Mark.tag_marks) ?_
  refine .ite (blockScalar_goes _ l) ?_
  refine .ite (quoted_goes x l) ?_
  exact .ite (plain_goes l) (.inl (.malformed _))

/-! ## Steps and runs -/

theorem cursor_closeTo (column : Int) (l : Lexer) : (l.closeTo column).cursor = l.cursor := by
  have hloop (closed : List Nat) (m : Lexer) : (closed.foldl (fun l _ => l.push .blockEnd) m).cursor = m.cursor := by
    induction closed generalizing m with
    | nil => rfl
    | cons _ closed ih => exact ih _
  unfold closeTo
  dsimp only
  split
  · rfl
  · exact hloop _ _

theorem cursor_dropStale (l : Lexer) :
    Yields (fun _ => True) (fun m => m.cursor = l.cursor ∧ m.fault = l.fault) l.dropStale := by
  unfold dropStale
  dsimp only
  split
  · trivial
  · exact ⟨rfl, rfl⟩

/-- Where a lexer that has passed white space finds nothing more, the text does not break off. -/
theorem fault_of_advance (h : l.advance = .ok m) (hend : m.cursor.head? = none) : m.fault = none := by
  have hchecked (l : Lexer) : Yields (fun _ => True) (fun m => m.cursor.head? = none → m.fault = none) l.checked := by
    unfold checked
    split
    · trivial
    · rename_i hne
      exact fun hhead => Option.eq_none_iff_forall_ne_some.2 fun e => hne e (List.head?_eq_none_iff.1 hhead)
  have hadvance : Yields (fun _ => True) (fun m => m.cursor.head? = none → m.fault = none) l.advance := by
    refine (hchecked _).bind fun l hl => (cursor_dropStale l).map fun m hm hhead => ?_
    rw [cursor_closeTo, hm.1] at hhead
    exact (closeTo_follows _ m).fault_eq.trans (hm.2.trans (hl hhead))
  rw [h] at hadvance
  exact hadvance hend

theorem step_goes (l : Lexer) : l.Goes l.step := by
  have hadvance := advance_goes l
  unfold step
  cases h : l.advance with
  | error e =>
    rw [h] at hadvance
    exact hadvance
  | ok m =>
    rw [h] at hadvance
    refine .of_follows hadvance ?_
    dsimp only [Except.bind]
    split
    · exact Goes.bind (token_goes _ m) fun n _ => checked_goes n
    · rename_i hend
      refine .of_follows (closeTo_follows _ m) (Goes.bind (dropKey_goes _) fun n hn => ?_)
      have hfault : n.fault = none :=
        hn.fault_eq.trans ((closeTo_follows _ m).fault_eq.trans (fault_of_advance h hend))
      refine ⟨rfl, fun t ht _ => ?_⟩
      obtain ht | ht := List.mem_cons.1 ht
      · exact .inr ⟨ht, hfault⟩
      · exact .inl ht

/-- What a run leaves behind the tokens that were there: the end of a text that does not break off, or an error. -/
theorem of_last_mem_run (fuel : Nat) {t : Token} (hlast : t.isLast = true) (h : t ∈ l.run fuel) :
    t ∈ l.output ∨ t = .streamEnd ∧ l.fault = none ∨ ∃ e, t = .broken e ∧ (Lexical e ∨ l.fault = some e) := by
  -- The lexer of each step follows the one before, so the fault is that of the text throughout.
  induction fuel generalizing l with
  | zero => exact .inl h
  | succ fuel ih =>
    have hstep := step_goes l
    unfold run at h
    cases heq : l.step with
    | error e =>
      rw [heq] at h hstep
      obtain ht | ht := List.mem_cons.1 h
      · exact .inr (.inr ⟨e, ht, hstep⟩)
      · exact .inl (List.mem_of_mem_drop ht)
    | ok m =>
      rw [heq] at h hstep
      have hfollows : l.Follows m := hstep
      have hm (ht : t ∈ m.output) : t ∈ l.output ∨ t = .streamEnd ∧ l.fault = none :=
        hfollows.last_mem t ht hlast
      dsimp only at h
      split at h
      · exact (hm h).imp_right .inl
      · obtain ht | ht := ih h
        · exact (hm ht).imp_right .inl
        · exact .inr (hfollows.fault_eq ▸ ht)

variable {s : Stream}

theorem of_broken_mem_tokens {e : Error} (h : .broken e ∈ tokens s) : Lexical e ∨ s.fault = some e := by
  obtain hmem | ⟨hend, -⟩ | ⟨d, hd, hbad⟩ := of_last_mem_run _ rfl (List.mem_reverse.1 h)
  · simp [start] at hmem
  · cases hend
  · cases hd
    exact hbad

theorem fault_of_streamEnd_mem_tokens (h : .streamEnd ∈ tokens s) : s.fault = none := by
  obtain hmem | ⟨-, hfault⟩ | ⟨d, hd, -⟩ := of_last_mem_run _ rfl (List.mem_reverse.1 h)
  · simp [start] at hmem
  · exact hfault
  · cases hd

end Lexer
end Placement.Yaml
