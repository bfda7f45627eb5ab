/-!
# Texts

White space at both ends of a text, sets of characters, letters of either case, line endings, and the bytes of a
text.
-/

namespace Placement.Text
set_option autoImplicit false

/-- The characters that Unicode calls white space. -/
def isBlank (c : Char) : Bool :=
  let n := c.toNat
  (9 ≤ n && n ≤ 13) || n == 32 || n == 0x85 || n == 0xa0 || n == 0x1680 ||
    (0x2000 ≤ n && n ≤ 0x200a) || n == 0x2028 || n == 0x2029 || n == 0x202f || n == 0x205f ||
    n == 0x3000

/-- Whether a character lies in a set of code points that is given by its edges, the code points in ascending order
at which membership changes. -/
def isWithin (edges : List Nat) (c : Char) : Bool :=
  (edges.takeWhile fun edge => decide (edge ≤ c.toNat)).length % 2 == 1

def trim (cs : List Char) : List Char :=
  ((cs.dropWhile isBlank).reverse.dropWhile isBlank).reverse

def lowered (s : String) : String := String.ofList (s.toList.map Char.toLower)

/-- The text that bytes encode, if they are well-formed. -/
def ofBytes? (bs : List UInt8) : Option String := String.fromUTF8? ⟨bs.toArray⟩

def toBytes (s : String) : List UInt8 := s.toUTF8.toList

/-- Every line ending, of whichever of the three kinds, as a line feed. -/
def unifyLines : List Char → List Char
  | '\r' :: '\n' :: cs => '\n' :: unifyLines cs
  | '\r' :: cs => '\n' :: unifyLines cs
  | c :: cs => c :: unifyLines cs
  | [] => []

theorem unifyLines_of_not_mem {cs : List Char} (h : '\r' ∉ cs) : unifyLines cs = cs := by
  fun_induction unifyLines cs with
  | case1 cs _ => simp at h
  | case2 cs _ _ => simp at h
  | case3 c cs _ _ ih => rw [ih fun hm => h (List.mem_cons_of_mem c hm)]
  | case4 => rfl

end Placement.Text
