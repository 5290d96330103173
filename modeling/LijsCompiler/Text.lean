/-!
# Text

Measures and cuts of a text given as its list of characters.
-/

namespace LijsCompiler.Text

def byteLength : List Char → Nat
  | [] => 0
  | c :: cs => c.utf8Size + byteLength cs

@[simp] theorem byteLength_nil : byteLength [] = 0 := rfl

@[simp] theorem byteLength_cons (c : Char) (cs : List Char) :
    byteLength (c :: cs) = c.utf8Size + byteLength cs := rfl

@[simp] theorem byteLength_append (cs ds : List Char) :
    byteLength (cs ++ ds) = byteLength cs + byteLength ds := by
  induction cs with
  | nil => simp
  | cons c cs ih => simp [ih, Nat.add_assoc]

/-- The part of a text before the first `*/`, and the part after it. -/
def cutAtCommentEnd : List Char → Option (List Char × List Char)
  | [] => none
  | '*' :: '/' :: rest => some ([], rest)
  | c :: rest => (cutAtCommentEnd rest).map fun (body, after) => (c :: body, after)

theorem cutAtCommentEnd_covers {cs body after : List Char}
    (h : cutAtCommentEnd cs = some (body, after)) : body ++ '*' :: '/' :: after = cs := by
  fun_induction cutAtCommentEnd cs generalizing body with
  | case1 => simp at h
  | case2 rest =>
    simp only [Option.some.injEq, Prod.mk.injEq] at h
    simp [← h.1, h.2]
  | case3 c rest _ ih =>
    simp only [Option.map_eq_some_iff, Prod.mk.injEq, Prod.exists] at h
    obtain ⟨b, a, hcut, rfl, rfl⟩ := h
    simp [ih hcut]

/-- The text before the second occurrence of `mark`, or the whole text. -/
def beforeSecond (mark : Char) (cs : List Char) : List Char :=
  let first := cs.takeWhile (· != mark)
  match cs.dropWhile (· != mark) with
  | [] => first
  | c :: rest => first ++ c :: rest.takeWhile (· != mark)

end LijsCompiler.Text
