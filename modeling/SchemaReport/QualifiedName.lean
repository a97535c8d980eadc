import SchemaReport.Text.Basic

/-! Qualified names: the dotted path from the root scope to an element, with a dot in front, as in
`.package.Outer.Inner`. The root scope itself is the lone dot. -/

namespace SchemaReport

/-- A text that begins with a dot. -/
@[ext] structure QualifiedName where
  text : String
  head?_text : text.toList.head? = some '.'
  deriving DecidableEq

namespace QualifiedName

/-- The segments of a path in a package, as far as they count: dots at the ends of a segment and
empty segments do not. -/
def kept (package : String) (segments : List String) : List (List Char) :=
  ((package.toList.splitOn '.' ++ segments.map String.toList).map
    (Text.trimBoth (· = '.'))).filter (· ≠ [])

/-- The name of the chain of scopes `segments` in `package`. -/
def ofSegments (package : String) (segments : List String) : QualifiedName where
  text := String.ofList ('.' :: ['.'].intercalate (kept package segments))
  head?_text := by rw [String.toList_ofList, List.head?_cons]

/-- The scope of a package. -/
def ofPackage (package : String) : QualifiedName := ofSegments package []

/-- The element `name` of this scope. Behind the lone dot of the root scope there is no second. -/
def join (n : QualifiedName) (name : String) : QualifiedName where
  text := if n.text.utf8ByteSize = 1 then "." ++ name else n.text ++ "." ++ name
  head?_text := by
    split
    · rw [String.toList_append]
      rfl
    · rw [String.toList_append, String.toList_append, List.head?_append, List.head?_append,
        n.head?_text]
      rfl

end QualifiedName

end SchemaReport
